/-
What an exit closes, over any scalars: of the positions it looks at exactly those for which its decision
gives a price (`closeWhere_ok`). The others stay as they are, in their order (`positions_closed`), and
each closing is one trade (`trades_closings`).

Main statement: an exit block that is not refused closes what its decision tells (`execute_closes`).
-/
import StrategyLab.Proofs.Block.Handler

namespace StrategyLab.Block

variable {α : Type} [Scalar α]

/-! ## The loop over the positions -/

/-- A position that a decision closes, with the price it gives. -/
def chosen (decision : Position α → Except (Fault α) (Option α)) (p : Position α) :
    Option (Position α × α) :=
  match decision p with
  | .ok (some price) => some (p, price)
  | _ => none

theorem closeAt_ok {m : Market α} {p : Position α} {price : α} {l l' : Ledger α} {u : Unit}
    (h : Action.eval (closeAt m p price) l = (.ok u, l')) : l' = l.closedAt m (p, price) := by
  unfold closeAt at h
  obtain ⟨_, l₁, hclosed, h⟩ := Action.eval_bind_ok h
  obtain ⟨_, l₂, hcredit, hrecord⟩ := Action.eval_bind_ok h
  rw [Action.eval_closePosition] at hclosed
  cases hp : l.closePosition p.id with
  | error cause => rw [hp] at hclosed; cases hclosed
  | ok r =>
    obtain ⟨-, hleft⟩ := Ledger.closePosition_ok hp
    rw [hp] at hclosed
    obtain ⟨-, rfl⟩ := Prod.mk.inj hclosed
    rw [Action.eval_credit] at hcredit
    split_ifs at hcredit
    · cases hcredit
    · cases hcredit
      cases hrecord
      rw [hleft]
      rfl

/-- A loop that comes to its end had a decision for every position, and closed those that were to be
closed, in their order. -/
theorem closeWhere_ok {m : Market α} {decision : Position α → Except (Fault α) (Option α)}
    {ps : List (Position α)} {l l' : Ledger α} {exits : List String}
    (h : Action.eval (closeWhere m decision ps) l = (.ok exits, l')) :
    (∀ p ∈ ps, ∃ choice, decision p = .ok choice) ∧
      exits = (ps.filterMap (chosen decision)).map (·.1.asset) ∧
      l' = (ps.filterMap (chosen decision)).foldl (Ledger.closedAt m) l := by
  -- over the positions still to be looked at; the account changes as they are closed
  induction ps generalizing l exits with
  | nil =>
    cases h
    exact ⟨nofun, rfl, rfl⟩
  | cons p rest ih =>
    unfold closeWhere at h
    obtain ⟨choice, hp, h⟩ := Action.eval_read_ok h
    cases choice with
    | none =>
      have hkept : chosen decision p = none := by unfold chosen; rw [hp]
      obtain ⟨hall, hexits, hleft⟩ := ih h
      rw [List.filterMap_cons_none hkept]
      exact ⟨List.forall_mem_cons.2 ⟨⟨_, hp⟩, hall⟩, hexits, hleft⟩
    | some price =>
      have htaken : chosen decision p = some (p, price) := by unfold chosen; rw [hp]
      obtain ⟨_, l₁, hfirst, h⟩ := Action.eval_bind_ok h
      obtain ⟨more, l₂, hrest, h⟩ := Action.eval_bind_ok h
      cases h
      obtain ⟨hall, hexits, hleft⟩ := ih hrest
      rw [List.filterMap_cons_some htaken, List.map_cons, List.foldl_cons, ← hexits, ← closeAt_ok hfirst]
      exact ⟨List.forall_mem_cons.2 ⟨⟨_, hp⟩, hall⟩, rfl, hleft⟩

omit [Scalar α] in
theorem fst_chosen (decision : Position α → Except (Fault α) (Option α)) (ps : List (Position α)) :
    (ps.filterMap (chosen decision)).map (·.1) = ps.filter fun p => (chosen decision p).isSome := by
  induction ps with
  | nil => rfl
  | cons p rest ih =>
    cases hp : chosen decision p with
    | none => rw [List.filterMap_cons_none hp, ih, List.filter_cons_of_neg (by simp [hp])]
    | some c =>
      have hc : c.1 = p := by
        unfold chosen at hp
        split at hp
        · cases hp; rfl
        · cases hp
      rw [List.filterMap_cons_some hp, List.map_cons, ih, hc, List.filter_cons_of_pos (by simp [hp])]

/-! ## After some closings -/

theorem positions_closings (m : Market α) (closings : List (Position α × α)) (l : Ledger α) :
    (closings.foldl (Ledger.closedAt m) l).positions =
      l.positions.filter fun p => !(closings.map (·.1.id)).contains p.id := by
  induction closings generalizing l with
  | nil => simp
  | cons c rest ih =>
    rw [List.foldl_cons, ih]
    show (l.positions.filter (·.id != c.1.id)).filter _ = _
    rw [List.filter_filter]
    refine List.filter_congr fun p _ => ?_
    simp [Bool.and_comm, bne, Bool.not_or]

/-- Where the closings are the positions that a test picks, the others are left. -/
theorem positions_closed {l : Ledger α} (hwf : l.WF) (m : Market α) {closings : List (Position α × α)}
    {closes : Position α → Bool} (h : closings.map (·.1) = l.positions.filter closes) :
    (closings.foldl (Ledger.closedAt m) l).positions = l.positions.filter fun p => !closes p := by
  rw [positions_closings]
  refine List.filter_congr fun p hp => ?_
  have hnodup : (l.positions.map (·.number)).Nodup := hwf.rising.imp fun h => h.ne
  -- no two open positions share a name
  have hnamed : p.id ∈ closings.map (·.1.id) ↔ closes p = true := by
    rw [show closings.map (·.1.id) = (closings.map (·.1)).map (·.id) by rw [List.map_map]; rfl, h]
    constructor
    · intro hid
      obtain ⟨q, hq, hqp⟩ := List.mem_map.1 hid
      obtain ⟨hopen, hcloses⟩ := List.mem_filter.1 hq
      rwa [List.inj_on_of_nodup_map hnodup hopen hp (Position.idOf_injective hqp)] at hcloses
    · intro hcloses
      exact List.mem_map_of_mem (List.mem_filter.2 ⟨hp, hcloses⟩)
  by_cases hp' : closes p = true
  · simp [hp', hnamed.2 hp']
  · simp [hp', mt hnamed.1 hp']

/-- The balances of other tokens are not looked at. -/
theorem lookup_closings (m : Market α) (closings : List (Position α × α)) (l : Ledger α) {token : String}
    (h : ∀ c ∈ closings, c.1.asset ≠ token) :
    (closings.foldl (Ledger.closedAt m) l).balances.lookup token = l.balances.lookup token := by
  induction closings generalizing l with
  | nil => rfl
  | cons c rest ih =>
    obtain ⟨hc, hrest⟩ := List.forall_mem_cons.1 h
    rw [List.foldl_cons, ih _ hrest]
    show (Ledger.putBalance c.1.asset _ l.balances).lookup token = _
    rw [Ledger.lookup_putBalance, if_neg hc.symm]

/-- A trade that records a closing. -/
structure RecordsClosing (m : Market α) (c : Position α × α) (t : Trade α) : Prop where
  timestamp : t.timestamp = m.timestamp
  kind : t.kind = .exit
  token : t.inputToken = c.1.asset
  amount : t.inputAmount = c.1.amount
  price : t.price = c.2
  gas : t.gas = Costs.gas .exit c.2
  fees : t.fees = 0.0
  /-- It gives nothing for what it takes out of the position. -/
  alone : t.outputToken = none ∧ t.outputAmount = none ∧ t.slippage = none

theorem trades_closings (m : Market α) (closings : List (Position α × α)) (l : Ledger α) :
    ∃ new, (closings.foldl (Ledger.closedAt m) l).trades = l.trades ++ new ∧
      List.Forall₂ (RecordsClosing m) closings new := by
  induction closings generalizing l with
  | nil => exact ⟨[], (List.append_nil _).symm, .nil⟩
  | cons c rest ih =>
    obtain ⟨new, htrades, hnew⟩ := ih (l.closedAt m c)
    let first := l.nextRecorded (Action.singleTrade m .exit c.1.asset c.1.amount c.2 0.0)
    have hfirst : RecordsClosing m c first := ⟨rfl, rfl, rfl, rfl, rfl, rfl, rfl, rfl, rfl, rfl⟩
    refine ⟨first :: new, ?_, .cons hfirst hnew⟩
    rw [List.foldl_cons, htrades]
    exact List.append_assoc ..

/-! ## Exit blocks -/

/-- The positions that a block looks at where they are open: no debts, and those in its asset if it
names one. -/
def looksAt (b : Block α) (p : Position α) : Bool :=
  !p.isLiability &&
    match b.param? "asset" with
    | none | some .null => true
    | some (.text asset) => p.asset == asset
    | some _ => false

theorem assetPositions_eq (b : Block α) (l : Ledger α) : b.assetPositions l = l.positions.filter b.looksAt := rfl

/-- How an exit block decides about a position, by its kind and its params. -/
inductive Decides (b : Block α) (m : Market α) : BlockKind → (Position α → Except (Fault α) (Option α)) → Prop where
  | stopLoss {threshold : α} : b.positive "percentage" (some 10.0) = .ok threshold →
      Decides b m .stopLoss (atMarket m fun p price => do
        let change ← changePercent p price.value
        pure (decide (threshold ≤ -change)))
  | takeProfit {target : α} : b.positive "percentage" (some 20.0) = .ok target →
      Decides b m .takeProfit (atMarket m fun p price => do
        let change ← changePercent p price.value
        pure (decide (target ≤ change)))
  | timeExit {milliseconds : α} : b.positive "duration" (some 86400000.0) = .ok milliseconds →
      Decides b m .timeExit fun p => do
        let duration ← Duration.ofMilliseconds (.real milliseconds)
        whenAged m duration p
  | conditionalExit {condition : String} {parsed : ExitCondition α} : b.text "condition" = .ok condition →
      ExitCondition.read? condition = some parsed → Decides b m .conditionalExit (atMarket m (meets parsed))

/-- What a block closes by a decision. -/
def closings (b : Block α) (decision : Position α → Except (Fault α) (Option α)) (l : Ledger α) :
    List (Position α × α) :=
  (b.assetPositions l).filterMap (chosen decision)

/-- A block that came to its outcome by a decision: it closed what it had to, and says so. -/
structure Closes (b : Block α) (m : Market α) (decision : Position α → Except (Fault α) (Option α))
    (l : Ledger α) (o : Outcome α) (l' : Ledger α) : Prop where
  decided : ∀ p ∈ b.assetPositions l, ∃ choice, decision p = .ok choice
  left : l' = (b.closings decision l).foldl (Ledger.closedAt m) l
  ok : o.ok = true
  fired : o.fired = true ↔ b.closings decision l ≠ []
  exits : b.closings decision l ≠ [] →
    o.payload.lookup "exits" = some (.texts ((b.closings decision l).map (·.1.asset)))

theorem Closes.nothing {b : Block α} {m : Market α} {l : Ledger α} (h : (b.assetPositions l).isEmpty = true)
    (decision : Position α → Except (Fault α) (Option α)) (message : String) (payload : List (String × Value α)) :
    Closes b m decision l (.idle message payload) l := by
  have hempty : b.assetPositions l = [] := List.isEmpty_iff.1 h
  have hnone : b.closings decision l = [] := by unfold closings; rw [hempty]; rfl
  constructor
  · rw [hempty]; exact nofun
  · rw [hnone]; rfl
  · rfl
  · simp [Outcome.idle, hnone]
  · intro hsome
    exact absurd hnone hsome

/-- The loop over the positions, and a report on it that lists what was closed. -/
theorem Closes.reported {b : Block α} {m : Market α} {l l' : Ledger α} {o : Outcome α}
    {decision : Position α → Except (Fault α) (Option α)} {kept closed : List String → String}
    {payload : List String → List (String × Value α)}
    (hpayload : ∀ exits, (payload exits).lookup "exits" = some (.texts exits))
    (h : Action.eval (closeWhere m decision (b.assetPositions l) >>= fun exits =>
      if exits.isEmpty then pure (.idle (kept exits) (payload exits))
      else pure (.didFire (closed exits) (payload exits))) l = (.ok o, l')) :
    Closes b m decision l o l' := by
  obtain ⟨exits, l₁, hloop, h⟩ := Action.eval_bind_ok h
  obtain ⟨hall, hexits, hleft⟩ := closeWhere_ok hloop
  have hnone : exits.isEmpty = true ↔ b.closings decision l = [] := by
    rw [List.isEmpty_iff, hexits, List.map_eq_nil_iff]
    rfl
  split_ifs at h with hempty
  · cases h
    refine ⟨hall, hleft, rfl, ?_, fun hsome => absurd (hnone.1 hempty) hsome⟩
    simp [Outcome.idle, hnone.1 hempty]
  · cases h
    refine ⟨hall, hleft, rfl, ?_, fun _ => ?_⟩
    · simp [Outcome.didFire, mt hnone.2 hempty]
    · exact (hpayload exits).trans (congrArg (fun names => some (Value.texts names)) hexits)

theorem stopLoss_closes {b : Block α} {m : Market α} {l l' : Ledger α} {o : Outcome α}
    (h : Action.eval (b.stopLoss m) l = (.ok o, l')) :
    ∃ decision, Decides b m .stopLoss decision ∧ Closes b m decision l o l' := by
  unfold stopLoss at h
  obtain ⟨threshold, ht, h⟩ := Action.eval_read_ok h
  replace h := Action.eval_look_ok h
  refine ⟨_, .stopLoss ht, ?_⟩
  dsimp only at h
  split at h
  · rename_i hempty
    cases h
    exact .nothing hempty ..
  · exact .reported (fun _ => rfl) h

theorem takeProfit_closes {b : Block α} {m : Market α} {l l' : Ledger α} {o : Outcome α}
    (h : Action.eval (b.takeProfit m) l = (.ok o, l')) :
    ∃ decision, Decides b m .takeProfit decision ∧ Closes b m decision l o l' := by
  unfold takeProfit at h
  obtain ⟨target, ht, h⟩ := Action.eval_read_ok h
  replace h := Action.eval_look_ok h
  refine ⟨_, .takeProfit ht, ?_⟩
  dsimp only at h
  split at h
  · rename_i hempty
    cases h
    exact .nothing hempty ..
  · exact .reported (fun _ => rfl) h

theorem timeExit_closes {b : Block α} {m : Market α} {l l' : Ledger α} {o : Outcome α}
    (h : Action.eval (b.timeExit m) l = (.ok o, l')) :
    ∃ decision, Decides b m .timeExit decision ∧ Closes b m decision l o l' := by
  unfold timeExit at h
  obtain ⟨milliseconds, ht, h⟩ := Action.eval_read_ok h
  replace h := Action.eval_look_ok h
  refine ⟨_, .timeExit ht, ?_⟩
  dsimp only at h
  split at h
  · rename_i hempty
    cases h
    exact .nothing hempty ..
  · obtain ⟨duration, hd, h⟩ := Action.eval_read_ok h
    rw [hd]
    exact .reported (fun _ => rfl) h

theorem conditionalExit_closes {b : Block α} {m : Market α} {l l' : Ledger α} {o : Outcome α}
    (h : Action.eval (b.conditionalExit m) l = (.ok o, l')) :
    ∃ decision, Decides b m .conditionalExit decision ∧ Closes b m decision l o l' := by
  unfold conditionalExit at h
  obtain ⟨condition, ht, h⟩ := Action.eval_read_ok h
  split at h
  · rename_i parsed hparsed
    replace h := Action.eval_look_ok h
    refine ⟨_, .conditionalExit ht hparsed, ?_⟩
    dsimp only at h
    split at h
    · rename_i hempty
      cases h
      exact .nothing hempty ..
    · exact .reported (fun _ => rfl) h
  · cases h

/-- An exit block that is not rejected closes what its decision tells. -/
theorem execute_closes {b : Block α} {m : Market α} {l l' : Ledger α} {o : Outcome α} {kind : BlockKind}
    (hk : b.kind? = some kind) (hexit : kind.category = .exit) (h : b.execute m l = (.ok o, l'))
    (hok : o.ok = true) : ∃ decision, Decides b m kind decision ∧ Closes b m decision l o l' := by
  have heval : Action.eval (b.act kind m) l = (.ok o, l') := by
    rcases execute_ok hk h with he | ⟨f, -, hr⟩
    · exact he
    · -- an outcome that stands for a fault is not in order
      rw [reported?_ok hr] at hok
      cases hok
  cases kind with
  | stopLoss => exact stopLoss_closes heval
  | takeProfit => exact takeProfit_closes heval
  | timeExit => exact timeExit_closes heval
  | conditionalExit => exact conditionalExit_closes heval
  | _ => cases hexit

end StrategyLab.Block
