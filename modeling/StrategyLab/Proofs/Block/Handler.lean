/-
A block has its whole effect or none (`Atomic`), over any scalars: the questions it asks come
before its first move, and no move after the first is refused with a reason that is only reported.
The two legs of liquidity are apart from this: each balance is asked for its own leg alone, so legs
in one token can be refused halfway (`Overdraws`).

Main statements: what an executed block left, when it answers an outcome (`execute_whole`,
`execute_overdrawn`).
-/
import StrategyLab.Proofs.Block.Effect

namespace StrategyLab.Block

variable {α : Type} [Scalar α]

/-! ## All or nothing -/

/-- A result that left what `E` allows if the block fired, and else the account `l`; a fault that
is raised and not reported may leave anything. -/
def Atomic (E : Ledger α → Prop) (l : Ledger α) : Except (Fault α) (Outcome α) × Ledger α → Prop
  | (.ok o, l') => if o.fired then E l' else l' = l
  | (.error f, l') => reported? f = none ∨ l' = l

section

variable {E : Ledger α → Prop} {l₀ l : Ledger α}

theorem Atomic.fired {message : String} {payload : List (String × Value α)} (h : E l) :
    Atomic E l₀ (Action.eval (pure (.didFire message payload)) l) := h

theorem Atomic.idle (message : String) (payload : List (String × Value α)) :
    Atomic E l (Action.eval (pure (.idle message payload)) l) := rfl

/-- A question that ends the block leaves the account alone. -/
theorem Atomic.read {β : Type} {x : Except (Fault α) β} {f : β → Action α (Outcome α)}
    (hf : ∀ a, x = .ok a → Atomic E l (Action.eval (f a) l)) :
    Atomic E l (Action.eval (liftM x >>= f) l) := by
  rw [Action.eval_bind, Action.eval_lift]
  cases x with
  | error e => exact .inr rfl
  | ok a => exact hf a rfl

theorem Atomic.look {f : Ledger α → Action α (Outcome α)} (hf : Atomic E l₀ (Action.eval (f l) l)) :
    Atomic E l₀ (Action.eval (get >>= f) l) := by
  rw [Action.eval_bind_of_ok (Action.eval_get l)]; exact hf

/-- A debit that the balance covers is refused for a negative amount only, which is raised. -/
theorem Atomic.debit {token : String} {x : α} {f : Unit → Action α (Outcome α)}
    (hx : ¬ l.balance token < x) (hf : Atomic E l₀ (Action.eval (f ()) (l.pay token x))) :
    Atomic E l₀ (Action.eval (Action.debit token x >>= f) l) := by
  rw [Action.eval_bind, Action.eval_debit]
  split_ifs
  · exact .inl rfl
  · exact hf

theorem Atomic.credit {token : String} {x : α} {f : Unit → Action α (Outcome α)}
    (hf : Atomic E l₀ (Action.eval (f ()) (l.gain token x))) :
    Atomic E l₀ (Action.eval (Action.credit token x >>= f) l) := by
  rw [Action.eval_bind, Action.eval_credit]
  split_ifs
  · exact .inl rfl
  · exact hf

/-- A reduction comes first: a refusal of it leaves the account alone. -/
theorem Atomic.reduce {id : String} {x : α} {f : α → Action α (Outcome α)}
    (hf : ∀ p l', l.reducePosition id (.real x) = .ok (p, l') → Atomic E l (Action.eval (f p.amount) l')) :
    Atomic E l (Action.eval (Action.reducePosition id x >>= f) l) := by
  rw [Action.eval_bind, Action.eval_reducePosition]
  cases h : l.reducePosition id (.real x) with
  | error e => exact .inr rfl
  | ok r => exact hf r.1 r.2 h

theorem Atomic.opens {p : Ledger.NewPosition α} {f : String → Action α (Outcome α)}
    (hf : Atomic E l₀ (Action.eval (f (l.nextOpened p).id) (l.openPosition p))) :
    Atomic E l₀ (Action.eval (Action.openPosition p >>= f) l) := by
  rw [Action.eval_bind_of_ok (Action.eval_openPosition p l)]; exact hf

theorem Atomic.record {t : Ledger.NewTrade α} {f : Unit → Action α (Outcome α)}
    (hf : Atomic E l₀ (Action.eval (f ()) (l.recordTrade t))) :
    Atomic E l₀ (Action.eval (Action.record t >>= f) l) := by
  rw [Action.eval_bind_of_ok (Action.eval_record t l)]; exact hf

end

/-! ## Handlers -/

/-- The kinds that only look at the account, and answer from what they see. -/
theorem reads_atomic {b : Block α} {m : Market α} {l : Ledger α} {kind : BlockKind}
    (hk : kind.category = .entry ∨ kind.category = .risk) (x : Except (Fault α) (Outcome α)) :
    Atomic (Effect b m l kind) l (Action.eval (liftM x) l) := by
  rw [Action.eval_lift]
  cases x with
  | error e => exact .inr rfl
  | ok o =>
    show if o.fired then Effect b m l kind l else l = l
    split
    · exact .report hk
    · rfl

theorem swap_atomic (e : Exchange) (b : Block α) (m : Market α) (l : Ledger α) :
    Atomic (Effect b m l (.swap e)) l (Action.eval (b.swap e m) l) := by
  unfold Block.swap
  refine Atomic.look (Atomic.read fun o ho => ?_)
  unfold SwapOrder.perform
  refine Atomic.debit (swapOrder_ok ho).covered (Atomic.credit (Atomic.record (Atomic.fired ?_)))
  exact .swap ho

/-- Depositing a stake that the balance covers, whatever is done with the answer. -/
theorem Atomic.deposit {E : Ledger α → Prop} {l : Ledger α} {m : Market α} {s : Stake α} {kind : PositionKind}
    {trade : TradeKind} {protocol : String} {apy : α} {f : String → Action α (Outcome α)}
    (hs : ¬ l.balance s.asset < s.amount)
    (hf : ∀ id, Atomic E l (Action.eval (f id) (s.deposited m kind trade protocol apy l))) :
    Atomic E l (Action.eval (Block.deposit m s kind trade protocol apy >>= f) l) := by
  unfold Block.deposit
  simp only [bind_assoc, pure_bind]
  exact Atomic.debit hs (Atomic.opens (Atomic.record (hf _)))

theorem supply_atomic (lender : Lender) (b : Block α) (m : Market α) (l : Ledger α) :
    Atomic (Effect b m l (.supply lender)) l (Action.eval (b.supply lender m) l) := by
  unfold Block.supply
  refine Atomic.look (Atomic.read fun ⟨s, apy⟩ ho => ?_)
  exact Atomic.deposit (depositOrder_ok ho).2.1 fun id => Atomic.fired (.supply ho)

theorem staking_atomic (b : Block α) (m : Market α) (l : Ledger α) :
    Atomic (Effect b m l .staking) l (Action.eval (b.staking m) l) := by
  unfold Block.staking
  refine Atomic.look (Atomic.read fun ⟨s, apy⟩ ho => ?_)
  exact Atomic.deposit (depositOrder_ok ho).2.1 fun id => Atomic.fired (.staking _ ho)

theorem borrow_atomic (lender : Lender) (b : Block α) (m : Market α) (l : Ledger α) :
    Atomic (Effect b m l (.borrow lender)) l (Action.eval (b.borrow lender m) l) := by
  unfold Block.borrow
  refine Atomic.look (Atomic.read fun ⟨s, apy⟩ ho => ?_)
  exact Atomic.credit (Atomic.opens (Atomic.record (Atomic.fired (.borrow ho))))

/-- The reduction leaves the balance alone, so that the debit after it is covered as before. -/
theorem repay_atomic (b : Block α) (m : Market α) (l : Ledger α) :
    Atomic (Effect b m l .repay) l (Action.eval (b.repay .aave m) l) := by
  unfold Block.repay
  refine Atomic.look (Atomic.read fun ⟨debt, s⟩ ho => ?_)
  refine Atomic.reduce fun left l' hl => ?_
  have hcov : ¬ l'.balance s.asset < s.amount := by
    rw [Ledger.balance_reducePosition hl]
    exact (repayOrder_ok ho).2.1
  exact Atomic.debit hcov (Atomic.record (Atomic.fired (.repay ho hl)))

theorem withdraw_atomic (b : Block α) (m : Market α) (l : Ledger α) :
    Atomic (Effect b m l .withdraw) l (Action.eval (b.withdraw .aave m) l) := by
  unfold Block.withdraw
  refine Atomic.look (Atomic.read fun ⟨supplied, s⟩ ho => ?_)
  refine Atomic.reduce fun left l' hl => ?_
  exact Atomic.credit (Atomic.record (Atomic.fired (.withdraw ho hl)))

theorem flashLoan_atomic (b : Block α) (m : Market α) (l : Ledger α) :
    Atomic (Effect b m l .flashLoan) l (Action.eval (b.flashLoan m) l) := by
  unfold Block.flashLoan
  refine Atomic.look (Atomic.read fun ⟨s, fee⟩ ho => ?_)
  exact Atomic.debit (flashLoanOrder_ok ho).2.2.1 (Atomic.record (Atomic.fired (.flashLoan ho)))

/-! ## Exits -/

theorem closedAt_wf {m : Market α} {l : Ledger α} (h : l.WF) (c : Position α × α) : (l.closedAt m c).WF :=
  ((h.withPositions (List.filter_sublist.map _)).withBalance ..).recordTrade _

/-- After the first of some open positions was closed the others are open, since no other position
has the name of the closed one. -/
theorem rest_open {m : Market α} {l : Ledger α} (hwf : l.WF) {p : Position α} {rest : List (Position α)}
    (hps : (p :: rest).Sublist l.positions) (price : α) :
    rest.Sublist (l.closedAt m (p, price)).positions := by
  have hrise := hwf.rising.sublist (hps.map (·.number))
  rw [List.map_cons, List.pairwise_cons] at hrise
  have hother : ∀ q ∈ rest, (q.id != p.id) = true := by
    intro q hq
    have hlt : p.number < q.number := hrise.1 q.number (List.mem_map_of_mem hq)
    have hid : q.id ≠ p.id := fun hid => hlt.ne' (Position.idOf_injective hid)
    simpa using hid
  have hrest : (p :: rest).filter (·.id != p.id) = rest := by
    rw [List.filter_cons_of_neg (by simp), List.filter_eq_self.2 hother]
  rw [← hrest]
  exact hps.filter _

/-- Closing an open position is refused for a negative amount only, which is raised. -/
theorem eval_closeAt {m : Market α} {l : Ledger α} {p : Position α} (h : l.position? p.id = some p)
    (price : α) : (∃ e l', Action.eval (closeAt m p price) l = (.error e, l') ∧ reported? e = none) ∨
      Action.eval (closeAt m p price) l = (.ok (), l.closedAt m (p, price)) := by
  have hc : l.closePosition p.id = .ok (p, { l with positions := l.positions.filter (·.id != p.id) }) := by
    unfold Ledger.closePosition; rw [h]
  unfold closeAt
  rw [Action.eval_bind, Action.eval_closePosition, hc]
  dsimp only
  rw [Action.eval_bind, Action.eval_credit]
  split_ifs
  · exact .inl ⟨_, _, rfl, rfl⟩
  · exact .inr rfl

/-- Closing some of the open positions: a fault of the decision or a negative amount is raised,
and else those closed are the ones answered, in the order of their opening. -/
theorem eval_closeWhere {m : Market α} {decision : Position α → Except (Fault α) (Option α)}
    (hd : ∀ p e, decision p = .error e → reported? e = none) :
    ∀ (ps : List (Position α)) (l : Ledger α), l.WF → ps.Sublist l.positions →
      (∃ e l', Action.eval (closeWhere m decision ps) l = (.error e, l') ∧ reported? e = none) ∨
      ∃ closings : List (Position α × α), (closings.map (·.1)).Sublist ps ∧
        Action.eval (closeWhere m decision ps) l =
          (.ok (closings.map (·.1.asset)), closings.foldl (Ledger.closedAt m) l) := by
  intro ps
  -- on the positions that are still to be looked at; the account changes as they are closed
  induction ps with
  | nil =>
    intro l _ _
    exact .inr ⟨[], .slnil, rfl⟩
  | cons p rest ih =>
    intro l hwf hps
    unfold closeWhere
    rw [Action.eval_bind, Action.eval_lift]
    cases hp : decision p with
    | error e => exact .inl ⟨e, l, rfl, hd p e hp⟩
    | ok choice =>
      cases choice with
      | none =>
        rcases ih l hwf ((List.sublist_cons_self p rest).trans hps) with h | ⟨closings, hs, h⟩
        · exact .inl h
        · exact .inr ⟨closings, hs.cons p, h⟩
      | some price =>
        -- the position is open when its turn comes, so that closing it is not refused
        have hmem : p ∈ l.positions := hps.subset (List.mem_cons_self ..)
        dsimp only
        rcases eval_closeAt (m := m) (hwf.position?_id hmem) price with ⟨e, l', h, hr⟩ | h
        · exact .inl ⟨e, l', Action.eval_bind_of_error h, hr⟩
        rw [Action.eval_bind_of_ok h, Action.eval_bind]
        rcases ih _ (closedAt_wf hwf (p, price)) (rest_open hwf hps price) with ⟨e, l', h, hr⟩ | ⟨closings, hs, h⟩
        · exact .inl ⟨e, l', by rw [h], hr⟩
        · exact .inr ⟨(p, price) :: closings, hs.cons_cons p, by rw [h]; rfl⟩

/-- What an exit answers after it closed some positions. -/
theorem Atomic.closes {b : Block α} {m : Market α} {l : Ledger α} {kind : BlockKind}
    {decision : Position α → Except (Fault α) (Option α)} {f : List String → Action α (Outcome α)}
    (hk : kind.category = .exit) (hwf : l.WF) (hd : ∀ p e, decision p = .error e → reported? e = none)
    (hnone : Atomic (Effect b m l kind) l (Action.eval (f []) l))
    (hsome : ∀ asset rest l', Effect b m l kind l' →
      Atomic (Effect b m l kind) l (Action.eval (f (asset :: rest)) l')) :
    Atomic (Effect b m l kind) l (Action.eval (closeWhere m decision (b.assetPositions l) >>= f) l) := by
  rw [Action.eval_bind]
  rcases eval_closeWhere hd (b.assetPositions l) l hwf List.filter_sublist with ⟨e, l', h, hr⟩ | ⟨closings, hs, h⟩
  · rw [h]; exact .inl hr
  · rw [h]
    -- with nothing closed the account is still the one before
    cases closings with
    | nil => exact hnone
    | cons c rest => exact hsome _ _ _ (.exit hk (by simp) hs)

/-- The change of a value is undefined for a value of zero only, which is raised. -/
theorem changePercent_fault {γ : Type} {p : Position α} {price : α} {g : α → γ} {e : Fault α}
    (h : (do pure (g (← changePercent p price)) : Except (Fault α) γ) = .error e) : reported? e = none := by
  unfold changePercent at h
  dsimp only at h
  split at h
  · cases h; rfl
  · cases h

theorem atMarket_fault {m : Market α} {condition : Position α → Num α → Except (Fault α) Bool}
    (hc : ∀ p price e, condition p price = .error e → reported? e = none) (p : Position α) (e : Fault α)
    (h : atMarket m condition p = .error e) : reported? e = none := by
  unfold atMarket at h
  split at h
  · cases h
  · rename_i price _
    split at h
    · cases h
    · cases hp : condition p price with
      | error e' => rw [hp] at h; cases h; exact hc p price _ hp
      | ok x => rw [hp] at h; cases h

theorem stopLoss_atomic (b : Block α) (m : Market α) {l : Ledger α} (hwf : l.WF) :
    Atomic (Effect b m l .stopLoss) l (Action.eval (b.stopLoss m) l) := by
  unfold stopLoss
  refine Atomic.read fun threshold _ => Atomic.look ?_
  dsimp only
  split
  · exact Atomic.idle ..
  · exact Atomic.closes rfl hwf (atMarket_fault fun p price e h => changePercent_fault h) (Atomic.idle ..)
      fun asset rest l' h => Atomic.fired h

theorem takeProfit_atomic (b : Block α) (m : Market α) {l : Ledger α} (hwf : l.WF) :
    Atomic (Effect b m l .takeProfit) l (Action.eval (b.takeProfit m) l) := by
  unfold takeProfit
  refine Atomic.read fun target _ => Atomic.look ?_
  dsimp only
  split
  · exact Atomic.idle ..
  · exact Atomic.closes rfl hwf (atMarket_fault fun p price e h => changePercent_fault h) (Atomic.idle ..)
      fun asset rest l' h => Atomic.fired h

/-- An age that cannot be measured is raised. -/
theorem whenAged_fault {m : Market α} {duration : Int} {p : Position α} {e : Fault α}
    (h : whenAged m duration p = .error e) : reported? e = none := by
  unfold whenAged isAged Instant.elapsed? at h
  cases hm : m.timestamp.minus? p.opened with
  | none => rw [hm] at h; cases h
  | some age =>
    rw [hm] at h
    dsimp only at h
    split at h
    · cases h
    · cases h; rfl

theorem timeExit_atomic (b : Block α) (m : Market α) {l : Ledger α} (hwf : l.WF) :
    Atomic (Effect b m l .timeExit) l (Action.eval (b.timeExit m) l) := by
  unfold timeExit
  refine Atomic.read fun milliseconds _ => Atomic.look ?_
  dsimp only
  split
  · exact Atomic.idle ..
  · refine Atomic.read fun duration _ => ?_
    exact Atomic.closes rfl hwf (fun p e h => whenAged_fault h) (Atomic.idle ..)
      fun asset rest l' h => Atomic.fired h

theorem meets_fault {c : ExitCondition α} {p : Position α} {price : Num α} {e : Fault α}
    (h : meets c p price = .error e) : reported? e = none := by
  unfold meets at h
  cases hc : c.measure <;> rw [hc] at h
  · cases h
  all_goals
    simp only [pure_bind] at h
    exact changePercent_fault h

theorem conditionalExit_atomic (b : Block α) (m : Market α) {l : Ledger α} (hwf : l.WF) :
    Atomic (Effect b m l .conditionalExit) l (Action.eval (b.conditionalExit m) l) := by
  unfold conditionalExit
  refine Atomic.read fun condition _ => ?_
  split
  · refine Atomic.look ?_
    dsimp only
    split
    · exact Atomic.idle ..
    · exact Atomic.closes rfl hwf (atMarket_fault fun p price e h => meets_fault h) (Atomic.idle ..)
        fun asset rest l' h => Atomic.fired h
  · exact .inr rfl

/-! ## Liquidity -/

/-- A leg is refused for a negative amount, which is raised, or for its balance. -/
theorem eval_provideLeg (m : Market α) (pool : String) (leg : Stake α) (l : Ledger α) :
    (∃ e, Action.eval (provideLeg m pool leg) l = (.error e, l) ∧ reported? e = none) ∨
    ((leg.amount ≤ 0.0 ∨ ¬ l.balance leg.asset < leg.amount) ∧
      Action.eval (provideLeg m pool leg) l = (.ok (), leg.provided m pool l)) ∨
    (¬ leg.amount ≤ 0.0 ∧ l.balance leg.asset < leg.amount ∧
      ∃ e o, Action.eval (provideLeg m pool leg) l = (.error e, l) ∧ reported? e = some o) := by
  unfold provideLeg Stake.provided
  split
  · rename_i hempty
    exact .inr (.inl ⟨.inl hempty, rfl⟩)
  · rename_i hpos
    rw [Action.eval_bind, Action.eval_debit]
    split_ifs with hneg hbal
    · exact .inl ⟨_, rfl, rfl⟩
    · exact .inr (.inr ⟨hpos, hbal, _, _, rfl, rfl⟩)
    · exact .inr (.inl ⟨.inr hbal, rfl⟩)

/-- The first leg takes from the second one's balance exactly if both are in one token. -/
theorem balance_provided (m : Market α) (pool : String) (leg : Stake α) (l : Ledger α) (token : String) :
    (leg.provided m pool l).balance token =
      if leg.amount ≤ 0.0 then l.balance token
      else if token = leg.asset then l.balance leg.asset - leg.amount else l.balance token := by
  unfold Stake.provided
  split
  · rfl
  · rw [Ledger.balance_openPosition, Ledger.balance_pay]

/-- Two legs are both provided, unless they overdraw the balance: then the first one stays. -/
theorem eval_liquidity {b : Block α} {m : Market α} {l : Ledger α} {leg0 leg1 : Stake α}
    (ho : b.liquidityOrder m l = .ok (leg0, leg1)) :
    (∃ e l', Action.eval (b.liquidity m) l = (.error e, l') ∧ reported? e = none) ∨
    (¬ leg0.Overdraw leg1 l ∧ ∃ o, Action.eval (b.liquidity m) l = (.ok o, leg0.pooled m leg1 l) ∧ o.fired = true) ∨
    (leg0.Overdraw leg1 l ∧ ∃ e o, Action.eval (b.liquidity m) l =
      (.error e, leg0.provided m (leg0.pool leg1) l) ∧ reported? e = some o) := by
  have hpools := liquidityOrder_ok ho
  -- the order is read before the first leg, and both legs go into the pool named after them
  have heval : Action.eval (b.liquidity m) l = Action.eval (do
      provideLeg m (leg0.pool leg1) leg0
      provideLeg m (leg0.pool leg1) leg1
      Action.record (leg0.poolTrade m leg1)
      pure (.didFire ("Added liquidity: " ++ leg0.shown ++ " + " ++ leg1.shown)
        [("pool", .text (leg0.pool leg1)), ("fee_tier", Value.ofOption (b.param? "fee_tier")),
          ("gas_cost_usd", .real (Costs.gas .liquidity leg0.price))])) l := by
    unfold liquidity
    rw [Action.eval_bind_of_ok (Action.eval_get l), Action.eval_bind, Action.eval_lift, ho]
    rfl
  rw [heval]
  rcases eval_provideLeg m (leg0.pool leg1) leg0 l with ⟨e, h0, hr⟩ | ⟨-, h0⟩ | ⟨-, hshort, -⟩
  · exact .inl ⟨e, l, Action.eval_bind_of_error h0, hr⟩
  · rw [Action.eval_bind_of_ok h0]
    rcases eval_provideLeg m (leg0.pool leg1) leg1 (leg0.provided m (leg0.pool leg1) l) with
      ⟨e, h1, hr⟩ | ⟨hfits, h1⟩ | ⟨hpos1, hshort, e, o, h1, hr⟩
    · exact .inl ⟨e, _, Action.eval_bind_of_error h1, hr⟩
    · have hno : ¬ leg0.Overdraw leg1 l := by
        rintro ⟨hsame, hpos0, hpos1, hless⟩
        rw [balance_provided, if_neg hpos0, if_pos hsame.symm] at hfits
        exact hfits.elim hpos1 fun h => h hless
      exact .inr (.inl ⟨hno, _, Action.eval_bind_of_ok h1, rfl⟩)
    · -- the second leg fitted into its balance before the first one, so that they share it
      have hover : leg0.Overdraw leg1 l := by
        rw [balance_provided] at hshort
        split_ifs at hshort with hpos0 hsame
        · exact absurd hshort hpools.covered1
        · exact ⟨hsame.symm, hpos0, hpos1, hshort⟩
        · exact absurd hshort hpools.covered1
      exact .inr (.inr ⟨hover, e, o, Action.eval_bind_of_error h1, hr⟩)
  · exact absurd hshort hpools.covered0

theorem liquidity_atomic {b : Block α} {m : Market α} {l : Ledger α} (hk : b.kind? = some .liquidity)
    (h : ¬ b.Overdraws m l) : Atomic (Effect b m l .liquidity) l (Action.eval (b.liquidity m) l) := by
  cases ho : b.liquidityOrder m l with
  | error e =>
    unfold liquidity
    rw [Action.eval_bind_of_ok (Action.eval_get l), Action.eval_bind, Action.eval_lift, ho]
    exact .inr rfl
  | ok legs =>
    rcases eval_liquidity ho with ⟨e, l', he, hr⟩ | ⟨-, o, he, hf⟩ | ⟨hover, -⟩
    · rw [he]; exact .inl hr
    · rw [he]
      show if o.fired then _ else _
      rw [if_pos hf]
      exact .liquidity ho
    · exact absurd ⟨hk, legs.1, legs.2, ho, hover⟩ h

/-! ## Every kind -/

/-- A block that closes no positions and does not overdraw acts as a whole or not at all. -/
theorem act_atomic_of_ne_exit {b : Block α} {m : Market α} {l : Ledger α} {kind : BlockKind}
    (hexit : kind.category ≠ .exit) (hk : b.kind? = some kind) (h : ¬ b.Overdraws m l) :
    Atomic (Effect b m l kind) l (Action.eval (b.act kind m) l) := by
  cases kind with
  | priceTrigger => exact reads_atomic (.inl rfl) _
  | timeTrigger => exact reads_atomic (.inl rfl) _
  | volumeTrigger => exact reads_atomic (.inl rfl) _
  | indicatorTrigger => exact reads_atomic (.inl rfl) _
  | swap e => exact swap_atomic e b m l
  | supply lender => exact supply_atomic lender b m l
  | borrow lender => exact borrow_atomic lender b m l
  | repay => exact repay_atomic b m l
  | withdraw => exact withdraw_atomic b m l
  | liquidity => exact liquidity_atomic hk h
  | flashLoan => exact flashLoan_atomic b m l
  | staking => exact staking_atomic b m l
  | stopLoss | takeProfit | timeExit | conditionalExit => exact absurd rfl hexit
  | positionSizing => exact reads_atomic (.inr rfl) _
  | riskLimits => exact reads_atomic (.inr rfl) (.ok b.riskLimits)
  | rebalancing => exact Atomic.look (reads_atomic (.inr rfl) _)

/-- Whatever its kind, a block that does not overdraw acts as a whole or not at all. -/
theorem act_atomic {b : Block α} {m : Market α} {l : Ledger α} {kind : BlockKind} (hwf : l.WF)
    (hk : b.kind? = some kind) (h : ¬ b.Overdraws m l) :
    Atomic (Effect b m l kind) l (Action.eval (b.act kind m) l) := by
  cases kind with
  | stopLoss => exact stopLoss_atomic b m hwf
  | takeProfit => exact takeProfit_atomic b m hwf
  | timeExit => exact timeExit_atomic b m hwf
  | conditionalExit => exact conditionalExit_atomic b m hwf
  | _ => exact act_atomic_of_ne_exit (by simp [BlockKind.category]) hk h

omit [Scalar α] in
theorem execute_answered {r : Except (Fault α) (Outcome α) × Ledger α} {flag : Bool}
    (h : r.1.toOption.map (·.fired) = some flag) : ∃ o, r = (.ok o, r.2) ∧ o.fired = flag := by
  rcases r with ⟨x, l⟩
  cases x with
  | error f => cases h
  | ok o => exact ⟨o, rfl, Option.some.inj h⟩

/-- Two legs that overdraw do not fire, and the first one is left. -/
theorem execute_overdraw {b : Block α} {m : Market α} {l l' : Ledger α} {o : Outcome α} {leg0 leg1 : Stake α}
    (hk : b.kind? = some .liquidity) (ho : b.liquidityOrder m l = .ok (leg0, leg1)) (hdraw : leg0.Overdraw leg1 l)
    (h : b.execute m l = (.ok o, l')) : o.fired = false ∧ l' = leg0.provided m (leg0.pool leg1) l := by
  have heval : Action.eval (b.act .liquidity m) l = Action.eval (b.liquidity m) l := rfl
  rw [execute_eq hk, heval] at h
  rcases eval_liquidity ho with ⟨e, l'', he, hr⟩ | ⟨hno, -⟩ | ⟨-, e, o', he, hr⟩
  · rw [he, answered_raised hr] at h; cases h
  · exact absurd hdraw hno
  · rw [he, answered_reported hr] at h
    cases h
    exact ⟨reported?_fired hr, rfl⟩

/-- A block that overdraws does not fire and leaves its first leg. -/
theorem execute_overdrawn {b : Block α} {m : Market α} {l l' : Ledger α} {o : Outcome α}
    (hover : b.Overdraws m l) (h : b.execute m l = (.ok o, l')) : o.fired = false ∧
      ∃ leg0 leg1 : Stake α, ¬ leg0.amount ≤ 0.0 ∧ l' = leg0.provided m (leg0.pool leg1) l := by
  obtain ⟨hk, leg0, leg1, ho, hdraw⟩ := hover
  obtain ⟨hf, hleft⟩ := execute_overdraw hk ho hdraw h
  exact ⟨hf, leg0, leg1, hdraw.2.1, hleft⟩

/-- A block that acts as a whole or not at all has its effect if it fires, and else none. -/
theorem execute_atomic {b : Block α} {m : Market α} {l l' : Ledger α} {o : Outcome α} {kind : BlockKind}
    {E : Ledger α → Prop} (hk : b.kind? = some kind) (hat : Atomic E l (Action.eval (b.act kind m) l))
    (h : b.execute m l = (.ok o, l')) : (o.fired = true ∧ E l') ∨ (o.fired = false ∧ l' = l) := by
  rcases execute_ok hk h with he | ⟨f, he, hr⟩
  · rw [he] at hat
    cases hf : o.fired with
    | true => exact .inl ⟨rfl, by simpa [Atomic, hf] using hat⟩
    | false => exact .inr ⟨rfl, by simpa [Atomic, hf] using hat⟩
  · rw [he] at hat
    rcases hat with hraised | hsame
    · rw [hr] at hraised; cases hraised
    · exact .inr ⟨reported?_fired hr, hsame⟩

theorem execute_kind {b : Block α} {m : Market α} {l l' : Ledger α} {o : Outcome α}
    (h : b.execute m l = (.ok o, l')) : ∃ kind, b.kind? = some kind := by
  cases hk : b.kind? with
  | none => unfold execute at h; rw [hk] at h; cases h
  | some kind => exact ⟨kind, rfl⟩

/-- A block that does not overdraw has its effect if it fires, and else none. -/
theorem execute_whole {b : Block α} {m : Market α} {l l' : Ledger α} {o : Outcome α} (hwf : l.WF)
    (hno : ¬ b.Overdraws m l) (h : b.execute m l = (.ok o, l')) :
    (o.fired = true ∧ ∃ kind, b.kind? = some kind ∧ Effect b m l kind l') ∨ (o.fired = false ∧ l' = l) := by
  obtain ⟨kind, hk⟩ := execute_kind h
  rcases execute_atomic hk (act_atomic hwf hk hno) h with ⟨hf, heff⟩ | hidle
  · exact .inl ⟨hf, kind, hk, heff⟩
  · exact .inr hidle

/-- A block that fires has the effect of its kind. -/
theorem execute_fired {b : Block α} {m : Market α} {l l' : Ledger α} {o : Outcome α} (hwf : l.WF)
    (h : b.execute m l = (.ok o, l')) (hf : o.fired = true) : ∃ kind, b.kind? = some kind ∧ Effect b m l kind l' := by
  by_cases hover : b.Overdraws m l
  · rw [(execute_overdrawn hover h).1] at hf; cases hf
  · rcases execute_whole hwf hover h with ⟨-, heff⟩ | ⟨hno, -⟩
    · exact heff
    · rw [hno] at hf; cases hf

end StrategyLab.Block
