/-
What each block of a sequence does in its turn (`Turn`), over any scalars: when it is skipped, that
entry and risk blocks leave the account alone, and how many trades the others record. What a block
answers that is executed is never taken for the answer of a skipped one (`execute_unmarked`).

Main statement: every block of a sequence that no fault ends has its turn, and the results that are
kept under the names of the blocks are those of the last block with each name (`execute_turns`).
-/
import StrategyLab.Proofs.Block.ExitRule
import StrategyLab.Proofs.Block.Sequence

open StrategyLab.Action

namespace StrategyLab

variable {α β : Type} [Scalar α]

/-- An outcome that says that its block was skipped. -/
structure Outcome.SaysSkipped (o : Outcome α) : Prop where
  ok : o.ok = true
  fired : o.fired = false
  marked : o.payload.lookup "skipped" = some (.truth true)

/-! ## What handlers answer -/

/-- An outcome of a block that came to its end: it is in order and not marked as skipped. -/
structure Outcome.Ordinary (o : Outcome α) : Prop where
  ok : o.ok = true
  unmarked : o.payload.lookup "skipped" = none

/-- An answer is ordinary or a fault. -/
def Block.Answers (x : Except (Fault α) (Outcome α)) : Prop := ∀ o, x = .ok o → o.Ordinary

/-- A computation answers in this way on every account. -/
def Action.Answers (x : Action α (Outcome α)) : Prop := ∀ l, Block.Answers (eval x l).1

section

omit [Scalar α]

namespace Block.Answers

theorem fired {message : String} {payload : List (String × Value α)} (h : payload.lookup "skipped" = none) :
    Answers (.ok (.didFire message payload)) := by
  rintro _ ⟨⟩
  exact ⟨rfl, h⟩

theorem idle {message : String} {payload : List (String × Value α)} (h : payload.lookup "skipped" = none) :
    Answers (.ok (.idle message payload)) := by
  rintro _ ⟨⟩
  exact ⟨rfl, h⟩

theorem error (f : Fault α) : Answers (.error f) := nofun

theorem bind {x : Except (Fault α) β} {f : β → Except (Fault α) (Outcome α)} (hf : ∀ a, Answers (f a)) :
    Answers (x >>= f) := by
  cases x with
  | error e => exact error e
  | ok a => exact hf a

/-- A test that tells whether a block fires. -/
theorem test {p : Prop} [Decidable p] {fired idle : String} {payload payload' : List (String × Value α)}
    (h : payload.lookup "skipped" = none) (h' : payload'.lookup "skipped" = none) :
    Answers (if p then pure (.didFire fired payload) else pure (.idle idle payload') :
      Except (Fault α) (Outcome α)) := by
  split
  · exact Answers.fired h
  · exact Answers.idle h'

end Block.Answers

namespace Action.Answers

theorem fired {message : String} {payload : List (String × Value α)} (h : payload.lookup "skipped" = none) :
    Answers (pure (.didFire message payload)) := fun _ => .fired h

theorem idle {message : String} {payload : List (String × Value α)} (h : payload.lookup "skipped" = none) :
    Answers (pure (.idle message payload)) := fun _ => .idle h

/-- The report of an exit. -/
theorem report {p : Prop} [Decidable p] {kept closed : String} {payload payload' : List (String × Value α)}
    (h : payload.lookup "skipped" = none) (h' : payload'.lookup "skipped" = none) :
    Answers (if p then pure (.idle kept payload) else pure (.didFire closed payload')) := by
  split
  · exact idle h
  · exact fired h'

/-- Only what comes last answers. -/
theorem bind {x : Action α β} {f : β → Action α (Outcome α)} (hf : ∀ a, Answers (f a)) : Answers (x >>= f) := by
  intro l
  rw [eval_bind]
  rcases eval x l with ⟨r, l'⟩
  cases r with
  | error e => exact .error e
  | ok a => exact hf a l'

theorem read {x : Except (Fault α) (Outcome α)} (hx : Block.Answers x) : Answers (liftM x) := by
  intro l
  rw [eval_lift]
  exact hx

end Action.Answers

end

namespace Block

variable (b : Block α) (m : Market α)

theorem answers_priceTrigger : Answers (b.priceTrigger m) := by
  unfold priceTrigger
  refine .bind fun _ => .bind fun _ => .bind fun _ => .bind fun _ => ?_
  exact .test rfl rfl

theorem answers_timeTrigger : Answers (b.timeTrigger m) := by
  unfold timeTrigger
  refine .bind fun _ => ?_
  dsimp only
  split
  · exact .fired rfl
  · exact .idle rfl
  · exact .error _
  · exact .error _

theorem answers_volumeTrigger : Answers (b.volumeTrigger m) := by
  unfold volumeTrigger
  refine .bind fun _ => .bind fun _ => .bind fun _ => ?_
  exact .test rfl rfl

theorem answers_indicatorTrigger : Answers (b.indicatorTrigger m) := by
  unfold indicatorTrigger
  refine .bind fun _ => .bind fun _ => ?_
  dsimp only
  split
  · rw [pure_bind]
    refine .bind fun _ => .bind fun _ => .bind fun _ => .bind fun _ => .bind fun _ => .bind fun found => ?_
    cases found with
    | none => exact .idle rfl
    | some x => exact .test rfl rfl
  · exact .error _

theorem answers_positionSizing : Answers b.positionSizing := by
  unfold positionSizing
  refine .bind fun _ => ?_
  dsimp only
  split
  · exact .fired rfl
  · exact .fired rfl
  · refine .bind fun _ => .fired rfl

theorem answers_rebalancing (l : Ledger α) : Answers (b.rebalancing m l) := by
  unfold rebalancing
  dsimp only
  split
  · split
    · exact .error _
    · rw [pure_bind]
      refine .bind fun _ => ?_
      split
      · exact .idle rfl
      · refine .bind fun found => ?_
        split
        · exact .idle rfl
        · exact .fired rfl
  · exact .error _

/-- Deposits, loans and swaps answer at their end that they fired. -/
theorem answers_protocol {kind : BlockKind} (hk : kind.category = .protocol) : Action.Answers (b.act kind m) := by
  cases kind with
  | swap e =>
    exact .bind fun l => .bind fun o => .bind fun _ => .bind fun _ => .bind fun _ => .fired rfl
  | supply lender =>
    exact .bind fun l => .bind fun s => .bind fun _ => .fired rfl
  | borrow lender =>
    exact .bind fun l => .bind fun s => .bind fun _ => .bind fun _ => .bind fun _ => .fired rfl
  | repay =>
    exact .bind fun l => .bind fun s => .bind fun _ => .bind fun _ => .bind fun _ => .fired rfl
  | withdraw =>
    exact .bind fun l => .bind fun s => .bind fun _ => .bind fun _ => .bind fun _ => .fired rfl
  | liquidity =>
    exact .bind fun l => .bind fun s => .bind fun _ => .bind fun _ => .bind fun _ => .fired rfl
  | flashLoan =>
    exact .bind fun l => .bind fun s => .bind fun _ => .bind fun _ => .fired rfl
  | staking =>
    exact .bind fun l => .bind fun s => .bind fun _ => .fired rfl
  | _ => cases hk

/-- An exit answers after its loop, whatever that closed. -/
theorem answers_exit {kind : BlockKind} (hk : kind.category = .exit) : Action.Answers (b.act kind m) := by
  cases kind with
  | stopLoss =>
    refine .bind fun threshold => .bind fun l => ?_
    dsimp only
    split
    · exact .idle rfl
    · exact .bind fun exits => .report rfl rfl
  | takeProfit =>
    refine .bind fun target => .bind fun l => ?_
    dsimp only
    split
    · exact .idle rfl
    · exact .bind fun exits => .report rfl rfl
  | timeExit =>
    refine .bind fun milliseconds => .bind fun l => ?_
    dsimp only
    split
    · exact .idle rfl
    · exact .bind fun duration => .bind fun exits => .report rfl rfl
  | conditionalExit =>
    refine .bind fun condition => ?_
    split
    · refine .bind fun l => ?_
      dsimp only
      split
      · exact .idle rfl
      · exact .bind fun exits => .report rfl rfl
    · exact .read (.error _)
  | _ => cases hk

theorem answers_act (kind : BlockKind) : Action.Answers (b.act kind m) := by
  cases hk : kind.category with
  | protocol => exact answers_protocol b m hk
  | exit => exact answers_exit b m hk
  | entry =>
    cases kind with
    | priceTrigger => exact .read (answers_priceTrigger b m)
    | timeTrigger => exact .read (answers_timeTrigger b m)
    | volumeTrigger => exact .read (answers_volumeTrigger b m)
    | indicatorTrigger => exact .read (answers_indicatorTrigger b m)
    | _ => cases hk
  | risk =>
    cases kind with
    | positionSizing => exact .read (answers_positionSizing b)
    | riskLimits => exact .fired rfl
    | rebalancing => exact .bind fun l => .read (answers_rebalancing b m l)
    | _ => cases hk

/-- An executed block answers as its handler does, or that it failed. -/
theorem execute_ordinary_or_failed {b : Block α} {m : Market α} {l l' : Ledger α} {o : Outcome α}
    (h : b.execute m l = (.ok o, l')) : o.Ordinary ∨ ∃ message, o = .failed message := by
  obtain ⟨kind, hk⟩ := execute_kind h
  rcases execute_ok hk h with he | ⟨f, -, hr⟩
  · exact .inl (answers_act b m kind l o (congrArg Prod.fst he))
  · exact .inr (reported?_failed hr)

/-- What an executed block answers is not marked as skipped. -/
theorem execute_unmarked {b : Block α} {m : Market α} {l l' : Ledger α} {o : Outcome α}
    (h : b.execute m l = (.ok o, l')) : o.payload.lookup "skipped" = none := by
  rcases execute_ordinary_or_failed h with ho | ⟨message, rfl⟩
  · exact ho.unmarked
  · rfl

theorem execute_fired_ok {b : Block α} {m : Market α} {l l' : Ledger α} {o : Outcome α}
    (h : b.execute m l = (.ok o, l')) (hf : o.fired = true) : o.ok = true := by
  rcases execute_ordinary_or_failed h with ho | ⟨message, rfl⟩
  · exact ho.ok
  · cases hf

end Block

/-! ## Trades -/

/-- How many exits an outcome lists. -/
def Outcome.exitCount (o : Outcome α) : Nat :=
  match o.payload.lookup "exits" with
  | some (.list exits) => exits.length
  | _ => 0

/-- How many trades come with an outcome of a block of a kind. -/
def Outcome.tradeCount (o : Outcome α) (kind : BlockKind) : Nat :=
  if o.fired then
    match kind.category with
    | .protocol => 1
    | .exit => o.exitCount
    | .entry | .risk => 0
  else 0

namespace Block

theorem Effect.leaves {b : Block α} {m : Market α} {l l' : Ledger α} {kind : BlockKind}
    (h : Effect b m l kind l') (hk : kind.category = .entry ∨ kind.category = .risk) : l' = l := by
  cases h with
  | report => rfl
  | exit hexit => rw [hexit] at hk; rcases hk with hk | hk <;> cases hk
  | _ => rcases hk with hk | hk <;> cases hk

omit [Scalar α] in
theorem one_recorded {l l' : Ledger α} (h : l'.trades = l.trades) (n : Ledger.NewTrade α) :
    ∃ t, (l'.recordTrade n).trades = l.trades ++ [t] := by
  refine ⟨l'.nextRecorded n, ?_⟩
  rw [← h]
  rfl

theorem Effect.one_trade {b : Block α} {m : Market α} {l l' : Ledger α} {kind : BlockKind}
    (h : Effect b m l kind l') (hk : kind.category = .protocol) : ∃ t, l'.trades = l.trades ++ [t] := by
  cases h with
  | swap => exact one_recorded rfl _
  | supply => exact one_recorded rfl _
  | staking => exact one_recorded rfl _
  | borrow => exact one_recorded rfl _
  | repay ho hl => exact one_recorded (Ledger.trades_reducePosition hl) _
  | withdraw ho hl => exact one_recorded (Ledger.trades_reducePosition hl) _
  | liquidity => exact one_recorded (by rw [Stake.trades_provided, Stake.trades_provided]) _
  | flashLoan => exact one_recorded rfl _
  | exit hexit => rw [hexit] at hk; cases hk
  | report hreport => rw [hk] at hreport; rcases hreport with hreport | hreport <;> cases hreport

/-- An executed block that does not fire records nothing. -/
theorem execute_unfired_trades {b : Block α} {m : Market α} {l l' : Ledger α} {o : Outcome α} (hwf : l.WF)
    (h : b.execute m l = (.ok o, l')) (hf : o.fired = false) : l'.trades = l.trades := by
  by_cases hover : b.Overdraws m l
  · obtain ⟨-, leg0, leg1, -, rfl⟩ := execute_overdrawn hover h
    exact Stake.trades_provided ..
  · rcases execute_whole hwf hover h with ⟨ht, -⟩ | ⟨-, rfl⟩
    · rw [hf] at ht; cases ht
    · rfl

/-- An exit that fires lists what it closed, with one trade each. -/
theorem execute_exit_trades {b : Block α} {m : Market α} {l l' : Ledger α} {o : Outcome α} {kind : BlockKind}
    (hk : b.kind? = some kind) (hexit : kind.category = .exit) (h : b.execute m l = (.ok o, l'))
    (hf : o.fired = true) : 0 < o.exitCount ∧ ∃ new, l'.trades = l.trades ++ new ∧ new.length = o.exitCount := by
  obtain ⟨decision, -, hcloses⟩ := execute_closes hk hexit h (execute_fired_ok h hf)
  have hsome := hcloses.fired.1 hf
  have hcount : o.exitCount = (b.closings decision l).length := by
    unfold Outcome.exitCount
    rw [hcloses.exits hsome]
    simp [Value.texts]
  obtain ⟨new, htrades, hnew⟩ := trades_closings m (b.closings decision l) l
  rw [hcount]
  refine ⟨List.length_pos_iff.2 hsome, new, ?_, hnew.length_eq.symm⟩
  rw [hcloses.left, htrades]

/-- An executed block records as many trades as its outcome tells. -/
theorem execute_trades {b : Block α} {m : Market α} {l l' : Ledger α} {o : Outcome α} {kind : BlockKind}
    (hwf : l.WF) (hk : b.kind? = some kind) (h : b.execute m l = (.ok o, l')) :
    ∃ new, l'.trades = l.trades ++ new ∧ new.length = o.tradeCount kind := by
  cases hf : o.fired with
  | false =>
    refine ⟨[], ?_, by simp [Outcome.tradeCount, hf]⟩
    rw [execute_unfired_trades hwf h hf, List.append_nil]
  | true =>
    obtain ⟨kind', hk', heff⟩ := execute_fired hwf h hf
    obtain rfl : kind = kind' := Option.some.inj (hk.symm.trans hk')
    cases hcategory : kind.category with
    | protocol =>
      obtain ⟨t, ht⟩ := heff.one_trade hcategory
      exact ⟨[t], ht, by simp [Outcome.tradeCount, hf, hcategory]⟩
    | exit =>
      obtain ⟨-, new, hnew, hlength⟩ := execute_exit_trades hk hcategory h hf
      exact ⟨new, hnew, by simp [Outcome.tradeCount, hf, hcategory, hlength]⟩
    | entry =>
      rw [heff.leaves (.inl hcategory)]
      exact ⟨[], (List.append_nil _).symm, by simp [Outcome.tradeCount, hf, hcategory]⟩
    | risk =>
      rw [heff.leaves (.inr hcategory)]
      exact ⟨[], (List.append_nil _).symm, by simp [Outcome.tradeCount, hf, hcategory]⟩

/-- Entry and risk blocks leave the account alone, whether they fire or not. -/
theorem execute_leaves {b : Block α} {m : Market α} {l l' : Ledger α} {o : Outcome α} {kind : BlockKind}
    (hwf : l.WF) (hk : b.kind? = some kind) (hreads : kind.category = .entry ∨ kind.category = .risk)
    (h : b.execute m l = (.ok o, l')) : l' = l := by
  have hno : ¬ b.Overdraws m l := by
    rintro ⟨hk', -⟩
    cases Option.some.inj (hk.symm.trans hk')
    rcases hreads with hreads | hreads <;> cases hreads
  rcases execute_whole hwf hno h with ⟨-, kind', hk', heff⟩ | ⟨-, heq⟩
  · obtain rfl : kind = kind' := Option.some.inj (hk.symm.trans hk')
    exact heff.leaves hreads
  · exact heq

/-! ## Turns -/

/-- What a block does in its turn, which comes first or after a block with the outcome `previous`. -/
structure Turn (b : Block α) (kind : BlockKind) (previous : Option (Outcome α)) (l : Ledger α) (o : Outcome α)
    (l' : Ledger α) : Prop where
  skipped : o.SaysSkipped ↔
    (b.category = .protocol ∨ b.category = .exit) ∧ ∃ p, previous = some p ∧ p.fired = false
  untouched : o.SaysSkipped → l' = l
  reports : kind.category = .entry ∨ kind.category = .risk → l' = l
  trades : ∃ new, l'.trades = l.trades ++ new ∧ new.length = o.tradeCount kind
  exits : kind.category = .exit → o.fired = true → 0 < o.exitCount

/-- A block in its turn: skipped or executed. -/
def turn (b : Block α) (m : Market α) (previous : Option (Outcome α)) (l : Ledger α) :
    Except (Fault α) (Outcome α) × Ledger α :=
  if b.isSkipped previous then (.ok b.skipped, l) else b.execute m l

omit [Scalar α] in
theorem isSkipped_iff (b : Block α) (previous : Option (Outcome α)) : b.isSkipped previous = true ↔
    (b.category = .protocol ∨ b.category = .exit) ∧ ∃ p, previous = some p ∧ p.fired = false := by
  unfold isSkipped
  rw [Bool.and_eq_true]
  refine and_congr ?_ ?_
  · cases b.category <;> simp [Category.isConditional]
  · cases previous <;> simp

omit [Scalar α] in
theorem skipped_says (b : Block α) : b.skipped.SaysSkipped := ⟨rfl, rfl, rfl⟩

theorem turn_ok {b : Block α} {m : Market α} {previous : Option (Outcome α)} {l l' : Ledger α} {o : Outcome α}
    {kind : BlockKind} (hwf : l.WF) (hk : b.kind? = some kind) (h : b.turn m previous l = (.ok o, l')) :
    Turn b kind previous l o l' := by
  unfold turn at h
  split_ifs at h with hskip
  · cases h
    have hnone : b.skipped.tradeCount kind = 0 := rfl
    constructor
    · exact iff_of_true b.skipped_says ((b.isSkipped_iff previous).1 hskip)
    · exact fun _ => rfl
    · exact fun _ => rfl
    · exact ⟨[], (List.append_nil _).symm, hnone.symm⟩
    · intro _ hf
      cases hf
  · have hunmarked : ¬ o.SaysSkipped := by
      intro hsaid
      have hmarked := hsaid.marked
      rw [execute_unmarked h] at hmarked
      cases hmarked
    constructor
    · exact iff_of_false hunmarked (mt (b.isSkipped_iff previous).2 hskip)
    · exact fun hsaid => absurd hsaid hunmarked
    · exact fun hreads => execute_leaves hwf hk hreads h
    · exact execute_trades hwf hk h
    · exact fun hexit hf => (execute_exit_trades hk hexit h hf).1

end Block

namespace SequenceRun

/-! ## Whole sequences -/

theorem after_turn {m : Market α} {previous : Option (Outcome α)} {b : Block α} {l l' : Ledger α} {o : Outcome α}
    (h : b.turn m previous l = (.ok o, l')) (rest : List (Block α)) : after m previous (b :: rest) l =
      { after m (some o) rest l' with outcomes := o :: (after m (some o) rest l').outcomes } := by
  unfold Block.turn at h
  split_ifs at h with hskip
  · cases h
    exact after_skipped hskip
  · exact after_executed (by simpa using hskip) h

/-- Where no fault ends a sequence, its first block came to an outcome in its turn. -/
theorem turn_of_after {m : Market α} {previous : Option (Outcome α)} {b : Block α} {rest : List (Block α)}
    {l : Ledger α} (h : (after m previous (b :: rest) l).fault = none) :
    ∃ o l', b.turn m previous l = (.ok o, l') ∧ (after m (some o) rest l').fault = none := by
  rcases hturn : b.turn m previous l with ⟨r, l'⟩
  cases r with
  | ok o =>
    rw [after_turn hturn] at h
    exact ⟨o, l', rfl, h⟩
  | error f =>
    unfold Block.turn at hturn
    split_ifs at hturn with hskip
    · cases hturn
    · rw [after_raised (by simpa using hskip) hturn] at h
      cases h

/-- What the block at a place of a sequence has before it: the outcome of the block there. -/
def before (first : Option (Outcome α)) (outcomes : List (Outcome α)) : Nat → Option (Outcome α)
  | 0 => first
  | i + 1 => outcomes[i]?

omit [Scalar α] in
theorem before_cons (first : Option (Outcome α)) (o : Outcome α) (outcomes : List (Outcome α)) (i : Nat) :
    before first (o :: outcomes) (i + 1) = before (some o) outcomes i := by
  cases i <;> rfl

theorem outcomes_length {m : Market α} {blocks : List (Block α)} {previous : Option (Outcome α)} {l : Ledger α}
    (h : (after m previous blocks l).fault = none) : (after m previous blocks l).outcomes.length = blocks.length := by
  induction blocks generalizing previous l with
  | nil => rfl
  | cons b rest ih =>
    obtain ⟨o, l', hturn, hrest⟩ := turn_of_after h
    rw [after_turn hturn, List.length_cons, List.length_cons, ih hrest]

/-- The block at a place takes its turn on the account that the blocks before it leave. -/
theorem turn_at {m : Market α} {blocks : List (Block α)} {previous : Option (Outcome α)} {l : Ledger α}
    (h : (after m previous blocks l).fault = none) {i : Nat} {b : Block α} (hb : blocks[i]? = some b) :
    ∃ o, (after m previous blocks l).outcomes[i]? = some o ∧
      b.turn m (before previous (after m previous blocks l).outcomes i) (after m previous (blocks.take i) l).ledger =
        (.ok o, (after m previous (blocks.take (i + 1)) l).ledger) := by
  induction blocks generalizing previous l i with
  | nil => cases hb
  | cons b₀ rest ih =>
    obtain ⟨o₀, l₀, hturn, hrest⟩ := turn_of_after h
    rw [after_turn hturn, List.take_succ_cons, after_turn hturn]
    cases i with
    | zero =>
      cases hb
      exact ⟨o₀, rfl, hturn⟩
    | succ i =>
      obtain ⟨o, ho, hnext⟩ := ih hrest hb
      rw [before_cons, List.take_succ_cons, after_turn hturn]
      exact ⟨o, ho, hnext⟩

/-! ## Kept results -/

omit [Scalar α] in
/-- Nothing is kept under a name that no block has. -/
theorem lookup_kept {entries : List (Block α × Outcome α)} {kept : List (String × Outcome α)} {id : String}
    (h : ∀ e ∈ entries, e.1.id ≠ id) :
    (entries.foldl (fun kept (b, o) => Ledger.putBalance b.id o kept) kept).lookup id = kept.lookup id := by
  induction entries generalizing kept with
  | nil => rfl
  | cons e rest ih =>
    obtain ⟨hfirst, hrest⟩ := List.forall_mem_cons.1 h
    rw [List.foldl_cons, ih hrest, Ledger.lookup_putBalance, if_neg hfirst.symm]

omit [Scalar α] in
theorem results_other {blocks : List (Block α)} (run : SequenceRun α) (earlier : List (String × Outcome α))
    {id : String} (h : ∀ b ∈ blocks, b.id ≠ id) : (run.results blocks earlier).lookup id = earlier.lookup id :=
  lookup_kept fun e he => h e.1 (List.of_mem_zip he).1

omit [Scalar α] in
/-- The last block with a name has its outcome kept. -/
theorem results_last {blocks : List (Block α)} {run : SequenceRun α} (earlier : List (String × Outcome α))
    {i : Nat} {b : Block α} {o : Outcome α} (hb : blocks[i]? = some b) (ho : run.outcomes[i]? = some o)
    (hlast : ∀ j c, i < j → blocks[j]? = some c → c.id ≠ b.id) :
    (run.results blocks earlier).lookup b.id = some o := by
  have hentry : (blocks.zip run.outcomes)[i]? = some (b, o) := List.getElem?_zip_eq_some.2 ⟨hb, ho⟩
  obtain ⟨hi, hat⟩ := List.getElem?_eq_some_iff.1 hentry
  have hsplit : blocks.zip run.outcomes =
      (blocks.zip run.outcomes).take i ++ (b, o) :: (blocks.zip run.outcomes).drop (i + 1) := by
    rw [← hat, ← List.drop_eq_getElem_cons hi, List.take_append_drop]
  unfold results
  rw [hsplit, List.foldl_append, List.foldl_cons, lookup_kept, Ledger.lookup_putBalance, if_pos rfl]
  intro e he
  obtain ⟨j, hj⟩ := List.mem_iff_getElem?.1 he
  rw [List.getElem?_drop] at hj
  exact hlast (i + 1 + j) e.1 (by omega) (List.getElem?_zip_eq_some.1 hj).1

/-! ## Every turn -/

section

variable {blocks : List (Block α)} {m : Market α} {l : Ledger α}

/-- The turn of each block on the account that the blocks before it leave. -/
theorem turn_of_execute (hl : l.Reachable) (hknown : ∀ b ∈ blocks, ∃ kind, b.kind? = some kind)
    (hnone : (execute blocks m l).fault = none) {i : Nat} {b : Block α} (hb : blocks[i]? = some b) :
    ∃ kind o, b.kind? = some kind ∧ (execute blocks m l).outcomes[i]? = some o ∧
      b.Turn kind (before none (execute blocks m l).outcomes i) (execute (blocks.take i) m l).ledger o
        (execute (blocks.take (i + 1)) m l).ledger := by
  obtain ⟨kind, hk⟩ := hknown b (List.mem_of_getElem? hb)
  obtain ⟨o, ho, hturn⟩ := turn_at hnone hb
  have hreach : (execute (blocks.take i) m l).ledger.Reachable := hl.becomes (after_becomes m _ none l)
  exact ⟨kind, o, hk, ho, Block.turn_ok hreach.wf hk hturn⟩

/-- A conditional block after one that did not fire is skipped. -/
theorem skipped_next (hl : l.Reachable) (hknown : ∀ b ∈ blocks, ∃ kind, b.kind? = some kind)
    (hnone : (execute blocks m l).fault = none) {i : Nat} {p o : Outcome α}
    (hp : (execute blocks m l).outcomes[i]? = some p) (hunfired : p.fired = false)
    (ho : (execute blocks m l).outcomes[i + 1]? = some o)
    (hconditional : ∀ b, blocks[i + 1]? = some b → b.category = .protocol ∨ b.category = .exit) :
    o.SaysSkipped ∧
      (execute (blocks.take (i + 1 + 1)) m l).ledger = (execute (blocks.take (i + 1)) m l).ledger := by
  obtain ⟨b, hb⟩ : ∃ b, blocks[i + 1]? = some b := by
    have hlt := (List.getElem?_eq_some_iff.1 ho).1
    rw [execute, outcomes_length hnone] at hlt
    exact ⟨_, List.getElem?_eq_getElem hlt⟩
  obtain ⟨kind, o', -, ho', hturn⟩ := turn_of_execute hl hknown hnone hb
  obtain rfl : o = o' := Option.some.inj (ho.symm.trans ho')
  have hsaid := hturn.skipped.2 ⟨hconditional b hb, p, hp, hunfired⟩
  exact ⟨hsaid, hturn.untouched hsaid⟩

/-- So are the conditional blocks after it. -/
theorem skipped_on (hl : l.Reachable) (hknown : ∀ b ∈ blocks, ∃ kind, b.kind? = some kind)
    (hnone : (execute blocks m l).fault = none) {i k : Nat} {p o : Outcome α}
    (hp : (execute blocks m l).outcomes[i]? = some p) (hunfired : p.fired = false) (hik : i < k)
    (ho : (execute blocks m l).outcomes[k]? = some o)
    (hconditional : ∀ (j : Nat) (b : Block α), i < j → j ≤ k → blocks[j]? = some b →
      b.category = .protocol ∨ b.category = .exit) :
    o.SaysSkipped ∧ (execute (blocks.take (k + 1)) m l).ledger = (execute (blocks.take (i + 1)) m l).ledger := by
  -- a skipped block did not fire, so that the one after it is skipped as well
  induction k, hik using Nat.le_induction generalizing o with
  | base => exact skipped_next hl hknown hnone hp hunfired ho fun b => hconditional (i + 1) b (by omega) le_rfl
  | succ k hik ih =>
    obtain ⟨q, hq⟩ : ∃ q, (execute blocks m l).outcomes[k]? = some q :=
      ⟨_, List.getElem?_eq_getElem ((Nat.lt_succ_self k).trans (List.getElem?_eq_some_iff.1 ho).1)⟩
    obtain ⟨hskipped, hsame⟩ := ih hq fun j b hij hjk => hconditional j b hij (by omega)
    obtain ⟨hsaid, hkept⟩ := skipped_next hl hknown hnone hq hskipped.fired ho
      fun b => hconditional (k + 1) b (by omega) le_rfl
    exact ⟨hsaid, hkept.trans hsame⟩

/-- Every block of a sequence that no fault ends has its turn, on the account that the blocks before it
leave. After a block that did not fire the conditional blocks that follow it are all skipped. The results
kept by name are those of the last block with each name. -/
theorem execute_turns (hl : l.Reachable) (hknown : ∀ b ∈ blocks, ∃ kind, b.kind? = some kind)
    (hnone : (execute blocks m l).fault = none) (earlier : List (String × Outcome α)) :
    let run := execute blocks m l
    let account (i : Nat) := (execute (blocks.take i) m l).ledger
    run.outcomes.length = blocks.length ∧
    (∀ (i : Nat) (b : Block α), blocks[i]? = some b → ∃ kind o, b.kind? = some kind ∧
      run.outcomes[i]? = some o ∧ b.Turn kind (before none run.outcomes i) (account i) o (account (i + 1))) ∧
    (∀ (i k : Nat) (p o : Outcome α), run.outcomes[i]? = some p → p.fired = false → i < k →
      run.outcomes[k]? = some o → (∀ (j : Nat) (b : Block α), i < j → j ≤ k → blocks[j]? = some b →
        b.category = .protocol ∨ b.category = .exit) → o.SaysSkipped ∧ account (k + 1) = account (i + 1)) ∧
    (∀ (i : Nat) (b : Block α) (o : Outcome α), blocks[i]? = some b → run.outcomes[i]? = some o →
      (∀ (j : Nat) (c : Block α), i < j → blocks[j]? = some c → c.id ≠ b.id) →
        (run.results blocks earlier).lookup b.id = some o) ∧
    (∀ id, (∀ b ∈ blocks, b.id ≠ id) → (run.results blocks earlier).lookup id = earlier.lookup id) := by
  intro run account
  -- no block raised, so that every block has had its turn
  refine ⟨outcomes_length hnone, ?_, ?_, ?_, ?_⟩
  · exact fun i b hb => turn_of_execute hl hknown hnone hb
  · exact fun i k p o hp hf hik ho hcond => skipped_on hl hknown hnone hp hf hik ho hcond
  · exact fun i b o => results_last earlier
  · exact fun id => results_other run earlier

end

section

local instance openPartsOfTurns : ExactArithmetic := default

/-- A supply that fires, a stop loss without a loss, another supply and a stop loss after it, and limits. -/
def supplyAndWatch : List (Block ℚ) :=
  [Block.fourHundredSupplied, Block.stopLossByDefault, Block.fourHundredSupplied, Block.stopLossByDefault,
    { id := "r", kind := "risk_limits", category := .risk, label := "", params := [] }]

/-- That sequence on a thousand. -/
def supplyAndWatchRun : SequenceRun ℚ := execute supplyAndWatch Block.marketAtPar Block.thousand

/-- The second supply is skipped, and its outcome is kept in the place of the first one's. -/
theorem second_supply_skipped : supplyAndWatchRun.fault = none ∧
    supplyAndWatchRun.outcomes.map (·.fired) = [true, false, false, false, true] ∧
    supplyAndWatchRun.ledger.trades.length = 1 ∧
    ∃ o, supplyAndWatchRun.outcomes[2]? = some o ∧ o.SaysSkipped ∧
      (supplyAndWatchRun.results supplyAndWatch []).lookup "s" = some o := by
  have hknown : ∀ b ∈ supplyAndWatch, ∃ kind, b.kind? = some kind := by
    have hall : supplyAndWatch.all (fun b => b.kind?.isSome) = true := by decide +kernel
    exact fun b hb => Option.isSome_iff_exists.1 (List.all_eq_true.1 hall b hb)
  have hnone : supplyAndWatchRun.fault = none := Option.isNone_iff_eq_none.1 (by decide +kernel)
  have hfired : supplyAndWatchRun.outcomes.map (·.fired) = [true, false, false, false, true] := by decide +kernel
  have htrades : supplyAndWatchRun.ledger.trades.length = 1 := by decide +kernel
  obtain ⟨hlength, -, hskips, hkept, -⟩ := execute_turns Block.thousand_reachable hknown hnone []
  obtain ⟨p, hp⟩ : ∃ p, supplyAndWatchRun.outcomes[1]? = some p :=
    ⟨_, List.getElem?_eq_getElem (by rw [supplyAndWatchRun, hlength]; decide)⟩
  obtain ⟨o, ho⟩ : ∃ o, supplyAndWatchRun.outcomes[2]? = some o :=
    ⟨_, List.getElem?_eq_getElem (by rw [supplyAndWatchRun, hlength]; decide)⟩
  have hunfired : p.fired = false := by
    have hat := congrArg (·[1]?) hfired
    simpa [hp] using hat
  have hsaid := (hskips 1 2 p o hp hunfired (by decide) ho ?_).1
  refine ⟨hnone, hfired, htrades, o, ho, hsaid, hkept 2 _ o rfl ho ?_⟩
  · intro j c hj hc
    have hlater : ∀ c ∈ supplyAndWatch.drop 3, c.id ≠ "s" := by decide +kernel
    refine hlater c (List.mem_of_getElem? (i := j - 3) ?_)
    rw [List.getElem?_drop, Nat.add_sub_cancel' hj]
    exact hc
  · intro j b hj hjk hb
    obtain rfl : j = 2 := by omega
    cases hb
    exact .inl rfl

end

end SequenceRun

end StrategyLab
