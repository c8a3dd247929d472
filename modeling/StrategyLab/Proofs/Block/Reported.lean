/-
What a block reports. A block of the catalogue answers with an outcome unless one of a few things
happens to it (`Escapes`): a number beyond the scalars, a schedule with a step of zero, a period that is
no window, more slippage than there is output, a duration out of range, a value of zero to compare with, or
a number that is read without a guard. Nothing else ends it with a fault: in particular none of the
account's own checks does, since every amount that reaches them is known to be covered and not negative.
-/
import StrategyLab.Proofs.Block.Raised
import StrategyLab.Proofs.Number.Extended

open StrategyLab.Action

namespace StrategyLab.Block

variable {α β : Type} [Scalar α]

/-! ## Steps on the account -/

section

variable {l : Ledger α}

theorem not_raises_eval_bind {x : Action α β} {f : β → Action α (Outcome α)} (hx : ¬ Raises (eval x l).1)
    (hf : ∀ a l', ¬ Raises (eval (f a) l').1) : ¬ Raises (eval (x >>= f) l).1 := by
  rw [eval_bind]
  rcases hrun : eval x l with ⟨r, l'⟩
  rw [hrun] at hx
  cases r with
  | error e => exact fun h => hx ((raises_error e).2 ((raises_error e).1 h))
  | ok a => exact hf a l'

theorem raises_read_bind (x : Except (Fault α) β) (f : β → Action α (Outcome α)) :
    Raises (eval (liftM x >>= f) l).1 ↔ Raises x ∨ ∃ a, x = .ok a ∧ Raises (eval (f a) l).1 := by
  rw [eval_bind, eval_lift]
  cases x with
  | error e => simp
  | ok a => simp

theorem raises_look (f : Ledger α → Action α (Outcome α)) :
    Raises (eval (get >>= f) l).1 ↔ Raises (eval (f l) l).1 := by
  rw [eval_bind_of_ok (eval_get l)]

theorem raises_debit_bind {token : String} {x : α} {f : Unit → Action α β}
    (hx : (Num.real x).isLess (.whole 0) = false) (hcovered : ¬ l.balance token < x) :
    Raises (eval (debit token x >>= f) l).1 ↔ Raises (eval (f ()) (l.pay token x)).1 := by
  have hdebit : eval (debit token x) l = (.ok (), l.pay token x) := by
    rw [eval_debit, hx, if_neg Bool.false_ne_true, if_neg hcovered]
  rw [eval_bind_of_ok hdebit]

theorem raises_credit_bind (token : String) (x : α) (f : Unit → Action α β) :
    Raises (eval (credit token x >>= f) l).1 ↔
      (Num.real x).isLess (.whole 0) = true ∨ Raises (eval (f ()) (l.gain token x)).1 := by
  rw [eval_bind, eval_credit]
  cases (Num.real x).isLess (.whole 0) with
  | true => exact iff_of_true ((raises_error _).2 rfl) (.inl rfl)
  | false => simp

/-- A reduction is refused, never with a fault that is raised. -/
theorem raises_reduce_bind (id : String) (x : α) (f : α → Action α β) :
    Raises (eval (reducePosition id x >>= f) l).1 ↔
      ∃ p l', l.reducePosition id (.real x) = .ok (p, l') ∧ Raises (eval (f p.amount) l').1 := by
  rw [eval_bind, eval_reducePosition]
  cases h : l.reducePosition id (.real x) with
  | ok r =>
    constructor
    · exact fun hr => ⟨r.1, r.2, rfl, hr⟩
    · rintro ⟨p, l', hr, hraises⟩
      cases hr
      exact hraises
  | error cause =>
    have hrefusal : cause.isRefusal = true := by
      unfold Ledger.reducePosition at h
      split at h
      · cases h
        rfl
      · split at h
        · cases h
          rfl
        · cases h
    simp [reported?, hrefusal]

theorem raises_fired (message : String) (payload : List (String × Value α)) :
    ¬ Raises (eval (pure (.didFire message payload) : Action α (Outcome α)) l).1 := raises_ok _

end

/-! ## Protocols -/

section

variable (hα : Scalar.Signed α) (b : Block α) (m : Market α) (l : Ledger α)

include hα

theorem raises_swap (e : Exchange) : Raises (eval (b.swap e m) l).1 ↔ Raises (b.swapOrder e m l) ∨
    ∃ o, b.swapOrder e m l = .ok o ∧ (Num.real o.output.1).isLess (.whole 0) = true := by
  unfold swap
  rw [raises_look, raises_read_bind]
  refine or_congr_right (exists_congr fun o => and_congr_right fun ho => ?_)
  have hread := swapOrder_ok ho
  unfold SwapOrder.perform
  rw [raises_debit_bind (hα.amount (positive_ok hread.amount).2) hread.covered, raises_credit_bind, or_iff_left]
  exact raises_fired _ _

/-- What is to be deposited is positive and covered. -/
theorem not_raises_deposit {s : Stake α} {kind : PositionKind} {trade : TradeKind} {protocol : String} {defaultRate apy : α}
    {f : String → Action α (Outcome α)} (ho : b.depositOrder m l defaultRate = .ok (s, apy))
    (hf : ∀ id l', ¬ Raises (eval (f id) l').1) :
    ¬ Raises (eval (Block.deposit m s kind trade protocol apy >>= f) l).1 := by
  obtain ⟨hread, hcovered, -⟩ := depositOrder_ok ho
  have hpos := hα.amount (positive_ok (assetAmount_ok hread).2).2
  unfold Block.deposit
  simp only [bind_assoc, pure_bind]
  rw [raises_debit_bind hpos hcovered]
  exact hf _ _

theorem raises_supply (lender : Lender) : Raises (eval (b.supply lender m) l).1 ↔ b.OversizedTerms := by
  unfold supply
  rw [raises_look, raises_read_bind, raises_depositOrder, or_iff_left]
  rintro ⟨⟨s, apy⟩, ho, h⟩
  exact not_raises_deposit hα b m l ho (fun id l' => raises_fired _ _) h

theorem raises_staking : Raises (eval (b.staking m) l).1 ↔ b.OversizedTerms := by
  unfold staking
  rw [raises_look, raises_read_bind, raises_depositOrder, or_iff_left]
  rintro ⟨⟨s, apy⟩, ho, h⟩
  exact not_raises_deposit hα b m l ho (fun id l' => raises_fired _ _) h

theorem raises_borrow (lender : Lender) : Raises (eval (b.borrow lender m) l).1 ↔ b.OversizedTerms := by
  unfold borrow
  rw [raises_look, raises_read_bind, raises_borrowOrder, or_iff_left]
  rintro ⟨⟨s, apy⟩, ho, h⟩
  rw [raises_credit_bind, hα.amount (positive_ok (assetAmount_ok (borrowOrder_ok ho).1).2).2] at h
  rcases h with h | h
  · cases h
  · exact raises_fired _ _ h

theorem raises_repay : Raises (eval (b.repay .aave m) l).1 ↔ b.Named ["asset"] ∧ b.Oversized "amount" := by
  unfold repay
  rw [raises_look, raises_read_bind, raises_repayOrder, or_iff_left]
  rintro ⟨⟨debt, s⟩, ho, h⟩
  obtain ⟨hread, hcovered, -⟩ := repayOrder_ok ho
  obtain ⟨left, l', hreduce, h⟩ := (raises_reduce_bind _ _ _).1 h
  rw [← Ledger.balance_reducePosition hreduce] at hcovered
  rw [raises_debit_bind (hα.amount (positive_ok (assetAmount_ok hread).2).2) hcovered] at h
  exact raises_fired _ _ h

theorem raises_withdraw : Raises (eval (b.withdraw .aave m) l).1 ↔ b.Named ["asset"] ∧ b.Oversized "amount" := by
  unfold withdraw
  rw [raises_look, raises_read_bind, raises_withdrawOrder, or_iff_left]
  rintro ⟨⟨supplied, s⟩, ho, h⟩
  obtain ⟨left, l', hreduce, h⟩ := (raises_reduce_bind _ _ _).1 h
  rw [raises_credit_bind, hα.amount (positive_ok (assetAmount_ok (withdrawOrder_ok ho).1).2).2] at h
  rcases h with h | h
  · cases h
  · exact raises_fired _ _ h

theorem raises_flashLoan : Raises (eval (b.flashLoan m) l).1 ↔ b.Named ["asset"] ∧ b.Oversized "amount" := by
  unfold flashLoan
  rw [raises_look, raises_read_bind, raises_flashLoanOrder, or_iff_left]
  rintro ⟨⟨s, fee⟩, ho, h⟩
  obtain ⟨hread, hfee, hcovered, -⟩ := flashLoanOrder_ok ho
  have hpos := hα.fee (positive_ok (assetAmount_ok hread).2).2
  rw [← hfee] at hpos
  rw [raises_debit_bind hpos hcovered] at h
  exact raises_fired _ _ h

/-- A leg that the balance does not cover is refused. -/
theorem not_raises_provideLeg (pool : String) (leg : Stake α) (l : Ledger α) :
    ¬ Raises (eval (provideLeg m pool leg) l).1 := by
  unfold provideLeg
  split
  · exact raises_ok _
  · rename_i hpos
    rw [eval_bind, eval_debit, hα.amount hpos, if_neg Bool.false_ne_true]
    split_ifs
    · nofun
    · exact raises_ok _

theorem raises_liquidity : Raises (eval (b.liquidity m) l).1 ↔ b.Named ["token0", "token1"] ∧
    (b.Oversized "amount0" ∨ b.Reads "amount0" (some 0.0) ∧ b.Oversized "amount1") := by
  unfold liquidity
  rw [raises_look, raises_read_bind, raises_liquidityOrder, or_iff_left]
  rintro ⟨⟨leg0, leg1⟩, -, h⟩
  refine not_raises_eval_bind (not_raises_provideLeg hα m _ leg0 l) (fun _ l' => ?_) h
  exact not_raises_eval_bind (not_raises_provideLeg hα m _ leg1 l') fun _ l'' => raises_fired _ _

end

/-! ## Exits -/

/-- Closing a position comes to nothing: the decision about it fails, or its amount is negative. -/
def Stuck (decision : Position α → Except (Fault α) (Option α)) (p : Position α) : Prop :=
  (∃ e, decision p = .error e) ∨ (∃ price, decision p = .ok (some price)) ∧ (Num.real p.amount).isLess (.whole 0) = true

section

variable {m : Market α}

theorem raises_closeAt_bind {l : Ledger α} {p : Position α} (h : l.position? p.id = some p) (price : α)
    (f : Unit → Action α (Outcome α)) : Raises (eval (closeAt m p price >>= f) l).1 ↔
      (Num.real p.amount).isLess (.whole 0) = true ∨ Raises (eval (f ()) (l.closedAt m (p, price))).1 := by
  have hclose : l.closePosition p.id = .ok (p, { l with positions := l.positions.filter (·.id != p.id) }) := by
    unfold Ledger.closePosition
    rw [h]
  unfold closeAt
  simp only [bind_assoc]
  rw [eval_bind, eval_closePosition, hclose]
  dsimp only
  rw [raises_credit_bind]
  rfl

/-- Closing some of the open positions fails if it does for any one of them. -/
theorem raises_closeWhere_bind {decision : Position α → Except (Fault α) (Option α)}
    (hd : ∀ p e, decision p = .error e → reported? e = none) {f : List String → Action α (Outcome α)}
    (hf : ∀ exits l', ¬ Raises (eval (f exits) l').1) (ps : List (Position α)) {l : Ledger α} (hwf : l.WF)
    (hps : ps.Sublist l.positions) :
    Raises (eval (closeWhere m decision ps >>= f) l).1 ↔ ∃ p ∈ ps, Stuck decision p := by
  -- on the positions that are still to be looked at; the account changes as they are closed
  induction ps generalizing l f with
  | nil => exact iff_of_false (hf [] l) (by simp)
  | cons p rest ih =>
    simp only [List.mem_cons, exists_eq_or_imp]
    unfold closeWhere
    simp only [bind_assoc]
    rw [raises_read_bind]
    cases hp : decision p with
    | error e => exact iff_of_true (.inl ((raises_error e).2 (hd p e hp))) (.inl (.inl ⟨e, hp⟩))
    | ok choice =>
      simp only [raises_ok, Except.ok.injEq, exists_eq_left', false_or]
      cases choice with
      | none =>
        have hleft : ¬ Stuck decision p := by simp [Stuck, hp]
        rw [or_iff_right hleft]
        exact ih hf hwf ((List.sublist_cons_self p rest).trans hps)
      | some price =>
        -- the position is open when its turn comes, so that closing it is not refused
        have hopen := hwf.position?_id (hps.subset List.mem_cons_self)
        have hstuck : Stuck decision p ↔ (Num.real p.amount).isLess (.whole 0) = true := by simp [Stuck, hp]
        rw [hstuck]
        simp only [bind_assoc, pure_bind]
        rw [raises_closeAt_bind hopen]
        exact or_congr_right (ih (fun exits l' => hf _ l') (closedAt_wf hwf _) (rest_open hwf hps price))

variable (b : Block α) {l : Ledger α}

/-- Without positions nothing is closed. -/
theorem raises_closing {decision : Position α → Except (Fault α) (Option α)} (hwf : l.WF)
    (hd : ∀ p e, decision p = .error e → reported? e = none) (o : Outcome α) {f : List String → Action α (Outcome α)}
    (hf : ∀ exits l', ¬ Raises (eval (f exits) l').1) :
    Raises (eval (if (b.assetPositions l).isEmpty then pure o
      else closeWhere m decision (b.assetPositions l) >>= f) l).1 ↔ ∃ p ∈ b.assetPositions l, Stuck decision p := by
  split_ifs with hempty
  · rw [List.isEmpty_iff.1 hempty]
    exact iff_of_false (raises_ok o) (by simp)
  · exact raises_closeWhere_bind hd hf _ hwf List.filter_sublist

/-- A position lost at least a percentage. -/
def fell (threshold : α) (p : Position α) (price : Num α) : Except (Fault α) Bool := do
  let change ← changePercent p price.value
  pure (decide (threshold ≤ -change))

/-- A position gained at least a percentage. -/
def rose (target : α) (p : Position α) (price : Num α) : Except (Fault α) Bool := do
  let change ← changePercent p price.value
  pure (decide (target ≤ change))

theorem raises_stopLoss (hwf : l.WF) : Raises (eval (b.stopLoss m) l).1 ↔ b.Oversized "percentage" ∨
    ∃ threshold, b.positive "percentage" (some 10.0) = .ok threshold ∧
      ∃ p ∈ b.assetPositions l, Stuck (atMarket m (fell threshold)) p := by
  unfold stopLoss
  rw [raises_read_bind, raises_positive]
  refine or_congr_right (exists_congr fun threshold => and_congr_right fun _ => ?_)
  rw [raises_look]
  refine raises_closing b hwf (atMarket_fault fun p price e h => changePercent_fault h) _ fun exits l' => ?_
  split <;> exact raises_ok _

theorem raises_takeProfit (hwf : l.WF) : Raises (eval (b.takeProfit m) l).1 ↔ b.Oversized "percentage" ∨
    ∃ target, b.positive "percentage" (some 20.0) = .ok target ∧
      ∃ p ∈ b.assetPositions l, Stuck (atMarket m (rose target)) p := by
  unfold takeProfit
  rw [raises_read_bind, raises_positive]
  refine or_congr_right (exists_congr fun target => and_congr_right fun _ => ?_)
  rw [raises_look]
  refine raises_closing b hwf (atMarket_fault fun p price e h => changePercent_fault h) _ fun exits l' => ?_
  split <;> exact raises_ok _

/-- Durations are read without a guard. -/
theorem raises_duration (x : α) :
    Raises (Duration.ofMilliseconds (.real x) : Except (Fault α) Int) ↔ Duration.Misfit x := by
  unfold Duration.ofMilliseconds Duration.ofScalar Duration.ofNanoseconds Duration.Misfit
  dsimp only
  split
  · rename_i ns hns
    rw [hns]
    split_ifs with hrange
    · simp [hrange]
    · simpa [reported?] using hrange
  · rename_i hns
    rw [hns]
    refine iff_of_true ((raises_throw _).2 rfl) fun ns hnone => ?_
    cases hnone

theorem raises_timeExit (hwf : l.WF) : Raises (eval (b.timeExit m) l).1 ↔ b.Oversized "duration" ∨
    ∃ milliseconds, b.positive "duration" (some 86400000.0) = .ok milliseconds ∧ b.assetPositions l ≠ [] ∧
      (Duration.Misfit milliseconds ∨
        ∃ duration, (Duration.ofMilliseconds (.real milliseconds) : Except (Fault α) Int) = .ok duration ∧
          ∃ p ∈ b.assetPositions l, Stuck (whenAged m duration) p) := by
  unfold timeExit
  rw [raises_read_bind, raises_positive]
  refine or_congr_right (exists_congr fun milliseconds => and_congr_right fun _ => ?_)
  rw [raises_look]
  dsimp only
  split_ifs with hempty
  · rw [List.isEmpty_iff.1 hempty]
    exact iff_of_false (raises_ok _) (by simp)
  · have hsome : b.assetPositions l ≠ [] := mt List.isEmpty_iff.2 hempty
    rw [and_iff_right hsome, raises_read_bind, raises_duration]
    refine or_congr_right (exists_congr fun duration => and_congr_right fun _ => ?_)
    refine raises_closeWhere_bind (fun p e h => whenAged_fault h) (fun exits l' => ?_) _ hwf List.filter_sublist
    split <;> exact raises_ok _

theorem raises_conditionalExit (hwf : l.WF) : Raises (eval (b.conditionalExit m) l).1 ↔
    ∃ condition, b.text "condition" = .ok condition ∧ ∃ parsed, ExitCondition.read? condition = some parsed ∧
      ∃ p ∈ b.assetPositions l, Stuck (atMarket m (meets parsed)) p := by
  unfold conditionalExit
  rw [raises_read_bind, or_iff_right (raises_text b _)]
  refine exists_congr fun condition => and_congr_right fun _ => ?_
  split
  · rename_i parsed h
    simp only [h, Option.some.injEq, exists_eq_left']
    rw [raises_look]
    refine raises_closing b hwf (atMarket_fault fun p price e h => meets_fault h) _ fun exits l' => ?_
    split <;> exact raises_ok _
  · rename_i h
    refine iff_of_false ((raises_error _).not.2 nofun) ?_
    rintro ⟨parsed, hparsed, -⟩
    exact h parsed hparsed

end

/-! ## Every kind -/

/-- What makes a block of a kind end with a fault that is raised. -/
def Escapes (b : Block α) (m : Market α) (l : Ledger α) : BlockKind → Prop
  | .priceTrigger => b.Named ["asset"] ∧ b.Oversized "target_price"
  | .timeTrigger => ∃ schedule, b.text "schedule" = .ok schedule ∧ Cron.holds schedule m.timestamp = .error .zeroStep
  | .volumeTrigger => b.Named ["asset"] ∧ b.Oversized "min_volume"
  | .indicatorTrigger =>
    ∃ asset, b.text "asset" = .ok asset ∧ ∃ name, b.text "indicator" = .ok name ∧
      ∃ indicator, Indicator.ofName? (Text.upper name) = some indicator ∧
        (b.Oversized "value" ∨ b.Reads "value" none ∧ (b.Oversized "period" ∨
          ∃ period, b.positive "period" (some 14.0) = .ok period ∧ (Scalar.wholePart? period = none ∨
            ∃ window, Scalar.wholePart? period = some window ∧ (∃ op, b.comparator = .ok op) ∧
              (∃ price, m.price asset = .ok price) ∧
              indicator.Misfit ((m.history.lookup asset).getD []) window)))
  | .swap e =>
    (b.Named ["input_token", "output_token"] ∧ (b.Oversized "amount" ∨
      b.ReadsPositive "amount" none ∧ b.Oversized "slippage")) ∨
    ∃ o, b.swapOrder e m l = .ok o ∧ (Num.real o.output.1).isLess (.whole 0) = true
  | .supply _ | .staking | .borrow _ => b.OversizedTerms
  | .repay | .withdraw | .flashLoan => b.Named ["asset"] ∧ b.Oversized "amount"
  | .liquidity => b.Named ["token0", "token1"] ∧
    (b.Oversized "amount0" ∨ b.Reads "amount0" (some 0.0) ∧ b.Oversized "amount1")
  | .stopLoss => b.Oversized "percentage" ∨
    ∃ threshold, b.positive "percentage" (some 10.0) = .ok threshold ∧
      ∃ p ∈ b.assetPositions l, Stuck (atMarket m (fell threshold)) p
  | .takeProfit => b.Oversized "percentage" ∨
    ∃ target, b.positive "percentage" (some 20.0) = .ok target ∧
      ∃ p ∈ b.assetPositions l, Stuck (atMarket m (rose target)) p
  | .timeExit => b.Oversized "duration" ∨
    ∃ milliseconds, b.positive "duration" (some 86400000.0) = .ok milliseconds ∧ b.assetPositions l ≠ [] ∧
      (Duration.Misfit milliseconds ∨
        ∃ duration, (Duration.ofMilliseconds (.real milliseconds) : Except (Fault α) Int) = .ok duration ∧
          ∃ p ∈ b.assetPositions l, Stuck (whenAged m duration) p)
  | .conditionalExit =>
    ∃ condition, b.text "condition" = .ok condition ∧ ∃ parsed, ExitCondition.read? condition = some parsed ∧
      ∃ p ∈ b.assetPositions l, Stuck (atMarket m (meets parsed)) p
  | .positionSizing => b.Oversized "value" ∨ b.ReadsPositive "value" (some 10.0) ∧ b.UnreadableLimit
  | .riskLimits => False
  | .rebalancing =>
    ∃ fields, b.param? "target_allocation" = some (.object fields) ∧ fields ≠ [] ∧
      (b.Oversized "threshold" ∨ b.Reads "threshold" (some 5.0) ∧ ¬ l.equity m.prices ≤ 0.0 ∧
        ∃ f ∈ fields, ∃ e, f.2.toReal = .error e)

theorem raises_act (hα : Scalar.Signed α) (b : Block α) (m : Market α) {l : Ledger α} (hwf : l.WF) (kind : BlockKind) :
    Raises (eval (b.act kind m) l).1 ↔ b.Escapes m l kind := by
  have hread : ∀ x : Except (Fault α) (Outcome α), Raises (eval (liftM x) l).1 ↔ Raises x := by
    intro x
    rw [eval_lift]
  cases kind with
  | priceTrigger => exact (hread _).trans (raises_priceTrigger b m)
  | timeTrigger => exact (hread _).trans (raises_timeTrigger b m)
  | volumeTrigger => exact (hread _).trans (raises_volumeTrigger b m)
  | indicatorTrigger => exact (hread _).trans (raises_indicatorTrigger b m)
  | swap e =>
    exact (raises_swap hα b m l e).trans (or_congr_left (raises_swapOrder b m l e))
  | supply lender => exact raises_supply hα b m l lender
  | borrow lender => exact raises_borrow hα b m l lender
  | repay => exact raises_repay hα b m l
  | withdraw => exact raises_withdraw hα b m l
  | liquidity => exact raises_liquidity hα b m l
  | flashLoan => exact raises_flashLoan hα b m l
  | staking => exact raises_staking hα b m l
  | stopLoss => exact raises_stopLoss b hwf
  | takeProfit => exact raises_takeProfit b hwf
  | timeExit => exact raises_timeExit b hwf
  | conditionalExit => exact raises_conditionalExit b hwf
  | positionSizing => exact (hread _).trans (raises_positionSizing b)
  | riskLimits => exact iff_of_false (raises_ok _) not_false
  | rebalancing => exact (raises_look _).trans ((hread _).trans (raises_rebalancing b m l))

/-- A block of the catalogue answers with an outcome exactly if nothing of what `Escapes` lists happens. -/
theorem reports_iff (hα : Scalar.Signed α) (b : Block α) (m : Market α) (l : Ledger α) (kind : BlockKind)
    (hl : l.Reachable) (hk : b.kind? = some kind) :
    (∃ o l', b.execute m l = (.ok o, l')) ↔ ¬ b.Escapes m l kind := by
  -- what a block raises is answered exactly if it is a fault that may be reported
  rw [← raises_act hα b m hl.wf kind, execute_eq hk]
  rcases eval (b.act kind m) l with ⟨r, l'⟩
  cases r with
  | ok o => exact iff_of_true ⟨o, l', rfl⟩ (raises_ok o)
  | error f =>
    rw [raises_error]
    cases hf : reported? f with
    | some o => exact iff_of_true ⟨o, l', answered_reported hf l'⟩ nofun
    | none =>
      rw [answered_raised hf]
      exact iff_of_false nofun (not_not_intro rfl)

/-! ## Slippage -/

theorem signed_extended [ExactArithmetic] : Scalar.Signed Extended where
  amount {x} hx := by
    rw [Bool.eq_false_iff, Ne, Extended.isLess_zero]
    exact fun hneg => hx (Extended.le_of_lt hneg)
  fee {x} hx := by
    rw [Bool.eq_false_iff, Ne, Extended.isLess_zero]
    cases x with
    | finite q =>
      simp only [Costs.flashLoanRate, Extended.literal_eq, Extended.finite_mul, Extended.finite_lt,
        Extended.finite_le] at hx ⊢
      norm_num at hx ⊢
      exact hx.le
    | infinite b =>
      cases b with
      | true => exact absurd rfl hx
      | false =>
        have hfee : Extended.infinite false * (Costs.flashLoanRate : Extended) = .infinite false := by
          change Extended.mul (.infinite false) (.finite 0.0009) = _
          norm_num [Extended.mul]
        rw [hfee]
        exact Bool.false_ne_true
    | undefined => exact Extended.not_undefined_lt _

local instance openPartsOfSlippage : ExactArithmetic := default

def slippingSwap (slippage : ℚ) : Block Extended :=
  { id := "buy", kind := "uniswap_swap", category := .protocol, label := "",
    params := [(.text "input_token", .text "USDC"), (.text "output_token", .text "ETH"),
      (.text "amount", .real (.finite 100)), (.text "slippage", .real (.finite slippage))] }

def marketOfTwo : Market Extended :=
  { timestamp := .known 0, prices := [("USDC", .real (.finite 1)), ("ETH", .real (.finite 2000))], history := [] }

def cashAccount : Ledger Extended := Ledger.opened (.finite 1000) "USDC"

theorem cashAccount_reachable : cashAccount.Reachable := by
  have hstart : Ledger.start (.real (.finite 1000)) "USDC" = .ok cashAccount := rfl
  exact Ledger.start_reachable hstart

/-- Half a percent of slippage is no reason to raise anything. -/
theorem slight_slippage_reported : cashAccount.Reachable ∧ (slippingSwap (1 / 2)).kind? = some (.swap .uniswap) ∧
    ¬ (slippingSwap (1 / 2)).Escapes marketOfTwo cashAccount (.swap .uniswap) := by
  have hfired : ((slippingSwap (1 / 2)).execute marketOfTwo cashAccount).1.toOption.map (·.fired) = some true := by
    decide +kernel
  obtain ⟨o, ho, -⟩ := execute_answered hfired
  exact ⟨cashAccount_reachable, rfl, (reports_iff signed_extended _ _ _ _ cashAccount_reachable rfl).1 ⟨o, _, ho⟩⟩

/-- With two hundred percent of slippage the output is negative, and crediting it ends the block. -/
theorem excessive_slippage_raises : ∃ (b : Block Extended) (m : Market Extended) (l : Ledger Extended),
    (∃ kind, b.kind? = some kind) ∧ l.Reachable ∧ (∀ q ∈ m.prices, q.2.isAtMost (.whole 0) = false) ∧
      (∃ ns, m.timestamp = .known ns) ∧ ∀ o l', b.execute m l ≠ (.ok o, l') := by
  have hraised : ((slippingSwap 200).execute marketOfTwo cashAccount).1.toOption.isNone = true := by
    decide +kernel
  refine ⟨slippingSwap 200, marketOfTwo, cashAccount, ⟨_, rfl⟩, cashAccount_reachable, by decide +kernel, ⟨0, rfl⟩,
    fun o l' h => ?_⟩
  rw [h] at hraised
  cases hraised

end StrategyLab.Block
