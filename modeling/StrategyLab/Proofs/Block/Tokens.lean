/-
What a block can touch. Whatever comes of it, the account gets no tokens but those that the block asked
the price of: each credit, debit and new position is in a token with a price, or in that of a position
that was open (`execute_within`). And no fault that a block of the catalogue ends with is one of the
strategy's structure (`execute_ordinary`).
-/
import StrategyLab.Proofs.Block.Action
import StrategyLab.Proofs.Block.Order
import StrategyLab.Proofs.Block.Structural
import StrategyLab.Proofs.Ledger.Balance

open StrategyLab.Action

namespace StrategyLab

variable {α β γ : Type} [Scalar α] {T : String → Prop}

/-- Every token with a usable price is one of some tokens. -/
def Market.Asks (m : Market α) (T : String → Prop) : Prop := ∀ token p, m.price token = .ok p → T token

namespace Action

/-! ## Computations -/

/-- A computation keeps an account within some tokens, also where it ends with a fault, which is none of
a strategy's structure. -/
def Stays (T : String → Prop) (x : Action α β) : Prop :=
  ∀ l : Ledger α, l.Within T → (eval x l).2.Within T ∧ ¬ Block.Structural (eval x l).1

namespace Stays

section

omit [Scalar α]

theorem pure (a : β) : Stays T (pure a : Action α β) := fun _ hl => ⟨hl, Block.structural_ok a⟩

theorem bind {x : Action α β} {f : β → Action α γ} (hx : Stays T x) (hf : ∀ a, Stays T (f a)) :
    Stays T (x >>= f) := by
  intro l hl
  obtain ⟨hkept, hfault⟩ := hx l hl
  rw [eval_bind]
  rcases h : eval x l with ⟨r, l'⟩
  rw [h] at hkept hfault
  cases r with
  | error e => exact ⟨hkept, by rwa [Block.structural_error] at hfault ⊢⟩
  | ok a => exact hf a l' hkept

theorem look {f : Ledger α → Action α β} (hf : ∀ l : Ledger α, l.Within T → Stays T (f l)) :
    Stays T (get >>= f) := by
  intro l hl
  rw [eval_bind_of_ok (eval_get l)]
  exact hf l hl l hl

theorem read {x : Except (Fault α) β} (hx : ¬ Block.Structural x) : Stays T (liftM x : Action α β) := by
  intro l hl
  rw [eval_lift]
  exact ⟨hl, hx⟩

/-- The second part is looked at only where something was read. -/
theorem read_bind {x : Except (Fault α) β} {f : β → Action α γ} (hx : ¬ Block.Structural x)
    (hf : ∀ a, x = .ok a → Stays T (f a)) : Stays T (liftM x >>= f) := by
  intro l hl
  cases x with
  | error e =>
    rw [eval_bind_of_error (eval_lift _ l)]
    exact ⟨hl, by rwa [Block.structural_error] at hx ⊢⟩
  | ok a =>
    rw [eval_bind_of_ok (eval_lift _ l)]
    exact hf a rfl l hl

theorem change {f : Ledger α → Except (LedgerFault α) (Ledger α)}
    (hf : ∀ l l', l.Within T → f l = .ok l' → l'.Within T) : Stays T (change f) := by
  intro l hl
  rw [eval_change]
  cases h : f l with
  | error cause => exact ⟨hl, fun ⟨_, h, hf⟩ => by cases h; exact hf⟩
  | ok l' => exact ⟨hf l l' hl h, Block.structural_ok _⟩

theorem openPosition {p : Ledger.NewPosition α} (hp : T p.asset) : Stays T (openPosition p) := fun _ hl =>
  ⟨hl.openPosition hp, Block.structural_ok _⟩

theorem record (t : Ledger.NewTrade α) : Stays T (record t) := fun _ hl =>
  ⟨hl.recordTrade t, Block.structural_ok _⟩

theorem closePosition (id : String) : Stays T (closePosition id : Action α Unit) :=
  change fun l l' hl h => by
    cases hc : l.closePosition id with
    | error cause => rw [hc] at h; cases h
    | ok r => rw [hc] at h; cases h; exact hl.closePosition hc

end

theorem credit {token : String} (htoken : T token) (x : α) : Stays T (credit token x) :=
  change fun _ _ hl h => by
    obtain ⟨y, -, -, rfl⟩ := Ledger.credit_ok h
    exact hl.withBalance htoken _

theorem debit {token : String} (htoken : T token) (x : α) : Stays T (debit token x) :=
  change fun _ _ hl h => by
    obtain ⟨y, -, -, -, rfl⟩ := Ledger.debit_ok h
    exact hl.withBalance htoken _

theorem reducePosition {id : String} {x : α} : Stays T (reducePosition id x) := by
  intro l hl
  rw [eval_reducePosition]
  cases h : l.reducePosition id (.real x) with
  | error cause => exact ⟨hl, fun ⟨_, h, hf⟩ => by cases h; exact hf⟩
  | ok r => exact ⟨hl.reducePosition h, Block.structural_ok _⟩

theorem recordSingle {m : Market α} {kind : TradeKind} {token : String} {amount price fees : α} :
    Stays T (recordSingle m kind token amount price fees) :=
  record _

end Stays

end Action

namespace Block

variable {m : Market α}

/-! ## Parts of blocks -/

theorem stays_deposit {s : Stake α} (hs : T s.asset) {kind : PositionKind} {trade : TradeKind} {protocol : String}
    {apy : α} : Stays T (deposit m s kind trade protocol apy) := by
  unfold deposit
  refine .bind (.debit hs _) fun _ => .bind (.openPosition hs) fun _ => ?_
  exact .bind .recordSingle fun _ => .pure _

theorem stays_provideLeg {leg : Stake α} (hleg : T leg.asset) (pool : String) : Stays T (provideLeg m pool leg) := by
  unfold provideLeg
  split
  · exact .pure _
  · exact .bind (.debit hleg _) fun _ => .bind (.openPosition hleg) fun _ => .pure _

theorem stays_closeAt {p : Position α} (hp : T p.asset) (price : α) : Stays T (closeAt m p price) := by
  unfold closeAt
  exact .bind (.closePosition _) fun _ => .bind (.credit hp _) fun _ => .recordSingle

theorem stays_closeWhere {decision : Position α → Except (Fault α) (Option α)}
    (hdecision : ∀ p, ¬ Structural (decision p)) : ∀ {ps : List (Position α)}, (∀ p ∈ ps, T p.asset) →
      Stays T (closeWhere m decision ps)
  | [], _ => .pure _
  | p :: rest, hps => by
    have hrest : Stays T (closeWhere m decision rest) :=
      stays_closeWhere hdecision fun q hq => hps q (List.mem_cons_of_mem p hq)
    unfold closeWhere
    refine .read_bind (hdecision p) fun choice _ => ?_
    cases choice with
    | none => exact hrest
    | some price =>
      exact .bind (stays_closeAt (hps p List.mem_cons_self) price) fun _ => .bind hrest fun _ => .pure _

/-- Closing those positions of an account for which a block decides so. -/
theorem stays_closing {decision : Position α → Except (Fault α) (Option α)} (hdecision : ∀ p, ¬ Structural (decision p))
    (b : Block α) {l : Ledger α} (hl : l.Within T) {f : List String → Action α (Outcome α)}
    (hf : ∀ exits, Stays T (f exits)) : Stays T (closeWhere m decision (b.assetPositions l) >>= f) :=
  .bind (stays_closeWhere hdecision fun p hp => hl.positions p (List.mem_of_mem_filter hp)) hf

/-! ## Handlers -/

section

variable (b : Block α) (hm : m.Asks T)

include hm

theorem stays_swap (e : Exchange) : Stays T (b.swap e m) := by
  unfold swap
  refine .look fun l _ => .read_bind (structural_swapOrder b m l e) fun o ho => ?_
  obtain ⟨p, hin, -⟩ := (swapOrder_ok ho).priceIn
  obtain ⟨q, hout, -⟩ := (swapOrder_ok ho).priceOut
  unfold SwapOrder.perform
  refine .bind (.debit (hm _ p hin) _) fun _ => .bind (.credit (hm _ q hout) _) fun _ => ?_
  exact .bind (.record _) fun _ => .pure _

theorem stays_supply (lender : Lender) : Stays T (b.supply lender m) := by
  unfold supply
  refine .look fun l _ => .read_bind (structural_depositOrder b m l _) fun ⟨s, apy⟩ ho => ?_
  obtain ⟨-, -, ⟨p, hp, -⟩, -⟩ := depositOrder_ok ho
  exact .bind (stays_deposit (hm _ p hp)) fun _ => .pure _

theorem stays_staking : Stays T (b.staking m) := by
  unfold staking
  refine .look fun l _ => .read_bind (structural_depositOrder b m l _) fun ⟨s, apy⟩ ho => ?_
  obtain ⟨-, -, ⟨p, hp, -⟩, -⟩ := depositOrder_ok ho
  exact .bind (stays_deposit (hm _ p hp)) fun _ => .pure _

theorem stays_borrow (lender : Lender) : Stays T (b.borrow lender m) := by
  unfold borrow
  refine .look fun l _ => .read_bind (structural_borrowOrder b m l lender) fun ⟨s, apy⟩ ho => ?_
  obtain ⟨-, -, ⟨p, hp, -⟩, -⟩ := borrowOrder_ok ho
  refine .bind (.credit (hm _ p hp) _) fun _ => .bind (.openPosition (hm _ p hp)) fun _ => ?_
  exact .bind .recordSingle fun _ => .pure _

theorem stays_repay (lender : Lender) : Stays T (b.repay lender m) := by
  unfold repay
  refine .look fun l _ => .read_bind (structural_repayOrder b m l lender) fun ⟨debt, s⟩ ho => ?_
  obtain ⟨-, -, -, p, hp, -⟩ := repayOrder_ok ho
  refine .bind .reducePosition fun _ => .bind (.debit (hm _ p hp) _) fun _ => ?_
  exact .bind .recordSingle fun _ => .pure _

theorem stays_withdraw (lender : Lender) : Stays T (b.withdraw lender m) := by
  unfold withdraw
  refine .look fun l _ => .read_bind (structural_withdrawOrder b m l lender) fun ⟨supplied, s⟩ ho => ?_
  obtain ⟨-, -, p, hp, -⟩ := withdrawOrder_ok ho
  refine .bind .reducePosition fun _ => .bind (.credit (hm _ p hp) _) fun _ => ?_
  exact .bind .recordSingle fun _ => .pure _

theorem stays_liquidity : Stays T (b.liquidity m) := by
  unfold liquidity
  refine .look fun l _ => .read_bind (structural_liquidityOrder b m l) fun ⟨leg0, leg1⟩ ho => ?_
  obtain ⟨p, hp, -⟩ := (liquidityOrder_ok ho).price0
  obtain ⟨q, hq, -⟩ := (liquidityOrder_ok ho).price1
  refine .bind (stays_provideLeg (hm _ p hp) _) fun _ => .bind (stays_provideLeg (hm _ q hq) _) fun _ => ?_
  exact .bind (.record _) fun _ => .pure _

theorem stays_flashLoan : Stays T (b.flashLoan m) := by
  unfold flashLoan
  refine .look fun l _ => .read_bind (structural_flashLoanOrder b m l) fun ⟨s, fee⟩ ho => ?_
  obtain ⟨-, -, -, p, hp, -⟩ := flashLoanOrder_ok ho
  exact .bind (.debit (hm _ p hp) _) fun _ => .bind .recordSingle fun _ => .pure _

omit hm

theorem stays_stopLoss : Stays T (b.stopLoss m) := by
  unfold stopLoss
  refine .read_bind (structural_positive b _ _) fun threshold _ => .look fun l hl => ?_
  dsimp only
  split
  · exact .pure _
  · refine stays_closing (structural_atMarket fun p price => ?_) b hl fun exits => by split <;> exact .pure _
    exact not_structural_bind (structural_changePercent p _) fun _ => structural_pure _

theorem stays_takeProfit : Stays T (b.takeProfit m) := by
  unfold takeProfit
  refine .read_bind (structural_positive b _ _) fun target _ => .look fun l hl => ?_
  dsimp only
  split
  · exact .pure _
  · refine stays_closing (structural_atMarket fun p price => ?_) b hl fun exits => by split <;> exact .pure _
    exact not_structural_bind (structural_changePercent p _) fun _ => structural_pure _

theorem stays_timeExit : Stays T (b.timeExit m) := by
  unfold timeExit
  refine .read_bind (structural_positive b _ _) fun milliseconds _ => .look fun l hl => ?_
  dsimp only
  split
  · exact .pure _
  · refine .read_bind (structural_duration milliseconds) fun duration _ => ?_
    exact stays_closing (structural_whenAged m duration) b hl fun exits => by split <;> exact .pure _

theorem stays_conditionalExit : Stays T (b.conditionalExit m) := by
  unfold conditionalExit
  refine .read_bind (structural_text b _) fun condition _ => ?_
  split
  · refine .look fun l hl => ?_
    dsimp only
    split
    · exact .pure _
    · exact stays_closing (structural_atMarket (structural_meets _)) b hl fun exits => by split <;> exact .pure _
  · exact .read ((structural_error _).not.2 not_false)

include hm

theorem stays_act (kind : BlockKind) : Stays T (b.act kind m) := by
  cases kind with
  | priceTrigger => exact .read (structural_priceTrigger b m)
  | timeTrigger => exact .read (structural_timeTrigger b m)
  | volumeTrigger => exact .read (structural_volumeTrigger b m)
  | indicatorTrigger => exact .read (structural_indicatorTrigger b m)
  | swap e => exact stays_swap b hm e
  | supply lender => exact stays_supply b hm lender
  | borrow lender => exact stays_borrow b hm lender
  | repay => exact stays_repay b hm .aave
  | withdraw => exact stays_withdraw b hm .aave
  | liquidity => exact stays_liquidity b hm
  | flashLoan => exact stays_flashLoan b hm
  | staking => exact stays_staking b hm
  | stopLoss => exact stays_stopLoss b
  | takeProfit => exact stays_takeProfit b
  | timeExit => exact stays_timeExit b
  | conditionalExit => exact stays_conditionalExit b
  | positionSizing => exact .read (structural_positionSizing b)
  | riskLimits => exact .pure _
  | rebalancing => exact .look fun l _ => .read (structural_rebalancing b m l)

/-! ## Whole blocks -/

/-- Whatever comes of a block, the account stays within tokens that take in all those with a price. -/
theorem execute_within {l : Ledger α} (hl : l.Within T) : (b.execute m l).2.Within T := by
  cases hk : b.kind? with
  | none => unfold execute; rw [hk]; exact hl
  | some kind =>
    rw [execute_eq hk, answered_snd]
    exact (stays_act b hm kind l hl).1

omit hm

/-- A block of the catalogue ends with no fault of the strategy's structure. -/
theorem execute_ordinary {kind : BlockKind} (hk : b.kind? = some kind) (m : Market α) (l : Ledger α) :
    ¬ Structural (b.execute m l).1 := by
  have hany : m.Asks fun _ => True := fun _ _ _ => trivial
  obtain ⟨-, hfault⟩ := stays_act b hany kind l ⟨fun _ _ => trivial, fun _ _ => trivial⟩
  rw [execute_eq hk]
  rcases h : eval (b.act kind m) l with ⟨r, l'⟩
  rw [h] at hfault
  cases r with
  | ok o => exact structural_ok o
  | error f =>
    cases hr : reported? f with
    | some o => rw [answered_reported hr]; exact structural_ok o
    | none => rw [answered_raised hr]; exact hfault

end

end Block

namespace SequenceRun

/-- The account stays within its tokens over a sequence of blocks. -/
theorem after_within {m : Market α} (hm : m.Asks T) : ∀ (blocks : List (Block α)) (previous : Option (Outcome α))
    {l : Ledger α}, l.Within T → (after m previous blocks l).ledger.Within T
  | [], _, _, hl => hl
  | b :: rest, previous, l, hl => by
    unfold after
    split
    · exact after_within hm rest _ hl
    · have hblock := b.execute_within hm hl
      split
      · rename_i o l' h
        rw [h] at hblock
        exact after_within hm rest _ hblock
      · rename_i f l' h
        rw [h] at hblock
        exact hblock

end SequenceRun

end StrategyLab
