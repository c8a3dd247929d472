/-
A block, whatever comes of it, is a number of operations on the account, and every position it
opens has an amount above zero, so that what every operation keeps (`Ledger.Becomes.keeps`) holds
after each block, also after one that is refused halfway or that raises a fault.
-/
import StrategyLab.Proofs.Block.Action
import StrategyLab.Proofs.Block.Order

open StrategyLab.Action

namespace StrategyLab

variable {α β γ : Type} [Scalar α]

/-- A position that is opened with an amount above zero. -/
def Ledger.NewPosition.Filled (p : Ledger.NewPosition α) : Prop := ¬ p.amount ≤ 0.0

/-- What a computation leaves, whether it ends with a fault or not, comes from operations that open
only filled positions. -/
def Action.Leads (l : Ledger α) (x : Action α β) : Prop :=
  Ledger.Becomes Ledger.NewPosition.Filled l (Action.eval x l).2

namespace Action

/-! ## Computations -/

theorem Leads.pure {l : Ledger α} (a : β) : Leads l (pure a : Action α β) := .refl l

/-- The second part is looked at only where the first one succeeds. -/
theorem Leads.bind {l : Ledger α} {x : Action α β} {f : β → Action α γ} (hx : Leads l x)
    (hf : ∀ a l', eval x l = (.ok a, l') → Leads l' (f a)) : Leads l (x >>= f) := by
  unfold Leads at hx ⊢
  rw [eval_bind]
  rcases h : eval x l with ⟨r, l'⟩
  rw [h] at hx
  cases r with
  | error e => exact hx
  | ok a => exact hx.trans (hf a l' h)

theorem Leads.look {l : Ledger α} {f : Ledger α → Action α β} (hf : Leads l (f l)) : Leads l (get >>= f) :=
  Leads.bind (.refl l) fun a l' h => by cases h; exact hf

theorem Leads.read {l : Ledger α} (x : Except (Fault α) β) : Leads l (liftM x : Action α β) := by
  unfold Leads; rw [eval_lift]; exact .refl l

theorem Leads.read_bind {l : Ledger α} {x : Except (Fault α) β} {f : β → Action α γ}
    (hf : ∀ a, x = .ok a → Leads l (f a)) : Leads l (liftM x >>= f) :=
  Leads.bind (.read x) fun a l' h => by
    rw [eval_lift] at h
    obtain ⟨ha, rfl⟩ := Prod.mk.inj h
    exact hf a ha

theorem Leads.change {l : Ledger α} {f : Ledger α → Except (LedgerFault α) (Ledger α)}
    (hf : ∀ l', f l = .ok l' → Ledger.Operates Ledger.NewPosition.Filled l l') : Leads l (change f) := by
  unfold Leads
  rw [eval_change]
  cases h : f l with
  | error cause => exact .refl l
  | ok l' => exact (hf l' h).becomes

theorem Leads.credit (l : Ledger α) (token : String) (x : α) : Leads l (credit token x) :=
  .change fun _ h => .credit h

theorem Leads.debit (l : Ledger α) (token : String) (x : α) : Leads l (debit token x) :=
  .change fun _ h => .debit h

theorem Leads.closePosition (l : Ledger α) (id : String) : Leads l (closePosition id) :=
  .change fun l' h => by
    cases hc : l.closePosition id with
    | error cause => rw [hc] at h; cases h
    | ok r => rw [hc] at h; cases h; exact .closed hc

theorem Leads.reducePosition (l : Ledger α) (id : String) (x : α) : Leads l (reducePosition id x) := by
  unfold Leads
  rw [eval_reducePosition]
  cases h : l.reducePosition id (.real x) with
  | error cause => exact .refl l
  | ok r => exact (Ledger.Operates.reduced h).becomes

theorem Leads.openPosition (l : Ledger α) {p : Ledger.NewPosition α} (hp : p.Filled) : Leads l (openPosition p) :=
  (Ledger.Operates.opened l p hp).becomes

theorem Leads.record (l : Ledger α) (t : Ledger.NewTrade α) : Leads l (record t) :=
  (Ledger.Operates.recorded l t).becomes

theorem Leads.recordSingle (l : Ledger α) (m : Market α) (kind : TradeKind) (token : String)
    (amount price fees : α) : Leads l (recordSingle m kind token amount price fees) :=
  .record ..

end Action

namespace Block

/-! ## Parts of blocks -/

theorem assetAmount_filled {b : Block α} {asset : String} {amount : α}
    (h : b.assetAmount = .ok (asset, amount)) : ¬ amount ≤ 0.0 :=
  (positive_ok (assetAmount_ok h).2).2

theorem leads_deposit {m : Market α} {s : Stake α} {kind : PositionKind} {trade : TradeKind}
    {protocol : String} {apy : α} (hs : ¬ s.amount ≤ 0.0) (l : Ledger α) :
    Leads l (deposit m s kind trade protocol apy) := by
  unfold deposit
  refine Leads.bind (.debit ..) fun _ l₁ _ => ?_
  refine Leads.bind (.openPosition l₁ hs) fun _ l₂ _ => ?_
  exact Leads.bind (.recordSingle ..) fun _ _ _ => .pure _

theorem leads_provideLeg (m : Market α) (pool : String) (leg : Stake α) (l : Ledger α) :
    Leads l (provideLeg m pool leg) := by
  unfold provideLeg
  split
  · exact .pure _
  · rename_i hpos
    refine Leads.bind (.debit ..) fun _ l₁ _ => ?_
    exact Leads.bind (.openPosition l₁ hpos) fun _ _ _ => .pure _

theorem leads_closeAt (m : Market α) (p : Position α) (price : α) (l : Ledger α) :
    Leads l (closeAt m p price) := by
  unfold closeAt
  refine Leads.bind (.closePosition ..) fun _ _ _ => ?_
  exact Leads.bind (.credit ..) fun _ _ _ => .recordSingle ..

theorem leads_closeWhere (m : Market α) (decision : Position α → Except (Fault α) (Option α)) :
    ∀ (ps : List (Position α)) (l : Ledger α), Leads l (closeWhere m decision ps)
  | [], l => .pure _
  | p :: rest, l => by
    unfold closeWhere
    refine Leads.read_bind fun choice _ => ?_
    cases choice with
    | none => exact leads_closeWhere m decision rest l
    | some price =>
      refine Leads.bind (leads_closeAt ..) fun _ l₁ _ => ?_
      exact Leads.bind (leads_closeWhere m decision rest l₁) fun _ _ _ => .pure _

/-! ## Handlers -/

theorem leads_swap (e : Exchange) (b : Block α) (m : Market α) (l : Ledger α) : Leads l (b.swap e m) := by
  unfold swap
  refine Leads.look (Leads.read_bind fun o _ => ?_)
  unfold SwapOrder.perform
  refine Leads.bind (.debit ..) fun _ _ _ => ?_
  refine Leads.bind (.credit ..) fun _ _ _ => ?_
  exact Leads.bind (.record ..) fun _ _ _ => .pure _

theorem leads_supply (lender : Lender) (b : Block α) (m : Market α) (l : Ledger α) :
    Leads l (b.supply lender m) := by
  unfold supply
  refine Leads.look (Leads.read_bind fun ⟨s, apy⟩ ho => ?_)
  exact Leads.bind (leads_deposit (assetAmount_filled (depositOrder_ok ho).1) l) fun _ _ _ => .pure _

theorem leads_staking (b : Block α) (m : Market α) (l : Ledger α) : Leads l (b.staking m) := by
  unfold staking
  refine Leads.look (Leads.read_bind fun ⟨s, apy⟩ ho => ?_)
  exact Leads.bind (leads_deposit (assetAmount_filled (depositOrder_ok ho).1) l) fun _ _ _ => .pure _

theorem leads_borrow (lender : Lender) (b : Block α) (m : Market α) (l : Ledger α) :
    Leads l (b.borrow lender m) := by
  unfold borrow
  refine Leads.look (Leads.read_bind fun ⟨s, apy⟩ ho => ?_)
  refine Leads.bind (.credit ..) fun _ l₁ _ => ?_
  refine Leads.bind (.openPosition l₁ (assetAmount_filled (borrowOrder_ok ho).1)) fun _ _ _ => ?_
  exact Leads.bind (.recordSingle ..) fun _ _ _ => .pure _

theorem leads_repay (lender : Lender) (b : Block α) (m : Market α) (l : Ledger α) :
    Leads l (b.repay lender m) := by
  unfold repay
  refine Leads.look (Leads.read_bind fun ⟨debt, s⟩ _ => ?_)
  refine Leads.bind (.reducePosition ..) fun _ _ _ => ?_
  refine Leads.bind (.debit ..) fun _ _ _ => ?_
  exact Leads.bind (.recordSingle ..) fun _ _ _ => .pure _

theorem leads_withdraw (lender : Lender) (b : Block α) (m : Market α) (l : Ledger α) :
    Leads l (b.withdraw lender m) := by
  unfold withdraw
  refine Leads.look (Leads.read_bind fun ⟨supplied, s⟩ _ => ?_)
  refine Leads.bind (.reducePosition ..) fun _ _ _ => ?_
  refine Leads.bind (.credit ..) fun _ _ _ => ?_
  exact Leads.bind (.recordSingle ..) fun _ _ _ => .pure _

theorem leads_liquidity (b : Block α) (m : Market α) (l : Ledger α) : Leads l (b.liquidity m) := by
  unfold liquidity
  refine Leads.look (Leads.read_bind fun ⟨leg0, leg1⟩ _ => ?_)
  refine Leads.bind (leads_provideLeg ..) fun _ _ _ => ?_
  refine Leads.bind (leads_provideLeg ..) fun _ _ _ => ?_
  exact Leads.bind (.record ..) fun _ _ _ => .pure _

theorem leads_flashLoan (b : Block α) (m : Market α) (l : Ledger α) : Leads l (b.flashLoan m) := by
  unfold flashLoan
  refine Leads.look (Leads.read_bind fun ⟨s, fee⟩ _ => ?_)
  refine Leads.bind (.debit ..) fun _ _ _ => ?_
  exact Leads.bind (.recordSingle ..) fun _ _ _ => .pure _

theorem leads_stopLoss (b : Block α) (m : Market α) (l : Ledger α) : Leads l (b.stopLoss m) := by
  unfold stopLoss
  refine Leads.read_bind fun threshold _ => Leads.look ?_
  dsimp only
  split
  · exact .pure _
  · exact Leads.bind (leads_closeWhere ..) fun _ _ _ => by split <;> exact .pure _

theorem leads_takeProfit (b : Block α) (m : Market α) (l : Ledger α) : Leads l (b.takeProfit m) := by
  unfold takeProfit
  refine Leads.read_bind fun target _ => Leads.look ?_
  dsimp only
  split
  · exact .pure _
  · exact Leads.bind (leads_closeWhere ..) fun _ _ _ => by split <;> exact .pure _

theorem leads_timeExit (b : Block α) (m : Market α) (l : Ledger α) : Leads l (b.timeExit m) := by
  unfold timeExit
  refine Leads.read_bind fun milliseconds _ => Leads.look ?_
  dsimp only
  split
  · exact .pure _
  · refine Leads.read_bind fun duration _ => ?_
    exact Leads.bind (leads_closeWhere ..) fun _ _ _ => by split <;> exact .pure _

theorem leads_conditionalExit (b : Block α) (m : Market α) (l : Ledger α) : Leads l (b.conditionalExit m) := by
  unfold conditionalExit
  refine Leads.read_bind fun condition _ => ?_
  split
  · refine Leads.look ?_
    dsimp only
    split
    · exact .pure _
    · exact Leads.bind (leads_closeWhere ..) fun _ _ _ => by split <;> exact .pure _
  · exact .read (.error _)

theorem leads_act (kind : BlockKind) (b : Block α) (m : Market α) (l : Ledger α) : Leads l (b.act kind m) := by
  cases kind with
  | priceTrigger => exact .read _
  | timeTrigger => exact .read _
  | volumeTrigger => exact .read _
  | indicatorTrigger => exact .read _
  | swap e => exact leads_swap e b m l
  | supply lender => exact leads_supply lender b m l
  | borrow lender => exact leads_borrow lender b m l
  | repay => exact leads_repay .aave b m l
  | withdraw => exact leads_withdraw .aave b m l
  | liquidity => exact leads_liquidity b m l
  | flashLoan => exact leads_flashLoan b m l
  | staking => exact leads_staking b m l
  | stopLoss => exact leads_stopLoss b m l
  | takeProfit => exact leads_takeProfit b m l
  | timeExit => exact leads_timeExit b m l
  | conditionalExit => exact leads_conditionalExit b m l
  | positionSizing => exact .read _
  | riskLimits => exact .pure _
  | rebalancing => exact Leads.look (.read _)

/-! ## Whole blocks -/

/-- Executing a block, whether it fires, is refused or raises a fault, is a number of operations. -/
theorem execute_becomes (b : Block α) (m : Market α) (l : Ledger α) :
    Ledger.Becomes Ledger.NewPosition.Filled l (b.execute m l).2 := by
  cases hk : b.kind? with
  | none => unfold execute; rw [hk]; exact .refl l
  | some kind => rw [execute_eq hk, answered_snd]; exact leads_act kind b m l

theorem execute_reachable {b : Block α} {m : Market α} {l : Ledger α} (hl : l.Reachable) :
    (b.execute m l).2.Reachable :=
  hl.becomes (execute_becomes b m l)

end Block

end StrategyLab
