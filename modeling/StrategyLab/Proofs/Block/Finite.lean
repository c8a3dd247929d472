/-
Where amounts that are not finite get into an account. A guard that asks for what it rejects, a
negative amount or one above the balance, lets the undefined value through, and one without a bound from
above lets infinity through. So a block that fires keeps the balances and the open amounts finite exactly
if the params that say what it moves are finite, and the terms of the positions exactly if its rate is;
a block that does not fire keeps both, and so do exits, whatever their params are.
-/
import StrategyLab.Proofs.Block.Handler
import StrategyLab.Proofs.Ledger.Finite
import StrategyLab.Proofs.Agree

open StrategyLab.Action

namespace StrategyLab

/-! ## Params -/

section

variable {α : Type} [Scalar α]

/-- The params that say what a kind of block moves, each with what stands in for a missing one. -/
def BlockKind.amounts : BlockKind → List (String × Option α)
  | .swap e => [("amount", none), ("slippage", some e.defaultSlippage)]
  | .liquidity => [("amount0", some 0.0), ("amount1", some 0.0)]
  | .supply _ | .borrow _ | .repay | .withdraw | .flashLoan | .staking => [("amount", none)]
  | _ => []

/-- The param with the yearly rate of the position that a kind of block opens. -/
def BlockKind.rates : BlockKind → List (String × Option α)
  | .supply _ => [("apy", some 3.0)]
  | .staking => [("apy", some 4.0)]
  | .borrow _ => [("apy", some 0.0)]
  | _ => []

theorem BlockKind.reads_nothing {kind : BlockKind} (hk : kind.category ≠ .protocol) :
    kind.amounts = ([] : List (String × Option α)) ∧ kind.rates = ([] : List (String × Option α)) := by
  cases kind <;> simp [category] at hk <;> exact ⟨rfl, rfl⟩

/-- Each of some params is read as a finite number. -/
def Block.ReadsFinite (b : Block α) (params : List (String × Option α)) : Prop :=
  ∀ r ∈ params, ∃ x, b.number r.1 r.2 = .ok x ∧ Scalar.isFinite x = true

theorem Block.readsFinite_nil (b : Block α) : b.ReadsFinite [] := nofun

theorem Block.readsFinite_one {b : Block α} {key : String} {default : Option α} {x : α}
    (h : b.number key default = .ok x) : b.ReadsFinite [(key, default)] ↔ Scalar.isFinite x = true := by
  simp [ReadsFinite, h]

theorem Block.readsFinite_two {b : Block α} {key key' : String} {default default' : Option α} {x y : α}
    (h : b.number key default = .ok x) (h' : b.number key' default' = .ok y) :
    b.ReadsFinite [(key, default), (key', default')] ↔ Scalar.isFinite x = true ∧ Scalar.isFinite y = true := by
  simp [ReadsFinite, h, h']

/-! ## Exits -/

/-- What a computation leaves has a property if the account before has it. -/
def Action.Retains {β : Type} (P : Ledger α → Prop) (x : Action α β) (l : Ledger α) : Prop := P l → P (eval x l).2

namespace Action.Retains

variable {β γ : Type} {P : Ledger α → Prop} {l : Ledger α}

omit [Scalar α] in
theorem pure (a : β) : Retains P (pure a : Action α β) l := id

omit [Scalar α] in
theorem bind {x : Action α β} {f : β → Action α γ} (hx : Retains P x l) (hf : ∀ a l', Retains P (f a) l') :
    Retains P (x >>= f) l := by
  intro h
  have hleft := hx h
  rw [eval_bind]
  rcases hrun : eval x l with ⟨r, l'⟩
  rw [hrun] at hleft
  cases r with
  | error e => exact hleft
  | ok a => exact hf a l' hleft

omit [Scalar α] in
theorem read_bind {x : Except (Fault α) β} {f : β → Action α γ} (hf : ∀ a, Retains P (f a) l) :
    Retains P (liftM x >>= f) l := by
  intro h
  rw [eval_bind, eval_lift]
  cases x with
  | error e => exact h
  | ok a => exact hf a h

omit [Scalar α] in
theorem look {f : Ledger α → Action α β} (hf : Retains P (f l) l) : Retains P (get >>= f) l := by
  intro h
  rw [eval_bind_of_ok (eval_get l)]
  exact hf h

end Action.Retains

namespace Block

variable {P : Ledger α → Prop} {b : Block α} {m : Market α}

/-- Whatever closing a position leaves alone, and whether or not its amount is credited in the end. -/
structure Outlasts (P : Ledger α → Prop) (m : Market α) (p : Position α) : Prop where
  dropped (l : Ledger α) : P l → P { l with positions := l.positions.filter (·.id != p.id) }
  closed (l : Ledger α) (price : α) : P l → P (l.closedAt m (p, price))

theorem retains_closeAt {p : Position α} (hp : Outlasts P m p) (price : α) (l : Ledger α) :
    Retains P (closeAt m p price) l := by
  intro h
  unfold closeAt
  rw [eval_bind, eval_closePosition]
  cases hclose : l.closePosition p.id with
  | error cause => exact h
  | ok r =>
    obtain ⟨q, l'⟩ := r
    obtain ⟨-, rfl⟩ := Ledger.closePosition_ok hclose
    dsimp only
    rw [eval_bind, eval_credit]
    split_ifs
    · exact hp.dropped l h
    · exact hp.closed l price h

theorem retains_closeWhere {decision : Position α → Except (Fault α) (Option α)} {ps : List (Position α)}
    (hps : ∀ p ∈ ps, Outlasts P m p) (l : Ledger α) : Retains P (closeWhere m decision ps) l := by
  induction ps generalizing l with
  | nil => exact .pure _
  | cons p rest ih =>
    have hrest := fun l => ih (fun q hq => hps q (List.mem_cons_of_mem _ hq)) l
    unfold closeWhere
    refine .read_bind fun choice => ?_
    cases choice with
    | none => exact hrest l
    | some price =>
      exact .bind (retains_closeAt (hps p List.mem_cons_self) price l) fun _ l' =>
        .bind (hrest l') fun more l'' => .pure _

/-- An exit keeps what closing any one of its positions keeps. -/
theorem retains_exit {kind : BlockKind} (hk : kind.category = .exit) {l : Ledger α}
    (hps : ∀ p ∈ l.positions, Outlasts P m p) : Retains P (b.act kind m) l := by
  have hassets : ∀ p ∈ b.assetPositions l, Outlasts P m p := fun p hp => hps p (List.mem_filter.1 hp).1
  have hclose : ∀ {decision} {f : List String → Action α (Outcome α)}, (∀ exits l', Retains P (f exits) l') →
      Retains P (closeWhere m decision (b.assetPositions l) >>= f) l :=
    fun hf => .bind (retains_closeWhere hassets l) hf
  cases kind with
  | stopLoss | takeProfit =>
    refine .read_bind fun threshold => .look ?_
    dsimp only
    split
    · exact .pure _
    · refine hclose fun exits l' => ?_
      split <;> exact .pure _
  | timeExit =>
    refine .read_bind fun milliseconds => .look ?_
    dsimp only
    split
    · exact .pure _
    · refine .read_bind fun duration => hclose fun exits l' => ?_
      split <;> exact .pure _
  | conditionalExit =>
    refine .read_bind fun condition => ?_
    split
    · refine .look ?_
      dsimp only
      split
      · exact .pure _
      · refine hclose fun exits l' => ?_
        split <;> exact .pure _
    · exact fun h => h
  | _ => cases hk

end Block

end

/-! ## What moves -/

section

variable [ExactArithmetic] {b : Block Extended} {m : Market Extended} {l l' : Ledger Extended}

/-- Every price is a finite number above zero. -/
def Market.FinitePrices (m : Market Extended) : Prop := ∀ q ∈ m.prices, ∃ p : ℚ, 0 < p ∧ q.2.value = .finite p

theorem Market.FinitePrices.price {token : String} {p : Num Extended} (hm : m.FinitePrices)
    (h : m.price token = .ok p) : ∃ q : ℚ, 0 < q ∧ p.value = .finite q := by
  unfold Market.price at h
  split at h
  · rename_i found hfound
    split_ifs at h
    cases h
    exact hm _ (mem_of_lookup hfound)
  · cases h

/-- Neither below zero nor above it, so that no comparison was with the undefined value. -/
theorem Extended.isFinite_of_empty {x : Extended} (hlo : ¬ x < 0.0) (hhi : x ≤ 0.0) : Scalar.isFinite x = true := by
  cases x with
  | finite q => rfl
  | infinite b =>
    cases b with
    | true => exact absurd rfl hlo
    | false => cases hhi
  | undefined => cases hhi

/-- Above zero and covered, with something left that is less than something. -/
theorem Extended.isFinite_of_left {x y z : Extended} (hx : Scalar.isFinite x = true) (hpos : ¬ y ≤ 0.0)
    (hcovered : ¬ x < y) (hleft : x - y < z) : Scalar.isFinite y = true := by
  obtain ⟨p, rfl⟩ := Extended.isFinite_iff.1 hx
  cases y with
  | finite q => rfl
  | infinite b =>
    cases b with
    | true => exact absurd rfl hpos
    | false => exact absurd rfl hcovered
  | undefined => exact absurd hleft (Extended.not_undefined_lt z)

theorem SwapOrder.isFinite_output {o : SwapOrder Extended} (hamount : Scalar.isFinite o.amount = true)
    (hin : ∃ q : ℚ, 0 < q ∧ o.priceIn = .finite q) (hout : ∃ q : ℚ, 0 < q ∧ o.priceOut = .finite q) :
    Scalar.isFinite o.output.1 = true ↔ Scalar.isFinite o.slippage = true := by
  obtain ⟨p, -, hp⟩ := hin
  obtain ⟨q, hq, hq'⟩ := hout
  have hrate : Scalar.isFinite (o.exchange.feeRate : Extended) = true := by cases o.exchange <;> rfl
  have hbonus : Scalar.isFinite (o.exchange.rateBonus : Extended) = true := by cases o.exchange <;> rfl
  have hratio : Scalar.isFinite (o.priceIn / o.priceOut) = true := by
    rw [hp, hq', Extended.isFinite_div _ hq.ne']
    rfl
  have hnaive : Scalar.isFinite o.naiveOutput = true := by
    unfold naiveOutput
    simp [hamount, hratio, hbonus]
  unfold output Costs.afterFeeAndSlippage
  simp [hnaive, hrate]

namespace Stake

variable {pool : String} {leg : Stake Extended}

theorem finiteHoldings_provided (h : ¬ leg.amount < 0.0) :
    (leg.provided m pool l).FiniteHoldings ↔ l.FiniteHoldings ∧ Scalar.isFinite leg.amount = true := by
  unfold provided
  split_ifs with hempty
  · rw [iff_self_and]
    exact fun _ => Extended.isFinite_of_empty h hempty
  · rw [Ledger.finiteHoldings_openPosition, Ledger.finiteHoldings_pay, and_assoc]
    exact and_congr_right fun _ => and_self_iff

theorem finiteTerms_provided (h : l.FiniteTerms) (hprice : Scalar.isFinite leg.price = true) :
    (leg.provided m pool l).FiniteTerms := by
  unfold provided
  split_ifs
  · exact h
  · rw [Ledger.finiteTerms_openPosition, Ledger.finiteTerms_pay]
    exact ⟨h, hprice, rfl⟩

end Stake

namespace Block

theorem assetAmount_number {asset : String} {amount : Extended} (h : b.assetAmount = .ok (asset, amount)) :
    b.number "amount" none = .ok amount := (positive_ok (assetAmount_ok h).2).1

/-- A block that fires keeps balances and amounts finite exactly if what it moves is finite. -/
theorem Effect.finiteHoldings_iff {kind : BlockKind} (hexit : kind.category ≠ .exit) (hm : m.FinitePrices)
    (hl : l.FiniteHoldings) (h : Effect b m l kind l') : l'.FiniteHoldings ↔ b.ReadsFinite kind.amounts := by
  cases h with
  | swap ho =>
    have hread := swapOrder_ok ho
    obtain ⟨p, hin, hp⟩ := hread.priceIn
    obtain ⟨q, hout, hq⟩ := hread.priceOut
    rw [BlockKind.amounts, readsFinite_two (positive_ok hread.amount).1 hread.slippage]
    unfold SwapOrder.settled
    rw [Ledger.finiteHoldings_recordTrade, Ledger.finiteHoldings_gain, Ledger.finiteHoldings_pay, and_iff_right hl]
    exact and_congr_right fun hamount =>
      SwapOrder.isFinite_output hamount (hp ▸ hm.price hin) (hq ▸ hm.price hout)
  | supply ho =>
    rw [BlockKind.amounts, readsFinite_one (assetAmount_number (depositOrder_ok ho).1)]
    simp [Stake.deposited, Stake.position, hl]
  | staking protocol ho =>
    rw [BlockKind.amounts, readsFinite_one (assetAmount_number (depositOrder_ok ho).1)]
    simp [Stake.deposited, Stake.position, hl]
  | borrow ho =>
    rw [BlockKind.amounts, readsFinite_one (assetAmount_number (borrowOrder_ok ho).1)]
    simp [Stake.borrowed, Stake.position, hl]
  | repay ho hreduce =>
    rw [BlockKind.amounts, readsFinite_one (assetAmount_number (repayOrder_ok ho).1),
      Ledger.finiteHoldings_recordTrade, Ledger.finiteHoldings_pay, and_iff_right_iff_imp]
    exact fun hamount => hl.reducePosition hamount hreduce
  | withdraw ho hreduce =>
    rw [BlockKind.amounts, readsFinite_one (assetAmount_number (withdrawOrder_ok ho).1),
      Ledger.finiteHoldings_recordTrade, Ledger.finiteHoldings_gain, and_iff_right_iff_imp]
    exact fun hamount => hl.reducePosition hamount hreduce
  | liquidity ho =>
    have hread := liquidityOrder_ok ho
    rw [BlockKind.amounts, readsFinite_two hread.amount0 hread.amount1]
    unfold Stake.pooled
    rw [Ledger.finiteHoldings_recordTrade, Stake.finiteHoldings_provided hread.lo1,
      Stake.finiteHoldings_provided hread.lo0, and_iff_right hl]
  | flashLoan ho =>
    obtain ⟨hread, hfee, -⟩ := flashLoanOrder_ok ho
    rw [BlockKind.amounts, readsFinite_one (assetAmount_number hread)]
    simp [Stake.flashed, hl, hfee, Costs.flashLoanRate]
  | exit hk => exact absurd hk hexit
  | report hk =>
    rw [(BlockKind.reads_nothing (by rcases hk with hk | hk <;> simp [hk])).1]
    exact iff_of_true hl b.readsFinite_nil

/-- A block that fires keeps the terms of the positions finite exactly if its rate is finite. -/
theorem Effect.finiteTerms_iff {kind : BlockKind} (hexit : kind.category ≠ .exit) (hm : m.FinitePrices)
    (hl : l.FiniteTerms) (h : Effect b m l kind l') : l'.FiniteTerms ↔ b.ReadsFinite kind.rates := by
  have hprice : ∀ {s : Stake Extended}, (∃ p, m.price s.asset = .ok p ∧ s.price = p.value) →
      Scalar.isFinite s.price = true := by
    rintro s ⟨p, hp, hs⟩
    obtain ⟨q, -, hq⟩ := hm.price hp
    rw [hs, hq]
    rfl
  cases h with
  | supply ho =>
    obtain ⟨-, -, hasked, rate, hrate, rfl⟩ := depositOrder_ok ho
    rw [BlockKind.rates, readsFinite_one hrate]
    simp [Stake.deposited, Stake.position, hl, hprice hasked]
  | staking protocol ho =>
    obtain ⟨-, -, hasked, rate, hrate, rfl⟩ := depositOrder_ok ho
    rw [BlockKind.rates, readsFinite_one hrate]
    simp [Stake.deposited, Stake.position, hl, hprice hasked]
  | borrow ho =>
    obtain ⟨-, -, hasked, rate, hrate, rfl⟩ := borrowOrder_ok ho
    rw [BlockKind.rates, readsFinite_one hrate]
    simp [Stake.borrowed, Stake.position, hl, hprice hasked]
  | swap ho => exact iff_of_true hl b.readsFinite_nil
  | repay ho hreduce =>
    rw [Ledger.finiteTerms_recordTrade, Ledger.finiteTerms_pay]
    exact iff_of_true (hl.reducePosition hreduce) b.readsFinite_nil
  | withdraw ho hreduce =>
    rw [Ledger.finiteTerms_recordTrade, Ledger.finiteTerms_gain]
    exact iff_of_true (hl.reducePosition hreduce) b.readsFinite_nil
  | @liquidity leg0 leg1 ho =>
    have hread := liquidityOrder_ok ho
    have hfirst : (leg0.provided m (leg0.pool leg1) l).FiniteTerms := Stake.finiteTerms_provided hl (hprice hread.price0)
    exact iff_of_true (Stake.finiteTerms_provided hfirst (hprice hread.price1)) b.readsFinite_nil
  | flashLoan ho => exact iff_of_true hl b.readsFinite_nil
  | exit hk => exact absurd hk hexit
  | report hk =>
    rw [(BlockKind.reads_nothing (by rcases hk with hk | hk <;> simp [hk])).2]
    exact iff_of_true hl b.readsFinite_nil

theorem outlasts_finiteHoldings {p : Position Extended} (hp : Scalar.isFinite p.amount = true) :
    Outlasts Ledger.FiniteHoldings m p where
  dropped _ h := h.filter _
  closed _ _ h := by
    unfold Ledger.closedAt
    rw [Ledger.finiteHoldings_recordTrade, Ledger.finiteHoldings_gain]
    exact ⟨h.filter _, hp⟩

theorem outlasts_finiteTerms (p : Position Extended) : Outlasts Ledger.FiniteTerms m p where
  dropped _ h := h.filter _
  closed _ _ h := h.filter _

/-- Of two legs that overdraw the first one was covered, and what it left was compared with the second. -/
theorem overdraw_finite {leg0 leg1 : Stake Extended} (hm : m.FinitePrices) (hl : l.FiniteHoldings)
    (ho : b.liquidityOrder m l = .ok (leg0, leg1)) (hdraw : leg0.Overdraw leg1 l) (pool : String) :
    (leg0.provided m pool l).FiniteHoldings ∧ (l.FiniteTerms → (leg0.provided m pool l).FiniteTerms) := by
  obtain ⟨-, hpos, -, hless⟩ := hdraw
  have hread := liquidityOrder_ok ho
  obtain ⟨p, hasked, hp⟩ := hread.price0
  obtain ⟨q, -, hq⟩ := hm.price hasked
  constructor
  · rw [Stake.finiteHoldings_provided hread.lo0]
    exact ⟨hl, Extended.isFinite_of_left (hl.balance _) hpos hread.covered0 hless⟩
  · intro hterms
    apply Stake.finiteTerms_provided hterms
    rw [hp, hq]
    rfl

/-- Whatever a block is given: what it leaves is finite exactly if it does not fire or the params that say
what it moves are finite. -/
theorem execute_finite_iff (b : Block Extended) (m : Market Extended) (l l' : Ledger Extended)
    (o : Outcome Extended) (hm : m.FinitePrices) (hl : l.FiniteHoldings) (h : b.execute m l = (.ok o, l')) :
    ∃ kind, b.kind? = some kind ∧
      (l'.FiniteHoldings ↔ (o.fired = true → b.ReadsFinite kind.amounts)) ∧
      (l.FiniteTerms → (l'.FiniteTerms ↔ (o.fired = true → b.ReadsFinite kind.rates))) := by
  obtain ⟨kind, hk⟩ := execute_kind h
  refine ⟨kind, hk, ?_⟩
  by_cases hexit : kind.category = .exit
  · -- an exit moves what was there, also where it was refused halfway
    have hnothing : kind.category ≠ .protocol := by simp [hexit]
    obtain ⟨hamounts, hrates⟩ := BlockKind.reads_nothing (α := Extended) hnothing
    have hleft : l' = (eval (b.act kind m) l).2 := by
      rw [← answered_snd, ← execute_eq hk, h]
    rw [hleft, hamounts, hrates]
    constructor
    · exact iff_of_true (retains_exit hexit (fun p hp => outlasts_finiteHoldings (hl.amount p hp)) hl)
        fun _ => b.readsFinite_nil
    · exact fun hterms => iff_of_true (retains_exit hexit (fun p _ => outlasts_finiteTerms p) hterms)
        fun _ => b.readsFinite_nil
  by_cases hover : b.Overdraws m l
  · obtain ⟨hpools, leg0, leg1, ho, hdraw⟩ := hover
    obtain ⟨hf, rfl⟩ := execute_overdraw hpools ho hdraw h
    obtain ⟨hholdings, hterms⟩ := overdraw_finite hm hl ho hdraw (leg0.pool leg1)
    simp only [hf, Bool.false_eq_true, false_imp_iff, iff_true]
    exact ⟨hholdings, hterms⟩
  · rcases execute_atomic hk (act_atomic_of_ne_exit hexit hk hover) h with ⟨hf, heffect⟩ | ⟨hf, rfl⟩
    · simp only [hf, true_imp_iff]
      exact ⟨heffect.finiteHoldings_iff hexit hm hl, fun hterms => heffect.finiteTerms_iff hexit hm hterms⟩
    · simp only [hf, Bool.false_eq_true, false_imp_iff, iff_true]
      exact ⟨hl, fun hterms => hterms⟩

end Block

end

/-! ## A supply -/

namespace Block

local instance openPartsOfFiniteSupplies : ExactArithmetic := default

def supplyOf (amount : Value Extended) : Block Extended :=
  { id := "supply", kind := "aave_supply", category := .protocol, label := "",
    params := [(.text "asset", .text "USDC"), (.text "amount", amount)] }

def marketOfOne : Market Extended :=
  { timestamp := .known 0, prices := [("USDC", .real (.finite 1))], history := [] }

def richAccount : Ledger Extended := Ledger.opened (.finite 1000) "USDC"

theorem marketOfOne_prices : marketOfOne.FinitePrices := by
  simp only [Market.FinitePrices, marketOfOne, List.forall_mem_singleton]
  exact ⟨1, by norm_num, rfl⟩

/-- A supply of a hundred leaves what is finite. -/
theorem finite_supply_stays : marketOfOne.FinitePrices ∧ richAccount.FiniteHoldings ∧ ∃ o l',
    (supplyOf (.text "100")).execute marketOfOne richAccount = (.ok o, l') ∧ o.fired = true ∧ l'.FiniteHoldings := by
  have hholdings : richAccount.FiniteHoldings := Ledger.finiteHoldings_opened rfl "USDC"
  have hfired : ((supplyOf (.text "100")).execute marketOfOne richAccount).1.toOption.map (·.fired) = some true := by
    decide +kernel
  obtain ⟨o, ho, hf⟩ := execute_answered hfired
  obtain ⟨kind, hk, hiff, -⟩ := execute_finite_iff _ _ _ _ _ marketOfOne_prices hholdings ho
  obtain rfl : BlockKind.supply .aave = kind := Option.some.inj hk
  have hamount : ((supplyOf (.text "100")).number "amount" none).toOption.map Scalar.isFinite = some true := by
    decide +kernel
  obtain ⟨x, hread, hfinite⟩ := ok_of_toOption hamount
  refine ⟨marketOfOne_prices, hholdings, o, _, ho, hf, hiff.2 fun _ => ?_⟩
  rw [BlockKind.amounts, readsFinite_one hread]
  exact hfinite

/-- The undefined value is not less than zero and not above the balance. -/
theorem undefined_supply_enters : ∃ (b : Block Extended) (m : Market Extended) (l l' : Ledger Extended)
    (o : Outcome Extended), m.FinitePrices ∧ l.Reachable ∧ l.FiniteHoldings ∧ b.execute m l = (.ok o, l') ∧
      o.fired = true ∧ l'.balance "USDC" = .undefined ∧ l'.positions.map (·.amount) = [.undefined] ∧
      ¬ l'.FiniteHoldings := by
  have hfired : ((supplyOf (.text "nan")).execute marketOfOne richAccount).1.toOption.map (·.fired) = some true := by
    decide +kernel
  have hbalance : ((supplyOf (.text "nan")).execute marketOfOne richAccount).2.balance "USDC" = .undefined := by
    decide +kernel
  have hamounts : ((supplyOf (.text "nan")).execute marketOfOne richAccount).2.positions.map (·.amount) =
      [.undefined] := by
    decide +kernel
  have hstart : Ledger.start (.real (.finite 1000)) "USDC" = .ok richAccount := rfl
  obtain ⟨o, ho, hf⟩ := execute_answered hfired
  refine ⟨_, _, _, _, o, marketOfOne_prices, Ledger.start_reachable hstart, Ledger.finiteHoldings_opened rfl "USDC",
    ho, hf, hbalance, hamounts, fun h => ?_⟩
  have hfinite := h.balance "USDC"
  rw [hbalance] at hfinite
  cases hfinite

end Block

end StrategyLab
