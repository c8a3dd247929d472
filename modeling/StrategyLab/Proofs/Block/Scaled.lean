/-
Blocks in another unit of amount. A block whose amounts are multiplied by a positive factor, on an
account multiplied by it, does what the block does on the account: it has the same flags, or raises a
fault of the same kind, and leaves the account of the other multiplied by the factor. Each block is
built from reads that do not see the unit, and from steps on the account that commute with it.
-/
import StrategyLab.Proofs.Block.Action
import StrategyLab.Proofs.Block.Override
import StrategyLab.Proofs.Block.Sequence
import StrategyLab.Proofs.Ledger.Scaled

open StrategyLab.Action

namespace StrategyLab

/-! ## Amounts among params -/

/-- A value that reads as a number, multiplied. -/
def Value.scaled [ExactArithmetic] (c : ℚ) (v : Value ℚ) : Value ℚ :=
  match v.toReal with
  | .ok x => .real (c * x)
  | .error _ => v

namespace Block

/-- The params that are amounts of a token. -/
def amountParams : List String := ["amount", "amount0", "amount1"]

section

variable [ExactArithmetic]

/-- A param, multiplied if it is an amount. -/
def scaledParam (c : ℚ) : Key ℚ × Value ℚ → Key ℚ × Value ℚ
  | (.text name, v) => (.text name, if name ∈ amountParams then v.scaled c else v)
  | f => f

/-- The block in another unit. -/
def scaled (c : ℚ) (b : Block ℚ) : Block ℚ := { b with params := b.params.map (scaledParam c) }

end

end Block

/-! ## Results and faults -/

/-- Faults of one kind, both reported as outcomes or both raised. -/
def Fault.Same [ExactArithmetic] (f g : Fault ℚ) : Prop :=
  f.kind = g.kind ∧ (Block.reported? f).isSome = (Block.reported? g).isSome

/-- Outcomes with the same flags. -/
def Outcome.Same (o o' : Outcome ℚ) : Prop := o.ok = o'.ok ∧ o.fired = o'.fired

variable [ExactArithmetic]

theorem Fault.Same.refl (f : Fault ℚ) : f.Same f := ⟨rfl, rfl⟩

theorem Fault.same_ledger {cause cause' : LedgerFault ℚ} (h : LedgerFault.Same cause cause') :
    Fault.Same (.ledger cause) (.ledger cause') := by
  obtain ⟨hkind, hrefusal⟩ := h
  refine ⟨hkind, ?_⟩
  unfold Block.reported?
  dsimp only
  rw [hrefusal]
  split <;> rfl

/-- What is read comes out as the image of what is read in the old unit. -/
theorem Agree.of_map {β γ : Type} {x : Except (Fault ℚ) β} {y : Except (Fault ℚ) γ} {f : β → γ} (h : y = x.map f) :
    Agree Fault.Same (fun a b => b = f a) x y := by
  subst h
  cases x with
  | ok a => exact .ok rfl
  | error e => exact .error (.refl e)

theorem Agree.same {β : Type} (x : Except (Fault ℚ) β) : Agree Fault.Same Eq x x := .of_eq Fault.Same.refl rfl

/-- Two computations that stop under one condition. -/
theorem Agree.guard {β γ : Type} {R : β → γ → Prop} {p : Prop} [Decidable p] {e e' : Fault ℚ} (he : e.Same e')
    {f : PUnit → Except (Fault ℚ) β} {g : PUnit → Except (Fault ℚ) γ} (hfg : Agree Fault.Same R (f ⟨⟩) (g ⟨⟩)) :
    Agree Fault.Same R (if p then throw e >>= f else f ⟨⟩) (if p then throw e' >>= g else g ⟨⟩) := by
  split
  · exact .error he
  · exact hfg

namespace Action

variable {β γ β' γ' : Type}

/-- One computation on an account, and another one on the account in the new unit. -/
structure Scales (c : ℚ) (R : β → γ → Prop) (l : Ledger ℚ) (x : Action ℚ β) (y : Action ℚ γ) : Prop where
  result : Agree Fault.Same R (eval x l).1 (eval y (l.scaled c)).1
  ledger : (eval y (l.scaled c)).2 = (eval x l).2.scaled c

variable {c : ℚ} {R : β → γ → Prop} {S : β' → γ' → Prop} {l : Ledger ℚ}

theorem Scales.pure {a : β} {b : γ} (h : R a b) : Scales c R l (pure a : Action ℚ β) (pure b : Action ℚ γ) :=
  ⟨.ok h, rfl⟩

theorem Scales.bind {x : Action ℚ β} {y : Action ℚ γ} {f : β → Action ℚ β'} {g : γ → Action ℚ γ'}
    (hxy : Scales c R l x y) (hfg : ∀ a b k, R a b → Scales c S k (f a) (g b)) : Scales c S l (x >>= f) (y >>= g) := by
  obtain ⟨hresult, hledger⟩ := hxy
  rcases hx : eval x l with ⟨r, k⟩
  rcases hy : eval y (l.scaled c) with ⟨r', k'⟩
  rw [hx, hy] at hresult hledger
  subst hledger
  cases hresult with
  | ok hab =>
    have hnext := hfg _ _ k hab
    constructor
    · rw [eval_bind_of_ok hx, eval_bind_of_ok hy]
      exact hnext.result
    · rw [eval_bind_of_ok hx, eval_bind_of_ok hy]
      exact hnext.ledger
  | error hfaults =>
    constructor
    · rw [eval_bind_of_error hx, eval_bind_of_error hy]
      exact .error hfaults
    · rw [eval_bind_of_error hx, eval_bind_of_error hy]

theorem Scales.look {f : Ledger ℚ → Action ℚ β} {g : Ledger ℚ → Action ℚ γ}
    (hfg : Scales c R l (f l) (g (l.scaled c))) : Scales c R l (get >>= f) (get >>= g) := by
  constructor
  · rw [eval_bind_of_ok (eval_get l), eval_bind_of_ok (eval_get (l.scaled c))]
    exact hfg.result
  · rw [eval_bind_of_ok (eval_get l), eval_bind_of_ok (eval_get (l.scaled c))]
    exact hfg.ledger

theorem Scales.read {x : Except (Fault ℚ) β} {y : Except (Fault ℚ) γ} (hxy : Agree Fault.Same R x y) :
    Scales c R l (liftM x) (liftM y) := by
  constructor
  · rw [eval_lift, eval_lift]
    exact hxy
  · rw [eval_lift, eval_lift]

theorem Scales.read_bind {x : Except (Fault ℚ) β} {y : Except (Fault ℚ) γ} {f : β → Action ℚ β'}
    {g : γ → Action ℚ γ'} (hxy : Agree Fault.Same R x y) (hfg : ∀ a b, R a b → Scales c S l (f a) (g b)) :
    Scales c S l (liftM x >>= f) (liftM y >>= g) := by
  cases hxy with
  | ok hab =>
    have hnext := hfg _ _ hab
    constructor
    · rw [eval_bind_of_ok (eval_lift _ l), eval_bind_of_ok (eval_lift _ (l.scaled c))]
      exact hnext.result
    · rw [eval_bind_of_ok (eval_lift _ l), eval_bind_of_ok (eval_lift _ (l.scaled c))]
      exact hnext.ledger
  | error hfaults =>
    constructor
    · rw [eval_bind_of_error (eval_lift _ l), eval_bind_of_error (eval_lift _ (l.scaled c))]
      exact .error hfaults
    · rw [eval_bind_of_error (eval_lift _ l), eval_bind_of_error (eval_lift _ (l.scaled c))]

/-! ## Elementary steps -/

theorem Scales.openPosition (p : Ledger.NewPosition ℚ) :
    Scales c Eq l (openPosition p) (openPosition (p.scaled c)) := by
  refine ⟨.ok rfl, ?_⟩
  rw [eval_openPosition, eval_openPosition]
  exact l.openPosition_scaled c p

theorem Scales.record (t : Ledger.NewTrade ℚ) : Scales c Eq l (record t) (record (t.scaled c)) := by
  refine ⟨.ok rfl, ?_⟩
  rw [eval_record, eval_record]
  exact l.recordTrade_scaled c t

theorem Scales.recordSingle (m : Market ℚ) (kind : TradeKind) (token : String) (amount price fees : ℚ) :
    Scales c Eq l (recordSingle m kind token amount price fees) (recordSingle m kind token (c * amount) price (c * fees)) :=
  .record _

theorem Scales.closePosition (id : String) : Scales c Eq l (closePosition id) (closePosition id) := by
  have heval := eval_closePosition id l
  have heval' := eval_closePosition id (l.scaled c)
  rw [Ledger.closePosition_scaled] at heval'
  constructor <;> rw [heval, heval'] <;> cases l.closePosition id with
  | ok r => first | exact .ok rfl | rfl
  | error e => first | exact .error (.refl _) | rfl

variable (hc : 0 < c)

include hc

theorem isNegative_scaled (x : ℚ) : (Num.real (c * x)).isLess (.whole 0) = (Num.real x).isLess (.whole 0) := by
  have hzero : (Num.whole 0 : Num ℚ).value = 0.0 := by
    rw [Num.value_whole]
    norm_num
  rw [Bool.eq_iff_iff, Num.isLess_iff, Num.isLess_iff, hzero]
  exact scaled_neg_iff hc

theorem Scales.credit (token : String) (x : ℚ) : Scales c Eq l (credit token x) (credit token (c * x)) := by
  constructor <;> rw [eval_credit, eval_credit, isNegative_scaled hc] <;> split
  · exact .error ⟨rfl, rfl⟩
  · exact .ok rfl
  · rfl
  · exact l.gain_scaled c token x

theorem Scales.debit (token : String) (x : ℚ) : Scales c Eq l (debit token x) (debit token (c * x)) := by
  have hcovers : (l.scaled c).balance token < c * x ↔ l.balance token < x := by
    rw [Ledger.balance_scaled]
    exact mul_lt_mul_iff_right₀ hc
  constructor <;> rw [eval_debit, eval_debit, isNegative_scaled hc] <;> simp only [hcovers] <;> split_ifs
  · exact .error ⟨rfl, rfl⟩
  · exact .error ⟨rfl, rfl⟩
  · exact .ok rfl
  · rfl
  · rfl
  · exact l.pay_scaled c token x

theorem Scales.reducePosition (id : String) (x : ℚ) :
    Scales c (fun a b => b = c * a) l (reducePosition id x) (reducePosition id (c * x)) := by
  have hreduced := Ledger.reducePosition_scaled hc l id x
  have heval := eval_reducePosition id x l
  have heval' := eval_reducePosition id (c * x) (l.scaled c)
  generalize l.reducePosition id (.real x) = r at hreduced heval
  generalize (l.scaled c).reducePosition id (.real (c * x)) = r' at hreduced heval'
  constructor <;> rw [heval, heval']
  · cases hreduced with
    | ok hsame =>
      subst hsame
      exact .ok rfl
    | error hsame => exact .error (Fault.same_ledger hsame)
  · cases hreduced with
    | ok hsame =>
      subst hsame
      rfl
    | error _ => rfl

end Action

namespace Block

variable {c : ℚ} {b : Block ℚ} {m : Market ℚ} {l : Ledger ℚ}

/-! ## Reading params -/

theorem get?_scaledParam (c : ℚ) (fields : Object ℚ) (name : String) :
    Object.get? (fields.map (scaledParam c)) name =
      (Object.get? fields name).map fun v => if name ∈ amountParams then v.scaled c else v := by
  induction fields with
  | nil => rfl
  | cons f rest ih =>
    obtain ⟨k, v⟩ := f
    rw [List.map_cons, Object.get?_cons, Object.get?_cons, ih]
    have hkey : (scaledParam c (k, v)).1 = k := by cases k <;> rfl
    rw [hkey]
    by_cases hsame : k.same (.text name) = true
    · obtain rfl := Object.same_text.1 hsame
      rw [if_pos hsame, if_pos hsame]
      rfl
    · rw [if_neg hsame, if_neg hsame]

theorem param?_scaled (c : ℚ) (b : Block ℚ) (name : String) :
    (b.scaled c).param? name = (b.param? name).map fun v => if name ∈ amountParams then v.scaled c else v :=
  get?_scaledParam c b.params name

/-- A param that is no amount stays. -/
theorem param?_kept (c : ℚ) (b : Block ℚ) {name : String} (h : name ∉ amountParams) :
    (b.scaled c).param? name = b.param? name := by
  rw [param?_scaled]
  simp only [if_neg h, Option.map_id']

theorem text_kept (c : ℚ) (b : Block ℚ) {key : String} (h : key ∉ amountParams) :
    (b.scaled c).text key = b.text key := by
  unfold text
  rw [param?_kept c b h]
  rfl

theorem number_kept (c : ℚ) (b : Block ℚ) {key : String} (default : Option ℚ) (h : key ∉ amountParams) :
    (b.scaled c).number key default = b.number key default := by
  unfold number
  rw [param?_kept c b h]
  rfl

theorem positive_kept (c : ℚ) (b : Block ℚ) {key : String} (default : Option ℚ) (h : key ∉ amountParams) :
    (b.scaled c).positive key default = b.positive key default := by
  unfold positive
  rw [number_kept c b default h]
  rfl

theorem comparator_kept (c : ℚ) (b : Block ℚ) : (b.scaled c).comparator = b.comparator := by
  unfold comparator
  rw [param?_kept c b (by decide)]

theorem number_of_real {key : String} {default : Option ℚ} {v : Value ℚ} {x : ℚ} (hv : b.param? key = some v)
    (hx : v.toReal = .ok x) : b.number key default = .ok x := by
  unfold number
  rw [hv]
  split
  · rename_i h
    cases h
  · rename_i h
    cases h
    cases hx
  · rename_i h
    cases h
    cases hx
  · rename_i h
    cases h
    rw [hx]
    rfl

/-- An amount is read as a multiple. -/
theorem number_scaled (c : ℚ) (b : Block ℚ) {key : String} (default : Option ℚ) (h : key ∈ amountParams) :
    (b.scaled c).number key (default.map (c * ·)) = (b.number key default).map (c * ·) := by
  have hparam := param?_scaled c b key
  simp only [if_pos h] at hparam
  cases hv : b.param? key with
  | none =>
    rw [hv] at hparam
    unfold number
    rw [hv, hparam]
    cases default <;> rfl
  | some v =>
    rw [hv] at hparam
    cases hx : v.toReal with
    | ok x =>
      have hscaled : v.scaled c = .real (c * x) := by
        unfold Value.scaled
        rw [hx]
      rw [Option.map_some, hscaled] at hparam
      rw [number_of_real hv hx, number_of_real hparam rfl]
      rfl
    | error cause =>
      -- what cannot be read as a number stays, and cannot be read in the new unit either
      have hscaled : v.scaled c = v := by
        unfold Value.scaled
        rw [hx]
      rw [Option.map_some, hscaled] at hparam
      unfold number
      rw [hv, hparam]
      split
      · cases default <;> rfl
      · cases default <;> rfl
      · cases default <;> rfl
      · rename_i h
        cases h
        rw [hx]
        cases cause <;> rfl

theorem positive_scaled (hc : 0 < c) (b : Block ℚ) {key : String} (h : key ∈ amountParams) :
    (b.scaled c).positive key none = (b.positive key none).map (c * ·) := by
  unfold positive
  have hnumber : (b.scaled c).number key none = (b.number key none).map (c * ·) := number_scaled c b none h
  rw [hnumber]
  cases b.number key none with
  | error e => rfl
  | ok x =>
    show (if c * x ≤ 0.0 then _ else _) = Except.map _ (if x ≤ 0.0 then _ else _)
    simp only [scaled_nonpos_iff hc]
    split <;> rfl

theorem assetAmount_scaled (hc : 0 < c) (b : Block ℚ) :
    (b.scaled c).assetAmount = b.assetAmount.map fun p => (p.1, c * p.2) := by
  unfold assetAmount
  rw [text_kept c b (by decide), positive_scaled hc b (by decide)]
  cases b.text "asset" with
  | error e => rfl
  | ok asset => cases b.positive "amount" none <;> rfl

/-! ## Blocks that look at no amount -/

theorem priceTrigger_kept (c : ℚ) (b : Block ℚ) (m : Market ℚ) : (b.scaled c).priceTrigger m = b.priceTrigger m := by
  unfold priceTrigger
  rw [text_kept c b (by decide), positive_kept c b _ (by decide), comparator_kept]

theorem timeTrigger_kept (c : ℚ) (b : Block ℚ) (m : Market ℚ) : (b.scaled c).timeTrigger m = b.timeTrigger m := by
  unfold timeTrigger
  rw [text_kept c b (by decide)]

theorem volumeTrigger_kept (c : ℚ) (b : Block ℚ) (m : Market ℚ) : (b.scaled c).volumeTrigger m = b.volumeTrigger m := by
  unfold volumeTrigger
  rw [text_kept c b (by decide), number_kept c b _ (by decide)]

theorem indicatorTrigger_kept (c : ℚ) (b : Block ℚ) (m : Market ℚ) :
    (b.scaled c).indicatorTrigger m = b.indicatorTrigger m := by
  unfold indicatorTrigger
  rw [text_kept c b (by decide), text_kept c b (by decide), number_kept c b _ (by decide), positive_kept c b _ (by decide),
    comparator_kept]

theorem positionSizing_kept (c : ℚ) (b : Block ℚ) : (b.scaled c).positionSizing = b.positionSizing := by
  unfold positionSizing
  rw [param?_kept c b (by decide), positive_kept c b _ (by decide), param?_kept c b (by decide)]

theorem riskLimits_kept (c : ℚ) (b : Block ℚ) : (b.scaled c).riskLimits = b.riskLimits := by
  have hparams : ∀ name ∈ limitNames, (b.scaled c).param? name = b.param? name := fun name hname =>
    param?_kept c b (by revert name; decide)
  unfold riskLimits
  congr 1
  exact List.map_congr_left fun name hname => by rw [hparams name hname]

end Block

/-! ## Orders -/

/-- The swap in another unit. -/
def SwapOrder.scaled (c : ℚ) (o : SwapOrder ℚ) : SwapOrder ℚ := { o with amount := c * o.amount }

/-- The stake in another unit. -/
def Stake.scaled (c : ℚ) (s : Stake ℚ) : Stake ℚ := { s with amount := c * s.amount }

theorem SwapOrder.output_scaled (c : ℚ) (o : SwapOrder ℚ) :
    (o.scaled c).output = (c * o.output.1, c * o.output.2) := by
  have hnaive : (o.scaled c).naiveOutput = c * o.naiveOutput := by
    unfold naiveOutput SwapOrder.scaled
    simp only [mul_assoc]
  have hlinear : ∀ gross rate slippage : ℚ, Costs.afterFeeAndSlippage (c * gross) rate slippage =
      (c * (Costs.afterFeeAndSlippage gross rate slippage).1, c * (Costs.afterFeeAndSlippage gross rate slippage).2) := by
    intro gross rate slippage
    unfold Costs.afterFeeAndSlippage
    generalize 1.0 - rate = kept
    generalize slippage / 100.0 = share
    rw [Prod.mk.injEq]
    constructor <;> ring
  unfold output
  rw [hnaive, hlinear]
  rfl

namespace Block

variable {c : ℚ} (hc : 0 < c) {b : Block ℚ} {m : Market ℚ} {l : Ledger ℚ}

include hc

theorem requireBalance_scaled (l : Ledger ℚ) (token : String) (x : ℚ) :
    Agree Fault.Same Eq (l.requireBalance token x) ((l.scaled c).requireBalance token (c * x)) := by
  have hcovers : (l.scaled c).balance token < c * x ↔ l.balance token < x := by
    rw [Ledger.balance_scaled]
    exact mul_lt_mul_iff_right₀ hc
  unfold Ledger.requireBalance
  simp only [hcovers]
  split
  · exact .error ⟨rfl, rfl⟩
  · exact .ok rfl

theorem swapOrder_scaled (e : Exchange) (b : Block ℚ) (m : Market ℚ) (l : Ledger ℚ) :
    Agree Fault.Same (fun o o' => o' = o.scaled c) (b.swapOrder e m l) ((b.scaled c).swapOrder e m (l.scaled c)) := by
  unfold swapOrder
  rw [text_kept c b (by decide), text_kept c b (by decide), positive_scaled hc b (by decide), number_kept c b _ (by decide)]
  refine (Agree.same _).bind_eq fun input => (Agree.same _).bind_eq fun output => ?_
  refine (Agree.of_map rfl).bind fun amount _ hamount => (Agree.same _).bind_eq fun slippage => ?_
  subst hamount
  refine Agree.guard (.refl _) ((requireBalance_scaled hc l input amount).bind_eq fun _ => ?_)
  exact (Agree.same _).bind_eq fun priceIn => (Agree.same _).bind_eq fun priceOut => .ok rfl

theorem depositOrder_scaled (b : Block ℚ) (m : Market ℚ) (l : Ledger ℚ) (defaultRate : ℚ) :
    Agree Fault.Same (fun o o' => o' = (o.1.scaled c, o.2)) (b.depositOrder m l defaultRate)
      ((b.scaled c).depositOrder m (l.scaled c) defaultRate) := by
  unfold depositOrder
  rw [assetAmount_scaled hc, number_kept c b _ (by decide)]
  refine (Agree.of_map rfl).bind fun stake _ hstake => (Agree.same _).bind_eq fun rate => ?_
  subst hstake
  exact (requireBalance_scaled hc l _ _).bind_eq fun _ => (Agree.same _).bind_eq fun price => .ok rfl

theorem borrowOrder_scaled (lender : Lender) (b : Block ℚ) (m : Market ℚ) (l : Ledger ℚ) :
    Agree Fault.Same (fun o o' => o' = (o.1.scaled c, o.2)) (b.borrowOrder lender m l)
      ((b.scaled c).borrowOrder lender m (l.scaled c)) := by
  unfold borrowOrder
  rw [assetAmount_scaled hc, number_kept c b _ (by decide), Ledger.positionsWith_scaled, List.isEmpty_map]
  refine (Agree.of_map rfl).bind fun stake _ hstake => (Agree.same _).bind_eq fun rate => ?_
  subst hstake
  exact Agree.guard (.refl _) ((Agree.same _).bind_eq fun price => .ok rfl)

theorem repayOrder_scaled (lender : Lender) (b : Block ℚ) (m : Market ℚ) (l : Ledger ℚ) :
    Agree Fault.Same (fun o o' => o' = (o.1.scaled c, o.2.scaled c)) (b.repayOrder lender m l)
      ((b.scaled c).repayOrder lender m (l.scaled c)) := by
  unfold repayOrder
  rw [assetAmount_scaled hc]
  refine (Agree.of_map rfl).bind fun stake _ hstake => ?_
  subst hstake
  refine (requireBalance_scaled hc l _ _).bind_eq fun _ => ?_
  rw [Ledger.positionsWith_scaled]
  cases l.positionsWith (some "borrow") (some lender.name) (some stake.1) with
  | nil => exact .error ⟨rfl, rfl⟩
  | cons debt rest => exact (Agree.same _).bind_eq fun price => .ok rfl

theorem withdrawOrder_scaled (lender : Lender) (b : Block ℚ) (m : Market ℚ) (l : Ledger ℚ) :
    Agree Fault.Same (fun o o' => o' = (o.1.scaled c, o.2.scaled c)) (b.withdrawOrder lender m l)
      ((b.scaled c).withdrawOrder lender m (l.scaled c)) := by
  unfold withdrawOrder
  rw [assetAmount_scaled hc]
  refine (Agree.of_map rfl).bind fun stake _ hstake => ?_
  subst hstake
  dsimp only
  rw [Ledger.positionsWith_scaled]
  cases l.positionsWith (some "supply") (some lender.name) (some stake.1) with
  | nil => exact .error ⟨rfl, rfl⟩
  | cons supplied rest => exact (Agree.same _).bind_eq fun price => .ok rfl

theorem liquidityOrder_scaled (b : Block ℚ) (m : Market ℚ) (l : Ledger ℚ) :
    Agree Fault.Same (fun o o' => o' = (o.1.scaled c, o.2.scaled c)) (b.liquidityOrder m l)
      ((b.scaled c).liquidityOrder m (l.scaled c)) := by
  have hamount : ∀ key ∈ amountParams, (b.scaled c).number key (some 0.0) = (b.number key (some 0.0)).map (c * ·) := by
    intro key hkey
    rw [← number_scaled c b (some 0.0) hkey, Option.map_some, show c * 0.0 = 0.0 by norm_num]
  unfold liquidityOrder
  rw [text_kept c b (by decide), text_kept c b (by decide), hamount _ (by decide), hamount _ (by decide)]
  refine (Agree.same _).bind_eq fun token0 => (Agree.same _).bind_eq fun token1 => ?_
  refine (Agree.of_map rfl).bind fun amount0 _ h0 => (Agree.of_map rfl).bind fun amount1 _ h1 => ?_
  subst h0 h1
  have hbad : c * amount0 < 0.0 ∨ c * amount1 < 0.0 ∨ c * amount0 + c * amount1 ≤ 0.0 ↔
      amount0 < 0.0 ∨ amount1 < 0.0 ∨ amount0 + amount1 ≤ 0.0 := by
    rw [scaled_neg_iff hc, scaled_neg_iff hc, ← mul_add, scaled_nonpos_iff hc]
  simp only [hbad]
  refine Agree.guard (.refl _) ?_
  refine (requireBalance_scaled hc l _ _).bind_eq fun _ => (requireBalance_scaled hc l _ _).bind_eq fun _ => ?_
  exact (Agree.same _).bind_eq fun price0 => (Agree.same _).bind_eq fun price1 => .ok rfl

theorem flashLoanOrder_scaled (b : Block ℚ) (m : Market ℚ) (l : Ledger ℚ) :
    Agree Fault.Same (fun o o' => o' = (o.1.scaled c, c * o.2)) (b.flashLoanOrder m l)
      ((b.scaled c).flashLoanOrder m (l.scaled c)) := by
  unfold flashLoanOrder
  rw [assetAmount_scaled hc]
  refine (Agree.of_map rfl).bind fun stake _ hstake => ?_
  subst hstake
  simp only [mul_assoc]
  exact (requireBalance_scaled hc l _ _).bind_eq fun _ => (Agree.same _).bind_eq fun price => .ok rfl

/-! ## Protocol blocks -/

theorem swap_scaled (e : Exchange) (b : Block ℚ) (m : Market ℚ) (l : Ledger ℚ) :
    Scales c Outcome.Same l (b.swap e m) ((b.scaled c).swap e m) := by
  unfold swap
  refine .look (.read_bind (swapOrder_scaled hc e b m l) fun o o' ho => ?_)
  subst ho
  unfold SwapOrder.perform
  rw [SwapOrder.output_scaled]
  refine (Scales.debit hc _ _).bind fun _ _ k _ => (Scales.credit hc _ _).bind fun _ _ k _ => ?_
  have hfee : (o.scaled c).fee * (o.scaled c).priceIn = c * (o.fee * o.priceIn) := by
    unfold SwapOrder.fee SwapOrder.scaled
    simp only [mul_assoc]
  rw [hfee]
  exact (Scales.record _).bind fun _ _ k _ => .pure ⟨rfl, rfl⟩

omit hc in
/-- A trade that moves one token and takes no fee. -/
theorem recordFree_scaled (m : Market ℚ) (kind : TradeKind) (token : String) (amount price : ℚ) (l : Ledger ℚ) :
    Scales c Eq l (recordSingle m kind token amount price 0.0) (recordSingle m kind token (c * amount) price 0.0) := by
  have hfree : (0.0 : ℚ) = c * 0.0 := by norm_num
  have h : Scales c Eq l (recordSingle m kind token amount price 0.0) (recordSingle m kind token (c * amount) price (c * 0.0)) :=
    .recordSingle m kind token amount price 0.0
  rwa [← hfree] at h

theorem deposit_scaled (m : Market ℚ) (s : Stake ℚ) (kind : PositionKind) (trade : TradeKind) (protocol : String)
    (apy : ℚ) (l : Ledger ℚ) :
    Scales c Eq l (deposit m s kind trade protocol apy) (deposit m (s.scaled c) kind trade protocol apy) := by
  unfold deposit
  refine (Scales.debit hc _ _).bind fun _ _ k _ => (Scales.openPosition _).bind fun id id' k hid => ?_
  exact (recordFree_scaled m _ _ _ _ _).bind fun _ _ k _ => .pure hid

theorem supply_scaled (lender : Lender) (b : Block ℚ) (m : Market ℚ) (l : Ledger ℚ) :
    Scales c Outcome.Same l (b.supply lender m) ((b.scaled c).supply lender m) := by
  unfold supply
  refine .look (.read_bind (depositOrder_scaled hc b m l _) fun o o' ho => ?_)
  subst ho
  exact (deposit_scaled hc m _ _ _ _ _ l).bind fun _ _ k _ => .pure ⟨rfl, rfl⟩

theorem staking_scaled (b : Block ℚ) (m : Market ℚ) (l : Ledger ℚ) :
    Scales c Outcome.Same l (b.staking m) ((b.scaled c).staking m) := by
  unfold staking
  refine .look (.read_bind (depositOrder_scaled hc b m l _) fun o o' ho => ?_)
  subst ho
  rw [param?_kept c b (by decide)]
  exact (deposit_scaled hc m _ _ _ _ _ l).bind fun _ _ k _ => .pure ⟨rfl, rfl⟩

theorem borrow_scaled (lender : Lender) (b : Block ℚ) (m : Market ℚ) (l : Ledger ℚ) :
    Scales c Outcome.Same l (b.borrow lender m) ((b.scaled c).borrow lender m) := by
  unfold borrow
  refine .look (.read_bind (borrowOrder_scaled hc lender b m l) fun o o' ho => ?_)
  subst ho
  refine (Scales.credit hc _ _).bind fun _ _ k _ => (Scales.openPosition _).bind fun _ _ k _ => ?_
  exact (recordFree_scaled m _ _ _ _ _).bind fun _ _ k _ => .pure ⟨rfl, rfl⟩

theorem repay_scaled (lender : Lender) (b : Block ℚ) (m : Market ℚ) (l : Ledger ℚ) :
    Scales c Outcome.Same l (b.repay lender m) ((b.scaled c).repay lender m) := by
  unfold repay
  refine .look (.read_bind (repayOrder_scaled hc lender b m l) fun o o' ho => ?_)
  subst ho
  refine (Scales.reducePosition hc _ _).bind fun _ _ k _ => (Scales.debit hc _ _).bind fun _ _ k _ => ?_
  exact (recordFree_scaled m _ _ _ _ _).bind fun _ _ k _ => .pure ⟨rfl, rfl⟩

theorem withdraw_scaled (lender : Lender) (b : Block ℚ) (m : Market ℚ) (l : Ledger ℚ) :
    Scales c Outcome.Same l (b.withdraw lender m) ((b.scaled c).withdraw lender m) := by
  unfold withdraw
  refine .look (.read_bind (withdrawOrder_scaled hc lender b m l) fun o o' ho => ?_)
  subst ho
  refine (Scales.reducePosition hc _ _).bind fun _ _ k _ => (Scales.credit hc _ _).bind fun _ _ k _ => ?_
  exact (recordFree_scaled m _ _ _ _ _).bind fun _ _ k _ => .pure ⟨rfl, rfl⟩

theorem provideLeg_scaled (m : Market ℚ) (pool : String) (leg : Stake ℚ) (l : Ledger ℚ) :
    Scales c Eq l (provideLeg m pool leg) (provideLeg m pool (leg.scaled c)) := by
  have hempty : (leg.scaled c).amount ≤ 0.0 ↔ leg.amount ≤ 0.0 := scaled_nonpos_iff hc
  unfold provideLeg
  simp only [hempty]
  split
  · exact .pure rfl
  · exact (Scales.debit hc _ _).bind fun _ _ k _ => (Scales.openPosition _).bind fun _ _ k _ => .pure rfl

omit hc in
/-- A trade of two tokens that takes no fee. -/
theorem recordLiquidity_scaled (m : Market ℚ) (leg0 leg1 : Stake ℚ) (l : Ledger ℚ) :
    Scales c Eq l
      (record
        { timestamp := m.timestamp, kind := .liquidity, inputToken := leg0.asset, inputAmount := leg0.amount,
          price := leg0.price, fees := 0.0, gas := Costs.gas .liquidity leg0.price, outputToken := some leg1.asset,
          outputAmount := some leg1.amount, slippage := none })
      (record
        { timestamp := m.timestamp, kind := .liquidity, inputToken := leg0.asset, inputAmount := c * leg0.amount,
          price := leg0.price, fees := 0.0, gas := Costs.gas .liquidity leg0.price, outputToken := some leg1.asset,
          outputAmount := some (c * leg1.amount), slippage := none }) := by
  have hfree : (0.0 : ℚ) = c * 0.0 := by norm_num
  have h := Scales.record (c := c) (l := l) (
    { timestamp := m.timestamp, kind := .liquidity, inputToken := leg0.asset, inputAmount := leg0.amount,
      price := leg0.price, fees := 0.0, gas := Costs.gas .liquidity leg0.price, outputToken := some leg1.asset,
      outputAmount := some leg1.amount, slippage := none } : Ledger.NewTrade ℚ)
  unfold Ledger.NewTrade.scaled at h
  dsimp only at h
  rwa [← hfree] at h

theorem liquidity_scaled (b : Block ℚ) (m : Market ℚ) (l : Ledger ℚ) :
    Scales c Outcome.Same l (b.liquidity m) ((b.scaled c).liquidity m) := by
  unfold liquidity
  refine .look (.read_bind (liquidityOrder_scaled hc b m l) fun o o' ho => ?_)
  subst ho
  refine (provideLeg_scaled hc m _ _ l).bind fun _ _ k _ => (provideLeg_scaled hc m _ _ k).bind fun _ _ k _ => ?_
  exact (recordLiquidity_scaled m _ _ k).bind fun _ _ k _ => .pure ⟨rfl, rfl⟩

theorem flashLoan_scaled (b : Block ℚ) (m : Market ℚ) (l : Ledger ℚ) :
    Scales c Outcome.Same l (b.flashLoan m) ((b.scaled c).flashLoan m) := by
  unfold flashLoan
  refine .look (.read_bind (flashLoanOrder_scaled hc b m l) fun o o' ho => ?_)
  subst ho
  dsimp only
  rw [mul_assoc]
  refine (Scales.debit hc _ _).bind fun _ _ k _ => ?_
  exact (Scales.recordSingle m _ _ _ _ _).bind fun _ _ k _ => .pure ⟨rfl, rfl⟩

/-! ## Exit blocks -/

theorem closeAt_scaled (m : Market ℚ) (p : Position ℚ) (price : ℚ) (l : Ledger ℚ) :
    Scales c Eq l (closeAt m p price) (closeAt m (p.scaled c) price) := by
  unfold closeAt
  refine (Scales.closePosition _).bind fun _ _ k _ => (Scales.credit hc _ _).bind fun _ _ k _ => ?_
  exact recordFree_scaled m _ _ _ _ k

/-- Decisions that do not see the unit close the same positions. -/
theorem closeWhere_scaled (m : Market ℚ) {decision : Position ℚ → Except (Fault ℚ) (Option ℚ)}
    (hdecision : ∀ p, decision (p.scaled c) = decision p) : ∀ (ps : List (Position ℚ)) (l : Ledger ℚ),
      Scales c Eq l (closeWhere m decision ps) (closeWhere m decision (ps.map (Position.scaled c)))
  | [], _ => .pure rfl
  | p :: rest, l => by
    rw [List.map_cons]
    unfold closeWhere
    rw [hdecision]
    refine .read_bind (Agree.same _) fun choice _ hchoice => ?_
    subst hchoice
    cases choice with
    | none => exact closeWhere_scaled m hdecision rest l
    | some price =>
      refine (closeAt_scaled hc m p price l).bind fun _ _ k _ => ?_
      exact (closeWhere_scaled m hdecision rest k).bind fun _ _ k hmore => .pure (hmore ▸ rfl)

theorem changePercent_scaled (p : Position ℚ) (price : ℚ) : changePercent (p.scaled c) price = changePercent p price := by
  have hentry : (p.scaled c).amount * (p.scaled c).entryPrice = c * (p.amount * p.entryPrice) := mul_assoc ..
  have hcurrent : (p.scaled c).amount * price = c * (p.amount * price) := mul_assoc ..
  unfold changePercent
  dsimp only
  rw [hentry, hcurrent, ← mul_sub, mul_div_mul_left _ _ hc.ne']
  simp only [beq_iff_eq, scaled_eq_zero_iff hc]

omit hc in
theorem assetPositions_scaled (c : ℚ) (b : Block ℚ) (l : Ledger ℚ) :
    (b.scaled c).assetPositions (l.scaled c) = (b.assetPositions l).map (Position.scaled c) := by
  unfold assetPositions
  rw [param?_kept c b (by decide)]
  exact List.filter_map

omit hc in
theorem atMarket_scaled (c : ℚ) (m : Market ℚ) {condition : Position ℚ → Num ℚ → Except (Fault ℚ) Bool}
    (hcondition : ∀ p price, condition (p.scaled c) price = condition p price) (p : Position ℚ) :
    atMarket m condition (p.scaled c) = atMarket m condition p := by
  unfold atMarket
  simp only [hcondition]
  rfl

omit hc in
/-- An exit block fires if it closes a position. -/
theorem exits_scaled {exits exits' : List String} (hexits : exits = exits') (l : Ledger ℚ) {o o' : Outcome ℚ}
    {fired fired' : Outcome ℚ} (ho : o.Same o') (hfired : fired.Same fired') :
    Scales c Outcome.Same l (if exits.isEmpty then (pure o : Action ℚ (Outcome ℚ)) else pure fired)
      (if exits'.isEmpty then pure o' else pure fired') := by
  subst hexits
  split
  · exact .pure ho
  · exact .pure hfired

theorem stopLoss_scaled (b : Block ℚ) (m : Market ℚ) (l : Ledger ℚ) :
    Scales c Outcome.Same l (b.stopLoss m) ((b.scaled c).stopLoss m) := by
  unfold stopLoss
  rw [positive_kept c b _ (by decide)]
  refine .read_bind (Agree.same _) fun threshold _ hthreshold => .look ?_
  subst hthreshold
  dsimp only
  rw [assetPositions_scaled, List.isEmpty_map]
  split
  · exact .pure ⟨rfl, rfl⟩
  · refine (closeWhere_scaled hc m (fun p => atMarket_scaled c m (fun p price => ?_) p) _ l).bind fun _ _ k hexits =>
      exits_scaled hexits k ⟨rfl, rfl⟩ ⟨rfl, rfl⟩
    rw [changePercent_scaled hc]

theorem takeProfit_scaled (b : Block ℚ) (m : Market ℚ) (l : Ledger ℚ) :
    Scales c Outcome.Same l (b.takeProfit m) ((b.scaled c).takeProfit m) := by
  unfold takeProfit
  rw [positive_kept c b _ (by decide)]
  refine .read_bind (Agree.same _) fun target _ htarget => .look ?_
  subst htarget
  dsimp only
  rw [assetPositions_scaled, List.isEmpty_map]
  split
  · exact .pure ⟨rfl, rfl⟩
  · refine (closeWhere_scaled hc m (fun p => atMarket_scaled c m (fun p price => ?_) p) _ l).bind fun _ _ k hexits =>
      exits_scaled hexits k ⟨rfl, rfl⟩ ⟨rfl, rfl⟩
    rw [changePercent_scaled hc]

theorem timeExit_scaled (b : Block ℚ) (m : Market ℚ) (l : Ledger ℚ) :
    Scales c Outcome.Same l (b.timeExit m) ((b.scaled c).timeExit m) := by
  unfold timeExit
  rw [positive_kept c b _ (by decide)]
  refine .read_bind (Agree.same _) fun milliseconds _ hmilliseconds => .look ?_
  subst hmilliseconds
  dsimp only
  rw [assetPositions_scaled, List.isEmpty_map]
  split
  · exact .pure ⟨rfl, rfl⟩
  · refine .read_bind (Agree.same _) fun duration _ hduration => ?_
    subst hduration
    have hage : ∀ p : Position ℚ, whenAged m duration (p.scaled c) = whenAged m duration p := fun p => rfl
    exact (closeWhere_scaled hc m hage _ l).bind fun _ _ k hexits => exits_scaled hexits k ⟨rfl, rfl⟩ ⟨rfl, rfl⟩

theorem meets_scaled (condition : ExitCondition ℚ) (p : Position ℚ) (price : Num ℚ) :
    meets condition (p.scaled c) price = meets condition p price := by
  unfold meets
  rw [changePercent_scaled hc]

theorem conditionalExit_scaled (b : Block ℚ) (m : Market ℚ) (l : Ledger ℚ) :
    Scales c Outcome.Same l (b.conditionalExit m) ((b.scaled c).conditionalExit m) := by
  unfold conditionalExit
  rw [text_kept c b (by decide)]
  refine .read_bind (Agree.same _) fun condition _ hcondition => ?_
  subst hcondition
  cases (ExitCondition.read? condition : Option (ExitCondition ℚ)) with
  | none => exact .read (Agree.error (.refl _))
  | some parsed =>
    refine .look ?_
    dsimp only
    rw [assetPositions_scaled, List.isEmpty_map]
    split
    · exact .pure ⟨rfl, rfl⟩
    · exact (closeWhere_scaled hc m (atMarket_scaled c m (meets_scaled hc parsed)) _ l).bind fun _ _ k hexits =>
        exits_scaled hexits k ⟨rfl, rfl⟩ ⟨rfl, rfl⟩

/-! ## Rebalancing -/

omit hc in
/-- The deviation in another unit: shares stay. -/
def Deviation.scaled (c : ℚ) (d : Deviation ℚ) : Deviation ℚ := { d with move := c * d.move }

theorem deviations_scaled (m : Market ℚ) (l : Ledger ℚ) (total threshold : ℚ) (fields : Object ℚ) :
    deviations m (l.scaled c) (c * total) threshold fields =
      (deviations m l total threshold fields).map (List.map (Deviation.scaled c)) := by
  induction fields with
  | nil => rfl
  | cons f rest ih =>
    obtain ⟨key, target⟩ := f
    have hvalue : (l.scaled c).balance key.shown * m.prices.priceOr0 key.shown =
        c * (l.balance key.shown * m.prices.priceOr0 key.shown) := by
      rw [Ledger.balance_scaled, mul_assoc]
    unfold deviations
    dsimp only
    -- a share of the total is a ratio, so that the unit cancels and the threshold may stay
    rw [hvalue, ih, mul_div_mul_left _ _ hc.ne']
    generalize l.balance key.shown * m.prices.priceOr0 key.shown = value
    cases target.toReal with
    | error e => rfl
    | ok percent =>
      cases deviations m l total threshold rest with
      | error e => rfl
      | ok more =>
        have hmove : c * total * percent / 100.0 - c * value = c * (total * percent / 100.0 - value) := by
          rw [mul_sub, mul_assoc, mul_div_assoc]
        show (if _ then _ else _) = Except.map _ (if _ then _ else _)
        rw [hmove]
        split <;> rfl

theorem rebalancing_scaled (b : Block ℚ) (m : Market ℚ) (l : Ledger ℚ) :
    Agree Fault.Same Outcome.Same (b.rebalancing m l) ((b.scaled c).rebalancing m (l.scaled c)) := by
  unfold rebalancing
  rw [param?_kept c b (by decide), number_kept c b _ (by decide), param?_kept c b (by decide), Ledger.equity_scaled]
  split
  · split
    · exact .error (.refl _)
    · refine (Agree.same _).bind_eq fun allocation => (Agree.same _).bind_eq fun threshold => ?_
      dsimp only
      simp only [scaled_nonpos_iff hc]
      split
      · exact .ok ⟨rfl, rfl⟩
      · refine (Agree.of_map (deviations_scaled hc m l _ threshold allocation)).bind fun found _ hfound => ?_
        subst hfound
        rw [List.isEmpty_map]
        split <;> exact .ok ⟨rfl, rfl⟩
  · exact .error (.refl _)

/-! ## Whole blocks -/

omit hc in
/-- Reading what does not depend on the unit. -/
theorem outcome_kept {x y : Except (Fault ℚ) (Outcome ℚ)} (h : y = x) : Agree Fault.Same Outcome.Same x y := by
  subst h
  exact (Agree.same _).mono (fun _ _ h => h) fun _ _ h => h ▸ ⟨rfl, rfl⟩

theorem act_scaled (kind : BlockKind) (b : Block ℚ) (m : Market ℚ) (l : Ledger ℚ) :
    Scales c Outcome.Same l (b.act kind m) ((b.scaled c).act kind m) := by
  cases kind with
  | priceTrigger => exact .read (outcome_kept (priceTrigger_kept c b m))
  | timeTrigger => exact .read (outcome_kept (timeTrigger_kept c b m))
  | volumeTrigger => exact .read (outcome_kept (volumeTrigger_kept c b m))
  | indicatorTrigger => exact .read (outcome_kept (indicatorTrigger_kept c b m))
  | swap e => exact swap_scaled hc e b m l
  | supply lender => exact supply_scaled hc lender b m l
  | borrow lender => exact borrow_scaled hc lender b m l
  | repay => exact repay_scaled hc .aave b m l
  | withdraw => exact withdraw_scaled hc .aave b m l
  | liquidity => exact liquidity_scaled hc b m l
  | flashLoan => exact flashLoan_scaled hc b m l
  | staking => exact staking_scaled hc b m l
  | stopLoss => exact stopLoss_scaled hc b m l
  | takeProfit => exact takeProfit_scaled hc b m l
  | timeExit => exact timeExit_scaled hc b m l
  | conditionalExit => exact conditionalExit_scaled hc b m l
  | positionSizing => exact .read (outcome_kept (positionSizing_kept c b))
  | riskLimits =>
    show Scales c Outcome.Same l (pure b.riskLimits) (pure (b.scaled c).riskLimits)
    rw [riskLimits_kept]
    exact .pure ⟨rfl, rfl⟩
  | rebalancing => exact .look (.read (rebalancing_scaled hc b m l))

omit hc in
theorem reported?_refused {f : Fault ℚ} {o : Outcome ℚ} (h : reported? f = some o) : o.ok = false ∧ o.fired = false := by
  unfold reported? at h
  split at h
  · cases h
    exact ⟨rfl, rfl⟩
  · split at h
    · cases h
      exact ⟨rfl, rfl⟩
    · cases h
  · cases h

omit hc in
theorem answered_scaled {r r' : Except (Fault ℚ) (Outcome ℚ)} (hr : Agree Fault.Same Outcome.Same r r')
    (l l' : Ledger ℚ) : Agree Fault.Same Outcome.Same (answered (r, l)).1 (answered (r', l')).1 := by
  cases hr with
  | ok h => exact .ok h
  | @error f g hfg =>
    obtain ⟨hkind, hreported⟩ := hfg
    cases hf : reported? f with
    | none =>
      rw [hf] at hreported
      have hg : reported? g = none := Option.not_isSome_iff_eq_none.1 (by rw [← hreported]; decide)
      rw [answered_raised hf, answered_raised hg]
      exact .error ⟨hkind, by rw [hf, hg]⟩
    | some o =>
      rw [hf] at hreported
      obtain ⟨o', hg⟩ := Option.isSome_iff_exists.1 hreported.symm
      rw [answered_reported hf, answered_reported hg]
      obtain ⟨hok, hfired⟩ := reported?_refused hf
      obtain ⟨hok', hfired'⟩ := reported?_refused hg
      exact .ok ⟨hok.trans hok'.symm, hfired.trans hfired'.symm⟩

/-- A block in another unit, on an account in that unit. -/
theorem execute_scaled (b : Block ℚ) (m : Market ℚ) (l : Ledger ℚ) :
    Agree Fault.Same Outcome.Same (b.execute m l).1 ((b.scaled c).execute m (l.scaled c)).1 ∧
      ((b.scaled c).execute m (l.scaled c)).2 = (b.execute m l).2.scaled c := by
  have hkinds : (b.scaled c).kind? = b.kind? := rfl
  cases hkind : b.kind? with
  | none =>
    unfold execute
    rw [hkinds, hkind]
    exact ⟨.error (.refl _), rfl⟩
  | some kind =>
    rw [execute_eq hkind, execute_eq (hkinds.trans hkind)]
    obtain ⟨hresult, hledger⟩ := act_scaled hc kind b m l
    refine ⟨answered_scaled hresult _ _, ?_⟩
    rw [answered_snd, answered_snd]
    exact hledger

end Block

/-! ## Sequences of blocks -/

/-- Executions of a sequence and of the sequence in another unit: the same flags at every block, the same
end, and one account in two units. -/
structure SequenceRun.Scales (c : ℚ) (r r' : SequenceRun ℚ) : Prop where
  outcomes : List.Forall₂ Outcome.Same r.outcomes r'.outcomes
  fault : Option.Rel Fault.Same r.fault r'.fault
  ledger : r'.ledger = r.ledger.scaled c

namespace SequenceRun

variable {c : ℚ} (hc : 0 < c)

include hc in
theorem after_scaled (m : Market ℚ) : ∀ (bs : List (Block ℚ)) (l : Ledger ℚ) {previous previous' : Option (Outcome ℚ)},
    previous.map (·.fired) = previous'.map (·.fired) →
      Scales c (after m previous bs l) (after m previous' (bs.map (Block.scaled c)) (l.scaled c))
  | [], l, _, _, _ => ⟨.nil, .none, rfl⟩
  | b :: rest, l, previous, previous', hprevious => by
    rw [List.map_cons]
    -- a block is skipped on the flag of the block before it, on which both sequences agree
    have hskip : (b.scaled c).isSkipped previous' = b.isSkipped previous := by
      have hcategory : (b.scaled c).category = b.category := rfl
      unfold Block.isSkipped
      rw [hcategory]
      cases previous <;> cases previous' <;> simp_all
    cases hskipped : b.isSkipped previous with
    | true =>
      rw [after_skipped hskipped, after_skipped (hskip.trans hskipped)]
      have hidle : (some b.skipped).map (·.fired) = (some (b.scaled c).skipped).map (·.fired) := rfl
      obtain ⟨houtcomes, hfault, hledger⟩ := after_scaled m rest l hidle
      exact ⟨.cons ⟨rfl, rfl⟩ houtcomes, hfault, hledger⟩
    | false =>
      obtain ⟨hresult, hledger⟩ := Block.execute_scaled hc b m l
      rcases he : b.execute m l with ⟨r, k⟩
      rcases he' : (b.scaled c).execute m (l.scaled c) with ⟨r', k'⟩
      rw [he, he'] at hresult hledger
      subst hledger
      cases hresult with
      | @ok o o' hsame =>
        rw [after_executed hskipped he, after_executed (hskip.trans hskipped) he']
        have hfired : (some o).map (·.fired) = (some o').map (·.fired) := congrArg some hsame.2
        obtain ⟨houtcomes, hfault, hledger⟩ := after_scaled m rest k hfired
        exact ⟨.cons hsame houtcomes, hfault, hledger⟩
      | error hsame =>
        rw [after_raised hskipped he, after_raised (hskip.trans hskipped) he']
        exact ⟨.nil, .some hsame, rfl⟩

include hc in
/-- A sequence of blocks in another unit, on an account in that unit. -/
theorem execute_scaled (m : Market ℚ) (bs : List (Block ℚ)) (l : Ledger ℚ) :
    Scales c (execute bs m l) (execute (bs.map (Block.scaled c)) m (l.scaled c)) :=
  after_scaled hc m bs l rfl

end SequenceRun

end StrategyLab
