/-
Blocks that read alike do alike. On accounts that differ in the order of their balances only, and
among prices that are the same token by token, two such blocks both fire or both do not, or both
raise a fault, and the accounts they leave differ in the order of their balances only.
-/
import StrategyLab.Proofs.Block.Action
import StrategyLab.Proofs.Block.Override
import StrategyLab.Proofs.Block.Sequence
import StrategyLab.Proofs.Ledger.Alike

open StrategyLab.Action

namespace StrategyLab

variable {α β γ β' γ' : Type}

/-! ## Faults and outcomes -/

/-- Both faults are reported as outcomes, or both are raised. -/
def Fault.Alike [Scalar α] (f g : Fault α) : Prop := (Block.reported? f).isSome = (Block.reported? g).isSome

/-- Both blocks fired, or neither did. -/
def Outcome.Alike (o o' : Outcome α) : Prop := o.fired = o'.fired

variable [Scalar α]

namespace Action

/-! ## Computations -/

/-- Two computations, each on an account, end alike. -/
structure Alike (R : β → γ → Prop) (l l' : Ledger α) (x : Action α β) (y : Action α γ) : Prop where
  result : Agree Fault.Alike R (eval x l).1 (eval y l').1
  ledger : (eval x l).2.Alike (eval y l').2

variable {R : β → γ → Prop} {S : β' → γ' → Prop} {l l' : Ledger α}

theorem Alike.pure (h : l.Alike l') {a : β} {b : γ} (hab : R a b) :
    Alike R l l' (pure a : Action α β) (pure b : Action α γ) :=
  ⟨.ok hab, h⟩

theorem Alike.bind {x : Action α β} {y : Action α γ} {f : β → Action α β'} {g : γ → Action α γ'}
    (hxy : Alike R l l' x y) (hfg : ∀ a b k k', R a b → k.Alike k' → Alike S k k' (f a) (g b)) :
    Alike S l l' (x >>= f) (y >>= g) := by
  obtain ⟨hresult, hledger⟩ := hxy
  rcases hx : eval x l with ⟨r, k⟩
  rcases hy : eval y l' with ⟨r', k'⟩
  rw [hx, hy] at hresult hledger
  cases hresult with
  | ok hab =>
    have hnext := hfg _ _ k k' hab hledger
    constructor
    · rw [eval_bind_of_ok hx, eval_bind_of_ok hy]
      exact hnext.result
    · rw [eval_bind_of_ok hx, eval_bind_of_ok hy]
      exact hnext.ledger
  | error hfaults =>
    constructor
    · rw [eval_bind_of_error hx, eval_bind_of_error hy]
      exact .error hfaults
    · rw [eval_bind_of_error hx, eval_bind_of_error hy]
      exact hledger

theorem Alike.look {f : Ledger α → Action α β} {g : Ledger α → Action α γ}
    (hfg : Alike R l l' (f l) (g l')) : Alike R l l' (get >>= f) (get >>= g) := by
  constructor
  · rw [eval_bind_of_ok (eval_get l), eval_bind_of_ok (eval_get l')]
    exact hfg.result
  · rw [eval_bind_of_ok (eval_get l), eval_bind_of_ok (eval_get l')]
    exact hfg.ledger

theorem Alike.read (h : l.Alike l') {x : Except (Fault α) β} {y : Except (Fault α) γ} (hxy : Agree Fault.Alike R x y) :
    Alike R l l' (liftM x) (liftM y) := by
  constructor
  · rw [eval_lift, eval_lift]
    exact hxy
  · rw [eval_lift, eval_lift]
    exact h

theorem Alike.read_bind (h : l.Alike l') {x : Except (Fault α) β} {y : Except (Fault α) γ} {f : β → Action α β'}
    {g : γ → Action α γ'} (hxy : Agree Fault.Alike R x y) (hfg : ∀ a b, R a b → Alike S l l' (f a) (g b)) :
    Alike S l l' (liftM x >>= f) (liftM y >>= g) := by
  cases hxy with
  | ok hab =>
    have hnext := hfg _ _ hab
    constructor
    · rw [eval_bind_of_ok (eval_lift _ l), eval_bind_of_ok (eval_lift _ l')]
      exact hnext.result
    · rw [eval_bind_of_ok (eval_lift _ l), eval_bind_of_ok (eval_lift _ l')]
      exact hnext.ledger
  | error hfaults =>
    constructor
    · rw [eval_bind_of_error (eval_lift _ l), eval_bind_of_error (eval_lift _ l')]
      exact .error hfaults
    · rw [eval_bind_of_error (eval_lift _ l), eval_bind_of_error (eval_lift _ l')]
      exact h

/-! ## Elementary steps -/

theorem Alike.credit (h : l.Alike l') (token : String) (x : α) : Alike Eq l l' (credit token x) (credit token x) := by
  constructor <;> rw [eval_credit, eval_credit] <;> split
  · exact .error rfl
  · exact .ok rfl
  · exact h
  · exact h.gain token x

theorem Alike.debit (h : l.Alike l') (token : String) (x : α) : Alike Eq l l' (debit token x) (debit token x) := by
  have hbalance := h.balance token
  constructor <;> rw [eval_debit, eval_debit, hbalance] <;> split_ifs
  · exact .error rfl
  · exact .error rfl
  · exact .ok rfl
  · exact h
  · exact h
  · exact h.pay token x

theorem Alike.openPosition (h : l.Alike l') (p : Ledger.NewPosition α) :
    Alike Eq l l' (openPosition p) (openPosition p) :=
  ⟨.ok (by rw [h.nextOpened]), h.openPosition p⟩

theorem Alike.record (h : l.Alike l') (t : Ledger.NewTrade α) : Alike Eq l l' (record t) (record t) :=
  ⟨.ok rfl, h.recordTrade t⟩

theorem Alike.closePosition (h : l.Alike l') (id : String) :
    Alike Eq l l' (closePosition id) (closePosition id) := by
  have hclosed := h.closePosition id
  have heval := eval_closePosition id l
  have heval' := eval_closePosition id l'
  generalize l.closePosition id = r at hclosed heval
  generalize l'.closePosition id = r' at hclosed heval'
  constructor <;> rw [heval, heval']
  · cases hclosed with
    | ok _ => exact .ok rfl
    | error hsame => exact .error (hsame ▸ rfl)
  · cases hclosed with
    | ok hsame => exact hsame.2
    | error _ => exact h

theorem Alike.reducePosition (h : l.Alike l') (id : String) (x : α) :
    Alike Eq l l' (reducePosition id x) (reducePosition id x) := by
  have hreduced := h.reducePosition id (.real x)
  have heval := eval_reducePosition id x l
  have heval' := eval_reducePosition id x l'
  generalize l.reducePosition id (.real x) = r at hreduced heval
  generalize l'.reducePosition id (.real x) = r' at hreduced heval'
  constructor <;> rw [heval, heval']
  · cases hreduced with
    | ok hsame => exact .ok (by rw [hsame.1])
    | error hsame => exact .error (hsame ▸ rfl)
  · cases hreduced with
    | ok hsame => exact hsame.2
    | error _ => exact h

theorem Alike.recordSingle (h : l.Alike l') {m m' : Market α} (htime : m.timestamp = m'.timestamp) (kind : TradeKind)
    (token : String) (amount price fees : α) :
    Alike Eq l l' (recordSingle m kind token amount price fees) (recordSingle m' kind token amount price fees) := by
  unfold Action.recordSingle
  rw [htime]
  exact .record h _

end Action

/-- Markets at one instant with the same prices, now and so far, token by token. -/
structure Market.Alike (m m' : Market α) : Prop where
  timestamp : m.timestamp = m'.timestamp
  prices : ∀ token, m.prices.lookup token = m'.prices.lookup token
  history : ∀ token, m.history.lookup token = m'.history.lookup token

theorem Market.Alike.price {m m' : Market α} (h : m.Alike m') (token : String) : m.price token = m'.price token := by
  unfold Market.price
  rw [h.prices]

theorem Market.Alike.priceOr0 {m m' : Market α} (h : m.Alike m') (token : String) :
    m.prices.priceOr0 token = m'.prices.priceOr0 token := by
  unfold Quotes.priceOr0
  rw [h.prices]

namespace Block

/-! ## Params -/

/-- The params that are read as text. -/
def textParams : List String := tokenParams ++ ["schedule", "indicator", "condition", "protocol"]

/-- Blocks that JSON text cannot tell apart, whose params that are read as text are the same. -/
structure ReadAlike (b b' : Block α) : Prop extends Alike b b' where
  texts : ∀ name ∈ textParams, b.param? name = b'.param? name

variable {b b' : Block α} {m m' : Market α} {l l' : Ledger α}

theorem ReadAlike.refl (b : Block α) : b.ReadAlike b := ⟨.refl b, fun _ _ => rfl⟩

theorem ReadAlike.displayName (h : b.ReadAlike b') : b.displayName = b'.displayName := by
  unfold Block.displayName
  rw [h.label, h.kind]

/-- A param is missing in both blocks, or it is alike. -/
theorem Alike.param? (h : b.Alike b') (name : String) : (b.param? name = none ∧ b'.param? name = none) ∨
    ∃ v v', b.param? name = some v ∧ b'.param? name = some v' ∧ v.Alike v' := by
  have hparams := h.params name
  rw [Object.get?_told, Object.get?_told] at hparams
  unfold Block.param?
  cases hv : Object.get? b.params name with
  | none =>
    rw [hv] at hparams
    exact .inl ⟨rfl, Option.map_eq_none_iff.1 hparams.symm⟩
  | some v =>
    rw [hv] at hparams
    obtain ⟨v', hv', halike⟩ := Option.map_eq_some_iff.1 hparams.symm
    exact .inr ⟨v, v', rfl, hv', halike.symm⟩

theorem ReadAlike.text (h : b.ReadAlike b') {key : String} (hkey : key ∈ textParams) : b.text key = b'.text key := by
  unfold Block.text
  rw [h.texts key hkey, h.displayName]

theorem ReadAlike.comparator (h : b.ReadAlike b') : b.comparator = b'.comparator := by
  unfold Block.comparator
  rw [h.texts "condition" (by decide)]

theorem ReadAlike.assetPositions (h : b.ReadAlike b') (hl : l.Alike l') :
    b.assetPositions l = b'.assetPositions l' := by
  unfold Block.assetPositions
  rw [h.texts "asset" (by decide), hl.positions]

theorem faults_refl (f : Fault α) : f.Alike f := rfl

theorem ReadAlike.number (h : b.ReadAlike b') (key : String) (default : Option α) :
    Agree Fault.Alike Eq (b.number key default) (b'.number key default) := by
  have hname := h.displayName
  unfold Block.number
  rcases h.param? key with ⟨hnone, hnone'⟩ | ⟨v, v', hv, hv', halike⟩
  · rw [hnone, hnone', hname]
    exact .of_eq faults_refl rfl
  · rw [hv, hv']
    rcases halike.cases with rfl | ⟨xs, ys, hxs, hys, -⟩ | ⟨fs, gs, rfl, rfl⟩
    · rw [hname]
      exact .of_eq faults_refl rfl
    · cases hxs <;> cases hys <;> exact .error rfl
    · exact .error rfl

theorem ReadAlike.positive (h : b.ReadAlike b') (key : String) (default : Option α) :
    Agree Fault.Alike Eq (b.positive key default) (b'.positive key default) := by
  have hname := h.displayName
  unfold Block.positive
  refine (h.number key default).bind_eq fun x => ?_
  rw [hname]
  exact .of_eq faults_refl rfl

theorem ReadAlike.assetAmount (h : b.ReadAlike b') : Agree Fault.Alike Eq b.assetAmount b'.assetAmount := by
  unfold Block.assetAmount
  rw [h.text (by decide)]
  exact Agree.bind_eq (.of_eq faults_refl rfl) fun asset => (h.positive _ _).bind_eq fun amount => .ok rfl

theorem outcomes_of_eq {x y : Except (Fault α) (Outcome α)} (h : x = y) : Agree Fault.Alike Outcome.Alike x y :=
  (Agree.of_eq faults_refl h).mono (fun _ _ h => h) fun _ _ h => h ▸ rfl

/-! ## Entry blocks -/

theorem priceTrigger_alike (h : b.ReadAlike b') (hm : m.Alike m') :
    Agree Fault.Alike Outcome.Alike (b.priceTrigger m) (b'.priceTrigger m') := by
  unfold priceTrigger
  rw [h.text (by decide)]
  refine Agree.bind_eq (.of_eq faults_refl rfl) fun asset => ?_
  refine (h.positive _ _).bind_eq fun target => ?_
  rw [h.comparator, hm.price]
  exact outcomes_of_eq rfl

theorem timeTrigger_alike (h : b.ReadAlike b') (hm : m.Alike m') :
    Agree Fault.Alike Outcome.Alike (b.timeTrigger m) (b'.timeTrigger m') := by
  unfold timeTrigger
  rw [h.text (by decide), hm.timestamp]
  exact outcomes_of_eq rfl

theorem volumeTrigger_alike (h : b.ReadAlike b') (hm : m.Alike m') :
    Agree Fault.Alike Outcome.Alike (b.volumeTrigger m) (b'.volumeTrigger m') := by
  unfold volumeTrigger
  rw [h.text (by decide)]
  refine Agree.bind_eq (.of_eq faults_refl rfl) fun asset => ?_
  refine (h.number _ _).bind_eq fun required => ?_
  rw [hm.price]
  exact outcomes_of_eq rfl

theorem indicatorTrigger_alike (h : b.ReadAlike b') (hm : m.Alike m') :
    Agree Fault.Alike Outcome.Alike (b.indicatorTrigger m) (b'.indicatorTrigger m') := by
  unfold indicatorTrigger
  rw [h.text (by decide), h.text (by decide)]
  refine Agree.bind_eq (.of_eq faults_refl rfl) fun asset => ?_
  refine Agree.bind_eq (.of_eq faults_refl rfl) fun name => ?_
  dsimp only
  cases Indicator.ofName? (Text.upper name) with
  | none => exact .error rfl
  | some indicator =>
    refine (h.number _ _).bind_eq fun target => (h.positive _ _).bind_eq fun length => ?_
    rw [h.comparator, hm.price, hm.history]
    exact outcomes_of_eq rfl

/-! ## Orders -/

theorem requireBalance_alike (hl : l.Alike l') (token : String) (x : α) :
    l.requireBalance token x = l'.requireBalance token x := by
  unfold Ledger.requireBalance
  rw [hl.balance]

theorem swapOrder_alike (e : Exchange) (h : b.ReadAlike b') (hm : m.Alike m') (hl : l.Alike l') :
    Agree Fault.Alike Eq (b.swapOrder e m l) (b'.swapOrder e m' l') := by
  have hname := h.displayName
  unfold swapOrder
  rw [h.text (by decide), h.text (by decide)]
  refine Agree.bind_eq (.of_eq faults_refl rfl) fun input => ?_
  refine Agree.bind_eq (.of_eq faults_refl rfl) fun output => ?_
  refine (h.positive _ _).bind_eq fun amount => ?_
  refine (h.number _ _).bind_eq fun slippage => ?_
  rw [requireBalance_alike hl, hm.price, hm.price, hname]
  exact .of_eq faults_refl rfl

theorem depositOrder_alike (h : b.ReadAlike b') (hm : m.Alike m') (hl : l.Alike l') (defaultRate : α) :
    Agree Fault.Alike Eq (b.depositOrder m l defaultRate) (b'.depositOrder m' l' defaultRate) := by
  unfold depositOrder
  refine h.assetAmount.bind_eq fun stake => (h.number _ _).bind_eq fun rate => ?_
  rw [requireBalance_alike hl, hm.price]
  exact .of_eq faults_refl rfl

omit [Scalar α] in
theorem positionsWith_alike (hl : l.Alike l') (kind protocol asset : Option String) :
    l.positionsWith kind protocol asset = l'.positionsWith kind protocol asset := by
  unfold Ledger.positionsWith
  rw [hl.positions]

theorem borrowOrder_alike (lender : Lender) (h : b.ReadAlike b') (hm : m.Alike m') (hl : l.Alike l') :
    Agree Fault.Alike Eq (b.borrowOrder lender m l) (b'.borrowOrder lender m' l') := by
  unfold borrowOrder
  refine h.assetAmount.bind_eq fun stake => (h.number _ _).bind_eq fun rate => ?_
  rw [positionsWith_alike hl, hm.price]
  exact .of_eq faults_refl rfl

theorem repayOrder_alike (lender : Lender) (h : b.ReadAlike b') (hm : m.Alike m') (hl : l.Alike l') :
    Agree Fault.Alike Eq (b.repayOrder lender m l) (b'.repayOrder lender m' l') := by
  unfold repayOrder
  refine h.assetAmount.bind_eq fun stake => ?_
  simp only [requireBalance_alike hl, positionsWith_alike hl, hm.price]
  exact .of_eq faults_refl rfl

theorem withdrawOrder_alike (lender : Lender) (h : b.ReadAlike b') (hm : m.Alike m') (hl : l.Alike l') :
    Agree Fault.Alike Eq (b.withdrawOrder lender m l) (b'.withdrawOrder lender m' l') := by
  unfold withdrawOrder
  refine h.assetAmount.bind_eq fun stake => ?_
  simp only [positionsWith_alike hl, hm.price]
  exact .of_eq faults_refl rfl

theorem liquidityOrder_alike (h : b.ReadAlike b') (hm : m.Alike m') (hl : l.Alike l') :
    Agree Fault.Alike Eq (b.liquidityOrder m l) (b'.liquidityOrder m' l') := by
  have hname := h.displayName
  unfold liquidityOrder
  rw [h.text (by decide), h.text (by decide)]
  refine Agree.bind_eq (.of_eq faults_refl rfl) fun token0 => ?_
  refine Agree.bind_eq (.of_eq faults_refl rfl) fun token1 => ?_
  refine (h.number _ _).bind_eq fun amount0 => (h.number _ _).bind_eq fun amount1 => ?_
  simp only [requireBalance_alike hl, hm.price, hname]
  exact .of_eq faults_refl rfl

theorem flashLoanOrder_alike (h : b.ReadAlike b') (hm : m.Alike m') (hl : l.Alike l') :
    Agree Fault.Alike Eq (b.flashLoanOrder m l) (b'.flashLoanOrder m' l') := by
  unfold flashLoanOrder
  refine h.assetAmount.bind_eq fun stake => ?_
  simp only [requireBalance_alike hl, hm.price]
  exact .of_eq faults_refl rfl

/-! ## Protocol blocks -/

theorem swap_alike (e : Exchange) (h : b.ReadAlike b') (hm : m.Alike m') (hl : l.Alike l') :
    Action.Alike Outcome.Alike l l' (b.swap e m) (b'.swap e m') := by
  unfold swap
  refine .look (.read_bind hl (swapOrder_alike e h hm hl) fun o o' ho => ?_)
  subst ho
  unfold SwapOrder.perform
  rw [hm.timestamp]
  refine (Alike.debit hl _ _).bind fun _ _ k k' _ hk => ?_
  refine (Alike.credit hk _ _).bind fun _ _ k k' _ hk => ?_
  exact (Alike.record hk _).bind fun _ _ k k' _ hk => .pure hk rfl

theorem deposit_alike (hm : m.Alike m') (hl : l.Alike l') (s : Stake α) (kind : PositionKind) (trade : TradeKind)
    (protocol : String) (apy : α) :
    Action.Alike Eq l l' (deposit m s kind trade protocol apy) (deposit m' s kind trade protocol apy) := by
  unfold deposit Stake.position
  rw [hm.timestamp]
  refine (Alike.debit hl _ _).bind fun _ _ k k' _ hk => ?_
  refine (Alike.openPosition hk _).bind fun id id' k k' hid hk => ?_
  exact (Alike.recordSingle hk hm.timestamp _ _ _ _ _).bind fun _ _ k k' _ hk => .pure hk hid

theorem supply_alike (lender : Lender) (h : b.ReadAlike b') (hm : m.Alike m') (hl : l.Alike l') :
    Action.Alike Outcome.Alike l l' (b.supply lender m) (b'.supply lender m') := by
  unfold supply
  refine .look (.read_bind hl (depositOrder_alike h hm hl _) fun o o' ho => ?_)
  subst ho
  exact (deposit_alike hm hl _ _ _ _ _).bind fun _ _ k k' _ hk => .pure hk rfl

theorem staking_alike (h : b.ReadAlike b') (hm : m.Alike m') (hl : l.Alike l') :
    Action.Alike Outcome.Alike l l' (b.staking m) (b'.staking m') := by
  unfold staking
  refine .look (.read_bind hl (depositOrder_alike h hm hl _) fun o o' ho => ?_)
  subst ho
  rw [h.texts "protocol" (by decide)]
  exact (deposit_alike hm hl _ _ _ _ _).bind fun _ _ k k' _ hk => .pure hk rfl

theorem borrow_alike (lender : Lender) (h : b.ReadAlike b') (hm : m.Alike m') (hl : l.Alike l') :
    Action.Alike Outcome.Alike l l' (b.borrow lender m) (b'.borrow lender m') := by
  unfold borrow
  refine .look (.read_bind hl (borrowOrder_alike lender h hm hl) fun o o' ho => ?_)
  subst ho
  unfold Stake.position
  rw [hm.timestamp]
  refine (Alike.credit hl _ _).bind fun _ _ k k' _ hk => ?_
  refine (Alike.openPosition hk _).bind fun _ _ k k' _ hk => ?_
  exact (Alike.recordSingle hk hm.timestamp _ _ _ _ _).bind fun _ _ k k' _ hk => .pure hk rfl

theorem repay_alike (lender : Lender) (h : b.ReadAlike b') (hm : m.Alike m') (hl : l.Alike l') :
    Action.Alike Outcome.Alike l l' (b.repay lender m) (b'.repay lender m') := by
  unfold repay
  refine .look (.read_bind hl (repayOrder_alike lender h hm hl) fun o o' ho => ?_)
  subst ho
  refine (Alike.reducePosition hl _ _).bind fun _ _ k k' _ hk => ?_
  refine (Alike.debit hk _ _).bind fun _ _ k k' _ hk => ?_
  exact (Alike.recordSingle hk hm.timestamp _ _ _ _ _).bind fun _ _ k k' _ hk => .pure hk rfl

theorem withdraw_alike (lender : Lender) (h : b.ReadAlike b') (hm : m.Alike m') (hl : l.Alike l') :
    Action.Alike Outcome.Alike l l' (b.withdraw lender m) (b'.withdraw lender m') := by
  unfold withdraw
  refine .look (.read_bind hl (withdrawOrder_alike lender h hm hl) fun o o' ho => ?_)
  subst ho
  refine (Alike.reducePosition hl _ _).bind fun _ _ k k' _ hk => ?_
  refine (Alike.credit hk _ _).bind fun _ _ k k' _ hk => ?_
  exact (Alike.recordSingle hk hm.timestamp _ _ _ _ _).bind fun _ _ k k' _ hk => .pure hk rfl

theorem provideLeg_alike (hm : m.Alike m') (hl : l.Alike l') (pool : String) (leg : Stake α) :
    Action.Alike Eq l l' (provideLeg m pool leg) (provideLeg m' pool leg) := by
  unfold provideLeg Stake.position
  rw [hm.timestamp]
  split
  · exact .pure hl rfl
  · refine (Alike.debit hl _ _).bind fun _ _ k k' _ hk => ?_
    exact (Alike.openPosition hk _).bind fun _ _ k k' _ hk => .pure hk rfl

theorem liquidity_alike (h : b.ReadAlike b') (hm : m.Alike m') (hl : l.Alike l') :
    Action.Alike Outcome.Alike l l' (b.liquidity m) (b'.liquidity m') := by
  unfold liquidity
  refine .look (.read_bind hl (liquidityOrder_alike h hm hl) fun o o' ho => ?_)
  subst ho
  rw [hm.timestamp]
  refine (provideLeg_alike hm hl _ _).bind fun _ _ k k' _ hk => ?_
  refine (provideLeg_alike hm hk _ _).bind fun _ _ k k' _ hk => ?_
  exact (Alike.record hk _).bind fun _ _ k k' _ hk => .pure hk rfl

theorem flashLoan_alike (h : b.ReadAlike b') (hm : m.Alike m') (hl : l.Alike l') :
    Action.Alike Outcome.Alike l l' (b.flashLoan m) (b'.flashLoan m') := by
  unfold flashLoan
  refine .look (.read_bind hl (flashLoanOrder_alike h hm hl) fun o o' ho => ?_)
  subst ho
  refine (Alike.debit hl _ _).bind fun _ _ k k' _ hk => ?_
  exact (Alike.recordSingle hk hm.timestamp _ _ _ _ _).bind fun _ _ k k' _ hk => .pure hk rfl

/-! ## Exit blocks -/

theorem closeAt_alike (hm : m.Alike m') (hl : l.Alike l') (p : Position α) (price : α) :
    Action.Alike Eq l l' (closeAt m p price) (closeAt m' p price) := by
  unfold closeAt
  refine (Alike.closePosition hl _).bind fun _ _ k k' _ hk => ?_
  refine (Alike.credit hk _ _).bind fun _ _ k k' _ hk => ?_
  exact .recordSingle hk hm.timestamp ..

theorem closeWhere_alike (hm : m.Alike m') (decision : Position α → Except (Fault α) (Option α)) :
    ∀ (ps : List (Position α)) {l l' : Ledger α}, l.Alike l' →
      Action.Alike Eq l l' (closeWhere m decision ps) (closeWhere m' decision ps)
  | [], _, _, hl => .pure hl rfl
  | p :: rest, l, l', hl => by
    unfold closeWhere
    refine .read_bind hl (.of_eq faults_refl rfl) fun choice _ hchoice => ?_
    subst hchoice
    cases choice with
    | none => exact closeWhere_alike hm decision rest hl
    | some price =>
      refine (closeAt_alike hm hl p price).bind fun _ _ k k' _ hk => ?_
      exact (closeWhere_alike hm decision rest hk).bind fun _ _ k k' hmore hk => .pure hk (hmore ▸ rfl)

theorem atMarket_alike (hm : m.Alike m') (condition : Position α → Num α → Except (Fault α) Bool) :
    atMarket m condition = atMarket m' condition := by
  funext p
  unfold atMarket
  rw [hm.prices]

theorem whenAged_alike (hm : m.Alike m') (duration : Int) : whenAged m duration = whenAged m' duration := by
  funext p
  unfold whenAged isAged agedPrice
  rw [hm.timestamp, hm.prices]

/-- An exit block fires if it closes a position. -/
theorem exits_alike {exits exits' : List String} (hexits : exits = exits') (hl : l.Alike l') {o o' : Outcome α}
    {fired fired' : Outcome α} (ho : o.Alike o') (hfired : fired.Alike fired') :
    Action.Alike Outcome.Alike l l' (if exits.isEmpty then (pure o : Action α (Outcome α)) else pure fired)
      (if exits'.isEmpty then pure o' else pure fired') := by
  subst hexits
  split
  · exact .pure hl ho
  · exact .pure hl hfired

theorem stopLoss_alike (h : b.ReadAlike b') (hm : m.Alike m') (hl : l.Alike l') :
    Action.Alike Outcome.Alike l l' (b.stopLoss m) (b'.stopLoss m') := by
  unfold stopLoss
  refine .read_bind hl (h.positive _ _) fun threshold _ hthreshold => .look ?_
  subst hthreshold
  rw [h.assetPositions hl, atMarket_alike hm]
  dsimp only
  split
  · exact .pure hl rfl
  · exact (closeWhere_alike hm _ _ hl).bind fun _ _ k k' hexits hk => exits_alike hexits hk rfl rfl

theorem takeProfit_alike (h : b.ReadAlike b') (hm : m.Alike m') (hl : l.Alike l') :
    Action.Alike Outcome.Alike l l' (b.takeProfit m) (b'.takeProfit m') := by
  unfold takeProfit
  refine .read_bind hl (h.positive _ _) fun target _ htarget => .look ?_
  subst htarget
  rw [h.assetPositions hl, atMarket_alike hm]
  dsimp only
  split
  · exact .pure hl rfl
  · exact (closeWhere_alike hm _ _ hl).bind fun _ _ k k' hexits hk => exits_alike hexits hk rfl rfl

theorem timeExit_alike (h : b.ReadAlike b') (hm : m.Alike m') (hl : l.Alike l') :
    Action.Alike Outcome.Alike l l' (b.timeExit m) (b'.timeExit m') := by
  unfold timeExit
  refine .read_bind hl (h.positive _ _) fun milliseconds _ hmilliseconds => .look ?_
  subst hmilliseconds
  rw [h.assetPositions hl]
  dsimp only
  split
  · exact .pure hl rfl
  · refine .read_bind hl (.of_eq faults_refl rfl) fun duration _ hduration => ?_
    subst hduration
    rw [whenAged_alike hm]
    exact (closeWhere_alike hm _ _ hl).bind fun _ _ k k' hexits hk => exits_alike hexits hk rfl rfl

theorem conditionalExit_alike (h : b.ReadAlike b') (hm : m.Alike m') (hl : l.Alike l') :
    Action.Alike Outcome.Alike l l' (b.conditionalExit m) (b'.conditionalExit m') := by
  unfold conditionalExit
  rw [h.text (by decide)]
  refine .read_bind hl (.of_eq faults_refl rfl) fun condition _ hcondition => ?_
  subst hcondition
  cases (ExitCondition.read? condition : Option (ExitCondition α)) with
  | none => exact .read hl (Agree.error rfl)
  | some parsed =>
    refine .look ?_
    rw [h.assetPositions hl, atMarket_alike hm]
    dsimp only
    split
    · exact .pure hl rfl
    · exact (closeWhere_alike hm _ _ hl).bind fun _ _ k k' hexits hk => exits_alike hexits hk rfl rfl

/-! ## Risk blocks -/

theorem positionSizing_alike (h : b.ReadAlike b') :
    Agree Fault.Alike Outcome.Alike b.positionSizing b'.positionSizing := by
  unfold positionSizing
  refine (h.positive _ _).bind_eq fun value => ?_
  dsimp only
  rcases h.param? "max_position" with ⟨hnone, hnone'⟩ | ⟨v, v', hv, hv', halike⟩
  · rw [hnone, hnone']
    exact .ok rfl
  · rw [hv, hv']
    rcases halike.cases with rfl | ⟨xs, ys, hxs, hys, -⟩ | ⟨fs, gs, rfl, rfl⟩
    · cases v <;> first
        | exact .ok rfl
        | exact Agree.bind_eq (.of_eq faults_refl rfl) fun _ => .ok rfl
    · cases hxs <;> cases hys <;> exact .error rfl
    · exact .error rfl

/-- A token whose share is off its target by more than a threshold. -/
def IsOff (m : Market α) (l : Ledger α) (total threshold : α) (f : Key α × Value α) (target : α) : Prop :=
  threshold < Scalar.magnitude (l.balance f.1.shown * m.prices.priceOr0 f.1.shown / total * 100.0 - target)

/-- A readable target adds a deviation to those of the others, if its token is off it. -/
theorem deviations_cons {m : Market α} {l : Ledger α} {total threshold : α} {f : Key α × Value α} {rest : Object α}
    {x : α} {found : List (Deviation α)} (htarget : f.2.toReal = .ok x)
    (hrest : deviations m l total threshold rest = .ok found) :
    ∃ found', deviations m l total threshold (f :: rest) = .ok found' ∧
      (found' = [] ↔ ¬ IsOff m l total threshold f x ∧ found = []) := by
  obtain ⟨key, target⟩ := f
  unfold deviations
  rw [show target.toReal = .ok x from htarget, hrest]
  by_cases hoff : IsOff m l total threshold (key, target) x
  · exact ⟨_, if_pos hoff, iff_of_false nofun fun h => h.1 hoff⟩
  · exact ⟨found, if_neg hoff, (and_iff_right hoff).symm⟩

/-- The deviations of an allocation: none of its targets may be unreadable, and there is one if a token
is off its target. -/
theorem deviations_cases (m : Market α) (l : Ledger α) (total threshold : α) : ∀ fields : Object α,
    (∃ found, deviations m l total threshold fields = .ok found ∧ (∀ f ∈ fields, ∃ x, f.2.toReal = .ok x) ∧
      (found = [] ↔ ∀ f ∈ fields, ∀ x, f.2.toReal = .ok x → ¬ IsOff m l total threshold f x)) ∨
    ∃ cause, deviations m l total threshold fields = .error (.value cause) ∧ ∃ f ∈ fields, ∀ x, f.2.toReal ≠ .ok x
  | [] => .inl ⟨[], rfl, nofun, iff_of_true rfl nofun⟩
  | f :: rest => by
    cases htarget : f.2.toReal with
    | error cause =>
      refine .inr ⟨cause, ?_, f, List.mem_cons_self, fun x hx => ?_⟩
      · unfold deviations
        rw [htarget]
        rfl
      · rw [htarget] at hx
        cases hx
    | ok x =>
      rcases deviations_cases m l total threshold rest with ⟨found, hfound, hread, hnone⟩ | ⟨cause, hcause, g, hg, hbad⟩
      · obtain ⟨found', hfound', hiff⟩ := deviations_cons htarget hfound
        refine .inl ⟨found', hfound', List.forall_mem_cons.2 ⟨⟨x, htarget⟩, hread⟩, ?_⟩
        rw [hiff, hnone, List.forall_mem_cons, htarget]
        refine and_congr_left fun _ => ⟨fun h y hy => Except.ok.inj hy ▸ h, fun h => h x rfl⟩
      · refine .inr ⟨cause, ?_, g, List.mem_cons_of_mem _ hg, hbad⟩
        unfold deviations
        rw [htarget, hcause]
        rfl

theorem IsOff.alike (hm : m.Alike m') (hl : l.Alike l') {total threshold : α} {f g : Key α × Value α} {x : α}
    (hkey : f.1 = g.1) : IsOff m l total threshold f x ↔ IsOff m' l' total threshold g x := by
  unfold IsOff
  rw [← hkey, ← hl.balance, ← hm.priceOr0]

/-- Whether a token is off its target does not depend on the order of an allocation. -/
theorem deviations_alike (hm : m.Alike m') (hl : l.Alike l') (total threshold : α) {fs gs : Object α}
    (h : (Object.told fs).Perm (Object.told gs)) :
    Agree Fault.Alike (fun found found' => found.isEmpty = found'.isEmpty) (deviations m l total threshold fs)
      (deviations m' l' total threshold gs) := by
  have hpartner : ∀ {fs gs : Object α}, (Object.told fs).Perm (Object.told gs) → ∀ f ∈ fs, ∃ g ∈ gs, f.1 = g.1 ∧
      ∀ x, f.2.toReal = .ok x ↔ g.2.toReal = .ok x := by
    intro fs gs h f hf
    obtain ⟨g, hg, hfg⟩ := List.mem_map.1 (h.mem_iff.1 (List.mem_map.2 ⟨f, hf, rfl⟩))
    refine ⟨g, hg, (congrArg Prod.fst hfg).symm, fun x => ?_⟩
    have halike : g.2.Alike f.2 := congrArg Prod.snd hfg
    rcases halike.toReal with heq | ⟨kind, kind', hbad, hbad'⟩
    · rw [heq]
    · rw [hbad, hbad']
      exact iff_of_false nofun nofun
  rcases deviations_cases m l total threshold fs with ⟨found, hfound, hread, hnone⟩ | ⟨cause, hcause, f, hf, hbad⟩
  · rcases deviations_cases m' l' total threshold gs with ⟨found', hfound', -, hnone'⟩ | ⟨cause, -, g, hg, hbad⟩
    · rw [hfound, hfound']
      refine .ok ?_
      have hsame : found = [] ↔ found' = [] := by
        rw [hnone, hnone']
        constructor
        · intro hfs g hg x hx hoff
          obtain ⟨f, hf, hkey, hreal⟩ := hpartner h.symm g hg
          exact hfs f hf x ((hreal x).1 hx) ((IsOff.alike hm hl hkey.symm).2 hoff)
        · intro hgs f hf x hx hoff
          obtain ⟨g, hg, hkey, hreal⟩ := hpartner h f hf
          exact hgs g hg x ((hreal x).1 hx) ((IsOff.alike hm hl hkey).1 hoff)
      rw [Bool.eq_iff_iff, List.isEmpty_iff, List.isEmpty_iff]
      exact hsame
    · obtain ⟨f, hf, -, hreal⟩ := hpartner h.symm g hg
      obtain ⟨x, hx⟩ := hread f hf
      exact absurd ((hreal x).2 hx) (hbad x)
  · rcases deviations_cases m' l' total threshold gs with ⟨found', -, hread', -⟩ | ⟨cause', hcause', -⟩
    · obtain ⟨g, hg, -, hreal⟩ := hpartner h f hf
      obtain ⟨x, hx⟩ := hread' g hg
      exact absurd ((hreal x).2 hx) (hbad x)
    · rw [hcause, hcause']
      exact .error rfl

/-- An allocation has to be an object. -/
theorem rebalancing_refused (h : (b.param? "target_allocation").bind Value.fields? = none) :
    b.rebalancing m l = .error (.rejected (.badAllocation b.displayName)) := by
  unfold rebalancing
  generalize b.param? "target_allocation" = v at h ⊢
  cases v with
  | none => rfl
  | some v => cases v <;> first | rfl | cases h

section

variable [ExactArithmetic] {c c' : Block ℚ} {n n' : Market ℚ} {k k' : Ledger ℚ}

theorem rebalancing_alike (h : c.ReadAlike c') (hn : n.Alike n') (hk : k.Alike k') :
    Agree Fault.Alike Outcome.Alike (c.rebalancing n k) (c'.rebalancing n' k') := by
  have hname := h.displayName
  have hequity := hk.equity hn.prices
  have hrefused : (c.param? "target_allocation").bind Value.fields? = none →
      (c'.param? "target_allocation").bind Value.fields? = none →
        Agree Fault.Alike Outcome.Alike (c.rebalancing n k) (c'.rebalancing n' k') := fun hc hc' => by
    rw [rebalancing_refused hc, rebalancing_refused hc']
    exact .error rfl
  rcases h.param? "target_allocation" with ⟨hnone, hnone'⟩ | ⟨v, v', hv, hv', halike⟩
  · exact hrefused (by rw [hnone]; rfl) (by rw [hnone']; rfl)
  rcases halike.objects with ⟨fs, gs, rfl, rfl, hperm⟩ | ⟨hnone, hnone'⟩
  · have hempty : fs.isEmpty = gs.isEmpty := by
      have := hperm.isEmpty_eq
      rwa [Object.told, List.isEmpty_map, Object.told, List.isEmpty_map] at this
    unfold rebalancing
    dsimp only
    rw [hv, hv', hname, hequity]
    dsimp only
    rw [hempty]
    split
    · exact .error rfl
    · refine Agree.bind (R := fun fs gs => (Object.told fs).Perm (Object.told gs)) (.ok hperm) fun fs gs hperm => ?_
      refine (h.number _ _).bind_eq fun threshold => ?_
      split
      · exact .ok rfl
      · refine (deviations_alike hn hk _ _ hperm).bind fun found found' hfound => ?_
        rw [hfound]
        split <;> exact .ok rfl
  · exact hrefused (by rw [hv]; exact hnone) (by rw [hv']; exact hnone')

/-! ## Whole blocks -/

theorem act_alike (kind : BlockKind) (h : c.ReadAlike c') (hn : n.Alike n') (hk : k.Alike k') :
    Action.Alike Outcome.Alike k k' (c.act kind n) (c'.act kind n') := by
  cases kind with
  | priceTrigger => exact .read hk (priceTrigger_alike h hn)
  | timeTrigger => exact .read hk (timeTrigger_alike h hn)
  | volumeTrigger => exact .read hk (volumeTrigger_alike h hn)
  | indicatorTrigger => exact .read hk (indicatorTrigger_alike h hn)
  | swap e => exact swap_alike e h hn hk
  | supply lender => exact supply_alike lender h hn hk
  | borrow lender => exact borrow_alike lender h hn hk
  | repay => exact repay_alike .aave h hn hk
  | withdraw => exact withdraw_alike .aave h hn hk
  | liquidity => exact liquidity_alike h hn hk
  | flashLoan => exact flashLoan_alike h hn hk
  | staking => exact staking_alike h hn hk
  | stopLoss => exact stopLoss_alike h hn hk
  | takeProfit => exact takeProfit_alike h hn hk
  | timeExit => exact timeExit_alike h hn hk
  | conditionalExit => exact conditionalExit_alike h hn hk
  | positionSizing => exact .read hk (positionSizing_alike h)
  | riskLimits => exact .pure hk rfl
  | rebalancing => exact .look (.read hk (rebalancing_alike h hn hk))

/-- A fault that is reported becomes an outcome that did not fire, on both sides. -/
theorem answered_alike {r r' : Except (Fault ℚ) (Outcome ℚ)} (hr : Agree Fault.Alike Outcome.Alike r r')
    (hk : k.Alike k') : Agree anyCause Outcome.Alike (answered (r, k)).1 (answered (r', k')).1 ∧
      (answered (r, k)).2.Alike (answered (r', k')).2 := by
  refine ⟨?_, by rw [answered_snd, answered_snd]; exact hk⟩
  cases hr with
  | ok h => exact .ok h
  | @error f g hfg =>
    unfold Fault.Alike at hfg
    cases hf : reported? f with
    | none =>
      rw [hf] at hfg
      have hg : reported? g = none := Option.not_isSome_iff_eq_none.1 (by rw [← hfg]; decide)
      rw [answered_raised hf, answered_raised hg]
      exact .error trivial
    | some o =>
      rw [hf] at hfg
      obtain ⟨o', hg⟩ := Option.isSome_iff_exists.1 hfg.symm
      rw [answered_reported hf, answered_reported hg]
      exact .ok ((reported?_fired hf).trans (reported?_fired hg).symm)

theorem execute_alike (h : c.ReadAlike c') (hn : n.Alike n') (hk : k.Alike k') :
    Agree anyCause Outcome.Alike (c.execute n k).1 (c'.execute n' k').1 ∧ (c.execute n k).2.Alike (c'.execute n' k').2 := by
  have hkinds : c'.kind? = c.kind? := by
    unfold kind?
    rw [h.kind]
  cases hkind : c.kind? with
  | none =>
    unfold execute
    rw [hkinds, hkind]
    exact ⟨.error trivial, hk⟩
  | some kind =>
    rw [execute_eq hkind, execute_eq (hkinds.trans hkind)]
    have hact := act_alike kind h hn hk
    exact answered_alike hact.result hact.ledger

end

end Block

namespace SequenceRun

variable [ExactArithmetic] {n n' : Market ℚ}

/-- Sequences of blocks that read alike leave accounts that are alike, unless both raise a fault. -/
theorem after_alike (hn : n.Alike n') : ∀ {bs bs' : List (Block ℚ)} {k k' : Ledger ℚ}
    {previous previous' : Option (Outcome ℚ)}, List.Forall₂ Block.ReadAlike bs bs' → k.Alike k' →
      previous.map (·.fired) = previous'.map (·.fired) →
        (after n previous bs k).fault.isSome = (after n' previous' bs' k').fault.isSome ∧
          (after n previous bs k).ledger.Alike (after n' previous' bs' k').ledger
  | [], _, k, k', _, _, .nil, hk, _ => ⟨rfl, hk⟩
  | b :: rest, b' :: rest', k, k', previous, previous', .cons hb hrest, hk, hprevious => by
    have hskip : b.isSkipped previous = b'.isSkipped previous' := by
      unfold Block.isSkipped
      rw [hb.category]
      cases previous <;> cases previous' <;> simp_all
    cases hskipped : b.isSkipped previous with
    | true =>
      rw [after_skipped hskipped, after_skipped (hskip.symm.trans hskipped)]
      exact after_alike hn hrest hk rfl
    | false =>
      have hexecuted := Block.execute_alike hb hn hk
      rcases he : b.execute n k with ⟨r, l⟩
      rcases he' : b'.execute n' k' with ⟨r', l'⟩
      rw [he, he'] at hexecuted
      obtain ⟨hresult, hl⟩ := hexecuted
      cases hresult with
      | ok hfired =>
        rw [after_executed hskipped he, after_executed (hskip.symm.trans hskipped) he']
        exact after_alike hn hrest hl (congrArg some hfired)
      | error _ =>
        rw [after_raised hskipped he, after_raised (hskip.symm.trans hskipped) he']
        exact ⟨rfl, hl⟩

end SequenceRun

end StrategyLab
