/-
Computations on an account, run on a given one. A computation that ends with a fault keeps the
account of the moment: `eval_bind` says what comes after the first part of a computation, and the
other equations say what each elementary step does.
-/
import StrategyLab.Block.Execute
import StrategyLab.Proofs.Ledger.Balance

namespace StrategyLab

namespace Action

variable {α β γ : Type} [Scalar α]

/-- The result of a computation on an account, and the account afterwards. -/
def eval (x : Action α β) (l : Ledger α) : Except (Fault α) β × Ledger α := x.run l

section

omit [Scalar α]

theorem eval_bind (x : Action α β) (f : β → Action α γ) (l : Ledger α) :
    eval (x >>= f) l = match eval x l with
      | (.ok a, l') => eval (f a) l'
      | (.error e, l') => (.error e, l') := by
  unfold eval
  rw [ExceptT.run_bind]
  change (x.run.bind _) l = _
  rw [StateT.bind]
  rcases x.run l with ⟨r, l'⟩
  cases r <;> rfl

@[simp] theorem eval_get (l : Ledger α) : eval (get : Action α (Ledger α)) l = (.ok l, l) := rfl

/-- Reading something without a look at the account leaves the account alone. -/
@[simp] theorem eval_lift (x : Except (Fault α) β) (l : Ledger α) :
    eval (liftM x : Action α β) l = (x, l) := by
  cases x <;> rfl

/-- The second part runs on what the first part leaves. -/
theorem eval_bind_of_ok {x : Action α β} {f : β → Action α γ} {l l' : Ledger α} {a : β}
    (h : eval x l = (.ok a, l')) : eval (x >>= f) l = eval (f a) l' := by
  rw [eval_bind, h]

theorem eval_bind_of_error {x : Action α β} {f : β → Action α γ} {l l' : Ledger α} {e : Fault α}
    (h : eval x l = (.error e, l')) : eval (x >>= f) l = (.error e, l') := by
  rw [eval_bind, h]

/-- A computation that came to its end did so in both parts. -/
theorem eval_bind_ok {x : Action α β} {f : β → Action α γ} {l l' : Ledger α} {c : γ}
    (h : eval (x >>= f) l = (.ok c, l')) :
    ∃ a l₁, eval x l = (.ok a, l₁) ∧ eval (f a) l₁ = (.ok c, l') := by
  rw [eval_bind] at h
  rcases hx : eval x l with ⟨r, l₁⟩
  rw [hx] at h
  cases r with
  | error e => cases h
  | ok a => exact ⟨a, l₁, rfl, h⟩

/-- A reading that came to its end left the account alone. -/
theorem eval_read_ok {x : Except (Fault α) β} {f : β → Action α γ} {l l' : Ledger α} {c : γ}
    (h : eval (liftM x >>= f) l = (.ok c, l')) : ∃ a, x = .ok a ∧ eval (f a) l = (.ok c, l') := by
  obtain ⟨a, l₁, hx, hf⟩ := eval_bind_ok h
  rw [eval_lift] at hx
  obtain ⟨rfl, rfl⟩ := Prod.mk.inj hx
  exact ⟨a, rfl, hf⟩

theorem eval_look_ok {f : Ledger α → Action α γ} {l l' : Ledger α} {c : γ}
    (h : eval (get >>= f) l = (.ok c, l')) : eval (f l) l = (.ok c, l') := by
  rwa [eval_bind_of_ok (eval_get l)] at h

theorem eval_change (f : Ledger α → Except (LedgerFault α) (Ledger α)) (l : Ledger α) :
    eval (change f) l = match f l with
      | .ok l' => (.ok (), l')
      | .error cause => (.error (.ledger cause), l) := by
  unfold change
  rw [eval_bind_of_ok (eval_get l)]
  cases f l <;> rfl

@[simp] theorem eval_openPosition (p : Ledger.NewPosition α) (l : Ledger α) :
    eval (openPosition p) l = (.ok (l.nextOpened p).id, l.openPosition p) := rfl

@[simp] theorem eval_record (t : Ledger.NewTrade α) (l : Ledger α) :
    eval (record t) l = (.ok (), l.recordTrade t) := rfl

theorem eval_closePosition (id : String) (l : Ledger α) : eval (closePosition id) l =
    match l.closePosition id with
    | .ok (_, l') => (.ok (), l')
    | .error cause => (.error (.ledger cause), l) := by
  unfold closePosition
  rw [eval_change]
  cases l.closePosition id <;> rfl

end

/-! ## Elementary steps -/

theorem eval_credit (token : String) (x : α) (l : Ledger α) : eval (credit token x) l =
    if Num.isLess (.real x) (.whole 0) then (.error (.ledger (.negativeCredit token (.real x))), l)
    else (.ok (), l.gain token x) := by
  unfold credit
  rw [eval_change, Ledger.credit_real]
  by_cases h : (Num.real x).isLess (.whole 0) = true
  · rw [if_pos h, if_pos h]
  · rw [if_neg h, if_neg h]

theorem eval_debit (token : String) (x : α) (l : Ledger α) : eval (debit token x) l =
    if Num.isLess (.real x) (.whole 0) then (.error (.ledger (.negativeDebit token (.real x))), l)
    else if l.balance token < x then
      (.error (.ledger (.insufficientBalance token (l.balance token) (.real x))), l)
    else (.ok (), l.pay token x) := by
  unfold debit
  rw [eval_change, Ledger.debit_real]
  by_cases h : (Num.real x).isLess (.whole 0) = true
  · rw [if_pos h, if_pos h]
  · rw [if_neg h, if_neg h]
    by_cases hb : l.balance token < x
    · rw [if_pos hb, if_pos hb]
    · rw [if_neg hb, if_neg hb]

theorem eval_reducePosition (id : String) (x : α) (l : Ledger α) : eval (reducePosition id x) l =
    match l.reducePosition id (.real x) with
    | .ok (p, l') => (.ok p.amount, l')
    | .error cause => (.error (.ledger cause), l) := by
  unfold reducePosition
  rw [eval_bind_of_ok (eval_get l)]
  cases h : l.reducePosition id (.real x) with
  | ok r => rfl
  | error cause => rfl

/-- A trade that moves one token. -/
def singleTrade (m : Market α) (kind : TradeKind) (token : String) (amount price fees : α) :
    Ledger.NewTrade α :=
  { timestamp := m.timestamp, kind, inputToken := token, inputAmount := amount, price, fees,
    gas := Costs.gas kind price, outputToken := none, outputAmount := none, slippage := none }

end Action

namespace Block

variable {α : Type} [Scalar α]

/-- The result of a block once faults are reported as outcomes, where they are not raised. -/
def answered : Except (Fault α) (Outcome α) × Ledger α → Except (Fault α) (Outcome α) × Ledger α
  | (.ok o, l) => (.ok o, l)
  | (.error f, l) =>
    match reported? f with
    | some o => (.ok o, l)
    | none => (.error f, l)

theorem execute_eq {b : Block α} {kind : BlockKind} (hk : b.kind? = some kind) (m : Market α) (l : Ledger α) :
    b.execute m l = answered (Action.eval (b.act kind m) l) := by
  rcases h : Action.eval (b.act kind m) l with ⟨r, l'⟩
  have hrun : (b.act kind m).run l = (r, l') := h
  unfold execute answered
  rw [hk]
  dsimp only
  rw [hrun]
  cases r <;> rfl

theorem answered_reported {f : Fault α} {o : Outcome α} (h : reported? f = some o) (l : Ledger α) :
    answered (.error f, l) = (.ok o, l) := by
  simp only [answered, h]

theorem answered_raised {f : Fault α} (h : reported? f = none) (l : Ledger α) :
    answered (.error f, l) = (.error f, l) := by
  simp only [answered, h]

/-- Reporting a fault or raising it makes no difference to the account. -/
theorem answered_snd (r : Except (Fault α) (Outcome α) × Ledger α) : (answered r).2 = r.2 := by
  rcases r with ⟨r, l⟩
  cases r with
  | ok o => rfl
  | error f =>
    cases h : reported? f with
    | some o => rw [answered_reported h]
    | none => rw [answered_raised h]

/-- An executed block has answered, or its handler ended in a fault that is reported. -/
theorem execute_ok {b : Block α} {m : Market α} {l l' : Ledger α} {o : Outcome α} {kind : BlockKind}
    (hk : b.kind? = some kind) (h : b.execute m l = (.ok o, l')) :
    Action.eval (b.act kind m) l = (.ok o, l') ∨
      ∃ f, Action.eval (b.act kind m) l = (.error f, l') ∧ reported? f = some o := by
  rw [execute_eq hk] at h
  rcases he : Action.eval (b.act kind m) l with ⟨r, l''⟩
  rw [he] at h
  cases r with
  | ok o' => exact .inl h
  | error f =>
    cases hr : reported? f with
    | none => rw [answered_raised hr] at h; cases h
    | some o' =>
      rw [answered_reported hr] at h
      cases h
      exact .inr ⟨f, rfl, hr⟩

/-- A fault is reported as an outcome that is a failure. -/
theorem reported?_failed {f : Fault α} {o : Outcome α} (h : reported? f = some o) : ∃ message, o = .failed message := by
  cases f <;> simp only [reported?, Option.some.injEq, reduceCtorEq] at h
  · split at h
    · cases h; exact ⟨_, rfl⟩
    · cases h
  · cases h; exact ⟨_, rfl⟩

/-- A fault is reported as an outcome that did not fire. -/
theorem reported?_fired {f : Fault α} {o : Outcome α} (h : reported? f = some o) : o.fired = false := by
  obtain ⟨message, rfl⟩ := reported?_failed h
  rfl

theorem reported?_ok {f : Fault α} {o : Outcome α} (h : reported? f = some o) : o.ok = false := by
  obtain ⟨message, rfl⟩ := reported?_failed h
  rfl

end Block

end StrategyLab
