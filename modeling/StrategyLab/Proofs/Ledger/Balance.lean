/-
Balances after an amount was added or taken, over any scalars, and when an account refuses either;
and the tokens of an account, those with a balance and those of the open positions. An operation
adds at most the token that it names.
-/
import StrategyLab.Proofs.Ledger.Operation

namespace StrategyLab

theorem Num.isLess_real {α : Type} [Scalar α] (x y : α) :
    (Num.real x).isLess (.real y) = decide (x < y) := by
  unfold Num.isLess Num.compare?
  by_cases h : x < y
  · simp [h]
  · by_cases h' : y < x
    · simp [h, h']
    · by_cases he : (x == y) = true <;> simp [h, h', he]

namespace Ledger

variable {α : Type} [Scalar α]

/-- The account with an amount added to a balance. -/
def gain (l : Ledger α) (token : String) (x : α) : Ledger α := l.withBalance token (l.balance token + x)

/-- The account with an amount taken from a balance. -/
def pay (l : Ledger α) (token : String) (x : α) : Ledger α := l.withBalance token (l.balance token - x)

/-- A credit of a scalar is refused exactly when the scalar is below zero. -/
theorem credit_real (l : Ledger α) (token : String) (x : α) : l.credit token (.real x) =
    if Num.isLess (.real x) (.whole 0) then .error (.negativeCredit token (.real x))
    else .ok (l.gain token x) := rfl

/-- A debit of a scalar is refused exactly when the scalar is below zero or above the balance. -/
theorem debit_real (l : Ledger α) (token : String) (x : α) : l.debit token (.real x) =
    if Num.isLess (.real x) (.whole 0) then .error (.negativeDebit token (.real x))
    else if l.balance token < x then .error (.insufficientBalance token (l.balance token) (.real x))
    else .ok (l.pay token x) := by
  unfold debit
  split
  · rfl
  · simp only [Num.isLess_real, decide_eq_true_eq]
    rfl

omit [Scalar α] in
theorem lookup_putBalance (token : String) (x : α) : ∀ (bs : List (String × α)) (t : String),
    (putBalance token x bs).lookup t = if t = token then some x else bs.lookup t
  | [], t => by
    by_cases h : t = token
    · simp [putBalance, h]
    · simp [putBalance, List.lookup_cons, h, beq_eq_false_iff_ne.2 h]
  | (u, y) :: rest, t => by
    unfold putBalance
    by_cases hu : u = token
    · by_cases ht : t = token
      · simp [hu, ht]
      · simp [List.lookup_cons, hu, ht, beq_eq_false_iff_ne.2 ht]
    · rw [if_neg hu, List.lookup_cons, List.lookup_cons, lookup_putBalance token x rest t]
      by_cases ht : t = u
      · simp [ht, hu]
      · rw [beq_eq_false_iff_ne.2 ht]

theorem balance_withBalance (l : Ledger α) (token t : String) (x : α) :
    (l.withBalance token x).balance t = if t = token then x else l.balance t := by
  unfold balance withBalance
  rw [lookup_putBalance]
  split <;> rfl

theorem balance_gain (l : Ledger α) (token t : String) (x : α) :
    (l.gain token x).balance t = if t = token then l.balance token + x else l.balance t :=
  balance_withBalance ..

theorem balance_pay (l : Ledger α) (token t : String) (x : α) :
    (l.pay token x).balance t = if t = token then l.balance token - x else l.balance t :=
  balance_withBalance ..

/-! ## What the other operations leave alone -/

@[simp] theorem trades_gain (l : Ledger α) (token : String) (x : α) : (l.gain token x).trades = l.trades := rfl

@[simp] theorem trades_pay (l : Ledger α) (token : String) (x : α) : (l.pay token x).trades = l.trades := rfl

@[simp] theorem balance_openPosition (l : Ledger α) (p : NewPosition α) (t : String) :
    (l.openPosition p).balance t = l.balance t := rfl

@[simp] theorem balance_recordTrade (l : Ledger α) (t : NewTrade α) (token : String) :
    (l.recordTrade t).balance token = l.balance token := rfl

section

omit [Scalar α]

@[simp] theorem positions_openPosition (l : Ledger α) (p : NewPosition α) :
    (l.openPosition p).positions = l.positions ++ [l.nextOpened p] := rfl

@[simp] theorem trades_recordTrade (l : Ledger α) (t : NewTrade α) :
    (l.recordTrade t).trades = l.trades ++ [l.nextRecorded t] := rfl

end

theorem balance_reducePosition {l l' : Ledger α} {id : String} {amount : Num α} {p : Position α}
    (h : l.reducePosition id amount = .ok (p, l')) (t : String) : l'.balance t = l.balance t := by
  obtain ⟨q, x, -, -, -, -, rfl⟩ := reducePosition_ok h; rfl

theorem balance_accrueInterest (l : Ledger α) (days : Num α) (t : String) :
    (l.accrueInterest days).2.balance t = l.balance t := by
  rw [accrueInterest_snd]; split <;> rfl

end Ledger

end StrategyLab

namespace StrategyLab.Ledger

variable {α : Type}

/-- Every token of an account is one of some tokens. -/
structure Within (T : String → Prop) (l : Ledger α) : Prop where
  balances : ∀ b ∈ l.balances, T b.1
  positions : ∀ p ∈ l.positions, T p.asset

namespace Within

variable {T : String → Prop} {l l' : Ledger α}

theorem mono {T' : String → Prop} (h : l.Within T) (hT : ∀ token, T token → T' token) : l.Within T' :=
  ⟨fun b hb => hT _ (h.balances b hb), fun p hp => hT _ (h.positions p hp)⟩

theorem withBalance {token : String} (h : l.Within T) (htoken : T token) (x : α) :
    (l.withBalance token x).Within T := by
  refine ⟨fun b hb => ?_, h.positions⟩
  rcases (mem_putBalance_keys token x l.balances b.1).1 (List.mem_map_of_mem hb) with heq | hold
  · rw [heq]; exact htoken
  · obtain ⟨c, hc, heq⟩ := List.mem_map.1 hold
    rw [← heq]
    exact h.balances c hc

theorem openPosition {p : NewPosition α} (h : l.Within T) (hp : T p.asset) : (l.openPosition p).Within T := by
  refine ⟨h.balances, fun q hq => ?_⟩
  rcases List.mem_append.1 hq with hq | hq
  · exact h.positions q hq
  · rw [List.mem_singleton.1 hq]
    exact hp

theorem recordTrade (h : l.Within T) (t : NewTrade α) : (l.recordTrade t).Within T :=
  ⟨h.balances, h.positions⟩

theorem closePosition {id : String} {p : Position α} (h : l.Within T) (hclose : l.closePosition id = .ok (p, l')) :
    l'.Within T := by
  obtain ⟨-, rfl⟩ := closePosition_ok hclose
  exact ⟨h.balances, fun q hq => h.positions q (List.mem_of_mem_filter hq)⟩

variable [Scalar α]

theorem reducePosition {id : String} {x : Num α} {p : Position α} (h : l.Within T)
    (hreduce : l.reducePosition id x = .ok (p, l')) : l'.Within T := by
  obtain ⟨q, y, hq, -, -, rfl, rfl⟩ := reducePosition_ok hreduce
  have hasset : T q.asset := h.positions q (List.mem_of_find?_eq_some hq)
  refine ⟨h.balances, fun r hr => ?_⟩
  simp only [replacePosition] at hr
  split at hr
  · exact h.positions r (List.mem_of_mem_filter hr)
  · obtain ⟨s, hs, rfl⟩ := List.mem_map.1 hr
    split
    · exact hasset
    · exact h.positions s hs

theorem accrueInterest (h : l.Within T) (days : Num α) : (l.accrueInterest days).2.Within T := by
  rw [accrueInterest_snd]
  split
  · exact h
  · refine ⟨h.balances, fun p hp => ?_⟩
    obtain ⟨q, hq, rfl⟩ := List.mem_map.1 hp
    have hasset : (grown days.value q).asset = q.asset := by unfold grown; split <;> rfl
    rw [hasset]
    exact h.positions q hq

end Within

end StrategyLab.Ledger
