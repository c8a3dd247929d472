/-
Accounts whose numbers are finite. In exact arithmetic with infinities and an undefined value no sum
of something that is not finite is finite: an amount that is not finite stays in the account it enters,
and an operation leaves the balances and the open amounts finite exactly if it moves a finite amount.
-/
import StrategyLab.Proofs.Ledger.Balance
import StrategyLab.Proofs.Number.Extended

namespace StrategyLab.Ledger

section

variable {α : Type} [Scalar α]

/-- Every balance and every open amount is finite. -/
structure FiniteHoldings (l : Ledger α) : Prop where
  balance (token : String) : Scalar.isFinite (l.balance token) = true
  amount : ∀ p ∈ l.positions, Scalar.isFinite p.amount = true

/-- The entry price and the yearly rate of every open position are finite. -/
def FiniteTerms (l : Ledger α) : Prop :=
  ∀ p ∈ l.positions, Scalar.isFinite p.entryPrice = true ∧ Scalar.isFinite p.apy = true

/-- A reduction leaves positions that were open, one of them with another amount. -/
theorem mem_reducePosition {l l' : Ledger α} {id : String} {x : α} {p r : Position α}
    (h : l.reducePosition id (.real x) = .ok (p, l')) (hr : r ∈ l'.positions) :
    r ∈ l.positions ∨ ∃ q ∈ l.positions, r = { q with amount := q.amount - x } := by
  obtain ⟨q, y, hq, hy, -, rfl, rfl⟩ := reducePosition_ok h
  cases hy
  change r ∈ replacePosition _ l.positions at hr
  unfold replacePosition at hr
  split at hr
  · exact .inl (List.mem_filter.1 hr).1
  · obtain ⟨s, hs, rfl⟩ := List.mem_map.1 hr
    split_ifs
    · exact .inr ⟨q, List.mem_of_find?_eq_some hq, rfl⟩
    · exact .inl hs

/-! ## Terms -/

@[simp] theorem finiteTerms_gain (l : Ledger α) (token : String) (x : α) :
    (l.gain token x).FiniteTerms ↔ l.FiniteTerms := Iff.rfl

@[simp] theorem finiteTerms_pay (l : Ledger α) (token : String) (x : α) :
    (l.pay token x).FiniteTerms ↔ l.FiniteTerms := Iff.rfl

@[simp] theorem finiteTerms_recordTrade (l : Ledger α) (t : NewTrade α) :
    (l.recordTrade t).FiniteTerms ↔ l.FiniteTerms := Iff.rfl

@[simp] theorem finiteTerms_openPosition (l : Ledger α) (p : NewPosition α) : (l.openPosition p).FiniteTerms ↔
    l.FiniteTerms ∧ Scalar.isFinite p.entryPrice = true ∧ Scalar.isFinite p.apy = true := by
  simp only [FiniteTerms, positions_openPosition, List.forall_mem_append, List.forall_mem_singleton]
  rfl

theorem FiniteTerms.filter {l : Ledger α} (h : l.FiniteTerms) (kept : Position α → Bool) :
    FiniteTerms { l with positions := l.positions.filter kept } := by
  intro p hp
  exact h p (List.mem_filter.1 hp).1

theorem FiniteTerms.reducePosition {l l' : Ledger α} {id : String} {x : α} {p : Position α} (h : l.FiniteTerms)
    (hreduce : l.reducePosition id (.real x) = .ok (p, l')) : l'.FiniteTerms := by
  intro r hr
  rcases mem_reducePosition hreduce hr with hmem | ⟨q, hmem, rfl⟩
  · exact h r hmem
  · exact h q hmem

end

/-! ## Holdings -/

variable [ExactArithmetic] {l : Ledger Extended}

/-- A balance changed by an amount, which stays in it. -/
theorem finiteHoldings_withBalance {token : String} {x y : Extended}
    (hx : Scalar.isFinite x = true ↔ Scalar.isFinite (l.balance token) = true ∧ Scalar.isFinite y = true) :
    (l.withBalance token x).FiniteHoldings ↔ l.FiniteHoldings ∧ Scalar.isFinite y = true := by
  constructor
  · intro h
    have htoken := h.balance token
    rw [balance_withBalance, if_pos rfl, hx] at htoken
    refine ⟨⟨fun t => ?_, h.amount⟩, htoken.2⟩
    have hbalance := h.balance t
    rw [balance_withBalance] at hbalance
    split_ifs at hbalance with ht
    · rw [ht]
      exact htoken.1
    · exact hbalance
  · rintro ⟨h, hy⟩
    refine ⟨fun t => ?_, h.amount⟩
    rw [balance_withBalance]
    split_ifs
    · exact hx.2 ⟨h.balance token, hy⟩
    · exact h.balance t

@[simp] theorem finiteHoldings_gain (l : Ledger Extended) (token : String) (x : Extended) :
    (l.gain token x).FiniteHoldings ↔ l.FiniteHoldings ∧ Scalar.isFinite x = true :=
  finiteHoldings_withBalance (Extended.isFinite_add _ _)

@[simp] theorem finiteHoldings_pay (l : Ledger Extended) (token : String) (x : Extended) :
    (l.pay token x).FiniteHoldings ↔ l.FiniteHoldings ∧ Scalar.isFinite x = true :=
  finiteHoldings_withBalance (Extended.isFinite_sub _ _)

@[simp] theorem finiteHoldings_recordTrade (l : Ledger Extended) (t : NewTrade Extended) :
    (l.recordTrade t).FiniteHoldings ↔ l.FiniteHoldings := ⟨fun h => ⟨h.balance, h.amount⟩, fun h => ⟨h.balance, h.amount⟩⟩

@[simp] theorem finiteHoldings_openPosition (l : Ledger Extended) (p : NewPosition Extended) :
    (l.openPosition p).FiniteHoldings ↔ l.FiniteHoldings ∧ Scalar.isFinite p.amount = true := by
  constructor
  · intro h
    have hamount := h.amount
    rw [positions_openPosition, List.forall_mem_append, List.forall_mem_singleton] at hamount
    exact ⟨⟨h.balance, hamount.1⟩, hamount.2⟩
  · rintro ⟨h, hp⟩
    refine ⟨h.balance, ?_⟩
    rw [positions_openPosition, List.forall_mem_append, List.forall_mem_singleton]
    exact ⟨h.amount, hp⟩

theorem FiniteHoldings.filter (h : l.FiniteHoldings) (kept : Position Extended → Bool) :
    FiniteHoldings { l with positions := l.positions.filter kept } :=
  ⟨h.balance, fun p hp => h.amount p (List.mem_filter.1 hp).1⟩

theorem FiniteHoldings.reducePosition {l' : Ledger Extended} {id : String} {x : Extended} {p : Position Extended}
    (h : l.FiniteHoldings) (hx : Scalar.isFinite x = true) (hreduce : l.reducePosition id (.real x) = .ok (p, l')) :
    l'.FiniteHoldings := by
  constructor
  · intro t
    rw [balance_reducePosition hreduce]
    exact h.balance t
  · intro r hr
    rcases mem_reducePosition hreduce hr with hmem | ⟨q, hmem, rfl⟩
    · exact h.amount r hmem
    · exact (Extended.isFinite_sub _ _).2 ⟨h.amount q hmem, hx⟩

theorem finiteHoldings_opened {capital : Extended} (h : Scalar.isFinite capital = true) (base : String) :
    (opened capital base).FiniteHoldings := by
  refine ⟨fun token => ?_, fun p hp => absurd hp List.not_mem_nil⟩
  unfold balance opened
  rw [List.lookup_cons]
  cases token == base with
  | true => exact h
  | false => rfl

end StrategyLab.Ledger
