/-
The account that a run starts with: a capital, and holdings that are credited one after the other.
-/
import StrategyLab.Proofs.Block.Order
import StrategyLab.Proofs.Ledger.Exact
import StrategyLab.Simulation.Run

namespace StrategyLab.Simulation

section

variable {α : Type} [Scalar α]

omit [Scalar α] in
theorem liftM_ledger {β : Type} {x : Except (LedgerFault α) β} {a : β} :
    (liftM x : Except (Fault α) β) = .ok a ↔ x = .ok a := by
  cases x with
  | ok b => exact ⟨fun h => by cases h; rfl, fun h => by cases h; rfl⟩
  | error e => exact ⟨nofun, nofun⟩

/-- The account with one more holding. -/
def creditHolding (l : Ledger α) (holding : Key α × Value α) : Except (Fault α) (Ledger α) := do
  let x ← holding.2.toReal
  let next ← l.credit holding.1.shown (.real x)
  pure next

theorem openLedger_eq (capital : Num α) (base : String) (holdings : Object α) :
    openLedger capital base holdings = (do holdings.foldlM creditHolding (← Ledger.start capital base)) := rfl

theorem creditHoldings_ok {admits : Ledger.NewPosition α → Prop} :
    ∀ {holdings : Object α} {l l' : Ledger α}, holdings.foldlM creditHolding l = .ok l' →
      Ledger.Becomes admits l l' ∧ l'.trades = l.trades
  | [], l, l', h => by cases h; exact ⟨.refl _, rfl⟩
  | holding :: rest, l, l', h => by
    rw [List.foldlM_cons] at h
    obtain ⟨l₁, h₁, h⟩ := bind_ok h
    obtain ⟨x, -, h₁⟩ := bind_ok h₁
    rw [liftM_ledger] at h₁
    obtain ⟨hrest, htrades⟩ := creditHoldings_ok h
    obtain ⟨y, -, -, heq⟩ := Ledger.credit_ok h₁
    refine ⟨(Ledger.Operates.credit h₁).becomes.trans hrest, htrades.trans ?_⟩
    rw [heq]; rfl

/-- An account is opened by operations that record no trade. -/
theorem openLedger_ok {capital : Num α} {base : String} {holdings : Object α} {l : Ledger α}
    (h : openLedger capital base holdings = .ok l) (admits : Ledger.NewPosition α → Prop) :
    ∃ l₀, Ledger.start capital base = .ok l₀ ∧ Ledger.Becomes admits l₀ l ∧ l.trades = [] := by
  rw [openLedger_eq] at h
  obtain ⟨l₀, h₀, h⟩ := bind_ok h
  rw [liftM_ledger] at h₀
  obtain ⟨hcredits, htrades⟩ := creditHoldings_ok h
  obtain ⟨x, -, -, rfl⟩ := Ledger.start_ok h₀
  exact ⟨_, h₀, hcredits, htrades⟩

theorem openLedger_reachable {capital : Num α} {base : String} {holdings : Object α} {l : Ledger α}
    (h : openLedger capital base holdings = .ok l) : l.Reachable := by
  obtain ⟨l₀, h₀, hcredits, -⟩ := openLedger_ok h fun _ => True
  exact (Ledger.start_reachable h₀).becomes hcredits

end

/-! ## In exact arithmetic -/

section

variable [ExactArithmetic]

theorem creditHolding_exact (l : Ledger ℚ) {holding : Key ℚ × Value ℚ} {x : ℚ} (hx : holding.2.toReal = .ok x)
    (hnonneg : 0 ≤ x) : creditHolding l holding = .ok (l.gain holding.1.shown x) := by
  unfold creditHolding
  rw [hx]
  show (do let next ← l.credit holding.1.shown (.real x); pure next : Except (Fault ℚ) (Ledger ℚ)) = _
  rw [l.credit_exact _ hnonneg]
  rfl

theorem creditHoldings_exact : ∀ {holdings : Object ℚ} (l : Ledger ℚ),
    (∀ h ∈ holdings, ∃ x, h.2.toReal = .ok x ∧ 0 ≤ x) → ∃ l', holdings.foldlM creditHolding l = .ok l'
  | [], l, _ => ⟨l, rfl⟩
  | holding :: rest, l, hall => by
    obtain ⟨x, hx, hnonneg⟩ := hall holding (List.mem_cons_self ..)
    rw [List.foldlM_cons, creditHolding_exact l hx hnonneg]
    exact creditHoldings_exact _ fun h hh => hall h (List.mem_cons_of_mem _ hh)

/-- A positive capital and holdings that are numbers not below zero open an account. -/
theorem openLedger_exact {capital : Num ℚ} (base : String) {holdings : Object ℚ} (hcapital : 0 < capital.value)
    (hholdings : ∀ h ∈ holdings, ∃ x, h.2.toReal = .ok x ∧ 0 ≤ x) :
    ∃ l, openLedger capital base holdings = .ok l := by
  rw [openLedger_eq, Ledger.start_exact capital base hcapital]
  exact creditHoldings_exact _ hholdings

end

end StrategyLab.Simulation
