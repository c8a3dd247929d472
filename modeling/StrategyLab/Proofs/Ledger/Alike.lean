/-
Accounts that differ in the order of their balances only. Every operation goes the same way on two of
them and keeps them alike; in exact arithmetic they are worth the same (`Alike.equity`).
-/
import StrategyLab.Proofs.Agree
import StrategyLab.Proofs.Ledger.Exact

namespace StrategyLab.Ledger

variable {α β : Type}

/-- The account with other balances. -/
def holding (l : Ledger α) (balances : List (String × α)) : Ledger α := { l with balances := balances }

/-- Accounts that differ in the order of their balances only. -/
structure Alike (l l' : Ledger α) : Prop where
  lookup : ∀ token, l.balances.lookup token = l'.balances.lookup token
  distinct : (l.balances.map (·.1)).Nodup
  distinct' : (l'.balances.map (·.1)).Nodup
  rest : l' = l.holding l'.balances

theorem Alike.refl {l : Ledger α} (h : (l.balances.map (·.1)).Nodup) : l.Alike l := ⟨fun _ => rfl, h, h, rfl⟩

theorem Alike.trans {a b c : Ledger α} (h : a.Alike b) (h' : b.Alike c) : a.Alike c := by
  refine ⟨fun token => (h.lookup token).trans (h'.lookup token), h.distinct, h'.distinct', ?_⟩
  rw [h'.rest, h.rest]
  rfl

theorem Alike.positions {l l' : Ledger α} (h : l.Alike l') : l.positions = l'.positions := by
  rw [h.rest]
  rfl

theorem Alike.trades {l l' : Ledger α} (h : l.Alike l') : l.trades = l'.trades := by
  rw [h.rest]
  rfl

/-! ## Operations that do not look at the balances -/

theorem Alike.of_kept {l l' k k' : Ledger α} (h : l.Alike l') (hk : k.balances = l.balances)
    (hk' : k' = k.holding l'.balances) : k.Alike k' := by
  have hbalances : k'.balances = l'.balances := by
    rw [hk']
    rfl
  refine ⟨fun token => ?_, ?_, ?_, ?_⟩
  · rw [hk, hbalances]
    exact h.lookup token
  · rw [hk]
    exact h.distinct
  · rw [hbalances]
    exact h.distinct'
  · rw [hbalances]
    exact hk'

theorem Alike.change {l l' : Ledger α} (h : l.Alike l') (f : Ledger α → Ledger α)
    (hf : ∀ l balances, f (l.holding balances) = (f l).holding balances) : (f l).Alike (f l') := by
  have hself : f l = (f l).holding l.balances := hf l l.balances
  have hkept : (f l).balances = l.balances := by
    rw [hself]
    rfl
  refine h.of_kept hkept ?_
  rw [← hf, ← h.rest]

theorem Alike.attempt {l l' : Ledger α} (h : l.Alike l') (f : Ledger α → Except (LedgerFault α) (β × Ledger α))
    (hf : ∀ l balances, f (l.holding balances) = (f l).map fun r => (r.1, r.2.holding balances)) :
    Agree Eq (fun r r' => r.1 = r'.1 ∧ r.2.Alike r'.2) (f l) (f l') := by
  have hsame : f l' = (f l).map fun r => (r.1, r.2.holding l'.balances) := by rw [← hf, ← h.rest]
  rw [hsame]
  cases hr : f l with
  | error cause => exact .error rfl
  | ok r =>
    have hself : f l = (f l).map fun r => (r.1, r.2.holding l.balances) := hf l l.balances
    rw [hr] at hself
    have hkept : r.2.balances = l.balances := congrArg (fun r => r.2.balances) (Except.ok.inj hself)
    exact .ok ⟨rfl, h.of_kept hkept rfl⟩

theorem Alike.openPosition {l l' : Ledger α} (h : l.Alike l') (p : NewPosition α) :
    (l.openPosition p).Alike (l'.openPosition p) :=
  h.change (fun l => l.openPosition p) fun _ _ => rfl

theorem Alike.recordTrade {l l' : Ledger α} (h : l.Alike l') (t : NewTrade α) :
    (l.recordTrade t).Alike (l'.recordTrade t) :=
  h.change (fun l => l.recordTrade t) fun _ _ => rfl

theorem Alike.nextOpened {l l' : Ledger α} (h : l.Alike l') (p : NewPosition α) : l.nextOpened p = l'.nextOpened p := by
  rw [h.rest]
  rfl

theorem Alike.closePosition {l l' : Ledger α} (h : l.Alike l') (id : String) :
    Agree Eq (fun r r' => r.1 = r'.1 ∧ r.2.Alike r'.2) (l.closePosition id) (l'.closePosition id) := by
  refine h.attempt (fun l => l.closePosition id) fun l balances => ?_
  unfold Ledger.closePosition position? holding
  cases l.positions.find? (·.id == id) <;> rfl

/-! ## Balances -/

theorem Alike.withBalance {l l' : Ledger α} (h : l.Alike l') (token : String) (x : α) :
    (l.withBalance token x).Alike (l'.withBalance token x) := by
  refine ⟨fun t => ?_, nodup_putBalance token x _ h.distinct, nodup_putBalance token x _ h.distinct', ?_⟩
  · show (putBalance token x l.balances).lookup t = (putBalance token x l'.balances).lookup t
    rw [lookup_putBalance, lookup_putBalance, h.lookup]
  · conv_lhs => rw [h.rest]
    rfl

variable [Scalar α]

theorem Alike.balance {l l' : Ledger α} (h : l.Alike l') (token : String) : l.balance token = l'.balance token := by
  unfold Ledger.balance
  rw [h.lookup]

theorem Alike.gain {l l' : Ledger α} (h : l.Alike l') (token : String) (x : α) :
    (l.gain token x).Alike (l'.gain token x) := by
  unfold Ledger.gain
  rw [h.balance]
  exact h.withBalance token _

theorem Alike.pay {l l' : Ledger α} (h : l.Alike l') (token : String) (x : α) :
    (l.pay token x).Alike (l'.pay token x) := by
  unfold Ledger.pay
  rw [h.balance]
  exact h.withBalance token _

/-! ## Positions -/

theorem Alike.reducePosition {l l' : Ledger α} (h : l.Alike l') (id : String) (amount : Num α) :
    Agree Eq (fun r r' => r.1 = r'.1 ∧ r.2.Alike r'.2) (l.reducePosition id amount) (l'.reducePosition id amount) := by
  refine h.attempt (fun l => l.reducePosition id amount) fun l balances => ?_
  unfold Ledger.reducePosition position? holding scalarOf
  cases l.positions.find? (·.id == id) with
  | none => rfl
  | some p =>
    dsimp only
    split
    · rfl
    · cases amount.value? <;> rfl

theorem Alike.accrueInterest {l l' : Ledger α} (h : l.Alike l') (days : Num α) :
    (l.accrueInterest days).2.Alike (l'.accrueInterest days).2 := by
  refine h.change (fun l => (l.accrueInterest days).2) fun l balances => ?_
  rw [accrueInterest_snd, accrueInterest_snd]
  split <;> rfl

/-! ## In exact arithmetic -/

/-- Two credits come to the same in either order. -/
theorem Alike.gain_comm [ExactArithmetic] {l l' : Ledger ℚ} (h : l.Alike l') (token token' : String) (x y : ℚ) :
    ((l.gain token x).gain token' y).Alike ((l'.gain token' y).gain token x) := by
  have hsame := (h.gain token x).gain token' y
  have hother := (h.gain token' y).gain token x
  refine ⟨fun t => ?_, hsame.distinct, hother.distinct', ?_⟩
  · have hlookup : ∀ (k : Ledger ℚ) (token : String) (x : ℚ), (k.gain token x).balances.lookup t =
        if t = token then some (k.balance token + x) else k.balances.lookup t := fun k token x => lookup_putBalance ..
    rw [hlookup, hlookup, hlookup, hlookup, balance_gain, balance_gain, h.balance, h.balance, h.lookup]
    by_cases heq : token' = token
    · subst heq
      simp only [if_true]
      split_ifs
      · rw [add_right_comm]
      · rfl
    · rw [if_neg heq, if_neg (Ne.symm heq)]
      split_ifs with h₁ h₂ h₂
      · exact absurd (h₁.symm.trans h₂) heq
      · rfl
      · rfl
      · rfl
  · conv_lhs => rw [h.rest]
    rfl

theorem Alike.equity [ExactArithmetic] {l l' : Ledger ℚ} (h : l.Alike l') {quotes quotes' : Quotes ℚ}
    (hquotes : ∀ token, quotes.lookup token = quotes'.lookup token) : l.equity quotes = l'.equity quotes' := by
  have hprices : quotes.priceOr0 = quotes'.priceOr0 := by
    funext token
    unfold Quotes.priceOr0
    rw [hquotes]
  have hbalances := perm_of_lookup h.distinct h.distinct' h.lookup
  rw [equity_eq_worth, equity_eq_worth, hprices, worth, worth, h.positions, (hbalances.map _).sum_eq]

end StrategyLab.Ledger
