/-
Accounts in exact arithmetic, and what one is worth when every token has a weight: balances and
asset positions count for it and debts against it. The worth is additive, so that an operation
changes it by what it moves times a weight. With prices for weights it is the equity
(`equity_eq_worth`), which interest changes by what the positions earn (`equity_accrueInterest`); with weight
one on a token and zero elsewhere it is what the account holds of that token (`net_eq_worth`).
-/
import StrategyLab.Ledger.Account
import StrategyLab.Proofs.Ledger.Balance
import StrategyLab.Proofs.Number.Exact

namespace StrategyLab

/-- What a position counts towards its token. -/
def Position.signed (p : Position ℚ) : ℚ := if p.isLiability then -p.amount else p.amount

/-- The simple interest on a position over a number of days, at its yearly rate. -/
def Position.earned (days : ℚ) (p : Position ℚ) : ℚ :=
  if 0 < days ∧ 0 < p.apy then p.amount * (p.apy / 365) * days else 0

/-- A position with the interest of a number of days. -/
def Position.accrued (days : ℚ) (p : Position ℚ) : Position ℚ := { p with amount := p.amount + p.earned days }

namespace Ledger

/-- The worth of an account at the weights of the tokens. -/
def worth (w : String → ℚ) (l : Ledger ℚ) : ℚ :=
  (l.balances.map fun b => b.2 * w b.1).sum + (l.positions.map fun p => p.signed * w p.asset).sum

/-! ## Sums -/

theorem sum_putBalance (w : String → ℚ) (token : String) (x : ℚ) : ∀ bs : List (String × ℚ),
    ((putBalance token x bs).map fun b => b.2 * w b.1).sum =
      (bs.map fun b => b.2 * w b.1).sum + (x - (bs.lookup token).getD 0.0) * w token
  | [] => by simp [putBalance]; norm_num
  | (u, y) :: rest => by
    unfold putBalance
    by_cases h : u = token
    · subst h
      simp only [if_pos, List.map_cons, List.sum_cons, List.lookup_cons, beq_self_eq_true, Option.getD_some]
      ring
    · have hne : (token == u) = false := beq_eq_false_iff_ne.2 fun he => h he.symm
      simp only [if_neg h, List.map_cons, List.sum_cons, List.lookup_cons, hne, sum_putBalance w token x rest]
      ring

/-- Taking a position out of a list takes its share out of a sum. -/
theorem sum_filter_number (f : Position ℚ → ℚ) {p : Position ℚ} : ∀ {ps : List (Position ℚ)},
    (ps.map (·.number)).Pairwise (· < ·) → p ∈ ps →
      ((ps.filter (·.number != p.number)).map f).sum = (ps.map f).sum - f p
  | q :: rest, hrise, hp => by
    rw [List.map_cons, List.pairwise_cons] at hrise
    rcases List.mem_cons.1 hp with rfl | hp
    · -- the numbers behind it are above its own, so that the rest of the list stays
      have hother : ∀ r ∈ rest, (r.number != p.number) = true := by
        intro r hr
        have hlt : p.number < r.number := hrise.1 r.number (List.mem_map_of_mem hr)
        simpa using hlt.ne'
      have hrest : rest.filter (·.number != p.number) = rest := List.filter_eq_self.2 hother
      rw [List.filter_cons_of_neg (by simp), hrest, List.map_cons, List.sum_cons]
      ring
    · have hlt := hrise.1 p.number (List.mem_map_of_mem hp)
      rw [List.filter_cons_of_pos (by simpa using hlt.ne), List.map_cons, List.sum_cons, List.map_cons,
        List.sum_cons, sum_filter_number f hrise.2 hp]
      ring

/-- Putting a position in the place of the one with its number exchanges their shares in a sum. -/
theorem sum_replace (f : Position ℚ → ℚ) {p q : Position ℚ} (hpq : q.number = p.number) :
    ∀ {ps : List (Position ℚ)}, (ps.map (·.number)).Pairwise (· < ·) → p ∈ ps →
      ((ps.map fun r => if r.number = q.number then q else r).map f).sum = (ps.map f).sum - f p + f q
  | r :: rest, hrise, hp => by
    rw [List.map_cons, List.pairwise_cons] at hrise
    rcases List.mem_cons.1 hp with rfl | hp
    · have hrest : rest.map (fun r => if r.number = q.number then q else r) = rest := by
        refine (List.map_congr_left fun r hr => if_neg ?_).trans (List.map_id rest)
        rw [hpq]
        exact (hrise.1 r.number (List.mem_map_of_mem hr)).ne'
      rw [List.map_cons, hrest, if_pos hpq.symm, List.map_cons, List.map_cons, List.sum_cons, List.sum_cons]
      ring
    · have hlt := hrise.1 p.number (List.mem_map_of_mem hp)
      rw [List.map_cons, if_neg (by rw [hpq]; exact hlt.ne), List.map_cons, List.map_cons, List.sum_cons,
        List.sum_cons, sum_replace f hpq hrise.2 hp]
      ring

theorem foldl_add_eq {β : Type} (f : β → ℚ) : ∀ (xs : List β) (start : ℚ),
    xs.foldl (fun sum x => sum + f x) start = start + (xs.map f).sum
  | [], start => by simp
  | x :: rest, start => by simp only [List.foldl_cons, foldl_add_eq f rest, List.map_cons, List.sum_cons]; ring

/-- The weight of one token alone. -/
def only (token t : String) : ℚ := if token = t then 1 else 0

theorem sum_only (token : String) : ∀ bs : List (String × ℚ), (bs.map (·.1)).Nodup →
    (bs.map fun b => b.2 * only token b.1).sum = (bs.lookup token).getD 0.0
  | [], _ => by simp; norm_num
  | (u, y) :: rest, h => by
    rw [List.map_cons, List.nodup_cons] at h
    rw [List.map_cons, List.sum_cons, List.lookup_cons, sum_only token rest h.2]
    by_cases hu : token = u
    · have hnone : rest.lookup token = none := List.lookup_eq_none_iff.2 fun b hb => by
        have hne : token ≠ b.1 := fun he => h.1 (List.mem_map.2 ⟨b, hb, (hu.symm.trans he).symm⟩)
        simpa using hne
      simp [only, ← hu, hnone]; norm_num
    · simp [only, hu, beq_eq_false_iff_ne.2 hu]

theorem sum_signed_only (token : String) : ∀ ps : List (Position ℚ),
    (ps.map fun p => p.signed * only token p.asset).sum =
      ((ps.filter fun p => p.asset = token ∧ p.kind ≠ .borrow).map (·.amount)).sum
        - ((ps.filter fun p => p.asset = token ∧ p.kind = .borrow).map (·.amount)).sum
  | [] => by simp
  | p :: rest => by
    rw [List.map_cons, List.sum_cons, sum_signed_only token rest]
    by_cases ha : p.asset = token
    · by_cases hk : p.kind = .borrow <;> simp [Position.signed, Position.isLiability, only, ha, hk] <;> ring
    · simp [only, ha, Ne.symm ha]

/-- Interest in a sum over signed positions: that of assets adds to it, and that of debts takes from it. -/
theorem sum_accrued (w : String → ℚ) (days : ℚ) : ∀ ps : List (Position ℚ),
    ((ps.map (·.accrued days)).map fun p => p.signed * w p.asset).sum = (ps.map fun p => p.signed * w p.asset).sum
      + ((ps.filter fun p => !p.isLiability).map fun p => w p.asset * p.earned days).sum
      - ((ps.filter fun p => p.isLiability).map fun p => w p.asset * p.earned days).sum
  | [] => by simp
  | p :: rest => by
    rw [List.map_cons, List.map_cons, List.sum_cons, sum_accrued w days rest, List.map_cons, List.sum_cons]
    have hkind : (p.accrued days).isLiability = p.isLiability := rfl
    unfold Position.signed
    rw [hkind]
    cases hp : p.isLiability with
    | false =>
      rw [List.filter_cons_of_pos (by simp [hp]), List.filter_cons_of_neg (by simp [hp]), List.map_cons, List.sum_cons]
      simp only [Bool.false_eq_true, if_false, Position.accrued]
      ring
    | true =>
      rw [List.filter_cons_of_neg (by simp [hp]), List.filter_cons_of_pos (by simp [hp]), List.map_cons, List.sum_cons]
      simp only [if_true, Position.accrued]
      ring

/-! ## Operations -/

theorem worth_openPosition (w : String → ℚ) (l : Ledger ℚ) (p : NewPosition ℚ) :
    (l.openPosition p).worth w = l.worth w + (l.nextOpened p).signed * w p.asset := by
  simp only [worth, positions_openPosition, List.map_append, List.sum_append, List.map_cons, List.map_nil,
    List.sum_cons, List.sum_nil, add_zero]
  rw [show (l.openPosition p).balances = l.balances from rfl, show (l.nextOpened p).asset = p.asset from rfl]
  ring

@[simp] theorem worth_recordTrade (w : String → ℚ) (l : Ledger ℚ) (t : NewTrade ℚ) :
    (l.recordTrade t).worth w = l.worth w := rfl

theorem worth_without (w : String → ℚ) {l : Ledger ℚ} (hwf : l.WF) {p : Position ℚ} (hp : p ∈ l.positions) :
    { l with positions := l.positions.filter (·.id != p.id) }.worth w =
      l.worth w - p.signed * w p.asset := by
  have hid : l.positions.filter (·.id != p.id) = l.positions.filter (·.number != p.number) := by
    refine List.filter_congr fun q _ => ?_
    rw [Bool.eq_iff_iff, bne_iff_ne, bne_iff_ne, not_iff_not]
    exact Position.idOf_injective.eq_iff
  simp only [worth, hid, sum_filter_number (fun p => p.signed * w p.asset) hwf.rising hp]
  ring

variable [ExactArithmetic]

/-- Every positive capital opens an account. -/
theorem start_exact (capital : Num ℚ) (base : String) (h : 0 < capital.value) :
    start capital base = .ok (opened capital.value base) := by
  unfold start scalarOf
  rw [if_neg fun hle => absurd ((Num.isAtMost_iff ..).1 hle) (by simpa using h), Num.value?_exact]
  rfl

/-- Every amount that is not below zero can be credited. -/
theorem credit_exact (l : Ledger ℚ) (token : String) {x : ℚ} (h : 0 ≤ x) :
    l.credit token (.real x) = .ok (l.gain token x) := by
  rw [credit_real, if_neg fun hlt => absurd ((Num.isLess_iff ..).1 hlt) (by simpa using h)]

/-- A position that counts for nothing once nothing is left of it may be closed instead. -/
theorem sum_replacePosition (f : Position ℚ → ℚ) {p q : Position ℚ} (hpq : q.number = p.number)
    (hgone : q.amount ≤ 0.0 → f q = 0) {ps : List (Position ℚ)} (hrise : (ps.map (·.number)).Pairwise (· < ·))
    (hp : p ∈ ps) : ((replacePosition q ps).map f).sum = (ps.map f).sum - f p + f q := by
  unfold replacePosition
  split_ifs with hnone
  · rw [hpq, sum_filter_number f hrise hp, hgone hnone, add_zero]
  · exact sum_replace f hpq hrise hp

theorem balance_gain_exact (l : Ledger ℚ) (token t : String) (x : ℚ) :
    (l.gain token x).balance t = l.balance t + if t = token then x else 0 := by
  rw [balance_gain]
  split_ifs with h
  · rw [h]
  · rw [add_zero]

theorem balance_pay_exact (l : Ledger ℚ) (token t : String) (x : ℚ) :
    (l.pay token x).balance t = l.balance t - if t = token then x else 0 := by
  rw [balance_pay]
  split_ifs with h
  · rw [h]
  · rw [sub_zero]

theorem worth_withBalance (w : String → ℚ) (l : Ledger ℚ) (token : String) (x : ℚ) :
    (l.withBalance token x).worth w = l.worth w + (x - l.balance token) * w token := by
  simp only [worth, withBalance, balance, sum_putBalance]
  ring

theorem worth_gain (w : String → ℚ) (l : Ledger ℚ) (token : String) (x : ℚ) :
    (l.gain token x).worth w = l.worth w + x * w token := by
  rw [gain, worth_withBalance]; ring

theorem worth_pay (w : String → ℚ) (l : Ledger ℚ) (token : String) (x : ℚ) :
    (l.pay token x).worth w = l.worth w - x * w token := by
  rw [pay, worth_withBalance]; ring

theorem worth_reducePosition (w : String → ℚ) {l l' : Ledger ℚ} (hwf : l.WF) {q p : Position ℚ} {x : ℚ}
    (hq : q ∈ l.positions) (h : l.reducePosition q.id (.real x) = .ok (p, l')) :
    l'.worth w = l.worth w - (if q.isLiability then -x else x) * w q.asset := by
  obtain ⟨q', x', hq', hx, hless, rfl, rfl⟩ := reducePosition_ok h
  obtain rfl : q = q' := Option.some.inj ((hwf.position?_id hq).symm.trans hq')
  obtain rfl : x = x' := Option.some.inj hx
  rw [Num.isLess_real, decide_eq_false_iff_not] at hless
  -- what was reduced to nothing counts for nothing, closed or not
  have hgone : q.amount - x ≤ 0.0 → Position.signed { q with amount := q.amount - x } * w q.asset = 0 := by
    intro hnone
    have hzero : q.amount - x = 0 := by norm_num at hnone; linarith
    simp [Position.signed, hzero]
  have hsum := sum_replacePosition (fun p => p.signed * w p.asset) (p := q)
    (q := { q with amount := q.amount - x }) rfl hgone hwf.rising hq
  have hsigned : Position.signed { q with amount := q.amount - x } = q.signed - if q.isLiability then -x else x := by
    unfold Position.signed Position.isLiability
    dsimp only
    split_ifs <;> ring
  unfold worth
  dsimp only
  rw [hsum, hsigned]
  ring

/-! ## Equity -/

/-- The equity is the worth at the prices. -/
theorem equity_eq_worth (l : Ledger ℚ) (quotes : Quotes ℚ) : l.equity quotes = l.worth quotes.priceOr0 := by
  -- both sums run over the same lists, with the sign of a debt on its value or on its amount
  have hsigned : ∀ p : Position ℚ, signedValue quotes p = p.signed * quotes.priceOr0 p.asset := by
    intro p
    unfold signedValue Position.signed
    dsimp only
    split_ifs <;> ring
  unfold equity worth
  simp only [foldl_add_eq, hsigned]
  norm_num

/-! ## Interest -/

/-- Interest is added to each position, and to nothing else. -/
theorem accrueInterest_exact (l : Ledger ℚ) (days : Num ℚ) :
    (l.accrueInterest days).2 = { l with positions := l.positions.map (·.accrued days.value) } := by
  rw [accrueInterest_snd]
  split_ifs with hdays
  · -- without a positive time nothing is earned
    have hle : ¬ 0 < days.value := by rw [Num.isAtMost_iff] at hdays; simpa using hdays
    have hsame : ∀ p ∈ l.positions, p.accrued days.value = p := fun p _ => by
      simp [Position.accrued, Position.earned, hle]
    rw [List.map_congr_left hsame, List.map_id']
  · have hpos : 0 < days.value := by rw [Num.isAtMost_iff] at hdays; simpa using hdays
    have hgrown : ∀ p ∈ l.positions, grown days.value p = p.accrued days.value := by
      intro p _
      unfold grown interest Position.accrued Position.earned
      by_cases hapy : 0 < p.apy
      · rw [if_neg (by norm_num; exact hapy), if_pos ⟨hpos, hapy⟩]
        norm_num
      · rw [if_pos (by norm_num; exact not_lt.1 hapy), if_neg (mt And.right hapy)]
        simp
    rw [List.map_congr_left hgrown]

/-- An accrual changes the equity by the interest at the prices of the assets, of asset positions upwards and
of debts downwards. -/
theorem equity_accrueInterest (l : Ledger ℚ) (days : Num ℚ) (quotes : Quotes ℚ) :
    (l.accrueInterest days).2.equity quotes = l.equity quotes
      + ((l.positions.filter fun p => !p.isLiability).map fun p => quotes.priceOr0 p.asset * p.earned days.value).sum
      - ((l.positions.filter fun p => p.isLiability).map fun p => quotes.priceOr0 p.asset * p.earned days.value).sum := by
  rw [equity_eq_worth, equity_eq_worth, accrueInterest_exact]
  unfold worth
  dsimp only
  rw [sum_accrued]
  ring

/-! ## Holdings of one token -/

/-- What an account holds of a token: the balance and the asset positions, less the debts. -/
def net (l : Ledger ℚ) (token : String) : ℚ :=
  l.balance token + ((l.positions.filter fun p => p.asset = token ∧ p.kind ≠ .borrow).map (·.amount)).sum
    - ((l.positions.filter fun p => p.asset = token ∧ p.kind = .borrow).map (·.amount)).sum

/-- What an account holds of a token is its worth at weight one on that token. -/
theorem net_eq_worth {l : Ledger ℚ} (hwf : l.WF) (token : String) : l.net token = l.worth (only token) := by
  rw [net, worth, sum_only token _ hwf.tokens, sum_signed_only, balance]
  ring

end Ledger

end StrategyLab
