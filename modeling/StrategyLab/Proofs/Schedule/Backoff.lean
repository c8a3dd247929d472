/-
The delays between attempts. Each is the smaller one of the doubled initial delay and the longest delay
(`RetryPolicy.delay_eq`), so that they never fall and never pass the longest one
(`RetryPolicy.pauses_ascending`, `RetryPolicy.pauses_bounded`). An initial delay that is no whole number
can be doubled only while scalars hold the power of two.
-/
import StrategyLab.Number.Double
import StrategyLab.Proofs.Number.Doubling
import StrategyLab.Schedule.Retry

namespace StrategyLab.RetryPolicy

variable {α : Type} [Scalar α]

/-! ## Delays -/

/-- The initial delay, doubled so many times. -/
def doubled (p : RetryPolicy α) (n : Nat) : Num α :=
  match p.initialDelay with
  | .whole m => .whole (m * 2 ^ n)
  | .real x => .real (x * Scalar.ofInt (2 ^ n))

/-- The delay after the first attempt and so many repetitions: no longer than the longest one. -/
def pause (p : RetryPolicy α) (n : Nat) : Num α :=
  if p.maxDelay.isLess (p.doubled n) then p.maxDelay else p.doubled n

/-- The delays before so many repetitions. -/
def pauses (p : RetryPolicy α) (count : Nat) : List (Num α) := (List.range count).map p.pause

/-- The initial delay can be doubled so many times: it is a whole number, or scalars hold the power of two. -/
def canDouble (p : RetryPolicy α) (n : Nat) : Bool :=
  match p.initialDelay with
  | .whole _ => true
  | .real _ => (Scalar.ofInt? (2 ^ n) : Option α).isSome

/-- A delay is the smaller of the doubled and the longest one, if the initial delay can be doubled. -/
theorem delay_eq (p : RetryPolicy α) (n : Nat) :
    Retry.delay p ((n + 1 : Nat) : Int) = if p.canDouble n then .ok (p.pause n) else .error .tooLarge := by
  have hpower : (Retry.powerOfTwo (((n + 1 : Nat) : Int) - 1) : Num α) = .whole (2 ^ n) := by
    have hexponent : ((n + 1 : Nat) : Int) - 1 = n := by omega
    unfold Retry.powerOfTwo
    rw [hexponent, if_pos (Int.natCast_nonneg n)]
    rfl
  unfold Retry.delay pause doubled canDouble
  rw [hpower]
  cases p.initialDelay with
  | whole m => rfl
  | real x =>
    have hproduct : Retry.product (.real x) (.whole (2 ^ n)) =
        (Value.realOfNum (.whole (2 ^ n)) >>= fun a => .ok (.real (x * a)) : Except (ValueFault α) (Num α)) := rfl
    dsimp only
    rw [hproduct]
    cases hheld : (Scalar.ofInt? (2 ^ n) : Option α) with
    | none =>
      have hread : (Value.realOfNum (.whole (2 ^ n)) : Except (ValueFault α) α) = .error .tooLarge := by
        unfold Value.realOfNum
        rw [show (Num.whole (2 ^ n) : Num α).value? = none from hheld]
      rw [hread]
      rfl
    | some a =>
      have hread : (Value.realOfNum (.whole (2 ^ n)) : Except (ValueFault α) α) = .ok a := by
        unfold Value.realOfNum
        rw [show (Num.whole (2 ^ n) : Num α).value? = some a from hheld]
      have hvalue : (Scalar.ofInt (2 ^ n) : α) = a := by
        unfold Scalar.ofInt
        rw [hheld]
      rw [hread, hvalue]
      rfl

section

variable (hα : Num.Doubling α) {p : RetryPolicy α} (hinitial : p.initialDelay.NonNegative)
  (hlongest : p.maxDelay.NonNegative)

include hα hinitial

theorem doubled_nonNegative {n : Nat} (hn : p.canDouble n = true) : (p.doubled n).NonNegative := by
  unfold doubled
  unfold canDouble at hn
  cases h : p.initialDelay with
  | whole m =>
    rw [h] at hinitial
    exact Num.whole_isAtMost.2 (mul_nonneg (Num.whole_isAtMost.1 hinitial) (by positivity))
  | real x =>
    rw [h] at hinitial hn
    obtain ⟨a, ha⟩ := Option.isSome_iff_exists.1 hn
    dsimp only
    unfold Scalar.ofInt
    rw [ha]
    exact hα.kept hinitial ha

theorem doubled_ascending {m n : Nat} (hmn : m ≤ n) (hm : p.canDouble m = true) (hn : p.canDouble n = true) :
    (p.doubled m).isAtMost (p.doubled n) = true := by
  unfold doubled
  unfold canDouble at hm hn
  cases h : p.initialDelay with
  | whole x =>
    rw [h] at hinitial
    refine Num.whole_isAtMost.2 (mul_le_mul_of_nonneg_left ?_ (Num.whole_isAtMost.1 hinitial))
    exact pow_le_pow_right₀ (by norm_num) hmn
  | real x =>
    rw [h] at hinitial hm hn
    obtain ⟨a, ha⟩ := Option.isSome_iff_exists.1 hm
    obtain ⟨b, hb⟩ := Option.isSome_iff_exists.1 hn
    dsimp only
    unfold Scalar.ofInt
    rw [ha, hb]
    exact hα.grows hinitial hmn ha hb

include hlongest

theorem pause_bounded {n : Nat} (hn : p.canDouble n = true) : (p.pause n).isAtMost p.maxDelay = true := by
  unfold pause
  split
  · exact hα.refl hlongest
  · rename_i hless
    exact hα.total hlongest (doubled_nonNegative hα hinitial hn) (Bool.eq_false_iff.2 hless)

theorem pause_ascending {m n : Nat} (hmn : m ≤ n) (hm : p.canDouble m = true) (hn : p.canDouble n = true) :
    (p.pause m).isAtMost (p.pause n) = true := by
  have hdoubled := doubled_ascending hα hinitial hmn hm hn
  by_cases hlater : p.maxDelay.isLess (p.doubled n) = true
  · have hpause : p.pause n = p.maxDelay := if_pos hlater
    rw [hpause]
    exact pause_bounded hα hinitial hlongest hm
  · have hpause : p.pause n = p.doubled n := if_neg hlater
    rw [hpause]
    unfold pause
    split
    · rename_i hless
      exact hα.trans (Num.isAtMost_of_isLess hless) hdoubled
    · exact hdoubled

/-- The delays never fall. -/
theorem pauses_ascending {count : Nat} (h : ∀ n < count, p.canDouble n = true) :
    (p.pauses count).Pairwise fun d d' => d.isAtMost d' = true := by
  refine List.pairwise_map.2 (List.pairwise_lt_range.imp_of_mem fun hm hn hmn => ?_)
  exact pause_ascending hα hinitial hlongest hmn.le (h _ (List.mem_range.1 hm)) (h _ (List.mem_range.1 hn))

/-- No delay passes the longest one. -/
theorem pauses_bounded {count : Nat} (h : ∀ n < count, p.canDouble n = true) :
    ∀ d ∈ p.pauses count, d.isAtMost p.maxDelay = true := by
  intro d hd
  obtain ⟨n, hn, rfl⟩ := List.mem_map.1 hd
  exact pause_bounded hα hinitial hlongest (h n (List.mem_range.1 hn))

end

/-- In exact arithmetic a delay is the smaller one of two numbers. -/
theorem pause_exact [ExactArithmetic] (p : RetryPolicy ℚ) (n : Nat) :
    (p.pause n).value = min (p.initialDelay.value * 2 ^ n) p.maxDelay.value := by
  have hdoubled : (p.doubled n).value = p.initialDelay.value * 2 ^ n := by
    unfold doubled
    cases p.initialDelay with
    | whole m => simp
    | real x =>
      show x * (((2 ^ n : Int)) : ℚ) = x * 2 ^ n
      push_cast
      rfl
  unfold pause
  split
  · rename_i hless
    rw [Num.isLess_iff, hdoubled] at hless
    exact (min_eq_right hless.le).symm
  · rename_i hless
    rw [Num.isLess_iff, hdoubled] at hless
    rw [hdoubled, min_eq_left (not_lt.1 hless)]

/-- Doubles hold the powers of two below the one with exponent 1024. -/
theorem canDouble_double {p : RetryPolicy Float} {x : Float} (h : p.initialDelay = .real x) (n : Nat) :
    p.canDouble n = true ↔ n < 1024 := by
  have hheld : p.canDouble n = (Double.ofInt? (2 ^ n)).isSome := by
    unfold canDouble
    rw [h]
    rfl
  have hlow : 2 ^ 1023 < Double.wholeLimit := by decide +kernel
  have hhigh : Double.wholeLimit ≤ 2 ^ 1024 := by decide +kernel
  have hpowers : ∀ {a b : Nat}, a ≤ b → 2 ^ a ≤ 2 ^ b := Nat.pow_le_pow_right two_pos
  have hsize : (2 ^ n : Int).natAbs = 2 ^ n := by simp [Int.natAbs_pow]
  rw [hheld]
  unfold Double.ofInt?
  rw [hsize]
  generalize Double.wholeLimit = limit at hlow hhigh
  by_cases hsmall : n < 1024
  · rw [if_pos ((hpowers (Nat.le_of_lt_succ hsmall)).trans_lt hlow)]
    exact iff_of_true rfl hsmall
  · rw [if_neg (not_lt.2 (hhigh.trans (hpowers (not_lt.1 hsmall))))]
    exact iff_of_false Bool.false_ne_true hsmall

end StrategyLab.RetryPolicy
