/-
What a window of a series shows. A slice around a range of time gives the price of the whole series
everywhere in the range (`sliceAround_faithful`). Thinned out, a window depends on its end: it is cut
before it is thinned out, so that of the period in which it ends only the samples up to the cut
count. Two windows give the same price at an instant, whatever the prices of the samples, exactly if
both read up to the same sample or the first of them reads a whole period that begins at the instant
or later (`priceIn_settled`).
-/
import Mathlib.Data.List.TakeWhile
import StrategyLab.Proofs.Price.Positive

namespace StrategyLab

namespace Series

variable {α : Type}

/-! ## Slices -/

theorem Ordered.priceAt_ok [Scalar α] {s : Series α} (hs : s.Ordered) (hne : 0 < s.size) (t : Instant) :
    ∃ price, s.priceAt t = .ok price := by
  rcases hs.priceAt_cases hne t with ⟨x, -, h⟩ | ⟨i, hi, -, -, h⟩ <;> exact ⟨_, h⟩

/-- A slice around a range of time is a part of the series that is never empty, and gives the price
of the whole series at every instant of the range. -/
theorem sliceAround_faithful [Scalar α] {s : Series α} (hs : s.Ordered) (hne : 0 < s.size)
    {start stop : Instant} (hle : start.count ≤ stop.count) :
    let low := s.firstAfter start.count - 1
    let high := min (s.firstFrom stop.count + 1) s.size
    low < high ∧ s.sliceAround start stop = s.extract low high ∧
      0 < (s.sliceAround start stop).size ∧ (s.sliceAround start stop).toList <:+: s.toList ∧
      ∀ t : Instant, start.count ≤ t.count → t.count ≤ stop.count →
        ∃ price, s.priceAt t = .ok price ∧ (s.sliceAround start stop).priceAt t = .ok price := by
  intro low high
  obtain ⟨heq, haround⟩ := sliceAround_eq hs hne hle
  refine ⟨(haround _ le_rfl hle).lt, heq, (sliceAround_ordered hs hne hle).2, ?_, fun t h₁ h₂ => ?_⟩
  · rw [heq, Array.toList_extract]
    exact (List.take_prefix _ _).isInfix.trans (List.drop_suffix _ _).isInfix
  · obtain ⟨price, hprice⟩ := hs.priceAt_ok hne t
    exact ⟨price, hprice, (priceAt_sliceAround hs hne hle h₁ h₂).trans hprice⟩

section

local instance openPartsOfSlices : ExactArithmetic := default

def fourSamples : Series ℚ := #[⟨.known 0, 100⟩, ⟨.known 10, 200⟩, ⟨.known 20, 400⟩, ⟨.known 30, 800⟩]

theorem fourSamples_ordered : fourSamples.Ordered :=
  ⟨by simp [fourSamples], by decide +kernel⟩

/-- A range between two samples is read from these two. -/
theorem fourSamples_sliced :
    fourSamples.sliceAround (.known 12) (.known 15) = fourSamples.extract 1 3 ∧
      ∀ t : Instant, 12 ≤ t.count → t.count ≤ 15 → ∃ price, fourSamples.priceAt t = .ok price ∧
        (fourSamples.sliceAround (.known 12) (.known 15)).priceAt t = .ok price := by
  obtain ⟨-, heq, -, -, hprice⟩ := sliceAround_faithful fourSamples_ordered (by decide)
    (show Instant.count (.known 12) ≤ Instant.count (.known 15) by decide)
  refine ⟨heq.trans ?_, hprice⟩
  rw [show firstAfter fourSamples _ = 2 by decide +kernel, show firstFrom fourSamples _ = 2 by decide +kernel]
  rfl

end

/-! ## Thinning out a part -/

/-- Of the samples before one, those that are kept stay when the samples from that one on are added,
but for one at the same time. -/
theorem keepLast_append {ys : List (Sample α)} {y : Sample α} : ∀ {xs : List (Sample α)},
    InTime (xs ++ y :: ys) →
      keepLast (xs ++ y :: ys) = (keepLast xs).takeWhile (fun a => a.time ≠ y.time) ++ keepLast (y :: ys)
  | [], _ => rfl
  | [a], _ => by
    show keepLast (a :: y :: ys) = [a].takeWhile (fun a => a.time ≠ y.time) ++ keepLast (y :: ys)
    rw [keepLast]
    by_cases h : a.time = y.time <;> simp [h]
  | a :: b :: rest, ⟨hknown, hle⟩ => by
    have hrest : InTime ((b :: rest) ++ y :: ys) := ⟨fun x hx => hknown x (List.mem_cons_of_mem a hx), hle.tail⟩
    have ih := keepLast_append hrest
    show keepLast (a :: b :: (rest ++ y :: ys)) = _
    rw [keepLast, keepLast]
    split
    · exact ih
    rename_i hab
    -- a sample before an earlier one is not at the time of the added ones either
    have hay : a.time ≠ y.time := fun heq => by
      obtain ⟨na, ha⟩ := hknown a (List.mem_cons_self ..)
      obtain ⟨nb, hb⟩ := hknown b (by simp)
      obtain ⟨hfirst, hrest⟩ := List.pairwise_cons.1 hle
      have h₁ := hfirst b (by simp)
      have h₂ := (List.pairwise_cons.1 hrest).1 y (by simp)
      rw [← heq] at h₂
      rw [ha, hb] at hab h₁ h₂
      exact hab (congrArg Instant.known (le_antisymm h₁ h₂))
    show a :: keepLast (b :: rest ++ y :: ys) = _
    rw [ih, List.takeWhile_cons_of_pos (by simpa using hay), List.cons_append]

/-- The first of the samples that are kept is at the time of the first one. -/
theorem keepLast_cons (a : Sample α) : ∀ rest : List (Sample α),
    ∃ b kept, keepLast (a :: rest) = b :: kept ∧ b.time = a.time
  | [] => ⟨a, [], rfl, rfl⟩
  | b :: rest => by
    rw [keepLast]
    split
    · rename_i h
      obtain ⟨c, kept, heq, htime⟩ := keepLast_cons b rest
      exact ⟨c, kept, heq, htime.trans h.symm⟩
    · exact ⟨a, _, rfl, rfl⟩

/-- At the time of every sample one is kept. -/
theorem exists_mem_keepLast : ∀ {xs : List (Sample α)} {x : Sample α}, x ∈ xs →
    ∃ y ∈ keepLast xs, y.time = x.time
  | a :: rest, x, h => by
    rcases List.mem_cons.1 h with rfl | h
    · obtain ⟨b, kept, heq, htime⟩ := keepLast_cons x rest
      exact ⟨b, heq ▸ List.mem_cons_self .., htime⟩
    · obtain ⟨y, hy, htime⟩ := exists_mem_keepLast h
      refine ⟨y, ?_, htime⟩
      cases rest with
      | nil => cases h
      | cons b rest =>
        rw [keepLast]
        split
        · exact hy
        · exact List.mem_cons_of_mem a hy

/-- The last sample of each period, at the beginning of the period. -/
def periods (g : Granularity) (xs : List (Sample α)) : List (Sample α) := keepLast (xs.map (toPeriod g))

/-- The beginning of the period of a sample. -/
def beginning (g : Granularity) (x : Sample α) : Int := (toPeriod g x).time.count

theorem beginning_eq (g : Granularity) {x : Sample α} {ns : Int} (h : x.time = .known ns) :
    beginning g x = ns.fdiv g.period * g.period := by
  unfold beginning; rw [toPeriod_count g h]; rfl

/-- No sample comes before its period begins. -/
theorem beginning_le (g : Granularity) {x : Sample α} {ns : Int} (h : x.time = .known ns) :
    beginning g x ≤ x.time.count := by
  rw [beginning_eq g h, h, Int.fdiv_eq_ediv_of_nonneg _ (period_pos g).le]
  exact Int.ediv_mul_le _ (period_pos g).ne'

theorem periods_ordered (g : Granularity) {xs : List (Sample α)} (h : InTime xs) :
    Ordered (periods g xs).toArray :=
  keepLast_ordered (inTime_toPeriod g h)

/-- Where a list is cut, the periods of its first part stay, but for the one that goes on. -/
theorem periods_append (g : Granularity) {xs ys : List (Sample α)} {y : Sample α} (h : InTime (xs ++ y :: ys)) :
    periods g (xs ++ y :: ys) =
      (periods g xs).takeWhile (fun a => a.time ≠ (toPeriod g y).time) ++ periods g (y :: ys) := by
  have hmoved := inTime_toPeriod g h
  rw [List.map_append, List.map_cons] at hmoved
  unfold periods
  rw [List.map_append, List.map_cons]
  exact keepLast_append hmoved

/-- Of two samples in the order of time, the first one is in the period of the second one if its own period
does not begin before that. -/
theorem time_toPeriod_of_le (g : Granularity) {xs ys : List (Sample α)} {x y : Sample α} (h : InTime (xs ++ y :: ys))
    (hx : x ∈ xs) (hback : beginning g y ≤ beginning g x) : (toPeriod g x).time = (toPeriod g y).time := by
  obtain ⟨hknown, hle⟩ := inTime_toPeriod g h
  rw [List.map_append, List.map_cons] at hknown hle
  obtain ⟨nx, hnx⟩ := hknown (toPeriod g x) (List.mem_append_left _ (List.mem_map_of_mem hx))
  obtain ⟨ny, hny⟩ := hknown (toPeriod g y) (List.mem_append_right _ List.mem_cons_self)
  have hle := (List.pairwise_append.1 hle).2.2 (toPeriod g x) (List.mem_map_of_mem hx) (toPeriod g y) List.mem_cons_self
  unfold beginning at hback
  rw [hnx, hny] at hle hback ⊢
  exact congrArg Instant.known (le_antisymm hle hback)

theorem mem_periods {g : Granularity} {xs : List (Sample α)} {a : Sample α} (h : a ∈ periods g xs) :
    ∃ x ∈ xs, a = toPeriod g x := by
  obtain ⟨x, hx, rfl⟩ := List.mem_map.1 ((keepLast_sublist _).subset h)
  exact ⟨x, hx, rfl⟩

theorem periods_pos (g : Granularity) {xs : List (Sample α)} (h : xs ≠ []) : 0 < (periods g xs).toArray.size := by
  obtain ⟨x, hx⟩ := List.exists_mem_of_ne_nil xs h
  obtain ⟨z, hz, -⟩ := exists_mem_keepLast (List.mem_map_of_mem (f := toPeriod g) hx)
  exact List.length_pos_of_mem hz

/-- Of periods in order those before an instant come first. -/
theorem mem_takeWhile_of_lt {t : Instant} : ∀ {xs : List (Sample α)} {x : Sample α},
    xs.Pairwise (fun a b => a.time.count < b.time.count) → x ∈ xs → x.time.count < t.count →
      x ∈ xs.takeWhile fun a => a.time ≠ t
  | a :: rest, x, hrising, hx, hlt => by
    obtain ⟨hfirst, hrest⟩ := List.pairwise_cons.1 hrising
    have ha : a.time.count < t.count := by
      rcases List.mem_cons.1 hx with rfl | hx
      · exact hlt
      · exact (hfirst x hx).trans hlt
    have hne : a.time ≠ t := fun heq => ha.ne (congrArg Instant.count heq)
    rw [List.takeWhile_cons_of_pos (by simpa using hne)]
    rcases List.mem_cons.1 hx with rfl | hx
    · exact List.mem_cons_self ..
    · exact List.mem_cons_of_mem a (mem_takeWhile_of_lt hrest hx hlt)

/-! ## Prices of the periods of a part -/

section

variable [Scalar α]

/-- Up to its last sample the first part of a series gives the price of the whole. -/
theorem priceAt_append_left {xs ys : List (Sample α)} (h : Ordered (xs ++ ys).toArray) {t : Instant}
    (ht : ∃ x ∈ xs, t.count ≤ x.time.count) : priceAt (xs ++ ys).toArray t = priceAt xs.toArray t := by
  obtain ⟨x, hx, ht⟩ := ht
  obtain ⟨i, hi, rfl⟩ := List.mem_iff_getElem.1 hx
  have hpart : xs.toArray = (xs ++ ys).toArray.extract 0 xs.length := by simp
  have hlast : t.count ≤ countAt (xs ++ ys).toArray (xs.length - 1) := by
    refine le_trans ?_ (h.countAt_le (show i ≤ xs.length - 1 by omega) (by simp; omega))
    rw [countAt_eq (by simp; omega)]
    simpa [List.getElem_append_left hi] using ht
  rw [hpart]
  exact (priceAt_extract h ⟨by omega, by simp, .inl rfl, .inr hlast⟩).symm

/-- From its first sample on the last part of a series gives the price of the whole. -/
theorem priceAt_append_right {xs ys : List (Sample α)} {y : Sample α} (h : Ordered (xs ++ y :: ys).toArray)
    {t : Instant} (ht : xs = [] ∨ y.time.count ≤ t.count) :
    priceAt (xs ++ y :: ys).toArray t = priceAt (y :: ys).toArray t := by
  have hpart : (y :: ys).toArray = (xs ++ y :: ys).toArray.extract xs.length (xs ++ y :: ys).length := by simp
  have hfirst : xs.length = 0 ∨ countAt (xs ++ y :: ys).toArray xs.length ≤ t.count := by
    refine ht.imp List.length_eq_zero_iff.2 fun ht => ?_
    rw [countAt_eq (by simp)]
    simpa using ht
  rw [hpart]
  exact (priceAt_extract h ⟨by simp, by simp, hfirst, .inl (by simp)⟩).symm

/-- Where a part begins makes no difference from its first sample on. -/
theorem priceAt_periods_right (g : Granularity) {xs ys : List (Sample α)} {y : Sample α}
    (h : InTime (xs ++ y :: ys)) {t : Instant} (ht : xs = [] ∨ y.time.count ≤ t.count) :
    priceAt (periods g (xs ++ y :: ys)).toArray t = priceAt (periods g (y :: ys)).toArray t := by
  have hordered := periods_ordered g h
  obtain ⟨ns, hns⟩ := h.1 y (by simp)
  obtain ⟨z, kept, hz, htime⟩ := keepLast_cons (toPeriod g y) (ys.map (toPeriod g))
  have hright : periods g (y :: ys) = z :: kept := hz
  rw [periods_append g h, hright] at hordered ⊢
  refine priceAt_append_right hordered (ht.imp (fun hnil => by rw [hnil]; rfl) fun ht => ?_)
  rw [htime]
  exact (beginning_le g hns).trans ht

/-- Where a part ends makes no difference up to the last period that is over by then. -/
theorem priceAt_periods_left (g : Granularity) {xs ys : List (Sample α)} {y : Sample α}
    (h : InTime (xs ++ y :: ys)) {t : Instant}
    (ht : ∃ x ∈ xs, t.count ≤ beginning g x ∧ beginning g x < beginning g y) :
    priceAt (periods g (xs ++ y :: ys)).toArray t = priceAt (periods g xs).toArray t := by
  have hleft : InTime xs :=
    ⟨fun x hx => h.1 x (List.mem_append_left _ hx), (List.pairwise_append.1 h.2).1⟩
  have hordered := periods_ordered g h
  have hordered' := periods_ordered g hleft
  rw [periods_append g h] at hordered ⊢
  generalize hwhole : (periods g xs).takeWhile (fun a => a.time ≠ (toPeriod g y).time) = whole at hordered ⊢
  obtain ⟨rest, hrest⟩ : whole <+: periods g xs := hwhole ▸ List.takeWhile_prefix _
  -- the period of the sample is among those that the first part has as a whole
  obtain ⟨x, hx, htx, hxy⟩ := ht
  obtain ⟨a, ha, htime⟩ := exists_mem_keepLast (List.mem_map_of_mem (f := toPeriod g) hx)
  have hmem : ∃ a ∈ whole, t.count ≤ a.time.count := by
    refine ⟨a, ?_, by rw [htime]; exact htx⟩
    rw [← hwhole]
    exact mem_takeWhile_of_lt hordered'.rising ha (by rw [htime]; exact hxy)
  rw [← hrest] at hordered' ⊢
  rw [priceAt_append_left hordered hmem, priceAt_append_left hordered' hmem]

end

/-! ## Windows -/

/-- The position of the last sample that a window with a certain end reads: the first one that is not
before the end, or else the last of all. -/
def lastRead (s : Series α) (stop : Instant) : Nat := min (s.firstFrom stop.count) (s.size - 1)

/-- The beginning of the period of the sample at a position. -/
def beginningAt (s : Series α) (g : Granularity) (i : Nat) : Int := (s.countAt i).fdiv g.period * g.period

/-- What two windows with certain ends show at an instant does not depend on the ends: both read up
to the same sample, or the first of them reads a period that begins at the instant or later to its
last sample. -/
def Settled (s : Series α) (g : Granularity) (stop stop' t : Instant) : Prop :=
  s.lastRead stop = s.lastRead stop' ∨
    ∃ i ≤ min (s.lastRead stop) (s.lastRead stop'), t.count ≤ s.beginningAt g i ∧
      s.beginningAt g i < s.beginningAt g (min (s.lastRead stop) (s.lastRead stop') + 1)

theorem Settled.symm {s : Series α} {g : Granularity} {stop stop' t : Instant} (h : s.Settled g stop stop' t) :
    s.Settled g stop' stop t := by
  unfold Settled at *
  rw [min_comm]
  exact h.imp Eq.symm id

theorem lastRead_lt {s : Series α} (hne : 0 < s.size) (stop : Instant) : s.lastRead stop < s.size := by
  unfold lastRead; omega

theorem Ordered.beginningAt_eq {s : Series α} (hs : s.Ordered) (g : Granularity) {i : Nat} (hi : i < s.size) :
    s.beginningAt g i = beginning g s[i] := by
  obtain ⟨ns, hns⟩ := hs.known s[i] (Array.getElem_mem hi)
  rw [beginning_eq g hns, beginningAt, countAt_eq hi, hns]
  rfl

/-- The first samples of a series, thinned out. -/
def thinnedTo (s : Series α) (g : Granularity) (n : Nat) : Series α := (periods g (s.toList.take n)).toArray

theorem Ordered.inTime_take {s : Series α} (hs : s.Ordered) (n : Nat) : InTime (s.toList.take n) :=
  ⟨fun x hx => hs.inTime.1 x (List.mem_of_mem_take hx), hs.inTime.2.sublist (List.take_sublist _ _)⟩

/-- A list, cut at one of its members. -/
theorem take_eq_append {β : Type} {xs : List β} {i n : Nat} (hi : i < xs.length) (hn : i < n) :
    ∃ ys, xs.take n = xs.take i ++ xs[i] :: ys := by
  refine ⟨((xs.take n).drop (i + 1)), ?_⟩
  have hcut := List.take_append_drop i (xs.take n)
  have hin : i < (xs.take n).length := by rw [List.length_take]; omega
  rw [List.take_take, Nat.min_eq_left hn.le, List.drop_eq_getElem_cons hin, List.getElem_take] at hcut
  exact hcut.symm

section

variable [Scalar α] {s : Series α}

/-- A thinned window shows the same as all samples up to its last one, thinned out. -/
theorem priceAt_thinned_window (hs : s.Ordered) (hne : 0 < s.size) (g : Granularity) {start stop t : Instant}
    (hle : start.count ≤ stop.count) (h₁ : start.count ≤ t.count) (h₂ : t.count ≤ stop.count) :
    priceAt ((s.sliceAround start stop).resample g) t = priceAt (s.thinnedTo g (s.lastRead stop + 1)) t := by
  obtain ⟨heq, haround⟩ := sliceAround_eq hs hne hle
  obtain ⟨hlt, -, hleft, -⟩ := haround _ h₁ h₂
  have hhigh : min (s.firstFrom stop.count + 1) s.size = s.lastRead stop + 1 := by unfold lastRead; omega
  rw [heq, (hs.extract _ _).resample_eq, hhigh]
  rw [hhigh] at hlt
  generalize s.firstAfter start.count - 1 = low at hlt hleft ⊢
  have hlow : low < s.toList.length := by
    have := lastRead_lt hne stop
    simp only [Array.length_toList]
    omega
  obtain ⟨ys, hys⟩ := take_eq_append hlow hlt
  have hpart : (s.extract low (s.lastRead stop + 1)).toList = s.toList[low] :: ys := by
    rw [Array.toList_extract, List.extract_eq_take_drop, ← List.drop_take, hys]
    exact List.drop_left' (List.length_take_of_le hlow.le)
  have hintime := hs.inTime_take (s.lastRead stop + 1)
  unfold thinnedTo
  rw [hys] at hintime ⊢
  rw [hpart]
  refine (priceAt_periods_right g hintime (hleft.imp (fun hzero => by rw [hzero]; rfl) fun hcount => ?_)).symm
  rwa [countAt_eq (by simpa using hlow)] at hcount

/-- Windows that are settled at an instant show the same there. -/
theorem priceAt_thinnedTo_of_settled (hs : s.Ordered) (hne : 0 < s.size) (g : Granularity)
    {stop stop' t : Instant} (h : s.Settled g stop stop' t) :
    priceAt (s.thinnedTo g (s.lastRead stop + 1)) t = priceAt (s.thinnedTo g (s.lastRead stop' + 1)) t := by
  wlog hle : s.lastRead stop ≤ s.lastRead stop' with hsymm
  · exact (hsymm hs hne g h.symm (not_le.1 hle).le).symm
  rcases h with heq | ⟨i, hi, hti, hlt⟩
  · rw [heq]
  rw [min_eq_left hle] at hi hlt
  rcases hle.lt_or_eq with hlater | heq
  swap
  · rw [heq]
  -- the later window goes on with the sample after the last one of the first window
  have hnext : s.lastRead stop + 1 < s.size := lt_of_le_of_lt hlater (lastRead_lt hne stop')
  have hcut : s.lastRead stop + 1 < s.toList.length := Array.length_toList ▸ hnext
  obtain ⟨ys, hys⟩ := take_eq_append hcut (Nat.succ_lt_succ hlater)
  have hintime := hs.inTime_take (s.lastRead stop' + 1)
  unfold thinnedTo
  rw [hys] at hintime ⊢
  refine (priceAt_periods_left g hintime ⟨s[i], ?_, ?_, ?_⟩).symm
  · rw [List.mem_take_iff_getElem]
    exact ⟨i, by simp; omega, by simp⟩
  · rwa [← hs.beginningAt_eq g (by omega)]
  · rw [hs.beginningAt_eq g (by omega), hs.beginningAt_eq g hnext] at hlt
    simpa using hlt

end

/-! ## Windows that are not settled -/

/-- Between two samples the price lies on the line. -/
theorem priceAt_pair [Scalar α] {x y : Sample α} (h : Ordered #[x, y]) {t : Instant}
    (hx : x.time.count < t.count) (hy : t.count < y.time.count) :
    priceAt #[x, y] t = .ok (interpolate x y t.count) := by
  have hone : firstFrom #[x, y] t.count = 1 := by
    refine (h.firstFrom_splits t.count).unique ⟨by simp, fun i hi => ?_, fun i hi hsize => ?_⟩
    · obtain rfl : i = 0 := by omega
      exact hx
    · obtain rfl : i = 1 := by simp at hsize; omega
      exact not_lt.2 hy.le
  unfold priceAt
  dsimp only
  rw [hone]
  show (if y.time.count = t.count then _ else _) = _
  rw [if_neg hy.ne']
  rfl

/-- Differences in the range of 64 bits are not lost. -/
theorem difference_ne_zero {a b : Int} (hlo : 0 < a - b) (hhi : a - b < 2 ^ 64) : difference a b ≠ 0 := by
  unfold difference
  intro hzero
  have hdvd := Int.dvd_of_bmod_eq_zero hzero
  have hle := Int.le_of_dvd hlo hdvd
  exact absurd hle (not_le.2 (by simpa using hhi))

section

variable [ExactArithmetic]

/-- Equal prices make no line rise. -/
theorem priceAt_const {s : Series ℚ} (hs : s.Ordered) (hne : 0 < s.size) {c : ℚ} (h : ∀ x ∈ s, x.price = c)
    (t : Instant) : s.priceAt t = .ok c := by
  rcases hs.priceAt_cases hne t with ⟨x, hx, heq⟩ | ⟨i, hi, -, -, heq⟩
  · rw [heq, h x hx]
  · rw [heq]
    unfold interpolate
    rw [h s[i] (Array.getElem_mem _), h s[i + 1] (Array.getElem_mem _)]
    exact congrArg Except.ok (by show c + (c - c) * _ = c; rw [sub_self, zero_mul, add_zero])

/-- On a line between two prices none but its beginning has the price of the beginning. -/
theorem interpolate_ne {x y : Sample ℚ} {target : Int} (hprice : x.price ≠ y.price)
    (hlo : x.time.count < target) (hhi : target < y.time.count)
    (hnear : y.time.count - x.time.count < 2 ^ 64) : interpolate x y target ≠ x.price := by
  have hpart : ((difference target x.time.count : Int) : ℚ) ≠ 0 :=
    Int.cast_ne_zero.2 (difference_ne_zero (by omega) (by omega))
  have hwidth : ((difference y.time.count x.time.count : Int) : ℚ) ≠ 0 :=
    Int.cast_ne_zero.2 (difference_ne_zero (by omega) hnear)
  show x.price + (y.price - x.price) * (((difference target x.time.count : Int) : ℚ) /
    ((difference y.time.count x.time.count : Int) : ℚ)) ≠ x.price
  rw [Ne, add_eq_left]
  exact mul_ne_zero (sub_ne_zero.2 hprice.symm) (div_ne_zero hpart hwidth)

/-- After all samples of one price, a series that goes on with another price has left the first one. -/
theorem priceAt_append_ne {xs ys : List (Sample ℚ)} (h : Ordered (xs ++ ys).toArray) (hne : ys ≠ []) {t : Instant}
    (hbefore : ∀ x ∈ xs, x.time.count < t.count) {a b : ℚ} (hab : a ≠ b) (hxs : ∀ x ∈ xs, x.price = a)
    (hys : ∀ y ∈ ys, y.price = b) (hnear : ∀ x ∈ xs, ∀ y ∈ ys, y.time.count - x.time.count < 2 ^ 64) :
    priceAt (xs ++ ys).toArray t ≠ .ok a := by
  obtain ⟨y, rest, rfl⟩ := List.exists_cons_of_ne_nil hne
  have hlast : Ordered (y :: rest).toArray := by simpa using h.extract xs.length (xs ++ y :: rest).length
  have hconst : priceAt (y :: rest).toArray t = .ok b :=
    priceAt_const hlast (by simp) (fun z hz => hys z (List.mem_toArray.1 hz)) t
  rcases List.eq_nil_or_concat xs with rfl | ⟨init, x, rfl⟩
  · rw [List.nil_append, hconst]
    exact fun heq => hab (Except.ok.inj heq).symm
  have hx : x ∈ init.concat x := by simp
  rcases le_or_gt y.time.count t.count with hle | hlt
  · rw [priceAt_append_right h (.inr hle), hconst]
    exact fun heq => hab (Except.ok.inj heq).symm
  · -- between the last of the one price and the first of the other
    have hsplit : init.concat x ++ y :: rest = init ++ x :: ([y] ++ rest) := by simp
    rw [hsplit] at h ⊢
    have hpair : Ordered (([x, y] : List (Sample ℚ)) ++ rest).toArray := by
      simpa using h.extract init.length (init ++ x :: ([y] ++ rest)).length
    rw [priceAt_append_right h (.inr (hbefore x hx).le)]
    show priceAt (([x, y] : List (Sample ℚ)) ++ rest).toArray t ≠ .ok a
    rw [priceAt_append_left hpair ⟨y, by simp, hlt.le⟩,
      priceAt_pair (by simpa using hpair.extract 0 2) (hbefore x hx) hlt, ← hxs x hx]
    refine fun heq => interpolate_ne ?_ (hbefore x hx) hlt (hnear x hx y (List.mem_cons_self ..)) (Except.ok.inj heq)
    rw [hxs x hx, hys y (List.mem_cons_self ..)]
    exact hab

/-- Where no period that is over begins at an instant or later, it matters whether a part ends or
goes on with another price. -/
theorem priceAt_periods_ne (g : Granularity) {xs ys : List (Sample ℚ)} {y : Sample ℚ}
    (h : InTime (xs ++ y :: ys)) (hne : xs ≠ []) {t : Instant}
    (hlate : ∀ x ∈ xs, t.count ≤ beginning g x → beginning g y ≤ beginning g x) {a b : ℚ} (hab : a ≠ b)
    (hxs : ∀ x ∈ xs, x.price = a) (hys : ∀ z ∈ y :: ys, z.price = b)
    (hnear : ∀ x ∈ xs, ∀ z ∈ y :: ys, beginning g z - beginning g x < 2 ^ 64) :
    priceAt (periods g xs).toArray t ≠ priceAt (periods g (xs ++ y :: ys)).toArray t := by
  have hleft : InTime xs :=
    ⟨fun x hx => h.1 x (List.mem_append_left _ hx), (List.pairwise_append.1 h.2).1⟩
  have hordered := periods_ordered g h
  have hone : priceAt (periods g xs).toArray t = .ok a := by
    refine priceAt_const (periods_ordered g hleft) (periods_pos g hne) (fun z hz => ?_) t
    obtain ⟨x, hx, rfl⟩ := mem_periods (List.mem_toArray.1 hz)
    rw [price_toPeriod, hxs x hx]
  rw [hone, periods_append g h] at *
  have hkept : ∀ z ∈ (periods g xs).takeWhile (fun a => a.time ≠ (toPeriod g y).time),
      z.time ≠ (toPeriod g y).time ∧ ∃ x ∈ xs, z = toPeriod g x := fun z hz =>
    ⟨by simpa using List.mem_takeWhile_imp hz, mem_periods ((List.takeWhile_prefix _).subset hz)⟩
  refine (priceAt_append_ne hordered ?_ (fun z hz => ?_) hab (fun z hz => ?_) (fun z hz => ?_)
    fun z hz w hw => ?_).symm
  · exact List.ne_nil_of_length_pos (periods_pos g (List.cons_ne_nil y ys))
  · -- what is kept of the first part begins before the next period, so before the instant
    obtain ⟨htime, x, hx, rfl⟩ := hkept z hz
    by_contra hge
    exact htime (time_toPeriod_of_le g h hx (hlate x hx (not_lt.1 hge)))
  · obtain ⟨-, x, hx, rfl⟩ := hkept z hz
    rw [price_toPeriod, hxs x hx]
  · obtain ⟨x, hx, rfl⟩ := mem_periods hz
    rw [price_toPeriod, hys x hx]
  · obtain ⟨-, x, hx, rfl⟩ := hkept z hz
    obtain ⟨v, hv, rfl⟩ := mem_periods hw
    exact hnear x hx v hv

end

/-- The same instant at another price. -/
def repricedSample {β : Type} (price : Int → β) (x : Sample α) : Sample β := ⟨x.time, price x.time.count⟩

/-- The price of a sample has no part in its period. -/
@[simp] theorem beginning_repriced {β : Type} (g : Granularity) (price : Int → β) (x : Sample α) :
    beginning g (repricedSample price x) = beginning g x := by
  obtain ⟨time, own⟩ := x
  cases time with
  | missing => rfl
  | known ns => rfl

/-- The same instants at other prices. -/
def repriced {β : Type} (s : Series α) (price : Int → β) : Series β := s.map (repricedSample price)

section

variable {β : Type} {s : Series α} {price : Int → β}

@[simp] theorem size_repriced : (s.repriced price).size = s.size := Array.size_map

@[simp] theorem countAt_repriced (i : Nat) : (s.repriced price).countAt i = s.countAt i := by
  unfold countAt repriced
  rw [Array.getElem?_map]
  cases s[i]? <;> rfl

@[simp] theorem lastRead_repriced (stop : Instant) : (s.repriced price).lastRead stop = s.lastRead stop := by
  unfold lastRead firstFrom; simp only [countAt_repriced, size_repriced]

theorem Ordered.repriced (hs : s.Ordered) (price : Int → β) : Ordered (s.repriced price) := by
  constructor
  · intro x hx
    obtain ⟨y, hy, rfl⟩ := Array.mem_map.1 hx
    exact hs.known y hy
  · unfold Series.repriced
    rw [Array.toList_map, List.pairwise_map]
    exact hs.rising

end

/-- The periods of a series lie in the range of 64 bits of each other. -/
def Near (s : Series α) (g : Granularity) : Prop :=
  ∀ x ∈ s, ∀ y ∈ s, beginning g y - beginning g x < 2 ^ 64

theorem thinnedTo_repriced {β : Type} (s : Series α) (price : Int → β) (g : Granularity) (n : Nat) :
    (s.repriced price).thinnedTo g n = (periods g ((s.toList.take n).map (repricedSample price))).toArray := by
  unfold thinnedTo Series.repriced
  rw [Array.toList_map, List.map_take]

theorem inTime_repriced {β : Type} (price : Int → β) {xs : List (Sample α)} (h : InTime xs) :
    InTime (xs.map (repricedSample price)) := by
  refine ⟨fun x hx => ?_, List.pairwise_map.2 h.2⟩
  obtain ⟨z, hz, rfl⟩ := List.mem_map.1 hx
  exact h.1 z hz

/-- A sample up to some position is one of those positions, and not after it. -/
theorem Ordered.of_mem_take {s : Series α} (hs : s.Ordered) (g : Granularity) {last : Nat} (hlast : last < s.size)
    {x : Sample α} (hx : x ∈ s.toList.take (last + 1)) :
    ∃ i ≤ last, beginning g x = s.beginningAt g i ∧ x.time.count ≤ s.countAt last := by
  obtain ⟨i, hi, rfl⟩ := List.mem_take_iff_getElem.1 hx
  rw [Array.length_toList] at hi
  rw [Array.getElem_toList, ← hs.beginningAt_eq g, ← countAt_eq]
  exact ⟨i, by omega, rfl, hs.countAt_le (by omega) hlast⟩

/-- The samples after some position are later than it. -/
theorem Ordered.lt_of_mem_rest {s : Series α} (hs : s.Ordered) {last n : Nat} (hnext : last + 1 < s.size)
    {ys : List (Sample α)} (hys : s.toList.take n = s.toList.take (last + 1) ++ ys) {z : Sample α} (hz : z ∈ ys) :
    s.countAt last < z.time.count := by
  have hrising := hs.rising.sublist (List.take_sublist n s.toList)
  rw [hys] at hrising
  rw [countAt_eq (by omega)]
  exact (List.pairwise_append.1 hrising).2.2 _ (List.mem_take_iff_getElem.2 ⟨last, by simp; omega, by simp⟩) z hz

/-- One price up to an instant, another one after it. -/
def stepped (at_ : Int) (c : Int) : ℚ := if c ≤ at_ then 1 else 2

theorem stepped_pos (at_ c : Int) : 0 < stepped at_ c := by
  unfold stepped; split <;> norm_num

/-- At an instant where two windows are not settled, there are prices that they show differently: one
up to the last sample of the first window, another one from there on. -/
theorem exists_repriced_ne [ExactArithmetic] {s : Series α} (hs : s.Ordered) (hne : 0 < s.size) {g : Granularity}
    (hnear : s.Near g) {stop stop' t : Instant} (h : ¬ s.Settled g stop stop' t) :
    ∃ price : Int → ℚ, (∀ c, 0 < price c) ∧
      priceAt ((s.repriced price).thinnedTo g (s.lastRead stop + 1)) t ≠
        priceAt ((s.repriced price).thinnedTo g (s.lastRead stop' + 1)) t := by
  wlog hle : s.lastRead stop ≤ s.lastRead stop' with hsymm
  · obtain ⟨price, hpos, hdiffers⟩ := hsymm hs hne hnear (fun h' => h h'.symm) (not_le.1 hle).le
    exact ⟨price, hpos, hdiffers.symm⟩
  unfold Settled at h
  push Not at h
  obtain ⟨hdiffer, hlate⟩ := h
  rw [min_eq_left hle] at hlate
  have hlater : s.lastRead stop < s.lastRead stop' := lt_of_le_of_ne hle hdiffer
  have hlast := lastRead_lt hne stop'
  have hnext : s.lastRead stop + 1 < s.size := lt_of_le_of_lt hlater hlast
  generalize s.lastRead stop = last at hlate hlater hnext ⊢
  have hcut : last + 1 < s.toList.length := Array.length_toList ▸ hnext
  obtain ⟨ys, hys⟩ := take_eq_append hcut (Nat.succ_lt_succ hlater)
  have hintime := hs.inTime_take (s.lastRead stop' + 1)
  rw [hys] at hintime
  have hmem : ∀ z ∈ s.toList.take (last + 1) ++ s.toList[last + 1] :: ys, z ∈ s := fun z hz =>
    Array.mem_toList_iff.1 (List.mem_of_mem_take (hys ▸ hz))
  refine ⟨stepped (s.countAt last), stepped_pos _, ?_⟩
  have hmoved := inTime_repriced (stepped (s.countAt last)) hintime
  rw [List.map_append, List.map_cons] at hmoved
  rw [thinnedTo_repriced, thinnedTo_repriced, hys, List.map_append, List.map_cons]
  refine priceAt_periods_ne g hmoved ?_ (fun x hx hlt => ?_) (by norm_num : (1 : ℚ) ≠ 2)
    (fun x hx => ?_) (fun z hz => ?_) fun x hx z hz => ?_
  · exact mt List.map_eq_nil_iff.1 (List.ne_nil_of_length_pos (by simp; omega))
  · obtain ⟨w, hw, rfl⟩ := List.mem_map.1 hx
    obtain ⟨i, hi, hbeginning, -⟩ := hs.of_mem_take g (Nat.lt_of_succ_lt hnext) hw
    rw [beginning_repriced, hbeginning] at hlt
    rw [beginning_repriced, beginning_repriced, hbeginning, Array.getElem_toList, ← hs.beginningAt_eq g hnext]
    exact hlate i hi hlt
  · obtain ⟨w, hw, rfl⟩ := List.mem_map.1 hx
    obtain ⟨-, -, -, hle⟩ := hs.of_mem_take g (Nat.lt_of_succ_lt hnext) hw
    exact if_pos hle
  · rw [← List.map_cons] at hz
    obtain ⟨w, hw, rfl⟩ := List.mem_map.1 hz
    exact if_neg (not_le.2 (hs.lt_of_mem_rest hnext hys hw))
  · rw [← List.map_cons] at hz
    obtain ⟨v, hv, rfl⟩ := List.mem_map.1 hx
    obtain ⟨w, hw, rfl⟩ := List.mem_map.1 hz
    rw [beginning_repriced, beginning_repriced]
    exact hnear v (hmem v (List.mem_append_left _ hv)) w (hmem w (List.mem_append_right _ hw))

end Series

/-! ## Prices read through windows -/

/-- A range of time. -/
structure Span where
  start : Instant
  stop : Instant
  le : start.count ≤ stop.count

/-- An instant lies in a range. -/
def Span.Has (w : Span) (t : Instant) : Prop := w.start.count ≤ t.count ∧ t.count ≤ w.stop.count

namespace Oracle

variable {α : Type} [Scalar α]

/-- The price of a token at an instant that the series fetched for a range of time gives, if the token
is among them. -/
def priceIn (o : Oracle α) (wanted : List String) (w : Span) (granularity : Value α) (token : String) (t : Instant) :
    Except (Fault α) (Option α) := do
  let fetched ← o.prices wanted w.start w.stop granularity
  (fetched.lookup token).mapM fun s => Series.priceAt s t

theorem granularity?_name (g : Series.Granularity) : granularity? (.text g.name : Value α) = .ok (some g) := by
  cases g <;> rfl

omit [Scalar α] in
theorem series?_pos {o : Oracle α} {token : String} {s : Series α} (hs : o.series? token = some s) : 0 < s.size := by
  unfold series? at hs
  obtain ⟨-, hnonempty⟩ := Option.filter_eq_some_iff.1 hs
  rw [Bool.not_eq_true', Array.isEmpty_eq_false_iff] at hnonempty
  exact Array.size_pos_iff.2 hnonempty

/-- A thinned window gives the price of all samples up to the last one that it reads, thinned out. -/
theorem priceIn_eq {o : Oracle α} {token : String} {s : Series α} (hs : o.series? token = some s) (ho : s.Ordered)
    {wanted : List String} (hwanted : token ∈ wanted) (g : Series.Granularity) {w : Span} {t : Instant}
    (ht : w.Has t) : o.priceIn wanted w (.text g.name) token t =
      (Series.priceAt (s.thinnedTo g (s.lastRead w.stop + 1)) t).map some := by
  unfold priceIn
  rw [prices_eq o wanted w.start w.stop (granularity?_name g)]
  show Option.mapM (fun s => Series.priceAt s t) (List.lookup token _) = _
  rw [lookup_filterMap, if_pos (Block.mem_firstSeen.2 hwanted), hs]
  show (Series.priceAt ((s.sliceAround w.start w.stop).resample g) t).map some = _
  rw [Series.priceAt_thinned_window ho (series?_pos hs) g w.le ht.1 ht.2]

theorem map_some_inj {ε β : Type} {x y : Except ε β} (h : x.map some = y.map some) : x = y := by
  cases x <;> cases y <;> cases h <;> rfl

/-- Two windows give the same thinned price of a token at an instant if they are settled there, and
only then if the prices of its samples are open. -/
theorem priceIn_settled [ExactArithmetic] {o : Oracle α} {token : String} {s : Series α}
    (hs : o.series? token = some s) (ho : s.Ordered) {wanted wanted' : List String} (hwanted : token ∈ wanted)
    (hwanted' : token ∈ wanted') (g : Series.Granularity) {w w' : Span} {t : Instant} (ht : w.Has t) (ht' : w'.Has t) :
    (s.Settled g w.stop w'.stop t → ∃ price, o.priceIn wanted w (.text g.name) token t = .ok (some price) ∧
      o.priceIn wanted' w' (.text g.name) token t = .ok (some price)) ∧
    (s.Near g → ¬ s.Settled g w.stop w'.stop t → ∃ price : Int → ℚ, (∀ c, 0 < price c) ∧
      priceIn [(token, s.repriced price)] wanted w (.text g.name) token t ≠
        priceIn [(token, s.repriced price)] wanted' w' (.text g.name) token t) := by
  have hne := series?_pos hs
  constructor
  · intro hsettled
    have hread : s.toList.take (s.lastRead w.stop + 1) ≠ [] :=
      List.ne_nil_of_length_pos (by rw [List.length_take, Array.length_toList]; omega)
    obtain ⟨price, hprice⟩ : ∃ price, Series.priceAt (s.thinnedTo g (s.lastRead w.stop + 1)) t = .ok price :=
      (Series.periods_ordered g (ho.inTime_take _)).priceAt_ok (Series.periods_pos g hread) t
    refine ⟨price, ?_, ?_⟩
    · rw [priceIn_eq hs ho hwanted g ht, hprice]
      rfl
    · rw [priceIn_eq hs ho hwanted' g ht', ← Series.priceAt_thinnedTo_of_settled ho hne g hsettled, hprice]
      rfl
  · -- the prices of one series, changed behind the sample where the first of the two windows ends
    intro hnear hopen
    obtain ⟨price, hpos, hdiffers⟩ := Series.exists_repriced_ne ho hne hnear hopen
    refine ⟨price, hpos, fun heq => hdiffers ?_⟩
    have hseries : series? [(token, s.repriced price)] token = some (s.repriced price) := by
      have hempty : (s.repriced price).isEmpty = false := by
        rw [Array.isEmpty_eq_false_iff, ← Array.size_pos_iff, Series.size_repriced]
        exact hne
      simp [series?, hempty]
    rw [priceIn_eq hseries (ho.repriced price) hwanted g ht, priceIn_eq hseries (ho.repriced price) hwanted' g ht',
      Series.lastRead_repriced, Series.lastRead_repriced] at heq
    exact map_some_inj heq

/-! ## A day that is cut -/

section

local instance openPartsOfWindows : ExactArithmetic := default

/-- The beginning of 2024. -/
def newYear : Int := 1704067200000000000

/-- Some hours after the beginning of 2024. -/
def newYearHour (hours : Int) : Instant := .known (newYear + hours * Instant.perHour)

def newYearSamples : List (Sample ℚ) :=
  [⟨newYearHour 0, 100⟩, ⟨newYearHour 12, 200⟩, ⟨newYearHour 18, 300⟩, ⟨newYearHour 24, 400⟩, ⟨newYearHour 36, 500⟩]

def newYearData : List (String × PriceData ℚ) :=
  [("ETH", .points [.list [.num (.whole 1704067200000), .num (.real 100)],
    .list [.num (.whole 1704110400000), .num (.real 200)], .list [.num (.whole 1704132000000), .num (.real 300)],
    .list [.num (.whole 1704153600000), .num (.real 400)], .list [.num (.whole 1704196800000), .num (.real 500)]])]

def untilMorning : Span := ⟨newYearHour 0, newYearHour 6, by decide⟩

def untilEvening : Span := ⟨newYearHour 0, newYearHour 20, by decide⟩

def untilNextDay : Span := ⟨newYearHour 0, newYearHour 30, by decide⟩

theorem newYearSamples_known : ∀ x ∈ newYearSamples, ∃ ns, x.time = .known ns := by
  simp [newYearSamples, newYearHour]

theorem newYearSamples_ordered : Series.Ordered newYearSamples.toArray :=
  ⟨fun x hx => newYearSamples_known x (List.mem_toArray.1 hx), by decide +kernel⟩

theorem newYear_oracle : ofData newYearData = .ok [("ETH", newYearSamples.toArray)] := by
  show Except.ok [("ETH", Series.ofSamples newYearSamples)] = _
  rw [Series.ofSamples_of_rising _ newYearSamples_known (by decide +kernel)]
  decide +kernel

theorem newYearSamples_near : Series.Near newYearSamples.toArray .daily := fun x hx y hy =>
  (by decide +kernel : ∀ x ∈ newYearSamples, ∀ y ∈ newYearSamples,
    Series.beginning .daily y - Series.beginning .daily x < 2 ^ 64) x (List.mem_toArray.1 hx) y (List.mem_toArray.1 hy)

/-- The daily price at the beginning of 2024 that a window of a series gives. -/
abbrev etherAtNewYear (s : Series ℚ) (w : Span) : Except (Fault ℚ) (Option ℚ) :=
  priceIn [("ETH", s)] ["ETH"] w (.text "daily") "ETH" (newYearHour 0)

/-- The whole first day lies in two of the windows, but not in the third one. -/
theorem newYear_settled :
    (∃ price, etherAtNewYear newYearSamples.toArray untilEvening = .ok (some price) ∧
      etherAtNewYear newYearSamples.toArray untilNextDay = .ok (some price)) ∧
    ∃ price : Int → ℚ, (∀ c, 0 < price c) ∧
      etherAtNewYear (Series.repriced newYearSamples.toArray price) untilMorning ≠
        etherAtNewYear (Series.repriced newYearSamples.toArray price) untilEvening := by
  have hseries : series? [("ETH", newYearSamples.toArray)] "ETH" = some newYearSamples.toArray := rfl
  have hmorning : untilMorning.Has (newYearHour 0) := ⟨by decide, by decide⟩
  have hevening : untilEvening.Has (newYearHour 0) := ⟨by decide, by decide⟩
  have hnext : untilNextDay.Has (newYearHour 0) := ⟨by decide, by decide⟩
  have hreads : Series.lastRead newYearSamples.toArray untilMorning.stop = 1 ∧
      Series.lastRead newYearSamples.toArray untilEvening.stop = 3 ∧
      Series.lastRead newYearSamples.toArray untilNextDay.stop = 4 := by decide +kernel
  obtain ⟨hone, hthree, hfour⟩ := hreads
  constructor
  · refine (priceIn_settled hseries newYearSamples_ordered (List.mem_singleton.2 rfl) (List.mem_singleton.2 rfl)
      .daily hevening hnext).1 (.inr ⟨0, Nat.zero_le _, ?_, ?_⟩)
    · decide +kernel
    · rw [hthree, hfour]
      decide +kernel
  · refine (priceIn_settled hseries newYearSamples_ordered (List.mem_singleton.2 rfl) (List.mem_singleton.2 rfl)
      .daily hmorning hevening).2 newYearSamples_near ?_
    unfold Series.Settled
    rw [hone, hthree]
    decide +kernel

/-- At midnight the window until the morning shows the price of noon, the one until the evening that of
the evening. -/
theorem newYear_differs : ofData newYearData = .ok [("ETH", newYearSamples.toArray)] ∧
    untilMorning.Has (newYearHour 0) ∧ untilEvening.Has (newYearHour 0) ∧
    etherAtNewYear newYearSamples.toArray untilMorning = .ok (some 200) ∧
    etherAtNewYear newYearSamples.toArray untilEvening = .ok (some 300) := by
  obtain ⟨p, hp, hvalue⟩ := ok_of_toOption
    (show (etherAtNewYear newYearSamples.toArray untilMorning).toOption.map id = some (some 200) by decide +kernel)
  obtain ⟨q, hq, hvalue'⟩ := ok_of_toOption
    (show (etherAtNewYear newYearSamples.toArray untilEvening).toOption.map id = some (some 300) by decide +kernel)
  exact ⟨newYear_oracle, ⟨by decide, by decide⟩, ⟨by decide, by decide⟩,
    hp.trans (congrArg Except.ok hvalue), hq.trans (congrArg Except.ok hvalue')⟩

end

end Oracle

end StrategyLab
