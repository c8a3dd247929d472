/-
What price data means, over any scalars. A series has one sample for each instant at which a usable price
was given, with the last such price in the order of the points (`mem_ofSamples_iff`), so that it depends on
the order of the points at each instant alone (`ofSamples_congr`). Pairs, records, the columns of a table
and the entries of a mapping stand for the same samples (`samples_points`, `samples_table`,
`samples_columns`).

Main statement: points at valid times with numbers for prices have one series, whatever form they are
handed in, and a series is its own (`normalize_meaning`).
-/
import StrategyLab.Proofs.Price.Oracle
import StrategyLab.Proofs.Number.Extended
import StrategyLab.Proofs.Agree

namespace StrategyLab

variable {α : Type}

namespace Series

/-! ## The last of each instant -/

/-- After a sample at another time come none but later ones. -/
theorem InTime.lt_of_ne {a b : Sample α} {rest : List (Sample α)} (h : InTime (a :: b :: rest))
    (hne : a.time ≠ b.time) {y : Sample α} (hy : y ∈ b :: rest) : a.time.count < y.time.count := by
  obtain ⟨hknown, hle⟩ := h
  obtain ⟨hfirst, hrest⟩ := List.pairwise_cons.1 hle
  have hab : a.time.count < b.time.count := by
    obtain ⟨na, ha⟩ := hknown a (by simp)
    obtain ⟨nb, hb⟩ := hknown b (by simp)
    refine lt_of_le_of_ne (hfirst b (by simp)) fun heq => hne ?_
    rw [ha, hb] at heq ⊢
    exact congrArg Instant.known heq
  rcases List.mem_cons.1 hy with rfl | hy
  · exact hab
  · exact lt_of_lt_of_le hab ((List.pairwise_cons.1 hrest).1 y hy)

/-- Of samples in the order of time those are kept that are the last at their time. -/
theorem mem_keepLast_iff {x : Sample α} : ∀ {xs : List (Sample α)}, InTime xs →
    (x ∈ keepLast xs ↔ (xs.filter fun y => y.time = x.time).getLast? = some x)
  | [], _ => by simp [keepLast]
  | [a], _ => by
    by_cases h : a.time = x.time
    · simp [keepLast, h, eq_comm]
    · have hne : x ≠ a := fun heq => h (congrArg Sample.time heq).symm
      simp [keepLast, h, hne]
  | a :: b :: rest, h => by
    have htail : InTime (b :: rest) := ⟨fun y hy => h.1 y (List.mem_cons_of_mem a hy), h.2.tail⟩
    have ih := @mem_keepLast_iff x (b :: rest) htail
    rw [keepLast]
    split
    · rename_i hab
      -- the first sample is not the last one at its time
      rw [ih]
      by_cases hax : a.time = x.time
      · have hbx : b.time = x.time := hab.symm.trans hax
        rw [List.filter_cons_of_pos (a := b) (by simpa using hbx),
          List.filter_cons_of_pos (a := a) (by simpa using hax),
          List.filter_cons_of_pos (a := b) (by simpa using hbx), List.getLast?_cons_cons]
      · rw [List.filter_cons_of_neg (a := a) (by simpa using hax)]
    · rename_i hab
      rw [List.mem_cons, ih]
      by_cases hax : a.time = x.time
      · -- the first sample is the only one at its time
        have hlater : (b :: rest).filter (fun y => y.time = x.time) = [] := by
          refine List.filter_eq_nil_iff.2 fun y hy heq => ?_
          have hlt := h.lt_of_ne hab hy
          rw [hax, of_decide_eq_true heq] at hlt
          exact lt_irrefl _ hlt
        rw [List.filter_cons_of_pos (a := a) (by simpa using hax), hlater]
        simp [eq_comm]
      · have hne : x ≠ a := fun heq => hax (congrArg Sample.time heq).symm
        rw [List.filter_cons_of_neg (a := a) (by simpa using hax)]
        simp [hne]

/-- Sorting by time leaves the samples of each instant in their order. -/
theorem filter_mergeSort (xs : List (Sample α)) (t : Instant) :
    (xs.mergeSort comesBefore).filter (fun x => x.time = t) = xs.filter fun x => x.time = t := by
  have hsorted : (xs.filter fun x => x.time = t).Pairwise fun a b => comesBefore a b = true := by
    refine List.pairwise_of_forall_mem_list fun a ha b hb => ?_
    have hat := of_decide_eq_true (List.mem_filter.1 ha).2
    have hbt := of_decide_eq_true (List.mem_filter.1 hb).2
    unfold comesBefore
    rw [hat, hbt]
    cases t <;> simp
  have hstable := List.sublist_mergeSort comesBefore_trans comesBefore_total hsorted List.filter_sublist
  have hkept := hstable.filter fun x => x.time = t
  rw [List.filter_filter] at hkept
  simp only [Bool.and_self] at hkept
  exact (hkept.eq_of_length ((List.mergeSort_perm xs _).filter _).length_eq.symm).symm

section

variable [Scalar α]

/-- The last sample at an instant with a usable price. -/
def lastUsable? (xs : List (Sample α)) (t : Instant) : Option (Sample α) :=
  (xs.filter fun y => decide (y.time = t) && isUsable y.price).getLast?

/-- A sample at the instant with a usable price has a last one beside it. -/
theorem exists_lastUsable {xs : List (Sample α)} {y : Sample α} (hy : y ∈ xs) (husable : isUsable y.price = true) :
    ∃ x, lastUsable? xs y.time = some x ∧ x.time = y.time := by
  have hmem : y ∈ xs.filter fun z => decide (z.time = y.time) && isUsable z.price :=
    List.mem_filter.2 ⟨hy, by simpa using husable⟩
  refine ⟨_, List.getLast?_eq_getLast_of_ne_nil (List.ne_nil_of_mem hmem), ?_⟩
  have hlast := (List.mem_filter.1 (List.getLast_mem (List.ne_nil_of_mem hmem))).2
  rw [Bool.and_eq_true] at hlast
  exact of_decide_eq_true hlast.1

/-- What is last at an instant depends on the samples at that instant alone. -/
theorem lastUsable_congr {xs ys : List (Sample α)} {t : Instant}
    (h : (xs.filter fun x => x.time = t) = ys.filter fun y => y.time = t) : lastUsable? xs t = lastUsable? ys t := by
  have hparts : ∀ zs : List (Sample α), lastUsable? zs t =
      ((zs.filter fun y => y.time = t).filter fun y => isUsable y.price).getLast? := by
    intro zs
    rw [List.filter_filter]
    exact congrArg List.getLast? (List.filter_congr fun y _ => Bool.and_comm ..)
  rw [hparts, hparts, h]

/-- A series holds the samples that are the last usable ones at their times. -/
theorem mem_ofSamples_iff {xs : List (Sample α)} (h : ∀ x ∈ xs, ∃ ns, x.time = .known ns) {x : Sample α} :
    x ∈ ofSamples xs ↔ lastUsable? xs x.time = some x := by
  have hknown : ∀ y ∈ xs.filter fun s => isUsable s.price, ∃ ns, y.time = .known ns := fun y hy =>
    h y (List.mem_of_mem_filter hy)
  rw [ofSamples, List.mem_toArray, mem_keepLast_iff (inTime_mergeSort hknown), filter_mergeSort, List.filter_filter,
    lastUsable?]

/-- A series tells what some samples tell of each instant: nothing where no price is usable, and else the last
usable price. -/
structure Sums (s : Series α) (xs : List (Sample α)) : Prop where
  ordered : s.Ordered
  times : ∀ t, (∃ x ∈ s, x.time = t) ↔ ∃ y ∈ xs, y.time = t ∧ isUsable y.price = true
  last : ∀ x ∈ s, lastUsable? xs x.time = some x

theorem ofSamples_sums {xs : List (Sample α)} (h : ∀ x ∈ xs, ∃ ns, x.time = .known ns) : (ofSamples xs).Sums xs := by
  refine ⟨ofSamples_ordered h, fun t => ?_, fun x hx => (mem_ofSamples_iff h).1 hx⟩
  constructor
  · rintro ⟨x, hx, rfl⟩
    obtain ⟨hmem, husable⟩ := mem_ofSamples hx
    exact ⟨x, hmem, rfl, husable⟩
  · rintro ⟨y, hy, rfl, husable⟩
    obtain ⟨x, hx, htime⟩ := exists_lastUsable hy husable
    exact ⟨x, (mem_ofSamples_iff h).2 (htime ▸ hx), htime⟩

/-- The order of samples at different times makes no difference. -/
theorem ofSamples_congr {xs ys : List (Sample α)} (hxs : ∀ x ∈ xs, ∃ ns, x.time = .known ns)
    (hys : ∀ y ∈ ys, ∃ ns, y.time = .known ns)
    (h : ∀ t, (xs.filter fun x => x.time = t) = ys.filter fun y => y.time = t) : ofSamples xs = ofSamples ys := by
  have hmem : ∀ x, x ∈ ofSamples xs ↔ x ∈ ofSamples ys := by
    intro x
    rw [mem_ofSamples_iff hxs, mem_ofSamples_iff hys, lastUsable_congr (h x.time)]
  have hrise : Std.Antisymm fun a b : Sample α => a.time.count < b.time.count :=
    ⟨fun a b hab hba => absurd hab (lt_asymm hba)⟩
  have hirrefl : Std.Irrefl fun a b : Sample α => a.time.count < b.time.count := ⟨fun a => lt_irrefl _⟩
  have hrising := (ofSamples_ordered hxs).rising
  refine Array.toList_inj.1 (List.Pairwise.eq_of_mem_iff hrising (ofSamples_ordered hys).rising fun x => ?_)
  rw [Array.mem_toList_iff, Array.mem_toList_iff]
  exact hmem x

end

end Series

/-! ## Samples of price data -/

namespace PriceData

section

variable [Scalar α]

/-- A time and a price as they are given, and the sample that they stand for: the time is valid, and the
price is a number, which may be undefined, infinite, zero or negative. -/
structure StandsFor (p : Value α × Value α) (x : Sample α) : Prop where
  time : (Instant.ofValue p.1 : Except (Fault α) Instant) = .ok x.time
  known : ∃ ns, x.time = .known ns
  price : ∃ n, (p.2 = .num n ∨ p.2 = .narrow n) ∧ n.value? = some x.price

/-- A point as it is written: a pair, or an object with both fields. -/
inductive Spells (p : Value α × Value α) : Value α → Prop
  | list : Spells p (.list [p.1, p.2])
  | tuple : Spells p (.tuple [p.1, p.2])
  | record {fields : Object α} : fields.get? "timestamp" = some p.1 → fields.get? "price" = some p.2 →
      Spells p (.object fields)

theorem Spells.pointOf {p : Value α × Value α} {v : Value α} (h : Spells p v) : pointOf v = .ok p := by
  cases h with
  | list => rfl
  | tuple => rfl
  | record htime hprice =>
    unfold PriceData.pointOf Value.field
    dsimp only
    rw [htime, hprice]
    rfl

namespace StandsFor

variable {p : Value α × Value α} {x : Sample α}

theorem strict (h : StandsFor p x) : strictPrice p.2 = .ok x.price := by
  obtain ⟨n, hn, hvalue⟩ := h.price
  have hreal : (Value.realOfNum n : Except (ValueFault α) α) = .ok x.price := by
    unfold Value.realOfNum
    rw [hvalue]
  rcases hn with hn | hn
  all_goals
    rw [hn]
    unfold strictPrice Value.toReal
    dsimp only
    rw [hreal]
    rfl

theorem loose (h : StandsFor p x) : looseFrom p.2 = x.price := by
  obtain ⟨n, hn, hvalue⟩ := h.price
  have hreads : looseFrom p.2 = n.value?.getD Scalar.undefined := by rcases hn with hn | hn <;> rw [hn] <;> rfl
  rw [hreads, hvalue]
  rfl

theorem ne_null (h : StandsFor p x) : p.1 ≠ .null := by
  intro hnull
  obtain ⟨ns, hns⟩ := h.known
  have htime := h.time
  rw [hnull, hns] at htime
  cases htime

end StandsFor

variable {ps : List (Value α × Value α)} {xs : List (Sample α)}

/-- Valid times are read one by one. -/
theorem settleTimes_eq {times : List (Value α)} (h : ∀ v ∈ times, v ≠ .null) : settleTimes times = times := by
  unfold settleTimes
  dsimp only
  split
  · refine (List.map_congr_left fun v hv => ?_).trans (List.map_id times)
    cases v with
    | null => exact absurd rfl (h _ hv)
    | _ => rfl
  · rfl

/-- Times that are read one by one are beside the prices. -/
theorem samplesOf_read {times : List (Value α)} (hsettled : settleTimes times = times)
    (htimes : times.mapM (Instant.ofValue : Value α → Except (Fault α) Instant) = .ok (xs.map (·.time))) :
    samplesOf times (xs.map (·.price)) = .ok xs := by
  unfold samplesOf
  rw [hsettled, htimes]
  show Except.ok (((xs.map (·.time)).zip (xs.map (·.price))).map _) = _
  rw [List.zip_map', List.map_map]
  exact congrArg Except.ok (List.map_id xs)

theorem samplesOf_eq (h : List.Forall₂ StandsFor ps xs) :
    samplesOf (ps.map (·.1)) (xs.map (·.price)) = .ok xs := by
  have hnull : ∀ v ∈ ps.map (·.1), v ≠ .null := by
    induction h with
    | nil => nofun
    | cons hp _ ih => exact List.forall_mem_cons.2 ⟨hp.ne_null, ih⟩
  have htimes : (ps.map (·.1)).mapM (Instant.ofValue : Value α → Except (Fault α) Instant) =
      .ok (xs.map (·.time)) := by
    refine mapM_of_forall₂ ?_
    rw [List.forall₂_map_left_iff, List.forall₂_map_right_iff]
    exact h.imp fun p x hp => hp.time
  exact samplesOf_read (settleTimes_eq hnull) htimes

theorem samples_points {items : List (Value α)} (h : List.Forall₂ StandsFor ps xs)
    (hitems : List.Forall₂ Spells ps items) : (points items).samples = .ok xs := by
  have hpoints : items.mapM pointOf = .ok ps := mapM_of_forall₂ (hitems.flip.imp fun v p hp => hp.pointOf)
  have hprices : (ps.mapM fun p => strictPrice p.2) = .ok (xs.map (·.price)) := by
    refine mapM_of_forall₂ ?_
    rw [List.forall₂_map_right_iff]
    exact h.imp fun p x hp => hp.strict
  unfold samples
  dsimp only
  rw [hpoints]
  show (ps.mapM fun p => strictPrice p.2) >>= samplesOf (ps.map (·.1)) = _
  rw [hprices]
  exact samplesOf_eq h

theorem samples_columns (h : List.Forall₂ StandsFor ps xs) :
    (columns (ps.map (·.1)) (ps.map (·.2))).samples = .ok xs := by
  have hprices : (ps.map (·.2)).map looseFrom = xs.map (·.price) := by
    rw [← List.forall₂_eq_eq_eq, List.forall₂_map_left_iff, List.forall₂_map_left_iff, List.forall₂_map_right_iff]
    exact h.imp fun p x hp => hp.loose
  show samplesOf _ ((ps.map (·.2)).map looseFrom) = _
  rw [hprices]
  exact samplesOf_eq h

theorem samples_table (h : List.Forall₂ StandsFor ps xs) {cols : List (String × List (Value α))}
    (htimes : cols.lookup "timestamp" = some (ps.map (·.1))) (hprices : cols.lookup "price" = some (ps.map (·.2))) :
    (table cols).samples = .ok xs := by
  rw [← samples_columns h]
  unfold samples
  dsimp only
  rw [htimes, hprices]

omit [Scalar α] in
/-- At distinct times the order of samples is no matter. -/
theorem filter_time_perm {xs ys : List (Sample α)} (h : ys.Perm xs) (hdistinct : (xs.map (·.time)).Nodup)
    (t : Instant) : (ys.filter fun y => y.time = t) = xs.filter fun x => x.time = t := by
  have hperm := h.filter fun y => y.time = t
  have hsame : (xs.filter fun x => x.time = t).map (·.time) =
      List.replicate (xs.filter fun x => x.time = t).length t := by
    refine List.eq_replicate_iff.2 ⟨List.length_map .., fun u hu => ?_⟩
    obtain ⟨x, hx, rfl⟩ := List.mem_map.1 hu
    exact of_decide_eq_true (List.mem_filter.1 hx).2
  have hone : (xs.filter fun x => x.time = t).length ≤ 1 := by
    rw [← List.nodup_replicate, ← hsame]
    exact hdistinct.sublist (List.filter_sublist.map _)
  cases hxs : xs.filter fun x => x.time = t with
  | nil => rw [hxs] at hperm; exact hperm.eq_nil
  | cons x rest =>
    rw [hxs, List.length_cons] at hone
    obtain rfl : rest = [] := List.length_eq_zero_iff.1 (by omega)
    rw [hxs] at hperm
    exact List.perm_singleton.1 hperm

/-- A series as price data: its times and its prices. -/
def ofSeries (s : Series α) : PriceData α :=
  .columns (s.toList.map fun x => .instant x.time none) (s.toList.map fun x => .real x.price)

theorem samples_ofSeries {s : Series α} (hs : s.Ordered) : (ofSeries s).samples = .ok s.toList := by
  have hstands : List.Forall₂ StandsFor
      (s.toList.map fun x => ((.instant x.time none, .real x.price) : Value α × Value α)) s.toList := by
    rw [List.forall₂_map_left_iff, List.forall₂_same]
    exact fun x hx => ⟨rfl, hs.known x (Array.mem_toList_iff.1 hx), .real x.price, .inl rfl, rfl⟩
  have hcolumns := samples_columns hstands
  rw [List.map_map, List.map_map] at hcolumns
  exact hcolumns

/-- The samples of rearranged points are rearranged likewise. -/
theorem standsFor_perm (h : List.Forall₂ StandsFor ps xs) {entries : List (Value α × Value α)}
    (hperm : entries.Perm ps) : ∃ ys, List.Forall₂ StandsFor entries ys ∧ ys.Perm xs :=
  List.perm_comp_forall₂ hperm h

theorem standsFor_known (h : List.Forall₂ StandsFor ps xs) : ∀ x ∈ xs, ∃ ns, x.time = .known ns := by
  induction h with
  | nil => nofun
  | cons hp _ ih => exact List.forall_mem_cons.2 ⟨hp.known, ih⟩

/-- Points at valid times with numbers for prices have one series, as pairs, as records, as the columns of a
table and, if no two are at one time, as the entries of a mapping in any order. Its times rise, and are those
at which a finite positive price was given; the price is the last such one at the time. Points at different
times may change places, and the series is its own. -/
theorem normalize_meaning (h : List.Forall₂ StandsFor ps xs) : ∃ s : Series α, s.Sums xs ∧
    (∀ items : List (Value α), List.Forall₂ Spells ps items → (points items).normalize = .ok s) ∧
    (∀ cols : List (String × List (Value α)), cols.lookup "timestamp" = some (ps.map (·.1)) →
      cols.lookup "price" = some (ps.map (·.2)) → (table cols).normalize = .ok s) ∧
    ((xs.map (·.time)).Nodup → ∀ entries : List (Value α × Value α), entries.Perm ps →
      (columns (entries.map (·.1)) (entries.map (·.2))).normalize = .ok s) ∧
    (∀ (qs : List (Value α × Value α)) (ys : List (Sample α)) (items : List (Value α)),
      List.Forall₂ StandsFor qs ys → (∀ t, (ys.filter fun y => y.time = t) = xs.filter fun x => x.time = t) →
        List.Forall₂ Spells qs items → (points items).normalize = .ok s) ∧
    (ofSeries s).normalize = .ok s := by
  have hknown := standsFor_known h
  have hordered := Series.ofSamples_ordered hknown
  refine ⟨Series.ofSamples xs, Series.ofSamples_sums hknown, ?_, ?_, ?_, ?_, ?_⟩
  · intro items hitems
    rw [normalize_eq, samples_points h hitems]
    rfl
  · intro cols htimes hprices
    rw [normalize_eq, samples_table h htimes hprices]
    rfl
  · intro hdistinct entries hperm
    obtain ⟨ys, hys, hyx⟩ := standsFor_perm h hperm
    rw [normalize_eq, samples_columns hys]
    exact congrArg Except.ok (Series.ofSamples_congr (standsFor_known hys) hknown (filter_time_perm hyx hdistinct))
  · intro qs ys items hys hsame hitems
    rw [normalize_eq, samples_points hys hitems]
    exact congrArg Except.ok (Series.ofSamples_congr (standsFor_known hys) hknown hsame)
  · have husable : ∀ x ∈ (Series.ofSamples xs).toList, Series.isUsable x.price = true := fun x hx =>
      (Series.mem_ofSamples (Array.mem_toList_iff.1 hx)).2
    have htimes : ∀ x ∈ (Series.ofSamples xs).toList, ∃ ns, x.time = .known ns := fun x hx =>
      hordered.known x (Array.mem_toList_iff.1 hx)
    rw [normalize_eq, samples_ofSeries hordered]
    exact congrArg Except.ok (Series.ofSamples_of_rising husable htimes hordered.rising)

end

section

local instance openPartsOfMixedPoints : ExactArithmetic := default

/-- Midnight so many days after the first of January 2024. -/
def newYear (days : Nat) : Instant := .known (1704067200000000000 + days * 86400000000000)

/-- The second of January three times, in milliseconds, with an offset from universal time and as a date, its
last price undefined; the first of January between them, and a negative price on the third. -/
def mixedPoints : List (Value Extended × Value Extended) :=
  [(.num (.whole 1704153600000), .num (.whole 3)), (.text "2024-01-01", .num (.whole 1)),
    (.text "2024-01-02T01:00:00+01:00", .narrow (.real (.finite 4))), (.text "2024-01-02", .real .undefined),
    (.text "2024-01-03", .num (.whole (-1)))]

/-- The samples that those points stand for. -/
def mixedSamples : List (Sample Extended) :=
  [⟨newYear 1, .finite 3⟩, ⟨newYear 0, .finite 1⟩, ⟨newYear 1, .finite 4⟩, ⟨newYear 1, .undefined⟩,
    ⟨newYear 2, .finite (-1)⟩]

/-- Those points as pairs, a record and a tuple. -/
def mixedItems : List (Value Extended) :=
  [.list [.num (.whole 1704153600000), .num (.whole 3)],
    .record [("timestamp", .text "2024-01-01"), ("price", .num (.whole 1))],
    .tuple [.text "2024-01-02T01:00:00+01:00", .narrow (.real (.finite 4))],
    .list [.text "2024-01-02", .real .undefined], .list [.text "2024-01-03", .num (.whole (-1))]]

theorem mixedPoints_standFor : List.Forall₂ StandsFor mixedPoints mixedSamples := by
  have hread : ∀ {v : Value Extended} {t : Instant},
      (Instant.ofValue v : Except (Fault Extended) Instant).toOption.map id = some t →
        (Instant.ofValue v : Except (Fault Extended) Instant) = .ok t := by
    intro v t h
    obtain ⟨_, hok, rfl⟩ := ok_of_toOption h
    exact hok
  refine .cons ?_ (.cons ?_ (.cons ?_ (.cons ?_ (.cons ?_ .nil))))
  · exact ⟨hread (by decide +kernel), ⟨_, rfl⟩, .whole 3, .inl rfl, rfl⟩
  · exact ⟨hread (by decide +kernel), ⟨_, rfl⟩, .whole 1, .inl rfl, rfl⟩
  · exact ⟨hread (by decide +kernel), ⟨_, rfl⟩, .real (.finite 4), .inr rfl, rfl⟩
  · exact ⟨hread (by decide +kernel), ⟨_, rfl⟩, .real .undefined, .inl rfl, rfl⟩
  · exact ⟨hread (by decide +kernel), ⟨_, rfl⟩, .whole (-1), .inl rfl, rfl⟩

/-- On the second of January the price is four, which the undefined one behind it does not hide. -/
theorem mixed_points_normalized : ∃ s : Series Extended, (points mixedItems).normalize = .ok s ∧
    (table [("price", mixedPoints.map (·.2)), ("timestamp", mixedPoints.map (·.1))]).normalize = .ok s ∧
    (∀ t, (∃ x ∈ s, x.time = t) ↔ t = newYear 0 ∨ t = newYear 1) ∧ ⟨newYear 1, .finite 4⟩ ∈ s := by
  obtain ⟨s, hsums, hpoints, htable, -⟩ := normalize_meaning mixedPoints_standFor
  have hspells : List.Forall₂ Spells mixedPoints mixedItems :=
    .cons .list (.cons (.record rfl rfl) (.cons .tuple (.cons .list (.cons .list .nil))))
  have htimes : ∀ t, (∃ x ∈ s, x.time = t) ↔ t = newYear 0 ∨ t = newYear 1 := by
    intro t
    rw [hsums.times]
    constructor
    · rintro ⟨y, hy, rfl, husable⟩
      have hdays : ∀ z ∈ mixedSamples, Series.isUsable z.price = true → z.time = newYear 0 ∨ z.time = newYear 1 := by
        decide +kernel
      exact hdays y hy husable
    · rintro (rfl | rfl)
      · exact ⟨⟨newYear 0, .finite 1⟩, by simp [mixedSamples], rfl, by decide +kernel⟩
      · exact ⟨⟨newYear 1, .finite 4⟩, by simp [mixedSamples], rfl, by decide +kernel⟩
  obtain ⟨x, hx, htime⟩ := (htimes (newYear 1)).2 (.inr rfl)
  have hlast := hsums.last x hx
  rw [htime] at hlast
  have hfour : (Series.lastUsable? mixedSamples (newYear 1)).map (·.price) = some (.finite 4) := by decide +kernel
  rw [hlast] at hfour
  obtain ⟨time, price⟩ := x
  obtain rfl : time = newYear 1 := htime
  obtain rfl : price = .finite 4 := Option.some.inj hfour
  exact ⟨s, hpoints _ hspells, htable _ rfl rfl, htimes, hx⟩

end

end PriceData

end StrategyLab
