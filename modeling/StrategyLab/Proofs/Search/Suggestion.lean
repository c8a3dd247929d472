/-
What a search suggests. The observation to stay near is the earliest one with the largest score, among those
that have a finite one (`best_anchor`). Of the candidates drawn after it the first one is suggested whose
distance from it is nearest to the target: the appeal of a candidate falls strictly with what it misses the
target by, and is never undefined (`acquisition_falls`). Without a scored observation the next sample is
suggested. Either way nothing more is drawn than the samples themselves (`samples_advance`).
-/
import StrategyLab.Proofs.Agree
import StrategyLab.Proofs.Search.Range

namespace StrategyLab

/-! ## The first largest item -/

/-- An item of a list is the first one of those with the largest rank. -/
structure FirstLargest {β : Type} (rank : β → ℚ) (before : List β) (x : β) (after : List β) : Prop where
  earlier : ∀ y ∈ before, rank y < rank x
  later : ∀ y ∈ after, rank y ≤ rank x

namespace FirstLargest

variable {β : Type} {rank : β → ℚ} {before after : List β} {x y : β}

theorem single (x : β) : FirstLargest rank [] x [] := ⟨nofun, nofun⟩

/-- One more item that is larger becomes the first largest one. -/
theorem overtaken (h : FirstLargest rank before x after) (hy : rank x < rank y) :
    FirstLargest rank (before ++ x :: after) y [] := by
  refine ⟨fun z hz => ?_, nofun⟩
  rcases List.mem_append.1 hz with hz | hz
  · exact (h.earlier z hz).trans hy
  · rcases List.mem_cons.1 hz with rfl | hz
    · exact hy
    · exact (h.later z hz).trans_lt hy

/-- One more item that is not larger does not. -/
theorem kept (h : FirstLargest rank before x after) (hy : ¬ rank x < rank y) :
    FirstLargest rank before x (after ++ [y]) := by
  refine ⟨h.earlier, fun z hz => ?_⟩
  rcases List.mem_append.1 hz with hz | hz
  · exact h.later z hz
  · rw [List.mem_singleton.1 hz]
    exact not_lt.1 hy

/-- The first largest one of the items with a property, among all of them. -/
theorem unfiltered {p : β → Bool} {xs : List β} (hsplit : xs.filter p = before ++ x :: after)
    (h : FirstLargest rank before x after) : ∃ front back, xs = front ++ x :: back ∧ p x = true ∧
      (∀ y ∈ front, p y = true → rank y < rank x) ∧ ∀ y ∈ back, p y = true → rank y ≤ rank x := by
  obtain ⟨front, _, rfl, hfront, htail⟩ := List.filter_eq_append_iff.1 hsplit
  obtain ⟨gap, back, rfl, hgap, hx, hback⟩ := List.filter_eq_cons_iff.1 htail
  refine ⟨front ++ gap, back, (List.append_assoc _ _ _).symm, hx, fun y hy hp => ?_, fun y hy hp => ?_⟩
  · rcases List.mem_append.1 hy with hy | hy
    · exact h.earlier y (hfront ▸ List.mem_filter.2 ⟨hy, hp⟩)
    · exact absurd hp (hgap y hy)
  · exact h.later y (hback ▸ List.mem_filter.2 ⟨hy, hp⟩)

end FirstLargest

namespace BayesianSearch

open Extended

section

variable [ExactArithmetic] {β : Type} {rank : β → ℚ}

theorem firstLargest_from (rest : List β) {before between : List β} {best : β} (h : FirstLargest rank before best between) :
    ∃ before' x after', before ++ best :: between ++ rest = before' ++ x :: after' ∧
      FirstLargest rank before' x after' ∧
      (rest.map fun y => (y, finite (rank y))).foldl (fun best x => if best.2 < x.2 then x else best)
        (best, finite (rank best)) = (x, finite (rank x)) := by
  induction rest generalizing before best between with
  | nil => exact ⟨before, best, between, List.append_nil _, h, rfl⟩
  | cons y rest ih =>
    rw [List.map_cons, List.foldl_cons]
    by_cases hy : rank best < rank y
    · obtain ⟨before', x, after', hsplit, hfirst, hfold⟩ := ih (h.overtaken hy)
      refine ⟨before', x, after', ?_, hfirst, ?_⟩
      · rw [← hsplit]
        simp
      · rw [if_pos (finite_lt.2 hy)]
        exact hfold
    · obtain ⟨before', x, after', hsplit, hfirst, hfold⟩ := ih (h.kept hy)
      refine ⟨before', x, after', ?_, hfirst, ?_⟩
      · rw [← hsplit]
        simp
      · rw [if_neg (mt finite_lt.1 hy)]
        exact hfold

variable (rank) in
/-- The best of several items with finite scores is the first largest one. -/
theorem firstLargest_split {xs : List β} (hne : xs ≠ []) : ∃ before x after, xs = before ++ x :: after ∧
    FirstLargest rank before x after ∧ firstLargest (xs.map fun y => (y, finite (rank y))) = some (x, finite (rank x)) := by
  obtain ⟨first, rest, rfl⟩ := List.exists_cons_of_ne_nil hne
  obtain ⟨before, x, after, hsplit, hfirst, hfold⟩ := firstLargest_from rest (.single first)
  exact ⟨before, x, after, hsplit, hfirst, congrArg some hfold⟩

theorem replaces_finite {p q : ℚ} : replaces (finite p) (finite q) = true ↔ p < q := by
  unfold replaces
  rw [isUndefined_finite, isUndefined_finite]
  simp

theorem largestFrom_split (rest : List β) {before between : List β} {best : β} (h : FirstLargest rank before best between)
    {position : ℕ} (hposition : position = (before ++ best :: between).length) :
    ∃ before' x after', before ++ best :: between ++ rest = before' ++ x :: after' ∧ FirstLargest rank before' x after' ∧
      largestFrom (finite (rank best)) before.length position (rest.map fun y => finite (rank y)) = before'.length := by
  induction rest generalizing before best between position with
  | nil => exact ⟨before, best, between, List.append_nil _, h, rfl⟩
  | cons y rest ih =>
    rw [List.map_cons, largestFrom]
    by_cases hy : rank best < rank y
    · have hnext : position + 1 = (before ++ best :: between ++ y :: []).length := by
        simp only [hposition, List.length_append, List.length_cons, List.length_nil]
      obtain ⟨before', x, after', hsplit, hfirst, hfound⟩ := ih (h.overtaken hy) hnext
      refine ⟨before', x, after', ?_, hfirst, ?_⟩
      · rw [← hsplit]
        simp
      · rw [if_pos (replaces_finite.2 hy), hposition]
        rw [hposition] at hfound
        exact hfound
    · have hnext : position + 1 = (before ++ best :: (between ++ [y])).length := by
        simp only [hposition, List.length_append, List.length_cons, List.length_nil]
        omega
      obtain ⟨before', x, after', hsplit, hfirst, hfound⟩ := ih (h.kept hy) hnext
      refine ⟨before', x, after', ?_, hfirst, ?_⟩
      · rw [← hsplit]
        simp
      · rw [if_neg (mt replaces_finite.1 hy)]
        exact hfound

variable (rank) in
/-- The position of the largest of several finite numbers is that of the first largest one. -/
theorem positionOfLargest_split {xs : List β} (hne : xs ≠ []) : ∃ before x after, xs = before ++ x :: after ∧
    FirstLargest rank before x after ∧ positionOfLargest (xs.map fun y => finite (rank y)) = before.length := by
  obtain ⟨first, rest, rfl⟩ := List.exists_cons_of_ne_nil hne
  exact largestFrom_split rest (.single first) rfl

end

end BayesianSearch

/-! ## Amounts -/

namespace Extended

/-- A finite scalar that is not negative, or positive infinity. -/
def Amount (x : Extended) : Prop := x = infinite false ∨ ∃ q, x = finite q ∧ 0 ≤ q

theorem Amount.add {x y : Extended} (hx : x.Amount) (hy : y.Amount) : (x + y).Amount := by
  rcases hx with rfl | ⟨p, rfl, hp⟩ <;> rcases hy with rfl | ⟨q, rfl, hq⟩
  · exact .inl rfl
  · exact .inl rfl
  · exact .inl rfl
  · exact .inr ⟨p + q, rfl, add_nonneg hp hq⟩

theorem amount_square {x : Extended} (hx : x ≠ undefined) : (x * x).Amount := by
  cases x with
  | finite q => exact .inr ⟨q * q, rfl, mul_self_nonneg q⟩
  | infinite b => cases b <;> exact .inl rfl
  | undefined => exact absurd rfl hx

variable [ExactArithmetic]

theorem ne_undefined_of_not {x : Extended} (h : Scalar.isUndefined x = false) : x ≠ undefined := by
  rintro rfl
  cases h

/-- The mean of amounts is one. -/
theorem amount_mean {xs : List Extended} (hne : xs ≠ []) (h : ∀ x ∈ xs, x.Amount) : (Sample.mean xs).Amount := by
  have hsum : (Sample.sum xs).Amount := Sample.sum_closed (.inr ⟨0, by rw [literal_eq]; norm_num, le_rfl⟩) (fun _ _ => .add) h
  have hlength : 0 < (xs.length : ℚ) := Nat.cast_pos.2 (List.length_pos_of_ne_nil hne)
  unfold Sample.mean
  rw [List.isEmpty_eq_false_iff.2 hne, if_neg Bool.false_ne_true, ofNat_eq]
  rcases hsum with hsum | ⟨q, hsum, hq⟩ <;> rw [hsum]
  · refine .inl ?_
    change infinite (false != decide ((xs.length : ℚ) < 0)) = infinite false
    rw [decide_eq_false hlength.le.not_gt]
    rfl
  · rw [finite_div _ hlength.ne']
    exact .inr ⟨_, rfl, div_nonneg hq hlength.le⟩

end Extended

namespace Assignment

open Extended

variable [ExactArithmetic] {ps : List (Parameter Extended)} {a b : Assignment Extended} {d : Extended}

/-- Distances are numbers or infinite, and always defined: differences that are not defined are left out. -/
theorem distance_defined (h : distance ps a b = .ok d) : d = infinite false ∨ ∃ q, d = finite q := by
  obtain ⟨xs, -, h⟩ := bind_ok h
  obtain ⟨ys, -, h⟩ := bind_ok h
  cases h
  unfold rootMeanSquare
  split_ifs with hnone
  · exact .inr ⟨_, rfl⟩
  · have hdefined : ∀ x ∈ differences xs ys, x ≠ undefined := by
      intro x hx
      obtain ⟨pair, -, hpair⟩ := List.mem_filterMap.1 hx
      obtain ⟨-, hkept⟩ := Option.filter_eq_some_iff.1 hpair
      exact ne_undefined_of_not (by simpa using hkept)
    have hsquares : ∀ x ∈ (differences xs ys).map fun d => d * d, x.Amount := by
      intro x hx
      obtain ⟨d, hd, rfl⟩ := List.mem_map.1 hx
      exact amount_square (hdefined d hd)
    have hne : (differences xs ys).map (fun d => d * d) ≠ [] := by
      simpa [List.isEmpty_iff] using hnone
    rcases amount_mean hne hsquares with hmean | ⟨q, hmean, hq⟩ <;> rw [hmean]
    · exact .inl rfl
    · exact .inr ⟨_, if_neg hq.not_gt⟩

end Assignment

namespace BayesianSearch

open Extended

variable [ExactArithmetic]

/-- By what the distance of a candidate from an anchor misses the target. -/
def Misses (ps : List (Parameter Extended)) (target : Extended) (anchor c : Assignment Extended) (g : Extended) : Prop :=
  ∃ d, Assignment.distance ps c anchor = .ok d ∧ g = Scalar.magnitude (d - target)

/-- The first one of several candidates that misses the target by the least. -/
def FirstNearest (ps : List (Parameter Extended)) (target : Extended) (anchor : Assignment Extended)
    (drawn : List (Assignment Extended)) (c : Assignment Extended) : Prop :=
  ∃ before after g, drawn = before ++ c :: after ∧ Misses ps target anchor c g ∧
    (∀ c' ∈ before, ∃ g', Misses ps target anchor c' g' ∧ g < g') ∧
      ∀ c' ∈ after, ∃ g', Misses ps target anchor c' g' ∧ g ≤ g'

/-- The appeal at a distance from the target. -/
def fall : Extended → ℚ
  | finite g => 1 / (1 + g)
  | _ => 0

omit [ExactArithmetic] in
theorem fall_lt {g g' : Extended} (hg : g.Amount) (hg' : g'.Amount) : fall g < fall g' ↔ g' < g := by
  rcases hg with rfl | ⟨p, rfl, hp⟩ <;> rcases hg' with rfl | ⟨q, rfl, hq⟩
  · exact iff_of_false (lt_irrefl 0) Bool.false_ne_true
  · refine iff_of_true ?_ rfl
    change 0 < 1 / (1 + q)
    positivity
  · refine iff_of_false ?_ Bool.false_ne_true
    change ¬ 1 / (1 + p) < 0
    have : 0 ≤ 1 / (1 + p) := by positivity
    exact this.not_gt
  · rw [finite_lt]
    change 1 / (1 + p) < 1 / (1 + q) ↔ _
    rw [one_div_lt_one_div (by positivity) (by positivity)]
    exact add_lt_add_iff_left 1

omit [ExactArithmetic] in
theorem fall_le {g g' : Extended} (hg : g.Amount) (hg' : g'.Amount) : fall g ≤ fall g' ↔ g' ≤ g := by
  rw [← not_lt, fall_lt hg' hg]
  rcases hg with rfl | ⟨p, rfl, hp⟩ <;> rcases hg' with rfl | ⟨q, rfl, hq⟩
  · exact iff_of_true Bool.false_ne_true rfl
  · exact iff_of_true Bool.false_ne_true rfl
  · exact iff_of_false (not_not_intro rfl) Bool.false_ne_true
  · rw [finite_lt, finite_le, not_lt]

variable {s : BayesianSearch Extended} {t : ℚ}

/-- What a legible candidate misses a finite target by, and its appeal. -/
theorem acquisition_falls (ht : s.target = finite t) {anchor c : Assignment Extended} (hc : c.Legible s.parameters)
    (hanchor : anchor.Legible s.parameters) :
    ∃ g : Extended, g.Amount ∧ Misses s.parameters s.target anchor c g ∧ s.acquisition c anchor = .ok (finite (fall g)) := by
  obtain ⟨d, hd⟩ := Assignment.distance_legible hc hanchor
  have hrun : s.acquisition c anchor = .ok (appeal s.target d) := by
    unfold acquisition
    rw [hd]
    rfl
  rw [hrun, ht]
  rcases Assignment.distance_defined hd with rfl | ⟨q, rfl⟩
  · exact ⟨infinite false, .inl rfl, ⟨_, hd, rfl⟩, rfl⟩
  · refine ⟨finite |q - t|, .inr ⟨_, rfl, abs_nonneg _⟩, ⟨_, hd, ?_⟩, ?_⟩
    · rw [finite_sub, embeds.magnitude]
    · unfold appeal
      have hpos : 1 + |q - t| ≠ 0 := by positivity
      rw [finite_sub, embeds.magnitude, one_eq, finite_add, finite_div _ hpos]
      rfl

/-! ## The anchor -/

/-- The score of an observation in an objective, turned so that a larger one is better. It has to be a
finite number. -/
def Scores (objective : String) (o : Observation Extended) (q : ℚ) : Prop :=
  ∃ v x r, Object.get? o.scores objective = some v ∧ v.number? = some x ∧ x.value = finite r ∧
    q = if Objective.isMaximized objective then r else -r

/-- The earliest observation with the largest score, among those that have one. -/
def IsAnchor (objective : String) (told : List (Observation Extended)) (o : Observation Extended) : Prop :=
  ∃ before after q, told = before ++ o :: after ∧ Scores objective o q ∧
    (∀ o' ∈ before, ∀ q', Scores objective o' q' → q' < q) ∧ ∀ o' ∈ after, ∀ q', Scores objective o' q' → q' ≤ q

omit [ExactArithmetic] in
theorem number?_ok {α : Type} {v : Value α} {found : Option (Num α)} (h : Objective.number? v = .ok found) :
    found = v.number? := by
  unfold Objective.number? at h
  split at h
  · cases h
    rfl
  · split at h
    · rename_i n hn
      split_ifs at h
      cases h
      exact hn.symm
    · rename_i x _ hx
      cases h
      exact hx.symm
    · cases h

theorem orient_finite (name : String) (r : ℚ) :
    Objective.orient name (finite r) = finite (if Objective.isMaximized name then r else -r) := by
  unfold Objective.orient
  split_ifs <;> rfl

/-- A score that can be read is a finite number, or counts as negative infinity. -/
theorem scores_iff {objective : String} {o : Observation Extended} {x : Extended}
    (h : Objective.oriented o.scores objective = .ok x) (q : ℚ) : Scores objective o q ↔ x = finite q := by
  have hminus : (Scalar.negativeInfinity : Extended) ≠ finite q := nofun
  unfold Scores
  obtain ⟨found, hfound, h⟩ := bind_ok h
  have hnumber := number?_ok hfound
  cases hget : Object.get? o.scores objective with
  | none =>
    rw [hget] at hnumber
    cases hnumber
    cases h
    exact iff_of_false (by simp) hminus
  | some v =>
    rw [hget] at hnumber
    simp only [Option.some.injEq, exists_and_left, exists_eq_left']
    change found = v.number? at hnumber
    rw [← hnumber]
    cases found with
    | none =>
      cases h
      exact iff_of_false (by simp) hminus
    | some y =>
      cases h
      simp only [Option.some.injEq, exists_eq_left']
      cases hvalue : y.value with
      | finite r =>
        rw [isFinite_finite, if_pos rfl, orient_finite]
        simp only [finite.injEq, exists_eq_left']
        exact eq_comm
      | infinite b => exact iff_of_false (by simp) hminus
      | undefined => exact iff_of_false (by simp) hminus

/-- The finite score of an observation, as far as it has one. -/
def number : Extended → ℚ
  | finite q => q
  | _ => 0

theorem eq_number {x : Extended} (h : Scalar.isFinite x = true) : x = finite (number x) := by
  obtain ⟨q, rfl⟩ := isFinite_iff.1 h
  rfl

/-- The best observation is the first largest one of those with a finite score. -/
theorem best_eq {score : Observation Extended → Extended}
    (hscore : ∀ o ∈ s.observations, Objective.oriented o.scores s.objective = .ok (score o)) :
    s.best = .ok ((firstLargest ((s.observations.filter fun o => Scalar.isFinite (score o)).map
      fun o => (o, finite (number (score o))))).map (·.1)) := by
  unfold best
  rw [mapM_beside hscore]
  refine congrArg (fun items : List (Observation Extended × Extended) => Except.ok ((firstLargest items).map (·.1))) ?_
  rw [List.filter_map]
  refine List.map_congr_left fun o ho => ?_
  rw [← eq_number (List.mem_filter.1 ho).2]

/-- The best observation is the anchor. There is none if no observation has a score. -/
theorem best_anchor (hlegible : ∀ o ∈ s.observations, s.Legible o) :
    (s.best = .ok none ∧ ∀ o ∈ s.observations, ∀ q, ¬ Scores s.objective o q) ∨
      ∃ o, s.best = .ok (some o) ∧ IsAnchor s.objective s.observations o := by
  have hscores : ∀ o ∈ s.observations, ∃ x, Objective.oriented o.scores s.objective = .ok x := fun o ho =>
    (hlegible o ho).scores
  choose! score hscore using hscores
  have hbest := best_eq hscore
  have hmeans : ∀ o ∈ s.observations, ∀ q, Scores s.objective o q ↔ score o = finite q := fun o ho => scores_iff (hscore o ho)
  have hfinite : ∀ o ∈ s.observations, ∀ q, Scores s.objective o q →
      Scalar.isFinite (score o) = true ∧ number (score o) = q := by
    intro o ho q hq
    rw [(hmeans o ho q).1 hq]
    exact ⟨rfl, rfl⟩
  by_cases hnone : s.observations.filter (fun o => Scalar.isFinite (score o)) = []
  · refine .inl ⟨?_, fun o ho q hq => ?_⟩
    · rw [hbest, hnone]
      rfl
    · exact List.filter_eq_nil_iff.1 hnone o ho (hfinite o ho q hq).1
  · obtain ⟨before, o, after, hsplit, hfirst, hlargest⟩ := firstLargest_split (fun o => number (score o)) hnone
    rw [hlargest] at hbest
    obtain ⟨front, back, hobservations, ho, hfront, hback⟩ := hfirst.unfiltered hsplit
    have hmem : ∀ o' ∈ front ++ o :: back, o' ∈ s.observations := fun o' ho' => hobservations ▸ ho'
    refine .inr ⟨o, hbest, front, back, number (score o), hobservations, ?_, ?_, ?_⟩
    · exact (hmeans o (hmem o (by simp)) _).2 (eq_number ho)
    · intro o' ho' q' hq'
      obtain ⟨hfinite', rfl⟩ := hfinite o' (hmem o' (List.mem_append_left _ ho')) q' hq'
      exact hfront o' ho' hfinite'
    · intro o' ho' q' hq'
      obtain ⟨hfinite', rfl⟩ := hfinite o' (hmem o' (by simp [ho'])) q' hq'
      exact hback o' ho' hfinite'

end BayesianSearch

/-! ## What is drawn -/

section

variable {σ α : Type} [Scalar α] [RandomSource σ α]

/-- A source after so many scalars were drawn from it. -/
def RandomSource.after (α : Type) [RandomSource σ α] (n : ℕ) : σ → σ :=
  (fun source => (RandomSource.unit source : α × σ).2)^[n]

namespace Sampling

/-- How many scalars are drawn for one sample. -/
def draws (ps : List (Parameter α)) : ℕ := ps.countP fun p => p.dimension.isSome

theorem times_advance (d : Dimension α) (n : ℕ) (source : σ) :
    ((Draw.times (drawFrom d) n : StateM σ (List α)).run source).2 = RandomSource.after α n source := by
  induction n generalizing source with
  | zero => rfl
  | succ n ih =>
    unfold RandomSource.after
    rw [Function.iterate_succ_apply]
    exact ih _

theorem column_advance (n : ℕ) (p : Parameter α) (source : σ) : ((column n p : StateM σ (List α)).run source).2 =
    RandomSource.after α (if p.dimension.isSome then n else 0) source := by
  unfold column
  cases p.dimension with
  | none => rfl
  | some d => exact times_advance d n source

theorem extend_advance (n : ℕ) (ps : List (Parameter α)) (rows : List (Assignment α)) (source : σ) :
    ((extend n ps rows : StateM σ (List (Assignment α))).run source).2 = RandomSource.after α (n * draws ps) source := by
  induction ps generalizing rows source with
  | nil => rfl
  | cons p ps ih =>
    have hdraws : n * draws (p :: ps) = n * draws ps + if p.dimension.isSome then n else 0 := by
      unfold draws
      rw [List.countP_cons]
      split_ifs <;> ring
    have hrest := ih (putColumn p ((column n p : StateM σ (List α)).run source).1 rows)
      ((column n p : StateM σ (List α)).run source).2
    rw [hdraws]
    unfold RandomSource.after at hrest ⊢
    rw [Function.iterate_add_apply]
    refine hrest.trans (congrArg _ ?_)
    exact column_advance n p source

/-- Samples are drawn one scalar for each value that is not fixed, and nothing more. -/
theorem samples_advance (ps : List (Parameter α)) (n : ℕ) (source : σ) :
    ((samples ps n : StateM σ (List (Assignment α))).run source).2 = RandomSource.after α (n * draws ps) source :=
  extend_advance n ps _ source

/-- Samples can be read, whatever was drawn. -/
theorem samples_legible (ps : List (Parameter α)) (n : ℕ) (source : σ) :
    ((samples ps n : StateM σ (List (Assignment α))).run source).1.length = n ∧
      ∀ c ∈ ((samples ps n : StateM σ (List (Assignment α))).run source).1, c.Legible ps := by
  have hany : Parameter.Domain σ (fun (_ : Parameter α) _ => True) ps :=
    { agrees := fun _ _ _ _ _ _ _ => trivial
      drawn := fun _ _ _ _ _ => trivial
      fixed := fun _ _ _ => trivial
      blended := fun _ _ _ _ _ _ _ => trivial
      moved := fun _ _ _ _ _ _ => trivial
      chosen := fun _ _ _ _ => trivial }
  obtain ⟨hlength, hfilled⟩ := samples_yields hany n source
  exact ⟨hlength, fun c hc => (hfilled c hc).legible⟩

end Sampling

end

/-! ## Suggestions -/

namespace BayesianSearch

open Extended

section

variable {σ α : Type} [Scalar α] [RandomSource σ α] {s : BayesianSearch α}

theorem suggest_unscored (h : s.best = .ok none) (source : σ) :
    (s.suggest : Draw σ α (Assignment α)).run.run source =
      (.ok (((Sampling.samples s.parameters 1 : StateM σ (List (Assignment α))).run source).1.headD []),
        ((Sampling.samples s.parameters 1 : StateM σ (List (Assignment α))).run source).2) := by
  unfold suggest
  rw [h]
  rfl

theorem suggest_anchored {anchor : Observation α} (h : s.best = .ok (some anchor)) (source : σ)
    {drawn : List (Assignment α)} {appeals : List α} {next : σ}
    (hdrawn : (Sampling.samples s.parameters s.candidates : StateM σ (List (Assignment α))).run source = (drawn, next))
    (happeals : (drawn.mapM fun c => s.acquisition c anchor.assignment) = .ok appeals) :
    (s.suggest : Draw σ α (Assignment α)).run.run source = (.ok (drawn.getD (positionOfLargest appeals) []), next) := by
  unfold suggest
  rw [h]
  change (Draw.ofValue (((Sampling.samples s.parameters s.candidates : StateM σ (List (Assignment α))).run source).1.mapM
      fun c => s.acquisition c anchor.assignment) >>= fun appeals =>
        pure (((Sampling.samples s.parameters s.candidates : StateM σ (List (Assignment α))).run source).1.getD
          (positionOfLargest appeals) []) : Draw σ α (Assignment α)).run.run
    ((Sampling.samples s.parameters s.candidates : StateM σ (List (Assignment α))).run source).2 = _
  rw [hdrawn, happeals]
  rfl

end

variable [ExactArithmetic] {σ : Type} [RandomSource σ Extended]

/-- Near an anchor the first candidate is suggested that is nearest to the target. -/
theorem suggest_nearest {s : BayesianSearch Extended} {t : ℚ} (ht : s.target = finite t) (hcandidates : 0 < s.candidates)
    {anchor : Observation Extended} (hbest : s.best = .ok (some anchor)) (hanchor : anchor.assignment.Legible s.parameters)
    (source : σ) : ∃ c, FirstNearest s.parameters s.target anchor.assignment
      ((Sampling.samples s.parameters s.candidates : StateM σ (List (Assignment Extended))).run source).1 c ∧
        (s.suggest : Draw σ Extended (Assignment Extended)).run.run source =
          (.ok c, RandomSource.after Extended (s.candidates * Sampling.draws s.parameters) source) := by
  obtain ⟨hlength, hlegible⟩ := Sampling.samples_legible s.parameters s.candidates source
  have hnext := Sampling.samples_advance s.parameters s.candidates source
  rcases hdrawn : (Sampling.samples s.parameters s.candidates : StateM σ (List (Assignment Extended))).run source with
    ⟨drawn, next⟩
  rw [hdrawn] at hlength hlegible hnext
  choose! gap hamount hmisses happeal using fun c hc => acquisition_falls ht (hlegible c hc) hanchor
  have hne : drawn ≠ [] := List.length_pos_iff.1 (hlength ▸ hcandidates)
  obtain ⟨before, c, after, hsplit, hfirst, hposition⟩ := positionOfLargest_split (fun c => fall (gap c)) hne
  have hmem : ∀ c', c' ∈ before ++ c :: after → c' ∈ drawn := fun c' hc' => hsplit ▸ hc'
  have hc : c ∈ drawn := hmem c (by simp)
  refine ⟨c, ⟨before, after, gap c, hsplit, hmisses c hc, fun c' hc' => ?_, fun c' hc' => ?_⟩, ?_⟩
  · have hc'' : c' ∈ drawn := hmem c' (by simp [hc'])
    exact ⟨gap c', hmisses c' hc'', (fall_lt (hamount c' hc'') (hamount c hc)).1 (hfirst.earlier c' hc')⟩
  · have hc'' : c' ∈ drawn := hmem c' (by simp [hc'])
    exact ⟨gap c', hmisses c' hc'', (fall_le (hamount c' hc'') (hamount c hc)).1 (hfirst.later c' hc')⟩
  · rw [suggest_anchored hbest source hdrawn (mapM_ok happeal), hposition, ← hnext]
    have hfound : drawn.getD before.length [] = c := by simp [hsplit]
    rw [hfound]

/-- What a search suggests after any observations that can be read. If none of them has a finite number as
its score in the first objective, the next sample is suggested. Otherwise the earliest of those with the
largest score is the anchor, and of the candidates that are drawn the first one is suggested whose distance
from it is nearest to the target. One sample is drawn in the first case, and the candidates in the second. -/
theorem suggest_rule (ps : List (Parameter Extended)) (first : String) (others : List String) (candidates : ℤ) (t : ℚ) :
    ∃ search, start ps (first :: others) candidates (finite t) = .ok search ∧
      ∀ told : List (Observation Extended),
        (∀ o ∈ told, o.assignment.Legible ps ∧ ∃ x, Objective.oriented o.scores first = .ok x) → ∀ source : σ,
          ((∀ o ∈ told, ∀ q, ¬ Scores first o q) → ∃ c,
            ((Sampling.samples ps 1 : StateM σ (List (Assignment Extended))).run source).1 = [c] ∧
              ((told.foldl observe search).suggest : Draw σ Extended (Assignment Extended)).run.run source =
                (.ok c, RandomSource.after Extended (Sampling.draws ps) source)) ∧
          ((∃ o ∈ told, ∃ q, Scores first o q) → ∃ anchor c, IsAnchor first told anchor ∧
            FirstNearest ps (finite t) anchor.assignment
              ((Sampling.samples ps (max 1 candidates.toNat) : StateM σ (List (Assignment Extended))).run source).1 c ∧
              ((told.foldl observe search).suggest : Draw σ Extended (Assignment Extended)).run.run source =
                (.ok c, RandomSource.after Extended (max 1 candidates.toNat * Sampling.draws ps) source)) := by
  refine ⟨_, rfl, fun told htold source => ?_⟩
  rw [observe_all, List.nil_append]
  let s : BayesianSearch Extended :=
    { parameters := ps, objective := first, candidates := max 1 candidates.toNat, target := finite t, observations := told }
  have hlegible : ∀ o ∈ s.observations, s.Legible o := fun o ho => ⟨(htold o ho).1, (htold o ho).2⟩
  rcases best_anchor hlegible with ⟨hbest, hnone⟩ | ⟨anchor, hbest, hanchor⟩
  · refine ⟨fun _ => ?_, ?_⟩
    · obtain ⟨hlength, -⟩ := Sampling.samples_legible ps 1 source
      obtain ⟨c, hc⟩ := List.length_eq_one_iff.1 hlength
      refine ⟨c, hc, ?_⟩
      rw [suggest_unscored hbest source, Sampling.samples_advance, hc, one_mul]
      rfl
    · rintro ⟨o, ho, q, hq⟩
      exact absurd hq (hnone o ho q)
  · have hmem : anchor ∈ told := by
      obtain ⟨before, after, q, hsplit, -⟩ := hanchor
      rw [show told = before ++ anchor :: after from hsplit]
      simp
    refine ⟨fun hnone => ?_, fun _ => ?_⟩
    · obtain ⟨-, -, q, -, hq, -⟩ := hanchor
      exact absurd hq (hnone anchor hmem q)
    · have hcandidates : 0 < s.candidates := Nat.lt_of_lt_of_le Nat.zero_lt_one (Nat.le_max_left 1 candidates.toNat)
      obtain ⟨c, hnearest, hrun⟩ := suggest_nearest rfl hcandidates hbest (htold anchor hmem).1 source
      exact ⟨anchor, c, hanchor, hnearest, hrun⟩

section

local instance openPartsOfDrawdowns : ExactArithmetic := default

/-- Two drawdowns, of which the smaller one is better, one that is undefined, and one that is missing. -/
def drawdowns : List (Observation Extended) :=
  [⟨[], [(.text "max_drawdown", .real (finite 10))]⟩, ⟨[], [(.text "max_drawdown", .real (finite 5))]⟩,
    ⟨[], [(.text "max_drawdown", .real undefined)]⟩, ⟨[], []⟩]

/-- A suggestion near the smaller drawdown. -/
theorem drawdowns_suggestion : ∃ search : BayesianSearch Extended,
    start slippageAndTier ["max_drawdown"] 20 (finite (1 / 5)) = .ok search ∧
      ∃ anchor c, IsAnchor "max_drawdown" drawdowns anchor ∧
        FirstNearest slippageAndTier (finite (1 / 5)) anchor.assignment ((Sampling.samples slippageAndTier 20 :
            StateM Twister (List (Assignment Extended))).run (Twister.ofSeed 9)).1 c ∧
          ((drawdowns.foldl observe search).suggest : Draw Twister Extended (Assignment Extended)).run.run
            (Twister.ofSeed 9) =
              (.ok c, RandomSource.after Extended (20 * Sampling.draws slippageAndTier) (Twister.ofSeed 9)) := by
  obtain ⟨search, hstart, hrule⟩ := suggest_rule (σ := Twister) slippageAndTier "max_drawdown" [] 20 (1 / 5)
  refine ⟨search, hstart, (hrule drawdowns ?_ (Twister.ofSeed 9)).2 ⟨_, List.mem_cons_self, -10, ?_⟩⟩
  · intro o ho
    simp only [drawdowns, List.mem_cons, List.not_mem_nil, or_false] at ho
    rcases ho with rfl | rfl | rfl | rfl <;> exact ⟨fun p _ => ⟨none, rfl⟩, _, rfl⟩
  · exact ⟨_, _, 10, rfl, rfl, rfl, by decide⟩

end

end BayesianSearch

end StrategyLab
