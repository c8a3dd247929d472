/-
By how much a strategy is worse out of sample than in sample, over scores by the names of objectives. The objectives
that count are those with a finite score in both samples that is not zero in sample, and the degradation is the mean
of what they lose (`ofScores_counted`). It sees the scores that count and nothing else of the two maps, since the
same scores make up the same terms in some order (`counted_perm`).

Main statement: there is always a degradation, it is not negative, it is zero exactly if no objective that counts
is worse out of sample, a worse score never lowers it, and scaling both scores of an objective leaves it
(`degradation_law`).
-/
import StrategyLab.Proofs.Agree
import StrategyLab.Proofs.Number.Extended
import StrategyLab.Proofs.Value.Alike
import StrategyLab.WalkForward.Window

namespace StrategyLab

/-! ## Scores -/

/-- Scores by the names of objectives; a score may be missing. -/
structure ScoreMap where
  entries : List (String × Option Extended)
  distinct : (entries.map (·.1)).Nodup

namespace ScoreMap

/-- A score as a value. -/
def written : Option Extended → Value Extended
  | some x => .real x
  | none => .null

/-- Scores as named values. -/
def toObject (m : ScoreMap) : Object Extended := m.entries.map fun (name, x) => (.text name, written x)

/-- The score of an objective. -/
def score? (m : ScoreMap) (name : String) : Option Extended := (m.entries.lookup name).join

/-- Two maps have the same scores of all objectives but one. -/
def AgreeExcept (m n : ScoreMap) (name : String) : Prop := ∀ other, other ≠ name → m.score? other = n.score? other

theorem score?_eq_some (m : ScoreMap) {name : String} {x : Extended} :
    m.score? name = some x ↔ (name, some x) ∈ m.entries := by
  unfold score?
  rw [Option.join_eq_some_iff]
  exact ⟨mem_of_lookup, lookup_of_mem m.distinct⟩

/-- The scores do not see the order. -/
theorem score?_perm {m n : ScoreMap} (h : m.entries.Perm n.entries) (name : String) : m.score? name = n.score? name := by
  unfold score?
  rw [lookup_perm h m.distinct]

variable [ExactArithmetic]

theorem get?_toObject (m : ScoreMap) (name : String) :
    Object.get? m.toObject name = (m.entries.lookup name).map written := by
  unfold toObject
  induction m.entries with
  | nil => rfl
  | cons e rest ih =>
    obtain ⟨first, x⟩ := e
    rw [List.map_cons, Object.get?_cons, List.lookup_cons, ih]
    by_cases hname : name = first
    · subst hname
      rw [if_pos (Object.same_text.2 rfl), beq_self_eq_true]
      rfl
    · rw [if_neg fun h => hname (Key.text.inj (Object.same_text.1 h)).symm, beq_eq_false_iff_ne.2 hname]

/-- The oriented score of an objective in the one map is at most that in the other. -/
def AtMost (m n : ScoreMap) (name : String) : Prop :=
  ∃ x y, Objective.oriented m.toObject name = .ok x ∧ Objective.oriented n.toObject name = .ok y ∧ x ≤ y

theorem oriented_finite {m : ScoreMap} {name : String} {q : ℚ} (h : m.score? name = some (.finite q)) :
    Objective.oriented m.toObject name = .ok (.finite (Objective.orient name q)) := by
  have hlookup : m.entries.lookup name = some (some (.finite q)) := Option.join_eq_some_iff.1 h
  unfold Objective.oriented Objective.orient
  rw [get?_toObject, hlookup]
  cases Objective.isMaximized name <;> rfl

theorem atMost_iff {m n : ScoreMap} {name : String} {x y : ℚ} (hm : m.score? name = some (.finite x))
    (hn : n.score? name = some (.finite y)) :
    m.AtMost n name ↔ Objective.orient name x ≤ Objective.orient name y := by
  unfold AtMost
  rw [oriented_finite hm, oriented_finite hn]
  constructor
  · rintro ⟨_, _, ⟨⟩, ⟨⟩, h⟩
    exact Extended.finite_le.1 h
  · intro h
    exact ⟨_, _, rfl, rfl, Extended.finite_le.2 h⟩

end ScoreMap

namespace Degradation

variable {inside outside inside' outside' : ScoreMap}

/-! ## Objectives that count -/

/-- An objective counts, with its scores in sample and out of sample. -/
structure Counted (inside outside : ScoreMap) (name : String) (x y : ℚ) : Prop where
  inside : inside.score? name = some (.finite x)
  nonzero : x ≠ 0
  outside : outside.score? name = some (.finite y)

/-- The scores of an entry in sample, if there are any. -/
def pair? (outside : ScoreMap) (e : String × Option Extended) : Option (Pair Extended) :=
  match e.2, outside.score? e.1 with
  | some x, some y => some ⟨e.1, x, y⟩
  | _, _ => none

/-- The scores of an entry in sample, if it counts. -/
def counted? (outside : ScoreMap) (e : String × Option Extended) : Option (Pair ℚ) :=
  match e.2, outside.score? e.1 with
  | some (.finite x), some (.finite y) => if x = 0 then none else some ⟨e.1, x, y⟩
  | _, _ => none

/-- The scores that count. -/
def counted (inside outside : ScoreMap) : List (Pair ℚ) := inside.entries.filterMap (counted? outside)

theorem counted?_eq_some {e : String × Option Extended} {p : Pair ℚ} : counted? outside e = some p ↔
    e = (p.name, some (.finite p.inside)) ∧ p.inside ≠ 0 ∧ outside.score? p.name = some (.finite p.outside) := by
  obtain ⟨name, x⟩ := e
  obtain ⟨name', x', y'⟩ := p
  unfold counted?
  constructor
  · intro h
    split at h
    · rename_i x y hx hy
      split_ifs at h with hzero
      cases h
      exact ⟨by rw [← hx], hzero, hy⟩
    · cases h
  · rintro ⟨⟨⟩, hzero, hy⟩
    simp only [hy, if_neg hzero]

theorem mem_counted {p : Pair ℚ} : p ∈ counted inside outside ↔ Counted inside outside p.name p.inside p.outside := by
  unfold counted
  rw [List.mem_filterMap]
  constructor
  · rintro ⟨e, he, hp⟩
    obtain ⟨rfl, hzero, hy⟩ := counted?_eq_some.1 hp
    exact ⟨inside.score?_eq_some.2 he, hzero, hy⟩
  · rintro ⟨hx, hzero, hy⟩
    exact ⟨_, inside.score?_eq_some.1 hx, counted?_eq_some.2 ⟨rfl, hzero, hy⟩⟩

/-- An objective has one term. -/
theorem counted_unique {p q : Pair ℚ} (hp : p ∈ counted inside outside) (hq : q ∈ counted inside outside)
    (hname : p.name = q.name) : p = q := by
  obtain ⟨name, x, y⟩ := p
  obtain ⟨name', x', y'⟩ := q
  obtain ⟨hx, -, hy⟩ := mem_counted.1 hp
  obtain ⟨hx', -, hy'⟩ := mem_counted.1 hq
  cases hname
  cases hx.symm.trans hx'
  cases hy.symm.trans hy'
  rfl

theorem counted_nodup : (counted inside outside).Nodup := by
  refine inside.distinct.of_map.filterMap fun e e' p hp hp' => ?_
  rw [(counted?_eq_some.1 hp).1, (counted?_eq_some.1 hp').1]

/-- Maps that have the same terms under a change of the scores have them in some order. -/
theorem counted_perm {f : Pair ℚ → Pair ℚ} (hname : ∀ p, (f p).name = p.name)
    (h : ∀ q, q ∈ counted inside' outside' ↔ ∃ p ∈ counted inside outside, f p = q) :
    (counted inside' outside').Perm ((counted inside outside).map f) := by
  refine (List.perm_ext_iff_of_nodup counted_nodup (counted_nodup.map_on fun p hp q hq hpq => ?_)).2 fun q => ?_
  · refine counted_unique hp hq ?_
    rw [← hname p, ← hname q, hpq]
  · rw [h, List.mem_map]

/-! ## Changes at one objective -/

/-- The scores of one objective changed. -/
def changeAt (name : String) (g h : ℚ → ℚ) (p : Pair ℚ) : Pair ℚ :=
  if p.name = name then ⟨p.name, g p.inside, h p.outside⟩ else p

theorem changeAt_name (name : String) (g h : ℚ → ℚ) (p : Pair ℚ) : (changeAt name g h p).name = p.name := by
  unfold changeAt
  split_ifs <;> rfl

/-- The finite score of an objective is changed, and no other score is. -/
structure Changed (m m' : ScoreMap) (name : String) (g : ℚ → ℚ) : Prop where
  finite (q : ℚ) : m'.score? name = some (.finite q) ↔ ∃ p, m.score? name = some (.finite p) ∧ g p = q
  others : m'.AgreeExcept m name

/-- A change that makes no score zero, and none of zero, changes the scores that count. -/
theorem counted_changed {name : String} {g h : ℚ → ℚ} (hg : Changed inside inside' name g)
    (hh : Changed outside outside' name h) (hzero : ∀ x, g x = 0 ↔ x = 0) (q : Pair ℚ) :
    q ∈ counted inside' outside' ↔ ∃ p ∈ counted inside outside, changeAt name g h p = q := by
  unfold changeAt
  rw [mem_counted]
  constructor
  · rintro ⟨hx, hne, hy⟩
    by_cases hname : q.name = name
    · rw [hname] at hx hy
      obtain ⟨x, hx, hgx⟩ := (hg.finite _).1 hx
      obtain ⟨y, hy, hhy⟩ := (hh.finite _).1 hy
      refine ⟨⟨name, x, y⟩, mem_counted.2 ⟨hx, fun h => hne ?_, hy⟩, ?_⟩
      · rw [← hgx, hzero]
        exact h
      · rw [if_pos rfl, hgx, hhy, ← hname]
    · rw [hg.others _ hname] at hx
      rw [hh.others _ hname] at hy
      exact ⟨q, mem_counted.2 ⟨hx, hne, hy⟩, if_neg hname⟩
  · rintro ⟨p, hp, rfl⟩
    obtain ⟨hx, hne, hy⟩ := mem_counted.1 hp
    split_ifs with hname
    · rw [hname] at hx hy
      refine ⟨?_, fun h => hne ((hzero _).1 h), ?_⟩
      · rw [hname]
        exact (hg.finite _).2 ⟨_, hx, rfl⟩
      · rw [hname]
        exact (hh.finite _).2 ⟨_, hy, rfl⟩
    · exact ⟨(hg.others _ hname).trans hx, hne, (hh.others _ hname).trans hy⟩

section Losses

variable [ExactArithmetic]

/-! ## The mean of the losses -/

theorem average_embeds {α : Type} [Scalar α] {e : ℚ → α} (h : Scalar.Embeds e) (xs : List ℚ) :
    average (xs.map e) = e (xs.sum / xs.length) := by
  unfold average
  cases xs with
  | nil => exact h.zero.trans (by norm_num)
  | cons x xs =>
    have hlength : ((x :: xs).length : ℚ) ≠ 0 := Nat.cast_ne_zero.2 (Nat.succ_ne_zero _)
    rw [List.map_cons, List.isEmpty_cons, if_neg Bool.false_ne_true, ← List.map_cons, h.sumLeft, List.length_map,
      h.ofNat, h.div _ hlength]

theorem average_exact (xs : List ℚ) : average xs = xs.sum / xs.length := by
  simpa using average_embeds Scalar.embeds_exact xs

/-- A loss of scores that count is that of the rational numbers. -/
theorem deterioration_embeds {α : Type} [Scalar α] {e : ℚ → α} (h : Scalar.Embeds e) (name : String) {x : ℚ} (hx : x ≠ 0)
    (y : ℚ) : deterioration ⟨name, e x, e y⟩ = e (deterioration ⟨name, x, y⟩) := by
  unfold deterioration change
  dsimp only
  rw [h.literal 0, h.literal 1000, h.magnitude, Scalar.magnitude_exact, h.sub, h.sub, ← apply_ite e,
    h.div _ (abs_ne_zero.2 hx), h.mul, h.greatest, Scalar.greatest_exact]

/-- A loss in percent of the magnitude in sample, by the oriented scores. -/
theorem deterioration_exact (p : Pair ℚ) : deterioration p =
    max 0 ((Objective.orient p.name p.inside - Objective.orient p.name p.outside) / |p.inside| * 100) := by
  have hlost : (if Objective.isMaximized p.name then p.inside - p.outside else p.outside - p.inside) =
      Objective.orient p.name p.inside - Objective.orient p.name p.outside := by
    unfold Objective.orient
    split_ifs
    · rfl
    · ring
  unfold deterioration change
  rw [hlost, Scalar.magnitude_exact, Scalar.greatest_exact]
  norm_num

theorem deterioration_nonneg (p : Pair ℚ) : 0 ≤ deterioration p := by
  rw [deterioration_exact]
  exact le_max_left ..

theorem deterioration_eq_zero {p : Pair ℚ} (hp : p.inside ≠ 0) :
    deterioration p = 0 ↔ Objective.orient p.name p.inside ≤ Objective.orient p.name p.outside := by
  have hmagnitude : 0 < |p.inside| := abs_pos.2 hp
  rw [deterioration_exact, max_eq_left_iff]
  constructor
  · intro h
    by_contra! hworse
    have hlost := sub_pos.2 hworse
    have hloss : 0 < (Objective.orient p.name p.inside - Objective.orient p.name p.outside) / |p.inside| * 100 := by
      positivity
    exact absurd h hloss.not_ge
  · intro h
    have hloss := div_nonpos_of_nonpos_of_nonneg (sub_nonpos.2 h) hmagnitude.le
    linarith

/-- A worse score out of sample has no smaller loss. -/
theorem deterioration_anti (name : String) (x : ℚ) {y z : ℚ} (h : Objective.orient name z ≤ Objective.orient name y) :
    deterioration ⟨name, x, y⟩ ≤ deterioration ⟨name, x, z⟩ := by
  rw [deterioration_exact, deterioration_exact]
  dsimp only
  gcongr

theorem deterioration_scaled {c : ℚ} (hc : 0 < c) (name : String) (x y : ℚ) :
    deterioration ⟨name, x * c, y * c⟩ = deterioration ⟨name, x, y⟩ := by
  have horient (q : ℚ) : Objective.orient name (q * c) = Objective.orient name q * c := by
    unfold Objective.orient
    split_ifs
    · rfl
    · exact (neg_mul q c).symm
  rw [deterioration_exact, deterioration_exact]
  dsimp only
  rw [horient, horient, ← sub_mul, abs_mul, abs_of_pos hc, mul_div_mul_right _ _ hc.ne']

/-- The mean of the losses. -/
def meanLoss (inside outside : ScoreMap) : ℚ := average ((counted inside outside).map deterioration)

theorem pairs_toObject (inside outside : ScoreMap) :
    pairs inside.toObject outside.toObject = .ok (inside.entries.filterMap (pair? outside)) := by
  unfold pairs ScoreMap.toObject
  induction inside.entries with
  | nil => rfl
  | cons e rest ih =>
    obtain ⟨name, x⟩ := e
    have hfind := outside.get?_toObject name
    unfold Object.get? at hfind
    unfold ScoreMap.toObject at hfind
    rw [List.map_cons, filterMapM_step, ih]
    simp only [pair?, ScoreMap.score?, List.filterMap_cons, hfind]
    cases x with
    | none => rfl
    | some x =>
      cases outside.entries.lookup name with
      | none => rfl
      | some y => cases y <;> rfl

/-- The loss of an entry that counts, among the extended scalars and in rational numbers. -/
theorem loss_entry (outside : ScoreMap) (e : String × Option Extended) :
    ((pair? outside e).filter counts).map deterioration =
      ((counted? outside e).map deterioration).map .finite := by
  obtain ⟨name, x⟩ := e
  unfold pair? counted?
  cases x with
  | none => rfl
  | some x =>
    cases hy : outside.score? name with
    | none => cases x <;> rfl
    | some y =>
      cases x with
      | infinite _ | undefined => rfl
      | finite x =>
        cases y with
        | infinite _ | undefined => simp [counts]
        | finite y =>
          have hcounts : counts ⟨name, Extended.finite x, Extended.finite y⟩ = !(x == 0) := by
            simp [counts, Extended.embeds.zero, Extended.embeds.equal]
          rcases eq_or_ne x 0 with rfl | hx
          · simp [hcounts]
          · simp [hcounts, hx, deterioration_embeds Extended.embeds name hx]

/-- The degradation is the mean of the losses of the scores that count. -/
theorem ofScores_counted (inside outside : ScoreMap) :
    ofScores inside.toObject outside.toObject = .ok (.finite (meanLoss inside outside)) := by
  have hlosses : ((inside.entries.filterMap (pair? outside)).filter counts).map deterioration =
      ((counted inside outside).map deterioration).map .finite := by
    unfold counted
    rw [List.filter_filterMap, List.map_filterMap, List.map_filterMap, List.map_filterMap]
    exact List.filterMap_congr fun e _ => loss_entry outside e
  unfold ofScores
  rw [pairs_toObject]
  change Except.ok (ofPairs _) = _
  unfold ofPairs meanLoss
  rw [hlosses, average_embeds Extended.embeds, average_exact]

/-! ## The degradation law -/

theorem meanLoss_eq (inside outside : ScoreMap) : meanLoss inside outside =
    ((counted inside outside).map deterioration).sum / (counted inside outside).length := by
  unfold meanLoss
  rw [average_exact, List.length_map]

theorem meanLoss_nonneg (inside outside : ScoreMap) : 0 ≤ meanLoss inside outside := by
  rw [meanLoss_eq]
  refine div_nonneg (List.sum_nonneg fun loss hloss => ?_) (Nat.cast_nonneg _)
  obtain ⟨p, -, rfl⟩ := List.mem_map.1 hloss
  exact deterioration_nonneg p

/-- The mean under a change of the scores that leaves the names. -/
theorem meanLoss_perm {f : Pair ℚ → Pair ℚ} (hname : ∀ p, (f p).name = p.name)
    (h : ∀ q, q ∈ counted inside' outside' ↔ ∃ p ∈ counted inside outside, f p = q) : meanLoss inside' outside' =
      ((counted inside outside).map fun p => deterioration (f p)).sum / (counted inside outside).length := by
  have hperm := counted_perm hname h
  rw [meanLoss_eq, (hperm.map deterioration).sum_eq, hperm.length_eq, List.map_map, List.length_map]
  rfl

/-- The degradation is zero exactly if no score that counts is worse out of sample. -/
theorem meanLoss_eq_zero (inside outside : ScoreMap) : meanLoss inside outside = 0 ↔
    ∀ name x y, Counted inside outside name x y → inside.AtMost outside name := by
  have hlosses : meanLoss inside outside = 0 ↔ ∀ p ∈ counted inside outside, deterioration p = 0 := by
    rw [meanLoss_eq, div_eq_zero_iff, Nat.cast_eq_zero, List.length_eq_zero_iff]
    constructor
    · rintro (hsum | hnone) p hp
      · refine List.all_zero_of_le_zero_le_of_sum_eq_zero (fun loss hloss => ?_) hsum (List.mem_map_of_mem hp)
        obtain ⟨p, -, rfl⟩ := List.mem_map.1 hloss
        exact deterioration_nonneg p
      · rw [hnone] at hp
        cases hp
    · intro h
      left
      rw [List.map_congr_left h, List.map_const', List.sum_replicate, smul_zero]
  rw [hlosses]
  constructor
  · intro h name x y hcounted
    rw [ScoreMap.atMost_iff hcounted.inside hcounted.outside]
    have hloss := h ⟨name, x, y⟩ (mem_counted.2 hcounted)
    exact (deterioration_eq_zero (p := ⟨name, x, y⟩) hcounted.nonzero).1 hloss
  · intro h p hp
    have hcounted := mem_counted.1 hp
    rw [deterioration_eq_zero hcounted.nonzero, ← ScoreMap.atMost_iff hcounted.inside hcounted.outside]
    exact h _ _ _ hcounted

/-- Only the scores that count are seen. -/
theorem meanLoss_congr (h : ∀ name x y, Counted inside outside name x y ↔ Counted inside' outside' name x y) :
    meanLoss inside outside = meanLoss inside' outside' := by
  have hcounted : ∀ q, q ∈ counted inside' outside' ↔ ∃ p ∈ counted inside outside, id p = q := by
    intro q
    rw [mem_counted, ← h]
    simp [mem_counted]
  rw [meanLoss_perm (fun _ => rfl) hcounted, meanLoss_eq]

/-- A worse score out of sample does not lower the degradation. -/
theorem meanLoss_le {worse : ScoreMap} {name : String} {y z : ℚ} (hy : outside.score? name = some (.finite y))
    (hz : worse.score? name = some (.finite z)) (hworse : worse.AtMost outside name)
    (hothers : worse.AgreeExcept outside name) : meanLoss inside outside ≤ meanLoss inside worse := by
  rw [ScoreMap.atMost_iff hz hy] at hworse
  have hsame : Changed inside inside name id := ⟨fun q => by simp, fun _ _ => rfl⟩
  have hchanged : Changed outside worse name fun _ => z := ⟨fun q => by simp [hy, hz], hothers⟩
  have hcounted := counted_changed hsame hchanged (fun _ => Iff.rfl)
  rw [meanLoss_perm (changeAt_name name id _) hcounted, meanLoss_eq]
  refine div_le_div_of_nonneg_right (List.sum_le_sum fun p hp => ?_) (Nat.cast_nonneg _)
  unfold changeAt
  split_ifs with hname
  · obtain ⟨-, -, hp⟩ := mem_counted.1 hp
    rw [hname, hy] at hp
    cases hp
    rw [← hname] at hworse
    exact deterioration_anti p.name p.inside hworse
  · exact le_rfl

theorem changed_scaled {m m' : ScoreMap} {name : String} {c : ℚ}
    (hscore : m'.score? name = (m.score? name).map (· * .finite c)) (hothers : m'.AgreeExcept m name) :
    Changed m m' name (· * c) := by
  refine ⟨fun q => ?_, hothers⟩
  rw [hscore, Option.map_eq_some_iff]
  constructor
  · rintro ⟨x, hx, hq⟩
    have hfinite : Scalar.isFinite (x * .finite c) = true := by rw [hq, Extended.isFinite_finite]
    obtain ⟨p, rfl⟩ := Extended.isFinite_iff.1 ((Extended.isFinite_mul ..).1 hfinite).1
    exact ⟨p, hx, Extended.finite.inj hq⟩
  · rintro ⟨p, hp, rfl⟩
    exact ⟨_, hp, rfl⟩

/-- The degradation does not see the scale of an objective. -/
theorem meanLoss_scaled {name : String} {c : ℚ} (hc : 0 < c)
    (hin : inside'.score? name = (inside.score? name).map (· * .finite c)) (hinside : inside'.AgreeExcept inside name)
    (hout : outside'.score? name = (outside.score? name).map (· * .finite c))
    (houtside : outside'.AgreeExcept outside name) : meanLoss inside' outside' = meanLoss inside outside := by
  have hcounted := counted_changed (changed_scaled hin hinside) (changed_scaled hout houtside)
    fun x => mul_eq_zero_iff_right hc.ne'
  rw [meanLoss_perm (changeAt_name name _ _) hcounted, meanLoss_eq]
  congr 2
  refine List.map_congr_left fun p _ => ?_
  unfold changeAt
  split_ifs
  · exact deterioration_scaled hc p.name p.inside p.outside
  · rfl

/-- There is a degradation of any two maps. It is not negative, and zero exactly if no objective that counts is worse
out of sample. A worse score out of sample never lowers it, the scale of an objective does not matter, and of the maps
only the scores that count are seen, in any order. -/
theorem degradation_law : ∃ d : ScoreMap → ScoreMap → ℚ,
    (∀ inside outside, ofScores inside.toObject outside.toObject = .ok (.finite (d inside outside)) ∧
      0 ≤ d inside outside ∧
      (d inside outside = 0 ↔ ∀ name x y, Counted inside outside name x y → inside.AtMost outside name)) ∧
    (∀ inside outside worse name y z, outside.score? name = some (.finite y) → worse.score? name = some (.finite z) →
      worse.AtMost outside name → worse.AgreeExcept outside name → d inside outside ≤ d inside worse) ∧
    (∀ inside outside inside' outside' name c, 0 < c → inside'.score? name = (inside.score? name).map (· * .finite c) →
      inside'.AgreeExcept inside name → outside'.score? name = (outside.score? name).map (· * .finite c) →
      outside'.AgreeExcept outside name → d inside' outside' = d inside outside) ∧
    (∀ inside outside inside' outside',
      (∀ name x y, Counted inside outside name x y ↔ Counted inside' outside' name x y) →
      d inside outside = d inside' outside') ∧
    ∀ inside outside inside' outside', inside.entries.Perm inside'.entries → outside.entries.Perm outside'.entries →
      d inside outside = d inside' outside' := by
  refine ⟨meanLoss, fun inside outside => ⟨ofScores_counted .., meanLoss_nonneg .., meanLoss_eq_zero ..⟩,
    fun _ _ _ _ _ _ => meanLoss_le, fun _ _ _ _ _ _ => meanLoss_scaled, fun _ _ _ _ => meanLoss_congr, ?_⟩
  intro inside outside inside' outside' hinside houtside
  refine meanLoss_congr fun name x y => ?_
  constructor
  · rintro ⟨hx, hzero, hy⟩
    exact ⟨by rwa [← ScoreMap.score?_perm hinside], hzero, by rwa [← ScoreMap.score?_perm houtside]⟩
  · rintro ⟨hx, hzero, hy⟩
    exact ⟨by rwa [ScoreMap.score?_perm hinside], hzero, by rwa [ScoreMap.score?_perm houtside]⟩

end Losses

/-! ## A gain that halves -/

local instance openPartsOfScores : ExactArithmetic := default

/-- A return, a drawdown and a ratio. -/
def scoresOf (gain drawdown : ℚ) (ratio : Option Extended) : ScoreMap where
  entries := [("total_return", some (.finite gain)), ("max_drawdown", some (.finite drawdown)), ("sharpe_ratio", ratio)]
  distinct := by simp

theorem agreeExcept_gain (x y drawdown : ℚ) (ratio : Option Extended) :
    (scoresOf x drawdown ratio).AgreeExcept (scoresOf y drawdown ratio) "total_return" := by
  intro other hother
  simp [ScoreMap.score?, scoresOf, List.lookup_cons, beq_eq_false_iff_ne.2 hother]

theorem agreeExcept_ratio (gain drawdown : ℚ) (r s : Option Extended) :
    (scoresOf gain drawdown r).AgreeExcept (scoresOf gain drawdown s) "sharpe_ratio" := by
  intro other hother
  simp [ScoreMap.score?, scoresOf, List.lookup_cons, beq_eq_false_iff_ne.2 hother]

/-- A gain of 2 instead of 4 is a loss of 50 percent, and a smaller drawdown is none. A ratio that is missing from a map,
or undefined, does not count. -/
theorem degradation_halved : ∃ d : ScoreMap → ScoreMap → ℚ,
    d (scoresOf 4 10 none) (scoresOf 2 8 none) = 25 ∧
    d (scoresOf 4 10 none) (scoresOf 2 8 none) ≤ d (scoresOf 4 10 none) (scoresOf (-1) 8 none) ∧
    d (scoresOf 12 10 none) (scoresOf 6 8 none) = d (scoresOf 4 10 none) (scoresOf 2 8 none) ∧
    d (scoresOf 4 10 none) (scoresOf 2 8 (some .undefined)) = d (scoresOf 4 10 (some .undefined)) (scoresOf 2 8 none) ∧
    d (scoresOf 4 10 none) (scoresOf 2 8 none) =
      d ⟨(scoresOf 4 10 none).entries.reverse, by decide⟩ ⟨(scoresOf 2 8 none).entries.reverse, by decide⟩ := by
  obtain ⟨d, hd, hworse, hscaled, hcounted, hperm⟩ := degradation_law
  refine ⟨d, ?_, ?_, ?_, ?_, ?_⟩
  · have hvalue : (ofScores (scoresOf 4 10 none).toObject (scoresOf 2 8 none).toObject).toOption = some (.finite 25) := by
      decide +kernel
    rw [(hd _ _).1] at hvalue
    exact Extended.finite.inj (Option.some.inj hvalue)
  · exact hworse _ _ _ "total_return" 2 (-1) rfl rfl ((ScoreMap.atMost_iff rfl rfl).2 (by decide +kernel))
      (agreeExcept_gain (-1) 2 8 none)
  · exact hscaled _ _ _ _ "total_return" 3 (by norm_num) (by decide +kernel) (agreeExcept_gain 12 4 10 none)
      (by decide +kernel) (agreeExcept_gain 6 2 8 none)
  · refine hcounted _ _ _ _ fun name x y => ?_
    constructor
    · rintro ⟨hx, hzero, hy⟩
      have hname : name ≠ "sharpe_ratio" := by
        rintro rfl
        cases hx
      exact ⟨(agreeExcept_ratio 4 10 _ none name hname).trans hx, hzero, (agreeExcept_ratio 2 8 none _ name hname).trans hy⟩
    · rintro ⟨hx, hzero, hy⟩
      have hname : name ≠ "sharpe_ratio" := by
        rintro rfl
        cases hy
      exact ⟨(agreeExcept_ratio 4 10 none _ name hname).trans hx, hzero, (agreeExcept_ratio 2 8 _ none name hname).trans hy⟩
  · exact hperm _ _ _ _ (List.reverse_perm _).symm (List.reverse_perm _).symm

end Degradation

end StrategyLab
