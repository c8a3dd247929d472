/-
Proposals of a search lie in range. In exact arithmetic the scalars between the ends of a range, or
among the values to choose from, are respected by sampling, mixing and moving (`domain_of_proper`):
what is drawn or moved is cut to the range, and a mixture lies between what is mixed. So, whatever
scores are told to a search, infinite and undefined ones included, everything it proposes has
exactly one value for every parameter, and that value is in range.
-/
import StrategyLab.Proofs.Number.Extended
import StrategyLab.Proofs.Search.Generation
import StrategyLab.Search.Twister

namespace StrategyLab

open Draw

/-! ## Choices -/

namespace Sampling

variable {α : Type} [Scalar α]

theorem reach_lt {share u : α} (left : Nat) {sum : α} {position k : Nat}
    (h : reach share u sum position left = some k) : k < position + left := by
  induction left generalizing sum position with
  | zero => cases h
  | succ left ih =>
    unfold reach at h
    dsimp only at h
    split at h
    · cases h
      omega
    · have := ih h
      omega

theorem atScalar_mem {values : List α} (h : values ≠ []) (u : α) : atScalar values u ∈ values := by
  have hlength : 0 < values.length := List.length_pos_iff.2 h
  have hposition : (reach (1.0 / Scalar.ofNat values.length) u 0.0 0 values.length).getD 0 < values.length := by
    cases hreach : reach (1.0 / Scalar.ofNat values.length) u 0.0 0 values.length with
    | none => exact hlength
    | some k =>
      have := reach_lt _ hreach
      rw [Option.getD_some]
      omega
  unfold atScalar
  dsimp only
  rw [List.getElem?_eq_getElem hposition, Option.getD_some]
  exact List.getElem_mem hposition

theorem mem_of_distinct {xs : List α} {x : α} (h : x ∈ Parameter.distinct xs) : x ∈ xs := by
  induction xs using List.reverseRecOn with
  | nil => exact h
  | append_singleton xs last ih =>
    unfold Parameter.distinct at h ih
    rw [List.foldl_append, List.foldl_cons, List.foldl_nil] at h
    split at h
    · exact List.mem_append_left _ (ih h)
    · exact List.mem_append.2 ((List.mem_append.1 h).imp_left ih)

end Sampling

/-! ## Finite scalars in a range -/

namespace Extended

theorem one_eq : (1.0 : Extended) = finite 1 := by
  rw [literal_eq]
  norm_num

/-- The scalars between two finite ones are finite. -/
theorem between_iff {low high : ℚ} {x : Extended} :
    finite low ≤ x ∧ x ≤ finite high ↔ ∃ q, x = finite q ∧ low ≤ q ∧ q ≤ high := by
  constructor
  · rintro ⟨hlow, hhigh⟩
    cases x with
    | finite q => exact ⟨q, rfl, finite_le.1 hlow, finite_le.1 hhigh⟩
    | undefined => cases hlow
    | infinite b => cases b <;> [cases hhigh; cases hlow]
  · rintro ⟨q, rfl, hlow, hhigh⟩
    exact ⟨finite_le.2 hlow, finite_le.2 hhigh⟩

/-- A mixture of two scalars of a range. -/
theorem mix_between {low high x y share : ℚ} (hx : low ≤ x ∧ x ≤ high) (hy : low ≤ y ∧ y ≤ high)
    (hshare : 0 ≤ share ∧ share < 1) : low ≤ x * share + y * (1 - share) ∧ x * share + y * (1 - share) ≤ high := by
  have hrest : 0 ≤ 1 - share := by linarith [hshare.2]
  constructor
  · calc low = low * share + low * (1 - share) := by ring
      _ ≤ x * share + y * (1 - share) :=
        add_le_add (mul_le_mul_of_nonneg_right hx.1 hshare.1) (mul_le_mul_of_nonneg_right hy.1 hrest)
  · calc x * share + y * (1 - share) ≤ high * share + high * (1 - share) :=
        add_le_add (mul_le_mul_of_nonneg_right hx.2 hshare.1) (mul_le_mul_of_nonneg_right hy.2 hrest)
      _ = high := by ring

variable [ExactArithmetic]

theorem clamp_between {low high : ℚ} (h : low ≤ high) (x : ℚ) :
    ∃ q, Scalar.clamp (finite x) (finite low) (finite high) = finite q ∧ low ≤ q ∧ q ≤ high := by
  simp only [Scalar.clamp, clampBy, finite_lt, decide_eq_true_eq]
  by_cases hx : x < high
  · rw [if_pos hx]
    by_cases hlow : low < x
    · exact ⟨x, if_pos (finite_lt.2 hlow), hlow.le, hx.le⟩
    · exact ⟨low, if_neg (mt finite_lt.1 hlow), le_rfl, h⟩
  · rw [if_neg hx]
    by_cases hlow : low < high
    · exact ⟨high, if_pos (finite_lt.2 hlow), h, le_rfl⟩
    · exact ⟨low, if_neg (mt finite_lt.1 hlow), le_rfl, h⟩

theorem width_finite (low high : ℚ) : ∃ w, Sampling.width (finite low) (finite high) = finite w := by
  unfold Sampling.width
  rw [one_eq, finite_sub]
  dsimp only
  split
  · exact ⟨_, successor_finite _⟩
  · exact ⟨_, rfl⟩

theorem atShare_between {low high : ℚ} (h : low ≤ high) (u : ℚ) :
    ∃ q, Sampling.atShare (finite low) (finite high) (finite u) = finite q ∧ low ≤ q ∧ q ≤ high := by
  obtain ⟨w, hw⟩ := width_finite low high
  unfold Sampling.atShare
  rw [hw, finite_mul, finite_add]
  generalize u * w + low = x
  unfold Scalar.least Scalar.greatest
  by_cases hlow : x < low
  · rw [if_pos (finite_lt.2 hlow), if_neg (mt finite_lt.1 h.not_gt)]
    exact ⟨low, rfl, le_rfl, h⟩
  · rw [if_neg (mt finite_lt.1 hlow)]
    by_cases hhigh : high < x
    · exact ⟨high, if_pos (finite_lt.2 hhigh), h, le_rfl⟩
    · exact ⟨x, if_neg (mt finite_lt.1 hhigh), not_lt.1 hlow, not_lt.1 hhigh⟩

end Extended

/-! ## The values of a parameter -/

namespace Parameter

/-- The scalar is one of the values to choose from, or lies in the range. -/
def Admits {α : Type} [Scalar α] (p : Parameter α) (x : α) : Prop :=
  if p.isDiscrete then x ∈ p.choices else p.bounds.1 ≤ x ∧ x ≤ p.bounds.2

theorem admits_choice {α : Type} [Scalar α] {p : Parameter α} (h : p.isDiscrete = true) {x : α} :
    p.Admits x ↔ x ∈ p.choices := by
  rw [Admits, if_pos h]

variable [ExactArithmetic]

/-- There is something to choose from, or the range has finite ends in order. -/
structure Proper (p : Parameter Extended) : Prop where
  choices : p.isDiscrete = true → p.choices ≠ []
  range : p.isDiscrete = false → ∃ low high : ℚ, p.bounds = (.finite low, .finite high) ∧ low ≤ high

theorem admits_range {p : Parameter Extended} (h : p.isDiscrete = false) {low high : ℚ}
    (hbounds : p.bounds = (.finite low, .finite high)) {x : Extended} :
    p.Admits x ↔ ∃ q, x = .finite q ∧ low ≤ q ∧ q ≤ high := by
  rw [Admits, if_neg (by simp [h]), hbounds]
  exact Extended.between_iff

end Parameter

/-- Draws in exact arithmetic: a unit is finite, not negative and below one, and a position that is
drawn below a positive count is below it. -/
structure RandomSource.Fair (σ : Type) [RandomSource σ Extended] : Prop where
  unit : ∀ s : σ, ∃ u : ℚ, (RandomSource.unit s : Extended × σ).1 = .finite u ∧ 0 ≤ u ∧ u < 1
  bounded : RandomSource.Bounded σ Extended

variable {σ : Type} [RandomSource σ Extended]

theorem RandomSource.Fair.yields (hσ : RandomSource.Fair σ) :
    Yields (Draw.unit : StateM σ Extended) fun u => ∃ q : ℚ, u = .finite q ∧ 0 ≤ q ∧ q < 1 := fun s => hσ.unit s

namespace Parameter

variable [ExactArithmetic]

theorem drawn_admits (hσ : RandomSource.Fair σ) {p : Parameter Extended} (hp : p.Proper) {d : Dimension Extended}
    (hd : p.dimension = some d) : Yields (Sampling.drawFrom d : StateM σ Extended) p.Admits := by
  unfold dimension at hd
  refine hσ.yields.bind fun _ hu => .pure ?_
  obtain ⟨u, rfl, -, -⟩ := hu
  cases hdiscrete : p.isDiscrete with
  | true =>
    rw [if_pos hdiscrete] at hd
    dsimp only at hd
    split at hd
    · rename_i hmany
      cases hd
      rw [admits_choice hdiscrete]
      refine Sampling.mem_of_distinct ((List.mergeSort_perm _ _).mem_iff.1 (Sampling.atScalar_mem ?_ _))
      exact List.length_pos_iff.1 (Nat.zero_lt_of_lt hmany)
    · cases hd
  | false =>
    obtain ⟨low, high, hbounds, hle⟩ := hp.range hdiscrete
    rw [if_neg (by simp [hdiscrete]), hbounds] at hd
    dsimp only at hd
    split at hd
    · cases hd
      exact (admits_range hdiscrete hbounds).2 (Extended.atShare_between hle u)
    · cases hd

theorem fixed_admits {p : Parameter Extended} (hp : p.Proper) : p.Admits p.fixedValue := by
  unfold fixedValue
  cases hdiscrete : p.isDiscrete with
  | true =>
    rw [if_pos rfl, admits_choice hdiscrete]
    have hsome := hp.choices hdiscrete
    cases hchoices : p.choices with
    | nil => exact absurd hchoices hsome
    | cons x rest => exact List.mem_cons_self
  | false =>
    obtain ⟨low, high, hbounds, hle⟩ := hp.range hdiscrete
    rw [if_neg (by simp), admits_range hdiscrete hbounds, hbounds]
    exact ⟨low, rfl, le_rfl, hle⟩

theorem blended_admits (hσ : RandomSource.Fair σ) {p : Parameter Extended} (hp : p.Proper) {x y : Extended}
    (hx : p.Admits x) (hy : p.Admits y) : Yields (GeneticSearch.blend p x y : StateM σ Extended) p.Admits := by
  refine hσ.yields.bind fun _ hu => .pure ?_
  obtain ⟨share, rfl, hshare⟩ := hu
  cases hdiscrete : p.isDiscrete with
  | true =>
    rw [if_pos rfl]
    split
    · exact hx
    · exact hy
  | false =>
    obtain ⟨low, high, hbounds, -⟩ := hp.range hdiscrete
    rw [admits_range hdiscrete hbounds] at hx hy ⊢
    obtain ⟨a, rfl, ha⟩ := hx
    obtain ⟨b, rfl, hb⟩ := hy
    rw [if_neg (by simp), Extended.one_eq, Extended.finite_sub, Extended.finite_mul, Extended.finite_mul,
      Extended.finite_add]
    exact ⟨_, rfl, Extended.mix_between ha hb hshare⟩

theorem moved_admits {p : Parameter Extended} (hp : p.Proper) (hdiscrete : p.isDiscrete = false) {x : Extended}
    (hx : p.Admits x) (share : ℚ) : p.Admits (GeneticSearch.moved p x (.finite share)) := by
  obtain ⟨low, high, hbounds, hle⟩ := hp.range hdiscrete
  rw [admits_range hdiscrete hbounds] at hx ⊢
  obtain ⟨a, rfl, -⟩ := hx
  unfold GeneticSearch.moved GeneticSearch.mutationScale
  rw [hbounds]
  dsimp only
  rw [Extended.literal_eq, Extended.literal_eq]
  simp only [Extended.finite_sub, Extended.finite_mul, Extended.finite_add]
  exact Extended.clamp_between hle _

theorem chosen_admits (hσ : RandomSource.Fair σ) {p : Parameter Extended} (hp : p.Proper)
    (hdiscrete : p.isDiscrete = true) :
    Yields (Draw.below Extended p.choices.length : StateM σ Nat) fun k => p.Admits (p.choices.getD k 0.0) := by
  intro s
  have hk := hσ.bounded p.choices.length s (List.length_pos_iff.2 (hp.choices hdiscrete))
  rw [admits_choice hdiscrete]
  change p.choices.getD (RandomSource.below Extended p.choices.length s).1 0.0 ∈ p.choices
  rw [List.getD_eq_getElem _ _ hk]
  exact List.getElem_mem hk

/-- A search respects the ranges and choices of proper parameters that have different places. -/
theorem domain_of_proper (hσ : RandomSource.Fair σ) {ps : List (Parameter Extended)}
    (hplaces : (ps.map fun p => (p.blockId, p.name)).Nodup) (hproper : ∀ p ∈ ps, p.Proper) :
    Domain σ Admits ps where
  agrees p hp q hq hpq x hx := by
    obtain rfl := List.inj_on_of_nodup_map hplaces hp hq (Prod.ext hpq.1 hpq.2)
    exact hx
  drawn p hp d hd := drawn_admits hσ (hproper p hp) hd
  fixed p hp _ := fixed_admits (hproper p hp)
  blended p hp x y hx hy := blended_admits hσ (hproper p hp) hx hy
  moved p hp hdiscrete x hx := hσ.yields.mono fun u hu => by
    obtain ⟨share, rfl, -⟩ := hu
    exact moved_admits (hproper p hp) hdiscrete hx share
  chosen p hp hdiscrete := chosen_admits hσ (hproper p hp) hdiscrete

end Parameter

/-! ## Everything proposed -/

namespace BayesianSearch

theorem observe_all {α : Type} (told : List (Observation α)) (s : BayesianSearch α) :
    told.foldl observe s = { s with observations := s.observations ++ told } := by
  induction told generalizing s with
  | nil => simp
  | cons o rest ih =>
    rw [List.foldl_cons, ih]
    simp [observe]

theorem start_ok {α : Type} {ps : List (Parameter α)} {objectives : List String} {candidates : Int} {target : α}
    {s : BayesianSearch α} (h : start ps objectives candidates target = .ok s) :
    s.parameters = ps ∧ 0 < s.candidates ∧ s.observations = [] := by
  cases objectives with
  | nil => cases h
  | cons name rest =>
    cases h
    exact ⟨rfl, Nat.lt_of_lt_of_le Nat.zero_lt_one (Nat.le_max_left _ _), rfl⟩

end BayesianSearch

theorem GeneticSearch.start_ok {α : Type} {ps : List (Parameter α)} {objectives : List String} {size : Int} {rate : α}
    {s : GeneticSearch α} (h : GeneticSearch.start ps objectives size rate = .ok s) :
    s.parameters = ps ∧ 2 ≤ s.size ∧ (s.size : Int) = size := by
  cases objectives with
  | nil => cases h
  | cons name rest =>
    unfold GeneticSearch.start at h
    dsimp only at h
    by_cases hsmall : size < 2
    · rw [if_pos hsmall] at h
      cases h
    · rw [if_neg hsmall] at h
      cases h
      refine ⟨rfl, ?_, ?_⟩
      · show 2 ≤ size.toNat
        omega
      · show (size.toNat : Int) = size
        omega

/-- Samples, suggestions after any observations, and the members of any generation have exactly one
value for every parameter, and it is admitted. -/
theorem proposals_in_range [ExactArithmetic] (hσ : RandomSource.Fair σ) {ps : List (Parameter Extended)}
    (hplaces : (ps.map fun p => (p.blockId, p.name)).Nodup) (hproper : ∀ p ∈ ps, p.Proper) :
    (∀ count, Yields (Sampling.samples ps count : StateM σ (List (Assignment Extended))) fun drawn =>
      drawn.length = count ∧ ∀ a ∈ drawn, a.Filled Parameter.Admits ps) ∧
    (∀ objectives candidates target search, BayesianSearch.start ps objectives candidates target = .ok search →
      ∀ told : List (Observation Extended), (∀ o ∈ told, o.assignment.Legible ps ∧ o.scores.Numeric) →
        (∀ count : Int, Yields ((told.foldl BayesianSearch.observe search).initialSamples count :
            StateM σ (List (Assignment Extended))) fun drawn =>
          drawn.length = count.toNat ∧ ∀ a ∈ drawn, a.Filled Parameter.Admits ps) ∧
        Ensures ((told.foldl BayesianSearch.observe search).suggest : Draw σ Extended (Assignment Extended))
          (·.Filled Parameter.Admits ps)) ∧
    ∀ objectives size rate start, GeneticSearch.start ps objectives size rate = .ok start →
      ∀ s, GeneticSearch.Bred σ start s →
        (s.population.length : Int) = size ∧ (∀ m ∈ s.population, m.assignment.Filled Parameter.Admits ps) ∧
        Ensures (s.evolve : Draw σ Extended (GeneticSearch Extended)) fun next =>
          ∀ m ∈ next.population, m.assignment.Filled Parameter.Admits ps := by
  -- what is drawn, blended or moved stays within the ranges, and a population keeps what is so of its members
  have hdomain := Parameter.domain_of_proper hσ hplaces hproper
  refine ⟨Sampling.samples_yields hdomain, ?_, ?_⟩
  · intro objectives candidates target search hstart told htold
    obtain ⟨rfl, hcandidates, hnone⟩ := BayesianSearch.start_ok hstart
    rw [BayesianSearch.observe_all, hnone, List.nil_append]
    refine ⟨fun count => Sampling.samples_yields hdomain _, BayesianSearch.suggest_ensures hdomain hcandidates ?_⟩
    intro o ho
    obtain ⟨hassignment, hscores⟩ := htold o ho
    exact ⟨hassignment, hscores.oriented _⟩
  · intro objectives size rate start hstart s hs
    obtain ⟨rfl, htwo, hsize⟩ := GeneticSearch.start_ok hstart
    have hsound := hs.sound hσ.bounded hdomain htwo
    refine ⟨by rw [hsound.members, hsize], hsound.filled, ?_⟩
    exact (GeneticSearch.evolve_ensures hσ.bounded hdomain htwo hsound).mono fun next hnext => hnext.filled

/-! ## The twister as a source -/

theorem Twister.unit_fair [ExactArithmetic] (t : Twister) :
    ∃ u : ℚ, (Twister.unit t : Extended × Twister).1 = .finite u ∧ 0 ≤ u ∧ u < 1 := by
  let a := t.next.1
  let b := t.next.2.next.1
  have ha : (a >>> 5).toNat < 134217728 := by
    have hshift : (5 : UInt32).toNat % 32 = 5 := rfl
    have := a.toNat_lt
    rw [UInt32.toNat_shiftRight, hshift, Nat.shiftRight_eq_div_pow]
    omega
  have hb : (b >>> 6).toNat < 67108864 := by
    have hshift : (6 : UInt32).toNat % 32 = 6 := rfl
    have := b.toNat_lt
    rw [UInt32.toNat_shiftRight, hshift, Nat.shiftRight_eq_div_pow]
    omega
  have hbits : (((a >>> 5).toNat * 67108864 + (b >>> 6).toNat : Nat) : ℚ) < 9007199254740992 := by
    have : (a >>> 5).toNat * 67108864 + (b >>> 6).toNat < 9007199254740992 := by omega
    exact_mod_cast this
  have hunit : (Twister.unit t : Extended × Twister).1 =
      Scalar.ofNat ((a >>> 5).toNat * 67108864 + (b >>> 6).toNat) / 9007199254740992.0 := rfl
  rw [hunit, Extended.ofNat_eq, Extended.literal_eq, Extended.finite_div _ (by norm_num)]
  refine ⟨_, rfl, ?_, ?_⟩
  · positivity
  · rw [div_lt_one (by norm_num)]
    norm_num at hbits ⊢
    exact hbits

theorem Twister.fair [ExactArithmetic] : RandomSource.Fair Twister where
  unit := Twister.unit_fair
  bounded _ t hn := Twister.below_lt hn t

local instance openPartsOfProposals : ExactArithmetic := default

-- a range, and two values for another parameter of the same block
def slippageAndTier : List (Parameter Extended) :=
  [{ blockId := "s", blockKind := "uniswap_swap", name := "slippage", kind := .continuous, low := some (.whole 1),
      high := some (.whole 3), values := none, default := .null },
    { blockId := "s", blockKind := "uniswap_swap", name := "tier", kind := .discrete, low := none, high := none,
      values := some [.whole 5, .whole 30], default := .null }]

/-- Suggestions of a search that was told an infinite, an undefined and a missing score. -/
theorem slippageAndTier_in_range :
    (slippageAndTier.map fun p => (p.blockId, p.name)).Nodup ∧ (∀ p ∈ slippageAndTier, p.Proper) ∧
      ∃ search, BayesianSearch.start slippageAndTier ["sharpe_ratio"] 20 (.finite (1 / 5)) = .ok search ∧
        Ensures (([⟨[], [(.text "sharpe_ratio", .real (.infinite false))]⟩,
            ⟨[], [(.text "sharpe_ratio", .real .undefined)]⟩, ⟨[], []⟩].foldl BayesianSearch.observe search).suggest :
          Draw Twister Extended (Assignment Extended)) (·.Filled Parameter.Admits slippageAndTier) := by
  have hplaces : (slippageAndTier.map fun p => (p.blockId, p.name)).Nodup := by decide
  have hproper : ∀ p ∈ slippageAndTier, p.Proper := by
    simp only [slippageAndTier, List.forall_mem_cons]
    refine ⟨⟨nofun, fun _ => ⟨1, 3, rfl, by norm_num⟩⟩, ⟨fun _ => ?_, nofun⟩, nofun⟩
    exact List.cons_ne_nil _ _
  obtain ⟨search, hstart⟩ : ∃ search, BayesianSearch.start slippageAndTier ["sharpe_ratio"] 20 (.finite (1 / 5)) =
      .ok search := ⟨_, rfl⟩
  refine ⟨hplaces, hproper, search, hstart, ?_⟩
  refine ((proposals_in_range Twister.fair hplaces hproper).2.1 _ _ _ search hstart _ fun o ho => ?_).2
  simp only [List.mem_cons, List.not_mem_nil, or_false] at ho
  rcases ho with rfl | rfl | rfl
  · exact ⟨fun p _ => ⟨none, rfl⟩, fun f hf => .inr ⟨.infinite false, congrArg Prod.snd (List.mem_singleton.1 hf)⟩⟩
  · exact ⟨fun p _ => ⟨none, rfl⟩, fun f hf => .inr ⟨.undefined, congrArg Prod.snd (List.mem_singleton.1 hf)⟩⟩
  · exact ⟨fun p _ => ⟨none, rfl⟩, nofun⟩

end StrategyLab
