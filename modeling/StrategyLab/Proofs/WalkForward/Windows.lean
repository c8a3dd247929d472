/-
The walk-forward windows of a range of time. As long as no instant leaves the range of counts, the windows are
those that fit, one step after the other (`windowsFrom_eq`), and a range that is too short for one window is split
where seven tenths of it, cut to whole nanoseconds, are over (`splitOf_between`). What a scalar product says of
seven tenths is a parameter: it may be off by a relative error, as rounded products are (`SharesWithin`).

Main statements: the windows of whole days over a range of time, with their number, their order and their test
ranges (`windows_fit`), where only a timestamp out of range stops a plan (`room_of_windows`).
-/
import StrategyLab.Proofs.Agree
import StrategyLab.Proofs.Number.Exact
import StrategyLab.WalkForward.Window

namespace StrategyLab

theorem Instant.inRange_iff {ns : Int} : inRange ns = true ↔ -limit ≤ ns ∧ ns ≤ limit :=
  decide_eq_true_iff

variable {α : Type} [Scalar α]

theorem Num.isAtMost_whole (m n : Int) : (Num.whole m : Num α).isAtMost (.whole n) = decide (m ≤ n) := by
  simp only [isAtMost, compare?]
  rcases lt_trichotomy m n with h | h | h
  · rw [compare_lt_iff_lt.2 h, decide_eq_true h.le]
  · rw [compare_eq_iff_eq.2 h, decide_eq_true h.le]
  · rw [compare_gt_iff_gt.2 h, decide_eq_false (by omega)]

namespace WindowPlan

/-! ## Windows that fit -/

/-- The window from a start on. -/
def windowAt (p : WindowPlan α) (start : Int) : Window :=
  ⟨start, start + p.train, start + p.train + p.test⟩

omit [Scalar α] in
theorem bounded_ok {ns : Int} (hlow : -Instant.limit ≤ ns) (hhigh : ns ≤ Instant.limit) : bounded ns = .ok ns := by
  unfold bounded
  rw [if_pos (Instant.inRange_iff.2 ⟨hlow, hhigh⟩)]

omit [Scalar α] in
/-- One window after the other is found, up to the first one that does not fit any more. -/
theorem windowsFrom_eq (p : WindowPlan α) {stop : Int} (n : Nat) {start : Int} (hlow : -Instant.limit ≤ start)
    (hfit : ∀ i < n, start + i * p.step + p.train + p.test ≤ stop) (hend : stop < start + n * p.step + p.train + p.test)
    (hhigh : start + n * p.step + p.train + p.test ≤ Instant.limit) :
    p.windowsFrom stop start = .ok ((List.range n).map fun i : Nat => p.windowAt (start + i * p.step)) := by
  have htrain := p.train_pos
  have htest := p.test_pos
  have hstep := p.step_pos
  induction n generalizing start with
  | zero =>
    rw [Nat.cast_zero, zero_mul, add_zero] at hend hhigh
    rw [windowsFrom, bounded_ok (by omega) (by omega)]
    dsimp only [bind, Except.bind]
    rw [bounded_ok (by omega) hhigh]
    dsimp only
    rw [dif_neg (by omega)]
    rfl
  | succ n ih =>
    have hsteps : start + ((n + 1 : Nat) : Int) * p.step = start + p.step + n * p.step := by push_cast; ring
    have hnonneg : 0 ≤ (n : Int) * p.step := mul_nonneg (Int.natCast_nonneg n) hstep.le
    rw [hsteps] at hend hhigh
    have hfirst := hfit 0 (Nat.succ_pos n)
    rw [Nat.cast_zero, zero_mul, add_zero] at hfirst
    have hfit' : ∀ i < n, start + p.step + i * p.step + p.train + p.test ≤ stop := fun i hi => by
      have := hfit (i + 1) (by omega)
      push_cast at this
      linarith
    have hrest := ih (by omega) hfit' hend hhigh
    rw [windowsFrom, bounded_ok (by omega) (by omega)]
    dsimp only [bind, Except.bind]
    rw [bounded_ok (by omega) (by omega)]
    dsimp only
    rw [dif_pos (by omega), bounded_ok (by omega) (by omega)]
    dsimp only
    rw [hrest]
    refine congrArg Except.ok ?_
    rw [List.range_succ_eq_map, List.map_cons, List.map_map]
    refine congrArg₂ List.cons (by simp [windowAt]) (List.map_congr_left fun i _ => ?_)
    show p.windowAt _ = p.windowAt (start + ((i + 1 : Nat) : Int) * p.step)
    push_cast
    ring_nf

/-! ## Short ranges -/

/-- The part of a length that is used for training is seven tenths of it, up to a relative error. -/
def SharesWithin (α : Type) [Scalar α] (ε : ℚ) : Prop :=
  ∀ length : Int, 0 < length → length ≤ Instant.limit →
    ∃ q : ℚ, Scalar.rational? (Scalar.ofInt length * trainShare : α) = some q ∧ |q - 7 / 10 * length| ≤ ε * length

theorem sharesWithin_exact [ExactArithmetic] : SharesWithin ℚ 0 := by
  intro length _ _
  refine ⟨(length : ℚ) * 0.7, rfl, ?_⟩
  rw [zero_mul, show (length : ℚ) * 0.7 - 7 / 10 * length = 0 by norm_num; ring, abs_zero]

/-- A range of two nanoseconds or more is split between its ends. -/
theorem splitOf_between {ε : ℚ} (h : SharesWithin α ε) (hε : ε ≤ 1 / 5) {start stop : Int} (hapart : start + 2 ≤ stop)
    (hspan : stop - start ≤ Instant.limit) : ∃ q : ℚ,
      Scalar.rational? (Scalar.ofInt (stop - start) * trainShare : α) = some q ∧
      |q - 7 / 10 * (stop - start : Int)| ≤ ε * (stop - start : Int) ∧
      splitOf (α := α) start stop = ⟨start, start + ⌊q⌋, stop⟩ ∧ 0 < ⌊q⌋ ∧ ⌊q⌋ < stop - start := by
  obtain ⟨q, hq, hclose⟩ := h (stop - start) (by omega) hspan
  have htwo : (2 : ℚ) ≤ (stop - start : Int) := by exact_mod_cast (show 2 ≤ stop - start by omega)
  have herror : ε * (stop - start : Int) ≤ 1 / 5 * (stop - start : Int) := mul_le_mul_of_nonneg_right hε (by linarith)
  obtain ⟨hlow, hhigh⟩ := abs_le.1 (hclose.trans herror)
  have hone : 1 ≤ ⌊q⌋ := Int.le_floor.2 (by push_cast at hlow htwo ⊢; linarith)
  have hpart : ⌊q⌋ < stop - start := Int.floor_lt.2 (by push_cast at hhigh htwo ⊢; linarith)
  have hwhole : q.num.tdiv q.den = ⌊q⌋ := by
    have hq₀ : 0 ≤ q := by push_cast at hlow htwo; linarith
    rw [Int.tdiv_eq_ediv_of_nonneg (Rat.num_nonneg.2 hq₀), Rat.floor_def']
  refine ⟨q, hq, hclose, ?_, by omega, hpart⟩
  unfold splitOf Scalar.wholePart?
  rw [hq]
  show Window.mk start (start + q.num.tdiv q.den) stop = _
  rw [hwhole]

/-! ## The windows of a range -/

section

variable {p : WindowPlan α} {start stop : Int}

/-- In range, the windows are found one after the other, or there is a single one. -/
theorem windows_known (hapart : start < stop) (hspan : stop - start ≤ Instant.limit)
    (hwindow : p.train + p.test ≤ Instant.limit) :
    (p.windows (.known start) (.known stop) : Except (Fault α) _) =
      if stop - start < p.train + p.test then .ok [splitOf (α := α) start stop]
      else (do let found ← p.windowsFrom stop start; pure found) := by
  have htrain := p.train_pos
  have htest := p.test_pos
  have hlimit : 0 ≤ Instant.limit := by decide
  unfold windows Instant.isAtMost
  rw [if_neg (by rw [decide_eq_true_iff]; omega)]
  dsimp only
  rw [Instant.inRange_iff.2 ⟨by omega, hspan⟩, Instant.inRange_iff.2 ⟨by omega, hwindow⟩, if_neg (by decide),
    if_neg (by decide)]
  rfl

end

/-- No length and no timestamp of the windows of a range is beyond the range of counts. The last timestamp belongs to
the first window that does not fit any more. -/
structure Room (train test step start stop : Int) : Prop where
  span : stop - start ≤ Instant.limit
  window : train + test ≤ Instant.limit
  advance : step ≤ Instant.limit
  last : train + test ≤ stop - start →
    start + ((stop - start - (train + test)) / step + 1) * step + train + test ≤ Instant.limit

/-- The windows of a range, given lengths for training, test and step. The share of a short range is a scalar, which
may be off by a relative error. -/
structure Laid (α : Type) [Scalar α] (ε : ℚ) (train test step start stop : Int) (ws : List Window) : Prop where
  ordered : ∀ w ∈ ws, start ≤ w.start ∧ w.start < w.split ∧ w.split < w.stop ∧ w.stop ≤ stop
  /-- In a long range the windows advance by the step, and there are as many as fit. -/
  long : train + test ≤ stop - start →
    (ws.length : Int) = (stop - start - (train + test)) / step + 1 ∧
    stop < start + ws.length * step + train + test ∧
    ∀ (i : Nat) (h : i < ws.length), ws[i] =
      ⟨start + i * step, start + i * step + train, start + i * step + train + test⟩
  /-- A short range is one window, split where its share of seven tenths, cut to whole nanoseconds, is over. -/
  short : stop - start < train + test →
    ∃ q : ℚ, Scalar.rational? (Scalar.ofInt (stop - start) * trainShare : α) = some q ∧
      |q - 7 / 10 * (stop - start : Int)| ≤ ε * (stop - start : Int) ∧ ws = [⟨start, start + ⌊q⌋, stop⟩]
  apart : test ≤ step → ws.Pairwise fun v w => v.stop ≤ w.split

/-- So many steps fit in a long range before the end of a window leaves it. -/
theorem exists_number {size step start stop : Int} (hstep : 0 < step) (hlong : size ≤ stop - start) :
    ∃ k : Nat, (stop - start - size) / step + 1 = (k + 1 : Nat) ∧
      (∀ i < k + 1, start + (i : Int) * step + size ≤ stop) ∧ stop < start + (k + 1 : Nat) * step + size := by
  obtain ⟨k, hk⟩ := Int.eq_ofNat_of_zero_le (Int.ediv_nonneg (by omega : 0 ≤ stop - start - size) hstep.le)
  have hcount : (stop - start - size) / step + 1 = ((k + 1 : Nat) : Int) := by rw [hk]; push_cast; rfl
  have hbelow := Int.ediv_mul_le (stop - start - size) hstep.ne'
  have habove := Int.lt_ediv_add_one_mul_self (stop - start - size) hstep
  rw [hk] at hbelow
  rw [hcount] at habove
  refine ⟨k, hcount, fun i hi => ?_, by omega⟩
  have hik : (i : Int) * step ≤ k * step :=
    mul_le_mul_of_nonneg_right (by exact_mod_cast Nat.lt_succ_iff.1 hi) hstep.le
  omega

/-- The windows found one after the other are laid in the range, in their number and order. -/
theorem laid_long {ε : ℚ} {p : WindowPlan α} {start stop : Int} (hlow : -Instant.limit ≤ start)
    (hroom : Room p.train p.test p.step start stop) (hlong : p.train + p.test ≤ stop - start) :
    ∃ ws, p.windowsFrom stop start = .ok ws ∧ Laid α ε p.train p.test p.step start stop ws := by
  have htrain := p.train_pos
  have htest := p.test_pos
  obtain ⟨k, hcount, hfit, hend⟩ := exists_number p.step_pos hlong
  have hlast := hroom.last hlong
  rw [hcount] at hlast
  refine ⟨_, p.windowsFrom_eq (k + 1) hlow (fun i hi => ?_) (by omega) hlast, ?_, ?_, ?_, ?_⟩
  · rw [add_assoc]
    exact hfit i hi
  · intro w hw
    obtain ⟨i, hi, rfl⟩ := List.mem_map.1 hw
    have hi := hfit i (List.mem_range.1 hi)
    have hsteps : 0 ≤ (i : Int) * p.step := mul_nonneg (Int.natCast_nonneg i) p.step_pos.le
    simp only [windowAt]
    omega
  · intro _
    have hlength : (((List.range (k + 1)).map fun i : Nat => p.windowAt (start + i * p.step)).length : Int) =
        (k + 1 : Nat) := by rw [List.length_map, List.length_range]
    refine ⟨hlength.trans hcount.symm, by rw [hlength]; omega, fun i h => ?_⟩
    rw [List.getElem_map, List.getElem_range]
    rfl
  · intro hshort
    omega
  · intro hapart
    rw [List.pairwise_map]
    refine List.pairwise_lt_range.imp fun {i j} hij => ?_
    have hsteps : ((i : Int) + 1) * p.step ≤ j * p.step :=
      mul_le_mul_of_nonneg_right (by exact_mod_cast hij) p.step_pos.le
    simp only [windowAt]
    linarith

/-- The single window of a short range is laid in it. -/
theorem laid_short {ε : ℚ} (hshares : SharesWithin α ε) (hε : ε ≤ 1 / 5) {train test step start stop : Int}
    (hapart : start + 2 ≤ stop) (hspan : stop - start ≤ Instant.limit) (hshort : stop - start < train + test) :
    Laid α ε train test step start stop [splitOf (α := α) start stop] := by
  obtain ⟨q, hq, hclose, hsplit, hpos, hless⟩ := splitOf_between hshares hε hapart hspan
  rw [hsplit]
  refine ⟨?_, fun _ => by omega, fun _ => ⟨q, hq, hclose, rfl⟩, fun _ => List.pairwise_singleton _ _⟩
  intro w hw
  rw [List.mem_singleton.1 hw]
  dsimp only
  omega

/-- Every plan lays its windows in a range that has room for them. -/
theorem windows_laid {ε : ℚ} (hshares : SharesWithin α ε) (hε : ε ≤ 1 / 5) {p : WindowPlan α} {start stop : Int}
    (hlow : -Instant.limit ≤ start) (hapart : start + 2 ≤ stop) (hroom : Room p.train p.test p.step start stop) :
    ∃ ws, p.windows (.known start) (.known stop) = .ok ws ∧ Laid α ε p.train p.test p.step start stop ws := by
  by_cases hlong : p.train + p.test ≤ stop - start
  · obtain ⟨ws, hfound, hlaid⟩ := laid_long hlow hroom hlong
    refine ⟨ws, ?_, hlaid⟩
    rw [windows_known (by omega) hroom.span hroom.window, if_neg (by omega), hfound]
    rfl
  · have hshort := lt_of_not_ge hlong
    refine ⟨_, ?_, laid_short hshares hε hapart hroom.span hshort⟩
    rw [windows_known (by omega) hroom.span hroom.window, if_pos hshort]

/-! ## Ranges without room -/

omit [Scalar α] in
theorem bounded_inv {ns m : Int} (h : bounded ns = .ok m) : m = ns ∧ ns ≤ Instant.limit := by
  unfold bounded at h
  split at h
  · rename_i hin
    exact ⟨(Except.ok.inj h).symm, (Instant.inRange_iff.1 hin).2⟩
  · cases h

omit [Scalar α] in
/-- The first window that does not fit any more is in range, too. -/
theorem windowsFrom_last {p : WindowPlan α} {stop start : Int} {ws : List Window}
    (h : p.windowsFrom stop start = .ok ws) :
    stop < start + ws.length * p.step + p.train + p.test ∧
      start + ws.length * p.step + p.train + p.test ≤ Instant.limit := by
  have htrain := p.train_pos
  have htest := p.test_pos
  induction ws generalizing start with
  | nil =>
    rw [windowsFrom] at h
    obtain ⟨_, hsplit, h⟩ := bind_ok h
    obtain ⟨_, hlast, h⟩ := bind_ok h
    obtain ⟨rfl, -⟩ := bounded_inv hsplit
    obtain ⟨rfl, hhigh⟩ := bounded_inv hlast
    split at h
    · obtain ⟨_, -, h⟩ := bind_ok h
      obtain ⟨_, -, h⟩ := bind_ok h
      cases h
    · simp only [List.length_nil, Nat.cast_zero, zero_mul]
      omega
  | cons w ws ih =>
    rw [windowsFrom] at h
    obtain ⟨_, -, h⟩ := bind_ok h
    obtain ⟨_, -, h⟩ := bind_ok h
    split at h
    · obtain ⟨_, -, h⟩ := bind_ok h
      obtain ⟨rest, hrest, h⟩ := bind_ok h
      cases h
      obtain ⟨hend, hhigh⟩ := ih hrest
      rw [List.length_cons]
      push_cast
      constructor <;> linarith
    · cases h

/-- A range whose windows are generated has room for them: only a length or a timestamp beyond the range of counts
stops a plan. -/
theorem room_of_windows {p : WindowPlan α} {start stop : Int} {ws : List Window} (hstep : p.step ≤ Instant.limit)
    (h : p.windows (.known start) (.known stop) = .ok ws) : Room p.train p.test p.step start stop := by
  unfold windows at h
  split at h
  · cases h
  dsimp only at h
  split at h
  · cases h
  rename_i hspan
  split at h
  · cases h
  rename_i hwindow
  rw [Bool.not_eq_true', Bool.not_eq_false, Instant.inRange_iff] at hspan hwindow
  refine ⟨hspan.2, hwindow.2, hstep, fun hlong => ?_⟩
  rw [if_neg (by omega)] at h
  cases hfound : p.windowsFrom stop start with
  | error e => rw [hfound] at h; cases h
  | ok found =>
    obtain ⟨hend, hhigh⟩ := windowsFrom_last hfound
    have hcount : (stop - start - (p.train + p.test)) / p.step < found.length :=
      Int.ediv_lt_of_lt_mul p.step_pos (by omega)
    have hsteps : ((stop - start - (p.train + p.test)) / p.step + 1) * p.step ≤ found.length * p.step :=
      mul_le_mul_of_nonneg_right hcount p.step_pos.le
    omega

/-! ## Plans in days -/

/-- Positive whole days in range make a plan with the lengths they stand for. -/
theorem ofDays_whole {train test step : Int} (htrain : 0 < train) (htest : 0 < test) (hstep : 0 < step)
    (htrain' : train * Instant.perDay ≤ Instant.limit) (htest' : test * Instant.perDay ≤ Instant.limit)
    (hstep' : step * Instant.perDay ≤ Instant.limit) (threshold : Num α) :
    ∃ p, ofDays (.whole train) (.whole test) (.whole step) threshold = .ok p ∧ p.train = train * Instant.perDay ∧
      p.test = test * Instant.perDay ∧ p.step = step * Instant.perDay ∧ p.threshold = threshold := by
  have hday : 0 < Instant.perDay := by decide
  have hlimit : 0 ≤ Instant.limit := by decide
  have hpos {n : Int} (h : 0 < n) : 0 < n * Instant.perDay := mul_pos h hday
  have hlength {n : Int} (h : 0 < n) (h' : n * Instant.perDay ≤ Instant.limit) :
      (Duration.ofDays (.whole n) : Except (Fault α) Int) = .ok (n * Instant.perDay) := by
    have := hpos h
    show (if Instant.inRange (n * Instant.perDay) then pure _ else throw _ : Except (Fault α) Int) = _
    rw [if_pos (Instant.inRange_iff.2 ⟨by omega, h'⟩)]
    rfl
  refine ⟨⟨_, _, _, threshold, hpos htrain, hpos htest, hpos hstep⟩, ?_, rfl, rfl, rfl, rfl⟩
  unfold ofDays
  simp only [Num.isAtMost_whole]
  rw [decide_eq_false (by omega), decide_eq_false (by omega), decide_eq_false (by omega)]
  rw [hlength htrain htrain', hlength htest htest', hlength hstep hstep']
  dsimp only [bind, Except.bind]
  rw [if_neg (by decide)]
  dsimp only [pure, Except.pure]
  rw [dif_pos ⟨hpos htrain, hpos htest, hpos hstep⟩]

/-- Positive whole days give a plan, and the plan lays its windows in every range from which no timestamp leaves the
range of counts. -/
theorem windows_fit {ε : ℚ} (hshares : SharesWithin α ε) (hε : ε ≤ 1 / 5) {train test step : Int} (htrain : 0 < train)
    (htest : 0 < test) (hstep : 0 < step) (threshold : Num α) {start stop : Int} (hlow : -Instant.limit ≤ start)
    (hapart : start + 2 ≤ stop)
    (hroom : Room (train * Instant.perDay) (test * Instant.perDay) (step * Instant.perDay) start stop) :
    ∃ p ws, ofDays (.whole train) (.whole test) (.whole step) threshold = .ok p ∧
      p.windows (.known start) (.known stop) = .ok ws ∧
      Laid α ε (train * Instant.perDay) (test * Instant.perDay) (step * Instant.perDay) start stop ws := by
  have hwindow := hroom.window
  have hday : 0 < Instant.perDay := by decide
  have htrain' := mul_pos htrain hday
  have htest' := mul_pos htest hday
  obtain ⟨p, hp, h₁, h₂, h₃, -⟩ := ofDays_whole htrain htest hstep (by omega) (by omega) hroom.advance threshold
  rw [← h₁, ← h₂, ← h₃] at hroom ⊢
  obtain ⟨ws, hws, hlaid⟩ := windows_laid hshares hε hlow hapart hroom
  exact ⟨p, ws, hp, hws, hlaid⟩

section

local instance openPartsOfWindows : ExactArithmetic := Inhabited.default

/-- Two days of training and one of test, every two days, in eight days and a nanosecond. -/
theorem eight_days_laid :
    ∃ p ws, ofDays (α := ℚ) (.whole 2) (.whole 1) (.whole 2) defaultThreshold = .ok p ∧
      p.windows (.known 0) (.known (8 * Instant.perDay + 1)) = .ok ws ∧
      Laid ℚ 0 (2 * Instant.perDay) (1 * Instant.perDay) (2 * Instant.perDay) 0 (8 * Instant.perDay + 1) ws :=
  windows_fit sharesWithin_exact (by norm_num) (by decide) (by decide) (by decide) defaultThreshold (by decide)
    (by decide) ⟨by decide, by decide, by decide, fun _ => by decide⟩

end

end WindowPlan

end StrategyLab
