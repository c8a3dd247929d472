/-
The written forms that a worker is sent and answers lose nothing (`written_forms_kept`): a block and
the result of a run come back as they were, and so does a configuration, if its capital is a scalar or
a whole number that a scalar holds (`RunConfig.comes_back_iff`). Instants are read back from texts with
no fraction, with six digits and with nine.
-/
import StrategyLab.Number.Double
import StrategyLab.Proofs.Ledger.Operation
import StrategyLab.Proofs.Simulation.Prefix
import StrategyLab.Proofs.Simulation.Written

namespace StrategyLab

variable {α : Type} [Scalar α]

/-! ## Numbers -/

namespace Num

/-- Two numbers are one: the very same, or equal in value. -/
def Same (x y : Num α) : Prop := x = y ∨ x.isEqual y = true

/-- A scalar holds the number: the nearest one is the number itself. -/
def Held (x : Num α) : Prop := ∃ y, x.value? = some y ∧ x.Same (.real y)

/-- A scalar equal to a whole number above zero is above zero. -/
theorem positive_of_isEqual {n : Int} {y : α} (hpos : (whole (α := α) n).isAtMost (.whole 0) = false)
    (h : (whole n).isEqual (.real y) = true) : (real y).isAtMost (.whole 0) = false := by
  have hn : 0 < n := by
    by_contra hle
    rcases lt_or_eq_of_le (not_lt.1 hle) with hlt | rfl
    · simp [isAtMost, compare?, compare_lt_iff_lt.2 hlt] at hpos
    · simp [isAtMost, compare?] at hpos
  simp only [isEqual, compare?, Scalar.compareInt, beq_iff_eq] at h
  simp only [isAtMost, compare?, Scalar.compareInt]
  cases hq : Scalar.rational? y with
  | none =>
    -- an infinite or undefined scalar equals no whole number
    rw [hq] at h
    dsimp only at h
    split at h
    · cases h
    · split at h <;> cases h
  | some q =>
    rw [hq] at h
    have hcompare : compare q.num (n * q.den) = .eq := Ordering.swap_eq_eq.1 (Option.some.inj h)
    have hnum : 0 < q.num := by
      rw [compare_eq_iff_eq.1 hcompare]
      exact mul_pos hn (Int.natCast_pos.2 q.den_pos)
    simp [compare_gt_iff_gt.2 hnum]

theorem Held.positive {x : Num α} {y : α} (hpos : x.isAtMost (.whole 0) = false) (hy : x.value? = some y)
    (h : x.Same (.real y)) : (real y).isAtMost (.whole 0) = false := by
  cases x with
  | real x => cases hy; exact hpos
  | whole n =>
    rcases h with h | h
    · cases h
    · exact positive_of_isEqual hpos h

end Num

/-! ## Configurations -/

namespace RunConfig

/-- Two configurations are equal: their holdings may be in another order, and their capital may be
written as another number of its value. -/
structure Same (c c' : RunConfig α) : Prop where
  start : c.start = c'.start
  stop : c.stop = c'.stop
  capital : c.capital.Same c'.capital
  interval : c.interval = c'.interval
  baseCurrency : c.baseCurrency = c'.baseCurrency
  holdings : c.holdings.Perm c'.holdings
  granularity : c.granularity = c'.granularity

theorem sortedHoldings_perm (c : RunConfig α) : c.holdings.Perm c.sortedHoldings := (List.mergeSort_perm _ _).symm

theorem positiveNum_ok {x y : Num α} {cause : StructuralFault α} (h : positiveNum (.num x) cause = .ok y) : y = x := by
  unfold positiveNum Value.number? at h
  dsimp only at h
  split at h
  · cases h
  · cases h; rfl

theorem build_capital {start stop interval granularity : Value α} {x : Num α} {base : String}
    {holdings : Object α} {c : RunConfig α}
    (h : build start stop (.num x) interval base holdings granularity = .ok c) : c.capital = x := by
  obtain ⟨first, -, h⟩ := bind_ok h
  obtain ⟨last, -, h⟩ := bind_ok h
  split at h
  · cases h
  obtain ⟨capital, hcapital, h⟩ := bind_ok h
  obtain ⟨_, -, h⟩ := bind_ok h
  cases h
  exact positiveNum_ok hcapital

/-- What reading the written form amounts to: the capital becomes a scalar, and the holdings come in the
order of their names. -/
theorem ofValue_written {c : RunConfig α} (h : c.Checked) : ofValue c.toValue = (do
    let capital ← (liftM (Value.realOfNum c.capital) : Except (Fault α) α)
    build c.start.toValue c.stop.toValue (.real capital) (.num c.interval) c.baseCurrency c.sortedHoldings
      c.granularity) := by
  obtain ⟨n, -, hinterval⟩ := h.interval
  change (do
    let capital ← (liftM (Value.num c.capital).toReal : Except (Fault α) α)
    let interval ← (liftM (Value.num c.interval).toWhole : Except (Fault α) Int)
    let holdings ← (liftM (Value.objectOrEmpty (some (.object c.sortedHoldings))) : Except (Fault α) (Object α))
    build c.start.toValue c.stop.toValue (.real capital) (.whole interval) c.baseCurrency holdings c.granularity) = _
  rw [hinterval, Value.objectOrEmpty_object]
  rfl

/-- A configuration of checked parts comes back as it was just when a scalar holds its capital. -/
theorem comes_back_iff {c : RunConfig α} (h : c.Checked) :
    (∃ c', ofValue c.toValue = .ok c' ∧ c.Same c') ↔ c.capital.Held := by
  rw [ofValue_written h]
  unfold Value.realOfNum
  constructor
  · rintro ⟨c', hread, hsame⟩
    cases hy : c.capital.value? with
    | none => rw [hy] at hread; cases hread
    | some y =>
      rw [hy] at hread
      exact ⟨y, hy, build_capital (x := .real y) hread ▸ hsame.capital⟩
  · rintro ⟨y, hy, hsame⟩
    rw [hy]
    have hchecked : ({ c with capital := .real y, holdings := c.sortedHoldings } : RunConfig α).Checked :=
      { h with capital := Num.Held.positive h.capital hy hsame }
    exact ⟨_, build_checked hchecked, rfl, rfl, hsame, rfl, rfl, c.sortedHoldings_perm, rfl⟩

end RunConfig

/-! ## Results -/

omit [Scalar α] in
theorem Value.ofOption_map_injective {β : Type} {f : β → Value α} (hf : Function.Injective f) (hnull : ∀ x, f x ≠ .null) :
    ∀ {x y : Option β}, ofOption (x.map f) = ofOption (y.map f) → x = y
  | none, none, _ => rfl
  | none, some y, h => absurd h.symm (hnull y)
  | some x, none, h => absurd h (hnull x)
  | some _, some _, h => congrArg some (hf h)

/-- A trade whose kind is kept as the text it is written as. -/
def Trade.named (t : Trade α) : Trade α := { t with kind := .other t.kind.name }

omit [Scalar α] in
/-- The stored form of a trade has all of it. -/
theorem Trade.stored_faithful {t t' : Trade α} (h : t.stored = t'.stored) : t.named = t'.named := by
  obtain ⟨htime, hfields⟩ := Prod.mk.inj h
  simp only [List.cons.injEq, Value.text.injEq, Value.real, Value.num.injEq, Num.real.injEq, and_true] at hfields
  obtain ⟨hid, hkind, hinput, hamount, hprice, hfees, hgas, houtput, hreceived, hslippage⟩ := hfields
  have hnumber : t.number = t'.number := Decimal.natText_injective (String.append_right_inj _ |>.1 hid)
  have htoken := Value.ofOption_map_injective (fun _ _ => Value.text.inj) nofun houtput
  have houtputAmount := Value.ofOption_map_injective (f := Value.real (α := α))
    (fun _ _ h => Num.real.inj (Value.num.inj h)) nofun hreceived
  have hpercent := Value.ofOption_map_injective (fun _ _ => Value.num.inj) nofun hslippage
  unfold named
  rw [hnumber, htime, hkind, hinput, hamount, hprice, hfees, hgas, htoken, houtputAmount, hpercent]

/-- The result of a run whose trades have their kinds as texts. -/
def Report.named (r : Report α) : Report α := { r with trades := r.trades.map Trade.named }

omit [Scalar α] in
theorem Metrics.written_injective : Function.Injective (written (α := α)) := by
  intro m m' h
  cases m
  cases m'
  simpa [written, map] using h

omit [Scalar α] in
/-- The stored form of a result has all of it. -/
theorem Report.stored_faithful {r r' : Report α} (h : r.stored = r'.stored) : r.named = r'.named := by
  obtain ⟨hmetrics, hcurve, htrades, hskipped⟩ := StoredReport.mk.inj h
  have hlog : r.trades.map Trade.named = r'.trades.map Trade.named := by
    have hpaired : List.Forall₂ (fun t t' => t.stored = t'.stored) r.trades r'.trades := by
      rwa [← List.forall₂_map_right_iff, ← List.forall₂_map_left_iff, List.forall₂_eq_eq_eq]
    rw [← List.forall₂_eq_eq_eq, List.forall₂_map_left_iff, List.forall₂_map_right_iff]
    exact hpaired.imp fun _ _ => Trade.stored_faithful
  unfold named
  rw [Metrics.written_injective hmetrics, hcurve, hlog, Int.ofNat_inj.1 hskipped]

/-! ## Blocks -/

/-- A block that was read has a kind. -/
theorem Block.kind_ne_empty {v : Value α} {b : Block α} (h : ofValue v = .ok b) : b.kind ≠ "" := by
  obtain ⟨fields, -, h⟩ := bind_ok h
  dsimp only at h
  split at h
  · cases h
  rename_i hkind
  split at h
  · cases h
  obtain ⟨_, -, h⟩ := bind_ok h
  obtain ⟨_, -, h⟩ := bind_ok h
  cases h
  simpa using hkind

/-! ## All written forms -/

/-- Configurations, results, blocks and instants come back from their written forms. -/
theorem written_forms_kept :
    (∀ c : RunConfig α, c.Checked → ((∃ c', RunConfig.ofValue c.toValue = .ok c' ∧ c.Same c') ↔ c.capital.Held)) ∧
    (∀ (bs : List (Block α)) (o : Oracle α) (c : RunConfig α) (r : Report α),
      (∀ ns, c.start = .known ns → Instant.inRange ns = true) → (∀ ns, c.stop = .known ns → Instant.inRange ns = true) →
      c.stop.isAtMost c.start = false → Simulation.run bs o c = .ok r → StoredReport.ofValue r.toValue = .ok r.stored) ∧
    (∀ r r' : Report α, r.stored = r'.stored → r.named = r'.named) ∧
    (∀ (v : Value α) (b : Block α), Block.ofValue v = .ok b → Block.ofValue b.toValue = .ok b) ∧
    ∀ ns, Instant.inRange ns = true → Instant.ofValue ((Instant.known ns).toValue (α := α)) = .ok (.known ns) := by
  refine ⟨fun c hc => RunConfig.comes_back_iff hc, fun bs o c r hstart hstop horder hrun => ?_,
    fun r r' => Report.stored_faithful, fun v b h => Block.ofValue_toValue (Block.kind_ne_empty h), fun ns hns => ?_⟩
  · obtain ⟨hcurve, htrades⟩ := Simulation.run_inRange hstart hstop horder hrun
    exact StoredReport.ofValue_toValue hcurve htrades
  · refine Instant.ofValue_toValue fun n hn => ?_
    obtain rfl := Instant.known.inj hn
    exact hns

/-! ## Forms that come back, and a capital that no scalar holds -/

/-- A day with some holdings, on a capital of so much. -/
def dayOnCapital (capital : Num α) : RunConfig α :=
  { start := .known 0, stop := .known 86400000000000, capital, interval := .whole 3600000, baseCurrency := "USDC",
    holdings := [(.text "WBTC", .num (.whole 1)), (.text "ETH", .num (.whole 2))], granularity := .text "hourly" }

theorem dayOnCapital_checked {capital : Num α} (h : capital.isAtMost (.whole 0) = false) :
    (dayOnCapital capital).Checked where
  start := fun ns hns => by cases hns; decide
  stop := fun ns hns => by cases hns; decide
  order := rfl
  capital := h
  interval := ⟨3600000, by decide, rfl⟩

local instance openPartsOfWrittenForms : ExactArithmetic := default

/-- A swap written with a type and without a category. -/
def writtenSwap : Value ℚ :=
  .record [("id", .num (.whole 7)), ("type", .text "uniswap_swap"), ("params", .record [("amount", .text "10")])]

/-- A day on a thousand, a run with three purchases, a swap, and instants of all three precisions. -/
theorem day_comes_back :
    (∃ c', RunConfig.ofValue (dayOnCapital (.whole 1000 : Num ℚ)).toValue = .ok c' ∧
      (dayOnCapital (.whole 1000)).Same c') ∧
    (∃ r : Report ℚ, r.trades.length = 3 ∧ StoredReport.ofValue r.toValue = .ok r.stored ∧
      ∀ r' : Report ℚ, r.stored = r'.stored → r.named = r'.named) ∧
    (∃ b : Block ℚ, b.id = "7" ∧ b.category = .protocol ∧ Block.ofValue b.toValue = .ok b) ∧
    ∀ p ∈ [("1969-12-31T23:59:59", -1000000000), ("2000-02-29T00:00:00.000001", 951782400000001000),
        ("2262-04-11T23:47:16.854775807", 9223372036854775807)],
      Instant.ofValue (Value.text (α := ℚ) p.1) = .ok (.known p.2) := by
  obtain ⟨hconfig, hresult, hfaithful, hblock, hinstant⟩ := written_forms_kept (α := ℚ)
  refine ⟨?_, ?_, ?_, ?_⟩
  · refine (hconfig _ (dayOnCapital_checked (by decide))).2 ⟨1000, rfl, .inr ?_⟩
    decide +kernel
  · obtain ⟨r, hr, hthree⟩ := ok_of_toOption
      (show (Simulation.run [Simulation.etherBought] [("ETH", Simulation.risingEtherSamples.toArray)]
        (Simulation.everyMillisecond 2000000)).toOption.map (·.trades.length) = some 3 by decide +kernel)
    refine ⟨r, hthree, hresult _ _ _ r ?_ ?_ ?_ hr, hfaithful r⟩
    · intro ns hns
      cases hns
      decide
    · intro ns hns
      cases hns
      decide
    · decide
  · obtain ⟨b, hb, heq⟩ := ok_of_toOption (show (Block.ofValue writtenSwap).toOption.map (fun b => (b.id, b.category)) =
      some ("7", Category.protocol) by decide +kernel)
    obtain ⟨hid, hcategory⟩ := Prod.mk.inj heq
    exact ⟨b, hid, hcategory, hblock _ b hb⟩
  · have hread : ∀ {text : String} {ns : Int}, (Instant.known ns).text = text → Instant.inRange ns = true →
        Instant.ofValue (Value.text (α := ℚ) text) = .ok (.known ns) := fun htext hns => htext ▸ hinstant _ hns
    intro p hp
    simp only [List.mem_cons, List.not_mem_nil, or_false] at hp
    obtain rfl | rfl | rfl := hp
    · exact hread (by decide +kernel) (by decide)
    · exact hread (by decide +kernel) (by decide)
    · exact hread (by decide +kernel) (by decide)

/-- A whole capital above all doubles passes the checks, but does not come back. -/
theorem dayOnCapital_lost {n : Int} (hpos : 0 < n) (hlarge : Double.ofInt? n = none) :
    (dayOnCapital (.whole n : Num Float)).Checked ∧
      ¬ ∃ c', RunConfig.ofValue (dayOnCapital (.whole n : Num Float)).toValue = .ok c' ∧
        (dayOnCapital (.whole n)).Same c' := by
  have hchecked : (dayOnCapital (.whole n : Num Float)).Checked :=
    dayOnCapital_checked (by simp [Num.isAtMost, Num.compare?, compare_gt_iff_gt.2 hpos])
  refine ⟨hchecked, fun hback => ?_⟩
  obtain ⟨y, hy, -⟩ := (RunConfig.comes_back_iff hchecked).1 hback
  have hvalue : (dayOnCapital (.whole n : Num Float)).capital.value? = Scalar.ofInt? n := rfl
  have hnone : Scalar.ofInt? (α := Float) n = none := hlarge
  rw [hvalue, hnone] at hy
  cases hy

theorem wholeLimit_pos : 0 < Double.wholeLimit := by decide +kernel

/-- The least whole number that no double holds, as a capital. -/
theorem capital_beyond_doubles : ∃ n : Int, (dayOnCapital (.whole n : Num Float)).Checked ∧
    ¬ ∃ c', RunConfig.ofValue (dayOnCapital (.whole n : Num Float)).toValue = .ok c' ∧
      (dayOnCapital (.whole n)).Same c' := by
  refine ⟨Double.wholeLimit, ?_⟩
  generalize hn : (Double.wholeLimit : Int) = n
  refine dayOnCapital_lost ?_ ?_
  · rw [← hn]
    exact Int.natCast_pos.2 wholeLimit_pos
  · refine if_neg ?_
    rw [← hn, Int.natAbs_natCast]
    exact lt_irrefl _

end StrategyLab
