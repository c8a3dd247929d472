/-
A run sees nothing beyond its own end. Up to the end of a shorter run a longer one over the same
prices, whose steps hit that end, makes the same steps: the slices that the two read from give the
same prices there, and nothing else of a step depends on the end.
-/
import StrategyLab.Proofs.Number.Exact
import StrategyLab.Proofs.Simulation.Steps

namespace StrategyLab.Simulation

variable {α : Type} [Scalar α]

/-- Two runs over one oracle read the same prices at every instant that lies in both ranges. -/
theorem stepPrice_slices {o : Oracle α} (ho : ∀ token s, o.series? token = some s → s.Ordered ∧ 0 < s.size)
    {wanted : List String} {start stop stop' t : Instant} (hlt : start.count < stop.count)
    (hlt' : start.count < stop'.count) {fetched fetched' : Oracle α}
    (h : o.prices wanted start stop .null = .ok fetched) (h' : o.prices wanted start stop' .null = .ok fetched')
    (hlo : start.count ≤ t.count) (hhi : t.count ≤ stop.count) (hhi' : t.count ≤ stop'.count) (base : String)
    {token : String} (ht : token ∈ wanted) :
    stepPrice (usable fetched) base t token = stepPrice (usable fetched') base t token := by
  have hkept : ∀ {stop : Instant}, start.count < stop.count → ∀ token s, o.series? token = some s →
      0 < (Oracle.thinned none (s.sliceAround start stop)).size := fun hlt token s hs =>
    (Series.sliceAround_ordered (ho token s hs).1 (ho token s hs).2 hlt.le).2
  unfold stepPrice
  rw [lookup_usable rfl (hkept hlt) h ht, lookup_usable rfl (hkept hlt') h' ht]
  cases hs : o.series? token with
  | none => rfl
  | some s =>
    obtain ⟨hordered, hne⟩ := ho token s hs
    show (s.sliceAround start stop).priceAt t = (s.sliceAround start stop').priceAt t
    rw [Series.priceAt_sliceAround hordered hne hlt.le hlo hhi, Series.priceAt_sliceAround hordered hne hlt'.le hlo hhi']

/-- Two runs that differ in their ends read the same prices at the instants until the first of these. -/
theorem Course.stepPrice_eq {blocks : List (Block α)} {data : List (String × PriceData α)} {o : Oracle α}
    (ho : Oracle.ofData data = .ok o) (hdata : Oracle.Timed data) {c : RunConfig α}
    {start stop stop' interval : Int} (hc : c.Spans start stop interval)
    (hc' : ({ c with stop := .known stop' } : RunConfig α).Spans start stop' interval) (hall : c.granularity = .null)
    (hle : stop ≤ stop') {tokens : List String} {fetched fetched' : Oracle α} {l l' : Ledger α}
    {grid grid' : List Instant} {s s' : State α} (hcourse : Course blocks o c tokens fetched l grid s)
    (hcourse' : Course blocks o { c with stop := .known stop' } tokens fetched' l' grid' s') {x : Int}
    (hlo : start ≤ x) (hhi : x ≤ stop) {token : String} (ht : token ∈ neededTokens c tokens) :
    stepPrice (usable fetched) c.baseCurrency (.known x) token =
      stepPrice (usable fetched') c.baseCurrency (.known x) token := by
  have hfetch := hcourse.fetches
  have hfetch' := hcourse'.fetches
  rw [hc.start_eq, hc.stop_eq, hall] at hfetch
  rw [hc'.start_eq, hc'.stop_eq, hall] at hfetch'
  have hseries : ∀ token s, o.series? token = some s → s.Ordered ∧ 0 < s.size :=
    fun _ _ hs => hdata.series? ho hs
  exact stepPrice_slices hseries (show Instant.count (.known start) < Instant.count (.known stop) from hc.lt)
    (show Instant.count (.known start) < Instant.count (.known stop') from hc'.lt) hfetch hfetch'
    (show _ ≤ Instant.count (.known x) from hlo) hhi (hhi.trans hle) c.baseCurrency ht

omit [Scalar α] in
/-- Of trades until an instant, with later ones behind them, those are kept that are not after it. -/
theorem filter_until {stop : Int} {trades new : List (Trade α)}
    (hbefore : ∀ x ∈ trades, ∃ n, x.timestamp = .known n ∧ n ≤ stop)
    (hafter : ∀ x ∈ new, ∃ n, x.timestamp = .known n ∧ stop < n) :
    (trades ++ new).filter (fun x => x.timestamp.isAtMost (.known stop)) = trades := by
  have hkept : trades.filter (fun x => x.timestamp.isAtMost (.known stop)) = trades := by
    refine List.filter_eq_self.2 fun x hx => ?_
    obtain ⟨n, hn, hle⟩ := hbefore x hx
    rw [hn]
    exact decide_eq_true hle
  have hdropped : new.filter (fun x => x.timestamp.isAtMost (.known stop)) = [] := by
    refine List.filter_eq_nil_iff.2 fun x hx => ?_
    obtain ⟨n, hn, hlt⟩ := hafter x hx
    rw [hn]
    simpa [Instant.isAtMost] using hlt
  rw [List.filter_append, hkept, hdropped, List.append_nil]

/-- No look-ahead: of two runs that differ in their ends only, the first of which the steps hit, the
equity curve and the log of the shorter one are the beginning of those of the longer one, the log
consisting of the trades that are not after the first end. -/
theorem run_prefix {blocks : List (Block α)} {data : List (String × PriceData α)} {o : Oracle α}
    (ho : Oracle.ofData data = .ok o) (hdata : Oracle.Timed data) {c : RunConfig α}
    {start stop stop' interval : Int} (hc : c.Spans start stop interval) (hall : c.granularity = .null)
    (hwhole : interval * Instant.perMillisecond ∣ stop - start) (hlater : stop < stop') {r r' : Report α}
    (h : run blocks o c = .ok r) (h' : run blocks o { c with stop := .known stop' } = .ok r') :
    r.curve <+: r'.curve ∧ r.trades <+: r'.trades ∧
      r.trades = r'.trades.filter fun x => x.timestamp.isAtMost (.known stop) := by
  have hc' : ({ c with stop := .known stop' } : RunConfig α).Spans start stop' interval :=
    ⟨hc.start_eq, rfl, hc.lt.trans hlater, hc.interval_eq, hc.pos⟩
  obtain ⟨tokens, fetched, l, grid, s, hcourse, hreport⟩ := run_ok h
  obtain ⟨tokens', fetched', l', grid', s', hcourse', hreport'⟩ := run_ok h'
  -- both runs need the same tokens and open the same account
  obtain rfl : tokens = tokens' := Except.ok.inj (hcourse.names.symm.trans hcourse'.names)
  obtain rfl : l = l' := Except.ok.inj (hcourse.opens.symm.trans hcourse'.opens)
  obtain ⟨later, hlaterGrid, hafter⟩ := Grid.counts_prefix (step_pos hc.pos) hc.lt.le hlater hwhole
  have hgrid := grid_eq hc hcourse.divides
  have hgrid' : grid' = grid ++ later.map .known := by
    rw [grid_eq hc' hcourse'.divides, hlaterGrid, List.map_append, hgrid]
  have hmem : ∀ t ∈ grid, ∃ x, t = .known x ∧ start ≤ x ∧ x ≤ stop := fun t ht => by
    rw [hgrid] at ht
    obtain ⟨x, hx, rfl⟩ := List.mem_map.1 ht
    exact ⟨x, rfl, Grid.counts_between (step_pos hc.pos) hc.lt.le hx⟩
  -- on the shared instants the steps are the same
  have hsame : ∀ t ∈ grid, ∀ token ∈ neededTokens c tokens,
      stepPrice (usable fetched) c.baseCurrency t token = stepPrice (usable fetched') c.baseCurrency t token := by
    intro t ht token htoken
    obtain ⟨x, rfl, hlo, hhi⟩ := hmem t ht
    exact hcourse.stepPrice_eq ho hdata hc hc' hall hlater.le hcourse' hlo hhi htoken
  have hends' := hcourse'.ends
  rw [hgrid', List.foldlM_append] at hends'
  obtain ⟨s₁, hs₁, hends'⟩ := bind_ok hends'
  obtain rfl : s = s₁ := Except.ok.inj (hcourse.ends.symm.trans ((steps_congr _ hsame).trans hs₁))
  have hl : l.Reachable := openLedger_reachable hcourse.opens
  have hopen : l.trades = [] := (openLedger_ok hcourse.opens fun _ => True).choose_spec.2.2
  obtain ⟨hbefore, hs⟩ := steps_ok (s := initialState l (neededTokens c tokens)) hl hcourse.ends
  obtain ⟨hadded, -⟩ := steps_ok hs hends'
  obtain ⟨hcurve, htrades, -⟩ := report_ok hreport
  obtain ⟨hcurve', htrades', -⟩ := report_ok hreport'
  obtain ⟨points, hpoints, -⟩ := hadded.curve
  obtain ⟨new, hnew, hstamps⟩ := hadded.trades
  refine ⟨?_, ?_, ?_⟩
  · rw [hcurve, hcurve', hpoints, List.reverse_append]
    exact List.prefix_append _ _
  · rw [htrades, htrades', hnew]
    exact List.prefix_append _ _
  · -- the trades of the shorter run are not after its end, and all others are
    have hbeforeEnd : ∀ x ∈ s.ledger.trades, ∃ n, x.timestamp = .known n ∧ n ≤ stop := by
      intro x hx
      obtain ⟨old, hold, hinstants⟩ := hbefore.trades
      have hnone : (initialState l (neededTokens c tokens)).ledger.trades = [] := hopen
      rw [hold, hnone, List.nil_append] at hx
      obtain ⟨n, hn, -, hle⟩ := hmem _ (hinstants x hx)
      exact ⟨n, hn, hle⟩
    have hafterEnd : ∀ x ∈ new, ∃ n, x.timestamp = .known n ∧ stop < n := by
      intro x hx
      obtain ⟨n, hn, heq⟩ := List.mem_map.1 (hstamps x hx)
      exact ⟨n, heq.symm, hafter n hn⟩
    rw [htrades, htrades', hnew, filter_until hbeforeEnd hafterEnd]

/-! ## Two runs over one rise -/

local instance openPartsOfPrefixRuns : ExactArithmetic := default

/-- A swap of ten for ether. -/
def etherBought : Block ℚ :=
  { id := "s", kind := "uniswap_swap", category := .protocol, label := "",
    params := [(.text "input_token", .text "USDC"), (.text "output_token", .text "ETH"),
      (.text "amount", .num (.real 10))] }

-- a hundred at first, two hundred four milliseconds later
def risingEther : List (String × PriceData ℚ) :=
  [("ETH", .points [.list [.num (.whole 0), .num (.real 100)], .list [.num (.whole 4), .num (.real 200)]])]

def risingEtherSamples : List (Sample ℚ) := [⟨.known 0, 100⟩, ⟨.known 4000000, 200⟩]

/-- A run in steps of a millisecond. -/
def everyMillisecond (stop : Int) : RunConfig ℚ :=
  { start := .known 0, stop := .known stop, capital := .real 1000, interval := .whole 1, baseCurrency := "USDC",
    holdings := [], granularity := .null }

theorem risingEther_known : ∀ x ∈ risingEtherSamples, ∃ ns, x.time = .known ns := by
  simp [risingEtherSamples]

theorem risingEther_timed : Oracle.Timed risingEther := by
  intro token samples hgives
  obtain rfl : risingEtherSamples = samples := Except.ok.inj hgives.single
  exact risingEther_known

theorem risingEther_oracle : Oracle.ofData risingEther = .ok [("ETH", risingEtherSamples.toArray)] := by
  show Except.ok [("ETH", Series.ofSamples risingEtherSamples)] = _
  rw [Series.ofSamples_of_rising _ risingEther_known (by decide +kernel)]
  decide +kernel

/-- The three purchases of the shorter run are the first of the five of the longer one. -/
theorem purchases_prefix : ∃ r r' : Report ℚ,
    run [etherBought] [("ETH", risingEtherSamples.toArray)] (everyMillisecond 2000000) = .ok r ∧
    run [etherBought] [("ETH", risingEtherSamples.toArray)] (everyMillisecond 3500000) = .ok r' ∧
    r.trades.length = 3 ∧ r'.trades.length = 5 ∧ r.curve <+: r'.curve ∧ r.trades <+: r'.trades := by
  have hspans : (everyMillisecond 2000000).Spans 0 2000000 1 := ⟨rfl, rfl, by decide, rfl, by decide⟩
  obtain ⟨r, hr, hthree⟩ := ok_of_toOption
    (show (run [etherBought] [("ETH", risingEtherSamples.toArray)]
      (everyMillisecond 2000000)).toOption.map (·.trades.length) = some 3 by decide +kernel)
  obtain ⟨r', hr', hfive⟩ := ok_of_toOption
    (show (run [etherBought] [("ETH", risingEtherSamples.toArray)]
      (everyMillisecond 3500000)).toOption.map (·.trades.length) = some 5 by decide +kernel)
  obtain ⟨hcurve, htrades, -⟩ :=
    run_prefix risingEther_oracle risingEther_timed hspans rfl ⟨2, by decide⟩ (by decide : (2000000 : Int) < 3500000) hr hr'
  exact ⟨r, r', hr, hr', hthree, hfive, hcurve, htrades⟩

end StrategyLab.Simulation
