/-
The text that a backtest prints. A backtest that ends with code zero prints its report as it is, with words for
infinities and for undefined numbers, so that the text is JSON text if and only if all printed numbers are finite
(`printed_isText`). They are not after a run in which the equity never declines, or no return is a loss: a ratio
is infinite then. What is put into a run directory is a record and always JSON text.
-/
import StrategyLab.CommandLine.Program
import StrategyLab.Proofs.Json.Grammar
import StrategyLab.Proofs.Number.Extended
import StrategyLab.Proofs.Simulation.Steps
import StrategyLab.Proofs.Store.Deposit

namespace StrategyLab

open Json (IsText AllFinite)

variable {α : Type} [Scalar α]

/-! ## Reports -/

/-- All printed numbers of a report are finite: its statistics, and the numbers of its trades if they are shown. -/
structure Report.IsFinite (r : Report α) (showsTrades : Bool) : Prop where
  metrics : ∀ x ∈ r.metrics.toList, AllFinite (.num x)
  trades : showsTrades = true → ∀ t ∈ r.trades, AllFinite t.toValue

theorem Metrics.allFinite_written (m : Metrics (Num α)) :
    AllFinite m.written.toValue ↔ ∀ x ∈ m.toList, AllFinite (.num x) := by
  unfold Metrics.toValue
  rw [Json.allFinite_named]
  simp [Metrics.names, Metrics.toList, Metrics.written, Metrics.map]

namespace Report

/-- A run of some length in which the equity never declines. -/
def NeverDeclines (r : Report α) : Prop :=
  ∃ days : α, Simulation.spanDays r.curve = .ok days ∧ ¬ days ≤ 0.0 ∧
    (Metrics.drawdown (r.curve.map (·.2)) == 0.0) = true

/-- A run in which no return is a loss, with a gain on average. -/
def NeverLoses (r : Report α) : Prop :=
  let rs := Metrics.returns (r.curve.map (·.2))
  rs.isEmpty = false ∧ (∀ x ∈ rs, ¬ x < 0.0) ∧ 0.0 < Sample.mean rs

end Report

theorem Metrics.calmar_infinite {totalReturn maxDrawdown days : α} (hdays : ¬ days ≤ 0.0)
    (hflat : (maxDrawdown == 0.0) = true) : calmar totalReturn maxDrawdown days = Scalar.infinity := by
  unfold calmar
  rw [if_neg hdays, if_pos hflat]

theorem Metrics.sortino_infinite {rs : List α} {riskFree : α} (hne : rs.isEmpty = false)
    (hgains : ∀ x ∈ rs, ¬ x < 0.0) (hmean : 0.0 < Sample.mean rs) : sortino rs riskFree = Scalar.infinity := by
  have hlosses : (rs.filter fun r => decide (r < 0.0)) = [] :=
    List.filter_eq_nil_iff.2 fun x hx => by simpa using hgains x hx
  unfold sortino
  rw [hlosses]
  simp [hne, hmean]

/-- The statistics of a run are those of its curve and its trades. -/
theorem Simulation.run_metrics {blocks : List (Block α)} {o : Oracle α} {c : RunConfig α} {r : Report α}
    (h : run blocks o c = .ok r) : ∃ initial days : α, spanDays r.curve = .ok days ∧
      r.metrics = Metrics.compute (r.curve.map (·.2)) r.trades initial days := by
  obtain ⟨tokens, fetched, l, grid, s, -, h⟩ := run_ok h
  unfold report at h
  dsimp only at h
  split at h
  · cases h
  · obtain ⟨days, hdays, h⟩ := bind_ok h
    cases h
    exact ⟨_, days, hdays, rfl⟩

/-- A run without a decline or without a loss has an infinite ratio. -/
theorem Simulation.unbounded_infinite {blocks : List (Block α)} {o : Oracle α} {c : RunConfig α} {r : Report α}
    (h : run blocks o c = .ok r) (hr : r.NeverDeclines ∨ r.NeverLoses) :
    .real Scalar.infinity ∈ r.metrics.toList := by
  obtain ⟨initial, days, hdays, hmetrics⟩ := run_metrics h
  rw [hmetrics]
  rcases hr with ⟨days', hdays', hpositive, hflat⟩ | ⟨hne, hgains, hmean⟩
  · obtain rfl : days = days' := Except.ok.inj (hdays.symm.trans hdays')
    simp [Metrics.toList, Metrics.compute, Metrics.calmar_infinite hpositive hflat]
  · simp [Metrics.toList, Metrics.compute, Metrics.sortino_infinite hne hgains hmean]

/-! ## Files -/

namespace RunDirectory

/-- The text that a step puts into a file. -/
def Step.text? : Step → Option String
  | .append _ text => some text
  | .write _ text => some text
  | .replace _ _ => none

/-- Whatever is put into a run directory is JSON text. -/
theorem Deposit.steps_isText (hα : Json.Numeric α) {x : Deposit α} {steps : List Step} (h : x.steps = .ok steps) :
    ∀ step ∈ steps, ∀ text, step.text? = some text → IsText text := by
  have hwritten : ∀ {file : String} {v : Value α}, stepsToWrite file v = .ok steps →
      ∀ step ∈ steps, ∀ text, step.text? = some text → IsText text := by
    intro file v h
    obtain ⟨text, htext, h⟩ := bind_ok h
    cases h
    have hjson := Json.record_isText hα (show Json.render (Json.inOrder true) 0 v.toRecord = .ok text from htext)
      (show Json.Blank "".toList by simp [Json.Blank])
    simpa [Step.text?] using hjson
  cases x with
  | config v => exact hwritten h
  | checkpoint v => exact hwritten h
  | result v => exact hwritten h
  | solution v =>
    obtain ⟨text, htext, h⟩ := bind_ok h
    cases h
    have hjson := Json.record_isText hα (show Json.render (Json.inOrder false) 0 v.toRecord = .ok text from htext)
      Json.blank_newline
    simpa [Step.text?] using hjson

end RunDirectory

namespace CommandLine

theorem reportText_isText_iff (hα : Json.Numeric α) {r : Report α} {showsTrades : Bool} {text : String}
    (h : reportText r showsTrades = .ok text) : IsText text ↔ r.IsFinite showsTrades := by
  obtain ⟨body, hbody, h⟩ := bind_ok h
  cases h
  have hprinted : printed [body] = body ++ "\n" := by simp [printed, String.join]
  have hwhole : AllFinite (.whole r.skipped : Value α) := .whole _
  rw [hprinted, Json.render_isText_iff hα (show Json.render (Json.inOrder true) 0 _ = .ok body from hbody)
    Json.blank_newline, Json.allFinite_named]
  simp only [List.cons_append, List.nil_append, List.forall_mem_cons, Metrics.allFinite_written, hwhole, true_and]
  constructor
  · rintro ⟨hmetrics, htrades⟩
    refine ⟨hmetrics, ?_⟩
    rintro rfl
    simpa [Json.allFinite_items] using htrades
  · rintro ⟨hmetrics, htrades⟩
    refine ⟨hmetrics, ?_⟩
    cases showsTrades with
    | false => simp
    | true => simpa [Json.allFinite_items] using htrades rfl

/-! ## The command -/

/-- What a backtest goes through before it prints a text: the blocks, the prices, the configuration and the report. -/
structure Backtested (w : Outside Id) (a : Arguments α) (r : Report α) (text : String) : Prop where
  stages : ∃ blocks oracle config, (strategyOf w a).run = .ok blocks ∧ (pricesOf w a).run = .ok oracle ∧
    (runConfigOf (μ := Id) a oracle).run = .ok config ∧ Simulation.run blocks oracle config = .ok r
  text : reportText r a.showsTrades = .ok text

theorem Backtested.unique {w : Outside Id} {a : Arguments α} {r r' : Report α} {text text' : String}
    (h : Backtested w a r text) (h' : Backtested w a r' text') : r = r' := by
  obtain ⟨blocks, oracle, config, hblocks, horacle, hconfig, hr⟩ := h.stages
  obtain ⟨blocks', oracle', config', hblocks', horacle', hconfig', hr'⟩ := h'.stages
  obtain rfl : blocks = blocks' := Except.ok.inj (hblocks.symm.trans hblocks')
  obtain rfl : oracle = oracle' := Except.ok.inj (horacle.symm.trans horacle')
  obtain rfl : config = config' := Except.ok.inj (hconfig.symm.trans hconfig')
  exact Except.ok.inj (hr.symm.trans hr')

omit [Scalar α] in
theorem given_ok_iff {β : Type} {x : Except (Fault α) β} {b : β} :
    (Action.given x : Action Id α β).run = .ok b ↔ x = .ok b := by
  cases x with
  | error f => exact iff_of_false nofun nofun
  | ok y =>
    constructor <;> rintro ⟨⟩ <;> rfl

omit [Scalar α] in
theorem bind_ok_iff {β γ : Type} {x : Action Id α β} {f : β → Action Id α γ} {c : γ} :
    (x >>= f).run = .ok c ↔ ∃ b, x.run = .ok b ∧ (f b).run = .ok c := by
  rw [ExceptT.run_bind]
  rcases hx : x.run with e | b
  · exact iff_of_false nofun nofun
  · constructor
    · intro h
      exact ⟨b, rfl, h⟩
    · rintro ⟨b, ⟨⟩, h⟩
      exact h

/-- A backtest gives a text if and only if all its stages give results. -/
theorem runBacktest_ok_iff {w : Outside Id} {a : Arguments α} {text : String} :
    (runBacktest w a).run = .ok text ↔ ∃ r, Backtested w a r text := by
  unfold runBacktest
  simp only [bind_ok_iff, given_ok_iff]
  constructor
  · rintro ⟨blocks, hblocks, oracle, horacle, config, hconfig, r, hr, h⟩
    refine ⟨r, ⟨blocks, oracle, config, hblocks, horacle, hconfig, hr⟩, ?_⟩
    cases htext : reportText r a.showsTrades with
    | error e =>
      rw [htext] at h
      cases h
    | ok other =>
      rw [htext] at h
      cases h
      rfl
  · rintro ⟨r, ⟨blocks, oracle, config, hblocks, horacle, hconfig, hr⟩, htext⟩
    refine ⟨blocks, hblocks, oracle, horacle, config, hconfig, r, hr, ?_⟩
    rw [htext]
    rfl

theorem outcomeOf_code {level : String} {x : Except (Halt α) String} {saved : Option (String × Directory)}
    (h : (outcomeOf level x saved).ending = .code 0) : x = .ok (outcomeOf level x saved).output := by
  rcases x with (text | f) | output
  · cases h
  · unfold outcomeOf at h
    dsimp only at h
    split at h <;> cases h
  · rfl

section

variable {w : Outside Id} {line : List String} {a : Arguments α} (hread : Arguments.read line = .ok a)
  (hcommand : a.command = .backtest)

include hread hcommand

theorem run_backtest : (run w line : Outcome α) =
    let level := Text.upper a.logLevel
    if levels.contains level then outcomeOf level (runBacktest w a).run none
    else outcomeOf level (.error (.fault (.request (.unknownLogLevel level)))) none := by
  unfold run
  rw [hread]
  dsimp only
  unfold runCommand
  rw [hcommand]
  by_cases hlevel : levels.contains (Text.upper a.logLevel) = true
  · simp only [hlevel]
    rfl
  · simp only [hlevel]
    rfl

/-- A backtest that ends with code zero has gone through, and prints the text of the report. -/
theorem backtested_of_code (hcode : (run w line : Outcome α).ending = .code 0) :
    ∃ r, Backtested w a r (run w line : Outcome α).output := by
  rw [run_backtest hread hcommand] at hcode ⊢
  dsimp only at hcode ⊢
  split at hcode
  · rename_i hlevel
    rw [if_pos hlevel]
    exact runBacktest_ok_iff.1 (outcomeOf_code hcode)
  · cases outcomeOf_code hcode

theorem run_backtested (hlevel : levels.contains (Text.upper a.logLevel) = true) {r : Report α} {text : String}
    (h : Backtested w a r text) :
    (run w line : Outcome α) = { ending := .code 0, output := text, log := [], saved := none } := by
  rw [run_backtest hread hcommand]
  dsimp only
  rw [if_pos hlevel, runBacktest_ok_iff.2 ⟨r, h⟩]
  rfl

end

/-- A backtest that ends with code zero prints JSON text if and only if all numbers of its report are finite, which
they are not if the equity never declines or no return is a loss. Whatever is put into a run directory is JSON
text. -/
theorem printed_isText (hα : Json.Numeric α) {w : Outside Id} {line : List String} {a : Arguments α}
    (hread : Arguments.read line = .ok a) (hcommand : a.command = .backtest)
    (hcode : (run w line : Outcome α).ending = .code 0) :
    (∃ r, Backtested w a r (run w line : Outcome α).output ∧
      (IsText (run w line : Outcome α).output ↔ r.IsFinite a.showsTrades) ∧
      (Scalar.isFinite (Scalar.infinity : α) = false → r.NeverDeclines ∨ r.NeverLoses →
        ¬ IsText (run w line : Outcome α).output)) ∧
    ∀ (x : RunDirectory.Deposit α) steps, x.steps = .ok steps →
      ∀ step ∈ steps, ∀ text, step.text? = some text → IsText text := by
  obtain ⟨r, hr⟩ := backtested_of_code hread hcommand hcode
  have hiff := reportText_isText_iff hα hr.text
  refine ⟨⟨r, hr, hiff, ?_⟩, fun x steps => RunDirectory.Deposit.steps_isText hα⟩
  -- without a decline or without a loss one of the ratios is infinite, for which JSON has no word
  intro hinfinite hunbounded hjson
  obtain ⟨blocks, oracle, config, -, -, -, hrun⟩ := hr.stages
  have hratio := (hiff.1 hjson).metrics _ (Simulation.unbounded_infinite hrun hunbounded)
  exact Json.not_allFinite_real hinfinite hratio

/-! ## Prices of two days -/

section

theorem ok_of_toOption_eq {ε β : Type} {x : Except ε β} {b : β} (h : x.toOption = some b) : x = .ok b := by
  obtain ⟨b, hb, rfl⟩ := ok_of_toOption (h ▸ Option.map_id_apply : x.toOption.map id = some b)
  exact hb

local instance partsOfPrinted : ExactArithmetic :=
  { sqrt := id, infinity := 0, undefined := 0, successor := (· + 1), text := fun q => toString q.num ++ ".0" }

theorem numeric_extended : Json.Numeric Extended := by
  intro x hx
  obtain ⟨q, rfl⟩ := Extended.isFinite_iff.1 hx
  have hnumber := Json.isNumber_toString (.digits ⟨by simp, by simp⟩ : Json.IsFraction ['.', '0']) q.num
  show Json.IsNumber (toString q.num ++ ".0").toList
  rwa [String.toList_append]

/-- A strategy that limits risks and buys nothing. -/
def limitsText : String :=
  "[\x7b\"id\":\"l\",\"kind\":\"risk_limits\",\"params\":\x7b\"asset\":\"ETH\"\x7d\x7d]"

/-- A table with the prices of two days. -/
def twoDaysText (second : String) : String := "timestamp,ETH\n2024-01-01,100\n2024-01-02," ++ second ++ "\n"

/-- The two days. -/
def firstDay : Instant := .known 1704067200000000000

def secondDay : Instant := .known 1704153600000000000

/-- The oracle of the table. -/
def twoDays (second : ℚ) : Oracle Extended := [("ETH", #[⟨firstDay, .finite 100⟩, ⟨secondDay, .finite second⟩])]

/-- The strategy and the table. -/
def twoFiles (second : String) : Outside Id :=
  Outside.ofFiles [("s.json", limitsText), ("p.csv", twoDaysText second)] 0

/-- Prices of the second day, as they are written and as numbers. -/
def secondPrices : List (String × ℚ) := [("100", 100), ("50", 50)]

variable {second : String} {x : ℚ} (h : (second, x) ∈ secondPrices)

include h

set_option maxRecDepth 10000 in
theorem columns_twoDays : Table.columns (twoDaysText second) =
    .ok [("timestamp", ["2024-01-01", "2024-01-02"]), ("ETH", ["100", second])] := by
  simp only [secondPrices, List.mem_cons, Prod.mk.injEq, List.not_mem_nil, or_false] at h
  rcases h with ⟨rfl, rfl⟩ | ⟨rfl, rfl⟩ <;> decide +kernel

theorem find_twoDays : (twoFiles second).find "p.csv" = .file (twoDaysText second) := by
  show Entry.among [("s.json", limitsText), ("p.csv", twoDaysText second)] "p.csv" = _
  simp only [secondPrices, List.mem_cons, Prod.mk.injEq, List.not_mem_nil, or_false] at h
  rcases h with ⟨rfl, rfl⟩ | ⟨rfl, rfl⟩ <;> decide +kernel

/-- The samples are in the order of time, so that nothing is sorted. -/
theorem series_twoDays :
    [("ETH", PriceTable.seriesOf [firstDay, secondDay] (PriceTable.priceColumn ["100", second]))] = twoDays x := by
  have hprices : (PriceTable.priceColumn ["100", second]).map PriceData.looseFrom = [Extended.finite 100, .finite x] ∧
      (0.0 : ℚ) < x := by
    simp only [secondPrices, List.mem_cons, Prod.mk.injEq, List.not_mem_nil, or_false] at h
    rcases h with ⟨rfl, rfl⟩ | ⟨rfl, rfl⟩ <;> decide +kernel
  obtain ⟨hprices, hpositive⟩ := hprices
  obtain ⟨first, rest, hcolumn, hfirst, hrest⟩ := List.map_eq_cons_iff.1 hprices
  obtain ⟨last, rest, rfl, hlast, hnil⟩ := List.map_eq_cons_iff.1 hrest
  obtain rfl := List.map_eq_nil_iff.1 hnil
  rw [hcolumn]
  show [("ETH", Series.ofSamples [⟨_, PriceData.looseFrom first⟩, ⟨_, PriceData.looseFrom last⟩])] = _
  rw [hfirst, hlast, Series.ofSamples_of_rising]
  · rfl
  · have hhundred : (0.0 : ℚ) < 100 := by norm_num
    simp [Series.isUsable, Extended.literal_eq, hhundred, hpositive]
  · simp [firstDay, secondDay]
  · simp [firstDay, secondDay, Instant.count]

theorem oracle_twoDays : PriceTable.oracle "p.csv" (twoDaysText second) = .ok (twoDays x) := by
  have htimes : (PriceTable.timeColumn ["2024-01-01", "2024-01-02"] : Except (Fault Extended) _).toOption =
      some [firstDay, secondDay] := by decide +kernel
  unfold PriceTable.oracle
  rw [columns_twoDays h]
  simp only [pure_bind, List.lookup_cons_self, bne_self_eq_false, Bool.false_eq_true, not_false_eq_true,
    List.filter_cons_of_neg, String.reduceBNe, List.filter_cons_of_pos, List.filter_nil, List.map_cons, List.map_nil]
  rw [ok_of_toOption_eq htimes]
  exact congrArg Except.ok (series_twoDays h)

theorem pricesOf_twoDays {a : Arguments Extended} (ha : a.priceFile = "p.csv") :
    (pricesOf (twoFiles second) a).run = .ok (twoDays x) := by
  have hnormal : Path.normal "p.csv" = "p.csv" := by decide +kernel
  have hpath : (pricePath (twoFiles second) "p.csv" : Action Id Extended String).run = .ok "p.csv" := by
    unfold pricePath
    rw [hnormal]
    dsimp only
    rw [find_twoDays h]
    rfl
  have htext : (fileText (twoFiles second) "p.csv" : Action Id Extended String).run = .ok (twoDaysText second) := by
    unfold fileText
    rw [find_twoDays h]
    rfl
  unfold pricesOf
  rw [ha]
  simp only [bind_ok_iff, given_ok_iff]
  exact ⟨"p.csv", hpath, twoDaysText second, htext, oracle_twoDays h⟩

omit h in
theorem runConfigOf_twoDays {a : Arguments Extended} (hstart : a.start = "") (hstop : a.stop = "")
    (hholdings : a.holdings = []) {config : RunConfig Extended}
    (hbuild : RunConfig.build (.instant firstDay none) (.instant secondDay none) (.real a.capital) (.whole a.interval)
      (Text.upper a.baseCurrency) [] .null = .ok config) :
    (runConfigOf a (twoDays x) : Action Id Extended _).run = .ok config := by
  have htokens : (twoDays x).tokens = ["ETH"] := List.mergeSort_singleton _
  have hrange : (dataRange (twoDays x) : Action Id Extended _).run = .ok (firstDay, secondDay) := by
    unfold dataRange
    rw [htokens]
    rfl
  unfold runConfigOf
  rw [hstart, hstop, hholdings]
  simp only [bind_ok_iff, given_ok_iff]
  exact ⟨_, hrange, _, rfl, _, rfl, _, rfl, hbuild⟩

/-- What is seen in the report of a backtest on the two files. -/
def seen {β : Type} (second : String) (x : ℚ) (line : List String) (look : Arguments Extended → Report Extended → β) :
    Option β := do
  let a ← (Arguments.read line).toOption
  if a.command = .backtest ∧ levels.contains (Text.upper a.logLevel) = true ∧ a.priceFile = "p.csv" ∧ a.start = "" ∧
      a.stop = "" ∧ a.holdings = [] then
    let blocks ← (strategyOf (twoFiles second) a).run.toOption
    let config ← (RunConfig.build (.instant firstDay none) (.instant secondDay none) (.real a.capital)
      (.whole a.interval) (Text.upper a.baseCurrency) [] .null).toOption
    let r ← (Simulation.run blocks (twoDays x) config).toOption
    let _ ← (reportText r a.showsTrades).toOption
    pure (look a r)
  else none

/-- A backtest that is seen ends with code zero. -/
theorem backtested_of_seen {β : Type} {line : List String} {look : Arguments Extended → Report Extended → β} {y : β}
    (hseen : seen second x line look = some y) : ∃ a r, Arguments.read line = .ok a ∧ a.command = .backtest ∧
      (run (twoFiles second) line : Outcome Extended).ending = .code 0 ∧
      Backtested (twoFiles second) a r (run (twoFiles second) line : Outcome Extended).output ∧ look a r = y := by
  obtain ⟨a, ha, hseen⟩ := Option.bind_eq_some_iff.1 hseen
  split at hseen
  · rename_i hplain
    obtain ⟨hcommand, hlevel, hfile, hstart, hstop, hholdings⟩ := hplain
    obtain ⟨blocks, hblocks, hseen⟩ := Option.bind_eq_some_iff.1 hseen
    obtain ⟨config, hconfig, hseen⟩ := Option.bind_eq_some_iff.1 hseen
    obtain ⟨r, hr, hseen⟩ := Option.bind_eq_some_iff.1 hseen
    obtain ⟨text, htext, hseen⟩ := Option.bind_eq_some_iff.1 hseen
    have hread := ok_of_toOption_eq ha
    have hbacktested : Backtested (twoFiles second) a r text :=
      { stages :=
          ⟨blocks, twoDays x, config, ok_of_toOption_eq hblocks, pricesOf_twoDays h hfile,
            runConfigOf_twoDays hstart hstop hholdings (ok_of_toOption_eq hconfig), ok_of_toOption_eq hr⟩
        text := ok_of_toOption_eq htext }
    have hrun := run_backtested hread hcommand hlevel hbacktested
    rw [hrun]
    exact ⟨a, r, hread, hcommand, rfl, hbacktested, Option.some.inj hseen⟩
  · cases hseen

omit h

/-- A backtest in which the price of what is held falls by half, with its trades. -/
def fallingLine : List String := ["backtest", "s.json", "p.csv", "--base-currency", "ETH", "--trades"]

/-- All its numbers are finite, and the text is JSON text. -/
theorem falling_printed : Json.Numeric Extended ∧ ∃ a : Arguments Extended,
    Arguments.read fallingLine = .ok a ∧ a.command = .backtest ∧ a.showsTrades = true ∧
    (run (twoFiles "50") fallingLine : Outcome Extended).ending = .code 0 ∧
    IsText (run (twoFiles "50") fallingLine : Outcome Extended).output := by
  have hseen : seen "50" 50 fallingLine (fun a r => (a.showsTrades, r.trades.isEmpty,
      r.metrics.toList.all fun x => Scalar.isFinite x.value)) = some (true, true, true) := by
    decide +kernel
  obtain ⟨a, r, hread, hcommand, hcode, hr, hlook⟩ := backtested_of_seen (by simp [secondPrices]) hseen
  simp only [Prod.mk.injEq, List.all_eq_true, List.isEmpty_iff] at hlook
  obtain ⟨hshows, htrades, hmetrics⟩ := hlook
  obtain ⟨⟨r', hr', hiff, -⟩, -⟩ := printed_isText numeric_extended hread hcommand hcode
  obtain rfl := hr'.unique hr
  refine ⟨numeric_extended, a, hread, hcommand, hshows, hcode, hiff.2 ⟨fun x hx => ?_, ?_⟩⟩
  · cases x with
    | whole n => exact .whole n
    | real x => exact .real (hmetrics _ hx)
  · simp [htrades]

/-- A backtest of a strategy that does nothing at a constant price. -/
def flatLine : List String := ["backtest", "s.json", "p.csv"]

/-- Its equity never declines, one of its ratios is infinite, and the text is no JSON text. -/
theorem flat_misprinted : Json.Numeric Extended ∧ ∃ (a : Arguments Extended) (r : Report Extended),
    Arguments.read flatLine = .ok a ∧ a.command = .backtest ∧
    (run (twoFiles "100") flatLine : Outcome Extended).ending = .code 0 ∧
    Backtested (twoFiles "100") a r (run (twoFiles "100") flatLine : Outcome Extended).output ∧
    r.metrics.calmarRatio.value = Scalar.infinity ∧
    ¬ IsText (run (twoFiles "100") flatLine : Outcome Extended).output := by
  have hseen : seen "100" 100 flatLine (fun _ r => r.metrics.calmarRatio.value) = some (.infinite false) := by
    decide +kernel
  obtain ⟨a, r, hread, hcommand, hcode, hr, hlook⟩ := backtested_of_seen (by simp [secondPrices]) hseen
  refine ⟨numeric_extended, a, r, hread, hcommand, hcode, hr, hlook, fun hjson => ?_⟩
  have hfinite := ((reportText_isText_iff numeric_extended hr.text).1 hjson).metrics r.metrics.calmarRatio
    (by simp [Metrics.toList])
  cases hcalmar : r.metrics.calmarRatio with
  | whole n =>
    rw [hcalmar] at hlook
    cases hlook
  | real x =>
    rw [hcalmar] at hlook hfinite
    exact Json.not_allFinite_real (by rw [show x = .infinite false from hlook]; rfl) hfinite

end

end CommandLine
end StrategyLab
