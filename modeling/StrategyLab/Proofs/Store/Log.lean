/-
The log of solutions gives back what was put into it (`log_kept`): every record lies on a line of its
own, whatever characters its texts have, and is read as it was written, also between lines that hold
no record. A solution comes back with the records of its parameters and scores.
-/
import StrategyLab.Optimization.Frontier
import StrategyLab.Proofs.Json.Reading
import StrategyLab.Proofs.Number.Exact
import StrategyLab.Proofs.Simulation.Written
import StrategyLab.Proofs.Text.Lines
import StrategyLab.Store.RunDirectory

/-! ## Readable scalars

Scalars whose texts read back (`Decimals.readable`): exact arithmetic in which only a few rational
numbers count as finite, each with its decimal text. All others are written as infinite ones are. -/

namespace StrategyLab.Decimals

/-- The finite scalars with their texts. -/
def texts : List (ℚ × String) := [(0, "0.0"), (1 / 2, "0.5"), (-5 / 4, "-1.25"), (100, "100.0")]

/-- Exact arithmetic with a few finite scalars. -/
@[reducible] def scalars : Scalar ℚ :=
  let _ : ExactArithmetic := default
  { (inferInstance : Scalar ℚ) with
    isFinite := fun x => (texts.lookup x).isSome
    infinity := 1000000
    text := fun x => (texts.lookup x).getD (if x < 0 then "-inf" else "inf") }

local instance decimalsRead : Scalar ℚ := scalars

theorem texts_read : ∀ d ∈ texts, Json.number? d.2.toList = some (.real d.1) := by
  have hreal : ∀ {cs : List Char} {x y : ℚ}, Json.number? cs = some (.real x) → x = y →
      Json.number? cs = some (.real y) := fun h heq => heq ▸ h
  intro d hd
  simp only [texts, List.mem_cons, List.not_mem_nil, or_false] at hd
  obtain rfl | rfl | rfl | rfl := hd
  · exact @hreal _ (Numeral.ofDecimal 0 (-1)) _ rfl (by decide +kernel)
  · exact @hreal _ (Numeral.ofDecimal 5 (-1)) _ rfl (by decide +kernel)
  · exact @hreal _ (-Numeral.ofDecimal 125 (-2)) _ rfl (by decide +kernel)
  · exact @hreal _ (Numeral.ofDecimal 1000 (-1)) _ rfl (by decide +kernel)

theorem text_mem {x : ℚ} (hx : Scalar.isFinite x = true) : (x, Scalar.text x) ∈ texts := by
  obtain ⟨text, htext⟩ := Option.isSome_iff_exists.1 (show (texts.lookup x).isSome = true from hx)
  have hsame : Scalar.text x = text := by
    show (texts.lookup x).getD _ = text
    rw [htext]
    rfl
  obtain ⟨before, after, heq, -⟩ := List.lookup_eq_some_iff.1 htext
  rw [hsame, heq]
  exact List.mem_append_right _ List.mem_cons_self

/-- The texts of the finite scalars read back. -/
theorem readable : Json.Readable ℚ := by
  intro x hx
  exact texts_read (x, Scalar.text x) (text_mem hx)

end StrategyLab.Decimals

namespace StrategyLab

/-! ## Files -/

namespace Directory

theorem text?_remove (d : Directory) (file other : String) :
    (d.remove file).text? other = if other = file then none else d.text? other := by
  unfold text? remove
  induction d with
  | nil => simp
  | cons f rest ih =>
    obtain ⟨name, text⟩ := f
    rw [List.filter_cons]
    by_cases hname : name = file
    · subst hname
      rw [if_neg (by simp), ih, List.lookup_cons]
      by_cases hother : other = name
      · rw [if_pos hother, if_pos hother]
      · rw [if_neg hother, if_neg hother, beq_eq_false_iff_ne.2 hother]
    · rw [if_pos (by simpa using hname), List.lookup_cons, List.lookup_cons, ih]
      by_cases hother : other = name
      · have hne : ¬ other = file := hother ▸ hname
        rw [beq_iff_eq.2 hother]
        simp only [if_neg hne]
      · rw [beq_eq_false_iff_ne.2 hother]

@[simp] theorem text?_write (d : Directory) (file text other : String) :
    (d.write file text).text? other = if other = file then some text else d.text? other := by
  show ((file, text) :: d.remove file).lookup other = _
  rw [List.lookup_cons]
  by_cases h : other = file
  · rw [beq_iff_eq.2 h, if_pos h]
  · rw [beq_eq_false_iff_ne.2 h, if_neg h]
    exact (text?_remove d file other).trans (if_neg h)

@[simp] theorem text?_append (d : Directory) (file text other : String) : (d.append file text).text? other =
    if other = file then some ((d.text? file).getD "" ++ text) else d.text? other :=
  text?_write d file _ other

end Directory

namespace RunDirectory

variable {α : Type} [Scalar α]

/-! ## The log -/

/-- The lines of the log. -/
def logLines (d : Directory) : List String := Text.linesOf ((d.text? solutionsFile).getD "")

/-- The records of the log are those of its lines. -/
theorem loadSolutions_eq (d : Directory) : loadSolutions (α := α) d = (logLines d).filterMap record? := by
  unfold loadSolutions logLines Directory.read?
  cases d.text? solutionsFile with
  | none => rfl
  | some text => rfl

/-- The log is empty, or its last line is ended. -/
def Whole (d : Directory) : Prop := ∀ text, d.text? solutionsFile = some text → text = "" ∨ Text.Ended text

theorem Whole.new {d : Directory} (h : d.text? solutionsFile = none) : Whole d := fun text htext => by
  rw [h] at htext
  cases htext

theorem Whole.append {d : Directory} {text : String} (htext : Text.Ended text) : Whole (d.append solutionsFile text) :=
  fun after hafter => by
    rw [Directory.text?_append, if_pos rfl] at hafter
    exact .inr (Option.some.inj hafter ▸ htext.append)

theorem Whole.nothing {d : Directory} (h : Whole d) : Whole (d.append solutionsFile "") := fun text htext => by
  rw [Directory.text?_append, if_pos rfl, String.append_empty] at htext
  cases hlog : d.text? solutionsFile with
  | none =>
    rw [hlog] at htext
    exact .inl (Option.some.inj htext).symm
  | some before =>
    rw [hlog] at htext
    exact Option.some.inj htext ▸ h before hlog

/-- A text adds its lines to the log. -/
theorem logLines_append {d : Directory} (h : Whole d) (text : String) :
    logLines (d.append solutionsFile text) = logLines d ++ Text.linesOf text := by
  unfold logLines
  rw [Directory.text?_append, if_pos rfl, Option.getD_some]
  cases hbefore : d.text? solutionsFile with
  | none => rw [Option.getD_none, String.empty_append, Text.linesOf_empty, List.nil_append]
  | some before =>
    rw [Option.getD_some]
    obtain rfl | hended := h before hbefore
    · rw [String.empty_append, Text.linesOf_empty, List.nil_append]
    · rw [Text.linesOf_append hended]

/-- A text adds the records of its lines. -/
theorem loadSolutions_append {d : Directory} (hd : Whole d) (text : String) : loadSolutions (α := α)
    (d.append solutionsFile text) = loadSolutions d ++ (Text.linesOf text).filterMap record? := by
  rw [loadSolutions_eq, loadSolutions_eq, logLines_append hd, List.filterMap_append]

/-! ## Characters of a line -/

theorem spells_lineEnds {ts : List Json.Token} {cs : List Char} (h : Json.Spells [] ts cs) : '\n' ∉ cs ∧ '\r' ∉ cs := by
  have habsent : ∀ c : Char, ¬ Json.Printable c → c ∉ cs := fun c hc hmem =>
    hc ((Json.spells_printable h c hmem).resolve_right List.not_mem_nil)
  exact ⟨habsent _ (by decide), habsent _ (by decide)⟩

theorem spells_blanks {ts : List Json.Token} {cs : List Char} (h : Json.Spells [] ts cs) :
    (∀ c ∈ cs.head?, Text.isBlank c = false) ∧ ∀ c ∈ cs.getLast?, Text.isBlank c = false := by
  have hblank : ∀ c ∈ cs, c ≠ ' ' → Text.isBlank c = false := by
    intro c hc hspace
    obtain ⟨hlow, hhigh⟩ := (Json.spells_printable h c hc).resolve_right List.not_mem_nil
    have hne : c.toNat ≠ 32 := fun h => hspace (Char.toNat_inj.1 h)
    unfold Text.isBlank
    simp only [decide_eq_false_iff_not]
    omega
  obtain ⟨hfirst, hlast⟩ := Json.spells_ends h
  exact ⟨fun c hc => hblank c (List.mem_of_mem_head? hc) (hfirst c hc),
    fun c hc => hblank c (List.mem_of_getLast? hc) (hlast c hc)⟩

/-! ## Lines with a record -/

/-- The style of the log. -/
def logStyle : Json.Style := ⟨false, false, false⟩

/-- A record is written on one line, which is read as the record. -/
theorem stepsToAppend_record (hα : Json.Readable α) (v : Value α) : ∃ text : String,
    stepsToAppend v = .ok [.append solutionsFile (text ++ "\n")] ∧
    Json.render logStyle 0 v.toRecord = .ok text ∧ Json.Spells [] (Json.tokensOf v.toRecord) text.toList ∧
    Text.linesOf (text ++ "\n") = [text] ∧ Text.trim text = text ∧ record? text = some v.toRecord := by
  obtain ⟨text, htext, hspells, hread⟩ := Json.read_render (show logStyle.sorted = false from rfl) hα (Value.toRecord_isRecord v) 0
  obtain ⟨hfeed, hreturn⟩ := spells_lineEnds hspells
  obtain ⟨hfirst, hlast⟩ := spells_blanks hspells
  have htrim : Text.trim text = text := Text.trim_eq hfirst hlast
  refine ⟨text, ?_, htext, hspells, Text.linesOf_line hfeed hreturn, htrim, ?_⟩
  · unfold stepsToAppend
    rw [show Json.render ⟨false, false, false⟩ 0 v.toRecord = .ok text from htext]
    rfl
  · have hne : ¬ text.isEmpty = true := by
      intro hempty
      rw [String.isEmpty_iff] at hempty
      rw [hempty] at hread
      cases hread
    unfold record?
    dsimp only
    rw [htrim, if_neg hne, hread]

/-- What is put at the end of the log: a record, or a text that holds none. -/
inductive Entry (α : Type) where
  | record (v : Value α)
  | noise (text : String)

namespace Entry

/-- The record of an entry. -/
def written? : Entry α → Option (Value α)
  | record v => some v.toRecord
  | noise _ => none

/-- What the lines of an entry are read as. -/
def readings : Entry α → List (Option (Value α))
  | record v => [some v.toRecord]
  | noise text => (Text.linesOf text).map fun _ => none

/-- An entry is a record, or a text of ended lines none of which is read. -/
def Fit : Entry α → Prop
  | record _ => True
  | noise text => Text.Ended text ∧ ∀ line ∈ Text.linesOf text, record? (α := α) line = none

theorem readings_filterMap (e : Entry α) : e.readings.filterMap id = e.written?.toList := by
  cases e with
  | record v => rfl
  | noise text => simp [readings, written?]

end Entry

/-- The directory after an entry is put at the end of the log. -/
def put (d : Directory) : Entry α → Except (ValueFault α) Directory
  | .record v => appendSolution d v
  | .noise text => .ok (d.append solutionsFile text)

theorem put_ok (hα : Json.Readable α) {d : Directory} (hd : Whole d) {e : Entry α} (he : e.Fit) :
    ∃ d', put d e = .ok d' ∧ Whole d' ∧ (logLines d').map (record? (α := α)) = (logLines d).map record? ++ e.readings := by
  cases e with
  | record v =>
    obtain ⟨text, hsteps, -, -, hlines, -, hrecord⟩ := stepsToAppend_record hα v
    refine ⟨d.append solutionsFile (text ++ "\n"), ?_, Whole.append (Text.ended_line text), ?_⟩
    · show (stepsToAppend v).map (afterAll d) = _
      rw [hsteps]
      rfl
    · rw [logLines_append hd, hlines, List.map_append, List.map_singleton, hrecord]
      rfl
  | noise text =>
    obtain ⟨hended, hnone⟩ := he
    refine ⟨_, rfl, Whole.append hended, ?_⟩
    rw [logLines_append hd, List.map_append, Entry.readings, List.map_congr_left hnone]

/-- What is read of each line of the log. -/
theorem puts_ok (hα : Json.Readable α) : ∀ {entries : List (Entry α)} {d : Directory}, Whole d → (∀ e ∈ entries, e.Fit) →
    ∃ d', entries.foldlM put d = .ok d' ∧ Whole d' ∧
      (logLines d').map (record? (α := α)) = (logLines d).map record? ++ entries.flatMap Entry.readings
  | [], d, hd, _ => ⟨d, rfl, hd, by simp⟩
  | e :: entries, d, hd, h => by
    obtain ⟨he, hrest⟩ := List.forall_mem_cons.1 h
    obtain ⟨d₁, hput, hwhole, hlines⟩ := put_ok hα hd he
    obtain ⟨d₂, hputs, hwhole', hlines'⟩ := puts_ok hα hwhole hrest
    refine ⟨d₂, ?_, hwhole', ?_⟩
    · rw [List.foldlM_cons, hput]
      exact hputs
    · rw [hlines', hlines, List.append_assoc, List.flatMap_cons]

/-- The records of entries are added to those of the log. -/
theorem loadSolutions_puts {d d' : Directory} {entries : List (Entry α)}
    (hlines : (logLines d').map (record? (α := α)) = (logLines d).map record? ++ entries.flatMap Entry.readings) :
    loadSolutions d' = loadSolutions d ++ entries.filterMap Entry.written? := by
  have hread : ∀ d : Directory, loadSolutions (α := α) d = ((logLines d).map record?).filterMap id := fun d => by
    rw [loadSolutions_eq, List.filterMap_map]
    rfl
  calc loadSolutions d' = loadSolutions d ++ entries.flatMap fun e => e.written?.toList := by
        rw [hread d', hread d, hlines, List.filterMap_append, List.filterMap_flatMap]
        exact congrArg _ (List.flatMap_congr fun e _ => e.readings_filterMap)
    _ = loadSolutions d ++ entries.filterMap Entry.written? := by rw [List.filterMap_eq_flatMap_toList]

/-- A log that is begun holds the records of all its entries, in order, each on a line of its own. -/
theorem log_read (hα : Json.Readable α) {d : Directory} (hnew : d.text? solutionsFile = none) {entries : List (Entry α)}
    (h : ∀ e ∈ entries, e.Fit) : ∃ d', entries.foldlM put d = .ok d' ∧
      (logLines d').map (record? (α := α)) = entries.flatMap Entry.readings ∧
      loadSolutions d' = entries.filterMap Entry.written? := by
  obtain ⟨d', hputs, -, hlines⟩ := puts_ok hα (Whole.new hnew) h
  have hloads := loadSolutions_puts hlines
  have hempty : logLines d = [] := by
    unfold logLines
    rw [hnew]
    rfl
  rw [loadSolutions_eq d, hempty, List.filterMap_nil, List.nil_append] at hloads
  rw [hempty, List.map_nil, List.nil_append] at hlines
  exact ⟨d', hputs, hlines, hloads⟩

end RunDirectory

/-! ## Solutions -/

namespace Solution

variable {α : Type} [Scalar α]

/-- The fields of a record. -/
def recordFields (fields : Object α) : Object α := Object.renamed (Value.toRecordFields fields)

/-- The solution with the records of its parameters and scores. -/
def recorded (s : Solution α) : Solution α :=
  { s with assignment := recordFields s.assignment, inside := recordFields s.inside, outside := recordFields s.outside }

theorem recordFields_eq_iff {fields : Object α} : recordFields fields = fields ↔ (Value.object fields).IsRecord := by
  constructor
  · intro h
    rw [← h]
    exact Value.toRecord_isRecord (.object fields)
  · intro h
    exact Value.object.inj h.toRecord_eq

/-- A solution is kept just when its parameters and its scores are records. -/
theorem recorded_eq_iff {s : Solution α} : s.recorded = s ↔ (Value.object s.assignment).IsRecord ∧
    (Value.object s.inside).IsRecord ∧ (Value.object s.outside).IsRecord := by
  rw [← recordFields_eq_iff, ← recordFields_eq_iff, ← recordFields_eq_iff]
  constructor
  · intro h
    exact ⟨congrArg assignment h, congrArg inside h, congrArg outside h⟩
  · rintro ⟨hassignment, hinside, houtside⟩
    unfold recorded
    rw [hassignment, hinside, houtside]

theorem ofValue_record {s : Solution α} (hdegradation : Scalar.isFinite s.degradation = true)
    (herror : s.error = none ∨ ∃ reason, s.error = some (.text reason)) :
    ofValue s.toValue.toRecord = .ok s.recorded := by
  have hrecord : s.toValue.toRecord = .record [("id", .text s.id), ("parameters", .object (recordFields s.assignment)),
      ("in_sample_scores", .object (recordFields s.inside)), ("out_of_sample_scores", .object (recordFields s.outside)),
      ("degradation", Value.finiteOrWord s.degradation), ("is_pareto_optimal", .truth s.isOptimal),
      ("error", (Value.ofOption s.error).toRecord), ("windows_failed", .whole s.windowsFailed)] := rfl
  have hreal : Value.finiteOrWord s.degradation = .real s.degradation := if_pos hdegradation
  rw [hrecord, hreal]
  -- both reasons are read as they are, so the fields that are left to read are objects
  suffices hread : (do
      let assignment ← (liftM (Value.objectOrEmpty (some (.object (recordFields s.assignment)))) : Except (Fault α) _)
      let inside ← (liftM (Value.objectOrEmpty (some (.object (recordFields s.inside)))) : Except (Fault α) _)
      let outside ← (liftM (Value.objectOrEmpty (some (.object (recordFields s.outside)))) : Except (Fault α) _)
      (pure { s with assignment, inside, outside, isOptimal := (Value.truth (α := α) s.isOptimal).isPresent } :
        Except (Fault α) (Solution α))) = .ok s.recorded by
    obtain ⟨id, assignment, inside, outside, degradation, isOptimal, error, windowsFailed⟩ := s
    rcases herror with herror | ⟨reason, herror⟩
    · cases herror
      exact hread
    · cases herror
      exact hread
  rw [Value.objectOrEmpty_object, Value.objectOrEmpty_object, Value.objectOrEmpty_object]
  rfl

/-- A solution whose degradation is finite, and that failed for a reason in words if it failed. -/
structure Plain (s : Solution α) : Prop where
  degradation : Scalar.isFinite s.degradation = true
  error : s.error = none ∨ ∃ reason, s.error = some (.text reason)

/-- Solutions put into a log that is begun come back, with the records of their parameters and scores. -/
theorem log_read (hα : Json.Readable α) {d : Directory} (hnew : d.text? RunDirectory.solutionsFile = none)
    {solutions : List (Solution α)} (h : ∀ s ∈ solutions, s.Plain) :
    ∃ d', solutions.foldlM (fun d s => RunDirectory.appendSolution d s.toValue) d = .ok d' ∧
      (RunDirectory.loadSolutions d').mapM ofValue = .ok (solutions.map recorded) := by
  have hfit : ∀ e ∈ solutions.map fun s => RunDirectory.Entry.record s.toValue, e.Fit := by
    intro e he
    obtain ⟨s, -, rfl⟩ := List.mem_map.1 he
    trivial
  obtain ⟨d', hputs, -, hloads⟩ := RunDirectory.log_read hα hnew hfit
  refine ⟨d', ?_, ?_⟩
  · rw [List.foldlM_map] at hputs
    exact hputs
  · rw [hloads, List.filterMap_map]
    have hrecords : solutions.filterMap (RunDirectory.Entry.written? ∘ fun s => .record s.toValue) =
        solutions.map fun s => s.toValue.toRecord := by
      show solutions.filterMap (fun s => some s.toValue.toRecord) = _
      rw [List.filterMap_eq_map']
    rw [hrecords]
    exact mapM_read ofValue _ _ fun s hs => ofValue_record (h s hs).degradation (h s hs).error

end Solution

namespace RunDirectory

variable {α : Type} [Scalar α]

/-- The log gives back what was put into it, the records of values being what it holds. -/
theorem log_kept (hα : Json.Readable α) :
    (∀ v : Value α, v.toRecord.IsRecord ∧ v.toRecord.toRecord = v.toRecord) ∧
    (∀ (d : Directory) (entries : List (Entry α)), d.text? solutionsFile = none → (∀ e ∈ entries, e.Fit) →
      ∃ d', entries.foldlM put d = .ok d' ∧ (logLines d').map (record? (α := α)) = entries.flatMap Entry.readings ∧
        loadSolutions d' = entries.filterMap Entry.written?) ∧
    (∀ (d : Directory) (solutions : List (Solution α)), d.text? solutionsFile = none → (∀ s ∈ solutions, s.Plain) →
      ∃ d', solutions.foldlM (fun d s => appendSolution d s.toValue) d = .ok d' ∧
        (loadSolutions d').mapM Solution.ofValue = .ok (solutions.map Solution.recorded)) ∧
    ∀ s : Solution α, s.recorded = s ↔ (Value.object s.assignment).IsRecord ∧ (Value.object s.inside).IsRecord ∧
      (Value.object s.outside).IsRecord :=
  ⟨fun v => ⟨v.toRecord_isRecord, v.toRecord_toRecord⟩, fun _ _ hnew hfit => log_read hα hnew hfit,
    fun _ _ hnew hplain => Solution.log_read hα hnew hplain, fun _ => Solution.recorded_eq_iff⟩

/-! ## A log with a torn line, and a parameter without bounds -/

local instance decimalsOfLog : Scalar ℚ := Decimals.scalars

/-- A solution that failed, with a reason on two lines. -/
def twoLines : Solution ℚ :=
  { id := "solution-0", assignment := [(.text "buy", .object [(.text "amount", .real (1 / 2))])],
    inside := [(.text "sharpe_ratio", .real (-5 / 4))], outside := [], degradation := 100, isOptimal := false,
    error := some (.text "first\nsecond"), windowsFailed := 2 }

/-- Text that a crash left, and a blank line. -/
def tornLine : String := "\x7b\"id\": \"solution-1\", \"trunc\n\n"

theorem twoLines_records : (Value.object twoLines.assignment).IsRecord ∧ (Value.object twoLines.inside).IsRecord ∧
    (Value.object twoLines.outside).IsRecord := by
  have hfield : ∀ {name : String} {v : Value ℚ}, v.IsRecord → (Value.object [(.text name, v)]).IsRecord := fun hv =>
    .object (Object.named_cons nofun) (List.nodup_singleton _) (List.forall_mem_singleton.2 hv)
  exact ⟨hfield (hfield (.real (by decide +kernel))), hfield (.real (by decide +kernel)),
    .object nofun List.nodup_nil nofun⟩

/-- What stands before and after a torn line is read, and a solution comes back. -/
theorem torn_line_skipped :
    (∃ d', [Entry.record twoLines.toValue, .noise tornLine, .record twoLines.toValue].foldlM put [] = .ok d' ∧
      (logLines d').length = 4 ∧ loadSolutions d' = [twoLines.toValue.toRecord, twoLines.toValue.toRecord]) ∧
    ∃ d', [twoLines].foldlM (fun d s => appendSolution d s.toValue) [] = .ok d' ∧
      (loadSolutions d').mapM Solution.ofValue = .ok [twoLines] := by
  obtain ⟨-, hlog, hsolutions, hsame⟩ := log_kept Decimals.readable
  constructor
  · have hfit : ∀ e ∈ [Entry.record twoLines.toValue, .noise tornLine, .record twoLines.toValue], e.Fit := by
      have hlines : Text.linesOf tornLine = ["\x7b\"id\": \"solution-1\", \"trunc", ""] := by decide +kernel
      simp only [List.forall_mem_cons, List.not_mem_nil, false_imp_iff, implies_true, and_true]
      refine ⟨trivial, ⟨⟨tornLine.toList.dropLast, by decide +kernel⟩, ?_⟩, trivial⟩
      rw [hlines]
      exact List.forall_mem_cons.2 ⟨rfl, List.forall_mem_singleton.2 rfl⟩
    obtain ⟨d', hputs, hlines, hloads⟩ := hlog [] _ rfl hfit
    refine ⟨d', hputs, ?_, hloads⟩
    have hlength := congrArg List.length hlines
    rw [List.length_map] at hlength
    exact hlength.trans (by decide +kernel)
  · obtain ⟨d', hputs, hread⟩ := hsolutions [] [twoLines] rfl
      (List.forall_mem_singleton.2 ⟨by decide +kernel, .inr ⟨_, rfl⟩⟩)
    refine ⟨d', hputs, ?_⟩
    rw [hread, List.map_singleton, (hsame twoLines).2 twoLines_records]

/-- A solution whose only parameter is infinite. -/
def boundless : Solution ℚ :=
  { id := "solution-0", assignment := [(.text "buy", .object [(.text "amount", .real Scalar.infinity)])],
    inside := [(.text "sharpe_ratio", .real (1 / 2))], outside := [], degradation := 0, isOptimal := false,
    error := none, windowsFailed := 0 }

/-- Its scores and its degradation are finite, but it does not come back. -/
theorem infinite_parameter_lost : boundless.Plain ∧ (Value.object boundless.inside).IsRecord ∧
    (Value.object boundless.outside).IsRecord ∧
    ∃ d', appendSolution [] boundless.toValue = .ok d' ∧ (loadSolutions d').mapM Solution.ofValue ≠ .ok [boundless] := by
  have hplain : boundless.Plain := ⟨by decide +kernel, .inl rfl⟩
  have hinside : (Value.object boundless.inside).IsRecord :=
    .object (Object.named_cons nofun) (List.nodup_singleton _) (List.forall_mem_singleton.2 (.real (by decide +kernel)))
  obtain ⟨d', hputs, hread⟩ := Solution.log_read Decimals.readable (d := []) rfl (List.forall_mem_singleton.2 hplain)
  rw [List.foldlM_cons] at hputs
  obtain ⟨d₁, happend, hrest⟩ := bind_ok hputs
  cases hrest
  refine ⟨hplain, hinside, .object nofun List.nodup_nil nofun, d', happend, fun hsame => ?_⟩
  rw [hread] at hsame
  have hrecords := (Solution.recorded_eq_iff.1 (List.cons.inj (Except.ok.inj hsame)).1).1
  cases hrecords with
  | object _ _ hvalues =>
    have hbuy := hvalues _ List.mem_cons_self
    cases hbuy with
    | object _ _ hamounts =>
      have hamount := hamounts _ List.mem_cons_self
      cases hamount with
      | real hfinite => exact absurd hfinite (by decide +kernel)

end RunDirectory

end StrategyLab
