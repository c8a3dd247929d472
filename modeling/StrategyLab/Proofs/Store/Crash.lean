/-
A crash while a record is put into the log (`torn_log`). The line that it leaves is skipped, but it is not
ended: whatever of it is there, the next record is put onto the same line and is lost with it.
-/
import StrategyLab.Proofs.Json.Torn
import StrategyLab.Proofs.Store.Log

namespace StrategyLab.RunDirectory

variable {α : Type} [Scalar α]

/-- Puts objects into the log, one after the other. -/
def appendObjects (d : Directory) (objects : List (Object α)) : Except (ValueFault α) Directory :=
  objects.foldlM (fun d fields => appendSolution d (.object fields)) d

/-- The record of an object. -/
def recordOf (fields : Object α) : Value α := (Value.object fields).toRecord

/-! ## Lines -/

theorem recordOf_eq (fields : Object α) : recordOf fields = .object (Solution.recordFields fields) := by
  unfold recordOf
  rw [Value.toRecord]
  rfl

theorem recordFields_isRecord (fields : Object α) : (Value.object (Solution.recordFields fields)).IsRecord := by
  rw [← recordOf_eq]
  exact Value.toRecord_isRecord _

/-- Objects put into a log that is whole add their records to it. -/
theorem appendObjects_ok (hα : Json.Readable α) {d : Directory} (hd : Whole d) (objects : List (Object α)) :
    ∃ d', appendObjects d objects = .ok d' ∧ Whole d' ∧
      loadSolutions (α := α) d' = loadSolutions d ++ objects.map recordOf := by
  have hfit : ∀ e ∈ objects.map fun fields => Entry.record (.object fields), e.Fit := by
    intro e he
    obtain ⟨fields, -, rfl⟩ := List.mem_map.1 he
    trivial
  obtain ⟨d', hputs, hwhole, hlines⟩ := puts_ok hα hd hfit
  refine ⟨d', by rw [List.foldlM_map] at hputs; exact hputs, hwhole, ?_⟩
  rw [loadSolutions_puts hlines, List.filterMap_map]
  show _ ++ objects.filterMap (fun fields => some (recordOf fields)) = _
  rw [List.filterMap_eq_map']

/-- The text of an object spells its record. -/
theorem stepsToAppend_object (hα : Json.Readable α) (fields : Object α) : ∃ line : String,
    stepsToAppend (.object fields) = .ok [.append solutionsFile (line ++ "\n")] ∧
    Json.Spells [] (Json.tokensOf (.object (Solution.recordFields fields))) line.toList ∧
    Text.linesOf (line ++ "\n") = [line] ∧ record? line = some (recordOf fields) := by
  obtain ⟨line, hsteps, -, hspells, hlines, -, hrecord⟩ := stepsToAppend_record hα (.object fields)
  refine ⟨line, hsteps, ?_, hlines, hrecord⟩
  rw [← recordOf_eq]
  exact hspells

section

variable {fields others : Object α} {line next : String} {cut : List Char}

/-- What is left of a line that was cut off is skipped. -/
theorem record?_cut (hα : Json.Readable α)
    (hline : Json.Spells [] (Json.tokensOf (.object (Solution.recordFields fields))) line.toList)
    (hcut : cut <+: line.toList) (hne : cut ≠ []) (hpart : cut ≠ line.toList) :
    record? (α := α) (String.ofList cut) = none := by
  obtain ⟨c, cs, rfl⟩ := List.exists_cons_of_ne_nil hne
  obtain ⟨rest, hrest⟩ := hcut
  have hc : Text.isBlank c = false := (spells_blanks hline).1 c (by rw [← hrest]; rfl)
  obtain ⟨left, htrim, hleft, hnil⟩ := @Text.trim_prefix c cs hc
  -- without the blanks at its end it is still cut off
  have hshort : left ≠ line.toList := by
    rintro rfl
    exact hpart (List.IsPrefix.eq_of_length_le ⟨rest, hrest⟩ hleft.length_le)
  unfold record?
  dsimp only
  rw [htrim, Json.read?_cut hα (recordFields_isRecord fields) hline (hleft.trans ⟨rest, hrest⟩) hnil hshort]
  split <;> rfl

/-- A line that was cut off, and the line that was put after it, are skipped as one. -/
theorem record?_joined (hα : Json.Readable α)
    (hline : Json.Spells [] (Json.tokensOf (.object (Solution.recordFields fields))) line.toList)
    (hcut : cut <+: line.toList) (hne : cut ≠ [])
    (hnext : Json.Spells [] (Json.tokensOf (.object (Solution.recordFields others))) next.toList) :
    Text.linesOf (String.ofList cut ++ (next ++ "\n")) = [String.ofList cut ++ next] ∧
      record? (α := α) (String.ofList cut ++ next) = none := by
  obtain ⟨rest, hrest⟩ := hcut
  have hchars : (String.ofList cut ++ next).toList = cut ++ next.toList := by
    rw [String.toList_append, String.toList_ofList]
  have habsent : ∀ c, c ∉ line.toList → c ∉ next.toList → c ∉ (String.ofList cut ++ next).toList := by
    intro c hc hc'
    rw [hchars, List.mem_append, not_or]
    exact ⟨fun h => hc (hrest ▸ List.mem_append_left rest h), hc'⟩
  have hempty : next.toList ≠ [] := by
    intro hnil
    rw [hnil, Json.tokensOf] at hnext
    obtain ⟨cs, hcs, -⟩ := Json.spells_object hnext
    cases hcs
  have htrim : Text.trim (String.ofList cut ++ next) = String.ofList cut ++ next := by
    refine Text.trim_eq (fun c hc => (spells_blanks hline).1 c ?_) (fun c hc => (spells_blanks hnext).2 c ?_)
    · rw [hchars, List.head?_append_of_ne_nil _ hne] at hc
      rw [← hrest, List.head?_append_of_ne_nil _ hne]
      exact hc
    · rwa [hchars, List.getLast?_append_of_ne_nil _ hempty] at hc
  constructor
  · rw [← String.append_assoc]
    exact Text.linesOf_line (habsent _ (spells_lineEnds hline).1 (spells_lineEnds hnext).1)
      (habsent _ (spells_lineEnds hline).2 (spells_lineEnds hnext).2)
  · have hread : Json.read? (α := α) (String.ofList cut ++ next) = none := by
      rw [← String.ofList_toList (s := next), ← String.ofList_append]
      exact Json.read?_joined hα (recordFields_isRecord fields) hline ⟨rest, hrest⟩ hne (recordFields_isRecord others) hnext
    unfold record?
    dsimp only
    rw [htrim, hread]
    split <;> rfl

end

/-! ## The log after a crash -/

/-- Nothing is left of a line: the records that are put into the log next are added to it. -/
theorem appendObjects_nothing (hα : Json.Readable α) {d : Directory} (hd : Whole d) (later : List (Object α)) :
    ∃ d', appendObjects (d.append solutionsFile "") later = .ok d' ∧ loadSolutions d' = loadSolutions d ++ later.map recordOf := by
  obtain ⟨d', hlater, -, hafter⟩ := appendObjects_ok hα hd.nothing later
  refine ⟨d', hlater, ?_⟩
  rw [hafter, loadSolutions_append hd, Text.linesOf_empty, List.filterMap_nil, List.append_nil]

/-- What is left of a line, and nothing after it. -/
theorem loadSolutions_cut (hα : Json.Readable α) {d : Directory} (hd : Whole d) {fields : Object α} {line : String}
    (hline : Json.Spells [] (Json.tokensOf (.object (Solution.recordFields fields))) line.toList)
    (hrecord : record? line = some (recordOf fields)) {cut : String} (hcut : cut.toList <+: line.toList) (hne : cut ≠ "") :
    loadSolutions (α := α) (d.append solutionsFile cut) = loadSolutions d ++ if cut = line then [recordOf fields] else [] := by
  have hnil : cut.toList ≠ [] := fun h => hne (String.toList_eq_nil_iff.1 h)
  have habsent : ∀ c, c ∉ line.toList → c ∉ cut.toList := fun c hc h => hc (hcut.subset h)
  have hlines : Text.linesOf cut = [cut] :=
    Text.linesOf_rest (habsent _ (spells_lineEnds hline).1) (habsent _ (spells_lineEnds hline).2) hnil
  rw [loadSolutions_append hd, hlines]
  by_cases hwhole : cut = line
  · rw [if_pos hwhole, hwhole, List.filterMap_cons_some hrecord, List.filterMap_nil]
  · have hnone := record?_cut hα hline hcut hnil fun h => hwhole (String.toList_inj.1 h)
    rw [String.ofList_toList] at hnone
    rw [if_neg hwhole, List.filterMap_cons_none hnone, List.filterMap_nil]

/-- What is left of a line, and the next record: both are lost, and the log is whole again. -/
theorem appendSolution_cut (hα : Json.Readable α) {d : Directory} (hd : Whole d) {fields : Object α} {line : String}
    (hline : Json.Spells [] (Json.tokensOf (.object (Solution.recordFields fields))) line.toList)
    {cut : String} (hcut : cut.toList <+: line.toList) (hne : cut ≠ "") (others : Object α) :
    ∃ d', appendSolution (d.append solutionsFile cut) (.object others) = .ok d' ∧ Whole d' ∧
      loadSolutions (α := α) d' = loadSolutions d := by
  obtain ⟨next, hsteps, hnext, -, -⟩ := stepsToAppend_object hα others
  obtain ⟨hlines, hnone⟩ := record?_joined hα hline hcut (fun h => hne (String.toList_eq_nil_iff.1 h)) hnext
  rw [String.ofList_toList] at hlines hnone
  refine ⟨(d.append solutionsFile cut).append solutionsFile (next ++ "\n"), ?_, Whole.append (Text.ended_line next), ?_⟩
  · show (stepsToAppend (Value.object others)).map (afterAll (d.append solutionsFile cut)) = _
    rw [hsteps]
    rfl
  · -- the two texts stand in the log as one
    have hjoined : logLines ((d.append solutionsFile cut).append solutionsFile (next ++ "\n")) =
        logLines (d.append solutionsFile (cut ++ (next ++ "\n"))) := by
      unfold logLines
      rw [Directory.text?_append, Directory.text?_append, Directory.text?_append, if_pos rfl, if_pos rfl, if_pos rfl,
        Option.getD_some, Option.getD_some, Option.getD_some, String.append_assoc]
    rw [loadSolutions_eq, hjoined, ← loadSolutions_eq, loadSolutions_append hd, hlines, List.filterMap_cons_none hnone,
      List.filterMap_nil, List.append_nil]

/-- Of the records that are put after what is left of a line the first one is lost. -/
theorem appendObjects_cut (hα : Json.Readable α) {d : Directory} (hd : Whole d) {fields : Object α} {line : String}
    (hline : Json.Spells [] (Json.tokensOf (.object (Solution.recordFields fields))) line.toList)
    {cut : String} (hcut : cut.toList <+: line.toList) (hne : cut ≠ "") (next : Object α) (rest : List (Object α)) :
    ∃ d', appendObjects (d.append solutionsFile cut) (next :: rest) = .ok d' ∧
      loadSolutions d' = loadSolutions d ++ rest.map recordOf := by
  obtain ⟨d₁, hnext, hwhole, hsame⟩ := appendSolution_cut hα hd hline hcut hne next
  obtain ⟨d₂, hrest, -, hafter⟩ := appendObjects_ok hα hwhole rest
  refine ⟨d₂, ?_, by rw [hafter, hsame]⟩
  unfold appendObjects
  rw [List.foldlM_cons, hnext]
  exact hrest

/-- After a crash that leaves some of a line the record that is put into the log next is lost, and no other one. -/
theorem torn_log (hα : Json.Readable α) {d : Directory} (hnew : d.text? solutionsFile = none) (before : List (Object α))
    (crashed : Object α) (later : List (Object α)) : ∃ line : String,
    stepsToAppend (.object crashed) = .ok [.append solutionsFile (line ++ "\n")] ∧
    ∀ cut : String, cut.toList <+: (line ++ "\n").toList → cut ≠ line ++ "\n" → ∃ d₁ d₂,
      appendObjects d before = .ok d₁ ∧ appendObjects (d₁.append solutionsFile cut) later = .ok d₂ ∧
      loadSolutions d₂ = before.map recordOf ++ ((if cut = line ∧ later = [] then [recordOf crashed] else []) ++
        (if cut = "" then later else later.tail).map recordOf) ∧
      ((before.map recordOf ++ later.map recordOf).Sublist (loadSolutions d₂) ↔ cut = "" ∨ later = []) := by
  obtain ⟨line, hsteps, hline, -, hrecord⟩ := stepsToAppend_object hα crashed
  obtain ⟨d₁, hbefore, hwhole, hloads⟩ := appendObjects_ok hα (Whole.new hnew) before
  rw [loadSolutions_eq d, show logLines d = [] by unfold logLines; rw [hnew]; rfl, List.filterMap_nil, List.nil_append] at hloads
  refine ⟨line, hsteps, fun cut hcut hpart => ?_⟩
  have hprefix : cut.toList <+: line.toList := by
    have hchars : (line ++ "\n").toList = line.toList ++ ['\n'] := String.toList_append ..
    rw [hchars] at hcut
    exact (List.prefix_concat_iff.1 hcut).resolve_left fun h => hpart (String.toList_inj.1 (h.trans hchars.symm))
  have hlineNe : line ≠ "" := by
    rintro rfl
    cases hrecord
  by_cases hempty : cut = ""
  · -- nothing was left of the line
    subst hempty
    obtain ⟨d₂, hlater, hall⟩ := appendObjects_nothing hα hwhole later
    rw [hloads] at hall
    refine ⟨d₁, d₂, hbefore, hlater, ?_, ?_⟩
    · rw [hall, if_neg fun h => hlineNe h.1.symm, if_pos rfl, List.nil_append]
    · rw [hall]
      exact ⟨fun _ => .inl rfl, fun _ => List.Sublist.refl _⟩
  · cases later with
    | nil =>
      have hall := loadSolutions_cut hα hwhole hline hrecord hprefix hempty
      rw [hloads] at hall
      refine ⟨d₁, _, hbefore, rfl, ?_, ?_⟩
      · rw [hall, if_neg hempty]
        simp
      · rw [hall, List.map_nil, List.append_nil]
        exact ⟨fun _ => .inr rfl, fun _ => List.sublist_append_left _ _⟩
    | cons next rest =>
      obtain ⟨d₂, hlater, hall⟩ := appendObjects_cut hα hwhole hline hprefix hempty next rest
      rw [hloads] at hall
      refine ⟨d₁, d₂, hbefore, hlater, ?_, ?_⟩
      · rw [hall, if_neg fun h => List.cons_ne_nil next rest h.2, if_neg hempty, List.nil_append, List.tail_cons]
      · rw [hall]
        refine ⟨fun h => ?_, fun h => absurd (h.resolve_left hempty) (List.cons_ne_nil next rest)⟩
        have hlength := h.length_le
        simp only [List.length_append, List.length_map, List.length_cons] at hlength
        omega

/-! ## Two crashes -/

local instance decimalsAfterCrash : Scalar ℚ := Decimals.scalars

/-- A solution of which only the name is told. -/
def solutionNamed (name : String) : Object ℚ := [(.text "id", .text name)]

/-- The line of a solution. -/
def namedLine : String := "\x7b\"id\":\"solution-1\"\x7d"

/-- What a crash left of it. -/
def tornLineStart : String := "\x7b\"id\":\"solu"

theorem stepsToAppend_named : stepsToAppend (.object (solutionNamed "solution-1")) =
    .ok [.append solutionsFile (namedLine ++ "\n")] := by
  rfl

theorem eq_namedLine {line : String} (h : stepsToAppend (.object (solutionNamed "solution-1")) =
    .ok [.append solutionsFile (line ++ "\n")]) : line = namedLine := by
  rw [stepsToAppend_named, Except.ok.injEq, List.cons.injEq, Step.append.injEq] at h
  exact (String.append_left_inj _).1 h.1.2.symm

theorem tornLineStart_prefix : tornLineStart.toList <+: namedLine.toList ∧ tornLineStart ≠ "" := by
  decide +kernel

/-- A torn line at the end of the log costs nothing else, and so does a line of which nothing was written. -/
theorem torn_last_line : (∃ d₁, appendObjects [] [solutionNamed "solution-0"] = .ok d₁ ∧
      loadSolutions (d₁.append solutionsFile tornLineStart) = [recordOf (solutionNamed "solution-0")]) ∧
    ∃ d₁ d₂, appendObjects [] [solutionNamed "solution-0"] = .ok d₁ ∧
      appendObjects (d₁.append solutionsFile "") [solutionNamed "solution-2"] = .ok d₂ ∧
      loadSolutions d₂ = [recordOf (solutionNamed "solution-0"), recordOf (solutionNamed "solution-2")] := by
  have hlog := torn_log Decimals.readable (d := []) rfl [solutionNamed "solution-0"] (solutionNamed "solution-1")
  constructor
  · obtain ⟨line, hsteps, hcuts⟩ := hlog []
    obtain rfl := eq_namedLine hsteps
    obtain ⟨d₁, d₂, hbefore, hlater, hloads, -⟩ := hcuts tornLineStart (by decide +kernel) (by decide +kernel)
    cases hlater
    rw [if_neg fun h => absurd h.1 (by decide +kernel), if_neg tornLineStart_prefix.2] at hloads
    exact ⟨d₁, hbefore, hloads⟩
  · obtain ⟨line, -, hcuts⟩ := hlog [solutionNamed "solution-2"]
    obtain ⟨d₁, d₂, hbefore, hlater, hloads, -⟩ := hcuts "" List.nil_prefix fun h => by
      have hline := congrArg String.toList h
      rw [String.toList_append] at hline
      exact absurd (List.append_eq_nil_iff.1 hline.symm).2 (by decide)
    rw [if_neg fun h => List.cons_ne_nil _ _ h.2, if_pos rfl] at hloads
    exact ⟨d₁, d₂, hbefore, hlater, hloads⟩

/-- The record after a torn line is lost. -/
theorem record_after_torn_line_lost : stepsToAppend (.object (solutionNamed "solution-1")) =
      .ok [.append solutionsFile (namedLine ++ "\n")] ∧
    tornLineStart.toList <+: (namedLine ++ "\n").toList ∧ tornLineStart ≠ namedLine ++ "\n" ∧
    ∃ d₁ d₂, appendObjects [] [solutionNamed "solution-0"] = .ok d₁ ∧
      appendObjects (d₁.append solutionsFile tornLineStart) [solutionNamed "solution-2"] = .ok d₂ ∧
      loadSolutions d₂ = [recordOf (solutionNamed "solution-0")] ∧
      recordOf (solutionNamed "solution-2") ∉ loadSolutions d₂ := by
  obtain ⟨line, hsteps, hline, -, -⟩ := stepsToAppend_object Decimals.readable (solutionNamed "solution-1")
  obtain rfl := eq_namedLine hsteps
  obtain ⟨hcut, hne⟩ := tornLineStart_prefix
  obtain ⟨d₁, hbefore, hwhole, hloads⟩ := appendObjects_ok Decimals.readable (d := []) (Whole.new rfl)
    [solutionNamed "solution-0"]
  obtain ⟨d₂, hlater, hafter⟩ := appendObjects_cut Decimals.readable hwhole hline hcut hne (solutionNamed "solution-2") []
  have hread : loadSolutions d₂ = [recordOf (solutionNamed "solution-0")] := by
    rw [hafter, List.map_nil, List.append_nil, hloads]
    rfl
  refine ⟨stepsToAppend_named, by decide +kernel, by decide +kernel, d₁, d₂, hbefore, hlater, hread, ?_⟩
  rw [hread, List.mem_singleton, recordOf_eq, recordOf_eq]
  intro hsame
  have hnames : ("solution-2" : String) = "solution-0" := by
    injection hsame with hfields
    injection hfields with hfield
    injection hfield with _ hname
    injection hname
  exact absurd hnames (by decide)

end StrategyLab.RunDirectory
