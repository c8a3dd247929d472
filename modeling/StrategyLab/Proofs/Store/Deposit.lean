/-
Deposits: what is put into a run directory, each by a few steps. Cut after any of the steps, the directory
holds what the deposits put there that are complete (`holds_cut`): the records of their solutions, and the
record of the last of their checkpoints.
-/
import StrategyLab.Proofs.Store.Log

namespace StrategyLab

/-! ## Files -/

theorem Directory.text?_replace (d : Directory) {source target : String} {text : String}
    (htext : d.text? source = some text) (other : String) : (d.replace source target).text? other =
      if other = target then some text else if other = source then none else d.text? other := by
  unfold replace
  rw [htext]
  dsimp only
  rw [text?_write, text?_remove]

namespace RunDirectory

variable {α : Type} [Scalar α]

/-- The style of files. -/
def fileStyle : Json.Style := ⟨true, false, false⟩

/-- A record is written as a text without carriage returns, which is read as the record. -/
theorem stepsToWrite_record (hα : Json.Readable α) (file : String) (v : Value α) : ∃ text : String,
    stepsToWrite file v = .ok [.write (draftOf file) text, .replace (draftOf file) file] ∧
    Text.unifyLineEnds text.toList = text.toList ∧ Json.read? text = some v.toRecord := by
  obtain ⟨text, htext, hspells, hread⟩ := Json.read_render (show fileStyle.sorted = false from rfl) hα (Value.toRecord_isRecord v) 0
  refine ⟨text, ?_, Text.unifyLineEnds_plain fun hreturn => ?_, hread⟩
  · unfold stepsToWrite
    rw [show Json.render ⟨true, false, false⟩ 0 v.toRecord = .ok text from htext]
    rfl
  · rcases Json.spells_printable hspells _ hreturn with hprintable | hgap
    · exact absurd hprintable (by decide)
    · have hgaps : Json.gapsOf fileStyle = ['\n', ' '] := rfl
      rw [hgaps] at hgap
      exact absurd hgap (by decide)

/-- A record that was put into a file is loaded from it. -/
theorem load_write (hα : Json.Readable α) {d d' : Directory} {file : String} {v : Value α} (h : write d file v = .ok d') :
    load d' file = .ok (some v.toRecord) := by
  obtain ⟨text, hsteps, hplain, hread⟩ := stepsToWrite_record hα file v
  unfold write at h
  rw [hsteps] at h
  cases h
  have hdraft : (d.write (draftOf file) text).text? (draftOf file) = some text := by
    rw [Directory.text?_write, if_pos rfl]
  have htext : ((d.write (draftOf file) text).replace (draftOf file) file).text? file = some text := by
    rw [Directory.text?_replace _ hdraft, if_pos rfl]
  show load ((d.write (draftOf file) text).replace (draftOf file) file) file = _
  unfold load Directory.read?
  rw [htext, Option.map_some, hplain, String.ofList_toList]
  dsimp only
  rw [hread]
  rfl

/-! ## Deposits -/

/-- What is put into a run directory. -/
inductive Deposit (α : Type) where
  | config (v : Value α)
  | solution (v : Value α)
  | checkpoint (v : Value α)
  | result (v : Value α)

namespace Deposit

/-- Its steps. -/
def steps : Deposit α → Except (ValueFault α) (List Step)
  | config v => stepsToWrite configFile v
  | solution v => stepsToAppend v
  | checkpoint v => stepsToWrite checkpointFile v
  | result v => stepsToWrite resultFile v

/-- The directory with it. -/
def put (d : Directory) : Deposit α → Except (ValueFault α) Directory
  | config v => write d configFile v
  | solution v => appendSolution d v
  | checkpoint v => write d checkpointFile v
  | result v => write d resultFile v

theorem put_eq (d : Directory) (x : Deposit α) : x.put d = x.steps.map (afterAll d) := by
  cases x <;> rfl

/-- The record of a solution. -/
def solution? : Deposit α → Option (Value α)
  | solution v => some v.toRecord
  | _ => none

/-- The record of a checkpoint. -/
def checkpoint? : Deposit α → Option (Value α)
  | checkpoint v => some v.toRecord
  | _ => none

/-- The records of the solutions among deposits. -/
def solutions (deposits : List (Deposit α)) : List (Value α) := deposits.filterMap solution?

/-- The record of the last checkpoint among deposits. -/
def lastCheckpoint (deposits : List (Deposit α)) : Option (Value α) := (deposits.filterMap checkpoint?).getLast?

/-- How many deposits are complete after some steps. -/
def complete : Nat → List (List Step) → Nat
  | _, [] => 0
  | k, steps :: rest => if steps.length ≤ k then complete (k - steps.length) rest + 1 else 0

end Deposit

open Deposit

/-! ## What a directory holds -/

/-- A directory holds the solutions and the last checkpoint of some deposits. -/
structure Holds (d : Directory) (deposits : List (Deposit α)) : Prop where
  whole : Whole d
  solutions : loadSolutions d = Deposit.solutions deposits
  checkpoint : loadCheckpoint d = lastCheckpoint deposits

variable {d d' : Directory} {deposits : List (Deposit α)}

theorem Holds.new (hsolutions : d.text? solutionsFile = none) (hcheckpoint : d.text? checkpointFile = none) :
    Holds d ([] : List (Deposit α)) := by
  refine ⟨Whole.new hsolutions, ?_, ?_⟩
  · unfold loadSolutions Directory.read?
    rw [hsolutions]
    rfl
  · unfold loadCheckpoint Directory.read?
    rw [hcheckpoint]
    rfl

/-- Only the log and the file of the checkpoint matter. -/
theorem Holds.congr (h : Holds d deposits) (hlog : d'.text? solutionsFile = d.text? solutionsFile)
    (hfile : d'.text? checkpointFile = d.text? checkpointFile) : Holds d' deposits := by
  refine ⟨?_, ?_, ?_⟩
  · unfold Whole
    rw [hlog]
    exact h.whole
  · rw [← h.solutions]
    unfold loadSolutions Directory.read?
    rw [hlog]
  · rw [← h.checkpoint]
    unfold loadCheckpoint Directory.read?
    rw [hfile]

/-- The files that are written as a whole. -/
def recordFiles : List String := [configFile, checkpointFile, resultFile]

/-- They are not the log, and neither are their drafts, nor is a draft the file of the checkpoint. -/
theorem draftOf_apart : ∀ file ∈ recordFiles, draftOf file ≠ solutionsFile ∧ draftOf file ≠ checkpointFile ∧
    file ≠ solutionsFile := by
  decide

/-- A draft changes nothing of what is held, and in the place of its file it changes this file alone. -/
theorem Holds.draft (h : Holds d deposits) {file : String} (hfile : file ∈ recordFiles) (text : String) :
    Holds (d.write (draftOf file) text) deposits ∧
    ∀ other, other = solutionsFile ∨ other = checkpointFile →
      ((d.write (draftOf file) text).replace (draftOf file) file).text? other =
        if other = file then some text else d.text? other := by
  obtain ⟨hsolutions, hcheckpoint, -⟩ := draftOf_apart file hfile
  have hapart : ∀ other, other = solutionsFile ∨ other = checkpointFile → other ≠ draftOf file := by
    rintro other (rfl | rfl)
    · exact Ne.symm hsolutions
    · exact Ne.symm hcheckpoint
  refine ⟨h.congr ?_ ?_, fun other hother => ?_⟩
  · rw [Directory.text?_write, if_neg (hapart _ (.inl rfl))]
  · rw [Directory.text?_write, if_neg (hapart _ (.inr rfl))]
  · have hdraft : (d.write (draftOf file) text).text? (draftOf file) = some text := by
      rw [Directory.text?_write, if_pos rfl]
    rw [Directory.text?_replace _ hdraft, if_neg (hapart other hother), Directory.text?_write, if_neg (hapart other hother)]

/-! ## One deposit -/

section

variable (x : Deposit α)

theorem Deposit.solutions_concat : solutions (deposits ++ [x]) = solutions deposits ++ x.solution?.toList := by
  unfold solutions
  rw [List.filterMap_append]
  cases x <;> rfl

theorem Deposit.solutions_append (before after : List (Deposit α)) :
    solutions (before ++ after) = solutions before ++ solutions after := List.filterMap_append

theorem Deposit.lastCheckpoint_append (before after : List (Deposit α)) :
    lastCheckpoint (before ++ after) = (lastCheckpoint after).or (lastCheckpoint before) := by
  unfold lastCheckpoint
  rw [List.filterMap_append, List.getLast?_append]

theorem Deposit.lastCheckpoint_concat : lastCheckpoint (deposits ++ [x]) = x.checkpoint?.or (lastCheckpoint deposits) := by
  unfold lastCheckpoint
  rw [List.filterMap_append, List.getLast?_append]
  cases x <;> rfl

end

/-- A deposit has steps. With all of them done a directory holds the deposit, too; with some of them done it
holds what it did before. -/
structure Deposit.Settles (x : Deposit α) (steps : List Step) : Prop where
  steps_eq : x.steps = .ok steps
  whole : ∀ {d : Directory} {deposits : List (Deposit α)}, Holds d deposits → Holds (afterAll d steps) (deposits ++ [x])
  part : ∀ {d : Directory} {deposits : List (Deposit α)} {k : Nat}, Holds d deposits → k < steps.length →
    Holds (afterAll d (steps.take k)) deposits

theorem Deposit.settles_solution (hα : Json.Readable α) (v : Value α) : ∃ steps, (solution v).Settles steps := by
  obtain ⟨line, hsteps, -, -, hlines, -, hrecord⟩ := stepsToAppend_record hα v
  refine ⟨_, hsteps, fun {d deposits} h => ?_, fun {d deposits k} h hk => ?_⟩
  · show Holds (d.append solutionsFile (line ++ "\n")) _
    refine ⟨Whole.append (Text.ended_line line), ?_, ?_⟩
    · rw [loadSolutions_append h.whole, hlines, List.filterMap_cons_some hrecord, List.filterMap_nil, h.solutions,
        solutions_concat]
      rfl
    · rw [lastCheckpoint_concat, ← h.checkpoint]
      unfold loadCheckpoint Directory.read?
      rw [Directory.text?_append, if_neg (by decide)]
      rfl
  · -- nothing is done yet
    obtain rfl : k = 0 := Nat.lt_one_iff.1 hk
    exact h

/-- The deposits that are files. -/
theorem Deposit.settles_file (hα : Json.Readable α) {x : Deposit α} {file : String} {v : Value α} (hfile : file ∈ recordFiles)
    (hx : x.steps = stepsToWrite file v) (hsolution : x.solution? = none)
    (hcheckpoint : x.checkpoint? = if file = checkpointFile then some v.toRecord else none) : ∃ steps, x.Settles steps := by
  obtain ⟨text, hsteps, hplain, hread⟩ := stepsToWrite_record hα file v
  refine ⟨_, hx.trans hsteps, fun {d deposits} h => ?_, fun {d deposits k} h hk => ?_⟩
  · obtain ⟨hdraft, hfiles⟩ := h.draft hfile text
    show Holds ((d.write (draftOf file) text).replace (draftOf file) file) _
    have hlog := hfiles solutionsFile (.inl rfl)
    rw [if_neg (Ne.symm (draftOf_apart file hfile).2.2)] at hlog
    refine ⟨?_, ?_, ?_⟩
    · unfold Whole
      rw [hlog]
      exact h.whole
    · rw [solutions_concat, hsolution, Option.toList_none, List.append_nil, ← h.solutions]
      unfold loadSolutions Directory.read?
      rw [hlog]
    · rw [lastCheckpoint_concat, hcheckpoint, ← h.checkpoint]
      unfold loadCheckpoint Directory.read?
      rw [hfiles checkpointFile (.inr rfl)]
      by_cases hsame : file = checkpointFile
      · rw [if_pos hsame.symm, if_pos hsame, Option.map_some, Option.bind_some, hplain, String.ofList_toList, hread]
        rfl
      · rw [if_neg (Ne.symm hsame), if_neg hsame]
        rfl
  · -- nothing is done yet, or the draft is written
    obtain rfl | rfl : k = 0 ∨ k = 1 := by
      have hlt : k < 2 := hk
      omega
    · exact h
    · exact (h.draft hfile text).1

theorem Deposit.settles (hα : Json.Readable α) (x : Deposit α) : ∃ steps, x.Settles steps := by
  cases x with
  | solution v => exact settles_solution hα v
  | config v => exact settles_file hα (by decide) rfl rfl rfl
  | checkpoint v => exact settles_file hα (by decide) rfl rfl rfl
  | result v => exact settles_file hα (by decide) rfl rfl rfl

/-! ## Several deposits -/

/-- Every deposit has steps, and they lead to the directory with all deposits. -/
theorem deposits_steps (hα : Json.Readable α) (d : Directory) : ∀ deposits : List (Deposit α), ∃ steps : List (List Step),
    List.Forall₂ Deposit.Settles deposits steps ∧ deposits.mapM Deposit.steps = .ok steps ∧
    deposits.foldlM Deposit.put d = .ok (afterAll d steps.flatten)
  | [] => ⟨[], .nil, rfl, rfl⟩
  | x :: rest => by
    obtain ⟨steps, hsettles⟩ := Deposit.settles hα x
    obtain ⟨more, hmore, hsteps, hputs⟩ := deposits_steps hα (afterAll d steps) rest
    refine ⟨steps :: more, .cons hsettles hmore, ?_, ?_⟩
    · rw [List.mapM_cons, hsettles.steps_eq, hsteps]
      rfl
    · rw [List.foldlM_cons, put_eq, hsettles.steps_eq]
      show rest.foldlM Deposit.put (afterAll d steps) = _
      rw [hputs, List.flatten_cons, afterAll, afterAll, afterAll, List.foldl_append]

/-- With deposits put into it a directory holds them, too. -/
theorem Holds.puts (hα : Json.Readable α) : ∀ {rest deposits : List (Deposit α)} {d d' : Directory}, Holds d deposits →
    rest.foldlM Deposit.put d = .ok d' → Holds d' (deposits ++ rest)
  | [], deposits, d, d', h, hputs => by
    cases hputs
    rwa [List.append_nil]
  | x :: rest, deposits, d, d', h, hputs => by
    obtain ⟨steps, hsettles⟩ := Deposit.settles hα x
    rw [List.foldlM_cons, put_eq, hsettles.steps_eq] at hputs
    have hall := (hsettles.whole h).puts hα hputs
    rwa [List.append_assoc] at hall

/-- After some of the steps of deposits a directory holds those that are complete. -/
theorem holds_cut {steps : List (List Step)} {rest : List (Deposit α)} (hsteps : List.Forall₂ Deposit.Settles rest steps) :
    ∀ {k : Nat} {d : Directory} {deposits : List (Deposit α)}, Holds d deposits →
      Holds (afterAll d (steps.flatten.take k)) (deposits ++ rest.take (complete k steps)) := by
  induction hsteps with
  | nil =>
    intro k d deposits h
    rw [List.flatten_nil, List.take_nil, List.take_nil, List.append_nil]
    exact h
  | @cons x steps rest more hx _ ih =>
    intro k d deposits h
    rw [List.flatten_cons, complete]
    by_cases hk : steps.length ≤ k
    · have hnext := ih (k := k - steps.length) (hx.whole h)
      rw [if_pos hk, List.take_succ_cons, List.take_append, List.take_of_length_le hk, afterAll, List.foldl_append]
      rwa [List.append_assoc] at hnext
    · rw [if_neg hk, List.take_zero, List.append_nil, List.take_append_of_le_length (Nat.le_of_not_le hk)]
      exact hx.part h (Nat.lt_of_not_le hk)

end RunDirectory

end StrategyLab
