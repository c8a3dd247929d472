/-
Schedules that are no schedules. A schedule is read only as far as an instant needs it: its fields up to
the first that does not hold, and a field's parts up to the first that names what the clock shows. So
something that is no number is found at some instants and passed over at others: `timeTrigger_rejects`
says at which, and for which schedules it is found at all instants or at none.
-/
import StrategyLab.Proofs.Agree
import StrategyLab.Proofs.Block.Action
import StrategyLab.Proofs.Number.Exact
import StrategyLab.Proofs.Time.Cron

namespace StrategyLab

namespace Cron

/-! ## Going through a list up to what decides -/

section

variable {β : Type}

/-- Goes through a list as long as the answers are the given one. The first other answer stands. -/
def firstOther (going : Bool) (answer : β → Except CronFault Bool) : List β → Except CronFault Bool
  | [] => .ok going
  | x :: rest => do
    if (← answer x) = going then firstOther going answer rest else pure !going

/-- An item at which one stops, having gone on at all those before it. -/
def Reaches (go stop : β → Prop) (xs : List β) : Prop :=
  ∃ before x after, xs = before ++ x :: after ∧ (∀ y ∈ before, go y) ∧ stop x

variable {go stop : β → Prop} {x : β} {xs ys : List β}

theorem reaches_nil : ¬ Reaches go stop [] := by
  rintro ⟨before, x, after, heq, -, -⟩
  exact absurd heq.symm (List.append_ne_nil_of_right_ne_nil before (List.cons_ne_nil x after))

theorem reaches_cons : Reaches go stop (x :: xs) ↔ stop x ∨ go x ∧ Reaches go stop xs := by
  constructor
  · rintro ⟨before, y, after, heq, hbefore, hstop⟩
    cases before with
    | nil =>
      cases heq
      exact .inl hstop
    | cons z before =>
      cases heq
      obtain ⟨hz, hbefore⟩ := List.forall_mem_cons.1 hbefore
      exact .inr ⟨hz, before, y, after, rfl, hbefore, hstop⟩
  · rintro (hstop | ⟨hx, before, y, after, rfl, hbefore, hstop⟩)
    · exact ⟨[], x, xs, rfl, nofun, hstop⟩
    · exact ⟨x :: before, y, after, rfl, List.forall_mem_cons.2 ⟨hx, hbefore⟩, hstop⟩

theorem reaches_congr {go' stop' : β → Prop} (hgo : ∀ x ∈ xs, go x ↔ go' x) (hstop : ∀ x ∈ xs, stop x ↔ stop' x) :
    Reaches go stop xs ↔ Reaches go' stop' xs := by
  induction xs with
  | nil => exact iff_of_false reaches_nil reaches_nil
  | cons x rest ih =>
    obtain ⟨hx, hgo⟩ := List.forall_mem_cons.1 hgo
    obtain ⟨hx', hstop⟩ := List.forall_mem_cons.1 hstop
    rw [reaches_cons, reaches_cons, hx, hx', ih hgo hstop]

variable {going : Bool} {answer : β → Except CronFault Bool}

/-- Whatever an answer is that is not to go on, it comes from the item that is reached. -/
theorem firstOther_iff {S : Except CronFault Bool → Prop} (hS : ¬ S (.ok going)) (xs : List β) :
    S (firstOther going answer xs) ↔ Reaches (fun x => answer x = .ok going) (fun x => S (answer x)) xs := by
  induction xs with
  | nil => exact iff_of_false hS reaches_nil
  | cons x rest ih =>
    rw [reaches_cons, firstOther]
    cases hanswer : answer x with
    | error e => simp [bind, Except.bind]
    | ok b =>
      by_cases hb : b = going
      · subst hb
        simp [bind, Except.bind, ih, hS]
      · have hother : b = !going := by cases b <;> cases going <;> simp_all
        subst hother
        simp [bind, Except.bind, pure, Except.pure]

theorem firstOther_going (xs : List β) : firstOther going answer xs = .ok going ↔ ∀ x ∈ xs, answer x = .ok going := by
  induction xs with
  | nil => simp [firstOther]
  | cons x rest ih =>
    rw [firstOther, List.forall_mem_cons]
    cases hanswer : answer x with
    | error e => simp [bind, Except.bind]
    | ok b =>
      by_cases hb : b = going
      · subst hb
        simp [bind, Except.bind, ih]
      · simp [bind, Except.bind, pure, Except.pure, hb]

theorem firstOther_single (x : β) : firstOther going answer [x] = answer x := by
  simp only [firstOther]
  cases answer x with
  | error e => rfl
  | ok b => cases b <;> cases going <;> rfl

/-- Of two lists one after the other the second is gone through if the first one does not decide. -/
theorem firstOther_append (xs ys : List β) : firstOther going answer (xs ++ ys) = (do
    if (← firstOther going answer xs) = going then firstOther going answer ys else pure !going) := by
  induction xs with
  | nil => simp [firstOther, bind, Except.bind]
  | cons x rest ih =>
    rw [List.cons_append, firstOther, firstOther]
    cases answer x with
    | error e => rfl
    | ok b =>
      by_cases hb : b = going
      · simp only [bind, Except.bind, hb, ↓reduceIte, ih]
      · simp [bind, Except.bind, pure, Except.pure, hb]

end

/-! ## What a schedule asks of a clock -/

/-- Whether a part of a field names a number of the clock. There is none at a missing instant. -/
structure Question where
  low : ℤ
  high : ℤ
  number : Option ℤ
  part : List Char

namespace Question

def answer (q : Question) : Except CronFault Bool := do
  let part ← readPart q.low q.high q.part
  part.holds q.number

/-- There is something in the part that is no number. -/
def Garbled (q : Question) : Prop := ∃ e, readPart q.low q.high q.part = .error e

/-- The number is one of the part's. -/
def Named (q : Question) : Prop :=
  ∃ p v, readPart q.low q.high q.part = .ok p ∧ q.number = some v ∧ p.first ≤ v ∧ v ≤ p.last ∧ p.step ≠ 0 ∧
    p.step ∣ v - p.first

/-- The part can be read, and the number is none of its numbers. A step of zero does not matter out of the
part's range. -/
def Passed (q : Question) : Prop :=
  ∃ p, readPart q.low q.high q.part = .ok p ∧
    ∀ v, q.number = some v → p.first ≤ v → v ≤ p.last → p.step ≠ 0 ∧ ¬ p.step ∣ v - p.first

end Question

/-- A schedule could not be read. Only a step of zero comes up later, once the part was read. -/
def Unread (r : Except CronFault Bool) : Prop := ∃ e, r = .error e ∧ e ≠ .zeroStep

theorem whole_error {cs : List Char} {e : CronFault} (h : whole cs = .error e) : ∃ text, e = .notWhole text := by
  unfold whole at h
  split at h
  · cases h
  · cases h
    exact ⟨_, rfl⟩

/-- A span that cannot be read, once its step is. -/
theorem readSpan_error {low high step : ℤ} {body : List Char} {e : CronFault}
    (h : (if body = ['*'] then pure ⟨low, high, step⟩
      else match Text.cutAt? '-' body with
        | some (first, last) => do
          let a ← whole first
          let b ← whole last
          pure ⟨a, b, step⟩
        | none => do
          let a ← whole body
          pure ⟨a, a, step⟩ : Except CronFault Part) = .error e) : ∃ text, e = .notWhole text := by
  split_ifs at h
  · cases h
  · split at h
    · rcases bind_error h with h | ⟨a, -, h⟩
      · exact whole_error h
      · rcases bind_error h with h | ⟨b, -, h⟩
        · exact whole_error h
        · cases h
    · rcases bind_error h with h | ⟨a, -, h⟩
      · exact whole_error h
      · cases h

/-- What is missing from a part is a number, whatever else is wrong with it. -/
theorem readPart_error {low high : ℤ} {cs : List Char} {e : CronFault} (h : readPart low high cs = .error e) :
    ∃ text, e = .notWhole text := by
  unfold readPart at h
  dsimp only at h
  split at h
  · rcases bind_error h with h | ⟨step, -, h⟩
    · exact whole_error h
    · exact readSpan_error h
  · exact readSpan_error h

/-- A question has three answers, besides a division by zero. -/
theorem answer_cases (q : Question) : (Unread q.answer ↔ q.Garbled) ∧ (q.answer = .ok true ↔ q.Named) ∧
    (q.answer = .ok false ↔ q.Passed) := by
  unfold Question.Garbled Question.Named Question.Passed Question.answer
  cases hread : readPart q.low q.high q.part with
  | error e =>
    obtain ⟨text, rfl⟩ := readPart_error hread
    simp [bind, Except.bind, Unread]
  | ok p =>
    cases hnumber : q.number with
    | none => simp [bind, Except.bind, Part.holds, Unread]
    | some v =>
      simp only [bind, Except.bind, Part.holds]
      split_ifs with hrange hstep
      · simp [Unread, hrange, hstep]
      · simp [Unread, hrange, hstep]
      · have hout : p.first ≤ v → ¬ v ≤ p.last := fun hfirst hlast => hrange ⟨hfirst, hlast⟩
        simp [Unread]
        tauto

/-- The questions of the parts of a field. -/
def questions (low high : ℤ) (number : Option ℤ) (field : String) : List Question :=
  (Text.splitOn ',' field.toList).map fun part => { low, high, number, part }

/-- The questions of the five fields, in order. On a Sunday the weekday's field is asked for 0 and then
for 7. There are none if there are not five fields. -/
def asked (schedule : String) (clock : Option Clock) : Option (List (List Question)) :=
  match Text.words schedule with
  | [minute, hour, day, month, weekday] =>
    some [questions 0 59 (clock.map (·.minute)) minute, questions 0 23 (clock.map (·.hour)) hour,
      questions 1 31 (clock.map (·.day)) day, questions 1 12 (clock.map (·.month)) month,
      questions 0 7 (clock.map (·.weekday)) weekday ++
        if clock.map (·.weekday) = some 0 then questions 0 7 (some 7) weekday else []]
  | _ => none

/-- A field holds: one of its parts names the number, and those before it can be read. -/
def FieldHolds (field : List Question) : Prop := Reaches Question.Passed Question.Named field

/-- A field does not hold: all of its parts can be read, and none names the number. -/
def FieldFails (field : List Question) : Prop := ∀ q ∈ field, q.Passed

/-- A part of the field that cannot be read comes before any that names the number. -/
def FieldGarbled (field : List Question) : Prop := Reaches Question.Passed Question.Garbled field

/-- A schedule cannot be read as far as the clock needs it: there are not five fields, or a part that
cannot be read is reached in a field after fields that hold. -/
def Obstructed (schedule : String) (clock : Option Clock) : Prop :=
  ∀ fields, asked schedule clock = some fields → Reaches FieldHolds FieldGarbled fields

/-- A field that does not hold is reached, after fields that hold: what comes behind is not read. -/
def PassedOver (schedule : String) (clock : Option Clock) : Prop :=
  ∃ fields, asked schedule clock = some fields ∧ Reaches FieldHolds FieldFails fields

/-- A schedule of five fields, of which every part can be read, with a step that is not zero. -/
def WellFormed (schedule : String) : Prop :=
  (Text.words schedule).length = 5 ∧ ∀ field ∈ Text.words schedule, ∀ part ∈ Text.splitOn ',' field.toList,
    ∀ low high, ∃ p, readPart low high part = .ok p ∧ p.step ≠ 0

/-! ## What a schedule answers -/

theorem field_cases (field : List Question) :
    (Unread (firstOther false Question.answer field) ↔ FieldGarbled field) ∧
      (firstOther false Question.answer field = .ok true ↔ FieldHolds field) ∧
        (firstOther false Question.answer field = .ok false ↔ FieldFails field) := by
  refine ⟨?_, ?_, ?_⟩
  · rw [firstOther_iff (S := Unread) (by simp [Unread])]
    exact reaches_congr (fun q _ => (answer_cases q).2.2) fun q _ => (answer_cases q).1
  · rw [firstOther_iff (S := (· = .ok true)) (by simp)]
    exact reaches_congr (fun q _ => (answer_cases q).2.2) fun q _ => (answer_cases q).2.1
  · rw [firstOther_going]
    exact forall₂_congr fun q _ => (answer_cases q).2.2

theorem fieldHolds_eq (field : String) (low high : ℤ) (number : Option ℤ) :
    fieldHolds field low high number = firstOther false Question.answer (questions low high number field) := by
  unfold fieldHolds questions
  induction Text.splitOn ',' field.toList with
  | nil => rfl
  | cons part rest ih =>
    rw [anyPart, List.map_cons, firstOther, ← ih, Question.answer]
    cases readPart low high part with
    | error e => rfl
    | ok p =>
      simp only [bind, Except.bind]
      cases p.holds number with
      | error e => rfl
      | ok b => cases b <;> rfl

theorem weekdayHolds_eq (field : String) (weekday : Option ℤ) : weekdayHolds field weekday =
    firstOther false Question.answer
      (questions 0 7 weekday field ++ if weekday = some 0 then questions 0 7 (some 7) field else []) := by
  rw [firstOther_append, ← fieldHolds_eq, weekdayHolds]
  refine congrArg _ (funext fun b => ?_)
  cases b with
  | true => rfl
  | false =>
    split_ifs with hsunday <;> simp_all [fieldHolds_eq, firstOther, pure, Except.pure]

/-- A schedule is decided by its fields as they are asked. -/
theorem holds_asked (schedule : String) (t : Instant) :
    holds schedule t = match asked schedule (Clock.ofInstant t) with
      | some fields => firstOther true (firstOther false Question.answer) fields
      | none => .error (.fieldCount schedule) := by
  unfold holds asked
  rcases Text.words schedule with _ | ⟨minute, _ | ⟨hour, _ | ⟨day, _ | ⟨month, _ | ⟨weekday, _ | ⟨more, rest⟩⟩⟩⟩⟩⟩
  case cons.cons.cons.cons.cons.nil =>
    simp only [fieldHolds_eq, weekdayHolds_eq]
    rw [firstOther, firstOther, firstOther, firstOther, firstOther_single]
    rfl
  all_goals rfl

theorem unread_iff (schedule : String) (t : Instant) :
    Unread (holds schedule t) ↔ Obstructed schedule (Clock.ofInstant t) := by
  rw [holds_asked, Obstructed]
  cases asked schedule (Clock.ofInstant t) with
  | none => simp [Unread]
  | some fields =>
    rw [firstOther_iff (S := Unread) (by simp [Unread])]
    simp only [Option.some.injEq, forall_eq']
    exact reaches_congr (fun field _ => (field_cases field).2.1) fun field _ => (field_cases field).1

theorem unmatched_iff (schedule : String) (t : Instant) :
    holds schedule t = .ok false ↔ PassedOver schedule (Clock.ofInstant t) := by
  rw [holds_asked, PassedOver]
  cases asked schedule (Clock.ofInstant t) with
  | none => simp
  | some fields =>
    simp only [Option.some.injEq, exists_eq_left']
    rw [firstOther_iff (S := (· = .ok false)) (by simp)]
    exact reaches_congr (fun field _ => (field_cases field).2.1) fun field _ => (field_cases field).2.2

/-- A schedule that does not hold was read as far as it was needed. -/
theorem not_obstructed_of_passedOver {schedule : String} {t : Instant} (h : PassedOver schedule (Clock.ofInstant t)) :
    ¬ Obstructed schedule (Clock.ofInstant t) := by
  intro hobstructed
  obtain ⟨e, he, -⟩ := (unread_iff schedule t).2 hobstructed
  rw [(unmatched_iff schedule t).2 h] at he
  cases he

/-- The parts that are asked about are those of the fields. -/
theorem asked_part {schedule : String} {clock : Option Clock} {fields : List (List Question)}
    (h : asked schedule clock = some fields) {field : List Question} (hfield : field ∈ fields) {q : Question}
    (hq : q ∈ field) : ∃ word ∈ Text.words schedule, q.part ∈ Text.splitOn ',' word.toList := by
  have hpart {low high : ℤ} {number : Option ℤ} {word : String} (hq : q ∈ questions low high number word) :
      q.part ∈ Text.splitOn ',' word.toList := by
    obtain ⟨part, hpart, rfl⟩ := List.mem_map.1 hq
    exact hpart
  unfold asked at h
  split at h
  · rename_i minute hour day month weekday hwords
    cases h
    simp only [List.mem_cons, List.not_mem_nil, or_false] at hfield
    rw [hwords]
    rcases hfield with rfl | rfl | rfl | rfl | rfl
    · exact ⟨minute, by simp, hpart hq⟩
    · exact ⟨hour, by simp, hpart hq⟩
    · exact ⟨day, by simp, hpart hq⟩
    · exact ⟨month, by simp, hpart hq⟩
    · refine ⟨weekday, by simp, ?_⟩
      rcases List.mem_append.1 hq with hq | hq
      · exact hpart hq
      · split_ifs at hq
        · exact hpart hq
        · cases hq
  · cases h

theorem asked_five {schedule : String} (h : (Text.words schedule).length = 5) (clock : Option Clock) :
    ∃ fields, asked schedule clock = some fields := by
  unfold asked
  match Text.words schedule, h with
  | [_, _, _, _, _], _ => exact ⟨_, rfl⟩

/-- A well-formed schedule is read whatever the clock shows. -/
theorem WellFormed.not_obstructed {schedule : String} (h : WellFormed schedule) (clock : Option Clock) :
    ¬ Obstructed schedule clock := by
  obtain ⟨hfive, hparts⟩ := h
  intro hobstructed
  obtain ⟨fields, hfields⟩ := asked_five hfive clock
  obtain ⟨before, field, after, heq, -, before', q, after', heq', -, e, he⟩ := hobstructed fields hfields
  have hfield : field ∈ fields := by simp [heq]
  have hq : q ∈ field := by simp [heq']
  obtain ⟨word, hword, hpart⟩ := asked_part hfields hfield hq
  obtain ⟨p, hp, -⟩ := hparts word hword q.part hpart q.low q.high
  rw [hp] at he
  cases he

/-- White space alone is no schedule. -/
theorem unread_blank {schedule : String} (h : Text.isBlankText schedule = true) (t : Instant) :
    Unread (holds schedule t) := by
  have hwords : Text.words schedule = [] := by
    have hblank : Text.Blank schedule.toList := List.all_eq_true.1 h
    unfold Text.words
    rw [← List.append_nil schedule.toList, Text.wordsFrom_blank hblank]
    rfl
  refine ⟨.fieldCount schedule, ?_, nofun⟩
  unfold holds
  rw [hwords]

end Cron

/-! ## Timed blocks -/

namespace Block

variable {α : Type} [Scalar α] {b : Block α}

/-- A block could not be executed, and says so. -/
def Rejects (b : Block α) (m : Market α) (l : Ledger α) : Prop := ∃ o, (b.execute m l).1 = .ok o ∧ o.ok = false

/-- A block was executed and did not fire. -/
def Idles (b : Block α) (m : Market α) (l : Ledger α) : Prop :=
  ∃ o, (b.execute m l).1 = .ok o ∧ o.ok = true ∧ o.fired = false

theorem execute_timeTrigger (hk : b.kind? = some .timeTrigger) (m : Market α) (l : Ledger α) :
    b.execute m l = answered (b.timeTrigger m, l) := by
  rw [execute_eq hk]
  change answered (Action.eval (liftM (b.timeTrigger m)) l) = _
  rw [Action.eval_lift]

/-- A timed block answers what its schedule answers. -/
theorem timeTrigger_answers (hk : b.kind? = some .timeTrigger) {schedule : String}
    (hs : b.param? "schedule" = some (.text schedule)) (m : Market α) (l : Ledger α) :
    (b.Rejects m l ↔ Cron.Unread (Cron.holds schedule m.timestamp)) ∧
      (b.Idles m l ↔ Cron.holds schedule m.timestamp = .ok false) := by
  have htext : b.text "schedule" = if Text.isBlankText schedule then
      throw (.rejected (.missingParameter b.displayName "schedule")) else pure schedule := by
    unfold Block.text
    rw [hs]
    rfl
  unfold Rejects Idles
  rw [execute_timeTrigger hk]
  unfold timeTrigger
  rw [htext]
  by_cases hblank : Text.isBlankText schedule = true
  · have hunread := Cron.unread_blank hblank m.timestamp
    rw [if_pos hblank]
    refine ⟨iff_of_true ⟨_, rfl, rfl⟩ hunread, iff_of_false ?_ ?_⟩
    · rintro ⟨o, ho, hok, -⟩
      cases ho
      cases hok
    · intro hfalse
      obtain ⟨e, he, -⟩ := hunread
      rw [hfalse] at he
      cases he
  · rw [if_neg hblank, pure_bind]
    cases hholds : Cron.holds schedule m.timestamp with
    | ok matched => cases matched <;> simp [Cron.Unread, answered, pure, Except.pure, Outcome.didFire, Outcome.idle]
    | error e => cases e <;> simp [Cron.Unread, answered, reported?, throw, throwThe, MonadExceptOf.throw, Outcome.failed]

/-- A timed block rejects its schedule exactly if the clock needs more of it than can be read, and it idles
exactly if a field that does not hold comes first. So it may reject a schedule at one instant and idle at
another; that it rejects it always or never, and does not idle on one that is not well-formed, is true if
the schedule is well-formed, is out of order for every clock, or is neither found out nor passed over at
any instant. -/
theorem timeTrigger_rejects (hk : b.kind? = some .timeTrigger) {schedule : String}
    (hs : b.param? "schedule" = some (.text schedule)) :
    (∀ m l, b.Rejects m l ↔ Cron.Obstructed schedule (Cron.Clock.ofInstant m.timestamp)) ∧
      (∀ m l, b.Idles m l ↔ Cron.PassedOver schedule (Cron.Clock.ofInstant m.timestamp)) ∧
        (((∀ m m' l l', b.Rejects m l ↔ b.Rejects m' l') ∧
            (¬ Cron.WellFormed schedule → ∀ m l, ¬ b.Idles m l)) ↔
          Cron.WellFormed schedule ∨ (∀ t, Cron.Obstructed schedule (Cron.Clock.ofInstant t)) ∨
            ∀ t, ¬ Cron.Obstructed schedule (Cron.Clock.ofInstant t) ∧
              ¬ Cron.PassedOver schedule (Cron.Clock.ofInstant t)) := by
  have hrejects (m : Market α) (l : Ledger α) :
      b.Rejects m l ↔ Cron.Obstructed schedule (Cron.Clock.ofInstant m.timestamp) :=
    (timeTrigger_answers hk hs m l).1.trans (Cron.unread_iff schedule m.timestamp)
  have hidles (m : Market α) (l : Ledger α) :
      b.Idles m l ↔ Cron.PassedOver schedule (Cron.Clock.ofInstant m.timestamp) :=
    (timeTrigger_answers hk hs m l).2.trans (Cron.unmatched_iff schedule m.timestamp)
  refine ⟨hrejects, hidles, ?_⟩
  simp only [hrejects, hidles]
  constructor
  · rintro ⟨hsame, hnever⟩
    by_cases hwell : Cron.WellFormed schedule
    · exact .inl hwell
    · -- obstructed at one time only, it would be rejected in one market and not in the other
      have hpassed (t : Instant) : ¬ Cron.PassedOver schedule (Cron.Clock.ofInstant t) := hnever hwell ⟨t, [], []⟩ default
      have hsame (t u : Instant) := hsame ⟨t, [], []⟩ ⟨u, [], []⟩ default default
      refine .inr ?_
      by_cases hsome : ∃ t, Cron.Obstructed schedule (Cron.Clock.ofInstant t)
      · obtain ⟨t, ht⟩ := hsome
        exact .inl fun u => (hsame t u).1 ht
      · exact .inr fun t => ⟨fun ht => hsome ⟨t, ht⟩, hpassed t⟩
  · rintro (hwell | hall | hnone)
    · exact ⟨fun m m' _ _ => iff_of_false (hwell.not_obstructed _) (hwell.not_obstructed _), fun hill => absurd hwell hill⟩
    · exact ⟨fun m m' _ _ => iff_of_true (hall _) (hall _), fun _ m _ hpassed =>
        Cron.not_obstructed_of_passedOver hpassed (hall m.timestamp)⟩
    · exact ⟨fun m m' _ _ => iff_of_false (hnone _).1 (hnone _).1, fun _ m _ => (hnone m.timestamp).2⟩

/-! ## A weekday that is none -/

section

local instance openPartsOfNewYear : ExactArithmetic := default

/-- Meant for midnight on the first of January, with something after it that is no weekday. -/
def newYearTrigger : Block ℚ :=
  { id := "midnight", kind := "time_trigger", category := .entry, params := [(.text "schedule", .text "0 0 1 1 x")],
    label := "" }

/-- New Year's Day of 2024, some minutes after midnight. -/
def newYear (minutes : ℤ) : Market ℚ :=
  { timestamp := .known (1704067200000000000 + minutes * (60 * Instant.perSecond)), prices := [], history := [] }

theorem newYearTrigger_rejects : newYearTrigger.Rejects (newYear 0) default := by
  have hrun : (newYearTrigger.execute (newYear 0) default).1.toOption.map (·.ok) = some false := by decide +kernel
  exact ok_of_toOption hrun

theorem newYearTrigger_idles : newYearTrigger.Idles (newYear 5) default := by
  have hrun : (newYearTrigger.execute (newYear 5) default).1.toOption.map (fun o => (o.ok, o.fired)) =
      some (true, false) := by decide +kernel
  obtain ⟨o, ho, heq⟩ := ok_of_toOption hrun
  exact ⟨o, ho, (Prod.mk.inj heq).1, (Prod.mk.inj heq).2⟩

/-- The weekday is needed at midnight, and at no other minute. -/
theorem newYear_weekday_reached : newYearTrigger.kind? = some .timeTrigger ∧
    newYearTrigger.param? "schedule" = some (.text "0 0 1 1 x") ∧
      Cron.Obstructed "0 0 1 1 x" (Cron.Clock.ofInstant (newYear 0).timestamp) ∧
        Cron.PassedOver "0 0 1 1 x" (Cron.Clock.ofInstant (newYear 5).timestamp) := by
  have hkind : newYearTrigger.kind? = some .timeTrigger := rfl
  have hparam : newYearTrigger.param? "schedule" = some (.text "0 0 1 1 x") := rfl
  obtain ⟨hrejects, hidles, -⟩ := timeTrigger_rejects hkind hparam
  exact ⟨hkind, hparam, (hrejects (newYear 0) default).1 newYearTrigger_rejects,
    (hidles (newYear 5) default).1 newYearTrigger_idles⟩

/-- At midnight the block is rejected for its weekday. Five minutes later its schedule is not matched. -/
theorem newYear_weekday_passed_by : newYearTrigger.Rejects (newYear 0) default ∧
    newYearTrigger.Idles (newYear 5) default ∧ ¬ Cron.WellFormed "0 0 1 1 x" := by
  refine ⟨newYearTrigger_rejects, newYearTrigger_idles, fun hwell => ?_⟩
  have hobstructed : Cron.Obstructed "0 0 1 1 x" (Cron.Clock.ofInstant (newYear 0).timestamp) :=
    (Cron.unread_iff _ _).1 ((timeTrigger_answers rfl rfl (newYear 0) default).1.1 newYearTrigger_rejects)
  exact hwell.not_obstructed _ hobstructed

end

end Block

end StrategyLab
