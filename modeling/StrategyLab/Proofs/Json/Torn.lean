/-
Text that was cut off. A beginning of the text of an object is no JSON text (`read?_cut`), and neither is
one with the text of another object after it (`read?_joined`): cut outside of a string it leaves the
object open, and cut inside of one it turns the strings of what follows inside out.
-/
import StrategyLab.Proofs.Json.Reading

namespace StrategyLab.Json

variable {α : Type} [Scalar α]

/-! ## Where a text is cut -/

/-- Inside a string. -/
def InString : Scan → Prop
  | .string _ _ | .escape _ _ | .unit _ _ _ _ => True
  | _ => False

/-- Inside a string a character gives no token, unless it ends the string. -/
theorem inString_step {scan next : Scan} {c : Char} (h : InString scan) (hstep : step scan c = some (next, [])) :
    InString next := by
  cases scan with
  | between => exact h.elim
  | word read => exact h.elim
  | string read high =>
    simp only [step] at hstep
    split_ifs at hstep
    · simp at hstep
    · cases hstep
      trivial
    · cases hstep
      trivial
  | escape read high =>
    simp only [step] at hstep
    split_ifs at hstep
    · cases hstep
      trivial
    · simp only [Option.map_eq_some_iff, Prod.mk.injEq] at hstep
      obtain ⟨_, -, rfl, -⟩ := hstep
      trivial
  | unit read high digits value =>
    have hunit : ∀ n, InString (withUnit read high n) := by
      intro n
      unfold withUnit
      split_ifs
      · cases high <;> trivial
      · trivial
      · trivial
    simp only [step, Option.map_eq_some_iff] at hstep
    obtain ⟨d, -, hstep⟩ := hstep
    split_ifs at hstep
    · cases hstep
      exact hunit _
    · cases hstep
      trivial

/-- A string cut before its end is still open. -/
theorem scanned_inside {s : String} {rest : List Char} {found : List Token} : ∀ {cs more : List Char} {scan : Scan},
    InString scan → stringFrom scan (cs ++ more) = some (s, rest) → rest.length < more.length →
      ∃ next, InString next ∧ scanned scan found cs = some (next, found)
  | [], _, scan, hscan, _, _ => ⟨scan, hscan, rfl⟩
  | c :: cs, more, scan, hscan, h, hlength => by
    rw [List.cons_append, stringFrom] at h
    split at h
    · cases h
      rw [List.length_append] at hlength
      omega
    · rename_i next hstep
      obtain ⟨last, hlast, hscanned⟩ := scanned_inside (inString_step hscan hstep) h hlength
      exact ⟨last, hlast, (scanned_step hstep found cs).trans hscanned⟩
    · cases h

/-- Where a text that spells tokens is cut: after some of them, inside a word, or inside a string. -/
inductive Cut (ts : List Token) (complete : Prop) : Scan → List Token → Prop
  | between {us : List Token} (h : us <+: ts) (hall : us = ts → complete) : Cut ts complete .between us
  | word {us : List Token} {read w : List Char} (h : us ++ [.word w] <+: ts) : Cut ts complete (.word read) us
  | string {scan : Scan} (h : InString scan) (us : List Token) : Cut ts complete scan us

theorem Cut.cons {ts us : List Token} {t : Token} {complete complete' : Prop} {scan : Scan} (h : Cut ts complete scan us)
    (hcomplete : complete → complete') : Cut (t :: ts) complete' scan (t :: us) := by
  cases h with
  | between h hall =>
    exact .between ((List.prefix_cons_inj t).2 h) fun heq => hcomplete (hall (List.cons.inj heq).2)
  | word h => exact .word ((List.prefix_cons_inj t).2 h)
  | string h => exact .string h _

/-- The beginning of a text is scanned up to a cut. -/
def CutAt (ts : List Token) (cs : List Char) (found : List Token) (p : List Char) : Prop :=
  ∃ scan us, scanned .between found p = some (scan, us.reverse ++ found) ∧ Cut ts (p = cs) scan us

theorem cutAt_nil (t : Token) (ts : List Token) (cs : List Char) (found : List Token) : CutAt (t :: ts) cs found [] :=
  ⟨.between, [], rfl, .between List.nil_prefix nofun⟩

/-- Behind the first token the cut is one of the rest of the text. -/
theorem CutAt.behind {t : Token} {ts : List Token} {w p cs : List Char} {found : List Token}
    (h : CutAt ts cs (t :: found) p) (hsame : scanned .between found (w ++ p) = scanned .between (t :: found) p) :
    CutAt (t :: ts) (w ++ cs) found (w ++ p) := by
  obtain ⟨scan, us, hscanned, hcut⟩ := h
  refine ⟨scan, t :: us, ?_, hcut.cons fun h => by rw [h]⟩
  rw [hsame, hscanned, List.reverse_cons, List.append_assoc]
  rfl

/-- A string that is not complete. -/
theorem cutAt_inside {s : String} {p more : List Char} (hmore : p ++ more = (stringText s).toList) (hne : more ≠ [])
    (ts : List Token) (cs : List Char) (found : List Token) : CutAt (.string s :: ts) cs found p := by
  rw [toList_stringText] at hmore
  cases p with
  | nil => exact cutAt_nil _ ts cs found
  | cons c p =>
    obtain ⟨rfl, hrest⟩ := List.cons.inj (show c :: (p ++ more) = _ from hmore)
    have hquote : step .between '"' = some (.string [] none, []) := rfl
    have hread : stringFrom (.string [] none) (p ++ more) = some (s, []) := by
      rw [hrest, stringFrom_written, List.reverse_nil, List.nil_append, String.ofList_toList]
    obtain ⟨next, hnext, hscanned⟩ := @scanned_inside s [] found p more (.string [] none) trivial hread
      (List.length_pos_iff.2 hne)
    exact ⟨next, [], (scanned_step hquote found p).trans hscanned, .string hnext []⟩

theorem cutAt_string {s : String} {ts : List Token} {cs : List Char} {p : List Char}
    (hp : p <+: (stringText s).toList ++ cs) (found : List Token)
    (hcs : ∀ {q : List Char}, q <+: cs → CutAt ts cs (.string s :: found) q) :
    CutAt (.string s :: ts) ((stringText s).toList ++ cs) found p := by
  have hscanned : ∀ q, scanned .between found ((stringText s).toList ++ q) = scanned .between (.string s :: found) q := by
    intro q
    rw [scanned_append, scanned_stringText]
    rfl
  rcases List.prefix_or_prefix_of_prefix hp (List.prefix_append _ cs) with ⟨more, hmore⟩ | ⟨q, rfl⟩
  · -- the cut lies inside the string or at its end
    by_cases hnil : more = []
    · obtain rfl : p = (stringText s).toList := by rw [← hmore, hnil, List.append_nil]
      have hnext := (hcs List.nil_prefix).behind (hscanned [])
      rwa [List.append_nil] at hnext
    · exact cutAt_inside hmore hnil ts _ found
  · exact (hcs ((List.prefix_append_right_inj _).1 hp)).behind (hscanned q)

theorem cutAt_word {w : List Char} {ts : List Token} {cs : List Char} (hne : w ≠ []) (hw : ∀ c ∈ w, isLetter c = true)
    (hbreaks : Breaks cs) {p : List Char} (hp : p <+: w ++ cs) (found : List Token)
    (hcs : ∀ {q : List Char}, q <+: cs → CutAt ts cs (.word w :: found) q) : CutAt (.word w :: ts) (w ++ cs) found p := by
  rcases List.prefix_or_prefix_of_prefix hp (List.prefix_append _ cs) with hshort | ⟨q, rfl⟩
  · by_cases hnil : p = []
    · subst hnil
      exact cutAt_nil _ ts _ found
    · have hletters : ∀ c ∈ p, isLetter c = true := fun c hc => hw c (hshort.subset hc)
      exact ⟨.word p.reverse, [], scanned_word hnil hletters found, .word (List.prefix_append [_] ts)⟩
  · have hq := (List.prefix_append_right_inj _).1 hp
    cases q with
    | nil =>
      rw [List.append_nil]
      exact ⟨.word w.reverse, [], scanned_word hne hw found, .word (List.prefix_append [_] ts)⟩
    | cons c q =>
      have hbreak : isBreak c = true := by
        obtain ⟨rest, rfl⟩ := hq
        exact hbreaks c rfl
      refine (hcs hq).behind ?_
      rw [scanned_append, scanned_word hne hw]
      show scanned (.word w.reverse) found (c :: q) = _
      rw [scanned_break hbreak, List.reverse_reverse]

/-- A beginning of a text is cut somewhere. -/
theorem scanned_prefix {ts : List Token} {cs : List Char} (h : Spells [] ts cs) : ∀ {p : List Char}, p <+: cs →
    ∀ found, CutAt ts cs found p := by
  induction h with
  | nil =>
    intro p hp found
    obtain rfl := List.prefix_nil.1 hp
    exact ⟨.between, [], rfl, .between List.nil_prefix fun _ => rfl⟩
  | gap hc => cases hc
  | @mark c t ts cs hc h ih =>
    intro p hp found
    cases p with
    | nil => exact cutAt_nil t ts _ found
    | cons d p =>
      obtain ⟨rfl, hrest⟩ := List.cons_prefix_cons.1 hp
      exact @CutAt.behind t ts [d] p cs found (ih hrest (t :: found)) (scanned_step (step_mark hc) found p)
  | string s h ih => exact fun hp found => cutAt_string hp found fun hq => ih hq _
  | word hne hw hcs h ih => exact fun hp found => cutAt_word hne hw hcs hp found fun hq => ih hq _

/-! ## What is open -/

/-- How many lists and objects a token opens. -/
def Token.opening : Token → Nat
  | .openArray | .openObject => 1
  | _ => 0

/-- How many it closes. -/
def Token.closing : Token → Nat
  | .closeArray | .closeObject => 1
  | _ => 0

omit [Scalar α] in
theorem complete_depth {stack : List (Frame α)} {v : Value α} {r : Reading α} (h : Reading.complete stack v = some r) :
    r.stack.length = stack.length ∧ (r.stack = [] → r.expect = .done) ∧ (r.result.isSome = true → r.stack = []) := by
  unfold Reading.complete at h
  split at h
  · cases h; exact ⟨rfl, fun _ => rfl, fun _ => rfl⟩
  · cases h; exact ⟨rfl, nofun, nofun⟩
  · cases h; exact ⟨rfl, nofun, nofun⟩
  · cases h

/-- A step opens and closes what the token does. Where nothing is left open, nothing more may come. -/
theorem step_depth {r r' : Reading α} {t : Token} (h : r.step t = some r') :
    r'.stack.length + t.closing = r.stack.length + t.opening ∧
    ((r.stack = [] → r.expect ≠ .colon) → r'.stack = [] → r'.expect = .done) ∧
    (r'.result.isSome = true → r'.stack = []) := by
  obtain ⟨expect, stack, result⟩ := r
  unfold Reading.step at h
  dsimp only at h ⊢
  split at h
  case h_1 | h_2 | h_3 | h_4 =>
    cases h
    exact ⟨rfl, fun _ => nofun, nofun⟩
  case h_5 | h_6 =>
    obtain ⟨hdepth, hdone, hresult⟩ := complete_depth h
    exact ⟨hdepth, fun _ => hdone, hresult⟩
  case h_7 | h_8 =>
    obtain ⟨v, -, h⟩ := Option.bind_eq_some_iff.1 h
    obtain ⟨hdepth, hdone, hresult⟩ := complete_depth h
    exact ⟨hdepth, fun _ => hdone, hresult⟩
  case h_9 | h_10 | h_11 | h_12 =>
    split at h
    · obtain ⟨hdepth, hdone, hresult⟩ := complete_depth h
      exact ⟨congrArg (· + 1) hdepth, fun _ => hdone, hresult⟩
    · cases h
  case h_13 | h_14 =>
    split at h
    · cases h
      exact ⟨rfl, fun _ => nofun, nofun⟩
    · cases h
  case h_15 =>
    cases h
    exact ⟨rfl, fun hopen hnil => absurd rfl (hopen hnil), nofun⟩
  case h_16 =>
    split at h
    · cases h
      exact ⟨rfl, fun _ => nofun, nofun⟩
    · cases h
      exact ⟨rfl, fun _ => nofun, nofun⟩
    · cases h
  case h_17 => cases h

theorem run_append (more : List Token) : ∀ (ts : List Token) (r : Reading α), r.run (ts ++ more) = (r.run ts).bind (·.run more)
  | [], _ => rfl
  | t :: ts, r => by
    rw [List.cons_append, Reading.run, Reading.run]
    cases r.step t with
    | none => rfl
    | some r => exact run_append more ts r

/-- A run opens and closes what its tokens do, and has a value only where nothing is left open. -/
theorem run_depth : ∀ {ts : List Token} {r r' : Reading α}, r.run ts = some r' →
    (r.result.isSome = true → r.stack = []) →
      r'.stack.length + (ts.map Token.closing).sum = r.stack.length + (ts.map Token.opening).sum ∧
        (r'.result.isSome = true → r'.stack = [])
  | [], _, _, h, hr => by
    cases h
    exact ⟨rfl, hr⟩
  | t :: ts, r, r', h, _ => by
    obtain ⟨next, hstep, hrun⟩ := Option.bind_eq_some_iff.1 (show (r.step t).bind (·.run ts) = some r' from h)
    obtain ⟨hdepth, -, hresult⟩ := step_depth hstep
    obtain ⟨hrest, hlast⟩ := run_depth hrun hresult
    refine ⟨?_, hlast⟩
    rw [List.map_cons, List.map_cons, List.sum_cons, List.sum_cons]
    omega

/-- The beginning of reading. -/
def start : Reading α := ⟨.value, [], none⟩

omit [Scalar α] in
theorem start_settled : (start : Reading α).result.isSome = true → (start : Reading α).stack = [] := fun _ => rfl

theorem step_done {r : Reading α} (h : r.expect = .done) (t : Token) : r.step t = none := by
  obtain ⟨expect, stack, result⟩ := r
  cases h
  cases t <;> rfl

/-- Where nothing is left open after some tokens, nothing more may come. -/
theorem run_settled : ∀ {us : List Token} {r r' : Reading α}, r.run us = some r' → us ≠ [] →
    (r.stack = [] → r.expect ≠ .colon) → r'.stack = [] → r'.expect = .done
  | [], _, _, _, hne, _ => absurd rfl hne
  | t :: us, r, r', hrun, _, hopen => by
    obtain ⟨next, hstep, hrest⟩ := Option.bind_eq_some_iff.1 (show (r.step t).bind (·.run us) = some r' from hrun)
    obtain ⟨-, hdone, -⟩ := step_depth hstep
    cases us with
    | nil =>
      cases hrest
      exact hdone hopen
    | cons u us => exact run_settled hrest (List.cons_ne_nil u us) fun hnone => by rw [hdone hopen hnone]; decide

/-- After some of the tokens of a value something is open. -/
theorem run_cut {ts us : List Token} {v : Value α} (h : start.run ts = some ⟨.done, [], some v⟩) (hus : us <+: ts)
    (hnil : us ≠ []) (hall : us ≠ ts) : ∃ r : Reading α, start.run us = some r ∧ r.stack ≠ [] := by
  obtain ⟨more, rfl⟩ := hus
  rw [run_append] at h
  obtain ⟨r, hrun, hmore⟩ := Option.bind_eq_some_iff.1 h
  refine ⟨r, hrun, fun hempty => ?_⟩
  -- with nothing open no other token could come
  have hdone := run_settled hrun hnil (fun _ => nofun) hempty
  cases more with
  | nil => exact hall (List.append_nil us).symm
  | cons t more =>
    rw [Reading.run, step_done hdone] at hmore
    cases hmore

/-- After the tokens something is open, so that there is no value yet. -/
def LeavesOpen (us : List Token) : Prop :=
  ∀ r : Reading α, start.run us = some r → r.stack ≠ [] ∧ r.result = none

theorem result_of_open {us : List Token} {r : Reading α} (h : start.run us = some r) (hstack : r.stack ≠ []) :
    r.result = none := by
  cases hresult : r.result with
  | none => rfl
  | some v => exact absurd ((run_depth h start_settled).2 (by rw [hresult]; rfl)) hstack

theorem leavesOpen_cut {ts us : List Token} {v : Value α} (h : start.run ts = some ⟨.done, [], some v⟩) (hus : us <+: ts)
    (hnil : us ≠ []) (hall : us ≠ ts) : LeavesOpen (α := α) us := by
  obtain ⟨r, hr, hstack⟩ := run_cut h hus hnil hall
  intro r' hr'
  cases hr.symm.trans hr'
  exact ⟨hstack, result_of_open hr hstack⟩

/-- A word opens and closes nothing. -/
theorem LeavesOpen.word {us : List Token} (h : LeavesOpen (α := α) us) (w : List Char) :
    LeavesOpen (α := α) (us ++ [.word w]) := by
  intro r hr
  have hrun := hr
  rw [run_append] at hr
  obtain ⟨r', hr', hlast⟩ := Option.bind_eq_some_iff.1 hr
  obtain ⟨r'', hstep, hnone⟩ := Option.bind_eq_some_iff.1 (show (r'.step _).bind _ = some r from hlast)
  cases hnone
  have hdepth : r.stack.length = r'.stack.length := (step_depth hstep).1
  have hstack : r.stack ≠ [] := by
    rw [← List.length_pos_iff, hdepth]
    exact List.length_pos_iff.2 (h r' hr').1
  exact ⟨hstack, result_of_open hrun hstack⟩

/-- Where something is left open, tokens that open as much as they close give no value. -/
theorem run_open {ts : List Token} {r r' : Reading α} (h : r.run ts = some r') (hopen : r.stack ≠ [])
    (hbalance : (ts.map Token.closing).sum = (ts.map Token.opening).sum) (hr : r.result = none) : r'.result = none := by
  obtain ⟨hdepth, hresult⟩ := run_depth h (by rw [hr]; nofun)
  cases hvalue : r'.result with
  | none => rfl
  | some v =>
    rw [hresult (by rw [hvalue]; rfl), List.length_nil] at hdepth
    exact absurd (List.length_eq_zero_iff.1 (by omega)) hopen

/-- A record opens as much as it closes. -/
theorem tokensOf_balance (hα : Readable α) {v : Value α} (hv : v.IsRecord) :
    ((tokensOf v).map Token.closing).sum = ((tokensOf v).map Token.opening).sum := by
  have hdepth := (run_depth (run_tokensOf hα hv) start_settled).1
  rwa [List.length_nil, Nat.zero_add, Nat.zero_add] at hdepth

/-! ## Strings turned inside out -/

/-- A word that holds what only strings hold. -/
def Spoiled (w : List Char) : Prop := '"' ∈ w ∨ '\\' ∈ w

theorem word?_spoiled {w : List Char} (h : Spoiled w) : word? (α := α) w = none := by
  have hne : ∀ s : String, '"' ∉ s.toList → '\\' ∉ s.toList → String.ofList w ≠ s := by
    rintro s hquote hbackslash rfl
    rw [String.toList_ofList] at hquote hbackslash
    exact h.elim hquote hbackslash
  have hnumber : number? (α := α) w = none := by
    cases hx : number? (α := α) w with
    | none => rfl
    | some x =>
      have hletters := number?_letters hx
      exact (h.elim (fun hquote => (isLetter_apart (hletters _ hquote)).2.1 rfl) fun hbackslash =>
        (isLetter_apart (hletters _ hbackslash)).2.2.1 rfl).elim
  unfold word?
  dsimp only
  rw [if_neg (hne _ (by decide) (by decide)), if_neg (hne _ (by decide) (by decide)), if_neg (hne _ (by decide) (by decide)),
    if_neg (hne _ (by decide) (by decide)), if_neg (hne _ (by decide) (by decide)), if_neg (hne _ (by decide) (by decide)),
    hnumber]
  rfl

theorem run_spoiled {w : List Char} (hw : Spoiled w) : ∀ {ts : List Token} {r : Reading α}, .word w ∈ ts → r.run ts = none
  | t :: ts, r, h => by
    rw [Reading.run]
    rcases List.mem_cons.1 h with rfl | h
    · obtain ⟨expect, stack, result⟩ := r
      cases expect <;> simp [Reading.step, word?_spoiled hw]
    · cases r.step t with
      | none => rfl
      | some next => exact run_spoiled hw h

/-- A spoiled word has been found, or is being read. -/
inductive Marred : Scan → List Token → Prop
  | found {scan : Scan} {found : List Token} {w : List Char} (h : .word w ∈ found) (hw : Spoiled w) : Marred scan found
  | word {read : List Char} (hread : Spoiled read) (found : List Token) : Marred (.word read) found

theorem Marred.step {scan next : Scan} {c : Char} {new found : List Token} (h : Marred scan found)
    (hstep : Json.step scan c = some (next, new)) : Marred next (new.reverse ++ found) := by
  cases h with
  | found h hw => exact .found (List.mem_append_right _ h) hw
  | @word read hread =>
    by_cases hc : isBreak c = true
    · obtain ⟨next', new', hbreak, -⟩ := step_break hc read
      rw [hbreak] at hstep
      cases hstep
      refine .found (w := read.reverse) ?_ (hread.imp List.mem_reverse.2 List.mem_reverse.2)
      rw [List.reverse_cons]
      exact List.mem_append_left _ (List.mem_append_right _ List.mem_cons_self)
    · rw [step_word (by simpa using hc)] at hstep
      cases hstep
      exact .word (hread.imp (List.mem_cons_of_mem c) (List.mem_cons_of_mem c)) found

/-- Outside of the strings of a text: the automaton is inside of one, or has met a spoiled word. -/
def Adrift (scan : Scan) (found : List Token) : Prop := Marred scan found ∨ ∃ read high, scan = .string read high

/-- Inside of a string of a text: the automaton is outside of all, or has met a spoiled word. -/
def Ashore (scan : Scan) (found : List Token) : Prop :=
  Marred scan found ∨ scan = .between ∨ ∃ read, scan = .word read

section

variable {scan next : Scan} {c : Char} {new found : List Token}

/-- Outside of strings nothing ends the one that the automaton is in. -/
theorem Adrift.step (h : Adrift scan found) (hc : Printable c ∧ c ≠ '"' ∧ c ≠ '\\') (hstep : Json.step scan c = some (next, new)) :
    Adrift next (new.reverse ++ found) := by
  obtain hmarred | ⟨read, high, rfl⟩ := h
  · exact .inl (hmarred.step hstep)
  · obtain ⟨hprintable, hquote, hbackslash⟩ := hc
    simp only [Json.step, if_neg hquote, if_neg hbackslash, if_neg (Nat.not_lt.2 hprintable.1)] at hstep
    cases hstep
    exact .inr ⟨_, _, rfl⟩

/-- A quote that begins a string ends it. -/
theorem Adrift.quote (h : Adrift scan found) (hstep : Json.step scan '"' = some (next, new)) :
    Ashore next (new.reverse ++ found) := by
  obtain hmarred | ⟨read, high, rfl⟩ := h
  · exact .inl (hmarred.step hstep)
  · cases hstep
    exact .inr (.inl rfl)

/-- Outside of strings a backslash spoils a word. -/
theorem Ashore.backslash (h : Ashore scan found) (hstep : Json.step scan '\\' = some (next, new)) :
    Marred next (new.reverse ++ found) := by
  have hspoiled : ∀ read, Spoiled ('\\' :: read) := fun read => .inr List.mem_cons_self
  obtain hmarred | rfl | ⟨read, rfl⟩ := h
  · exact hmarred.step hstep
  · cases hstep
    exact .word (hspoiled []) found
  · cases hstep
    exact .word (hspoiled read) found

theorem Ashore.step (h : Ashore scan found) (hc : c ≠ '"') (hstep : Json.step scan c = some (next, new)) :
    Ashore next (new.reverse ++ found) := by
  have hnext : ∀ {next : Scan} {t : Option Token}, stepBetween c = some (next, t) →
      next = .between ∨ ∃ read, next = .word read := by
    intro next t h
    unfold stepBetween at h
    rw [if_neg hc] at h
    split_ifs at h
    · cases h
      exact .inl rfl
    · split at h
      · cases h
        exact .inl rfl
      · cases h
        exact .inr ⟨_, rfl⟩
  obtain hmarred | rfl | ⟨read, rfl⟩ := h
  · exact .inl (hmarred.step hstep)
  · obtain ⟨⟨s, t⟩, hbetween, heq⟩ := Option.map_eq_some_iff.1 (show (stepBetween c).map _ = some _ from hstep)
    cases heq
    exact .inr (hnext hbetween)
  · simp only [Json.step] at hstep
    split at hstep
    · obtain ⟨⟨s, t⟩, hbetween, heq⟩ := Option.map_eq_some_iff.1 hstep
      cases heq
      exact .inr (hnext hbetween)
    · cases hstep
      exact .inr (.inr ⟨_, rfl⟩)

/-- A quote that ends a string begins one, or spoils the word before it. -/
theorem Ashore.quote (h : Ashore scan found) (hstep : Json.step scan '"' = some (next, new)) :
    Adrift next (new.reverse ++ found) := by
  obtain hmarred | rfl | ⟨read, rfl⟩ := h
  · exact .inl (hmarred.step hstep)
  · cases hstep
    exact .inr ⟨_, _, rfl⟩
  · cases hstep
    exact .inl (.word (.inl List.mem_cons_self) found)

end

/-- What one character keeps, all characters keep. -/
theorem scanned_keeps {P : Scan → List Token → Prop} {Q : Char → Prop}
    (hstep : ∀ {scan next : Scan} {c : Char} {new found : List Token}, P scan found → Q c → step scan c = some (next, new) →
      P next (new.reverse ++ found)) :
    ∀ {cs : List Char} {scan next : Scan} {found last : List Token}, P scan found → (∀ c ∈ cs, Q c) →
      scanned scan found cs = some (next, last) → P next last
  | [], _, _, _, _, h, _, hscanned => by
    cases hscanned
    exact h
  | c :: cs, scan, next, found, last, h, hQ, hscanned => by
    obtain ⟨hc, hcs⟩ := List.forall_mem_cons.1 hQ
    obtain ⟨⟨mid, new⟩, hone, hrest⟩ := Option.bind_eq_some_iff.1 (show (step scan c).bind _ = some (next, last) from hscanned)
    exact scanned_keeps hstep (hstep h hc hone) hcs hrest

theorem scanned_append_some {cs rest : List Char} {scan next : Scan} {found last : List Token}
    (h : scanned scan found (cs ++ rest) = some (next, last)) :
    ∃ mid between, scanned scan found cs = some (mid, between) ∧ scanned mid between rest = some (next, last) := by
  rw [scanned_append] at h
  obtain ⟨⟨mid, between⟩, hfirst, hrest⟩ := Option.bind_eq_some_iff.1 h
  exact ⟨mid, between, hfirst, hrest⟩

theorem escapeChar_shape (c : Char) : escapeChar c = [c] ∧ c ≠ '"' ∨ ∃ rest, escapeChar c = '\\' :: rest := by
  unfold escapeChar
  dsimp only
  split_ifs with h1
  all_goals first
    | exact .inl ⟨rfl, h1⟩
    | exact .inr ⟨_, rfl⟩

/-- What stands between the quotes of a string is no string any more. -/
theorem Ashore.escaped : ∀ {cs : List Char} {scan next : Scan} {found last : List Token}, Ashore scan found →
    scanned scan found (cs.flatMap escapeChar) = some (next, last) → Ashore next last
  | [], _, _, _, _, h, hscanned => by
    cases hscanned
    exact h
  | c :: cs, scan, next, found, last, h, hscanned => by
    rw [List.flatMap_cons] at hscanned
    obtain ⟨mid, between, hfirst, hrest⟩ := scanned_append_some hscanned
    refine Ashore.escaped ?_ hrest
    obtain ⟨hplain, hc⟩ | ⟨rest, hescape⟩ := escapeChar_shape c
    · rw [hplain] at hfirst
      exact scanned_keeps (Q := fun c => c ≠ '"') Ashore.step h (List.forall_mem_singleton.2 hc) hfirst
    · rw [hescape] at hfirst
      obtain ⟨⟨one, new⟩, hone, hmore⟩ := Option.bind_eq_some_iff.1 (show (Json.step scan '\\').bind _ = _ from hfirst)
      exact .inl (scanned_keeps (Q := fun _ => True) (fun h _ hstep => h.step hstep) (h.backslash hone)
        (fun _ _ => trivial) hmore)

/-- A whole string leaves the automaton inside of one again. -/
theorem Adrift.stringText {s : String} {scan next : Scan} {found last : List Token} (h : Adrift scan found)
    (hscanned : scanned scan found (Json.stringText s).toList = some (next, last)) : Adrift next last := by
  rw [toList_stringText] at hscanned
  obtain ⟨⟨one, new⟩, hopen, hrest⟩ := Option.bind_eq_some_iff.1 (show (Json.step scan '"').bind _ = _ from hscanned)
  obtain ⟨mid, between, hinner, hclose⟩ := scanned_append_some hrest
  obtain ⟨⟨end_, newest⟩, hquote, hnil⟩ := Option.bind_eq_some_iff.1 (show (Json.step mid '"').bind _ = _ from hclose)
  cases hnil
  exact ((h.quote hopen).escaped hinner).quote hquote

/-- A text that is read from inside of a string leaves the automaton there. -/
theorem Adrift.text {ts : List Token} {cs : List Char} (h : Spells [] ts cs) : ∀ {scan next : Scan} {found last : List Token},
    Adrift scan found → scanned scan found cs = some (next, last) → Adrift next last := by
  have hplain := @scanned_keeps Adrift (fun c => Printable c ∧ c ≠ '"' ∧ c ≠ '\\') Adrift.step
  induction h with
  | nil =>
    intro scan next found last hadrift hscanned
    cases hscanned
    exact hadrift
  | gap hc => cases hc
  | @mark c t ts cs hc h ih =>
    intro scan next found last hadrift hscanned
    obtain ⟨mid, between, hfirst, hrest⟩ := @scanned_append_some [c] cs _ _ _ _ hscanned
    have hmarks : ∀ d ∈ ['[', ']', '\x7b', '\x7d', ',', ':'], Printable d ∧ d ≠ '"' ∧ d ≠ '\\' := by simp [Printable]
    exact ih (hplain hadrift (List.forall_mem_singleton.2 (hmarks c (mark_mem hc))) hfirst) hrest
  | string s h ih =>
    intro scan next found last hadrift hscanned
    obtain ⟨mid, between, hfirst, hrest⟩ := scanned_append_some hscanned
    exact ih (hadrift.stringText hfirst) hrest
  | word hne hw hcs h ih =>
    intro scan next found last hadrift hscanned
    obtain ⟨mid, between, hfirst, hrest⟩ := scanned_append_some hscanned
    refine ih (hplain hadrift (fun c hc => ?_) hfirst) hrest
    obtain ⟨-, hquote, hbackslash, -⟩ := isLetter_apart (hw c hc)
    exact ⟨isLetter_printable (hw c hc), hquote, hbackslash⟩

/-- So that a spoiled word is among its tokens, if it has any. -/
theorem Adrift.spoils {ts us : List Token} {cs : List Char} {scan : Scan} {found : List Token} (hadrift : Adrift scan found)
    (h : Spells [] ts cs) (htokens : tokensFrom scan found cs = some us) : ∃ w, .word w ∈ us ∧ Spoiled w := by
  rw [← List.append_nil cs, tokensFrom_append] at htokens
  obtain ⟨⟨next, last⟩, hscanned, hend⟩ := Option.bind_eq_some_iff.1 htokens
  have hmarred : Marred next last := by
    obtain hmarred | ⟨read, high, rfl⟩ := hadrift.text h hscanned
    · exact hmarred
    · cases hend
  cases hmarred with
  | @found _ _ w hfound hw =>
    cases next with
    | between =>
      cases hend
      exact ⟨w, List.mem_reverse.2 hfound, hw⟩
    | word read =>
      cases hend
      exact ⟨w, List.mem_reverse.2 (List.mem_cons_of_mem _ hfound), hw⟩
    | string | escape | unit => cases hend
  | @word read hread =>
    cases hend
    exact ⟨read.reverse, List.mem_reverse.2 List.mem_cons_self, hread.imp List.mem_reverse.2 List.mem_reverse.2⟩

/-! ## Texts of objects -/

theorem Breaks.append {cs rest : List Char} (h : Breaks cs) (hrest : Breaks rest) : Breaks (cs ++ rest) := by
  cases cs with
  | nil => exact hrest
  | cons c cs => exact Breaks.cons (h c rfl) (cs ++ rest)

theorem Spells.append {gaps : List Char} {ts us : List Token} {cs rest : List Char} (h : Spells gaps ts cs) (hbreaks : Breaks rest)
    (hrest : Spells gaps us rest) : Spells gaps (ts ++ us) (cs ++ rest) := by
  induction h with
  | nil => exact hrest
  | gap hc _ ih => exact .gap hc ih
  | mark hc _ ih => exact .mark hc ih
  | string s _ ih =>
    rw [List.append_assoc]
    exact .string s ih
  | word hne hw hcs _ ih =>
    rw [List.append_assoc]
    exact .word hne hw (hcs.append hbreaks) ih

theorem spells_object {ts : List Token} {u : List Char} (h : Spells [] (.openObject :: ts) u) :
    ∃ cs, u = '\x7b' :: cs ∧ Spells [] ts cs := by
  cases h with
  | gap hc => cases hc
  | @mark c _ _ cs hc h =>
    have hmark := mark_mem hc
    simp only [List.mem_cons, List.not_mem_nil, or_false] at hmark
    rcases hmark with rfl | rfl | rfl | rfl | rfl | rfl <;> cases hc
    exact ⟨cs, rfl, h⟩

section

variable {fields : Object α} {u p : List Char}

/-- A beginning of the text of an object is all of it, or is cut inside a string, or leaves something open. -/
theorem cut_object (hα : Readable α) (hv : (Value.object fields).IsRecord) (hu : Spells [] (tokensOf (.object fields)) u)
    (hp : p <+: u) (hne : p ≠ []) :
    p = u ∨ (∃ scan found, scanned .between [] p = some (scan, found) ∧ InString scan) ∨
      ∃ us : List Token, (∀ rest, Breaks rest → tokensFrom .between [] (p ++ rest) = tokensFrom .between us.reverse rest) ∧
        LeavesOpen (α := α) us := by
  have hrun := run_tokensOf hα hv
  rw [tokensOf] at hu hrun
  obtain ⟨cs, rfl, hcs⟩ := spells_object hu
  obtain ⟨c, p, rfl⟩ := List.exists_cons_of_ne_nil hne
  obtain ⟨rfl, hrest⟩ := List.cons_prefix_cons.1 hp
  obtain ⟨scan, us, hscanned, hcut⟩ := scanned_prefix hcs hrest [.openObject]
  have hfirst : scanned .between [] ('\x7b' :: p) = some (scan, us.reverse ++ [.openObject]) := hscanned
  have hopen : us <+: fieldTokens fields ++ [.closeObject] → us ≠ fieldTokens fields ++ [.closeObject] →
      LeavesOpen (α := α) (.openObject :: us) := fun hus hall =>
    leavesOpen_cut hrun ((List.prefix_cons_inj _).2 hus) (List.cons_ne_nil _ us) fun h => hall (List.cons.inj h).2
  cases hcut with
  | between hus hall =>
    by_cases hwhole : us = fieldTokens fields ++ [.closeObject]
    · exact .inl (congrArg (List.cons '\x7b') (hall hwhole))
    · refine .inr (.inr ⟨.openObject :: us, fun rest _ => ?_, hopen hus hwhole⟩)
      rw [tokensFrom_append, hfirst, List.reverse_cons]
      rfl
  | @word _ read w hus =>
    have hless : us ≠ fieldTokens fields ++ [.closeObject] := fun h => by
      have hlength := hus.length_le
      rw [← h, List.length_append] at hlength
      exact absurd hlength (by simp)
    refine .inr (.inr ⟨.openObject :: us ++ [.word read.reverse], fun rest hrest => ?_,
      (hopen ((List.prefix_append us _).trans hus) hless).word _⟩)
    rw [tokensFrom_append, hfirst, Option.bind_some, tokensFrom_break hrest, List.reverse_append, @List.reverse_cons _ _ us]
    rfl
  | string hscan => exact .inr (.inl ⟨scan, _, hfirst, hscan⟩)

theorem read?_ofList (cs : List Char) : read? (α := α) (String.ofList cs) =
    (tokensFrom .between [] cs).bind fun ts => (start.run ts).bind (·.result) := by
  unfold read? tokens?
  rw [String.toList_ofList]
  rfl

/-- A text that was cut off has no value. -/
theorem read?_cut (hα : Readable α) (hv : (Value.object fields).IsRecord) (hu : Spells [] (tokensOf (.object fields)) u)
    (hp : p <+: u) (hne : p ≠ []) (hcut : p ≠ u) : read? (α := α) (String.ofList p) = none := by
  rw [read?_ofList]
  obtain hwhole | ⟨scan, found, hscanned, hscan⟩ | ⟨us, htokens, hopen⟩ := cut_object hα hv hu hp hne
  · exact absurd hwhole hcut
  · rw [← List.append_nil p, tokensFrom_append, hscanned]
    cases scan with
    | between | word => exact hscan.elim
    | string | escape | unit => rfl
  · have hus := htokens [] Breaks.nil
    rw [List.append_nil] at hus
    rw [hus]
    show (start.run us.reverse.reverse).bind (·.result) = none
    rw [List.reverse_reverse]
    cases hr : start.run (α := α) us with
    | none => rfl
    | some r => exact (hopen r hr).2

/-- A beginning of a text, or all of it, has no value with the text of another object after it. -/
theorem read?_joined (hα : Readable α) (hv : (Value.object fields).IsRecord) (hu : Spells [] (tokensOf (.object fields)) u)
    (hp : p <+: u) (hne : p ≠ []) {others : Object α} {t : List Char} (hothers : (Value.object others).IsRecord)
    (ht : Spells [] (tokensOf (.object others)) t) : read? (α := α) (String.ofList (p ++ t)) = none := by
  obtain ⟨cs, rfl⟩ : ∃ cs, t = '\x7b' :: cs := by
    rw [tokensOf] at ht
    obtain ⟨cs, rfl, -⟩ := spells_object ht
    exact ⟨cs, rfl⟩
  have hbreaks : Breaks ('\x7b' :: cs) := Breaks.cons (by decide) cs
  have hgaps : ∀ c ∈ ([] : List Char), isSpace c = true := fun _ h => absurd h List.not_mem_nil
  rw [read?_ofList]
  obtain rfl | ⟨scan, found, hscanned, hscan⟩ | ⟨us, htokens, hopen⟩ := cut_object hα hv hu hp hne
  · -- after a whole object nothing may come
    have hdone : start.run (tokensOf (.object fields)) = some ⟨.done, [], some (.object fields)⟩ := run_tokensOf hα hv
    rw [tokensFrom_spells hgaps (hu.append hbreaks ht), List.reverse_nil, List.nil_append, Option.bind_some, run_append,
      hdone, Option.bind_some, tokensOf, Reading.run, step_done rfl]
    rfl
  · rw [tokensFrom_append, hscanned, Option.bind_some]
    cases scan with
    | between | word => exact hscan.elim
    | escape | unit => rfl
    | string read high =>
      cases htokens : tokensFrom (.string read high) found ('\x7b' :: cs) with
      | none => rfl
      | some ts =>
        obtain ⟨w, hw, hspoiled⟩ := Adrift.spoils (.inr ⟨read, high, rfl⟩) ht htokens
        rw [Option.bind_some, run_spoiled hspoiled hw]
        rfl
  · rw [htokens _ hbreaks, tokensFrom_spells hgaps ht, List.reverse_reverse, Option.bind_some, run_append]
    cases hr : start.run (α := α) us with
    | none => rfl
    | some r =>
      obtain ⟨hstack, hresult⟩ := hopen r hr
      cases hr' : r.run (tokensOf (.object others)) with
      | none => rw [Option.bind_some, hr']; rfl
      | some r' =>
        rw [Option.bind_some, hr']
        exact run_open hr' hstack (tokensOf_balance hα hothers) hresult

end

end StrategyLab.Json
