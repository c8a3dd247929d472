/-
Records read back as they were written, in every style that keeps the order of fields
(`read_render`): the text of a record spells the tokens of the record, and the automaton with the
stack puts the record together from them.
-/
import StrategyLab.Proofs.Agree
import StrategyLab.Proofs.Json.Numbers
import StrategyLab.Proofs.Store.Record

namespace StrategyLab.Json

variable {α : Type} [Scalar α]

/-! ## The tokens of a record -/

mutual
/-- The tokens that a record is written with. -/
def tokensOf : Value α → List Token
  | .null => [.word ['n', 'u', 'l', 'l']]
  | .truth b => [.word (if b then ['t', 'r', 'u', 'e'] else ['f', 'a', 'l', 's', 'e'])]
  | .num x => [.word (numText x).toList]
  | .text s => [.string s]
  | .list items => .openArray :: (itemTokens items ++ [.closeArray])
  | .object fields => .openObject :: (fieldTokens fields ++ [.closeObject])
  | _ => []

/-- The tokens of items with commas between them. -/
def itemTokens : List (Value α) → List Token
  | [] => []
  | [v] => tokensOf v
  | v :: rest => tokensOf v ++ .comma :: itemTokens rest

/-- The tokens of fields with commas between them. -/
def fieldTokens : List (Key α × Value α) → List Token
  | [] => []
  | [(k, v)] => .string (keyText k) :: .colon :: tokensOf v
  | (k, v) :: rest => .string (keyText k) :: .colon :: (tokensOf v ++ .comma :: fieldTokens rest)
end

/-! ## Writing -/

/-- The texts of a value spell its tokens, wherever they stand before a break. -/
def Writes (style : Style) (ts : List Token) (text : String) : Prop :=
  ∀ {more : List Token} {rest : List Char}, Breaks rest → Spells (gapsOf style) more rest →
    Spells (gapsOf style) (ts ++ more) (text.toList ++ rest)

theorem writes_word {style : Style} {text : String} {w : List Char} (htext : text.toList = w) (hne : w ≠ [])
    (hw : ∀ c ∈ w, isLetter c = true) : Writes style [.word w] text := by
  subst htext
  exact fun hbreaks hrest => .word hne hw hbreaks hrest

theorem numText_letters (hα : Readable α) {x : Num α} (hx : (Value.num x).IsRecord) :
    number? (numText x).toList = some x ∧ (numText x).toList ≠ [] ∧ ∀ c ∈ (numText x).toList, isLetter c = true := by
  have hne : ∀ {cs : List Char} {y : Num α}, number? cs = some y → cs ≠ [] := by
    rintro cs y h rfl
    cases h
  cases hx with
  | whole n =>
    have hread := number?_whole (α := α) n
    exact ⟨hread, hne hread, number?_letters hread⟩
  | @real x hfinite =>
    have htext : numText (.real x) = Scalar.text x := if_pos hfinite
    rw [htext]
    exact ⟨hα x hfinite, hne (hα x hfinite), number?_letters (hα x hfinite)⟩

section

variable {style : Style}

theorem spells_spaces (hspace : ' ' ∈ gapsOf style) (n : Nat) {ts : List Token} {rest : List Char}
    (h : Spells (gapsOf style) ts rest) : Spells (gapsOf style) ts (List.replicate n ' ' ++ rest) := by
  induction n with
  | zero => exact h
  | succ n ih => exact .gap hspace ih

/-- A line break is a gap. -/
theorem spells_lineBreak (level : Nat) {ts : List Token} {rest : List Char} (h : Spells (gapsOf style) ts rest) :
    Spells (gapsOf style) ts ((lineBreak style level).toList ++ rest) := by
  unfold lineBreak
  split
  · rename_i hmultiline
    have hgaps : gapsOf style = ['\n', ' '] := if_pos hmultiline
    rw [String.toList_append, List.append_assoc, @String.toList_ofList (List.replicate (2 * level) ' ')]
    exact .gap (by rw [hgaps]; decide) (spells_spaces (by rw [hgaps]; decide) _ h)
  · exact h

theorem breaks_lineBreak (level : Nat) {c : Char} (hc : isBreak c = true) (rest : List Char) :
    Breaks ((lineBreak style level).toList ++ c :: rest) := by
  unfold lineBreak
  split
  · rw [String.toList_append, List.append_assoc]
    exact Breaks.cons (show isBreak '\n' = true by decide) _
  · exact Breaks.cons hc rest

theorem spells_colon {ts : List Token} {rest : List Char} (h : Spells (gapsOf style) ts rest) :
    Spells (gapsOf style) (.colon :: ts) ((colonText style).toList ++ rest) := by
  unfold colonText
  split
  · rename_i hmultiline
    have hgaps : gapsOf style = ['\n', ' '] := if_pos hmultiline
    exact .mark rfl (.gap (by rw [hgaps]; decide) h)
  · exact .mark rfl h

/-- Brackets around an inner text, with a line break behind the first one and before the last one. -/
theorem Writes.bracketed {ts : List Token} {inner : String} (h : Writes style ts inner) (level : Nat)
    (left right : Char) {opening closing : Token} (hleft : punctuation? left = some opening)
    (hright : punctuation? right = some closing) (hbreak : isBreak right = true) {text : String}
    (htext : text.toList = left :: ((lineBreak style (level + 1)).toList ++
      (inner.toList ++ ((lineBreak style level).toList ++ [right])))) :
    Writes style (opening :: (ts ++ [closing])) text := by
  intro more rest _ hrest
  have hclosed : Spells (gapsOf style) (closing :: more) ((lineBreak style level).toList ++ right :: rest) :=
    spells_lineBreak level (.mark hright hrest)
  have hinner := h (breaks_lineBreak level hbreak rest) hclosed
  rw [htext]
  simpa using Spells.mark hleft (spells_lineBreak (level + 1) hinner)

/-- Items in their order. -/
theorem renderItems_writes {level : Nat} : ∀ {items : List (Value α)},
    (∀ v ∈ items, ∃ text, render style level v = .ok text ∧ Writes style (tokensOf v) text) → items ≠ [] →
      ∃ text, renderItems style level items = .ok text ∧ Writes style (itemTokens items) text
  | [], _, hne => absurd rfl hne
  | [v], h, _ => by
    rw [renderItems, itemTokens]
    exact h v List.mem_cons_self
  | v :: w :: rest, h, _ => by
    obtain ⟨first, hfirst, hwrites⟩ := h v List.mem_cons_self
    obtain ⟨others, hothers, hmore⟩ := renderItems_writes (fun u hu => h u (List.mem_cons_of_mem v hu)) (List.cons_ne_nil w rest)
    refine ⟨first ++ "," ++ lineBreak style level ++ others, ?_, ?_⟩
    · rw [renderItems, hfirst, hothers]
      · rfl
      · simp
    · intro more rest' hbreaks hrest
      rw [itemTokens, List.append_assoc]
      · simp only [String.toList_append, List.append_assoc]
        exact hwrites (Breaks.cons (by decide) _) (.mark rfl (spells_lineBreak level (hmore hbreaks hrest)))
      · simp

theorem renderFields_cons {level : Nat} {f : Key α × Value α} {rest : List (Key α × Value α)}
    {texts : List (Key α × String)} (h : renderFields style level (f :: rest) = .ok texts) : texts ≠ [] := by
  obtain ⟨k, v⟩ := f
  obtain ⟨text, -, h⟩ := bind_ok h
  obtain ⟨others, -, h⟩ := bind_ok h
  cases h
  exact List.cons_ne_nil _ _

/-- Fields in their order. -/
theorem renderFields_writes {level : Nat} : ∀ {fields : List (Key α × Value α)},
    (∀ f ∈ fields, ∃ text, render style level f.2 = .ok text ∧ Writes style (tokensOf f.2) text) → fields ≠ [] →
      ∃ texts, renderFields style level fields = .ok texts ∧
        Writes style (fieldTokens fields) (String.intercalate ("," ++ lineBreak style level) (texts.map (·.2)))
  | [], _, hne => absurd rfl hne
  | [(k, v)], h, _ => by
    obtain ⟨text, htext, hwrites⟩ := h (k, v) List.mem_cons_self
    refine ⟨[(k, stringText (keyText k) ++ colonText style ++ text)], ?_, ?_⟩
    · rw [renderFields, htext]
      rfl
    · intro more rest hbreaks hrest
      rw [fieldTokens]
      simp only [List.map_cons, List.map_nil, String.intercalate_singleton, String.toList_append, List.append_assoc]
      exact .string _ (spells_colon (hwrites hbreaks hrest))
  | (k, v) :: g :: rest, h, _ => by
    obtain ⟨text, htext, hwrites⟩ := h (k, v) List.mem_cons_self
    obtain ⟨others, hothers, hmore⟩ := renderFields_writes (fun u hu => h u (List.mem_cons_of_mem _ hu)) (List.cons_ne_nil g rest)
    obtain ⟨other, others, rfl⟩ := List.exists_cons_of_ne_nil (renderFields_cons hothers)
    refine ⟨(k, stringText (keyText k) ++ colonText style ++ text) :: other :: others, ?_, ?_⟩
    · rw [renderFields, htext, hothers]
      rfl
    · intro more rest' hbreaks hrest
      rw [fieldTokens]
      · have hnext := hmore hbreaks hrest
        rw [List.map_cons] at hnext
        simp only [List.map_cons, String.intercalate_cons_cons, String.toList_append, List.append_assoc, List.cons_append]
        exact .string _ (spells_colon (hwrites (Breaks.cons (show isBreak ',' = true by decide) _)
          (.mark rfl (spells_lineBreak level hnext))))
      · simp

end

/-- Every record has a text, and it spells the tokens of the record. -/
theorem render_writes {style : Style} (hstyle : style.sorted = false) (hα : Readable α) {v : Value α} (hv : v.IsRecord) :
    ∀ level, ∃ text, render style level v = .ok text ∧ Writes style (tokensOf v) text := by
  induction hv with
  | null => exact fun level => ⟨"null", rfl, writes_word (by rfl) (by simp) (by simp [isLetter])⟩
  | truth b =>
    intro level
    cases b
    · exact ⟨"false", rfl, writes_word (by rfl) (by simp) (by simp [isLetter])⟩
    · exact ⟨"true", rfl, writes_word (by rfl) (by simp) (by simp [isLetter])⟩
  | whole n =>
    obtain ⟨-, hne, hletters⟩ := numText_letters hα (.whole n)
    exact fun level => ⟨numText (.whole n), by rw [render], by rw [tokensOf]; exact writes_word rfl hne hletters⟩
  | @real x hfinite =>
    obtain ⟨-, hne, hletters⟩ := numText_letters hα (.real hfinite)
    exact fun level => ⟨numText (.real x), by rw [render], by rw [tokensOf]; exact writes_word rfl hne hletters⟩
  | text s =>
    intro level
    refine ⟨stringText s, by rw [render], ?_⟩
    rw [tokensOf]
    exact fun _ hrest => .string s hrest
  | @list items hitems ih =>
    intro level
    cases items with
    | nil => exact ⟨"[]", by rw [render], fun _ hrest => .mark rfl (.mark rfl hrest)⟩
    | cons v rest =>
      obtain ⟨inner, hinner, hwrites⟩ := renderItems_writes (fun w hw => ih w hw (level + 1)) (List.cons_ne_nil v rest)
      refine ⟨_, by rw [render, hinner]; rfl; simp, ?_⟩
      rw [tokensOf]
      exact hwrites.bracketed level '[' ']' rfl rfl (by decide) (by simp)
  | @object fields hnamed hdistinct hvalues ih =>
    intro level
    cases fields with
    | nil => exact ⟨"\x7b\x7d", by rw [render], fun _ hrest => .mark rfl (.mark rfl hrest)⟩
    | cons f rest =>
      obtain ⟨texts, htexts, hwrites⟩ := renderFields_writes (fun g hg => ih g hg (level + 1)) (List.cons_ne_nil f rest)
      refine ⟨_, by rw [render, htexts]; simp only [hstyle]; rfl; simp, ?_⟩
      rw [tokensOf]
      exact hwrites.bracketed level '\x7b' '\x7d' rfl rfl (by decide) (by simp)

/-! ## Reading -/

/-- Where a value may come next. -/
def Open (expect : Expect) : Prop := expect = .value ∨ expect = .firstItem

/-- From wherever a value may come, the tokens complete it. -/
def Completes (v : Value α) : Prop := ∀ {expect : Expect}, Open expect → ∀ (stack : List (Frame α))
  (result : Option (Value α)) (more : List Token),
    Reading.run ⟨expect, stack, result⟩ (tokensOf v ++ more) = (Reading.complete stack v).bind fun r => r.run more

theorem completes_word {v : Value α} {w : List Char} (htokens : tokensOf v = [.word w]) (hv : word? w = some v) :
    Completes v := by
  intro expect hopen stack result more
  rw [htokens, List.singleton_append, Reading.run]
  obtain rfl | rfl := hopen
  · simp only [Reading.step, hv, Option.bind_some]
  · simp only [Reading.step, hv, Option.bind_some]

theorem completes_text (s : String) : Completes (.text (α := α) s) := by
  intro expect hopen stack result more
  rw [tokensOf, List.singleton_append, Reading.run]
  obtain rfl | rfl := hopen <;> rfl

/-- The items of an open list, and its end. -/
theorem run_items : ∀ {items : List (Value α)}, (∀ v ∈ items, Completes v) → items ≠ [] → ∀ {expect : Expect}, Open expect →
    ∀ (read : List (Value α)) (stack : List (Frame α)) (result : Option (Value α)) (more : List Token),
      Reading.run ⟨expect, .array read :: stack, result⟩ (itemTokens items ++ .closeArray :: more) =
        (Reading.complete stack (.list (read.reverse ++ items))).bind fun r => r.run more
  | [], _, hne => absurd rfl hne
  | [v], h, _ => by
    intro hopen read stack result more
    rw [itemTokens, h v List.mem_cons_self hopen, Reading.complete, Option.bind_some, Reading.run]
    simp only [Reading.step, List.reverse_cons]
  | v :: w :: rest, h, _ => by
    intro hopen read stack result more
    rw [itemTokens, List.append_assoc, h v List.mem_cons_self hopen, Reading.complete, Option.bind_some, List.cons_append,
      Reading.run]
    · simp only [Reading.step, Option.bind_some]
      rw [run_items (fun u hu => h u (List.mem_cons_of_mem v hu)) (List.cons_ne_nil w rest) (.inl rfl), List.reverse_cons,
        List.append_assoc]
      rfl
    · simp

/-- A field of an open object: its name, the colon and its value. -/
theorem run_field {v : Value α} (hv : Completes v) (name : String) {expect : Expect}
    (hopen : expect = .firstName ∨ expect = .name) (read : List (Key α × Value α)) (stack : List (Frame α))
    (result : Option (Value α)) (more : List Token) :
    Reading.run ⟨expect, .object read :: stack, result⟩ (.string name :: .colon :: (tokensOf v ++ more)) =
      Reading.run ⟨.more, .object ((.text name, v) :: read) :: stack, none⟩ more := by
  have hname : Reading.step ⟨expect, .object read :: stack, result⟩ (.string name) =
      some ⟨.colon, .field read name :: stack, none⟩ := by
    obtain rfl | rfl := hopen <;> rfl
  have hcolon : Reading.step ⟨.colon, .field read name :: stack, none⟩ .colon =
      some ⟨.value, .field read name :: stack, none⟩ := rfl
  rw [Reading.run, hname, Option.bind_some, Reading.run, hcolon, Option.bind_some, hv (.inl rfl)]
  rfl

/-- The fields of an open object, and its end. -/
theorem run_fields : ∀ {fields : List (Key α × Value α)}, Object.Named fields → (∀ f ∈ fields, Completes f.2) → fields ≠ [] →
    ∀ {expect : Expect}, expect = .firstName ∨ expect = .name → ∀ (read : List (Key α × Value α)) (stack : List (Frame α))
      (result : Option (Value α)) (more : List Token),
        Reading.run ⟨expect, .object read :: stack, result⟩ (fieldTokens fields ++ .closeObject :: more) =
          (Reading.complete stack (.object (settleFields (fields.reverse ++ read)))).bind fun r => r.run more
  | [], _, _, hne => absurd rfl hne
  | [(k, v)], hnamed, h, _ => by
    obtain ⟨⟨name, rfl⟩, -⟩ := List.forall_mem_cons.1 hnamed
    intro hopen read stack result more
    rw [fieldTokens, List.cons_append, List.cons_append]
    refine (run_field (h _ List.mem_cons_self) name hopen read stack result _).trans ?_
    rw [Reading.run]
    rfl
  | (k, v) :: g :: rest, hnamed, h, _ => by
    obtain ⟨⟨name, rfl⟩, hothers⟩ := List.forall_mem_cons.1 hnamed
    obtain ⟨hv, hvalues⟩ := List.forall_mem_cons.1 h
    intro hopen read stack result more
    have hcomma : Reading.step ⟨.more, .object ((.text name, v) :: read) :: stack, none⟩ .comma =
        some ⟨.name, .object ((.text name, v) :: read) :: stack, none⟩ := rfl
    rw [fieldTokens, List.cons_append, List.cons_append, List.append_assoc]
    · refine (run_field hv name hopen read stack result _).trans ?_
      rw [List.cons_append, Reading.run, hcomma, Option.bind_some,
        run_fields hothers hvalues (List.cons_ne_nil g rest) (.inr rfl)]
      simp only [List.reverse_cons, List.append_assoc, List.singleton_append]
      rfl
    · simp

/-- The tokens of a record put it together. -/
theorem completes_record (hα : Readable α) {v : Value α} (hv : v.IsRecord) : Completes v := by
  induction hv with
  | null => exact completes_word rfl rfl
  | truth b => cases b <;> exact completes_word rfl rfl
  | whole n => exact completes_word (by rw [tokensOf]) (word?_number (numText_letters hα (.whole n)).1)
  | @real x hfinite => exact completes_word (by rw [tokensOf]) (word?_number (numText_letters hα (.real hfinite)).1)
  | text s => exact completes_text s
  | @list items hitems ih =>
    intro expect hopen stack result more
    have hstep : Reading.step ⟨expect, stack, result⟩ .openArray = some ⟨.firstItem, .array [] :: stack, none⟩ := by
      obtain rfl | rfl := hopen <;> rfl
    rw [tokensOf, List.cons_append, Reading.run, hstep, Option.bind_some, List.append_assoc]
    cases items with
    | nil => rfl
    | cons v rest => exact run_items ih (List.cons_ne_nil v rest) (.inr rfl) [] stack none more
  | @object fields hnamed hdistinct hvalues ih =>
    intro expect hopen stack result more
    have hstep : Reading.step ⟨expect, stack, result⟩ .openObject = some ⟨.firstName, .object [] :: stack, none⟩ := by
      obtain rfl | rfl := hopen <;> rfl
    have hsettle : settleFields fields.reverse = fields := by
      unfold settleFields
      rw [List.reverse_reverse, Object.ofPairs_distinct hnamed hdistinct]
    rw [tokensOf, List.cons_append, Reading.run, hstep, Option.bind_some, List.append_assoc]
    cases fields with
    | nil => rfl
    | cons f rest =>
      refine (run_fields hnamed ih (List.cons_ne_nil f rest) (.inl rfl) [] stack none more).trans ?_
      rw [List.append_nil, hsettle]

theorem run_tokensOf (hα : Readable α) {v : Value α} (hv : v.IsRecord) :
    Reading.run ⟨.value, [], none⟩ (tokensOf v) = some ⟨.done, [], some v⟩ := by
  have hrun := completes_record hα hv (.inl rfl) [] none []
  rwa [List.append_nil] at hrun

/-- A record has a text, which reads back as the record. -/
theorem read_render {style : Style} (hstyle : style.sorted = false) (hα : Readable α) {v : Value α} (hv : v.IsRecord)
    (level : Nat) : ∃ text, render style level v = .ok text ∧ Spells (gapsOf style) (tokensOf v) text.toList ∧
      read? text = some v := by
  obtain ⟨text, htext, hwrites⟩ := render_writes hstyle hα hv level
  have hspells := hwrites Breaks.nil .nil
  rw [List.append_nil, List.append_nil] at hspells
  refine ⟨text, htext, hspells, ?_⟩
  unfold read? tokens?
  rw [tokensFrom_spells isSpace_of_gap hspells, List.reverse_nil, List.nil_append]
  show (Reading.run ⟨.value, [], none⟩ (tokensOf v)).bind (·.result) = _
  rw [run_tokensOf hα hv]
  rfl

end StrategyLab.Json
