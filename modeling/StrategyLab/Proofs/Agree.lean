/-
Computations that may fail: what is settled once one has given a result, and computations that go the
same way, so that both give results, which are related, or both fail, for reasons that are related.
-/
import Mathlib.Tactic

namespace StrategyLab

theorem bind_ok {ε β γ : Type} {x : Except ε β} {f : β → Except ε γ} {c : γ} (h : x >>= f = .ok c) :
    ∃ a, x = .ok a ∧ f a = .ok c := by
  cases x with
  | error e => cases h
  | ok a => exact ⟨a, rfl, h⟩

theorem bind_error {ε β γ : Type} {x : Except ε β} {f : β → Except ε γ} {e : ε} (h : x >>= f = .error e) :
    x = .error e ∨ ∃ a, x = .ok a ∧ f a = .error e := by
  cases x with
  | error e' =>
    cases h
    exact .inl rfl
  | ok a => exact .inr ⟨a, rfl, h⟩

theorem ok_of_toOption {ε β γ : Type} {x : Except ε β} {f : β → γ} {c : γ} (h : x.toOption.map f = some c) :
    ∃ a, x = .ok a ∧ f a = c := by
  cases x with
  | error e => cases h
  | ok a => exact ⟨a, rfl, Option.some.inj h⟩

variable {ε β γ δ β' γ' : Type} {E : ε → ε → Prop}

/-! ## Lists that were gone through -/

/-- Each item that was gone through has given one of the results. -/
theorem mapM_ok_mem {f : β → Except ε γ} {xs : List β} {ys : List γ} (h : xs.mapM f = .ok ys) :
    ∀ x ∈ xs, ∃ y ∈ ys, f x = .ok y := by
  induction xs generalizing ys with
  | nil => nofun
  | cons x rest ih =>
    rw [List.mapM_cons] at h
    obtain ⟨y, hy, h⟩ := bind_ok h
    obtain ⟨more, hmore, h⟩ := bind_ok h
    cases h
    intro z hz
    rcases List.mem_cons.1 hz with rfl | hz
    · exact ⟨y, List.mem_cons_self, hy⟩
    · obtain ⟨w, hw, hfz⟩ := ih hmore z hz
      exact ⟨w, List.mem_cons_of_mem y hw, hfz⟩

/-- Each result comes from one of the items. -/
theorem mem_of_mapM {f : β → Except ε γ} {xs : List β} {ys : List γ} (h : xs.mapM f = .ok ys) {y : γ}
    (hy : y ∈ ys) : ∃ x ∈ xs, f x = .ok y := by
  induction xs generalizing ys with
  | nil =>
    cases h
    cases hy
  | cons x rest ih =>
    rw [List.mapM_cons] at h
    obtain ⟨z, hz, h⟩ := bind_ok h
    obtain ⟨more, hmore, h⟩ := bind_ok h
    cases h
    rcases List.mem_cons.1 hy with rfl | hy
    · exact ⟨x, List.mem_cons_self, hz⟩
    · obtain ⟨w, hw, hfw⟩ := ih hmore hy
      exact ⟨w, List.mem_cons_of_mem x hw, hfw⟩

/-- Items that give the results one by one give them when gone through. -/
theorem mapM_of_forall₂ {f : β → Except ε γ} {xs : List β} {ys : List γ}
    (h : List.Forall₂ (fun x y => f x = .ok y) xs ys) : xs.mapM f = .ok ys := by
  induction h with
  | nil => rfl
  | cons hx _ ih =>
    rw [List.mapM_cons, hx, ih]
    rfl

/-- Items of which each gives a result give all results when gone through. -/
theorem mapM_ok {f : β → Except ε γ} {g : β → γ} {xs : List β} (h : ∀ x ∈ xs, f x = .ok (g x)) :
    xs.mapM f = .ok (xs.map g) :=
  mapM_of_forall₂ (List.forall₂_map_right_iff.2 (List.forall₂_same.2 h))

/-- Items that were gone through, each beside what it gives. -/
theorem mapM_beside {f : β → Except ε γ} {g : β → γ} {xs : List β} (h : ∀ x ∈ xs, f x = .ok (g x)) :
    (xs.mapM fun x => do
      let y ← f x
      pure (x, y)) = Except.ok (xs.map fun x => (x, g x)) := by
  refine mapM_ok fun x hx => ?_
  rw [h x hx]
  rfl

theorem fst_of_mapM_beside {f : β → Except ε γ} {xs : List β} {ys : List (β × γ)} (h : (xs.mapM fun x => do
    let y ← f x
    pure (x, y)) = Except.ok ys) : ys.map (·.1) = xs := by
  induction xs generalizing ys with
  | nil =>
    cases h
    rfl
  | cons x rest ih =>
    rw [List.mapM_cons] at h
    obtain ⟨first, hfirst, h⟩ := bind_ok h
    obtain ⟨more, hmore, h⟩ := bind_ok h
    obtain ⟨y, -, hfirst⟩ := bind_ok hfirst
    cases h
    cases hfirst
    rw [List.map_cons, ih hmore]

theorem map_eq_of_forall₂ {R : β → γ → Prop} {f : β → δ} {g : γ → δ} {xs : List β} {ys : List γ}
    (h : List.Forall₂ R xs ys) (hfg : ∀ x y, R x y → f x = g y) : xs.map f = ys.map g := by
  rw [← List.forall₂_eq_eq_eq, List.forall₂_map_left_iff, List.forall₂_map_right_iff]
  exact h.imp hfg

/-- The first largest of several items is one of them. -/
theorem foldl_larger_mem [LT γ] [DecidableRel fun x y : γ => x < y] (first : β × γ) (rest : List (β × γ)) :
    rest.foldl (fun best x => if best.2 < x.2 then x else best) first ∈ first :: rest := by
  induction rest generalizing first with
  | nil => exact List.mem_singleton_self first
  | cons x rest ih =>
    rw [List.foldl_cons]
    split
    · exact List.mem_cons_of_mem _ (ih x)
    · rcases List.mem_cons.1 (ih first) with h | h
      · rw [h]
        exact List.mem_cons_self
      · exact List.mem_cons_of_mem _ (List.mem_cons_of_mem _ h)

/-- A fold keeps what each of its steps keeps. -/
theorem foldlM_keeps {I : β → Prop} {f : β → γ → Except ε β} : ∀ {xs : List γ} {b b' : β},
    (∀ x ∈ xs, ∀ b b', I b → f b x = .ok b' → I b') → I b → xs.foldlM f b = .ok b' → I b'
  | [], b, b', _, hb, h => by cases h; exact hb
  | x :: rest, b, b', hf, hb, h => by
    rw [List.foldlM_cons] at h
    obtain ⟨b₁, h₁, h⟩ := bind_ok h
    exact foldlM_keeps (fun y hy => hf y (List.mem_cons_of_mem x hy)) (hf x List.mem_cons_self b b₁ hb h₁) h

/-! ## Computations that agree -/

/-- Two computations go the same way. -/
inductive Agree (E : ε → ε → Prop) (R : β → γ → Prop) : Except ε β → Except ε γ → Prop
  | ok {a : β} {b : γ} (h : R a b) : Agree E R (.ok a) (.ok b)
  | error {e f : ε} (h : E e f) : Agree E R (.error e) (.error f)

/-- Any two reasons to fail. -/
def anyCause (_ _ : ε) : Prop := True

namespace Agree

variable {R : β → γ → Prop} {S : β' → γ' → Prop}

theorem of_eq {x y : Except ε β} (hE : ∀ e, E e e) (h : x = y) : Agree E Eq x y := by
  subst h
  cases x with
  | ok a => exact .ok rfl
  | error e => exact .error (hE e)

theorem mono {E' : ε → ε → Prop} {R' : β → γ → Prop} {x : Except ε β} {y : Except ε γ} (h : Agree E R x y)
    (hE : ∀ e f, E e f → E' e f) (hR : ∀ a b, R a b → R' a b) : Agree E' R' x y := by
  cases h with
  | ok h => exact .ok (hR _ _ h)
  | error h => exact .error (hE _ _ h)

theorem and {P : β → Prop} {x : Except ε β} {y : Except ε γ} (h : Agree E R x y) (hP : ∀ a, x = .ok a → P a) :
    Agree E (fun a b => R a b ∧ P a) x y := by
  cases h with
  | ok h => exact .ok ⟨h, hP _ rfl⟩
  | error h => exact .error h

theorem bind {x : Except ε β} {y : Except ε γ} {f : β → Except ε β'} {g : γ → Except ε γ'} (h : Agree E R x y)
    (hfg : ∀ a b, R a b → Agree E S (f a) (g b)) : Agree E S (x >>= f) (y >>= g) := by
  cases h with
  | ok h => exact hfg _ _ h
  | error h => exact .error h

/-- Both computations go on with one result. -/
theorem bind_eq {x y : Except ε β} {f : β → Except ε β'} {g : β → Except ε γ'} (h : Agree E Eq x y)
    (hfg : ∀ a, Agree E S (f a) (g a)) : Agree E S (x >>= f) (y >>= g) :=
  h.bind fun a _ hab => hab ▸ hfg a

theorem trans {T : γ → δ → Prop} {U : β → δ → Prop} {x : Except ε β} {y : Except ε γ} {z : Except ε δ}
    (h : Agree E R x y) (h' : Agree E T y z) (hE : ∀ e f g, E e f → E f g → E e g)
    (hU : ∀ a b c, R a b → T b c → U a c) : Agree E U x z := by
  cases h with
  | ok h => cases h' with
    | ok h' => exact .ok (hU _ _ _ h h')
  | error h => cases h' with
    | error h' => exact .error (hE _ _ _ h h')

theorem symm_eq {x y : Except ε β} (h : Agree anyCause Eq x y) : Agree anyCause Eq y x := by
  cases h with
  | ok h => exact .ok h.symm
  | error _ => exact .error trivial

/-- Item by item. -/
theorem mapM {f : β → Except ε β'} {g : γ → Except ε γ'} {xs : List β} {ys : List γ} (h : List.Forall₂ R xs ys)
    (hfg : ∀ x ∈ xs, ∀ y, R x y → Agree E S (f x) (g y)) : Agree E (List.Forall₂ S) (xs.mapM f) (ys.mapM g) := by
  induction h with
  | nil => exact .ok .nil
  | @cons x y xs ys hxy _ ih =>
    rw [List.mapM_cons, List.mapM_cons]
    refine (hfg x List.mem_cons_self y hxy).bind fun a b hab => ?_
    refine (ih fun z hz => hfg z (List.mem_cons_of_mem _ hz)).bind fun as bs habs => ?_
    exact .ok (.cons hab habs)

/-- Step by step. -/
theorem foldlM {f : β → δ → Except ε β} {g : γ → δ → Except ε γ} (hfg : ∀ a b x, R a b → Agree E R (f a x) (g b x)) :
    ∀ (xs : List δ) {a : β} {b : γ}, R a b → Agree E R (xs.foldlM f a) (xs.foldlM g b)
  | [], _, _, h => .ok h
  | x :: xs, a, b, h => by
    rw [List.foldlM_cons, List.foldlM_cons]
    exact (hfg a b x h).bind fun a b h => foldlM hfg xs h

end Agree

/-! ## Filtered lists -/

theorem filterMapM_step (f : β → Except ε (Option γ)) (x : β) (xs : List β) :
    (x :: xs).filterMapM f = f x >>= fun b => xs.filterMapM f >>= fun bs => pure (b.toList ++ bs) := by
  rw [List.filterMapM_cons]
  cases f x with
  | error e => rfl
  | ok b =>
    cases b with
    | some b => rfl
    | none => cases xs.filterMapM f <;> rfl

/-- Each result that is kept comes from one of the items. -/
theorem mem_of_filterMapM {f : β → Except ε (Option γ)} {xs : List β} {ys : List γ}
    (h : xs.filterMapM f = .ok ys) {y : γ} (hy : y ∈ ys) : ∃ x ∈ xs, f x = .ok (some y) := by
  induction xs generalizing ys with
  | nil =>
    cases h
    cases hy
  | cons x rest ih =>
    rw [filterMapM_step] at h
    obtain ⟨kept, hkept, h⟩ := bind_ok h
    obtain ⟨more, hmore, h⟩ := bind_ok h
    cases h
    rcases List.mem_append.1 hy with hy | hy
    · obtain rfl := Option.mem_toList.1 hy
      exact ⟨x, List.mem_cons_self, hkept⟩
    · obtain ⟨w, hw, hfw⟩ := ih hmore hy
      exact ⟨w, List.mem_cons_of_mem x hw, hfw⟩

/-- Items of which each is decided are filtered. -/
theorem filterMapM_total {f : β → Except ε (Option γ)} {xs : List β} (h : ∀ x ∈ xs, ∃ b, f x = .ok b) :
    ∃ ys, xs.filterMapM f = .ok ys := by
  induction xs with
  | nil => exact ⟨[], rfl⟩
  | cons x rest ih =>
    obtain ⟨⟨b, hb⟩, hrest⟩ := List.forall_mem_cons.1 h
    obtain ⟨ys, hys⟩ := ih hrest
    rw [filterMapM_step, hb, hys]
    exact ⟨_, rfl⟩

/-- What is kept beside its name comes in the order of the names. -/
theorem filterMapM_names {f : δ → Except ε (Option (δ × γ))} (hf : ∀ x b, f x = .ok (some b) → b.1 = x) :
    ∀ {xs : List δ} {bs : List (δ × γ)}, xs.filterMapM f = .ok bs → (bs.map (·.1)).Sublist xs
  | [], bs, h => by cases h; exact .slnil
  | x :: xs, bs, h => by
    rw [filterMapM_step] at h
    cases hx : f x with
    | error e => rw [hx] at h; cases h
    | ok b =>
      rw [hx] at h
      cases hxs : xs.filterMapM f with
      | error e => rw [hxs] at h; cases h
      | ok cs =>
        rw [hxs] at h
        cases h
        have hrest := filterMapM_names hf hxs
        cases b with
        | none => exact hrest.cons x
        | some b =>
          rw [Option.toList_some, List.singleton_append, List.map_cons, hf x b hx]
          exact hrest.cons_cons x

namespace Agree

theorem filterMapM_congr {f g : β → Except ε (Option γ)} (h : ∀ x, Agree E Eq (f x) (g x)) :
    ∀ xs : List β, Agree E Eq (xs.filterMapM f) (xs.filterMapM g)
  | [] => .ok rfl
  | x :: xs => by
    rw [filterMapM_step, filterMapM_step]
    exact (h x).bind_eq fun b => (filterMapM_congr h xs).bind_eq fun bs => .ok rfl

/-- A filtered list does not depend on the order, nor does whether there is one. -/
theorem filterMapM_perm (f : β → Except ε (Option γ)) {xs ys : List β} (h : xs.Perm ys) :
    Agree anyCause List.Perm (xs.filterMapM f) (ys.filterMapM f) := by
  have hrefl : ∀ xs : List β, Agree anyCause List.Perm (xs.filterMapM f) (xs.filterMapM f) := fun xs =>
    (Agree.of_eq (fun _ => trivial) rfl).mono (fun _ _ h => h) fun _ _ h => h ▸ .refl _
  induction h with
  | nil => exact hrefl []
  | cons x _ ih =>
    rw [filterMapM_step, filterMapM_step]
    refine Agree.bind_eq (.of_eq (fun _ => trivial) rfl) fun b => ih.bind fun bs cs hbs => .ok ?_
    exact hbs.append_left _
  | swap x y xs =>
    rw [filterMapM_step, filterMapM_step, filterMapM_step, filterMapM_step]
    cases f x with
    | error e => cases f y <;> exact .error trivial
    | ok b =>
      cases f y with
      | error e => exact .error trivial
      | ok c =>
        cases xs.filterMapM f with
        | error e => exact .error trivial
        | ok bs => exact .ok (List.perm_append_comm_assoc ..)
  | trans _ _ ih ih' => exact ih.trans ih' (fun _ _ _ _ _ => trivial) fun _ _ _ h h' => h.trans h'

end Agree

end StrategyLab

/-! ## Look-ups

Look-ups by names that are distinct. They do not see the order (`lookup_perm`), and what they find
tells the fields apart from their order (`perm_of_lookup`). -/

namespace StrategyLab

variable {β : Type}

theorem mem_of_lookup {name : String} {x : β} {fields : List (String × β)} (h : fields.lookup name = some x) :
    (name, x) ∈ fields := by
  obtain ⟨before, after, rfl, -⟩ := List.lookup_eq_some_iff.1 h
  exact List.mem_append_right _ List.mem_cons_self

theorem lookup_of_mem {name : String} {x : β} : ∀ {fields : List (String × β)}, (fields.map (·.1)).Nodup →
    (name, x) ∈ fields → fields.lookup name = some x
  | (n, y) :: rest, hdistinct, h => by
    obtain ⟨hfresh, hrest⟩ := List.nodup_cons.1 hdistinct
    rcases List.mem_cons.1 h with heq | hmem
    · cases heq
      exact List.lookup_cons_self
    · have hne : name ≠ n := fun heq => hfresh (heq ▸ List.mem_map.2 ⟨_, hmem, rfl⟩)
      rw [List.lookup_cons, beq_eq_false_iff_ne.2 hne]
      exact lookup_of_mem hrest hmem

/-- A field that is dropped is not found any more. -/
theorem lookup_dropped (fields : List (String × β)) (dropped name : String) :
    (fields.filter fun f => f.1 != dropped).lookup name = if name = dropped then none else fields.lookup name := by
  induction fields with
  | nil => simp
  | cons f rest ih =>
    obtain ⟨key, x⟩ := f
    by_cases hkey : key = dropped
    · rw [List.filter_cons_of_neg (by simp [hkey]), ih, List.lookup_cons, hkey]
      split
      · rfl
      · rename_i hne
        rw [beq_eq_false_iff_ne.2 hne]
    · rw [List.filter_cons_of_pos (by simp [hkey]), List.lookup_cons, ih, List.lookup_cons]
      by_cases hname : name = dropped
      · rw [beq_eq_false_iff_ne.2 (by rw [hname]; exact Ne.symm hkey)]
      · rw [if_neg hname, if_neg hname]

/-- Under distinct names a look-up does not see the order. -/
theorem lookup_perm {xs ys : List (String × β)} (h : xs.Perm ys) (hdistinct : (xs.map (·.1)).Nodup) (name : String) :
    xs.lookup name = ys.lookup name := by
  have hdistinct' := (h.map (·.1)).nodup_iff.1 hdistinct
  refine Option.ext fun x => ⟨fun hx => ?_, fun hx => ?_⟩
  · exact lookup_of_mem hdistinct' (h.mem_iff.1 (mem_of_lookup hx))
  · exact lookup_of_mem hdistinct (h.mem_iff.2 (mem_of_lookup hx))

/-- Fields under distinct names that give the same look-ups are the same fields. -/
theorem perm_of_lookup {xs ys : List (String × β)} (hxs : (xs.map (·.1)).Nodup) (hys : (ys.map (·.1)).Nodup)
    (h : ∀ name, xs.lookup name = ys.lookup name) : xs.Perm ys := by
  refine (List.perm_ext_iff_of_nodup hxs.of_map hys.of_map).2 fun ⟨name, x⟩ => ⟨fun hx => ?_, fun hx => ?_⟩
  · exact mem_of_lookup ((h name).symm.trans (lookup_of_mem hxs hx))
  · exact mem_of_lookup ((h name).trans (lookup_of_mem hys hx))

end StrategyLab
