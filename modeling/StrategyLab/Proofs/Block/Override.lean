/-
Strategies that JSON text cannot tell apart, with parameters overriding their params. Overriding keeps
blocks alike (`overrideBlocks_alike`).
-/
import StrategyLab.Proofs.Value.Alike
import StrategyLab.Search.Assignment

namespace StrategyLab

variable {α : Type} [Scalar α]

/-! ## Overriding fields -/

namespace Value

theorem asKey_alike {v w : Value α} (h : v.Alike w) : Agree anyCause Eq v.asKey w.asKey := by
  rcases h.cases with rfl | ⟨xs, ys, hv, hw, -⟩ | ⟨fs, gs, rfl, rfl⟩
  · exact .of_eq (fun _ => trivial) rfl
  · cases hv <;> cases hw <;> exact .error trivial
  · exact .error trivial

/-- Items of values that are alike, except that objects are gone through by their keys. -/
theorem items_alike {v w : Value α} (h : v.Alike w) (hv : v.fields? = none) :
    Agree anyCause (fun xs ys => xs.map canonical = ys.map canonical) v.items w.items := by
  rcases h.cases with rfl | ⟨xs, ys, hv, hw, hitems⟩ | ⟨fs, gs, rfl, rfl⟩
  · exact (Agree.of_eq (fun _ => trivial) rfl).mono (fun _ _ h => h) fun _ _ h => h ▸ rfl
  · cases hv <;> cases hw <;> exact .ok hitems
  · cases hv

/-- Values that are alike, whose items are no objects. -/
theorem pairsFrom_alike : ∀ {xs ys : List (Value α)} (position : Nat), xs.map canonical = ys.map canonical →
    (∀ v ∈ xs, v.fields? = none) →
      Agree anyCause (fun fs gs => Object.told fs = Object.told gs) (pairsFrom position xs) (pairsFrom position ys)
  | [], ys, position, h, _ => by
    obtain rfl := List.map_eq_nil_iff.1 h.symm
    exact .ok rfl
  | v :: xs, ys, position, h, hitems => by
    obtain ⟨w, ys, rfl, hw, hrest⟩ := List.map_eq_cons_iff.1 h.symm
    have hhead := items_alike (show v.Alike w from hw.symm) (hitems v List.mem_cons_self)
    have htail := pairsFrom_alike (position + 1) hrest.symm fun u hu => hitems u (List.mem_cons_of_mem _ hu)
    generalize hx : v.items = x at hhead
    generalize hy : w.items = y at hhead
    cases hhead with
    | error _ =>
      simp only [pairsFrom, hx, hy]
      exact .error trivial
    | @ok ks ls hsame =>
      simp only [pairsFrom, hx, hy]
      have hlength : ks.length = ls.length := by simpa using congrArg List.length hsame
      match ks, ls, hlength, hsame with
      | [k, x], [l, y], _, hsame =>
        simp only [List.map_cons, List.map_nil, List.cons.injEq, and_true] at hsame
        refine (asKey_alike hsame.1).bind_eq fun key => htail.bind fun fs gs htold => .ok ?_
        show (key, x.canonical) :: Object.told fs = (key, y.canonical) :: Object.told gs
        rw [hsame.2, htold]
      | [], [], _, _ => exact .error trivial
      | [_], [_], _, _ => exact .error trivial
      | _ :: _ :: _ :: _, _ :: _ :: _ :: _, _, _ => exact .error trivial

/-- A value whose items are no objects, so that they have an order of their own. -/
def Ordered (v : Value α) : Prop := ∀ items, Lists v items → ∀ item ∈ items, item.fields? = none

/-- Overriding fields given as an object or as pairs. -/
theorem toObject_alike {v w : Value α} (h : v.Alike w) (hv : v.Plain) (hordered : v.Ordered) :
    Agree anyCause (fun fs gs => Object.Alike fs.reverse gs.reverse) v.toObject w.toObject := by
  have htold : ∀ {fs gs : Object α}, Object.told fs = Object.told gs → Object.Alike fs.reverse gs.reverse := by
    intro fs gs htold
    refine .of_told ?_
    unfold Object.told at htold ⊢
    rw [List.map_reverse, List.map_reverse, htold]
  have hpairs : ∀ {xs ys : List (Value α)}, xs.map canonical = ys.map canonical → (∀ v ∈ xs, v.fields? = none) →
      Agree anyCause (fun fs gs => Object.Alike fs.reverse gs.reverse)
        (do let pairs ← pairsFrom 0 xs; pure (Object.ofPairs pairs))
        (do let pairs ← pairsFrom 0 ys; pure (Object.ofPairs pairs)) := fun hsame hitems =>
    (pairsFrom_alike 0 hsame hitems).bind fun fs gs hfields => .ok <| htold <| by
      unfold Object.ofPairs
      rw [Object.merge_told, Object.merge_told, hfields]
  rcases h.cases with rfl | ⟨xs, ys, hxs, hys, hsame⟩ | ⟨fs, gs, rfl, rfl⟩
  · exact (Agree.of_eq (fun _ => trivial) rfl).mono (fun _ _ h => h) fun _ _ h => h ▸ htold rfl
  · have hitems := hordered xs hxs
    cases hxs <;> cases hys <;> exact hpairs hsame hitems
  · refine .ok (.of_perm (hv.perm (List.reverse_perm fs).symm) ?_)
    exact ((List.reverse_perm fs).map _).trans ((Object.told_perm h).trans ((List.reverse_perm gs).map _).symm)

theorem isPresent_alike {v w : Value α} (h : v.Alike w) : v.isPresent = w.isPresent := by
  rcases h.cases with rfl | ⟨xs, ys, hv, hw, hsame⟩ | ⟨fs, gs, rfl, rfl⟩
  · rfl
  · have hempty : xs.isEmpty = ys.isEmpty := by
      rw [← List.isEmpty_map (l := xs), hsame, List.isEmpty_map]
    cases hv <;> cases hw <;> simp only [isPresent, hempty]
  · have hempty := (Object.told_perm h).isEmpty_eq
    unfold Object.told at hempty
    rw [List.isEmpty_map, List.isEmpty_map] at hempty
    simp only [isPresent, hempty]

end Value

/-! ## Blocks -/

namespace Block

/-- Blocks that JSON text cannot tell apart. -/
structure Alike (b b' : Block α) : Prop where
  id : b.id = b'.id
  kind : b.kind = b'.kind
  category : b.category = b'.category
  label : b.label = b'.label
  params : Object.Alike b.params b'.params

theorem Alike.refl (b : Block α) : b.Alike b := ⟨rfl, rfl, rfl, rfl, fun _ => rfl⟩

theorem Alike.withParams {b b' : Block α} (h : b.Alike b') {overrides overrides' : Object α}
    (hover : Object.Alike overrides.reverse overrides'.reverse) :
    (b.withParams overrides).Alike (b'.withParams overrides') :=
  ⟨h.id, h.kind, h.category, h.label, h.params.merge hover⟩

end Block

namespace Assignment

theorem overrideBlock_object (ps : Object α) (b : Block α) : overrideBlock (.object ps) b =
    ((Object.get? ps b.id).filter Value.isPresent).elim (.ok b)
      (fun own => own.toObject >>= fun overrides => pure (b.withParams overrides)) := by
  unfold overrideBlock
  simp only [Value.asObject, bind, Except.bind]
  cases (Object.get? ps b.id).filter Value.isPresent <;> rfl

theorem overrideBlock_alike {ps ps' : Object α} (hps : (Value.object ps).Plain) (hps' : Object.Alike ps ps')
    {b b' : Block α} (hb : b.Alike b') (hordered : ∀ own, Object.get? ps b.id = some own → own.Ordered) :
    Agree anyCause Block.Alike (overrideBlock (.object ps) b) (overrideBlock (.object ps') b') := by
  have hfields : (Object.get? ps b.id).map Value.canonical = (Object.get? ps' b.id).map Value.canonical := by
    rw [← Object.get?_told, ← Object.get?_told]
    exact hps' b.id
  rw [overrideBlock_object, overrideBlock_object, ← hb.id]
  generalize hown : Object.get? ps b.id = own at hfields hordered
  generalize hown' : Object.get? ps' b.id = own' at hfields
  cases own with
  | none =>
    obtain rfl : own' = none := by simpa using hfields.symm
    exact .ok hb
  | some own =>
    cases own' with
    | none => cases hfields
    | some own' =>
      have halike : own.Alike own' := Option.some.inj hfields
      have hplain : own.Plain := by
        cases hps with
        | object _ _ hvalues => exact hvalues _ (Object.mem_of_get? hown)
      have hpresent := Value.isPresent_alike halike
      cases h : own.isPresent with
      | false =>
        rw [Option.filter_some_neg (by simp [h]), Option.filter_some_neg (by simp [← hpresent, h])]
        exact .ok hb
      | true =>
        rw [Option.filter_some_pos h, Option.filter_some_pos (hpresent.symm.trans h)]
        exact (Value.toObject_alike halike hplain (hordered own rfl)).bind fun fs gs hfs => .ok (hb.withParams hfs)

theorem overrideBlocks_alike {ps ps' : Object α} (hps : (Value.object ps).Plain) (hps' : Object.Alike ps ps')
    {bs bs' : List (Block α)} (hbs : List.Forall₂ Block.Alike bs bs')
    (hordered : ∀ b ∈ bs, ∀ own, Object.get? ps b.id = some own → own.Ordered) :
    Agree anyCause (List.Forall₂ Block.Alike) (overrideBlocks (.object ps) bs) (overrideBlocks (.object ps') bs') :=
  Agree.mapM hbs fun b hb _ hbb' => overrideBlock_alike hps hps' hbb' (hordered b hb)

end Assignment

end StrategyLab
