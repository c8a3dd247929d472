/-
Stages of a run. `Ensures` says of a stage, started from an optimizer in certain surroundings, that it
ends without a fault and what then holds; there is one rule for each way a stage goes on, so that a run
is followed step by step. A stage that fails leaves what it has done before; `Leads` says what holds
after the stage and what holds after a fault of it, by the same rules.
-/
import StrategyLab.Optimization.Run

namespace StrategyLab

namespace Stage

variable {ω α β γ : Type}

/-- From an optimizer and surroundings a stage ends without a fault, and what it gives, the optimizer
and the surroundings then have a property. -/
def Ensures (m : Stage (StateM ω) α β) (o : Optimizer α) (w : ω) (Q : β → Optimizer α → ω → Prop) : Prop :=
  ∃ b o' w', (m.run.run o).run w = ((.ok b, o'), w') ∧ Q b o' w'

theorem Ensures.pure {o : Optimizer α} {w : ω} {Q : β → Optimizer α → ω → Prop} {b : β} (h : Q b o w) :
    Ensures (Pure.pure b : Stage (StateM ω) α β) o w Q := ⟨b, o, w, rfl, h⟩

theorem Ensures.bind {m : Stage (StateM ω) α β} {f : β → Stage (StateM ω) α γ} {o : Optimizer α} {w : ω}
    {Q : β → Optimizer α → ω → Prop} {R : γ → Optimizer α → ω → Prop} (hm : Ensures m o w Q)
    (hf : ∀ b o' w', Q b o' w' → Ensures (f b) o' w' R) : Ensures (m >>= f) o w R := by
  obtain ⟨b, o', w', hrun, hb⟩ := hm
  obtain ⟨c, o'', w'', hrest, hc⟩ := hf b o' w' hb
  refine ⟨c, o'', w'', ?_, hc⟩
  change ((ExceptT.bindCont f ((m.run.run o).run w).1.1).run ((m.run.run o).run w).1.2).run ((m.run.run o).run w).2 = _
  rw [hrun]
  exact hrest

theorem Ensures.mono {m : Stage (StateM ω) α β} {o : Optimizer α} {w : ω} {Q R : β → Optimizer α → ω → Prop}
    (hm : Ensures m o w Q) (h : ∀ b o' w', Q b o' w' → R b o' w') : Ensures m o w R := by
  obtain ⟨b, o', w', hrun, hb⟩ := hm
  exact ⟨b, o', w', hrun, h b o' w' hb⟩

/-- A stage that ends without a fault does not need what catches faults. -/
theorem Ensures.caught {m : Stage (StateM ω) α β} {handle : Fault α → Stage (StateM ω) α β} {o : Optimizer α}
    {w : ω} {Q : β → Optimizer α → ω → Prop} (hm : Ensures m o w Q) : Ensures (tryCatch m handle) o w Q := by
  obtain ⟨b, o', w', hrun, hb⟩ := hm
  refine ⟨b, o', w', ?_, hb⟩
  have hrest : ∀ g : Except (Fault α) β → StateT (Optimizer α) (StateM ω) (Except (Fault α) β),
      ((m.run >>= g).run o).run w = ((g (.ok b)).run o').run w' := by
    intro g
    change ((g ((m.run.run o).run w).1.1).run ((m.run.run o).run w).1.2).run ((m.run.run o).run w).2 = _
    rw [hrun]
  change ((ExceptT.tryCatch m handle).run.run o).run w = _
  unfold ExceptT.tryCatch
  exact hrest _

/-! ## Going on from one step -/

variable {f : β → Stage (StateM ω) α γ} {o : Optimizer α} {w : ω} {R : γ → Optimizer α → ω → Prop}

theorem Ensures.get_bind {f : Optimizer α → Stage (StateM ω) α γ} (h : Ensures (f o) o w R) :
    Ensures (get >>= f) o w R :=
  Ensures.bind (Q := fun b o' w' => b = o ∧ o' = o ∧ w' = w) ⟨o, o, w, rfl, rfl, rfl, rfl⟩
    fun _ _ _ hQ => by obtain ⟨rfl, rfl, rfl⟩ := hQ; exact h

theorem Ensures.set_bind {f : PUnit → Stage (StateM ω) α γ} {next : Optimizer α} (h : Ensures (f ⟨⟩) next w R) :
    Ensures (set next >>= f) o w R :=
  Ensures.bind (Q := fun _ o' w' => o' = next ∧ w' = w) ⟨⟨⟩, next, w, rfl, rfl, rfl⟩
    fun _ _ _ hQ => by obtain ⟨rfl, rfl⟩ := hQ; exact h

theorem Ensures.modify_bind {f : PUnit → Stage (StateM ω) α γ} {g : Optimizer α → Optimizer α}
    (h : Ensures (f ⟨⟩) (g o) w R) : Ensures (modify g >>= f) o w R :=
  Ensures.bind (Q := fun _ o' w' => o' = g o ∧ w' = w) ⟨⟨⟩, g o, w, rfl, rfl, rfl⟩
    fun _ _ _ hQ => by obtain ⟨rfl, rfl⟩ := hQ; exact h

theorem Ensures.outside_bind {action : StateM ω β} (h : Ensures (f (action.run w).1) o (action.run w).2 R) :
    Ensures (Optimizer.outside action >>= f) o w R :=
  Ensures.bind (Q := fun b o' w' => b = (action.run w).1 ∧ o' = o ∧ w' = (action.run w).2)
    ⟨_, _, _, rfl, rfl, rfl, rfl⟩ fun _ _ _ hQ => by obtain ⟨rfl, rfl, rfl⟩ := hQ; exact h

theorem Ensures.attempting_bind {action : StateM ω (Except (Fault α) β)} {b : β} (hok : (action.run w).1 = .ok b)
    (h : Ensures (f b) o (action.run w).2 R) : Ensures (Optimizer.attempting action >>= f) o w R := by
  refine Ensures.bind (Q := fun b' o' w' => b' = b ∧ o' = o ∧ w' = (action.run w).2) ?_
    fun _ _ _ hQ => by obtain ⟨rfl, rfl, rfl⟩ := hQ; exact h
  unfold Optimizer.attempting
  refine .outside_bind ?_
  rw [hok]
  exact .pure ⟨rfl, rfl, rfl⟩

theorem Ensures.reading_bind {r : Except (ValueFault α) β} {b : β} (hok : r = .ok b) (h : Ensures (f b) o w R) :
    Ensures (Optimizer.reading r >>= f) o w R := by
  rw [hok]
  exact (Ensures.pure (Q := fun b' o' w' => b' = b ∧ o' = o ∧ w' = w) ⟨rfl, rfl, rfl⟩).bind
    fun _ _ _ hQ => by obtain ⟨rfl, rfl, rfl⟩ := hQ; exact h

theorem Ensures.given_bind {r : Except (Fault α) β} {b : β} (hok : r = .ok b) (h : Ensures (f b) o w R) :
    Ensures (Optimizer.given r >>= f) o w R := by
  rw [hok]
  exact (Ensures.pure (Q := fun b' o' w' => b' = b ∧ o' = o ∧ w' = w) ⟨rfl, rfl, rfl⟩).bind
    fun _ _ _ hQ => by obtain ⟨rfl, rfl, rfl⟩ := hQ; exact h

/-! ## Stages that may fail -/

/-- A stage, from an optimizer in some surroundings. -/
def execute (x : Stage (StateM ω) α β) (o : Optimizer α) (w : ω) : (Except (Fault α) β × Optimizer α) × ω :=
  (x.run.run o).run w

theorem execute_bind (x : Stage (StateM ω) α β) (f : β → Stage (StateM ω) α γ) (o : Optimizer α) (w : ω) :
    execute (x >>= f) o w =
      match execute x o w with
      | ((.ok b, o₁), w₁) => execute (f b) o₁ w₁
      | ((.error e, o₁), w₁) => ((.error e, o₁), w₁) := by
  change ((ExceptT.bindCont f (execute x o w).1.1).run (execute x o w).1.2).run (execute x o w).2 = _
  rcases execute x o w with ⟨⟨r, o₁⟩, w₁⟩
  cases r <;> rfl

theorem execute_tryCatch (x : Stage (StateM ω) α β) (handle : Fault α → Stage (StateM ω) α β) (o : Optimizer α) (w : ω) :
    execute (tryCatch x handle) o w =
      match execute x o w with
      | ((.ok b, o₁), w₁) => ((.ok b, o₁), w₁)
      | ((.error e, o₁), w₁) => execute (handle e) o₁ w₁ := by
  have hrest : ∀ g : Except (Fault α) β → StateT (Optimizer α) (StateM ω) (Except (Fault α) β),
      ((x.run >>= g).run o).run w = ((g (execute x o w).1.1).run (execute x o w).1.2).run (execute x o w).2 :=
    fun _ => rfl
  change ((ExceptT.tryCatch x handle).run.run o).run w = _
  unfold ExceptT.tryCatch
  refine (hrest _).trans ?_
  rcases execute x o w with ⟨⟨r, o₁⟩, w₁⟩
  cases r <;> rfl

theorem execute_get_bind (f : Optimizer α → Stage (StateM ω) α β) (o : Optimizer α) (w : ω) :
    execute (get >>= f) o w = execute (f o) o w := by
  rw [execute_bind]
  rfl

theorem execute_attempting (action : StateM ω (Except (Fault α) β)) (o : Optimizer α) (w : ω) :
    execute (Optimizer.attempting action) o w = (((action.run w).1, o), (action.run w).2) := by
  have houtside : execute (Optimizer.outside action : Stage (StateM ω) α _) o w =
      ((.ok (action.run w).1, o), (action.run w).2) := rfl
  unfold Optimizer.attempting
  rw [execute_bind, houtside]
  dsimp only
  cases (action.run w).1 <;> rfl

/-- From an optimizer and surroundings a stage leads to a property of what it gives, of the optimizer and of
the surroundings, or it fails and leads to one of its fault and of these. -/
def Leads (x : Stage (StateM ω) α β) (o : Optimizer α) (w : ω) (Q : β → Optimizer α → ω → Prop)
    (E : Fault α → Optimizer α → ω → Prop) : Prop :=
  match execute x o w with
  | ((.ok b, o'), w') => Q b o' w'
  | ((.error f, o'), w') => E f o' w'

section

variable {Q : β → Optimizer α → ω → Prop} {R : γ → Optimizer α → ω → Prop}
  {E : Fault α → Optimizer α → ω → Prop} {o : Optimizer α} {w : ω}

theorem Leads.pure {b : β} (h : Q b o w) : Leads (pure b) o w Q E := h

theorem Leads.bind {x : Stage (StateM ω) α β} {f : β → Stage (StateM ω) α γ} (hx : Leads x o w Q E)
    (hf : ∀ b o' w', Q b o' w' → Leads (f b) o' w' R E) : Leads (x >>= f) o w R E := by
  unfold Leads at hx ⊢
  rw [execute_bind]
  generalize execute x o w = p at hx ⊢
  obtain ⟨⟨r, o'⟩, w'⟩ := p
  cases r with
  | ok b => exact hf b o' w' hx
  | error f => exact hx

theorem Leads.mono {x : Stage (StateM ω) α β} {Q' : β → Optimizer α → ω → Prop} {E' : Fault α → Optimizer α → ω → Prop}
    (hx : Leads x o w Q E) (hQ : ∀ b o' w', Q b o' w' → Q' b o' w') (hE : ∀ f o' w', E f o' w' → E' f o' w') :
    Leads x o w Q' E' := by
  unfold Leads at hx ⊢
  generalize execute x o w = p at hx ⊢
  obtain ⟨⟨r, o'⟩, w'⟩ := p
  cases r with
  | ok b => exact hQ b o' w' hx
  | error f => exact hE f o' w' hx

theorem Leads.and {x : Stage (StateM ω) α β} {Q' : β → Optimizer α → ω → Prop} {E' : Fault α → Optimizer α → ω → Prop}
    (hx : Leads x o w Q E) (hx' : Leads x o w Q' E') :
    Leads x o w (fun b o' w' => Q b o' w' ∧ Q' b o' w') fun f o' w' => E f o' w' ∧ E' f o' w' := by
  unfold Leads at hx hx' ⊢
  generalize execute x o w = p at hx hx' ⊢
  obtain ⟨⟨r, o'⟩, w'⟩ := p
  cases r <;> exact ⟨hx, hx'⟩

/-- Every stage leads somewhere. -/
theorem Leads.any (x : Stage (StateM ω) α β) (o : Optimizer α) (w : ω) :
    Leads x o w (fun _ _ _ => True) fun _ _ _ => True := by
  unfold Leads
  split <;> trivial

/-- What holds of the surroundings after a stage, however it ends. -/
theorem Leads.either {x : Stage (StateM ω) α β} {P : ω → Prop} (hx : Leads x o w (fun _ _ w' => P w') fun _ _ w' => P w') :
    P (execute x o w).2 := by
  unfold Leads at hx
  generalize execute x o w = p at hx ⊢
  obtain ⟨⟨r, o'⟩, w'⟩ := p
  cases r <;> exact hx

theorem Leads.of_ok {x : Stage (StateM ω) α β} (hx : Leads x o w Q E) {b : β} (hb : (execute x o w).1.1 = .ok b) :
    Q b (execute x o w).1.2 (execute x o w).2 := by
  unfold Leads at hx
  generalize execute x o w = p at hb hx ⊢
  obtain ⟨⟨r, o'⟩, w'⟩ := p
  cases hb
  exact hx

/-- A stage with a handler of its faults. -/
theorem Leads.tryCatch {x : Stage (StateM ω) α β} {handle : Fault α → Stage (StateM ω) α β}
    {E' : Fault α → Optimizer α → ω → Prop} (hx : Leads x o w Q E) (hE : ∀ f o' w', E f o' w' → Leads (handle f) o' w' Q E') :
    Leads (tryCatch x handle) o w Q E' := by
  unfold Leads at hx ⊢
  rw [execute_tryCatch]
  generalize execute x o w = p at hx ⊢
  obtain ⟨⟨r, o'⟩, w'⟩ := p
  cases r with
  | ok b => exact hx
  | error f => exact hE f o' w' hx

theorem Leads.get_bind {f : Optimizer α → Stage (StateM ω) α γ} (h : Leads (f o) o w R E) :
    Leads (get >>= f) o w R E := by
  unfold Leads
  rw [execute_bind]
  exact h

theorem Leads.set_bind {f : PUnit → Stage (StateM ω) α γ} {next : Optimizer α} (h : Leads (f ⟨⟩) next w R E) :
    Leads (set next >>= f) o w R E := by
  unfold Leads
  rw [execute_bind]
  exact h

theorem Leads.modify_bind {f : PUnit → Stage (StateM ω) α γ} {g : Optimizer α → Optimizer α}
    (h : Leads (f ⟨⟩) (g o) w R E) : Leads (modify g >>= f) o w R E := by
  unfold Leads
  rw [execute_bind]
  exact h

theorem Leads.outside_bind {f : β → Stage (StateM ω) α γ} {action : StateM ω β}
    (h : Leads (f (action.run w).1) o (action.run w).2 R E) : Leads (Optimizer.outside action >>= f) o w R E := by
  unfold Leads
  rw [execute_bind]
  exact h

theorem Leads.attempting_bind {f : β → Stage (StateM ω) α γ} {action : StateM ω (Except (Fault α) β)}
    (hfails : ∀ e w', action.run w = (.error e, w') → E e o w')
    (h : ∀ b w', action.run w = (.ok b, w') → Leads (f b) o w' R E) : Leads (Optimizer.attempting action >>= f) o w R E := by
  unfold Leads at h ⊢
  rw [execute_bind, execute_attempting]
  rcases hrun : action.run w with ⟨r, w'⟩
  cases r with
  | ok b => exact h b w' hrun
  | error e => exact hfails e w' hrun

theorem Leads.reading_bind {f : β → Stage (StateM ω) α γ} {r : Except (ValueFault α) β}
    (hfails : ∀ cause, r = .error cause → E (.value cause) o w) (h : ∀ b, r = .ok b → Leads (f b) o w R E) :
    Leads (Optimizer.reading r >>= f) o w R E := by
  cases r with
  | ok b => exact h b rfl
  | error cause => exact hfails cause rfl

theorem Leads.given_bind {f : β → Stage (StateM ω) α γ} {r : Except (Fault α) β} (hfails : ∀ e, r = .error e → E e o w)
    (h : ∀ b, r = .ok b → Leads (f b) o w R E) : Leads (Optimizer.given r >>= f) o w R E := by
  cases r with
  | ok b => exact h b rfl
  | error e => exact hfails e rfl

end

end Stage

end StrategyLab
