/-
The operations on an account, and what all of them keep, over any scalars: tokens, positions and
trades are numbered and named without repetition (`WF`), and the log of trades only grows.

`Becomes admits` holds of two accounts when some operations lead from the first to the second and
open only the positions that `admits` allows; `Reachable` accounts come from an opened one.
-/
import Mathlib.Tactic
import StrategyLab.Ledger.Account

namespace StrategyLab

/-! ## Names -/

theorem Decimal.natText_injective : Function.Injective Decimal.natText := by
  intro m n h
  have hd : Nat.toDigits 10 m = Nat.toDigits 10 n := String.ofList_injective h
  rw [← Nat.ofDigitChars_ten_toDigits (n := m), hd, Nat.ofDigitChars_ten_toDigits]

theorem Position.idOf_injective : Function.Injective Position.idOf := fun _ _ h =>
  Decimal.natText_injective (String.append_right_inj _ |>.1 h)

namespace Ledger

variable {α : Type} [Scalar α]

/-! ## Operations -/

/-- One operation that an account does not refuse. Only positions that `admits` allows are opened. -/
inductive Operates (admits : NewPosition α → Prop) : Ledger α → Ledger α → Prop where
  | credit {l l' : Ledger α} {token : String} {amount : Num α} :
      l.credit token amount = .ok l' → Operates admits l l'
  | debit {l l' : Ledger α} {token : String} {amount : Num α} :
      l.debit token amount = .ok l' → Operates admits l l'
  | opened (l : Ledger α) (p : NewPosition α) : admits p → Operates admits l (l.openPosition p)
  | closed {l l' : Ledger α} {id : String} {p : Position α} :
      l.closePosition id = .ok (p, l') → Operates admits l l'
  | reduced {l l' : Ledger α} {id : String} {amount : Num α} {p : Position α} :
      l.reducePosition id amount = .ok (p, l') → Operates admits l l'
  | accrued (l : Ledger α) (days : Num α) : Operates admits l (l.accrueInterest days).2
  | recorded (l : Ledger α) (t : NewTrade α) : Operates admits l (l.recordTrade t)

/-- Any number of operations, one after the other. -/
def Becomes (admits : NewPosition α → Prop) : Ledger α → Ledger α → Prop :=
  Relation.ReflTransGen (Operates admits)

/-- The accounts that operations lead to from an account that was opened. -/
def Reachable (l : Ledger α) : Prop :=
  ∃ capital base l₀, start capital base = .ok l₀ ∧ Becomes (fun _ => True) l₀ l

theorem Becomes.refl {admits : NewPosition α → Prop} (l : Ledger α) : Becomes admits l l :=
  Relation.ReflTransGen.refl

theorem Becomes.trans {admits : NewPosition α → Prop} {a b c : Ledger α} (h₁ : Becomes admits a b)
    (h₂ : Becomes admits b c) : Becomes admits a c :=
  Relation.ReflTransGen.trans h₁ h₂

theorem Operates.becomes {admits : NewPosition α → Prop} {a b : Ledger α} (h : Operates admits a b) :
    Becomes admits a b :=
  Relation.ReflTransGen.single h

theorem Operates.mono {admits admits' : NewPosition α → Prop} (hle : ∀ p, admits p → admits' p)
    {a b : Ledger α} (h : Operates admits a b) : Operates admits' a b := by
  cases h with
  | credit h => exact .credit h
  | debit h => exact .debit h
  | opened p hp => exact .opened _ p (hle p hp)
  | closed h => exact .closed h
  | reduced h => exact .reduced h
  | accrued days => exact .accrued _ days
  | recorded t => exact .recorded _ t

theorem Becomes.mono {admits admits' : NewPosition α → Prop} (hle : ∀ p, admits p → admits' p)
    {a b : Ledger α} (h : Becomes admits a b) : Becomes admits' a b :=
  Relation.ReflTransGen.mono (fun _ _ => Operates.mono hle) a b h

/-- What every operation keeps holds after any number of them. -/
theorem Becomes.keeps {admits : NewPosition α → Prop} {P : Ledger α → Prop}
    (hstep : ∀ a b, Operates admits a b → P a → P b) {a b : Ledger α} (h : Becomes admits a b) (ha : P a) :
    P b := by
  induction h with
  | refl => exact ha
  | tail _ hs ih => exact hstep _ _ hs ih

theorem start_reachable {capital : Num α} {base : String} {l : Ledger α} (h : start capital base = .ok l) :
    l.Reachable :=
  ⟨capital, base, l, h, .refl l⟩

theorem Reachable.becomes {admits : NewPosition α → Prop} {l l' : Ledger α} (hr : l.Reachable)
    (h : Becomes admits l l') : l'.Reachable := by
  obtain ⟨capital, base, l₀, h₀, hl⟩ := hr
  exact ⟨capital, base, l₀, h₀, hl.trans (h.mono fun _ _ => trivial)⟩

/-! ## What each operation does -/

theorem credit_ok {l l' : Ledger α} {token : String} {amount : Num α} (h : l.credit token amount = .ok l') :
    ∃ x, amount.value? = some x ∧ amount.isLess (.whole 0) = false ∧
      l' = l.withBalance token (l.balance token + x) := by
  unfold credit at h
  split at h
  · cases h
  · rename_i hneg
    cases hv : amount.value? with
    | none => simp [scalarOf, hv, bind, Except.bind] at h
    | some x =>
      simp only [scalarOf, hv, bind, Except.bind, pure, Except.pure, Except.ok.injEq] at h
      exact ⟨x, rfl, by simpa using hneg, h.symm⟩

theorem debit_ok {l l' : Ledger α} {token : String} {amount : Num α} (h : l.debit token amount = .ok l') :
    ∃ x, amount.value? = some x ∧ amount.isLess (.whole 0) = false ∧
      Num.isLess (.real (l.balance token)) amount = false ∧
      l' = l.withBalance token (l.balance token - x) := by
  unfold debit at h
  split at h
  · cases h
  · rename_i hneg
    simp only at h
    split at h
    · cases h
    · rename_i hless
      cases hv : amount.value? with
      | none => simp [scalarOf, hv, bind, Except.bind] at h
      | some x =>
        simp only [scalarOf, hv, bind, Except.bind, pure, Except.pure, Except.ok.injEq] at h
        exact ⟨x, rfl, by simpa using hneg, by simpa using hless, h.symm⟩

omit [Scalar α] in
theorem closePosition_ok {l l' : Ledger α} {id : String} {p : Position α}
    (h : l.closePosition id = .ok (p, l')) :
    l.position? id = some p ∧ l' = { l with positions := l.positions.filter (·.id != id) } := by
  unfold closePosition at h
  split at h
  · cases h
  · rename_i q hq
    cases h; exact ⟨hq, rfl⟩

theorem reducePosition_ok {l l' : Ledger α} {id : String} {amount : Num α} {p : Position α}
    (h : l.reducePosition id amount = .ok (p, l')) :
    ∃ q x, l.position? id = some q ∧ amount.value? = some x ∧
      Num.isLess (.real q.amount) amount = false ∧ p = { q with amount := q.amount - x } ∧
      l' = { l with positions := replacePosition p l.positions } := by
  unfold reducePosition at h
  split at h
  · cases h
  · rename_i q hq
    split at h
    · cases h
    · rename_i hless
      cases hv : amount.value? with
      | none => simp [scalarOf, hv, bind, Except.bind] at h
      | some x =>
        simp only [scalarOf, hv, bind, Except.bind, pure, Except.pure, Except.ok.injEq, Prod.mk.injEq] at h
        obtain ⟨rfl, rfl⟩ := h
        exact ⟨q, x, hq, rfl, by simpa using hless, rfl, rfl⟩

/-- A position after interest over a number of days. -/
def grown (days : α) (p : Position α) : Position α :=
  match interest p days with
  | none => p
  | some x => { p with amount := p.amount + x }

@[simp] theorem grown_number (days : α) (p : Position α) : (grown days p).number = p.number := by
  unfold grown; split <;> rfl

theorem accrueAll_fst (days : α) : ∀ (ps : List (Position α)) (total : α),
    (accrueAll days ps total).1 = ps.map (grown days)
  | [], _ => rfl
  | p :: rest, total => by
    unfold accrueAll
    split
    · rename_i h
      simp only [List.map_cons, accrueAll_fst days rest total, grown, h]
    · rename_i x h
      simp only [List.map_cons, accrueAll_fst days rest (total + x), grown, h]

/-- Interest changes amounts only; without a positive number of days it changes nothing. -/
theorem accrueInterest_snd (l : Ledger α) (days : Num α) : (l.accrueInterest days).2 =
    if days.isAtMost (.whole 0) then l else { l with positions := l.positions.map (grown days.value) } := by
  unfold accrueInterest
  split
  · rfl
  · simp only [accrueAll_fst]

/-! ## Well-formed accounts -/

/-- A well-formed account: one balance per token; open positions with rising numbers below the
next one; trades numbered from one on without a gap. -/
structure WF (l : Ledger α) : Prop where
  tokens : (l.balances.map (·.1)).Nodup
  issued : ∀ p ∈ l.positions, 1 ≤ p.number ∧ p.number < l.nextPosition
  rising : (l.positions.map (·.number)).Pairwise (· < ·)
  nextPos : 1 ≤ l.nextPosition
  log : l.trades.map (·.number) = (List.range l.trades.length).map (· + 1)
  nextLog : l.nextTrade = l.trades.length + 1

/-- An account with nothing but a capital. -/
def opened (capital : α) (base : String) : Ledger α :=
  { baseCurrency := base, initialCapital := capital, balances := [(base, capital)], positions := [],
    trades := [], nextTrade := 1, nextPosition := 1 }

theorem start_ok {capital : Num α} {base : String} {l : Ledger α} (h : start capital base = .ok l) :
    ∃ x, capital.value? = some x ∧ capital.isAtMost (.whole 0) = false ∧ l = opened x base := by
  unfold start at h
  split at h
  · cases h
  · rename_i hpos
    cases hv : capital.value? with
    | none => simp [scalarOf, hv, bind, Except.bind] at h
    | some x =>
      simp only [scalarOf, hv, bind, Except.bind, pure, Except.pure, Except.ok.injEq] at h
      exact ⟨x, rfl, by simpa using hpos, h.symm⟩

theorem start_wf {capital : Num α} {base : String} {l : Ledger α} (h : start capital base = .ok l) : l.WF := by
  obtain ⟨x, -, -, rfl⟩ := start_ok h
  constructor <;> simp [opened]

omit [Scalar α] in
theorem mem_putBalance_keys (token : String) (x : α) : ∀ (bs : List (String × α)) (t : String),
    t ∈ (putBalance token x bs).map (·.1) ↔ t = token ∨ t ∈ bs.map (·.1)
  | [], t => by simp [putBalance]
  | (u, y) :: rest, t => by
    unfold putBalance
    split
    · rename_i h
      subst h
      simp
    · simp only [List.map_cons, List.mem_cons, mem_putBalance_keys token x rest t]
      tauto

omit [Scalar α] in
theorem nodup_putBalance (token : String) (x : α) : ∀ bs : List (String × α),
    (bs.map (·.1)).Nodup → ((putBalance token x bs).map (·.1)).Nodup
  | [], _ => by simp [putBalance]
  | (u, y) :: rest, h => by
    simp only [List.map_cons, List.nodup_cons] at h
    unfold putBalance
    split
    · simpa using h
    · rename_i hne
      simp only [List.map_cons, List.nodup_cons, mem_putBalance_keys]
      exact ⟨by simp only [hne, false_or]; exact h.1, nodup_putBalance token x rest h.2⟩

omit [Scalar α] in
theorem WF.withBalance {l : Ledger α} (h : l.WF) (token : String) (x : α) : (l.withBalance token x).WF :=
  ⟨nodup_putBalance token x _ h.tokens, h.issued, h.rising, h.nextPos, h.log, h.nextLog⟩

omit [Scalar α] in
/-- Positions whose numbers are among the old ones, in the old order, keep an account well-formed. -/
theorem WF.withPositions {l : Ledger α} (h : l.WF) {ps : List (Position α)}
    (hs : (ps.map (·.number)).Sublist (l.positions.map (·.number))) : { l with positions := ps }.WF := by
  refine ⟨h.tokens, fun p hp => ?_, h.rising.sublist hs, h.nextPos, h.log, h.nextLog⟩
  obtain ⟨q, hq, hpq⟩ := List.mem_map.1 (hs.subset (List.mem_map_of_mem hp))
  rw [← hpq]; exact h.issued q hq

omit [Scalar α] in
theorem WF.openPosition {l : Ledger α} (h : l.WF) (p : NewPosition α) : (l.openPosition p).WF := by
  refine ⟨h.tokens, fun q hq => ?_, ?_, by show 1 ≤ l.nextPosition + 1; omega, h.log, h.nextLog⟩
  · show 1 ≤ q.number ∧ q.number < l.nextPosition + 1
    rcases List.mem_append.1 hq with hq | hq
    · have := h.issued q hq; omega
    · rw [List.mem_singleton.1 hq]
      exact ⟨h.nextPos, Nat.lt_succ_self _⟩
  · -- the new number is above all that were issued
    show ((l.positions ++ [l.nextOpened p]).map (·.number)).Pairwise (· < ·)
    rw [List.map_append, List.pairwise_append]
    refine ⟨h.rising, by simp, fun a ha b hb => ?_⟩
    obtain ⟨q, hq, rfl⟩ := List.mem_map.1 ha
    simp only [List.map_cons, List.map_nil, List.mem_singleton] at hb
    rw [hb]; exact (h.issued q hq).2

omit [Scalar α] in
theorem WF.recordTrade {l : Ledger α} (h : l.WF) (t : NewTrade α) : (l.recordTrade t).WF := by
  refine ⟨h.tokens, h.issued, h.rising, h.nextPos, ?_, ?_⟩
  · show (l.trades ++ [l.nextRecorded t]).map (·.number) = _
    rw [List.map_append, h.log, show (l.recordTrade t).trades.length = l.trades.length + 1 by
      simp [Ledger.recordTrade], List.range_succ, List.map_append]
    simp [nextRecorded, h.nextLog]
  · simp [Ledger.recordTrade, h.nextLog]

theorem numbers_replacePosition (p : Position α) (ps : List (Position α)) :
    ((replacePosition p ps).map (·.number)).Sublist (ps.map (·.number)) := by
  unfold replacePosition
  split
  · exact List.filter_sublist.map _
  · rw [List.map_map]
    have hid : (Position.number ∘ fun q : Position α => if q.number = p.number then p else q) =
        Position.number := by
      funext q
      simp only [Function.comp_apply]
      split <;> simp_all
    rw [hid]

/-- Every operation keeps an account well-formed. -/
theorem WF.operates {admits : NewPosition α → Prop} {l l' : Ledger α} (hs : Operates admits l l') (h : l.WF) :
    l'.WF := by
  cases hs with
  | credit hc => obtain ⟨x, -, -, rfl⟩ := credit_ok hc; exact h.withBalance ..
  | debit hd => obtain ⟨x, -, -, -, rfl⟩ := debit_ok hd; exact h.withBalance ..
  | opened p _ => exact h.openPosition p
  | closed hc =>
    obtain ⟨-, rfl⟩ := closePosition_ok hc
    exact h.withPositions (List.filter_sublist.map _)
  | reduced hr =>
    obtain ⟨q, x, -, -, -, -, rfl⟩ := reducePosition_ok hr
    exact h.withPositions (numbers_replacePosition ..)
  | accrued days =>
    rw [accrueInterest_snd]
    split
    · exact h
    · exact h.withPositions (by simp [List.map_map, Function.comp_def])
  | recorded t => exact h.recordTrade t

theorem Reachable.wf {l : Ledger α} (h : l.Reachable) : l.WF := by
  obtain ⟨capital, base, l₀, h₀, hl⟩ := h
  exact hl.keeps (fun _ _ hs => WF.operates hs) (start_wf h₀)

omit [Scalar α] in
/-- The position with the name of an open one is that one. -/
theorem WF.position?_id {l : Ledger α} (h : l.WF) {p : Position α} (hp : p ∈ l.positions) :
    l.position? p.id = some p := by
  unfold position?
  cases hf : l.positions.find? (·.id == p.id) with
  | none => rw [List.find?_eq_none] at hf; simpa using hf p hp
  | some q =>
    -- one name is one number, and no number comes twice
    have hq : q.id = p.id := by simpa using List.find?_some hf
    have hn : q.number = p.number := Position.idOf_injective hq
    have hnodup : (l.positions.map (·.number)).Nodup := h.rising.imp fun h => ne_of_lt h
    rw [List.inj_on_of_nodup_map hnodup (List.mem_of_find?_eq_some hf) hp hn]

/-! ## The log -/

/-- No operation takes a trade out of the log or changes one. -/
theorem Operates.trades {admits : NewPosition α → Prop} {l l' : Ledger α} (hs : Operates admits l l') :
    l.trades <+: l'.trades := by
  cases hs with
  | credit hc => obtain ⟨x, -, -, rfl⟩ := credit_ok hc; exact List.prefix_refl _
  | debit hd => obtain ⟨x, -, -, -, rfl⟩ := debit_ok hd; exact List.prefix_refl _
  | opened p _ => exact List.prefix_refl _
  | closed hc => obtain ⟨-, rfl⟩ := closePosition_ok hc; exact List.prefix_refl _
  | reduced hr => obtain ⟨q, x, -, -, -, -, rfl⟩ := reducePosition_ok hr; exact List.prefix_refl _
  | accrued days => rw [accrueInterest_snd]; split <;> exact List.prefix_refl _
  | recorded t => exact List.prefix_append _ _

theorem trades_reducePosition {l l' : Ledger α} {id : String} {amount : Num α} {p : Position α}
    (h : l.reducePosition id amount = .ok (p, l')) : l'.trades = l.trades := by
  obtain ⟨q, x, -, -, -, -, rfl⟩ := reducePosition_ok h; rfl

theorem trades_accrueInterest (l : Ledger α) (days : Num α) : (l.accrueInterest days).2.trades = l.trades := by
  rw [accrueInterest_snd]; split <;> rfl

theorem Becomes.trades {admits : NewPosition α → Prop} {l l' : Ledger α} (h : Becomes admits l l') :
    l.trades <+: l'.trades :=
  h.keeps (P := fun x => l.trades <+: x.trades) (fun _ _ hs hp => hp.trans hs.trades) (List.prefix_refl _)

end Ledger

end StrategyLab
