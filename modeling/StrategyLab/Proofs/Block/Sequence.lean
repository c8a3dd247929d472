/-
Sequences of blocks. The first blocks of a sequence run as they would alone, so that the account
after each of its blocks is the one that a shorter sequence leaves.
-/
import StrategyLab.Proofs.Block.Steps

namespace StrategyLab.SequenceRun

variable {α : Type} [Scalar α] {m : Market α} {previous : Option (Outcome α)} {b : Block α}
  {rest : List (Block α)} {l l' : Ledger α}

/-! ## One block -/

theorem after_skipped (h : b.isSkipped previous = true) : after m previous (b :: rest) l =
    { after m (some b.skipped) rest l with
      outcomes := b.skipped :: (after m (some b.skipped) rest l).outcomes } := by
  rw [after, if_pos h]

theorem after_executed {o : Outcome α} (h : b.isSkipped previous = false) (he : b.execute m l = (.ok o, l')) :
    after m previous (b :: rest) l =
      { after m (some o) rest l' with outcomes := o :: (after m (some o) rest l').outcomes } := by
  rw [after, if_neg (by rw [h]; decide), he]

theorem after_raised {f : Fault α} (h : b.isSkipped previous = false) (he : b.execute m l = (.error f, l')) :
    after m previous (b :: rest) l = { outcomes := [], fault := some f, ledger := l' } := by
  rw [after, if_neg (by rw [h]; decide), he]

/-! ## Whole sequences -/

theorem getLast?_cons_or {β : Type} (x : β) (xs : List β) (previous : Option β) :
    (x :: xs).getLast?.or previous = xs.getLast?.or (some x) := by
  rw [List.getLast?_cons]
  cases xs.getLast? <;> rfl

/-- A sequence goes on with its later blocks where the earlier ones ended, unless a fault ended
them; the later blocks see the outcome of the last one. -/
theorem after_append (m : Market α) (ys : List (Block α)) :
    ∀ (xs : List (Block α)) (previous : Option (Outcome α)) (l : Ledger α),
      after m previous (xs ++ ys) l =
        if (after m previous xs l).fault.isSome then after m previous xs l
        else
          let rest := after m ((after m previous xs l).outcomes.getLast?.or previous) ys
            (after m previous xs l).ledger
          { rest with outcomes := (after m previous xs l).outcomes ++ rest.outcomes }
  | [], previous, l => rfl
  | b :: xs, previous, l => by
    rw [List.cons_append]
    -- the first block is skipped, executed or raises a fault on both sides alike
    cases hskip : b.isSkipped previous with
    | true =>
      rw [after_skipped hskip, after_skipped hskip, after_append m ys xs]
      dsimp only
      rw [getLast?_cons_or]
      split_ifs <;> rfl
    | false =>
      rcases he : b.execute m l with ⟨r, l'⟩
      cases r with
      | ok o =>
        rw [after_executed hskip he, after_executed hskip he, after_append m ys xs]
        dsimp only
        rw [getLast?_cons_or]
        split_ifs <;> rfl
      | error f =>
        rw [after_raised hskip he, after_raised hskip he]
        rfl

/-- A sequence, also one that a fault ends, is a number of operations. -/
theorem after_becomes (m : Market α) : ∀ (blocks : List (Block α)) (previous : Option (Outcome α)) (l : Ledger α),
    Ledger.Becomes Ledger.NewPosition.Filled l (after m previous blocks l).ledger
  | [], _, l => .refl l
  | b :: rest, previous, l => by
    have hb := b.execute_becomes m l
    cases hskip : b.isSkipped previous with
    | true => rw [after_skipped hskip]; exact after_becomes m rest _ l
    | false =>
      rcases he : b.execute m l with ⟨r, l'⟩
      rw [he] at hb
      cases r with
      | ok o => rw [after_executed hskip he]; exact hb.trans (after_becomes m rest _ l')
      | error f => rw [after_raised hskip he]; exact hb

/-- More blocks go on from the account that fewer blocks leave. -/
theorem execute_take_becomes (m : Market α) (blocks : List (Block α)) (l : Ledger α) {j k : Nat} (hjk : j ≤ k) :
    Ledger.Becomes Ledger.NewPosition.Filled (execute (blocks.take j) m l).ledger
      (execute (blocks.take k) m l).ledger := by
  have hsplit : blocks.take k = blocks.take j ++ (blocks.take k).drop j := by
    conv_lhs => rw [← List.take_append_drop j (blocks.take k), List.take_take, min_eq_left hjk]
  unfold execute
  rw [hsplit, after_append]
  split_ifs
  · exact .refl _
  · exact after_becomes m _ _ _

end StrategyLab.SequenceRun
