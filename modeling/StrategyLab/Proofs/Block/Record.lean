/-
The instants of trades, over any scalars: whatever a sequence of blocks records carries the instant
at which the sequence is executed.
-/
import StrategyLab.Proofs.Block.Handler
import StrategyLab.Proofs.Block.Sequence

namespace StrategyLab

variable {α : Type} [Scalar α]

namespace Ledger

/-- Nothing but trades at an instant was recorded. -/
def Records (t : Instant) (l l' : Ledger α) : Prop :=
  ∃ new, l'.trades = l.trades ++ new ∧ ∀ x ∈ new, x.timestamp = t

omit [Scalar α] in
theorem Records.of_eq {t : Instant} {l l' : Ledger α} (h : l'.trades = l.trades) : Records t l l' :=
  ⟨[], by rw [h, List.append_nil], fun _ hx => absurd hx List.not_mem_nil⟩

omit [Scalar α] in
theorem Records.trans {t : Instant} {a b c : Ledger α} (h₁ : Records t a b) (h₂ : Records t b c) :
    Records t a c := by
  obtain ⟨new₁, ht₁, hn₁⟩ := h₁
  obtain ⟨new₂, ht₂, hn₂⟩ := h₂
  refine ⟨new₁ ++ new₂, by rw [ht₂, ht₁, List.append_assoc], fun x hx => ?_⟩
  rcases List.mem_append.1 hx with hx | hx
  · exact hn₁ x hx
  · exact hn₂ x hx

omit [Scalar α] in
theorem Records.record {l l' : Ledger α} (ht : l'.trades = l.trades) (n : NewTrade α) :
    Records n.timestamp l (l'.recordTrade n) := by
  refine ⟨[l'.nextRecorded n], ?_, fun x hx => ?_⟩
  · show l'.trades ++ _ = _
    rw [ht]
  · rw [List.mem_singleton.1 hx]; rfl

end Ledger

namespace Block

theorem closings_record (m : Market α) : ∀ (closings : List (Position α × α)) (l : Ledger α),
    Ledger.Records m.timestamp l (closings.foldl (Ledger.closedAt m) l)
  | [], _ => .of_eq rfl
  | c :: rest, l => by
    have hfirst : Ledger.Records m.timestamp l (l.closedAt m c) :=
      .record rfl (Action.singleTrade m .exit c.1.asset c.1.amount c.2 0.0)
    exact hfirst.trans (closings_record m rest _)

/-- Whatever a block records when it fires carries the instant of its market. -/
theorem Effect.records {b : Block α} {m : Market α} {l l' : Ledger α} {kind : BlockKind}
    (h : Effect b m l kind l') : Ledger.Records m.timestamp l l' := by
  cases h with
  | swap => exact .record rfl (SwapOrder.trade m _)
  | supply => exact .record rfl (Action.singleTrade m ..)
  | staking => exact .record rfl (Action.singleTrade m ..)
  | borrow => exact .record rfl (Action.singleTrade m ..)
  | repay ho hl => exact .record (Ledger.trades_reducePosition hl) (Action.singleTrade m ..)
  | withdraw ho hl => exact .record (Ledger.trades_reducePosition hl) (Action.singleTrade m ..)
  | liquidity => exact .record (by rw [Stake.trades_provided, Stake.trades_provided]) (Stake.poolTrade m _ _)
  | flashLoan => exact .record rfl (Action.singleTrade m ..)
  | exit => exact closings_record m _ _
  | report => exact .of_eq rfl

theorem execute_records {b : Block α} {m : Market α} {l l' : Ledger α} {o : Outcome α} (hwf : l.WF)
    (h : b.execute m l = (.ok o, l')) : Ledger.Records m.timestamp l l' := by
  by_cases hover : b.Overdraws m l
  · -- the leg that is left behind was opened and not traded
    obtain ⟨-, leg0, leg1, -, rfl⟩ := execute_overdrawn hover h
    exact .of_eq (Stake.trades_provided ..)
  · rcases execute_whole hwf hover h with ⟨-, kind, -, heff⟩ | ⟨-, rfl⟩
    · exact heff.records
    · exact .of_eq rfl

end Block

namespace SequenceRun

theorem after_records {m : Market α} : ∀ {blocks : List (Block α)} {previous : Option (Outcome α)} {l : Ledger α},
    l.Reachable → (after m previous blocks l).fault = none →
      Ledger.Records m.timestamp l (after m previous blocks l).ledger
  | [], _, _, _, _ => .of_eq rfl
  | b :: rest, previous, l, hl, hnone => by
    cases hskip : b.isSkipped previous with
    | true =>
      rw [after_skipped hskip] at hnone ⊢
      exact after_records hl hnone
    | false =>
      rcases he : b.execute m l with ⟨r, l'⟩
      cases r with
      | ok o =>
        rw [after_executed hskip he] at hnone ⊢
        have hl' : l'.Reachable := by
          have hreach := Block.execute_reachable (b := b) (m := m) hl
          rwa [he] at hreach
        exact (Block.execute_records hl.wf he).trans (after_records hl' hnone)
      | error f =>
        rw [after_raised hskip he] at hnone
        cases hnone

end SequenceRun

end StrategyLab
