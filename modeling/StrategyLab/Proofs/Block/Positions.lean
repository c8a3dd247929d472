/-
What blocks do to the open positions, in exact arithmetic (`Moves`): a block opens new ones behind those
there are, or takes an amount above zero out of one, or closes some. Only repayments and withdrawals take,
and only exits close (`turn_moves`). So a position is left as it is by every block that does not take from
it (`Moves.kept`).
-/
import StrategyLab.Proofs.Block.Turn
import StrategyLab.Proofs.Ledger.Finite

namespace StrategyLab

/-! ## Positions after a block -/

namespace Ledger

/-- A position is open that was not before. -/
structure Opens (l l' : Ledger ℚ) (p : Position ℚ) : Prop where
  unknown : ∀ q ∈ l.positions, q.number ≠ p.number
  isOpen : p ∈ l'.positions

/-- The position with a number was open, and is closed or has a smaller amount. -/
def TakesFrom (number : Nat) (l l' : Ledger ℚ) : Prop :=
  ∃ p ∈ l.positions, p.number = number ∧ ∀ q ∈ l'.positions, q.number = number → q.amount < p.amount

theorem not_takesFrom_self (number : Nat) (l : Ledger ℚ) : ¬ TakesFrom number l l := by
  rintro ⟨p, hp, hnumber, hless⟩
  exact lt_irrefl _ (hless p hp hnumber)

/-- The ways in which a block of a kind changes the open positions at an instant. -/
inductive Moves [ExactArithmetic] (t : Instant) (kind : BlockKind) (l l' : Ledger ℚ) : Prop where
  | opens (new : List (Position ℚ)) : l'.positions = l.positions ++ new →
      (∀ p ∈ new, l.nextPosition ≤ p.number ∧ p.opened = t) → Moves t kind l l'
  | takes {id : String} {x : ℚ} {p : Position ℚ} {l₁ : Ledger ℚ} : kind = .repay ∨ kind = .withdraw → 0 < x →
      l.reducePosition id (.real x) = .ok (p, l₁) → l'.positions = l₁.positions → Moves t kind l l'
  | closes (kept : Position ℚ → Bool) : kind.category = .exit → l'.positions = l.positions.filter kept →
      Moves t kind l l'

variable [ExactArithmetic] {t : Instant} {kind : BlockKind} {l l' : Ledger ℚ}

theorem Moves.same (h : l'.positions = l.positions) : Moves t kind l l' :=
  .opens [] (by rw [h, List.append_nil]) nofun

/-- An open position is one from before as it was, or one from before with less in it, or a new one. -/
theorem Moves.origin (h : Moves t kind l l') {q : Position ℚ} (hq : q ∈ l'.positions) :
    q ∈ l.positions ∨ (∃ p ∈ l.positions, q.number = p.number ∧ q.amount < p.amount) ∨
      (l.nextPosition ≤ q.number ∧ q.opened = t) := by
  cases h with
  | opens new hnew hopened =>
    rw [hnew] at hq
    rcases List.mem_append.1 hq with hq | hq
    · exact .inl hq
    · exact .inr (.inr (hopened q hq))
  | takes _ hx hreduce hleft =>
    rw [hleft] at hq
    rcases mem_reducePosition hreduce hq with hq | ⟨p, hp, rfl⟩
    · exact .inl hq
    · exact .inr (.inl ⟨p, hp, rfl, sub_lt_self _ hx⟩)
  | closes kept _ hleft =>
    rw [hleft] at hq
    exact .inl (List.mem_filter.1 hq).1

/-- A position that a block does not take from stays as it is. -/
theorem Moves.kept (h : Moves t kind l l') (hwf : l.WF) {p : Position ℚ} (hp : p ∈ l.positions)
    (hspared : ¬ TakesFrom p.number l l') : p ∈ l'.positions := by
  have hnodup : (l.positions.map (·.number)).Nodup := hwf.rising.imp fun hlt => hlt.ne
  -- the position that has the number afterwards has no smaller amount, and no other number is its own
  unfold TakesFrom at hspared
  push Not at hspared
  obtain ⟨q, hq, hnumber, hle⟩ := hspared p hp rfl
  rcases h.origin hq with hopen | ⟨r, hr, hqr, hless⟩ | ⟨hnew, -⟩
  · rwa [← List.inj_on_of_nodup_map hnodup hopen hp hnumber]
  · rw [List.inj_on_of_nodup_map hnodup hr hp (hqr.symm.trans hnumber)] at hless
    exact absurd hle (not_le.2 hless)
  · have hissued := (hwf.issued p hp).2
    omega

/-- A position that a block opens is of the instant. -/
theorem Moves.opened (h : Moves t kind l l') {p : Position ℚ} (hp : Opens l l' p) : p.opened = t := by
  rcases h.origin hp.isOpen with hopen | ⟨q, hq, hnumber, -⟩ | ⟨-, hopened⟩
  · exact absurd rfl (hp.unknown p hopen)
  · exact absurd hnumber.symm (hp.unknown q hq)
  · exact hopened

/-- Blocks of the other kinds take from no position. -/
theorem Moves.spares (h : Moves t kind l l') (hrepay : kind ≠ .repay) (hwithdraw : kind ≠ .withdraw)
    (hexit : kind.category ≠ .exit) (number : Nat) : ¬ TakesFrom number l l' := by
  rintro ⟨p, hp, hnumber, hless⟩
  cases h with
  | opens new hnew =>
    have hopen : p ∈ l'.positions := by
      rw [hnew]
      exact List.mem_append_left _ hp
    exact lt_irrefl _ (hless p hopen hnumber)
  | takes hkind => exact hkind.elim hrepay hwithdraw
  | closes kept hkind => exact hexit hkind

end Ledger

/-! ## Every kind of block -/

namespace Block

variable [ExactArithmetic] {b : Block ℚ} {m : Market ℚ} {l l' : Ledger ℚ} {o : Outcome ℚ}

theorem positions_provided (m : Market ℚ) (pool : String) (leg : Stake ℚ) (l : Ledger ℚ) :
    l.nextPosition ≤ (leg.provided m pool l).nextPosition ∧
      ∃ new, (leg.provided m pool l).positions = l.positions ++ new ∧
        ∀ p ∈ new, l.nextPosition ≤ p.number ∧ p.opened = m.timestamp := by
  unfold Stake.provided
  split_ifs
  · exact ⟨le_rfl, [], (List.append_nil _).symm, nofun⟩
  · refine ⟨Nat.le_succ _, [_], rfl, fun p hp => ?_⟩
    rw [List.mem_singleton.1 hp]
    exact ⟨le_rfl, rfl⟩

theorem positions_pooled (m : Market ℚ) (leg0 leg1 : Stake ℚ) (l : Ledger ℚ) :
    ∃ new, (leg0.pooled m leg1 l).positions = l.positions ++ new ∧
      ∀ p ∈ new, l.nextPosition ≤ p.number ∧ p.opened = m.timestamp := by
  obtain ⟨hnext, new0, hnew0, hopened0⟩ := positions_provided m (leg0.pool leg1) leg0 l
  obtain ⟨-, new1, hnew1, hopened1⟩ :=
    positions_provided m (leg0.pool leg1) leg1 (leg0.provided m (leg0.pool leg1) l)
  refine ⟨new0 ++ new1, ?_, fun p hp => ?_⟩
  · show (leg1.provided m (leg0.pool leg1) (leg0.provided m (leg0.pool leg1) l)).positions = _
    rw [hnew1, hnew0, List.append_assoc]
  · rcases List.mem_append.1 hp with hp | hp
    · exact hopened0 p hp
    · exact ⟨hnext.trans (hopened1 p hp).1, (hopened1 p hp).2⟩

theorem positive_amount {asset : String} {amount : ℚ} (h : b.assetAmount = .ok (asset, amount)) : 0 < amount := by
  have hpos := (positive_ok (assetAmount_ok h).2).2
  norm_num at hpos
  exact hpos

/-- The effect of a block on the positions. -/
theorem Effect.moves {kind : BlockKind} (h : Effect b m l kind l') : l.Moves m.timestamp kind l' := by
  have hsingle : ∀ q : Ledger.NewPosition ℚ, q.opened = m.timestamp →
      ∀ p ∈ [l.nextOpened q], l.nextPosition ≤ p.number ∧ p.opened = m.timestamp := by
    intro q hq p hp
    rw [List.mem_singleton.1 hp]
    exact ⟨le_rfl, hq⟩
  cases h with
  | swap _ => exact .same rfl
  | supply _ => exact .opens _ rfl (hsingle _ rfl)
  | staking _ _ => exact .opens _ rfl (hsingle _ rfl)
  | borrow _ => exact .opens _ rfl (hsingle _ rfl)
  | repay ho hreduce => exact .takes (.inl rfl) (positive_amount (repayOrder_ok ho).1) hreduce rfl
  | withdraw ho hreduce => exact .takes (.inr rfl) (positive_amount (withdrawOrder_ok ho).1) hreduce rfl
  | liquidity _ =>
    obtain ⟨new, hnew, hopened⟩ := positions_pooled m _ _ l
    exact .opens new hnew hopened
  | flashLoan _ => exact .same rfl
  | exit hkind _ _ => exact .closes _ hkind (positions_closings m _ l)
  | report _ => exact .same rfl

/-- A block that comes to an outcome moves the positions in the way of its kind, also where it does not
fire: liquidity that overdraws its balance leaves its first leg. -/
theorem execute_moves (hwf : l.WF) (h : b.execute m l = (.ok o, l')) :
    ∃ kind, b.kind? = some kind ∧ l.Moves m.timestamp kind l' := by
  by_cases hover : b.Overdraws m l
  · obtain ⟨-, leg0, leg1, -, rfl⟩ := execute_overdrawn hover h
    obtain ⟨-, new, hnew, hopened⟩ := positions_provided m (leg0.pool leg1) leg0 l
    exact ⟨.liquidity, hover.1, .opens new hnew hopened⟩
  · rcases execute_whole hwf hover h with ⟨-, kind, hk, heff⟩ | ⟨-, rfl⟩
    · exact ⟨kind, hk, heff.moves⟩
    · obtain ⟨kind, hk⟩ := execute_kind h
      exact ⟨kind, hk, .same rfl⟩

/-- So does a block in its turn, which leaves the account as it is if it is skipped. -/
theorem turn_moves {previous : Option (Outcome ℚ)} (hwf : l.WF) (h : b.turn m previous l = (.ok o, l')) :
    ∃ kind, (b.kind? = some kind ∨ l' = l) ∧ l.Moves m.timestamp kind l' := by
  unfold turn at h
  split_ifs at h
  · cases h
    exact ⟨default, .inr rfl, .same rfl⟩
  · obtain ⟨kind, hk, hmoves⟩ := execute_moves hwf h
    exact ⟨kind, .inl hk, hmoves⟩

end Block

end StrategyLab
