/-
When a block that does not fire leaves the account alone: always, except for two legs of liquidity
in one token whose balance covers each leg and not both. The first leg then stays in its position
although the block is refused.
-/
import StrategyLab.Proofs.Block.Handler
import StrategyLab.Proofs.Ledger.Exact

namespace StrategyLab.Block

theorem provided_ne {α : Type} [Scalar α] (m : Market α) (pool : String) {leg : Stake α} (l : Ledger α)
    (h : ¬ leg.amount ≤ 0.0) : leg.provided m pool l ≠ l := by
  intro heq
  have hnext : (leg.provided m pool l).nextPosition = l.nextPosition + 1 := by
    unfold Stake.provided; rw [if_neg h]; rfl
  rw [heq] at hnext
  omega

/-- A block that is executed and does not fire, rejected, refused or idle, leaves the account exactly
as it was if and only if it is not a pair of legs that overdraws a balance. -/
theorem unfired_leaves_account_iff {α : Type} [Scalar α] {b : Block α} {m : Market α} {l l' : Ledger α}
    {o : Outcome α} (hl : l.Reachable) (h : b.execute m l = (.ok o, l')) (hf : o.fired = false) :
    l' = l ↔ ¬ b.Overdraws m l := by
  constructor
  · intro hsame hover
    -- the first leg was opened as a position, which used up a number
    obtain ⟨-, leg0, leg1, hpos, heq⟩ := execute_overdrawn hover h
    exact provided_ne m _ l hpos (heq.symm.trans hsame)
  · intro hno
    rcases execute_whole hl.wf hno h with ⟨ht, -⟩ | ⟨-, heq⟩
    · rw [ht] at hf; cases hf
    · exact heq

/-! ## Legs in one token -/

/-- Two legs of liquidity in one token. -/
def oneTokenPool (amount0 amount1 : ℚ) : Block ℚ :=
  { id := "lp", kind := "uniswap_v3_liquidity", category := .protocol, label := "",
    params := [(.text "token0", .text "USDC"), (.text "token1", .text "USDC"),
      (.text "amount0", .num (.real amount0)), (.text "amount1", .num (.real amount1))] }

/-- A market in which the token costs one. -/
def marketAtPar : Market ℚ := { timestamp := .known 0, prices := [("USDC", .real 1)], history := [] }

/-- An account that was opened with a thousand of the token. -/
def thousand : Ledger ℚ := Ledger.opened 1000 "USDC"

section

local instance openPartsOfPools : ExactArithmetic := default

theorem thousand_reachable : thousand.Reachable :=
  Ledger.start_reachable (Ledger.start_exact (.real 1000) "USDC" (by norm_num))

/-- Legs of six hundred each out of a thousand are refused, and the first one is gone. -/
theorem overdrawn_pool_keeps_first_leg : ∃ (l l' : Ledger ℚ) (o : Outcome ℚ), l.Reachable ∧
    (oneTokenPool 600 600).execute marketAtPar l = (.ok o, l') ∧ o.fired = false ∧
    l.balance "USDC" = 1000 ∧ l'.balance "USDC" = 400 ∧ l' ≠ l := by
  have hbefore : thousand.balance "USDC" = 1000 := by decide +kernel
  have hafter : ((oneTokenPool 600 600).execute marketAtPar thousand).2.balance "USDC" = 400 := by
    decide +kernel
  have hrefused : ((oneTokenPool 600 600).execute marketAtPar thousand).1.toOption.map (·.fired) = some false := by
    decide +kernel
  obtain ⟨o, ho, hf⟩ := execute_answered hrefused
  refine ⟨thousand, _, o, thousand_reachable, ho, hf, hbefore, hafter, fun heq => ?_⟩
  rw [heq, hbefore] at hafter
  norm_num at hafter

/-- Legs of which one alone is above the balance are refused together. -/
theorem uncovered_pool_leaves_account : thousand.Reachable ∧ ∃ o : Outcome ℚ,
    (oneTokenPool 1200 600).execute marketAtPar thousand = (.ok o, thousand) ∧ o.fired = false := by
  have hrefused : ((oneTokenPool 1200 600).execute marketAtPar thousand).1.toOption.map (·.fired) = some false := by
    decide +kernel
  obtain ⟨o, ho, hf⟩ := execute_answered hrefused
  have hno : ¬ (oneTokenPool 1200 600).Overdraws marketAtPar thousand := by
    rintro ⟨-, leg0, leg1, horder, -⟩
    have hnone : ((oneTokenPool 1200 600).liquidityOrder marketAtPar thousand).toOption.isNone := by
      decide +kernel
    rw [horder] at hnone
    cases hnone
  have hsame := (unfired_leaves_account_iff thousand_reachable ho hf).2 hno
  rw [hsame] at ho
  exact ⟨thousand_reachable, o, ho, hf⟩

end

end StrategyLab.Block
