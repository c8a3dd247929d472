/-
The log of trades as an audit of a whole simulation run: at every step each balance is the initial
one plus the flows of the recorded trades. Interest grows positions and leaves balances alone, and
blocks that are skipped or refused contribute nothing.
-/
import StrategyLab.Proofs.Block.Audit
import StrategyLab.Proofs.Block.Sequence
import StrategyLab.Proofs.Simulation.Steps

namespace StrategyLab

section

variable [ExactArithmetic]

namespace SequenceRun

/-- A sequence that no fault ends accounts for what it does with its trades. -/
theorem after_audited {m : Market ℚ} : ∀ {blocks : List (Block ℚ)} {previous : Option (Outcome ℚ)} {l : Ledger ℚ},
    (∀ b ∈ blocks, b.PoolsTwoTokens) → l.Reachable → (after m previous blocks l).fault = none →
      l.Audited (after m previous blocks l).ledger
  | [], _, l, _, _, _ => .refl l
  | b :: rest, previous, l, hblocks, hl, hnone => by
    have hrest : ∀ b' ∈ rest, b'.PoolsTwoTokens := fun b' hb' => hblocks b' (List.mem_cons_of_mem b hb')
    cases hskip : b.isSkipped previous with
    | true =>
      rw [after_skipped hskip] at hnone ⊢
      exact after_audited hrest hl hnone
    | false =>
      rcases he : b.execute m l with ⟨r, l'⟩
      cases r with
      | ok o =>
        rw [after_executed hskip he] at hnone ⊢
        have hl' : l'.Reachable := by
          have hreach := Block.execute_reachable (b := b) (m := m) hl
          rwa [he] at hreach
        have hb := (Block.execute_audited (hblocks b (List.mem_cons_self ..)) hl.wf he).1
        exact hb.trans (after_audited hrest hl' hnone)
      | error f =>
        rw [after_raised hskip he] at hnone
        cases hnone

end SequenceRun

namespace Simulation

theorem executeStep_audited {blocks : List (Block ℚ)} (hblocks : ∀ b ∈ blocks, b.PoolsTwoTokens)
    {s s' : State ℚ} (hl : s.ledger.Reachable) {t : Instant} {prices : List (String × ℚ)}
    (h : executeStep blocks s t prices = .ok s') : s.ledger.Audited s'.ledger ∧ s'.ledger.Reachable := by
  obtain ⟨days, m, -, -, hnone, heq, -⟩ := executeStep_ok h
  -- interest grows positions, which no balance and no trade shows
  have hinterest : s.ledger.Audited (s.ledger.accrueInterest (.real days)).2 := by
    refine ⟨[], by rw [Ledger.trades_accrueInterest, List.append_nil], fun token => ?_⟩
    rw [Ledger.balance_accrueInterest]
    exact (add_zero _).symm
  have hgrown : (s.ledger.accrueInterest (.real days)).2.Reachable :=
    hl.becomes (show Ledger.Operates (fun _ => True) _ _ from .accrued s.ledger (.real days)).becomes
  rw [heq]
  exact ⟨hinterest.trans (SequenceRun.after_audited hblocks hgrown hnone),
    hgrown.becomes (SequenceRun.after_becomes m blocks none _)⟩

/-- A step of a run accounts for what it does with its trades. -/
theorem step_audited {blocks : List (Block ℚ)} (hblocks : ∀ b ∈ blocks, b.PoolsTwoTokens) {oracle : Oracle ℚ}
    {base : String} {needed : List String} {s s' : State ℚ} (hl : s.ledger.Reachable) {t : Instant}
    (h : step blocks oracle base needed s t = .ok s') : s.ledger.Audited s'.ledger ∧ s'.ledger.Reachable := by
  obtain ⟨prices, -, h⟩ := bind_ok h
  split at h
  · cases h; exact ⟨.refl _, hl⟩
  · exact executeStep_audited hblocks hl h

theorem steps_audited {blocks : List (Block ℚ)} (hblocks : ∀ b ∈ blocks, b.PoolsTwoTokens) {oracle : Oracle ℚ}
    {base : String} {needed : List String} : ∀ {grid : List Instant} {s s' : State ℚ}, s.ledger.Reachable →
      grid.foldlM (step blocks oracle base needed) s = .ok s' → s.ledger.Audited s'.ledger
  | [], s, s', _, h => by cases h; exact .refl _
  | t :: rest, s, s', hl, h => by
    rw [List.foldlM_cons] at h
    obtain ⟨s₁, h₁, h⟩ := bind_ok h
    obtain ⟨hfirst, hl₁⟩ := step_audited hblocks hl h₁
    exact hfirst.trans (steps_audited hblocks hl₁ h)

/-- The log is a complete audit of the balances, for a strategy whose liquidity is in two different
tokens. After every step of every run in which no block raises a fault, each balance is the initial
one plus the flows of all recorded trades; and every block of the strategy, on any account, moves
the balances by the flows of the trades it records, and does nothing at all unless it fires. -/
theorem run_audited {blocks : List (Block ℚ)} (hblocks : ∀ b ∈ blocks, b.PoolsTwoTokens) (oracle : Oracle ℚ)
    {base : String} (needed : List String) {capital : Num ℚ} {holdings : Object ℚ} {l₀ : Ledger ℚ}
    (h₀ : openLedger capital base holdings = .ok l₀) :
    (∀ (grid : List Instant) (s : State ℚ),
      grid.foldlM (step blocks oracle base needed) (initialState l₀ needed) = .ok s →
      ∀ before after, grid = before ++ after →
        ∃ s', before.foldlM (step blocks oracle base needed) (initialState l₀ needed) = .ok s' ∧
          ∀ token, s'.ledger.balance token = l₀.balance token + Trade.flows s'.ledger.trades token) ∧
    ∀ b ∈ blocks, ∀ (m : Market ℚ) (l l' : Ledger ℚ) (o : Outcome ℚ), l.Reachable →
      b.execute m l = (.ok o, l') → l.Audited l' ∧ (o.fired = false → l' = l) := by
  constructor
  · intro grid s h before after hgrid
    rw [hgrid, List.foldlM_append] at h
    obtain ⟨s', hbefore, -⟩ := bind_ok h
    have hl₀ : l₀.Reachable := openLedger_reachable h₀
    obtain ⟨new, htrades, hbalance⟩ := steps_audited hblocks (s := initialState l₀ needed) hl₀ hbefore
    refine ⟨s', hbefore, fun token => ?_⟩
    -- an account is opened without trades, so that the new ones are all there are
    have hall : s'.ledger.trades = new := by
      obtain ⟨-, -, -, hnone⟩ := openLedger_ok h₀ fun _ => True
      rw [htrades]
      show l₀.trades ++ new = new
      rw [hnone, List.nil_append]
    rw [hall]
    exact hbalance token
  · intro b hb m l l' o hl h
    exact Block.execute_audited (hblocks b hb) hl.wf h

end Simulation

end

/-! ## A run of two steps -/

namespace Simulation

local instance openPartsOfSupplyRuns : ExactArithmetic := default

/-- A supply of a hundred that earns a yearly percent. -/
def hundredSupplied : Block ℚ :=
  { id := "s", kind := "aave_supply", category := .protocol, label := "",
    params := [(.text "asset", .text "USDC"), (.text "amount", .num (.real 100)), (.text "apy", .num (.real 1))] }

/-- A run of that block on a thousand at two instants a day apart. -/
def suppliedTwice : Except (Fault ℚ) (State ℚ) :=
  [Instant.known 0, Instant.known 86400000000000].foldlM (step [hundredSupplied] [] "USDC" ["USDC"])
    (initialState (.opened 1000 "USDC") ["USDC"])

/-- Two supplies of a hundred leave eight hundred out of a thousand, which the trades account for. -/
theorem two_supplies_audited : ∃ s : State ℚ, openLedger (.real 1000) "USDC" [] = .ok (.opened (1000 : ℚ) "USDC") ∧
    suppliedTwice = .ok s ∧ s.ledger.balance "USDC" = 800 ∧
    ∀ token, s.ledger.balance token =
      (Ledger.opened (1000 : ℚ) "USDC").balance token + Trade.flows s.ledger.trades token := by
  have hopen : openLedger (.real 1000) "USDC" [] = .ok (Ledger.opened (1000 : ℚ) "USDC") := by
    rw [openLedger_eq, Ledger.start_exact (.real 1000) "USDC" (by norm_num)]
    rfl
  have hblocks : ∀ b ∈ [hundredSupplied], b.PoolsTwoTokens := fun b hb hk => by
    rw [List.mem_singleton.1 hb] at hk
    exact absurd hk (by decide)
  have hleft : suppliedTwice.toOption.map (·.ledger.balance "USDC") = some 800 := by decide +kernel
  cases hrun : suppliedTwice with
  | error f => rw [hrun] at hleft; cases hleft
  | ok s =>
    rw [hrun] at hleft
    obtain ⟨s', hs', hbalance⟩ := (run_audited hblocks [] ["USDC"] hopen).1 _ s hrun _ [] (List.append_nil _).symm
    obtain rfl : s = s' := Except.ok.inj (hrun.symm.trans hs')
    exact ⟨s, hopen, rfl, Option.some.inj hleft, hbalance⟩

end Simulation

end StrategyLab
