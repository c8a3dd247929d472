/-
What holds of an account at every moment of a run, in exact arithmetic: no balance is below zero,
every open position has an amount above zero, positions and trades are named in the order in which
they came up, and no trade is taken back. A run is a number of rounds, each of which accrues
interest and then executes a sequence of blocks.
-/
import StrategyLab.Proofs.Block.Sequence
import StrategyLab.Proofs.Simulation.Opening

namespace StrategyLab

namespace Ledger

/-! ## Funds -/

/-- No balance is below zero, and every open position is above zero. -/
structure Funded (l : Ledger ℚ) : Prop where
  balances : ∀ b ∈ l.balances, 0 ≤ b.2
  positions : ∀ p ∈ l.positions, 0 < p.amount

theorem mem_putBalance {α : Type} {token : String} {x : α} : ∀ {bs : List (String × α)} {b : String × α},
    b ∈ putBalance token x bs → b.2 = x ∨ b ∈ bs
  | [], b, h => by
    rw [List.mem_singleton.1 h]; exact .inl rfl
  | (u, y) :: rest, b, h => by
    unfold putBalance at h
    split at h
    · rcases List.mem_cons.1 h with rfl | h
      · exact .inl rfl
      · exact .inr (List.mem_cons_of_mem _ h)
    · rcases List.mem_cons.1 h with rfl | h
      · exact .inr (List.mem_cons_self ..)
      · rcases mem_putBalance h with h | h
        · exact .inl h
        · exact .inr (List.mem_cons_of_mem _ h)

theorem Funded.withBalance {l : Ledger ℚ} (h : l.Funded) {token : String} {x : ℚ} (hx : 0 ≤ x) :
    (l.withBalance token x).Funded := by
  refine ⟨fun b hb => ?_, h.positions⟩
  rcases mem_putBalance hb with hb | hb
  · rw [hb]; exact hx
  · exact h.balances b hb

section

variable [ExactArithmetic]

theorem Funded.balance_nonneg {l : Ledger ℚ} (h : l.Funded) (token : String) : 0 ≤ l.balance token := by
  unfold balance
  cases hb : l.balances.lookup token with
  | none => norm_num
  | some x =>
    obtain ⟨before, behind, hsplit, -⟩ := List.lookup_eq_some_iff.1 hb
    exact h.balances (token, x) (by rw [hsplit]; simp)

/-- An amount that is not below zero, as a scalar. -/
theorem nonneg_of_value? {amount : Num ℚ} {x : ℚ} (hx : amount.value? = some x)
    (hneg : amount.isLess (.whole 0) = false) : 0 ≤ x := by
  rw [Num.value?_exact, Option.some.injEq] at hx
  rw [← hx, ← not_lt]
  intro hlt
  rw [(Num.isLess_iff ..).2 (by simpa using hlt)] at hneg
  cases hneg

theorem Funded.replace {l : Ledger ℚ} (h : l.Funded) (p : Position ℚ) :
    { l with positions := replacePosition p l.positions }.Funded := by
  refine ⟨h.balances, fun q hq => ?_⟩
  dsimp only at hq
  unfold replacePosition at hq
  split_ifs at hq with hnone
  · exact h.positions q (List.mem_filter.1 hq).1
  · obtain ⟨r, hr, hrq⟩ := List.mem_map.1 hq
    split_ifs at hrq
    · rw [← hrq]; norm_num at hnone; exact hnone
    · rw [← hrq]; exact h.positions r hr

/-- Interest adds to what is above zero. -/
theorem grown_pos {days : ℚ} (hdays : 0 < days) {p : Position ℚ} (hp : 0 < p.amount) : 0 < (grown days p).amount := by
  unfold grown
  cases hx : interest p days with
  | none => exact hp
  | some x =>
    unfold interest at hx
    split_ifs at hx with hapy
    obtain rfl := Option.some.inj hx
    have hrate : 0 < p.apy := by norm_num at hapy; exact hapy
    show 0 < p.amount + p.amount * (p.apy / 365.0) * days
    have : (0 : ℚ) < 365.0 := by norm_num
    positivity

/-- Every operation keeps an account funded, if it opens only filled positions. -/
theorem Funded.operates {l l' : Ledger ℚ} (hs : Operates NewPosition.Filled l l') (h : l.Funded) : l'.Funded := by
  cases hs with
  | @credit _ token amount hc =>
    obtain ⟨x, hx, hneg, rfl⟩ := credit_ok hc
    exact h.withBalance (add_nonneg (h.balance_nonneg token) (nonneg_of_value? hx hneg))
  | @debit _ token amount hd =>
    obtain ⟨x, hx, hneg, hless, rfl⟩ := debit_ok hd
    -- a debit above the balance is refused
    have hcovered : x ≤ l.balance token := by
      rw [Num.value?_exact, Option.some.injEq] at hx
      rw [← not_lt]
      intro hlt
      rw [(Num.isLess_iff ..).2 (by rw [hx]; exact hlt)] at hless
      cases hless
    exact h.withBalance (sub_nonneg.2 hcovered)
  | opened p hp =>
    refine ⟨h.balances, fun q hq => ?_⟩
    rcases List.mem_append.1 hq with hq | hq
    · exact h.positions q hq
    · rw [List.mem_singleton.1 hq]
      unfold NewPosition.Filled at hp
      norm_num at hp
      exact hp
  | closed hc =>
    obtain ⟨-, rfl⟩ := closePosition_ok hc
    exact ⟨h.balances, fun q hq => h.positions q (List.mem_filter.1 hq).1⟩
  | reduced hr =>
    obtain ⟨q, x, -, -, -, -, rfl⟩ := reducePosition_ok hr
    exact h.replace _
  | accrued days =>
    rw [accrueInterest_snd]
    split_ifs with hdays
    · exact h
    · refine ⟨h.balances, fun q hq => ?_⟩
      obtain ⟨p, hp, rfl⟩ := List.mem_map.1 hq
      rw [Num.isAtMost_iff] at hdays
      exact grown_pos (by simpa using hdays) (h.positions p hp)
  | recorded t => exact ⟨h.balances, h.positions⟩

theorem Funded.becomes {l l' : Ledger ℚ} (hs : Becomes NewPosition.Filled l l') (h : l.Funded) : l'.Funded :=
  hs.keeps (fun _ _ hs => Funded.operates hs) h

/-! ## Sound accounts -/

/-- What holds of an account at every moment of a run. -/
structure Sound (l : Ledger ℚ) : Prop where
  balances : ∀ b ∈ l.balances, 0 ≤ b.2
  amounts : ∀ p ∈ l.positions, 0 < p.amount
  kinds : ∀ p ∈ l.positions, p.kind ∈ PositionKind.all
  distinct : (l.positions.map (·.id)).Nodup
  /-- The names of the open positions, in the order of their numbers. -/
  names : ∃ ks : List Nat, ks.Pairwise (· < ·) ∧ (∀ k ∈ ks, 1 ≤ k ∧ k < l.nextPosition) ∧
    l.positions.map (·.id) = ks.map fun k => "position-" ++ Decimal.natText k
  /-- The names of the trades, without a gap. -/
  log : l.trades.map (·.id) = (List.range l.trades.length).map fun i => "trade-" ++ Decimal.natText (i + 1)

omit [ExactArithmetic] in
theorem Funded.sound {l : Ledger ℚ} (h : l.Funded) (hwf : l.WF) : l.Sound := by
  refine ⟨h.balances, h.positions, fun p _ => ?_, ?_, ⟨l.positions.map (·.number), hwf.rising, ?_, ?_⟩, ?_⟩
  · cases p.kind <;> decide
  · -- names repeat only if numbers do
    have hnodup : (l.positions.map (·.number)).Nodup := hwf.rising.imp fun hlt => hlt.ne
    have hmap := hnodup.map Position.idOf_injective
    rwa [List.map_map] at hmap
  · intro k hk
    obtain ⟨p, hp, rfl⟩ := List.mem_map.1 hk
    exact hwf.issued p hp
  · rw [List.map_map]; rfl
  · have hnames : l.trades.map (·.id) = (l.trades.map (·.number)).map fun k => "trade-" ++ Decimal.natText k := by
      rw [List.map_map]; rfl
    rw [hnames, hwf.log, List.map_map]; rfl

end

end Ledger

/-! ## Opening an account -/

/-- An account that a run starts with is funded. -/
theorem Simulation.openLedger_funded [ExactArithmetic] {capital : Num ℚ} {base : String} {holdings : Object ℚ}
    {l : Ledger ℚ} (h : openLedger capital base holdings = .ok l) : l.Funded := by
  obtain ⟨l₀, h₀, hcredits, -⟩ := openLedger_ok h Ledger.NewPosition.Filled
  refine .becomes hcredits ?_
  obtain ⟨x, hx, hpos, rfl⟩ := Ledger.start_ok h₀
  have hx0 : 0 ≤ x := by
    rw [Num.value?_exact, Option.some.injEq] at hx
    rw [← not_lt, ← hx]
    intro hneg
    rw [(Num.isAtMost_iff ..).2 (by simpa using hneg.le)] at hpos
    cases hpos
  refine ⟨fun b hb => ?_, nofun⟩
  rw [List.mem_singleton.1 hb]
  exact hx0

/-! ## Rounds -/

/-- One round of a run: some days pass, and then blocks are executed in a market. -/
structure Round (α : Type) where
  days : Num α
  market : Market α
  blocks : List (Block α)

namespace Round

variable {α : Type} [Scalar α]

/-- The account after the interest and the first so many blocks of a round. -/
def after (r : Round α) (count : Nat) (l : Ledger α) : Ledger α :=
  (SequenceRun.execute (r.blocks.take count) r.market (l.accrueInterest r.days).2).ledger

/-- The account after a whole round. -/
def settle (l : Ledger α) (r : Round α) : Ledger α := r.after r.blocks.length l

theorem after_becomes (r : Round α) (count : Nat) (l : Ledger α) :
    Ledger.Becomes Ledger.NewPosition.Filled l (r.after count l) :=
  (Ledger.Operates.accrued l r.days).becomes.trans (SequenceRun.after_becomes r.market _ none _)

theorem settle_becomes (rounds : List (Round α)) (l : Ledger α) :
    Ledger.Becomes Ledger.NewPosition.Filled l (rounds.foldl settle l) := by
  induction rounds generalizing l with
  | nil => exact .refl l
  | cons r rest ih => exact (r.after_becomes _ l).trans (ih (settle l r))

end Round

/-- At every moment of every run the account is sound, and its log starts with the log of every
earlier moment. A run starts with a positive capital and holdings not below zero; a moment of it is
the one after some rounds and some blocks of the next round, whether these fire, are skipped or
refused, or raise a fault. -/
theorem Ledger.run_sound [ExactArithmetic] {capital : Num ℚ} (base : String) {holdings : Object ℚ}
    (hcapital : 0 < capital.value) (hholdings : ∀ h ∈ holdings, ∃ x, h.2.toReal = .ok x ∧ 0 ≤ x) :
    ∃ l₀, Simulation.openLedger capital base holdings = .ok l₀ ∧ l₀.Sound ∧
      ∀ (rounds : List (Round ℚ)) (r : Round ℚ) (count : Nat),
        let l := rounds.foldl Round.settle l₀
        (r.after count l).Sound ∧ l.trades <+: (r.after count l).trades ∧
          ∀ fewer ≤ count, (r.after fewer l).trades <+: (r.after count l).trades := by
  obtain ⟨l₀, h₀⟩ := Simulation.openLedger_exact base hcapital hholdings
  have hfunded := Simulation.openLedger_funded h₀
  have hwf := (Simulation.openLedger_reachable h₀).wf
  refine ⟨l₀, h₀, hfunded.sound hwf, ?_⟩
  intro rounds r count
  refine ⟨?_, ?_, fun fewer hle => ?_⟩
  · -- whatever the blocks did, it was a number of operations, and these keep both invariants
    have hrun := (Round.settle_becomes rounds l₀).trans (r.after_becomes count _)
    exact (hfunded.becomes hrun).sound (hrun.keeps (fun _ _ hs => WF.operates hs) hwf)
  · exact (r.after_becomes count _).trades
  · exact (SequenceRun.execute_take_becomes r.market r.blocks _ hle).trades

section

local instance openPartsOfRuns : ExactArithmetic := default

/-- An account opened with a thousand and two units of another token is sound throughout. -/
theorem run_sound_two_tokens : ∃ l₀ : Ledger ℚ,
    Simulation.openLedger (.real 1000) "USDC" [(.text "WETH", .num (.whole 2))] = .ok l₀ ∧
      ∀ (rounds : List (Round ℚ)) (r : Round ℚ) (count : Nat),
        (r.after count (rounds.foldl Round.settle l₀)).Sound := by
  have hholdings : ∀ h ∈ [((.text "WETH", .num (.whole 2)) : Key ℚ × Value ℚ)], ∃ x, h.2.toReal = .ok x ∧ 0 ≤ x := by
    intro h hh
    rw [List.mem_singleton.1 hh]
    exact ⟨((2 : Int) : ℚ), rfl, by norm_num⟩
  obtain ⟨l₀, h₀, -, hmoment⟩ := Ledger.run_sound "USDC" (show 0 < (Num.real (1000 : ℚ)).value by norm_num) hholdings
  exact ⟨l₀, h₀, fun rounds r count => (hmoment rounds r count).1⟩

end

end StrategyLab
