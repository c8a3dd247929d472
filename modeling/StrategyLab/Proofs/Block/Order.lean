/-
What is settled once a block's request was read: the params it came from, the checks it passed and
the prices it met. One lemma for each kind of request, over any scalars.
-/
import StrategyLab.Block.Execute
import StrategyLab.Proofs.Agree

namespace StrategyLab

/-- A guard that throws was passed. -/
theorem guard_ok {ε γ : Type} {p : Prop} [Decidable p] {e : ε} {f : Unit → Except ε γ} {c : γ}
    (h : (if p then (throw e : Except ε Unit) >>= f else f ()) = .ok c) : ¬ p ∧ f () = .ok c := by
  split at h
  · cases h
  · rename_i hp; exact ⟨hp, h⟩

theorem PositionKind.name_injective : Function.Injective PositionKind.name := by
  intro k k' h
  cases k <;> cases k' <;> first | rfl | exact absurd h (by decide)

/-- The oldest open position that agrees with a kind, a protocol and an asset. -/
theorem Ledger.positionsWith_head? {α : Type} {l : Ledger α} (kind : PositionKind) {protocol asset : String}
    {p : Position α} (h : (l.positionsWith (some kind.name) (some protocol) (some asset)).head? = some p) :
    p ∈ l.positions ∧ p.kind = kind ∧ p.protocol = protocol ∧ p.asset = asset := by
  have hmem := List.mem_filter.1 (List.mem_of_mem_head? h)
  simp only [Option.all_some, Bool.and_eq_true, beq_iff_eq] at hmem
  exact ⟨hmem.1, PositionKind.name_injective hmem.2.1.1, hmem.2.1.2, hmem.2.2⟩

variable {α : Type} [Scalar α]

theorem Ledger.requireBalance_ok {l : Ledger α} {token : String} {x : α} {u : Unit}
    (h : l.requireBalance token x = .ok u) : ¬ l.balance token < x := by
  unfold Ledger.requireBalance at h
  split at h
  · cases h
  · assumption

namespace Block

theorem positive_ok {b : Block α} {key : String} {default : Option α} {x : α}
    (h : b.positive key default = .ok x) : b.number key default = .ok x ∧ ¬ x ≤ 0.0 := by
  obtain ⟨y, hy, h⟩ := bind_ok h
  split at h
  · cases h
  · rename_i hpos
    cases h
    exact ⟨hy, hpos⟩

theorem assetAmount_ok {b : Block α} {asset : String} {amount : α} (h : b.assetAmount = .ok (asset, amount)) :
    b.text "asset" = .ok asset ∧ b.positive "amount" none = .ok amount := by
  obtain ⟨a, ha, h⟩ := bind_ok h
  obtain ⟨x, hx, h⟩ := bind_ok h
  cases h
  exact ⟨ha, hx⟩

/-- What a swap was read from: the params, a balance that covers the amount, and two prices. -/
structure Swaps (e : Exchange) (b : Block α) (m : Market α) (l : Ledger α) (o : SwapOrder α) : Prop where
  exchange : o.exchange = e
  input : b.text "input_token" = .ok o.inputToken
  output : b.text "output_token" = .ok o.outputToken
  amount : b.positive "amount" none = .ok o.amount
  slippage : b.number "slippage" (some e.defaultSlippage) = .ok o.slippage
  slippageLo : ¬ o.slippage < 0.0
  covered : ¬ l.balance o.inputToken < o.amount
  priceIn : ∃ p, m.price o.inputToken = .ok p ∧ o.priceIn = p.value
  priceOut : ∃ p, m.price o.outputToken = .ok p ∧ o.priceOut = p.value

theorem swapOrder_ok {e : Exchange} {b : Block α} {m : Market α} {l : Ledger α} {o : SwapOrder α}
    (h : b.swapOrder e m l = .ok o) : Swaps e b m l o := by
  obtain ⟨input, hin, h⟩ := bind_ok h
  obtain ⟨output, hout, h⟩ := bind_ok h
  obtain ⟨amount, hamt, h⟩ := bind_ok h
  obtain ⟨slippage, hslip, h⟩ := bind_ok h
  obtain ⟨hlo, h⟩ := guard_ok h
  obtain ⟨u, hreq, h⟩ := bind_ok h
  obtain ⟨p, hp, h⟩ := bind_ok h
  obtain ⟨q, hq, h⟩ := bind_ok h
  cases h
  exact ⟨rfl, hin, hout, hamt, hslip, hlo, Ledger.requireBalance_ok hreq, ⟨p, hp, rfl⟩, ⟨q, hq, rfl⟩⟩

theorem depositOrder_ok {b : Block α} {m : Market α} {l : Ledger α} {defaultRate : α} {s : Stake α} {apy : α}
    (h : b.depositOrder m l defaultRate = .ok (s, apy)) :
    b.assetAmount = .ok (s.asset, s.amount) ∧ ¬ l.balance s.asset < s.amount ∧
      (∃ p, m.price s.asset = .ok p ∧ s.price = p.value) ∧
      ∃ rate, b.number "apy" (some defaultRate) = .ok rate ∧ apy = rate / 100.0 := by
  obtain ⟨⟨asset, amount⟩, ha, h⟩ := bind_ok h
  obtain ⟨rate, hr, h⟩ := bind_ok h
  obtain ⟨u, hreq, h⟩ := bind_ok h
  obtain ⟨p, hp, h⟩ := bind_ok h
  cases h
  exact ⟨ha, Ledger.requireBalance_ok hreq, ⟨p, hp, rfl⟩, rate, hr, rfl⟩

theorem borrowOrder_ok {lender : Lender} {b : Block α} {m : Market α} {l : Ledger α} {s : Stake α} {apy : α}
    (h : b.borrowOrder lender m l = .ok (s, apy)) :
    b.assetAmount = .ok (s.asset, s.amount) ∧
      l.positionsWith (some "supply") (some lender.name) none ≠ [] ∧
      (∃ p, m.price s.asset = .ok p ∧ s.price = p.value) ∧
      ∃ rate, b.number "apy" (some 0.0) = .ok rate ∧ apy = rate / 100.0 := by
  obtain ⟨⟨asset, amount⟩, ha, h⟩ := bind_ok h
  obtain ⟨rate, hr, h⟩ := bind_ok h
  obtain ⟨hne, h⟩ := guard_ok h
  obtain ⟨p, hp, h⟩ := bind_ok h
  cases h
  exact ⟨ha, by simpa using hne, ⟨p, hp, rfl⟩, rate, hr, rfl⟩

theorem repayOrder_ok {lender : Lender} {b : Block α} {m : Market α} {l : Ledger α} {debt : Position α}
    {s : Stake α} (h : b.repayOrder lender m l = .ok (debt, s)) :
    b.assetAmount = .ok (s.asset, s.amount) ∧ ¬ l.balance s.asset < s.amount ∧
      (l.positionsWith (some "borrow") (some lender.name) (some s.asset)).head? = some debt ∧
      ∃ p, m.price s.asset = .ok p ∧ s.price = p.value := by
  obtain ⟨⟨asset, amount⟩, ha, h⟩ := bind_ok h
  obtain ⟨u, hreq, h⟩ := bind_ok h
  split at h
  · cases h
  · rename_i debt' rest hd
    obtain ⟨p, hp, h⟩ := bind_ok h
    cases h
    exact ⟨ha, Ledger.requireBalance_ok hreq, by rw [hd]; rfl, p, hp, rfl⟩

theorem withdrawOrder_ok {lender : Lender} {b : Block α} {m : Market α} {l : Ledger α} {supplied : Position α}
    {s : Stake α} (h : b.withdrawOrder lender m l = .ok (supplied, s)) :
    b.assetAmount = .ok (s.asset, s.amount) ∧
      (l.positionsWith (some "supply") (some lender.name) (some s.asset)).head? = some supplied ∧
      ∃ p, m.price s.asset = .ok p ∧ s.price = p.value := by
  obtain ⟨⟨asset, amount⟩, ha, h⟩ := bind_ok h
  dsimp only at h
  split at h
  · cases h
  · rename_i supplied' rest hs
    obtain ⟨p, hp, h⟩ := bind_ok h
    cases h
    exact ⟨ha, by rw [hs]; rfl, p, hp, rfl⟩

/-- What two legs of liquidity were read from. Each balance covers its own leg; whether one balance
covers both legs is not looked at. -/
structure Pools (b : Block α) (m : Market α) (l : Ledger α) (leg0 leg1 : Stake α) : Prop where
  token0 : b.text "token0" = .ok leg0.asset
  token1 : b.text "token1" = .ok leg1.asset
  amount0 : b.number "amount0" (some 0.0) = .ok leg0.amount
  amount1 : b.number "amount1" (some 0.0) = .ok leg1.amount
  lo0 : ¬ leg0.amount < 0.0
  lo1 : ¬ leg1.amount < 0.0
  some : ¬ leg0.amount + leg1.amount ≤ 0.0
  covered0 : ¬ l.balance leg0.asset < leg0.amount
  covered1 : ¬ l.balance leg1.asset < leg1.amount
  price0 : ∃ p, m.price leg0.asset = .ok p ∧ leg0.price = p.value
  price1 : ∃ p, m.price leg1.asset = .ok p ∧ leg1.price = p.value

theorem liquidityOrder_ok {b : Block α} {m : Market α} {l : Ledger α} {leg0 leg1 : Stake α}
    (h : b.liquidityOrder m l = .ok (leg0, leg1)) : Pools b m l leg0 leg1 := by
  obtain ⟨token0, h0, h⟩ := bind_ok h
  obtain ⟨token1, h1, h⟩ := bind_ok h
  obtain ⟨amount0, ha0, h⟩ := bind_ok h
  obtain ⟨amount1, ha1, h⟩ := bind_ok h
  obtain ⟨hlo, h⟩ := guard_ok h
  simp only [not_or] at hlo
  obtain ⟨u, hr0, h⟩ := bind_ok h
  obtain ⟨v, hr1, h⟩ := bind_ok h
  obtain ⟨p, hp, h⟩ := bind_ok h
  obtain ⟨q, hq, h⟩ := bind_ok h
  cases h
  exact ⟨h0, h1, ha0, ha1, hlo.1, hlo.2.1, hlo.2.2, Ledger.requireBalance_ok hr0,
    Ledger.requireBalance_ok hr1, ⟨p, hp, rfl⟩, ⟨q, hq, rfl⟩⟩

theorem flashLoanOrder_ok {b : Block α} {m : Market α} {l : Ledger α} {s : Stake α} {fee : α}
    (h : b.flashLoanOrder m l = .ok (s, fee)) :
    b.assetAmount = .ok (s.asset, s.amount) ∧ fee = s.amount * Costs.flashLoanRate ∧
      ¬ l.balance s.asset < fee ∧ ∃ p, m.price s.asset = .ok p ∧ s.price = p.value := by
  obtain ⟨⟨asset, amount⟩, ha, h⟩ := bind_ok h
  obtain ⟨u, hreq, h⟩ := bind_ok h
  obtain ⟨p, hp, h⟩ := bind_ok h
  cases h
  exact ⟨ha, rfl, Ledger.requireBalance_ok hreq, p, hp, rfl⟩

end Block

end StrategyLab
