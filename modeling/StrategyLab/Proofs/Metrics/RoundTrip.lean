/-
Swaps there and back. A swap is recorded at the price of the token that it brings, and a pair of trades is
judged by amounts at recorded prices; the first swap of a round trip so counts the token that was sold at
the price of the token that was bought (`RoundTrip.isWin_iff`). The verdict is right where the two tokens
cost the same. Through a dearer token, trips that made money may not count as wins; through a cheaper
one, trips that lost money may (`winLoss_roundTrip`).
-/
import StrategyLab.Metrics
import StrategyLab.Proofs.Block.Atomicity
import StrategyLab.Proofs.Block.Steps

namespace StrategyLab

section

variable {α : Type} [Scalar α]

/-! ## Recorded trades -/

namespace Ledger

/-- Nothing but trades of the kinds that blocks make was recorded. -/
def RecordsKinds (l l' : Ledger α) : Prop :=
  ∃ new, l'.trades = l.trades ++ new ∧ ∀ x ∈ new, ∀ name, x.kind ≠ .other name

omit [Scalar α] in
theorem RecordsKinds.of_eq {l l' : Ledger α} (h : l'.trades = l.trades) : RecordsKinds l l' :=
  ⟨[], by rw [h, List.append_nil], fun _ hx => absurd hx List.not_mem_nil⟩

omit [Scalar α] in
theorem RecordsKinds.trans {a b c : Ledger α} (h₁ : RecordsKinds a b) (h₂ : RecordsKinds b c) : RecordsKinds a c := by
  obtain ⟨new₁, ht₁, hn₁⟩ := h₁
  obtain ⟨new₂, ht₂, hn₂⟩ := h₂
  refine ⟨new₁ ++ new₂, by rw [ht₂, ht₁, List.append_assoc], fun x hx => ?_⟩
  rcases List.mem_append.1 hx with hx | hx
  · exact hn₁ x hx
  · exact hn₂ x hx

omit [Scalar α] in
theorem RecordsKinds.record {l l' : Ledger α} (ht : l'.trades = l.trades) {n : NewTrade α}
    (hkind : ∀ name, n.kind ≠ .other name) : RecordsKinds l (l'.recordTrade n) := by
  refine ⟨[l'.nextRecorded n], ?_, fun x hx => ?_⟩
  · show l'.trades ++ _ = _
    rw [ht]
  · rw [List.mem_singleton.1 hx]
    exact hkind

end Ledger

namespace Block

theorem closings_recordKinds (m : Market α) : ∀ (closings : List (Position α × α)) (l : Ledger α),
    Ledger.RecordsKinds l (closings.foldl (Ledger.closedAt m) l)
  | [], _ => .of_eq rfl
  | c :: rest, l => by
    have hfirst : Ledger.RecordsKinds l (l.closedAt m c) := .record rfl nofun
    exact hfirst.trans (closings_recordKinds m rest _)

theorem Effect.recordsKinds {b : Block α} {m : Market α} {l l' : Ledger α} {kind : BlockKind}
    (h : Effect b m l kind l') : Ledger.RecordsKinds l l' := by
  cases h with
  | swap => exact .record rfl nofun
  | supply => exact .record rfl nofun
  | staking => exact .record rfl nofun
  | borrow => exact .record rfl nofun
  | repay ho hl => exact .record (Ledger.trades_reducePosition hl) nofun
  | withdraw ho hl => exact .record (Ledger.trades_reducePosition hl) nofun
  | liquidity => exact .record (by rw [Stake.trades_provided, Stake.trades_provided]) nofun
  | flashLoan => exact .record rfl nofun
  | exit => exact closings_recordKinds m _ _
  | report => exact .of_eq rfl

end Block

namespace Trade

/-- A trade that was recorded when a block was executed on a market. -/
def RecordedBy (t : Trade α) (b : Block α) (m : Market α) : Prop :=
  ∃ (l l' : Ledger α) (o : Outcome α) (new : List (Trade α)), l.Reachable ∧ b.execute m l = (.ok o, l') ∧
    l'.trades = l.trades ++ new ∧ t ∈ new

/-- A block that recorded a trade has fired. -/
theorem RecordedBy.effect {t : Trade α} {b : Block α} {m : Market α} (h : t.RecordedBy b m) :
    ∃ l l' kind new, b.kind? = some kind ∧ b.Effect m l kind l' ∧ l'.trades = l.trades ++ new ∧ t ∈ new := by
  obtain ⟨l, l', o, new, hl, hrun, hnew, ht⟩ := h
  cases hf : o.fired with
  | true =>
    obtain ⟨kind, hk, heff⟩ := Block.execute_fired hl.wf hrun hf
    exact ⟨l, l', kind, new, hk, heff, hnew, ht⟩
  | false =>
    have hsame : l'.trades = l.trades := by
      by_cases hover : b.Overdraws m l
      · obtain ⟨-, leg0, leg1, -, rfl⟩ := Block.execute_overdrawn hover hrun
        exact Stake.trades_provided ..
      · rcases Block.execute_whole hl.wf hover hrun with ⟨hfired, -⟩ | ⟨-, rfl⟩
        · rw [hf] at hfired
          cases hfired
        · rfl
    rw [hsame] at hnew
    rw [List.self_eq_append_right.1 hnew] at ht
    cases ht

theorem RecordedBy.kind_ne {t : Trade α} {b : Block α} {m : Market α} (h : t.RecordedBy b m) (name : String) :
    t.kind ≠ .other name := by
  obtain ⟨l, l', kind, new, -, heff, hnew, ht⟩ := h.effect
  obtain ⟨new', hnew', hkinds⟩ := heff.recordsKinds
  rw [hnew] at hnew'
  rw [List.append_cancel_left hnew'] at ht
  exact hkinds t ht name

/-- What a swap recorded is the trade of its order. -/
theorem RecordedBy.order {t : Trade α} {b : Block α} {m : Market α} {e : Exchange} (h : t.RecordedBy b m)
    (hswap : b.kind? = some (.swap e)) :
    ∃ l o, b.swapOrder e m l = .ok o ∧ ∃ l' : Ledger α, t = l'.nextRecorded (o.trade m) := by
  obtain ⟨l, l', kind, new, hk, heff, hnew, ht⟩ := h.effect
  obtain rfl : BlockKind.swap e = kind := Option.some.inj (hswap.symm.trans hk)
  obtain ⟨o, ho, rfl⟩ := heff.swap_inv
  have hone : l.trades ++ [((l.pay o.inputToken o.amount).gain o.outputToken o.output.1).nextRecorded (o.trade m)] =
      l.trades ++ new := hnew
  rw [← List.append_cancel_left hone] at ht
  exact ⟨l, o, ho, _, List.mem_singleton.1 ht⟩

end Trade

end

/-! ## Round trips -/

namespace Metrics

section

variable [ExactArithmetic]

/-- A round trip in a log of trades: a swap brings a token, and a later one gives all of it back for the
token that was sold first, which costs the same at both. No other swap or exit is in the log. -/
structure RoundTrip (trades : List (Trade ℚ)) (first second : Trade ℚ) (opening closing : Market ℚ) : Prop where
  recorded : ∀ t ∈ trades, ∃ b m, t.RecordedBy b m
  alone : trades.filter (fun t => t.kind = .swap ∨ t.kind = .exit) = [first, second]
  there : ∃ b e, b.kind? = some (.swap e) ∧ first.RecordedBy b opening
  back : ∃ b e, b.kind? = some (.swap e) ∧ second.RecordedBy b closing
  bought : first.outputToken = some second.inputToken
  returned : second.outputToken = some first.inputToken
  whole : first.outputAmount = some second.inputAmount
  steady : opening.prices.priceOr0 first.inputToken = closing.prices.priceOr0 first.inputToken

theorem priceOr0_of_price {m : Market ℚ} {token : String} {p : Num ℚ} (h : m.price token = .ok p) :
    m.prices.priceOr0 token = p.value ∧ 0 < p.value := by
  unfold Market.price at h
  unfold Quotes.priceOr0
  cases hlookup : m.prices.lookup token with
  | none =>
    rw [hlookup] at h
    cases h
  | some p' =>
    rw [hlookup] at h
    dsimp only at h ⊢
    split at h
    · cases h
    · rename_i hpositive
      cases h
      rw [Num.isAtMost_iff, Num.value_whole, Int.cast_zero, not_le] at hpositive
      exact ⟨rfl, hpositive⟩

/-- A trade that a swap recorded: its amounts, and the price of the token that it brings. -/
theorem recorded_swap {t : Trade ℚ} {b : Block ℚ} {m : Market ℚ} {e : Exchange} (h : t.RecordedBy b m)
    (hswap : b.kind? = some (.swap e)) : t.kind = .swap ∧ 0 < t.inputAmount ∧ 0 < m.prices.priceOr0 t.inputToken ∧
      ∃ token x, t.outputToken = some token ∧ t.outputAmount = some x ∧ t.price = m.prices.priceOr0 token ∧ 0 < t.price := by
  obtain ⟨l, o, ho, l', rfl⟩ := h.order hswap
  have hread := Block.swapOrder_ok ho
  have hamount := (Block.positive_ok hread.amount).2
  obtain ⟨p, hin, -⟩ := hread.priceIn
  obtain ⟨q, hout, hprice⟩ := hread.priceOut
  obtain ⟨hq, hpositive⟩ := priceOr0_of_price hout
  obtain ⟨hp, hpositive'⟩ := priceOr0_of_price hin
  norm_num at hamount
  refine ⟨rfl, hamount, hp ▸ hpositive', _, _, rfl, rfl, ?_, ?_⟩
  · exact hprice.trans hq.symm
  · exact hpositive.trans_eq hprice.symm

variable {trades : List (Trade ℚ)} {first second : Trade ℚ} {opening closing : Market ℚ}

theorem RoundTrip.isPaired (h : RoundTrip trades first second opening closing) :
    trades.filter Metrics.isPaired = [first, second] := by
  rw [← h.alone]
  refine List.filter_congr fun t ht => ?_
  obtain ⟨b, m, hrecorded⟩ := h.recorded t ht
  unfold Metrics.isPaired
  simp [hrecorded.kind_ne "entry"]

/-- What two swaps come to is one pair and the verdict on it. -/
theorem winLoss_swaps (hpaired : trades.filter isPaired = [first, second]) (hfirst : first.kind = .swap)
    (hsecond : second.kind = .swap) : winLoss trades = (if isWin first second then 1 else 0, 1) := by
  have hpairs : pairs [first, second] = [(first, second)] := by simp [pairs, opensPair, closesPair, hfirst, hsecond]
  unfold winLoss
  dsimp only
  rw [hpaired, hpairs]
  cases h : isWin first second <;> simp [h]

/-- How much of a token came back. -/
def regained (t : Trade ℚ) : ℚ := t.outputAmount.getD 0

/-- A swap that fires records one trade. -/
theorem fired_swap {b : Block ℚ} {m : Market ℚ} {l : Ledger ℚ} {e : Exchange} (hl : l.Reachable)
    (hswap : b.kind? = some (.swap e)) (hfired : (b.execute m l).1.toOption.map (·.fired) = some true) :
    ∃ t, (b.execute m l).2.trades = l.trades ++ [t] ∧ t.kind = .swap ∧ t.RecordedBy b m := by
  obtain ⟨o, hrun, hf⟩ := Block.execute_answered hfired
  obtain ⟨kind, hk, heff⟩ := Block.execute_fired hl.wf hrun hf
  obtain rfl : BlockKind.swap e = kind := Option.some.inj (hswap.symm.trans hk)
  obtain ⟨order, -, hleft⟩ := heff.swap_inv
  have htrades : (b.execute m l).2.trades = l.trades ++
      [((l.pay order.inputToken order.amount).gain order.outputToken order.output.1).nextRecorded (order.trade m)] := by
    rw [hleft]
    rfl
  exact ⟨_, htrades, rfl, l, _, o, _, hl, hrun, htrades, List.mem_singleton_self _⟩

/-- Two swaps on an account without trades make a round trip, if their legs fit. -/
theorem roundTrip_executed {b b' : Block ℚ} {opening closing : Market ℚ} {l : Ledger ℚ} {e e' : Exchange}
    (hl : l.Reachable) (hlog : l.trades = []) (hb : b.kind? = some (.swap e)) (hb' : b'.kind? = some (.swap e'))
    (hfired : (b.execute opening l).1.toOption.map (·.fired) = some true)
    (hfired' : (b'.execute closing (b.execute opening l).2).1.toOption.map (·.fired) = some true)
    {token other : String} {a x y : ℚ}
    (hlegs : (b'.execute closing (b.execute opening l).2).2.trades.map
      (fun t => (t.inputToken, t.inputAmount, t.outputToken, t.outputAmount)) =
        [(token, a, some other, some y), (other, y, some token, some x)])
    (hsteady : opening.prices.priceOr0 token = closing.prices.priceOr0 token) :
    ∃ first second, RoundTrip (b'.execute closing (b.execute opening l).2).2.trades first second opening closing ∧
      first.inputToken = token ∧ second.inputToken = other ∧ first.inputAmount = a ∧ regained second = x := by
  obtain ⟨first, hone, hkind, hfirst⟩ := fired_swap hl hb hfired
  obtain ⟨second, htwo, hkind', hsecond⟩ := fired_swap (Block.execute_reachable hl) hb' hfired'
  rw [hone, hlog, List.nil_append] at htwo
  have hboth : (b'.execute closing (b.execute opening l).2).2.trades = [first, second] := htwo
  rw [hboth] at hlegs ⊢
  simp only [List.map_cons, List.map_nil, List.cons.injEq, Prod.mk.injEq, and_true] at hlegs
  obtain ⟨⟨hin, hamount, hout, houtput⟩, hin', hamount', hout', houtput'⟩ := hlegs
  refine ⟨first, second, ⟨fun t ht => ?_, ?_, ⟨b, e, hb, hfirst⟩, ⟨b', e', hb', hsecond⟩, ?_, ?_, ?_, ?_⟩, hin, hin',
    hamount, ?_⟩
  · rcases List.mem_pair.1 ht with rfl | rfl
    · exact ⟨b, opening, hfirst⟩
    · exact ⟨b', closing, hsecond⟩
  · simp [hkind, hkind']
  · rw [hout, hin']
  · rw [hout', hin]
  · rw [houtput, hamount']
  · rw [hin]
    exact hsteady
  · unfold regained
    rw [houtput', Option.getD_some]

/-! ## Verdicts -/

/-- The verdict on a round trip that it made money exactly if more came back than was sold. -/
def earned (first second : Trade ℚ) : Nat × Nat := (if first.inputAmount < regained second then 1 else 0, 1)

/-- A round trip counts as a win if what came back, at the price of its token, is more than what was sold
at the price of the other one. If nothing came back, all that was sold stands for it. -/
theorem RoundTrip.isWin_iff (h : RoundTrip trades first second opening closing) : isWin first second = true ↔
    first.inputAmount * opening.prices.priceOr0 second.inputToken <
      (if regained second = 0 then first.inputAmount else regained second) *
        opening.prices.priceOr0 first.inputToken := by
  obtain ⟨b, e, hb, hfirst⟩ := h.there
  obtain ⟨b', e', hb', hsecond⟩ := h.back
  obtain ⟨-, -, -, token, y, hbought, -, hprice, -⟩ := recorded_swap hfirst hb
  obtain ⟨-, -, -, token', x, hregained, houtput, hprice', -⟩ := recorded_swap hsecond hb'
  rw [h.bought] at hbought
  rw [h.returned] at hregained
  cases hbought
  cases hregained
  rw [h.steady, ← hprice, ← hprice']
  have hvalue : closingValue first second = (if x = 0 then first.inputAmount else x) * second.price := by
    have hzero : (x == 0.0) = decide (x = 0) := by norm_num [beq_eq_decide]
    unfold closingValue
    rw [houtput]
    dsimp only
    rw [hzero, ite_mul]
    simp only [decide_eq_true_eq]
  unfold isWin regained
  rw [hvalue, houtput, decide_eq_true_eq, Option.getD_some]

section

omit [ExactArithmetic]

variable {a x p q : ℚ}

/-- At one price for both tokens, amounts compare as what they are worth. -/
theorem worth_same (ha : 0 < a) (hp : 0 < p) : a * p < (if x = 0 then a else x) * p ↔ a < x := by
  rw [mul_lt_mul_iff_left₀ hp]
  split_ifs with hx
  · rw [hx]
    exact iff_of_false (lt_irrefl a) ha.not_gt
  · rfl

/-- At a dearer price for what was sold, only more of it is worth more. -/
theorem worth_dearer (ha : 0 < a) (hp : 0 < p) (hpq : p < q) (h : a * q < (if x = 0 then a else x) * p) : a < x :=
  (worth_same ha hp).1 ((mul_lt_mul_of_pos_left hpq ha).trans h)

/-- At a cheaper price for what was sold, more of it is worth more. -/
theorem worth_cheaper (ha : 0 < a) (hp : 0 < p) (hqp : q < p) (h : a < x) : a * q < (if x = 0 then a else x) * p :=
  (mul_lt_mul_of_pos_left hqp ha).trans ((worth_same ha hp).2 h)

/-- At a dearer price for what was sold, worth and amount disagree on more of it that is not worth more. -/
theorem judged_dearer (ha : 0 < a) (hp : 0 < p) (hpq : p < q) :
    (a * q < (if x = 0 then a else x) * p ↔ a < x) ↔ ¬ (a < x ∧ x * p ≤ a * q) := by
  constructor
  · rintro hsame ⟨hmore, hless⟩
    have hwin := hsame.2 hmore
    rw [if_neg (ha.trans hmore).ne'] at hwin
    exact hless.not_gt hwin
  · intro hnot
    refine ⟨worth_dearer ha hp hpq, fun hmore => ?_⟩
    rw [if_neg (ha.trans hmore).ne']
    exact not_le.1 fun hless => hnot ⟨hmore, hless⟩

/-- At a cheaper price for what was sold, they disagree on no more of it that is worth more. -/
theorem judged_cheaper (ha : 0 < a) (hp : 0 < p) (hqp : q < p) :
    (a * q < (if x = 0 then a else x) * p ↔ a < x) ↔ ¬ (x ≤ a ∧ (x = 0 ∨ a * q < x * p)) := by
  constructor
  · rintro hsame ⟨hless, hwin⟩
    refine hless.not_gt (hsame.1 ?_)
    split_ifs with hx
    · exact mul_lt_mul_of_pos_left hqp ha
    · exact hwin.resolve_left hx
  · intro hnot
    refine ⟨fun hwin => ?_, worth_cheaper ha hp hqp⟩
    by_contra hless
    refine hnot ⟨not_lt.1 hless, ?_⟩
    split_ifs at hwin with hx
    · exact .inl hx
    · exact .inr hwin

theorem verdict_eq_iff {A B : Prop} [Decidable A] [Decidable B] :
    (((if A then 1 else 0, 1) : Nat × Nat) = (if B then 1 else 0, 1)) ↔ (A ↔ B) := by
  by_cases hA : A <;> by_cases hB : B <;> simp [hA, hB]

end

/-- The verdict on a round trip compares amounts at the prices of different tokens. It is right if the two
tokens cost the same. If the other token is dearer, the verdict is wrong for trips that made money, but
less than the dearer price makes of what was sold; if it is cheaper, for trips that lost money, but brought
back more than the cheaper price makes of what was sold, or nothing at all. -/
theorem winLoss_roundTrip (h : RoundTrip trades first second opening closing) :
    let a := first.inputAmount
    let x := regained second
    let p := opening.prices.priceOr0 first.inputToken
    let q := opening.prices.priceOr0 second.inputToken
    0 < a ∧ 0 < p ∧ 0 < q ∧
      winLoss trades = (if a * q < (if x = 0 then a else x) * p then 1 else 0, 1) ∧
      (q = p → winLoss trades = earned first second) ∧
      (p < q → (winLoss trades = earned first second ↔ ¬ (a < x ∧ x * p ≤ a * q))) ∧
      (q < p → (winLoss trades = earned first second ↔ ¬ (x ≤ a ∧ (x = 0 ∨ a * q < x * p)))) := by
  intro a x p q
  obtain ⟨b, e, hb, hfirst⟩ := h.there
  obtain ⟨b', e', hb', hsecond⟩ := h.back
  obtain ⟨hswap, ha, hp, token, -, hbought, -, hprice, hq⟩ := recorded_swap hfirst hb
  obtain ⟨hswap', -⟩ := recorded_swap hsecond hb'
  rw [h.bought] at hbought
  cases hbought
  rw [hprice] at hq
  have hverdict : winLoss trades = (if a * q < (if x = 0 then a else x) * p then 1 else 0, 1) := by
    rw [winLoss_swaps h.isPaired hswap hswap']
    exact verdict_eq_iff.2 h.isWin_iff
  -- the verdict is right if and only if worth and amount compare alike
  have hright : winLoss trades = earned first second ↔ (a * q < (if x = 0 then a else x) * p ↔ a < x) := by
    rw [hverdict]
    exact verdict_eq_iff
  refine ⟨ha, hp, hq, hverdict, fun hpq => ?_, fun hpq => ?_, fun hqp => ?_⟩
  · rw [hright, hpq]
    exact worth_same ha hp
  · rw [hright]
    exact judged_dearer ha hp hpq
  · rw [hright]
    exact judged_cheaper ha hp hqp

end

/-! ## Trips through a stable token and through a dear one -/

section

local instance openPartsOfTrips : ExactArithmetic := default

/-- A swap on Uniswap without slippage. -/
def plainSwap (input output : String) (amount : ℚ) : Block ℚ :=
  { id := "swap", kind := "uniswap_swap", category := .protocol, label := "",
    params := [(.text "input_token", .text input), (.text "output_token", .text output),
      (.text "amount", .num (.real amount)), (.text "slippage", .num (.real 0))] }

/-- A market in which a dollar costs one. -/
def dollarMarket (token : String) (price : ℚ) : Market ℚ :=
  { timestamp := .known 0, prices := [("USDC", .real 1), (token, .real price)], history := [] }

/-- The account after a hundred dollars went into a token. -/
def afterPurchase (token : String) (price : ℚ) : Ledger ℚ :=
  ((plainSwap "USDC" token 100).execute (dollarMarket token price) Block.thousand).2

/-- The log after a hundred dollars went into a token, and an amount of it back into dollars. -/
def dollarTrip (token : String) (price later amount : ℚ) : List (Trade ℚ) :=
  ((plainSwap token "USDC" amount).execute (dollarMarket token later) (afterPurchase token price)).2.trades

theorem dollarTrip_roundTrip {token : String} {price later x y : ℚ}
    (hfired : ((plainSwap "USDC" token 100).execute (dollarMarket token price) Block.thousand).1.toOption.map (·.fired) =
      some true)
    (hfired' : ((plainSwap token "USDC" y).execute (dollarMarket token later)
      (afterPurchase token price)).1.toOption.map (·.fired) = some true)
    (hlegs : (dollarTrip token price later y).map (fun t => (t.inputToken, t.inputAmount, t.outputToken, t.outputAmount)) =
      [("USDC", 100, some token, some y), (token, y, some "USDC", some x)]) :
    ∃ first second, RoundTrip (dollarTrip token price later y) first second (dollarMarket token price)
      (dollarMarket token later) ∧ first.inputToken = "USDC" ∧ second.inputToken = token ∧ first.inputAmount = 100 ∧
        regained second = x :=
  roundTrip_executed Block.thousand_reachable rfl (show (plainSwap "USDC" token 100).kind? = some (.swap .uniswap) from rfl)
    (show (plainSwap token "USDC" y).kind? = some (.swap .uniswap) from rfl) hfired hfired' hlegs rfl

/-- A hundred dollars go into another token that costs one; it rises by a tenth, and the trip counts as the
win that it is. -/
theorem stable_trip_won : ∃ first second,
    RoundTrip (dollarTrip "DAI" 1 1.1 99.7) first second (dollarMarket "DAI" 1) (dollarMarket "DAI" 1.1) ∧
      first.inputAmount = 100 ∧ regained second = 109.34099 ∧ winLoss (dollarTrip "DAI" 1 1.1 99.7) = (1, 1) := by
  have hlegs : (dollarTrip "DAI" 1 1.1 99.7).map (fun t => (t.inputToken, t.inputAmount, t.outputToken, t.outputAmount)) =
      [("USDC", 100, some "DAI", some 99.7), ("DAI", 99.7, some "USDC", some 109.34099)] := by decide +kernel
  obtain ⟨first, second, htrip, hin, hin', hamount, hregained⟩ :=
    dollarTrip_roundTrip (by decide +kernel) (by decide +kernel) hlegs
  obtain ⟨-, -, -, -, hsame, -, -⟩ := winLoss_roundTrip htrip
  rw [hin, hin'] at hsame
  refine ⟨first, second, htrip, hamount, hregained, (hsame rfl).trans ?_⟩
  unfold earned
  rw [hamount, hregained, if_pos (by norm_num)]

/-- A hundred dollars go into ether, which then doubles: the trip nearly doubled them, but counts as a loss.
A hundred dollars go into a token that costs a tenth, and straight back: the trip lost the fees, but counts
as a win. -/
theorem trips_misjudged :
    (∃ first second, RoundTrip (dollarTrip "ETH" 2000 4000 0.04985) first second (dollarMarket "ETH" 2000)
      (dollarMarket "ETH" 4000) ∧ first.inputAmount = 100 ∧ regained second = 198.8018 ∧
        winLoss (dollarTrip "ETH" 2000 4000 0.04985) = (0, 1)) ∧
    ∃ first second, RoundTrip (dollarTrip "DOGE" 0.1 0.1 997) first second (dollarMarket "DOGE" 0.1)
      (dollarMarket "DOGE" 0.1) ∧ first.inputAmount = 100 ∧ regained second = 99.4009 ∧
        winLoss (dollarTrip "DOGE" 0.1 0.1 997) = (1, 1) := by
  have hether : (dollarTrip "ETH" 2000 4000 0.04985).map
      (fun t => (t.inputToken, t.inputAmount, t.outputToken, t.outputAmount)) =
        [("USDC", 100, some "ETH", some 0.04985), ("ETH", 0.04985, some "USDC", some 198.8018)] := by decide +kernel
  have hdoge : (dollarTrip "DOGE" 0.1 0.1 997).map
      (fun t => (t.inputToken, t.inputAmount, t.outputToken, t.outputAmount)) =
        [("USDC", 100, some "DOGE", some 997), ("DOGE", 997, some "USDC", some 99.4009)] := by decide +kernel
  obtain ⟨first, second, htrip, -, -, hamount, hregained⟩ :=
    dollarTrip_roundTrip (by decide +kernel) (by decide +kernel) hether
  obtain ⟨first', second', htrip', -, -, hamount', hregained'⟩ :=
    dollarTrip_roundTrip (by decide +kernel) (by decide +kernel) hdoge
  exact ⟨⟨first, second, htrip, hamount, hregained, by decide +kernel⟩, first', second', htrip', hamount', hregained',
    by decide +kernel⟩

end

end Metrics

end StrategyLab
