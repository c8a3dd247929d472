/-
The rules of exit blocks, in exact arithmetic. A rule says of an open position and a market whether the
position is to be closed (`ExitRule.isMet`), in terms of prices, percentages and ages alone; what a block
decides about a position is its rule (`Decides.rule`).

Main statement: an exit block that is not refused closes exactly the positions it looks at that meet its
rule, and credits each of them in full (`exit_closes_met`).
-/
import StrategyLab.Proofs.Block.Closing
import StrategyLab.Proofs.Block.Conservation

namespace StrategyLab

/-! ## Rules -/

/-- How much a price is above the entry price of a position, in percent of the entry price. -/
def Position.gain (p : Position ℚ) (price : ℚ) : ℚ := (price - p.entryPrice) / p.entryPrice * 100

/-- The comparison of two numbers that a sign stands for. -/
def Comparator.compares (op : Comparator) (x y : ℚ) : Bool :=
  match op with
  | .atLeast => decide (x ≥ y)
  | .atMost => decide (x ≤ y)
  | .above => decide (x > y)
  | .below => decide (x < y)
  | .near => decide (|x - y| < 1 / 100)

/-- When an exit block closes a position. -/
inductive ExitRule where
  /-- A loss of so many percent or more. -/
  | loss (threshold : ℚ)
  /-- A gain of so many percent or more. -/
  | gain (target : ℚ)
  /-- An age of so many nanoseconds or more. -/
  | age (duration : Int)
  /-- A price, a gain or a loss in percent that compares as written. -/
  | condition (c : ExitCondition ℚ)

/-- What a condition looks at, for a position at a price. -/
def Measure.of (measure : Measure) (p : Position ℚ) (price : ℚ) : ℚ :=
  match measure with
  | .price => price
  | .profit => p.gain price
  | .loss => -p.gain price

section

variable [ExactArithmetic]

/-- The asset of a position has a positive price, its entry price is positive, and a test holds at
the price. -/
def Market.atPrice (m : Market ℚ) (p : Position ℚ) (test : ℚ → Bool) : Bool :=
  match m.prices.lookup p.asset with
  | some price => decide (0 < price.value) && decide (0 < p.entryPrice) && test price.value
  | none => false

/-- A position is to be closed. -/
def ExitRule.isMet (rule : ExitRule) (m : Market ℚ) (p : Position ℚ) : Bool :=
  match rule with
  | .loss threshold => m.atPrice p fun price => decide (-p.gain price ≥ threshold)
  | .gain target => m.atPrice p fun price => decide (p.gain price ≥ target)
  | .age duration =>
    match m.timestamp, p.opened with
    | .known now, .known opened => decide (now - opened ≥ duration)
    | _, _ => false
  | .condition c => m.atPrice p fun price => c.comparator.compares (c.measure.of p price) c.threshold

/-! ## Numbers in exact arithmetic -/

theorem Duration.ofMilliseconds_exact {milliseconds : ℚ} {duration : Int} (hpos : 0 < milliseconds)
    (h : Duration.ofMilliseconds (.real milliseconds) = .ok duration) : duration = ⌊milliseconds * 1000000⌋ := by
  unfold Duration.ofMilliseconds Duration.ofScalar Scalar.wholePart? Duration.ofNanoseconds at h
  simp only [Scalar.rational?_exact, Option.map_some] at h
  have hscale : milliseconds * 1000000.0 = milliseconds * 1000000 := by norm_num
  rw [hscale] at h
  split at h
  · cases h
    rw [Rat.floor_def', Int.tdiv_eq_ediv_of_nonneg (Rat.num_nonneg.2 (by positivity))]
  · cases h

theorem Comparator.holds_exact (op : Comparator) (x : Num ℚ) (y : ℚ) :
    op.holds x (.real y) = op.compares x.value y := by
  cases op with
  | atLeast => exact Bool.eq_iff_iff.2 ((Num.isAtMost_iff ..).trans (by simp [Comparator.compares]))
  | atMost => exact Bool.eq_iff_iff.2 ((Num.isAtMost_iff ..).trans (by simp [Comparator.compares]))
  | above => exact Bool.eq_iff_iff.2 ((Num.isLess_iff ..).trans (by simp [Comparator.compares]))
  | below => exact Bool.eq_iff_iff.2 ((Num.isLess_iff ..).trans (by simp [Comparator.compares]))
  | near =>
    unfold Comparator.holds Comparator.compares
    dsimp only
    rw [Num.value_real, Scalar.magnitude_exact]
    norm_num

namespace Block

/-- The rule that the params of an exit block write. A duration is one of whole nanoseconds. -/
inductive Writes (b : Block ℚ) : BlockKind → ExitRule → Prop where
  | stopLoss {threshold : ℚ} : b.positive "percentage" (some 10) = .ok threshold →
      Writes b .stopLoss (.loss threshold)
  | takeProfit {target : ℚ} : b.positive "percentage" (some 20) = .ok target →
      Writes b .takeProfit (.gain target)
  | timeExit {milliseconds : ℚ} : b.positive "duration" (some 86400000) = .ok milliseconds →
      Writes b .timeExit (.age ⌊milliseconds * 1000000⌋)
  | conditionalExit {text : String} {c : ExitCondition ℚ} : b.text "condition" = .ok text →
      ExitCondition.read? text = some c → Writes b .conditionalExit (.condition c)

/-! ## Decisions follow the rules -/

theorem changePercent_exact {p : Position ℚ} {price change : ℚ} (h : changePercent p price = .ok change) :
    change = p.gain price := by
  unfold changePercent at h
  dsimp only at h
  split at h
  · cases h
  · rename_i hentry
    have hne : p.amount * p.entryPrice ≠ 0 := by
      intro hzero
      rw [hzero] at hentry
      norm_num at hentry
    obtain ⟨hamount, hprice⟩ := mul_ne_zero_iff.1 hne
    cases h
    unfold Position.gain
    norm_num
    field_simp

theorem atMarket_isSome {m : Market ℚ} {p : Position ℚ}
    {condition : Position ℚ → Num ℚ → Except (Fault ℚ) Bool} {test : ℚ → Bool} {choice : Option ℚ}
    (hcondition : ∀ price met, condition p price = .ok met → met = test price.value)
    (h : atMarket m condition p = .ok choice) : choice.isSome = m.atPrice p test := by
  unfold atMarket at h
  unfold Market.atPrice
  cases hprice : m.prices.lookup p.asset with
  | none =>
    rw [hprice] at h
    cases h
    rfl
  | some price =>
    rw [hprice] at h
    dsimp only at h ⊢
    split at h
    · rename_i hnot
      cases h
      simp only [Bool.or_eq_true, Num.isAtMost_iff, decide_eq_true_eq] at hnot
      norm_num at hnot
      rcases hnot with hnot | hnot <;> simp [not_lt.2 hnot]
    · rename_i hpos
      simp only [Bool.or_eq_true, Num.isAtMost_iff, decide_eq_true_eq, not_or] at hpos
      norm_num at hpos
      obtain ⟨met, hmet, h⟩ := bind_ok h
      cases h
      rw [hcondition _ _ hmet]
      cases htest : test price.value <;> simp [hpos.1, hpos.2]

theorem meets_exact {c : ExitCondition ℚ} {p : Position ℚ} {price : Num ℚ} {met : Bool}
    (h : meets c p price = .ok met) : met = c.comparator.compares (c.measure.of p price.value) c.threshold := by
  unfold meets at h
  cases hmeasure : c.measure with
  | price =>
    rw [hmeasure] at h
    cases h
    exact Comparator.holds_exact ..
  | profit =>
    rw [hmeasure] at h
    simp only [pure_bind] at h
    obtain ⟨change, hchange, h⟩ := bind_ok h
    cases h
    rw [Comparator.holds_exact, Num.value_real, changePercent_exact hchange]
    rfl
  | loss =>
    rw [hmeasure] at h
    simp only [pure_bind] at h
    obtain ⟨change, hchange, h⟩ := bind_ok h
    cases h
    rw [Comparator.holds_exact, Num.value_real, changePercent_exact hchange]
    rfl

theorem whenAged_isSome {m : Market ℚ} {p : Position ℚ} {duration : Int} {choice : Option ℚ}
    (h : whenAged m duration p = .ok choice) : choice.isSome = (ExitRule.age duration).isMet m p := by
  obtain ⟨isDue, hdue, h⟩ := bind_ok h
  cases h
  obtain ⟨age, hage, hdue⟩ := bind_ok hdue
  unfold Instant.elapsed? Instant.minus? at hage
  unfold ExitRule.isMet
  cases hnow : m.timestamp with
  | missing =>
    rw [hnow] at hage
    cases hage
    cases hdue
    rfl
  | known now =>
    cases hopened : p.opened with
    | missing =>
      rw [hnow, hopened] at hage
      cases hage
      cases hdue
      rfl
    | known opened =>
      rw [hnow, hopened] at hage
      dsimp only at hage
      split_ifs at hage
      · cases hage
        cases hdue
        by_cases hlong : duration ≤ now - opened <;> simp [hlong]
      · cases hage

/-- A decision about a position is the rule that the block writes. -/
theorem Decides.rule {b : Block ℚ} {m : Market ℚ} {kind : BlockKind}
    {decision : Position ℚ → Except (Fault ℚ) (Option ℚ)} (h : Decides b m kind decision) :
    ∃ rule, b.Writes kind rule ∧ ∀ p choice, decision p = .ok choice → choice.isSome = rule.isMet m p := by
  cases h with
  | stopLoss ht =>
    refine ⟨_, .stopLoss (by norm_num at ht; exact ht), fun p choice hp => ?_⟩
    unfold ExitRule.isMet
    refine atMarket_isSome (fun price met hmet => ?_) hp
    obtain ⟨change, hchange, hmet⟩ := bind_ok hmet
    cases hmet
    rw [changePercent_exact hchange]
  | takeProfit ht =>
    refine ⟨_, .takeProfit (by norm_num at ht; exact ht), fun p choice hp => ?_⟩
    unfold ExitRule.isMet
    refine atMarket_isSome (fun price met hmet => ?_) hp
    obtain ⟨change, hchange, hmet⟩ := bind_ok hmet
    cases hmet
    rw [changePercent_exact hchange]
  | timeExit ht =>
    refine ⟨_, .timeExit (by norm_num at ht; exact ht), fun p choice hp => ?_⟩
    obtain ⟨duration, hd, hp⟩ := bind_ok hp
    have hpos := (positive_ok ht).2
    norm_num at hpos
    rw [← Duration.ofMilliseconds_exact hpos hd]
    exact whenAged_isSome hp
  | conditionalExit ht hc =>
    refine ⟨_, .conditionalExit ht hc, fun p choice hp => ?_⟩
    unfold ExitRule.isMet
    exact atMarket_isSome (fun price met => meets_exact) hp

/-! ## What is closed -/

/-- A block looks at a position that is no debt, and in its asset if it names one. -/
theorem looksAt_iff (b : Block ℚ) (p : Position ℚ) : b.looksAt p = true ↔
    p.kind ≠ .borrow ∧ (b.param? "asset" = none ∨ b.param? "asset" = some .null ∨
      b.param? "asset" = some (.text p.asset)) := by
  unfold looksAt Position.isLiability
  rw [Bool.and_eq_true]
  refine and_congr (by simp) ?_
  cases b.param? "asset" with
  | none => simp
  | some v =>
    cases v with
    | text asset => simp [@eq_comm _ asset p.asset]
    | _ => simp

/-- The positions that a block with a rule closes. -/
def closes (b : Block ℚ) (rule : ExitRule) (m : Market ℚ) (p : Position ℚ) : Bool :=
  b.looksAt p && rule.isMet m p

/-- The account and the outcome of a block that closed the positions of a list in full, and nothing else. -/
structure ClosedInFull (m : Market ℚ) (closed : List (Position ℚ)) (l : Ledger ℚ) (o : Outcome ℚ)
    (l' : Ledger ℚ) : Prop where
  noDebt : ∀ p ∈ closed, p.kind ≠ .borrow
  credited : ∀ token, l'.balance token =
    l.balance token + ((closed.filter fun p => p.asset = token).map (·.amount)).sum
  others : ∀ token, (∀ p ∈ closed, p.asset ≠ token) → l'.balances.lookup token = l.balances.lookup token
  /-- One trade for each, in the order of the positions. -/
  trades : ∃ new, l'.trades = l.trades ++ new ∧
    List.Forall₂ (fun p t => ∃ price, RecordsClosing m (p, price) t) closed new
  fired : o.fired = true ↔ closed ≠ []

theorem balance_closings (m : Market ℚ) (closings : List (Position ℚ × ℚ)) (l : Ledger ℚ) (token : String) :
    (closings.foldl (Ledger.closedAt m) l).balance token =
      l.balance token + (((closings.map (·.1)).filter fun p => p.asset = token).map (·.amount)).sum := by
  induction closings generalizing l with
  | nil => simp
  | cons c rest ih =>
    have hfirst : (l.closedAt m c).balance token = l.balance token + if token = c.1.asset then c.1.amount else 0 :=
      Ledger.balance_gain_exact ..
    rw [List.foldl_cons, ih, hfirst, List.map_cons]
    by_cases hasset : c.1.asset = token
    · rw [List.filter_cons_of_pos (by simpa using hasset), if_pos hasset.symm, List.map_cons, List.sum_cons]
      ring
    · rw [List.filter_cons_of_neg (by simpa using hasset), if_neg (Ne.symm hasset), add_zero]

/-- The closings of a decision are the positions of the rule that it follows. -/
theorem closings_rule {b : Block ℚ} {m : Market ℚ} {l : Ledger ℚ} {rule : ExitRule}
    {decision : Position ℚ → Except (Fault ℚ) (Option ℚ)}
    (hdecided : ∀ p ∈ b.assetPositions l, ∃ choice, decision p = .ok choice)
    (hrule : ∀ p choice, decision p = .ok choice → choice.isSome = rule.isMet m p) :
    (b.closings decision l).map (·.1) = l.positions.filter (b.closes rule m) := by
  unfold closings
  rw [fst_chosen]
  have hmet : (b.assetPositions l).filter (fun p => (chosen decision p).isSome) =
      (b.assetPositions l).filter (rule.isMet m) := by
    refine List.filter_congr fun p hp => ?_
    obtain ⟨choice, hchoice⟩ := hdecided p hp
    rw [← hrule p choice hchoice]
    unfold chosen
    rw [hchoice]
    cases choice <;> rfl
  rw [hmet, assetPositions_eq, List.filter_filter]
  exact List.filter_congr fun p _ => Bool.and_comm ..

/-- An exit block that is not refused closes the positions that it looks at and that meet its rule; all others
stay as they are, in their order. -/
theorem exit_closes_met {b : Block ℚ} {m : Market ℚ} {l l' : Ledger ℚ} {o : Outcome ℚ} {kind : BlockKind}
    (hl : l.Reachable) (hk : b.kind? = some kind) (hexit : kind.category = .exit)
    (h : b.execute m l = (.ok o, l')) (hok : o.ok = true) :
    ∃ rule, b.Writes kind rule ∧
      l'.positions = l.positions.filter (fun p => !b.closes rule m p) ∧
      ClosedInFull m (l.positions.filter (b.closes rule m)) l o l' := by
  obtain ⟨decision, hdecides, hcloses⟩ := execute_closes hk hexit h hok
  obtain ⟨rule, hwrites, hrule⟩ := hdecides.rule
  -- the positions that are closed are those that meet the rule, in their order
  have hclosed := closings_rule hcloses.decided hrule
  refine ⟨rule, hwrites, ?_, ?_⟩
  · rw [hcloses.left]
    exact positions_closed hl.wf m hclosed
  constructor
  · intro p hp
    have hlooked := (Bool.and_eq_true_iff.1 (List.mem_filter.1 hp).2).1
    exact ((looksAt_iff b p).1 hlooked).1
  · intro token
    rw [hcloses.left, balance_closings, hclosed]
  · intro token hothers
    rw [hcloses.left]
    refine lookup_closings m _ l fun c hc => hothers c.1 ?_
    rw [← hclosed]
    exact List.mem_map_of_mem hc
  · obtain ⟨new, htrades, hnew⟩ := trades_closings m (b.closings decision l) l
    refine ⟨new, by rw [hcloses.left, htrades], ?_⟩
    rw [← hclosed, List.forall₂_map_left_iff]
    exact hnew.imp fun c t hct => ⟨c.2, hct⟩
  · rw [hcloses.fired, ← hclosed, Ne, Ne, List.map_eq_nil_iff]

end Block

end

/-! ## Several positions at a market -/

namespace Block

local instance openPartsOfExits : ExactArithmetic := default

/-- A position in a token that was entered at a price. -/
def enteredAt (kind : PositionKind) (asset : String) (amount entryPrice : ℚ) : Ledger.NewPosition ℚ :=
  { kind, asset, amount, entryPrice, opened := .known 0, protocol := "aave", apy := 0 }

/-- An account with two losses, a debt, a position at par and one without a price. -/
def withLosses : Ledger ℚ :=
  [enteredAt .supply "USDC" 10 2, enteredAt .borrow "USDC" 20 2, enteredAt .supply "USDC" 40 1,
    enteredAt .staking "WETH" 80 2, enteredAt .liquidity "USDC" 30 4].foldl Ledger.openPosition thousand

theorem openings_reachable (ps : List (Ledger.NewPosition ℚ)) {l : Ledger ℚ} (hl : l.Reachable) :
    (ps.foldl Ledger.openPosition l).Reachable := by
  induction ps generalizing l with
  | nil => exact hl
  | cons p rest ih =>
    have hopens : Ledger.Operates (fun _ => True) l (l.openPosition p) := .opened l p trivial
    exact ih (hl.becomes hopens.becomes)

/-- A stop loss at the loss it has by default. -/
def stopLossByDefault : Block ℚ := { id := "x", kind := "stop_loss", category := .exit, label := "", params := [] }

/-- Of five positions the two losses are closed. -/
theorem stop_loss_closes_losses : ∃ (l' : Ledger ℚ) (o : Outcome ℚ),
    stopLossByDefault.execute marketAtPar withLosses = (.ok o, l') ∧ o.fired = true ∧
      l'.positions.map (·.number) = [2, 3, 4] ∧ l'.balance "USDC" = 1040 ∧ ∃ rule,
        stopLossByDefault.Writes .stopLoss rule ∧
          ClosedInFull marketAtPar (withLosses.positions.filter (stopLossByDefault.closes rule marketAtPar))
            withLosses o l' := by
  have hran : (stopLossByDefault.execute marketAtPar withLosses).1.toOption.map (·.fired) = some true := by
    decide +kernel
  have hleft : (stopLossByDefault.execute marketAtPar withLosses).2.positions.map (·.number) = [2, 3, 4] := by
    decide +kernel
  have hpaid : (stopLossByDefault.execute marketAtPar withLosses).2.balance "USDC" = 1040 := by decide +kernel
  obtain ⟨o, ho, hf⟩ := execute_answered hran
  have hok : (stopLossByDefault.execute marketAtPar withLosses).1.toOption.map (·.ok) = some true := by decide +kernel
  rw [ho] at hok
  obtain ⟨rule, hwrites, -, hclosed⟩ :=
    exit_closes_met (openings_reachable _ thousand_reachable) rfl rfl ho (Option.some.inj hok)
  exact ⟨_, o, ho, hf, hleft, hpaid, rule, hwrites, hclosed⟩

end Block

end StrategyLab
