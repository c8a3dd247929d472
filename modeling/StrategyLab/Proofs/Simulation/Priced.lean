/-
No holding is left out of the value of an account. At every moment of a step that is executed, each token
with a balance and the asset of each open position has a price above zero among those of the step
(`holdings_priced`). The tokens of a run are collected from its strategy once, before the first step; that
they take in whatever the blocks come to hold is so because a block acts only in tokens with a price, and
there are prices for no others.
-/
import StrategyLab.Proofs.Block.Tokens
import StrategyLab.Proofs.Agree
import StrategyLab.Proofs.Simulation.Coverage
import StrategyLab.Proofs.Simulation.Prefix

namespace StrategyLab

variable {α : Type} [Scalar α]

/-! ## Accounts at prices -/

namespace Ledger

/-- Each token of the account has a price above zero. -/
def Priced (quotes : Quotes α) (l : Ledger α) : Prop :=
  l.Within fun token => ∃ p, quotes.lookup token = some (.real p) ∧ 0.0 < p

/-- Prices of further tokens make no difference to the value of an account. -/
theorem Priced.equity {l : Ledger α} {quotes more : Quotes α} (h : l.Priced quotes)
    (hmore : ∀ token p, quotes.lookup token = some p → more.lookup token = some p) : l.equity more = l.equity quotes := by
  have hprice : ∀ token, (∃ p, quotes.lookup token = some (.real p) ∧ 0.0 < p) →
      more.priceOr0 token = quotes.priceOr0 token := by
    rintro token ⟨p, hp, -⟩
    unfold Quotes.priceOr0
    rw [hp, hmore token _ hp]
  unfold Ledger.equity
  refine (List.foldl_ext _ _ _ fun sum p hp => ?_).trans
    (congrArg (fun cash => l.positions.foldl (fun sum p => sum + signedValue quotes p) cash) ?_)
  · unfold signedValue
    rw [hprice p.asset (h.positions p hp)]
  · refine List.foldl_ext _ _ _ fun sum b hb => ?_
    show sum + b.2 * more.priceOr0 b.1 = sum + b.2 * quotes.priceOr0 b.1
    rw [hprice b.1 (h.balances b hb)]

end Ledger

namespace Simulation

/-! ## The prices of a step -/

/-- Prices as blocks see them. -/
def quotesOf (prices : List (String × α)) : Quotes α := prices.map fun (token, price) => (token, .real price)

omit [Scalar α] in
theorem quotesOf_lookup (prices : List (String × α)) (token : String) :
    (quotesOf prices).lookup token = (prices.lookup token).map .real := by
  unfold quotesOf
  induction prices with
  | nil => rfl
  | cons b rest ih =>
    rw [List.map_cons, List.lookup_cons, List.lookup_cons, ih]
    cases token == b.1 <;> rfl

/-- Only prices above zero are kept. -/
theorem stepPrices_pos {o : Oracle α} {base : String} {t : Instant} : ∀ {needed : List String}
    {prices : List (String × α)}, stepPrices o base t needed = .ok prices → ∀ b ∈ prices, 0.0 < b.2
  | [], prices, h => by cases h; nofun
  | token :: rest, prices, h => by
    unfold stepPrices at h
    rw [filterMapM_step] at h
    obtain ⟨own, hown, h⟩ := bind_ok h
    obtain ⟨others, hothers, h⟩ := bind_ok h
    cases h
    intro b hb
    rcases List.mem_append.1 hb with hb | hb
    · obtain ⟨price, -, hown⟩ := bind_ok hown
      split at hown
      · rename_i hpos
        cases hown
        rw [List.mem_singleton.1 hb]
        exact hpos
      · cases hown
        cases hb
    · exact stepPrices_pos hothers b hb

/-- The tokens that a step has prices for are needed ones. -/
theorem asks_needed {o : Oracle α} {base : String} {t : Instant} {needed : List String} {prices : List (String × α)}
    (h : stepPrices o base t needed = .ok prices) {m : Market α} (hm : m.prices = quotesOf prices) :
    m.Asks (· ∈ needed) := by
  intro token p hp
  unfold Market.price at hp
  split at hp
  · rename_i x hx
    rw [hm, quotesOf_lookup] at hx
    obtain ⟨price, hprice, -⟩ := Option.map_eq_some_iff.1 hx
    exact (stepPrices_sublist h).mem (List.mem_map_of_mem (mem_of_lookup hprice))
  · cases hp

/-- A step that is not skipped has a price for each needed token. -/
theorem needed_priced {o : Oracle α} {base : String} {t : Instant} {needed : List String} {prices : List (String × α)}
    (h : stepPrices o base t needed = .ok prices) (hall : ¬ prices.length < needed.length) {token : String}
    (ht : token ∈ needed) : ∃ p, (quotesOf prices).lookup token = some (.real p) ∧ 0.0 < p := by
  have hnames : prices.map (·.1) = needed := (stepPrices_sublist h).eq_of_length_le (by rw [List.length_map]; omega)
  rw [← hnames] at ht
  cases hp : prices.lookup token with
  | none =>
    obtain ⟨b, hb, rfl⟩ := List.mem_map.1 ht
    exact absurd (List.lookup_eq_none_iff.1 hp b hb) (by simp)
  | some p => exact ⟨p, by rw [quotesOf_lookup, hp]; rfl, stepPrices_pos h _ (mem_of_lookup hp)⟩

/-! ## The tokens of a run -/

/-- An account is opened in its base currency and the tokens of its holdings. -/
theorem openLedger_within {T : String → Prop} {capital : Num α} {base : String} {holdings : Object α} {l : Ledger α}
    (h : openLedger capital base holdings = .ok l) (hbase : T base) (hholdings : ∀ x ∈ holdings, T x.1.shown) :
    l.Within T := by
  rw [openLedger_eq] at h
  obtain ⟨l₀, h₀, h⟩ := bind_ok h
  rw [liftM_ledger] at h₀
  obtain ⟨x, -, -, rfl⟩ := Ledger.start_ok h₀
  refine foldlM_keeps (fun holding hmem l l' hl hcredit => ?_)
    ⟨fun b hb => ?_, fun p hp => absurd hp List.not_mem_nil⟩ h
  · obtain ⟨x, -, hcredit⟩ := bind_ok hcredit
    rw [liftM_ledger] at hcredit
    obtain ⟨y, -, -, rfl⟩ := Ledger.credit_ok hcredit
    exact hl.withBalance (hholdings holding hmem) _
  · rw [List.mem_singleton.1 hb]
    exact hbase

variable {blocks : List (Block α)} {o : Oracle α} {base : String} {needed : List String} {s s' : State α} {t : Instant}
  {prices : List (String × α)}

/-- After any number of blocks of a step the account holds needed tokens only. -/
theorem stepRun_within (hprices : stepPrices o base t needed = .ok prices) (hs : s.ledger.Within (· ∈ needed))
    (blocks : List (Block α)) (days : α) : (stepRun blocks s t prices days).ledger.Within (· ∈ needed) :=
  SequenceRun.after_within (asks_needed hprices rfl) blocks none (hs.accrueInterest (.real days))

theorem executeStep_ledger (h : executeStep blocks s t prices = .ok s') :
    ∃ days, daysSince s.lastStep t = .ok days ∧ s'.ledger = (stepRun blocks s t prices days).ledger := by
  obtain ⟨days, hdays, h⟩ := bind_ok h
  dsimp only at h
  split at h
  · cases h
  · cases h
    exact ⟨days, hdays, rfl⟩

theorem step_within (hs : s.ledger.Within (· ∈ needed)) (h : step blocks o base needed s t = .ok s') :
    s'.ledger.Within (· ∈ needed) := by
  obtain ⟨prices, hprices, h⟩ := bind_ok h
  split at h
  · cases h
    exact hs
  · obtain ⟨days, -, hledger⟩ := executeStep_ledger h
    rw [hledger]
    exact stepRun_within hprices hs blocks days

/-! ## Moments -/

/-- A step of a run that is executed: the tokens of the strategy, what was fetched for them, the account at
the start and the instants before, and then the state, the instant and the prices of the step. -/
structure Visit (blocks : List (Block α)) (o : Oracle α) (c : RunConfig α) (tokens : List String) (fetched : Oracle α)
    (l : Ledger α) (before : List Instant) (s : State α) (t : Instant) (prices : List (String × α)) : Prop where
  names : strategyTokens blocks = .ok tokens
  fetches : o.prices (neededTokens c tokens) c.start c.stop c.granularity = .ok fetched
  opens : openLedger c.capital c.baseCurrency c.holdings = .ok l
  divides : ∃ after, Grid.build c.start c.stop c.interval = .ok (before ++ t :: after)
  reaches : before.foldlM (step blocks (usable fetched) c.baseCurrency (neededTokens c tokens))
    (initialState l (neededTokens c tokens)) = .ok s
  reads : stepPrices (usable fetched) c.baseCurrency t (neededTokens c tokens) = .ok prices
  complete : ¬ prices.length < (neededTokens c tokens).length

/-- The accounts that there are in a step: the one before it, and those after its interest and so many of
its blocks. -/
def Moment (blocks : List (Block α)) (s : State α) (t : Instant) (prices : List (String × α)) (l : Ledger α) : Prop :=
  l = s.ledger ∨ ∃ days count, daysSince s.lastStep t = .ok days ∧
    l = (stepRun (blocks.take count) s t prices days).ledger

/-- At every moment of every step that is executed, all that the account holds or owes has a price above
zero, and so the value of the account is the same as if any further tokens had a price. -/
theorem holdings_priced {c : RunConfig α} {tokens : List String} {fetched : Oracle α} {l₀ : Ledger α}
    {before : List Instant} (h : Visit blocks o c tokens fetched l₀ before s t prices) {l : Ledger α}
    (hl : Moment blocks s t prices l) :
    l.Priced (quotesOf prices) ∧
      ∀ more : Quotes α, (∀ token p, (quotesOf prices).lookup token = some p → more.lookup token = some p) →
        l.equity more = l.equity (quotesOf prices) := by
  -- nothing is ever held but tokens that the run needs, and a complete step has prices of these
  have hopened : l₀.Within (· ∈ neededTokens c tokens) := by
    refine openLedger_within h.opens (Block.mem_firstSeen.2 (by simp)) fun x hx => Block.mem_firstSeen.2 ?_
    simp only [List.cons_append, List.mem_cons, List.mem_append, List.mem_map]
    exact .inr (.inl ⟨x, hx, rfl⟩)
  have hreached : s.ledger.Within (· ∈ neededTokens c tokens) :=
    foldlM_keeps (I := fun s => s.ledger.Within (· ∈ neededTokens c tokens))
      (fun t _ s s' hs hstep => step_within hs hstep) hopened h.reaches
  have hwithin : l.Within (· ∈ neededTokens c tokens) := by
    rcases hl with rfl | ⟨days, count, -, rfl⟩
    · exact hreached
    · exact stepRun_within h.reads hreached _ days
  have hpriced : l.Priced (quotesOf prices) := hwithin.mono fun token ht => needed_priced h.reads h.complete ht
  exact ⟨hpriced, fun more => hpriced.equity⟩

section

local instance openPartsOfPricedRuns : ExactArithmetic := default

/-- At the second step of a run that buys ether there is a price for the ether of the first one. -/
theorem etherBought_priced : ∃ (fetched : Oracle ℚ) (l : Ledger ℚ) (s : State ℚ) (prices : List (String × ℚ)),
    Visit [etherBought] [("ETH", risingEtherSamples.toArray)] (everyMillisecond 2000000) ["USDC", "ETH"] fetched l
      [.known 0] s (.known 1000000) prices ∧
    s.ledger.balances.map (·.1) = ["USDC", "ETH"] ∧ s.ledger.Priced (quotesOf prices) := by
  have hstages : ((do
      let fetched ← Oracle.prices [("ETH", risingEtherSamples.toArray)] ["USDC", "ETH"] (.known 0) (.known 2000000) .null
      let l ← openLedger (.real 1000) "USDC" []
      let s ← [.known 0].foldlM (step [etherBought] (usable fetched) "USDC" ["USDC", "ETH"]) (initialState l ["USDC", "ETH"])
      let prices ← stepPrices (usable fetched) "USDC" (.known 1000000) ["USDC", "ETH"]
      pure (fetched, l, s, prices) : Except (Fault ℚ) _).toOption.map fun r =>
        (r.2.2.1.ledger.balances.map (·.1), r.2.2.2.length)) = some (["USDC", "ETH"], 2) := by decide +kernel
  obtain ⟨⟨fetched, l, s, prices⟩, h, hseen⟩ := ok_of_toOption hstages
  obtain ⟨_, hfetched, h⟩ := bind_ok h
  obtain ⟨_, hl, h⟩ := bind_ok h
  obtain ⟨_, hs, h⟩ := bind_ok h
  obtain ⟨_, hprices, h⟩ := bind_ok h
  cases h
  obtain ⟨hbalances, hlength⟩ := Prod.mk.inj hseen
  have hneeded : neededTokens (everyMillisecond 2000000) ["USDC", "ETH"] = ["USDC", "ETH"] := by decide +kernel
  have hvisit : Visit [etherBought] [("ETH", risingEtherSamples.toArray)] (everyMillisecond 2000000) ["USDC", "ETH"]
      fetched l [.known 0] s (.known 1000000) prices :=
    { names := congrArg Except.ok (show Block.referencedTokens [etherBought] = ["USDC", "ETH"] by decide +kernel)
      fetches := by rw [hneeded]; exact hfetched
      opens := hl
      divides := ⟨[.known 2000000], rfl⟩
      reaches := by rw [hneeded]; exact hs
      reads := by rw [hneeded]; exact hprices
      complete := by rw [hneeded, hlength]; decide }
  exact ⟨fetched, l, s, prices, hvisit, hbalances, (holdings_priced hvisit (.inl rfl)).1⟩

end

end Simulation

end StrategyLab
