/-
Overriding a strategy with its present values changes nothing. A search reads the numbers that a strategy
offers, and a block reads its numbers when it is executed; both read them alike, so that a block does the
same with a scalar in place of a text or a whole number (`Restates.execute`). A whole run is then the same,
down to its faults (`defaults_change_nothing`): the strategy that a search starts from is the one as written.
-/
import StrategyLab.Proofs.Agree
import StrategyLab.Proofs.Block.Override
import StrategyLab.Proofs.Number.Exact
import StrategyLab.Proofs.Search.Complete
import StrategyLab.Search.Extraction
import StrategyLab.Simulation.Run

namespace StrategyLab

variable {α : Type} [Scalar α]

/-! ## Restated blocks -/

namespace Block

/-- The params that blocks offer to a search. -/
def offeredNames : List String := ["slippage", "amount", "target_price", "percentage"]

theorem offers_named {b : Block α} {name : String} {span : Parameter.Span α} (h : (name, span) ∈ Parameter.offers b) :
    name ∈ offeredNames := by
  unfold Parameter.offers at h
  split at h <;> simp only [List.mem_cons, List.not_mem_nil, or_false, Prod.mk.injEq] at h
  · rcases h with ⟨rfl, -⟩ | ⟨rfl, -⟩ <;> decide
  all_goals
    obtain ⟨rfl, -⟩ := h
    decide

/-- Everything that a block offers is a number, or nothing. -/
def OffersNumbers (b : Block α) : Prop :=
  ∀ name span, (name, span) ∈ Parameter.offers b → ∀ v, b.param? name = some v → v = .null ∨ ∃ x, v.toReal = .ok x

/-- A block that is changed at most where one of some parameters is. -/
structure ChangedOnlyAt (definitions : List (Parameter α)) (b' b : Block α) : Prop where
  id : b'.id = b.id
  kind : b'.kind = b.kind
  category : b'.category = b.category
  label : b'.label = b.label
  param : ∀ name, b'.param? name ≠ b.param? name → ∃ p ∈ definitions, p.blockId = b.id ∧ p.name = name

/-- A block with scalars in place of some of the numbers that it offers. -/
structure Restates (b' b : Block α) : Prop where
  id : b'.id = b.id
  kind : b'.kind = b.kind
  category : b'.category = b.category
  label : b'.label = b.label
  untouched : Parameter.offers b = [] → b' = b
  param : ∀ name, b'.param? name = b.param? name ∨
    name ∈ offeredNames ∧ ∃ v x, b.param? name = some v ∧ v.toReal = .ok x ∧ b'.param? name = some (.real x)

namespace Restates

variable {b b' : Block α}

theorem refl (b : Block α) : b.Restates b := ⟨rfl, rfl, rfl, rfl, fun _ => rfl, fun _ => .inl rfl⟩

theorem kind? (h : b'.Restates b) : b'.kind? = b.kind? := by
  unfold Block.kind?
  rw [h.kind]

theorem displayName (h : b'.Restates b) : b'.displayName = b.displayName := by
  unfold Block.displayName
  rw [h.label, h.kind]

/-- What is not offered is read as it was. -/
theorem param_eq (h : b'.Restates b) {name : String} (hname : name ∉ offeredNames) : b'.param? name = b.param? name :=
  (h.param name).resolve_right fun hoffered => hname hoffered.1

theorem text (h : b'.Restates b) {key : String} (hkey : key ∉ offeredNames) : b'.text key = b.text key := by
  unfold Block.text
  rw [h.param_eq hkey, h.displayName]

theorem comparator (h : b'.Restates b) : b'.comparator = b.comparator := by
  unfold Block.comparator
  rw [h.param_eq (by decide)]

/-- A value that is a number is read as that number. -/
theorem number_of_toReal {key : String} {v : Value α} {x : α} (hv : b.param? key = some v) (hx : v.toReal = .ok x)
    (default : Option α) : b.number key default = .ok x := by
  unfold Block.number
  rw [hv]
  split
  · rename_i hnone
    cases hnone
  · rename_i hnull
    cases hnull
    cases hx
  · rename_i hempty
    cases hempty
    cases hx
  · rename_i w _ _ hw
    cases hw
    rw [hx]
    rfl

theorem number (h : b'.Restates b) (key : String) (default : Option α) : b'.number key default = b.number key default := by
  rcases h.param key with heq | ⟨-, v, x, hv, hx, hx'⟩
  · unfold Block.number
    rw [heq, h.displayName]
  · rw [number_of_toReal hv hx, number_of_toReal hx' rfl]

theorem positive (h : b'.Restates b) (key : String) (default : Option α) :
    b'.positive key default = b.positive key default := by
  unfold Block.positive
  rw [h.number, h.displayName]

theorem assetPositions (h : b'.Restates b) (l : Ledger α) : b'.assetPositions l = b.assetPositions l := by
  unfold Block.assetPositions
  rw [h.param_eq (by decide)]

theorem depositOrder (h : b'.Restates b) (m : Market α) (l : Ledger α) (rate : α) :
    b'.depositOrder m l rate = b.depositOrder m l rate := by
  unfold Block.depositOrder assetAmount
  rw [h.text (by decide), h.positive, h.number]

/-- A block that offers something does as it did. -/
theorem act (h : b'.Restates b) {kind : BlockKind} (hk : b.kind? = some kind) (hoffers : Parameter.offers b ≠ [])
    (m : Market α) : b'.act kind m = b.act kind m := by
  unfold Parameter.offers at hoffers
  rw [hk] at hoffers
  cases kind with
  | priceTrigger =>
    simp only [Block.act, priceTrigger, h.text (show "asset" ∉ offeredNames by decide), h.positive, h.comparator]
  | swap exchange =>
    simp only [Block.act, swap, swapOrder, h.text (show "input_token" ∉ offeredNames by decide),
      h.text (show "output_token" ∉ offeredNames by decide), h.positive, h.number, h.displayName]
  | supply lender => simp only [Block.act, supply, h.depositOrder]
  | staking =>
    simp only [Block.act, staking, h.depositOrder, h.param_eq (show "protocol" ∉ offeredNames by decide),
      h.param_eq (show "staking_type" ∉ offeredNames by decide)]
  | stopLoss => simp only [Block.act, stopLoss, h.positive, h.assetPositions]
  | takeProfit => simp only [Block.act, takeProfit, h.positive, h.assetPositions]
  | timeTrigger | volumeTrigger | indicatorTrigger | borrow lender | repay | withdraw | liquidity | flashLoan | timeExit
  | conditionalExit | positionSizing | riskLimits | rebalancing => exact absurd rfl hoffers

theorem execute (h : b'.Restates b) (m : Market α) (l : Ledger α) : b'.execute m l = b.execute m l := by
  by_cases hoffers : Parameter.offers b = []
  · rw [h.untouched hoffers]
  · unfold Block.execute
    rw [h.kind?, h.kind]
    cases hk : b.kind? with
    | none => rfl
    | some kind =>
      dsimp only
      rw [h.act hk hoffers]

theorem tokens (h : b'.Restates b) : b'.tokens = b.tokens := by
  have hnamed : ∀ name ∈ tokenParams, name ∉ offeredNames := by decide
  unfold Block.tokens
  dsimp only
  rw [h.param_eq (show "target_allocation" ∉ offeredNames by decide),
    List.filterMap_congr fun name hname => by rw [h.param_eq (hnamed name hname)]]

end Restates

end Block

/-! ## Runs of restated blocks -/

section

variable {blocks blocks' : List (Block α)}

theorem SequenceRun.after_restated (h : List.Forall₂ Block.Restates blocks' blocks) (m : Market α)
    (previous : Option (Outcome α)) (l : Ledger α) :
    SequenceRun.after m previous blocks' l = SequenceRun.after m previous blocks l := by
  induction h generalizing previous l with
  | nil => rfl
  | @cons b' b rest' rest hb _ ih =>
    have hskipped : b'.skipped = b.skipped := by
      unfold Block.skipped
      rw [hb.displayName]
    have hskips : b'.isSkipped previous = b.isSkipped previous := by
      unfold Block.isSkipped
      rw [hb.category]
    unfold SequenceRun.after
    simp only [hskips, hskipped, hb.execute, ih]

namespace Simulation

theorem unknownKinds_restated (h : List.Forall₂ Block.Restates blocks' blocks) :
    (blocks'.filter fun b => b.kind?.isNone).map (·.kind) = (blocks.filter fun b => b.kind?.isNone).map (·.kind) := by
  induction h with
  | nil => rfl
  | cons hb _ ih =>
    rw [List.filter_cons, List.filter_cons, hb.kind?]
    split
    · rw [List.map_cons, List.map_cons, hb.kind, ih]
    · exact ih

theorem strategyTokens_restated (h : List.Forall₂ Block.Restates blocks' blocks) :
    strategyTokens blocks' = strategyTokens blocks := by
  have htokens : blocks'.flatMap Block.tokens = blocks.flatMap Block.tokens := by
    rw [List.flatMap_def, List.flatMap_def, map_eq_of_forall₂ h fun _ _ hb => hb.tokens]
  have hempty : blocks'.isEmpty = blocks.isEmpty := by
    cases h <;> rfl
  unfold strategyTokens Block.referencedTokens
  rw [unknownKinds_restated h, htokens, hempty]

/-- Restated blocks give the same report on every run, or the same fault. -/
theorem run_restated (h : List.Forall₂ Block.Restates blocks' blocks) (o : Oracle α) (c : RunConfig α) :
    run blocks' o c = run blocks o c := by
  have hstep : step blocks' = step blocks := by
    funext oracle baseCurrency needed s t
    unfold step executeStep SequenceRun.execute
    simp only [SequenceRun.after_restated h]
  unfold run
  rw [strategyTokens_restated h, hstep]

end Simulation

end

/-! ## Offered parameters -/

namespace Parameter

/-- A parameter is what a block offers, with its present value as the default. -/
def OfferedBy (p : Parameter α) (b : Block α) : Prop :=
  ∃ name span v x, (name, span) ∈ offers b ∧ b.param? name = some v ∧ v.toReal = .ok x ∧ p = ofOffer b name span x

theorem OfferedBy.place {p : Parameter α} {b : Block α} (h : p.OfferedBy b) : p.blockId = b.id ∧
    p.name ∈ Block.offeredNames ∧ ∃ v x, b.param? p.name = some v ∧ v.toReal = .ok x ∧ p.default = .real x := by
  obtain ⟨name, span, v, x, hoffer, hv, hx, rfl⟩ := h
  exact ⟨rfl, Block.offers_named hoffer, v, x, hv, hx, rfl⟩

theorem ofBlock_mem {b : Block α} {found : List (Parameter α)} (h : ofBlock b = .ok found) {p : Parameter α}
    (hp : p ∈ found) : p.OfferedBy b := by
  obtain ⟨⟨name, span⟩, hoffer, hkept⟩ := mem_of_filterMapM h hp
  dsimp only at hkept
  split at hkept
  · cases hkept
  · cases hkept
  · rename_i v _ hv
    obtain ⟨x, hx, hkept⟩ := bind_ok hkept
    cases hkept
    exact ⟨name, span, v, x, hoffer, hv, hx, rfl⟩

theorem mem_firstItems {β : Type} {limit : ℤ} {items : List β} {x : β} (h : x ∈ firstItems limit items) : x ∈ items := by
  unfold firstItems at h
  split_ifs at h <;> exact List.mem_of_mem_take h

/-- What a strategy offers is offered by its blocks. -/
theorem ofBlocks_mem {blocks : List (Block α)} {limit : ℤ} {definitions : List (Parameter α)}
    (h : ofBlocks blocks limit = .ok definitions) {p : Parameter α} (hp : p ∈ definitions) :
    ∃ b ∈ blocks, p.OfferedBy b := by
  obtain ⟨found, hfound, h⟩ := bind_ok h
  cases h
  obtain ⟨ps, hps, hp⟩ := List.mem_flatten.1 ((List.mergeSort_perm _ _).mem_iff.1 (mem_firstItems hp))
  obtain ⟨b, hb, hoffers⟩ := mem_of_mapM hfound hps
  exact ⟨b, hb, ofBlock_mem hoffers hp⟩

theorem ofBlocks_total {blocks : List (Block α)} (h : ∀ b ∈ blocks, b.OffersNumbers) (limit : ℤ) :
    ∃ definitions, ofBlocks blocks limit = .ok definitions := by
  have hfound : ∀ b ∈ blocks, ∃ found, ofBlock b = .ok found := by
    intro b hb
    refine filterMapM_total fun offer hoffer => ?_
    obtain ⟨name, span⟩ := offer
    dsimp only
    split
    · exact ⟨none, rfl⟩
    · exact ⟨none, rfl⟩
    · rename_i v hnull hv
      rcases h b hb name span hoffer v hv with rfl | ⟨x, hx⟩
      · exact absurd rfl hnull
      · rw [hx]
        exact ⟨_, rfl⟩
  choose! found hfound using hfound
  unfold ofBlocks
  rw [mapM_ok hfound]
  exact ⟨_, rfl⟩

end Parameter

/-! ## Assignments of defaults -/

namespace Assignment

/-- Every parameter is assigned its default, and nothing else is assigned. -/
def Defaults (definitions : List (Parameter α)) (a : Assignment α) : Prop :=
  a.Filled (fun p x => p.default = .real x) definitions

variable {blocks : List (Block α)} {limit : ℤ} {definitions : List (Parameter α)}

/-- A parameter of one of several blocks with different names is offered by the block of its name. -/
theorem offeredBy_block (hids : (blocks.map (·.id)).Nodup) (h : Parameter.ofBlocks blocks limit = .ok definitions)
    {p : Parameter α} (hp : p ∈ definitions) {b : Block α} (hb : b ∈ blocks) (hblock : p.blockId = b.id) :
    p.OfferedBy b := by
  obtain ⟨b', hb', hoffered⟩ := Parameter.ofBlocks_mem h hp
  have hsame : b'.id = b.id := hoffered.place.1.symm.trans hblock
  rwa [List.inj_on_of_nodup_map hids hb' hb hsame] at hoffered

/-- There is an assignment of the defaults: parameters of one place have one default. -/
theorem defaults_exist (hids : (blocks.map (·.id)).Nodup) (h : Parameter.ofBlocks blocks limit = .ok definitions) :
    ∃ a, Defaults definitions a := by
  have hagrees : Parameter.Agrees definitions fun p x => p.default = .real x := by
    intro p hp q hq hpq x hx
    obtain ⟨b, hb, hoffered⟩ := Parameter.ofBlocks_mem h hp
    obtain ⟨hblock, -, v, y, hv, hy, hdefault⟩ := hoffered.place
    obtain ⟨-, -, w, z, hw, hz, hdefault'⟩ := (offeredBy_block hids h hq hb (hpq.1.symm.trans hblock)).place
    rw [← hpq.2, hv] at hw
    cases hw
    cases hy.symm.trans hz
    rw [hdefault', ← hdefault, hx]
  refine exists_filled hagrees (fun p hp => ?_) fun _ hq => hq
  obtain ⟨b, -, hoffered⟩ := Parameter.ofBlocks_mem h hp
  obtain ⟨-, -, -, x, -, -, hx⟩ := hoffered.place
  exact ⟨x, hx⟩

/-- What an assignment of defaults has for a param of a block is the block's own number. -/
theorem Defaults.own {a : Assignment α} (ha : Defaults definitions a) (hids : (blocks.map (·.id)).Nodup)
    (h : Parameter.ofBlocks blocks limit = .ok definitions) {b : Block α} (hb : b ∈ blocks) {own : Object α}
    (hown : Object.get? a b.id = some (.object own)) (hfields : Fields definitions b.id own) {name : String} {w : Value α}
    (hw : (Key.text name, w) ∈ own) : (∃ p ∈ definitions, p.blockId = b.id ∧ p.name = name) ∧ name ∈ Block.offeredNames ∧
      ∃ v x, b.param? name = some v ∧ v.toReal = .ok x ∧ w = .real x := by
  obtain ⟨p, hp, hblock, z, heq⟩ := hfields.entry _ hw
  cases heq
  obtain ⟨-, hname, v, x, hv, hx, hdefault⟩ := (offeredBy_block hids h hp hb hblock).place
  refine ⟨⟨p, hp, hblock, rfl⟩, hname, v, x, hv, hx, ?_⟩
  obtain ⟨y, ⟨own', hown', hy⟩, hdefault'⟩ := ha.gives p hp
  rw [hblock, hown] at hown'
  cases hown'
  have hfirst := List.inj_on_of_nodup_map hfields.names hw (Object.mem_of_get? hy) rfl
  cases hfirst
  rw [← hdefault', hdefault]

/-- A block that is overridden with the defaults is restated. -/
theorem Defaults.overrideBlock {a : Assignment α} (ha : Defaults definitions a) (hids : (blocks.map (·.id)).Nodup)
    (h : Parameter.ofBlocks blocks limit = .ok definitions) {b : Block α} (hb : b ∈ blocks) :
    ∃ b', Assignment.overrideBlock (.object a) b = .ok b' ∧ b'.Restates b ∧ b'.ChangedOnlyAt definitions b := by
  rw [overrideBlock_object]
  rcases ha.within.own b.id with hnone | ⟨own, hown, hfields⟩
  · rw [hnone]
    exact ⟨b, rfl, .refl b, ⟨rfl, rfl, rfl, rfl, fun name hname => absurd rfl hname⟩⟩
  · rw [hown]
    have hpresent : (Value.object own).isPresent = !own.isEmpty := rfl
    cases hempty : own.isEmpty with
    | true =>
      rw [Option.filter_some_neg (by simp [hpresent, hempty])]
      exact ⟨b, rfl, .refl b, ⟨rfl, rfl, rfl, rfl, fun name hname => absurd rfl hname⟩⟩
    | false =>
      rw [Option.filter_some_pos (by simp [hpresent, hempty])]
      have hparam (name : String) : (b.withParams own).param? name = (Object.get? own.reverse name).or (b.param? name) :=
        Object.get?_merge own name b.params
      refine ⟨b.withParams own, rfl, ⟨rfl, rfl, rfl, rfl, fun hoffers => ?_, fun name => ?_⟩,
        ⟨rfl, rfl, rfl, rfl, fun name hchanged => ?_⟩⟩
      · obtain ⟨f, hf⟩ := List.exists_mem_of_ne_nil own (List.isEmpty_eq_false_iff.1 hempty)
        obtain ⟨p, hp, hblock, -⟩ := hfields.entry f hf
        obtain ⟨name, span, -, -, hoffer, -⟩ := offeredBy_block hids h hp hb hblock
        rw [hoffers] at hoffer
        cases hoffer
      · rw [hparam]
        cases hget : Object.get? own.reverse name with
        | none => exact .inl rfl
        | some w =>
          obtain ⟨-, hname, v, x, hv, hx, rfl⟩ :=
            ha.own hids h hb hown hfields (List.mem_reverse.1 (Object.mem_of_get? hget))
          exact .inr ⟨hname, v, x, hv, hx, rfl⟩
      · rw [hparam] at hchanged
        cases hget : Object.get? own.reverse name with
        | none =>
          rw [hget] at hchanged
          exact absurd rfl hchanged
        | some w => exact (ha.own hids h hb hown hfields (List.mem_reverse.1 (Object.mem_of_get? hget))).1

end Assignment

/-- The parameters that a strategy offers can be assigned their defaults, and a strategy that is overridden with
them is the same one in the same order, except for the params of these parameters. It does the same on every run:
the report is the same, or the fault is. -/
theorem defaults_change_nothing {blocks : List (Block α)} (hids : (blocks.map (·.id)).Nodup) (limit : ℤ) :
    ((∀ b ∈ blocks, b.OffersNumbers) → ∃ definitions, Parameter.ofBlocks blocks limit = .ok definitions) ∧
      ∀ definitions, Parameter.ofBlocks blocks limit = .ok definitions →
        (∃ a, Assignment.Defaults definitions a) ∧
          ∀ a, Assignment.Defaults definitions a → ∃ blocks', Assignment.overrideBlocks (.object a) blocks = .ok blocks' ∧
            List.Forall₂ (Block.ChangedOnlyAt definitions) blocks' blocks ∧
              ∀ (o : Oracle α) (c : RunConfig α), Simulation.run blocks' o c = Simulation.run blocks o c := by
  refine ⟨fun hnumbers => Parameter.ofBlocks_total hnumbers limit, fun definitions h =>
    ⟨Assignment.defaults_exist hids h, fun a ha => ?_⟩⟩
  -- every override states the parameters of its block once more, so that a run reads the same
  have hoverride : ∀ b ∈ blocks, ∃ b', Assignment.overrideBlock (.object a) b = .ok b' ∧ b'.Restates b ∧
      b'.ChangedOnlyAt definitions b := fun b hb => ha.overrideBlock hids h hb
  choose! overridden hok hrestates hchanged using hoverride
  refine ⟨blocks.map overridden, mapM_ok hok, ?_, fun o c => Simulation.run_restated ?_ o c⟩
  · exact List.forall₂_map_left_iff.2 (List.forall₂_same.2 hchanged)
  · exact List.forall₂_map_left_iff.2 (List.forall₂_same.2 hrestates)

section

local instance openPartsOfDefaults : ExactArithmetic := default

/-- A swap with an amount in writing, and an exit at a whole percentage. -/
def swapAndExit : List (Block ℚ) :=
  [{ id := "buy", kind := "uniswap_swap", category := .protocol, label := "",
      params := [(.text "input_token", .text "USDC"), (.text "output_token", .text "ETH"),
        (.text "amount", .text "100.5")] },
    { id := "sell", kind := "take_profit", category := .exit, label := "",
      params := [(.text "percentage", .num (.whole 30))] }]

/-- The amount and the percentage are offered, and a run on their defaults is the run as written. -/
theorem swapAndExit_defaults : (swapAndExit.map (·.id)).Nodup ∧ ∃ definitions a blocks,
    Parameter.ofBlocks swapAndExit 10 = .ok definitions ∧ Assignment.Defaults definitions a ∧
      Assignment.overrideBlocks (.object a) swapAndExit = .ok blocks ∧
        ∀ (o : Oracle ℚ) (c : RunConfig ℚ), Simulation.run blocks o c = Simulation.run swapAndExit o c := by
  have hids : (swapAndExit.map (·.id)).Nodup := by decide
  obtain ⟨htotal, hdefaults⟩ := defaults_change_nothing hids 10
  have hnumbers : ∀ b ∈ swapAndExit, b.OffersNumbers := by
    simp only [swapAndExit, List.forall_mem_cons]
    refine ⟨fun name span hoffer v hv => ?_, fun name span hoffer v hv => ?_, nofun⟩
    · rcases List.mem_cons.1 hoffer with hslippage | hoffer
      · cases hslippage
        cases hv
      · cases List.mem_singleton.1 hoffer
        cases hv
        exact .inr ⟨_, rfl⟩
    · cases List.mem_singleton.1 hoffer
      cases hv
      exact .inr ⟨_, rfl⟩
  obtain ⟨definitions, hdefinitions⟩ := htotal hnumbers
  obtain ⟨⟨a, ha⟩, hsame⟩ := hdefaults definitions hdefinitions
  obtain ⟨blocks, hblocks, -, hrun⟩ := hsame a ha
  exact ⟨hids, definitions, a, blocks, hdefinitions, ha, hblocks, hrun⟩

end

end StrategyLab
