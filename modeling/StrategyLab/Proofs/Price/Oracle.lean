/-
What a run reads from price data, over any scalars. A series is built from the samples of the data
(`normalize_eq`), so that a token has a series to read from exactly if one of its samples is usable
(`ofData_series?`). The series fetched for a run are slices of these, thinned out if asked for
(`prices_eq`).
-/
import StrategyLab.Price.Oracle
import StrategyLab.Proofs.Block.Order
import StrategyLab.Proofs.Price.Series

namespace StrategyLab

variable {α : Type} [Scalar α]

/-! ## Samples of price data -/

namespace PriceData

/-- The samples of a column of times and the prices beside it. -/
def samplesOf (times : List (Value α)) (prices : List α) : Except (Fault α) (List (Sample α)) := do
  let stamps ← (settleTimes times).mapM Instant.ofValue
  pure ((stamps.zip prices).map fun (time, price) => { time, price })

/-- The samples of price data as they are given, usable or not. -/
def samples (d : PriceData α) : Except (Fault α) (List (Sample α)) :=
  match d with
  | .points items => do
    let pairs ← items.mapM pointOf
    let prices ← pairs.mapM fun (_, price) => strictPrice price
    samplesOf (pairs.map (·.1)) prices
  | .columns times prices => samplesOf times (prices.map looseFrom)
  | .table cols =>
    match cols.lookup "timestamp", cols.lookup "price" with
    | some times, some prices => samplesOf times (prices.map looseFrom)
    | _, _ => throw (.data .frameWithoutColumns)
  | .other v => throw (.value (.notIterable v.kindName))

theorem ofColumns_eq (times : List (Value α)) (prices : List α) :
    ofColumns times prices = (samplesOf times prices).map Series.ofSamples := by
  unfold ofColumns samplesOf
  cases (settleTimes times).mapM Instant.ofValue <;> rfl

/-- The series of price data is that of its samples. -/
theorem normalize_eq (d : PriceData α) : d.normalize = d.samples.map Series.ofSamples := by
  cases d with
  | points items =>
    unfold normalize samples
    dsimp only
    cases items.mapM pointOf with
    | error f => rfl
    | ok pairs =>
      show (do ofColumns (pairs.map (·.1)) (← pairs.mapM fun (_, price) => strictPrice price)) =
        Except.map Series.ofSamples
          (do samplesOf (pairs.map (·.1)) (← pairs.mapM fun (_, price) => strictPrice price))
      cases pairs.mapM fun (_, price) => strictPrice price with
      | error f => rfl
      | ok prices => exact ofColumns_eq _ _
  | columns times prices => exact ofColumns_eq _ _
  | table cols =>
    unfold normalize samples
    dsimp only
    cases cols.lookup "timestamp" with
    | none => rfl
    | some times =>
      cases cols.lookup "price" with
      | none => rfl
      | some prices => exact ofColumns_eq times (prices.map looseFrom)
  | other v => rfl

end PriceData

namespace Oracle

/-! ## The series of a token -/

/-- A token is among price data with a usable sample. -/
def HasSample (data : List (String × PriceData α)) (token : String) : Prop :=
  ∃ d samples, data.lookup token = some d ∧ d.samples = .ok samples ∧
    ∃ x ∈ samples, Series.isUsable x.price = true

/-- Some samples of price data. -/
def Gives (data : List (String × PriceData α)) (token : String) (samples : List (Sample α)) : Prop :=
  ∃ d, data.lookup token = some d ∧ d.samples = .ok samples

omit [Scalar α] in
theorem lookup_single {β : Type} {name token : String} {b b' : β} (h : [(name, b)].lookup token = some b') :
    token = name ∧ b' = b := by
  rw [List.lookup_cons] at h
  split at h
  · rename_i heq
    exact ⟨beq_iff_eq.1 heq, (Option.some.inj h).symm⟩
  · cases h

theorem Gives.single {name token : String} {d : PriceData α} {samples : List (Sample α)}
    (h : Gives [(name, d)] token samples) : d.samples = .ok samples := by
  obtain ⟨d', hd, hs⟩ := h
  obtain ⟨-, rfl⟩ := lookup_single hd
  exact hs

theorem ofData_lookup : ∀ {data : List (String × PriceData α)} {o : Oracle α}, ofData data = .ok o →
    ∀ token, (data.lookup token = none ∧ o.lookup token = none) ∨
      ∃ samples, Gives data token samples ∧ o.lookup token = some (Series.ofSamples samples)
  | [], o, h, token => by cases h; exact .inl ⟨rfl, rfl⟩
  | (name, d) :: rest, o, h, token => by
    unfold ofData at h
    rw [List.mapM_cons] at h
    obtain ⟨⟨name', series⟩, hd, h⟩ := bind_ok h
    obtain ⟨o', hrest, h⟩ := bind_ok h
    obtain ⟨series', hseries, hd⟩ := bind_ok hd
    cases hd
    cases h
    rw [PriceData.normalize_eq] at hseries
    cases hs : d.samples with
    | error f => rw [hs] at hseries; cases hseries
    | ok samples =>
      rw [hs] at hseries
      cases hseries
      unfold Gives
      rw [List.lookup_cons, List.lookup_cons]
      by_cases htoken : token = name
      · rw [beq_iff_eq.2 htoken]
        exact .inr ⟨samples, ⟨d, rfl, hs⟩, rfl⟩
      · rw [beq_eq_false_iff_ne.2 htoken]
        exact ofData_lookup hrest token

/-- The series that is read for a token is that of its samples, if one of them is usable. -/
theorem ofData_series? {data : List (String × PriceData α)} {o : Oracle α} (h : ofData data = .ok o)
    (token : String) : (o.series? token = none ∧ ¬ HasSample data token) ∨
      ∃ samples, Gives data token samples ∧ o.series? token = some (Series.ofSamples samples) ∧
        (Series.ofSamples samples).isEmpty = false ∧ HasSample data token := by
  unfold series?
  rcases ofData_lookup h token with ⟨hdata, ho⟩ | ⟨samples, ⟨d, hd, hsamples⟩, ho⟩
  · refine .inl ⟨by rw [ho]; rfl, fun ⟨d, _, hd, _⟩ => ?_⟩
    rw [hdata] at hd
    cases hd
  · rw [ho]
    cases hempty : (Series.ofSamples samples).isEmpty with
    | true =>
      refine .inl ⟨by simp [Option.filter, hempty], fun ⟨d', xs, hd', hxs, x, hx, husable⟩ => ?_⟩
      rw [hd] at hd'
      cases hd'
      rw [hsamples] at hxs
      cases hxs
      rw [Series.ofSamples_isEmpty_iff.1 hempty x hx] at husable
      cases husable
    | false =>
      refine .inr ⟨samples, ⟨d, hd, hsamples⟩, by simp [Option.filter, hempty], hempty, d, samples, hd, hsamples, ?_⟩
      by_contra hno
      push Not at hno
      rw [Series.ofSamples_isEmpty_iff.2 fun x hx => by simpa using hno x hx] at hempty
      cases hempty

/-! ## What is fetched -/

/-- A series, thinned out if asked for. -/
def thinned (g : Option Series.Granularity) (s : Series α) : Series α :=
  match g with
  | none => s
  | some g => s.resample g

omit [Scalar α] in
/-- Values kept beside their names are found under them. -/
theorem lookup_filterMap {β : Type} (f : String → Option β) : ∀ (names : List String) (name : String),
    (names.filterMap fun n => (f n).map (n, ·)).lookup name = if name ∈ names then f name else none
  | [], name => rfl
  | n :: rest, name => by
    have ih := lookup_filterMap f rest name
    rw [List.filterMap_cons]
    by_cases hname : name = n
    · subst hname
      cases hf : f name with
      | none =>
        rw [Option.map_none]
        dsimp only
        rw [ih, hf]
        simp
      | some b => simp
    · cases hf : f n with
      | none =>
        rw [Option.map_none]
        dsimp only
        rw [ih]
        simp [hname]
      | some b =>
        rw [Option.map_some]
        dsimp only
        rw [List.lookup_cons, beq_eq_false_iff_ne.2 hname]
        dsimp only
        rw [ih]
        simp [hname]

theorem filterMapM_ok {ε β γ : Type} {f : β → Except ε (Option γ)} {g : β → Option γ} :
    ∀ {xs : List β}, (∀ x ∈ xs, f x = .ok (g x)) → xs.filterMapM f = .ok (xs.filterMap g)
  | [], _ => rfl
  | x :: rest, h => by
    have ih := filterMapM_ok fun y hy => h y (List.mem_cons_of_mem x hy)
    rw [List.filterMapM_cons, h x (List.mem_cons_self ..), List.filterMap_cons]
    cases g x with
    | none => exact ih
    | some b =>
      show (rest.filterMapM f >>= fun bs => pure (b :: bs)) = _
      rw [ih]
      rfl

/-- What is fetched for a range of time: of every token with samples the slice around the range,
thinned out if asked for. -/
theorem prices_eq (o : Oracle α) (wanted : List String) (start stop : Instant) {granularity : Value α}
    {g : Option Series.Granularity} (hg : granularity? granularity = .ok g) :
    o.prices wanted start stop granularity = .ok ((Block.firstSeen wanted).filterMap fun token =>
      ((o.series? token).map fun s => thinned g (s.sliceAround start stop)).map (token, ·)) := by
  unfold prices
  refine filterMapM_ok fun token _ => ?_
  cases hs : o.series? token with
  | none => rfl
  | some s =>
    dsimp only
    unfold window
    rw [hg]
    cases g <;> rfl

/-- Every sample of price data has a time. -/
def Timed (data : List (String × PriceData α)) : Prop :=
  ∀ token samples, Gives data token samples → ∀ x ∈ samples, ∃ ns, x.time = .known ns

theorem Timed.series? {data : List (String × PriceData α)} (h : Timed data) {o : Oracle α}
    (ho : ofData data = .ok o) {token : String} {s : Series α} (hs : o.series? token = some s) :
    s.Ordered ∧ 0 < s.size := by
  rcases ofData_series? ho token with ⟨hnone, -⟩ | ⟨samples, hgives, hsome, hempty, -⟩
  · rw [hnone] at hs; cases hs
  · rw [hsome] at hs
    cases hs
    refine ⟨Series.ofSamples_ordered (h token samples hgives), Nat.pos_of_ne_zero fun hzero => ?_⟩
    rw [Array.isEmpty_iff_size_eq_zero.2 hzero] at hempty
    cases hempty

end Oracle

/-! ## Names without repetition -/

namespace Block

/-- A last name is kept if it is a new one. -/
theorem firstSeen_concat (names : List String) (last : String) : firstSeen (names ++ [last]) =
    if last ∈ firstSeen names then firstSeen names else firstSeen names ++ [last] := by
  unfold firstSeen
  rw [List.foldl_append, List.foldl_cons, List.foldl_nil]
  simp only [List.contains_iff_mem]

theorem mem_firstSeen {names : List String} {name : String} : name ∈ firstSeen names ↔ name ∈ names := by
  induction names using List.reverseRecOn with
  | nil => rfl
  | append_singleton names last ih =>
    rw [firstSeen_concat, List.mem_append, List.mem_singleton, ← ih]
    split
    · rename_i hseen
      exact ⟨.inl, fun h => h.elim (fun hname => hname) fun heq => heq ▸ hseen⟩
    · rw [List.mem_append, List.mem_singleton]

theorem nodup_firstSeen (names : List String) : (firstSeen names).Nodup := by
  induction names using List.reverseRecOn with
  | nil => exact List.nodup_nil
  | append_singleton names last ih =>
    rw [firstSeen_concat]
    split
    · exact ih
    · rename_i hnew
      exact List.concat_eq_append ▸ ih.concat hnew

end Block

end StrategyLab
