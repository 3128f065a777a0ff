import PiDispatch.CostBound

/-! What a settled call is charged is at most what it was bounded at. The bound takes the dearest of the tables that could
price the call, each with the tiers that the input could reach, and the settlement prices it at one of them. -/
namespace PiDispatch.UsageMeter
open Payload CostGuard

/-- The tokens that a call is billed for; what is written for an hour is part of what is written. -/
structure Tokens where
  input : Nat
  output : Nat
  cacheRead : Nat
  cacheWrite : Nat
  cacheWrite1h : Nat
  within : cacheWrite1h ≤ cacheWrite

def Tokens.side (tokens : Tokens) : Nat := tokens.input + tokens.cacheRead + tokens.cacheWrite

/-- The rates of a table that an input reaches: those of the highest tier it passes, or the table's own. -/
inductive RatesReached (table : Table) (side : Rat) : Rates → Prop
  | base (below : ∀ tier ∈ table.tiers, ¬tier.inputTokensAbove < side) : RatesReached table side table.toRates
  | tier (tier : Tier) (listed : tier ∈ table.tiers) (passed : tier.inputTokensAbove < side)
      (highest : ∀ other ∈ table.tiers, other.inputTokensAbove < side → other.inputTokensAbove ≤ tier.inputTokensAbove) :
      RatesReached table side tier.toRates

/-- What a provider call costs, in dollars, at some rates; `scale` is what its service tier comes to. -/
def priceOf (rates : Rates) (tokens : Tokens) (scale : Rat) : UsageCost :=
  let input := rates.input * tokens.input / 1000000 * scale
  let output := rates.output * tokens.output / 1000000 * scale
  let cacheRead := rates.cacheRead * tokens.cacheRead / 1000000 * scale
  let cacheWrite := (rates.cacheWrite * (tokens.cacheWrite - tokens.cacheWrite1h : Nat) +
    2 * rates.input * tokens.cacheWrite1h) / 1000000 * scale
  ⟨some input,some output,some cacheRead,some cacheWrite,some (input + output + cacheRead + cacheWrite),false⟩

def usageOf (tokens : Tokens) (cost : UsageCost) : Usage where
  input := some tokens.input
  output := some tokens.output
  cacheRead := some tokens.cacheRead
  cacheWrite := some tokens.cacheWrite
  cacheWrite1h := some tokens.cacheWrite1h
  reasoning := none
  totalTokens := none
  cost := some cost

section Rating
variable {rates : Rates} {tokens : Tokens}

structure Rates.Nonneg (rates : Rates) : Prop where
  input : 0 ≤ rates.input
  output : 0 ≤ rates.output
  cacheRead : 0 ≤ rates.cacheRead
  cacheWrite : 0 ≤ rates.cacheWrite

private theorem rate_nonneg {value : Value} {own : Rat} (read : rate value = some own) : 0 ≤ own :=
  of_decide_eq_true (Option.filter_eq_some_iff.mp read).2

private theorem ratesOf_nonneg {table : Value} (read : ratesOf table = some rates) : rates.Nonneg := by
  unfold ratesOf at read
  simp only [Option.bind_eq_bind,Option.bind_eq_some_iff,Option.pure_def,Option.some_inj] at read
  obtain ⟨input,one,output,two,cacheRead,three,cacheWrite,four,rfl⟩ := read
  exact ⟨rate_nonneg one,rate_nonneg two,rate_nonneg three,rate_nonneg four⟩

private theorem tierOf_nonneg {tier : Value} {own : Tier} (read : tierOf tier = some own) : own.toRates.Nonneg := by
  unfold tierOf at read
  simp only [Option.bind_eq_bind,Option.bind_eq_some_iff,Option.pure_def,Option.some_inj] at read
  obtain ⟨rates,one,above,_,rfl⟩ := read
  exact ratesOf_nonneg one

private theorem mapM_mem {α β : Type} {read : α → Option β} {items : List α} {results : List β}
    (all : items.mapM read = some results) {result : β} (among : result ∈ results) : ∃ item ∈ items, read item = some result := by
  induction items generalizing results with
  | nil =>
    cases all
    cases among
  | cons item items ih =>
    rw [List.mapM_cons] at all
    simp only [Option.bind_eq_bind,Option.bind_eq_some_iff,Option.pure_def,Option.some_inj] at all
    obtain ⟨first,own,rest,others,rfl⟩ := all
    rcases List.mem_cons.mp among with rfl | later
    · exact ⟨item,List.mem_cons_self,own⟩
    · obtain ⟨other,inside,found⟩ := ih others later
      exact ⟨other,List.mem_cons_of_mem _ inside,found⟩

private theorem tableOf_nonneg {value : Value} {table : Table} (read : tableOf value = some table) :
    table.toRates.Nonneg ∧ ∀ tier ∈ table.tiers, tier.toRates.Nonneg := by
  unfold tableOf at read
  obtain ⟨rates,own,read⟩ := Option.bind_eq_some_iff.mp read
  have nonneg := ratesOf_nonneg own
  split at read
  · cases read
    exact ⟨nonneg,nofun⟩
  · cases read
    exact ⟨nonneg,nofun⟩
  · obtain ⟨tiers,all,rfl⟩ := Option.map_eq_some_iff.mp read
    refine ⟨nonneg,fun tier among => ?_⟩
    obtain ⟨item,_,found⟩ := mapM_mem all among
    exact tierOf_nonneg found
  · cases read

private theorem tables_nonneg {model : Model} {tables : List Table} (listed : priceTables model = some tables) {table : Table}
    (among : table ∈ tables) : table.toRates.Nonneg ∧ ∀ tier ∈ table.tiers, tier.toRates.Nonneg := by
  obtain ⟨value,_,read⟩ := mapM_mem listed among
  exact tableOf_nonneg read

/-- What tokens cost at some rates, in micro-dollars. -/
def weight (rates : Rates) (tokens : Tokens) : Rat :=
  rates.input * tokens.input + rates.output * tokens.output + rates.cacheRead * tokens.cacheRead +
    (rates.cacheWrite * (tokens.cacheWrite - tokens.cacheWrite1h : Nat) + 2 * rates.input * tokens.cacheWrite1h)

private theorem total_weight (rates : Rates) (tokens : Tokens) (scale : Rat) :
    (priceOf rates tokens scale).total = some (weight rates tokens * scale / 1000000) := by
  unfold priceOf weight
  dsimp only
  congr 1
  ring

private theorem synthetic_weight (rates : Rates) (tokens : Tokens) (scale : Rat) :
    synthetic (priceOf rates tokens scale) = weight (longContextTier rates) tokens * scale / 1000000 := by
  unfold synthetic priceOf weight longContextTier
  simp only [Option.getD_some]
  ring

private theorem weight_nonneg (nonneg : rates.Nonneg) : 0 ≤ weight rates tokens := by
  obtain ⟨input,output,cacheRead,cacheWrite⟩ := nonneg
  unfold weight
  positivity

/-- Tokens within the bounds cost no more than the rates do in the bound. -/
private theorem weight_le (nonneg : rates.Nonneg) {long : Bool} {input output : Rat} (side : (tokens.side : Rat) ≤ input)
    (answered : (tokens.output : Rat) ≤ output) (hours : long = false → tokens.cacheWrite1h = 0) :
    weight rates tokens ≤ candidateCost long input output rates := by
  unfold candidateCost
  generalize dear : max (max (max rates.input rates.cacheRead) rates.cacheWrite) (if long then 2 * rates.input else 0) = dearest
  have one : rates.input ≤ dearest := by rw [← dear]; simp
  have two : rates.cacheRead ≤ dearest := by rw [← dear]; simp
  have three : rates.cacheWrite ≤ dearest := by rw [← dear]; simp
  have written : 2 * rates.input * (tokens.cacheWrite1h : Rat) ≤ dearest * tokens.cacheWrite1h := by
    cases long with
    | false => simp [hours rfl]
    | true =>
      have four : 2 * rates.input ≤ dearest := by rw [← dear]; simp
      exact mul_le_mul_of_nonneg_right four (Nat.cast_nonneg _)
  have nonneg' : 0 ≤ dearest := nonneg.input.trans one
  have first := mul_le_mul_of_nonneg_right one (Nat.cast_nonneg (α := Rat) tokens.input)
  have second := mul_le_mul_of_nonneg_right two (Nat.cast_nonneg (α := Rat) tokens.cacheRead)
  have third := mul_le_mul_of_nonneg_right three (Nat.cast_nonneg (α := Rat) (tokens.cacheWrite - tokens.cacheWrite1h))
  have last := mul_le_mul_of_nonneg_left answered nonneg.output
  have whole := mul_le_mul_of_nonneg_left side nonneg'
  have split : ((tokens.cacheWrite - tokens.cacheWrite1h : Nat) : Rat) = tokens.cacheWrite - tokens.cacheWrite1h :=
    Nat.cast_sub tokens.within
  unfold Tokens.side at whole
  push_cast at whole
  unfold weight
  rw [split] at third ⊢
  linarith

end Rating

section Dearest
variable {α : Type}

private theorem foldl_max_le_iff (list : List α) (figure : α → Rat) (start most : Rat) :
    list.foldl (fun dearest item => max dearest (figure item)) start ≤ most ↔
      start ≤ most ∧ ∀ item ∈ list, figure item ≤ most := by
  induction list generalizing start with
  | nil => simp
  | cons item list ih =>
    rw [List.foldl_cons,ih,max_le_iff,List.forall_mem_cons,and_assoc]

end Dearest

section Candidates
variable {model : Model} {table : Table} {rates : Rates} {input output side : Rat} {long : Bool}

private theorem longContext_nonneg (nonneg : rates.Nonneg) : (longContextTier rates).Nonneg := by
  obtain ⟨input,output,cacheRead,cacheWrite⟩ := nonneg
  refine ⟨?_,?_,?_,?_⟩
  all_goals
    unfold longContextTier
    dsimp only
    positivity

private theorem mem_candidates_iff : rates ∈ candidates model input table ↔
    rates = table.toRates ∨ (∃ tier ∈ table.tiers, tier.inputTokensAbove < input ∧ tier.toRates = rates) ∨
      (model.api ∈ ANTHROPIC_PRICED_APIS ∧ table.tiers = [] ∧ LONG_CONTEXT_TOKENS < input) ∧ rates = longContextTier table.toRates := by
  unfold candidates
  rw [List.cons_append,List.mem_cons,List.mem_append]
  refine or_congr Iff.rfl (or_congr ?_ ?_)
  · simp only [List.mem_map,List.mem_filter,decide_eq_true_eq,and_assoc]
  · split
    next own => simp only [List.mem_singleton,own,true_and,and_self]
    next other => simp only [List.not_mem_nil,other,false_and]

private theorem reached_candidate (reached : RatesReached table side rates) (within : side ≤ input) :
    rates ∈ candidates model input table := by
  rw [mem_candidates_iff]
  cases reached with
  | base => exact .inl rfl
  | tier tier listed passed => exact .inr (.inl ⟨tier,listed,passed.trans_le within,rfl⟩)

private theorem candidate_nonneg (own : table.toRates.Nonneg) (tiers : ∀ tier ∈ table.tiers, tier.toRates.Nonneg)
    (among : rates ∈ candidates model input table) : rates.Nonneg := by
  rcases mem_candidates_iff.mp among with rfl | ⟨tier,listed,_,rfl⟩ | ⟨_,rfl⟩
  · exact own
  · exact tiers tier listed
  · exact longContext_nonneg own

private theorem isZero_iff : rates.isZero = true ↔
    rates.input = 0 ∧ rates.output = 0 ∧ rates.cacheRead = 0 ∧ rates.cacheWrite = 0 := by
  unfold Rates.isZero
  simp only [Bool.and_eq_true,decide_eq_true_eq,and_assoc]

/-- Rates come to nothing only where each is zero. -/
private theorem candidateCost_zero_iff (nonneg : rates.Nonneg) (some' : 0 < input) (answered : 0 ≤ output)
    (priced : output = 0 → rates.output = 0) : candidateCost long input output rates ≤ 0 ↔ rates.isZero = true := by
  unfold candidateCost
  rw [isZero_iff]
  obtain ⟨one,two,three,four⟩ := nonneg
  constructor
  · intro nothing
    generalize dear : max (max (max rates.input rates.cacheRead) rates.cacheWrite) (if long then 2 * rates.input else 0) = dearest
      at nothing
    have input' : rates.input ≤ dearest := by rw [← dear]; simp
    have cacheRead' : rates.cacheRead ≤ dearest := by rw [← dear]; simp
    have cacheWrite' : rates.cacheWrite ≤ dearest := by rw [← dear]; simp
    have first : 0 ≤ input * dearest := mul_nonneg some'.le (one.trans input')
    have second : 0 ≤ output * rates.output := mul_nonneg answered two
    have none' : dearest = 0 := (mul_eq_zero.mp (by linarith)).resolve_left some'.ne'
    refine ⟨by linarith,?_,by linarith,by linarith⟩
    rcases mul_eq_zero.mp (show output * rates.output = 0 by linarith) with own | own
    · exact priced own
    · exact own
  · rintro ⟨input,output,cached,written⟩
    rw [input,output,cached,written]
    simp

end Candidates

section Outputs
variable {method : Method} {model : CallModel} {options : Value} {tables : List Table}

private theorem positive_pos {value : Value} {own : Rat} (read : positive value = some own) : 0 < own :=
  of_decide_eq_true (Option.filter_eq_some_iff.mp read).2

private theorem caps_pos {layer : Members} {keys : List String} {start bound : Rat} (positive' : 0 < start)
    (same : keys.foldlM (fun bound key =>
      match Members.get? layer key with
      | none => some bound
      | some value => (positive value).map (max bound)) start = some bound) : 0 < bound := by
  induction keys generalizing start with
  | nil =>
    cases same
    exact positive'
  | cons key keys ih =>
    rw [List.foldlM_cons] at same
    obtain ⟨more,own,later⟩ := Option.bind_eq_some_iff.mp same
    refine ih ?_ later
    split at own
    · cases own
      exact positive'
    · obtain ⟨cap,_,rfl⟩ := Option.map_eq_some_iff.mp own
      exact positive'.trans_le (le_max_left _ _)

private theorem samplingStep_pos {state next : Rat × Rat} {layer : Members} (step : samplingStep state layer = some next)
    (one : 0 < state.1) (two : 0 < state.2) : 0 < next.1 ∧ 0 < next.2 := by
  unfold samplingStep at step
  obtain ⟨bound,bounds,step⟩ := Option.bind_eq_some_iff.mp step
  have bound' := caps_pos one bounds
  split at step
  · cases step
    exact ⟨bound',two⟩
  · obtain ⟨choices,_,rfl⟩ := Option.map_eq_some_iff.mp step
    exact ⟨bound',two.trans_le (le_max_left _ _)⟩

private theorem samplingOutput_pos {output result : Rat} (sampled : samplingOutput model options output = some result)
    (some' : 0 < output) : 0 < result := by
  unfold samplingOutput at sampled
  split at sampled
  · cases sampled
    exact some'
  · split at sampled
    · cases sampled
    · obtain ⟨layers,_,sampled⟩ := Option.bind_eq_some_iff.mp sampled
      obtain ⟨state,steps,sampled⟩ := Option.bind_eq_some_iff.mp sampled
      cases sampled
      have kept : ∀ (layers : List Members) (start : Rat × Rat), 0 < start.1 → 0 < start.2 →
          layers.foldlM samplingStep start = some state → 0 < state.1 ∧ 0 < state.2 := by
        intro layers
        induction layers with
        | nil =>
          intro start one two same
          cases same
          exact ⟨one,two⟩
        | cons layer layers ih =>
          intro start one two same
          rw [List.foldlM_cons] at same
          obtain ⟨next,own,later⟩ := Option.bind_eq_some_iff.mp same
          obtain ⟨one,two⟩ := samplingStep_pos own one two
          exact ih next one two later
      obtain ⟨one,two⟩ := kept layers (output,1) some' one_pos steps
      exact mul_pos one two

private theorem sentOutput_pos {present : Option Rat} {output : Rat}
    (sent : sentOutput method model options present = some output) : 0 < output := by
  have asked : ∀ output, (present.filter fun present => 0 < present) = some output → 0 < output :=
    fun _ own => of_decide_eq_true (Option.filter_eq_some_iff.mp own).2
  unfold sentOutput at sent
  dsimp only at sent
  split at sent
  · split at sent
    · split at sent
      · exact asked output sent
      · split at sent
        · cases sent
        · exact positive_pos sent
    · cases sent
  · split at sent
    · rcases Option.or_eq_some_iff.mp sent with own | ⟨_,own⟩
      · exact asked output own
      · exact positive_pos own
    · exact positive_pos sent

private theorem reasonedOutput_pos {sent : Option Rat} (some' : ∀ output, sent = some output → 0 < output) {output : Rat}
    (reasoned : reasonedOutput model options sent = some output) : 0 < output := by
  unfold reasonedOutput at reasoned
  split at reasoned
  · split at reasoned
    next most own _ =>
      cases reasoned
      exact (some' own rfl).trans_le (le_max_left _ _)
    · cases reasoned
  · exact some' output reasoned

/-- An answer is bounded above zero, or its rates are zero. -/
private theorem outputBound_priced {output : Rat} (bounded : outputBound method model options tables = some output) :
    0 ≤ output ∧ (output = 0 → ∀ table ∈ tables, table.output ≤ 0 ∧ ∀ tier ∈ table.tiers, tier.output ≤ 0) := by
  unfold outputBound at bounded
  split at bounded
  · split at bounded
    · cases bounded
    next free =>
      cases bounded
      refine ⟨le_rfl,fun _ table among => ?_⟩
      have own : ¬(0 < table.output || table.tiers.any fun tier => 0 < tier.output) = true :=
        fun dear => free (List.any_eq_true.mpr ⟨table,among,dear⟩)
      rw [Bool.or_eq_true,not_or,decide_eq_true_eq,not_lt] at own
      refine ⟨own.1,fun tier listed => not_lt.mp fun dear => own.2 ?_⟩
      exact List.any_eq_true.mpr ⟨tier,listed,decide_eq_true dear⟩
  · obtain ⟨present,_,bounded⟩ := Option.bind_eq_some_iff.mp bounded
    split at bounded
    · cases bounded
    · obtain ⟨reasoned,own,sampled⟩ := Option.bind_eq_some_iff.mp bounded
      have positive' : 0 < reasoned := reasonedOutput_pos (fun _ sent => sentOutput_pos sent) own
      have more : 0 < output := by
        refine samplingOutput_pos sampled ?_
        split
        · exact positive'.trans_le (le_max_left _ _)
        · exact positive'
      exact ⟨more.le,fun none' => absurd none' more.ne'⟩

end Outputs

section Bound
variable {digits : Rat → Nat} {method : Method} {model : CallModel} {context options env : Value} {bound : Nat}
variable {tables : List Table} {table : Table} {tokens : Tokens} {rates : Rates} {scale : Rat}

/-- The dearest of the rates that could price the call. -/
private def dearest (model : CallModel) (options env : Value) (tables : List Table) (input output : Rat) : Rat :=
  (tables.flatMap (candidates model.toModel input)).foldl (fun dearest rates =>
    max dearest (candidateCost (longWrite model.toModel options env) input output rates)) 0

private theorem bound_cases (bounded : callCostBound digits method model context options env = some bound) :
    ∃ tables, priceTables model.toModel = some tables ∧
      (tables.all Table.isZero = true ∧ bound = 0 ∨
        ∃ (input : Nat) (output : Rat), inputBound digits model context = some input ∧
          outputBound method model options tables = some output ∧
          bound = ⌈dearest model options env tables input output * multiplier model.toModel⌉.toNat) := by
  unfold callCostBound at bounded
  split at bounded
  · cases bounded
  obtain ⟨tables,listed,bounded⟩ := Option.bind_eq_some_iff.mp bounded
  refine ⟨tables,listed,?_⟩
  split at bounded
  next zero =>
    cases bounded
    exact .inl ⟨zero,rfl⟩
  · obtain ⟨input,own,bounded⟩ := Option.bind_eq_some_iff.mp bounded
    obtain ⟨output,answered,bounded⟩ := Option.bind_eq_some_iff.mp bounded
    cases bounded
    exact .inr ⟨input,output,own,answered,rfl⟩

private theorem multiplier_pos (model : Model) : 0 < multiplier model := by
  unfold multiplier
  split
  · split
    · norm_num
    · norm_num
  · norm_num

private theorem candidate_dearest {input output : Rat} (among : table ∈ tables)
    (one : rates ∈ candidates model.toModel input table) :
    candidateCost (longWrite model.toModel options env) input output rates ≤ dearest model options env tables input output :=
  ((foldl_max_le_iff _ _ _ _).mp le_rfl).2 rates (List.mem_flatMap.mpr ⟨table,among,one⟩)

private theorem weight_zero (zero : rates.isZero = true) (tokens : Tokens) :
    weight rates tokens = 0 ∧ weight (longContextTier rates) tokens = 0 := by
  obtain ⟨one,two,three,four⟩ := isZero_iff.mp zero
  unfold weight longContextTier
  rw [one,two,three,four]
  constructor
  all_goals ring

private theorem reached_zero {side : Rat} (zero : table.isZero = true) (reached : RatesReached table side rates) :
    rates.isZero = true := by
  obtain ⟨own,tiers⟩ := Bool.and_eq_true_iff.mp zero
  cases reached with
  | base => exact own
  | tier tier listed => exact List.all_eq_true.mp tiers tier listed

private theorem micros_le {weight bound : Rat} (within : weight ≤ bound) : micros (weight / 1000000) ≤ ⌈bound⌉.toNat := by
  unfold micros
  refine Int.toNat_le_toNat (Int.ceil_mono ?_)
  linarith

/-- What is billed is within the bound, with the long context price where that is the table's own. -/
private theorem billed_within (bounded : callCostBound digits method model context options env = some bound)
    (listed : priceTables model.toModel = some tables) (among : table ∈ tables)
    (reached : RatesReached table tokens.side rates)
    (side : ∀ most, inputBound digits model context = some most → tokens.side ≤ most)
    (answered : ∀ most, outputBound method model options tables = some most → (tokens.output : Rat) ≤ most)
    (hours : longWrite model.toModel options env = false → tokens.cacheWrite1h = 0)
    (least : 0 ≤ scale) (most : scale ≤ multiplier model.toModel) :
    micros (weight rates tokens * scale / 1000000) ≤ bound ∧
      (model.api ∈ ANTHROPIC_PRICED_APIS → table.tiers = [] → LONG_CONTEXT_TOKENS < tokens.side →
        micros (weight (longContextTier rates) tokens * scale / 1000000) ≤ bound) := by
  obtain ⟨others,listed',cases'⟩ := bound_cases bounded
  cases Option.some_inj.mp (listed.symm.trans listed')
  rcases cases' with ⟨zero,rfl⟩ | ⟨input,output,own,priced,rfl⟩
  · obtain ⟨one,two⟩ := weight_zero (reached_zero (List.all_eq_true.mp zero table among) reached) tokens
    have free : micros 0 ≤ 0 := by simp [micros]
    rw [one,two,zero_mul,zero_div]
    exact ⟨free,fun _ _ _ => free⟩
  · have within : (tokens.side : Rat) ≤ input := Nat.cast_le.mpr (side input own)
    have answered := answered output priced
    obtain ⟨nonneg,tiers⟩ := tables_nonneg listed among
    have scaled : ∀ rates : Rates, rates.Nonneg → rates ∈ candidates model.toModel input table →
        micros (weight rates tokens * scale / 1000000) ≤
          ⌈dearest model options env tables input output * multiplier model.toModel⌉.toNat := by
      intro rates some' one
      have dearer : candidateCost (longWrite model.toModel options env) input output rates ≤
          dearest model options env tables input output := candidate_dearest among one
      have dear := (weight_le some' within answered hours).trans dearer
      exact micros_le (mul_le_mul dear most least ((weight_nonneg some').trans dear))
    have one : rates ∈ candidates model.toModel input table := reached_candidate reached within
    refine ⟨scaled rates (candidate_nonneg nonneg tiers one) one,?_⟩
    intro api untiered past
    have same : rates = table.toRates := by
      cases reached with
      | base => rfl
      | tier tier listed =>
        rw [untiered] at listed
        cases listed
    rw [same]
    refine scaled _ (longContext_nonneg nonneg) (mem_candidates_iff.mpr (.inr (.inr ⟨⟨api,untiered,?_⟩,rfl⟩)))
    exact past.trans_le within

private theorem charge_le {model : Model} {message : Message} {usage : Usage} {cost : UsageCost} {price : Rat}
    (paid : micros price ≤ bound) (lifted : passedTier model usage = true → micros (synthetic cost) ≤ bound) :
    charge model bound message usage cost price ≤ bound := by
  have first : (if message.failed = true ∧ started message = false then micros price
      else if message.failed = true ∨ unreportedUsage message model.api = true then max (micros price) bound
      else micros price) ≤ bound := by
    split
    · exact paid
    · split
      · exact max_le paid le_rfl
      · exact paid
  unfold charge
  dsimp only
  split
  next long => exact max_le first (lifted long)
  · exact first

private theorem dearest_zero_iff (listed : priceTables model.toModel = some tables) {input : Nat} {output : Rat}
    (some' : 0 < input) (priced : outputBound method model options tables = some output) :
    dearest model options env tables input output ≤ 0 ↔
      ∀ table ∈ tables, table.toRates.isZero = true ∧
        ∀ tier ∈ table.tiers, tier.inputTokensAbove < input → tier.toRates.isZero = true := by
  obtain ⟨least,free⟩ := outputBound_priced priced
  have nothing : ∀ table ∈ tables, ∀ rates ∈ candidates model.toModel input table,
      (candidateCost (longWrite model.toModel options env) input output rates ≤ 0 ↔ rates.isZero = true) := by
    intro table among rates one
    obtain ⟨nonneg,tiers⟩ := tables_nonneg listed among
    have own := candidate_nonneg nonneg tiers one
    refine candidateCost_zero_iff own (Nat.cast_pos.mpr some') least ?_
    intro none'
    obtain ⟨first,others⟩ := free none' table among
    refine le_antisymm ?_ own.output
    rcases mem_candidates_iff.mp one with rfl | ⟨tier,inside,_,rfl⟩ | ⟨_,rfl⟩
    · exact first
    · exact others tier inside
    · unfold longContextTier
      dsimp only
      linarith
  unfold dearest
  rw [foldl_max_le_iff]
  constructor
  · rintro ⟨_,all⟩ table among
    have each : ∀ rates ∈ candidates model.toModel input table, rates.isZero = true := fun rates one =>
      (nothing table among rates one).mp (all rates (List.mem_flatMap.mpr ⟨table,among,one⟩))
    refine ⟨each _ (mem_candidates_iff.mpr (.inl rfl)),fun tier inside passed => ?_⟩
    exact each _ (mem_candidates_iff.mpr (.inr (.inl ⟨tier,inside,passed,rfl⟩)))
  · intro zero
    refine ⟨le_rfl,fun rates inside => ?_⟩
    obtain ⟨table,among,one⟩ := List.mem_flatMap.mp inside
    obtain ⟨own,tiers⟩ := zero table among
    refine (nothing table among rates one).mpr ?_
    rcases mem_candidates_iff.mp one with rfl | ⟨tier,listed',passed,rfl⟩ | ⟨_,rfl⟩
    · exact own
    · exact tiers tier listed' passed
    · obtain ⟨first,second,third,fourth⟩ := isZero_iff.mp own
      rw [isZero_iff]
      unfold longContextTier
      simp [first,second,third,fourth]

/-- A settled call is charged at most its bound, unless the long context price is put on a table that has tiers of its own;
and the bound is zero exactly where the rates are that the input could reach. -/
theorem call_bounded (bounded : callCostBound digits method model context options env = some bound)
    (listed : priceTables model.toModel = some tables) :
    (∀ table ∈ tables, ∀ (tokens : Tokens) (rates : Rates), RatesReached table tokens.side rates →
      (∀ most, inputBound digits model context = some most → tokens.side ≤ most) →
      (∀ most, outputBound method model options tables = some most → (tokens.output : Rat) ≤ most) →
      (longWrite model.toModel options env = false → tokens.cacheWrite1h = 0) →
      ∀ scale, 0 ≤ scale → scale ≤ multiplier model.toModel →
      (passedTier model.toModel (usageOf tokens (priceOf rates tokens scale)) = true → table.tiers = []) →
      ∀ message : Message, message.usage = some (usageOf tokens (priceOf rates tokens scale)) →
      ∀ (guard : CostGuard) (place : Nat),
        (∀ ticket, guard.tickets[place]? = some ticket → ticket.bound = bound ∧ ticket.model = model.toModel) →
        (guard.settle place (some message)).spent ≤ guard.spent + bound) ∧
    (bound = 0 ↔ ∀ table ∈ tables, table.toRates.isZero = true ∧ ∀ tier ∈ table.tiers,
      (∀ most, inputBound digits model context = some most → tier.inputTokensAbove < most) → tier.toRates.isZero = true) := by
  constructor
  · intro table among tokens rates reached side answered hours scale least most untiered message settled guard place held
    obtain ⟨paid,lifted⟩ := billed_within bounded listed among reached side answered hours least most
    unfold settle
    split
    · omega
    next ticket found =>
      obtain ⟨rfl,own⟩ := held ticket found
      split
      · omega
      · have price : priced (some message) = some (message,usageOf tokens (priceOf rates tokens scale),
            priceOf rates tokens scale,weight rates tokens * scale / 1000000) := by
          unfold priced
          rw [Option.bind_eq_bind,Option.bind_some,settled,Option.bind_eq_bind,Option.bind_some]
          change ((priceOf rates tokens scale).total.bind fun price => _) = _
          rw [total_weight]
          rfl
        dsimp only
        rw [price]
        dsimp only
        rw [own]
        refine Int.add_le_add_left (Int.ofNat_le.mpr (charge_le paid ?_)) _
        intro long
        rw [synthetic_weight]
        have passed := untiered long
        unfold passedTier at long
        simp only [Bool.and_eq_true,decide_eq_true_eq] at long
        refine lifted long.1.1 passed (lt_of_lt_of_eq long.2 ?_)
        unfold inputSide usageOf Tokens.side
        push_cast
        rfl
  · obtain ⟨others,listed',cases'⟩ := bound_cases bounded
    cases Option.some_inj.mp (listed.symm.trans listed')
    rcases cases' with ⟨zero,rfl⟩ | ⟨input,output,own,priced,rfl⟩
    · refine ⟨fun _ table among => ?_,fun _ => rfl⟩
      obtain ⟨first,tiers⟩ := Bool.and_eq_true_iff.mp (List.all_eq_true.mp zero table among)
      exact ⟨first,fun tier inside _ => List.all_eq_true.mp tiers tier inside⟩
    · have some' : 0 < input := by
        unfold inputBound at own
        obtain ⟨bytes,_,own⟩ := Option.bind_eq_some_iff.mp own
        obtain ⟨images,_,own⟩ := Option.bind_eq_some_iff.mp own
        cases own
        unfold BOUND_OVERHEAD_TOKENS
        omega
      have free : dearest model options env tables input output ≤ 0 ↔ _ := dearest_zero_iff listed some' priced
      have same : ⌈dearest model options env tables input output * multiplier model.toModel⌉.toNat = 0 ↔
          dearest model options env tables input output ≤ 0 := by
        rw [Int.toNat_eq_zero,Int.ceil_le,Int.cast_zero]
        have times := multiplier_pos model.toModel
        refine ⟨fun none' => ?_,fun none' => mul_nonpos_of_nonpos_of_nonneg none' times.le⟩
        exact not_lt.mp fun dear => absurd (mul_pos dear times) (not_lt.mpr none')
      rw [same,free,own]
      simp only [Option.some_inj,forall_eq']

private def number (value : Rat) : Value := .number (.finite value)

private def flatRates (price : Rat) : Members :=
  [("input",number price),("output",number price),("cacheRead",number 0),("cacheWrite",number 0)]

/-- A model on one of the priced apis, with a table and what its compat allows to fall back to. -/
private def claude (cost : Members) (fallbacks : List Value) : CallModel where
  provider := "anthropic"
  id := "m"
  api := "anthropic-messages"
  host := none
  cost := .object none cost
  compat := .object none [("allowedFallbackModels",.array none fallbacks)]
  unreadable := false
  baseUrl := .undefined
  maxTokens := .undefined
  samplingParams := .undefined
  samplingParamsByThinkingLevel := .undefined
  inputLimits := .object none [("images",.object none [("resize",.object none
    [("maxWidth",number 20000),("maxHeight",number 20000)])])]

private def steep (above : Rat) : Value := .array none [.object none (("inputTokensAbove",number above) :: flatRates 10)]

private def fallen : CallModel :=
  claude (flatRates 1) [.object none [("cost",.object none (flatRates 10 ++ [("tiers",steep 0)]))]]

private def picture : Value := .object none [("type",.string "image")]

private def one : Value := .object none [("maxTokens",number 1)]

private def read : Tokens := ⟨400000,1,0,0,0,le_rfl⟩

private def said (rates : Rates) : Message :=
  ⟨some (usageOf read (priceOf rates read 1)),"stop",some [.text "hi"],none⟩

private def holding (bound : Nat) : CostGuard := { initial with tickets := [⟨bound,fallen.toModel,true,false⟩] }

/-- An answer of the model's own, at its long context price. -/
theorem call_bounded_own : ((holding 5415930).settle 0 (some (said ⟨1,1,0,0⟩))).spent ≤ 5415930 := by
  have bounded : callCostBound (fun _ => 1) .streamSimple fallen picture one .undefined = some 5415930 := by decide +kernel
  have listed : priceTables fallen.toModel = some [⟨⟨1,1,0,0⟩,[]⟩,⟨⟨10,10,0,0⟩,[⟨⟨10,10,0,0⟩,0⟩]⟩] := rfl
  have input : inputBound (fun _ => 1) fallen picture = some 541592 := by decide +kernel
  have output : outputBound .streamSimple fallen one [⟨⟨1,1,0,0⟩,[]⟩,⟨⟨10,10,0,0⟩,[⟨⟨10,10,0,0⟩,0⟩]⟩] = some 1 := by decide +kernel
  refine ((call_bounded bounded listed).1 ⟨⟨1,1,0,0⟩,[]⟩ List.mem_cons_self read ⟨1,1,0,0⟩ (.base nofun) ?_ ?_ (fun _ => rfl) 1
    (by decide) (by decide +kernel) (fun _ => rfl) (said ⟨1,1,0,0⟩) rfl (holding 5415930) 0 ?_).trans ?_
  · intro most own
    cases Option.some_inj.mp (input.symm.trans own)
    decide
  · intro most own
    cases Option.some_inj.mp (output.symm.trans own)
    decide
  · intro ticket found
    cases Option.some_inj.mp found
    exact ⟨rfl,rfl⟩
  · exact le_of_eq (Int.zero_add _)

/-- A fallback that has tiers is charged the long context price on top, past the bound; and a bound is zero though a tier
that the input cannot reach has rates. -/
theorem fallback_overcharged :
    callCostBound (fun _ => 1) .streamSimple fallen picture one .undefined = some 5415930 ∧
      inputBound (fun _ => 1) fallen picture = some 541592 ∧ read.side ≤ 541592 ∧
      RatesReached ⟨⟨10,10,0,0⟩,[⟨⟨10,10,0,0⟩,0⟩]⟩ read.side ⟨10,10,0,0⟩ ∧
      ((holding 5415930).settle 0 (some (said ⟨10,10,0,0⟩))).spent = 8000015 ∧
      callCostBound (fun _ => 1) .streamSimple (claude (flatRates 0 ++ [("tiers",steep 1000000)]) []) picture one .undefined = some 0 := by
  refine ⟨by decide +kernel,by decide +kernel,by decide,?_,by decide +kernel,by decide +kernel⟩
  refine .tier ⟨⟨10,10,0,0⟩,0⟩ List.mem_cons_self ?_ ?_
  · decide +kernel
  · intro other inside _
    rw [List.mem_singleton.mp inside]

end Bound

end PiDispatch.UsageMeter
