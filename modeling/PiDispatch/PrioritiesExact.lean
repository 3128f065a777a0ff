import PiDispatch.PrioritiesLaws

/-! What an allocation is, entry by entry: the target's quotas and whom its last units go to, and how far a step moves
from the split it starts at. -/
namespace PiDispatch.Priorities
open Kernel

variable {envelope : Envelope}

/-- A split that a step may start at, its entries in any order. -/
structure Stands (envelope : Envelope) (vector : Vector) : Prop where
  keys : vector.allocations.keys.Perm (envelopeEntries envelope)
  floors : ∀ id ∈ envelopeEntries envelope, floorOf envelope id ≤ amountOf vector id
  unallocated : 0 ≤ vector.unallocated
  sum : ((envelopeEntries envelope).map (amountOf vector)).sum + vector.unallocated = envelope.totalMicros

/-- Weights over exactly the envelope's entries. -/
structure Weighs (envelope : Envelope) (weights : Weights) : Prop where
  keys : ∀ id, id ∈ weights.keys ↔ id ∈ envelopeEntries envelope
  valid : ∀ weight ∈ weights.values, isWeight weight

private theorem weighs_each {weights : Weights} (weighs : Weighs envelope weights) {id : String}
    (member : id ∈ envelopeEntries envelope) : isWeight ((weights.get? id).getD none) := by
  have given := (weighs.keys id).mpr member
  rw [← Dict.get?_isSome_iff,Option.isSome_iff_exists] at given
  obtain ⟨weight,found⟩ := given
  rw [found]
  exact weighs.valid weight ((Dict.mem_values_iff _ _).mpr ⟨id,found⟩)

private theorem weighs_nonneg {weights : Weights} (weighs : Weighs envelope weights) {id : String}
    (member : id ∈ envelopeEntries envelope) : 0 ≤ weightOf weights id := by
  have valid := weighs_each weighs member
  unfold weightOf
  generalize (weights.get? id).getD none = given at valid
  cases given with
  | none => exact le_refl _
  | some weight => exact valid.1

/-- What each entry's part of the headroom is, before the last units are given out. -/
def quota (envelope : Envelope) (weights : Weights) (id : String) : Int :=
  headroom envelope * weightOf weights id / ((envelopeEntries envelope).map (weightOf weights)).sum

/-- What the division leaves of it, in parts of the weights' sum. -/
def remainder (envelope : Envelope) (weights : Weights) (id : String) : Int :=
  headroom envelope * weightOf weights id % ((envelopeEntries envelope).map (weightOf weights)).sum

/-- Quotas first; then one unit more, by the larger remainder and of equal ones by the earlier id. -/
structure Quotas (envelope : Envelope) (weights : Weights) (amount : String → Int) : Prop where
  either : ∀ id ∈ envelopeEntries envelope, amount id = floorOf envelope id + quota envelope weights id ∨
    amount id = floorOf envelope id + quota envelope weights id + 1
  order : ∀ first ∈ envelopeEntries envelope, ∀ second ∈ envelopeEntries envelope,
    amount first = floorOf envelope first + quota envelope weights first + 1 →
    amount second = floorOf envelope second + quota envelope weights second →
    remainder envelope weights second < remainder envelope weights first ∨
      (remainder envelope weights first = remainder envelope weights second ∧
        [first,second].Sublist (envelopeEntries envelope))

private theorem shares_quotas {weights : Weights} (nonneg : ∀ id ∈ envelopeEntries envelope, 0 ≤ weightOf weights id)
    (some' : ((envelopeEntries envelope).map (weightOf weights)).sum ≠ 0) {share : String → Int}
    (shares : ∀ id ∈ envelopeEntries envelope, (id,share id) ∈ largestRemainder (headroom envelope)
      ((envelopeEntries envelope).map fun id => (id,weightOf weights id))) :
    Quotas envelope weights fun id => floorOf envelope id + share id := by
  generalize rows' : ((envelopeEntries envelope).map fun id => (id,weightOf weights id)) = rows at shares
  have keys : rows.map Prod.fst = envelopeEntries envelope := by
    rw [← rows']
    simp [Function.comp_def]
  have weighs : rows.map Prod.snd = (envelopeEntries envelope).map (weightOf weights) := by
    rw [← rows']
    simp [Function.comp_def]
  have positive : 0 < (rows.map Prod.snd).sum := by
    rw [weighs]
    refine lt_of_le_of_ne (List.sum_nonneg ?_) some'.symm
    intro weight member
    obtain ⟨id,inside,rfl⟩ := List.mem_map.mp member
    exact nonneg id inside
  have distinct : (rows.map Prod.fst).Nodup := keys ▸ entries_nodup envelope
  have row (id : String) (member : id ∈ envelopeEntries envelope) : (id,weightOf weights id) ∈ rows := by
    rw [← rows']
    exact List.mem_map_of_mem member
  have same (row : String × Int) (member : row ∈ rows) : row.2 = weightOf weights row.1 := by
    rw [← rows'] at member
    obtain ⟨id,_,rfl⟩ := List.mem_map.mp member
    rfl
  have sum : (rows.map fun row => headroom envelope * row.2).sum = (rows.map Prod.snd).sum * headroom envelope := by
    rw [List.sum_map_mul_left,mul_comm]
  have base : (rows.map fun _ => (0 : Int)).sum = 0 := by simp
  have split : largestRemainder (headroom envelope) rows =
      rounded (rows.map Prod.snd).sum rows Prod.fst (fun _ => 0) (fun row => headroom envelope * row.2) (headroom envelope) := by
    unfold largestRemainder
    dsimp only
    rw [if_neg positive.ne']
  rw [split] at shares
  refine ⟨?_,?_⟩
  · intro id member
    obtain ⟨found,inside,key,value⟩ := rounded_value positive distinct sum (fun _ => 0) (id,share id)
      (by rw [base,zero_add]; exact shares id member)
    have key : id = found.1 := key
    rw [same found inside,← key,weighs,zero_add] at value
    unfold quota
    dsimp only at value
    rcases value with plain | ⟨more,_⟩
    · exact .inl (by rw [plain])
    · exact .inr (by rw [more]; ring)
  · intro first member second member' more less
    have more : share first = 0 + headroom envelope * weightOf weights first / (rows.map Prod.snd).sum + 1 := by
      unfold quota at more
      rw [weighs]
      linarith
    have less : share second = 0 + headroom envelope * weightOf weights second / (rows.map Prod.snd).sum := by
      unfold quota at less
      rw [weighs]
      linarith
    have given := shares first member
    have given' := shares second member'
    rw [more] at given
    rw [less] at given'
    have order := rounded_order distinct (row first member) (row second member') given given'
    rw [keys,weighs] at order
    exact order

private theorem none_weighs {weights : Weights} (nonneg : ∀ id ∈ envelopeEntries envelope, 0 ≤ weightOf weights id) :
    (envelopeEntries envelope).any (fun id => weightOf weights id > 0) = false ↔
      ((envelopeEntries envelope).map (weightOf weights)).sum = 0 := by
  constructor
  · intro none
    refine List.sum_eq_zero ?_
    intro weight member
    obtain ⟨id,inside,rfl⟩ := List.mem_map.mp member
    have most := List.any_eq_false.mp none id inside
    have low := nonneg id inside
    rw [decide_eq_true_eq] at most
    omega
  · intro zero
    refine List.any_eq_false.mpr ?_
    intro id inside
    have least := List.single_le_sum (fun weight member => by
      obtain ⟨other,there,rfl⟩ := List.mem_map.mp member
      exact nonneg other there) _ (List.mem_map_of_mem (f := weightOf weights) inside)
    rw [decide_eq_true_eq]
    omega

/-- The target gives each entry its floor and its quota, or one more. -/
theorem target_quotas {weights : Weights} (nonneg : ∀ id ∈ envelopeEntries envelope, 0 ≤ weightOf weights id) :
    Quotas envelope weights (amountOf (targetOf envelope weights).vector) := by
  have keys : ((envelopeEntries envelope).map fun id => (id,weightOf weights id)).map Prod.fst = envelopeEntries envelope := by
    simp [Function.comp_def]
  have weighs : ((envelopeEntries envelope).map fun id => (id,weightOf weights id)).map Prod.snd =
      (envelopeEntries envelope).map (weightOf weights) := by simp [Function.comp_def]
  have amounts (amount unallocated : Int) (id : String) (share : Int)
      (member : (id,share) ∈ largestRemainder amount ((envelopeEntries envelope).map fun id => (id,weightOf weights id)))
      (distinct : ((largestRemainder amount ((envelopeEntries envelope).map fun id => (id,weightOf weights id))).map
        Prod.fst).Nodup) :
      amountOf (Stepped.vector ⟨(largestRemainder amount ((envelopeEntries envelope).map fun id => (id,weightOf weights id))).map
        fun share => (share.1,floorOf envelope share.1 + share.2),unallocated,false⟩) id = floorOf envelope id + share := by
    have there : (id,floorOf envelope id + share) ∈ (largestRemainder amount
        ((envelopeEntries envelope).map fun id => (id,weightOf weights id))).map
        fun share => (share.1,floorOf envelope share.1 + share.2) := List.mem_map.mpr ⟨_,member,rfl⟩
    refine amountOf_entry ?_ unallocated there
    rw [List.map_map]
    exact distinct
  by_cases zero : ((envelopeEntries envelope).map (weightOf weights)).sum = 0
  · have none := (none_weighs nonneg).mpr zero
    have plain : ∀ id ∈ envelopeEntries envelope, amountOf (targetOf envelope weights).vector id = floorOf envelope id := by
      intro id member
      have split : largestRemainder 0 ((envelopeEntries envelope).map fun id => (id,weightOf weights id)) =
          (envelopeEntries envelope).map fun id => (id,0) := by
        unfold largestRemainder
        dsimp only
        rw [weighs,if_pos zero,List.map_map]
        rfl
      unfold targetOf
      dsimp only
      rw [none,if_neg Bool.false_ne_true,if_neg Bool.false_ne_true,amounts 0 (headroom envelope) id 0]
      · exact add_zero _
      · rw [split]
        exact List.mem_map_of_mem member
      · rw [split,List.map_map]
        exact (List.map_id' (envelopeEntries envelope)).symm ▸ entries_nodup envelope
    have empty : ∀ id, quota envelope weights id = 0 := by
      intro id
      unfold quota
      rw [zero,Int.ediv_zero]
    refine ⟨?_,?_⟩
    · intro id member
      exact .inl (by rw [plain id member,empty,add_zero])
    · intro first member _ _ more
      rw [plain first member,empty] at more
      omega
  · have some' : (envelopeEntries envelope).any (fun id => weightOf weights id > 0) = true := by
      refine Bool.eq_true_of_not_eq_false fun none => zero ((none_weighs nonneg).mp none)
    have split := rounded_keys ((envelopeEntries envelope).map (weightOf weights)).sum
      ((envelopeEntries envelope).map fun id => (id,weightOf weights id)) Prod.fst (fun _ => 0)
      (fun row => headroom envelope * row.2) (headroom envelope)
    have shares : largestRemainder (headroom envelope) ((envelopeEntries envelope).map fun id => (id,weightOf weights id)) =
        rounded ((envelopeEntries envelope).map (weightOf weights)).sum
          ((envelopeEntries envelope).map fun id => (id,weightOf weights id)) Prod.fst (fun _ => 0)
          (fun row => headroom envelope * row.2) (headroom envelope) := by
      unfold largestRemainder
      dsimp only
      rw [weighs,if_neg zero]
    rw [← shares,keys] at split
    have given : ∀ id ∈ envelopeEntries envelope, ∃ share, (id,share) ∈ largestRemainder (headroom envelope)
        ((envelopeEntries envelope).map fun id => (id,weightOf weights id)) := by
      intro id member
      rw [← split] at member
      obtain ⟨share,inside,rfl⟩ := List.mem_map.mp member
      exact ⟨share.2,inside⟩
    have value : ∀ id ∈ envelopeEntries envelope, ∀ share, (id,share) ∈ largestRemainder (headroom envelope)
        ((envelopeEntries envelope).map fun id => (id,weightOf weights id)) →
        amountOf (targetOf envelope weights).vector id = floorOf envelope id + share := by
      intro id member share inside
      unfold targetOf
      dsimp only
      rw [some',if_pos rfl,if_pos rfl]
      exact amounts (headroom envelope) 0 id share inside (by rw [split]; exact entries_nodup envelope)
    have quotas := @shares_quotas envelope weights nonneg zero
      (fun id => amountOf (targetOf envelope weights).vector id - floorOf envelope id) (by
        intro id member
        obtain ⟨share,inside⟩ := given id member
        rw [value id member share inside,add_sub_cancel_left]
        exact inside)
    simpa only [add_sub_cancel] using quotas

/-- How far a step moves: within the bound, and no further than the target; all the way where nothing is further off. -/
structure Moves (bound : Int) (current : Vector) (target stepped : Stepped) : Prop where
  within : Within bound current stepped
  between : ∀ entry ∈ stepped.entries, ∃ goal ∈ target.entries, goal.1 = entry.1 ∧
    min (amountOf current entry.1) goal.2 ≤ entry.2 ∧ entry.2 ≤ max (amountOf current entry.1) goal.2
  clamped : stepped.clamped = true ↔ (∃ goal ∈ target.entries, bound < |goal.2 - amountOf current goal.1|) ∨
    bound < |target.unallocated - current.unallocated|
  plain : stepped.clamped = false → stepped = target

private theorem further_off {current : Vector} {target : Stepped} {bound : Int} (nonneg : 0 ≤ bound) :
    largestMove (stepRows current target) > bound ↔ (∃ goal ∈ target.entries, bound < |goal.2 - amountOf current goal.1|) ∨
      bound < |target.unallocated - current.unallocated| := by
  have reached (moves : List Int) (least : Int) (beyond : bound < moves.foldl max least) :
      bound < least ∨ ∃ move ∈ moves, bound < move := by
    induction moves generalizing least with
    | nil => exact .inl beyond
    | cons move moves ih =>
      rcases ih (max least move) beyond with first | ⟨other,later,far⟩
      · rcases lt_max_iff.mp first with low | here
        · exact .inl low
        · exact .inr ⟨move,List.mem_cons_self,here⟩
      · exact .inr ⟨other,List.mem_cons_of_mem _ later,far⟩
  constructor
  · intro far
    rcases reached _ 0 far with low | ⟨move,member,far⟩
    · omega
    obtain ⟨row,inside,rfl⟩ := List.mem_map.mp member
    rcases List.mem_cons.mp inside with rfl | later
    · exact .inr far
    · obtain ⟨goal,there,rfl⟩ := List.mem_map.mp later
      exact .inl ⟨goal,there,far⟩
  · rintro (⟨goal,there,far⟩ | far)
    · exact far.trans_le (move_le_largest (stepRows current target) ⟨goal.1,amountOf current goal.1,goal.2⟩
        (List.mem_cons_of_mem _ (List.mem_map_of_mem there)))
    · exact far.trans_le (move_le_largest (stepRows current target) ⟨UNALLOCATED,current.unallocated,target.unallocated⟩
        List.mem_cons_self)

private theorem stands_numbers {vector : Vector} (funded : envelope.Funded) (safe : isMicros envelope.totalMicros)
    (stands : Stands envelope vector) : vectorNumbers vector (envelopeEntries envelope) envelope.totalMicros = .ok () := by
  have positive : ∀ amount ∈ (envelopeEntries envelope).map (amountOf vector), 0 ≤ amount := by
    intro amount member
    obtain ⟨id,inside,rfl⟩ := List.mem_map.mp member
    exact (floorOf_nonneg funded id).trans (stands.floors id inside)
  have whole := List.sum_nonneg positive
  have sum := stands.sum
  have left := stands.unallocated
  have covered : sortTexts vector.allocations.keys = envelopeEntries envelope :=
    sorted_unique ((sortTexts_perm _).trans stands.keys) (sortTexts_sorted _) (sortTexts_sorted _)
  have fine : ¬(¬isMicros vector.unallocated ∨ ∃ id ∈ envelopeEntries envelope, ¬isMicros (amountOf vector id)) := by
    rintro (wild | ⟨id,member,wild⟩)
    · exact wild ⟨left,le_trans (by omega) safe.2⟩
    · have inside : amountOf vector id ∈ (envelopeEntries envelope).map (amountOf vector) := List.mem_map_of_mem member
      have most := List.single_le_sum positive _ inside
      exact wild ⟨positive _ inside,le_trans (by omega) safe.2⟩
  unfold vectorNumbers
  rw [if_neg (not_not.mpr covered),if_neg fine,if_neg (not_not.mpr sum)]

/-- One step from a split that stands. -/
theorem stepFrom_moves {current : Vector} {target : Stepped} (funded : envelope.Funded) (safe : isMicros envelope.totalMicros)
    (stands : Stands envelope current) (fits : StepFits envelope target) (whole : target.clamped = false) {pct : Int}
    (given : envelope.delegation.maxStepPct = some pct) (low : 1 ≤ pct) (high : pct ≤ 100) :
    ∃ stepped, stepFrom envelope current target = .ok stepped ∧ StepFits envelope stepped ∧
      Moves (stepOf envelope pct) current target stepped := by
  have nonneg : 0 ≤ stepOf envelope pct :=
    Int.ediv_nonneg (mul_nonneg safe.1 (by omega)) (by decide)
  have shape : stepFrom envelope current target =
      if largestMove (stepRows current target) > stepOf envelope pct then
        .ok ⟨(blend (stepRows current target) (stepOf envelope pct) (largestMove (stepRows current target))).tail,
          ((blend (stepRows current target) (stepOf envelope pct) (largestMove (stepRows current target))).head?.map Prod.snd).getD 0,
          true⟩
      else .ok target := by
    unfold stepFrom
    rw [given]
    dsimp only
    rw [if_neg (by omega),stands_numbers funded safe stands]
    rfl
  by_cases far : largestMove (stepRows current target) > stepOf envelope pct
  · rw [if_pos far] at shape
    obtain ⟨⟨pct',same,within⟩,kept⟩ := stepFrom_fits funded fits shape
    rw [given] at same
    obtain rfl := Option.some.inj same
    refine ⟨_,shape,kept stands.floors,within,?_,iff_of_true rfl ((further_off nonneg).mp far),fun none => nomatch none⟩
    have sums := stepRows_sums fits stands.sum
    have spec := blend_blended nonneg far (fun row member => move_le_largest _ row member)
      (by rw [stepRows_keys fits]; exact keyed_nodup funded) (sums.2.trans sums.1.symm)
    obtain ⟨unallocated,entries,made,keys⟩ := blend_shape fits _ spec
    rw [made] at spec ⊢
    intro entry inside
    obtain ⟨row,member,key,under,over',_⟩ := spec.moved entry (List.mem_cons_of_mem _ inside)
    have named : entry.1 ∈ envelopeEntries envelope := keys ▸ List.mem_map_of_mem inside
    obtain ⟨before,goal,stored,own,aims⟩ := (row_of_key funded fits member).2
      fun same => unallocated_apart funded (same ▸ key ▸ named)
    rw [before,← key,← aims] at under over'
    exact ⟨goal,stored,own.trans key.symm,under,over'⟩
  · rw [if_neg far] at shape
    obtain ⟨⟨pct',same,within⟩,_⟩ := stepFrom_fits funded fits shape
    rw [given] at same
    obtain rfl := Option.some.inj same
    refine ⟨_,shape,fits,within,?_,iff_of_false (by rw [whole]; decide) fun off => far ((further_off nonneg).mpr off),
      fun _ => rfl⟩
    intro entry inside
    exact ⟨entry,inside,rfl,min_le_right _ _,le_max_right _ _⟩
/-- What is promised of an allocation that starts at a split, or at none. -/
structure Exact (envelope : Envelope) (weights : Weights) (current : Option Vector) (result : Allocation) : Prop where
  fits : Fits envelope result.vector
  target : Fits envelope result.target
  quotas : Quotas envelope weights (amountOf result.target)
  plain : result.clamped = false → result.vector = result.target
  fresh : current = none → result.clamped = false
  within : ∀ vector ∈ current, ∀ pct ∈ envelope.delegation.maxStepPct,
    (∀ id ∈ envelopeEntries envelope, |amountOf result.vector id - amountOf vector id| ≤ stepOf envelope pct) ∧
      |result.vector.unallocated - vector.unallocated| ≤ stepOf envelope pct
  between : ∀ vector ∈ current, ∀ id ∈ envelopeEntries envelope,
    min (amountOf vector id) (amountOf result.target id) ≤ amountOf result.vector id ∧
      amountOf result.vector id ≤ max (amountOf vector id) (amountOf result.target id)
  clamped : ∀ vector ∈ current, ∀ pct ∈ envelope.delegation.maxStepPct, (result.clamped = true ↔
    (∃ id ∈ envelopeEntries envelope, stepOf envelope pct < |amountOf result.target id - amountOf vector id|) ∨
      stepOf envelope pct < |result.target.unallocated - vector.unallocated|)

private theorem amountOf_goal {stepped : Stepped} (keys : stepped.entries.map Prod.fst = envelopeEntries envelope)
    {entry : String × Int} (member : entry ∈ stepped.entries) : amountOf stepped.vector entry.1 = entry.2 :=
  amountOf_entry (keys ▸ entries_nodup envelope) _ member

private theorem exact_fresh (funded : envelope.Funded) {weights : Weights} (weighs : Weighs envelope weights)
    (repos : RepoShares) : Exact envelope weights none
      ⟨(targetOf envelope weights).vector,(targetOf envelope weights).clamped,(targetOf envelope weights).vector,repos⟩ := by
  have fits := stepFits_vector (targetOf_fits funded fun _ => weighs_nonneg weighs)
  refine ⟨fits,fits,target_quotas fun _ => weighs_nonneg weighs,fun _ => rfl,fun _ => rfl,?_,?_,?_⟩
  · exact fun _ none => nomatch none
  · exact fun _ none => nomatch none
  · exact fun _ none => nomatch none

private theorem exact_stepped (funded : envelope.Funded) {weights : Weights} (weighs : Weighs envelope weights)
    {vector : Vector} {stepped : Stepped} (fits : StepFits envelope stepped) {pct : Int}
    (given : envelope.delegation.maxStepPct = some pct)
    (moves : Moves (stepOf envelope pct) vector (targetOf envelope weights) stepped) (repos : RepoShares) :
    Exact envelope weights (some vector) ⟨stepped.vector,stepped.clamped,(targetOf envelope weights).vector,repos⟩ := by
  have goals := targetOf_fits funded fun _ => weighs_nonneg weighs
  refine ⟨stepFits_vector fits,stepFits_vector goals,target_quotas fun _ => weighs_nonneg weighs,?_,?_,?_,?_,?_⟩
  · intro whole
    exact congrArg Stepped.vector (moves.plain whole)
  · exact fun none => nomatch none
  · rintro _ ⟨rfl⟩ other same
    obtain rfl : pct = other := Option.some.inj (given.symm.trans same)
    refine ⟨?_,moves.within.unallocated⟩
    intro id member
    rw [← fits.keys] at member
    obtain ⟨entry,inside,rfl⟩ := List.mem_map.mp member
    change |amountOf stepped.vector entry.1 - _| ≤ _
    rw [amountOf_goal fits.keys inside]
    exact moves.within.entries entry inside
  · rintro _ ⟨rfl⟩ id member
    rw [← fits.keys] at member
    obtain ⟨entry,inside,rfl⟩ := List.mem_map.mp member
    obtain ⟨goal,there,same,low,high⟩ := moves.between entry inside
    change min _ (amountOf (targetOf envelope weights).vector entry.1) ≤ amountOf stepped.vector entry.1 ∧
      amountOf stepped.vector entry.1 ≤ max _ (amountOf (targetOf envelope weights).vector entry.1)
    rw [amountOf_goal fits.keys inside,← same,amountOf_goal goals.keys there,same]
    exact ⟨low,high⟩
  · rintro _ ⟨rfl⟩ other same
    obtain rfl : pct = other := Option.some.inj (given.symm.trans same)
    refine moves.clamped.trans (or_congr ⟨?_,?_⟩ Iff.rfl)
    · rintro ⟨goal,there,far⟩
      refine ⟨goal.1,goals.keys ▸ List.mem_map_of_mem there,?_⟩
      change _ < |amountOf (targetOf envelope weights).vector goal.1 - _|
      rw [amountOf_goal goals.keys there]
      exact far
    · rintro ⟨id,member,far⟩
      rw [← goals.keys] at member
      obtain ⟨goal,there,rfl⟩ := List.mem_map.mp member
      refine ⟨goal,there,?_⟩
      change _ < |amountOf (targetOf envelope weights).vector goal.1 - _| at far
      rw [amountOf_goal goals.keys there] at far
      exact far

theorem numbers_ok (funded : envelope.Funded) (other : OTHER ∈ envelope.floors.keys)
    (safe : isMicros envelope.totalMicros) : envelopeNumbers envelope = .ok () := by
  have all : ((envelopeEntries envelope).map (floorOf envelope)).sum ≤ envelope.totalMicros := by
    have room := headroom_nonneg funded
    unfold headroom at room
    omega
  have positive : ∀ floor ∈ (envelopeEntries envelope).map (floorOf envelope), 0 ≤ floor := by
    intro floor member
    obtain ⟨id,_,rfl⟩ := List.mem_map.mp member
    exact floorOf_nonneg funded id
  have fine : ¬(¬isMicros envelope.totalMicros ∨ ∃ id ∈ envelopeEntries envelope, ¬isMicros (floorOf envelope id)) := by
    rintro (wild | ⟨id,member,wild⟩)
    · exact wild safe
    · have most := List.single_le_sum positive _ (List.mem_map_of_mem (f := floorOf envelope) member)
      exact wild ⟨floorOf_nonneg funded id,le_trans most (all.trans safe.2)⟩
  have there : OTHER ∈ envelopeEntries envelope := (sortTexts_perm _).mem_iff.mpr other
  unfold envelopeNumbers
  rw [if_neg (not_not.mpr there),if_neg fine,if_neg (not_lt.mpr all)]

private theorem weighs_found {weights : Weights} (weighs : Weighs envelope weights) :
    ((envelopeEntries envelope).find? fun id => ¬isWeight ((weights.get? id).getD none)) = none ∧
      (weights.keys.find? fun id => id ∉ envelopeEntries envelope) = none := by
  refine ⟨List.find?_eq_none.mpr ?_,List.find?_eq_none.mpr ?_⟩
  · intro id member wild
    exact of_decide_eq_true wild (weighs_each weighs member)
  · intro id member wild
    exact of_decide_eq_true wild ((weighs.keys id).mp member)

private theorem stepped_exact (funded : envelope.Funded) (safe : isMicros envelope.totalMicros) {weights : Weights}
    (weighs : Weighs envelope weights) {current : Option Vector} (stands : ∀ vector ∈ current, Stands envelope vector)
    (pct : ∀ vector ∈ current, ∃ pct ∈ envelope.delegation.maxStepPct, 1 ≤ pct ∧ pct ≤ 100) :
    ∃ done, stepped envelope current (targetOf envelope weights) = .ok done ∧
      ∀ repos, Exact envelope weights current ⟨done.vector,done.clamped,(targetOf envelope weights).vector,repos⟩ := by
  cases current with
  | none => exact ⟨_,rfl,exact_fresh funded weighs⟩
  | some vector =>
    obtain ⟨bound,given,low,high⟩ := pct vector rfl
    obtain ⟨done,ok,fits,moves⟩ := stepFrom_moves funded safe (stands vector rfl)
      (targetOf_fits funded fun _ => weighs_nonneg weighs) rfl given low high
    exact ⟨done,ok,exact_stepped funded weighs fits given moves⟩

private theorem allocate_found (funded : envelope.Funded) (other : OTHER ∈ envelope.floors.keys)
    (safe : isMicros envelope.totalMicros) {weights : Weights} (weighs : Weighs envelope weights) {current : Option Vector}
    {done : Stepped} (ok : stepped envelope current (targetOf envelope weights) = .ok done) (repos : Repos) :
    allocate envelope weights current repos =
      match repos.entries.find? fun repo => repo.1 ∉ envelopeEntries envelope ∨ repo.1 = OTHER ∨
        ∃ weight ∈ repo.2.values, ¬isWeight weight with
      | some repo => .error (.repo repo.1)
      | none => .ok ⟨done.vector,done.clamped,(targetOf envelope weights).vector,splitRepos done.entries repos⟩ := by
  unfold allocate
  rw [numbers_ok funded other safe]
  dsimp only
  rw [(weighs_found weighs).1]
  dsimp only
  rw [(weighs_found weighs).2]
  simp only [ok] <;> rfl

/-- An allocation of valid numbers is made, and is exact: the total and the floors, the quotas with their last units in
order, and a step that moves every entry and the unallocated money no further than its bound and than the target. -/
theorem allocate_exact (funded : envelope.Funded) (other : OTHER ∈ envelope.floors.keys) (safe : isMicros envelope.totalMicros)
    {weights : Weights} (weighs : Weighs envelope weights) {current : Option Vector}
    (stands : ∀ vector ∈ current, Stands envelope vector)
    (pct : ∀ vector ∈ current, ∃ pct ∈ envelope.delegation.maxStepPct, 1 ≤ pct ∧ pct ≤ 100) :
    (∃ result, allocate envelope weights current .empty = .ok result) ∧
      ∀ repos result, allocate envelope weights current repos = .ok result → Exact envelope weights current result := by
  obtain ⟨done,ok,exact⟩ := stepped_exact funded safe weighs stands pct
  have shape := allocate_found funded other safe weighs ok
  refine ⟨⟨_,shape .empty⟩,?_⟩
  intro repos result made
  rw [shape] at made
  split at made
  · cases made
  · rw [← Except.ok.inj made]
    exact exact (splitRepos done.entries repos)

/-- Two entries without floors, of equal weight, and a step of half. -/
def halves : Envelope :=
  ⟨.day,100,.ofList [(OTHER,0),("api",0)],.ofList [(OTHER,some 1),("api",some 1)],⟨true,[.portfolioJob],some 50,some 0,some 1⟩⟩

def idleVector : Vector := ⟨.ofList [(OTHER,0),("api",0)],100⟩

private theorem halves_funded : halves.Funded :=
  ⟨by decide,by decide,by decide⟩

private theorem halves_weighs : Weighs halves halves.defaultWeights := by
  refine ⟨?_,by decide⟩
  intro id
  exact (sortTexts_perm _).mem_iff.symm

private theorem idle_stands : Stands halves idleVector :=
  ⟨(sortTexts_perm _).symm,by decide +kernel,by decide,by decide +kernel⟩

theorem allocate_exact_halves : ∃ result, allocate halves halves.defaultWeights (some idleVector) .empty = .ok result ∧
    Exact halves halves.defaultWeights (some idleVector) result := by
  obtain ⟨⟨result,made⟩,exact⟩ := allocate_exact halves_funded (by decide) (by decide) halves_weighs
    (fun _ same => Option.some.inj same ▸ idle_stands) fun _ _ => ⟨50,rfl,by decide,by decide⟩
  exact ⟨result,made,exact .empty result made⟩

/-- A step that binds although no entry is further off than its bound: the unallocated money is. -/
theorem unallocated_clamps : ¬ ∀ (envelope : Envelope) (weights : Weights) (vector : Vector) (pct : Int) (result : Allocation),
    envelope.Funded → OTHER ∈ envelope.floors.keys → isMicros envelope.totalMicros → Weighs envelope weights →
    Stands envelope vector → envelope.delegation.maxStepPct = some pct → 1 ≤ pct → pct ≤ 100 →
    allocate envelope weights (some vector) .empty = .ok result →
    (result.clamped = true ↔
      ∃ id ∈ envelopeEntries envelope, stepOf envelope pct < |amountOf result.target id - amountOf vector id|) := by
  intro claim
  have made : (allocate halves halves.defaultWeights (some idleVector) .empty).map (fun result => (result.clamped,
      (envelopeEntries halves).any fun id => stepOf halves 50 < |amountOf result.target id - amountOf idleVector id|)) =
      .ok (true,false) := by decide +kernel
  cases shape : allocate halves halves.defaultWeights (some idleVector) .empty with
  | error thrown =>
    rw [shape] at made
    cases made
  | ok result =>
    rw [shape] at made
    obtain ⟨clamped,near⟩ := Prod.mk.inj (Except.ok.inj made)
    have binds := claim halves halves.defaultWeights idleVector 50 result halves_funded (by decide) (by decide) halves_weighs
      idle_stands rfl (by decide) (by decide) shape
    obtain ⟨id,member,far⟩ := binds.mp clamped
    exact absurd (decide_eq_true far) (List.any_eq_false.mp near id member)

end PiDispatch.Priorities
