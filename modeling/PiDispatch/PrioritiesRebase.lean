import PiDispatch.PrioritiesExact

/-! Re-basing: what it gives an entry that is new, and that it leaves a split which already fits. -/
namespace PiDispatch.Priorities
open Kernel

variable {envelope : Envelope}

/-- An entry of no weight has no share. -/
private theorem share_weightless {amount : Int} {weights : List (String × Int)} (nonneg : ∀ weight ∈ weights, 0 ≤ weight.2)
    (distinct : (weights.map Prod.fst).Nodup) {id : String} (weightless : (id,0) ∈ weights) {share : Int}
    (member : (id,share) ∈ largestRemainder amount weights) : share = 0 := by
  unfold largestRemainder at member
  dsimp only at member
  split at member
  · obtain ⟨weight,_,same⟩ := List.mem_map.mp member
    exact (Prod.mk.inj same).2.symm
  next some_weight =>
    have positive : 0 < (weights.map Prod.snd).sum := by
      refine lt_of_le_of_ne (List.sum_nonneg ?_) (Ne.symm some_weight)
      intro weight inside
      obtain ⟨entry,stored,rfl⟩ := List.mem_map.mp inside
      exact nonneg entry stored
    have sum : (weights.map fun entry => amount * entry.2).sum = (weights.map Prod.snd).sum * amount := by
      rw [List.sum_map_mul_left,mul_comm]
    have base : (weights.map fun _ => (0 : Int)).sum = 0 := by simp
    obtain ⟨weight,inside,key,value⟩ := rounded_value positive distinct sum (fun _ => 0) (id,share)
      (by rw [base,zero_add]; exact member)
    have same : weight = (id,0) := List.inj_on_of_nodup_map distinct inside weightless key.symm
    rw [same] at value
    rcases value with plain | ⟨_,more⟩
    · simpa using plain
    · simp at more

/-- Weights that add up to the amount are the shares. -/
private theorem shares_exact {amount : Int} {weights : List (String × Int)} (nonneg : ∀ weight ∈ weights, 0 ≤ weight.2)
    (sum : (weights.map Prod.snd).sum = amount) : largestRemainder amount weights = weights := by
  unfold largestRemainder
  dsimp only
  rw [sum]
  split
  next none =>
    have zero : ∀ weight ∈ weights, weight.2 = 0 := by
      intro weight member
      have least := List.single_le_sum (l := weights.map Prod.snd) (fun value inside => by
        obtain ⟨entry,stored,rfl⟩ := List.mem_map.mp inside
        exact nonneg entry stored) weight.2 (List.mem_map_of_mem member)
      have low := nonneg weight member
      omega
    refine (List.map_congr_left fun weight member => ?_).trans (List.map_id _)
    rw [← zero weight member]
    rfl
  next some_weight =>
    have parts : fractions amount weights Prod.fst (fun _ => 0) (fun entry => amount * entry.2) =
        weights.map fun entry => ⟨entry.1,entry.2,0⟩ := by
      unfold fractions
      refine List.map_congr_left fun entry _ => ?_
      rw [Int.mul_ediv_cancel_left _ some_weight,Int.mul_emod_right,zero_add]
    have whole : wholes (fractions amount weights Prod.fst (fun _ => 0) fun entry => amount * entry.2) = amount := by
      rw [parts]
      unfold wholes
      rw [List.map_map]
      exact sum
    unfold rounded
    rw [whole,sub_self,parts]
    unfold topUp
    rw [List.map_map]
    refine (List.map_congr_left fun entry _ => ?_).trans (List.map_id _)
    simp

private theorem amount_found {vector : Vector} {id : String} (member : id ∈ vector.allocations.keys) :
    vector.allocations.get? id = some (amountOf vector id) := by
  rw [← Dict.get?_isSome_iff,Option.isSome_iff_exists] at member
  obtain ⟨amount,found⟩ := member
  unfold amountOf
  rw [found]
  rfl

/-- A split that fits is left as it is. -/
theorem fits_rebased (formed : envelope.WellFormed) {vector : Vector} (fits : Fits envelope vector) :
    rebase vector envelope = .ok vector := by
  obtain ⟨bounded,left,most⟩ := fits_bounded formed fits
  have numbers := numbers_ok formed.funded formed.other (micros_of_total formed (total_nonneg formed) (le_refl _))
  have safe : ¬(¬isMicros vector.unallocated ∨ ∃ amount ∈ vector.allocations.values, ¬isMicros amount) := by
    rintro (wild | ⟨amount,member,wild⟩)
    · exact wild (micros_of_total formed left most)
    · exact wild (micros_of_total formed (bounded amount member).1 (bounded amount member).2)
  have dropped : (vector.allocations.entries.filter fun entry => entry.1 ∉ envelopeEntries envelope) = [] := by
    refine List.filter_eq_nil_iff.mpr ?_
    intro entry member gone
    refine of_decide_eq_true gone ?_
    rw [← fits.keys]
    exact List.mem_map_of_mem member
  have weighs : ∀ id ∈ envelopeEntries envelope, rebaseWeight envelope vector id = amountOf vector id - floorOf envelope id := by
    intro id member
    have low := fits.floors id member
    unfold rebaseWeight
    dsimp only
    rw [amount_found (fits.keys ▸ member),dropped]
    dsimp only
    rw [List.map_nil,List.sum_nil,add_zero,ite_self,max_eq_right (by omega)]
  have rows : (envelopeEntries envelope).map (fun id => (id,rebaseWeight envelope vector id)) =
      (envelopeEntries envelope).map fun id => (id,amountOf vector id - floorOf envelope id) :=
    List.map_congr_left fun id member => by rw [weighs id member]
  have amounts : ((envelopeEntries envelope).map (amountOf vector)).sum + vector.unallocated = envelope.totalMicros := by
    have sum := fits.sum
    rwa [Dict.values_eq_map _ 0,fits.keys] at sum
  have parts : ((envelopeEntries envelope).map fun id => amountOf vector id - floorOf envelope id).sum =
      ((envelopeEntries envelope).map (amountOf vector)).sum - ((envelopeEntries envelope).map (floorOf envelope)).sum := by
    refine eq_sub_of_add_eq ?_
    rw [← List.sum_map_add]
    simp only [sub_add_cancel]
  have nonneg : ∀ weight ∈ (UNALLOCATED,vector.unallocated) ::
      (envelopeEntries envelope).map (fun id => (id,amountOf vector id - floorOf envelope id)), 0 ≤ weight.2 := by
    intro weight member
    rcases List.mem_cons.mp member with rfl | later
    · exact left
    · obtain ⟨id,inside,rfl⟩ := List.mem_map.mp later
      exact sub_nonneg.mpr (fits.floors id inside)
  have sum : (((UNALLOCATED,vector.unallocated) ::
      (envelopeEntries envelope).map fun id => (id,amountOf vector id - floorOf envelope id)).map Prod.snd).sum =
      headroom envelope := by
    unfold headroom
    rw [List.map_cons,List.sum_cons,List.map_map]
    change vector.unallocated + ((envelopeEntries envelope).map fun id => amountOf vector id - floorOf envelope id).sum = _
    rw [parts]
    omega
  have kept : Dict.ofList ((envelopeEntries envelope).map fun id => (id,amountOf vector id)) = vector.allocations := by
    refine Eq.trans (congrArg Dict.ofList ?_) (Dict.ofList_self vector.allocations)
    rw [← fits.keys]
    unfold Dict.keys
    rw [List.map_map]
    refine (List.map_congr_left fun entry member => ?_).trans (List.map_id _)
    unfold amountOf
    rw [Function.comp_apply,Dict.get?_of_mem _ member]
    rfl
  unfold rebase
  rw [numbers]
  dsimp only
  rw [if_neg safe,rows,shares_exact nonneg sum,List.tail_cons,List.map_map]
  have whole : ((envelopeEntries envelope).map
      ((fun share : String × Int => (share.1,floorOf envelope share.1 + share.2)) ∘
        fun id => (id,amountOf vector id - floorOf envelope id))) =
      (envelopeEntries envelope).map fun id => (id,amountOf vector id) := by
    refine List.map_congr_left fun id _ => ?_
    rw [Function.comp_apply,add_sub_cancel]
  rw [whole,kept]
  have rest : (if ((UNALLOCATED,vector.unallocated) ::
      (envelopeEntries envelope).map fun id => (id,amountOf vector id - floorOf envelope id)).any fun entry => entry.2 > 0 then
      vector.unallocated else headroom envelope) = vector.unallocated := by
    split
    · rfl
    next weightless =>
      have zero : headroom envelope = 0 := by
        rw [← sum]
        refine List.sum_eq_zero ?_
        intro weight member
        obtain ⟨entry,stored,rfl⟩ := List.mem_map.mp member
        have none : ¬0 < entry.2 := fun more => weightless (List.any_eq_true.mpr ⟨entry,stored,decide_eq_true more⟩)
        have low := nonneg entry stored
        omega
      have least := List.single_le_sum (fun weight member => by
        obtain ⟨entry,stored,rfl⟩ := List.mem_map.mp member
        exact nonneg entry stored) vector.unallocated (List.mem_map_of_mem (f := Prod.snd) List.mem_cons_self)
      rw [sum,zero] at least
      omega
  change Except.ok (Vector.mk vector.allocations (if _ then vector.unallocated else headroom envelope)) = _
  rw [rest]

/-- The envelope without its floors. -/
private def bare (envelope : Envelope) : Envelope :=
  { envelope with floors := envelope.floors.mapValues fun _ _ => 0 }

private theorem bare_entries (envelope : Envelope) : envelopeEntries (bare envelope) = envelopeEntries envelope :=
  congrArg sortTexts (Dict.keys_mapValues _ _)

private theorem bare_floors (envelope : Envelope) (id : String) : floorOf (bare envelope) id = 0 := by
  unfold floorOf bare
  rw [Dict.get?_mapValues]
  cases envelope.floors.get? id <;> rfl

private theorem bare_values (envelope : Envelope) : ∀ micros ∈ (bare envelope).floors.values, micros = 0 := by
  intro micros member
  obtain ⟨id,found⟩ := (Dict.mem_values_iff _ _).mp member
  have zero := bare_floors envelope id
  unfold floorOf at zero
  rw [found] at zero
  exact zero

private theorem bare_funded (formed : envelope.WellFormed) : (bare envelope).Funded := by
  refine ⟨?_,?_,?_⟩
  · intro id member
    exact formed.ids id (Dict.keys_mapValues envelope.floors _ ▸ member)
  · intro micros member
    exact (bare_values envelope micros member).ge
  · rw [List.sum_eq_zero (bare_values envelope)]
    exact @total_nonneg envelope formed

private theorem bare_fits {done : Stepped} (formed : envelope.WellFormed) (fits : StepFits envelope done) :
    StepFits (bare envelope) done := by
  refine ⟨fits.keys.trans (bare_entries envelope).symm,?_,fits.unallocated,fits.sum⟩
  intro entry member
  rw [bare_floors]
  exact (floorOf_nonneg formed.funded _).trans (fits.floors entry member)

private theorem bare_stepFrom (current : Vector) (target : Stepped) :
    stepFrom (bare envelope) current target = stepFrom envelope current target := by
  unfold stepFrom
  rw [bare_entries]
  rfl

private theorem current_nonneg {current : Vector} {target done : Stepped} (ok : stepFrom envelope current target = .ok done) :
    ∀ id ∈ envelopeEntries envelope, 0 ≤ amountOf current id := by
  unfold stepFrom at ok
  split at ok
  · cases ok
  split at ok
  · cases ok
  split at ok
  · cases ok
  next numbers =>
    unfold vectorNumbers at numbers
    split at numbers
    · cases numbers
    split at numbers
    · cases numbers
    next safe =>
      intro id member
      by_contra negative
      exact safe (.inr ⟨id,member,fun micros => negative micros.1⟩)

/-- An allocation sums to the total over the envelope's entries, wherever it starts; it fits when its entries reach
their floors, and they do when those of `current` do. -/
private theorem allocate_made (formed : envelope.WellFormed) {weights : Weights} {current : Option Vector} {repos : Repos}
    {result : Allocation} (ok : allocate envelope weights current repos = .ok result) :
    ((∀ id ∈ envelopeEntries envelope, floorOf envelope id ≤ amountOf result.vector id) → Fits envelope result.vector) ∧
    ((∀ vector ∈ current, ∀ id ∈ envelopeEntries envelope, floorOf envelope id ≤ amountOf vector id) →
      Fits envelope result.vector) := by
  unfold allocate at ok
  dsimp only at ok
  split at ok
  · cases ok
  split at ok
  · cases ok
  next valid =>
    split at ok
    · cases ok
    split at ok
    · cases ok
    next done made =>
      split at ok
      · cases ok
      rw [← Except.ok.inj ok]
      have target := targetOf_fits formed.funded (entries_nonneg valid)
      cases current with
      | none =>
        rw [← Except.ok.inj made]
        exact ⟨fun _ => stepFits_vector target,fun _ => stepFits_vector target⟩
      | some vector =>
        have spec := stepFrom_fits formed.funded target made
        refine ⟨?_,fun stood => stepFits_vector (spec.2 (stood vector rfl))⟩
        intro floors
        have start : ∀ id ∈ envelopeEntries (bare envelope), floorOf (bare envelope) id ≤ amountOf vector id := by
          intro id member
          rw [bare_floors]
          exact current_nonneg made id (bare_entries envelope ▸ member)
        have fits := stepFits_vector ((stepFrom_fits (bare_funded formed) (bare_fits formed target)
          ((bare_stepFrom vector _).trans made)).2 start)
        exact ⟨fits.keys.trans (bare_entries envelope),floors,fits.unallocated,fits.sum⟩

/-- An entry that the vector does not name weighs nothing, `_other` as long as nothing of worth was dropped. -/
private theorem rebaseWeight_new {vector : Vector} {id : String} (new : id ∉ vector.allocations.keys)
    (dropped : id = OTHER → ∀ entry ∈ vector.allocations.entries, entry.1 ∉ envelopeEntries envelope → entry.2 = 0) :
    rebaseWeight envelope vector id = 0 := by
  have absent := (Dict.get?_eq_none_iff vector.allocations id).mpr new
  unfold rebaseWeight
  dsimp only
  rw [absent]
  dsimp only
  split
  next other =>
    rw [zero_add]
    refine List.sum_eq_zero ?_
    intro amount member
    obtain ⟨entry,inside,rfl⟩ := List.mem_map.mp member
    obtain ⟨stored,gone⟩ := List.mem_filter.mp inside
    exact dropped other entry stored (of_decide_eq_true gone)
  · rfl

private theorem rebase_new (formed : envelope.WellFormed) {vector result : Vector} (ok : rebase vector envelope = .ok result)
    {id : String} (member : id ∈ envelopeEntries envelope) (weightless : rebaseWeight envelope vector id = 0) :
    amountOf result id = floorOf envelope id := by
  unfold rebase at ok
  split at ok
  · cases ok
  split at ok
  · cases ok
  next safe =>
    have safe := not_or.mp safe
    have left : 0 ≤ vector.unallocated := (not_not.mp safe.1).1
    have amounts : ∀ amount ∈ vector.allocations.values, 0 ≤ amount := by
      intro amount inside
      by_contra negative
      exact safe.2 ⟨amount,inside,fun micros => negative micros.1⟩
    dsimp only at ok
    rw [← Except.ok.inj ok]
    have keys : ((UNALLOCATED,vector.unallocated) ::
        (envelopeEntries envelope).map fun id => (id,rebaseWeight envelope vector id)).map Prod.fst =
        UNALLOCATED :: envelopeEntries envelope := by simp [Function.comp_def]
    have nonneg : ∀ weight ∈ (UNALLOCATED,vector.unallocated) ::
        (envelopeEntries envelope).map fun id => (id,rebaseWeight envelope vector id), 0 ≤ weight.2 := by
      intro weight inside
      rcases List.mem_cons.mp inside with rfl | later
      · exact left
      · obtain ⟨id,_,rfl⟩ := List.mem_map.mp later
        exact rebaseWeight_nonneg amounts id
    have distinct := keyed_nodup formed.funded
    have there : (id,(0 : Int)) ∈ (UNALLOCATED,vector.unallocated) ::
        (envelopeEntries envelope).map fun id => (id,rebaseWeight envelope vector id) := by
      refine List.mem_cons_of_mem _ (List.mem_map.mpr ⟨id,member,?_⟩)
      rw [weightless]
    generalize (UNALLOCATED,vector.unallocated) ::
      (envelopeEntries envelope).map (fun id => (id,rebaseWeight envelope vector id)) = weights at keys nonneg there ⊢
    have covered := (largestRemainder_split (headroom_nonneg formed.funded) nonneg (keys ▸ distinct)).1
    rw [keys] at covered
    cases shares : largestRemainder (headroom envelope) weights with
    | nil =>
      rw [shares] at covered
      cases covered
    | cons head entries =>
      rw [shares] at covered
      simp only [List.map_cons,List.cons.injEq] at covered
      obtain ⟨_,covered⟩ := covered
      rw [← covered] at member
      obtain ⟨share,inside,rfl⟩ := List.mem_map.mp member
      have none : share.2 = 0 := by
        refine @share_weightless (headroom envelope) weights nonneg (keys ▸ distinct) share.1 there share.2 ?_
        rw [shares]
        exact List.mem_cons_of_mem _ inside
      have listed : (share.1,floorOf envelope share.1 + share.2) ∈
          entries.map fun share => (share.1,floorOf envelope share.1 + share.2) := List.mem_map_of_mem inside
      refine (amountOf_entry ?_ _ listed).trans ?_
      · rw [List.map_map]
        exact covered ▸ entries_nodup envelope
      · dsimp only
        rw [none,add_zero]

private theorem rebase_made (formed : envelope.WellFormed) {vector : Vector} (left : isMicros vector.unallocated)
    (amounts : ∀ amount ∈ vector.allocations.values, isMicros amount) : ∃ result, rebase vector envelope = .ok result := by
  have safe : ¬(¬isMicros vector.unallocated ∨ ∃ amount ∈ vector.allocations.values, ¬isMicros amount) := by
    rintro (wild | ⟨amount,member,wild⟩)
    · exact wild left
    · exact wild (amounts amount member)
  unfold rebase
  rw [numbers_ok formed.funded formed.other (micros_of_total formed (total_nonneg formed) (le_refl _))]
  dsimp only
  rw [if_neg safe]
  exact ⟨_,rfl⟩

/-- Re-basing makes a split of the changed envelope in which what is new has its floor, and it keeps every split that
it or an allocation made, except one that an allocation left below a floor on its way from a current split below it. -/
theorem rebase_keeps (formed : envelope.WellFormed) :
    (∀ vector, isMicros vector.unallocated → (∀ amount ∈ vector.allocations.values, isMicros amount) →
      ∃ result, rebase vector envelope = .ok result ∧ Fits envelope result ∧
        (∀ id ∈ envelopeEntries envelope, id ∉ vector.allocations.keys →
          (id = OTHER → ∀ entry ∈ vector.allocations.entries, entry.1 ∉ envelopeEntries envelope → entry.2 = 0) →
          amountOf result id = floorOf envelope id) ∧
        rebase result envelope = .ok result) ∧
    (∀ weights current repos result, allocate envelope weights current repos = .ok result →
      (rebase result.vector envelope = .ok result.vector ↔
        ∀ id ∈ envelopeEntries envelope, floorOf envelope id ≤ amountOf result.vector id) ∧
      ((∀ vector ∈ current, ∀ id ∈ envelopeEntries envelope, floorOf envelope id ≤ amountOf vector id) →
        rebase result.vector envelope = .ok result.vector)) := by
  refine ⟨?_,?_⟩
  · intro vector left amounts
    obtain ⟨result,made⟩ := rebase_made formed left amounts
    have fits := rebase_fits formed made
    refine ⟨result,made,fits,?_,fits_rebased formed fits⟩
    intro id member new dropped
    exact rebase_new formed made member (rebaseWeight_new new dropped)
  · intro weights current repos result made
    obtain ⟨reached,stood⟩ := allocate_made formed made
    refine ⟨⟨?_,?_⟩,?_⟩
    · exact fun kept => (rebase_fits formed kept).floors
    · exact fun floors => fits_rebased formed (reached floors)
    · exact fun floors => fits_rebased formed (stood floors)

/-- Half of the total is the floor of one entry. -/
def floored : Envelope :=
  ⟨.day,100,.ofList [(OTHER,0),("api",50)],.ofList [(OTHER,some 1),("api",some 1)],⟨true,[.portfolioJob],some 10,some 0,some 1⟩⟩

private theorem floored_formed : floored.WellFormed := by
  refine ⟨by decide +kernel,by decide,by decide,by decide,by decide,?_,?_,?_⟩
  · exact fun _ => ⟨10,rfl,by decide,by decide⟩
  · exact fun _ => ⟨0,rfl,by decide,by decide⟩
  · exact fun _ => ⟨1,rfl,by decide,by decide⟩

theorem rebase_keeps_floored : ∃ result, rebase ⟨.ofList [("api",60)],40⟩ floored = .ok result ∧ Fits floored result := by
  obtain ⟨result,made,fits,_⟩ := (rebase_keeps floored_formed).1 ⟨.ofList [("api",60)],40⟩ (by decide) (by decide)
  exact ⟨result,made,fits⟩

/-- A step from below the floor ends below the floor, and re-basing lifts it. -/
theorem step_below_floor : ¬ ∀ (envelope : Envelope) (weights : Weights) (current : Option Vector) (result : Allocation),
    envelope.WellFormed → allocate envelope weights current .empty = .ok result →
    rebase result.vector envelope = .ok result.vector := by
  intro claim
  have low : (allocate floored floored.defaultWeights (some ⟨.ofList [(OTHER,0),("api",0)],100⟩) .empty).map
      (fun result => decide (50 ≤ amountOf result.vector "api")) = .ok false := by decide +kernel
  cases shape : allocate floored floored.defaultWeights (some ⟨.ofList [(OTHER,0),("api",0)],100⟩) .empty with
  | error thrown =>
    rw [shape] at low
    cases low
  | ok result =>
    rw [shape] at low
    have below := of_decide_eq_false (Except.ok.inj low)
    exact below ((rebase_fits floored_formed (claim _ _ _ _ floored_formed shape)).floors "api" (by decide +kernel))

end PiDispatch.Priorities
