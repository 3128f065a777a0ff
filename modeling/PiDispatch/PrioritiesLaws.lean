import PiDispatch.Priorities

/-! What the allocation arithmetic keeps: the total, every floor, and the bound of a step. -/
namespace PiDispatch.Priorities
open Kernel

private theorem sum_const_zero {R : Type} (rows : List R) : (rows.map fun _ => (0 : Int)).sum = 0 := by simp

/-- A split by weight covers the keys, takes nothing away and gives out the amount when there is any weight. -/
structure Split (amount : Int) (weights shares : List (String × Int)) : Prop where
  keys : shares.map Prod.fst = weights.map Prod.fst
  nonneg : ∀ share ∈ shares, 0 ≤ share.2
  sum : (shares.map Prod.snd).sum = if (weights.map Prod.snd).sum = 0 then 0 else amount

theorem largestRemainder_split {amount : Int} {weights : List (String × Int)} (enough : 0 ≤ amount)
    (nonneg : ∀ weight ∈ weights, 0 ≤ weight.2) (distinct : (weights.map Prod.fst).Nodup) :
    Split amount weights (largestRemainder amount weights) := by
  unfold largestRemainder
  dsimp only
  split
  next none =>
    refine ⟨by simp [Function.comp_def],?_,?_⟩
    · intro share member
      obtain ⟨weight,_,rfl⟩ := List.mem_map.mp member
      exact le_rfl
    · rw [if_pos none,List.map_map]
      exact sum_const_zero weights
  next some_weight =>
    have positive : 0 < (weights.map Prod.snd).sum := by
      refine lt_of_le_of_ne (List.sum_nonneg ?_) (Ne.symm some_weight)
      intro weight member
      obtain ⟨entry,inside,rfl⟩ := List.mem_map.mp member
      exact nonneg entry inside
    have sum : (weights.map fun entry => amount * entry.2).sum = (weights.map Prod.snd).sum * amount := by
      rw [List.sum_map_mul_left,mul_comm]
    have base := sum_const_zero weights
    refine ⟨rounded_keys .., ?_,?_⟩
    · intro share member
      obtain ⟨weight,inside,_,value⟩ := rounded_value positive distinct sum (fun _ => 0) share
        (by rw [base,zero_add]; exact member)
      have floor : 0 ≤ amount * weight.2 / (weights.map Prod.snd).sum :=
        Int.ediv_nonneg (mul_nonneg enough (nonneg weight inside)) positive.le
      omega
    · rw [if_neg some_weight]
      have whole := rounded_sum positive distinct sum fun _ => 0
      rwa [base,zero_add] at whole

/-- What a blended row keeps: between where it stood and its target, and within the step. -/
structure Blended (rows : List Row) (step : Int) (blended : List (String × Int)) : Prop where
  keys : blended.map Prod.fst = rows.map Row.key
  sum : (blended.map Prod.snd).sum = (rows.map Row.before).sum
  moved : ∀ entry ∈ blended, ∃ row ∈ rows, entry.1 = row.key ∧ min row.before row.target ≤ entry.2 ∧
    entry.2 ≤ max row.before row.target ∧ |entry.2 - row.before| ≤ step

/-- A fraction `step / largest` of a move no larger than `largest`, rounded down or up. -/
private theorem rounded_move {move step largest : Int} (value : Int) (nonneg : 0 ≤ step) (less : step < largest)
    (low : -largest ≤ move) (high : move ≤ largest)
    (rounds : value = move * step / largest ∨ (value = move * step / largest + 1 ∧ 0 < move * step % largest)) :
    min 0 move ≤ value ∧ value ≤ max 0 move ∧ |value| ≤ step := by
  have positive : 0 < largest := nonneg.trans_lt less
  have divided := Int.mul_ediv_add_emod (move * step) largest
  have rest := Int.emod_nonneg (move * step) positive.ne'
  have under := Int.emod_lt_of_pos (move * step) positive
  generalize move * step / largest = whole at rounds divided
  generalize move * step % largest = part at rounds divided rest under
  have below : largest * value < move * step + largest := by
    rcases rounds with rfl | ⟨rfl,some_part⟩ <;> nlinarith
  have above : move * step - largest < largest * value := by
    rcases rounds with rfl | ⟨rfl,some_part⟩ <;> nlinarith
  have upper : value ≤ step := by
    have bound : move * step ≤ largest * step := mul_le_mul_of_nonneg_right high nonneg
    by_contra more
    have more : step + 1 ≤ value := not_le.mp more
    nlinarith
  have lower : -step ≤ value := by
    have bound : -largest * step ≤ move * step := mul_le_mul_of_nonneg_right low nonneg
    by_contra more
    have more : value ≤ -step - 1 := by omega
    nlinarith
  refine ⟨?_,?_,abs_le.mpr ⟨lower,upper⟩⟩
  · rcases le_total 0 move with up | down
    · rw [min_eq_left up]
      have bound : 0 ≤ move * step := mul_nonneg up nonneg
      by_contra less
      have less : value ≤ -1 := by omega
      nlinarith
    · rw [min_eq_right down]
      have bound : move * largest ≤ move * step := mul_le_mul_of_nonpos_left less.le down
      by_contra less
      have less : value ≤ move - 1 := by omega
      nlinarith
  · rcases le_total 0 move with up | down
    · rw [max_eq_right up]
      have bound : move * step ≤ move * largest := mul_le_mul_of_nonneg_left less.le up
      by_contra more
      have more : move + 1 ≤ value := by omega
      nlinarith
    · rw [max_eq_left down]
      have bound : move * step ≤ 0 := mul_nonpos_of_nonpos_of_nonneg down nonneg
      by_contra more
      have more : 1 ≤ value := by omega
      nlinarith

private theorem sum_moves (rows : List Row) :
    (rows.map fun row => row.target - row.before).sum = (rows.map Row.target).sum - (rows.map Row.before).sum := by
  induction rows with
  | nil => simp
  | cons row rows ih =>
    simp only [List.map_cons,List.sum_cons,ih]
    ring

theorem blend_blended {rows : List Row} {step largest : Int} (nonneg : 0 ≤ step) (less : step < largest)
    (within : ∀ row ∈ rows, |row.target - row.before| ≤ largest) (distinct : (rows.map Row.key).Nodup)
    (same : (rows.map Row.target).sum = (rows.map Row.before).sum) :
    Blended rows step (blend rows step largest) := by
  have positive : 0 < largest := nonneg.trans_lt less
  have sum : (rows.map fun row => (row.target - row.before) * step).sum = largest * 0 := by
    have moves : (rows.map fun row => row.target - row.before).sum = 0 := by
      rw [sum_moves,same,sub_self]
    rw [List.sum_map_mul_right,moves,zero_mul,mul_zero]
  unfold blend
  refine ⟨rounded_keys ..,?_,?_⟩
  · have whole := rounded_sum positive distinct sum Row.before
    rwa [add_zero] at whole
  · intro entry member
    obtain ⟨row,inside,key,value⟩ := rounded_value positive distinct sum Row.before entry
      (by rw [add_zero]; exact member)
    have bound := abs_le.mp (within row inside)
    obtain ⟨low,high,step⟩ := rounded_move (entry.2 - row.before) nonneg less bound.1 bound.2 (by omega)
    exact ⟨row,inside,key,by omega,by omega,step⟩

/-- A split of an envelope: its entries and no others, no entry under its floor, and the total exactly. -/
structure Fits (envelope : Envelope) (vector : Vector) : Prop where
  keys : vector.allocations.keys = envelopeEntries envelope
  floors : ∀ id ∈ envelopeEntries envelope, floorOf envelope id ≤ amountOf vector id
  unallocated : 0 ≤ vector.unallocated
  sum : vector.allocations.values.sum + vector.unallocated = envelope.totalMicros

/-- The same of a split still in the making. -/
structure StepFits (envelope : Envelope) (stepped : Stepped) : Prop where
  keys : stepped.entries.map Prod.fst = envelopeEntries envelope
  floors : ∀ entry ∈ stepped.entries, floorOf envelope entry.1 ≤ entry.2
  unallocated : 0 ≤ stepped.unallocated
  sum : (stepped.entries.map Prod.snd).sum + stepped.unallocated = envelope.totalMicros

/-- What the arithmetic asks of an envelope: ids that are entries, and floors that its total covers. -/
structure Envelope.Funded (envelope : Envelope) : Prop where
  ids : ∀ id ∈ envelope.floors.keys, id = OTHER ∨ isProjectId id
  floors : ∀ micros ∈ envelope.floors.values, 0 ≤ micros
  sum : envelope.floors.values.sum ≤ envelope.totalMicros

theorem Envelope.WellFormed.funded {envelope : Envelope} (formed : envelope.WellFormed) : envelope.Funded :=
  ⟨formed.ids,formed.floors,formed.sum⟩

theorem entries_nodup (envelope : Envelope) : (envelopeEntries envelope).Nodup :=
  (sortTexts_perm _).nodup_iff.mpr envelope.floors.distinct

theorem unallocated_apart {envelope : Envelope} (formed : envelope.Funded) :
    UNALLOCATED ∉ envelopeEntries envelope := by
  intro member
  rcases formed.ids _ ((sortTexts_perm _).mem_iff.mp member) with same | named
  · exact absurd same (by decide)
  · exact absurd named (by decide)

theorem keyed_nodup {envelope : Envelope} (formed : envelope.Funded) :
    (UNALLOCATED :: envelopeEntries envelope).Nodup :=
  List.nodup_cons.mpr ⟨unallocated_apart formed,entries_nodup envelope⟩

theorem floorOf_nonneg {envelope : Envelope} (formed : envelope.Funded) (id : String) : 0 ≤ floorOf envelope id := by
  unfold floorOf
  cases found : envelope.floors.get? id with
  | none => exact le_rfl
  | some micros => exact formed.floors micros ((envelope.floors.mem_values_iff micros).mpr ⟨id,found⟩)

private theorem floors_sum (envelope : Envelope) :
    ((envelopeEntries envelope).map (floorOf envelope)).sum = envelope.floors.values.sum := by
  rw [Dict.values_eq_map envelope.floors 0]
  exact ((sortTexts_perm _).map _).sum_eq

theorem headroom_nonneg {envelope : Envelope} (formed : envelope.Funded) : 0 ≤ headroom envelope := by
  unfold headroom
  rw [floors_sum]
  exact sub_nonneg.mpr formed.sum

theorem amountOf_entry {entries : List (String × Int)} (distinct : (entries.map Prod.fst).Nodup)
    (unallocated : Int) {entry : String × Int} (member : entry ∈ entries) :
    amountOf ⟨Dict.ofList entries,unallocated⟩ entry.1 = entry.2 := by
  rw [← Dict.ofList_entries entries distinct] at member
  unfold amountOf
  rw [Dict.get?_of_mem _ member]
  rfl

theorem stepFits_vector {envelope : Envelope} {stepped : Stepped} (fits : StepFits envelope stepped) :
    Fits envelope stepped.vector := by
  have distinct : (stepped.entries.map Prod.fst).Nodup := fits.keys ▸ entries_nodup envelope
  have entries := Dict.ofList_entries stepped.entries distinct
  refine ⟨?_,?_,fits.unallocated,?_⟩
  · simp only [Stepped.vector,Dict.keys,entries]
    exact fits.keys
  · intro id member
    rw [← fits.keys] at member
    obtain ⟨entry,inside,rfl⟩ := List.mem_map.mp member
    unfold Stepped.vector
    rw [amountOf_entry distinct _ inside]
    exact fits.floors entry inside
  · simp only [Stepped.vector,Dict.values,entries]
    exact fits.sum

private theorem floors_add (envelope : Envelope) (shares : List (String × Int))
    (keys : shares.map Prod.fst = envelopeEntries envelope) :
    ((shares.map fun share => (share.1,floorOf envelope share.1 + share.2)).map Prod.snd).sum =
      envelope.totalMicros - headroom envelope + (shares.map Prod.snd).sum := by
  have total : ((envelopeEntries envelope).map (floorOf envelope)).sum = envelope.totalMicros - headroom envelope := by
    unfold headroom
    ring
  rw [← total,← keys]
  clear keys total
  induction shares with
  | nil => rfl
  | cons share shares ih =>
    simp only [List.map_cons,List.sum_cons] at ih ⊢
    rw [ih]
    ring

/-- The target keeps the total and every floor. -/
theorem targetOf_fits {envelope : Envelope} (formed : envelope.Funded) {weights : Weights}
    (nonneg : ∀ id ∈ envelopeEntries envelope, 0 ≤ weightOf weights id) :
    StepFits envelope (targetOf envelope weights) := by
  have room := headroom_nonneg formed
  have pairs : ((envelopeEntries envelope).map fun id => (id,weightOf weights id)).map Prod.fst =
      envelopeEntries envelope := by simp [Function.comp_def]
  have weighs : ((envelopeEntries envelope).map fun id => (id,weightOf weights id)).map Prod.snd =
      (envelopeEntries envelope).map (weightOf weights) := by simp [Function.comp_def]
  have split : ∀ amount, 0 ≤ amount → Split amount ((envelopeEntries envelope).map fun id => (id,weightOf weights id))
      (largestRemainder amount ((envelopeEntries envelope).map fun id => (id,weightOf weights id))) := by
    intro amount enough
    refine largestRemainder_split enough ?_ (pairs.symm ▸ entries_nodup envelope)
    intro weight member
    obtain ⟨id,inside,rfl⟩ := List.mem_map.mp member
    exact nonneg id inside
  have shared : ∀ amount, 0 ≤ amount → ∀ unallocated, 0 ≤ unallocated →
      (if ((envelopeEntries envelope).map (weightOf weights)).sum = 0 then 0 else amount) + unallocated =
        headroom envelope →
      StepFits envelope ⟨(largestRemainder amount ((envelopeEntries envelope).map fun id => (id,weightOf weights id))).map
        fun share => (share.1,floorOf envelope share.1 + share.2),unallocated,false⟩ := by
    intro amount enough unallocated left whole
    obtain ⟨keys,positive,sum⟩ := split amount enough
    rw [pairs] at keys
    rw [weighs] at sum
    refine ⟨?_,?_,left,?_⟩
    · refine Eq.trans ?_ keys
      simp [Function.comp_def]
    · intro entry member
      obtain ⟨share,inside,rfl⟩ := List.mem_map.mp member
      exact le_add_of_nonneg_right (positive share inside)
    · rw [floors_add envelope _ keys,sum]
      linarith
  unfold targetOf
  dsimp only
  split
  next some_weight =>
    obtain ⟨id,member,weighs⟩ := List.any_eq_true.mp some_weight
    have positive : ((envelopeEntries envelope).map (weightOf weights)).sum ≠ 0 := by
      have all : ∀ weight ∈ (envelopeEntries envelope).map (weightOf weights), 0 ≤ weight := by
        intro weight inside
        obtain ⟨id,stored,rfl⟩ := List.mem_map.mp inside
        exact nonneg id stored
      have least := List.single_le_sum all _ (List.mem_map_of_mem member)
      have more : 0 < weightOf weights id := by simpa using weighs
      omega
    exact shared _ room 0 le_rfl (by rw [if_neg positive,add_zero])
  next => exact shared 0 le_rfl _ room (by simp)

def stepOf (envelope : Envelope) (pct : Int) : Int := envelope.totalMicros * pct / 100

/-- Every entry, the unallocated money included, within `bound` of where it stood. -/
structure Within (bound : Int) (current : Vector) (stepped : Stepped) : Prop where
  entries : ∀ entry ∈ stepped.entries, |entry.2 - amountOf current entry.1| ≤ bound
  unallocated : |stepped.unallocated - current.unallocated| ≤ bound

theorem le_foldl_max (moves : List Int) (least : Int) :
    least ≤ moves.foldl max least ∧ ∀ move ∈ moves, move ≤ moves.foldl max least := by
  induction moves generalizing least with
  | nil => exact ⟨le_rfl,fun _ member => absurd member List.not_mem_nil⟩
  | cons move moves ih =>
    obtain ⟨above,all⟩ := ih (max least move)
    refine ⟨(le_max_left ..).trans above,?_⟩
    intro other member
    rcases List.mem_cons.mp member with rfl | later
    · exact (le_max_right ..).trans above
    · exact all other later

theorem move_le_largest (rows : List Row) (row : Row) (member : row ∈ rows) :
    |row.target - row.before| ≤ largestMove rows :=
  (le_foldl_max (rows.map moveOf) 0).2 _ (List.mem_map_of_mem member)

theorem stepRows_keys {envelope : Envelope} {current : Vector} {target : Stepped}
    (fits : StepFits envelope target) :
    (stepRows current target).map Row.key = UNALLOCATED :: envelopeEntries envelope := by
  rw [← fits.keys]
  simp [stepRows,Function.comp_def]

theorem stepRows_sums {envelope : Envelope} {current : Vector} {target : Stepped}
    (fits : StepFits envelope target)
    (whole : ((envelopeEntries envelope).map (amountOf current)).sum + current.unallocated = envelope.totalMicros) :
    ((stepRows current target).map Row.before).sum = envelope.totalMicros ∧
    ((stepRows current target).map Row.target).sum = envelope.totalMicros := by
  have before : ((target.entries.map fun entry => (⟨entry.1,amountOf current entry.1,entry.2⟩ : Row)).map Row.before) =
      (envelopeEntries envelope).map (amountOf current) := by
    rw [← fits.keys]
    simp [Function.comp_def]
  have after : ((target.entries.map fun entry => (⟨entry.1,amountOf current entry.1,entry.2⟩ : Row)).map Row.target) =
      target.entries.map Prod.snd := by simp [Function.comp_def]
  have sum := fits.sum
  unfold stepRows
  rw [List.map_cons,List.map_cons,List.sum_cons,List.sum_cons,before,after]
  constructor <;> dsimp only <;> linarith

/-- What a blend of the step's rows comes to: the unallocated money first, then the entries. -/
theorem blend_shape {envelope : Envelope} {current : Vector} {target : Stepped} {step : Int}
    (fits : StepFits envelope target) (blended : List (String × Int))
    (spec : Blended (stepRows current target) step blended) :
    ∃ unallocated entries, blended = (UNALLOCATED,unallocated) :: entries ∧
      entries.map Prod.fst = envelopeEntries envelope := by
  have keys := spec.keys
  rw [stepRows_keys fits] at keys
  cases blended with
  | nil => cases keys
  | cons head entries =>
    obtain ⟨key,unallocated⟩ := head
    simp only [List.map_cons,List.cons.injEq] at keys
    obtain ⟨rfl,rest⟩ := keys
    exact ⟨unallocated,entries,rfl,rest⟩

theorem row_of_key {envelope : Envelope} {current : Vector} {target : Stepped} (formed : envelope.Funded)
    (fits : StepFits envelope target) {row : Row} (member : row ∈ stepRows current target) :
    (row.key = UNALLOCATED → row = ⟨UNALLOCATED,current.unallocated,target.unallocated⟩) ∧
    (row.key ≠ UNALLOCATED → row.before = amountOf current row.key ∧ ∃ entry ∈ target.entries, entry.1 = row.key ∧
      entry.2 = row.target) := by
  rcases List.mem_cons.mp member with rfl | later
  · exact ⟨fun _ => rfl,fun other => absurd rfl other⟩
  · obtain ⟨entry,inside,rfl⟩ := List.mem_map.mp later
    refine ⟨fun same => ?_,fun _ => ⟨rfl,entry,inside,rfl,rfl⟩⟩
    have named : entry.1 ∈ envelopeEntries envelope := fits.keys ▸ List.mem_map_of_mem inside
    exact absurd (same ▸ named) (unallocated_apart formed)

private theorem vectorNumbers_ok {vector : Vector} {entries : List String} {total : Int}
    (ok : vectorNumbers vector entries total = .ok ()) :
    0 ≤ vector.unallocated ∧ (∀ id ∈ entries, 0 ≤ amountOf vector id) ∧
    (entries.map (amountOf vector)).sum + vector.unallocated = total := by
  unfold vectorNumbers at ok
  split at ok
  · cases ok
  split at ok
  · cases ok
  next safe =>
    split at ok
    · cases ok
    next whole =>
      push Not at safe whole
      exact ⟨safe.1.1,fun id member => (safe.2 id member).1,whole⟩

/-- One step: the total stays, no entry moves more than the step, and floors that stood stay. -/
theorem stepFrom_fits {envelope : Envelope} (formed : envelope.Funded) {current : Vector} {target stepped : Stepped}
    (fits : StepFits envelope target) (ok : stepFrom envelope current target = .ok stepped) :
    (∃ pct ∈ envelope.delegation.maxStepPct, Within (stepOf envelope pct) current stepped) ∧
    ((∀ id ∈ envelopeEntries envelope, floorOf envelope id ≤ amountOf current id) → StepFits envelope stepped) := by
  unfold stepFrom at ok
  split at ok
  · cases ok
  next pct given =>
    split at ok
    · cases ok
    next range =>
      split at ok
      · cases ok
      next numbers =>
        obtain ⟨left,_,whole⟩ := vectorNumbers_ok numbers
        have total : 0 ≤ envelope.totalMicros := by
          have sum := formed.sum
          have floors := List.sum_nonneg formed.floors
          omega
        have nonneg : 0 ≤ stepOf envelope pct := by
          unfold stepOf
          have product : 0 ≤ envelope.totalMicros * pct := mul_nonneg total (by omega)
          omega
        change (if largestMove (stepRows current target) > stepOf envelope pct then _ else _) = _ at ok
        split at ok
        next over_ =>
          have sums := stepRows_sums fits whole
          have spec := blend_blended nonneg over_ (fun row member => move_le_largest _ row member)
            (by rw [stepRows_keys fits]; exact keyed_nodup formed) (sums.2.trans sums.1.symm)
          obtain ⟨unallocated,entries,shape,keys⟩ := blend_shape fits _ spec
          change Except.ok _ = Except.ok _ at ok
          rw [← Except.ok.inj ok]
          have made : blend (stepRows current target) (envelope.totalMicros * pct / 100)
              (largestMove (stepRows current target)) = (UNALLOCATED,unallocated) :: entries := shape
          rw [made]
          change Blended (stepRows current target) (stepOf envelope pct)
            (blend (stepRows current target) (envelope.totalMicros * pct / 100) _) at spec
          rw [made] at spec
          simp only [List.tail_cons,List.head?_cons,Option.map_some,Option.getD_some]
          have here := spec.moved (UNALLOCATED,unallocated) List.mem_cons_self
          have entry_row : ∀ entry ∈ entries, entry.1 ≠ UNALLOCATED := by
            intro entry inside same
            have named : entry.1 ∈ envelopeEntries envelope := keys ▸ List.mem_map_of_mem inside
            exact unallocated_apart formed (same ▸ named)
          obtain ⟨row,member,key,low,high,near⟩ := here
          obtain rfl := (row_of_key formed fits member).1 key.symm
          refine ⟨⟨pct,given,⟨?_,near⟩⟩,fun stood => ⟨keys,?_,?_,?_⟩⟩
          · intro entry inside
            obtain ⟨row,member,key,_,_,near⟩ := spec.moved entry (List.mem_cons_of_mem _ inside)
            have before := ((row_of_key formed fits member).2 (key ▸ entry_row entry inside)).1
            rwa [before,← key] at near
          · intro entry inside
            obtain ⟨row,member,key,low,_,_⟩ := spec.moved entry (List.mem_cons_of_mem _ inside)
            obtain ⟨before,goal,stored,same,aims⟩ := (row_of_key formed fits member).2 (key ▸ entry_row entry inside)
            have named : entry.1 ∈ envelopeEntries envelope := keys ▸ List.mem_map_of_mem inside
            have old := stood entry.1 named
            have new := fits.floors goal stored
            rw [before,← aims,← key] at low
            rw [same,← key] at new
            exact (le_min old new).trans low
          · exact (le_min left fits.unallocated).trans low
          · have sum := spec.sum
            rw [List.map_cons,List.sum_cons,sums.1] at sum
            dsimp only at sum ⊢
            linarith
        next under =>
          change Except.ok _ = Except.ok _ at ok
          rw [← Except.ok.inj ok]
          have small : ∀ row ∈ stepRows current target, |row.target - row.before| ≤ stepOf envelope pct :=
            fun row member => (move_le_largest _ row member).trans (not_lt.mp under)
          refine ⟨⟨pct,given,⟨?_,small _ List.mem_cons_self⟩⟩,fun _ => fits⟩
          intro entry inside
          exact small ⟨entry.1,amountOf current entry.1,entry.2⟩
            (List.mem_cons_of_mem _ (List.mem_map_of_mem inside))

/-- Amounts that a state may hold: micro-dollars up to the envelope's total. -/
def Shares (total : Int) (repos : RepoShares) : Prop :=
  ∀ shares ∈ repos.values, ∀ amount ∈ shares.values, 0 ≤ amount ∧ amount ≤ total

private theorem split_bounded {amount : Int} {weights shares : List (String × Int)} (enough : 0 ≤ amount)
    (split : Split amount weights shares) (share : String × Int) (member : share ∈ shares) :
    0 ≤ share.2 ∧ share.2 ≤ amount := by
  have all : ∀ value ∈ shares.map Prod.snd, 0 ≤ value := by
    intro value inside
    obtain ⟨entry,stored,rfl⟩ := List.mem_map.mp inside
    exact split.nonneg entry stored
  have least := List.single_le_sum all share.2 (List.mem_map_of_mem member)
  rw [split.sum] at least
  refine ⟨split.nonneg share member,?_⟩
  split at least
  · exact least.trans enough
  · exact least

private theorem weightOf_nonneg {weights : Weights} (valid : ∀ weight ∈ weights.values, isWeight weight) (id : String) :
    0 ≤ weightOf weights id := by
  unfold weightOf
  cases found : weights.get? id with
  | none => exact le_rfl
  | some weight =>
    have ok := valid weight ((weights.mem_values_iff weight).mpr ⟨id,found⟩)
    cases weight with
    | none => exact ok.elim
    | some weight => exact ok.1

private theorem repoSplit_bounded {amount : Int} {weights : Weights} (enough : 0 ≤ amount)
    (valid : ∀ weight ∈ weights.values, isWeight weight) (value : Int) (member : value ∈ (repoSplit amount weights).values) :
    0 ≤ value ∧ value ≤ amount := by
  have keys : ((sortTexts weights.keys).map fun ref => (ref,weightOf weights ref)).map Prod.fst = sortTexts weights.keys := by
    simp [Function.comp_def]
  have split : Split amount ((sortTexts weights.keys).map fun ref => (ref,weightOf weights ref))
      (largestRemainder amount ((sortTexts weights.keys).map fun ref => (ref,weightOf weights ref))) := by
    refine largestRemainder_split enough ?_ ?_
    · intro weight inside
      obtain ⟨ref,_,rfl⟩ := List.mem_map.mp inside
      exact weightOf_nonneg valid ref
    · rw [keys]
      exact (sortTexts_perm _).nodup_iff.mpr weights.distinct
  have distinct := split.keys
  rw [keys] at distinct
  unfold repoSplit Dict.values at member
  have nodup := (sortTexts_perm weights.keys).nodup_iff.mpr weights.distinct
  rw [← distinct] at nodup
  rw [Dict.ofList_entries _ nodup] at member
  obtain ⟨share,inside,rfl⟩ := List.mem_map.mp member
  exact split_bounded enough split share inside

theorem splitRepos_shares {total : Int} (positive : 0 ≤ total) {amounts : List (String × Int)} {repos : Repos}
    (bounded : ∀ entry ∈ amounts, 0 ≤ entry.2 ∧ entry.2 ≤ total)
    (valid : ∀ repo ∈ repos.entries, ∀ weight ∈ repo.2.values, isWeight weight) :
    Shares total (splitRepos amounts repos) := by
  intro shares member amount inside
  have distinct : ((repos.entries.map fun repo => (repo.1,repoSplit
      (((amounts.find? fun entry => entry.1 = repo.1).map Prod.snd).getD 0) repo.2)).map Prod.fst).Nodup := by
    simpa [Function.comp_def] using repos.distinct
  unfold splitRepos Dict.values at member
  rw [Dict.ofList_entries _ distinct,List.map_map] at member
  obtain ⟨repo,stored,rfl⟩ := List.mem_map.mp member
  have given : 0 ≤ ((amounts.find? fun entry => entry.1 = repo.1).map Prod.snd).getD 0 ∧
      ((amounts.find? fun entry => entry.1 = repo.1).map Prod.snd).getD 0 ≤ total := by
    cases found : amounts.find? fun entry => entry.1 = repo.1 with
    | none => exact ⟨le_rfl,positive⟩
    | some entry => exact bounded entry (List.mem_of_find?_eq_some found)
  obtain ⟨low,high⟩ := repoSplit_bounded given.1 (valid repo stored) amount inside
  exact ⟨low,high.trans given.2⟩

private theorem entry_bounded {envelope : Envelope} (formed : envelope.WellFormed) {stepped : Stepped}
    (fits : StepFits envelope stepped) (entry : String × Int) (member : entry ∈ stepped.entries) :
    0 ≤ entry.2 ∧ entry.2 ≤ envelope.totalMicros := by
  have positive : ∀ value ∈ stepped.entries.map Prod.snd, 0 ≤ value := by
    intro value inside
    obtain ⟨other,stored,rfl⟩ := List.mem_map.mp inside
    exact (floorOf_nonneg formed.funded _).trans (fits.floors other stored)
  have value : entry.2 ∈ stepped.entries.map Prod.snd := List.mem_map_of_mem member
  have most := List.single_le_sum positive _ value
  exact ⟨positive _ value,most.trans (by have sum := fits.sum; have left := fits.unallocated; omega)⟩

theorem total_nonneg {envelope : Envelope} (formed : envelope.WellFormed) : 0 ≤ envelope.totalMicros := by
  have floors := List.sum_nonneg formed.floors
  exact floors.trans formed.sum

private theorem within_vector {envelope : Envelope} {bound : Int} {current : Vector} {stepped : Stepped}
    (keys : stepped.entries.map Prod.fst = envelopeEntries envelope) (within : Within bound current stepped) :
    (∀ id ∈ envelopeEntries envelope, |amountOf stepped.vector id - amountOf current id| ≤ bound) ∧
    |stepped.vector.unallocated - current.unallocated| ≤ bound := by
  refine ⟨?_,within.unallocated⟩
  intro id member
  rw [← keys] at member
  obtain ⟨entry,inside,rfl⟩ := List.mem_map.mp member
  unfold Stepped.vector
  rw [amountOf_entry (keys ▸ entries_nodup envelope) _ inside]
  exact within.entries entry inside

theorem stepFrom_keys {envelope : Envelope} {current : Vector}
    {target stepped : Stepped} (fits : StepFits envelope target) (ok : stepFrom envelope current target = .ok stepped) :
    stepped.entries.map Prod.fst = envelopeEntries envelope := by
  unfold stepFrom at ok
  split at ok
  · cases ok
  next pct _ =>
  split at ok
  · cases ok
  split at ok
  · cases ok
  dsimp only at ok
  split at ok
  · rw [← Except.ok.inj ok]
    have keys := rounded_keys (largestMove (stepRows current target)) (stepRows current target) Row.key Row.before
      (fun row => (row.target - row.before) * (envelope.totalMicros * pct / 100))
      ((stepRows current target).map Row.before).sum
    rw [stepRows_keys fits] at keys
    exact (List.map_tail ..).trans (congrArg List.tail keys)
  · rw [← Except.ok.inj ok]
    exact fits.keys

theorem entries_nonneg {envelope : Envelope} {weights : Weights}
    (valid : ((envelopeEntries envelope).find? fun id => ¬isWeight ((weights.get? id).getD none)) = none) :
    ∀ id ∈ envelopeEntries envelope, 0 ≤ weightOf weights id := by
  intro id member
  have weighs := List.find?_eq_none.mp valid id member
  unfold weightOf
  cases given : (weights.get? id).getD none with
  | none =>
    rw [given] at weighs
    exact absurd weighs (by decide)
  | some weight =>
    rw [given] at weighs
    have weighs : isWeight (some weight) := by simpa using weighs
    exact weighs.1

/-- What an allocation is: a valid split when it starts from none or from a valid one, and a step of at most the
envelope's percentage from whatever it starts. -/
theorem allocate_fits {envelope : Envelope} (formed : envelope.WellFormed) {weights : Weights} {current : Option Vector}
    {repos : Repos} {result : Allocation} (ok : allocate envelope weights current repos = .ok result) :
    ((∀ vector ∈ current, Fits envelope vector) → Fits envelope result.vector ∧ Shares envelope.totalMicros result.repos) ∧
    (∀ vector ∈ current, ∃ pct ∈ envelope.delegation.maxStepPct,
      (∀ id ∈ envelopeEntries envelope,
        |amountOf result.vector id - amountOf vector id| ≤ stepOf envelope pct) ∧
      |result.vector.unallocated - vector.unallocated| ≤ stepOf envelope pct) := by
  unfold allocate at ok
  dsimp only at ok
  split at ok
  · cases ok
  split at ok
  · cases ok
  next valid =>
    split at ok
    · cases ok
    split at ok
    · cases ok
    next made =>
      split at ok
      · cases ok
      next repos_valid =>
        rw [← Except.ok.inj ok]
        have target := targetOf_fits formed.funded (entries_nonneg valid)
        have repos_ok : ∀ repo ∈ repos.entries, ∀ weight ∈ repo.2.values, isWeight weight := by
          intro repo member weight inside
          have fine := List.find?_eq_none.mp repos_valid repo member
          simp only [decide_eq_true_eq,not_or,not_exists,not_and,not_not] at fine
          exact fine.2.2 weight inside
        have finish : ∀ split, StepFits envelope split → Fits envelope split.vector ∧
            Shares envelope.totalMicros (splitRepos split.entries repos) := fun split fits =>
          ⟨stepFits_vector fits,splitRepos_shares (total_nonneg formed) (entry_bounded formed fits) repos_ok⟩
        cases current with
        | none =>
          rw [← Except.ok.inj made]
          exact ⟨fun _ => finish _ target,fun _ none => absurd none (by simp)⟩
        | some vector =>
          have spec := stepFrom_fits formed.funded target made
          refine ⟨fun fits => finish _ (spec.2 (fits vector rfl).floors),?_⟩
          rintro _ ⟨rfl⟩
          obtain ⟨pct,given,within⟩ := spec.1
          exact ⟨pct,given,within_vector (stepFrom_keys target made) within⟩

theorem neutralAllocation_fits {envelope : Envelope} (formed : envelope.WellFormed) {result : Allocation}
    (ok : neutralAllocation envelope = .ok result) : Fits envelope result.vector :=
  ((allocate_fits formed ok).1 fun _ none => absurd none (by simp)).1

theorem fits_bounded {envelope : Envelope} (formed : envelope.WellFormed) {vector : Vector}
    (fits : Fits envelope vector) :
    (∀ amount ∈ vector.allocations.values, 0 ≤ amount ∧ amount ≤ envelope.totalMicros) ∧
    0 ≤ vector.unallocated ∧ vector.unallocated ≤ envelope.totalMicros := by
  have positive : ∀ amount ∈ vector.allocations.values, 0 ≤ amount := by
    intro amount member
    obtain ⟨id,found⟩ := (vector.allocations.mem_values_iff amount).mp member
    have named : id ∈ envelopeEntries envelope := by
      rw [← fits.keys,← Dict.get?_isSome_iff,found]
      rfl
    have floor := fits.floors id named
    unfold amountOf at floor
    rw [found] at floor
    exact (floorOf_nonneg formed.funded id).trans floor
  have sum := fits.sum
  have left := fits.unallocated
  refine ⟨fun amount member => ⟨positive amount member,?_⟩,left,?_⟩
  · have most := List.single_le_sum positive amount member
    omega
  · have whole := List.sum_nonneg positive
    omega

theorem micros_of_total {envelope : Envelope} (formed : envelope.WellFormed) {amount : Int} (low : 0 ≤ amount)
    (high : amount ≤ envelope.totalMicros) : isMicros amount := by
  have most := formed.total
  refine ⟨low,?_⟩
  unfold maxSafeInteger
  omega

/-- What the arithmetic asks of a current vector, a valid split has. -/
theorem fits_numbers {envelope : Envelope} (formed : envelope.WellFormed) {vector : Vector}
    (fits : Fits envelope vector) :
    vectorNumbers vector (envelopeEntries envelope) envelope.totalMicros = .ok () := by
  obtain ⟨amounts,left,most⟩ := fits_bounded formed fits
  have covered : sortTexts vector.allocations.keys = envelopeEntries envelope := by
    rw [fits.keys]
    exact sortTexts_again _
  have safe : ¬(¬isMicros vector.unallocated ∨ ∃ id ∈ envelopeEntries envelope, ¬isMicros (amountOf vector id)) := by
    rintro (wild | ⟨id,member,wild⟩)
    · exact wild (micros_of_total formed left most)
    · rw [← fits.keys,← Dict.get?_isSome_iff,Option.isSome_iff_exists] at member
      obtain ⟨amount,found⟩ := member
      have bounds := amounts amount ((vector.allocations.mem_values_iff amount).mpr ⟨id,found⟩)
      refine wild ?_
      unfold amountOf
      rw [found]
      exact micros_of_total formed bounds.1 bounds.2
  have whole : ((envelopeEntries envelope).map (amountOf vector)).sum + vector.unallocated = envelope.totalMicros := by
    have sum := fits.sum
    rwa [Dict.values_eq_map _ 0,fits.keys] at sum
  unfold vectorNumbers
  rw [if_neg (not_not.mpr covered),if_neg safe,if_neg (not_not.mpr whole)]

/-- The step arithmetic never throws on a valid current vector. -/
theorem allocate_current {envelope : Envelope} (formed : envelope.WellFormed) {weights : Weights} {current : Option Vector}
    {repos : Repos} (fits : ∀ vector ∈ current, Fits envelope vector) :
    allocate envelope weights current repos ≠ .error .current := by
  intro threw
  unfold allocate at threw
  dsimp only at threw
  split at threw
  next thrown numbers =>
    unfold envelopeNumbers at numbers
    dsimp only at numbers
    split at numbers
    · rw [← Except.error.inj numbers] at threw
      cases threw
    split at numbers
    · rw [← Except.error.inj numbers] at threw
      cases threw
    split at numbers
    · rw [← Except.error.inj numbers] at threw
      cases threw
    · cases numbers
  split at threw
  · cases threw
  split at threw
  · cases threw
  split at threw
  next thrown made =>
    obtain rfl := Except.error.inj threw
    cases current with
    | none => cases made
    | some vector =>
    change stepFrom envelope vector _ = _ at made
    unfold stepFrom at made
    split at made
    · cases made
    split at made
    · cases made
    rw [fits_numbers formed (fits vector rfl)] at made
    dsimp only at made
    split at made <;> cases made
  split at threw <;> cases threw

/-- A project's shares lie within its own allocation. -/
theorem repoShares_entry {allocations : Dict String Int} {repos : Repos} {out : RepoShares}
    (ok : repoShares allocations repos = .ok out) {id : String} {shares : Dict String Int}
    (found : out.get? id = some shares) :
    ∀ share ∈ shares.values, 0 ≤ share ∧ share ≤ (allocations.get? id).getD 0 := by
  unfold repoShares at ok
  dsimp only at ok
  split at ok
  · cases ok
  next valid =>
    obtain rfl := Except.ok.inj ok
    have stored := (Dict.get?_eq_some_iff ..).mp found
    unfold splitRepos at stored
    rw [Dict.ofList_entries _ (by simpa [Function.comp_def] using Dict.distinct _)] at stored
    obtain ⟨repo,kept,same⟩ := List.mem_map.mp stored
    obtain ⟨rfl,rfl⟩ := Prod.mk.inj same
    have fine := List.find?_eq_none.mp valid repo kept
    simp only [decide_eq_true_eq,not_or,not_exists,not_and,not_not] at fine
    have amount : ((allocations.entries.find? fun entry => entry.1 = repo.1).map Prod.snd).getD 0 =
        (allocations.get? repo.1).getD 0 := rfl
    rw [amount]
    exact fun share member => repoSplit_bounded fine.2.1 fine.1 share member

theorem repoShares_shares {total : Int} (positive : 0 ≤ total) {allocations : Dict String Int} {repos : Repos}
    {shares : RepoShares} (bounded : ∀ amount ∈ allocations.values, 0 ≤ amount ∧ amount ≤ total)
    (ok : repoShares allocations repos = .ok shares) : Shares total shares := by
  unfold repoShares at ok
  dsimp only at ok
  split at ok
  · cases ok
  next valid =>
    rw [← Except.ok.inj ok]
    refine splitRepos_shares positive ?_ ?_
    · intro entry member
      exact bounded entry.2 (List.mem_map_of_mem member)
    · intro repo member weight inside
      have fine := List.find?_eq_none.mp valid repo member
      simp only [decide_eq_true_eq,not_or,not_exists,not_and,not_not] at fine
      exact fine.1 weight inside

private theorem own_nonneg (envelope : Envelope) (vector : Vector) (id : String) :
    0 ≤ (match vector.allocations.get? id with
      | some amount => max 0 (amount - floorOf envelope id)
      | none => 0) := by
  split
  · exact le_max_left ..
  · exact le_rfl

theorem rebaseWeight_nonneg {envelope : Envelope} {vector : Vector}
    (safe : ∀ amount ∈ vector.allocations.values, 0 ≤ amount) (id : String) : 0 ≤ rebaseWeight envelope vector id := by
  have own := own_nonneg envelope vector id
  unfold rebaseWeight
  dsimp only
  split
  · refine add_nonneg own (List.sum_nonneg fun amount member => ?_)
    obtain ⟨entry,inside,rfl⟩ := List.mem_map.mp member
    exact safe entry.2 (List.mem_map_of_mem (List.mem_filter.mp inside).1)
  · exact own

/-- A re-based vector is a valid split of the changed envelope, whatever it was before. -/
theorem rebase_fits {envelope : Envelope} (formed : envelope.WellFormed) {vector result : Vector}
    (ok : rebase vector envelope = .ok result) : Fits envelope result := by
  unfold rebase at ok
  split at ok
  · cases ok
  split at ok
  · cases ok
  next safe =>
    have safe := not_or.mp safe
    have left : 0 ≤ vector.unallocated := (not_not.mp safe.1).1
    have amounts : ∀ amount ∈ vector.allocations.values, 0 ≤ amount := by
      intro amount member
      by_contra negative
      exact safe.2 ⟨amount,member,fun micros => negative micros.1⟩
    dsimp only at ok
    rw [← Except.ok.inj ok]
    have keys : ((UNALLOCATED,vector.unallocated) ::
        (envelopeEntries envelope).map fun id => (id,rebaseWeight envelope vector id)).map Prod.fst =
        UNALLOCATED :: envelopeEntries envelope := by simp [Function.comp_def]
    have nonneg : ∀ weight ∈ (UNALLOCATED,vector.unallocated) ::
        (envelopeEntries envelope).map fun id => (id,rebaseWeight envelope vector id), 0 ≤ weight.2 := by
      intro weight member
      rcases List.mem_cons.mp member with rfl | later
      · exact left
      · obtain ⟨id,_,rfl⟩ := List.mem_map.mp later
        exact rebaseWeight_nonneg amounts id
    have split := largestRemainder_split (headroom_nonneg formed.funded) nonneg (keys ▸ keyed_nodup formed.funded)
    generalize (UNALLOCATED,vector.unallocated) ::
      (envelopeEntries envelope).map (fun id => (id,rebaseWeight envelope vector id)) = weights at split keys nonneg ⊢
    obtain ⟨covered,positive,sum⟩ := split
    rw [keys] at covered
    cases shares : largestRemainder (headroom envelope) weights with
    | nil =>
      rw [shares] at covered
      cases covered
    | cons head entries =>
      rw [shares] at covered positive sum
      simp only [List.map_cons,List.cons.injEq] at covered
      obtain ⟨_,covered⟩ := covered
      suffices fits : StepFits envelope ⟨entries.map fun share => (share.1,floorOf envelope share.1 + share.2),
          if weights.any fun entry => entry.2 > 0 then head.2 else headroom envelope,false⟩ from stepFits_vector fits
      refine ⟨?_,?_,?_,?_⟩
      · refine Eq.trans ?_ covered
        simp [Function.comp_def]
      · intro entry member
        obtain ⟨share,inside,rfl⟩ := List.mem_map.mp member
        exact le_add_of_nonneg_right (positive share (List.mem_cons_of_mem _ inside))
      · dsimp only
        split
        · exact positive head List.mem_cons_self
        · exact headroom_nonneg formed.funded
      · dsimp only
        rw [floors_add envelope _ covered]
        rw [List.map_cons,List.sum_cons] at sum
        have head_positive := positive head List.mem_cons_self
        split
        next weighs =>
          obtain ⟨entry,member,more⟩ := List.any_eq_true.mp weighs
          have all : ∀ weight ∈ weights.map Prod.snd, 0 ≤ weight := by
            intro weight inside
            obtain ⟨entry,stored,rfl⟩ := List.mem_map.mp inside
            exact nonneg entry stored
          have least := List.single_le_sum all entry.2 (List.mem_map_of_mem member)
          have more : 0 < entry.2 := by simpa using more
          rw [if_neg (by omega)] at sum
          linarith
        next weightless =>
          have zero : (weights.map Prod.snd).sum = 0 := by
            refine List.sum_eq_zero fun weight member => ?_
            obtain ⟨entry,stored,rfl⟩ := List.mem_map.mp member
            have none : ¬0 < entry.2 := fun more => weightless (List.any_eq_true.mpr ⟨entry,stored,by simpa using more⟩)
            have some_weight := nonneg entry stored
            omega
          rw [if_pos zero] at sum
          have rest : 0 ≤ (entries.map Prod.snd).sum := by
            refine List.sum_nonneg fun value inside => ?_
            obtain ⟨share,stored,rfl⟩ := List.mem_map.mp inside
            exact positive share (List.mem_cons_of_mem _ stored)
          linarith

end PiDispatch.Priorities
