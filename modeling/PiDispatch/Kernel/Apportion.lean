import Mathlib.Algebra.Order.BigOperators.Group.List
import Mathlib.Data.List.Sort
import Mathlib.Tactic.Linarith

/-! Rounding a list of fractions to a whole sum: each part keeps its floor and the units that the floors left go one
each to the parts with the largest rests, the earlier part first among equals. -/
namespace PiDispatch.Kernel

/-- A part of a whole, rounded down: what the floor left of it is `rest`, in some common fraction of a unit. -/
structure Part (K : Type) where
  key : K
  whole : Int
  rest : Int

variable {K : Type} [DecidableEq K]

def byRest (parts : List (Part K)) : List (Part K) := parts.insertionSort fun left right => right.rest ≤ left.rest

def topUp (left : Nat) (parts : List (Part K)) : List (K × Int) :=
  let winners := ((byRest parts).take left).map Part.key
  parts.map fun part => (part.key,part.whole + if part.key ∈ winners then 1 else 0)

/-- Rests that are fractions of `unit` and add up to `left` whole units. -/
structure Rounded (unit : Int) (left : Nat) (parts : List (Part K)) : Prop where
  distinct : (parts.map Part.key).Nodup
  low : ∀ part ∈ parts, 0 ≤ part.rest
  high : ∀ part ∈ parts, part.rest < unit
  sum : (parts.map Part.rest).sum = unit * left

omit [DecidableEq K] in
private theorem sum_le_length {unit : Int} (parts : List (Part K)) (high : ∀ part ∈ parts, part.rest < unit) :
    (parts.map Part.rest).sum ≤ parts.length * (unit - 1) := by
  induction parts with
  | nil => simp
  | cons part parts ih =>
    have here := high part List.mem_cons_self
    have rest := ih fun other member => high other (List.mem_cons_of_mem _ member)
    simp only [List.map_cons,List.sum_cons,List.length_cons]
    push_cast
    linarith

omit [DecidableEq K] in
private theorem byRest_perm (parts : List (Part K)) : (byRest parts).Perm parts := List.perm_insertionSort _ parts

omit [DecidableEq K] in
private theorem byRest_sorted (parts : List (Part K)) : (byRest parts).Pairwise fun left right => right.rest ≤ left.rest := by
  have total : Std.Total fun left right : Part K => right.rest ≤ left.rest := ⟨fun _ _ => le_total _ _⟩
  have trans : IsTrans (Part K) fun left right => right.rest ≤ left.rest := ⟨fun _ _ _ first second => second.trans first⟩
  exact List.pairwise_insertionSort _ parts

omit [DecidableEq K] in
private theorem rounded_byRest {unit : Int} {left : Nat} {parts : List (Part K)} (rounded : Rounded unit left parts) :
    Rounded unit left (byRest parts) := by
  have same := byRest_perm parts
  refine ⟨(same.map Part.key).nodup_iff.mpr rounded.distinct,?_,?_,(same.map Part.rest).sum_eq.trans rounded.sum⟩
  · intro part member
    exact rounded.low part (same.mem_iff.mp member)
  · intro part member
    exact rounded.high part (same.mem_iff.mp member)

omit [DecidableEq K] in
private theorem left_le_length {unit : Int} (positive : 0 < unit) {left : Nat} {parts : List (Part K)}
    (rounded : Rounded unit left parts) : left ≤ parts.length := by
  have bound := sum_le_length parts rounded.high
  rw [rounded.sum] at bound
  have product : (left : Int) * unit ≤ parts.length * unit := by
    have nonneg : (0 : Int) ≤ parts.length := Int.natCast_nonneg _
    linarith
  exact_mod_cast le_of_mul_le_mul_right product positive

omit [DecidableEq K] in
/-- Only a part with a rest is topped up: were one without among the first `left`, all after it would have none. -/
private theorem winners_positive {unit : Int} (positive : 0 < unit) {left : Nat} {parts : List (Part K)}
    (rounded : Rounded unit left parts) (part : Part K) (winner : part ∈ (byRest parts).take left) : 0 < part.rest := by
  have sorted := rounded_byRest rounded
  by_contra none
  have zero : part.rest ≤ 0 := not_lt.mp none
  have split := List.take_append_drop left (byRest parts)
  have ordered := byRest_sorted parts
  rw [← split,List.pairwise_append] at ordered
  have dropped : ((byRest parts).drop left).map Part.rest = ((byRest parts).drop left).map fun _ => 0 := by
    refine List.map_congr_left fun other member => ?_
    exact le_antisymm ((ordered.2.2 part winner other member).trans zero) (sorted.low other (List.mem_of_mem_drop member))
  have sum := sorted.sum
  rw [← split,List.map_append,List.sum_append,dropped] at sum
  have taken := sum_le_length ((byRest parts).take left) fun other member => sorted.high other (List.mem_of_mem_take member)
  have length : ((byRest parts).take left).length = left := by
    rw [List.length_take,min_eq_left]
    exact left_le_length positive sorted
  rw [length] at taken
  have empty : left = 0 := by
    have nothing : (((byRest parts).drop left).map fun _ : Part K => (0 : Int)).sum = 0 := by simp
    rw [nothing,add_zero] at sum
    have less : (left : Int) ≤ 0 := by linarith
    omega
  rw [empty] at winner
  cases winner

theorem topUp_keys (left : Nat) (parts : List (Part K)) : (topUp left parts).map Prod.fst = parts.map Part.key := by
  simp [topUp,Function.comp_def]

/-- A topped-up part is its floor, or one more when the floor left something. -/
theorem topUp_value {unit : Int} (positive : 0 < unit) {left : Nat} {parts : List (Part K)}
    (rounded : Rounded unit left parts) (entry : K × Int) (member : entry ∈ topUp left parts) :
    ∃ part ∈ parts, entry.1 = part.key ∧
      (entry.2 = part.whole ∨ (entry.2 = part.whole + 1 ∧ 0 < part.rest)) := by
  obtain ⟨part,inside,rfl⟩ := List.mem_map.mp member
  refine ⟨part,inside,rfl,?_⟩
  dsimp only
  split
  next wins =>
    obtain ⟨winner,taken,same⟩ := List.mem_map.mp wins
    have stored := (byRest_perm parts).mem_iff.mp (List.mem_of_mem_take taken)
    have equal : winner = part := List.inj_on_of_nodup_map rounded.distinct stored inside same
    exact .inr ⟨rfl,equal ▸ winners_positive positive rounded winner taken⟩
  next => exact .inl (add_zero _)

omit [DecidableEq K] in
private theorem pair_sublist {parts : List (Part K)} {first second : Part K} (member : first ∈ parts)
    (member' : second ∈ parts) (apart : first ≠ second) :
    [first,second].Sublist parts ∨ [second,first].Sublist parts := by
  induction parts with
  | nil => cases member
  | cons part parts ih =>
    rcases List.mem_cons.mp member with rfl | later
    · rcases List.mem_cons.mp member' with rfl | later'
      · exact absurd rfl apart
      · exact .inl ((List.singleton_sublist.mpr later').cons_cons _)
    · rcases List.mem_cons.mp member' with rfl | later'
      · exact .inr ((List.singleton_sublist.mpr later).cons_cons _)
      · exact (ih later later').imp (List.Sublist.cons _) (List.Sublist.cons _)

/-- Of two parts the one with the larger rest is topped up first, and of equal rests the earlier one. -/
theorem topUp_order {left : Nat} {parts : List (Part K)} (distinct : (parts.map Part.key).Nodup) {first second : Part K}
    (member : first ∈ parts) (member' : second ∈ parts) (more : (first.key,first.whole + 1) ∈ topUp left parts)
    (less : (second.key,second.whole) ∈ topUp left parts) :
    second.rest < first.rest ∨ (first.rest = second.rest ∧ [first,second].Sublist parts) := by
  have same (part other : Part K) (inside : part ∈ parts) (inside' : other ∈ parts) (key : part.key = other.key) :
      part = other := List.inj_on_of_nodup_map distinct inside inside' key
  have sorted := byRest_perm parts
  have keys : ((byRest parts).map Part.key).Nodup := (sorted.map Part.key).nodup_iff.mpr distinct
  have split := List.take_append_drop left (byRest parts)
  have wins : first ∈ (byRest parts).take left := by
    obtain ⟨part,inside,equal⟩ := List.mem_map.mp more
    obtain ⟨key,value⟩ := Prod.mk.inj equal
    obtain rfl := same part first inside member key
    split at value
    next taken =>
      obtain ⟨winner,here,key'⟩ := List.mem_map.mp taken
      rw [← same winner part (sorted.mem_iff.mp (List.mem_of_mem_take here)) member key']
      exact here
    · omega
  have loses : second ∈ (byRest parts).drop left := by
    obtain ⟨part,inside,equal⟩ := List.mem_map.mp less
    obtain ⟨key,value⟩ := Prod.mk.inj equal
    obtain rfl := same part second inside member' key
    split at value
    · omega
    next apart =>
      have there := sorted.mem_iff.mpr inside
      rw [← split,List.mem_append] at there
      rcases there with taken | dropped
      · exact absurd (List.mem_map_of_mem taken) apart
      · exact dropped
  have apart (part : Part K) (taken : part ∈ (byRest parts).take left) : part ∉ (byRest parts).drop left := by
    intro dropped
    rw [← split,List.map_append,List.nodup_append] at keys
    exact keys.2.2 _ (List.mem_map_of_mem taken) _ (List.mem_map_of_mem dropped) rfl
  have ordered := byRest_sorted parts
  rw [← split,List.pairwise_append] at ordered
  rcases lt_or_eq_of_le (ordered.2.2 first wins second loses) with under | equal
  · exact .inl under
  · refine .inr ⟨equal.symm,?_⟩
    rcases pair_sublist member member' (fun one => apart first wins (one ▸ loses)) with before | after
    · exact before
    · have later : [second,first].Sublist (byRest parts) := List.pair_sublist_insertionSort equal.symm.le after
      rw [← split,List.sublist_append_iff] at later
      obtain ⟨taken,dropped,both,early,late⟩ := later
      cases taken with
      | nil =>
        have there : first ∈ dropped := by
          rw [← List.nil_append dropped,← both]
          exact List.mem_cons_of_mem _ List.mem_cons_self
        exact absurd (late.mem there) (apart first wins)
      | cons head rest =>
        obtain ⟨rfl,_⟩ := List.cons.inj both
        exact absurd loses (apart second (early.mem List.mem_cons_self))

private theorem count_winners {unit : Int} (positive : 0 < unit) {left : Nat} {parts : List (Part K)}
    (rounded : Rounded unit left parts) :
    parts.countP (fun part => part.key ∈ ((byRest parts).take left).map Part.key) = left := by
  have sorted := rounded_byRest rounded
  have split := List.take_append_drop left (byRest parts)
  rw [← (byRest_perm parts).countP_eq]
  generalize byRest parts = ordered at sorted split
  have keys := sorted.distinct
  rw [← split,List.map_append,List.nodup_append] at keys
  have all : (ordered.take left).countP (fun part => part.key ∈ (ordered.take left).map Part.key) =
      (ordered.take left).length := by
    refine List.countP_eq_length.mpr fun part member => ?_
    exact decide_eq_true (List.mem_map_of_mem member)
  have none : (ordered.drop left).countP (fun part => part.key ∈ (ordered.take left).map Part.key) = 0 := by
    refine List.countP_eq_zero.mpr fun part member => ?_
    simp only [decide_eq_true_eq]
    intro taken
    exact keys.2.2 _ taken _ (List.mem_map_of_mem member) rfl
  have whole : (ordered.take left ++ ordered.drop left).countP
      (fun part => part.key ∈ (ordered.take left).map Part.key) = _ + _ := List.countP_append
  rw [split,all,none,List.length_take,add_zero,min_eq_left] at whole
  · exact whole
  · exact left_le_length positive sorted

/-- Topping up restores the whole sum. -/
theorem topUp_sum {unit : Int} (positive : 0 < unit) {left : Nat} {parts : List (Part K)}
    (rounded : Rounded unit left parts) :
    ((topUp left parts).map Prod.snd).sum = (parts.map Part.whole).sum + left := by
  have count := count_winners positive rounded
  unfold topUp
  generalize ((byRest parts).take left).map Part.key = winners at count
  have each : ∀ list : List (Part K),
      ((list.map fun part => (part.key,part.whole + if part.key ∈ winners then 1 else 0)).map Prod.snd).sum =
        (list.map Part.whole).sum + (list.countP fun part => part.key ∈ winners) := by
    intro list
    induction list with
    | nil => simp
    | cons part list ih =>
      simp only [List.map_cons,List.sum_cons,ih,List.countP_cons,decide_eq_true_eq]
      split <;> omega
  rw [each,count]

variable {R : Type}

/-- Each row's base and its fraction `share / unit`, rounded down. -/
def fractions (unit : Int) (rows : List R) (key : R → K) (base share : R → Int) : List (Part K) :=
  rows.map fun row => ⟨key row,base row + share row / unit,share row % unit⟩

def wholes (parts : List (Part K)) : Int := (parts.map Part.whole).sum

omit [DecidableEq K] in
private theorem fractions_sums (unit : Int) (rows : List R) (key : R → K) (base share : R → Int) :
    unit * wholes (fractions unit rows key base share) + ((fractions unit rows key base share).map Part.rest).sum =
      unit * (rows.map base).sum + (rows.map share).sum := by
  unfold wholes fractions
  induction rows with
  | nil => simp
  | cons row rows ih =>
    have divided := Int.mul_ediv_add_emod (share row) unit
    simp only [List.map_cons,List.sum_cons,mul_add] at ih ⊢
    linarith

omit [DecidableEq K] in
/-- Shares that add up to `amount` units leave a whole number of units when they are rounded down. -/
theorem fractions_rounded {unit : Int} (positive : 0 < unit) {rows : List R} {key : R → K} {share : R → Int}
    (distinct : (rows.map key).Nodup) {amount : Int} (sum : (rows.map share).sum = unit * amount) (base : R → Int) :
    let left := (rows.map base).sum + amount - wholes (fractions unit rows key base share)
    0 ≤ left ∧ Rounded unit left.toNat (fractions unit rows key base share) := by
  have sums := fractions_sums unit rows key base share
  have low : ∀ part ∈ fractions unit rows key base share, 0 ≤ part.rest := by
    intro part member
    obtain ⟨row,_,rfl⟩ := List.mem_map.mp member
    exact Int.emod_nonneg _ positive.ne'
  have high : ∀ part ∈ fractions unit rows key base share, part.rest < unit := by
    intro part member
    obtain ⟨row,_,rfl⟩ := List.mem_map.mp member
    exact Int.emod_lt_of_pos _ positive
  have keys : ((fractions unit rows key base share).map Part.key) = rows.map key := by simp [fractions,Function.comp_def]
  have rests : 0 ≤ ((fractions unit rows key base share).map Part.rest).sum := by
    refine List.sum_nonneg fun rest member => ?_
    obtain ⟨part,inside,rfl⟩ := List.mem_map.mp member
    exact low part inside
  generalize fractions unit rows key base share = parts at sums low high keys rests
  have total : (parts.map Part.rest).sum = unit * ((rows.map base).sum + amount - wholes parts) := by
    rw [mul_sub,mul_add]
    linarith
  have left : 0 ≤ (rows.map base).sum + amount - wholes parts := by
    rw [total] at rests
    exact nonneg_of_mul_nonneg_right rests positive
  refine ⟨left,keys ▸ distinct,low,high,?_⟩
  rw [Int.toNat_of_nonneg left]
  exact total

/-- Shares rounded to a whole sum. -/
def rounded (unit : Int) (rows : List R) (key : R → K) (base share : R → Int) (amount : Int) : List (K × Int) :=
  topUp (amount - wholes (fractions unit rows key base share)).toNat (fractions unit rows key base share)

theorem rounded_keys (unit : Int) (rows : List R) (key : R → K) (base share : R → Int) (amount : Int) :
    (rounded unit rows key base share amount).map Prod.fst = rows.map key := by
  simp [rounded,topUp_keys,fractions,Function.comp_def]

theorem rounded_sum {unit : Int} (positive : 0 < unit) {rows : List R} {key : R → K} {share : R → Int}
    (distinct : (rows.map key).Nodup) {amount : Int} (sum : (rows.map share).sum = unit * amount) (base : R → Int) :
    ((rounded unit rows key base share ((rows.map base).sum + amount)).map Prod.snd).sum = (rows.map base).sum + amount := by
  obtain ⟨left,parts⟩ := fractions_rounded positive distinct sum base
  unfold rounded
  rw [topUp_sum positive parts,Int.toNat_of_nonneg left]
  unfold wholes
  linarith

/-- Of two rows the one whose share leaves the larger rest is rounded up first, and of equal rests the earlier one. -/
theorem rounded_order {unit : Int} {rows : List R} {key : R → K} {base share : R → Int} {amount : Int}
    (distinct : (rows.map key).Nodup) {first second : R} (member : first ∈ rows) (member' : second ∈ rows)
    (more : (key first,base first + share first / unit + 1) ∈ rounded unit rows key base share amount)
    (less : (key second,base second + share second / unit) ∈ rounded unit rows key base share amount) :
    share second % unit < share first % unit ∨
      (share first % unit = share second % unit ∧ [key first,key second].Sublist (rows.map key)) := by
  have keys : (fractions unit rows key base share).map Part.key = rows.map key := by simp [fractions,Function.comp_def]
  rcases topUp_order (keys ▸ distinct) (List.mem_map_of_mem member) (List.mem_map_of_mem member') more less with under | ⟨same,before⟩
  · exact .inl under
  · refine .inr ⟨same,?_⟩
    rw [← keys]
    exact before.map Part.key

/-- A rounded share is its floor, or one more when the division left something. -/
theorem rounded_value {unit : Int} (positive : 0 < unit) {rows : List R} {key : R → K} {share : R → Int}
    (distinct : (rows.map key).Nodup) {amount : Int} (sum : (rows.map share).sum = unit * amount) (base : R → Int)
    (entry : K × Int)
    (member : entry ∈ rounded unit rows key base share ((rows.map base).sum + amount)) :
    ∃ row ∈ rows, entry.1 = key row ∧ (entry.2 = base row + share row / unit ∨
      (entry.2 = base row + share row / unit + 1 ∧ 0 < share row % unit)) := by
  obtain ⟨_,parts⟩ := fractions_rounded positive distinct sum base
  obtain ⟨part,inside,same,value⟩ := topUp_value positive parts entry member
  obtain ⟨row,stored,rfl⟩ := List.mem_map.mp inside
  exact ⟨row,stored,same,value⟩

end PiDispatch.Kernel
