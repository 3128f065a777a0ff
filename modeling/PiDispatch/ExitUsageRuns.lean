import PiDispatch.ChildFoldRuns
import PiDispatch.ExitUsage

/-! The rows on the exit line against its totals. The meter's rows partition what it recorded, those of the children partition
their totals as far as each ledger was accepted, and the cut after eight rows drops only a rest that has no calls. -/
namespace PiDispatch.UsageMeter
open Kernel

/-! Sums of rows. -/

theorem folded_sum (into : Row) (rows : List Row) : folded into rows = into + rows.sum := by
  induction rows generalizing into with
  | nil => exact (add_zero into).symm
  | cons row rows ih =>
    rw [List.sum_cons,← add_assoc]
    exact ih (into + row)

/-- No figures without calls. -/
def Row.Counted (row : Row) : Prop := row.calls = 0 → row = emptyRow

theorem Row.Counted.add {one other : Row} (first : one.Counted) (second : other.Counted) : (one + other).Counted := by
  intro none
  change one.calls + other.calls = 0 at none
  obtain ⟨none,none'⟩ := Nat.add_eq_zero_iff.mp none
  rw [first none,second none']
  exact add_zero (0 : Row)

/-- The rows without figures of their own. -/
def countedRows : AddSubmonoid Row := ⟨⟨{row | row.Counted},.add⟩,fun _ => rfl⟩

/-! What the marks of a fold sum to. -/

/-- Two sums over some files, apart by no more than each file's tolerance. -/
def Near (files : Nat) (one other : Rat) : Prop := |one - other| ≤ 1 / 1000000000 * (files + one + other)

private theorem near_agrees {one other : Rat} (positive : 0 ≤ one) (positive' : 0 ≤ other) (agreed : agrees one other = true) :
    Near 1 one other := by
  unfold agrees at agreed
  rw [decide_eq_true_eq,abs_of_nonneg positive,abs_of_nonneg positive'] at agreed
  have most : max 1 (max one other) ≤ 1 + one + other := max_le (by linarith) (max_le (by linarith) (by linarith))
  unfold Near
  rw [Nat.cast_one]
  linarith

private theorem near_add {files : Nat} {one other more much : Rat} (first : Near 1 one other) (rest : Near files more much) :
    Near (files + 1) (one + more) (other + much) := by
  unfold Near at first rest ⊢
  have apart : one + more - (other + much) = (one - other) + (more - much) := by ring
  have parts := abs_add_le (one - other) (more - much)
  rw [apart,Nat.cast_add,Nat.cast_one]
  rw [Nat.cast_one] at first
  linarith

/-- A figure of the rows against one of the totals. -/
structure Column where
  row : Row → Rat
  totals : LedgerTotals → Rat
  row_zero : row emptyRow = 0
  row_add : ∀ one other, row (foldRow one other) = row one + row other
  totals_zero : totals emptyLedger.totals = 0
  totals_add : ∀ one other, totals (addTotals one other) = totals one + totals other
  agreed : ∀ mark : Ledger, mark.Fair → Near 1 (row (sumRows mark.rows)) (totals mark.totals)

def Ledger.Matches (mark : Ledger) (column : Column) : Prop := column.row (sumRows mark.rows) = column.totals mark.totals

private theorem rows_positive {mark : Ledger} (fair : mark.Fair) : (sumRows mark.rows).Positive := by
  rw [sumRows_folded]
  refine folded_grows emptyRow fun row inside => ?_
  obtain ⟨own,member,rfl⟩ := List.mem_map.mp inside
  exact (fair.rows own member).2

namespace Column

def input : Column :=
  ⟨Row.input,LedgerTotals.input,rfl,fun _ _ => rfl,rfl,fun _ _ => rfl,
    fun _ fair => near_agrees (rows_positive fair).input fair.totals.1 fair.input⟩

def output : Column :=
  ⟨Row.output,LedgerTotals.output,rfl,fun _ _ => rfl,rfl,fun _ _ => rfl,
    fun _ fair => near_agrees (rows_positive fair).output fair.totals.2.1 fair.output⟩

def total : Column :=
  ⟨Row.total,LedgerTotals.total,rfl,fun _ _ => rfl,rfl,fun _ _ => rfl,
    fun _ fair => near_agrees (rows_positive fair).total fair.totals.2.2.1 fair.total⟩

def cost : Column :=
  ⟨Row.cost,LedgerTotals.cost,rfl,fun _ _ => rfl,rfl,fun _ _ => rfl,
    fun _ fair => near_agrees (rows_positive fair).cost fair.totals.2.2.2 fair.cost⟩

end Column

def columns : List Column := [.input,.output,.total,.cost]

theorem columns_positive {row : Row} (positive : row.Positive) : ∀ column ∈ columns, 0 ≤ column.row row := by
  simp only [columns,List.forall_mem_cons]
  exact ⟨positive.input,positive.output,positive.total,positive.cost,nofun⟩

namespace Fold

variable {fold : Fold} {gone : List (String × Ledger)} {book : Dict String Ledger}

private theorem Booked.adds {M : Type} [AddCommMonoid M] (booked : fold.Booked gone book) (figure : Ledger → M)
    (none : figure emptyLedger = 0)
    (additive : ∀ into given, (into.rows.map LedgerRow.key).Nodup → figure (addLedger into given) = figure into + figure given) :
    figure fold.sum = (book.values.map figure).sum := by
  rw [booked.sum,@marks_sum M _ figure additive emptyLedger List.nodup_nil,none,zero_add]

private theorem sumRows_add {into : Ledger} (given : Ledger) (distinct : (into.rows.map LedgerRow.key).Nodup) :
    sumRows (addLedger into given).rows = foldRow (sumRows into.rows) (sumRows given.rows) :=
  sumRows_merged distinct given.rows

private theorem Booked.column (booked : fold.Booked gone book) (column : Column) :
    column.row (sumRows fold.sum.rows) = (book.values.map fun mark => column.row (sumRows mark.rows)).sum ∧
      column.totals fold.sum.totals = (book.values.map fun mark => column.totals mark.totals).sum := by
  refine ⟨booked.adds (fun mark => column.row (sumRows mark.rows)) column.row_zero ?_,
    booked.adds (fun mark => column.totals mark.totals) column.totals_zero fun into given _ => column.totals_add _ _⟩
  intro into given distinct
  rw [sumRows_add given distinct,column.row_add]

theorem Booked.near (booked : fold.Booked gone book) (column : Column) :
    Near book.values.length (column.row (sumRows fold.sum.rows)) (column.totals fold.sum.totals) := by
  obtain ⟨rows,totals⟩ := booked.column column
  have fair := booked.fair
  rw [rows,totals]
  generalize book.values = marks at fair ⊢
  induction marks with
  | nil => exact (by unfold Near; norm_num)
  | cons mark marks ih =>
    obtain ⟨own,others⟩ := List.forall_mem_cons.mp fair
    rw [List.map_cons,List.map_cons,List.sum_cons,List.sum_cons]
    exact near_add (column.agreed mark own) (ih others)

theorem Booked.matches (booked : fold.Booked gone book) (column : Column) (each : ∀ mark ∈ book.values, mark.Matches column) :
    column.row (sumRows fold.sum.rows) = column.totals fold.sum.totals := by
  obtain ⟨rows,totals⟩ := booked.column column
  rw [rows,totals,List.map_congr_left each]

theorem Booked.unpriced (booked : fold.Booked gone book) :
    (sumRows fold.sum.rows).unpriced = fold.sum.totals.unpriced := by
  have rows := booked.adds (fun mark => (sumRows mark.rows).unpriced) rfl (by
    intro into given distinct
    rw [sumRows_add given distinct]
    rfl)
  have totals := booked.adds (fun mark => mark.totals.unpriced) rfl fun _ _ _ => rfl
  rw [rows,totals,List.map_congr_left fun mark inside => (booked.fair mark inside).unpriced]

theorem Booked.each (booked : fold.Booked gone book) {good : LedgerRow → Prop}
    (joined : ∀ held row : LedgerRow, good held → good row → good { held with row := foldRow held.row row.row })
    (each : ∀ mark ∈ book.values, ∀ row ∈ mark.rows, good row) : ∀ row ∈ fold.sum.rows, good row := by
  rw [booked.sum]
  refine List.foldlRecOn (motive := fun sum => ∀ row ∈ sum.rows, good row) book.values addLedger ?_ ?_
  · exact List.forall_mem_nil _
  · exact fun into held mark inside => merged_each joined held (each mark inside)

theorem Booked.rows_fair (booked : fold.Booked gone book) : ∀ row ∈ fold.sum.rows, row.paired = row ∧ row.row.Positive := by
  intro row inside
  obtain ⟨recordable,positive⟩ := @Booked.each _ _ _ booked (fun row => row.Recordable ∧ row.row.Positive)
    (fun _ _ first second => ⟨first.1,first.2.fold second.2⟩) (fun mark member => (booked.fair mark member).rows) row inside
  refine ⟨?_,positive⟩
  obtain ⟨provider,model,figures⟩ := row
  rcases recordable with ⟨none,none'⟩ | ⟨_,_,named,named',-⟩
  · dsimp only at none none'
    rw [none,none']
    rfl
  · dsimp only at named named'
    rw [named,named']
    rfl

end Fold

/-! The children as the meter holds them. -/

/-- A row that is full in every figure. -/
def fullRow : Row :=
  ⟨maxSafeInteger,maxSafeInteger,maxSafeInteger,maxSafeInteger,maxSafeInteger,maxSafeInteger,maxSafeInteger,maxSafeInteger,
    maxSafeInteger,maxSafeInteger,maxSafeInteger⟩

/-- A fold that the meter can carry as it is. -/
structure Fold.Below (fold : Fold) : Prop where
  amounts : fold.sum.totals.input ≤ maxSafeInteger ∧ fold.sum.totals.output ≤ maxSafeInteger ∧
    fold.sum.totals.total ≤ maxSafeInteger ∧ fold.sum.totals.cost ≤ maxSafeInteger
  counts : fold.sum.totals.calls ≤ maxSafeInteger ∧ fold.sum.totals.unpriced ≤ maxSafeInteger
  rows : ∀ row ∈ fold.sum.rows, row.row.Within fullRow
  processes : fold.processes ≤ maxSafeInteger

def Children.none : Children := ⟨⟨0,0,0,0,0,0,0,0⟩,0,0,0,[]⟩

/-- The children, or none of them before the first fold. -/
def RunMeter.held (run : RunMeter) : Children := run.children.getD .none

theorem RunMeter.held_getD {T : Type} (run : RunMeter) (figure : Children → T) (zero : T) (none : figure .none = zero) :
    (run.children.map figure).getD zero = figure run.held := by
  unfold held
  cases run.children with
  | none => exact none.symm
  | some held => rfl

def LedgerRow.entry (row : LedgerRow) : String × Row := (row.key,row.row)

structure Children.Agree (held : Children) (fold : Fold) : Prop where
  input : held.totals.input = fold.sum.totals.input
  output : held.totals.output = fold.sum.totals.output
  total : held.totals.total = fold.sum.totals.total
  cost : held.totals.cost = fold.sum.totals.cost
  calls : held.totals.calls = fold.sum.totals.calls
  unresolved : held.totals.unresolved = fold.sum.totals.unresolved
  unpriced : held.totals.unpriced = fold.sum.totals.unpriced
  processes : held.processes = fold.processes
  rows : (held.rows.map LedgerRow.entry).Perm (fold.sum.rows.map LedgerRow.entry)

theorem max_carry {held given : Rat} (up : held ≤ given) (positive : 0 ≤ given) (below : given ≤ maxSafeInteger) :
    max held (carry given) = given := by
  unfold carry
  rw [if_pos ⟨positive,below⟩,max_eq_right up]

theorem max_carryCount {held given : Nat} (up : held ≤ given) (below : given ≤ maxSafeInteger) :
    max held (carryCount given) = given := by
  unfold carryCount
  rw [min_eq_left below,max_eq_right up]

private theorem raiseRow_given {held given : Row} (up : held.Within given) (positive : given.Positive)
    (below : given.Within fullRow) : raiseRow held given = given := by
  unfold raiseRow
  rw [max_carryCount up.calls below.calls,max_carry up.input positive.input below.input,
    max_carry up.output positive.output below.output,max_carry up.cacheRead positive.cacheRead below.cacheRead,
    max_carry up.cacheWrite positive.cacheWrite below.cacheWrite,
    max_carry up.cacheWrite1h positive.cacheWrite1h below.cacheWrite1h,
    max_carry up.reasoning positive.reasoning below.reasoning,max_carry up.total positive.total below.total,
    max_carry up.cost positive.cost below.cost,max_carryCount up.unpriced below.unpriced,
    max_carryCount up.providerBilled below.providerBilled]

section SetRow
variable {rows : List LedgerRow} {given : LedgerRow} (paired : given.paired = given)
include paired

private theorem setRow_keys : (setRow rows given).map LedgerRow.key =
    if given.key ∈ rows.map LedgerRow.key then rows.map LedgerRow.key else rows.map LedgerRow.key ++ [given.key] := by
  have present : (rows.any fun held => held.key = given.key) = true ↔ given.key ∈ rows.map LedgerRow.key := by
    simp [List.any_eq_true]
  unfold setRow
  dsimp only
  rw [paired]
  by_cases found : given.key ∈ rows.map LedgerRow.key
  · rw [if_pos (present.mpr found),if_pos found,List.map_map]
    refine List.map_congr_left fun held _ => ?_
    dsimp only [Function.comp_apply]
    split
    · rfl
    · rfl
  · rw [if_neg fun there => found (present.mp there),if_neg found,List.map_append]
    rfl

/-- A row that raises to what is given stands under its key, and the others are as they were. -/
private theorem setRow_entry (fits : ∀ held ∈ rows, held.key = given.key → raiseRow held.row given.row = given.row)
    (fresh : raiseRow emptyRow given.row = given.row) (entry : String × Row) :
    entry ∈ (setRow rows given).map LedgerRow.entry ↔
      entry = given.entry ∨ (entry ∈ rows.map LedgerRow.entry ∧ entry.1 ≠ given.key) := by
  unfold setRow
  dsimp only
  rw [paired]
  split
  next found =>
    obtain ⟨own,there,same⟩ := List.any_eq_true.mp found
    have same := of_decide_eq_true same
    have each : ∀ held ∈ rows, LedgerRow.entry (if held.key = given.key then { held with row := raiseRow held.row given.row }
        else held) = if held.key = given.key then given.entry else held.entry := by
      intro held member
      split
      next same => exact Prod.ext same (fits held member same)
      · rfl
    rw [List.map_map,List.mem_map,List.mem_map]
    constructor
    · rintro ⟨held,member,rfl⟩
      rw [Function.comp_apply,each held member]
      split
      · exact .inl rfl
      next apart => exact .inr ⟨⟨held,member,rfl⟩,apart⟩
    · rintro (rfl | ⟨⟨held,member,rfl⟩,apart⟩)
      · exact ⟨own,there,(each own there).trans (if_pos same)⟩
      · exact ⟨held,member,(each held member).trans (if_neg apart)⟩
  next absent =>
    rw [List.map_append,List.mem_append,List.map_singleton,List.mem_singleton]
    have own : LedgerRow.entry { given with row := raiseRow emptyRow given.row } = given.entry := by
      unfold LedgerRow.entry
      rw [fresh]
    rw [own]
    constructor
    · rintro (inside | rfl)
      · refine .inr ⟨inside,fun same => absent ?_⟩
        obtain ⟨held,member,rfl⟩ := List.mem_map.mp inside
        exact List.any_eq_true.mpr ⟨held,member,decide_eq_true same⟩
      · exact .inl rfl
    · rintro (rfl | ⟨inside,_⟩)
      · exact .inr rfl
      · exact .inl inside

end SetRow

/-- Rows handed over under keys of their own, each at least what is held under its key. -/
private theorem setRows_entries {held given : List LedgerRow} (distinct : (held.map LedgerRow.key).Nodup)
    (distinct' : (given.map LedgerRow.key).Nodup) (paired : ∀ row ∈ given, row.paired = row)
    (fits : ∀ now ∈ given, ∀ row ∈ held, row.key = now.key → raiseRow row.row now.row = now.row)
    (fresh : ∀ now ∈ given, raiseRow emptyRow now.row = now.row) :
    ((given.foldl setRow held).map LedgerRow.key).Nodup ∧ ∀ entry, entry ∈ (given.foldl setRow held).map LedgerRow.entry ↔
      entry ∈ given.map LedgerRow.entry ∨ (entry ∈ held.map LedgerRow.entry ∧ entry.1 ∉ given.map LedgerRow.key) := by
  induction given generalizing held with
  | nil => exact ⟨distinct,fun entry => by simp⟩
  | cons first rest ih =>
    obtain ⟨own,paired⟩ := List.forall_mem_cons.mp paired
    obtain ⟨fit,fits⟩ := List.forall_mem_cons.mp fits
    obtain ⟨new,fresh⟩ := List.forall_mem_cons.mp fresh
    obtain ⟨apart,distinct'⟩ := List.nodup_cons.mp distinct'
    have entries := setRow_entry own fit new
    have keys : ((setRow held first).map LedgerRow.key).Nodup := by
      rw [setRow_keys own]
      split
      · exact distinct
      next absent =>
        refine List.nodup_append.mpr ⟨distinct,List.nodup_singleton _,?_⟩
        intro key inside other last same
        rw [List.mem_singleton.mp last] at same
        exact absent (same ▸ inside)
    have still : ∀ now ∈ rest, ∀ row ∈ setRow held first, row.key = now.key → raiseRow row.row now.row = now.row := by
      intro now later row inside same
      rcases (entries row.entry).mp (List.mem_map_of_mem inside) with new | ⟨old,_⟩
      · have key : row.key = first.key := congrArg Prod.fst new
        exact absurd (List.mem_map.mpr ⟨now,later,same.symm.trans key⟩) apart
      · obtain ⟨before,member,alike⟩ := List.mem_map.mp old
        have key : before.key = row.key := congrArg Prod.fst alike
        have figures : before.row = row.row := congrArg Prod.snd alike
        rw [← figures]
        exact fits now later before member (key.trans same)
    obtain ⟨nodup,members⟩ := ih keys distinct' paired still fresh
    refine ⟨nodup,fun entry => ?_⟩
    rw [List.foldl_cons,members,entries,List.map_cons,List.mem_cons,List.map_cons,List.mem_cons,not_or]
    have own : entry = first.entry → entry.1 ∉ rest.map LedgerRow.key := by
      rintro rfl
      exact apart
    tauto

namespace Fold

variable {fold next : Fold} {gone more : List (String × Ledger)} {book later : Dict String Ledger}

/-- What the next fold can be carried at, this one could. -/
theorem Below.back (below : next.Below) (reached : Reached fold.sum next.sum) (processes : fold.processes ≤ next.processes) :
    fold.Below := by
  obtain ⟨input,output,total,cost,calls,unpriced,_⟩ := reached.totals
  refine ⟨⟨input.trans below.amounts.1,output.trans below.amounts.2.1,total.trans below.amounts.2.2.1,
    cost.trans below.amounts.2.2.2⟩,⟨calls.trans below.counts.1,unpriced.trans below.counts.2⟩,?_,processes.trans below.processes⟩
  intro row inside
  obtain ⟨now,found,within⟩ := reached.rows row inside
  exact within.trans (below.rows now (List.mem_of_find?_eq_some found))

theorem Booked.positive (booked : fold.Booked gone book) : 0 ≤ fold.sum.totals.input ∧ 0 ≤ fold.sum.totals.output ∧
    0 ≤ fold.sum.totals.total ∧ 0 ≤ fold.sum.totals.cost := by
  have raises : Dict.Raises Reached Dict.empty book := fun _ _ none => nomatch none
  obtain ⟨input,output,total,cost,_⟩ := (initial_booked.sum_reached booked raises).totals
  exact ⟨input,output,total,cost⟩

/-- A fold handed over stands in the meter as it is, if it can be carried. -/
theorem Booked.handed (booked : fold.Booked gone book) (booked' : next.Booked more later) (reached : Reached fold.sum next.sum)
    (processes : fold.processes ≤ next.processes) {run : RunMeter} (agree : run.held.Agree fold) (below : next.Below) :
    (run.setChildren next).held.Agree next := by
  obtain ⟨input,output,total,cost,calls,unpriced,_⟩ := reached.totals
  obtain ⟨input',output',total',cost'⟩ := booked'.positive
  have settled := booked'.calls
  have unresolved : next.sum.totals.unresolved ≤ maxSafeInteger :=
    le_trans (by omega) below.counts.1
  refine ⟨?_,?_,?_,?_,?_,?_,?_,?_,?_⟩
  · change max ((run.children.map fun held => held.totals.input).getD 0) (carry next.sum.totals.input) = _
    rw [run.held_getD (fun held => held.totals.input) 0 rfl,agree.input,max_carry input input' below.amounts.1]
  · change max ((run.children.map fun held => held.totals.output).getD 0) (carry next.sum.totals.output) = _
    rw [run.held_getD (fun held => held.totals.output) 0 rfl,agree.output,max_carry output output' below.amounts.2.1]
  · change max ((run.children.map fun held => held.totals.total).getD 0) (carry next.sum.totals.total) = _
    rw [run.held_getD (fun held => held.totals.total) 0 rfl,agree.total,max_carry total total' below.amounts.2.2.1]
  · change max ((run.children.map fun held => held.totals.cost).getD 0) (carry next.sum.totals.cost) = _
    rw [run.held_getD (fun held => held.totals.cost) 0 rfl,agree.cost,max_carry cost cost' below.amounts.2.2.2]
  · change max ((run.children.map fun held => held.totals.calls).getD 0) (carryCount next.sum.totals.calls) = _
    rw [run.held_getD (fun held => held.totals.calls) 0 rfl,agree.calls,max_carryCount calls below.counts.1]
  · exact min_eq_left unresolved
  · change max ((run.children.map fun held => held.totals.unpriced).getD 0) (carryCount next.sum.totals.unpriced) = _
    rw [run.held_getD (fun held => held.totals.unpriced) 0 rfl,agree.unpriced,max_carryCount unpriced below.counts.2]
  · change max ((run.children.map Children.processes).getD 0) (carryCount next.processes) = _
    rw [run.held_getD Children.processes 0 rfl,agree.processes,max_carryCount processes below.processes]
  · have shape : (run.setChildren next).held.rows = next.rows.foldl setRow run.held.rows := by
      change next.rows.foldl setRow ((run.children.map Children.rows).getD []) = _
      rw [run.held_getD Children.rows [] rfl]
    have listed : ∀ {row}, row ∈ next.rows ↔ row ∈ next.sum.rows := next.rows_perm.mem_iff
    have distinct' : (next.rows.map LedgerRow.key).Nodup := by
      rw [(next.rows_perm.map LedgerRow.key).nodup_iff]
      exact booked'.distinct
    have firsts : (LedgerRow.key : LedgerRow → String) = Prod.fst ∘ LedgerRow.entry := rfl
    have distinct : (run.held.rows.map LedgerRow.key).Nodup := by
      rw [firsts,← List.map_map,(agree.rows.map Prod.fst).nodup_iff,List.map_map]
      exact booked.distinct
    obtain ⟨nodup,members⟩ := setRows_entries distinct distinct'
      (fun row inside => (booked'.rows_fair row (listed.mp inside)).1) (by
        intro now inside row held same
        obtain ⟨before,member,alike⟩ := List.mem_map.mp (agree.rows.mem_iff.mp (List.mem_map_of_mem held))
        have key : before.key = row.key := congrArg Prod.fst alike
        have figures : before.row = row.row := congrArg Prod.snd alike
        obtain ⟨own,found,within⟩ := reached.rows before member
        have there := listed.mp inside
        rw [key,same,Meter.find_key booked'.distinct there] at found
        cases found
        rw [← figures]
        exact raiseRow_given within (booked'.rows_fair now there).2 (below.rows now there)) (by
        intro now inside
        have there := listed.mp inside
        have positive := (booked'.rows_fair now there).2
        exact raiseRow_given positive positive (below.rows now there))
    have entries : (next.rows.map LedgerRow.entry).Perm (next.sum.rows.map LedgerRow.entry) := next.rows_perm.map _
    rw [shape]
    refine ((List.perm_ext_iff_of_nodup ?_ ?_).mpr fun entry => ?_).trans entries
    · rw [firsts,← List.map_map] at nodup
      exact nodup.of_map
    · rw [firsts,← List.map_map] at distinct'
      exact distinct'.of_map
    · rw [members]
      refine or_iff_left_iff_imp.mpr fun ⟨old,absent⟩ => absurd ?_ absent
      obtain ⟨before,member,rfl⟩ := List.mem_map.mp (agree.rows.mem_iff.mp old)
      obtain ⟨now,found,_⟩ := reached.rows before member
      refine List.mem_map.mpr ⟨now,listed.mpr (List.mem_of_find?_eq_some found),?_⟩
      have same : now.key = before.key := by simpa using List.find?_some found
      exact same

end Fold

/-! The rows of the run and of its children, merged, ranked and cut. -/

private def rowsOf (entries : List (String × NamedRow)) : List Row := entries.map fun entry => entry.2.row

section Each
variable {good : AddSubmonoid Row}

private theorem landed_each {rows : List (String × NamedRow)} (provider model : String) {row : Row} (own : row ∈ good)
    (each : ∀ entry ∈ rows, entry.2.row ∈ good) : ∀ entry ∈ Meter.landed rows provider model row, entry.2.row ∈ good := by
  intro entry inside
  unfold Meter.landed at inside
  dsimp only at inside
  split at inside
  · obtain ⟨before,there,rfl⟩ := List.mem_map.mp inside
    split
    · exact good.add_mem (each before there) own
    · exact each before there
  · rcases List.mem_append.mp inside with there | last
    · exact each entry there
    · rw [List.mem_singleton.mp last]
      exact good.add_mem good.zero_mem own

/-- Named rows and the rest, each of a kind that sums keep. -/
def Among (good : AddSubmonoid Row) (merged : List (String × NamedRow) × Row) : Prop :=
  merged.2 ∈ good ∧ ∀ entry ∈ merged.1, entry.2.row ∈ good

private theorem children_among {merged : List (String × NamedRow) × Row} {rows : List LedgerRow}
    (own : ∀ row ∈ rows, row.row ∈ good) (among : Among good merged) : Among good (rows.foldl mergeChild merged) := by
  refine List.foldlRecOn (motive := Among good) rows mergeChild among fun merged among row inside => ?_
  unfold mergeChild
  split
  · exact ⟨among.1,landed_each _ _ (own row inside) among.2⟩
  · exact ⟨good.add_mem among.1 (own row inside),among.2⟩

end Each

/-- The named rows and the rest, with what they sum to. -/
private structure Merged (merged : List (String × NamedRow) × Row) (sum : Row) : Prop where
  distinct : (merged.1.map Prod.fst).Nodup
  sum : merged.2 + (rowsOf merged.1).sum = sum

private theorem Merged.child {merged : List (String × NamedRow) × Row} {sum : Row} (held : Merged merged sum) (row : LedgerRow) :
    Merged (mergeChild merged row) (sum + row.row) := by
  unfold mergeChild
  split
  next provider model _ _ =>
    refine ⟨?_,?_⟩
    · dsimp only
      rw [Meter.landed_keys]
      split
      · exact held.distinct
      next fresh =>
        refine List.nodup_append.mpr ⟨held.distinct,List.nodup_singleton _,?_⟩
        intro key inside other last same
        obtain ⟨entry,member,rfl⟩ := List.mem_map.mp inside
        rw [List.mem_singleton.mp last] at same
        exact fresh (List.any_eq_true.mpr ⟨entry,member,decide_eq_true same⟩)
    · have landed := Meter.landed_folded provider model row.row merged.2 held.distinct
      rw [folded_sum,folded_sum] at landed
      rw [← held.sum]
      exact landed
  · refine ⟨held.distinct,?_⟩
    rw [← held.sum]
    exact add_right_comm merged.2 row.row _

private theorem Merged.children {merged : List (String × NamedRow) × Row} {sum : Row} (held : Merged merged sum)
    (rows : List LedgerRow) : Merged (rows.foldl mergeChild merged) (sum + sumRows rows) := by
  induction rows generalizing merged sum with
  | nil =>
    rw [show sumRows [] = 0 from rfl,add_zero]
    exact held
  | cons row rows ih =>
    have next := ih (held.child row)
    rw [sumRows_cons]
    change Merged _ (sum + (row.row + sumRows rows))
    rw [← add_assoc]
    exact next

/-- What the rows of a block sum to. -/
def UsageBlock.sum (block : UsageBlock) : Row := folded emptyRow (block.models.map NamedRow.row)

namespace RunMeter
variable {run : RunMeter}

/-- The rows that are listed by name, the largest, and beside them one at most for the others. -/
structure Cut (run : RunMeter) (block : UsageBlock) (listed rest : List NamedRow) (bucket : List NamedRow) : Prop where
  models : block.models = listed ++ bucket
  named : (listed ++ rest).Perm (run.merged.1.map Prod.snd)
  eight : listed.length = min MAX_NAMED_ROWS run.merged.1.length
  one : bucket.length ≤ 1
  truncated : block.truncated = rest.length
  largest : ∀ first ∈ listed, ∀ second ∈ rest, second.row.total ≤ first.row.total

theorem named_perm (run : RunMeter) : run.named.Perm (run.merged.1.map Prod.snd) := List.mergeSort_perm _ _

private theorem named_sorted (run : RunMeter) :
    run.named.Pairwise fun first second => second.row.total ≤ first.row.total := by
  have sorted := @List.pairwise_mergeSort _ largestFirst (by
    intro first second third one two
    unfold largestFirst at one two ⊢
    simp only [decide_eq_true_eq] at one two ⊢
    exact le_trans two one) (by
    intro first second
    unfold largestFirst
    simp only [Bool.or_eq_true,decide_eq_true_eq]
    exact le_total _ _) (run.merged.1.map Prod.snd)
  exact sorted.imp fun first => of_decide_eq_true first

theorem usageSnapshot_told {block : UsageBlock} (told : run.usageSnapshot = some block) :
    block = ⟨1,run.piAiVersion,(run.named.drop MAX_NAMED_ROWS).length,
      run.named.take MAX_NAMED_ROWS ++ if 0 < run.overflow.calls then [⟨"other","other",run.overflow⟩] else []⟩ := by
  unfold usageSnapshot at told
  split at told
  · cases told
  · exact (Option.some.inj told).symm

theorem usageSnapshot_cut {block : UsageBlock} (told : run.usageSnapshot = some block) :
    ∃ listed rest bucket, run.Cut block listed rest bucket := by
  rw [usageSnapshot_told told]
  refine ⟨run.named.take MAX_NAMED_ROWS,run.named.drop MAX_NAMED_ROWS,_,⟨rfl,?_,?_,?_,rfl,?_⟩⟩
  · rw [List.take_append_drop]
    exact run.named_perm
  · rw [List.length_take,run.named_perm.length_eq,List.length_map]
  · split
    · exact le_refl _
    · exact Nat.zero_le _
  · have sorted := run.named_sorted
    rw [← List.take_append_drop MAX_NAMED_ROWS run.named] at sorted
    exact (List.pairwise_append.mp sorted).2.2

theorem Cut.few {block : UsageBlock} {listed rest bucket : List NamedRow} (cut : run.Cut block listed rest bucket) :
    block.models.length ≤ 9 := by
  have eight := cut.eight
  have one := cut.one
  rw [cut.models,List.length_append]
  unfold MAX_NAMED_ROWS at eight
  omega

private theorem overflow_sum (run : RunMeter) :
    run.overflow = run.merged.2 + ((run.named.drop MAX_NAMED_ROWS).map NamedRow.row).sum := by
  rw [← folded_sum]
  unfold overflow folded
  rw [List.foldl_map]

/-- The rows of a block and what is left out with no calls. -/
private theorem block_sum {block : UsageBlock} (told : run.usageSnapshot = some block) :
    block.sum + (if 0 < run.overflow.calls then 0 else run.overflow) = run.merged.2 + (rowsOf run.merged.1).sum := by
  have all : (rowsOf run.merged.1).sum = (run.named.map NamedRow.row).sum := by
    rw [(run.named_perm.map NamedRow.row).sum_eq,List.map_map]
    rfl
  rw [all,← List.take_append_drop MAX_NAMED_ROWS run.named,List.map_append,List.sum_append,add_left_comm,← overflow_sum]
  rw [usageSnapshot_told told]
  unfold UsageBlock.sum
  rw [folded_sum,show emptyRow = (0 : Row) from rfl,zero_add,List.map_append,List.sum_append,add_assoc]
  congr 1
  split
  · rw [List.map_singleton,List.sum_singleton,add_zero]
  · rw [List.map_nil,List.sum_nil,zero_add]

theorem merged_held (run : RunMeter) : run.merged = run.held.rows.foldl mergeChild (run.meter.byModel,run.meter.other) := by
  unfold merged
  rw [run.held_getD Children.rows [] rfl]

theorem merged_among {good : AddSubmonoid Row} (own : Among good (run.meter.byModel,run.meter.other))
    (held : ∀ row ∈ run.held.rows, row.row ∈ good) : Among good run.merged := by
  rw [merged_held]
  exact children_among held own

theorem overflow_among {good : AddSubmonoid Row} (among : Among good run.merged) : run.overflow ∈ good := by
  rw [overflow_sum]
  refine good.add_mem among.1 (good.list_sum_mem ?_)
  intro row inside
  obtain ⟨named,member,rfl⟩ := List.mem_map.mp inside
  obtain ⟨entry,there,rfl⟩ := List.mem_map.mp (run.named_perm.mem_iff.mp (List.mem_of_mem_drop member))
  exact among.2 entry there

end RunMeter

/-! Runs. -/

private def Meter.Split (meter : Meter) : Prop := meter.rootTotal + meter.otherTotal + meter.looseTotal = meter.total

private theorem shared (own : Prop) [Decidable own] (named : Bool) (share : Rat) : (if own then share else 0) +
    (if ¬own ∧ named = true then share else 0) + (if ¬own ∧ named = false then share else 0) = share := by
  by_cases mine : own
  · simp [mine]
  · cases named
    · simp [mine]
    · simp [mine]

private theorem record_split {meter : Meter} (split : meter.Split) (root : Option String) (usage : Option Usage)
    (ctx : CallContext) : (meter.record root usage ctx).Split := by
  have share := shared (root.isSome = true ∧ Meter.named ctx.sessionId = root) (Meter.named ctx.sessionId).isSome
    (Meter.rowOf usage).total
  unfold Meter.Split at split
  unfold Meter.record
  dsimp only
  split
  all_goals
    unfold Meter.Split
    dsimp only
    rw [← split]
    linarith

private theorem settle_split {meter : Meter} (split : meter.Split) (root : Option String) (ctx : CallContext)
    (settled : Meter.Settled) : (meter.settle root ctx settled).Split := by
  have pending : Meter.Split { meter with unresolved := meter.unresolved - 1 } := split
  unfold Meter.settle
  cases settled with
  | message message forwarded =>
    refine record_split ?_ root _ ctx
    unfold Meter.judgeUsage
    split
    · exact pending
    · split
      · exact pending
      · exact pending
  | rejected => exact record_split pending root none ctx
  | counted => exact record_split pending root _ ctx

namespace RunState
variable (figures : Figures)

/-- What holds of a run at every moment; `given` is what holds of every ledger that a fold could read. -/
private structure Sound (given : Ledger → Prop) (state : RunState) : Prop where
  whole : state.run.meter.Whole
  split : state.run.meter.Split
  booked : ∃ gone book, state.fold.Booked gone book ∧ ∀ mark ∈ book.values, given mark
  agree : state.fold.Below → state.run.held.Agree state.fold

private theorem initial_sound (given : Ledger → Prop) : Sound given .initial := by
  refine ⟨Meter.initial_whole,by change (0 : Rat) + 0 + 0 = 0; norm_num,⟨[],.empty,Fold.initial_booked,fun _ none => absurd none List.not_mem_nil⟩,fun _ => ?_⟩
  exact ⟨rfl,rfl,rfl,rfl,rfl,rfl,rfl,rfl,.refl _⟩

/-- What holds of every ledger that a step could read. -/
def Reads (given : Ledger → Prop) (act : RunAct) : Prop :=
  match act with
  | .children tick => ∀ mark, Yields figures tick mark → given mark
  | _ => True

private theorem sound_kept {given : Ledger → Prop} {state : RunState} (sound : state.Sound given) (root : Option String)
    {act : RunAct} (reads : Reads figures given act) : (step figures root state act).Sound given := by
  obtain ⟨whole,split,booked,agree⟩ := sound
  cases act with
  | observe seen =>
    unfold RunState.step RunMeter.step
    dsimp only
    split
    · exact ⟨whole,split,booked,agree⟩
    · exact ⟨Meter.observe_whole whole seen,split,booked,agree⟩
  | settle ctx settled =>
    unfold RunState.step RunMeter.step
    dsimp only
    split
    · exact ⟨whole,split,booked,agree⟩
    next pending =>
      exact ⟨Meter.settle_whole whole (Nat.pos_of_ne_zero pending) root ctx settled,settle_split split root ctx settled,booked,
        agree⟩
  | children tick =>
    obtain ⟨gone,book,booked,marks⟩ := booked
    obtain ⟨more,later,booked',raises,each⟩ := booked.next figures tick
    have remembers := booked.remembers figures tick
    refine ⟨whole,split,⟨_,_,booked',?_⟩,fun below => ?_⟩
    · intro mark inside
      rcases each mark inside with held | read
      · exact marks mark held
      · exact reads mark read
    · exact booked.handed booked' remembers.sum remembers.processes (agree (below.back remembers.sum remembers.processes)) below
  | version version =>
    unfold RunState.step RunMeter.step RunMeter.setPiAiVersion
    dsimp only
    split <;> exact ⟨whole,split,booked,agree⟩

private theorem sound_after {given : Ledger → Prop} (root : Option String) (acts : List RunAct)
    (reads : ∀ act ∈ acts, Reads figures given act) : (acts.foldl (step figures root) .initial).Sound given := by
  refine List.foldlRecOn (motive := Sound given) acts (step figures root) (initial_sound given) ?_
  exact fun state sound act inside => sound_kept figures sound root (reads act inside)

/-- What the rows of the run and of its children sum to. -/
private theorem Sound.merged {given : Ledger → Prop} {state : RunState} (sound : state.Sound given) (below : state.fold.Below) :
    state.run.merged.2 + (rowsOf state.run.merged.1).sum = state.run.meter.recorded + sumRows state.fold.sum.rows := by
  have own : Merged (state.run.meter.byModel,state.run.meter.other) state.run.meter.recorded := by
    refine ⟨sound.whole.distinct,?_⟩
    unfold Meter.recorded
    rw [folded_sum]
    rfl
  have all := own.children state.run.held.rows
  have same : sumRows state.run.held.rows = sumRows state.fold.sum.rows := by
    have entries := ((sound.agree below).rows.map Prod.snd).sum_eq
    rw [List.map_map,List.map_map] at entries
    rw [sumRows_eq,sumRows_eq]
    exact entries
  rw [same] at all
  rw [state.run.merged_held]
  exact all.sum

/-- The totals of a run, from its own meter and its children. -/
theorem run_told (run : RunMeter) : run.snapshot.input = run.meter.input + run.held.totals.input ∧
    run.snapshot.output = run.meter.output + run.held.totals.output ∧
    run.snapshot.total = run.meter.total + run.held.totals.total ∧
    run.snapshot.cost = run.meter.cost + run.held.totals.cost ∧
    run.snapshot.calls = run.meter.calls + run.held.totals.calls ∧
    run.snapshot.unresolved = run.meter.unresolved + run.held.totals.unresolved ∧
    run.snapshot.unpriced = run.meter.unpriced + run.held.totals.unpriced ∧
    run.snapshot.childTotal.getD 0 = run.held.totals.total ∧ run.snapshot.childProcesses.getD 0 = run.held.processes := by
  unfold RunMeter.snapshot RunMeter.held
  cases run.children with
  | none => exact ⟨rfl,rfl,rfl,rfl,rfl,rfl,rfl,rfl,rfl⟩
  | some held => exact ⟨rfl,rfl,rfl,rfl,rfl,rfl,rfl,rfl,rfl⟩

def Counted (mark : Ledger) : Prop := ∀ row ∈ mark.rows, row.row.Counted

/-- A ledger whose rows sum to its totals exactly. -/
def Exact (mark : Ledger) : Prop := ∀ column ∈ columns, mark.Matches column

/-- The amounts of the rows against those of the totals. -/
def Amounts (related : Rat → Rat → Prop) (sum : Row) (told : Snapshot) : Prop :=
  related sum.input told.input ∧ related sum.output told.output ∧ related sum.total told.total ∧ related sum.cost told.cost

private theorem near_own {files more : Nat} {own rows totals : Rat} (few : files ≤ more) (positive : 0 ≤ own)
    (near : Near files rows totals) : Near more (own + rows) (own + totals) := by
  unfold Near at near ⊢
  have few : (files : Rat) ≤ more := Nat.cast_le.mpr few
  rw [add_sub_add_left_eq_sub]
  linarith

private theorem recorded_positive {meter : Meter} (whole : meter.Whole) : meter.recorded.Positive := by
  refine whole.other.trans (folded_grows meter.other fun row inside => ?_)
  obtain ⟨entry,member,rfl⟩ := List.mem_map.mp inside
  exact (whole.named entry member).2.1

private theorem Sound.told {given : Ledger → Prop} {state : RunState} (sound : state.Sound given) (below : state.fold.Below) :
    let own := state.run.meter.recorded
    let sum := state.fold.sum
    state.run.snapshot.input = own.input + sum.totals.input ∧ state.run.snapshot.output = own.output + sum.totals.output ∧
    state.run.snapshot.total = own.total + sum.totals.total ∧ state.run.snapshot.cost = own.cost + sum.totals.cost ∧
    state.run.snapshot.calls = own.calls + (sumRows sum.rows).calls + state.run.snapshot.unresolved ∧
    state.run.snapshot.unpriced = own.unpriced + (sumRows sum.rows).unpriced ∧
    state.run.snapshot.childProcesses.getD 0 = state.fold.processes := by
  obtain ⟨gone,book,booked,_⟩ := sound.booked
  have agree := sound.agree below
  have whole := sound.whole
  have settled := booked.calls
  have calls := whole.calls
  obtain ⟨input,output,total,cost,all,unresolved,unpriced,_,processes⟩ := run_told state.run
  rw [agree.calls] at all
  rw [agree.unresolved] at unresolved
  refine ⟨?_,?_,?_,?_,?_,?_,processes.trans agree.processes⟩
  · rw [input,agree.input,whole.input]
  · rw [output,agree.output,whole.output]
  · rw [total,agree.total,whole.total]
  · rw [cost,agree.cost,whole.cost]
  · omega
  · rw [unpriced,agree.unpriced,whole.unpriced,booked.unpriced]

/-- The rows of a block, when nothing is left out of them. -/
private theorem Sound.block {state : RunState} (sound : state.Sound Counted) (below : state.fold.Below) {block : UsageBlock}
    (told : state.run.usageSnapshot = some block) :
    block.sum = state.run.meter.recorded + sumRows state.fold.sum.rows := by
  obtain ⟨gone,book,booked,marks⟩ := sound.booked
  have kept := @Fold.Booked.each _ _ _ booked (fun row => row.row.Counted) (fun _ _ => .add) marks
  have parts := RunMeter.block_sum told
  have among : Among countedRows state.run.merged := by
    refine RunMeter.merged_among ⟨sound.whole.idle,?_⟩ ?_
    · intro entry inside none
      exact absurd none (Nat.ne_of_gt (sound.whole.named entry inside).2.2)
    · intro row inside
      obtain ⟨own,member,alike⟩ := List.mem_map.mp ((sound.agree below).rows.mem_iff.mp (List.mem_map_of_mem inside))
      have figures : own.row = row.row := congrArg Prod.snd alike
      rw [← figures]
      exact kept own member
  have empty : (if 0 < state.run.overflow.calls then 0 else state.run.overflow) = 0 := by
    split
    · rfl
    next none => exact RunMeter.overflow_among among (Nat.eq_zero_of_not_pos none)
  rw [empty,add_zero] at parts
  rw [parts]
  exact sound.merged below

private theorem Sound.amounts {given : Ledger → Prop} {state : RunState} (sound : state.Sound given)
    (below : state.fold.Below) {related : Rat → Rat → Prop} (each : ∀ column ∈ columns, related
      (column.row state.run.meter.recorded + column.row (sumRows state.fold.sum.rows))
      (column.row state.run.meter.recorded + column.totals state.fold.sum.totals)) :
    Amounts related (state.run.meter.recorded + sumRows state.fold.sum.rows) state.run.snapshot := by
  obtain ⟨input,output,total,cost,_⟩ := sound.told below
  unfold Amounts
  rw [input,output,total,cost]
  unfold columns at each
  simp only [List.forall_mem_cons] at each
  exact ⟨each.1,each.2.1,each.2.2.1,each.2.2.2.1⟩

def rejectedCall : CallContext :=
  ⟨some "root",some "anthropic",some "opus",⟨"anthropic","opus","messages",none,.undefined,.undefined,false⟩⟩

private def oneCall : List RunAct := [.observe (some 0),.settle rejectedCall .rejected]

private theorem oneCall_below : (oneCall.foldl (step naturals (some "root")) .initial).fold.Below := by
  have positive : (0 : Rat) ≤ maxSafeInteger := Nat.cast_nonneg _
  exact ⟨⟨positive,positive,positive,positive⟩,⟨Nat.zero_le _,Nat.zero_le _⟩,List.forall_mem_nil _,Nat.zero_le _⟩

end RunState

end PiDispatch.UsageMeter
