import PiDispatch.ChildLedger
import PiDispatch.LedgerRows

/-! What holds of every ledger that a parent reads, whoever wrote it: its rows are of distinct keys, none has a figure
below zero, and they partition its totals as far as the check goes. -/
namespace PiDispatch.UsageMeter
open Kernel JsonText Utf16

/-! Merged rows. -/

theorem mergeRow_cases (rows : List LedgerRow) (row : LedgerRow) :
    (row.key ∈ rows.map LedgerRow.key ∧ mergeRow rows row =
      rows.map fun held => if held.key = row.key then { held with row := foldRow held.row row.row } else held) ∨
    (row.key ∉ rows.map LedgerRow.key ∧ mergeRow rows row = rows ++ [row]) := by
  unfold mergeRow
  split
  next found =>
    obtain ⟨held,inside,same⟩ := List.any_eq_true.mp found
    exact .inl ⟨List.mem_map.mpr ⟨held,inside,of_decide_eq_true same⟩,rfl⟩
  next fresh =>
    refine .inr ⟨fun present => fresh ?_,rfl⟩
    obtain ⟨held,inside,same⟩ := List.mem_map.mp present
    exact List.any_eq_true.mpr ⟨held,inside,decide_eq_true same⟩

private theorem folded_key (held : LedgerRow) (key : String) (row : Row) :
    (if held.key = key then { held with row := foldRow held.row row } else held : LedgerRow).key = held.key := by
  split
  · rfl
  · rfl

theorem mergeRow_keys (rows : List LedgerRow) (row : LedgerRow) : (mergeRow rows row).map LedgerRow.key =
    if row.key ∈ rows.map LedgerRow.key then rows.map LedgerRow.key else rows.map LedgerRow.key ++ [row.key] := by
  rcases mergeRow_cases rows row with ⟨present,shape⟩ | ⟨fresh,shape⟩
  · rw [shape,if_pos present,List.map_map]
    exact List.map_congr_left fun held _ => folded_key held row.key row.row
  · rw [shape,if_neg fresh,List.map_append]
    rfl

theorem mergeRow_distinct {rows : List LedgerRow} (distinct : (rows.map LedgerRow.key).Nodup) (row : LedgerRow) :
    ((mergeRow rows row).map LedgerRow.key).Nodup := by
  rw [mergeRow_keys]
  split
  · exact distinct
  next fresh =>
    refine List.nodup_append.mpr ⟨distinct,List.nodup_singleton _,?_⟩
    intro key inside last member same
    rw [List.mem_singleton.mp member] at same
    exact fresh (same ▸ inside)

theorem merged_distinct {held : List LedgerRow} (distinct : (held.map LedgerRow.key).Nodup) (rows : List LedgerRow) :
    ((rows.foldl mergeRow held).map LedgerRow.key).Nodup := by
  induction rows generalizing held with
  | nil => exact distinct
  | cons row rest ih => exact ih (mergeRow_distinct distinct row)

/-- The sum of the rows of a key. -/
def rowAt (key : String) (rows : List LedgerRow) : Row := sumRows (rows.filter fun row => row.key = key)

theorem rowAt_append (key : String) (first second : List LedgerRow) :
    rowAt key (first ++ second) = foldRow (rowAt key first) (rowAt key second) := by
  unfold rowAt
  rw [List.filter_append,sumRows_append]

theorem sumRows_cons (row : LedgerRow) (rows : List LedgerRow) : sumRows (row :: rows) = foldRow row.row (sumRows rows) := by
  have both := sumRows_append [row] rows
  have one : sumRows [row] = row.row := empty_foldRow _
  rw [one] at both
  exact both

private theorem changed_other {rows : List LedgerRow} {key : String} (row : Row) (absent : key ∉ rows.map LedgerRow.key) :
    (rows.map fun held => if held.key = key then { held with row := foldRow held.row row } else held) = rows := by
  have same : ∀ held ∈ rows, (if held.key = key then { held with row := foldRow held.row row } else held : LedgerRow) = held := by
    intro held inside
    exact if_neg fun equal => absent (List.mem_map.mpr ⟨held,inside,equal⟩)
  rw [List.map_congr_left same,List.map_id']

/-- A merged row joins the one of its key, and no other changes. -/
theorem mergeRow_split {rows : List LedgerRow} (distinct : (rows.map LedgerRow.key).Nodup) (row : LedgerRow) :
    (∃ before held later, rows = before ++ held :: later ∧ held.key = row.key ∧
      mergeRow rows row = before ++ { held with row := foldRow held.row row.row } :: later) ∨
    (row.key ∉ rows.map LedgerRow.key ∧ mergeRow rows row = rows ++ [row]) := by
  rcases mergeRow_cases rows row with ⟨present,shape⟩ | fresh
  · obtain ⟨held,inside,same⟩ := List.mem_map.mp present
    obtain ⟨before,later,split⟩ := List.append_of_mem inside
    rw [split,List.map_append,List.map_cons,same] at distinct
    obtain ⟨_,tail,apart⟩ := List.nodup_append.mp distinct
    obtain ⟨once,_⟩ := List.nodup_cons.mp tail
    have first : row.key ∉ before.map LedgerRow.key := fun there => apart _ there _ List.mem_cons_self rfl
    refine .inl ⟨before,held,later,split,same,?_⟩
    rw [shape,split,List.map_append,List.map_cons,changed_other row.row first,changed_other row.row once,if_pos same]
  · exact .inr fresh

theorem rowAt_cons (key : String) (row : LedgerRow) (rows : List LedgerRow) :
    rowAt key (row :: rows) = foldRow (if row.key = key then row.row else emptyRow) (rowAt key rows) := by
  unfold rowAt
  by_cases same : row.key = key
  · rw [List.filter_cons_of_pos (by simpa using same),sumRows_cons,if_pos same]
  · rw [List.filter_cons_of_neg (by simpa using same),if_neg same,empty_foldRow]

theorem rowAt_absent {key : String} {rows : List LedgerRow} (absent : key ∉ rows.map LedgerRow.key) :
    rowAt key rows = emptyRow := by
  unfold rowAt
  rw [List.filter_eq_nil_iff.mpr]
  · rfl
  · intro row inside same
    exact absent (List.mem_map.mpr ⟨row,inside,by simpa using same⟩)

theorem rowAt_own {rows : List LedgerRow} (distinct : (rows.map LedgerRow.key).Nodup) {row : LedgerRow} (inside : row ∈ rows) :
    rowAt row.key rows = row.row := by
  obtain ⟨before,later,split⟩ := List.append_of_mem inside
  rw [split,List.map_append,List.map_cons] at distinct
  obtain ⟨_,tail,apart⟩ := List.nodup_append.mp distinct
  have first : row.key ∉ before.map LedgerRow.key := fun there => apart _ there _ List.mem_cons_self rfl
  rw [split,rowAt_append,rowAt_cons,rowAt_absent first,rowAt_absent (List.nodup_cons.mp tail).1,if_pos rfl,empty_foldRow,
    foldRow_empty]

theorem rowAt_merge {rows : List LedgerRow} (distinct : (rows.map LedgerRow.key).Nodup) (key : String) (row : LedgerRow) :
    rowAt key (mergeRow rows row) = foldRow (rowAt key rows) (rowAt key [row]) := by
  rcases mergeRow_split distinct row with ⟨before,held,later,split,same,shape⟩ | ⟨_,shape⟩
  · rw [shape,split,rowAt_append,rowAt_append,rowAt_cons,rowAt_cons,rowAt_cons]
    have none : rowAt key [] = emptyRow := rfl
    have joined : ({ held with row := foldRow held.row row.row } : LedgerRow).key = row.key := same
    rw [none,foldRow_empty]
    by_cases here : row.key = key
    · rw [if_pos (joined.trans here),if_pos (same.trans here),if_pos here,foldRow_assoc,foldRow_assoc,foldRow_assoc,
        foldRow_comm row.row]
    · rw [if_neg fun own => here (joined.symm.trans own),if_neg fun own => here (same.symm.trans own),if_neg here,foldRow_empty]
  · rw [shape,rowAt_append]

theorem sumRows_merge {rows : List LedgerRow} (distinct : (rows.map LedgerRow.key).Nodup) (row : LedgerRow) :
    sumRows (mergeRow rows row) = foldRow (sumRows rows) row.row := by
  rcases mergeRow_split distinct row with ⟨before,held,later,split,_,shape⟩ | ⟨_,shape⟩
  · rw [shape,split,sumRows_append,sumRows_append,sumRows_cons,sumRows_cons,foldRow_assoc,foldRow_assoc,foldRow_assoc,
      foldRow_comm row.row]
  · rw [shape,sumRows_append,sumRows_cons]
    congr 1
    exact foldRow_empty _

theorem rowAt_merged {held : List LedgerRow} (distinct : (held.map LedgerRow.key).Nodup) (key : String)
    (rows : List LedgerRow) : rowAt key (rows.foldl mergeRow held) = foldRow (rowAt key held) (rowAt key rows) := by
  induction rows generalizing held with
  | nil => exact (foldRow_empty _).symm
  | cons row rest ih =>
    have split := rowAt_append key [row] rest
    rw [List.singleton_append] at split
    rw [List.foldl_cons,ih (mergeRow_distinct distinct row),rowAt_merge distinct,split,foldRow_assoc]

theorem sumRows_merged {held : List LedgerRow} (distinct : (held.map LedgerRow.key).Nodup) (rows : List LedgerRow) :
    sumRows (rows.foldl mergeRow held) = foldRow (sumRows held) (sumRows rows) := by
  induction rows generalizing held with
  | nil => exact (foldRow_empty _).symm
  | cons row rest ih =>
    rw [List.foldl_cons,ih (mergeRow_distinct distinct row),sumRows_merge distinct,sumRows_cons,foldRow_assoc]

theorem mem_merged_keys (held rows : List LedgerRow) (key : String) :
    key ∈ (rows.foldl mergeRow held).map LedgerRow.key ↔ key ∈ held.map LedgerRow.key ∨ key ∈ rows.map LedgerRow.key := by
  induction rows generalizing held with
  | nil => simp
  | cons row rest ih =>
    rw [List.foldl_cons,ih,mergeRow_keys,List.map_cons,List.mem_cons]
    split
    next present =>
      constructor
      · rintro (inside | inside)
        · exact .inl inside
        · exact .inr (.inr inside)
      · rintro (inside | rfl | inside)
        · exact .inl inside
        · exact .inl present
        · exact .inr inside
    · rw [List.mem_append,List.mem_singleton,or_assoc]

theorem merged_each {good : LedgerRow → Prop} (joined : ∀ held row : LedgerRow, good held → good row →
      good { held with row := foldRow held.row row.row }) {held rows : List LedgerRow} (first : ∀ row ∈ held, good row)
    (second : ∀ row ∈ rows, good row) : ∀ row ∈ rows.foldl mergeRow held, good row := by
  induction rows generalizing held with
  | nil => exact first
  | cons row rest ih =>
    have own := second row List.mem_cons_self
    refine ih ?_ fun other inside => second other (List.mem_cons_of_mem _ inside)
    intro other inside
    rcases mergeRow_cases held row with ⟨_,shape⟩ | ⟨_,shape⟩
    · rw [shape] at inside
      obtain ⟨old,member,rfl⟩ := List.mem_map.mp inside
      split
      · exact joined old row (first old member) own
      · exact first old member
    · rw [shape] at inside
      rcases List.mem_append.mp inside with old | last
      · exact first other old
      · rw [List.mem_singleton.mp last]
        exact own

/-! What the reader lets through. -/

/-- What a ledger that its parent reads keeps to. -/
structure Ledger.Fair (ledger : Ledger) : Prop where
  unresolved : ledger.totals.unresolved ≤ ledger.totals.calls
  calls : (sumRows ledger.rows).calls = ledger.totals.calls - ledger.totals.unresolved
  unpriced : (sumRows ledger.rows).unpriced = ledger.totals.unpriced
  input : agrees (sumRows ledger.rows).input ledger.totals.input = true
  output : agrees (sumRows ledger.rows).output ledger.totals.output = true
  total : agrees (sumRows ledger.rows).total ledger.totals.total = true
  cost : agrees (sumRows ledger.rows).cost ledger.totals.cost = true
  totals : 0 ≤ ledger.totals.input ∧ 0 ≤ ledger.totals.output ∧ 0 ≤ ledger.totals.total ∧ 0 ≤ ledger.totals.cost
  keys : (ledger.rows.map LedgerRow.key).Nodup
  rows : ∀ row ∈ ledger.rows, row.Recordable ∧ row.row.Positive
  spent : 0 ≤ ledger.spentMicros ∧ ledger.spentMicros ≤ maxSafeInteger
  inflight : 0 ≤ ledger.inflightMicros ∧ ledger.inflightMicros ≤ maxSafeInteger

section Read
variable {figures : Figures}

private theorem amount_positive {value : Option (JsonValue figures.Value)} {given : Rat}
    (read : amount figures value = some given) : 0 ≤ given := by
  unfold amount at read
  split at read
  · obtain ⟨_,within⟩ := Option.filter_eq_some_iff.mp read
    exact (of_decide_eq_true within).1
  · cases read

private theorem whole_safe {value : Option (JsonValue figures.Value)} {given : Nat} (read : whole figures value = some given) :
    (given : Int) ≤ maxSafeInteger := by
  unfold whole at read
  split at read
  · split at read
    next number safe =>
      cases read
      exact figures.safe_within _ _ safe
    · cases read
  · cases read

private theorem rowIds_recordable {given : JsonValue figures.Value} {ids : Option String × Option String} (row : Row)
    (read : rowIds figures given = some ids) : (⟨ids.1,ids.2,row⟩ : LedgerRow).Recordable := by
  unfold rowIds at read
  split at read
  · cases read
    exact .inl ⟨rfl,rfl⟩
  · split at read
    next both =>
      cases read
      exact .inr ⟨_,_,rfl,rfl,both⟩
    · cases read
  · cases read

private theorem parseRow_fair {given : JsonValue figures.Value} {row : LedgerRow} (read : parseRow figures given = some row) :
    row.Recordable ∧ row.row.Positive := by
  unfold parseRow at read
  split at read
  · cases read
  obtain ⟨ids,named,read⟩ := Option.bind_eq_some_iff.mp read
  obtain ⟨input,a1,read⟩ := Option.bind_eq_some_iff.mp read
  obtain ⟨output,a2,read⟩ := Option.bind_eq_some_iff.mp read
  obtain ⟨cacheRead,a3,read⟩ := Option.bind_eq_some_iff.mp read
  obtain ⟨cacheWrite,a4,read⟩ := Option.bind_eq_some_iff.mp read
  obtain ⟨cacheWrite1h,a5,read⟩ := Option.bind_eq_some_iff.mp read
  obtain ⟨reasoning,a6,read⟩ := Option.bind_eq_some_iff.mp read
  obtain ⟨total,a7,read⟩ := Option.bind_eq_some_iff.mp read
  obtain ⟨cost,a8,read⟩ := Option.bind_eq_some_iff.mp read
  obtain ⟨calls,_,read⟩ := Option.bind_eq_some_iff.mp read
  obtain ⟨unpriced,_,read⟩ := Option.bind_eq_some_iff.mp read
  obtain ⟨providerBilled,_,read⟩ := Option.bind_eq_some_iff.mp read
  cases read
  exact ⟨rowIds_recordable _ named,Nat.zero_le _,amount_positive a1,amount_positive a2,amount_positive a3,
    amount_positive a4,amount_positive a5,amount_positive a6,amount_positive a7,amount_positive a8,Nat.zero_le _,
    Nat.zero_le _⟩

private theorem parseTotals_fair {given : JsonValue figures.Value} {totals : LedgerTotals}
    (read : parseTotals figures given = some totals) : totals.unresolved ≤ totals.calls ∧
      0 ≤ totals.input ∧ 0 ≤ totals.output ∧ 0 ≤ totals.total ∧ 0 ≤ totals.cost := by
  unfold parseTotals at read
  split at read
  · cases read
  obtain ⟨input,a1,read⟩ := Option.bind_eq_some_iff.mp read
  obtain ⟨output,a2,read⟩ := Option.bind_eq_some_iff.mp read
  obtain ⟨total,a3,read⟩ := Option.bind_eq_some_iff.mp read
  obtain ⟨cost,a4,read⟩ := Option.bind_eq_some_iff.mp read
  obtain ⟨calls,_,read⟩ := Option.bind_eq_some_iff.mp read
  obtain ⟨unresolved,_,read⟩ := Option.bind_eq_some_iff.mp read
  obtain ⟨unpriced,_,read⟩ := Option.bind_eq_some_iff.mp read
  obtain ⟨sessions,_,read⟩ := Option.bind_eq_some_iff.mp read
  split at read
  · cases read
  next enough =>
    cases read
    exact ⟨Nat.le_of_not_lt enough,amount_positive a1,amount_positive a2,amount_positive a3,amount_positive a4⟩

private theorem mapM_each {items : List (JsonValue figures.Value)} {rows : List LedgerRow}
    (read : items.mapM (parseRow figures) = some rows) : ∀ row ∈ rows, row.Recordable ∧ row.row.Positive := by
  induction items generalizing rows with
  | nil =>
    cases read
    exact fun row none => absurd none List.not_mem_nil
  | cons item rest ih =>
    rw [List.mapM_cons] at read
    obtain ⟨row,own,read⟩ := Option.bind_eq_some_iff.mp read
    obtain ⟨others,each,read⟩ := Option.bind_eq_some_iff.mp read
    cases read
    exact List.forall_mem_cons.mpr ⟨parseRow_fair own,ih each⟩

private theorem parseRows_fair {given : JsonValue figures.Value} {rows : List LedgerRow}
    (read : parseRows figures given = some rows) : ∀ row ∈ rows, row.Recordable ∧ row.row.Positive := by
  unfold parseRows at read
  split at read
  · split at read
    · cases read
    · exact mapM_each read
  · cases read

theorem parsed_fair {text : Text} {ledger : Ledger} (read : parseChildLedger figures text = some ledger) : ledger.Fair := by
  unfold parseChildLedger at read
  obtain ⟨raw,_,read⟩ := Option.bind_eq_some_iff.mp read
  split at read
  · cases read
  obtain ⟨state,_,read⟩ := Option.bind_eq_some_iff.mp read
  obtain ⟨metered,_,read⟩ := Option.bind_eq_some_iff.mp read
  obtain ⟨totals,own,read⟩ := Option.bind_eq_some_iff.mp read
  obtain ⟨spentMicros,spent,read⟩ := Option.bind_eq_some_iff.mp read
  obtain ⟨inflightMicros,inflight,read⟩ := Option.bind_eq_some_iff.mp read
  obtain ⟨costRefused,_,read⟩ := Option.bind_eq_some_iff.mp read
  obtain ⟨modelRefused,_,read⟩ := Option.bind_eq_some_iff.mp read
  obtain ⟨boundExceeded,_,read⟩ := Option.bind_eq_some_iff.mp read
  obtain ⟨costUnanswered,_,read⟩ := Option.bind_eq_some_iff.mp read
  obtain ⟨costUnreported,_,read⟩ := Option.bind_eq_some_iff.mp read
  obtain ⟨longContext,_,read⟩ := Option.bind_eq_some_iff.mp read
  obtain ⟨costUnjudged,_,read⟩ := Option.bind_eq_some_iff.mp read
  obtain ⟨rows,listed,read⟩ := Option.bind_eq_some_iff.mp read
  split at read
  · cases read
  next agreed =>
    obtain ⟨_,_,own⟩ := Option.bind_eq_some_iff.mp own
    obtain ⟨_,_,listed⟩ := Option.bind_eq_some_iff.mp listed
    obtain ⟨unresolved,positive⟩ := parseTotals_fair own
    have each := parseRows_fair listed
    have same : sumRows (rows.foldl mergeRow []) = sumRows rows := by
      rw [@sumRows_merged [] List.nodup_nil]
      exact empty_foldRow _
    rw [Bool.not_eq_false] at agreed
    unfold partitions at agreed
    simp only [Bool.and_eq_true,decide_eq_true_eq] at agreed
    obtain ⟨⟨⟨⟨⟨calls,unpriced⟩,input⟩,output⟩,total⟩,cost⟩ := agreed
    cases read
    refine ⟨unresolved,?_,?_,?_,?_,?_,?_,positive,@merged_distinct [] List.nodup_nil rows,?_,
      ⟨Int.natCast_nonneg _,whole_safe spent⟩,⟨Int.natCast_nonneg _,whole_safe inflight⟩⟩
    all_goals dsimp only
    · rw [same]
      exact calls
    · rw [same]
      exact unpriced
    · rw [same]
      exact input
    · rw [same]
      exact output
    · rw [same]
      exact total
    · rw [same]
      exact cost
    · refine merged_each ?_ (fun row none => absurd none List.not_mem_nil) each
      exact fun held row first second => ⟨first.1,first.2.fold second.2⟩

end Read

/-! What a ledger has reached. -/

theorem rowReached_iff {high now : Row} : rowReached high now = true ↔ high.Within now := by
  unfold rowReached
  rw [decide_eq_true_eq]
  constructor
  · intro ⟨input,output,cacheRead,cacheWrite,cacheWrite1h,reasoning,total,cost,calls,unpriced,providerBilled⟩
    exact ⟨calls,input,output,cacheRead,cacheWrite,cacheWrite1h,reasoning,total,cost,unpriced,providerBilled⟩
  · intro within
    exact ⟨within.input,within.output,within.cacheRead,within.cacheWrite,within.cacheWrite1h,within.reasoning,within.total,
      within.cost,within.calls,within.unpriced,within.providerBilled⟩

/-- The figures of a ledger that only grow, and its rows, each found under its key. -/
structure Reached (high next : Ledger) : Prop where
  totals : high.totals.input ≤ next.totals.input ∧ high.totals.output ≤ next.totals.output ∧
    high.totals.total ≤ next.totals.total ∧ high.totals.cost ≤ next.totals.cost ∧
    high.totals.calls ≤ next.totals.calls ∧ high.totals.unpriced ≤ next.totals.unpriced ∧
    high.totals.sessions ≤ next.totals.sessions
  guards : high.spentMicros ≤ next.spentMicros ∧ high.costRefused ≤ next.costRefused ∧
    high.modelRefused ≤ next.modelRefused ∧ high.boundExceeded ≤ next.boundExceeded ∧
    high.costUnanswered ≤ next.costUnanswered ∧ high.costUnreported ≤ next.costUnreported ∧
    high.longContext ≤ next.longContext ∧ high.costUnjudged ≤ next.costUnjudged
  rows : ∀ row ∈ high.rows, ∃ now, next.rows.find? (fun held => held.key = row.key) = some now ∧ row.row.Within now.row

theorem reached_iff {high next : Ledger} : reached high next = true ↔ Reached high next := by
  unfold reached
  rw [Bool.and_eq_true,Bool.and_eq_true,decide_eq_true_eq,decide_eq_true_eq,List.all_eq_true]
  constructor
  · intro ⟨⟨totals,guards⟩,rows⟩
    refine ⟨totals,guards,fun row inside => ?_⟩
    have own := rows row inside
    split at own
    next now found => exact ⟨now,found,rowReached_iff.mp own⟩
    next => cases own
  · intro reached
    refine ⟨⟨reached.totals,reached.guards⟩,fun row inside => ?_⟩
    obtain ⟨now,found,within⟩ := reached.rows row inside
    rw [found]
    exact rowReached_iff.mpr within

theorem Reached.trans {first second third : Ledger} (one : Reached first second) (two : Reached second third) :
    Reached first third := by
  obtain ⟨a1,a2,a3,a4,a5,a6,a7⟩ := one.totals
  obtain ⟨b1,b2,b3,b4,b5,b6,b7⟩ := two.totals
  obtain ⟨c1,c2,c3,c4,c5,c6,c7,c8⟩ := one.guards
  obtain ⟨d1,d2,d3,d4,d5,d6,d7,d8⟩ := two.guards
  refine ⟨⟨a1.trans b1,a2.trans b2,a3.trans b3,a4.trans b4,a5.trans b5,a6.trans b6,a7.trans b7⟩,
    ⟨c1.trans d1,c2.trans d2,c3.trans d3,c4.trans d4,c5.trans d5,c6.trans d6,c7.trans d7,c8.trans d8⟩,?_⟩
  intro row inside
  obtain ⟨now,found,within⟩ := one.rows row inside
  have same : now.key = row.key := by simpa using List.find?_some found
  obtain ⟨last,found',within'⟩ := two.rows now (List.mem_of_find?_eq_some found)
  rw [same] at found'
  exact ⟨last,found',within.trans within'⟩

theorem Ledger.Fair.reached {ledger : Ledger} (fair : ledger.Fair) : Reached ledger ledger := by
  refine ⟨⟨le_refl _,le_refl _,le_refl _,le_refl _,le_refl _,le_refl _,le_refl _⟩,
    ⟨le_refl _,le_refl _,le_refl _,le_refl _,le_refl _,le_refl _,le_refl _,le_refl _⟩,?_⟩
  exact fun row inside => ⟨row,Meter.find_key fair.keys inside,.rfl _⟩

end PiDispatch.UsageMeter
