import PiDispatch.ChildFolds
import PiDispatch.ChildLedgerText

/-! Folds over the children's files, one after another: what a fold has summed the next one sums again, at least. -/
namespace PiDispatch.UsageMeter
open Kernel

variable (figures : Figures)

/-- The fold after some directory states, each read with what the one before it left. -/
def Fold.history (ticks : List Tick) : Fold := ticks.foldl (fun fold tick => foldChildLedgers figures tick fold) .initial

/-! What a sum of marks is. -/

theorem addLedger_distinct {into : Ledger} (distinct : (into.rows.map LedgerRow.key).Nodup) (given : Ledger) :
    ((addLedger into given).rows.map LedgerRow.key).Nodup := merged_distinct distinct given.rows

private theorem marks_distinct {into : Ledger} (distinct : (into.rows.map LedgerRow.key).Nodup) (marks : List Ledger) :
    ((marks.foldl addLedger into).rows.map LedgerRow.key).Nodup := by
  induction marks generalizing into with
  | nil => exact distinct
  | cons mark rest ih => exact ih (addLedger_distinct distinct mark)

/-- A figure that adds up adds up over all marks. -/
theorem marks_sum {M : Type} [AddCommMonoid M] (figure : Ledger → M)
    (additive : ∀ into given, (into.rows.map LedgerRow.key).Nodup → figure (addLedger into given) = figure into + figure given)
    {into : Ledger} (distinct : (into.rows.map LedgerRow.key).Nodup) (marks : List Ledger) :
    figure (marks.foldl addLedger into) = figure into + (marks.map figure).sum := by
  induction marks generalizing into with
  | nil => exact (add_zero _).symm
  | cons mark rest ih =>
    rw [List.foldl_cons,ih (addLedger_distinct distinct mark),additive into mark distinct,List.map_cons,List.sum_cons,add_assoc]

private theorem marks_keys (into : Ledger) (marks : List Ledger) (key : String) :
    key ∈ (marks.foldl addLedger into).rows.map LedgerRow.key ↔
      key ∈ into.rows.map LedgerRow.key ∨ ∃ mark ∈ marks, key ∈ mark.rows.map LedgerRow.key := by
  induction marks generalizing into with
  | nil => simp
  | cons mark rest ih =>
    rw [List.foldl_cons,ih]
    change key ∈ (mark.rows.foldl mergeRow into.rows).map LedgerRow.key ∨ _ ↔ _
    rw [mem_merged_keys,or_assoc,List.exists_mem_cons_iff]

private theorem row_reached {mark now : Ledger} (fair : mark.Fair) (fair' : now.Fair) (up : Reached mark now) (key : String) :
    rowAt key mark.rows ≤ rowAt key now.rows := by
  by_cases present : key ∈ mark.rows.map LedgerRow.key
  · obtain ⟨row,inside,rfl⟩ := List.mem_map.mp present
    obtain ⟨later,found,within⟩ := up.rows row inside
    have same : later.key = row.key := by simpa using List.find?_some found
    rw [rowAt_own fair.keys inside,← same,rowAt_own fair'.keys (List.mem_of_find?_eq_some found)]
    exact within
  · rw [rowAt_absent present]
    unfold rowAt
    rw [sumRows_eq]
    refine List.sum_nonneg ?_
    intro row inside
    obtain ⟨own,member,rfl⟩ := List.mem_map.mp inside
    exact (fair'.rows own (List.mem_of_mem_filter member)).2

namespace Fold

variable {fold next : Fold} {gone more : List (String × Ledger)} {book later : Dict String Ledger}

theorem Booked.sum (booked : fold.Booked gone book) : fold.sum = book.values.foldl addLedger emptyLedger := by
  unfold Fold.sum Dict.values
  rw [booked.shape,booked.high,List.map_append,List.foldl_append,List.map_map,List.map_map]
  rfl

theorem Booked.distinct (booked : fold.Booked gone book) : (fold.sum.rows.map LedgerRow.key).Nodup := by
  rw [booked.sum]
  exact @marks_distinct emptyLedger List.nodup_nil book.values

/-- A figure that adds up, and that no mark loses, grows with the marks. -/
private theorem Booked.grows {M : Type} [AddCommMonoid M] [PartialOrder M] [IsOrderedAddMonoid M]
    (booked : fold.Booked gone book) (booked' : next.Booked more later) (raises : Dict.Raises Reached book later)
    (figure : Ledger → M) (none : figure emptyLedger = 0)
    (additive : ∀ into given, (into.rows.map LedgerRow.key).Nodup → figure (addLedger into given) = figure into + figure given)
    (up : ∀ mark now : Ledger, mark.Fair → now.Fair → Reached mark now → figure mark ≤ figure now)
    (positive : ∀ now : Ledger, now.Fair → 0 ≤ figure now) : figure fold.sum ≤ figure next.sum := by
  rw [booked.sum,booked'.sum,@marks_sum M _ figure additive emptyLedger List.nodup_nil,
    @marks_sum M _ figure additive emptyLedger List.nodup_nil,none,zero_add,zero_add]
  have fair : Dict.Raises (fun mark now => mark.Fair ∧ now.Fair ∧ Reached mark now) book later := by
    intro name mark held
    obtain ⟨now,held',reached⟩ := raises name mark held
    exact ⟨now,held',booked.fair mark ((Dict.mem_values_iff _ _).mpr ⟨_,held⟩),
      booked'.fair now ((Dict.mem_values_iff _ _).mpr ⟨_,held'⟩),reached⟩
  exact fair.sum figure (fun mark now ⟨one,other,reached⟩ => up mark now one other reached)
    fun now inside => positive now (booked'.fair now inside)

theorem Booked.sum_reached (booked : fold.Booked gone book) (booked' : next.Booked more later)
    (raises : Dict.Raises Reached book later) : Reached fold.sum next.sum := by
  have grows {M : Type} [AddCommMonoid M] [PartialOrder M] [IsOrderedAddMonoid M] := @Booked.grows _ _ _ _ _ _ M _ _ _ booked booked' raises
  refine ⟨⟨?_,?_,?_,?_,?_,?_,?_⟩,⟨?_,?_,?_,?_,?_,?_,?_,?_⟩,?_⟩
  · exact grows (fun ledger => ledger.totals.input) rfl (fun _ _ _ => rfl) (fun _ _ _ _ up => up.totals.1) fun _ fair => fair.totals.1
  · exact grows (fun ledger => ledger.totals.output) rfl (fun _ _ _ => rfl) (fun _ _ _ _ up => up.totals.2.1)
      fun _ fair => fair.totals.2.1
  · exact grows (fun ledger => ledger.totals.total) rfl (fun _ _ _ => rfl) (fun _ _ _ _ up => up.totals.2.2.1)
      fun _ fair => fair.totals.2.2.1
  · exact grows (fun ledger => ledger.totals.cost) rfl (fun _ _ _ => rfl) (fun _ _ _ _ up => up.totals.2.2.2.1)
      fun _ fair => fair.totals.2.2.2
  · exact grows (fun ledger => ledger.totals.calls) rfl (fun _ _ _ => rfl) (fun _ _ _ _ up => up.totals.2.2.2.2.1)
      fun _ _ => Nat.zero_le _
  · exact grows (fun ledger => ledger.totals.unpriced) rfl (fun _ _ _ => rfl) (fun _ _ _ _ up => up.totals.2.2.2.2.2.1)
      fun _ _ => Nat.zero_le _
  · exact grows (fun ledger => ledger.totals.sessions) rfl (fun _ _ _ => rfl) (fun _ _ _ _ up => up.totals.2.2.2.2.2.2)
      fun _ _ => Nat.zero_le _
  · exact grows Ledger.spentMicros rfl (fun _ _ _ => rfl) (fun _ _ _ _ up => up.guards.1) fun _ fair => fair.spent.1
  · exact grows Ledger.costRefused rfl (fun _ _ _ => rfl) (fun _ _ _ _ up => up.guards.2.1) fun _ _ => Nat.zero_le _
  · exact grows Ledger.modelRefused rfl (fun _ _ _ => rfl) (fun _ _ _ _ up => up.guards.2.2.1) fun _ _ => Nat.zero_le _
  · exact grows Ledger.boundExceeded rfl (fun _ _ _ => rfl) (fun _ _ _ _ up => up.guards.2.2.2.1) fun _ _ => Nat.zero_le _
  · exact grows Ledger.costUnanswered rfl (fun _ _ _ => rfl) (fun _ _ _ _ up => up.guards.2.2.2.2.1) fun _ _ => Nat.zero_le _
  · exact grows Ledger.costUnreported rfl (fun _ _ _ => rfl) (fun _ _ _ _ up => up.guards.2.2.2.2.2.1) fun _ _ => Nat.zero_le _
  · exact grows Ledger.longContext rfl (fun _ _ _ => rfl) (fun _ _ _ _ up => up.guards.2.2.2.2.2.2.1) fun _ _ => Nat.zero_le _
  · exact grows Ledger.costUnjudged rfl (fun _ _ _ => rfl) (fun _ _ _ _ up => up.guards.2.2.2.2.2.2.2) fun _ _ => Nat.zero_le _
  · intro row inside
    have key : row.key ∈ next.sum.rows.map LedgerRow.key := by
      have here := List.mem_map_of_mem (f := LedgerRow.key) inside
      rw [booked.sum,marks_keys] at here
      rcases here with none | ⟨mark,member,own⟩
      · cases none
      obtain ⟨name,held⟩ := (Dict.mem_values_iff _ _).mp member
      obtain ⟨now,held',up⟩ := raises name mark held
      obtain ⟨line,listed,same⟩ := List.mem_map.mp own
      obtain ⟨found,there,_⟩ := up.rows line listed
      rw [booked'.sum,marks_keys]
      refine .inr ⟨now,(Dict.mem_values_iff _ _).mpr ⟨name,held'⟩,List.mem_map.mpr ⟨found,List.mem_of_find?_eq_some there,?_⟩⟩
      rw [← same]
      simpa using List.find?_some there
    obtain ⟨now,there,same⟩ := List.mem_map.mp key
    have within := grows (fun ledger => rowAt row.key ledger.rows) rfl (fun into given apart => rowAt_merged apart row.key given.rows)
      (fun _ _ fair fair' up => row_reached fair fair' up row.key) (fun other fair => by
        have up := row_reached emptyLedger_fair fair ⟨⟨fair.totals.1,fair.totals.2.1,fair.totals.2.2.1,fair.totals.2.2.2,
          Nat.zero_le _,Nat.zero_le _,Nat.zero_le _⟩,⟨fair.spent.1,Nat.zero_le _,Nat.zero_le _,Nat.zero_le _,Nat.zero_le _,
          Nat.zero_le _,Nat.zero_le _,Nat.zero_le _⟩,fun _ none => absurd none List.not_mem_nil⟩ row.key
        exact up)
    refine ⟨now,?_,?_⟩
    · rw [← same]
      exact Meter.find_key booked'.distinct there
    · rw [rowAt_own booked.distinct inside,← same,rowAt_own booked'.distinct there] at within
      exact within

/-! What is settled, and the counts of files. -/

private theorem settled_positive {mark : Ledger} (fair : mark.Fair) : 0 ≤ ledgerSettled mark := by
  have within : (0 : Int) ≤ maxSafeInteger := Int.natCast_nonneg maxSafeInteger
  exact le_min within (le_max_of_le_left fair.spent.1)

private theorem settled_up {mark now : Ledger} (up : Reached mark now) : ledgerSettled mark ≤ ledgerSettled now := by
  unfold ledgerSettled
  refine min_le_min (le_refl _) (max_le_max up.guards.1 ?_)
  exact Int.ceil_mono (mul_le_mul_of_nonneg_right up.totals.2.2.2.1 (by norm_num))

theorem saturated (amounts : List Int) (into : Int) (low : into ≤ maxSafeInteger) (positive : ∀ amount ∈ amounts, 0 ≤ amount) :
    amounts.foldl saturatingAdd into = min (maxSafeInteger : Int) (into + amounts.sum) := by
  induction amounts generalizing into with
  | nil => rw [List.foldl_nil,List.sum_nil,add_zero,min_eq_right low]
  | cons amount rest ih =>
    have rest' := List.sum_nonneg fun other inside => positive other (List.mem_cons_of_mem _ inside)
    rw [List.foldl_cons,List.sum_cons]
    unfold saturatingAdd at ih ⊢
    rw [ih _ (min_le_left _ _) fun other inside => positive other (List.mem_cons_of_mem _ inside)]
    omega

theorem Booked.settledMicros (booked : fold.Booked gone book) :
    fold.settledMicros = min (maxSafeInteger : Int) (book.values.map ledgerSettled).sum := by
  have within : (0 : Int) ≤ maxSafeInteger := Int.natCast_nonneg maxSafeInteger
  have all : fold.settledMicros = (book.values.map ledgerSettled).foldl saturatingAdd 0 := by
    unfold Fold.settledMicros Dict.values
    rw [booked.shape,booked.settled,List.map_append,List.map_append,List.foldl_append,List.map_map,List.map_map,List.map_map,
      List.map_map]
    rfl
  rw [all,saturated _ 0 within,zero_add]
  intro amount inside
  obtain ⟨mark,member,rfl⟩ := List.mem_map.mp inside
  exact settled_positive (booked.fair mark member)

theorem Booked.settled_grows (booked : fold.Booked gone book) (booked' : next.Booked more later)
    (raises : Dict.Raises Reached book later) : fold.settledMicros ≤ next.settledMicros := by
  rw [booked.settledMicros,booked'.settledMicros]
  refine min_le_min (le_refl _) (raises.sum ledgerSettled (fun _ _ up => settled_up up) ?_)
  exact fun now inside => settled_positive (booked'.fair now inside)

theorem Booked.processes (booked : fold.Booked gone book) : fold.processes = book.entries.length + fold.flooded := by
  unfold Fold.processes Dict.keys
  rw [booked.shape,booked.count,List.length_append,List.length_map,List.length_map]
  omega

private theorem raised_length {related : Ledger → Ledger → Prop} (raises : Dict.Raises related book later) :
    book.entries.length ≤ later.entries.length := by
  have names : book.keys.Subperm later.keys := by
    refine List.subperm_of_subset book.distinct ?_
    intro name inside
    obtain ⟨mark,held⟩ := Option.isSome_iff_exists.mp ((Dict.get?_isSome_iff book name).mpr inside)
    obtain ⟨now,held',_⟩ := raises name mark held
    rw [← Dict.get?_isSome_iff,held']
    rfl
  have most := names.length_le
  unfold Dict.keys at most
  rw [List.length_map,List.length_map] at most
  exact most

private theorem unmetered_rest (files later : Dict String Entry)
    (kept : ∀ name entry, files.get? name = some entry → entry.unmetered = true → later.get? name = some entry) :
    (files.values.filter Entry.unmetered).length ≤ (later.values.filter Entry.unmetered).length := by
  have names : ((files.entries.filter fun entry => entry.2.unmetered).map Prod.fst).Subperm
      ((later.entries.filter fun entry => entry.2.unmetered).map Prod.fst) := by
    refine List.subperm_of_subset (files.distinct.sublist (List.filter_sublist.map _)) ?_
    intro name inside
    obtain ⟨entry,member,rfl⟩ := List.mem_map.mp inside
    obtain ⟨held,ended⟩ := List.mem_filter.mp member
    have now := kept entry.1 entry.2 (Dict.get?_of_mem files held) ended
    exact List.mem_map.mpr ⟨entry,List.mem_filter.mpr ⟨(Dict.get?_eq_some_iff _ _ _).mp now,ended⟩,rfl⟩
  have most := names.length_le
  rw [List.length_map,List.length_map] at most
  unfold Dict.values
  rw [List.filter_map,List.filter_map,List.length_map,List.length_map]
  exact most

/-- An entry that is given up stays as it is. -/
theorem Booked.ended (booked : fold.Booked gone book) (tick : Tick) {name : String} {entry : Entry}
    (held : fold.files.get? name = some entry) (ended : entry.unmetered = true) :
    (foldChildLedgers figures tick fold).files.get? name = some entry := by
  obtain ⟨files,_,_,raised,kept,_,_,_⟩ := booked.files figures tick
  obtain ⟨now,here,_,still⟩ := raised name entry held
  rw [kept,Dict.get?_filter,here,still ended,Option.filter_some,if_pos]
  unfold Tick.isGone
  rw [ended]
  rfl

theorem Booked.unmetered_grows (booked : fold.Booked gone book) (tick : Tick) :
    fold.unmetered ≤ (foldChildLedgers figures tick fold).unmetered := by
  obtain ⟨_,_,_,_,_,_,flooded,_⟩ := booked.files figures tick
  exact Nat.add_le_add flooded (unmetered_rest _ _ fun _ _ held ended => booked.ended figures tick held ended)

/-- The rows' calls are the calls that settled. -/
theorem Booked.calls (booked : fold.Booked gone book) :
    (sumRows fold.sum.rows).calls + fold.sum.totals.unresolved = fold.sum.totals.calls := by
  have step : ∀ (marks : List Ledger) (into : Ledger), (into.rows.map LedgerRow.key).Nodup →
      (∀ mark ∈ marks, mark.Fair) → (sumRows into.rows).calls + into.totals.unresolved = into.totals.calls →
      (sumRows (marks.foldl addLedger into).rows).calls + (marks.foldl addLedger into).totals.unresolved =
        (marks.foldl addLedger into).totals.calls := by
    intro marks
    induction marks with
    | nil => exact fun into _ _ same => same
    | cons mark rest ih =>
      intro into distinct fair same
      refine ih (addLedger into mark) (addLedger_distinct distinct mark)
        (fun other inside => fair other (List.mem_cons_of_mem _ inside)) ?_
      have own := fair mark List.mem_cons_self
      have unresolved := own.unresolved
      have calls := own.calls
      change (sumRows (mark.rows.foldl mergeRow into.rows)).calls + (into.totals.unresolved + mark.totals.unresolved) =
        into.totals.calls + mark.totals.calls
      rw [sumRows_merged distinct]
      change (sumRows into.rows).calls + (sumRows mark.rows).calls + _ = _
      omega
  rw [booked.sum]
  exact step book.values emptyLedger List.nodup_nil booked.fair rfl

theorem rows_perm (fold : Fold) : fold.rows.Perm fold.sum.rows := by
  have parts := List.filter_append_perm (fun row : LedgerRow => decide (row.key ≠ "")) fold.sum.rows
  have same : (fun row : LedgerRow => !decide (row.key ≠ "")) = fun row => decide (row.key = "") := by
    funext row
    simp
  rw [same] at parts
  exact parts

theorem sumRows_rows (fold : Fold) : sumRows fold.rows = sumRows fold.sum.rows := by
  rw [sumRows_eq,sumRows_eq]
  exact (fold.rows_perm.map LedgerRow.row).sum_eq

/-! Files that are not read any more. -/

/-- A name that is retired, or that has been given up. -/
private def Closed (retired : List String) (loop : Loop) (name : String) : Prop :=
  name ∈ retired ∨ ∃ entry, loop.files.get? name = some entry ∧ entry.unmetered = true

private theorem name_unread {retired : List String} {loop : Loop} {name : String} (closed : Closed retired loop name) (tick : Tick)
    (read : String → FileRead) (same : ∀ other, other ≠ name → read other = tick.read other) (other : String) :
    loop.name figures retired { tick with read := read } other = loop.name figures retired tick other := by
  by_cases own : other = name
  · subst own
    unfold Loop.name
    rcases closed with gone | ⟨entry,held,ended⟩
    · simp only [if_pos gone]
    · simp only [held,if_pos ended]
  · have reads : ∀ pid before, loop.readName figures { tick with read := read } other pid before =
        loop.readName figures tick other pid before := by
      intro pid before
      unfold Loop.readName
      dsimp only
      rw [same other own]
    unfold Loop.name
    simp only [reads]

private theorem closed_kept {retired : List String} {loop : Loop} {name : String} (closed : Closed retired loop name) (tick : Tick)
    (other : String) : Closed retired (loop.name figures retired tick other) name := by
  rcases closed with gone | ⟨entry,held,ended⟩
  · exact .inl gone
  · refine .inr ⟨entry,?_,ended⟩
    rcases name_files figures retired tick loop other with still | ⟨_,next,judged,shape⟩
    · rw [still]
      exact held
    · rw [shape]
      by_cases own : other = name
      · subst own
        obtain ⟨pid,ledger,_,live,_⟩ := judged
        have alive := live entry held
        rw [ended] at alive
        cases alive
      · rw [Dict.get?_set_ne _ _ own]
        exact held

private theorem names_unread {retired : List String} {name : String} (tick : Tick) (read : String → FileRead)
    (same : ∀ other, other ≠ name → read other = tick.read other) (names : List String) (loop : Loop)
    (closed : Closed retired loop name) :
    names.foldl (Loop.name figures retired { tick with read := read }) loop = names.foldl (Loop.name figures retired tick) loop := by
  induction names generalizing loop with
  | nil => rfl
  | cons first rest ih =>
    rw [List.foldl_cons,List.foldl_cons,name_unread figures closed tick read same]
    exact ih _ (closed_kept figures closed tick first)

/-- What a read of a retired file, or of one that was given up, would give makes no difference. -/
theorem fold_unread {fold : Fold} {name : String} (tick : Tick) (read : String → FileRead)
    (same : ∀ other, other ≠ name → read other = tick.read other)
    (closed : name ∈ fold.retired.names ∨ ∃ entry, fold.files.get? name = some entry ∧ entry.unmetered = true) :
    foldChildLedgers figures { tick with read := read } fold = foldChildLedgers figures tick fold := by
  have loops := names_unread figures tick read same tick.listed
    ⟨fold.files,[],(fold.files.values.filter Entry.isOpen).length,0⟩ closed
  have listed : ({ tick with read := read } : Tick).listed = tick.listed := rfl
  unfold foldChildLedgers
  dsimp only
  rw [listed,loops]
  rfl

/-- What one mark for each name, in order, says of a fold. -/
structure Counts (fold : Fold) (book : Dict String Ledger) : Prop where
  names : book.keys.Perm (fold.retired.names ++ fold.files.keys)
  tracked : ∀ name entry, fold.files.get? name = some entry → book.get? name = some entry.high
  sum : fold.sum = book.values.foldl addLedger emptyLedger
  settled : fold.settledMicros = min (maxSafeInteger : Int) (book.values.map ledgerSettled).sum

/-- What a fold remembers of the one before it. -/
structure Remembers (fold : Fold) (tick : Tick) (next : Fold) : Prop where
  sum : Reached fold.sum next.sum
  rows : ∀ row ∈ fold.rows, ∃ now ∈ next.rows, now.key = row.key ∧ row.row.Within now.row
  distinct : (next.rows.map LedgerRow.key).Nodup
  settled : fold.settledMicros ≤ next.settledMicros
  processes : fold.processes ≤ next.processes
  unmetered : fold.unmetered ≤ next.unmetered
  flooded : fold.flooded ≤ next.flooded
  marks : ∃ book later, fold.Counts book ∧ next.Counts later ∧ Dict.Raises Reached book later ∧
    ∀ name ∈ fold.retired.names, name ∈ next.retired.names ∧ later.get? name = book.get? name
  ended : ∀ name entry, fold.files.get? name = some entry → entry.unmetered = true → next.files.get? name = some entry
  unread : ∀ name entry, fold.files.get? name = some entry → entry.unmetered = true → ∀ read : String → FileRead,
    (∀ other, other ≠ name → read other = tick.read other) → foldChildLedgers figures { tick with read := read } fold = next
  calls : (sumRows next.rows).calls = next.sum.totals.calls - next.sum.totals.unresolved ∧
    next.sum.totals.unresolved ≤ next.sum.totals.calls

theorem Booked.counted (booked : fold.Booked gone book) : fold.Counts book := by
  refine ⟨?_,fun _ _ held => booked.tracked held,booked.sum,booked.settledMicros⟩
  unfold Dict.keys
  rw [booked.shape,booked.names,List.map_append,List.map_map]
  exact (List.reverse_perm _).symm.append (.refl _)

theorem Booked.remembers (booked : fold.Booked gone book) (tick : Tick) :
    fold.Remembers figures tick (foldChildLedgers figures tick fold) := by
  obtain ⟨more,later,booked',raises,_⟩ := booked.next figures tick
  obtain ⟨_,_,_,_,_,_,flooded,_⟩ := booked.files figures tick
  have reached := booked.sum_reached booked' raises
  have calls := booked'.calls
  refine ⟨reached,?_,?_,booked.settled_grows booked' raises,?_,booked.unmetered_grows figures tick,flooded,
    ⟨book,later,booked.counted,booked'.counted,raises,?_⟩,fun _ _ held ended => booked.ended figures tick held ended,
    fun _ entry held ended read same => fold_unread figures tick read same (.inr ⟨entry,held,ended⟩),?_,by omega⟩
  · intro row inside
    obtain ⟨now,found,within⟩ := reached.rows row (fold.rows_perm.mem_iff.mp inside)
    refine ⟨now,(rows_perm _).mem_iff.mpr (List.mem_of_find?_eq_some found),?_,within⟩
    simpa using List.find?_some found
  · rw [((rows_perm _).map LedgerRow.key).nodup_iff]
    exact booked'.distinct
  · rw [booked.processes,booked'.processes]
    exact Nat.add_le_add (raised_length raises) flooded
  · intro name inside
    rw [booked.names,List.mem_reverse] at inside
    obtain ⟨mark,member,rfl⟩ := List.mem_map.mp inside
    have held : book.get? mark.1 = some mark.2 := by
      refine Dict.get?_of_mem book ?_
      rw [booked.shape]
      exact List.mem_append_left _ member
    have held' : later.get? mark.1 = some mark.2 := by
      refine Dict.get?_of_mem later ?_
      rw [booked'.shape]
      exact List.mem_append_left _ (List.mem_append_left _ member)
    refine ⟨?_,held'.trans held.symm⟩
    rw [booked'.names,List.mem_reverse,List.map_append]
    exact List.mem_append_left _ (List.mem_map_of_mem member)
  · rw [sumRows_rows]
    omega

theorem history_booked (ticks : List Tick) : ∃ gone book, (history figures ticks).Booked gone book := by
  induction ticks using List.reverseRecOn with
  | nil => exact ⟨_,_,initial_booked⟩
  | append_singleton ticks tick ih =>
    obtain ⟨gone,book,booked⟩ := ih
    obtain ⟨more,later,booked',_⟩ := booked.next figures tick
    unfold history at booked' ⊢
    rw [List.foldl_append]
    exact ⟨_,_,booked'⟩

/-- Whatever the directory held, and whatever it holds next: a fold forgets nothing that the one before it summed. -/
theorem folds_remember (ticks : List Tick) (tick : Tick) :
    (history figures ticks).Remembers figures tick (history figures (ticks ++ [tick])) := by
  obtain ⟨gone,book,booked⟩ := history_booked figures ticks
  have remembers := booked.remembers figures tick
  unfold history at remembers ⊢
  rw [List.foldl_append]
  exact remembers

end Fold

/-! One name more than may be open: it is counted, and kept when it is seen again after the others have vanished. -/

private theorem decimal_read (number : Nat) : Nat.ofDigitChars 10 (decimal number) 0 = number :=
  Nat.ofDigitChars_toDigits (by decide) (by decide)

/-- Whole numbers as their decimal texts. -/
def decimals : Numbers where
  Value := Text
  ofNat := decimal
  read token := token
  write token := token
  safe? token :=
    let number := Nat.ofDigitChars 10 token 0
    if token = decimal number ∧ number ≤ maxSafeInteger then some number else none
  read_decimal := wholeNumbers.write_ofNat
  write_ofNat := wholeNumbers.write_ofNat
  safe_ofNat := decimal_safe

def naturalOf (token : Text) : Option Rat :=
  let number := Nat.ofDigitChars 10 token 0
  if token = decimal number then some number else none

/-- The language's numbers, as far as whole ones that are safe. -/
def naturals : Figures where
  toNumbers := decimals
  ofRat figure := decimal figure.num.toNat
  finite? := naturalOf
  Exact figure := ∃ number ≤ maxSafeInteger, figure = (number : Nat)
  exact_nat number safe := ⟨number,safe,rfl⟩
  ofRat_nat _ _ := rfl
  finite_ofRat figure whole := by
    obtain ⟨number,_,rfl⟩ := whole
    change naturalOf (decimal number) = _
    unfold naturalOf
    rw [decimal_read,if_pos rfl]
  safe_within token number read := by
    unfold decimals at read
    dsimp only at read
    split at read
    next safe =>
      cases read
      exact_mod_cast safe.2
    · cases read
  token figure whole _ _ := by
    obtain ⟨number,_,rfl⟩ := whole
    exact @JsonText.token_decimal decimals number rfl rfl
  short figure whole _ _ := by
    obtain ⟨number,safe,rfl⟩ := whole
    have few : (decimal number).length ≤ 16 :=
      Nat.toDigits_length 10 number 16 (by decide) (lt_of_le_of_lt safe (by decide))
    change (Octets.utf8 (decimal number)).length ≤ 24
    rw [JsonText.utf8_ascii]
    · omega
    · exact fun letter inside => digit_ascii (Nat.isDigit_of_mem_toDigits (by decide) (by decide) inside)

/-- A child that has not called yet. -/
def idle : Ledger := { emptyLedger with state := .running }

private theorem idle_carried : idle.Carried naturals := by
  have zero : Carried naturals 0 := ⟨⟨0,Nat.zero_le _,rfl⟩,by norm_num⟩
  intro sum inside
  have none : sum = 0 := by
    simpa [Ledger.sums,idle,emptyLedger] using inside
  rw [none]
  exact zero

private theorem idle_proper : idle.Proper := by
  have fair := emptyLedger_fair
  exact ⟨Nat.le_refl 0,rfl,rfl,rfl,rfl,rfl,rfl,fair.rows,fair.keys,Nat.zero_le _,fair.spent.1,fair.inflight⟩

def idleFile : FileRead := .bytes (Octets.utf8 (idle.text naturals))

private theorem idleFile_read : readLedger idleFile = .text (idle.text naturals) ∧
    parseChildLedger naturals (idle.text naturals) = some idle :=
  ⟨ledger_read idle_proper idle_carried emptyLedger_fair.spent.2,ledger_parsed idle_proper idle_carried emptyLedger_fair.spent.2⟩

def bits (index : Nat) : List Char := (List.range 16).map fun place => if index.testBit place = true then '1' else '0'

def ledgerFile (index : Nat) : String := String.ofList ('1' :: '.' :: (bits index ++ ".json".toList))

theorem ledgerFile_pid (index : Nat) : ledgerPid (ledgerFile index) = some 1 := by
  have long : (bits index).length = 16 := by
    unfold bits
    rw [List.length_map,List.length_range]
  have hex : (bits index).all Octets.isLowerHex = true := by
    rw [List.all_eq_true]
    intro letter inside
    obtain ⟨place,_,rfl⟩ := List.mem_map.mp inside
    split
    · decide
    · decide
  have head : (bits index ++ ".json".toList).take 16 = bits index := by rw [← long,List.take_left]
  have tail : (bits index ++ ".json".toList).drop 16 = ".json".toList := by rw [← long,List.drop_left]
  unfold ledgerPid ledgerFile
  rw [String.toList_ofList]
  dsimp only
  have digits : ('1' :: '.' :: (bits index ++ ".json".toList)).takeWhile Char.isDigit = ['1'] := rfl
  have others : ('1' :: '.' :: (bits index ++ ".json".toList)).dropWhile Char.isDigit = '.' :: (bits index ++ ".json".toList) := rfl
  rw [digits,others]
  refine if_pos ⟨by decide,by decide,?_,?_,tail⟩
  · rw [head]
    exact long
  · rw [head]
    exact hex

private theorem ledgerFile_inj {one other : Nat} (small : one < 2 ^ 16) (small' : other < 2 ^ 16)
    (same : ledgerFile one = ledgerFile other) : one = other := by
  have letters := congrArg String.toList same
  unfold ledgerFile at letters
  simp only [String.toList_ofList,List.cons.injEq,true_and] at letters
  have equal : bits one = bits other := (List.append_left_inj _).mp letters
  refine Nat.eq_of_testBit_eq fun place => ?_
  by_cases within : place < 16
  · unfold bits at equal
    have own := List.map_inj_left.mp equal place (List.mem_range.mpr within)
    cases here : one.testBit place
    · cases there : other.testBit place
      · rfl
      · simp [here,there] at own
    · cases there : other.testBit place
      · simp [here,there] at own
      · rfl
  · have high : 2 ^ 16 ≤ 2 ^ place := Nat.pow_le_pow_right (by decide) (Nat.le_of_not_lt within)
    rw [Nat.testBit_lt_two_pow (lt_of_lt_of_le small high),Nat.testBit_lt_two_pow (lt_of_lt_of_le small' high)]

/-- One file more than may be open, each of a child that runs. -/
def crowd : Tick :=
  ⟨some ((List.range (CHILD_LEDGER_MAX_FILES + 1)).map ledgerFile),fun _ => idleFile,fun _ _ _ => false⟩

/-- The last of them in the order of names. -/
def late : String := crowd.listed.getLastD ""

def emptied : Tick := ⟨some [],fun _ => .gone,fun _ _ _ => false⟩

def seenAgain : Tick := ⟨some [late],fun _ => idleFile,fun _ _ _ => false⟩

theorem name_fresh {tick : Tick} {loop : Loop} {name : String} {pid : Nat} (read : tick.read name = idleFile)
    (named : ledgerPid name = some pid) (fresh : loop.files.get? name = none) (room : loop.opened < CHILD_LEDGER_MAX_FILES) :
    loop.name naturals [] tick name = { loop with
      files := loop.files.set name ⟨pid,some .running,false,none,idle⟩
      present := name :: loop.present
      opened := loop.opened + 1 } := by
  obtain ⟨text,parsed⟩ := idleFile_read
  unfold Loop.name
  rw [named]
  dsimp only
  rw [if_neg List.not_mem_nil,fresh]
  dsimp only
  rw [if_neg (Nat.not_le.mpr room)]
  unfold Loop.readName
  rw [read,text]
  dsimp only
  rw [parsed]
  rfl

private theorem name_beyond {tick : Tick} {loop : Loop} {name : String} {pid : Nat} (named : ledgerPid name = some pid)
    (fresh : loop.files.get? name = none) (full : CHILD_LEDGER_MAX_FILES ≤ loop.opened) :
    loop.name naturals [] tick name = { loop with beyond := loop.beyond + 1 } := by
  unfold Loop.name
  rw [named]
  dsimp only
  rw [if_neg List.not_mem_nil,fresh]
  dsimp only
  rw [if_pos full]

/-- Files with room for each: all are kept, and none is given up. -/
private theorem names_fresh {tick : Tick} (read : ∀ name, tick.read name = idleFile) (names : List String) (loop : Loop)
    (distinct : names.Nodup) (named : ∀ name ∈ names, ledgerPid name = some 1)
    (fresh : ∀ name ∈ names, loop.files.get? name = none) (room : loop.opened + names.length ≤ CHILD_LEDGER_MAX_FILES)
    (clean : ∀ name entry, loop.files.get? name = some entry → entry.unmetered = false ∧ name ∈ loop.present) :
    let after := names.foldl (Loop.name naturals [] tick) loop
    after.opened = loop.opened + names.length ∧ after.beyond = loop.beyond ∧
      (∀ name, name ∉ names → after.files.get? name = loop.files.get? name) ∧
      (∀ name ∈ names, ∃ entry, after.files.get? name = some entry) ∧
      ∀ name entry, after.files.get? name = some entry → entry.unmetered = false ∧ name ∈ after.present := by
  induction names generalizing loop with
  | nil => exact ⟨rfl,rfl,fun _ _ => rfl,fun _ none => absurd none List.not_mem_nil,clean⟩
  | cons first rest ih =>
    rw [List.length_cons] at room
    obtain ⟨once,distinct⟩ := List.nodup_cons.mp distinct
    have own := @name_fresh tick loop first 1 (read first) (named first List.mem_cons_self)
      (fresh first List.mem_cons_self) (by omega)
    have next := ih (loop.name naturals [] tick first) distinct (fun name inside => named name (List.mem_cons_of_mem _ inside))
    rw [own] at next
    dsimp only at next
    obtain ⟨opened,beyond,others,kept,clean'⟩ := next (by
        intro name inside
        have apart : first ≠ name := by
          intro same
          subst same
          exact once inside
        rw [Dict.get?_set_ne _ _ apart]
        exact fresh name (List.mem_cons_of_mem _ inside)) (by omega) (by
        intro name entry held
        rw [Dict.get?_set] at held
        split at held
        next same =>
          cases held
          exact ⟨rfl,by rw [same]; exact List.mem_cons_self⟩
        next =>
          obtain ⟨alive,there⟩ := clean name entry held
          exact ⟨alive,List.mem_cons_of_mem _ there⟩)
    dsimp only
    rw [List.foldl_cons,own]
    refine ⟨by rw [opened,List.length_cons]; omega,beyond,?_,?_,clean'⟩
    · intro name outside
      rw [others name fun inside => outside (List.mem_cons_of_mem _ inside),Dict.get?_set_ne]
      exact fun same => outside (same ▸ List.mem_cons_self)
    · refine List.forall_mem_cons.mpr ⟨?_,kept⟩
      rw [others first once,Dict.get?_set_self]
      exact ⟨_,rfl⟩

/-- A fold of files that no process is gone of: each entry stands as its reads leave it. -/
private theorem fold_alive {tick : Tick} (alive : ∀ pid name entry, tick.retire pid name entry = false) (prev : Fold) :
    (foldChildLedgers naturals tick prev).retired = prev.retired ∧
      let loop := tick.listed.foldl (Loop.name naturals prev.retired.names tick)
        ⟨prev.files,[],(prev.files.values.filter Entry.isOpen).length,0⟩
      (foldChildLedgers naturals tick prev).flooded = max prev.flooded loop.beyond ∧
      ∀ name, (foldChildLedgers naturals tick prev).files.get? name =
        (loop.files.get? name).map (vanish loop.present name) := by
  have none : ∀ name entry, tick.isGone name entry = false := by
    intro name entry
    unfold Tick.isGone
    rw [alive,Bool.and_false]
  refine ⟨?_,rfl,?_⟩
  · unfold foldChildLedgers
    dsimp only
    rw [List.filter_eq_nil_iff.mpr]
    · rfl
    · intro entry _
      rw [none]
      exact Bool.false_ne_true
  · intro name
    unfold foldChildLedgers
    dsimp only
    rw [Dict.get?_filter,Dict.get?_mapValues]
    generalize Option.map _ _ = held
    cases held with
    | none => rfl
    | some entry =>
      rw [Option.filter_some,none]
      rfl

private theorem listed_perm {tick : Tick} {names : List String} (given : tick.names = some names) : tick.listed.Perm names := by
  unfold Tick.listed
  rw [given]
  exact List.mergeSort_perm _ _

private theorem crowd_listed : ∃ first, crowd.listed = first ++ [late] ∧ first.length = CHILD_LEDGER_MAX_FILES ∧
    (first ++ [late]).Nodup ∧ ∀ name ∈ first ++ [late], ledgerPid name = some 1 := by
  have all : crowd.listed.Perm ((List.range (CHILD_LEDGER_MAX_FILES + 1)).map ledgerFile) := listed_perm rfl
  have length : crowd.listed.length = CHILD_LEDGER_MAX_FILES + 1 :=
    (all.length_eq.trans (List.length_map _)).trans List.length_range
  have some' : crowd.listed ≠ [] := by
    intro none
    rw [none] at length
    exact Nat.succ_ne_zero _ length.symm
  have split : crowd.listed = crowd.listed.dropLast ++ [late] := by
    unfold late
    rw [List.getLastD_eq_getLast?,List.getLast?_eq_some_getLast some',Option.getD_some,List.dropLast_append_getLast]
  refine ⟨crowd.listed.dropLast,split,by rw [List.length_dropLast,length,Nat.add_sub_cancel],?_,?_⟩
  · rw [← split,all.nodup_iff]
    refine List.Nodup.map_on ?_ List.nodup_range
    intro one inside other inside' same
    have small := List.mem_range.mp inside
    have small' := List.mem_range.mp inside'
    unfold CHILD_LEDGER_MAX_FILES at small small'
    exact ledgerFile_inj (by omega) (by omega) same
  · intro name inside
    rw [← split,all.mem_iff] at inside
    obtain ⟨index,_,rfl⟩ := List.mem_map.mp inside
    exact ledgerFile_pid index

private theorem crowd_fold : ∃ fold, foldChildLedgers naturals crowd .initial = fold ∧ fold.unmetered = 1 ∧
    fold.retired.names = [] ∧ fold.files.get? late = none ∧ ∀ name ∈ crowd.listed, name ≠ late →
      ∃ entry, fold.files.get? name = some entry ∧ entry.unmetered = false := by
  obtain ⟨first,split,length,distinct,named⟩ := crowd_listed
  obtain ⟨retired,flooded,files⟩ := @fold_alive crowd (fun _ _ _ => rfl) .initial
  obtain ⟨distinct',_,apart⟩ := List.nodup_append.mp distinct
  have once : late ∉ first := fun inside => apart late inside late (List.mem_singleton_self _) rfl
  obtain ⟨opened,beyond,others,kept,clean⟩ := @names_fresh crowd (fun _ => rfl) first ⟨.empty,[],0,0⟩ distinct'
    (fun name inside => named name (List.mem_append_left _ inside)) (fun _ _ => rfl) (by rw [Nat.zero_add,length])
    (fun _ _ none => nomatch none)
  have last := @name_beyond crowd (first.foldl (Loop.name naturals [] crowd) ⟨.empty,[],0,0⟩) late 1
    (named late (List.mem_append_right _ (List.mem_singleton_self _))) (others late once) (by rw [opened,length]; omega)
  have loop : crowd.listed.foldl (Loop.name naturals Fold.initial.retired.names crowd)
      ⟨Fold.initial.files,[],(Fold.initial.files.values.filter Entry.isOpen).length,0⟩ =
      { first.foldl (Loop.name naturals [] crowd) ⟨.empty,[],0,0⟩ with
        beyond := (first.foldl (Loop.name naturals [] crowd) ⟨.empty,[],0,0⟩).beyond + 1 } := by
    rw [split,List.foldl_append]
    exact last
  rw [loop] at flooded files
  dsimp only at flooded files
  generalize first.foldl (Loop.name naturals [] crowd) ⟨.empty,[],0,0⟩ = after at beyond others kept clean flooded files
  have same : ∀ name, (foldChildLedgers naturals crowd .initial).files.get? name = after.files.get? name := by
    intro name
    rw [files]
    cases held : after.files.get? name with
    | none => rfl
    | some entry =>
      obtain ⟨_,there⟩ := clean name entry held
      rw [Option.map_some]
      unfold vanish
      rw [if_neg fun lost => lost.1 there]
  refine ⟨_,rfl,?_,?_,?_,?_⟩
  · have none : (foldChildLedgers naturals crowd .initial).files.values.filter Entry.unmetered = [] := by
      rw [List.filter_eq_nil_iff]
      intro entry inside
      obtain ⟨name,held⟩ := (Dict.mem_values_iff _ _).mp inside
      rw [same] at held
      rw [(clean name entry held).1]
      exact Bool.false_ne_true
    unfold Fold.unmetered
    rw [none,flooded,beyond]
    rfl
  · rw [retired]
    rfl
  · rw [same]
    exact others late once
  · intro name inside apart'
    rw [split] at inside
    rcases List.mem_append.mp inside with early | last'
    · obtain ⟨entry,held⟩ := kept name early
      exact ⟨entry,by rw [same,held],(clean name entry held).1⟩
    · exact absurd (List.mem_singleton.mp last') apart'

/-- The name past the open ones is the one that is counted unmetered, and later it is a metered file. -/
theorem flooded_tracked : (Fold.history naturals [crowd]).unmetered = 1 ∧ late ∈ crowd.listed ∧
    (∀ name ∈ crowd.listed, name ≠ late →
      ∃ entry, (Fold.history naturals [crowd]).files.get? name = some entry ∧ entry.unmetered = false) ∧
    ∃ entry, (Fold.history naturals [crowd,emptied,seenAgain]).files.get? late = some entry ∧ entry.unmetered = false := by
  obtain ⟨fold,shape,count,gone,fresh,others⟩ := crowd_fold
  obtain ⟨first,split,_,_,named⟩ := crowd_listed
  have pid := named late (List.mem_append_right _ (List.mem_singleton_self _))
  have one : Fold.history naturals [crowd] = fold := shape
  have two : Fold.history naturals [crowd,emptied,seenAgain] =
      foldChildLedgers naturals seenAgain (foldChildLedgers naturals emptied fold) := by
    rw [← shape]
    rfl
  obtain ⟨gone',_,files⟩ := @fold_alive emptied (fun _ _ _ => rfl) fold
  have listed : emptied.listed = [] := List.mergeSort_nil
  rw [listed] at files
  dsimp only [List.foldl_nil] at files
  rw [one,two]
  refine ⟨count,by rw [split]; exact List.mem_append_right _ (List.mem_singleton_self _),others,?_⟩
  generalize foldChildLedgers naturals emptied fold = quiet at gone' files
  have closed : (quiet.files.values.filter Entry.isOpen).length = 0 := by
    rw [List.length_eq_zero_iff,List.filter_eq_nil_iff]
    intro entry inside
    obtain ⟨name,held⟩ := (Dict.mem_values_iff _ _).mp inside
    rw [files] at held
    obtain ⟨old,_,rfl⟩ := Option.map_eq_some_iff.mp held
    unfold Entry.isOpen vanish
    split
    · exact Bool.false_ne_true
    next ended =>
      have alive : old.unmetered = true := by simpa using ended
      rw [alive]
      exact Bool.false_ne_true
  obtain ⟨_,_,last⟩ := @fold_alive seenAgain (fun _ _ _ => rfl) quiet
  have listed' : seenAgain.listed = [late] := List.mergeSort_singleton _
  have opens := @name_fresh seenAgain ⟨quiet.files,[],(quiet.files.values.filter Entry.isOpen).length,0⟩ late 1 rfl pid (by
    rw [files,fresh]
    rfl) (by
      rw [closed]
      exact Nat.zero_lt_succ 511)
  rw [listed',gone',gone] at last
  dsimp only [List.foldl_cons,List.foldl_nil] at last
  rw [opens] at last
  refine ⟨_,by rw [last,Dict.get?_set_self]; rfl,?_⟩
  unfold vanish
  rw [if_neg fun lost => lost.1 List.mem_cons_self]

end PiDispatch.UsageMeter
