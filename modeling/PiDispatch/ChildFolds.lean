import PiDispatch.ChildLedgerRead
import PiDispatch.Kernel.DictSums

/-! What one fold over the children's files does to each file's entry, and the marks that a fold sums: one for each name
that was ever kept, retired or not. -/
namespace PiDispatch.UsageMeter
open Kernel JsonText Relation

/-! Rows add up field by field. -/

instance : Add Row := ⟨foldRow⟩

instance : Zero Row := ⟨emptyRow⟩

instance : AddCommMonoid Row where
  add_assoc := foldRow_assoc
  zero_add := empty_foldRow
  add_zero := foldRow_empty
  add_comm := foldRow_comm
  nsmul := nsmulRec

instance : PartialOrder Row where
  le := Row.Within
  le_refl := .rfl
  le_trans _ _ _ := .trans
  le_antisymm one other first second := by
    apply Row.ext
    · exact le_antisymm first.calls second.calls
    · exact le_antisymm first.input second.input
    · exact le_antisymm first.output second.output
    · exact le_antisymm first.cacheRead second.cacheRead
    · exact le_antisymm first.cacheWrite second.cacheWrite
    · exact le_antisymm first.cacheWrite1h second.cacheWrite1h
    · exact le_antisymm first.reasoning second.reasoning
    · exact le_antisymm first.total second.total
    · exact le_antisymm first.cost second.cost
    · exact le_antisymm first.unpriced second.unpriced
    · exact le_antisymm first.providerBilled second.providerBilled

instance : IsOrderedAddMonoid Row where
  add_le_add_left one other within row := by
    change (foldRow one row).Within (foldRow other row)
    exact foldRow_within within (.rfl row)

theorem sumRows_eq (rows : List LedgerRow) : sumRows rows = (rows.map LedgerRow.row).sum := by
  induction rows with
  | nil => rfl
  | cons row rest ih =>
    rw [sumRows_cons,List.map_cons,List.sum_cons,ih]
    rfl

variable (figures : Figures)

/-! What a read does to an entry. -/

/-- A read of a file that is not given up: it is judged against its mark. -/
inductive Judged (tick : Tick) (name : String) (before : Option Entry) : Option Entry → Prop
  | judged (pid : Nat) (ledger : Option Ledger) (named : ledgerPid name = some pid)
      (live : ∀ entry, before = some entry → entry.unmetered = false)
      (read : (readLedger (tick.read name) = .bad ∧ ledger = none) ∨
        ∃ text, readLedger (tick.read name) = .text text ∧ ledger = parseChildLedger figures text) :
      Judged tick name before (some (judgeLedger before pid ledger))

section Names
variable (retired : List String) (tick : Tick)

private theorem read_get (loop : Loop) (name : String) {pid : Nat} (named : ledgerPid name = some pid)
    (live : ∀ entry, loop.files.get? name = some entry → entry.unmetered = false) :
    (loop.readName figures tick name pid (loop.files.get? name)).files = loop.files ∨
      ∃ entry, Judged figures tick name (loop.files.get? name) (some entry) ∧
        (loop.readName figures tick name pid (loop.files.get? name)).files = loop.files.set name entry := by
  unfold Loop.readName
  dsimp only
  cases read : readLedger (tick.read name) with
  | gone => exact .inl rfl
  | unchanged => exact .inl rfl
  | bad => exact .inr ⟨_,.judged pid none named live (.inl ⟨read,rfl⟩),rfl⟩
  | text text => exact .inr ⟨_,.judged pid _ named live (.inr ⟨text,read,rfl⟩),rfl⟩

theorem name_files (loop : Loop) (name : String) :
    (loop.name figures retired tick name).files = loop.files ∨ name ∉ retired ∧
      ∃ entry, Judged figures tick name (loop.files.get? name) (some entry) ∧
        (loop.name figures retired tick name).files = loop.files.set name entry := by
  unfold Loop.name
  split
  · exact .inl rfl
  next pid named =>
    split
    · exact .inl rfl
    next kept =>
      split
      next fresh =>
        split
        · exact .inl rfl
        · have read := read_get figures tick loop name named (by rw [fresh]; rintro _ ⟨⟩)
          rw [fresh] at read
          rcases read with same | judged
          · exact .inl same
          · exact .inr ⟨kept,by rw [fresh]; exact judged⟩
      next before held =>
        split
        · exact .inl rfl
        next live =>
          have read := read_get figures tick loop name named (by
            rw [held]
            intro entry same
            cases same
            exact Bool.eq_false_of_not_eq_true live)
          rw [held] at read
          rcases read with same | judged
          · exact .inl same
          · exact .inr ⟨kept,by rw [held]; exact judged⟩

/-- Over a whole listing, each name's entry changes by reads of that name alone. -/
theorem loop_get (names : List String) (loop : Loop) (name : String) :
    ReflTransGen (Judged figures tick name) (loop.files.get? name)
      ((names.foldl (Loop.name figures retired tick) loop).files.get? name) ∧
    (name ∈ retired → (names.foldl (Loop.name figures retired tick) loop).files.get? name = loop.files.get? name) := by
  induction names generalizing loop with
  | nil => exact ⟨.refl,fun _ => rfl⟩
  | cons first rest ih =>
    obtain ⟨reads,same⟩ := ih (loop.name figures retired tick first)
    rw [List.foldl_cons]
    rcases name_files figures retired tick loop first with still | ⟨kept,entry,judged,shape⟩
    · rw [still] at reads same
      exact ⟨reads,same⟩
    · rw [shape] at reads same
      by_cases own : first = name
      · subst own
        rw [Dict.get?_set_self] at reads
        exact ⟨.head judged reads,fun gone => absurd gone kept⟩
      · rw [Dict.get?_set_ne _ _ own] at reads same
        exact ⟨reads,same⟩

end Names

theorem emptyLedger_fair : emptyLedger.Fair := by
  have within : (0 : Int) ≤ maxSafeInteger := Int.natCast_nonneg maxSafeInteger
  have zero : agrees 0 0 = true := by
    unfold agrees
    rw [sub_self,abs_zero]
    norm_num
  exact ⟨Nat.le_refl 0,rfl,rfl,zero,zero,zero,zero,⟨le_refl _,le_refl _,le_refl _,le_refl _⟩,List.nodup_nil,
    fun _ none => absurd none List.not_mem_nil,⟨le_refl _,within⟩,⟨le_refl _,within⟩⟩

/-- A judged entry keeps the mark it had, or has the ledger that was read, which reached that mark. -/
theorem judgeLedger_high (before : Option Entry) (pid : Nat) (ledger : Option Ledger) :
    (judgeLedger before pid ledger).high = (before.map Entry.high).getD emptyLedger ∨
      ledger = some (judgeLedger before pid ledger).high ∧
        ∀ entry, before = some entry → Reached entry.high (judgeLedger before pid ledger).high := by
  unfold judgeLedger
  dsimp only
  cases ledger with
  | none => exact .inl rfl
  | some ledger =>
    dsimp only
    split
    · exact .inl rfl
    · split
      · exact .inl rfl
      next up =>
        refine .inr ⟨rfl,?_⟩
        intro entry held
        subst held
        simp only [Option.isSome_some,true_and,Option.map_some,Option.getD_some,Bool.not_eq_false] at up
        exact reached_iff.mp up

/-- What reads leave of an entry: its mark is kept or raised, and one that is given up is read no more. -/
theorem reads_entry {tick : Tick} {name : String} {before after : Option Entry}
    (reads : ReflTransGen (Judged figures tick name) before after)
    (fair : ∀ entry, before = some entry → entry.high.Fair) :
    (∀ entry, after = some entry → entry.high.Fair) ∧ ∀ entry, before = some entry → ∃ now, after = some now ∧
      Reached entry.high now.high ∧ (entry.unmetered = true → now = entry) := by
  induction reads with
  | refl => exact ⟨fair,fun entry held => ⟨entry,held,(fair entry held).reached,fun _ => rfl⟩⟩
  | @tail middle last _ judged ih =>
    obtain ⟨sound,raised⟩ := ih
    obtain ⟨pid,ledger,_,live,read⟩ := judged
    refine ⟨?_,?_⟩
    · intro entry same
      cases same
      rcases judgeLedger_high middle pid ledger with kept | ⟨own,_⟩
      · rw [kept]
        cases middle with
        | none => exact emptyLedger_fair
        | some held => exact sound held rfl
      · rcases read with ⟨_,none⟩ | ⟨text,_,parsed⟩
        · rw [own] at none
          cases none
        · exact parsed_fair (parsed.symm.trans own)
    · intro entry held
      obtain ⟨now,here,up,still⟩ := raised entry held
      refine ⟨_,rfl,?_,?_⟩
      · rcases judgeLedger_high middle pid ledger with kept | ⟨_,further⟩
        · rw [kept,here]
          exact up
        · exact up.trans (further now here)
      · intro ended
        have own := still ended
        have alive := live now here
        rw [own,ended] at alive
        cases alive

/-- A mark that a reading of a directory gives: nothing, or a ledger that one of its files holds. -/
def Yields (tick : Tick) (mark : Ledger) : Prop :=
  mark = emptyLedger ∨ ∃ name text, readLedger (tick.read name) = .text text ∧ parseChildLedger figures text = some mark

theorem reads_given {tick : Tick} {name : String} {before after : Option Entry}
    (reads : ReflTransGen (Judged figures tick name) before after) :
    ∀ entry, after = some entry → (∃ held, before = some held ∧ entry.high = held.high) ∨ Yields figures tick entry.high := by
  induction reads with
  | refl => exact fun entry held => .inl ⟨entry,held,rfl⟩
  | @tail middle last _ judged ih =>
    obtain ⟨pid,ledger,_,_,read⟩ := judged
    intro entry same
    cases same
    rcases judgeLedger_high middle pid ledger with kept | ⟨own,_⟩
    · rw [kept]
      cases middle with
      | none => exact .inr (.inl rfl)
      | some held => exact ih held rfl
    · rcases read with ⟨_,none⟩ | ⟨text,text',parsed⟩
      · rw [own] at none
        cases none
      · exact .inr (.inr ⟨name,text,text',parsed.symm.trans own⟩)

/-! One fold. -/

theorem vanish_high (present : List String) (name : String) (entry : Entry) : (vanish present name entry).high = entry.high ∧
    (entry.unmetered = true → vanish present name entry = entry) := by
  unfold vanish
  split
  next lost =>
    refine ⟨rfl,fun ended => ?_⟩
    rw [lost.2] at ended
    cases ended
  · exact ⟨rfl,fun _ => rfl⟩

/-- What a fold keeps and what it retires, of the entries that its reads leave. -/
theorem fold_shape (tick : Tick) (prev : Fold) : ∃ files : Dict String Entry,
    (∀ name, ∃ read present, ReflTransGen (Judged figures tick name) (prev.files.get? name) read ∧
      (name ∈ prev.retired.names → read = prev.files.get? name) ∧
      files.get? name = read.map (vanish present name)) ∧
    (foldChildLedgers figures tick prev).files = files.filter (fun name entry => !tick.isGone name entry) ∧
    (foldChildLedgers figures tick prev).retired =
      (files.entries.filter fun entry => tick.isGone entry.1 entry.2).foldl (fun retired entry => retired.add entry.1 entry.2)
        prev.retired ∧
    prev.flooded ≤ (foldChildLedgers figures tick prev).flooded := by
  refine ⟨_,?_,rfl,rfl,Nat.le_max_left _ _⟩
  intro name
  obtain ⟨reads,same⟩ := loop_get figures prev.retired.names tick tick.listed
    ⟨prev.files,[],(prev.files.values.filter Entry.isOpen).length,0⟩ name
  exact ⟨_,_,reads,same,Dict.get?_mapValues _ _ _⟩

theorem retired_all (entries : List (String × Entry)) (retired : Retired) :
    let after := entries.foldl (fun retired entry => retired.add entry.1 entry.2) retired
    after.names = (entries.map Prod.fst).reverse ++ retired.names ∧ after.count = retired.count + entries.length ∧
      after.high = (entries.map fun entry => entry.2.high).foldl addLedger retired.high ∧
      after.settled = (entries.map fun entry => ledgerSettled entry.2.high).foldl saturatingAdd retired.settled := by
  induction entries generalizing retired with
  | nil => exact ⟨rfl,rfl,rfl,rfl⟩
  | cons entry rest ih =>
    obtain ⟨names,count,high,settled⟩ := ih (retired.add entry.1 entry.2)
    refine ⟨?_,?_,high,settled⟩
    · rw [List.foldl_cons,names,List.map_cons,List.reverse_cons,List.append_assoc]
      rfl
    · rw [List.foldl_cons,count,List.length_cons]
      change retired.count + 1 + rest.length = retired.count + (rest.length + 1)
      omega

/-- The marks of a fold, one for each name: those of the retired files, in `gone`, and those of the files it keeps. -/
structure Fold.Booked (fold : Fold) (gone : List (String × Ledger)) (book : Dict String Ledger) : Prop where
  shape : book.entries = gone ++ fold.files.entries.map fun entry => (entry.1,entry.2.high)
  names : fold.retired.names = (gone.map Prod.fst).reverse
  count : fold.retired.count = gone.length
  high : fold.retired.high = (gone.map Prod.snd).foldl addLedger emptyLedger
  settled : fold.retired.settled = (gone.map fun mark => ledgerSettled mark.2).foldl saturatingAdd 0
  fair : ∀ mark ∈ book.values, mark.Fair

namespace Fold

theorem initial_booked : initial.Booked [] Dict.empty :=
  ⟨rfl,rfl,rfl,rfl,rfl,fun _ none => absurd none List.not_mem_nil⟩

variable {fold : Fold} {gone : List (String × Ledger)} {book : Dict String Ledger}

theorem Booked.tracked (booked : fold.Booked gone book) {name : String} {entry : Entry}
    (held : fold.files.get? name = some entry) : book.get? name = some entry.high := by
  rw [Dict.get?_eq_some_iff] at held ⊢
  rw [booked.shape]
  exact List.mem_append_right _ (List.mem_map.mpr ⟨_,held,rfl⟩)

/-- A retired name has no entry. -/
theorem Booked.apart (booked : fold.Booked gone book) {name : String} (inside : name ∈ gone.map Prod.fst) :
    fold.files.get? name = none := by
  have distinct := book.distinct
  rw [booked.shape,List.map_append] at distinct
  rw [Dict.get?_eq_none_iff]
  intro present
  refine (List.nodup_append.mp distinct).2.2 name inside name ?_ rfl
  rw [List.map_map]
  exact present

theorem Booked.mark_fair (booked : fold.Booked gone book) {name : String} {entry : Entry}
    (held : fold.files.get? name = some entry) : entry.high.Fair :=
  booked.fair _ ((Dict.mem_values_iff _ _).mpr ⟨name,booked.tracked held⟩)

/-- What a fold keeps of the files, before it retires any: each entry with a mark that is kept or raised. -/
theorem Booked.files (booked : fold.Booked gone book) (tick : Tick) : ∃ files : Dict String Entry,
    (∀ name ∈ gone.map Prod.fst, files.get? name = none) ∧ (∀ name entry, files.get? name = some entry → entry.high.Fair) ∧
    (∀ name entry, fold.files.get? name = some entry → ∃ now, files.get? name = some now ∧ Reached entry.high now.high ∧
      (entry.unmetered = true → now = entry)) ∧
    (foldChildLedgers figures tick fold).files = files.filter (fun name entry => !tick.isGone name entry) ∧
    (foldChildLedgers figures tick fold).retired =
      (files.entries.filter fun entry => tick.isGone entry.1 entry.2).foldl (fun retired entry => retired.add entry.1 entry.2)
        fold.retired ∧
    fold.flooded ≤ (foldChildLedgers figures tick fold).flooded ∧
    ∀ name entry, files.get? name = some entry → entry.high ∈ book.values ∨ Yields figures tick entry.high := by
  obtain ⟨files,each,kept,retired,flooded⟩ := fold_shape figures tick fold
  refine ⟨files,?_,?_,?_,kept,retired,flooded,?_⟩
  · intro name inside
    obtain ⟨read,present,_,same,shape⟩ := each name
    rw [shape,same (by rw [booked.names]; exact List.mem_reverse.mpr inside),booked.apart inside]
    rfl
  · intro name entry held
    obtain ⟨read,present,reads,_,shape⟩ := each name
    rw [shape] at held
    obtain ⟨old,here,rfl⟩ := Option.map_eq_some_iff.mp held
    rw [(vanish_high present name old).1]
    exact (reads_entry figures reads fun _ => booked.mark_fair).1 old here
  · intro name entry held
    obtain ⟨read,present,reads,_,shape⟩ := each name
    obtain ⟨now,here,up,still⟩ := (reads_entry figures reads fun _ => booked.mark_fair).2 entry held
    obtain ⟨high,whole⟩ := vanish_high present name now
    refine ⟨vanish present name now,by rw [shape,here]; rfl,by rw [high]; exact up,?_⟩
    intro ended
    have own := still ended
    rw [whole (by rw [own]; exact ended)]
    exact own
  · intro name entry held
    obtain ⟨read,present,reads,_,shape⟩ := each name
    rw [shape] at held
    obtain ⟨old,here,rfl⟩ := Option.map_eq_some_iff.mp held
    rw [(vanish_high present name old).1]
    rcases reads_given figures reads old here with ⟨before,there,same⟩ | given
    · rw [same]
      exact .inl ((Dict.mem_values_iff _ _).mpr ⟨name,booked.tracked there⟩)
    · exact .inr given

/-- A fold's book after one more: every mark is there, kept or raised, and the retired ones are kept as they are. -/
theorem Booked.next (booked : fold.Booked gone book) (tick : Tick) : ∃ more later,
    (foldChildLedgers figures tick fold).Booked (gone ++ more) later ∧ Dict.Raises Reached book later ∧
      ∀ mark ∈ later.values, mark ∈ book.values ∨ Yields figures tick mark := by
  obtain ⟨files,apart,fair,raised,kept,retired,_,given⟩ := booked.files figures tick
  have all := retired_all (files.entries.filter fun entry => tick.isGone entry.1 entry.2) fold.retired
  rw [← retired] at all
  obtain ⟨names,count,high,settled⟩ := all
  have parts := List.filter_append_perm (fun entry : String × Entry => tick.isGone entry.1 entry.2) files.entries
  generalize leaving : (files.entries.filter fun entry => tick.isGone entry.1 entry.2) = left at names count high settled parts
  have staying : (foldChildLedgers figures tick fold).files.entries = files.entries.filter fun entry => !tick.isGone entry.1 entry.2 := by
    rw [kept]
    rfl
  rw [← staying] at parts
  let mark (entry : String × Entry) : String × Ledger := (entry.1,entry.2.high)
  have keys : (files.entries.map mark).map Prod.fst = files.keys := by
    rw [List.map_map]
    rfl
  have distinct : (((gone ++ left.map mark) ++ (foldChildLedgers figures tick fold).files.entries.map mark).map Prod.fst).Nodup := by
    have first := book.distinct
    rw [booked.shape,List.map_append] at first
    rw [List.append_assoc,← List.map_append,List.map_append]
    refine List.nodup_append.mpr ⟨(List.nodup_append.mp first).1,?_,?_⟩
    · rw [((parts.map mark).map Prod.fst).nodup_iff,keys]
      exact files.distinct
    · intro name inside other there same
      subst same
      rw [((parts.map mark).map Prod.fst).mem_iff,keys] at there
      exact (Dict.get?_eq_none_iff _ _).mp (apart name inside) there
  have held : ∀ name entry, files.get? name = some entry → (name,entry.high) ∈
      (gone ++ left.map mark) ++ (foldChildLedgers figures tick fold).files.entries.map mark := by
    intro name entry here
    rw [List.append_assoc,← List.map_append]
    refine List.mem_append_right _ ?_
    rw [(parts.map mark).mem_iff]
    exact List.mem_map.mpr ⟨_,(Dict.get?_eq_some_iff _ _ _).mp here,rfl⟩
  have marks : ∀ entry ∈ (gone ++ left.map mark) ++ (foldChildLedgers figures tick fold).files.entries.map mark,
      entry.2 ∈ book.values ∨ ∃ name own, files.get? name = some own ∧ entry.2 = own.high := by
    intro entry member
    rw [List.append_assoc,← List.map_append] at member
    rcases List.mem_append.mp member with old | new
    · refine .inl (List.mem_map.mpr ⟨entry,?_,rfl⟩)
      rw [booked.shape]
      exact List.mem_append_left _ old
    · rw [(parts.map mark).mem_iff] at new
      obtain ⟨own,there,rfl⟩ := List.mem_map.mp new
      exact .inr ⟨own.1,own.2,Dict.get?_of_mem files there,rfl⟩
  refine ⟨left.map mark,⟨_,distinct⟩,⟨rfl,?_,?_,?_,?_,?_⟩,?_,?_⟩
  · rw [names,booked.names,List.map_append,List.reverse_append,List.map_map]
    rfl
  · rw [count,booked.count,List.length_append,List.length_map]
  · rw [high,booked.high,List.map_append,List.foldl_append,List.map_map]
    rfl
  · rw [settled,booked.settled,List.map_append,List.foldl_append,List.map_map]
    rfl
  · intro ledger inside
    obtain ⟨entry,member,rfl⟩ := List.mem_map.mp inside
    rcases marks entry member with old | ⟨name,own,there,same⟩
    · exact booked.fair entry.2 old
    · rw [same]
      exact fair name own there
  · intro name ledger here
    rw [Dict.get?_eq_some_iff,booked.shape] at here
    rcases List.mem_append.mp here with old | new
    · have own : ledger.Fair := booked.fair ledger (List.mem_map.mpr ⟨_,by rw [booked.shape]; exact here,rfl⟩)
      refine ⟨ledger,(Dict.get?_eq_some_iff _ _ _).mpr ?_,own.reached⟩
      exact List.mem_append_left _ (List.mem_append_left _ old)
    · obtain ⟨entry,there,same⟩ := List.mem_map.mp new
      cases same
      obtain ⟨now,found,up,_⟩ := raised entry.1 entry.2 (Dict.get?_of_mem _ there)
      exact ⟨now.high,(Dict.get?_eq_some_iff _ _ _).mpr (held _ _ found),up⟩
  · intro ledger inside
    obtain ⟨entry,member,rfl⟩ := List.mem_map.mp inside
    rcases marks entry member with old | ⟨name,own,there,same⟩
    · exact .inl old
    · rw [same]
      exact given name own there

end Fold

end PiDispatch.UsageMeter
