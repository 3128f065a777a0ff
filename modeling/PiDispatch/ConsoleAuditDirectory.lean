import PiDispatch.ConsoleAuditFiles

/-! The audit directory as appends, crashes and reapers leave it: rows in the order of the files' names, at most one fragment
behind the last of them, and what the walk and the next append find there. -/
namespace PiDispatch.ConsoleAudit
open Kernel JsonText

/-- Where what is kept once is kept ever after, what is left out stands in front. -/
theorem filter_split {α : Type} {keep : α → Bool} {list : List α}
    (lasting : list.Pairwise fun earlier later => keep earlier = true → keep later = true) :
    list.filter (fun item => !keep item) ++ list.filter keep = list := by
  induction list with
  | nil => rfl
  | cons item list ih =>
    obtain ⟨first,rest⟩ := List.pairwise_cons.mp lasting
    cases own : keep item with
    | true =>
      have all : ∀ other ∈ list, keep other = true := fun other inside => first other inside own
      rw [List.filter_cons_of_neg (by simp [own]),List.filter_cons_of_pos own,List.filter_eq_self.mpr all,
        List.filter_eq_nil_iff.mpr (by simpa using all)]
      rfl
    | false =>
      rw [List.filter_cons_of_pos (by simp [own]),List.filter_cons_of_neg (by simp [own]),List.cons_append,ih rest]

section Names
variable {dir : Directory} {file : String}

theorem monthFiles_mem : file ∈ monthFiles dir ↔ isMonthFile file = true ∧ file ∈ dir.keys := by
  unfold monthFiles
  rw [(sortTexts_perm _).mem_iff,List.mem_filter]
  exact and_comm

theorem monthFiles_sorted (dir : Directory) :
    (monthFiles dir).Pairwise fun earlier later => notAfter earlier later = true := sortTexts_sorted _

theorem monthFiles_nodup (dir : Directory) : (monthFiles dir).Nodup :=
  (sortTexts_perm _).nodup_iff.mpr (dir.distinct.filter _)

/-- The files on both sides of one. -/
theorem monthFiles_around (inside : file ∈ monthFiles dir) : ∃ earlier later, monthFiles dir = earlier ++ file :: later ∧
    (∀ other ∈ earlier, notAfter other file = true ∧ other ≠ file) ∧
      ∀ other ∈ later, notAfter file other = true ∧ other ≠ file := by
  obtain ⟨earlier,later,shape⟩ := List.append_of_mem inside
  have sorted := monthFiles_sorted dir
  have distinct := monthFiles_nodup dir
  rw [shape] at sorted distinct
  obtain ⟨_,after,across⟩ := List.pairwise_append.mp sorted
  obtain ⟨_,after',across'⟩ := List.nodup_append.mp distinct
  refine ⟨earlier,later,shape,fun other among => ⟨across other among file List.mem_cons_self,across' other among file
    List.mem_cons_self⟩,fun other among => ⟨(List.pairwise_cons.mp after).1 other among,?_⟩⟩
  rintro rfl
  exact (List.nodup_cons.mp after').1 among

theorem contentOf_set (dir : Directory) (name : String) (own : AuditFile) (file : String) :
    contentOf (dir.set name own) file = if name = file then own.bytes else contentOf dir file := by
  unfold contentOf
  rw [dir.get?_set name file own]
  split <;> rfl

theorem monthFiles_set (dir : Directory) (name : String) (own : AuditFile) :
    file ∈ monthFiles (dir.set name own) ↔ file ∈ monthFiles dir ∨ file = name ∧ isMonthFile name = true := by
  rw [monthFiles_mem,monthFiles_mem]
  by_cases present : name ∈ dir.keys
  · rw [dir.keys_set_present own present]
    constructor
    · exact .inl
    · rintro (held | ⟨rfl,month⟩)
      · exact held
      · exact ⟨month,present⟩
  · rw [dir.keys_set_absent own present,List.mem_append,List.mem_singleton]
    constructor
    · rintro ⟨month,held | rfl⟩
      · exact .inl ⟨month,held⟩
      · exact .inr ⟨rfl,month⟩
    · rintro (⟨month,held⟩ | ⟨rfl,month⟩)
      · exact ⟨month,.inl held⟩
      · exact ⟨month,.inr rfl⟩

end Names

section Months

/-- A month file's name is its month and the ending. -/
theorem month_name {file : String} (month : isMonthFile file = true) :
    Clock.slice 7 file.toList ++ ".jsonl" = file ∧ ∃ a b c d e f, (Clock.slice 7 file.toList).toList = [a,b,c,d,'-',e,f] ∧
      [a,b,c,d,e,f].all Char.isDigit = true := by
  unfold isMonthFile at month
  split at month
  next a b c d e f letters =>
    refine ⟨?_,a,b,c,d,e,f,?_,month⟩
    · apply String.toList_injective
      rw [letters,String.toList_append,Clock.slice,String.toList_ofList]
      rfl
    · rw [letters,Clock.slice,String.toList_ofList]
      rfl
  · cases month

theorem isMonthFile_of_digits {month : String} {a b c d e f : Char} (shape : month.toList = [a,b,c,d,'-',e,f])
    (digits : [a,b,c,d,e,f].all Char.isDigit = true) : isMonthFile (month ++ ".jsonl") = true := by
  unfold isMonthFile
  rw [String.toList_append,shape]
  exact digits

private theorem units_append {left right : List Nat} (rest : List Nat) (long : left.length = right.length)
    (order : unitsNotAfter left right = true) : unitsNotAfter (left ++ rest) (right ++ rest) = true := by
  induction left generalizing right with
  | nil =>
    obtain rfl : right = [] := List.length_eq_zero_iff.mp long.symm
    induction rest with
    | nil => rfl
    | cons unit rest ih =>
      simp only [List.nil_append,unitsNotAfter,decide_eq_true_eq] at ih ⊢
      exact .inr ⟨trivial,ih⟩
  | cons left lefts ih =>
    cases right with
    | nil => cases order
    | cons right rights =>
      simp only [List.cons_append,unitsNotAfter,decide_eq_true_eq] at order ⊢
      exact order.imp_right fun both => ⟨both.1,ih (Nat.succ.inj long) both.2⟩

private theorem digit_unit {letter : Char} (digit : letter.isDigit = true) : 48 ≤ letter.toNat ∧ letter.toNat < 65536 := by
  have range := Bool.and_eq_true_iff.mp digit
  have least := UInt32.le_iff_toNat_le.mp (of_decide_eq_true range.1)
  have most := UInt32.le_iff_toNat_le.mp (of_decide_eq_true range.2)
  exact ⟨least,lt_of_le_of_lt most (by decide)⟩

private theorem utf16_small {text : String} (small : ∀ letter ∈ text.toList, letter.toNat < 65536) :
    utf16 text = text.toList.map Char.toNat := by
  unfold utf16
  generalize text.toList = letters at small
  induction letters with
  | nil => rfl
  | cons letter letters ih =>
    rw [List.flatMap_cons,if_pos (small letter List.mem_cons_self),List.map_cons,
      ih fun other inside => small other (List.mem_cons_of_mem _ inside)]
    rfl

private theorem month_units {month : String} {a b c d e f : Char} (shape : month.toList = [a,b,c,d,'-',e,f])
    (digits : [a,b,c,d,e,f].all Char.isDigit = true) :
    utf16 month = [a.toNat,b.toNat,c.toNat,d.toNat,45,e.toNat,f.toNat] ∧ 48 ≤ a.toNat := by
  have each : ∀ letter ∈ [a,b,c,d,e,f], 48 ≤ letter.toNat ∧ letter.toNat < 65536 :=
    fun letter inside => digit_unit (List.all_eq_true.mp digits letter inside)
  refine ⟨?_,(each a (by simp)).1⟩
  rw [utf16_small,shape]
  · rfl
  · intro letter inside
    rw [shape] at inside
    simp only [List.mem_cons,List.not_mem_nil,or_false] at inside
    rcases inside with rfl | rfl | rfl | rfl | rfl | rfl | rfl
    · exact (each _ (by simp)).2
    · exact (each _ (by simp)).2
    · exact (each _ (by simp)).2
    · exact (each _ (by simp)).2
    · decide
    · exact (each _ (by simp)).2
    · exact (each _ (by simp)).2

/-- An instant that is not before a month of four digits for the year has such a month itself. -/
theorem later_month {newest : String} {a b c d e f : Char} (shape : newest.toList = [a,b,c,d,'-',e,f])
    (digits : [a,b,c,d,e,f].all Char.isDigit = true) {now : Int} {at' : Text} (found : Clock.isoInstant now = some at')
    (later : notAfter newest (Clock.slice 7 at') = true) :
    0 ≤ (Clock.civil (now / 86400000)).year ∧ (Clock.civil (now / 86400000)).year ≤ 9999 := by
  by_contra beyond
  have signed : ∃ sign rest, at' = sign :: rest ∧ sign.toNat < 48 := by
    unfold Clock.isoInstant at found
    split at found
    · cases found
    rw [← Option.some.inj found]
    unfold Clock.isoDate
    rw [if_neg beyond]
    refine ⟨_,_,rfl,?_⟩
    split <;> decide
  obtain ⟨sign,rest,rfl,small⟩ := signed
  obtain ⟨units,digit⟩ := month_units shape digits
  have first : utf16 (Clock.slice 7 (sign :: rest)) = sign.toNat :: utf16 (Clock.slice 6 rest) := by
    unfold utf16 Clock.slice
    rw [String.toList_ofList,String.toList_ofList,List.take_succ_cons,List.flatMap_cons,if_pos (by omega)]
    rfl
  unfold notAfter at later
  rw [units,first] at later
  simp only [unitsNotAfter,decide_eq_true_eq] at later
  rcases later with less | ⟨same,_⟩ <;> omega

/-- Months in order are files in order. -/
theorem months_order {first second : String} {a b c d e f p q r s t u : Char}
    (shape : first.toList = [a,b,c,d,'-',e,f]) (digits : [a,b,c,d,e,f].all Char.isDigit = true)
    (shape' : second.toList = [p,q,r,s,'-',t,u]) (digits' : [p,q,r,s,t,u].all Char.isDigit = true)
    (order : notAfter first second = true) : notAfter (first ++ ".jsonl") (second ++ ".jsonl") = true := by
  have splits : ∀ text : String, utf16 (text ++ ".jsonl") = utf16 text ++ utf16 ".jsonl" := by
    intro text
    unfold utf16
    rw [String.toList_append,List.flatMap_append]
  obtain ⟨units,_⟩ := month_units shape digits
  obtain ⟨units',_⟩ := month_units shape' digits'
  unfold notAfter at order ⊢
  rw [splits,splits]
  exact units_append _ (by rw [units,units']; rfl) order

end Months

section Standing
variable {arithmetic : Arithmetic} {sha256 : Text → Text}

def rowsOf (rows : List (String × Text)) (file : String) : List Text :=
  (rows.filter fun row => row.1 = file).map Prod.snd

def leftIn (torn : Option (String × List UInt8)) (file : String) : List UInt8 :=
  match torn with
  | none => []
  | some (own,bytes) => if own = file then bytes else []

variable (arithmetic sha256)

/-- Rows stand in a directory's month files, and perhaps a fragment behind them. -/
structure Stands (dir : Directory) (rows : List (String × Text)) (torn : Option (String × List UInt8)) : Prop where
  fits : ∀ row ∈ rows, Fits arithmetic row.2
  placed : ∀ row ∈ rows, row.1 ∈ monthFiles dir
  ordered : rows.Pairwise fun earlier later => notAfter earlier.1 later.1 = true
  content : ∀ file ∈ monthFiles dir, contentOf dir file = linesBytes (rowsOf rows file) ++ leftIn torn file
  torn : ∀ file bytes, torn = some (file,bytes) →
    Fragment arithmetic bytes ∧ file ∈ monthFiles dir ∧ ∀ row ∈ rows, notAfter row.1 file = true
  chained : ∃ last : Option (Prior arithmetic), chain sha256 none (rows.map Prod.snd) = some last

variable {arithmetic sha256} {dir : Directory} {rows : List (String × Text)} {torn : Option (String × List UInt8)}

theorem rowsOf_fits (fits : ∀ row ∈ rows, Fits arithmetic row.2) (file : String) :
    ∀ row ∈ rowsOf rows file, Fits arithmetic row := by
  intro row inside
  obtain ⟨own,among,rfl⟩ := List.mem_map.mp inside
  exact fits own (List.mem_filter.mp among).1

theorem rowsOf_append (first second : List (String × Text)) (file : String) :
    rowsOf (first ++ second) file = rowsOf first file ++ rowsOf second file := by
  unfold rowsOf
  rw [List.filter_append,List.map_append]

theorem rowsOf_none {file : String} (apart : ∀ row ∈ rows, row.1 ≠ file) : rowsOf rows file = [] := by
  unfold rowsOf
  rw [List.filter_eq_nil_iff.mpr (by simpa using fun name text inside => apart (name,text) inside)]
  rfl

theorem rowsOf_own (file : String) (text : Text) : rowsOf [(file,text)] file = [text] := by
  unfold rowsOf
  rw [List.filter_cons_of_pos (by simp)]
  rfl

/-- File by file, in the order of the names, the rows come as they were written. -/
theorem rowsOf_all {files : List String} (sorted : files.Pairwise fun earlier later => notAfter earlier later = true)
    (distinct : files.Nodup) (ordered : rows.Pairwise fun earlier later => notAfter earlier.1 later.1 = true)
    (placed : ∀ row ∈ rows, row.1 ∈ files) : files.flatMap (rowsOf rows) = rows.map Prod.snd := by
  induction files generalizing rows with
  | nil =>
    cases rows with
    | nil => rfl
    | cons row rows => exact absurd (placed row List.mem_cons_self) List.not_mem_nil
  | cons file files ih =>
    obtain ⟨first,sorted'⟩ := List.pairwise_cons.mp sorted
    obtain ⟨fresh,distinct'⟩ := List.nodup_cons.mp distinct
    have lasting : rows.Pairwise fun earlier later => decide (earlier.1 ≠ file) = true → decide (later.1 ≠ file) = true := by
      refine ordered.imp_of_mem ?_
      intro earlier later inside _ order apart
      rw [decide_eq_true_eq] at apart ⊢
      rintro same
      rw [same] at order
      rcases List.mem_cons.mp (placed earlier inside) with own | among
      · exact apart own
      · exact apart (notAfter_antisymm order (first _ among))
    have split' := filter_split lasting
    have placed' : ∀ row ∈ rows.filter fun row => row.1 ≠ file, row.1 ∈ files := by
      intro row inside
      obtain ⟨among,apart⟩ := List.mem_filter.mp inside
      exact (List.mem_cons.mp (placed row among)).resolve_left (of_decide_eq_true apart)
    have rest := ih sorted' distinct' (ordered.sublist List.filter_sublist) placed'
    have same : files.flatMap (rowsOf rows) = files.flatMap (rowsOf (rows.filter fun row => row.1 ≠ file)) := by
      refine List.flatMap_congr fun other inside => ?_
      unfold rowsOf
      rw [List.filter_filter]
      congr 1
      refine List.filter_congr fun row _ => ?_
      by_cases own : row.1 = other
      · have apart : row.1 ≠ file := by
          rw [own]
          rintro rfl
          exact fresh inside
        simp [own]
        rw [← own]
        exact apart
      · simp [own]
    rw [List.flatMap_cons,same,rest]
    conv_rhs => rw [← split']
    rw [List.map_append]
    congr 1
    unfold rowsOf
    congr 1
    refine List.filter_congr fun row _ => ?_
    simp

/-- What the walk reads of each file. -/
theorem Stands.lines (stands : Stands arithmetic sha256 dir rows torn) {file : String} (inside : file ∈ monthFiles dir) :
    fileLines (dir.listing.file file) =
      rowsOf rows file ++ if leftIn torn file = [] then [] else [Utf8.decode (leftIn torn file)] := by
  change fileLines ⟨[contentOf dir file],none⟩ = _
  rw [stands.content file inside]
  refine fileLines_rows (fun row own => (rowsOf_fits stands.fits file row own).single) ?_
  unfold leftIn
  cases held : torn with
  | none => exact List.not_mem_nil
  | some own =>
    obtain ⟨fragment,_,_⟩ := stands.torn own.1 own.2 held
    dsimp only
    split
    · exact fragment.single
    · exact List.not_mem_nil

/-- Where no fragment is left, the walk goes through and counts each row. -/
theorem Stands.intact (stands : Stands arithmetic sha256 dir rows none) (withLast : Bool) :
    ∃ startsAt unknown, (verifyConsoleAudit sha256 dir.listing withLast).1 =
      (.intact rows.length startsAt unknown : Report arithmetic) := by
  have each : (monthFiles dir).flatMap (fun file => fileLines (dir.listing.file file)) = rows.map Prod.snd := by
    rw [← rowsOf_all (monthFiles_sorted dir) (monthFiles_nodup dir) stands.ordered stands.placed]
    refine List.flatMap_congr fun file inside => ?_
    rw [stands.lines inside]
    exact List.append_nil _
  obtain ⟨last,chained⟩ := stands.chained
  rw [← each] at chained
  obtain ⟨next,through,rows'⟩ := @walkFiles_chain arithmetic sha256 dir.listing (.start arithmetic) (monthFiles dir) last
    (fun _ _ => rfl) chained
  have names : dir.listing.names = .ok dir.keys := rfl
  unfold verifyConsoleAudit
  dsimp only
  rw [names]
  dsimp only
  rw [show sortTexts (dir.keys.filter isMonthFile) = monthFiles dir from rfl,through]
  rw [each,List.length_map] at rows'
  have counted' : next.rows = rows.length := rows'.trans (Nat.zero_add _)
  dsimp only
  rw [counted']
  exact ⟨_,_,rfl⟩

end Standing

section Heads
variable {arithmetic : Arithmetic} {sha256 : Text → Text} {dir : Directory} {rows : List (String × Text)}
  {torn : Option (String × List UInt8)}

/-- Files that are empty are skipped. -/
theorem headOf_skip {later files : List String} (empty : ∀ file ∈ later, contentOf dir file = []) :
    headOf arithmetic sha256 dir (later ++ files) = headOf arithmetic sha256 dir files := by
  induction later with
  | nil => rfl
  | cons file later ih =>
    rw [List.cons_append,headOf,empty file List.mem_cons_self,lastLine_none]
    exact ih fun other inside => empty other (List.mem_cons_of_mem _ inside)

/-- The head is at the newest file that is not empty. -/
theorem readHead_newest {file : String} (inside : file ∈ monthFiles dir)
    (empty : ∀ other ∈ monthFiles dir, notAfter file other = true → other ≠ file → contentOf dir other = []) :
    ∃ earlier, readHead arithmetic sha256 dir = headOf arithmetic sha256 dir (file :: earlier) := by
  obtain ⟨earlier,later,shape,_,after⟩ := monthFiles_around inside
  refine ⟨earlier.reverse,?_⟩
  unfold readHead
  rw [shape,List.reverse_append,List.reverse_cons,List.append_assoc,List.singleton_append]
  refine headOf_skip fun other among => ?_
  have member : other ∈ monthFiles dir := by
    rw [shape]
    exact List.mem_append_right _ (List.mem_cons_of_mem _ (List.mem_reverse.mp among))
  obtain ⟨order,apart⟩ := after other (List.mem_reverse.mp among)
  exact empty other member order apart

theorem readHead_empty (empty : ∀ file ∈ monthFiles dir, contentOf dir file = []) :
    readHead arithmetic sha256 dir = .ok ⟨arithmetic.ofNat 0,none,none⟩ := by
  have skipped := @headOf_skip arithmetic sha256 dir (monthFiles dir).reverse [] fun file inside =>
    empty file (List.mem_reverse.mp inside)
  rw [List.append_nil] at skipped
  exact skipped

/-- No row can follow a fragment. -/
theorem Stands.no_head {file : String} {bytes : List UInt8} (stands : Stands arithmetic sha256 dir rows (some (file,bytes))) :
    ∃ thrown, readHead arithmetic sha256 dir = .error thrown := by
  obtain ⟨fragment,inside,behind⟩ := stands.torn file bytes rfl
  obtain ⟨earlier,head⟩ := @readHead_newest arithmetic sha256 dir file inside (by
    intro other among order apart
    rw [stands.content other among,rowsOf_none,leftIn]
    · rw [if_neg (fun same => apart same.symm)]
      rfl
    · rintro row held rfl
      exact apart (notAfter_antisymm (behind row held) order))
  have content := stands.content file inside
  rw [leftIn,if_pos rfl] at content
  rw [head,headOf,content]
  rcases lastLine_torn file (rowsOf rows file) fragment with shown | ⟨thrown,long⟩
  · rw [shown]
    dsimp only
    rw [fragment.no_row]
    exact ⟨_,rfl⟩
  · rw [long]
    exact ⟨_,rfl⟩

/-- The next row follows the last row. -/
theorem Stands.head {last : String × Text} (stands : Stands arithmetic sha256 dir (rows ++ [last]) none) :
    ∃ number ≤ counted, seqOf arithmetic (parse arithmetic.toNumbers last.2) = some (arithmetic.ofNat number) ∧
      readHead arithmetic sha256 dir =
        .ok ⟨arithmetic.ofNat number,some (sha256 last.2),some (Clock.slice 7 last.1.toList)⟩ := by
  have inside := stands.placed last (List.mem_append_right _ List.mem_cons_self)
  obtain ⟨number,few,numbered⟩ := (stands.fits last (List.mem_append_right _ List.mem_cons_self)).numbered
  refine ⟨number,few,numbered,?_⟩
  obtain ⟨earlier,head⟩ := @readHead_newest arithmetic sha256 dir last.1 inside (by
    intro other among order apart
    rw [stands.content other among,rowsOf_none]
    · rfl
    · rintro row held rfl
      rcases List.mem_append.mp held with before | own
      · exact apart (notAfter_antisymm ((List.pairwise_append.mp stands.ordered).2.2 row before last List.mem_cons_self) order)
      · rw [List.mem_singleton.mp own] at apart
        exact apart rfl)
  have content := stands.content last.1 inside
  rw [leftIn,List.append_nil,rowsOf_append,rowsOf_own] at content
  have shown := @lastLine_rows arithmetic (rowsOf rows last.1) last.1 last.2 (by
    rw [← rowsOf_own last.1 last.2,← rowsOf_append]
    exact rowsOf_fits stands.fits last.1)
  rw [head,headOf,content,shown]
  dsimp only
  rw [numbered]

theorem judge_seq {prior : Option (Prior arithmetic)} {line : Text} {passed : Passed arithmetic}
    (found : judge prior line = .ok passed) : seqOf arithmetic (parse arithmetic.toNumbers line) = some passed.seq := by
  unfold judge at found
  dsimp only at found
  split at found
  · cases found
  next row parsed =>
    rw [parsed]
    split at found
    · cases found
    next seq numbered =>
      rw [numbered]
      split at found
      · cases found
      split at found
      · cases found
      split at found
      · cases found
      split at found
      · cases found
      split at found
      · cases found
      split at found
      · split at found
        · rw [← Except.ok.inj found]
        split at found
        · rw [← Except.ok.inj found]
        · cases found
      · split at found
        · cases found
        split at found
        · cases found
        · rw [← Except.ok.inj found]

/-- What a chain ends with. -/
theorem chain_last {prior last : Option (Prior arithmetic)} {lines : List Text} {line : Text}
    (whole : chain sha256 prior (lines ++ [line]) = some last) :
    ∃ seq, seqOf arithmetic (parse arithmetic.toNumbers line) = some seq ∧ last = some ⟨seq,sha256 line⟩ := by
  rw [chain_append] at whole
  obtain ⟨middle,_,own⟩ := Option.bind_eq_some_iff.mp whole
  rw [chain] at own
  split at own
  · cases own
  next passed found =>
    exact ⟨passed.seq,judge_seq found,(Option.some.inj own).symm⟩

end Heads

end PiDispatch.ConsoleAudit
