import PiDispatch.ConsoleAuditPages
import PiDispatch.ConsoleAuditRuns
import PiDispatch.Kernel.JsonRoundTrip

/-! Paging through the audit log: a page is the front of what lies under its cursor, the next one begins where it ends, and
what is written behind the newest entry meanwhile is no part of either. -/
namespace PiDispatch.ConsoleAudit
open Kernel JsonText

variable {arithmetic : Arithmetic} {listing : Listing} {file : String}

section Files

/-- Lines as entries, after `i` others. -/
private def placed (file : String) : Nat → List Text → List (Kept arithmetic)
  | _,[] => []
  | i,line :: lines => ⟨entryOf file (i + 1) line,file,i + 1⟩ :: placed file (i + 1) lines

private theorem placed_mapIdx (i : Nat) (lines : List Text) :
    lines.mapIdx (fun k line => (⟨entryOf file (i + k + 1) line,file,i + k + 1⟩ : Kept arithmetic)) = placed file i lines := by
  induction lines generalizing i with
  | nil => rfl
  | cons line lines ih =>
    rw [List.mapIdx_cons,placed,← ih]
    congr 2
    funext k line
    rw [show i + (k + 1) = i + 1 + k by omega]

private theorem placed_append (i : Nat) (first second : List Text) :
    (placed file i (first ++ second) : List (Kept arithmetic)) = placed file i first ++ placed file (i + first.length) second := by
  induction first generalizing i with
  | nil => rfl
  | cons line first ih =>
    rw [List.cons_append,placed,placed,ih,List.length_cons,List.cons_append]
    rw [show i + 1 + first.length = i + (first.length + 1) by omega]

private theorem placed_length (i : Nat) (lines : List Text) : (placed file i lines : List (Kept arithmetic)).length = lines.length := by
  induction lines generalizing i with
  | nil => rfl
  | cons line lines ih => rw [placed,List.length_cons,ih,List.length_cons]

/-- What a failed read adds. -/
private def failed (listing : Listing) (file : String) : List (Kept arithmetic) :=
  match (listing.file file).fault with
  | some code => [⟨.unread file code,file,(fileLines (listing.file file)).length + 1⟩]
  | none => []

private theorem entriesIn_placed : (entriesIn listing file : List (Kept arithmetic)) =
    placed file 0 (fileLines (listing.file file)) ++ failed listing file := by
  have lines := @placed_mapIdx arithmetic file 0 (fileLines (listing.file file))
  simp only [Nat.zero_add] at lines
  unfold entriesIn failed
  dsimp only
  exact congrArg₂ (· ++ ·) lines (by cases (listing.file file).fault <;> rfl)

/-- An entry's line is its number in the file. -/
private theorem entries_at {k : Nat} {kept : Kept arithmetic} (found : (entriesIn listing file)[k]? = some kept) :
    kept.file = file ∧ kept.line = k + 1 := by
  have lines : ∀ (i k : Nat) (lines : List Text) (kept : Kept arithmetic), (placed file i lines)[k]? = some kept →
      kept.file = file ∧ kept.line = i + k + 1 := by
    intro i k lines
    induction lines generalizing i k with
    | nil => exact fun _ none => nomatch none
    | cons line lines ih =>
      intro kept found
      cases k with
      | zero =>
        cases found
        exact ⟨rfl,rfl⟩
      | succ k =>
        obtain ⟨same,number⟩ := ih (i + 1) k kept found
        exact ⟨same,by omega⟩
  rw [entriesIn_placed] at found
  rcases Nat.lt_or_ge k (fileLines (listing.file file)).length with inside | beyond
  · rw [List.getElem?_append_left (by rwa [placed_length])] at found
    obtain ⟨same,number⟩ := lines 0 k _ kept found
    exact ⟨same,by omega⟩
  · rw [List.getElem?_append_right (by rwa [placed_length]),placed_length] at found
    unfold failed at found
    split at found
    · have last : k - (fileLines (listing.file file)).length = 0 := by
        by_contra more
        rw [List.getElem?_eq_none (by rw [List.length_singleton]; omega)] at found
        cases found
      rw [last] at found
      cases found
      refine ⟨rfl,?_⟩
      dsimp only
      omega
    · cases found

/-- The entries of a file above a line, or all of them. -/
private def upTo (stop : Option Nat) (entries : List (Kept arithmetic)) : List (Kept arithmetic) :=
  match stop with
  | some stop => entries.take (stop - 1)
  | none => entries

private theorem readLines_all (ring : RingBuffer (Kept arithmetic)) (i : Nat) (lines : List Text) :
    readLines file none ring i lines = ((placed file i lines).foldl RingBuffer.keep ring,i + lines.length,false) := by
  induction lines generalizing ring i with
  | nil => rfl
  | cons line lines ih =>
    rw [readLines,Option.any_none,if_neg Bool.false_ne_true,ih,placed,List.foldl_cons,List.length_cons]
    rw [show i + 1 + lines.length = i + (lines.length + 1) by omega]

private theorem readLines_some (stop : Nat) (ring : RingBuffer (Kept arithmetic)) (i : Nat) (lines : List Text) (before : i < stop) :
    readLines file (some stop) ring i lines = (((placed file i lines).take (stop - 1 - i)).foldl RingBuffer.keep ring,
      min stop (i + lines.length),decide (stop ≤ i + lines.length)) := by
  induction lines generalizing ring i with
  | nil =>
    rw [readLines,placed,List.take_nil]
    simp only [List.length_nil,Nat.add_zero,List.foldl_nil,Prod.mk.injEq,true_and]
    exact ⟨by omega,(decide_eq_false (by omega)).symm⟩
  | cons line lines ih =>
    rw [readLines,Option.any_some]
    split
    next ends =>
      have ends := of_decide_eq_true ends
      rw [show stop - 1 - i = 0 by omega,List.take_zero,List.foldl_nil,List.length_cons]
      simp only [Prod.mk.injEq,true_and]
      exact ⟨by omega,(decide_eq_true (by omega)).symm⟩
    next goes =>
      rw [decide_eq_true_eq] at goes
      rw [ih _ _ (by omega),placed,show stop - 1 - i = stop - 1 - (i + 1) + 1 by omega,List.take_succ_cons,List.foldl_cons,
        List.length_cons,show i + 1 + lines.length = i + (lines.length + 1) by omega]

private theorem readFile_entries (stop : Option Nat) (positive : ∀ line ∈ stop, 0 < line) (want : Nat) :
    readFile listing stop want file = (upTo stop (entriesIn listing file : List (Kept arithmetic))).foldl RingBuffer.keep (.new want) := by
  unfold readFile
  dsimp only
  rw [entriesIn_placed]
  unfold failed
  generalize fileLines (listing.file file) = lines
  cases stop with
  | none =>
    rw [readLines_all]
    unfold upTo
    dsimp only
    cases (listing.file file).fault with
    | none => rw [List.append_nil]
    | some code =>
      dsimp only
      rw [List.foldl_append,Nat.zero_add]
      rfl
  | some stop =>
    have some' := positive stop rfl
    rw [readLines_some _ _ _ _ some']
    unfold upTo
    dsimp only
    rw [Nat.zero_add,Nat.sub_zero]
    cases (listing.file file).fault with
    | none => rw [List.append_nil]
    | some code =>
      dsimp only
      rw [Option.all_some]
      rcases Nat.lt_or_ge (lines.length + 1) stop with beyond | within
      · have running : decide (stop ≤ lines.length) = false := decide_eq_false (by omega)
        rw [running,min_eq_right (by omega),decide_eq_true beyond,List.take_of_length_le (by rw [placed_length]; omega),
          List.take_of_length_le (by rw [List.length_append,placed_length,List.length_singleton]; omega),List.foldl_append]
        rfl
      · have none' : ¬(!decide (stop ≤ lines.length) && decide (min stop lines.length + 1 < stop)) = true := by
          rw [Bool.and_eq_true,Bool.not_eq_true',decide_eq_false_iff_not,decide_eq_true_eq]
          omega
        rw [if_neg none',List.take_append_of_le_length (by rw [placed_length]; omega)]

end Files

section Pages

/-- What of a file lies under a cursor, from its end. -/
private def part (listing : Listing) (bound : Option Cursor) (file : String) : List (Kept arithmetic) :=
  if bound.any fun bound => !notAfter file bound.file then []
  else (upTo ((bound.filter fun bound => bound.file = file).map Cursor.line) (entriesIn listing file)).reverse

/-- Everything under a cursor, the newest first. -/
private def under (listing : Listing) (bound : Option Cursor) (files : List String) : List (Kept arithmetic) :=
  files.flatMap (part listing bound)

private theorem readFiles_under {bound : Option Cursor} (positive : ∀ cursor ∈ bound, 0 < cursor.line) {cap : Nat}
    (files : List String) (out : List (Kept arithmetic)) (within : out.length ≤ cap) (room : files ≠ [] → out.length < cap) :
    (readFiles listing bound cap files out).1 = (out ++ under listing bound files).take cap ∧
      ((readFiles listing bound cap files out).2 = true → cap ≤ (out ++ under listing bound files).length) ∧
      ((readFiles listing bound cap files out).2 = false → (out ++ under listing bound files).length ≤ cap) := by
  induction files generalizing out with
  | nil =>
    rw [readFiles]
    unfold under
    rw [List.flatMap_nil,List.append_nil,List.take_of_length_le within]
    exact ⟨rfl,(fun more => nomatch more),fun _ => within⟩
  | cons file older ih =>
    have less := room (List.cons_ne_nil _ _)
    have split' : (under listing bound (file :: older) : List (Kept arithmetic)) = part listing bound file ++ under listing bound older :=
      List.flatMap_cons
    rw [readFiles,split']
    split
    next skipped =>
      have none' : (part listing bound file : List (Kept arithmetic)) = [] := if_pos skipped
      rw [none',List.nil_append]
      exact ih out within fun _ => less
    next open' =>
      have lines : ∀ line ∈ (bound.filter fun bound => bound.file = file).map Cursor.line, 0 < line := by
        rintro line found
        obtain ⟨cursor,inside,rfl⟩ := Option.map_eq_some_iff.mp found
        exact positive cursor (Option.filter_eq_some_iff.mp inside).1
      have own : (part listing bound file : List (Kept arithmetic)) =
          (upTo ((bound.filter fun bound => bound.file = file).map Cursor.line) (entriesIn listing file)).reverse := if_neg open'
      obtain ⟨newest,held⟩ := RingBuffer.newest_foldl (by omega : 0 < cap - out.length)
        (upTo ((bound.filter fun bound => bound.file = file).map Cursor.line) (entriesIn listing file : List (Kept arithmetic)))
      have held := held.trans List.length_reverse.symm
      rw [← own] at newest held
      generalize (part listing bound file : List (Kept arithmetic)) = own' at newest held ⊢
      dsimp only
      rw [readFile_entries _ lines,newest,held]
      split
      next more =>
        refine ⟨?_,?_,fun none => nomatch none⟩
        · rw [← List.append_assoc,List.take_append_of_le_length (by rw [List.length_append]; omega),List.take_append]
          rw [List.take_of_length_le within]
        · intro _
          rw [List.length_append,List.length_append]
          omega
      next fits =>
        rw [List.take_of_length_le (not_lt.mp fits),← List.append_assoc]
        have within' : (out ++ own').length ≤ cap := by
          rw [List.length_append]
          omega
        split
        next full =>
          refine ⟨?_,?_,fun none => nomatch none⟩
          · rw [List.take_append_of_le_length full.1.ge,List.take_of_length_le within']
          · intro _
            rw [List.length_append]
            omega
        next goes =>
          refine ih _ within' ?_
          intro some'
          exact lt_of_le_of_ne within' fun full => goes ⟨full,some'⟩

private theorem capOf_pos (limit : Option Rat) : 0 < capOf limit := by
  unfold capOf CONSOLE_AUDIT_READ_MAX
  have least : (1 : Int) ≤ max 1 ((limit.map Int.floor).getD 100) := le_max_left _ _
  omega

/-- A page is all that is under its cursor, or the front of it and the place it ends at. -/
private theorem page_under {names : List String} (listed : listing.names = .ok names) (limit : Option Rat)
    {bound : Option Cursor} (positive : ∀ cursor ∈ bound, 0 < cursor.line) :
    (pageUnder listing limit bound = pageOf (under listing bound (newestFirst names) : List (Kept arithmetic)) false) ∨
      ∃ front last back, (under listing bound (newestFirst names) : List (Kept arithmetic)) = front ++ last :: back ∧
        pageUnder listing limit bound = pageOf (front ++ [last]) true := by
  have some' := capOf_pos limit
  obtain ⟨out,beyond,within⟩ := @readFiles_under arithmetic listing bound positive (capOf limit) (newestFirst names) [] (Nat.zero_le _)
    fun _ => some'
  rw [List.nil_append] at out beyond within
  unfold pageUnder
  rw [listed]
  dsimp only
  rw [out]
  cases more : (readFiles listing bound (capOf limit) (newestFirst names) ([] : List (Kept arithmetic))).2 with
  | false =>
    rw [List.take_of_length_le (within more)]
    exact .inl rfl
  | true =>
    have length := beyond more
    clear beyond within out
    generalize (under listing bound (newestFirst names) : List (Kept arithmetic)) = all at length ⊢
    obtain ⟨last,found⟩ : ∃ last, all[capOf limit - 1]? = some last := ⟨_,List.getElem?_eq_getElem (by omega)⟩
    refine .inr ⟨all.take (capOf limit - 1),last,all.drop (capOf limit),?_,?_⟩
    · conv_lhs => rw [← List.take_append_drop (capOf limit - 1) all]
      obtain ⟨inside,same⟩ := List.getElem?_eq_some_iff.mp found
      rw [List.drop_eq_getElem_cons inside,same,show capOf limit - 1 + 1 = capOf limit by omega]
    · have taken : all.take (capOf limit) = all.take (capOf limit - 1) ++ [last] := by
        conv_lhs => rw [show capOf limit = capOf limit - 1 + 1 by omega,List.take_add_one,found]
        rfl
      rw [taken]

end Pages

section Cursors

/-- Newest first: each file before those that sort before it. -/
private def Descends (files : List String) : Prop :=
  files.Pairwise fun later earlier => notAfter later earlier = false ∧ notAfter earlier later = true

private theorem newestFirst_descends {names : List String} (distinct : names.Nodup) : Descends (newestFirst names) := by
  unfold newestFirst Descends
  rw [List.pairwise_reverse]
  have sorted := sortTexts_sorted (names.filter isMonthFile)
  have apart : (sortTexts (names.filter isMonthFile)).Nodup := (sortTexts_perm _).nodup_iff.mpr (distinct.filter _)
  refine (sorted.and apart).imp ?_
  rintro earlier later ⟨order,differ⟩
  refine ⟨?_,order⟩
  by_contra both
  exact differ (notAfter_antisymm order (Bool.eq_true_of_not_eq_false both))

/-- The place of an entry, as a cursor. -/
private def Kept.cursor (kept : Kept arithmetic) : Cursor := ⟨kept.file,kept.line⟩

private theorem part_later {bound : Cursor} (later : notAfter file bound.file = false) :
    (part listing (some bound) file : List (Kept arithmetic)) = [] :=
  if_pos (by rw [Option.any_some,later]; rfl)

private theorem part_own (line : Nat) :
    (part listing (some ⟨file,line⟩) file : List (Kept arithmetic)) = ((entriesIn listing file).take (line - 1)).reverse := by
  have same : notAfter file file = true := by
    rcases notAfter_total file file with same | same <;> exact same
  unfold part
  rw [Option.any_some,same,if_neg (by decide),Option.filter_some,decide_eq_true rfl,if_pos rfl]
  rfl

private theorem part_earlier {bound : Cursor} (order : notAfter file bound.file = true) (apart : bound.file ≠ file) :
    (part listing (some bound) file : List (Kept arithmetic)) = (entriesIn listing file).reverse := by
  unfold part
  rw [Option.any_some,order,if_neg (by decide),Option.filter_some,decide_eq_false apart,if_neg Bool.false_ne_true]
  rfl

private theorem part_all : (part listing none file : List (Kept arithmetic)) = (entriesIn listing file).reverse := rfl

/-- Each part is the front of a file's entries, from its end. -/
private theorem part_front (bound : Option Cursor) :
    ∃ count, (part listing bound file : List (Kept arithmetic)) = ((entriesIn listing file).take count).reverse := by
  cases bound with
  | none => exact ⟨_,by rw [part_all,List.take_length]⟩
  | some bound =>
    cases order : notAfter file bound.file with
    | false => exact ⟨0,part_later order⟩
    | true =>
      by_cases same : bound.file = file
      · obtain ⟨_,line⟩ := bound
        cases same
        exact ⟨_,part_own line⟩
      · exact ⟨_,by rw [part_earlier order same,List.take_length]⟩

private theorem part_member {bound : Option Cursor} {kept : Kept arithmetic} (inside : kept ∈ part listing bound file) :
    kept.file = file ∧ 0 < kept.line ∧ kept.line ≤ (entriesIn listing file : List (Kept arithmetic)).length := by
  obtain ⟨count,shape⟩ := @part_front arithmetic listing file bound
  rw [shape,List.mem_reverse] at inside
  obtain ⟨k,found⟩ := List.mem_iff_getElem?.mp (List.mem_of_mem_take inside)
  obtain ⟨same,line⟩ := entries_at found
  have less := (List.getElem?_eq_some_iff.mp found).1
  exact ⟨same,by omega,by omega⟩

/-- In its own file, what comes after an entry is what lies under it. -/
private theorem part_after {bound : Option Cursor} {front back : List (Kept arithmetic)} {kept : Kept arithmetic}
    (shape : part listing bound file = front ++ kept :: back) : part listing (some kept.cursor) file = back := by
  obtain ⟨count,own⟩ := @part_front arithmetic listing file bound
  have lines : (entriesIn listing file).take count = back.reverse ++ kept :: front.reverse := by
    have turned := congrArg List.reverse (own.symm.trans shape)
    rw [List.reverse_reverse] at turned
    rw [turned]
    simp
  have found : (entriesIn listing file)[back.length]? = some kept := by
    have taken : ((entriesIn listing file).take count)[back.length]? = some kept := by
      rw [lines,List.getElem?_append_right (by rw [List.length_reverse]),List.length_reverse,Nat.sub_self]
      rfl
    have inside : back.length < count := by
      by_contra outside
      rw [List.getElem?_eq_none (by rw [List.length_take]; omega)] at taken
      cases taken
    rwa [List.getElem?_take_of_lt inside] at taken
  obtain ⟨same,line⟩ := entries_at found
  have cursor : kept.cursor = ⟨file,back.length + 1⟩ := by
    unfold Kept.cursor
    rw [same,line]
  have inside : back.length ≤ count := by
    have long := congrArg List.length lines
    rw [List.length_take,List.length_append,List.length_reverse,List.length_cons] at long
    omega
  rw [cursor,part_own,Nat.add_sub_cancel]
  have front' : (entriesIn listing file).take back.length = back.reverse := by
    have again := congrArg (List.take back.length) lines
    rw [List.take_take,min_eq_left inside,List.take_left' List.length_reverse] at again
    exact again
  rw [front',List.reverse_reverse]

/-- What comes after an entry is what lies under its place. -/
private theorem under_after {bound : Option Cursor} {files : List String} (descends : Descends files)
    {front back : List (Kept arithmetic)} {kept : Kept arithmetic} (shape : under listing bound files = front ++ kept :: back) :
    under listing (some kept.cursor) files = back := by
  induction files generalizing front with
  | nil =>
    have none' := congrArg List.length shape
    rw [List.length_append,List.length_cons] at none'
    cases none'
  | cons file older ih =>
    obtain ⟨first,rest⟩ := List.pairwise_cons.mp descends
    have split' (bound : Option Cursor) : (under listing bound (file :: older) : List (Kept arithmetic)) =
        part listing bound file ++ under listing bound older := List.flatMap_cons
    rw [split'] at shape ⊢
    have older' (inner : List (Kept arithmetic)) (found : under listing bound older = inner ++ kept :: back) :
        part listing (some kept.cursor) file ++ under listing (some kept.cursor) older = back := by
      have member : kept ∈ under listing bound older := by
        rw [found]
        exact List.mem_append_right _ List.mem_cons_self
      obtain ⟨other,among,inside⟩ := List.mem_flatMap.mp member
      have own : kept.cursor.file = other := (part_member inside).1
      rw [part_later (by rw [own]; exact (first other among).1),List.nil_append]
      exact ih rest found
    rcases List.append_eq_append_iff.mp shape with ⟨inner,-,found⟩ | ⟨inner,found,same⟩
    · exact older' inner found
    · cases inner with
      | nil => exact older' [] same.symm
      | cons own inner =>
        rw [List.cons_append] at same
        obtain ⟨rfl,rfl⟩ := List.cons.inj same
        have here := (part_member (found ▸ List.mem_append_right _ List.mem_cons_self :
          kept ∈ part listing bound file)).1
        rw [part_after found]
        congr 1
        refine List.flatMap_congr fun other among => ?_
        obtain ⟨apart,order⟩ := first other among
        have differ : kept.cursor.file ≠ other := by
          change kept.file ≠ other
          rw [here]
          rintro rfl
          rw [apart] at order
          cases order
        rw [part_earlier (by change notAfter other kept.file = true; rw [here]; exact order) differ]
        cases bound with
        | none => exact part_all.symm
        | some bound =>
          have near : notAfter file bound.file = true := by
            by_contra later
            rw [part_later (Bool.eq_false_of_not_eq_true later)] at found
            have none' := congrArg List.length found
            rw [List.length_append,List.length_cons] at none'
            cases none'
          refine (part_earlier (notAfter_trans order near) ?_).symm
          rintro rfl
          rw [apart] at near
          cases near

end Cursors

section Growth
variable {before after : Listing} {names : List String}

private theorem fileLines_flatten (read : FileRead) : fileLines read =
    ((Lines.cut Utf8.newline [] read.chunks.flatten).1 ++
      if read.fault.isNone ∧ (Lines.cut Utf8.newline [] read.chunks.flatten).2 ≠ [] then
        [(Lines.cut Utf8.newline [] read.chunks.flatten).2] else []).map Utf8.decode := by
  unfold fileLines
  rw [Lines.cutChunks_flatten]

private theorem entriesIn_same (bytes : (after.file file).chunks.flatten = (before.file file).chunks.flatten)
    (fault : (after.file file).fault = (before.file file).fault) :
    (entriesIn after file : List (Kept arithmetic)) = entriesIn before file := by
  rw [entriesIn_placed,entriesIn_placed]
  unfold failed
  rw [fileLines_flatten,fileLines_flatten,bytes,fault]

/-- Writing at a file's end leaves the entries before its last one as they are. -/
private theorem entriesIn_more {more : List UInt8} (whole : (before.file file).fault = none) (whole' : (after.file file).fault = none)
    (bytes : (after.file file).chunks.flatten = (before.file file).chunks.flatten ++ more) {count : Nat}
    (less : count < (entriesIn before file : List (Kept arithmetic)).length) :
    (entriesIn after file : List (Kept arithmetic)).take count = (entriesIn before file).take count := by
  obtain ⟨rest,later⟩ : ∃ rest, fileLines (after.file file) =
      (Lines.cut Utf8.newline [] (before.file file).chunks.flatten).1.map Utf8.decode ++ rest := by
    rw [fileLines_flatten,bytes,Lines.cut_append]
    dsimp only
    rw [List.append_assoc,List.map_append]
    exact ⟨_,rfl⟩
  rw [entriesIn_placed] at less ⊢
  rw [entriesIn_placed]
  unfold failed at less ⊢
  rw [whole] at less ⊢
  rw [whole']
  dsimp only at less ⊢
  rw [List.append_nil] at less ⊢
  rw [List.append_nil,later,placed_append]
  rw [fileLines_flatten,List.map_append,placed_append] at less ⊢
  rw [List.length_append,placed_length,placed_length,List.length_map,List.length_map] at less
  have ended : count ≤ (Lines.cut Utf8.newline [] (before.file file).chunks.flatten).1.length := by
    split at less
    · rw [List.length_singleton] at less
      omega
    · rw [List.length_nil] at less
      omega
  have long : count ≤ (placed file 0 ((Lines.cut Utf8.newline [] (before.file file).chunks.flatten).1.map Utf8.decode) :
      List (Kept arithmetic)).length := by
    rwa [placed_length,List.length_map]
  rw [List.take_append_of_le_length long,List.take_append_of_le_length long]

/-- What lies under an entry is the same once the newest file has grown. -/
private theorem under_grown (distinct : names.Nodup) (grown : Grown names before after) {kept : Kept arithmetic}
    (inside : kept.file ∈ newestFirst names) (line : kept.line ≤ (entriesIn before kept.file : List (Kept arithmetic)).length)
    (positive : 0 < kept.line) :
    (under after (some kept.cursor) (newestFirst names) : List (Kept arithmetic)) =
      under before (some kept.cursor) (newestFirst names) := by
  have descends := newestFirst_descends distinct
  refine List.flatMap_congr fun file among => ?_
  cases order : notAfter file kept.cursor.file with
  | false => rw [part_later order,part_later order]
  | true =>
    by_cases same : kept.cursor.file = file
    · obtain rfl : kept.file = file := same
      have whole : (part after (some kept.cursor) kept.file : List (Kept arithmetic)) =
          ((entriesIn after kept.file).take (kept.line - 1)).reverse := part_own kept.line
      have whole' : (part before (some kept.cursor) kept.file : List (Kept arithmetic)) =
          ((entriesIn before kept.file).take (kept.line - 1)).reverse := part_own kept.line
      rw [whole,whole']
      congr 1
      by_cases newest : (newestFirst names).head? = some kept.file
      · obtain ⟨fault,either⟩ := grown.newest _ newest
        rcases either with bytes | ⟨none',more,bytes⟩
        · rw [entriesIn_same bytes fault]
        · exact entriesIn_more none' (fault.trans none') bytes (by omega)
      · obtain ⟨bytes,fault⟩ := grown.older _ among newest
        rw [entriesIn_same bytes fault]
    · have old : (newestFirst names).head? ≠ some file := by
        intro newest
        cases shape : newestFirst names with
        | nil =>
          rw [shape] at among
          cases among
        | cons first older =>
          rw [shape] at newest inside descends
          cases newest
          rcases List.mem_cons.mp inside with rfl | later
          · exact same rfl
          · have first' := ((List.pairwise_cons.mp descends).1 _ later).1
            change notAfter file kept.file = true at order
            rw [order] at first'
            cases first'
      obtain ⟨bytes,fault⟩ := grown.older _ among old
      rw [part_earlier order same,part_earlier order same,entriesIn_same bytes fault]

end Growth

section Following

private theorem posOf_cursor {line : Nat} (month : isMonthFile file = true) (positive : 0 < line)
    (most : line ≤ Kernel.maxSafeInteger) : cursorOf (posOf file line) = some ⟨file,line⟩ := by
  unfold isMonthFile at month
  split at month
  next a b c d e f letters =>
    obtain ⟨first,more,shape,digit,digits,lead⟩ := decimal_shape line
    have value := Nat.ofDigitChars_toDigits (b := 10) (n := line) (by decide) (by decide)
    have value : Nat.ofDigitChars 10 (first :: more) 0 = line := shape ▸ value
    have short : (first :: more).length ≤ 16 := by
      rw [← shape]
      refine Nat.toDigits_length 10 line 16 (by decide) ?_
      have bound : Kernel.maxSafeInteger < 10 ^ 16 := by decide
      omega
    have nonzero : first ≠ '0' := by
      intro zero
      rw [lead zero,zero] at value
      have none' : Nat.ofDigitChars 10 ['0'] 0 = 0 := by decide
      omega
    have all : (first :: more).all Char.isDigit = true := by
      rw [List.all_eq_true]
      intro letter member
      rcases List.mem_cons.mp member with rfl | later
      · exact digit
      · exact digits letter later
    have name : String.ofList [a,b,c,d,'-',e,f] ++ ".jsonl" = file := by
      apply String.toList_injective
      rw [String.toList_append,String.toList_ofList,letters]
      rfl
    unfold posOf
    rw [letters,shape]
    change (if _ then _ else _) = _
    rw [value,name,if_pos]
    rw [month,all,decide_eq_true nonzero,decide_eq_true (by rw [List.length_cons] at short; omega),decide_eq_true most]
    rfl
  · cases month

/-- Pages that give so many entries, one after another, and end. -/
private structure Covers (pages : List (Page arithmetic)) (all : List (Kept arithmetic)) : Prop where
  rows : pages.flatMap Page.rows = all.map Kept.entry
  positions : pages.flatMap Page.positions = all.map fun kept => posOf kept.file kept.line
  readable : ∀ page ∈ pages, page.unreadable = none
  ended : ∃ last, pages.getLast? = some last ∧ last.next = none

private theorem follow_covers {names : List String} (distinct : names.Nodup) (size : Nat) (listings : Nat → Listing)
    (limits : Nat → Option Rat) (bound : Option Cursor) (before : Option Text)
    (opens : ∀ listing limit, @readConsoleAudit arithmetic listing limit before = pageUnder listing limit bound)
    (positive : ∀ cursor ∈ bound, 0 < cursor.line) (listed : (listings 0).names = .ok names)
    (grows : ∀ k, Grown names (listings k) (listings (k + 1)))
    (few : ∀ kept ∈ (under (listings 0) bound (newestFirst names) : List (Kept arithmetic)), kept.line ≤ Kernel.maxSafeInteger)
    (small : (under (listings 0) bound (newestFirst names) : List (Kept arithmetic)).length ≤ size) :
    ∃ calls ≤ size + 1, Covers (@follow arithmetic listings limits calls before)
      (under (listings 0) bound (newestFirst names)) := by
  induction size generalizing listings limits bound before with
  | zero =>
    have none' := List.length_eq_zero_iff.mp (Nat.le_zero.mp small)
    refine ⟨1,le_refl _,?_⟩
    rw [follow,opens]
    rcases @page_under arithmetic _ _ listed (limits 0) _ positive with whole | ⟨front,last,back,shape,_⟩
    · rw [whole,none']
      exact ⟨rfl,rfl,by simp [pageOf],_,rfl,rfl⟩
    · rw [none'] at shape
      have long := congrArg List.length shape
      rw [List.length_append,List.length_cons] at long
      cases long
  | succ size ih =>
    rcases @page_under arithmetic _ _ listed (limits 0) _ positive with whole | ⟨front,last,back,shape,page⟩
    · refine ⟨1,by omega,?_⟩
      rw [follow,opens,whole]
      generalize (under (listings 0) bound (newestFirst names) : List (Kept arithmetic)) = all
      refine ⟨?_,?_,?_,_,rfl,rfl⟩
      · exact List.append_nil _
      · exact List.append_nil _
      · intro page member
        rw [List.mem_singleton.mp member]
        rfl
    · have member : last ∈ (under (listings 0) bound (newestFirst names) : List (Kept arithmetic)) := by
        rw [shape]
        exact List.mem_append_right _ List.mem_cons_self
      obtain ⟨file,among,inside⟩ := List.mem_flatMap.mp member
      obtain ⟨own,first,line⟩ := part_member inside
      have month : isMonthFile last.file = true := by
        rw [own]
        exact (List.mem_filter.mp ((sortTexts_perm _).mem_iff.mp (List.mem_reverse.mp among))).2
      have rest : (under (listings 1) (some last.cursor) (newestFirst names) : List (Kept arithmetic)) = back := by
        rw [under_grown distinct (grows 0) (own ▸ among) (own ▸ line) first]
        exact under_after (newestFirst_descends distinct) shape
      have long := congrArg List.length shape
      rw [List.length_append,List.length_cons] at long
      have next' := posOf_cursor month first (few last member)
      obtain ⟨calls,within,covers⟩ := ih (fun k => listings (k + 1)) (fun k => limits (k + 1)) (some last.cursor)
        (some (posOf last.file last.line)) (fun listing limit => by
          unfold readConsoleAudit
          dsimp only
          rw [next']
          rfl) (by
          rintro _ ⟨rfl⟩
          exact first) (grows 0).listed (fun k => grows (k + 1)) (by
          rw [rest]
          intro kept below
          exact few kept (by rw [shape]; exact List.mem_append_right _ (List.mem_cons_of_mem _ below))) (by
          rw [rest]
          omega)
      rw [rest] at covers
      refine ⟨calls + 1,by omega,?_⟩
      rw [follow,opens,page,shape]
      have jump : (pageOf (front ++ [last]) true : Page arithmetic).next = some (posOf last.file last.line) := by
        unfold pageOf
        rw [List.getLast?_concat]
        rfl
      rw [jump]
      obtain ⟨ending,found,none'⟩ := covers.ended
      have joined : front ++ last :: back = front ++ [last] ++ back := List.append_cons ..
      refine ⟨?_,?_,?_,ending,?_,none'⟩
      · rw [List.flatMap_cons,covers.rows,joined,List.map_append]
        rfl
      · rw [List.flatMap_cons,covers.positions,joined,List.map_append]
        rfl
      · intro page member
        rcases List.mem_cons.mp member with rfl | later
        · rfl
        · exact covers.readable page later
      · rw [List.getLast?_cons,found]
        rfl

/-- Following each page's `next` from the first page ends, and gives every entry that the files held at the first call
once, newest first, each with its place; what is written behind the newest of them meanwhile changes nothing. -/
theorem paging_complete {names : List String} (distinct : names.Nodup) {listings : Nat → Listing} (limits : Nat → Option Rat)
    (listed : (listings 0).names = .ok names) (grows : ∀ k, Grown names (listings k) (listings (k + 1)))
    (few : ∀ file ∈ newestFirst names, (entriesIn (listings 0) file : List (Kept arithmetic)).length ≤ Kernel.maxSafeInteger) :
    ∃ calls ≤ (@history arithmetic (listings 0) names).length + 1,
      let pages : List (Page arithmetic) := follow listings limits calls none
      pages.flatMap Page.rows = (history (listings 0) names).map Kept.entry ∧
      pages.flatMap Page.positions = (@history arithmetic (listings 0) names).map
        (fun kept => posOf kept.file kept.line) ∧
      (∀ page ∈ pages, page.unreadable = none) ∧ ∃ last, pages.getLast? = some last ∧ last.next = none := by
  have all : (under (listings 0) none (newestFirst names) : List (Kept arithmetic)) = history (listings 0) names := rfl
  obtain ⟨calls,within,covers⟩ := @follow_covers arithmetic names distinct (@history arithmetic (listings 0) names).length
    listings limits none none (fun _ _ => rfl) (fun _ none => nomatch none) listed grows (by
      intro kept member
      obtain ⟨file,among,inside⟩ := List.mem_flatMap.mp member
      exact (part_member inside).2.2.trans (few file among)) (le_of_eq (congrArg List.length all))
  rw [all] at covers
  exact ⟨calls,within,covers.rows,covers.positions,covers.readable,covers.ended⟩

end Following

section Lengths

/-- One month's file, in one chunk. -/
private def month (bytes : List UInt8) : Listing :=
  ⟨.ok ["2026-07.jsonl"],fun _ => ⟨[bytes],none⟩⟩

private theorem month_grown (bytes : List UInt8) : Grown ["2026-07.jsonl"] (month bytes) (month bytes) :=
  ⟨rfl,fun _ _ _ => ⟨rfl,rfl⟩,fun _ _ => ⟨rfl,.inl rfl⟩⟩

/-- Two lines that are no rows, the second without its end, one entry a page. -/
theorem paging_complete_two : ∃ calls ≤ 3,
    (@follow plain (fun _ => ⟨.ok ["2026-07.jsonl"],fun _ => ⟨[[0x7b,Utf8.newline,0x7d]],none⟩⟩)
      (fun _ => some 1) calls none).flatMap Page.positions = [posOf "2026-07.jsonl" 2,posOf "2026-07.jsonl" 1] := by
  obtain ⟨calls,within,_,positions,_⟩ := @paging_complete plain ["2026-07.jsonl"] (by decide)
    (fun _ => month [0x7b,Utf8.newline,0x7d]) (fun _ => some 1) rfl (fun _ => month_grown _) (by
      intro file among
      rw [entriesIn_placed,List.length_append,placed_length]
      exact (by decide : 2 + 0 ≤ Kernel.maxSafeInteger))
  exact ⟨calls,within,positions⟩

private theorem cut_ends (count : Nat) :
    Lines.cut Utf8.newline [] (List.replicate count Utf8.newline) = (List.replicate count [],[]) := by
  induction count with
  | zero => rfl
  | succ count ih => rw [List.replicate_succ,Lines.cut,if_pos rfl,ih,List.replicate_succ]

private theorem blank_entries (count : Nat) :
    (entriesIn (month (List.replicate count Utf8.newline)) "2026-07.jsonl" : List (Kept plain)).length = count := by
  have flat : ((month (List.replicate count Utf8.newline)).file "2026-07.jsonl").chunks.flatten =
      List.replicate count Utf8.newline := List.flatten_singleton
  have none' : (failed (month (List.replicate count Utf8.newline)) "2026-07.jsonl" : List (Kept plain)) = [] := rfl
  rw [entriesIn_placed,List.length_append,placed_length,fileLines_flatten,flat,cut_ends,none']
  simp

/-- A page that ends at a line whose number is no cursor is followed by one that cannot be read. -/
private theorem paging_stuck {count : Nat} (two : 2 ≤ count) (beyond : cursorOf (posOf "2026-07.jsonl" count) = none) :
    ¬∃ calls, let pages : List (Page plain) := follow (fun _ => month (List.replicate count Utf8.newline)) (fun _ => some 1) calls none
      pages.flatMap Page.rows =
        (history (month (List.replicate count Utf8.newline)) ["2026-07.jsonl"]).map Kept.entry ∧
      ∃ last, pages.getLast? = some last ∧ last.next = none := by
  have long := blank_entries count
  have at' := fun k kept => @entries_at plain (month (List.replicate count Utf8.newline)) "2026-07.jsonl" k kept
  have all : (under (month (List.replicate count Utf8.newline)) none (newestFirst ["2026-07.jsonl"]) : List (Kept plain)) =
      (entriesIn (month (List.replicate count Utf8.newline)) "2026-07.jsonl").reverse := by
    have one : newestFirst ["2026-07.jsonl"] = ["2026-07.jsonl"] := by decide +kernel
    unfold under
    rw [one,List.flatMap_singleton,part_all]
  have listed : (month (List.replicate count Utf8.newline)).names = .ok ["2026-07.jsonl"] := rfl
  have history' : (history (month (List.replicate count Utf8.newline)) ["2026-07.jsonl"] : List (Kept plain)) =
      under (month (List.replicate count Utf8.newline)) none (newestFirst ["2026-07.jsonl"]) := rfl
  rw [history',all]
  generalize month (List.replicate count Utf8.newline) = listing at long at' all listed
  obtain ⟨out,_,within⟩ := @readFiles_under plain listing none (fun _ none => nomatch none) 1 (newestFirst ["2026-07.jsonl"]) []
    (Nat.zero_le _) fun _ => Nat.one_pos
  rw [List.nil_append,all] at out within
  obtain ⟨last,found⟩ : ∃ last, (entriesIn listing "2026-07.jsonl" : List (Kept plain))[count - 1]? = some last :=
    ⟨_,List.getElem?_eq_getElem (by omega)⟩
  obtain ⟨file,line⟩ := at' _ _ found
  have more : (readFiles listing none 1 (newestFirst ["2026-07.jsonl"]) ([] : List (Kept plain))).2 = true := by
    refine Bool.eq_true_of_not_eq_false ?_
    intro none'
    have few := within none'
    rw [List.length_reverse,long] at few
    omega
  have front : (entriesIn listing "2026-07.jsonl" : List (Kept plain)).reverse.take 1 = [last] := by
    rw [List.take_one,List.head?_reverse,List.getLast?_eq_getElem?,long,found]
    rfl
  have cap : capOf (some 1) = 1 := by
    unfold capOf
    rw [Option.map_some,Int.floor_one]
    rfl
  have page : (readConsoleAudit listing (some 1) none : Page plain) = pageOf [last] true := by
    change pageUnder listing (some 1) none = _
    unfold pageUnder
    rw [listed]
    dsimp only
    rw [cap,out,more,front]
  have jump : (pageOf [last] true : Page plain).next = some (posOf "2026-07.jsonl" count) := by
    change some (posOf last.file last.line) = _
    rw [file,line,Nat.sub_add_cancel (by omega)]
  have stuck : (readConsoleAudit listing (some 1) (some (posOf "2026-07.jsonl" count)) : Page plain) =
      unread plain "the cursor is not an audit position (YYYY-MM:line)".toList := by
    unfold readConsoleAudit
    dsimp only
    rw [beyond]
  rintro ⟨calls,rows,ending,ended,none'⟩
  rcases calls with _ | _ | calls
  · cases ended
  · rw [follow,page,jump] at ended
    dsimp only [follow] at ended
    obtain rfl : pageOf [last] true = ending := Option.some.inj ended
    rw [jump] at none'
    cases none'
  · rw [follow,page,jump] at rows
    dsimp only [follow] at rows
    rw [stuck] at rows
    have short := congrArg List.length rows
    rw [List.length_map,List.length_reverse,long] at short
    have one : 1 = count := short
    omega

/-- Line 2^53 of a file has no cursor. -/
theorem line_without_cursor : ¬ ∀ (names : List String) (listings : Nat → Listing) (limits : Nat → Option Rat), names.Nodup →
    (listings 0).names = .ok names → (∀ k, Grown names (listings k) (listings (k + 1))) →
    ∃ calls, let pages : List (Page plain) := follow listings limits calls none
      pages.flatMap Page.rows = (history (listings 0) names).map Kept.entry ∧
      ∃ last, pages.getLast? = some last ∧ last.next = none := by
  intro claim
  exact paging_stuck (by decide : 2 ≤ 9007199254740992) (by decide +kernel)
    (claim ["2026-07.jsonl"] (fun _ => month (List.replicate 9007199254740992 Utf8.newline)) (fun _ => some 1) (by decide) rfl
      fun _ => month_grown _)

end Lengths

end PiDispatch.ConsoleAudit
