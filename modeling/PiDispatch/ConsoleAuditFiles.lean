import PiDispatch.ConsoleAuditRows

/-! A month file of whole rows, with or without the fragment that a crash leaves behind them: what the walk reads of it, and
what its end shows to the next append. -/
namespace PiDispatch.ConsoleAudit
open Kernel JsonText

/-- Lines with their ends, as a file holds them. -/
def linesBytes (rows : List Text) : List UInt8 := rows.flatMap fun row => Octets.utf8 row ++ [Utf8.newline]

/-- A line that every reader of a file gets whole, and that is a row of the chain; no part of it is one. -/
structure Fits (arithmetic : Arithmetic) (row : Text) : Prop where
  some' : row ≠ []
  single : '\n' ∉ row
  short : (Octets.utf8 row).length + 3 ≤ TAIL_BYTES
  numbered : ∃ number ≤ counted, seqOf arithmetic (parse arithmetic.toNumbers row) = some (arithmetic.ofNat number)
  torn : ∀ count, 0 < count → count < (Octets.utf8 row).length →
    parse arithmetic.toNumbers (Utf8.decode ((Octets.utf8 row).take count)) = none

/-- What a crash within a row leaves of it. -/
def Fragment (arithmetic : Arithmetic) (bytes : List UInt8) : Prop :=
  ∃ row count, Fits arithmetic row ∧ 0 < count ∧ count < (Octets.utf8 row).length ∧ bytes = (Octets.utf8 row).take count

section Fragments
variable {arithmetic : Arithmetic} {bytes : List UInt8}

theorem Fragment.some' (fragment : Fragment arithmetic bytes) : bytes ≠ [] := by
  obtain ⟨row,count,_,positive,short,rfl⟩ := fragment
  apply List.ne_nil_of_length_pos
  rw [List.length_take]
  omega

theorem Fragment.single (fragment : Fragment arithmetic bytes) : Utf8.newline ∉ bytes := by
  obtain ⟨row,count,fits,_,_,rfl⟩ := fragment
  intro inside
  exact fits.single (Utf8.newline_utf8 (List.mem_of_mem_take inside))

theorem Fragment.short (fragment : Fragment arithmetic bytes) : bytes.length + 3 ≤ TAIL_BYTES := by
  obtain ⟨row,count,fits,_,_,rfl⟩ := fragment
  have own := fits.short
  rw [List.length_take]
  omega

theorem Fragment.no_row (fragment : Fragment arithmetic bytes) :
    parse arithmetic.toNumbers (Utf8.decode bytes) = none := by
  obtain ⟨row,count,fits,positive,short,rfl⟩ := fragment
  exact fits.torn count positive short

/-- A fragment is read as one line. -/
theorem Fragment.one_line (fragment : Fragment arithmetic bytes) : '\n' ∉ Utf8.decode bytes := by
  obtain ⟨row,count,fits,_,_,rfl⟩ := fragment
  obtain ⟨kept,broken,read,either,_⟩ := Utf8.decode_cut row count
  rw [read]
  intro inside
  rcases List.mem_append.mp inside with own | own
  · exact fits.single (List.mem_of_mem_take own)
  · rcases either with rfl | rfl
    · cases own
    · rw [List.mem_singleton] at own
      exact absurd own (by decide)

end Fragments

section Rows
variable {arithmetic : Arithmetic} {input : Input} {driver : Option (List (Units × Document arithmetic))}

private theorem plain_replacement : ∀ letter ∈ [Utf8.replacement], isPlain letter ∧ letter ≠ '\\' :=
  each_letter (by decide)

private theorem opening_bytes (rest : Text) : Octets.utf8 ('{' :: rest) = 0x7b :: Octets.utf8 rest := by
  unfold Octets.utf8
  rw [List.flatMap_cons]
  rfl

/-- The row that the append writes fits. -/
theorem rowLine_fits {at' : Text} {seq : Nat} {prev : Option Text} (checked : Checked input driver) (few : seq ≤ counted)
    (positive : 1 ≤ seq) (dated : at'.length ≤ 40) (digest : ∀ hash ∈ prev, isDigest (Utf16.ofText hash) = true) :
    Fits arithmetic (rowLine at' seq prev input driver) := by
  have written := @rowMembers_written arithmetic input at' seq prev driver checked few
  have shape : rowLine at' seq prev input driver =
      '{' :: (stringifyMembers arithmetic.toNumbers (rowMembers at' seq prev input driver) ++ ['}']) := by
    unfold rowLine
    rw [stringify]
  refine ⟨?_,?_,rowLine_bytes checked few dated digest,⟨seq,few,rowLine_seq checked few positive⟩,?_⟩
  · rw [shape]
    exact List.cons_ne_nil _ _
  · intro inside
    have printed := written_printed (row_written checked few) '\n' inside
    exact absurd printed (by decide)
  · intro count some' short
    rw [shape] at short ⊢
    obtain ⟨count,rfl⟩ : ∃ before, count = before + 1 := ⟨count - 1,by omega⟩
    rw [opening_bytes] at short ⊢
    rw [List.length_cons] at short
    obtain ⟨kept,broken,read,either,less⟩ := Utf8.decode_cut
      (stringifyMembers arithmetic.toNumbers (rowMembers at' seq prev input driver) ++ ['}']) count
    have opened : Utf8.decode ((0x7b :: Octets.utf8 (stringifyMembers arithmetic.toNumbers
        (rowMembers at' seq prev input driver) ++ ['}'])).take (count + 1)) = '{' :: Utf8.decode ((Octets.utf8
          (stringifyMembers arithmetic.toNumbers (rowMembers at' seq prev input driver) ++ ['}'])).take count) :=
      Utf8.decode_char '{' _
    have torn := @parse_torn arithmetic.toNumbers (rowMembers at' seq prev input driver) written (kept + 1)
      (Nat.succ_pos kept) (by
        rw [stringify,List.length_cons]
        exact Nat.succ_lt_succ (less (by omega))) broken (by
        rcases either with rfl | rfl
        · exact fun _ none => absurd none List.not_mem_nil
        · exact plain_replacement)
    rw [stringify] at torn
    rw [opened,read]
    exact torn

end Rows

section Contents
variable {arithmetic : Arithmetic} {rows : List Text} {bytes : List UInt8}

theorem linesBytes_append (first second : List Text) : linesBytes (first ++ second) = linesBytes first ++ linesBytes second :=
  List.flatMap_append

theorem linesBytes_single (row : Text) : linesBytes [row] = Octets.utf8 row ++ [Utf8.newline] := by
  unfold linesBytes
  rw [List.flatMap_singleton]

theorem linesBytes_some {row : Text} (inside : row ∈ rows) : linesBytes rows ≠ [] := by
  intro none
  have own := List.flatMap_eq_nil_iff.mp none row inside
  exact absurd (List.append_eq_nil_iff.mp own).2 (List.cons_ne_nil _ _)

/-- The walk reads whole rows as they are, and what stands behind them as one line more. -/
theorem fileLines_rows (single : ∀ row ∈ rows, '\n' ∉ row) (unbroken : Utf8.newline ∉ bytes) :
    fileLines ⟨[linesBytes rows ++ bytes],none⟩ = rows ++ if bytes = [] then [] else [Utf8.decode bytes] := by
  have pieces : ∀ piece ∈ rows.map Octets.utf8, Utf8.newline ∉ piece := by
    intro piece inside
    obtain ⟨row,among,rfl⟩ := List.mem_map.mp inside
    exact fun within => single row among (Utf8.newline_utf8 within)
  have cuts := Lines.cut_pieces pieces unbroken
  rw [List.flatMap_map] at cuts
  have back : (rows.map Octets.utf8).map Utf8.decode = rows := by
    rw [List.map_map]
    exact List.map_id'' (fun row => Utf8.decode_utf8 row) rows
  unfold fileLines
  dsimp only
  rw [Lines.cutChunks_flatten,List.flatten_singleton]
  unfold linesBytes
  rw [cuts]
  dsimp only
  rw [List.map_append,back]
  by_cases empty : bytes = []
  · simp [empty]
  · simp [empty]

/-- Rows end in a line's end. -/
private theorem ends_lines (rows : List Text) : linesBytes rows = [] ∨ ∃ body, linesBytes rows = body ++ [Utf8.newline] := by
  induction rows using List.reverseRecOn with
  | nil => exact .inl rfl
  | append_singleton rows row =>
    refine .inr ⟨linesBytes rows ++ Octets.utf8 row,?_⟩
    rw [linesBytes_append,linesBytes_single,List.append_assoc]

private theorem ends_dropped (rows : List Text) (count : Nat) :
    (linesBytes rows).drop count = [] ∨ ∃ body, (linesBytes rows).drop count = body ++ [Utf8.newline] := by
  rcases ends_lines rows with empty | ⟨body,shape⟩
  · rw [empty]
    exact .inl List.drop_nil
  · rw [shape,List.drop_append]
    rcases Nat.lt_or_ge body.length count with past | within
    · refine .inl ?_
      rw [List.drop_eq_nil_of_le (Nat.le_of_lt past),List.nil_append]
      exact List.drop_eq_nil_of_le (by rw [List.length_singleton]; omega)
    · refine .inr ⟨body.drop count,?_⟩
      rw [Nat.sub_eq_zero_of_le within,List.drop_zero]

private theorem split_single {text : Text} (single : '\n' ∉ text) (some' : text ≠ []) :
    (Lines.split '\n' text).filter (fun line => line ≠ []) = [text] := by
  rw [Lines.split_unbroken single]
  simp [some']

/-- What stands at a line's beginning is a line by itself. -/
private theorem lines_last {start : List UInt8} (begins : start = [] ∨ ∃ body, start = body ++ [Utf8.newline])
    {last : List UInt8} (single : '\n' ∉ Utf8.decode last) (some' : last ≠ []) :
    ∃ lines, (Lines.split '\n' (Utf8.decode (start ++ last))).filter (fun line => line ≠ []) = lines ++ [Utf8.decode last] ∧
      ∀ body, start = body ++ [Utf8.newline] → lines = (Lines.split '\n' (Utf8.decode body)).filter fun line => line ≠ [] := by
  have alone := split_single single (Utf8.decode_some some')
  rcases begins with rfl | ⟨body,rfl⟩
  · refine ⟨[],?_,fun body shape => absurd shape.symm (by simp)⟩
    rw [List.nil_append,List.nil_append]
    exact alone
  · refine ⟨(Lines.split '\n' (Utf8.decode body)).filter fun line => line ≠ [],?_,?_⟩
    · rw [List.append_assoc,List.singleton_append,Utf8.decode_newline,Lines.split_append,List.filter_append,alone]
    · intro other shape
      rw [List.append_cancel_right shape]

private theorem lines_ended (text : List UInt8) : (Lines.split '\n' (Utf8.decode (text ++ [Utf8.newline]))).filter
    (fun line => line ≠ []) = (Lines.split '\n' (Utf8.decode text)).filter fun line => line ≠ [] := by
  have none : Utf8.decode [] = [] := rfl
  rw [Utf8.decode_newline,none,Lines.split_append,List.filter_append,Lines.split_unbroken List.not_mem_nil]
  simp

theorem lastLine_none (path : String) : lastLine path [] = .ok none := by
  unfold lastLine
  rfl

/-- A torn line shows itself as the last line, or is too much to be read. -/
theorem lastLine_torn (path : String) (rows : List Text) (fragment : Fragment arithmetic bytes) :
    lastLine path (linesBytes rows ++ bytes) = .ok (some (Utf8.decode bytes)) ∨
      ∃ thrown, lastLine path (linesBytes rows ++ bytes) = .error thrown := by
  have short := fragment.short
  generalize begin' : (linesBytes rows ++ bytes).length - min (linesBytes rows ++ bytes).length TAIL_BYTES = begin
  have within : begin ≤ (linesBytes rows).length := by
    rw [List.length_append] at begin'
    omega
  obtain ⟨lines,read,_⟩ := lines_last (ends_dropped rows begin) fragment.one_line fragment.some'
  unfold lastLine
  dsimp only
  rw [begin',List.drop_append,Nat.sub_eq_zero_of_le within,List.drop_zero,read,if_neg (by simp)]
  split
  · exact .inr ⟨_,rfl⟩
  · exact .inl (by rw [List.getLast?_concat])

/-- A line more is seen before the last one, where two bytes of it or more are read. -/
private theorem earlier_line {count : Nat} (fits : ∀ row ∈ rows, Fits arithmetic row)
    (long : count + 2 ≤ (linesBytes rows).length) : ∃ body, (linesBytes rows).drop count = body ++ [Utf8.newline] ∧
      ((Lines.split '\n' (Utf8.decode body)).filter fun line => line ≠ []) ≠ [] := by
  induction rows using List.reverseRecOn with
  | nil => exact absurd long (by simp [linesBytes])
  | append_singleton rows row =>
    have own := fits row (List.mem_append_right _ List.mem_cons_self)
    rw [linesBytes_append,linesBytes_single,← List.append_assoc] at long ⊢
    rw [List.length_append,List.length_append,List.length_singleton] at long
    rcases Nat.lt_or_ge count (linesBytes rows).length with before | past
    · refine ⟨(linesBytes rows).drop count ++ Octets.utf8 row,?_,?_⟩
      · rw [List.append_assoc,List.append_assoc,List.drop_append,Nat.sub_eq_zero_of_le before.le,List.drop_zero]
      · have filled : Octets.utf8 row ≠ [] := by
          intro none
          have back := Utf8.decode_utf8 row
          rw [none] at back
          exact own.some' back.symm
        obtain ⟨lines,read,_⟩ := lines_last (ends_dropped rows count)
          (show '\n' ∉ Utf8.decode (Octets.utf8 row) by rw [Utf8.decode_utf8]; exact own.single) filled
        rw [read]
        simp
    · refine ⟨(Octets.utf8 row).drop (count - (linesBytes rows).length),?_,?_⟩
      · rw [List.append_assoc,List.drop_append,List.drop_eq_nil_of_le past,List.nil_append,List.drop_append,
          Nat.sub_eq_zero_of_le (show count - (linesBytes rows).length ≤ (Octets.utf8 row).length by omega),List.drop_zero]
      · obtain ⟨broken,kept,read,replaced⟩ := Utf8.decode_dropped row (count - (linesBytes rows).length)
        have filled : Utf8.decode ((Octets.utf8 row).drop (count - (linesBytes rows).length)) ≠ [] := by
          refine Utf8.decode_some (List.ne_nil_of_length_pos ?_)
          rw [List.length_drop]
          omega
        obtain ⟨letter,inside⟩ := List.exists_mem_of_ne_nil _ filled
        refine Lines.split_kept inside ?_
        rintro rfl
        rw [read] at inside
        rcases List.mem_append.mp inside with among | among
        · exact absurd (replaced _ among) (by decide)
        · exact own.single (List.mem_of_mem_drop among)

/-- A file of whole rows shows its last row. -/
theorem lastLine_rows (path : String) {row : Text} (fits : ∀ own ∈ rows ++ [row], Fits arithmetic own) :
    lastLine path (linesBytes (rows ++ [row])) = .ok (some row) := by
  have own := fits row (List.mem_append_right _ List.mem_cons_self)
  have short := own.short
  have filled : Octets.utf8 row ≠ [] := by
    intro none
    have back := Utf8.decode_utf8 row
    rw [none] at back
    exact own.some' back.symm
  have one : '\n' ∉ Utf8.decode (Octets.utf8 row) := by
    rw [Utf8.decode_utf8]
    exact own.single
  have size : (linesBytes (rows ++ [row])).length = (linesBytes rows).length + ((Octets.utf8 row).length + 1) := by
    rw [linesBytes_append,linesBytes_single,List.length_append,List.length_append,List.length_singleton]
  generalize begin' : (linesBytes (rows ++ [row])).length - min (linesBytes (rows ++ [row])).length TAIL_BYTES = begin
  have within : begin ≤ (linesBytes rows).length := by omega
  obtain ⟨lines,read,before⟩ := lines_last (ends_dropped rows begin) one filled
  have lines' : (Lines.split '\n' (Utf8.decode ((linesBytes (rows ++ [row])).drop begin))).filter (fun line => line ≠ []) =
      lines ++ [row] := by
    rw [linesBytes_append,linesBytes_single,List.drop_append,Nat.sub_eq_zero_of_le within,List.drop_zero,← List.append_assoc,
      lines_ended,read,Utf8.decode_utf8]
  unfold lastLine
  dsimp only
  rw [begin',lines',if_neg (by simp),if_neg,List.getLast?_concat]
  rintro ⟨single,cut⟩
  obtain ⟨body,shape,seen⟩ := @earlier_line arithmetic rows begin
    (fun other inside => fits other (List.mem_append_left _ inside)) (by omega)
  rw [List.length_append,List.length_singleton] at single
  rw [before body shape] at single
  exact seen (List.length_eq_zero_iff.mp (by omega))

end Contents

end PiDispatch.ConsoleAudit
