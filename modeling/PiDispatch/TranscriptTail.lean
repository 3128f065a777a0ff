import PiDispatch.Kernel.Lines
import PiDispatch.Kernel.Octets

/-! A transcript file read as it grows: what each read appends is split into lines, a line that goes on is held, and one
past the limit is skipped and said once. -/
namespace PiDispatch.LiveTranscript
open Kernel

def newline : UInt8 := 10

def FIRST_LINE_PROBE_BYTES : Nat := 4096

/-- What the tail hands on: a line with the file position just past its newline, or that a line was skipped. -/
inductive Handed
  | line (bytes : List UInt8) (position : Nat)
  | skipped
  deriving DecidableEq

structure Tail where
  held : List UInt8
  skipping : Bool
  firstLine : Option (List UInt8)
  handed : List Handed

def Tail.fresh : Tail := ⟨[],false,none,[]⟩

section Take
variable (lineMaxBytes : Nat)

def Tail.probe (tail : Tail) (line : List UInt8) : Tail :=
  if tail.firstLine.isNone then { tail with firstLine := some (line.take FIRST_LINE_PROBE_BYTES) } else tail

/-- A line that ends: `piece` is its last part, and `position` the position past its newline. -/
def Tail.endLine (tail : Tail) (piece : List UInt8) (position : Nat) : Tail :=
  if tail.skipping then { tail with skipping := false, held := [] }
  else
    let line := if tail.held.length > 0 then tail.held ++ piece else piece
    let next := { tail with held := [] }.probe line
    if line.length > lineMaxBytes then { next with handed := next.handed ++ [.skipped] }
    else if line.length = 0 then next
    else { next with handed := next.handed ++ [.line line position] }

/-- A part of a line that goes on. -/
def Tail.hold (tail : Tail) (piece : List UInt8) : Tail :=
  if tail.skipping ∨ piece.length = 0 then tail
  else if tail.held.length + piece.length > lineMaxBytes then
    let next := tail.probe (tail.held ++ piece)
    { next with held := [], skipping := true, handed := next.handed ++ [.skipped] }
  else { tail with held := tail.held ++ piece }

/-- A chunk, its first byte at file position `base`. -/
def takeBytes (tail : Tail) (chunk : List UInt8) (base : Nat) : Tail :=
  let piece := chunk.takeWhile fun byte => byte ≠ newline
  match _ : chunk.dropWhile fun byte => byte ≠ newline with
  | [] => tail.hold lineMaxBytes piece
  | _ :: rest =>
    takeBytes (tail.endLine lineMaxBytes piece (base + piece.length + 1)) rest (base + piece.length + 1)
termination_by chunk.length
decreasing_by
  have shape := congrArg List.length (List.takeWhile_append_dropWhile (p := fun byte => decide (byte ≠ newline)) (l := chunk))
  rename_i found
  rw [List.length_append,found,List.length_cons] at shape
  omega

/-- Chunk after chunk. -/
def takeChunks (tail : Tail) : List (List UInt8) → Nat → Tail
  | [],_ => tail
  | chunk :: chunks,base => takeChunks (takeBytes lineMaxBytes tail chunk base) chunks (base + chunk.length)

end Take

section Whole

/-- The lines of a file that end, each with the position past its newline. -/
def ended (start : Nat) : List (List UInt8) → List (List UInt8 × Nat)
  | [] => []
  | line :: lines => (line,start + line.length + 1) :: ended (start + line.length + 1) lines

/-- What a line that ends comes to. -/
def handedOf (lineMaxBytes : Nat) (line : List UInt8 × Nat) : List Handed :=
  if line.1.length > lineMaxBytes then [.skipped] else if line.1 = [] then [] else [.line line.1 line.2]

/-- What reading a file whole hands on. -/
def whole (lineMaxBytes start : Nat) (bytes : List UInt8) : List Handed :=
  let cut := Lines.cut newline [] bytes
  (ended start cut.1).flatMap (handedOf lineMaxBytes) ++ if cut.2.length > lineMaxBytes then [.skipped] else []

end Whole

section Pieces

/-- What a file's bytes come to: its lines with their newlines, and the line that goes on. -/
private theorem cut_shape (carry bytes : List UInt8) :
    carry ++ bytes = ((Lines.cut newline carry bytes).1.flatMap fun line => line ++ [newline]) ++ (Lines.cut newline carry bytes).2 := by
  induction bytes generalizing carry with
  | nil => simp [Lines.cut]
  | cons byte bytes ih =>
    rw [Lines.cut]
    split
    next same =>
      have own := ih []
      rw [List.nil_append] at own
      rw [List.flatMap_cons,List.append_assoc,List.append_assoc,← own,same]
      rfl
    · rw [← ih (carry ++ [byte]),List.append_assoc,List.singleton_append]

private theorem ended_append (start : Nat) (lines : List (List UInt8)) (line : List UInt8) :
    ended start (lines ++ [line]) =
      ended start lines ++ [(line,start + (lines.flatMap fun line => line ++ [newline]).length + line.length + 1)] := by
  induction lines generalizing start with
  | nil => rfl
  | cons first lines ih =>
    rw [List.cons_append,ended,ih,ended,List.cons_append,List.flatMap_cons,List.length_append,List.length_append]
    simp only [List.length_singleton]
    rw [show start + first.length + 1 + (lines.flatMap fun line => line ++ [newline]).length =
      start + (first.length + 1 + (lines.flatMap fun line => line ++ [newline]).length) by omega]

private theorem cut_more {piece : List UInt8} (free : newline ∉ piece) (bytes : List UInt8) :
    Lines.cut newline [] (bytes ++ piece) =
      ((Lines.cut newline [] bytes).1,(Lines.cut newline [] bytes).2 ++ piece) := by
  rw [Lines.cut_append,Lines.cut_unbroken free,List.append_nil]

private theorem cut_line {piece : List UInt8} (free : newline ∉ piece) (bytes : List UInt8) :
    Lines.cut newline [] (bytes ++ (piece ++ [newline])) =
      ((Lines.cut newline [] bytes).1 ++ [(Lines.cut newline [] bytes).2 ++ piece],[]) := by
  rw [← List.append_assoc,Lines.cut_append,cut_more free]
  rfl

end Pieces

section Abreast
variable {lineMaxBytes start : Nat}

/-- A tail that has taken some bytes: it skips where the line that goes on is past the limit, else it holds that. -/
structure Abreast (lineMaxBytes start : Nat) (bytes : List UInt8) (tail : Tail) : Prop where
  skips : tail.skipping = true ↔ (Lines.cut newline [] bytes).2.length > lineMaxBytes
  holds : tail.held = if (Lines.cut newline [] bytes).2.length > lineMaxBytes then [] else (Lines.cut newline [] bytes).2
  handed : tail.handed = whole lineMaxBytes start bytes

private theorem probe_fields (tail : Tail) (line : List UInt8) :
    (tail.probe line).handed = tail.handed ∧ (tail.probe line).held = tail.held ∧
      (tail.probe line).skipping = tail.skipping := by
  unfold Tail.probe
  split
  · exact ⟨rfl,rfl,rfl⟩
  · exact ⟨rfl,rfl,rfl⟩

private theorem Abreast.hold {bytes : List UInt8} {tail : Tail} (abreast : Abreast lineMaxBytes start bytes tail)
    {piece : List UInt8} (free : newline ∉ piece) :
    Abreast lineMaxBytes start (bytes ++ piece) (tail.hold lineMaxBytes piece) := by
  obtain ⟨skips,holds,handed⟩ := abreast
  have cut := cut_more free bytes
  unfold Tail.hold
  unfold whole at handed
  dsimp only at handed
  split
  next idle =>
    rcases idle with skipping | none'
    · have past := skips.mp skipping
      have longer : (Lines.cut newline [] (bytes ++ piece)).2.length > lineMaxBytes := by
        rw [cut,List.length_append]
        omega
      refine ⟨⟨fun _ => longer,fun _ => skipping⟩,?_,?_⟩
      · rw [if_pos longer,holds,if_pos past]
      · unfold whole
        dsimp only
        rw [if_pos longer,handed,if_pos past,cut]
    · rw [List.length_eq_zero_iff.mp none',List.append_nil]
      exact ⟨skips,holds,handed⟩
  next busy =>
    obtain ⟨reading,some'⟩ := not_or.mp busy
    have within : ¬(Lines.cut newline [] bytes).2.length > lineMaxBytes := fun past => reading (skips.mpr past)
    rw [if_neg within] at holds handed
    have length : (Lines.cut newline [] (bytes ++ piece)).2.length = tail.held.length + piece.length := by
      rw [cut,List.length_append,holds]
    obtain ⟨said,_,_⟩ := probe_fields tail (tail.held ++ piece)
    split
    next past =>
      have longer : (Lines.cut newline [] (bytes ++ piece)).2.length > lineMaxBytes := by omega
      refine ⟨⟨fun _ => longer,fun _ => rfl⟩,(if_pos longer).symm,?_⟩
      dsimp only
      unfold whole
      dsimp only
      rw [if_pos longer,said,handed,cut,List.append_nil]
    next fits =>
      have small : ¬(Lines.cut newline [] (bytes ++ piece)).2.length > lineMaxBytes := by omega
      refine ⟨⟨fun skipping => absurd skipping reading,fun past => absurd past small⟩,?_,?_⟩
      · rw [if_neg small,cut,holds]
      · unfold whole
        dsimp only
        rw [if_neg small,handed,cut]

private theorem Abreast.endLine {bytes : List UInt8} {tail : Tail} (abreast : Abreast lineMaxBytes start bytes tail)
    {piece : List UInt8} (free : newline ∉ piece) :
    Abreast lineMaxBytes start (bytes ++ (piece ++ [newline]))
      (tail.endLine lineMaxBytes piece (start + bytes.length + piece.length + 1)) := by
  obtain ⟨skips,holds,handed⟩ := abreast
  have cut := cut_line free bytes
  have short : ¬(Lines.cut newline [] (bytes ++ (piece ++ [newline]))).2.length > lineMaxBytes := by
    rw [cut]
    exact Nat.not_lt_zero _
  have size := congrArg List.length (cut_shape [] bytes)
  rw [List.nil_append,List.length_append] at size
  have lines : whole lineMaxBytes start (bytes ++ (piece ++ [newline])) =
      (ended start (Lines.cut newline [] bytes).1).flatMap (handedOf lineMaxBytes) ++
        handedOf lineMaxBytes ((Lines.cut newline [] bytes).2 ++ piece,start + bytes.length + piece.length + 1) := by
    unfold whole
    dsimp only
    rw [if_neg short,List.append_nil,cut,ended_append,List.flatMap_append,List.flatMap_cons,List.flatMap_nil,List.append_nil,
      List.length_append]
    rw [show start + ((Lines.cut newline [] bytes).1.flatMap fun line => line ++ [newline]).length +
      ((Lines.cut newline [] bytes).2.length + piece.length) + 1 = start + bytes.length + piece.length + 1 by omega]
  unfold whole at handed
  dsimp only at handed
  unfold Tail.endLine
  split
  next skipping =>
    have past := skips.mp skipping
    refine ⟨⟨fun never => (by cases never),fun past' => absurd past' short⟩,?_,?_⟩
    · rw [if_neg short,cut]
    · have longer : ((Lines.cut newline [] bytes).2 ++ piece).length > lineMaxBytes := by
        rw [List.length_append]
        omega
      have own : handedOf lineMaxBytes ((Lines.cut newline [] bytes).2 ++ piece,start + bytes.length + piece.length + 1) =
          [.skipped] := if_pos longer
      rw [lines,own,handed,if_pos past]
  next reading =>
    have within : ¬(Lines.cut newline [] bytes).2.length > lineMaxBytes := fun past => reading (skips.mpr past)
    rw [if_neg within] at holds handed
    rw [List.append_nil] at handed
    have line : (if tail.held.length > 0 then tail.held ++ piece else piece) = (Lines.cut newline [] bytes).2 ++ piece := by
      rw [← holds]
      split
      · rfl
      next none' => rw [List.length_eq_zero_iff.mp (Nat.eq_zero_of_not_pos none'),List.nil_append]
    dsimp only
    rw [line]
    obtain ⟨said,free',still⟩ := probe_fields { tail with held := [] } ((Lines.cut newline [] bytes).2 ++ piece)
    dsimp only at said free' still
    have skip : ∀ other : Tail, other.skipping = tail.skipping →
        (other.skipping = true ↔ (Lines.cut newline [] (bytes ++ (piece ++ [newline]))).2.length > lineMaxBytes) := by
      intro other same
      rw [same]
      exact ⟨fun skipping => absurd skipping reading,fun past => absurd past short⟩
    have empty : [] = if (Lines.cut newline [] (bytes ++ (piece ++ [newline]))).2.length > lineMaxBytes then []
        else (Lines.cut newline [] (bytes ++ (piece ++ [newline]))).2 := by
      rw [if_neg short,cut]
    split
    next past =>
      refine ⟨skip _ still,free'.trans empty,?_⟩
      have own : handedOf lineMaxBytes ((Lines.cut newline [] bytes).2 ++ piece,start + bytes.length + piece.length + 1) =
          [.skipped] := if_pos past
      rw [lines,own]
      dsimp only
      rw [said,handed]
    next fits =>
      split
      next none' =>
        refine ⟨skip _ still,free'.trans empty,?_⟩
        have own : handedOf lineMaxBytes ((Lines.cut newline [] bytes).2 ++ piece,start + bytes.length + piece.length + 1) =
            [] := (if_neg fits).trans (if_pos (List.length_eq_zero_iff.mp none'))
        rw [lines,own,said,handed,List.append_nil]
      next some' =>
        refine ⟨skip _ still,free'.trans empty,?_⟩
        have own : handedOf lineMaxBytes ((Lines.cut newline [] bytes).2 ++ piece,start + bytes.length + piece.length + 1) =
            [.line ((Lines.cut newline [] bytes).2 ++ piece) (start + bytes.length + piece.length + 1)] :=
          (if_neg fits).trans (if_neg fun none' => some' (List.length_eq_zero_iff.mpr none'))
        rw [lines,own]
        dsimp only
        rw [said,handed]

private theorem piece_free (chunk : List UInt8) : newline ∉ chunk.takeWhile fun byte => byte ≠ newline := by
  intro inside
  have apart := List.mem_takeWhile_imp inside
  exact of_decide_eq_true apart rfl

/-- A chunk takes the state of the bytes before it to the state of the bytes with it. -/
private theorem Abreast.take {bytes : List UInt8} {tail : Tail} (abreast : Abreast lineMaxBytes start bytes tail)
    (chunk : List UInt8) : Abreast lineMaxBytes start (bytes ++ chunk)
      (takeBytes lineMaxBytes tail chunk (start + bytes.length)) := by
  have split := List.takeWhile_append_dropWhile (p := fun byte => decide (byte ≠ newline)) (l := chunk)
  have free := piece_free chunk
  rw [takeBytes]
  split
  next found =>
    rw [found,List.append_nil] at split
    have held := abreast.hold free
    rw [split] at held ⊢
    exact held
  next first rest found =>
    have last : first = newline := by
      have stops := List.head?_dropWhile_not (fun byte => decide (byte ≠ newline)) chunk
      rw [found] at stops
      simpa using stops
    have size := congrArg List.length split
    rw [List.length_append,found,List.length_cons] at size
    have shorter : rest.length < chunk.length := by omega
    have next := abreast.endLine free
    have later := Abreast.take next rest
    rw [found,last] at split
    generalize chunk.takeWhile (fun byte => decide (byte ≠ newline)) = piece at *
    rw [List.length_append,List.length_append,List.length_singleton] at later
    rw [← split]
    rw [List.append_assoc,List.append_assoc,List.singleton_append] at later
    rw [show start + (bytes.length + (piece.length + 1)) = start + bytes.length + piece.length + 1 by omega] at later
    exact later
termination_by chunk.length
decreasing_by exact shorter

private theorem Abreast.takeChunks {bytes : List UInt8} {tail : Tail} (abreast : Abreast lineMaxBytes start bytes tail)
    (chunks : List (List UInt8)) : Abreast lineMaxBytes start (bytes ++ chunks.flatten)
      (takeChunks lineMaxBytes tail chunks (start + bytes.length)) := by
  induction chunks generalizing bytes tail with
  | nil =>
    rw [List.flatten_nil,List.append_nil]
    exact abreast
  | cons chunk chunks ih =>
    have later := ih (abreast.take chunk)
    rw [List.length_append,← Nat.add_assoc,List.append_assoc] at later
    exact later

end Abreast

section Counted

def Handed.line? : Handed → Option (List UInt8 × Nat)
  | .line bytes position => some (bytes,position)
  | .skipped => none

/-- The lines published. -/
def Tail.published (tail : Tail) : List (List UInt8 × Nat) := tail.handed.filterMap Handed.line?

/-- How many lines were counted as oversize. -/
def Tail.skipped (tail : Tail) : Nat := tail.handed.count .skipped

private theorem handed_lines (lineMaxBytes : Nat) (lines : List (List UInt8 × Nat)) :
    (lines.flatMap (handedOf lineMaxBytes)).filterMap Handed.line? =
        lines.filter (fun line => line.1 ≠ [] ∧ line.1.length ≤ lineMaxBytes) ∧
      (lines.flatMap (handedOf lineMaxBytes)).count .skipped =
        (lines.map Prod.fst).countP fun line => line.length > lineMaxBytes := by
  induction lines with
  | nil => exact ⟨rfl,rfl⟩
  | cons line lines ih =>
    rw [List.flatMap_cons,List.filterMap_append,List.count_append,ih.1,ih.2,List.filter_cons,List.map_cons,List.countP_cons]
    unfold handedOf
    split
    next past =>
      have fails : ¬(line.1 ≠ [] ∧ line.1.length ≤ lineMaxBytes) := fun both => absurd both.2 (Nat.not_le_of_lt past)
      rw [if_neg (by simpa using fails),if_pos (by simpa using past)]
      exact ⟨rfl,Nat.add_comm _ _⟩
    next fits =>
      split
      next none' =>
        have fails : ¬(line.1 ≠ [] ∧ line.1.length ≤ lineMaxBytes) := fun both => both.1 none'
        rw [if_neg (by simpa using fails),if_neg (by simpa using fits)]
        exact ⟨rfl,Nat.add_comm _ _⟩
      next some' =>
        have holds : line.1 ≠ [] ∧ line.1.length ≤ lineMaxBytes := ⟨some',Nat.le_of_not_gt fits⟩
        rw [if_pos (by simpa using holds),if_neg (by simpa using fits)]
        exact ⟨rfl,Nat.add_comm _ _⟩

private theorem ended_fst (start : Nat) (lines : List (List UInt8)) : (ended start lines).map Prod.fst = lines := by
  induction lines generalizing start with
  | nil => rfl
  | cons line lines ih => rw [ended,List.map_cons,ih]

/-- Each line that ends stands after a newline or at the start, and its end is past its own. -/
private theorem ended_place {start : Nat} {lines : List (List UInt8)} {line : List UInt8} {position : Nat}
    (inside : (line,position) ∈ ended start lines) : ∃ before after : List (List UInt8), lines = before ++ line :: after ∧
      position = start + (before.flatMap fun line => line ++ [newline]).length + line.length + 1 := by
  induction lines generalizing start with
  | nil => cases inside
  | cons first lines ih =>
    rcases List.mem_cons.mp inside with same | later
    · cases same
      exact ⟨[],lines,rfl,rfl⟩
    · obtain ⟨before,after,rfl,place⟩ := ih later
      refine ⟨first :: before,after,rfl,?_⟩
      rw [List.flatMap_cons,List.length_append,List.length_append,List.length_singleton]
      omega

/-- A file read in pieces, however it is cut, is the file read whole: each line that ends and is neither empty nor past the
limit is published with the position past its newline, and each line past the limit is counted once. -/
theorem tailed_whole (lineMaxBytes start : Nat) (chunks : List (List UInt8)) :
    let tail := takeChunks lineMaxBytes .fresh chunks start
    let bytes := chunks.flatten
    let lines := ended start (Lines.cut newline [] bytes).1
    tail.published = lines.filter (fun line => line.1 ≠ [] ∧ line.1.length ≤ lineMaxBytes) ∧
    tail.skipped = (Lines.split newline bytes).countP (fun line => line.length > lineMaxBytes) ∧
    (∀ line position, (line,position) ∈ tail.published → ∃ before after, bytes = before ++ line ++ newline :: after ∧
      newline ∉ line ∧ (before = [] ∨ ∃ front, before = front ++ [newline]) ∧
      position = start + before.length + line.length + 1) ∧
    ∀ front line next back, lines = front ++ line :: next :: back → line.1.length > lineMaxBytes →
      next.1 ≠ [] → next.1.length ≤ lineMaxBytes → next ∈ tail.published := by
  dsimp only
  have none' : Abreast lineMaxBytes start [] .fresh := by
    refine ⟨⟨fun never => (by cases never),fun past => absurd past (Nat.not_lt_zero _)⟩,rfl,rfl⟩
  have handed := (none'.takeChunks chunks).handed
  rw [List.nil_append,List.length_nil,Nat.add_zero] at handed
  obtain ⟨lines,past⟩ := handed_lines lineMaxBytes (ended start (Lines.cut newline [] chunks.flatten).1)
  have published : (takeChunks lineMaxBytes .fresh chunks start).published =
      (ended start (Lines.cut newline [] chunks.flatten).1).filter fun line => line.1 ≠ [] ∧ line.1.length ≤ lineMaxBytes := by
    unfold Tail.published
    rw [handed]
    unfold whole
    dsimp only
    rw [List.filterMap_append,lines]
    split
    · exact List.append_nil _
    · exact List.append_nil _
  refine ⟨published,?_,?_,?_⟩
  · unfold Tail.skipped
    rw [handed]
    unfold whole Lines.split
    dsimp only
    rw [List.count_append,past,ended_fst,List.countP_append,List.countP_singleton]
    congr 1
    split
    next longer =>
      rw [if_pos (by simpa using longer)]
      rfl
    next shorter =>
      rw [if_neg (by simpa using shorter)]
      rfl
  · intro line position inside
    rw [published] at inside
    obtain ⟨before,after,shape,place⟩ := ended_place (List.mem_filter.mp inside).1
    have bytes := cut_shape [] chunks.flatten
    rw [List.nil_append,shape,List.flatMap_append,List.flatMap_cons] at bytes
    refine ⟨before.flatMap fun line => line ++ [newline],(after.flatMap fun line => line ++ [newline]) ++
      (Lines.cut newline [] chunks.flatten).2,?_,?_,?_,place⟩
    · refine bytes.trans ?_
      simp only [List.append_assoc,List.nil_append,List.cons_append]
    · have among : line ∈ (Lines.cut newline [] chunks.flatten).1 := by
        rw [shape]
        exact List.mem_append_right _ List.mem_cons_self
      exact Lines.cut_free List.not_mem_nil line among
    · rcases List.eq_nil_or_concat before with rfl | ⟨early,last,rfl⟩
      · exact .inl rfl
      · refine .inr ⟨(early.flatMap fun line => line ++ [newline]) ++ last,?_⟩
        rw [List.concat_eq_append,List.flatMap_append,List.flatMap_cons,List.flatMap_nil,List.append_nil,List.append_assoc]
  · intro front line next back shape _ some' fits
    rw [published,shape]
    refine List.mem_filter.mpr ⟨?_,decide_eq_true ⟨some',fits⟩⟩
    exact List.mem_append_right _ (List.mem_cons_of_mem _ List.mem_cons_self)

end Counted

end PiDispatch.LiveTranscript
