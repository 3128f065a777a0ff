import PiDispatch.ConsoleAudit
import PiDispatch.Kernel.Lines
import PiDispatch.Kernel.Points

/-! The text of a live transcript's entry (`live-transcript.mjs`): the head of what was said, written with its controls
as escapes, and clipped to what an entry shows. -/
namespace PiDispatch.LiveTranscript
open Kernel Kernel.Utf16 PiDispatch.ConsoleAudit

section Source

def lineFeed : UInt16 := 10

def carriage : UInt16 := 13

def tab : UInt16 := 9

/-- `replace(/\r\n?/g, "\n")`. -/
def lineBreaks : Units → Units
  | [] => []
  | [unit] => [if unit = carriage then lineFeed else unit]
  | unit :: next :: rest =>
    if unit = carriage then lineFeed :: (if next = lineFeed then lineBreaks rest else lineBreaks (next :: rest))
    else unit :: lineBreaks (next :: rest)

def escapeText (text : Units) : Units :=
  List.intercalate [lineFeed] ((Lines.split lineFeed (lineBreaks text)).map fun line =>
    List.intercalate [tab] ((Lines.split tab line).map escapeControls))

/-- The loop of `headOf`, as many code points as are left to take. -/
def walk : Nat → Units → Units
  | 0,_ => []
  | _,[] => []
  | left + 1,unit :: rest =>
    if isHigh unit then
      match rest with
      | [] => [unit]
      | next :: rest => unit :: next :: walk left rest
    else unit :: walk left rest

def headOf (text : Units) (points : Nat) : Units := if text.length ≤ points then text else walk points text

def isUpperHex (unit : UInt16) : Bool := 48 ≤ unit.toNat && unit.toNat ≤ 57 || 65 ≤ unit.toNat && unit.toNat ≤ 70

/-- The expression of `clip`, of a text from its first unit to its last. -/
def isHalf : Units → Bool
  | [first] => first = 92
  | [first,second] => first = 92 && second = 117
  | first :: second :: brace :: digits =>
    first = 92 && second = 117 && brace = 123 && digits.length ≤ 6 && digits.all isUpperHex
  | [] => false

/-- `replace` with it: the leftmost match is taken away. -/
def stripped : Units → Units
  | [] => []
  | unit :: rest => if isHalf (unit :: rest) then [] else unit :: stripped rest

def clip (text : Units) (max : Nat) : Units × Bool :=
  if (points text).length ≤ max then (text,false)
  else (stripped (((points text).take max).flatMap Point.units),true)

end Source

section Pieces

/-- What is written for a code point. -/
def shown : Point → List Point
  | .lone unit => [.lone unit]
  | .scalar letter =>
    if letter = '\n' ∨ letter = '\t' then [.scalar letter] else points (escapedPoint (.scalar letter))

/-- Line breaks, by code points. -/
def broken : List Point → List Point
  | [] => []
  | [point] => [if point.letter? = some '\r' then .scalar '\n' else point]
  | point :: next :: rest =>
    if point.letter? = some '\r' then
      .scalar '\n' :: (if next.letter? = some '\n' then broken rest else broken (next :: rest))
    else point :: broken (next :: rest)

/-- The pieces an escaped text is written in: one for a line break, one for each other code point. -/
def pieces (text : Units) : List (List Point) := (broken (points text)).map shown

section Breaks
variable {point : Point} {list : List Point}

private theorem surrogate_units {letter : Char} {unit : UInt16} (large : ¬letter.toNat < 0x10000)
    (inside : unit ∈ unitsOf letter) : (isHigh unit || isLow unit) = true := by
  have valid : letter.toNat < 0xD800 ∨ 0xDFFF < letter.toNat ∧ letter.toNat < 0x110000 := letter.valid
  unfold unitsOf at inside
  rw [if_neg large] at inside
  rcases List.mem_pair.mp inside with rfl | rfl
  all_goals
    unfold isHigh isLow
    rw [UInt16.toNat_ofNat_of_lt' (by change _ < 65536; omega)]
    simp only [Bool.or_eq_true,Bool.and_eq_true,decide_eq_true_eq]
    omega

/-- A unit that is no surrogate is all of its point. -/
theorem single_inside {unit : UInt16} (proper : point.Proper) (plain : (isHigh unit || isLow unit) = false)
    (inside : unit ∈ point.units) : point = single unit := by
  have own : points point.units = [point] := by
    have formed : Formed [point] := ⟨fun other among => List.mem_singleton.mp among ▸ proper,.singleton _⟩
    have back := points_units formed
    rw [List.flatMap_singleton] at back
    exact back
  have alone : point.units = [unit] := by
    cases point with
    | lone other => rw [List.mem_singleton.mp inside]; rfl
    | scalar letter =>
      by_cases small : letter.toNat < 0x10000
      · change unitsOf letter = [unit]
        change unit ∈ unitsOf letter at inside
        unfold unitsOf at inside ⊢
        rw [if_pos small] at inside ⊢
        rw [List.mem_singleton.mp inside]
      · rw [surrogate_units small inside] at plain
        cases plain
  rw [alone] at own
  exact (List.singleton_inj.mp own).symm

private theorem free_units {unit : UInt16} {letter : Char} (plain : single unit = .scalar letter) (proper : point.Proper)
    (apart : point.letter? ≠ some letter) : unit ∉ point.units := by
  intro inside
  have solid : (isHigh unit || isLow unit) = false := by
    unfold single at plain
    split at plain
    · cases plain
    next solid => exact Bool.eq_false_iff.mpr solid
  apply apart
  rw [single_inside proper solid inside,plain]
  rfl

private theorem letter_scalar {letter : Char} (own : point.letter? = some letter) : point = .scalar letter := by
  cases point with
  | lone unit => cases own
  | scalar other => rw [Option.some_inj.mp own]

private theorem lineBreaks_append {first : Units} (free : carriage ∉ first) (second : Units) :
    lineBreaks (first ++ second) = first ++ lineBreaks second := by
  induction first with
  | nil => rfl
  | cons unit first ih =>
    obtain ⟨apart,free⟩ := not_or.mp fun inside => free (List.mem_cons.mpr inside)
    have later := ih free
    rw [List.cons_append,List.cons_append,← later]
    cases rest : first ++ second with
    | nil => exact congrArg (fun own => [own]) (if_neg (Ne.symm apart))
    | cons next rest => rw [lineBreaks,if_neg (Ne.symm apart)]

private theorem lineBreaks_carriage {rest : Units} (apart : rest.head? ≠ some lineFeed) :
    lineBreaks (carriage :: rest) = lineFeed :: lineBreaks rest := by
  cases rest with
  | nil => rfl
  | cons next rest =>
    rw [lineBreaks,if_pos rfl,if_neg]
    intro same
    exact apart (congrArg some same)

/-- Line breaks are the same by units and by code points. -/
private theorem lineBreaks_units (proper : ∀ point ∈ list, point.Proper) :
    lineBreaks (list.flatMap Point.units) = (broken list).flatMap Point.units := by
  induction list using broken.induct with
  | case1 => rfl
  | case2 point =>
    have own := proper point List.mem_cons_self
    unfold broken
    split
    next break' => rw [letter_scalar break']; rfl
    next apart =>
      have kept := lineBreaks_append (@free_units point carriage '\r' rfl own apart) []
      rw [List.append_nil] at kept
      rw [List.flatMap_singleton,kept]
      exact List.append_nil _
  | case3 point next rest break' skipped kept =>
    obtain ⟨_,others⟩ := List.forall_mem_cons.mp proper
    rw [broken,if_pos break',letter_scalar break']
    split
    next feed =>
      have later := skipped (List.forall_mem_cons.mp others).2
      rw [letter_scalar feed]
      change _ = lineFeed :: (broken rest).flatMap Point.units
      rw [← later]
      rfl
    next apart =>
      have own := @free_units next lineFeed '\n' rfl (others next List.mem_cons_self) apart
      change _ = lineFeed :: (broken (next :: rest)).flatMap Point.units
      rw [← kept others]
      refine lineBreaks_carriage ?_
      intro first
      change (next.units ++ rest.flatMap Point.units).head? = _ at first
      rw [List.head?_append_of_ne_nil _ (units_ne_nil next)] at first
      exact own (List.mem_of_mem_head? first)
  | case4 point next rest apart ih =>
    obtain ⟨own,others⟩ := List.forall_mem_cons.mp proper
    have later := ih others
    rw [broken,if_neg apart]
    change lineBreaks (point.units ++ (next :: rest).flatMap Point.units) = point.units ++ _
    rw [lineBreaks_append (free_units rfl own apart),later]
    rfl

private theorem broken_first {first : Point} (inside : first ∈ (broken (point :: list)).head?) :
    first = point ∨ first = .scalar '\n' := by
  cases list with
  | nil =>
    unfold broken at inside
    split at inside
    · exact .inr (Option.mem_some.mp inside).symm
    · exact .inl (Option.mem_some.mp inside).symm
  | cons next list =>
    unfold broken at inside
    split at inside
    · exact .inr (Option.mem_some.mp inside).symm
    · exact .inl (Option.mem_some.mp inside).symm

private theorem formed_cons (proper : point.Proper) (next : ∀ other ∈ list.head?, Apart point other)
    (formed : Formed list) : Formed (point :: list) :=
  ⟨List.forall_mem_cons.mpr ⟨proper,formed.proper⟩,List.isChain_cons.mpr ⟨next,formed.apart⟩⟩

private theorem broken_formed (formed : Formed list) : Formed (broken list) := by
  induction list using broken.induct with
  | case1 => exact formed
  | case2 point =>
    unfold broken
    split
    · exact formed_cons trivial nofun ⟨nofun,.nil⟩
    · exact formed
  | case3 point next rest break' skipped kept =>
    rw [broken,if_pos break']
    refine formed_cons trivial (fun _ _ => trivial) ?_
    split
    · exact skipped (formed.inside ⟨[point,next],[],by simp⟩)
    · exact kept (formed.inside ⟨[point],[],by simp⟩)
  | case4 point next rest apart ih =>
    rw [broken,if_neg apart]
    refine formed_cons (formed.proper point List.mem_cons_self) ?_ (ih (formed.inside ⟨[point],[],by simp⟩))
    intro other first
    rcases broken_first first with rfl | rfl
    · exact (List.isChain_cons.mp formed.apart).1 _ rfl
    · cases point <;> trivial

theorem points_lineBreaks (text : Units) : points (lineBreaks text) = broken (points text) := by
  have formed := formed_points text
  have same := lineBreaks_units formed.proper
  rw [units_points] at same
  rw [same,points_units (broken_formed formed)]

end Breaks

section Writing
variable {point : Point}

def hexDigits (letter : Char) : List Char :=
  let digits := (Nat.toDigits 16 letter.toNat).map Char.toUpper
  List.replicate (4 - digits.length) '0' ++ digits

def escaped (letter : Char) : List Char := "\\u\x7b".toList ++ (hexDigits letter ++ ['\x7d'])

private theorem escapedPoint_escaped {letter : Char} (control : isEscaped letter = true) :
    escapedPoint (.scalar letter) = ofText (escaped letter) := by
  rw [escapedPoint,if_pos control]
  unfold escaped hexDigits
  simp only [List.append_assoc]

private theorem points_scalar (letter : Char) : points (unitsOf letter) = [.scalar letter] := by
  have own := points_unitsOf letter []
  rw [List.append_nil] at own
  exact own

theorem scalar_shown (letter : Char) :
    shown (.scalar letter) = [.scalar letter] ∨ shown (.scalar letter) = (escaped letter).map .scalar := by
  rw [shown]
  split
  · exact .inl rfl
  · by_cases control : isEscaped letter = true
    · rw [escapedPoint_escaped control,points_ofText]
      exact .inr rfl
    · refine .inl ?_
      rw [escapedPoint,if_neg control,points_scalar]

theorem shown_ne_nil (point : Point) : shown point ≠ [] := by
  cases point with
  | lone unit => exact List.cons_ne_nil _ _
  | scalar letter =>
    rcases scalar_shown letter with own | own
    all_goals rw [own]
    · exact List.cons_ne_nil _ _
    · exact List.cons_ne_nil _ _

private theorem pieces_formed (text : Units) : Formed (pieces text).flatten := by
  rw [pieces,← points_lineBreaks]
  refine Formed.written shown_ne_nil (fun _ => rfl) ?_ (formed_points _)
  intro letter other inside
  rcases scalar_shown letter with own | own
  all_goals rw [own] at inside
  · exact ⟨letter,List.mem_singleton.mp inside⟩
  · obtain ⟨character,_,rfl⟩ := List.mem_map.mp inside
    exact ⟨character,rfl⟩

/-- What `split`, `map` and `join` write of a text, by its code points. -/
private theorem split_written {separator : UInt16} (plain : (isHigh separator || isLow separator) = false)
    {line : Units → Units} {write : Point → Units} (own : write (single separator) = [separator])
    (free : ∀ text, separator ∉ text → line text = (points text).flatMap write) (text : Units) :
    List.intercalate [separator] ((Lines.split separator text).map line) = (points text).flatMap write := by
  induction size : text.length using Nat.strong_induction_on generalizing text with
  | _ size ih =>
    by_cases inside : separator ∈ text
    · obtain ⟨first,rest,rfl,apart⟩ := List.eq_append_cons_of_mem inside
      have later := ih rest.length (by rw [← size,List.length_append,List.length_cons]; omega) rest rfl
      have more : (Lines.split separator rest).map line ≠ [] := by
        unfold Lines.split
        rw [List.map_append]
        exact List.append_ne_nil_of_right_ne_nil _ (List.cons_ne_nil _ _)
      obtain ⟨high,low⟩ := Bool.or_eq_false_iff.mp plain
      have starts : ∀ second ∈ (separator :: rest).head?, isLow second = false := by
        intro second first
        rw [← Option.mem_some.mp first]
        exact low
      rw [Lines.split_append,Lines.split_unbroken apart,List.map_append,List.map_singleton,List.singleton_append,
        List.intercalate_cons_of_ne_nil more,later,free first apart,points_append first starts,points_plain high,
        List.flatMap_append,List.flatMap_cons,own,List.append_assoc]
    · rw [Lines.split_unbroken inside,List.map_singleton,free text inside]
      exact List.intercalate_singleton

private theorem unit_inside {text : Units} (inside : point ∈ points text) {unit : UInt16} (own : unit ∈ point.units) :
    unit ∈ text := by
  rw [← units_points text]
  exact List.mem_flatMap.mpr ⟨point,inside,own⟩

private def tabbed (point : Point) : Units := if point.letter? = some '\t' then [tab] else escapedPoint point

private def shownUnits (point : Point) : Units := if point.letter? = some '\n' then [lineFeed] else tabbed point

private theorem shown_units (point : Point) : (shown point).flatMap Point.units = shownUnits point := by
  unfold shownUnits tabbed
  cases point with
  | lone unit => rfl
  | scalar letter =>
    by_cases feed : letter = '\n'
    · subst feed
      rfl
    · by_cases stop : letter = '\t'
      · subst stop
        rfl
      · have own : (Point.scalar letter).letter? = some letter := rfl
        rw [own,if_neg (fun own => feed (Option.some_inj.mp own)),if_neg (fun own => stop (Option.some_inj.mp own)),shown,
          if_neg (fun own => own.elim feed stop),units_points]

/-- An escaped text is its pieces one after another. -/
theorem escapeText_pieces (text : Units) : escapeText text = (pieces text).flatten.flatMap Point.units := by
  have tabs : ∀ line, List.intercalate [tab] ((Lines.split tab line).map escapeControls) = (points line).flatMap tabbed := by
    refine split_written rfl rfl ?_
    intro line free
    refine List.flatMap_congr fun point inside => ?_
    unfold tabbed
    rw [if_neg]
    intro own
    rw [letter_scalar own] at inside
    exact free (unit_inside inside (List.mem_singleton.mpr rfl))
  have feeds : escapeText text = (points (lineBreaks text)).flatMap shownUnits := by
    refine split_written rfl rfl ?_ _
    intro line free
    rw [tabs]
    refine List.flatMap_congr fun point inside => ?_
    unfold shownUnits
    rw [if_neg]
    intro own
    rw [letter_scalar own] at inside
    exact free (unit_inside inside (List.mem_singleton.mpr rfl))
  rw [feeds,points_lineBreaks,pieces,← List.flatMap_def,List.flatMap_assoc]
  exact List.flatMap_congr fun point _ => (shown_units point).symm

theorem points_escapeText (text : Units) : points (escapeText text) = (pieces text).flatten := by
  rw [escapeText_pieces,points_units (pieces_formed text)]

end Writing

end Pieces

end PiDispatch.LiveTranscript
