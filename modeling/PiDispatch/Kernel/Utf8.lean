import PiDispatch.Kernel.Octets

/-! Bytes read as UTF-8 where nothing is refused: what is no character becomes a replacement character, one for each longest
part of a character that breaks off. -/
namespace PiDispatch.Kernel.Utf8
open Octets

def replacement : Char := '\uFFFD'

/-- A character that has begun: its bits so far, how many bytes it wants, and where the bits of the next of them lie. -/
structure Begun where
  bits : Nat
  wanted : Nat
  low : Nat
  high : Nat

def lead (byte : Nat) : Text × Option Begun :=
  if byte < 0x80 then ([Char.ofNat byte],none)
  else if byte < 0xC2 then ([replacement],none)
  else if byte < 0xE0 then ([],some ⟨byte - 0xC0,1,0,0x3F⟩)
  else if byte < 0xF0 then
    ([],some ⟨byte - 0xE0,2,if byte = 0xE0 then 0x20 else 0,if byte = 0xED then 0x1F else 0x3F⟩)
  else if byte < 0xF5 then
    ([],some ⟨byte - 0xF0,3,if byte = 0xF0 then 0x10 else 0,if byte = 0xF4 then 0x0F else 0x3F⟩)
  else ([replacement],none)

/-- A byte that cannot go on with the character begun breaks it off, and is read as a first byte. -/
def next : Option Begun → Nat → Text × Option Begun
  | none,byte => lead byte
  | some begun,byte =>
    if 0x80 ≤ byte ∧ begun.low ≤ byte - 0x80 ∧ byte - 0x80 ≤ begun.high then
      if begun.wanted = 1 then ([Char.ofNat (begun.bits * 64 + (byte - 0x80))],none)
      else ([],some ⟨begun.bits * 64 + (byte - 0x80),begun.wanted - 1,0,0x3F⟩)
    else (replacement :: (lead byte).1,(lead byte).2)

def decodeFrom : Option Begun → List UInt8 → Text
  | none,[] => []
  | some _,[] => [replacement]
  | begun,byte :: rest => (next begun byte.toNat).1 ++ decodeFrom (next begun byte.toNat).2 rest

def decode (bytes : List UInt8) : Text := decodeFrom none bytes

def newline : UInt8 := 10

section Characters

private theorem decodeFrom_cons (begun : Option Begun) (number : Nat) (small : number < 256) (rest : List UInt8) :
    decodeFrom begun (UInt8.ofNat number :: rest) = (next begun number).1 ++ decodeFrom (next begun number).2 rest := by
  rw [decodeFrom.eq_def]
  cases begun <;> simp only [UInt8.toNat_ofNat',Nat.mod_eq_of_lt small]

private theorem continued (bits wanted low high part : Nat) (more : wanted ≠ 1) (above : low ≤ part) (below : part ≤ high) :
    next (some ⟨bits,wanted,low,high⟩) (part + 0x80) = ([],some ⟨bits * 64 + part,wanted - 1,0,0x3F⟩) := by
  have own : part + 0x80 - 0x80 = part := Nat.add_sub_cancel _ _
  unfold next
  simp only [own]
  rw [if_pos ⟨by omega,above,below⟩,if_neg more]

private theorem finished (bits low high part : Nat) (above : low ≤ part) (below : part ≤ high) :
    next (some ⟨bits,1,low,high⟩) (part + 0x80) = ([Char.ofNat (bits * 64 + part)],none) := by
  have own : part + 0x80 - 0x80 = part := Nat.add_sub_cancel _ _
  unfold next
  simp only [own]
  rw [if_pos ⟨by omega,above,below⟩,if_pos trivial]

private theorem lead_one {number : Nat} (small : number ≤ 0x7f) : next none number = ([Char.ofNat number],none) := by
  unfold next lead
  dsimp only
  rw [if_pos (by omega)]

private theorem lead_two {part : Nat} (least : 2 ≤ part) (most : part < 32) :
    next none (part + 0xc0) = ([],some ⟨part,1,0,0x3F⟩) := by
  unfold next lead
  dsimp only
  rw [if_neg (by omega),if_neg (by omega),if_pos (by omega),Nat.add_sub_cancel]

private theorem lead_three {part : Nat} (most : part < 16) : next none (part + 0xe0) =
    ([],some ⟨part,2,if part = 0 then 0x20 else 0,if part = 13 then 0x1F else 0x3F⟩) := by
  have first : part + 0xe0 = 0xe0 ↔ part = 0 := by omega
  have last : part + 0xe0 = 0xed ↔ part = 13 := by omega
  unfold next lead
  dsimp only
  rw [if_neg (by omega),if_neg (by omega),if_neg (by omega),if_pos (by omega),Nat.add_sub_cancel]
  simp only [first,last]

private theorem lead_four {part : Nat} (most : part < 5) : next none (part + 0xf0) =
    ([],some ⟨part,3,if part = 0 then 0x10 else 0,if part = 4 then 0x0F else 0x3F⟩) := by
  have first : part + 0xf0 = 0xf0 ↔ part = 0 := by omega
  have last : part + 0xf0 = 0xf4 ↔ part = 4 := by omega
  unfold next lead
  dsimp only
  rw [if_neg (by omega),if_neg (by omega),if_neg (by omega),if_neg (by omega),if_pos (by omega),Nat.add_sub_cancel]
  simp only [first,last]

private theorem scalar (letter : Char) : letter.toNat < 0xD800 ∨ 0xDFFF < letter.toNat ∧ letter.toNat < 0x110000 :=
  letter.valid

/-- How a character's bytes are read: to their end, and to any place within them. -/
private theorem character_read (letter : Char) (rest : List UInt8) :
    decodeFrom none (String.utf8EncodeChar letter ++ rest) = letter :: decodeFrom none rest ∧
      ∀ count, 0 < count → count < (String.utf8EncodeChar letter).length →
        decodeFrom none ((String.utf8EncodeChar letter).take count) = [replacement] := by
  have range := scalar letter
  have same : Char.ofNat letter.toNat = letter := Char.ofNat_toNat letter
  unfold String.utf8EncodeChar
  change _ < 0xD800 ∨ _ at range
  dsimp only
  rw [show letter.val.toNat = letter.toNat from rfl]
  split
  next small =>
    refine ⟨?_,fun count positive less => absurd less (by simp; omega)⟩
    rw [List.singleton_append,decodeFrom_cons _ _ (by omega),lead_one small,same]
    rfl
  next above =>
    have above : 0x80 ≤ letter.toNat := Nat.lt_of_not_le above
    split
    next two =>
      have first := @lead_two (letter.toNat / 64 % 32) (by omega) (by omega)
      have last := finished (letter.toNat / 64 % 32) 0 0x3F (letter.toNat % 64) (by omega) (by omega)
      rw [show letter.toNat / 64 % 32 * 64 + letter.toNat % 64 = letter.toNat by omega,same] at last
      constructor
      · rw [List.cons_append,decodeFrom_cons _ _ (by omega),first,List.cons_append,decodeFrom_cons _ _ (by omega),last]
        rfl
      · intro count positive less
        obtain rfl : count = 1 := by simp at less; omega
        rw [List.take_succ_cons,decodeFrom_cons _ _ (by omega),first]
        rfl
    next above' =>
      split
      next three =>
        have first := @lead_three (letter.toNat / 4096 % 16) (by omega)
        have middle := continued (letter.toNat / 4096 % 16) 2 (if letter.toNat / 4096 % 16 = 0 then 0x20 else 0)
          (if letter.toNat / 4096 % 16 = 13 then 0x1F else 0x3F) (letter.toNat / 64 % 64) (by decide)
          (by split <;> omega) (by split <;> omega)
        have last := finished (letter.toNat / 4096 % 16 * 64 + letter.toNat / 64 % 64) 0 0x3F (letter.toNat % 64) (by omega)
          (by omega)
        rw [show (letter.toNat / 4096 % 16 * 64 + letter.toNat / 64 % 64) * 64 + letter.toNat % 64 = letter.toNat by omega,
          same] at last
        constructor
        · rw [List.cons_append,decodeFrom_cons _ _ (by omega),first,List.cons_append,decodeFrom_cons _ _ (by omega),middle,
            List.cons_append,decodeFrom_cons _ _ (by omega),last]
          rfl
        · intro count positive less
          have less : count < 3 := less
          obtain rfl | rfl : count = 1 ∨ count = 2 := by omega
          · rw [List.take_succ_cons,decodeFrom_cons _ _ (by omega),first]
            rfl
          · rw [List.take_succ_cons,decodeFrom_cons _ _ (by omega),first,List.take_succ_cons,decodeFrom_cons _ _ (by omega),
              middle]
            rfl
      next above'' =>
        have first := @lead_four (letter.toNat / 262144 % 8) (by omega)
        have second := continued (letter.toNat / 262144 % 8) 3 (if letter.toNat / 262144 % 8 = 0 then 0x10 else 0)
          (if letter.toNat / 262144 % 8 = 4 then 0x0F else 0x3F) (letter.toNat / 4096 % 64) (by decide)
          (by split <;> omega) (by split <;> omega)
        have third := continued (letter.toNat / 262144 % 8 * 64 + letter.toNat / 4096 % 64) 2 0 0x3F
          (letter.toNat / 64 % 64) (by decide) (by omega) (by omega)
        have last := finished ((letter.toNat / 262144 % 8 * 64 + letter.toNat / 4096 % 64) * 64 + letter.toNat / 64 % 64) 0
          0x3F (letter.toNat % 64) (by omega) (by omega)
        rw [show ((letter.toNat / 262144 % 8 * 64 + letter.toNat / 4096 % 64) * 64 + letter.toNat / 64 % 64) * 64 +
          letter.toNat % 64 = letter.toNat by omega,same] at last
        constructor
        · rw [List.cons_append,decodeFrom_cons _ _ (by omega),first,List.cons_append,decodeFrom_cons _ _ (by omega),second,
            List.cons_append,decodeFrom_cons _ _ (by omega),third,List.cons_append,decodeFrom_cons _ _ (by omega),last]
          rfl
        · intro count positive less
          have less : count < 4 := less
          obtain rfl | rfl | rfl : count = 1 ∨ count = 2 ∨ count = 3 := by omega
          · rw [List.take_succ_cons,decodeFrom_cons _ _ (by omega),first]
            rfl
          · rw [List.take_succ_cons,decodeFrom_cons _ _ (by omega),first,List.take_succ_cons,decodeFrom_cons _ _ (by omega),
              second]
            rfl
          · rw [List.take_succ_cons,decodeFrom_cons _ _ (by omega),first,List.take_succ_cons,decodeFrom_cons _ _ (by omega),
              second,List.take_succ_cons,decodeFrom_cons _ _ (by omega),third]
            rfl

theorem decode_char (letter : Char) (rest : List UInt8) :
    decode (String.utf8EncodeChar letter ++ rest) = letter :: decode rest := (character_read letter rest).1

theorem decode_broken (letter : Char) {count : Nat} (some' : 0 < count)
    (short : count < (String.utf8EncodeChar letter).length) :
    decode ((String.utf8EncodeChar letter).take count) = [replacement] := (character_read letter []).2 count some' short

end Characters

/-- A text is read back from its bytes. -/
theorem decode_utf8 (text : Text) : decode (utf8 text) = text := by
  induction text with
  | nil => rfl
  | cons letter text ih =>
    rw [utf8,List.flatMap_cons,decode_char]
    exact congrArg (List.cons letter) ih

/-- What is cut off a text's bytes is read as a part of the text, and at most one replacement character. -/
theorem decode_cut (text : Text) (count : Nat) : ∃ kept broken, decode ((utf8 text).take count) = text.take kept ++ broken ∧
    (broken = [] ∨ broken = [replacement]) ∧ (count < (utf8 text).length → kept < text.length) := by
  induction text generalizing count with
  | nil => exact ⟨0,[],by simp [utf8]; rfl,.inl rfl,by simp [utf8]⟩
  | cons letter text ih =>
    have shape : utf8 (letter :: text) = String.utf8EncodeChar letter ++ utf8 text := List.flatMap_cons
    rw [shape,List.take_append]
    rcases Nat.lt_or_ge count (String.utf8EncodeChar letter).length with short | whole
    · rw [Nat.sub_eq_zero_of_le (Nat.le_of_lt short),List.take_zero,List.append_nil]
      rcases Nat.eq_zero_or_pos count with rfl | positive
      · exact ⟨0,[],rfl,.inl rfl,fun _ => Nat.succ_pos _⟩
      · exact ⟨0,[replacement],decode_broken letter positive short,.inr rfl,fun _ => Nat.succ_pos _⟩
    · obtain ⟨kept,broken,read,either,less⟩ := ih (count - (String.utf8EncodeChar letter).length)
      rw [List.take_of_length_le whole,decode_char,read]
      refine ⟨kept + 1,broken,rfl,either,?_⟩
      intro below
      rw [List.length_append] at below
      exact Nat.succ_lt_succ (less (by omega))

private theorem decode_follows {byte : UInt8} (above : 0x80 ≤ byte.toNat) (below : byte.toNat < 0xC0) (rest : List UInt8) :
    decode (byte :: rest) = replacement :: decode rest := by
  unfold decode
  rw [decodeFrom.eq_def]
  dsimp only
  unfold next lead
  dsimp only
  rw [if_neg (by omega),if_pos (by omega)]
  rfl

/-- The bytes of a character after its first. -/
private theorem follow_bytes (letter : Char) : ∀ byte ∈ (String.utf8EncodeChar letter).drop 1,
    0x80 ≤ byte.toNat ∧ byte.toNat < 0xC0 := by
  intro byte member
  unfold String.utf8EncodeChar at member
  dsimp only at member
  split at member
  · cases member
  split at member
  · rw [List.drop_one,List.tail_cons,List.mem_singleton] at member
    rw [member,UInt8.toNat_ofNat']
    omega
  split at member
  · simp only [List.drop_one,List.tail_cons,List.mem_cons,List.not_mem_nil,or_false] at member
    rcases member with rfl | rfl <;> (rw [UInt8.toNat_ofNat']; omega)
  · simp only [List.drop_one,List.tail_cons,List.mem_cons,List.not_mem_nil,or_false] at member
    rcases member with rfl | rfl | rfl <;> (rw [UInt8.toNat_ofNat']; omega)

/-- A text's bytes from some place on are read as replacements, and then as the text from some place on. -/
theorem decode_dropped (text : Text) (count : Nat) : ∃ broken kept, decode ((utf8 text).drop count) = broken ++ text.drop kept ∧
    ∀ letter ∈ broken, letter = replacement := by
  induction text generalizing count with
  | nil => exact ⟨[],0,by simp [utf8]; rfl,fun _ none => absurd none List.not_mem_nil⟩
  | cons letter text ih =>
    have shape : utf8 (letter :: text) = String.utf8EncodeChar letter ++ utf8 text := List.flatMap_cons
    rw [shape,List.drop_append]
    rcases Nat.lt_or_ge count (String.utf8EncodeChar letter).length with short | whole
    · rw [Nat.sub_eq_zero_of_le (Nat.le_of_lt short),List.drop_zero]
      rcases Nat.eq_zero_or_pos count with rfl | positive
      · refine ⟨[],0,?_,fun _ none => absurd none List.not_mem_nil⟩
        rw [List.drop_zero,decode_char,decode_utf8]
        rfl
      · have follows : ∀ byte ∈ (String.utf8EncodeChar letter).drop count, 0x80 ≤ byte.toNat ∧ byte.toNat < 0xC0 := by
          intro byte member
          refine follow_bytes letter byte ?_
          rw [show count = 1 + (count - 1) by omega,← List.drop_drop] at member
          exact List.mem_of_mem_drop member
        have all : ∀ bytes : List UInt8, (∀ byte ∈ bytes, 0x80 ≤ byte.toNat ∧ byte.toNat < 0xC0) →
            decode (bytes ++ utf8 text) = List.replicate bytes.length replacement ++ text := by
          intro bytes each
          induction bytes with
          | nil => exact decode_utf8 text
          | cons byte bytes ih' =>
            obtain ⟨above,below⟩ := each byte List.mem_cons_self
            rw [List.cons_append,decode_follows above below,ih' fun other member => each other (List.mem_cons_of_mem _ member)]
            rfl
        refine ⟨List.replicate _ replacement,1,all _ follows,?_⟩
        intro other member
        exact List.eq_of_mem_replicate member
    · obtain ⟨broken,kept,read,replaced⟩ := ih (count - (String.utf8EncodeChar letter).length)
      refine ⟨broken,kept + 1,?_,replaced⟩
      rw [List.drop_of_length_le whole,List.nil_append,read]
      rfl

/-- A line's end is read by itself, whatever stands before it. -/
theorem decode_newline (first rest : List UInt8) : decode (first ++ newline :: rest) = decode first ++ '\n' :: decode rest := by
  have general : ∀ begun, decodeFrom begun (first ++ newline :: rest) = decodeFrom begun first ++ '\n' :: decode rest := by
    induction first with
    | nil =>
      intro begun
      rw [List.nil_append,decodeFrom.eq_def]
      cases begun with
      | none => rfl
      | some begun =>
        have apart : next (some begun) newline.toNat = ([replacement,'\n'],none) := by
          unfold next
          dsimp only
          rw [if_neg (fun low => absurd low.1 (by decide))]
          rfl
        dsimp only
        rw [apart]
        rfl
    | cons byte first ih =>
      intro begun
      rw [List.cons_append,decodeFrom.eq_def,decodeFrom.eq_def begun (byte :: first)]
      cases begun with
      | none =>
        dsimp only
        rw [ih,List.append_assoc]
      | some begun =>
        dsimp only
        rw [ih,List.append_assoc]
  exact general none

/-- No bytes at all are read as nothing. -/
theorem decode_some {bytes : List UInt8} (some' : bytes ≠ []) : decode bytes ≠ [] := by
  have begun : ∀ (bytes : List UInt8) own, decodeFrom (some own) bytes ≠ [] := by
    intro bytes
    induction bytes with
    | nil => exact fun own => List.cons_ne_nil _ _
    | cons byte bytes ih =>
      intro own
      rw [decodeFrom.eq_def]
      dsimp only
      unfold next
      dsimp only
      split
      · split
        · exact List.cons_ne_nil _ _
        · exact ih _
      · exact List.cons_ne_nil _ _
  cases bytes with
  | nil => exact absurd rfl some'
  | cons byte bytes =>
    unfold decode
    rw [decodeFrom.eq_def]
    dsimp only
    unfold next lead
    dsimp only
    split
    · exact List.cons_ne_nil _ _
    split
    · exact List.cons_ne_nil _ _
    split
    · exact begun _ _
    split
    · exact begun _ _
    split
    · exact begun _ _
    · exact List.cons_ne_nil _ _

/-- The byte that ends a line stands for nothing else. -/
theorem newline_utf8 {text : Text} (inside : newline ∈ utf8 text) : '\n' ∈ text := by
  obtain ⟨letter,member,byte⟩ := List.mem_flatMap.mp inside
  have line : letter.toNat = 10 := by
    have number : ∃ own ∈ String.utf8EncodeChar letter, own.toNat = 10 := ⟨newline,byte,rfl⟩
    obtain ⟨own,among,ten⟩ := number
    unfold String.utf8EncodeChar at among
    dsimp only at among
    rw [show letter.val.toNat = letter.toNat from rfl] at among
    split at among
    · rw [List.mem_singleton.mp among,UInt8.toNat_ofNat'] at ten
      omega
    split at among
    · simp only [List.mem_cons,List.not_mem_nil,or_false] at among
      rcases among with rfl | rfl <;> (rw [UInt8.toNat_ofNat'] at ten; omega)
    split at among
    · simp only [List.mem_cons,List.not_mem_nil,or_false] at among
      rcases among with rfl | rfl | rfl <;> (rw [UInt8.toNat_ofNat'] at ten; omega)
    · simp only [List.mem_cons,List.not_mem_nil,or_false] at among
      rcases among with rfl | rfl | rfl | rfl <;> (rw [UInt8.toNat_ofNat'] at ten; omega)
  have same : letter = '\n' := by
    rw [← Char.ofNat_toNat letter,line]
  exact same ▸ member

theorem utf8_length (text : Text) : (utf8 text).length ≤ 4 * text.length := by
  induction text with
  | nil => exact Nat.zero_le _
  | cons letter text ih =>
    have own : (String.utf8EncodeChar letter).length ≤ 4 := by
      rw [String.length_utf8EncodeChar]
      exact Char.utf8Size_le_four letter
    rw [utf8,List.flatMap_cons,List.length_append,List.length_cons]
    change _ + (utf8 text).length ≤ _
    omega

end PiDispatch.Kernel.Utf8
