import PiDispatch.Kernel.Utf8

/-! The bytes of an env file as systemd's loader takes them: well-formed UTF-8, and no character of it that Unicode says is
none. A character's own bytes are the well-formed sequences. -/
namespace PiDispatch.EnvFile
open Kernel Octets

/-- How many bytes a lead byte begins, and the bounds of the second. -/
def boundsOf (b : Nat) : Nat × Nat × Nat :=
  if 0xC2 ≤ b ∧ b ≤ 0xDF then (2,0x80,0xBF)
  else if b = 0xE0 then (3,0xA0,0xBF)
  else if b = 0xED then (3,0x80,0x9F)
  else if 0xE1 ≤ b ∧ b ≤ 0xEF then (3,0x80,0xBF)
  else if b = 0xF0 then (4,0x90,0xBF)
  else if 0xF1 ≤ b ∧ b ≤ 0xF3 then (4,0x80,0xBF)
  else if b = 0xF4 then (4,0x80,0x8F)
  else (0,0,0)

/-- The byte at an index; past the end the code does not look. -/
def byteAt (bytes : List UInt8) (index : Nat) : Nat := (bytes.getD index 0).toNat

/-- One turn of the loop: how far it goes on from `i`, or none where it ends there. -/
def advance (bytes : List UInt8) (i : Nat) : Option Nat :=
  let b := byteAt bytes i
  if b < 0x80 then some 1
  else
    let (n,low,high) := boundsOf b
    if n = 0 ∨ i + n > bytes.length then none
    else if byteAt bytes (i + 1) < low ∨ byteAt bytes (i + 1) > high then none
    else if (List.range (n - 2)).any fun k => byteAt bytes (i + 2 + k) < 0x80 || byteAt bytes (i + 2 + k) > 0xBF then none
    else some n

private theorem advance_positive {bytes : List UInt8} {i n : Nat} (found : advance bytes i = some n) : 0 < n := by
  unfold advance at found
  dsimp only at found
  split at found
  · cases found
    decide
  split at found
  · cases found
  next whole =>
    split at found
    · cases found
    split at found
    · cases found
    · cases found
      omega

def firstInvalidFrom (bytes : List UInt8) (i : Nat) : Int :=
  if i < bytes.length then
    match found : advance bytes i with
    | none => i
    | some n => firstInvalidFrom bytes (i + n)
  else -1
termination_by bytes.length - i
decreasing_by
  have positive := advance_positive found
  omega

def firstInvalidUtf8 (bytes : List UInt8) : Int := firstInvalidFrom bytes 0

def isNoncharacter (letter : Char) : Bool :=
  (0xFDD0 ≤ letter.toNat && letter.toNat ≤ 0xFDEF) || (letter.toNat &&& 0xFFFE) = 0xFFFE

def systemdUtf8 (bytes : List UInt8) : Bool :=
  firstInvalidUtf8 bytes = -1 && (Utf8.decode bytes).all fun letter => !isNoncharacter letter

section Sequences

/-- A concatenation of well-formed sequences. -/
def WellFormed (bytes : List UInt8) : Prop := ∃ text : Text, bytes = utf8 text

private theorem char_back {number : Nat} (scalar : number < 0xD800 ∨ 0xDFFF < number ∧ number < 0x110000) :
    (Char.ofNat number).toNat = number := by
  have valid : number.isValidChar := scalar
  rw [Char.ofNat,dif_pos valid]
  rfl

private theorem byteAt_drop (bytes : List UInt8) (i k : Nat) : byteAt bytes (i + k) = byteAt (bytes.drop i) k := by
  unfold byteAt
  rw [List.getD_eq_getElem?_getD,List.getD_eq_getElem?_getD,List.getElem?_drop]

private theorem advance_drop (bytes : List UInt8) (i : Nat) (inside : i ≤ bytes.length) :
    advance bytes i = advance (bytes.drop i) 0 := by
  have length : (bytes.drop i).length = bytes.length - i := List.length_drop
  have here := byteAt_drop bytes i 0
  rw [Nat.add_zero] at here
  unfold advance
  simp only [here,byteAt_drop bytes i 1,Nat.add_assoc,byteAt_drop bytes i,Nat.zero_add]
  rw [length]
  have same : ∀ n, i + n > bytes.length ↔ n > bytes.length - i := by omega
  simp only [same]

private theorem boundsOf_two : ∀ part < 32, 2 ≤ part → boundsOf (part + 0xC0) = (2,0x80,0xBF) := by decide

private theorem boundsOf_three : ∀ part < 16, boundsOf (part + 0xE0) =
    (3,(if part = 0 then 0xA0 else 0x80),if part = 13 then 0x9F else 0xBF) := by decide

private theorem boundsOf_four : ∀ part < 5, boundsOf (part + 0xF0) =
    (4,(if part = 0 then 0x90 else 0x80),if part = 4 then 0x8F else 0xBF) := by decide

private theorem boundsOf_none {b : Nat} (other : b < 0xC2 ∨ 0xF4 < b) : boundsOf b = (0,0,0) := by
  unfold boundsOf
  rw [if_neg (by omega),if_neg (by omega),if_neg (by omega),if_neg (by omega),if_neg (by omega),if_neg (by omega),
    if_neg (by omega)]

private theorem byteAt_of (number : Nat) (small : number < 256) (rest : List UInt8) :
    byteAt (UInt8.ofNat number :: rest) 0 = number := by
  unfold byteAt
  rw [List.getD_cons_zero,UInt8.toNat_ofNat',Nat.mod_eq_of_lt small]

private theorem byteAt_cons (byte : UInt8) (rest : List UInt8) (k : Nat) : byteAt (byte :: rest) (k + 1) = byteAt rest k := by
  unfold byteAt
  rw [List.getD_cons_succ]

/-- What a character's bytes begin with is those bytes. -/
private theorem advance_char (letter : Char) (rest : List UInt8) :
    advance (String.utf8EncodeChar letter ++ rest) 0 = some (String.utf8EncodeChar letter).length := by
  have range : letter.toNat < 0xD800 ∨ 0xDFFF < letter.toNat ∧ letter.toNat < 0x110000 := letter.valid
  have tail : ∀ number, number % 64 + 0x80 < 256 := by omega
  unfold String.utf8EncodeChar
  dsimp only
  rw [show letter.val.toNat = letter.toNat from rfl]
  split
  next one =>
    unfold advance
    dsimp only
    rw [List.cons_append,byteAt_of _ (by omega),if_pos (by omega)]
    rfl
  next above =>
    split
    next two =>
      have bounds := boundsOf_two (letter.toNat / 64 % 32) (by omega) (by omega)
      unfold advance
      dsimp only
      simp only [List.cons_append,List.nil_append,Nat.zero_add,byteAt_cons,byteAt_of _ (show letter.toNat / 64 % 32 + 0xC0 < 256 by omega),
        byteAt_of _ (tail letter.toNat)]
      rw [if_neg (by omega),bounds]
      dsimp only
      rw [if_neg (by simp),if_neg (by omega)]
      rfl
    next above' =>
      split
      next three =>
        have bounds := boundsOf_three (letter.toNat / 4096 % 16) (by omega)
        unfold advance
        dsimp only
        simp only [List.cons_append,List.nil_append,Nat.zero_add,byteAt_cons,
          byteAt_of _ (show letter.toNat / 4096 % 16 + 0xE0 < 256 by omega),byteAt_of _ (tail (letter.toNat / 64))]
        rw [if_neg (by omega),bounds]
        dsimp only
        rw [if_neg (by simp),if_neg (by split <;> split <;> omega),if_neg]
        · rfl
        · have third := byteAt_of _ (tail letter.toNat) rest
          have one : List.range (3 - 2) = [0] := rfl
          simp only [one,List.any_cons,List.any_nil,Nat.add_zero,byteAt_cons,third,Bool.or_false,Bool.or_eq_true,
            decide_eq_true_eq]
          omega
      next above'' =>
        have bounds := boundsOf_four (letter.toNat / 262144 % 8) (by omega)
        unfold advance
        dsimp only
        simp only [List.cons_append,List.nil_append,Nat.zero_add,byteAt_cons,
          byteAt_of _ (show letter.toNat / 262144 % 8 + 0xF0 < 256 by omega),byteAt_of _ (tail (letter.toNat / 4096))]
        rw [if_neg (by omega),bounds]
        dsimp only
        rw [if_neg (by simp),if_neg (by split <;> split <;> omega),if_neg]
        · rfl
        · have third := byteAt_of _ (tail (letter.toNat / 64)) (UInt8.ofNat (letter.toNat % 64 + 0x80) :: rest)
          have fourth := byteAt_of _ (tail letter.toNat) rest
          have two : List.range (4 - 2) = [0,1] := rfl
          simp only [two,List.any_cons,List.any_nil,Nat.add_zero,byteAt_cons,third,fourth,Bool.or_false,Bool.or_eq_true,
            decide_eq_true_eq]
          omega

private theorem encode_byte {byte : UInt8} {number : Nat} (same : byte.toNat = number) : UInt8.ofNat number = byte := by
  rw [← same]
  exact UInt8.ofNat_toNat

private theorem encode_two {number : Nat} (least : 0x80 ≤ number) (most : number < 0x800) :
    String.utf8EncodeChar (Char.ofNat number) =
      [UInt8.ofNat (number / 64 % 32 + 0xC0),UInt8.ofNat (number % 64 + 0x80)] := by
  unfold String.utf8EncodeChar
  dsimp only
  rw [show (Char.ofNat number).val.toNat = number from char_back (by omega),if_neg (by omega),if_pos (by omega)]

private theorem encode_three {number : Nat} (least : 0x800 ≤ number) (most : number < 0x10000)
    (scalar : number < 0xD800 ∨ 0xDFFF < number) : String.utf8EncodeChar (Char.ofNat number) =
      [UInt8.ofNat (number / 4096 % 16 + 0xE0),UInt8.ofNat (number / 64 % 64 + 0x80),UInt8.ofNat (number % 64 + 0x80)] := by
  unfold String.utf8EncodeChar
  dsimp only
  rw [show (Char.ofNat number).val.toNat = number from char_back (by omega),if_neg (by omega),if_neg (by omega),
    if_pos (by omega)]

private theorem encode_four {number : Nat} (least : 0x10000 ≤ number) (most : number < 0x110000) :
    String.utf8EncodeChar (Char.ofNat number) =
      [UInt8.ofNat (number / 262144 % 8 + 0xF0),UInt8.ofNat (number / 4096 % 64 + 0x80),
        UInt8.ofNat (number / 64 % 64 + 0x80),UInt8.ofNat (number % 64 + 0x80)] := by
  unfold String.utf8EncodeChar
  dsimp only
  rw [show (Char.ofNat number).val.toNat = number from char_back (by omega),if_neg (by omega),if_neg (by omega),
    if_neg (by omega)]

private theorem begun {letter : Char} {bytes : List UInt8} (own : String.utf8EncodeChar letter = bytes) (rest : List UInt8) :
    ∃ letter rest', bytes ++ rest = String.utf8EncodeChar letter ++ rest' ∧ bytes.length = (String.utf8EncodeChar letter).length :=
  ⟨letter,rest,by rw [own],by rw [own]⟩

/-- What the loop goes on over is the bytes of a character. -/
private theorem advance_some {bytes : List UInt8} (some' : bytes ≠ []) {n : Nat} (found : advance bytes 0 = some n) :
    ∃ letter rest, bytes = String.utf8EncodeChar letter ++ rest ∧ n = (String.utf8EncodeChar letter).length := by
  obtain ⟨first,rest,rfl⟩ := List.exists_cons_of_ne_nil some'
  have lead : byteAt (first :: rest) 0 = first.toNat := rfl
  have below := first.toNat_lt
  unfold advance at found
  dsimp only at found
  rw [lead] at found
  split at found
  next one =>
    have back := @char_back first.toNat (by omega)
    have own : String.utf8EncodeChar (Char.ofNat first.toNat) = [first] := by
      unfold String.utf8EncodeChar
      dsimp only
      rw [show (Char.ofNat first.toNat).val.toNat = first.toNat from back,if_pos (by omega)]
      rw [encode_byte rfl]
    rw [← Option.some.inj found]
    exact begun own rest
  next above =>
    split at found
    · cases found
    next whole =>
      obtain ⟨some'',enough⟩ := not_or.mp whole
      split at found
      · cases found
      next bounded =>
        split at found
        · cases found
        next tails =>
          cases found
          have ranges : (0xC2 ≤ first.toNat ∧ first.toNat ≤ 0xDF) ∨ (0xE0 ≤ first.toNat ∧ first.toNat ≤ 0xEF) ∨
              (0xF0 ≤ first.toNat ∧ first.toNat ≤ 0xF4) := by
            by_contra none'
            rw [boundsOf_none (by omega)] at some''
            exact some'' rfl
          rcases ranges with two | three | four
          · have bounds := boundsOf_two (first.toNat - 0xC0) (by omega) (by omega)
            rw [show first.toNat - 0xC0 + 0xC0 = first.toNat by omega] at bounds
            rw [bounds] at enough bounded ⊢
            match rest,enough,bounded with
            | [],enough,_ => exact absurd enough (by simp)
            | second :: rest,_,bounded =>
              change ¬(second.toNat < 0x80 ∨ second.toNat > 0xBF) at bounded
              have own := @encode_two ((first.toNat - 0xC0) * 64 + (second.toNat - 0x80)) (by omega) (by omega)
              rw [@encode_byte first _ (by omega),@encode_byte second _ (by omega)] at own
              exact begun own rest
          · have bounds := boundsOf_three (first.toNat - 0xE0) (by omega)
            rw [show first.toNat - 0xE0 + 0xE0 = first.toNat by omega] at bounds
            rw [bounds] at enough bounded tails ⊢
            match rest,enough,bounded,tails with
            | [],enough,_,_ => exact absurd enough (by simp)
            | [_],enough,_,_ => exact absurd enough (by simp)
            | second :: third :: rest,_,bounded,tails =>
              have one : List.range (3 - 2) = [0] := rfl
              simp only [one,List.any_cons,List.any_nil,Bool.or_false,Bool.or_eq_true,decide_eq_true_eq] at tails
              have at' : byteAt (first :: second :: third :: rest) (0 + 1) = second.toNat := rfl
              have next : byteAt (first :: second :: third :: rest) (0 + 2 + 0) = third.toNat := rfl
              rw [at'] at bounded
              rw [next] at tails
              dsimp only at bounded
              have own := @encode_three ((first.toNat - 0xE0) * 4096 + (second.toNat - 0x80) * 64 + (third.toNat - 0x80))
                (by split at bounded <;> split at bounded <;> omega) (by split at bounded <;> split at bounded <;> omega)
                (by split at bounded <;> split at bounded <;> omega)
              have low : 0x80 ≤ second.toNat ∧ second.toNat ≤ 0xBF := by split at bounded <;> split at bounded <;> omega
              rw [@encode_byte first _ (by omega),@encode_byte second _ (by omega),@encode_byte third _ (by omega)] at own
              exact begun own rest
          · have bounds := boundsOf_four (first.toNat - 0xF0) (by omega)
            rw [show first.toNat - 0xF0 + 0xF0 = first.toNat by omega] at bounds
            rw [bounds] at enough bounded tails ⊢
            match rest,enough,bounded,tails with
            | [],enough,_,_ => exact absurd enough (by simp)
            | [_],enough,_,_ => exact absurd enough (by simp)
            | [_,_],enough,_,_ => exact absurd enough (by simp)
            | second :: third :: fourth :: rest,_,bounded,tails =>
              have two : List.range (4 - 2) = [0,1] := rfl
              simp only [two,List.any_cons,List.any_nil,Bool.or_false,Bool.or_eq_true,decide_eq_true_eq,not_or] at tails
              have at' : byteAt (first :: second :: third :: fourth :: rest) (0 + 1) = second.toNat := rfl
              have next : byteAt (first :: second :: third :: fourth :: rest) (0 + 2 + 0) = third.toNat := rfl
              have last : byteAt (first :: second :: third :: fourth :: rest) (0 + 2 + 1) = fourth.toNat := rfl
              rw [at'] at bounded
              rw [next,last] at tails
              dsimp only at bounded
              have low : 0x80 ≤ second.toNat ∧ second.toNat ≤ 0xBF := by split at bounded <;> split at bounded <;> omega
              have own := @encode_four ((first.toNat - 0xF0) * 262144 + (second.toNat - 0x80) * 4096 +
                (third.toNat - 0x80) * 64 + (fourth.toNat - 0x80))
                (by split at bounded <;> split at bounded <;> omega) (by split at bounded <;> split at bounded <;> omega)
              rw [@encode_byte first _ (by omega),@encode_byte second _ (by omega),@encode_byte third _ (by omega),
                @encode_byte fourth _ (by omega)] at own
              exact begun own rest

private theorem utf8_cons (letter : Char) (text : Text) : utf8 (letter :: text) = String.utf8EncodeChar letter ++ utf8 text :=
  List.flatMap_cons

/-- A well-formed front of some bytes begins with a character of them. -/
private theorem front_some {bytes : List UInt8} {count : Nat} (positive : 0 < count) (some' : bytes ≠ [])
    (whole : WellFormed (bytes.take count)) : ∃ n, advance bytes 0 = some n ∧ n ≤ count ∧
      WellFormed ((bytes.drop n).take (count - n)) := by
  obtain ⟨text,same⟩ := whole
  cases text with
  | nil =>
    have none' : bytes.take count = [] := same
    rw [List.take_eq_nil_iff] at none'
    rcases none' with zero | empty
    · omega
    · exact absurd empty some'
  | cons letter text =>
    rw [utf8_cons] at same
    have split := List.take_append_drop count bytes
    rw [same,List.append_assoc] at split
    have found := advance_char letter (utf8 text ++ bytes.drop count)
    rw [split] at found
    have length := congrArg List.length same
    rw [List.length_append,List.length_take] at length
    refine ⟨_,found,by omega,text,?_⟩
    have dropped := congrArg (List.drop (String.utf8EncodeChar letter).length) same
    rw [List.drop_left,List.drop_take] at dropped
    exact dropped

/-- From each index on, the loop ends at −1 on well-formed bytes only, else where the well-formed bytes from there end. -/
private theorem firstInvalidFrom_exact (bytes : List UInt8) (i : Nat) (inside : i ≤ bytes.length) :
    (firstInvalidFrom bytes i = -1 ∧ WellFormed (bytes.drop i)) ∨
      ∃ stop : Nat, firstInvalidFrom bytes i = stop ∧ i ≤ stop ∧ stop < bytes.length ∧
        WellFormed ((bytes.drop i).take (stop - i)) ∧
        ∀ count, stop < count → count ≤ bytes.length → ¬WellFormed ((bytes.drop i).take (count - i)) := by
  induction i using firstInvalidFrom.induct bytes with
  | case1 i below found =>
    refine .inr ⟨i,?_,Nat.le_refl i,below,?_,?_⟩
    · rw [firstInvalidFrom,if_pos below]
      split
      · rfl
      next n other =>
        rw [found] at other
        cases other
    · rw [Nat.sub_self,List.take_zero]
      exact ⟨[],rfl⟩
    · intro count later _ whole
      have some' : bytes.drop i ≠ [] := fun none' => by
        rw [List.drop_eq_nil_iff] at none'
        omega
      obtain ⟨n,here,_⟩ := front_some (by omega) some' whole
      rw [← advance_drop bytes i inside,found] at here
      cases here
  | case2 i below n found ih =>
    have some' : bytes.drop i ≠ [] := fun none' => by
      rw [List.drop_eq_nil_iff] at none'
      omega
    have here := found
    rw [advance_drop bytes i inside] at here
    obtain ⟨letter,rest,shape,length⟩ := advance_some some' here
    have size := congrArg List.length shape
    rw [List.length_drop,List.length_append] at size
    have on : bytes.drop (i + n) = rest := by
      rw [← List.drop_drop,shape,length,List.drop_left]
    have next : firstInvalidFrom bytes i = firstInvalidFrom bytes (i + n) := by
      rw [firstInvalidFrom,if_pos below]
      split
      next none' =>
        rw [found] at none'
        cases none'
      next other same =>
        rw [found] at same
        cases same
        rfl
    rw [next]
    rcases ih (by omega) with ⟨all,text,whole⟩ | ⟨stop,same,least,small,⟨text,whole⟩,most⟩
    · refine .inl ⟨all,letter :: text,?_⟩
      rw [shape,utf8_cons,← on,whole]
    · refine .inr ⟨stop,same,by omega,small,⟨letter :: text,?_⟩,fun count later within whole' => ?_⟩
      · rw [shape,utf8_cons,← whole,on,List.take_append,← length,List.take_of_length_le (by omega)]
        rw [show stop - i - n = stop - (i + n) by omega]
      · obtain ⟨n',here',_,rest'⟩ := front_some (by omega) some' whole'
        rw [here] at here'
        cases here'
        rw [List.drop_drop,show count - i - n = count - (i + n) by omega] at rest'
        exact most count later within rest'
  | case3 i beyond =>
    refine .inl ⟨?_,[],?_⟩
    · rw [firstInvalidFrom,if_neg beyond]
    · rw [List.drop_eq_nil_of_le (by omega)]
      rfl

end Sequences

section Characters

private theorem mask_high (number : Nat) : number &&& 0xFFFE = 2 * (number / 2 % 2 ^ 15) := by
  have half : (number &&& 0xFFFE) / 2 = number / 2 % 2 ^ 15 := by
    rw [Nat.and_div_two,← Nat.and_two_pow_sub_one_eq_mod]
  have even : (number &&& 0xFFFE) % 2 ^ 1 = 0 := by
    rw [Nat.and_mod_two_pow]
    exact Nat.and_zero _
  omega

/-- Unicode's noncharacters: U+FDD0 to U+FDEF, and the last two code points of each plane. -/
theorem isNoncharacter_exact (letter : Char) : isNoncharacter letter = true ↔
    (0xFDD0 ≤ letter.toNat ∧ letter.toNat ≤ 0xFDEF) ∨ letter.toNat % 0x10000 = 0xFFFE ∨ letter.toNat % 0x10000 = 0xFFFF := by
  unfold isNoncharacter
  rw [mask_high]
  simp only [Bool.or_eq_true,Bool.and_eq_true,decide_eq_true_eq]
  omega

end Characters

/-- The verdict on all bytes: −1 on the well-formed ones, else where their longest well-formed front ends; and systemd's on
the well-formed ones without a noncharacter. -/
theorem firstInvalid_exact (bytes : List UInt8) :
    (firstInvalidUtf8 bytes = -1 ↔ WellFormed bytes) ∧
    (∀ stop, firstInvalidUtf8 bytes = stop → stop ≠ -1 → ∃ count : Nat, stop = count ∧ count < bytes.length ∧
      WellFormed (bytes.take count) ∧ ∀ more, count < more → more ≤ bytes.length → ¬WellFormed (bytes.take more)) ∧
    (systemdUtf8 bytes = true ↔ firstInvalidUtf8 bytes = -1 ∧
      ∃ text, bytes = utf8 text ∧ ∀ letter ∈ text, ¬((0xFDD0 ≤ letter.toNat ∧ letter.toNat ≤ 0xFDEF) ∨
        letter.toNat % 0x10000 = 0xFFFE ∨ letter.toNat % 0x10000 = 0xFFFF)) := by
  have exact' := firstInvalidFrom_exact bytes 0 (Nat.zero_le _)
  simp only [List.drop_zero,Nat.sub_zero] at exact'
  change (firstInvalidUtf8 bytes = -1 ∧ _) ∨ (∃ stop : Nat, firstInvalidUtf8 bytes = stop ∧ _) at exact'
  refine ⟨?_,?_,?_⟩
  · rcases exact' with ⟨all,whole⟩ | ⟨stop,same,_,small,_,most⟩
    · exact ⟨fun _ => whole,fun _ => all⟩
    · refine ⟨fun none' => by omega,fun whole => absurd ?_ (most bytes.length small (Nat.le_refl _))⟩
      rw [List.take_length]
      exact whole
  · intro stop same apart
    rcases exact' with ⟨all,_⟩ | ⟨count,own,_,small,whole,most⟩
    · exact absurd (same.symm.trans all) apart
    · exact ⟨count,same.symm.trans own,small,whole,most⟩
  · unfold systemdUtf8
    rw [Bool.and_eq_true,decide_eq_true_eq]
    refine and_congr_right fun all => ?_
    rcases exact' with ⟨_,text,whole⟩ | ⟨count,own,_⟩
    · rw [whole,Utf8.decode_utf8,List.all_eq_true]
      constructor
      · intro each
        refine ⟨text,rfl,fun letter inside none' => ?_⟩
        have own := each letter inside
        rw [(isNoncharacter_exact letter).mpr none'] at own
        cases own
      · rintro ⟨other,same,each⟩ letter inside
        have equal := congrArg Utf8.decode same
        rw [Utf8.decode_utf8,Utf8.decode_utf8] at equal
        rw [equal] at inside
        cases found : isNoncharacter letter with
        | false => rfl
        | true => exact absurd ((isNoncharacter_exact letter).mp found) (each letter inside)
    · omega

end PiDispatch.EnvFile
