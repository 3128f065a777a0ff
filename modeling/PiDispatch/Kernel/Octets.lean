import Mathlib

/-! Bytes: hexadecimal digits, numbers of four bytes, big end first, and texts in UTF-8. -/
namespace PiDispatch.Kernel

abbrev Text := List Char

instance : LawfulBEq Text := inferInstanceAs (LawfulBEq (List Char))

namespace Octets

def hexValue (letter : Char) : Option Nat :=
  if '0' ≤ letter ∧ letter ≤ '9' then some (letter.toNat - '0'.toNat)
  else if 'a' ≤ letter ∧ letter ≤ 'f' then some (letter.toNat - 'a'.toNat + 10)
  else if 'A' ≤ letter ∧ letter ≤ 'F' then some (letter.toNat - 'A'.toNat + 10)
  else none

theorem hexValue_digitChar : ∀ digit < 16, hexValue (Nat.digitChar digit) = some digit := by decide

def isLowerHex (letter : Char) : Bool := ('0' ≤ letter && letter ≤ '9') || ('a' ≤ letter && letter ≤ 'f')

theorem lowerHex_digitChar : ∀ digit < 16, isLowerHex (Nat.digitChar digit) = true := by decide

def toHex (bytes : List UInt8) : Text :=
  bytes.flatMap fun byte => [Nat.digitChar (byte.toNat / 16),Nat.digitChar (byte.toNat % 16)]

/-- Two digits a byte, up to what is none. -/
def fromHex : Text → List UInt8
  | high :: low :: rest => match hexValue high,hexValue low with
    | some first,some second => UInt8.ofNat (first * 16 + second) :: fromHex rest
    | _,_ => []
  | _ => []

theorem toHex_length (bytes : List UInt8) : (toHex bytes).length = 2 * bytes.length := by
  induction bytes with
  | nil => rfl
  | cons byte bytes ih =>
    rw [toHex,List.flatMap_cons,List.length_append]
    change 2 + (toHex bytes).length = 2 * (bytes.length + 1)
    omega

theorem toHex_lower (bytes : List UInt8) : ∀ letter ∈ toHex bytes, isLowerHex letter = true := by
  intro letter member
  obtain ⟨byte,_,digit⟩ := List.mem_flatMap.mp member
  have below := byte.toNat_lt
  rcases List.mem_pair.mp digit with rfl | rfl
  · exact lowerHex_digitChar _ (by omega)
  · exact lowerHex_digitChar _ (by omega)

theorem fromHex_toHex (bytes : List UInt8) : fromHex (toHex bytes) = bytes := by
  induction bytes with
  | nil => rfl
  | cons byte bytes ih =>
    have below := byte.toNat_lt
    rw [toHex,List.flatMap_cons]
    change fromHex (_ :: _ :: toHex bytes) = byte :: bytes
    rw [fromHex,hexValue_digitChar _ (by omega),hexValue_digitChar _ (by omega)]
    dsimp only
    rw [ih]
    congr 1
    apply UInt8.toNat_inj.mp
    rw [UInt8.toNat_ofNat']
    omega

def readUInt32BE (bytes : List UInt8) : Nat := (bytes.take 4).foldl (fun number byte => number * 256 + byte.toNat) 0

def writeUInt32BE (number : Nat) : List UInt8 :=
  [UInt8.ofNat (number / 16777216),UInt8.ofNat (number / 65536),UInt8.ofNat (number / 256),UInt8.ofNat number]

theorem readUInt32BE_write {number : Nat} (small : number < 2 ^ 32) (rest : List UInt8) :
    readUInt32BE (writeUInt32BE number ++ rest) = number := by
  simp only [readUInt32BE,writeUInt32BE,List.cons_append,List.take_succ_cons,List.take_zero,List.foldl_cons,List.foldl_nil,
    UInt8.toNat_ofNat']
  omega

/-- The first four bytes decide. -/
theorem readUInt32BE_append {bytes : List UInt8} (enough : 4 ≤ bytes.length) (rest : List UInt8) :
    readUInt32BE (bytes ++ rest) = readUInt32BE bytes := by
  unfold readUInt32BE
  rw [List.take_append_of_le_length enough]

def utf8 (text : Text) : List UInt8 := text.flatMap String.utf8EncodeChar

/-- Nothing where the bytes are no UTF-8. -/
def decodeUtf8 (bytes : List UInt8) : Option Text := bytes.toByteArray.utf8Decode?.map Array.toList

theorem decodeUtf8_utf8 (text : Text) : decodeUtf8 (utf8 text) = some text := by
  have decoded : (utf8 text).toByteArray.utf8Decode? = some text.toArray := List.utf8Decode?_utf8Encode
  unfold decodeUtf8
  rw [decoded]
  rfl

end Octets

end PiDispatch.Kernel
