import Mathlib

/-! Strings as ECMAScript has them: sequences of 16-bit units, read as code points where two units pair up. A unit that
pairs with nothing stands for itself. -/
namespace PiDispatch.Kernel

abbrev Units := List UInt16

instance : LawfulBEq Units := inferInstanceAs (LawfulBEq (List UInt16))

namespace Utf16

def isHigh (unit : UInt16) : Bool := 0xD800 ≤ unit.toNat && unit.toNat < 0xDC00

def isLow (unit : UInt16) : Bool := 0xDC00 ≤ unit.toNat && unit.toNat < 0xE000

/-- A code point: a character, or a surrogate without its other half. -/
inductive Point
  | scalar (letter : Char)
  | lone (unit : UInt16)

def paired (high low : UInt16) : Char :=
  Char.ofNat (0x10000 + (high.toNat - 0xD800) * 0x400 + (low.toNat - 0xDC00))

def single (unit : UInt16) : Point :=
  if isHigh unit || isLow unit then .lone unit else .scalar (Char.ofNat unit.toNat)

def points : Units → List Point
  | [] => []
  | [unit] => [single unit]
  | high :: low :: rest =>
    if isHigh high && isLow low then .scalar (paired high low) :: points rest else single high :: points (low :: rest)

def unitsOf (letter : Char) : Units :=
  if letter.toNat < 0x10000 then [UInt16.ofNat letter.toNat]
  else [UInt16.ofNat (0xD800 + (letter.toNat - 0x10000) / 0x400),UInt16.ofNat (0xDC00 + (letter.toNat - 0x10000) % 0x400)]

def Point.units : Point → Units
  | .scalar letter => unitsOf letter
  | .lone unit => [unit]

def ofText (text : List Char) : Units := text.flatMap unitsOf

def spell (text : String) : Units := ofText text.toList

def Point.letter? : Point → Option Char
  | .scalar letter => some letter
  | .lone _ => none

/-- The text of a well-formed string. -/
def toText? (units : Units) : Option (List Char) := (points units).mapM Point.letter?

private theorem toNat_ofNat {number : Nat} (scalar : number < 0xD800 ∨ 0xDFFF < number ∧ number < 0x110000) :
    (Char.ofNat number).toNat = number := by
  have valid : number.isValidChar := scalar
  rw [Char.ofNat,dif_pos valid]
  rfl

private theorem ofNat_toNat (unit : UInt16) : UInt16.ofNat unit.toNat = unit := by
  apply UInt16.toNat_inj.mp
  simp

theorem units_single (unit : UInt16) : (single unit).units = [unit] := by
  unfold single
  split
  · rfl
  next plain =>
    have below := unit.toNat_lt
    have scalar : unit.toNat < 0xD800 ∨ 0xDFFF < unit.toNat ∧ unit.toNat < 0x110000 := by
      simp only [isHigh,isLow,Bool.or_eq_true,Bool.and_eq_true,decide_eq_true_eq] at plain
      omega
    change unitsOf (Char.ofNat unit.toNat) = [unit]
    unfold unitsOf
    rw [toNat_ofNat scalar,if_pos (by omega),ofNat_toNat]

theorem units_paired {high low : UInt16} (first : isHigh high) (second : isLow low) :
    unitsOf (paired high low) = [high,low] := by
  simp only [isHigh,isLow,Bool.and_eq_true,decide_eq_true_eq] at first second
  unfold unitsOf paired
  rw [toNat_ofNat (by omega),if_neg (by omega)]
  have upper : 0xD800 + (0x10000 + (high.toNat - 0xD800) * 0x400 + (low.toNat - 0xDC00) - 0x10000) / 0x400 = high.toNat := by
    omega
  have lower : 0xDC00 + (0x10000 + (high.toNat - 0xD800) * 0x400 + (low.toNat - 0xDC00) - 0x10000) % 0x400 = low.toNat := by
    omega
  rw [upper,lower,ofNat_toNat,ofNat_toNat]

/-- Nothing of a string is lost in its code points. -/
theorem units_points (text : Units) : (points text).flatMap Point.units = text := by
  induction text using points.induct with
  | case1 => rfl
  | case2 unit => simp [points,units_single]
  | case3 high low rest pair ih =>
    obtain ⟨first,second⟩ := Bool.and_eq_true_iff.mp pair
    rw [points,if_pos pair,List.flatMap_cons,ih]
    change unitsOf (paired high low) ++ rest = _
    rw [units_paired first second]
    rfl
  | case4 high low rest apart ih =>
    rw [points,if_neg apart,List.flatMap_cons,ih,units_single]
    rfl

private theorem unit_toNat {number : Nat} (small : number < 65536) : (UInt16.ofNat number).toNat = number :=
  UInt16.toNat_ofNat_of_lt' (by change number < 65536; exact small)

theorem points_plain {unit : UInt16} (plain : isHigh unit = false) (rest : Units) :
    points (unit :: rest) = single unit :: points rest := by
  cases rest with
  | nil => rfl
  | cons low rest =>
    rw [points,plain]
    rfl

theorem points_unitsOf (letter : Char) (rest : Units) : points (unitsOf letter ++ rest) = .scalar letter :: points rest := by
  have valid : letter.toNat < 0xD800 ∨ 0xDFFF < letter.toNat ∧ letter.toNat < 0x110000 := letter.valid
  unfold unitsOf
  split
  next small =>
    have own := unit_toNat small
    have high : isHigh (UInt16.ofNat letter.toNat) = false := by
      unfold isHigh
      rw [own]
      simp only [Bool.and_eq_false_iff,decide_eq_false_iff_not]
      omega
    have low : isLow (UInt16.ofNat letter.toNat) = false := by
      unfold isLow
      rw [own]
      simp only [Bool.and_eq_false_iff,decide_eq_false_iff_not]
      omega
    rw [List.singleton_append,points_plain high]
    unfold single
    rw [high,low,own,Char.ofNat_toNat]
    rfl
  next large =>
    have high := unit_toNat (show 0xD800 + (letter.toNat - 0x10000) / 0x400 < 65536 by omega)
    have low := unit_toNat (show 0xDC00 + (letter.toNat - 0x10000) % 0x400 < 65536 by omega)
    have pair : (isHigh (UInt16.ofNat (0xD800 + (letter.toNat - 0x10000) / 0x400)) &&
        isLow (UInt16.ofNat (0xDC00 + (letter.toNat - 0x10000) % 0x400))) = true := by
      unfold isHigh isLow
      rw [high,low]
      simp only [Bool.and_eq_true,decide_eq_true_eq]
      omega
    rw [List.cons_append,List.singleton_append,points,if_pos pair]
    unfold paired
    rw [high,low]
    have same : 0x10000 + (0xD800 + (letter.toNat - 0x10000) / 0x400 - 0xD800) * 0x400 +
        (0xDC00 + (letter.toNat - 0x10000) % 0x400 - 0xDC00) = letter.toNat := by omega
    rw [same,Char.ofNat_toNat]

/-- The code points of a text are its letters. -/
theorem points_ofText (text : List Char) : points (ofText text) = text.map .scalar := by
  induction text with
  | nil => rfl
  | cons letter text ih =>
    rw [List.map_cons,← ih]
    exact points_unitsOf letter (ofText text)

theorem toText_ofText (text : List Char) : toText? (ofText text) = some text := by
  unfold toText?
  rw [points_ofText]
  induction text with
  | nil => rfl
  | cons letter text ih =>
    rw [List.map_cons,List.mapM_cons,ih]
    rfl

theorem spell_inj {one other : String} : spell one = spell other ↔ one = other := by
  refine ⟨fun same => ?_,congrArg spell⟩
  have letters := congrArg points same
  unfold spell at letters
  rw [points_ofText,points_ofText] at letters
  have injective : Function.Injective Point.scalar := fun first second own => by
    cases own
    rfl
  exact String.toList_inj.mp (List.map_injective_iff.mpr injective letters)

end Utf16

end PiDispatch.Kernel
