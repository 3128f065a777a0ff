import Mathlib.Data.List.Basic

/-! White space and line ends, and the text without those at its ends. -/
namespace PiDispatch.Kernel

def isBlank (letter : Char) : Bool :=
  letter.toNat ∈ [9,10,11,12,13,32,160,5760,8232,8233,8239,8287,12288,65279] ||
    (8192 ≤ letter.toNat && letter.toNat ≤ 8202)

def trimLetters (letters : List Char) : List Char :=
  ((letters.dropWhile isBlank).reverse.dropWhile isBlank).reverse

def trim (text : String) : String := String.ofList (trimLetters text.toList)

end PiDispatch.Kernel
