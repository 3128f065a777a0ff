import PiDispatch.Kernel.Blank
import PiDispatch.Kernel.JsonText
import PiDispatch.Kernel.Pattern
import PiDispatch.Kernel.Rewrite

/-! A job's own secrets taken out of what its agent wrote: every value in its spellings, then the shapes of tokens, the
credentials of headers and the user part of addresses. -/
namespace PiDispatch.RedactSecrets
open Kernel Octets JsonText Pattern Rewrite

def MIN_SECRET_LENGTH : Nat := 8

def REDACTED : Units := Utf16.spell "[redacted]"

section Spellings

def isUnreserved (letter : Char) : Bool :=
  letter.isAlphanum || "-_.!~*'()".toList.contains letter

def upperHex (digit : Nat) : Char := (Nat.digitChar digit).toUpper

def percent (byte : UInt8) : Text := ['%',upperHex (byte.toNat / 16),upperHex (byte.toNat % 16)]

/-- `encodeURIComponent`; it throws at a surrogate without its other half. -/
def encodeURIComponent : List Utf16.Point → Option Text
  | [] => some []
  | .lone _ :: _ => none
  | .scalar letter :: rest => (encodeURIComponent rest).map fun encoded =>
    (if isUnreserved letter then [letter] else (String.utf8EncodeChar letter).flatMap percent) ++ encoded

def isUpperHex (letter : Char) : Bool := letter.isDigit || ('A' ≤ letter && letter ≤ 'F')

def lowerEscapes : Text → Text
  | '%' :: first :: second :: rest =>
    if isUpperHex first && isUpperHex second then '%' :: first.toLower :: second.toLower :: lowerEscapes rest
    else '%' :: lowerEscapes (first :: second :: rest)
  | letter :: rest => letter :: lowerEscapes rest
  | [] => []

/-- A value as it is, as JSON writes it in a string, and encoded for a URL with both hex cases. -/
def spellingsOf (value : Units) : Option (List Units) :=
  (encodeURIComponent (Utf16.points value)).map fun url =>
    [value,Utf16.ofText ((Utf16.points value).flatMap quotedPoint),Utf16.ofText url,Utf16.ofText (lowerEscapes url)]

end Spellings

section Shapes

def isAny (letters : String) (unit : UInt16) : Bool := letters.toList.any fun letter => letter.toNat = unit.toNat

def isDigit (unit : UInt16) : Bool := 48 ≤ unit.toNat && unit.toNat ≤ 57
def isUpper (unit : UInt16) : Bool := 65 ≤ unit.toNat && unit.toNat ≤ 90
def isLower (unit : UInt16) : Bool := 97 ≤ unit.toNat && unit.toNat ≤ 122
def isLetter (unit : UInt16) : Bool := isUpper unit || isLower unit
def isAlphanum (unit : UInt16) : Bool := isLetter unit || isDigit unit
def isWord (unit : UInt16) : Bool := isAlphanum unit || isAny "_" unit

/-- `\s`. -/
def isSpace (unit : UInt16) : Bool := isBlank (Char.ofNat unit.toNat)

def letters (text : String) : List (Item UInt16) := text.toList.map fun letter => one fun unit => letter.toNat = unit.toNat

/-- Letters in either case. -/
def eitherCase (text : String) : List (Item UInt16) :=
  text.toList.map fun letter => one fun unit => letter.toLower.toNat = unit.toNat || letter.toUpper.toNat = unit.toNat

def atLeast (least : Nat) (admits : UInt16 → Bool) : Item UInt16 := .several admits least none

def option (admits : UInt16 → Bool) : Item UInt16 := .several admits 0 (some 1)

/-- `(?<!...)` of one unit. -/
def notAfter (admits : UInt16 → Bool) : Item UInt16 := .check fun before _ => !before.head?.any admits

/-- `(?!...)` of one unit. -/
def notBefore (admits : UInt16 → Bool) : Item UInt16 := .check fun _ after => !after.head?.any admits

/-- `\b`. -/
def boundary : Item UInt16 := .check fun before after => before.head?.any isWord != after.head?.any isWord

def TOKEN_SHAPES : List (List (Item UInt16)) :=
  [[notAfter isWord] ++ letters "gh" ++ [one (isAny "pousr")] ++ letters "_" ++ [atLeast 16 isAlphanum],
    [notAfter isWord] ++ letters "github_pat_" ++ [atLeast 16 isWord],
    [notAfter isWord] ++ letters "glpat-" ++ [atLeast 16 fun unit => isWord unit || isAny "-" unit],
    [notAfter isWord] ++ letters "sk-ant-" ++ [atLeast 16 fun unit => isWord unit || isAny "-" unit],
    [notAfter fun unit => isWord unit || isAny "-" unit] ++ letters "sk-" ++
      [atLeast 16 fun unit => isWord unit || isAny "-" unit],
    [notAfter isWord] ++ letters "xox" ++ [one (isAny "bp")] ++ letters "-" ++
      [atLeast 10 fun unit => isAlphanum unit || isAny "-" unit],
    [notAfter isWord] ++ letters "pdc_" ++ [atLeast 16 fun unit => isWord unit || isAny "-" unit],
    [notAfter isAlphanum] ++ letters "AKIA" ++ [.several (fun unit => isDigit unit || isUpper unit) 16 (some 16),
      notBefore fun unit => isDigit unit || isUpper unit]]

def isQuote (unit : UInt16) : Bool := isAny "\"'" unit

/-- A unit of a credential: no space, quote, comma or semicolon. -/
def isCredential (unit : UInt16) : Bool := !isSpace unit && !isAny "\"',;" unit

def headerHead : List (Item UInt16) :=
  eitherCase "authorization" ++ [option isQuote,atLeast 0 isSpace,one (isAny ":="),atLeast 0 isSpace,option isQuote]

/-- A header with its scheme; the mark is where the credential begins. -/
def AUTHORIZATION_HEADER : List (Item UInt16) :=
  headerHead ++ [one isLetter,atLeast 0 fun unit => isWord unit || isAny "-" unit,atLeast 1 isSpace,option isQuote,.mark,
    atLeast 1 isCredential]

/-- `$` with the flag `m`. -/
def isLineEnd (after : Units) : Bool :=
  match after with
  | [] => true
  | unit :: _ => unit.toNat ∈ [0x0A,0x0D,0x2028,0x2029]

/-- `(?=\s*(?:["',;]|$))`. -/
def closesValue (after : Units) : Bool :=
  (List.range ((after.takeWhile isSpace).length + 1)).any fun count =>
    (after.drop count).head?.any (isAny "\"',;") || isLineEnd (after.drop count)

def AUTHORIZATION_BARE : List (Item UInt16) :=
  headerHead ++ [.mark,atLeast 8 isCredential,.check fun _ after => closesValue after]

def BEARER : List (Item UInt16) :=
  [boundary] ++ eitherCase "bearer" ++ [atLeast 1 isSpace,.mark,
    atLeast 8 fun unit => isAlphanum unit || isAny "._~+/=-" unit]

/-- The user part of an address, between its two marks; the second is before the `@`. -/
def URL_USERINFO : List (Item UInt16) :=
  [boundary,one isLetter,atLeast 0 fun unit => isAlphanum unit || isAny "+.-" unit] ++ letters "://" ++
    [.mark,atLeast 0 fun unit => !isSpace unit && !isAny "/?#\"'\x60<>" unit,.mark] ++ letters "@"

end Shapes

section Passes

/-- A pass over a text: at a place, the length of the match and what replaces it. -/
abbrev Pass := Units → Units → Option (Nat × Units)

/-- What is before the mark is kept; the credential after it is redacted, as it may be already. -/
def credentialPass (pattern : List (Item UInt16)) : Pass := fun before after =>
  match matchAt pattern before after 0 with
  | some [mark,stop] =>
    let credential := (after.take stop).drop mark
    some (stop,after.take mark ++ if credential = REDACTED then credential else REDACTED)
  | _ => none

def userinfoPass : Pass := fun before after =>
  match matchAt URL_USERINFO before after 0 with
  | some [mark,last,stop] => some (stop,after.take mark ++ REDACTED ++ (after.take stop).drop last)
  | _ => none

def shapePass (pattern : List (Item UInt16)) : Pass := fun before after =>
  (matchAt pattern before after 0).map fun marks => (marks.getLastD 0,REDACTED)

/-- A further pattern of the caller's, by the length of its match. -/
def extraPass (pattern : Units → Units → Option Nat) : Pass := fun before after =>
  (pattern before after).map fun length => (length,REDACTED)

structure Redactor where
  sorted : List Units
  extraPatterns : List (Units → Units → Option Nat)

/-- The values that are strings above the floor. -/
def longValues (values : List (Option Units)) : List Units :=
  (values.filterMap id).filter fun value => MIN_SECRET_LENGTH ≤ value.length

def dedupe (forms : List Units) : List Units :=
  forms.foldl (fun held form => if form ∈ held then held else held ++ [form]) []

/-- `makeRedactor`; a value that is no string is none. -/
def makeRedactor (values : List (Option Units)) (extraPatterns : List (Units → Units → Option Nat)) : Option Redactor :=
  ((longValues values).mapM spellingsOf).map fun spellings =>
    ⟨(dedupe spellings.flatten).mergeSort fun one other => other.length ≤ one.length,extraPatterns⟩

/-- Rule 1. -/
def Redactor.literal (redactor : Redactor) (text : Units) : Units :=
  if redactor.sorted = [] then text else replaceAll (wordPattern REDACTED redactor.sorted) [] text

def Redactor.passes (redactor : Redactor) : List Pass :=
  [credentialPass AUTHORIZATION_HEADER,credentialPass AUTHORIZATION_BARE,credentialPass BEARER,userinfoPass] ++
    TOKEN_SHAPES.map shapePass ++ redactor.extraPatterns.map extraPass

def Redactor.redact (redactor : Redactor) (text : Units) : Units :=
  redactor.passes.foldl (fun out pass => replaceAll pass [] out) (redactor.literal text)

end Passes

end PiDispatch.RedactSecrets
