import PiDispatch.Kernel.Octets
import PiDispatch.Kernel.Utf16

/-! JSON texts as ECMAScript writes and reads them: `JSON.stringify` without spaces, and `JSON.parse`. Strings are
sequences of units; what a number's token stands for, and how a number is written, is taken from `Numbers`. -/
namespace PiDispatch.Kernel

def decimal (number : Nat) : Text := Nat.toDigits 10 number

def maxSafeInteger : Nat := 2 ^ 53 - 1

/-- Numbers as the language has them. Safe integers are exact, and written in decimal. -/
structure Numbers where
  Value : Type
  ofNat : Nat → Value
  read : Text → Value
  write : Value → Text
  safe? : Value → Option Int
  read_decimal : ∀ number ≤ maxSafeInteger, read (decimal number) = ofNat number
  write_ofNat : ∀ number ≤ maxSafeInteger, write (ofNat number) = decimal number
  safe_ofNat : ∀ number ≤ maxSafeInteger, safe? (ofNat number) = some (number : Int)

/-- Whole numbers, as far as there are no others. -/
def wholeNumbers : Numbers where
  Value := Nat
  ofNat := id
  read token := Nat.ofDigitChars 10 token 0
  write := decimal
  safe? number := some number
  read_decimal _ _ := Nat.ofDigitChars_toDigits (by decide) (by decide)
  write_ofNat _ _ := rfl
  safe_ofNat _ _ := rfl

theorem decimal_safe : ∀ number ≤ maxSafeInteger,
    (let back := Nat.ofDigitChars 10 (decimal number) 0
    if decimal number = decimal back ∧ back ≤ maxSafeInteger then some (back : Int) else none) = some (number : Int) := by
  intro number safe
  have back : Nat.ofDigitChars 10 (decimal number) 0 = number := Nat.ofDigitChars_toDigits (by decide) (by decide)
  dsimp only
  rw [back,if_pos ⟨rfl,safe⟩]

inductive JsonValue (N : Type)
  | null
  | bool (value : Bool)
  | number (value : N)
  | string (units : Units)
  | array (items : List (JsonValue N))
  | object (members : List (Units × JsonValue N))

namespace JsonValue
variable {N : Type}

/-- A canonical array index, which objects keep before their other keys and in ascending order. -/
def index? (key : Units) : Option Nat :=
  let index := key.foldl (fun index unit => index * 10 + (unit.toNat - 48)) 0
  if key ≠ [] ∧ key.length ≤ 10 ∧ Utf16.ofText (decimal index) = key ∧ index < 2 ^ 32 - 1 then some index else none

/-- Sets a member: where its key stands, or where the language puts a new one. -/
def put (key : Units) (value : JsonValue N) : List (Units × JsonValue N) → List (Units × JsonValue N)
  | [] => [(key,value)]
  | (other,held) :: members =>
    if other = key then (key,value) :: members
    else match index? key,index? other with
      | some own,some first =>
        if own < first then (key,value) :: (other,held) :: members else (other,held) :: put key value members
      | some _,none => (key,value) :: (other,held) :: members
      | none,_ => (other,held) :: put key value members

def ofMembers (members : List (Units × JsonValue N)) : List (Units × JsonValue N) :=
  members.foldl (fun held member => put member.1 member.2 held) []

/-- An own member of an object. -/
def field? (value : JsonValue N) (key : Units) : Option (JsonValue N) :=
  match value with
  | .object members => (members.find? fun member => member.1 = key).map Prod.snd
  | _ => none

end JsonValue

namespace JsonText
open Octets Utf16

def escaped (number : Nat) : Text :=
  ['\\','u',Nat.digitChar (number / 4096),Nat.digitChar (number / 256 % 16),Nat.digitChar (number / 16 % 16),
    Nat.digitChar (number % 16)]

def quotedPoint : Point → Text
  | .lone unit => escaped unit.toNat
  | .scalar letter =>
    if letter = '"' then ['\\','"']
    else if letter = '\\' then ['\\','\\']
    else if letter = '\x08' then ['\\','b']
    else if letter = '\x0c' then ['\\','f']
    else if letter = '\n' then ['\\','n']
    else if letter = '\r' then ['\\','r']
    else if letter = '\t' then ['\\','t']
    else if letter.toNat < 0x20 then escaped letter.toNat
    else [letter]

def quoted (text : Units) : Text := '"' :: ((points text).flatMap quotedPoint ++ ['"'])

section Print
variable (numbers : Numbers)

mutual

/-- `JSON.stringify`. -/
def stringify : JsonValue numbers.Value → Text
  | .null => "null".toList
  | .bool true => "true".toList
  | .bool false => "false".toList
  | .number value => numbers.write value
  | .string text => quoted text
  | .array items => '[' :: (stringifyItems items ++ [']'])
  | .object members => '{' :: (stringifyMembers members ++ ['}'])

def stringifyItems : List (JsonValue numbers.Value) → Text
  | [] => []
  | [item] => stringify item
  | item :: items => stringify item ++ ',' :: stringifyItems items

def stringifyMembers : List (Units × JsonValue numbers.Value) → Text
  | [] => []
  | [member] => stringifyMember member
  | member :: members => stringifyMember member ++ ',' :: stringifyMembers members

def stringifyMember : Units × JsonValue numbers.Value → Text
  | (key,value) => quoted key ++ ':' :: stringify value

end

end Print

section Scan

def isSpace (letter : Char) : Bool := letter = ' ' || letter = '\t' || letter = '\n' || letter = '\r'

def skip : Text → Text
  | [] => []
  | letter :: rest => if isSpace letter then skip rest else letter :: rest

def hexUnit (first second third fourth : Char) : Option UInt16 :=
  match hexValue first,hexValue second,hexValue third,hexValue fourth with
  | some a,some b,some c,some d => some (UInt16.ofNat (a * 4096 + b * 256 + c * 16 + d))
  | _,_,_,_ => none

def escapeOf (letter : Char) : Option UInt16 :=
  if letter = '"' then some 0x22
  else if letter = '\\' then some 0x5c
  else if letter = '/' then some 0x2f
  else if letter = 'b' then some 8
  else if letter = 'f' then some 12
  else if letter = 'n' then some 10
  else if letter = 'r' then some 13
  else if letter = 't' then some 9
  else none

/-- The units read, before those of the rest. -/
def before (units : Units) (rest : Option (Units × Text)) : Option (Units × Text) :=
  rest.map fun read => (units ++ read.1,read.2)

/-- After an opening quote, to the closing one. -/
def stringBody : Text → Option (Units × Text)
  | [] => none
  | '\\' :: 'u' :: first :: second :: third :: fourth :: rest =>
    (hexUnit first second third fourth).bind fun unit => before [unit] (stringBody rest)
  | '\\' :: letter :: rest => (escapeOf letter).bind fun unit => before [unit] (stringBody rest)
  | letter :: rest =>
    if letter = '"' then some ([],rest)
    else if letter = '\\' ∨ letter.toNat < 0x20 then none
    else before (unitsOf letter) (stringBody rest)

def integerPart : Text → Option (Text × Text)
  | [] => none
  | letter :: rest =>
    if letter = '0' then some (['0'],rest)
    else if letter.isDigit then some (letter :: rest.takeWhile Char.isDigit,rest.dropWhile Char.isDigit)
    else none

/-- Digits, one at least, after what leads them in. -/
def digitsAfter (lead rest : Text) : Option (Text × Text) :=
  if rest.takeWhile Char.isDigit = [] then none
  else some (lead ++ rest.takeWhile Char.isDigit,rest.dropWhile Char.isDigit)

def fraction : Text → Option (Text × Text)
  | '.' :: rest => digitsAfter ['.'] rest
  | rest => some ([],rest)

def exponent : Text → Option (Text × Text)
  | [] => some ([],[])
  | letter :: rest =>
    if letter = 'e' ∨ letter = 'E' then match rest with
      | '+' :: rest => digitsAfter [letter,'+'] rest
      | '-' :: rest => digitsAfter [letter,'-'] rest
      | rest => digitsAfter [letter] rest
    else some ([],letter :: rest)

def unsigned (text : Text) : Option (Text × Text) :=
  (integerPart text).bind fun whole => (fraction whole.2).bind fun part => (exponent part.2).bind fun power =>
    some (whole.1 ++ part.1 ++ power.1,power.2)

def numberToken : Text → Option (Text × Text)
  | '-' :: rest => (unsigned rest).map fun token => ('-' :: token.1,token.2)
  | text => unsigned text

/-- What follows a word. -/
def after? (word text : Text) : Option Text := if word.isPrefixOf text then some (text.drop word.length) else none

end Scan

section Parse
variable (numbers : Numbers)

mutual

def value : Nat → Text → Option (JsonValue numbers.Value × Text)
  | 0,_ => none
  | fuel + 1,text => match skip text with
    | [] => none
    | letter :: rest =>
      if letter = '"' then (stringBody rest).map fun read => (.string read.1,read.2)
      else if letter = '[' then match skip rest with
        | ']' :: rest => some (.array [],rest)
        | rest => (items fuel rest).map fun read => (.array read.1,read.2)
      else if letter = '{' then match skip rest with
        | '}' :: rest => some (.object [],rest)
        | rest => (members fuel rest).map fun read => (.object (JsonValue.ofMembers read.1),read.2)
      else if letter = 'n' then (after? "ull".toList rest).map fun rest => (.null,rest)
      else if letter = 't' then (after? "rue".toList rest).map fun rest => (.bool true,rest)
      else if letter = 'f' then (after? "alse".toList rest).map fun rest => (.bool false,rest)
      else (numberToken (letter :: rest)).map fun read => (.number (numbers.read read.1),read.2)

def items : Nat → Text → Option (List (JsonValue numbers.Value) × Text)
  | 0,_ => none
  | fuel + 1,text => (value fuel text).bind fun item => match skip item.2 with
    | ',' :: rest => (items fuel rest).map fun read => (item.1 :: read.1,read.2)
    | ']' :: rest => some ([item.1],rest)
    | _ => none

def members : Nat → Text → Option (List (Units × JsonValue numbers.Value) × Text)
  | 0,_ => none
  | fuel + 1,text => match skip text with
    | '"' :: rest => (stringBody rest).bind fun key => match skip key.2 with
      | ':' :: rest => (value fuel rest).bind fun item => match skip item.2 with
        | ',' :: rest => (members fuel rest).map fun read => ((key.1,item.1) :: read.1,read.2)
        | '}' :: rest => some ([(key.1,item.1)],rest)
        | _ => none
      | _ => none
    | _ => none

end

/-- `JSON.parse`: one document and nothing after it. Every call of a scan has a letter of the text to itself. -/
def parse (text : Text) : Option (JsonValue numbers.Value) :=
  (value numbers (2 * text.length + 2) text).bind fun read => if skip read.2 = [] then some read.1 else none

end Parse

end JsonText

end PiDispatch.Kernel
