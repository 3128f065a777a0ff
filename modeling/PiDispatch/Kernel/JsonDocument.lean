import PiDispatch.Kernel.Octets
import PiDispatch.Kernel.Utf16

/-! JSON documents as they are written, unit by unit: `JSON.parse` before it drops a member whose key comes again. A
number is its token. -/
namespace PiDispatch.Kernel

inductive Document
  | null
  | bool (value : Bool)
  | number (token : Units)
  | string (units : Units)
  | array (items : List Document)
  | object (members : List (Units × Document))

namespace JsonDocument

def unit (letter : Char) : UInt16 := UInt16.ofNat letter.toNat

def isSpace (first : UInt16) : Bool :=
  first = unit ' ' || first = unit '\t' || first = unit '\n' || first = unit '\r'

def skip : Units → Units
  | [] => []
  | first :: rest => if isSpace first then skip rest else first :: rest

def hexDigit (digit : UInt16) : Option Nat := Octets.hexValue (Char.ofNat digit.toNat)

def hexUnit (first second third fourth : UInt16) : Option UInt16 :=
  match hexDigit first,hexDigit second,hexDigit third,hexDigit fourth with
  | some a,some b,some c,some d => some (UInt16.ofNat (a * 4096 + b * 256 + c * 16 + d))
  | _,_,_,_ => none

def escapeOf (escape : UInt16) : Option UInt16 :=
  if escape = unit '"' then some 0x22
  else if escape = unit '\\' then some 0x5c
  else if escape = unit '/' then some 0x2f
  else if escape = unit 'b' then some 8
  else if escape = unit 'f' then some 12
  else if escape = unit 'n' then some 10
  else if escape = unit 'r' then some 13
  else if escape = unit 't' then some 9
  else none

/-- The unit read, before those of the rest. -/
def before (first : UInt16) (rest : Option (Units × Units)) : Option (Units × Units) :=
  rest.map fun read => (first :: read.1,read.2)

/-- After an opening quote, to the closing one. -/
def stringBody : Units → Option (Units × Units)
  | [] => none
  | first :: rest =>
    if first = unit '"' then some ([],rest)
    else if first = unit '\\' then
      match rest with
      | [] => none
      | escape :: rest =>
        if escape = unit 'u' then
          match rest with
          | a :: b :: c :: d :: rest => (hexUnit a b c d).bind fun read => before read (stringBody rest)
          | _ => none
        else (escapeOf escape).bind fun read => before read (stringBody rest)
    else if first.toNat < 0x20 then none
    else before first (stringBody rest)

def isDigit (first : UInt16) : Bool := 48 ≤ first.toNat && first.toNat ≤ 57

def integerPart : Units → Option (Units × Units)
  | [] => none
  | first :: rest =>
    if first = unit '0' then some ([first],rest)
    else if isDigit first then some (first :: rest.takeWhile isDigit,rest.dropWhile isDigit)
    else none

/-- Digits, one at least, after what leads them in. -/
def digitsAfter (lead rest : Units) : Option (Units × Units) :=
  if rest.takeWhile isDigit = [] then none else some (lead ++ rest.takeWhile isDigit,rest.dropWhile isDigit)

def fraction : Units → Option (Units × Units)
  | [] => some ([],[])
  | first :: rest => if first = unit '.' then digitsAfter [first] rest else some ([],first :: rest)

def exponent : Units → Option (Units × Units)
  | [] => some ([],[])
  | first :: rest =>
    if first = unit 'e' ∨ first = unit 'E' then
      match rest with
      | [] => none
      | sign :: digits =>
        if sign = unit '+' ∨ sign = unit '-' then digitsAfter [first,sign] digits else digitsAfter [first] (sign :: digits)
    else some ([],first :: rest)

def unsigned (text : Units) : Option (Units × Units) :=
  (integerPart text).bind fun whole => (fraction whole.2).bind fun part => (exponent part.2).bind fun power =>
    some (whole.1 ++ part.1 ++ power.1,power.2)

def numberToken : Units → Option (Units × Units)
  | [] => none
  | first :: rest =>
    if first = unit '-' then (unsigned rest).map fun token => (first :: token.1,token.2) else unsigned (first :: rest)

/-- What follows a word. -/
def after? (word text : Units) : Option Units := if word.isPrefixOf text then some (text.drop word.length) else none

mutual

def value : Nat → Units → Option (Document × Units)
  | 0,_ => none
  | fuel + 1,text => match skip text with
    | [] => none
    | first :: rest =>
      if first = unit '"' then (stringBody rest).map fun read => (.string read.1,read.2)
      else if first = unit '[' then match skip rest with
        | [] => none
        | next :: tail =>
          if next = unit ']' then some (.array [],tail) else (items fuel rest).map fun read => (.array read.1,read.2)
      else if first = unit '{' then match skip rest with
        | [] => none
        | next :: tail =>
          if next = unit '}' then some (.object [],tail) else (members fuel rest).map fun read => (.object read.1,read.2)
      else if first = unit 'n' then (after? ("ull".toList.map unit) rest).map fun rest => (.null,rest)
      else if first = unit 't' then (after? ("rue".toList.map unit) rest).map fun rest => (.bool true,rest)
      else if first = unit 'f' then (after? ("alse".toList.map unit) rest).map fun rest => (.bool false,rest)
      else (numberToken (first :: rest)).map fun read => (.number read.1,read.2)

def items : Nat → Units → Option (List Document × Units)
  | 0,_ => none
  | fuel + 1,text => (value fuel text).bind fun item => match skip item.2 with
    | [] => none
    | next :: rest =>
      if next = unit ',' then (items fuel rest).map fun read => (item.1 :: read.1,read.2)
      else if next = unit ']' then some ([item.1],rest)
      else none

def members : Nat → Units → Option (List (Units × Document) × Units)
  | 0,_ => none
  | fuel + 1,text => match skip text with
    | [] => none
    | quote :: rest =>
      if quote = unit '"' then (stringBody rest).bind fun key => match skip key.2 with
        | [] => none
        | colon :: rest =>
          if colon = unit ':' then (value fuel rest).bind fun item => match skip item.2 with
            | [] => none
            | next :: rest =>
              if next = unit ',' then (members fuel rest).map fun read => ((key.1,item.1) :: read.1,read.2)
              else if next = unit '}' then some ([(key.1,item.1)],rest)
              else none
          else none
      else none

end

/-- `JSON.parse`, every member kept. -/
def parse (text : Units) : Option Document :=
  (value (2 * text.length + 2) text).bind fun read => if skip read.2 = [] then some read.1 else none

end JsonDocument

end PiDispatch.Kernel
