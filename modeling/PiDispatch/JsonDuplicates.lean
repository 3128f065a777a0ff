import PiDispatch.Kernel.JsonDocument

/-! The scan of a JSON text for a key that comes twice in one object, and where such keys stand in a document. -/
namespace PiDispatch.JsonDuplicates
open Kernel Kernel.JsonDocument

def SIMPLE_ESCAPES : List (UInt16 × UInt16) :=
  [(unit '"',0x22),(unit '\\',0x5c),(unit '/',0x2f),(unit 'b',8),(unit 'f',12),(unit 'n',10),(unit 'r',13),(unit 't',9)]

def STRUCTURAL : List UInt16 := [',',':','{','}','[',']','"',' ','\t','\n','\r'].map unit

/-- A step of a path: a key or an array index. -/
inductive Segment
  | key (units : Units)
  | index (number : Nat)
  deriving DecidableEq

def Segment.units : Segment → Units
  | .key units => units
  | .index number => Utf16.ofText (Nat.toDigits 10 number)

/-- `[...path, key].join(".")`, the path from its last step. -/
def dotted (path : List Segment) (key : Units) : Units :=
  [unit '.'].intercalate ((path.reverse.map Segment.units) ++ [key])

structure Duplicate where
  key : Units
  at' : Units
  deriving DecidableEq

/-- The keys of an open object, or none of an array; `named` once a key is on the path. -/
structure Frame where
  keys : Option (List Units)
  named : Bool
  deriving DecidableEq

structure State where
  stack : List Frame
  path : List Segment
  expectKey : Bool
  deriving DecidableEq

/-- Past the string whose opening quote was taken. -/
def skipString : Units → Units
  | [] => []
  | ch :: rest =>
    if ch = unit '"' then rest
    else if ch = unit '\\' then
      match rest with
      | [] => []
      | _ :: rest => skipString rest
    else skipString rest

/-- The number that the leading digits spell, to base 16. -/
def parseHex (digits : Units) : Nat :=
  (digits.takeWhile fun digit => (hexDigit digit).isSome).foldl (fun number digit => number * 16 + (hexDigit digit).getD 0) 0

/-- The string whose opening quote was taken, decoded. -/
def readString : Units → Units × Units
  | [] => ([],[])
  | ch :: rest =>
    if ch = unit '"' then ([],rest)
    else if ch = unit '\\' then
      match rest with
      | [] => ([],[])
      | esc :: rest =>
        if esc = unit 'u' then
          match rest with
          | a :: b :: c :: d :: rest =>
            let read := readString rest
            (UInt16.ofNat (parseHex [a,b,c,d]) :: read.1,read.2)
          | short => ([UInt16.ofNat (parseHex short)],[])
        else
          let read := readString rest
          (((SIMPLE_ESCAPES.lookup esc).getD esc) :: read.1,read.2)
    else
      let read := readString rest
      (ch :: read.1,read.2)

/-- A container's end: an array's index leaves the path, or the key of an object's last member. -/
def closed (state : State) : State :=
  match state.stack with
  | [] => { state with expectKey := false }
  | frame :: stack =>
    ⟨stack,if frame.keys = none ∨ frame.named then state.path.tail else state.path,false⟩

def bumped : List Segment → List Segment
  | .index number :: path => .index (number + 1) :: path
  | .key units :: path => .key (units ++ [unit '1']) :: path
  | [] => []

def afterComma (state : State) : State :=
  match state.stack with
  | [] => state
  | ⟨none,named⟩ :: stack => ⟨⟨none,named⟩ :: stack,bumped state.path,false⟩
  | ⟨some keys,named⟩ :: stack => ⟨⟨some keys,false⟩ :: stack,if named then state.path.tail else state.path,true⟩

/-- The keys of the object whose next string is a key. -/
def keysHere (state : State) : Option (List Units) :=
  if state.expectKey then state.stack.head?.bind Frame.keys else none

def named (state : State) (keys : List Units) (key : Units) : State :=
  ⟨⟨some (key :: keys),true⟩ :: state.stack.tail,.key key :: state.path,false⟩

/-- The scan from a state on; every round takes a unit of the text at least. -/
def scan : Nat → State → Units → Option Duplicate
  | 0,_,_ => none
  | fuel + 1,state,text => match skip text with
    | [] => none
    | ch :: rest =>
      if ch = unit '{' then scan fuel ⟨⟨some [],false⟩ :: state.stack,state.path,true⟩ rest
      else if ch = unit '[' then scan fuel ⟨⟨none,false⟩ :: state.stack,.index 0 :: state.path,false⟩ rest
      else if ch = unit '}' ∨ ch = unit ']' then scan fuel (closed state) rest
      else if ch = unit ',' then scan fuel (afterComma state) rest
      else if ch = unit ':' then scan fuel state rest
      else if ch = unit '"' then
        match keysHere state with
        | some keys =>
          let key := readString rest
          if key.1 ∈ keys then some ⟨key.1,dotted state.path key.1⟩ else scan fuel (named state keys key.1) key.2
        | none => scan fuel state (skipString rest)
      else scan fuel state (rest.dropWhile fun ch => ch ∉ STRUCTURAL)

def findDuplicateKey (text : Units) : Option Duplicate := scan text.length ⟨[],[],false⟩ text

mutual

/-- The members of a document that come again in their object, in the order they are written. -/
def repeats (path : List Segment) : Document → List Duplicate
  | .array items => repeatsItems path 0 items
  | .object members => repeatsMembers path [] members
  | _ => []

def repeatsItems (path : List Segment) (index : Nat) : List Document → List Duplicate
  | [] => []
  | item :: items => repeats (.index index :: path) item ++ repeatsItems path (index + 1) items

def repeatsMembers (path : List Segment) (earlier : List Units) : List (Units × Document) → List Duplicate
  | [] => []
  | (key,item) :: members =>
    (if key ∈ earlier then [⟨key,dotted path key⟩] else []) ++
      (repeats (.key key :: path) item ++ repeatsMembers path (key :: earlier) members)

end

mutual

/-- No object of the document has two members of one key. -/
def Distinct : Document → Prop
  | .array items => DistinctItems items
  | .object members => (members.map Prod.fst).Nodup ∧ DistinctMembers members
  | _ => True

def DistinctItems : List Document → Prop
  | [] => True
  | item :: items => Distinct item ∧ DistinctItems items

def DistinctMembers : List (Units × Document) → Prop
  | [] => True
  | (_,item) :: members => Distinct item ∧ DistinctMembers members

end

end PiDispatch.JsonDuplicates
