import Mathlib

/-! JSON documents: what a JSON text stands for. A text is stored as its document, so that writing a
document and parsing it back is the identity; an object keeps its members in order. -/
namespace PiDispatch.Kernel

inductive Json
  | null
  | bool (value : Bool)
  | number (value : Rat)
  | string (value : String)
  | array (items : List Json)
  | object (members : List (String × Json))

namespace Json

def int (value : Int) : Json := .number value

/-- A member of an object; none for a missing one and for a value that is no object. -/
def field? (document : Json) (name : String) : Option Json :=
  match document with
  | .object members => (members.find? fun member => member.1 = name).map Prod.snd
  | _ => none

mutual

/-- Equality of documents, members in order: what equality of their texts comes to. -/
def same : Json → Json → Bool
  | .null,.null => true
  | .bool value,.bool other => value = other
  | .number value,.number other => value = other
  | .string value,.string other => value = other
  | .array items,.array others => sameItems items others
  | .object members,.object others => sameMembers members others
  | _,_ => false

def sameItems : List Json → List Json → Bool
  | [],[] => true
  | item :: items,other :: others => same item other && sameItems items others
  | _,_ => false

def sameMembers : List (String × Json) → List (String × Json) → Bool
  | [],[] => true
  | member :: members,other :: others => sameMember member other && sameMembers members others
  | _,_ => false

def sameMember : String × Json → String × Json → Bool
  | (name,value),(other,document) => name = other && same value document

end

end Json

end PiDispatch.Kernel
