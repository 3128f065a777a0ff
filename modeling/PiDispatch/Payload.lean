import Mathlib

/-! Payloads of the runner's provider calls, as values of the language: the module's own equality of them, the snapshot
that is taken before a hook runs, what a hook may change of it, and the JSON clone that a cost cap sends. -/
namespace PiDispatch.Payload

inductive Numeric
  | finite (value : Rat)
  | negativeZero
  | infinite (negative : Bool)
  | nan
  deriving DecidableEq

/-- A value with the identity of each object it is made of; a copy has none. What is neither plain nor a view is kept
by reference, and `wrote` is what stands for such a value in a JSON text, if it can be written at all. -/
inductive Value
  | undefined
  | null
  | bool (value : Bool)
  | number (value : Numeric)
  | string (text : String)
  | view (made : Option Nat) (kind : String) (bytes : List UInt8) (wrote : Value)
  | reference (made : Nat) (writes : Bool) (wrote : Value)
  | array (made : Option Nat) (items : List Value)
  | object (made : Option Nat) (members : List (String × Value))

abbrev Members := List (String × Value)

namespace Value

def defined : Value → Bool
  | .undefined => false
  | _ => true

def isPlain : Value → Bool
  | .object _ _ => true
  | _ => false

def members : Value → Members
  | .object _ members => members
  | _ => []

end Value

namespace Members

def get? (members : Members) (key : String) : Option Value :=
  (members.find? fun member => member.1 = key).map Prod.snd

def present (members : Members) (key : String) : Bool :=
  match members.get? key with
  | some value => value.defined
  | none => false

def definedKeys (members : Members) : List String :=
  (members.filter fun member => member.2.defined).map Prod.fst

end Members

/-- A property read of any value, with nothing behind the values that have none. -/
def Value.get (value : Value) (key : String) : Value := (value.members.get? key).getD .undefined

/-- `Object.is`. -/
def identical : Value → Value → Bool
  | .undefined,.undefined => true
  | .null,.null => true
  | .bool value,.bool other => value = other
  | .number value,.number other => value = other
  | .string text,.string other => text = other
  | .view (some made) _ _ _,.view (some other) _ _ _ => made = other
  | .reference made _ _,.reference other _ _ => made = other
  | .array (some made) _,.array (some other) _ => made = other
  | .object (some made) _,.object (some other) _ => made = other
  | _,_ => false

mutual

def samePayloadValue (a b : Value) (depth : Nat) : Bool :=
  match a with
  | .view made kind bytes wrote => identical (.view made kind bytes wrote) b || (depth ≤ 64 && match b with
    | .view _ other others _ => kind = other && bytes = others
    | _ => false)
  | .array made items => identical (.array made items) b || (depth ≤ 64 && match b with
    | .array _ others => sameItems items others (depth + 1)
    | _ => false)
  | .object made members => identical (.object made members) b || (depth ≤ 64 && match b with
    | .object _ others =>
      (Members.definedKeys members).length = (Members.definedKeys others).length && sameMembers members others (depth + 1)
    | _ => false)
  | a => identical a b
termination_by structural a

def sameItems (items others : List Value) (depth : Nat) : Bool :=
  match items with
  | [] => others.isEmpty
  | item :: items => match others with
    | [] => false
    | other :: others => samePayloadValue item other depth && sameItems items others depth
termination_by structural items

def sameMembers (members : List (String × Value)) (others : Members) (depth : Nat) : Bool :=
  match members with
  | [] => true
  | member :: members => sameMember member others depth && sameMembers members others depth
termination_by structural members

def sameMember (member : String × Value) (others : Members) (depth : Nat) : Bool :=
  match member with
  | (key,value) => !value.defined || match Members.get? others key with
    | some other => other.defined && samePayloadValue value other depth
    | none => false
termination_by structural member

end

mutual

def snapshotPayload : Value → Value
  | .view made kind bytes wrote => .view (if kind = "DataView" then made else none) kind bytes wrote
  | .array _ items => .array none (snapshotItems items)
  | .object _ members => .object none (snapshotMembers members)
  | value => value

def snapshotItems : List Value → List Value
  | [] => []
  | item :: items => snapshotPayload item :: snapshotItems items

/-- A key named `__proto__` is assigned as the copy's prototype, and is no member of it. -/
def snapshotMembers : List (String × Value) → Members
  | [] => []
  | member :: members =>
    if member.1 = "__proto__" then snapshotMembers members else snapshotMember member :: snapshotMembers members

def snapshotMember : String × Value → String × Value
  | (key,value) => (key,snapshotPayload value)

end

structure Editable where
  top : List String
  config : List String

def PAYLOAD_EDITABLE : Editable where
  top := ["messages","input","contents","system","systemInstruction","instructions","temperature","top_p","top_k","min_p",
    "stop","seed","presence_penalty","frequency_penalty","max_tokens","max_output_tokens","max_completion_tokens"]
  config := ["temperature","topP","topK","maxOutputTokens","stopSequences","systemInstruction"]

/-- The editable keys of a result, when it defines no other key that is not in the snapshot too. -/
def editedKeys (editable : List String) (before result : Members) : Option Members :=
  if (result.definedKeys.all fun key => key ∈ editable || before.present key) = true then
    some (result.filter fun member => member.2.defined && member.1 ∈ editable)
  else none

/-- The other keys of the snapshot, each as `kept` has it, when it keeps them all. -/
def keptKeys (editable : List String) (kept : String → Value → Option Value) (before : Members) : Option Members :=
  (before.filter fun member => member.2.defined && member.1 ∉ editable).mapM fun member =>
    (kept member.1 member.2).map fun value => (member.1,value)

/-- A setting under `config` is kept as pi built it. -/
def keptSetting (result : Members) (key : String) (value : Value) : Option Value :=
  match result.get? key with
  | some other => if (other.defined && samePayloadValue value other 0) = true then some value else none
  | none => none

def configAfterHook (before result : Members) : Option Value := do
  let edited ← editedKeys PAYLOAD_EDITABLE.config before result
  let kept ← keptKeys PAYLOAD_EDITABLE.config (keptSetting result) before
  pure (.object none (edited ++ kept))

def keptKey (result : Members) (key : String) (value : Value) : Option Value :=
  match result.get? key with
  | some other =>
    if other.defined = true then
      if key = "config" ∧ value.isPlain = true ∧ other.isPlain = true then configAfterHook value.members other.members
      else if samePayloadValue value other 0 = true then some value
      else none
    else none
  | none => none

/-- The payload to send after a hook, in the hook's own key order, or none to refuse the call. -/
def payloadAfterHook (before : Members) (result : Value) : Option Value :=
  match result with
  | .object _ members => do
    let edited ← editedKeys PAYLOAD_EDITABLE.top before members
    let kept ← keptKeys PAYLOAD_EDITABLE.top (keptKey members) before
    let sent : Members := edited ++ kept
    pure (.object none (members.filterMap fun member => (sent.get? member.1).map fun value => (member.1,value)))
  | _ => none

/-! `JSON.parse(JSON.stringify(value))`: none where it throws, and where nothing is written `undefined`. -/

def jsonNumber : Numeric → Value
  | .finite value => .number (.finite value)
  | .negativeZero => .number (.finite 0)
  | .infinite _ | .nan => .null

mutual

def cloned : Value → Option Value
  | .number value => some (jsonNumber value)
  | .view _ _ _ wrote => cloned wrote
  | .reference _ writes wrote => if writes = true then cloned wrote else none
  | .array _ items => (clonedItems items).map (.array none)
  | .object _ members => (clonedMembers members).map (.object none)
  | value => some value

def clonedItems : List Value → Option (List Value)
  | [] => some []
  | item :: items => match cloned item,clonedItems items with
    | some .undefined,some rest => some (.null :: rest)
    | some value,some rest => some (value :: rest)
    | _,_ => none

def clonedMembers : List (String × Value) → Option Members
  | [] => some []
  | member :: members => match clonedMember member,clonedMembers members with
    | some (_,.undefined),some rest => some rest
    | some (key,value),some rest => some ((key,value) :: rest)
    | _,_ => none

def clonedMember : String × Value → Option (String × Value)
  | (key,value) => (cloned value).map fun value => (key,value)

end

def jsonClone (value : Value) : Option Value :=
  match cloned value with
  | some .undefined => none
  | value => value

end PiDispatch.Payload
