import PiDispatch.DollarBudget

/-! The durable budget ledger of an armed run: one hash with the run's job-count slot, its container
numbers and the dollar hold of each container. Every transition is one script. -/
namespace PiDispatch
open Kernel Command

namespace RunBudgetLedger
open DollarBudget

def RUN_BUDGET_KEY_PREFIX : String := "run:budget:"
def RUN_BUDGET_MAX_KEYS : Nat := 16

def keptInJobId (letter : Char) : Bool :=
  letter.isAlphanum || letter = '.' || letter = '_' || letter = '-'

/-- One underscore for each UTF-16 unit that is not kept. -/
def sanitizeJobId (id : String) : String :=
  if id = "" then "unknown-job"
  else String.ofList <| id.toList.flatMap fun letter =>
    if keptInJobId letter then [letter] else if letter.toNat < 65536 then ['_'] else ['_','_']

def runBudgetKeyFor (runId : String) : String := RUN_BUDGET_KEY_PREFIX ++ sanitizeJobId runId

/-- A string's length as the language counts it: in UTF-16 units. -/
def utf16Length (text : String) : Nat := (text.toList.map fun letter => if letter.toNat < 65536 then 1 else 2).sum

def startsWith (text start : String) : Prop := start.toList <+: text.toList

instance (text start : String) : Decidable (startsWith text start) := inferInstanceAs (Decidable (_ <+: _))

def isSeq (number : Int) : Prop := 1 ≤ number ∧ number ≤ maxSafeInteger

instance (number : Int) : Decidable (isSeq number) := inferInstanceAs (Decidable (_ ∧ _))

def isDollarKey (key : String) : Prop :=
  utf16Length key > utf16Length DOLLAR_KEY_PREFIX + 1 ∧ utf16Length key ≤ 256 ∧
    startsWith key (DOLLAR_KEY_PREFIX ++ ":")

instance (key : String) : Decidable (isDollarKey key) := inferInstanceAs (Decidable (_ ∧ _))

def isDollarPrefix (keyPrefix : String) : Prop :=
  utf16Length keyPrefix ≤ 256 ∧ (keyPrefix = DOLLAR_KEY_PREFIX ∨ startsWith keyPrefix (DOLLAR_KEY_PREFIX ++ ":"))

instance (keyPrefix : String) : Decidable (isDollarPrefix keyPrefix) := inferInstanceAs (Decidable (_ ∧ _))

/-- The hold as it is stored, or none when it is not the shape `reserveDollars` returns. -/
def validHold (hold : Hold) : Option Hold :=
  if ¬isMicros hold.amountMicros then none
  else if hold.keys.length > RUN_BUDGET_MAX_KEYS ∨ ¬∀ key ∈ hold.keys, isDollarKey key then none
  else if ¬hold.keys.Nodup then none
  else
    match hold.ledgers with
    | none => some ⟨hold.amountMicros,hold.keys,none⟩
    | some ledgers =>
      if ledgers.length > RUN_BUDGET_MAX_KEYS then none
      else if ¬∀ ledger ∈ ledgers, isDollarPrefix ledger.keyPrefix ∧ ledger.keys ≠ [] then none
      else if ledgers.flatMap HoldLedger.keys ≠ hold.keys then none
      else if ¬∀ ledger ∈ ledgers, ∀ key ∈ ledger.keys, startsWith key (ledger.keyPrefix ++ ":") then none
      else some ⟨hold.amountMicros,hold.keys,some ledgers⟩

def escape (letter : Char) : String :=
  match letter.toNat with
  | 34 => "\\\""
  | 92 => "\\\\"
  | 8 => "\\b"
  | 9 => "\\t"
  | 10 => "\\n"
  | 12 => "\\f"
  | 13 => "\\r"
  | code =>
    if code < 32 then "\\u" ++ String.ofList (List.replicate (4 - (Nat.toDigits 16 code).length) '0' ++ Nat.toDigits 16 code)
    else letter.toString

def stringifyText (text : String) : String := "\"" ++ String.join (text.toList.map escape) ++ "\""

def stringifyKeys (keys : List String) : String := "[" ++ ",".intercalate (keys.map stringifyText) ++ "]"

def stringifyLedger (ledger : HoldLedger) : String :=
  "\x7b\"keyPrefix\":" ++ stringifyText ledger.keyPrefix ++ ",\"keys\":" ++ stringifyKeys ledger.keys ++ "\x7d"

/-- `JSON.stringify` of a stored hold. -/
def stringifyHold (hold : Hold) : String :=
  let ledgers :=
    match hold.ledgers with
    | none => ""
    | some ledgers => ",\"ledgers\":[" ++ ",".intercalate (ledgers.map stringifyLedger) ++ "]"
  "\x7b\"amountMicros\":" ++ toString hold.amountMicros ++ ",\"keys\":" ++ stringifyKeys hold.keys ++ ledgers ++ "\x7d"

abbrev Fields := Dict String String

/-- A hash at a key; an absent key reads as the empty hash. -/
def fieldsAt (store : Store) (key : String) : Option Fields :=
  match store key with
  | none => some Dict.empty
  | some (.hash fields) => some fields
  | some _ => none

/-- A script over one hash that always writes it. -/
def onHash {kind : ReplyKind} (key : String) (script : Fields → kind.Carrier × Fields) : Command kind := fun store =>
  match fieldsAt store key with
  | none => (.error wrongType,store)
  | some fields => (.ok (script fields).1,store.put key (.hash (script fields).2))

def CLAIM_SCRIPT (key now : String) : Command .integer :=
  onHash key fun fields =>
    match fields.get? "slot" with
    | none => (1,(fields.set "slot" "held").set "at" now)
    | some _ => (0,fields.set "at" now)

def stateField (seq : Int) : String := "s" ++ toString seq
def recordField (seq : Int) : String := "h" ++ toString seq

def RECORD_SCRIPT (key : String) (seq : Int) (stored now : String) : Command .integer := fun store =>
  match fieldsAt store key with
  | none => (.error wrongType,store)
  | some fields =>
    match fields.get? (stateField seq) with
    | some _ => (.ok 0,store)
    | none =>
      let written := ((fields.set (recordField seq) stored).set (stateField seq) "held").set "at" now
      (.ok 1,store.put key (.hash written))

def MOVE_SCRIPT (key : String) (seq : Int) (next now : String) : Command .integer := fun store =>
  match fieldsAt store key with
  | none => (.error wrongType,store)
  | some fields =>
    if fields.get? (stateField seq) ≠ some "held" then (.ok 0,store)
    else (.ok 1,store.put key (.hash ((fields.set (stateField seq) next).set "at" now)))

/-- The pattern `^s(%d+)$`, with its number. -/
def seqOfField (field : String) : Option Nat :=
  match field.toList with
  | [] => none
  | letter :: digits =>
    if letter = 's' ∧ digits ≠ [] ∧ digits.all Char.isDigit then some (Nat.ofDigitChars 10 digits 0) else none

def crashedBelow (below : Int) (field state : String) : Option Nat :=
  (seqOfField field).filter fun seq => state = "held" ∧ (seq : Int) < below

def CRASHED_SCRIPT (key : String) (below : Int) (now : String) : Command .integers := fun store =>
  match fieldsAt store key with
  | none => (.error wrongType,store)
  | some fields =>
    let moved := fields.entries.filterMap fun entry => crashedBelow below entry.1 entry.2
    if moved = [] then (.ok [],store)
    else
      let written := fields.mapValues fun field state =>
        if (crashedBelow below field state).isSome then "settled-crashed" else state
      (.ok (moved.map Int.ofNat),store.put key (.hash (written.set "at" now)))

def notAnInteger : Fault := ⟨some "ERR"⟩

/-- A hash field read as an integer: zero when it is absent. -/
def integerField (fields : Fields) (field : String) : Option Int :=
  match fields.get? field with
  | none => some 0
  | some text => text.toInt?

def SEQ_SCRIPT (key now : String) : Command .integer := fun store =>
  match fieldsAt store key with
  | none => (.error wrongType,store)
  | some fields =>
    match integerField fields "seq" with
    | none => (.error notAnInteger,store)
    | some number =>
      if inInt64 (number + 1) then
        (.ok (number + 1),store.put key (.hash ((fields.set "seq" (toString (number + 1))).set "at" now)))
      else (.error overflow,store)

/-- What the ledger's calls answer. -/
inductive Answer
  | new
  | carried
  | ok
  | moved
  | notHeld
  | settled (seqs : List Int)
  | number (seq : Int)
  | error (code : String)
  deriving DecidableEq

def attempt {kind : ReplyKind} (command : Command kind) (answer : kind.Carrier → Answer) : Call Answer :=
  call command fun
    | .ok value => .done (answer value)
    | .error fault => .done (.error (fault.code.getD "valkey"))

def claimSlot (runId now : String) : Call Answer :=
  attempt (CLAIM_SCRIPT (runBudgetKeyFor runId) now) fun set => if set = 1 then .new else .carried

def recordHold (runId : String) (seq : Int) (hold : Hold) (now : String) : Call Answer :=
  if ¬isSeq seq then .done (.error "bad-seq")
  else
    match validHold hold with
    | none => .done (.error "bad-hold")
    | some stored =>
      attempt (RECORD_SCRIPT (runBudgetKeyFor runId) seq (stringifyHold stored) now) fun written =>
        if written = 1 then .ok else .error "exists"

def move (runId : String) (seq : Int) (next now : String) : Call Answer :=
  if ¬isSeq seq then .done (.error "bad-seq")
  else attempt (MOVE_SCRIPT (runBudgetKeyFor runId) seq next now) fun moved => if moved = 1 then .moved else .notHeld

def settle (runId : String) (seq : Int) (now : String) : Call Answer := move runId seq "settled" now

def release (runId : String) (seq : Int) (now : String) : Call Answer := move runId seq "released" now

def settleCrashed (runId : String) (belowSeq : Int) (now : String) : Call Answer :=
  if ¬isSeq belowSeq then .done (.error "bad-seq")
  else
    attempt (CRASHED_SCRIPT (runBudgetKeyFor runId) belowSeq now) fun moved =>
      .settled (moved.mergeSort fun left right => left ≤ right)

def nextSeq (runId now : String) : Call Answer :=
  attempt (SEQ_SCRIPT (runBudgetKeyFor runId) now) fun number =>
    if isSeq number then .number number else .error "bad-reply"

end RunBudgetLedger

end PiDispatch
