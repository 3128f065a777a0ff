import PiDispatch.ChildMeter
import PiDispatch.Kernel.Dict
import PiDispatch.Kernel.JsonRoundTrip

/-! The ledger file of a child: the text that the child writes, the text as its parent reads it, and the parent's fold
over the files of all children, which keeps a mark for each. What the language's numbers do is a parameter. -/
namespace PiDispatch.UsageMeter
open Kernel JsonText Utf16

def CHILD_LEDGER_MAX_BYTES : Nat := 64 * 1024
def CHILD_LEDGER_MAX_ROWS : Nat := 256
def CHILD_LEDGER_MAX_FILES : Nat := 512
def CHILD_LEDGER_VERSION : Rat := 3

/-- The language's numbers as far as ledgers use them: those that are kept exactly are written in one short token and
read back, and no integer beyond the safe ones is safe. -/
structure Figures extends Numbers where
  ofRat : Rat → Value
  finite? : Value → Option Rat
  Exact : Rat → Prop
  exact_nat : ∀ number ≤ maxSafeInteger, Exact (number : Nat)
  ofRat_nat : ∀ number ≤ maxSafeInteger, ofRat (number : Nat) = ofNat number
  finite_ofRat : ∀ figure, Exact figure → finite? (ofRat figure) = some figure
  safe_within : ∀ value number, safe? value = some number → number ≤ maxSafeInteger
  token : ∀ figure, Exact figure → 0 ≤ figure → figure ≤ maxSafeInteger → Token toNumbers (ofRat figure)
  short : ∀ figure, Exact figure → 0 ≤ figure → figure ≤ maxSafeInteger →
    (Octets.utf8 (write (ofRat figure))).length ≤ 24

def LedgerState.name : LedgerState → String
  | .starting => "starting"
  | .running => "running"
  | .done => "done"

section Write
variable (figures : Figures)

def numeral (value : Rat) : JsonValue figures.Value := .number (figures.ofRat value)

def idJson (id : Option String) : JsonValue figures.Value :=
  match id with
  | some id => .string (spell id)
  | none => .null

def LedgerRow.json (row : LedgerRow) : JsonValue figures.Value :=
  .object [(spell "provider",idJson figures row.provider),(spell "model",idJson figures row.model),
    (spell "calls",numeral figures row.row.calls),(spell "input",numeral figures row.row.input),
    (spell "output",numeral figures row.row.output),(spell "cacheRead",numeral figures row.row.cacheRead),
    (spell "cacheWrite",numeral figures row.row.cacheWrite),(spell "cacheWrite1h",numeral figures row.row.cacheWrite1h),
    (spell "reasoning",numeral figures row.row.reasoning),(spell "total",numeral figures row.row.total),
    (spell "cost",numeral figures row.row.cost),(spell "unpriced",numeral figures row.row.unpriced),
    (spell "providerBilled",numeral figures row.row.providerBilled)]

def LedgerTotals.json (totals : LedgerTotals) : JsonValue figures.Value :=
  .object [(spell "input",numeral figures totals.input),(spell "output",numeral figures totals.output),
    (spell "total",numeral figures totals.total),(spell "cost",numeral figures totals.cost),
    (spell "calls",numeral figures totals.calls),(spell "unresolved",numeral figures totals.unresolved),
    (spell "unpriced",numeral figures totals.unpriced),(spell "sessions",numeral figures totals.sessions)]

def Ledger.json (ledger : Ledger) : JsonValue figures.Value :=
  .object [(spell "v",numeral figures CHILD_LEDGER_VERSION),(spell "state",.string (spell ledger.state.name)),
    (spell "metered",.bool ledger.metered),(spell "totals",ledger.totals.json figures),
    (spell "rows",.array (ledger.rows.map fun row => row.json figures)),
    (spell "spentMicros",numeral figures ledger.spentMicros),(spell "inflightMicros",numeral figures ledger.inflightMicros),
    (spell "costRefused",numeral figures ledger.costRefused),(spell "modelRefused",numeral figures ledger.modelRefused),
    (spell "boundExceeded",numeral figures ledger.boundExceeded),
    (spell "costUnanswered",numeral figures ledger.costUnanswered),
    (spell "costUnreported",numeral figures ledger.costUnreported),(spell "longContext",numeral figures ledger.longContext),
    (spell "costUnjudged",numeral figures ledger.costUnjudged)]

/-- The text of a ledger's file. -/
def Ledger.text (ledger : Ledger) : Text := stringify figures.toNumbers (ledger.json figures)

end Write

section Read
variable (figures : Figures)

def isPlain : JsonValue figures.Value → Bool
  | .object _ => true
  | _ => false

def amount (value : Option (JsonValue figures.Value)) : Option Rat :=
  match value with
  | some (.number value) => (figures.finite? value).filter fun value => 0 ≤ value ∧ value ≤ maxSafeInteger
  | _ => none

def whole (value : Option (JsonValue figures.Value)) : Option Nat :=
  match value with
  | some (.number value) => match figures.safe? value with
    | some (.ofNat number) => some number
    | _ => none
  | _ => none

def flagOf : JsonValue figures.Value → Option Bool
  | .bool value => some value
  | _ => none

def stateOf : JsonValue figures.Value → Option LedgerState
  | .string units => [LedgerState.starting,.running,.done].find? fun state => spell state.name = units
  | _ => none

/-- A string as text; what pairs with nothing is no letter of an id. -/
def wording (units : Units) : String :=
  String.ofList ((points units).map fun point =>
    match point with
    | .scalar letter => letter
    | .lone _ => '\uFFFD')

/-- The ids of a row: both null, or both recordable. -/
def rowIds (given : JsonValue figures.Value) : Option (Option String × Option String) :=
  match given.field? (spell "provider"),given.field? (spell "model") with
  | some .null,some .null => some (none,none)
  | some (.string provider),some (.string model) =>
    if recordableId (wording provider) = true ∧ recordableId (wording model) = true then
      some (some (wording provider),some (wording model))
    else none
  | _,_ => none

def parseRow (given : JsonValue figures.Value) : Option LedgerRow :=
  if isPlain figures given = false then none
  else do
    let (provider,model) ← rowIds figures given
    let input ← amount figures (given.field? (spell "input"))
    let output ← amount figures (given.field? (spell "output"))
    let cacheRead ← amount figures (given.field? (spell "cacheRead"))
    let cacheWrite ← amount figures (given.field? (spell "cacheWrite"))
    let cacheWrite1h ← amount figures (given.field? (spell "cacheWrite1h"))
    let reasoning ← amount figures (given.field? (spell "reasoning"))
    let total ← amount figures (given.field? (spell "total"))
    let cost ← amount figures (given.field? (spell "cost"))
    let calls ← whole figures (given.field? (spell "calls"))
    let unpriced ← whole figures (given.field? (spell "unpriced"))
    let providerBilled ← whole figures (given.field? (spell "providerBilled"))
    pure ⟨provider,model,calls,input,output,cacheRead,cacheWrite,cacheWrite1h,reasoning,total,cost,unpriced,providerBilled⟩

/-- A row's key: its pair, or nothing for the row of the calls without a model. -/
def LedgerRow.key (row : LedgerRow) : String :=
  match row.provider with
  | none => ""
  | some provider => provider ++ "\x00" ++ row.model.getD "null"

def mergeRow (rows : List LedgerRow) (row : LedgerRow) : List LedgerRow :=
  if (rows.any fun held => held.key = row.key) = true then
    rows.map fun held => if held.key = row.key then { held with row := foldRow held.row row.row } else held
  else rows ++ [row]

def sumRows (rows : List LedgerRow) : Row := rows.foldl (fun sum row => foldRow sum row.row) emptyRow

def parseTotals (given : JsonValue figures.Value) : Option LedgerTotals :=
  if isPlain figures given = false then none
  else do
    let input ← amount figures (given.field? (spell "input"))
    let output ← amount figures (given.field? (spell "output"))
    let total ← amount figures (given.field? (spell "total"))
    let cost ← amount figures (given.field? (spell "cost"))
    let calls ← whole figures (given.field? (spell "calls"))
    let unresolved ← whole figures (given.field? (spell "unresolved"))
    let unpriced ← whole figures (given.field? (spell "unpriced"))
    let sessions ← whole figures (given.field? (spell "sessions"))
    if calls < unresolved then none else pure ⟨input,output,total,cost,calls,unresolved,unpriced,sessions⟩

def parseRows (given : JsonValue figures.Value) : Option (List LedgerRow) :=
  match given with
  | .array items => if CHILD_LEDGER_MAX_ROWS < items.length then none else items.mapM (parseRow figures)
  | _ => none

def agrees (one other : Rat) : Bool := |one - other| ≤ 1 / 1000000000 * max 1 (max |one| |other|)

/-- The rows partition the totals. -/
def partitions (sum : Row) (totals : LedgerTotals) : Bool :=
  decide (sum.calls = totals.calls - totals.unresolved ∧ sum.unpriced = totals.unpriced) &&
    agrees sum.input totals.input && agrees sum.output totals.output && agrees sum.total totals.total &&
    agrees sum.cost totals.cost

def isVersion (value : Option (JsonValue figures.Value)) : Bool :=
  match value with
  | some (.number value) => figures.finite? value = some CHILD_LEDGER_VERSION
  | _ => false

/-- One ledger's text, validated whole, with the rows of one key summed. -/
def parseChildLedger (text : Text) : Option Ledger := do
  let raw ← parse figures.toNumbers text
  if isPlain figures raw = false ∨ isVersion figures (raw.field? (spell "v")) = false then none
  else
    let state ← (raw.field? (spell "state")).bind (stateOf figures)
    let metered ← (raw.field? (spell "metered")).bind (flagOf figures)
    let totals ← (raw.field? (spell "totals")).bind (parseTotals figures)
    let spentMicros ← whole figures (raw.field? (spell "spentMicros"))
    let inflightMicros ← whole figures (raw.field? (spell "inflightMicros"))
    let costRefused ← whole figures (raw.field? (spell "costRefused"))
    let modelRefused ← whole figures (raw.field? (spell "modelRefused"))
    let boundExceeded ← whole figures (raw.field? (spell "boundExceeded"))
    let costUnanswered ← whole figures (raw.field? (spell "costUnanswered"))
    let costUnreported ← whole figures (raw.field? (spell "costUnreported"))
    let longContext ← whole figures (raw.field? (spell "longContext"))
    let costUnjudged ← whole figures (raw.field? (spell "costUnjudged"))
    let rows ← (raw.field? (spell "rows")).bind (parseRows figures)
    if partitions (sumRows rows) totals = false then none
    else pure ⟨state,metered,totals,rows.foldl mergeRow [],spentMicros,inflightMicros,costRefused,modelRefused,boundExceeded,
      costUnanswered,costUnreported,longContext,costUnjudged⟩

end Read

/-! The fold over the files of a directory. -/

/-- Every field of a row is at least the other's. -/
def rowReached (high now : Row) : Bool :=
  decide (high.input ≤ now.input ∧ high.output ≤ now.output ∧ high.cacheRead ≤ now.cacheRead ∧
    high.cacheWrite ≤ now.cacheWrite ∧ high.cacheWrite1h ≤ now.cacheWrite1h ∧ high.reasoning ≤ now.reasoning ∧
    high.total ≤ now.total ∧ high.cost ≤ now.cost ∧ high.calls ≤ now.calls ∧ high.unpriced ≤ now.unpriced ∧
    high.providerBilled ≤ now.providerBilled)

/-- Whether `next` reached at least `high` in everything that only grows. -/
def reached (high next : Ledger) : Bool :=
  decide (high.totals.input ≤ next.totals.input ∧ high.totals.output ≤ next.totals.output ∧
    high.totals.total ≤ next.totals.total ∧ high.totals.cost ≤ next.totals.cost ∧
    high.totals.calls ≤ next.totals.calls ∧ high.totals.unpriced ≤ next.totals.unpriced ∧
    high.totals.sessions ≤ next.totals.sessions) &&
  decide (high.spentMicros ≤ next.spentMicros ∧ high.costRefused ≤ next.costRefused ∧
    high.modelRefused ≤ next.modelRefused ∧ high.boundExceeded ≤ next.boundExceeded ∧
    high.costUnanswered ≤ next.costUnanswered ∧ high.costUnreported ≤ next.costUnreported ∧
    high.longContext ≤ next.longContext ∧ high.costUnjudged ≤ next.costUnjudged) &&
  high.rows.all fun row => match next.rows.find? fun now => now.key = row.key with
    | some now => rowReached row.row now.row
    | none => false

inductive Why
  | malformed
  | unmetered
  | shrank
  | vanished
  deriving DecidableEq

/-- What the fold keeps of a file, with its mark. -/
structure Entry where
  pid : Nat
  state : Option LedgerState
  unmetered : Bool
  why : Option Why
  high : Ledger

/-- A ledger with nothing in it; its state is never read. -/
def emptyLedger : Ledger := ⟨.starting,true,⟨0,0,0,0,0,0,0,0⟩,[],0,0,0,0,0,0,0,0,0⟩

def addTotals (into given : LedgerTotals) : LedgerTotals where
  input := into.input + given.input
  output := into.output + given.output
  total := into.total + given.total
  cost := into.cost + given.cost
  calls := into.calls + given.calls
  unresolved := into.unresolved + given.unresolved
  unpriced := into.unpriced + given.unpriced
  sessions := into.sessions + given.sessions

def addLedger (into given : Ledger) : Ledger :=
  { into with
    totals := addTotals into.totals given.totals
    rows := given.rows.foldl mergeRow into.rows
    spentMicros := into.spentMicros + given.spentMicros
    inflightMicros := into.inflightMicros + given.inflightMicros
    costRefused := into.costRefused + given.costRefused
    modelRefused := into.modelRefused + given.modelRefused
    boundExceeded := into.boundExceeded + given.boundExceeded
    costUnanswered := into.costUnanswered + given.costUnanswered
    costUnreported := into.costUnreported + given.costUnreported
    longContext := into.longContext + given.longContext
    costUnjudged := into.costUnjudged + given.costUnjudged }

def saturatingAdd (one other : Int) : Int := min maxSafeInteger (one + other)

/-- What a ledger has settled, in whole micro-dollars. -/
def ledgerSettled (high : Ledger) : Int := min maxSafeInteger (max high.spentMicros ⌈high.totals.cost * 1000000⌉)

/-- What a ledger holds against a cap. -/
def ledgerCharge (high : Ledger) : Int := saturatingAdd (ledgerSettled high) high.inflightMicros

/-- What a file's read gives: its signature may be the one of the last read. -/
inductive FileRead
  | gone
  | failed
  | unchanged
  | bytes (bytes : List UInt8)

inductive LedgerRead
  | gone
  | bad
  | unchanged
  | text (text : Text)

/-- A file of the size allowed, in strict UTF-8. -/
def readLedger (read : FileRead) : LedgerRead :=
  match read with
  | .gone => .gone
  | .failed => .bad
  | .unchanged => .unchanged
  | .bytes bytes =>
    if CHILD_LEDGER_MAX_BYTES < bytes.length then .bad
    else match Octets.decodeUtf8 bytes with
      | some ('\uFEFF' :: text) => .text text
      | some text => .text text
      | none => .bad

/-- `CHILD_LEDGER_NAME`, with the pid that it names. -/
def ledgerPid (name : String) : Option Nat :=
  let digits := name.toList.takeWhile Char.isDigit
  match digits,name.toList.dropWhile Char.isDigit with
  | first :: _,'.' :: rest =>
    if first ≠ '0' ∧ digits.length ≤ 10 ∧ (rest.take 16).length = 16 ∧ (rest.take 16).all Octets.isLowerHex = true ∧
        rest.drop 16 = ".json".toList then some (Nat.ofDigitChars 10 digits 0)
    else none
  | _,_ => none

/-- One directory listing, what each file's read gives, and which processes are gone. -/
structure Tick where
  names : Option (List String)
  read : String → FileRead
  retire : Nat → String → Entry → Bool

/-- The files of processes that are gone, as one ledger. -/
structure Retired where
  count : Nat
  names : List String
  high : Ledger
  charge : Int
  settled : Int

structure Fold where
  files : Dict String Entry
  retired : Retired
  flooded : Nat
  missing : Bool

structure Loop where
  files : Dict String Entry
  present : List String
  opened : Nat
  beyond : Nat

section Folds
variable (figures : Figures)

def Entry.isOpen (entry : Entry) : Bool := !entry.unmetered && entry.state ≠ some .done

/-- What a file's read says against the mark it had. -/
def judgeLedger (before : Option Entry) (pid : Nat) (ledger : Option Ledger) : Entry :=
  let high := (before.map Entry.high).getD emptyLedger
  let unmetered (why : Why) : Entry :=
    ⟨pid,(ledger.map Ledger.state).or (before.bind Entry.state),true,some why,high⟩
  match ledger with
  | none => unmetered .malformed
  | some ledger =>
    if ledger.metered = false then unmetered .unmetered
    else if before.isSome = true ∧ reached high ledger = false then unmetered .shrank
    else ⟨pid,some ledger.state,false,none,ledger⟩

def Loop.readName (loop : Loop) (tick : Tick) (name : String) (pid : Nat) (before : Option Entry) : Loop :=
  let judged (ledger : Option Ledger) : Loop :=
    let next := judgeLedger before pid ledger
    { files := loop.files.set name next
      present := name :: loop.present
      opened := loop.opened + (if next.isOpen = true then 1 else 0) - if (before.any Entry.isOpen) = true then 1 else 0
      beyond := loop.beyond }
  match readLedger (tick.read name) with
  | .gone => loop
  | .unchanged => { loop with present := name :: loop.present }
  | .bad => judged none
  | .text text => judged (parseChildLedger figures text)

def Loop.name (retired : List String) (tick : Tick) (loop : Loop) (name : String) : Loop :=
  match ledgerPid name with
  | none => loop
  | some pid =>
    if name ∈ retired then loop
    else match loop.files.get? name with
      | none =>
        if CHILD_LEDGER_MAX_FILES ≤ loop.opened then { loop with beyond := loop.beyond + 1 }
        else loop.readName figures tick name pid none
      | some before =>
        if before.unmetered = true then { loop with present := name :: loop.present }
        else loop.readName figures tick name pid (some before)

/-- The names of a listing, in order. -/
def Tick.listed (tick : Tick) : List String := (tick.names.getD []).mergeSort fun one other => decide (one ≤ other)

def Retired.add (retired : Retired) (name : String) (entry : Entry) : Retired where
  count := retired.count + 1
  names := name :: retired.names
  high := addLedger retired.high entry.high
  charge := saturatingAdd retired.charge (ledgerCharge entry.high)
  settled := saturatingAdd retired.settled (ledgerSettled entry.high)

/-- A tracked file that is not there any more. -/
def vanish (present : List String) (name : String) (entry : Entry) : Entry :=
  if name ∉ present ∧ entry.unmetered = false then { entry with unmetered := true, why := some .vanished } else entry

/-- A tracked file whose process is gone. -/
def Tick.isGone (tick : Tick) (name : String) (entry : Entry) : Bool := !entry.unmetered && tick.retire entry.pid name entry

def foldChildLedgers (tick : Tick) (prev : Fold) : Fold :=
  let start : Loop := ⟨prev.files,[],(prev.files.values.filter Entry.isOpen).length,0⟩
  let loop := tick.listed.foldl (Loop.name figures prev.retired.names tick) start
  let files := loop.files.mapValues (vanish loop.present)
  { files := files.filter fun name entry => !tick.isGone name entry
    retired := (files.entries.filter fun entry => tick.isGone entry.1 entry.2).foldl
      (fun retired entry => retired.add entry.1 entry.2) prev.retired
    flooded := max prev.flooded loop.beyond
    missing := tick.names.isNone }

namespace Fold

/-- Before the first fold. -/
def initial : Fold := ⟨Dict.empty,⟨0,[],emptyLedger,0,0⟩,0,false⟩

/-- Every file's mark and the retired ones', in one ledger: its totals, rows and counters are the fold's. -/
def sum (fold : Fold) : Ledger := (fold.files.values.map Entry.high).foldl addLedger fold.retired.high

/-- The rows, that of the calls without a model last. -/
def rows (fold : Fold) : List LedgerRow :=
  fold.sum.rows.filter (fun row => row.key ≠ "") ++ fold.sum.rows.filter fun row => row.key = ""

def processes (fold : Fold) : Nat := fold.files.keys.length + fold.flooded + fold.retired.count

def unmetered (fold : Fold) : Nat := fold.flooded + (fold.files.values.filter Entry.unmetered).length

def settledMicros (fold : Fold) : Int :=
  (fold.files.values.map fun entry => ledgerSettled entry.high).foldl saturatingAdd fold.retired.settled

end Fold

end Folds

end PiDispatch.UsageMeter
