import PiDispatch.ChildLedger

/-! The usage of a whole run on its exit line: the meter's totals beside those that its children have reached, and a row for
each model, the largest first, with the rest of them in one. A token cap stops calls and counts nothing, so it is left out. -/
namespace PiDispatch.UsageMeter
open Kernel JsonText

def MAX_NAMED_ROWS : Nat := 8

/-- What the children have reached, as the meter of the run holds it. -/
structure Children where
  totals : LedgerTotals
  processes : Nat
  unmetered : Nat
  unreported : Nat
  rows : List LedgerRow

structure RunMeter where
  meter : Meter
  children : Option Children
  piAiVersion : Option String

/-- An amount that can be held, or the largest one. -/
def carry (value : Rat) : Rat := if 0 ≤ value ∧ value ≤ Kernel.maxSafeInteger then value else Kernel.maxSafeInteger

def carryCount (value : Nat) : Nat := min value Kernel.maxSafeInteger

/-- Every field of a row at its high-water mark. -/
def raiseRow (held given : Row) : Row where
  calls := max held.calls (carryCount given.calls)
  input := max held.input (carry given.input)
  output := max held.output (carry given.output)
  cacheRead := max held.cacheRead (carry given.cacheRead)
  cacheWrite := max held.cacheWrite (carry given.cacheWrite)
  cacheWrite1h := max held.cacheWrite1h (carry given.cacheWrite1h)
  reasoning := max held.reasoning (carry given.reasoning)
  total := max held.total (carry given.total)
  cost := max held.cost (carry given.cost)
  unpriced := max held.unpriced (carryCount given.unpriced)
  providerBilled := max held.providerBilled (carryCount given.providerBilled)

/-- A row under its pair, or under none. -/
def LedgerRow.paired (given : LedgerRow) : LedgerRow :=
  match given.provider,given.model with
  | some provider,some model => ⟨some provider,some model,given.row⟩
  | _,_ => ⟨none,none,given.row⟩

def setRow (rows : List LedgerRow) (given : LedgerRow) : List LedgerRow :=
  let row := given.paired
  if (rows.any fun held => held.key = row.key) = true then
    rows.map fun held => if held.key = row.key then { held with row := raiseRow held.row row.row } else held
  else rows ++ [{ row with row := raiseRow emptyRow row.row }]

namespace RunMeter

def initial : RunMeter := ⟨.initial,none,none⟩

/-- The children's totals and rows only rise, but for the calls that are in flight. -/
def setChildren (run : RunMeter) (fold : Fold) : RunMeter :=
  let totals := fold.sum.totals
  let high (figure : LedgerTotals → Rat) : Rat :=
    max ((run.children.map fun held => figure held.totals).getD 0) (carry (figure totals))
  let count (figure : LedgerTotals → Nat) : Nat :=
    max ((run.children.map fun held => figure held.totals).getD 0) (carryCount (figure totals))
  { run with children := some {
      totals := {
        input := high LedgerTotals.input
        output := high LedgerTotals.output
        total := high LedgerTotals.total
        cost := high LedgerTotals.cost
        calls := count LedgerTotals.calls
        unresolved := carryCount totals.unresolved
        unpriced := count LedgerTotals.unpriced
        sessions := count LedgerTotals.sessions }
      processes := max ((run.children.map Children.processes).getD 0) (carryCount fold.processes)
      unmetered := carryCount fold.unmetered
      unreported := max ((run.children.map Children.unreported).getD 0) (carryCount fold.sum.costUnreported)
      rows := fold.rows.foldl setRow ((run.children.map Children.rows).getD []) } }

end RunMeter

/-- The totals on the exit line. -/
structure Snapshot where
  input : Rat
  output : Rat
  total : Rat
  cost : Rat
  rootTotal : Rat
  otherTotal : Rat
  looseTotal : Rat
  sessions : Nat
  calls : Nat
  unresolved : Nat
  unpriced : Nat
  childTotal : Option Rat
  childProcesses : Option Nat
  unmeteredChildren : Option Nat
  costUnreported : Nat

/-- The usage block on the exit line. -/
structure UsageBlock where
  v : Nat
  piAi : Option String
  truncated : Nat
  models : List NamedRow

/-- A child's row joins the run's of its pair; that of the calls without a model joins the rest. -/
def mergeChild (merged : List (String × NamedRow) × Row) (row : LedgerRow) : List (String × NamedRow) × Row :=
  match row.provider,row.model with
  | some provider,some model => (Meter.landed merged.1 provider model row.row,merged.2)
  | _,_ => (merged.1,foldRow merged.2 row.row)

def largestFirst (first second : NamedRow) : Bool := second.row.total ≤ first.row.total

namespace RunMeter

def snapshot (run : RunMeter) : Snapshot :=
  let child := (run.children.map Children.totals).getD ⟨0,0,0,0,0,0,0,0⟩
  { input := run.meter.input + child.input
    output := run.meter.output + child.output
    total := run.meter.total + child.total
    cost := run.meter.cost + child.cost
    rootTotal := run.meter.rootTotal
    otherTotal := run.meter.otherTotal
    looseTotal := run.meter.looseTotal
    sessions := run.meter.sessionIds.length + child.sessions
    calls := run.meter.calls + child.calls
    unresolved := run.meter.unresolved + child.unresolved
    unpriced := run.meter.unpriced + child.unpriced
    childTotal := run.children.map fun held => held.totals.total
    childProcesses := run.children.map Children.processes
    unmeteredChildren := run.children.map Children.unmetered
    costUnreported := run.meter.unreported + ((run.children.map Children.unreported).getD 0) }

/-- The named rows, those of the children among them, and beside them the calls without a model. -/
def merged (run : RunMeter) : List (String × NamedRow) × Row :=
  ((run.children.map Children.rows).getD []).foldl mergeChild (run.meter.byModel,run.meter.other)

def named (run : RunMeter) : List NamedRow := (run.merged.1.map Prod.snd).mergeSort largestFirst

/-- What is not in a row of its own. -/
def overflow (run : RunMeter) : Row :=
  (run.named.drop MAX_NAMED_ROWS).foldl (fun overflow named => foldRow overflow named.row) run.merged.2

def usageSnapshot (run : RunMeter) : Option UsageBlock :=
  if run.meter.calls + (run.children.map fun held => held.totals.calls).getD 0 = 0 then none
  else some {
    v := 1
    piAi := run.piAiVersion
    truncated := (run.named.drop MAX_NAMED_ROWS).length
    models := run.named.take MAX_NAMED_ROWS ++ if 0 < run.overflow.calls then [⟨"other","other",run.overflow⟩] else [] }

/-- Only a version with something in it is kept. -/
def setPiAiVersion (run : RunMeter) (version : String) : RunMeter :=
  if version ≠ "" then { run with piAiVersion := some version } else run

end RunMeter

/-- What the process of the run does to its meter. -/
inductive MeterAct
  | observe (seen : Option Nat)
  | settle (ctx : CallContext) (settled : Meter.Settled)
  | setChildren (fold : Fold)
  | setPiAiVersion (version : String)

/-- A stream is observed once, and only a call that was observed settles. -/
def RunMeter.step (root : Option String) (run : RunMeter) : MeterAct → RunMeter
  | .observe seen =>
    if seen.any (fun id => id ∈ run.meter.observed) then run else { run with meter := run.meter.observe seen }
  | .settle ctx settled =>
    if run.meter.unresolved = 0 then run else { run with meter := run.meter.settle root ctx settled }
  | .setChildren fold => run.setChildren fold
  | .setPiAiVersion version => run.setPiAiVersion version

/-- The meter of a run, with the fold of its children's files. -/
structure RunState where
  run : RunMeter
  fold : Fold

def RunState.initial : RunState := ⟨.initial,.initial⟩

inductive RunAct
  | observe (seen : Option Nat)
  | settle (ctx : CallContext) (settled : Meter.Settled)
  | children (tick : Tick)
  | version (version : String)

/-- One step of a run: a fold is handed to the meter as it is made. -/
def RunState.step (figures : Figures) (root : Option String) (state : RunState) : RunAct → RunState
  | .observe seen => { state with run := state.run.step root (.observe seen) }
  | .settle ctx settled => { state with run := state.run.step root (.settle ctx settled) }
  | .children tick =>
    let fold := foldChildLedgers figures tick state.fold
    ⟨state.run.step root (.setChildren fold),fold⟩
  | .version version => { state with run := state.run.step root (.setPiAiVersion version) }

end PiDispatch.UsageMeter
