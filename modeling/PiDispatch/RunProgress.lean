import PiDispatch.RunnerInbox
import PiDispatch.TranscriptText

/-! Where a running job is, from the lines of its transcript (`run-progress.mjs`): each tool call opens a step, its result
closes it, and a line from before the attempt, or one that is read again, counts for neither. -/
namespace PiDispatch.RunProgress
open Kernel Utf16

def PROGRESS_OPEN_MAX : Nat := 256

def PROGRESS_RECENT_MAX : Nat := 20

def PROGRESS_RUNNING_MAX : Nat := 8

def PROGRESS_PHASES_MAX : Nat := 32

def PROGRESS_PHASE_MAX : Nat := 64

def PROGRESS_NOTE_MAX : Nat := 200

def PROGRESS_COUNT_MAX : Nat := 1000000

def PROGRESS_ID_MAX : Nat := 128

def REPORT_PROGRESS_TOOL : String := "report_progress"

def PROGRESS_RECORD_TOOLS : List String :=
  ["read","bash","edit","write","grep","find","ls","await_human_input","report_progress"]

/-- The record's buckets. -/
def BUCKETS : List String := PROGRESS_RECORD_TOOLS ++ ["other"]

/-- The marks a recovered run's runner puts on a result. -/
inductive Mark
  | replayed
  | interrupted
  | notStarted
  deriving DecidableEq

structure Report where
  name : Units
  done : Option Nat
  total : Option Nat
  note : Option Units

structure Step where
  tool : Units
  bucket : String
  since : Nat
  phase : Option Report

inductive Status
  | ok
  | error
  | interrupted
  deriving DecidableEq

structure Recent where
  tool : Units
  status : Status
  durationMs : Option Nat
  at' : Nat

structure Phase where
  index : Nat
  done : Option Nat
  total : Option Nat

structure Prior where
  turns : Nat
  steps : Nat
  seen : Bool

inductive Outcome
  | completed
  | policy
  | failed
  | unknown
  deriving DecidableEq

structure Progress where
  startedAt : Nat
  updatedAt : Nat
  version : Nat
  turn : Nat
  steps : Nat
  failed : Nat
  interrupted : Nat
  replayed : Nat
  recoveryInterrupted : Nat
  recoveryNotStarted : Nat
  toolMs : Nat
  longestStepMs : Nat
  longestInterruptedMs : Nat
  tools : Dict String Nat
  openSteps : Dict Units Step
  recent : List Recent
  phases : List Units
  phase : Option Phase
  note : Option Units
  prior : Prior
  priorPhaseCalls : Dict Units Report
  ended : Bool
  outcome : Option Outcome
  anomalies : Nat
  evicted : Nat
  phaseRefused : Nat
  resets : Nat

/-- `makeProgress`: an attempt that has seen no line. -/
def makeProgress (now : Nat) : Progress where
  startedAt := now
  updatedAt := now
  version := 0
  turn := 0
  steps := 0
  failed := 0
  interrupted := 0
  replayed := 0
  recoveryInterrupted := 0
  recoveryNotStarted := 0
  toolMs := 0
  longestStepMs := 0
  longestInterruptedMs := 0
  tools := .empty
  openSteps := .empty
  recent := []
  phases := []
  phase := none
  note := none
  prior := ⟨0,0,false⟩
  priorPhaseCalls := .empty
  ended := false
  outcome := none
  anomalies := 0
  evicted := 0
  phaseRefused := 0
  resets := 0

section Reading
variable {N : Type} (safe? : N → Option Int) (redact : Units → Option Units)

/-- A value is the string. -/
def said (value : Option (JsonValue N)) (word : String) : Bool :=
  match value with
  | some (.string units) => units = spell word
  | _ => false

def isCount (number : Int) : Bool := 0 ≤ number && number ≤ maxSafeInteger

def countOf (value : Option (JsonValue N)) : Option Nat :=
  match value with
  | some (.number number) => ((safe? number).filter isCount).map Int.toNat
  | _ => none

def isCallId (id : Units) : Bool := id ≠ [] && id.length ≤ PROGRESS_ID_MAX

def callIdOf (value : Option (JsonValue N)) : Option Units :=
  match value with
  | some (.string units) => if isCallId units then some units else none
  | _ => none

def runsNoTools (message : JsonValue N) : Bool :=
  said (message.field? (spell "stopReason")) "error" || said (message.field? (spell "stopReason")) "aborted"

def isTurn (message : JsonValue N) : Bool := !said (message.field? (spell "stopReason")) "error"

def recoveryMarkOf (message : JsonValue N) : Option Mark :=
  let mark := (message.field? (spell "details")).bind fun details => details.field? (spell "piDispatchRecovery")
  if said mark "replayed" then some .replayed
  else if said mark "interrupted" then some .interrupted
  else if said mark "not-started" then some .notStarted
  else none

def recordToolOf (name : Option (JsonValue N)) : String :=
  (PROGRESS_RECORD_TOOLS.find? fun tool => said name tool).getD "other"

def contentOf (message : JsonValue N) : Option (List (JsonValue N)) :=
  match message.field? (spell "content") with
  | some (.array items) => some items
  | _ => none

def isLiveToolUnit (unit : UInt16) : Bool :=
  let code := unit.toNat
  48 ≤ code && code ≤ 57 || 65 ≤ code && code ≤ 90 || 97 ≤ code && code ≤ 122 || code ∈ [95,46,58,45]

/-- `LIVE_TOOL_RE`. -/
def isLiveTool (name : Units) : Bool := 1 ≤ name.length && name.length ≤ 64 && name.all isLiveToolUnit

def displayTool (name : Option (JsonValue N)) : Units :=
  match name with
  | some (.string units) => if isLiveTool units ∧ redact units = some units then units else spell "?"
  | _ => spell "?"

/-- None where the redactor threw. -/
def modelText (text : Units) (max : Nat) : Option Units :=
  (redact text).map fun shown => (LiveTranscript.clip (ConsoleAudit.escapeControls shown) max).1

/-- An optional count: none where it is no count in the range. -/
def optionalCount (least : Nat) (value : Option (JsonValue N)) : Option (Option Nat) :=
  match value with
  | none => some none
  | some value =>
    match countOf safe? (some value) with
    | some number => if least ≤ number ∧ number ≤ PROGRESS_COUNT_MAX then some (some number) else none
    | none => none

def reportName (name : Option (JsonValue N)) : Option Units :=
  match name with
  | some (.string units) =>
    if 1 ≤ (points units).length ∧ (points units).length ≤ PROGRESS_PHASE_MAX ∧ ¬units.all RunnerInbox.isBlank then
      (modelText redact units PROGRESS_PHASE_MAX).filter fun shown => shown ≠ []
    else none
  | _ => none

def reportNote (note : Option (JsonValue N)) : Option (Option Units) :=
  match note with
  | none => some none
  | some (.string units) =>
    if (points units).length ≤ PROGRESS_NOTE_MAX then
      if units = [] then some none else (modelText redact units PROGRESS_NOTE_MAX).map some
    else none
  | _ => none

def phaseArgsOf (args : Option (JsonValue N)) : Option Report := do
  let args ← args
  let name ← reportName redact (args.field? (spell "phase"))
  let done ← optionalCount safe? 0 (args.field? (spell "done"))
  let total ← optionalCount safe? 1 (args.field? (spell "total"))
  let note ← reportNote redact (args.field? (spell "note"))
  if done.any fun done => total.any fun total => total < done then none else some ⟨name,done,total,note⟩

end Reading

namespace Progress

def touch (state : Progress) (now : Nat) : Progress :=
  { state with version := state.version + 1, updatedAt := now }

def pushRecent (state : Progress) (entry : Recent) : Progress :=
  let recent := state.recent ++ [entry]
  { state with recent := recent.drop (recent.length - PROGRESS_RECENT_MAX) }

/-- A new name past the cap leaves the current phase as it was. -/
def applyPhase (state : Progress) (report : Report) (withNote : Bool) : Progress :=
  let note := if withNote then report.note else state.note
  match state.phases.idxOf? report.name with
  | some index => { state with phase := some ⟨index,report.done,report.total⟩, note := note }
  | none =>
    if state.phases.length ≥ PROGRESS_PHASES_MAX then { state with phaseRefused := state.phaseRefused + 1 }
    else { state with
      phases := state.phases ++ [report.name]
      phase := some ⟨state.phases.length,report.done,report.total⟩
      note := note }

end Progress

section Calls
variable {K V : Type} [DecidableEq K]

/-- `delete` of the first key. -/
def dropFirst (calls : Dict K V) : Dict K V :=
  match calls.keys.head? with
  | some key => calls.erase key
  | none => calls

/-- `while` more than `most` are kept, the first is dropped. -/
def dropPast (most : Nat) : Nat → Dict K V → Dict K V
  | 0,calls => calls
  | rounds + 1,calls => if calls.entries.length > most then dropPast most rounds (dropFirst calls) else calls

end Calls

section Consume
variable {N : Type} (safe? : N → Option Int) (redact : Units → Option Units) (phasesEnabled : Bool)

def priorPart (calls : Dict Units Report) (part : JsonValue N) : Dict Units Report :=
  if said (part.field? (spell "type")) "toolCall" ∧ said (part.field? (spell "name")) REPORT_PROGRESS_TOOL then
    match callIdOf (part.field? (spell "id")),phaseArgsOf safe? redact (part.field? (spell "arguments")) with
    | some id,some report =>
      let kept := calls.set id report
      dropPast PROGRESS_OPEN_MAX kept.entries.length kept
    | _,_ => calls
  else calls

def consumePrior (state : Progress) (message : JsonValue N) : Progress :=
  let prior := state.prior
  if said (message.field? (spell "role")) "assistant" then
    let next := { state with prior := ⟨if isTurn message then prior.turns + 1 else prior.turns,prior.steps,true⟩ }
    match contentOf message with
    | some content =>
      if phasesEnabled ∧ ¬runsNoTools message then
        { next with priorPhaseCalls := content.foldl (priorPart safe? redact) state.priorPhaseCalls }
      else next
    | none => next
  else if said (message.field? (spell "role")) "toolResult" then
    let next := { state with prior := ⟨prior.turns,prior.steps + 1,true⟩ }
    match callIdOf (message.field? (spell "toolCallId")) with
    | some id =>
      match state.priorPhaseCalls.get? id with
      | some report =>
        let taken := { next with priorPhaseCalls := state.priorPhaseCalls.erase id }
        if message.field? (spell "isError") matches some (.bool false) then taken.applyPhase report false else taken
      | none => next
    | none => next
  else state

/-- The id under which a call opens a step. -/
def acceptedId (state : Progress) (dead : Bool) (part : JsonValue N) : Option Units :=
  (callIdOf (part.field? (spell "id"))).filter fun id => !dead && (state.openSteps.get? id).isNone

def openPart (dead : Bool) (at' : Nat) (state : Progress) (part : JsonValue N) : Progress :=
  if said (part.field? (spell "type")) "toolCall" then
    match acceptedId state dead part with
    | some id =>
      let name := part.field? (spell "name")
      let reports := phasesEnabled && said name REPORT_PROGRESS_TOOL
      let report := if reports then phaseArgsOf safe? redact (part.field? (spell "arguments")) else none
      let refused := if reports && report.isNone then state.phaseRefused + 1 else state.phaseRefused
      let calls := state.openSteps.set id ⟨displayTool redact name,recordToolOf name,at',report⟩
      if calls.entries.length > PROGRESS_OPEN_MAX then
        { state with
          phaseRefused := refused
          openSteps := dropFirst calls
          evicted := state.evicted + 1
          anomalies := state.anomalies + 1 }
      else { state with phaseRefused := refused, openSteps := calls }
    | none => { state with anomalies := state.anomalies + 1 }
  else state

/-- The open step that a result is for. -/
def answered (state : Progress) (message : JsonValue N) : Option (Units × Step) :=
  (callIdOf (message.field? (spell "toolCallId"))).bind fun id => (state.openSteps.get? id).map fun step => (id,step)

def closeStep (state : Progress) (id : Units) (step : Step) (message : JsonValue N) (ts : Nat) : Progress :=
  let isError := message.field? (spell "isError") matches some (.bool true)
  let durationMs := countOf safe? (message.field? (spell "durationMs"))
  let next := { state with
    openSteps := state.openSteps.erase id
    steps := state.steps + 1
    failed := if isError then state.failed + 1 else state.failed
    toolMs := durationMs.elim state.toolMs fun duration => min maxSafeInteger (state.toolMs + duration)
    longestStepMs := durationMs.elim state.longestStepMs (max state.longestStepMs)
    tools := state.tools.set step.bucket ((state.tools.get? step.bucket).getD 0 + 1) }
  let closed := next.pushRecent ⟨step.tool,if isError then .error else .ok,durationMs,ts⟩
  match step.phase with
  | some report =>
    if message.field? (spell "isError") matches some (.bool false) then closed.applyPhase report true else closed
  | none => closed

/-- What a recovery mark counts, the step under its id closed without one. -/
def closeMarked (state : Progress) (found : Option (Units × Step)) (mark : Mark) (message : JsonValue N) (ts : Nat) : Progress :=
  let closed := { state with openSteps := found.elim state.openSteps fun step => state.openSteps.erase step.1 }
  let entry : Recent :=
    ⟨found.elim (displayTool redact (message.field? (spell "toolName"))) fun step => step.2.tool,.interrupted,none,ts⟩
  match mark with
  | .replayed => { closed with replayed := closed.replayed + 1 }
  | .interrupted =>
    { closed with interrupted := closed.interrupted + 1, recoveryInterrupted := closed.recoveryInterrupted + 1 }.pushRecent entry
  | .notStarted =>
    { closed with interrupted := closed.interrupted + 1, recoveryNotStarted := closed.recoveryNotStarted + 1 }.pushRecent entry

/-- The flags that the tailer gives with a line. -/
structure Flags where
  prior : Bool
  replay : Bool

/-- One parsed line, its time and flags, and what the clock says. -/
structure Line (N : Type) where
  parsed : JsonValue N
  ts : Int
  flags : Flags
  now : Nat

/-- What has the fields of an object. -/
def isObject : JsonValue N → Bool
  | .object _ => true
  | .array _ => true
  | _ => false

/-- The message of a line that has one. -/
def messageOf (parsed : JsonValue N) : Option (JsonValue N) :=
  if said (parsed.field? (spell "type")) "message" then (parsed.field? (spell "message")).filter isObject else none

def consume (state : Progress) (line : Line N) : Progress :=
  if state.ended then state
  else
    match messageOf line.parsed with
    | none => state
    | some message =>
      let at' := if isCount line.ts then line.ts.toNat else line.now
      if line.flags.prior then (consumePrior safe? redact phasesEnabled state message).touch line.now
      else if said (message.field? (spell "role")) "assistant" then
        if line.flags.replay then state
        else
          let counted := if isTurn message then { state with turn := state.turn + 1 } else state
          let opened := ((contentOf message).getD []).foldl (openPart safe? redact phasesEnabled (runsNoTools message) at') counted
          opened.touch line.now
      else if said (message.field? (spell "role")) "toolResult" then
        let found := answered state message
        match recoveryMarkOf message with
        | some mark =>
          if line.flags.replay ∧ found.isNone then state
          else (closeMarked redact state found mark message at').touch line.now
        | none =>
          match found with
          | some (id,step) => (closeStep safe? state id step message at').touch line.now
          | none => if line.flags.replay then state else { state with anomalies := state.anomalies + 1 }
      else state

def reset (state : Progress) : Progress := { state with resets := state.resets + 1 }

/-- What the tailer hands on. -/
inductive Event (N : Type)
  | line (line : Line N)
  | reset

def step (state : Progress) : Event N → Progress
  | .line line => consume safe? redact phasesEnabled state line
  | .reset => reset state

def run (state : Progress) (events : List (Event N)) : Progress := events.foldl (step safe? redact phasesEnabled) state

end Consume

section Ends

def interrupt (now : Nat) (state : Progress) (step : Step) : Progress :=
  let next := { state with interrupted := state.interrupted + 1 }.pushRecent ⟨step.tool,.interrupted,none,now⟩
  let ran := now - step.since
  if ran ≤ maxSafeInteger ∧ ran > next.longestInterruptedMs then { next with longestInterruptedMs := ran } else next

def outcomeOf (result : String) : Outcome :=
  if result = "completed" then .completed
  else if result = "policy" then .policy
  else if result = "failed" then .failed
  else .unknown

/-- The end of the attempt, once. -/
def finalSnapshot (state : Progress) (result : String) (now : Nat) : Progress :=
  if state.ended then state
  else
    let closed := state.openSteps.values.foldl (interrupt now) state
    { closed with openSteps := .empty, ended := true, outcome := some (outcomeOf result) }.touch now

structure Snapshot where
  turn : Nat
  steps : Nat
  failed : Nat
  interrupted : Nat
  running : List (Units × Nat)
  recent : List Recent
  phase : Option Phase
  phases : List Units
  note : Option Units
  prior : Option (Nat × Nat)
  startedAt : Nat
  updatedAt : Nat
  ended : Bool
  outcome : Option Outcome
  replayed : Option Nat

def snapshot (state : Progress) : Snapshot where
  turn := state.turn
  steps := state.steps
  failed := state.failed
  interrupted := state.interrupted
  running :=
    if state.ended then []
    else (state.openSteps.values.drop (state.openSteps.values.length - PROGRESS_RUNNING_MAX)).map fun step => (step.tool,step.since)
  recent := state.recent
  phase := state.phase
  phases := state.phases
  note := state.note
  prior := if state.prior.seen then some (state.prior.turns,state.prior.steps) else none
  startedAt := state.startedAt
  updatedAt := state.updatedAt
  ended := state.ended
  outcome := state.outcome
  replayed := if state.replayed > 0 then some state.replayed else none

structure Summary where
  counts : List (String × Nat)
  lastPhaseIndex : Option Nat
  tools : List (String × Nat)

def summary (state : Progress) : Summary where
  counts :=
    [("turns",state.turn),("steps",state.steps),("failed",state.failed),("interrupted",state.interrupted),
      ("replayed",state.replayed),("toolMs",state.toolMs),("longestStepMs",state.longestStepMs),
      ("longestInterruptedMs",state.longestInterruptedMs),("phasesDeclared",state.phases.length),
      ("recoveryInterrupted",state.recoveryInterrupted),("recoveryNotStarted",state.recoveryNotStarted)].filter
      fun count => 0 < count.2 && count.2 ≤ maxSafeInteger
  lastPhaseIndex := if state.phases.length > 0 then state.phase.map Phase.index else none
  tools := (BUCKETS.map fun tool => (tool,(state.tools.get? tool).getD 0)).filter fun counted => 0 < counted.2

end Ends

end PiDispatch.RunProgress
