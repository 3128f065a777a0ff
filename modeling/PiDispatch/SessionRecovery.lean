import Mathlib.Logic.Basic

/-! The container's half of a durable run: the tool calls that a crash left without an answer, which of them are run again,
and the transcript that a recovery leaves, whole or cut off after some of its answers. Arguments, contents and details
of tools are opaque. -/
namespace PiDispatch.SessionRecovery

def REPLAY_TOOLS : List String := ["read","ls","grep","find","edit","write"]
def REPORT_PROGRESS_TOOL : String := "report_progress"
def REPORT_PROGRESS_FACTORY : String := "job-report-progress"
def INLINE_REPORT_PROGRESS : String := "<inline:" ++ REPORT_PROGRESS_FACTORY ++ ">"
def BUILTIN_PATH_PREFIX : String := "builtin:"

def INTERRUPTED_TEXT : String :=
  "Interrupted by a crash: the effect may or may not have happened. Check before repeating."

def NOT_STARTED_TEXT : String :=
  "Not run: the job crashed while an earlier call in this message was running. Run it again if it is still needed."

variable {D : Type}

/-- A call of a tool; without a name where that is no string. -/
structure ToolCall (D : Type) where
  id : String
  name : Option String
  arguments : D

inductive Part (D : Type)
  | toolCall (call : ToolCall D)
  | other

/-- What `details` says of a recovered answer. -/
inductive Label
  | replayed
  | interrupted
  | notStarted
  deriving DecidableEq

inductive Content (D : Type)
  | text (text : String)
  | given (content : Option D)

structure ToolResult (D : Type) where
  toolCallId : String
  toolName : Option String
  content : Content D
  details : Option D
  label : Option Label
  usage : Option D
  isError : Bool
  durationMs : Option Nat
  timestamp : Int

/-- A message of a transcript; an assistant's content may be no list of parts. -/
inductive Message (D : Type)
  | assistant (stopReason : String) (content : Option (List (Part D)))
  | toolResult (result : ToolResult D)
  | system
  | other

def isUsableAssistant : Message D → Bool
  | .assistant stopReason _ => stopReason ≠ "error" && stopReason ≠ "aborted"
  | _ => false

def toolCalls : Message D → List (ToolCall D)
  | .assistant _ (some parts) => parts.filterMap fun part =>
    match part with
    | .toolCall call => some call
    | .other => none
  | _ => []

/-- The last usable assistant message, with what follows it. -/
def lastUsable : List (Message D) → Option (Message D × List (Message D))
  | [] => none
  | message :: rest => match lastUsable rest with
    | some found => some found
    | none => if isUsableAssistant message = true then some (message,rest) else none

def resultOf : Message D → Option (ToolResult D)
  | .toolResult result => some result
  | _ => none

/-- A tail of tool results and system messages leaves the batch open. -/
def isTail : Message D → Bool
  | .toolResult _ | .system => true
  | _ => false

/-- The last usable assistant message and its calls without an answer, in the order it issued them. -/
def findOrphans (messages : List (Message D)) : Option (Message D) × List (ToolCall D) :=
  match lastUsable messages with
  | none => (none,[])
  | some (assistant,tail) =>
    if tail.all isTail = true then
      let answered := (tail.filterMap resultOf).map ToolResult.toolCallId
      (some assistant,(toolCalls assistant).filter fun call => call.id ∉ answered)
    else (some assistant,[])

/-- A registered tool, with what its source info says. -/
structure Tool where
  name : String
  source : Option String
  path : Option String

structure Registry where
  tools : List Tool
  active : List String

inductive ReplayClass
  | replay
  | hold
  deriving DecidableEq

/-- Whether running a call again is known to be safe. -/
def replayClass (registry : Registry) (call : ToolCall D) : ReplayClass :=
  match call.name with
  | none => .hold
  | some name =>
    if name ∉ registry.active then .hold
    else match registry.tools.find? fun tool => tool.name = name with
      | none => .hold
      | some tool =>
        if name ∈ REPLAY_TOOLS ∧ tool.source = some "builtin" ∧ tool.path = some (BUILTIN_PATH_PREFIX ++ name) then .replay
        else if name = REPORT_PROGRESS_TOOL ∧ tool.path = some INLINE_REPORT_PROGRESS then .replay
        else .hold

/-- What a call that is run again gives. -/
structure Outcome (D : Type) where
  content : Option D
  details : Option D
  usage : Option D
  isError : Bool
  durationMs : Option Nat

/-- What is outside of a recovery: running a call, which may throw, and the clock. -/
structure Outside (D : Type) where
  runToolCall : ToolCall D → List (Message D) → Option (Outcome D)
  now : List (Message D) → Int

structure Counts where
  orphans : Nat
  replayed : Nat
  interrupted : Nat
  notStarted : Nat
  deriving DecidableEq

/-- How a recovery ends. -/
inductive Ended
  | resolved (counts : Counts)
  | unanswered (left : Nat)
  | thrown
  deriving DecidableEq

section Recover
variable (registry : Registry) (outside : Outside D)

def textResult (messages : List (Message D)) (call : ToolCall D) (text : String) (label : Label) : Message D :=
  .toolResult ⟨call.id,call.name,.text text,none,some label,none,true,none,outside.now messages⟩

def replayedResult (messages : List (Message D)) (call : ToolCall D) (outcome : Outcome D) : Message D :=
  .toolResult ⟨call.id,call.name,.given outcome.content,outcome.details,some .replayed,outcome.usage,outcome.isError,
    outcome.durationMs,outside.now messages⟩

/-- The answers appended to a transcript, in order, and the counts, unless a call threw. -/
def answerOrphans (messages : List (Message D)) (held : Bool) (index : Nat) (counts : Counts) :
    List (ToolCall D) → List (Message D) × Option Counts
  | [] => ([],some counts)
  | call :: rest =>
    if held = false ∧ replayClass registry call = .replay then
      match outside.runToolCall call messages with
      | none => ([],none)
      | some outcome =>
        let answer := replayedResult outside messages call outcome
        let (more,counts) := answerOrphans (messages ++ [answer]) held (index + 1)
          { counts with replayed := counts.replayed + 1 } rest
        (answer :: more,counts)
    else if held = false ∧ index = 0 then
      let answer := textResult outside messages call INTERRUPTED_TEXT .interrupted
      let (more,counts) := answerOrphans (messages ++ [answer]) true (index + 1)
        { counts with interrupted := counts.interrupted + 1 } rest
      (answer :: more,counts)
    else
      let answer := textResult outside messages call NOT_STARTED_TEXT .notStarted
      let (more,counts) := answerOrphans (messages ++ [answer]) true (index + 1)
        { counts with notStarted := counts.notStarted + 1 } rest
      (answer :: more,counts)

/-- Every orphan answered and persisted, and how that ended. -/
def recoverSession (messages : List (Message D)) : List (Message D) × Ended :=
  let orphans := (findOrphans messages).2
  let counts : Counts := ⟨orphans.length,0,0,0⟩
  if orphans = [] then ([],.resolved counts)
  else match answerOrphans registry outside messages false 0 counts orphans with
    | (answers,none) => (answers,.thrown)
    | (answers,some counts) =>
      let left := (findOrphans (messages ++ answers)).2.length
      (answers,if 0 < left then .unanswered left else .resolved counts)

end Recover

/-- A recovery that crashes once it has persisted so many answers. -/
structure Attempt (D : Type) where
  outside : Outside D
  persisted : Nat

/-- The transcript that crashed recoveries leave, one after another. -/
def attempted (registry : Registry) (attempts : List (Attempt D)) (messages : List (Message D)) : List (Message D) :=
  attempts.foldl (fun messages attempt =>
    messages ++ ((recoverSession registry attempt.outside messages).1).take attempt.persisted) messages

/-- The transcript that a recovery leaves. -/
def finished (registry : Registry) (outside : Outside D) (messages : List (Message D)) : List (Message D) :=
  messages ++ (recoverSession registry outside messages).1

end PiDispatch.SessionRecovery
