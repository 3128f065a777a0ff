import PiDispatch.HeldReplies
import PiDispatch.LateForge

/-! What a parked run's held replies become: the take inside the park, which turns the first reply of its kind into the
one resumed job and answers the rest with one comment, and the settle at the final outcome, its backstop. -/
namespace PiDispatch.HeldSettle
open Kernel HeldReplies
open LateForge (Job Ending Thrown isFinalOutcome mismatched strictlyEqual runIdOf QUEUE)

def HELD_LOOKBACK_MS : Nat := 5 * 60 * 1000

def HELD_EXTRA_REPLY : String :=
  "This run was waiting for one answer and took the first reply it was given. If this comment adds to it, comment again once the run has replied."

def HELD_RESUME_FAILED_REPLY : String :=
  "This run was waiting for an answer and could not start from the reply it was given. Comment again to answer it."

/-- A held reply as the close returns it. -/
structure Reply where
  id : List Char
  at' : Instant
  fallback : Json

/-- The host's queues, by their names, and the shared one. -/
structure Queues where
  host : Option (String → Option String)
  shared : Option String

structure Config where
  parse : List Char → Option Json
  queues : Queues

/-- How a close goes: it answers, or its answer is lost, before its effect or after it. -/
inductive Closing
  | answers
  | fails
  | forgets
  deriving DecidableEq

inductive Enqueued
  | started
  | deduplicated (survivingJobId : Option String)
  | threw
  deriving DecidableEq

inductive Taken
  | here
  | other
  deriving DecidableEq

structure Counts where
  resumed : Nat
  answered : Nat
  dropped : Nat
  taken : Option Taken
  deriving DecidableEq

def Counts.none : Counts := ⟨0,0,0,Option.none⟩

/-- What a call does outside its store. -/
inductive Deed
  | enqueue (queue : String) (kind : Option Json) (reply : Reply)
  | comment (text : String)

structure Result where
  outcome : String
  reason : Option String

def isParkedOutcome (result : Option Result) : Bool :=
  result.any fun result => result.outcome = "completed" && result.reason = some "awaiting-input"

section Calls

variable (config : Config)

def isObject : Json → Bool
  | .object _ | .array _ => true
  | _ => false

def entriesOf (list : List HeldEntry) : List Reply :=
  list.filterMap fun entry => ((config.parse entry.fallback).filter isObject).map fun fallback =>
    ⟨entry.id,entry.at',fallback⟩

def closeHeld (closing : Closing) (store : HeldReplies.Store) : Option (List Reply × Bool) × HeldReplies.Store :=
  match closing with
  | .answers => (some (entriesOf config (CLOSE_SCRIPT store).1.1,(CLOSE_SCRIPT store).1.2),(CLOSE_SCRIPT store).2)
  | .fails => (none,store)
  | .forgets => (none,(CLOSE_SCRIPT store).2)

/-- The queue, and the name it goes by. -/
def queueFor (name : String) : Option String × String :=
  match config.queues.host with
  | some host => if (QUEUE ++ "@").toList.isPrefixOf name.toList then (host name,name) else (config.queues.shared,QUEUE)
  | none => (config.queues.shared,QUEUE)

def sameTarget (fields data : Json) : Bool :=
  !mismatched fields data && strictlyEqual (fields.field? "flow") (data.field? "flow") &&
    strictlyEqual (fields.field? "command") (data.field? "command")

def isRecent (now : Instant) (reply : Reply) : Bool := reply.at' ≤ LateForge.maxSafe && now ≤ reply.at' + HELD_LOOKBACK_MS

/-- The reply that is tried: those before it name another target. -/
def tried (job : Job) (now : Instant) (entries : List Reply) : Option Reply :=
  (entries.filter (isRecent now)).find? fun reply => sameTarget reply.fallback job.data

/-- The run's own job, or its run where a recovery's original holds the window. -/
def isOwn (job : Job) (survivingJobId : Option String) : Bool :=
  survivingJobId = some job.id || survivingJobId = some (runIdOf job)

/-- What became of the reply that was tried. -/
def attempt (job : Job) (enqueued : Enqueued) : Option Taken :=
  match (queueFor config job.queueName).1,enqueued with
  | none,_ => none
  | some _,.started => some .here
  | some _,.deduplicated survivingJobId => if isOwn job survivingJobId then none else some .other
  | some _,.threw => none

def enqueueDeeds (job : Job) (reply : Reply) : List Deed :=
  match (queueFor config job.queueName).1 with
  | none => []
  | some queue => [.enqueue queue (job.data.field? "kind") reply]

/-- The take's body, on entries that a first close returned. -/
def start (job : Job) (now : Instant) (enqueued : Enqueued) (entries : List Reply) : Counts × List Deed :=
  let recent := entries.filter (isRecent now)
  let stale := entries.length - recent.length
  if recent.isEmpty then (⟨0,0,stale,none⟩,[])
  else
    let taken := (tried job now entries).bind fun _ => attempt config job enqueued
    let deeds := ((tried job now entries).map (enqueueDeeds config job)).getD []
    let rest := recent.length - if taken = some .here then 1 else 0
    let text := if taken.isSome then HELD_EXTRA_REPLY else HELD_RESUME_FAILED_REPLY
    (⟨if taken = some .here then 1 else 0,rest,stale,taken⟩,deeds ++ if 0 < rest then [.comment text] else [])

/-- What a call answers, what its close returned, and what it did. -/
structure Call where
  counts : Option Counts
  closed : Option (List Reply × Bool)
  deeds : List Deed

def settleHeld (job : Job) (result : Option Result) (error : Option Thrown) (afterTake : Bool) (closing : Closing)
    (now : Instant) (enqueued : Enqueued) (store : HeldReplies.Store) : Call × HeldReplies.Store :=
  if ¬LateForge.isTrue (job.data.field? "awaitInput") then (⟨none,none,[]⟩,store)
  else if ¬isFinalOutcome job ⟨result.map Result.reason,error⟩ then (⟨none,none,[]⟩,store)
  else if runIdOf job = "" then (⟨none,none,[]⟩,store)
  else match closeHeld config closing store with
    | (none,store) => (⟨none,none,[]⟩,store)
    | (some (entries,first),store) =>
      if first = false ∨ entries.isEmpty then (⟨some .none,some (entries,first),[]⟩,store)
      else if isParkedOutcome result && !afterTake then
        (⟨some (start config job now enqueued entries).1,some (entries,first),(start config job now enqueued entries).2⟩,store)
      else (⟨some ⟨0,0,entries.length,none⟩,some (entries,first),[]⟩,store)

def takeHeld (job : Job) (closing : Closing) (now : Instant) (enqueued : Enqueued) (store : HeldReplies.Store) : Call × HeldReplies.Store :=
  if ¬LateForge.isTrue (job.data.field? "awaitInput") then (⟨none,none,[]⟩,store)
  else if runIdOf job = "" then (⟨none,none,[]⟩,store)
  else match closeHeld config closing store with
    | (none,store) => (⟨none,none,[.comment HELD_RESUME_FAILED_REPLY]⟩,store)
    | (some (entries,first),store) =>
      if first = false then (⟨some .none,some (entries,first),[]⟩,store)
      else (⟨some (start config job now enqueued entries).1,some (entries,first),(start config job now enqueued entries).2⟩,store)

end Calls

/-- A call for a run that parked. -/
inductive Act
  | take (closing : Closing) (now : Instant) (enqueued : Enqueued)
  | settle (closing : Closing) (now : Instant) (enqueued : Enqueued)

/-- The run's held replies, and whether its take has run. -/
structure State where
  store : HeldReplies.Store
  took : Bool

def parked : Result := ⟨"completed",some "awaiting-input"⟩

def step (config : Config) (job : Job) (act : Act) (state : State) : Call × State :=
  match act with
  | .take closing now enqueued =>
    ((takeHeld config job closing now enqueued state.store).1,
      ⟨(takeHeld config job closing now enqueued state.store).2,true⟩)
  | .settle closing now enqueued =>
    ((settleHeld config job (some parked) none state.took closing now enqueued state.store).1,
      ⟨(settleHeld config job (some parked) none state.took closing now enqueued state.store).2,state.took⟩)

end PiDispatch.HeldSettle
