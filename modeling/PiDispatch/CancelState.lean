import PiDispatch.Kernel.Dict
import PiDispatch.Kernel.Service

/-! The removal of a waiting job: a held one's hold hash, its place in the index of held jobs and its lease first, then the
job. Each command may fail before or after it took effect, may be sent again, and others may do anything between two. -/
namespace PiDispatch.CancelState
open Kernel

/-- A job of the queue, with what its removal reads of it. It is locked while a worker runs it, and as a scheduler's next
run. -/
structure Job where
  state : String
  locked : Bool
  attemptsMade : Int
  kind : Option String
  purpose : Option String
  deriving DecidableEq

/-- What a waiting job's removal may change. -/
structure Store where
  hold : Dict String String
  held : List String
  leases : Dict String String
  job : Option Job
  deriving DecidableEq

/-- The keys beside them, which are written as they can be. -/
inductive Aside
  | touchPending
  | touchExpire
  | touchDrop
  | touchWrite
  | deferRecord
  | modelAttempt
  deriving DecidableEq

inductive Command
  | hgetall
  | getJob
  | getState
  | delHold
  | hexists
  | srem
  | getLease (dedupId : String)
  | delLease (dedupId : String)
  | remove
  | guard (job : Option Job)
  | aside (key : Aside)
  deriving DecidableEq

@[reducible] def Command.Carrier : Command → Type
  | .hgetall => Dict String String
  | .getJob => Option Job
  | .getState => String
  | .hexists => Bool
  | .getLease _ => Option String
  | .guard _ => Option String
  | _ => Unit

def Command.isRead : Command → Bool
  | .hgetall | .getJob | .getState | .hexists | .getLease _ | .guard _ => true
  | _ => false

/-- An error's message. -/
abbrev Fault := String

abbrev Cancel : Signature := Fallible Command Command.Carrier Fault

abbrev Call (α : Type) := Program Cancel α

/-- Whose removal is asked for and by whom, and what is at hand for it. -/
structure Setting where
  jobId : String
  isAgent : Bool
  /-- The client can tell whether a hash has a field. -/
  hasHexists : Bool
  /-- There is a touch store, or an outbox for it. -/
  isTracked : Bool
  /-- The touch of the job's stop is well formed. -/
  isTouch : Job → Bool
  isQueueNamed : Bool
  /-- The caller's last check, which reads what it likes. -/
  guard : Option (Option Job → Store → Option String)
  /-- What the removal of a locked job throws. -/
  lockFault : Fault

section Commands

variable (setting : Setting)

def answer (store : Store) : (command : Command) → command.Carrier × Store
  | .hgetall => (store.hold,store)
  | .getJob => (store.job,store)
  | .getState => ((store.job.map Job.state).getD "unknown",store)
  | .delHold => ((),{ store with hold := .empty })
  | .hexists => ((store.hold.get? "since").isSome,store)
  | .srem => ((),{ store with held := store.held.filter fun jobId => jobId ≠ setting.jobId })
  | .getLease dedupId => (store.leases.get? dedupId,store)
  | .delLease dedupId => ((),{ store with leases := store.leases.erase dedupId })
  | .remove => ((),if store.job.any Job.locked then store else { store with job := none })
  | .guard job => (setting.guard.bind fun guard => guard job store,store)
  | .aside _ => ((),store)

/-- A command that the store itself refuses. -/
def refused (store : Store) : Command → Option Fault
  | .remove => if store.job.any Job.locked then some setting.lockFault else none
  | _ => none

/-- How a command fares: what others do before each sending of it that takes effect and is not answered, what they do
before the last one, and the error that it throws, if it is one. -/
structure Delivery where
  unanswered : List (Store → Store)
  meanwhile : Store → Store
  fault : Option Fault

/-- A command that was sent, the store before and after each time it took effect, and what became of it. -/
structure Sent where
  command : Command
  landings : List (Store × Store)
  reply : Except Fault command.Carrier

structure World where
  store : Store
  deliveries : List Delivery
  log : List Sent

def land (command : Command) : List (Store → Store) → Store → List (Store × Store) × Store
  | [],store => ([],store)
  | others :: rest,store =>
    let after := (answer setting (others store) command).2
    ((others store,after) :: (land command rest after).1,(land command rest after).2)

/-- A command as it fares next; past what is said of it, it is answered at once. -/
def serve (world : World) (command : Command) : Except Fault command.Carrier × World :=
  let delivery := world.deliveries.headD ⟨[],id,none⟩
  let landed := land setting command delivery.unanswered world.store
  let store := delivery.meanwhile landed.2
  match delivery.fault.or (refused setting store command) with
  | some fault => (.error fault,⟨store,world.deliveries.tail,⟨command,landed.1,.error fault⟩ :: world.log⟩)
  | none =>
    let reply := answer setting store command
    (.ok reply.1,⟨reply.2,world.deliveries.tail,⟨command,landed.1 ++ [(store,reply.2)],.ok reply.1⟩ :: world.log⟩)

end Commands

def isWorkload (job : Job) : Bool :=
  job.kind ≠ some "question-grouping" && job.purpose ∉ [some "zero-touch-grouping",some "answer-draft"]

def attemptsOf (job : Job) : Nat := job.attemptsMade.toNat

/-- A field that a script would take for true. -/
def truthy (hash : Dict String String) (field : String) : Option String := (hash.get? field).filter fun value => value ≠ ""

inductive Removal
  | ok (attemptsMade : Nat) (touchWarning : Bool)
  | invalid (reason : String) (cleared : Bool)
  deriving DecidableEq

section Programs

variable (setting : Setting)

def touchBegin (job : Job) : Call Unit :=
  if ¬setting.isTouch job then .done ()
  else @Program.issue Cancel _ (.aside .touchPending) fun
    | .error _ => .done ()
    | .ok () => @Program.issue Cancel _ (.aside .touchExpire) fun _ => .done ()

def touchAbort (job : Job) : Call Unit :=
  if ¬setting.isTouch job then .done () else @Program.issue Cancel _ (.aside .touchDrop) fun _ => .done ()

def touchApplied (job : Job) : Call Bool :=
  if ¬setting.isTouch job then .done false
  else @Program.issue Cancel _ (.aside .touchWrite) fun reply => .done reply.toBool

/-- The job's removal, its touch around it: whether the touch was lost, or what the removal threw. -/
def trackTouchAction (job : Job) : Call (Except Fault Bool) :=
  (touchBegin setting job).bind fun _ => @Program.issue Cancel _ .remove fun
    | .error fault => (touchAbort setting job).bind fun _ => .done (.error fault)
    | .ok () =>
      if ¬(0 < job.attemptsMade) ∧ isWorkload job then (touchApplied setting job).bind fun published => .done (.ok !published)
      else (touchAbort setting job).bind fun _ => .done (.ok false)

def removal (job : Job) : Call (Except Fault Bool) :=
  if setting.isAgent || !setting.isTracked then @Program.issue Cancel _ .remove fun
    | .error fault => .done (.error fault)
    | .ok () => .done (.ok false)
  else trackTouchAction setting job

def dropKey (key : Aside) : Call Unit := @Program.issue Cancel _ (.aside key) fun _ => .done ()

def dropDeferRecord : Call Unit := dropKey .deferRecord

def dropAttemptOf : Call Unit := if setting.isQueueNamed then dropKey .modelAttempt else .done ()

/-- The removal once the hold's hash is deleted. -/
def removeJob (job : Job) (dropDefer : Bool) : Call Removal :=
  (removal setting job).bind fun
    | .error fault => .done (.invalid fault true)
    | .ok touchWarning =>
      (if dropDefer then dropDeferRecord else .done ()).bind fun _ => (dropAttemptOf setting).bind fun _ =>
        .done (.ok (attemptsOf job) touchWarning)

def releaseLease (job : Job) (hash : Dict String String) (dropDefer : Bool) : Call Removal :=
  match truthy hash "dedupId" with
  | none => removeJob setting job dropDefer
  | some dedupId => @Program.issue Cancel _ (.getLease dedupId) fun
    | .error fault => .done (.invalid fault true)
    | .ok holder =>
      if holder = some setting.jobId then @Program.issue Cancel _ (.delLease dedupId) fun
        | .error fault => .done (.invalid fault true)
        | .ok () => removeJob setting job dropDefer
      else removeJob setting job dropDefer

def holdInPlace : Call Bool :=
  if ¬setting.hasHexists then .done false
  else @Program.issue Cancel _ .hexists fun
    | .error _ => .done false
    | .ok inPlace => .done inPlace

def deleteHold (job : Job) (hash : Dict String String) (dropDefer : Bool) : Call Removal :=
  @Program.issue Cancel _ .delHold fun
    | .error fault => (holdInPlace setting).bind fun inPlace => .done (.invalid fault !inPlace)
    | .ok () => @Program.issue Cancel _ .srem fun _ => releaseLease setting job hash dropDefer

def removeHeldJob (dropDefer : Bool) : Call Removal :=
  @Program.issue Cancel _ .hgetall fun
    | .error fault => .done (.invalid fault false)
    | .ok hash =>
      if (truthy hash "since").isNone then .done (.invalid s!"job {setting.jobId} is not waiting on a condition" false)
      else @Program.issue Cancel _ .getJob fun
        | .error fault => .done (.invalid fault false)
        | .ok none => .done (.invalid s!"job {setting.jobId} is no longer in the queue" false)
        | .ok (some job) => @Program.issue Cancel _ .getState fun state =>
          if state.toOption ∈ [some "delayed",some "waiting",some "prioritized"] then deleteHold setting job hash dropDefer
          else
            let state := state.toOption.getD "in an unknown state"
            .done (.invalid s!"job {setting.jobId} is {state}, not waiting -- it has already left the hold" false)

end Programs

def QUEUED_STATES : List String := ["delayed","waiting","prioritized","paused"]

inductive Answer
  | removed (held : Bool) (state : Option String) (attemptsMade : Nat) (touchWarning : Bool)
  | invalid (reason : String) (cleared : Bool)
  | refused (answer : Option String) (error : Option Fault)
  | notQueued (state : String)
  | raced (state : String) (error : Fault)
  deriving DecidableEq

section Queued

variable (setting : Setting)

def guarded (job : Option Job) : Call (Option Answer) :=
  if setting.guard.isNone then .done none
  else @Program.issue Cancel _ (.guard job) fun
    | .error fault => .done (some (.refused none (some fault)))
    | .ok none => .done none
    | .ok (some answer) => .done (some (.refused (some answer) none))

def stateOf : Call String :=
  @Program.issue Cancel _ .getState fun
    | .error _ => .done "unknown"
    | .ok state => .done state

/-- The state that the caller has read, or else the one that is read here. -/
def currentOf : Option String → Call String
  | some state => .done state
  | none => stateOf

def answerOf : Removal → Answer
  | .ok attemptsMade touchWarning => .removed true none attemptsMade touchWarning
  | .invalid reason cleared => .invalid reason cleared

/-- The removal of a job that is not held, in a state it waits in. -/
def removeWaiting (job : Job) (state : String) : Call Answer :=
  (guarded setting (some job)).bind fun
    | some stop => .done stop
    | none => (removal setting job).bind fun
      | .error fault => stateOf.bind fun state => .done (.raced state fault)
      | .ok touchWarning => dropDeferRecord.bind fun _ => (dropAttemptOf setting).bind fun _ =>
        .done (.removed false (some state) (attemptsOf job) touchWarning)

def removeQueuedJob (job : Option Job) (state : Option String) : Call Answer :=
  @Program.issue Cancel _ .hgetall fun hash =>
    if (hash.toOption.bind fun hash => truthy hash "since").isSome then
      (guarded setting job).bind fun
        | some stop => .done stop
        | none => (removeHeldJob setting true).bind fun removal => .done (answerOf removal)
    else match job with
      | none => .done (.notQueued "unknown")
      | some job => (currentOf state).bind fun current =>
        if current ∈ QUEUED_STATES then removeWaiting setting job current else .done (.notQueued current)

end Queued

section Promise

/-- The answer says that nothing was changed. -/
def saysUnchanged : Answer → Bool
  | .invalid _ cleared => !cleared
  | .refused _ _ | .notQueued _ => true
  | _ => false

def isRemoved : Answer → Bool
  | .removed _ _ _ _ => true
  | _ => false

/-- None of the times it took effect did it change a thing. -/
def Sent.Idle (sent : Sent) : Prop := ∀ landing ∈ sent.landings, landing.1 = landing.2

/-- What an answer promises of the commands that were sent before it, latest first. -/
structure Kept (jobId : String) (answer : Answer) (log : List Sent) : Prop where
  unchanged : saysUnchanged answer = true → ∀ sent ∈ log, sent.Idle
  confirmed : (∃ landings, ⟨.remove,landings,.ok ()⟩ ∈ log) → isRemoved answer = true
  owned : ∀ later earlier dedupId landings reply, log = later ++ ⟨.delLease dedupId,landings,reply⟩ :: earlier →
    ∃ landings rest, earlier = ⟨.getLease dedupId,landings,.ok (some jobId)⟩ :: rest

/-- A delete of the hold's hash that deleted it and threw, and then a read of its clock that found one. -/
def HeldAgain (log : List Sent) : Prop :=
  ∃ later earlier landings landings' fault,
    log = later ++ ⟨.hexists,landings',.ok true⟩ :: ⟨.delHold,landings,.error fault⟩ :: earlier ∧
      ∃ landing ∈ landings, landing.1 ≠ landing.2

end Promise

end PiDispatch.CancelState
