import PiDispatch.Clock
import PiDispatch.Kernel.Dict
import PiDispatch.Kernel.JsonRoundTrip
import PiDispatch.Kernel.Program

/-! The queue half of durable runs: the recovery of a crashed run as a job of its own, the call that enqueues it, and the
sweep that takes it off again when its host is lost. Both are programs over the claims, the queues' jobs and the pending
set. Strings are the language's, and so are the numbers; what only a log line shows is left out. -/
namespace PiDispatch.RecoveryQueue
open Kernel JsonText

def QUEUE : Units := Utf16.spell "pi-jobs"
def RECOVERY_CAP : Nat := 2
def RECOVERY_TTL_MS : Nat := 6 * 3600 * 1000
def RECOVERY_CLAIM_TTL_MS : Nat := 7 * 24 * 3600 * 1000
def RECOVER_CLAIM_PREFIX : Units := Utf16.spell "run:recover:claim:"
def RECOVERY_MAX_WAIT_MS : Nat := 7 * 24 * 3600 * 1000
def RECOVERY_EXTEND_MS : Nat := 3600 * 1000
def FORGE_JOB_RETENTION_S : Nat := 31 * 86400
def SWEEP_BATCH : Nat := 100

def RECOVERY_STRIPPED_KEYS : List Units :=
  [Utf16.spell "podmanRestartHoldSinceMs",Utf16.spell "podmanRestartHoldLastMs",Utf16.spell "netnsKeeperHoldSinceMs",
    Utf16.spell "netnsKeeperHoldLastMs",Utf16.spell "netnsKeeperHoldStartedMs",Utf16.spell "netnsKeeperLoopSeen",
    Utf16.spell "enqueueNonce"]

/-- The places where BullMQ finds a job. -/
inductive JobState
  | waiting
  | delayed
  | prioritized
  | paused
  | waitingChildren
  | active
  | completed
  | failed
  | unknown
  deriving DecidableEq

def NOT_STARTED_STATES : List JobState := [.waiting,.delayed,.prioritized,.paused,.waitingChildren]

section Names

def isNameUnit (unit : UInt16) : Bool :=
  let letter := Char.ofNat unit.toNat
  unit.toNat < 128 && (letter.isAlphanum || letter = '.' || letter = '_' || letter = '-')

/-- `HOST_RE`. -/
def isHostName (host : Units) : Bool :=
  match host with
  | [] => false
  | first :: rest =>
    first.toNat < 128 && (Char.ofNat first.toNat).isAlphanum && rest.length ≤ 63 && rest.all isNameUnit

def hostQueueName (worker : Units) : Units := QUEUE ++ Utf16.spell "@" ++ worker

def sanitizeJobId (id : Units) : Units :=
  if id = [] then Utf16.spell "unknown-job" else id.map fun unit => if isNameUnit unit then unit else '_'.toNat.toUInt16

def colons (id : Units) : Nat := id.count ':'.toNat.toUInt16

/-- `customJobIdAllowed` of a text that ends in `.r` and digits, which no integer's spelling does. -/
def customJobIdAllowed (id : Units) : Bool := id ≠ [] && (colons id = 0 || colons id + 1 = 3)

def recoveryJobId (runId : Units) (n : Nat) : Option Units :=
  if runId = [] ∨ n < 1 then none
  else
    let id := runId ++ Utf16.spell ".r" ++ Utf16.ofText (decimal n)
    if customJobIdAllowed id then some id else none

def recoveryClaimKey (runId : Units) (n : Nat) : Units :=
  RECOVER_CLAIM_PREFIX ++ sanitizeJobId runId ++ Utf16.spell ":" ++ Utf16.ofText (decimal n)

def modelAttemptIdOf (queue id : Units) : Units := queue ++ Utf16.spell ":" ++ id

end Names

variable (numbers : Numbers)

abbrev Value := JsonValue numbers.Value

section Data

/-- A job as the two callers of the enqueuer have it. -/
structure Crashed where
  id : Units
  name : Option (Value numbers)
  data : Option (Value numbers)
  timestamp : Option (Value numbers)

/-- A job on a queue. -/
structure Job where
  name : Option (Value numbers)
  data : Value numbers
  attempts : Nat
  keptSeconds : Nat
  state : JobState

/-- A queue's name and a job's id on it. -/
abbrev Key := Units × Units

variable {numbers}

def isObject : Value numbers → Bool
  | .object _ | .array _ => true
  | _ => false

def nonEmptyText : Option (Value numbers) → Option Units
  | some (.string text) => if text = [] then none else some text
  | _ => none

def isTrue : Option (Value numbers) → Bool
  | some (.bool value) => value
  | _ => false

/-- A safe integer that is not negative. -/
def isCount : Option (Value numbers) → Option Nat
  | some (.number value) => match numbers.safe? value with
    | some count => if 0 ≤ count then some count.toNat else none
    | none => none
  | _ => none

def runIdOf (job : Crashed numbers) (data : Value numbers) : Units :=
  (nonEmptyText (data.field? (Utf16.spell "recoveryOf"))).getD job.id

/-- The members a recovery keeps: all but the per-attempt ones and the base run's creation time, which is set again. -/
def keptMembers : Value numbers → List (Units × Value numbers)
  | .object members =>
    members.filter fun member => member.1 ∉ RECOVERY_STRIPPED_KEYS ∧ member.1 ≠ Utf16.spell "recoveryOfCreatedAt"
  | _ => []

def recoveryDataOf (data : Value numbers) (runId : Units) (n : Nat) (recoverBy : Instant)
    (createdAt : Option (Value numbers)) : Value numbers :=
  let continued := (nonEmptyText (data.field? (Utf16.spell "recoveryOf"))).isSome
  let at' := if continued then data.field? (Utf16.spell "recoveryOfCreatedAt") else createdAt
  let members := JsonValue.put (Utf16.spell "recoverBy") (.number (numbers.ofNat recoverBy))
    (JsonValue.put (Utf16.spell "recovery") (.number (numbers.ofNat n))
      (JsonValue.put (Utf16.spell "recoveryOf") (.string runId) (keptMembers data)))
  match at',isCount at' with
  | some value,some _ => .object (JsonValue.put (Utf16.spell "recoveryOfCreatedAt") value members)
  | _,_ => .object members

structure Route where
  host : Units
  hosted : Bool

def pointerRoute (pointer : Option (Value numbers)) : Option Route :=
  match pointer with
  | some (.object members) =>
    match (JsonValue.object members).field? (Utf16.spell "host") with
    | some (.string host) =>
      if ¬isHostName host then none
      else match (JsonValue.object members).field? (Utf16.spell "hostQueue") with
        | none | some .null => some ⟨host,false⟩
        | some (.string queue) => some ⟨host,queue ≠ []⟩
        | some _ => none
    | _ => none
  | _ => none

/-- A member of the pending set: a recovery, the host that holds its checkpoint, and when it was enqueued. -/
structure Pending where
  queue : Units
  id : Units
  host : Units
  at' : Int

def Pending.key (pending : Pending) : Key := (pending.queue,pending.id)

/-- The last deadline that a sweep may set for it. -/
def Pending.hard (pending : Pending) : Int := pending.at' + RECOVERY_MAX_WAIT_MS

variable (numbers)

def pendingMember (queue id host : Units) (at' : Instant) : Text :=
  stringify numbers (.object [(Utf16.spell "q",.string queue),(Utf16.spell "id",.string id),(Utf16.spell "host",.string host),
    (Utf16.spell "at",.number (numbers.ofNat at'))])

def parsePendingMember (member : Text) : Option Pending :=
  match parse numbers member with
  | none => none
  | some document =>
    match nonEmptyText (document.field? (Utf16.spell "q")),nonEmptyText (document.field? (Utf16.spell "id")),
      nonEmptyText (document.field? (Utf16.spell "host")),document.field? (Utf16.spell "at") with
    | some queue,some id,some host,some (.number value) =>
      if ¬isHostName host then none else (numbers.safe? value).map fun at' => ⟨queue,id,host,at'⟩
    | _,_,_,_ => none

/-- A member that an enqueuer writes is read back by the sweep. -/
theorem parsePendingMember_written {queue id host : Units} (queued : queue ≠ []) (named : id ≠ []) (hosted : isHostName host)
    {at' : Instant} (safe : at' ≤ maxSafeInteger) :
    parsePendingMember numbers (pendingMember numbers queue id host at') = some ⟨queue,id,host,at'⟩ := by
  have apart : isHostName [] = false := rfl
  have filled : host ≠ [] := by
    rintro rfl
    rw [apart] at hosted
    cases hosted
  have back : parse numbers (pendingMember numbers queue id host at') = some (.object
      [(Utf16.spell "q",.string queue),(Utf16.spell "id",.string id),(Utf16.spell "host",.string host),
        (Utf16.spell "at",.number (numbers.ofNat at'))]) := by
    refine parse_stringify numbers ?_ ?_ ?_
    · intro member inside
      simp only [List.mem_cons,List.not_mem_nil,or_false] at inside
      rcases inside with rfl | rfl | rfl | rfl
      · exact .string queue
      · exact .string id
      · exact .string host
      · exact .number at' safe
    · have plain : ∀ key ∈ [Utf16.spell "q",Utf16.spell "id",Utf16.spell "host",Utf16.spell "at"],
          JsonValue.index? key = none := by decide
      intro member inside
      exact plain member.1 (List.mem_map_of_mem (f := Prod.fst) inside)
    · simp only [List.map_cons,List.map_nil]
      decide
  have fields : ∀ name value, ([(Utf16.spell "q",JsonValue.string queue),(Utf16.spell "id",.string id),
      (Utf16.spell "host",.string host),(Utf16.spell "at",.number (numbers.ofNat at'))].find?
        fun member => member.1 = name).map Prod.snd = some value →
      (JsonValue.object [(Utf16.spell "q",.string queue),(Utf16.spell "id",.string id),(Utf16.spell "host",.string host),
        (Utf16.spell "at",.number (numbers.ofNat at'))]).field? name = some value := fun _ _ found => found
  unfold parsePendingMember
  rw [back]
  dsimp only
  rw [fields (Utf16.spell "q") (.string queue) (by rfl),fields (Utf16.spell "id") (.string id) (by rfl),
    fields (Utf16.spell "host") (.string host) (by rfl),fields (Utf16.spell "at") (.number (numbers.ofNat at')) (by rfl)]
  simp [nonEmptyText,queued,named,filled,hosted,numbers.safe_ofNat at' safe]

end Data

section Enqueue

inductive Reason
  | noJob
  | notArmed
  | localKind
  | recoveryCap
  | pointerInvalid
  | jobIdRefused
  | enqueueFailed
  deriving DecidableEq

inductive Answered
  | enqueued (jobId : Units) (n : Nat) (queue : Units)
  | refused (reason : Reason)
  deriving DecidableEq

inductive Enqueue
  | now
  | setNX (key host : Units) (life : Nat)
  | getJob (key : Key)
  | add (key : Key) (job : Job numbers)
  | zadd (deadline : Int) (member : Text)
  | del (key : Units)

/-- What a command answers; one that may throw answers `error` then. -/
@[reducible] def Enqueue.Reply : Enqueue numbers → Type
  | .now => Instant
  | .setNX _ _ _ => Except Unit Bool
  | .getJob _ => Except Unit (Option (Job numbers))
  | .add _ _ | .zadd _ _ | .del _ => Except Unit Unit

@[reducible] def Enqueuing : Signature := ⟨Enqueue numbers,Enqueue.Reply numbers⟩

/-- What a call is about once every check has passed. -/
structure Plan where
  runId : Units
  n : Nat
  jobId : Units
  queue : Units
  host : Units
  data : Value numbers
  name : Option (Value numbers)
  timestamp : Option (Value numbers)

variable {numbers}

def Plan.claimKey (plan : Plan numbers) : Units := recoveryClaimKey plan.runId plan.n

def Plan.key (plan : Plan numbers) : Key := (plan.queue,plan.jobId)

/-- The recovery as it is added. -/
def Plan.job (plan : Plan numbers) (recoverBy : Instant) : Job numbers where
  name := plan.name
  data := recoveryDataOf plan.data plan.runId plan.n recoverBy plan.timestamp
  attempts := 1
  keptSeconds := FORGE_JOB_RETENTION_S
  state := .waiting

def planned (job : Crashed numbers) (pointer : Option (Value numbers)) : Except Reason (Plan numbers) :=
  match job.data with
  | none => .error .noJob
  | some data =>
    if ¬isObject data then .error .noJob
    else if ¬isTrue (data.field? (Utf16.spell "recover")) then .error .notArmed
    else if nonEmptyText (data.field? (Utf16.spell "kind")) = some (Utf16.spell "local") then .error .localKind
    else
      let runId := runIdOf job data
      let n := (isCount (data.field? (Utf16.spell "recovery"))).getD 0 + 1
      if n > RECOVERY_CAP then .error .recoveryCap
      else match pointerRoute pointer with
        | none => .error .pointerInvalid
        | some route => match recoveryJobId runId n with
          | none => .error .jobIdRefused
          | some jobId => .ok
            { runId := runId
              n := n
              jobId := jobId
              queue := if route.hosted then hostQueueName route.host else QUEUE
              host := route.host
              data := data
              name := job.name.or (data.field? (Utf16.spell "kind"))
              timestamp := job.timestamp }

abbrev Call (numbers : Numbers) := Program (Enqueuing numbers) Answered

def Plan.enqueued (plan : Plan numbers) : Answered := .enqueued plan.jobId plan.n plan.queue

/-- The catch: a claim that this call took is released. -/
def failing (plan : Plan numbers) (claimed : Bool) : Call numbers :=
  if claimed then .issue (.del plan.claimKey) fun _ => .done (.refused .enqueueFailed)
  else .done (.refused .enqueueFailed)

def adding (plan : Plan numbers) (claimed : Bool) : Call numbers :=
  .issue .now fun now =>
  .issue (.add plan.key (plan.job (now + RECOVERY_TTL_MS))) fun
    | .error _ => failing plan claimed
    | .ok _ =>
      .issue (.zadd (now + RECOVERY_TTL_MS : Nat) (pendingMember numbers plan.queue plan.jobId plan.host now)) fun _ =>
      .done plan.enqueued

def enqueueRecovery (job : Crashed numbers) (pointer : Option (Value numbers)) : Call numbers :=
  match planned job pointer with
  | .error reason => .done (.refused reason)
  | .ok plan =>
    .issue (.setNX plan.claimKey plan.host RECOVERY_CLAIM_TTL_MS) fun
      | .error _ => failing plan false
      | .ok true => adding plan true
      | .ok false => .issue (.getJob plan.key) fun
        | .error _ => failing plan false
        | .ok (some _) => .done plan.enqueued
        | .ok none => adding plan false

end Enqueue

section Sweep

inductive Sweep
  | now
  | zrangebyscore (until' : Instant) (limit : Nat)
  | zrem (member : Text)
  | getJob (key : Key)
  | getState (key : Key)
  | isPaused (queue : Units)
  | liveHosts
  | zadd (deadline : Int) (member : Text)
  | putBack (deadline : Int) (member : Text)
  | remove (key : Key)
  | dropModelAttempt (id : Units)
  | onLost (key : Key) (job : Job numbers)

/-- A put-back swallows its failure, and the drop of an attempt never throws. -/
@[reducible] def Sweep.Reply : Sweep numbers → Type
  | .now => Instant
  | .zrangebyscore _ _ => Except Unit (List (Text × Int))
  | .zrem _ | .isPaused _ => Except Unit Bool
  | .getJob _ => Except Unit (Option (Job numbers))
  | .getState _ => Except Unit JobState
  | .liveHosts => Except Unit (Option (List Units))
  | .zadd _ _ | .remove _ | .onLost _ _ => Except Unit Unit
  | .putBack _ _ | .dropModelAttempt _ => Unit

@[reducible] def Sweeping : Signature := ⟨Sweep numbers,Sweep.Reply numbers⟩

structure Counts where
  claimed : Nat
  removed : Nat
  settled : Nat
  extended : Nat
  deriving DecidableEq

inductive Swept
  | skipped
  | counted (out : Counts)
  deriving DecidableEq

/-- The registry's answer of this sweep: not asked for yet, unreadable, or the live hosts. -/
abbrev Hosts := Option (Option (List Units))

inductive Why
  | queuePaused
  | registryUnreadable
  | hostAlive
  deriving DecidableEq

variable {numbers}

def hostsNow {α : Type} (hosts : Hosts) (next : Option (List Units) → Program (Sweeping numbers) α) :
    Program (Sweeping numbers) α :=
  match hosts with
  | some live => next live
  | none => .issue .liveHosts fun
    | .error _ => next none
    | .ok live => next live

def whyNot (paused : Except Unit Bool) (live : Option (List Units)) (host : Units) : Option Why :=
  if paused matches .ok true then some .queuePaused
  else match live with
    | none => some .registryUnreadable
    | some live => if host ∈ live then some .hostAlive else none

/-- What one member leaves behind: the registry's answer and the counts. -/
abbrev Carried := Hosts × Counts

variable (numbers)

abbrev Judging := Program (Sweeping numbers) Carried

variable {numbers}

/-- The catch: the member goes back with its own score. -/
def puttingBack (member : Text) (score : Int) (hosts : Hosts) (out : Counts) : Judging numbers :=
  .issue (.putBack score member) fun _ => .done (hosts,out)

def taking (member : Text) (score : Int) (pending : Pending) (job : Job numbers) (hosts : Hosts) (out : Counts) :
    Judging numbers :=
  .issue (.remove pending.key) fun
    | .error _ => puttingBack member score hosts out
    | .ok _ =>
      .issue (.dropModelAttempt (modelAttemptIdOf pending.queue pending.id)) fun _ =>
      .issue (.onLost pending.key job) fun _ =>
      .done (hosts,{ out with removed := out.removed + 1 })

def judging (member : Text) (score : Int) (pending : Pending) (job : Job numbers) (hosts : Hosts) (out : Counts) :
    Judging numbers :=
  .issue .now fun now =>
    if pending.hard ≤ now then taking member score pending job hosts out
    else
      .issue (.isPaused pending.queue) fun paused =>
      hostsNow hosts fun live =>
        match whyNot paused live pending.host with
        | none => taking member score pending job (some live) out
        | some _ =>
          .issue .now fun now =>
          .issue (.zadd (min (now + RECOVERY_EXTEND_MS : Nat) pending.hard) member) fun
            | .error _ => puttingBack member score (some live) out
            | .ok _ => .done (some live,{ out with extended := out.extended + 1 })

/-- A member that this sweep claimed. -/
def handling (member : Text) (score : Int) (pending : Pending) (hosts : Hosts) (out : Counts) : Judging numbers :=
  .issue (.getJob pending.key) fun
    | .error _ => puttingBack member score hosts out
    | .ok none => .done (hosts,{ out with settled := out.settled + 1 })
    | .ok (some job) => .issue (.getState pending.key) fun
      | .error _ => puttingBack member score hosts out
      | .ok state =>
        if state ∉ NOT_STARTED_STATES then .done (hosts,{ out with settled := out.settled + 1 })
        else judging member score pending job hosts out

def sweepDue (due : List (Text × Int)) (hosts : Hosts) (out : Counts) : Program (Sweeping numbers) Swept :=
  match due with
  | [] => .done (.counted out)
  | (member,score) :: due => .issue (.zrem member) fun
    | .error _ | .ok false => sweepDue due hosts out
    | .ok true =>
      match parsePendingMember numbers member with
      | none => sweepDue due hosts { out with claimed := out.claimed + 1 }
      | some pending =>
        (handling member score pending hosts { out with claimed := out.claimed + 1 }).bind fun carried =>
        sweepDue due carried.1 carried.2

def sweepHostLost : Program (Sweeping numbers) Swept :=
  .issue .now fun now =>
  .issue (.zrangebyscore now SWEEP_BATCH) fun
    | .error _ => .done .skipped
    | .ok due => sweepDue due none ⟨0,0,0,0⟩

end Sweep

end PiDispatch.RecoveryQueue
