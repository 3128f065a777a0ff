import PiDispatch.Clock
import PiDispatch.Kernel.Machine
import Mathlib.Logic.Function.Basic

/-! Durable approval requests: the publish script, the one script that all five moves share, and the calls that send
them. A call reads the request first and takes the script's keys from what it read. Keys are never dropped here. -/
namespace PiDispatch.Approval
open Kernel

inductive TargetType
  | issue
  | pullRequest
  deriving DecidableEq

/-- What a request is published as; its routing data stands as its text. -/
structure Request where
  requestId : String
  runId : String
  kind : String
  repo : String
  targetType : TargetType
  targetNumber : Nat
  action : String
  toolCallId : String
  configDigest : String
  sessionKey : String
  host : String
  createdAt : Instant
  expiresAt : Option Instant
  sessionDigest : Option String
  hostQueue : Option String
  resumeJob : Option String
  deriving DecidableEq

inductive Phase
  | pending
  | decided
  | claimed
  | finished
  deriving DecidableEq

inductive Verdict
  | approved
  | declined
  | question
  deriving DecidableEq

inductive ActorKind
  | forge
  | operator
  | panel
  | system
  deriving DecidableEq

structure Actor where
  kind : ActorKind
  id : String
  deriving DecidableEq

structure Decision where
  decisionId : String
  decision : Verdict
  actor : Actor
  text : String
  at' : Instant
  deriving DecidableEq

/-- A stored request. -/
structure Record where
  identity : Request
  state : Phase
  decision : Option Decision
  jobId : Option String
  deriving DecidableEq

/-- A person's reply, before the script dates it. -/
structure Reply where
  decisionId : String
  decision : Verdict
  actor : Actor
  human : actor.kind ≠ .system
  text : String

inductive Op
  | decide (reply : Reply)
  | expire
  | claim (jobId : String)
  | finish (jobId : String)
  | cancel (jobId : String)

inductive Refusal
  | requestConflict
  | targetPending
  | requestMissing
  | requestStale
  | alreadyDecided
  | notExpired
  | notDecided
  | notClaimed
  deriving DecidableEq

/-- The keys: requests by id, target keys, the due index and the one of each host, with `seen`, what calls have read. -/
structure Store where
  requests : String → Option Record
  targets : String → Option String
  due : String → Option Instant
  hostDue : String → String → Option Instant
  seen : List (String × Request)

def Store.empty : Store := ⟨fun _ => none,fun _ => none,fun _ => none,fun _ _ => none,[]⟩

/-- A due index whose members carry their deadlines. -/
def zadd (index : String → Option Instant) (deadline : Option Instant) (id : String) : String → Option Instant :=
  match deadline with
  | some deadline => Function.update index id (some deadline)
  | none => index

def zrem (index : String → Option Instant) (id : String) : String → Option Instant := Function.update index id none

/-- The digests that target keys and host indexes are named by. -/
structure Names where
  approvalTargetKey : Request → String
  approvalDueKey : String → String

section Scripts

variable (names : Names)

def PUBLISH (store : Store) (request : Request) : Except Refusal Record × Store :=
  let target := names.approvalTargetKey request
  let index := names.approvalDueKey request.host
  match store.requests request.requestId with
  | some prior => if prior.identity ≠ request then (.error .requestConflict,store) else (.ok prior,store)
  | none =>
    if (store.targets target).isSome then (.error .targetPending,store)
    else
      let record : Record := ⟨request,.pending,none,none⟩
      (.ok record,
        { store with
          requests := Function.update store.requests request.requestId (some record)
          targets := Function.update store.targets target (some request.requestId)
          due := zadd store.due request.expiresAt request.requestId
          hostDue := Function.update store.hostDue index
            (zadd (store.hostDue index) request.expiresAt request.requestId) })

def expiryDecline (record : Record) (now : Instant) : Decision :=
  ⟨"expiry-" ++ record.identity.requestId,.declined,⟨.system,"expiry"⟩,"",now⟩

def revocation (record : Record) (now : Instant) : Decision :=
  ⟨"revocation-" ++ record.identity.requestId,.declined,⟨.system,"revocation"⟩,"",now⟩

def Reply.decided (reply : Reply) (now : Instant) : Decision :=
  ⟨reply.decisionId,reply.decision,reply.actor,reply.text,now⟩

/-- The deadline of a request has come. -/
def Record.expired (record : Record) (now : Instant) : Bool := record.identity.expiresAt.any fun deadline => deadline ≤ now

/-- What a move comes to: the record stays, or a new one is written; `unindexed` takes it from the due indexes and
`released` frees its target. -/
inductive Change
  | stays
  | writes (record : Record) (unindexed released : Bool)

def decideAt (record : Record) (decision : Decision) : Change :=
  .writes { record with decision := some decision, state := .decided } (decision.actor.kind ≠ .system) false

/-- The branches of the script, for a request that its target key names. -/
def transition (record : Record) (now : Instant) : Op → Except Refusal Change
  | .decide reply =>
    if record.state ≠ .pending then
      if record.decision.any fun decision => decision.decisionId = reply.decisionId then .ok .stays
      else .error .alreadyDecided
    else if record.expired now then .ok (decideAt record (expiryDecline record now))
    else .ok (decideAt record (reply.decided now))
  | .expire =>
    if record.state ≠ .pending then
      if record.decision.any fun decision => decision.actor.kind = .system then .ok .stays
      else .error .alreadyDecided
    else if record.expired now then .ok (decideAt record (expiryDecline record now))
    else .error .notExpired
  | .claim jobId =>
    if record.state = .claimed ∧ record.jobId = some jobId then .ok .stays
    else if record.state ≠ .decided then .error .notDecided
    else .ok (.writes { record with state := .claimed, jobId := some jobId } true false)
  | .finish jobId =>
    if record.state ≠ .claimed ∨ record.jobId ≠ some jobId then .error .notClaimed
    else .ok (.writes { record with state := .finished } true true)
  | .cancel jobId =>
    if record.state = .claimed ∧ record.jobId ≠ some jobId then .error .notClaimed
    else if record.state = .finished then .error .requestStale
    else
      let decision := record.decision.getD (revocation record now)
      .ok (.writes { record with decision := some decision, state := .finished, jobId := some jobId } true true)

/-- A finish or a cancel of a request that this job has finished. -/
def Op.finishedBy : Op → Record → Bool
  | .finish jobId,record | .cancel jobId,record => record.state = .finished ∧ record.jobId = some jobId
  | _,_ => false

def Store.write (store : Store) (id target index : String) (record : Record) (unindexed released : Bool) : Store :=
  { store with
    requests := Function.update store.requests id (some record)
    targets := if released then Function.update store.targets target none else store.targets
    due := if unindexed then zrem store.due record.identity.requestId else store.due
    hostDue := if unindexed then Function.update store.hostDue index
        (zrem (store.hostDue index) record.identity.requestId) else store.hostDue }

/-- The script of every move, on the keys that the call was handed. -/
def MOVE (store : Store) (id target index : String) (op : Op) (now : Instant) : Except Refusal Record × Store :=
  match store.requests id with
  | none => (.error .requestMissing,store)
  | some record =>
    if op.finishedBy record then (.ok record,store)
    else if store.targets target ≠ some record.identity.requestId then (.error .requestStale,store)
    else match transition record now op with
      | .error refusal => (.error refusal,store)
      | .ok .stays => (.ok record,store)
      | .ok (.writes next unindexed released) => (.ok next,store.write id target index next unindexed released)

/-- The round trips: a publish, the read that a move begins with, and the move's script on the request it read. -/
inductive Act
  | publish (request : Request)
  | read (id : String)
  | move (id : String) (request : Request) (op : Op) (now : Instant)

def step (act : Act) (store : Store) : Except Refusal Record × Store :=
  match act with
  | .publish request => PUBLISH names store request
  | .read id =>
    match store.requests id with
    | none => (.error .requestMissing,store)
    | some record => (.ok record,{ store with seen := (id,record.identity) :: store.seen })
  | .move id request op now =>
    MOVE store id (names.approvalTargetKey request) (names.approvalDueKey request.host) op now

/-- A move comes after a read of its call. -/
def allowed (act : Act) (store : Store) : Prop :=
  match act with
  | .move id request _ _ => (id,request) ∈ store.seen
  | _ => True

end Scripts

end PiDispatch.Approval
