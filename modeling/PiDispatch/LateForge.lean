import PiDispatch.Kernel.Contract
import PiDispatch.Kernel.Json
import PiDispatch.Kernel.Service
import PiDispatch.RunBudgetLedger
import PiDispatch.SteerInboxRuns
import PiDispatch.Valkey

/-! What becomes of a late forge message at a run's final outcome: it starts a job of its own, is carried into that
job's inbox, or is answered with one comment. The settle is a program over the inboxes, the stored fallbacks, the queues
and the forge; the job that a fallback builds, and the texts, are taken as functions. -/
namespace PiDispatch.LateForge
open Kernel SteerInbox

def QUEUE : String := "pi-jobs"
def RECOVERY_ENQUEUED : String := "recovery-enqueued"
def RECOVERY_SUPERSEDED : String := "recovery-superseded"

structure Job where
  id : String
  data : Json
  queueName : String
  attemptsMade : Option Nat
  attempts : Option Nat

structure Thrown where
  infraRetry : Bool
  reason : Option String

/-- How an attempt ended: what it returned, or what it threw. -/
structure Ending where
  result : Option (Option String)
  error : Option Thrown

def isFinalOutcome (job : Job) (ending : Ending) : Bool :=
  match ending.result with
  | some reason => reason ≠ some RECOVERY_ENQUEUED && reason ≠ some RECOVERY_SUPERSEDED
  | none => match ending.error with
    | none => false
    | some thrown => !thrown.infraRetry || job.attemptsMade.getD 0 + 1 ≥ max 1 (job.attempts.getD 1)

def CANCELS : List String := ["operator-cancel","agent-cancel"]

def cancelled (ending : Ending) : Bool :=
  (ending.result.bind id).any (· ∈ CANCELS) || (ending.error.bind Thrown.reason).any (· ∈ CANCELS)

def isTrue : Option Json → Bool
  | some (.bool true) => true
  | _ => false

def runIdOf (job : Job) : String :=
  match job.data.field? "recoveryOf" with
  | some (.string of) => if of ≠ "" then of else job.id
  | _ => job.id

/-- `===` on what two documents were parsed from: no two of their objects are the same one. -/
def strictlyEqual : Option Json → Option Json → Bool
  | none,none => true
  | some .null,some .null => true
  | some (.bool value),some (.bool other) => value = other
  | some (.number value),some (.number other) => value = other
  | some (.string value),some (.string other) => value = other
  | _,_ => false

def maxSafe : Nat := 2 ^ 53 - 1

/-- The nearest double of a number of at most 16 digits. -/
def nearestDouble (number : Nat) : Nat :=
  if number ≤ maxSafe ∨ number % 2 = 0 then number
  else if number / 2 % 2 = 0 then number - 1 else number + 1

def digitsOf (text : List Char) : Nat := text.foldl (fun number digit => number * 10 + (digit.toNat - '0'.toNat)) 0

/-- `/^[1-9][0-9]{0,15}$/`. -/
def isNumberText (text : List Char) : Bool :=
  text.length ≤ 16 && text.all Char.isDigit && text.head?.any (· ≠ '0')

def targetNumber (target : Option Json) : Option Rat :=
  match target.bind (Json.field? · "number") with
  | some (.number number) => some number
  | some (.string text) => if isNumberText text.toList then some (nearestDouble (digitsOf text.toList)) else none
  | _ => none

def typeOf (target : Option Json) : Option Json := target.bind (Json.field? · "type")

/-- The fallback names another forge, repo, target type or number than the run's. -/
def mismatched (fields data : Json) : Bool :=
  (fields.field? "kind").any (fun kind => !strictlyEqual (some kind) (data.field? "kind")) ||
  !strictlyEqual (fields.field? "repo") (data.field? "repo") ||
  (match typeOf (fields.field? "target") with
    | some (.string type) => !strictlyEqual (some (.string type)) (typeOf (data.field? "target"))
    | _ => true) ||
  (match targetNumber (fields.field? "target") with
    | none => true
    | some number => targetNumber (data.field? "target") ≠ some number)

def hopOf (entry : Entry) : Nat := (entry.hop.filter (· ≤ maxSafe)).getD 0

/-- A carried message. -/
def raised (entry : Entry) : RawEntry where
  id := entry.id
  mode := entry.mode.text
  source := entry.source.text
  author := entry.author
  text := some entry.text
  at' := some entry.at'
  deliveryId := entry.deliveryId
  hop := some 1

/-- The late forge messages of a close, in inbox order. -/
def lateForge (closing : Closing) : List Entry :=
  closing.entries.filter fun entry => entry.source = .forge ∧ closing.state.get? entry.id = some .late

/-- `Object.entries` of the stored map, less what is no object under a message's id. -/
def readable (id : String) : Json → Bool
  | .object _ | .array _ => SteerFraming.isSteerId id.toList
  | _ => false

/-- A job on a queue. -/
structure Queued where
  queue : String
  id : String

/-- What a settle has done about a message of its run. -/
inductive Deed
  | enqueued (run : String) (first : Entry) (job : String)
  | seeded (run job : String) (entry : Entry) (wrote : Bool)
  | commented (run : String) (answer : List Entry)
  deriving DecidableEq

/-- Each run's inbox and fallbacks, and the queued jobs; what was delivered, what was done, and whose
carrying calls lost an answer. -/
structure Store where
  inboxes : String → Inbox
  fallbacks : String → Dict String Json
  jobs : List Queued
  delivered : List (String × String)
  deeds : List Deed
  losses : List String

/-- Only a settle closes an inbox. -/
def isClient : Act → Prop
  | .closeInbox _ => False
  | _ => True

inductive Command
  | inbox (run : String) (act : Act) (own : isClient act)
  | fallbacksBecome (run : String) (jobs : Dict String Json)
  | close (run : String) (targetKey : Option String)
  | readFallbacks (run : String)
  | enqueue (run : String) (first : Entry) (queue : String) (kind : Option Json) (fields : Json)
  | preseed (run job : String) (carry : List Entry) (now : Instant)
  | comment (run : String) (answer : List Entry)

@[reducible] def Command.Carrier : Command → Type
  | .inbox _ _ _ | .close _ _ | .preseed _ _ _ _ => Answer
  | .readFallbacks _ => Dict String Json
  | .enqueue _ _ _ _ _ => Option String
  | .fallbacksBecome _ _ | .comment _ _ => Unit

/-- A run's keys go by its sanitized id. -/
def inboxKey (run : String) : String := RunBudgetLedger.sanitizeJobId run

/-- The run whose settle is left in doubt where this command's answer is lost. -/
def Command.doubts : Command → List String
  | .enqueue run _ _ _ _ | .preseed run _ _ _ => [inboxKey run]
  | _ => []

def Store.inbox (store : Store) (run : String) : Inbox := store.inboxes (inboxKey run)

def Store.setInbox (store : Store) (run : String) (inbox : Inbox) : Store :=
  { store with inboxes := fun key => if key = inboxKey run then inbox else store.inboxes key }

/-- The messages that an answer accepts as delivered there: those not carried. -/
def deliveries (texts : Texts) (inbox : Inbox) (act : Act) : List Entry :=
  (taken texts inbox.state.keys (act,(step texts act inbox).1)).filter fun entry => hopOf entry = 0

/-- One act on a run's inbox. -/
def Store.act (texts : Texts) (store : Store) (run : String) (act : Act) : Answer × Store :=
  ((step texts act (store.inbox run)).1,{ store.setInbox run (step texts act (store.inbox run)).2 with
    delivered := (deliveries texts (store.inbox run) act).map (fun entry => (inboxKey run,entry.id)) ++ store.delivered })

/-- A job that the queue holds already stays as it is. -/
def Store.add (store : Store) (queue id : String) : Store :=
  if store.jobs.any fun job => job.queue = queue ∧ job.id = id then store else { store with jobs := ⟨queue,id⟩ :: store.jobs }

section Service
variable (texts : Texts) (forgeJobOf : Option Json → Json → Option String)

/-- The deeds of a preseed that was answered `ok`. -/
def seededDeeds (run job : String) (carry : List Entry) (before : Inbox) : Answer → List Deed
  | .preseeded (.ok _) => carry.map fun entry => .seeded run job entry (before.state.get? entry.id).isNone
  | _ => []

def answer (store : Store) : (command : Command) → command.Carrier × Store
  | .inbox run act _ => store.act texts run act
  | .fallbacksBecome run jobs =>
    ((),{ store with fallbacks := fun key => if key = inboxKey run then jobs else store.fallbacks key })
  | .close run targetKey => store.act texts run (.closeInbox targetKey)
  | .readFallbacks run => ((store.fallbacks (inboxKey run)).filter readable,store)
  | .enqueue run first queue kind fields =>
    match forgeJobOf kind fields with
    | none => (none,store)
    | some job => (some job,{ store.add queue job with deeds := .enqueued (inboxKey run) first job :: store.deeds })
  | .preseed run job carry now =>
    if job = "" then (.refused "no run id",store)
    else
      ((store.act texts job (.preseedInbox (carry.map raised) now)).1,
        { (store.act texts job (.preseedInbox (carry.map raised) now)).2 with
          deeds := seededDeeds (inboxKey run) (inboxKey job) carry (store.inbox job)
            (store.act texts job (.preseedInbox (carry.map raised) now)).1 ++ store.deeds })
  | .comment run answer => ((),{ store with deeds := .commented (inboxKey run) answer :: store.deeds })

/-- A command whose answer is lost, after its effect. -/
def unanswered (store : Store) (command : Command) : Store :=
  { (answer texts forgeJobOf store command).2 with losses := command.doubts ++ store.losses }

/-- The comment is made; whether the forge takes it is not asked. -/
def loses : Command → Prop
  | .comment _ _ => False
  | _ => True

end Service

abbrev Forge : Signature := Fallible Command Command.Carrier Fault

abbrev Call (α : Type) := Program Forge α

def ask (command : Command) : Call (Except Fault command.Carrier) := @Program.issue Forge _ command .done

/-- The queues of this deployment: a host's own, where it has them, and the shared one. -/
structure Queues where
  host : Option (String → Bool)
  shared : Bool

def queueFor (queues : Queues) (name : String) : Bool × String :=
  match queues.host with
  | some host => if (QUEUE ++ "@").toList.isPrefixOf name.toList then (host name,name) else (queues.shared,QUEUE)
  | none => (queues.shared,QUEUE)

/-- A settle's own values. -/
structure Settle where
  job : Job
  ending : Ending
  targetKey : Option String
  queueName : Option String
  heldResumed : Bool
  canPublish : Bool
  queues : Queues
  now : Instant

def Settle.run (settle : Settle) : String := runIdOf settle.job

/-- What a settle had to account for: the late forge messages of its run. -/
structure Report where
  run : String
  late : List Entry
  deriving DecidableEq

section Settles
variable (settle : Settle)

/-- The new job's id and its fields; none where the caller answers instead. -/
def resume (first : Entry) : Call (Option (String × Json)) :=
  (ask (.readFallbacks settle.run)).bind fun
    | .error _ => .done none
    | .ok jobs => match jobs.get? first.id with
      | none => .done none
      | some fields =>
        if ¬isTrue (fields.field? "resume") then .done none
        else if mismatched fields settle.job.data then .done none
        else if ¬(queueFor settle.queues (settle.queueName.getD settle.job.queueName)).1 then .done none
        else (ask (.enqueue settle.run first (queueFor settle.queues (settle.queueName.getD settle.job.queueName)).2
            (settle.job.data.field? "kind") fields)).bind fun
          | .ok (some job) => .done (some (job,fields))
          | _ => .done none

/-- One comment, however many messages it covers. -/
def reply (late answer : List Entry) : Call (Option Report) :=
  if answer = [] then .done (some ⟨settle.run,late⟩)
  else (ask (.comment settle.run answer)).bind fun _ => .done (some ⟨settle.run,late⟩)

/-- The messages after the first, into the inbox of the job that the first one started. -/
def carryOver (late answer carry : List Entry) (job : String) (fields : Json) : Call (Option Report) :=
  if carry = [] then reply settle late answer
  else if ¬isTrue (fields.field? "steer") then reply settle late (answer ++ carry)
  else (ask (.preseed settle.run job carry settle.now)).bind fun
    | .ok (.preseeded (.ok _)) => reply settle late answer
    | _ => reply settle late (answer ++ carry)

def onLateForge (late : List Entry) : Call (Option Report) :=
  if late = [] then .done (some ⟨settle.run,late⟩)
  else if ¬settle.canPublish then .done none
  else match late.filter fun entry => hopOf entry = 0 with
    | [] => reply settle late (late.filter fun entry => hopOf entry ≥ 1)
    | first :: carry =>
      if cancelled settle.ending ∨ settle.heldResumed then
        reply settle late ((late.filter fun entry => hopOf entry ≥ 1) ++ first :: carry)
      else (resume settle first).bind fun
        | none => reply settle late ((late.filter fun entry => hopOf entry ≥ 1) ++ first :: carry)
        | some (job,fields) => carryOver settle late (late.filter fun entry => hopOf entry ≥ 1) carry job fields

/-- Answers for the late messages where this close was the first; none where nothing was to be accounted for. -/
def settleInbox : Call (Option Report) :=
  if ¬isTrue (settle.job.data.field? "steer") then .done none
  else if ¬isFinalOutcome settle.job settle.ending then .done none
  else if settle.run = "" then .done none
  else (ask (.close settle.run settle.targetKey)).bind fun
    | .ok (.closed closing) => if closing.first then onLateForge settle (lateForge closing) else .done none
    | _ => .done none

end Settles

/-- Settles of any runs, and what clients do to any inbox and any stored fallbacks, any number of each at once. -/
inductive Enters : Call (Option Report) → Prop
  | settle (settle : Settle) : Enters (settleInbox settle)
  | client (run : String) (act : Act) (own : isClient act) : Enters ((ask (.inbox run act own)).bind fun _ => .done none)
  | fallbacks (run : String) (jobs : Dict String Json) :
    Enters ((ask (.fallbacksBecome run jobs)).bind fun _ => .done none)

def anyCall (_ : Store) (_ : Command) : Prop := True

def settles (texts : Texts) (forgeJobOf : Option Json → Json → Option String) :
    Agency Forge Store (Call (Option Report)) :=
  callers (MayFail (answer texts forgeJobOf) (unanswered texts forgeJobOf) loses anyCall) Enters

def Store.start : Store := ⟨fun _ => .empty,fun _ => .empty,[],[],[],[]⟩

end PiDispatch.LateForge
