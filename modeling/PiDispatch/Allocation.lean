import PiDispatch.AllocationState
import PiDispatch.Valkey
import PiDispatch.Kernel.Contract

/-! The applied split in Valkey: the scripts that write it, and the calls that seed it, bring it in line with a host's
envelope, apply a plan to it and revert it. Every change of it is a compare-and-set of the plan id and the envelope
digest that the writer read. The `alloc:log` view, which nothing here reads and which never fails a call, is left out. -/
namespace PiDispatch.Allocation
open Kernel Priorities

inductive AuditOutcome
  | applied
  | duplicate
  | refused
  | applyFailed
  | neutral
  | expired
  | rebased
  | reverted
  | envelopeChangedExternally
  deriving DecidableEq

/-- One landed write of `alloc:plan`: what it replaced, what its writer had read (none for a seed), what it wrote. -/
structure Write where
  replaced : Option Stored
  current : Option State
  next : State

/-- The keys of the split, with the writes that landed, latest first. -/
structure Fleet where
  plan : Option Stored
  expected : Option String
  lock : Option String
  writes : List Write

def Fleet.empty : Fleet := ⟨none,none,none,[]⟩

inductive Command
  | getPlan
  | seed (body : State) (replacing : Option Stored)
  | getExpected
  | setExpected (digest : String)
  | compareAndSet (current next : State)
  | takeLock (mine : String)
  | releaseLock (mine : String)
  | append (outcome : AuditOutcome)
  | lapse

@[reducible] def Command.Carrier : Command → Type
  | .getPlan => Option Stored
  | .getExpected => Option String
  | .seed _ _ | .compareAndSet _ _ | .takeLock _ => Bool
  | .setExpected _ | .releaseLock _ | .append _ | .lapse => Unit

def Stored.same : Stored → Stored → Bool
  | .json document,.json other => document.same other
  | .text content,.text other => content = other
  | _,_ => false

/-- The script's test: the stored plan id and envelope digest are the ones the writer read. -/
def matchesRead (stored : Stored) (current : State) : Bool :=
  match stored with
  | .text _ => false
  | .json document =>
    ((document.field? "planId").bind stringOf).getD "" = current.planId.getD "" ∧
    (document.field? "envelopeDigest").bind stringOf = some current.envelopeDigest

def Fleet.land (fleet : Fleet) (current : Option State) (next : State) : Fleet :=
  { fleet with plan := some (.json next.json), writes := ⟨fleet.plan,current,next⟩ :: fleet.writes }

/-- `SEED_SCRIPT`: a fresh seed names the expected digest, a replacement names it only where none is. -/
def SEED_SCRIPT (fleet : Fleet) (body : State) : Option Stored → Bool × Fleet
  | none =>
    if fleet.plan.isNone then (true,{ fleet.land none body with expected := some body.envelopeDigest })
    else (false,fleet)
  | some corrupt =>
    if fleet.plan.any fun stored => stored.same corrupt then
      (true,{ fleet.land none body with expected := fleet.expected.or (some body.envelopeDigest) })
    else (false,fleet)

def CAS_SCRIPT (fleet : Fleet) (current next : State) : Bool × Fleet :=
  if fleet.plan.any fun stored => matchesRead stored current then (true,fleet.land (some current) next)
  else (false,fleet)

/-- A command that works; `lapse` is the end of the lock's life. -/
def answer (fleet : Fleet) : (command : Command) → command.Carrier × Fleet
  | .getPlan => (fleet.plan,fleet)
  | .seed body replacing => SEED_SCRIPT fleet body replacing
  | .getExpected => (fleet.expected,fleet)
  | .setExpected digest => ((),{ fleet with expected := fleet.expected.or (some digest) })
  | .compareAndSet current next => CAS_SCRIPT fleet current next
  | .takeLock mine =>
    if fleet.lock.isNone then (true,{ fleet with lock := some mine }) else (false,fleet)
  | .releaseLock mine => ((),if fleet.lock = some mine then { fleet with lock := none } else fleet)
  | .append _ => ((),fleet)
  | .lapse => ((),{ fleet with lock := none })

def Alloc : Signature where
  Command := Command
  Answer := fun command => Except Fault command.Carrier

inductive Thrown
  | fault (fault : Fault)
  | type (error : TypeError)

abbrev Call (α : Type) := Program Alloc (Except Thrown α)

section Calls

variable {α : Type}

def returning (value : α) : Call α := .done (.ok value)

def ask (command : Command) : Call command.Carrier :=
  @Program.issue Alloc _ command fun
    | .ok reply => .done (.ok reply)
    | .error fault => .done (.error (.fault fault))

/-- The arithmetic in a call: what it throws, the call throws. -/
def compute (result : Except TypeError α) : Call α :=
  match result with
  | .ok value => .done (.ok value)
  | .error thrown => .done (.error (.type thrown))

/-- A row of a writer's own: where the file refuses it, the call throws. -/
def record (outcome : AuditOutcome) : Call Unit := ask (.append outcome)

/-- A row of a change that has happened: losing it is logged, no more. -/
def recordSystem (outcome : AuditOutcome) : Call Unit :=
  @Program.issue Alloc _ (.append outcome) fun _ => .done (.ok ())

def cas (current next : State) : Call Bool := ask (.compareAndSet current next)

end Calls

def neutralState (envelope : Envelope) (digest : String) (now : Instant) (writer : StateWriter)
    (lastPlanAt : Option Instant) : Except TypeError State :=
  (neutralAllocation envelope).map fun neutral =>
    { planId := none
      basis := none
      writer := writer
      jobId := none
      triggerId := none
      appliedAt := now
      lastPlanAt := lastPlanAt
      validUntil := none
      envelopeDigest := digest
      weights := envelope.defaultWeights.map fun weight => weight.getD 0
      repoWeights := .empty
      reasons := .empty
      vector := neutral.vector
      repos := .empty
      clamped := false }

/-- The neutral seed where nothing was stored, or where `corrupt` was and still is. -/
def seedState (envelope : Envelope) (digest : String) (now : Instant) (corrupt : Option Stored) : Call (Option State) :=
  (compute (neutralState envelope digest now .default none)).andThen fun seed =>
    (ask (.seed seed corrupt)).andThen fun won =>
      if won then (recordSystem .neutral).andThen fun _ => returning (some seed)
      else (ask .getPlan).andThen fun text => returning <| match parseState text with
        | .newer => none
        | .state again => some again
        | .absent | .corrupt _ => some seed

/-- The stored state, none for one a newer build wrote; seeds the neutral one where none can be read. -/
def ensure (envelope : Envelope) (digest : String) (now : Instant) : Call (Option State) :=
  (ask .getPlan).andThen fun text =>
    match parseState text with
    | .newer => returning none
    | .state state => returning (some state)
    | .absent => seedState envelope digest now none
    | .corrupt stored => seedState envelope digest now (some stored)

/-- `alloc:envelope:expected`, seeded with the applied state's digest where it is absent. -/
def expectedDigest (seedDigest : String) : Call (Option String) :=
  (ask .getExpected).andThen fun expected =>
    if expected.isSome then returning expected
    else (ask (.setExpected seedDigest)).andThen fun _ => ask .getExpected

def intWeights (weights : Dict String Int) : Weights := weights.map some

def repoWeightsOf (repos : RepoShares) : Repos := repos.map intWeights

/-- The state projected onto a changed envelope: neutral for a neutral state or with delegation off. -/
def rebased (state : State) (envelope : Envelope) (digest : String) (now : Instant) : Except TypeError State :=
  if state.planId = none ∨ ¬envelope.delegation.enabled then
    neutralState envelope digest now .envelopeChange state.lastPlanAt
  else
    (rebase state.vector envelope).bind fun vector =>
      let entries := envelopeEntries envelope
      let repoWeights := state.repoWeights.filter fun id _ => id ∈ entries
      (repoShares vector.allocations (repoWeightsOf repoWeights)).map fun repos =>
        { state with
          writer := .envelopeChange
          jobId := none
          triggerId := none
          appliedAt := now
          envelopeDigest := digest
          weights := .ofList (entries.map fun id => (id,(state.weights.get? id).getD 0))
          repoWeights := repoWeights
          reasons := state.reasons.filter fun id _ => id ∈ entries
          vector := vector
          repos := repos
          clamped := false }

/-- A host's call: the envelope it holds, its digest, whether it has reported that digest as a foreign one, the time. -/
structure Host where
  envelope : Envelope
  digest : String
  reported : Bool
  now : Instant

/-- The state, none for a newer build's, and whether the host may not enforce it. -/
structure Reconciled where
  state : Option State
  mismatch : Bool

/-- Either every change is done, or one was lost and the next round begins. -/
def reconcileRound (host : Host) (again : Call Reconciled) : Call Reconciled :=
  (ensure host.envelope host.digest host.now).andThen fun
    | none => returning ⟨none,true⟩
    | some state =>
      let change (next : Except TypeError State) (outcome : AuditOutcome) : Call Reconciled :=
        (compute next).andThen fun next =>
          (cas state next).andThen fun won =>
            if won then (recordSystem outcome).andThen fun _ => returning ⟨some next,false⟩ else again
      if state.envelopeDigest ≠ host.digest then
        (expectedDigest state.envelopeDigest).andThen fun expected =>
          if expected ≠ some host.digest then
            (if host.reported then returning () else record .envelopeChangedExternally).andThen fun _ =>
              returning ⟨some state,true⟩
          else change (rebased state host.envelope host.digest host.now) .rebased
      else
        (expectedDigest host.digest).andThen fun _ =>
          if state.planId ≠ none ∧ ¬host.envelope.delegation.enabled then
            change (neutralState host.envelope host.digest host.now .envelopeChange state.lastPlanAt) .neutral
          else if ∃ validUntil ∈ state.validUntil, validUntil ≤ host.now then
            change (neutralState host.envelope host.digest host.now .expiry state.lastPlanAt) .expired
          else returning ⟨some state,false⟩

/-- After the rounds, one more read to answer from. -/
def reconcileRounds (host : Host) : Nat → Call Reconciled
  | 0 => (ensure host.envelope host.digest host.now).andThen fun
    | none => returning ⟨none,true⟩
    | some state => returning ⟨some state,state.envelopeDigest ≠ host.digest⟩
  | rounds + 1 => reconcileRound host (reconcileRounds host rounds)

def reconcile (host : Host) : Call Reconciled := reconcileRounds host 4

/-- A plan as it is judged: its id, the plan id it saw, its weights, and the instant it ends. -/
structure Plan where
  id : String
  basis : Option String
  weights : Dict String Int
  repoWeights : RepoShares
  reasons : Dict String String
  validUntil : Instant

/-- What a plan's text is judged to be. -/
inductive ParsedPlan
  | invalid
  | incomplete (plan : Plan)
  | ok (plan : Plan)

inductive Refusal
  | planInvalid
  | delegationOff
  | writerNotAllowed
  | envelopeMismatch
  | planDuplicate
  | planStale
  | planTooSoon
  | planIncomplete
  | planBusy
  deriving DecidableEq

/-- Who sends a plan; none for a name that is no plan writer's. -/
structure Sender where
  kind : Option PlanWriter
  jobId : Option String
  triggerId : Option String

def tooSoon (delegation : Delegation) (lastPlanAt : Option Instant) (now : Instant) : Prop :=
  ∃ last ∈ lastPlanAt, (now : Int) - last < delegation.minIntervalHours.getD 0 * 60 * 60 * 1000

instance (delegation : Delegation) : (lastPlanAt : Option Instant) → (now : Instant) →
    Decidable (tooSoon delegation lastPlanAt now)
  | none,_ => isFalse fun ⟨_,impossible,_⟩ => nomatch impossible
  | some last,now => decidable_of_iff ((now : Int) - last < delegation.minIntervalHours.getD 0 * 60 * 60 * 1000)
      ⟨fun soon => ⟨last,rfl,soon⟩,fun ⟨_,rfl,soon⟩ => soon⟩

/-- The ladder's rungs that need no state. -/
def writerRefusal (delegation : Delegation) (kind : Option PlanWriter) : Option Refusal :=
  if ¬delegation.enabled then some .delegationOff
  else if ∀ writer ∈ kind, writer ∉ delegation.writers then some .writerNotAllowed
  else none

/-- The first rung a plan stops on against a state; `complete` is false for one that left an entry out. -/
def planRefusal (delegation : Delegation) (kind : Option PlanWriter) (plan : Plan) (complete : Bool)
    (planId : Option String) (lastPlanAt : Option Instant) (now : Instant) : Option Refusal :=
  match writerRefusal delegation kind with
  | some refusal => some refusal
  | none =>
    if some plan.id = planId then some .planDuplicate
    else if plan.basis ≠ planId then some .planStale
    else if tooSoon delegation lastPlanAt now then some .planTooSoon
    else if ¬complete then some .planIncomplete
    else none

inductive Outcome
  | applied (planId : String) (clamped : Bool)
  | duplicate
  | refused (reason : Refusal)
  | applyFailed
  | reverted (planId : Option String)

def refused (reason : Refusal) : Call Outcome :=
  (record (if reason = .planDuplicate then .duplicate else .refused)).andThen fun _ =>
    returning (if reason = .planDuplicate then .duplicate else .refused reason)

/-- The section under the lock, which is released however the section ends. -/
def locked (mine : String) (busy : Call Outcome) (section' : Call Outcome) : Call Outcome :=
  (ask (.takeLock mine)).andThen fun taken =>
    if taken then section'.bind fun result =>
      @Program.issue Alloc _ (.releaseLock mine) fun _ => .done result
    else busy

/-- The row first, then the write; a lost write adds its own row. -/
def writing (current next : State) (row : AuditOutcome) (outcome : Outcome) : Call Outcome :=
  (record row).andThen fun _ =>
    (cas current next).andThen fun won =>
      if won then returning outcome
      else (record .applyFailed).andThen fun _ => returning .applyFailed

def planState (host : Host) (sender : Sender) (kind : PlanWriter) (plan : Plan) (result : Priorities.Allocation) : State where
  planId := some plan.id
  basis := plan.basis
  writer := .plan kind
  jobId := sender.jobId
  triggerId := sender.triggerId
  appliedAt := host.now
  lastPlanAt := some host.now
  validUntil := some plan.validUntil
  envelopeDigest := host.digest
  weights := plan.weights
  repoWeights := plan.repoWeights
  reasons := plan.reasons
  vector := result.vector
  repos := result.repos
  clamped := result.clamped

/-- The rungs below the text's own judgement; `mine` is the lock's value, the call's own. -/
def applyJudged (host : Host) (sender : Sender) (mine : String) (plan : Plan) (complete : Bool) : Call Outcome :=
  match writerRefusal host.envelope.delegation sender.kind with
  | some refusal => refused refusal
  | none =>
    (reconcile host).andThen fun reconciled =>
      match reconciled.state with
      | none => refused .envelopeMismatch
      | some state =>
        if reconciled.mismatch then refused .envelopeMismatch
        else match planRefusal host.envelope.delegation sender.kind plan complete state.planId state.lastPlanAt host.now with
          | some refusal => refused refusal
          | none => locked mine (refused .planBusy) <|
            (compute (allocate host.envelope (intWeights plan.weights) (some state.vector)
              (repoWeightsOf plan.repoWeights))).andThen fun result =>
                match sender.kind with
                | none => refused .writerNotAllowed
                | some kind => writing state (planState host sender kind plan result) .applied
                  (.applied plan.id result.clamped)

def applyPlan (host : Host) (sender : Sender) (mine : String) : ParsedPlan → Call Outcome
  | .invalid => refused .planInvalid
  | .incomplete plan => applyJudged host sender mine plan false
  | .ok plan => applyJudged host sender mine plan true

/-- A row of the log to go back to; its weights as they were written, none where it has none. -/
structure Target where
  expired : Bool
  planId : Option String
  weights : Option Weights
  repoWeights : Repos

def Target.toNeutral (target : Target) : Bool := target.weights.isSome && (target.expired || target.planId.isNone)

def revertState (host : Host) (state : State) (target : Target) : Except TypeError State :=
  if target.toNeutral then
    (neutralState host.envelope host.digest host.now .operatorRevert (some host.now)).map fun neutral =>
      { neutral with basis := state.planId }
  else
    let weights := target.weights.getD .empty
    let repoWeights := target.repoWeights.filter fun id _ => id ∈ envelopeEntries host.envelope ∧ id ≠ OTHER
    (allocate host.envelope weights none repoWeights).map fun result =>
      { planId := target.planId
        basis := state.planId
        writer := .operatorRevert
        jobId := none
        triggerId := none
        appliedAt := host.now
        lastPlanAt := some host.now
        validUntil := some (host.now + (host.envelope.delegation.maxPlanDays.getD 0).toNat * 86400000)
        envelopeDigest := host.digest
        weights := weights.map fun weight => weight.getD 0
        repoWeights := repoWeights.map fun weights => weights.map fun weight => weight.getD 0
        reasons := .empty
        vector := result.vector
        repos := result.repos
        clamped := false }

def revert (host : Host) (mine : String) (target : Target) : Call Outcome :=
  if ¬host.envelope.delegation.enabled then refused .delegationOff
  else if ¬target.toNeutral ∧ sortTexts (target.weights.getD .empty).keys ≠ envelopeEntries host.envelope then
    refused .planIncomplete
  else
    (reconcile host).andThen fun reconciled =>
      match reconciled.state with
      | none => refused .envelopeMismatch
      | some state =>
        if reconciled.mismatch then refused .envelopeMismatch
        else locked mine (refused .planBusy) <|
          (compute (revertState host state target)).andThen fun next =>
            writing state next .reverted (.reverted next.planId)

end PiDispatch.Allocation
