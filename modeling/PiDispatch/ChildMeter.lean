import PiDispatch.CostGuard
import PiDispatch.UsageMeter

/-! The meter of a pi child process: the calls its wrappers judge, dispatch and observe, and the ledger file it writes on
every change and before each call. The file is replaced whole; the ledgers written are kept, latest first, each with
the number of calls admitted and observed by then. -/
namespace PiDispatch.UsageMeter
open Payload

inductive LedgerState
  | starting
  | running
  | done
  deriving DecidableEq

structure LedgerTotals where
  input : Rat
  output : Rat
  total : Rat
  cost : Rat
  calls : Nat
  unresolved : Nat
  unpriced : Nat
  sessions : Nat

structure Ledger where
  state : LedgerState
  metered : Bool
  totals : LedgerTotals
  rows : List LedgerRow
  spentMicros : Int
  inflightMicros : Int
  costRefused : Nat
  modelRefused : Nat
  boundExceeded : Nat
  costUnanswered : Nat
  costUnreported : Nat
  longContext : Nat
  costUnjudged : Nat

/-- The policy guard of a child: its cost guard under a cap, and its model guard's refusals under a list. -/
structure PolicyGuard where
  cost : Option CostGuard
  modelRefused : Option Nat

def PolicyGuard.counter (policy : PolicyGuard) (count : CostGuard → Nat) : Nat := (policy.cost.map count).getD 0

/-- The ledger of a child, from its meter and its guard, with zeros for one that is not metered. -/
def childLedger (state : LedgerState) (metered : Bool) (meter : Meter) (policy : PolicyGuard) : Ledger :=
  if metered = true then
    { state := state
      metered := true
      totals := ⟨meter.input,meter.output,meter.total,meter.cost,meter.calls,meter.unresolved,meter.unpriced,
        meter.sessionIds.length⟩
      rows := meter.rows
      spentMicros := (policy.cost.map CostGuard.spent).getD 0
      inflightMicros := (policy.cost.map CostGuard.inflight).getD 0
      costRefused := policy.counter CostGuard.refused
      modelRefused := policy.modelRefused.getD 0
      boundExceeded := policy.counter CostGuard.boundExceeded
      costUnanswered := policy.counter CostGuard.unanswered
      costUnreported := meter.unreported
      longContext := policy.counter CostGuard.longContext
      costUnjudged := policy.counter CostGuard.unjudged }
  else ⟨state,false,⟨0,0,0,0,0,0,0,0⟩,[],0,0,0,0,0,0,0,0,0⟩

/-- The reservation joins the calls and the unresolved ones. -/
def Ledger.reserve (ledger : Ledger) (reserved : Nat) : Ledger :=
  { ledger with totals := { ledger.totals with
      calls := ledger.totals.calls + reserved
      unresolved := ledger.totals.unresolved + reserved } }

/-- A call that the wrappers judge, with what the list, the parent's files and the caller's session say of it. -/
structure Call (Context Options : Type) where
  ask : Ask Context Options
  pinned : Option (Option Pinned)
  external : Option (Option Rat)
  listed : Bool
  stopFile : Option Stop
  session : Option String
  virtual : Bool

/-- An observed call that has not settled; a promise of a stream may turn out to be counted already. -/
structure Outstanding where
  ctx : CallContext
  pending : Bool

/-- A call in dispatch. -/
structure Frame where
  ctx : CallContext
  method : Method
  virtual : Bool

/-- A ledger as it was written, and how many calls had been admitted and observed by then. -/
structure Written where
  ledger : Ledger
  admitted : Nat
  observed : Nat

structure Child (Context Options : Type) where
  meter : Meter
  policy : PolicyGuard
  prepared : List (Ask Context Options)
  frames : List Frame
  outstanding : List Outstanding
  floor : Nat
  failed : Bool
  metered : Bool
  live : Bool
  done : Bool
  admitted : Nat
  files : List Written

/-- What a dispatch gives its wrapper. -/
inductive Given
  | stream (id : Nat)
  | promise (id : Nat)
  | nothing
  | thrown
  deriving DecidableEq

def Given.answer : Given → CostGuard.Answer
  | .stream _ => .stream
  | .promise _ => .promise
  | .nothing | .thrown => .neither

namespace Child
variable {Context Options : Type}

/-- A write of the ledger, which succeeds or fails as `ok` says. -/
def write (child : Child Context Options) (state : LedgerState) (ok : Bool) : Child Context Options :=
  if child.done = true ∨ child.live = false then child
  else
    let child := { child with done := child.done || decide (state = LedgerState.done) }
    let ledger := childLedger state child.metered child.meter child.policy
    let reserved := if child.metered = true then child.floor - ledger.totals.calls else 0
    if ok = true then { child with files := ⟨ledger.reserve reserved,child.admitted,child.meter.calls⟩ :: child.files }
    else { child with failed := true, metered := false }

/-- The meter's one stop; the first wins, and is a change. -/
def stop (child : Child Context Options) (reason : Stop) (ok : Bool) : Child Context Options :=
  if child.meter.stopReason.isSome = true then child
  else write { child with meter := { child.meter with stopReason := some reason } } .running ok

def isStopped (child : Child Context Options) (stopFile : Option Stop) : Option Stop :=
  if child.failed = true then some .tokenBudget else stopFile

/-- The policy guard's verdict: the list first, then the cap. -/
def policyAdmit (cap : Option (CostPolicy Context Options)) (policy : PolicyGuard) (call : Call Context Options) :
    PolicyGuard × Option Stop :=
  match policy.modelRefused with
  | some refused =>
    if call.listed = false then ({ policy with modelRefused := some (refused + 1) },some .modelNotAllowed)
    else costAdmit policy
  | none => costAdmit policy
where
  costAdmit (policy : PolicyGuard) : PolicyGuard × Option Stop :=
    match cap,policy.cost with
    | some cap,some guard =>
      let (guard,refused) := guard.admitCall cap call.external call.ask call.pinned
      ({ policy with cost := some guard },refused)
    | _,_ => (policy,none)

/-- The pre-dispatch write: an admitted call is counted in flight before it goes out, and a write that fails refuses
it. -/
def guardAdmit (cap : Option (CostPolicy Context Options)) (child : Child Context Options) (call : Call Context Options)
    (ok : Bool) : Child Context Options × Option Stop :=
  match policyAdmit cap child.policy call with
  | (policy,some refused) => ({ child with policy := policy },some refused)
  | (policy,none) =>
    let before := child.floor
    let child := write { child with
      policy := policy
      floor := max child.floor (child.meter.calls + 1)
      live := true
      admitted := child.admitted + 1 } .running ok
    if child.failed = false then (child,none)
    else ({ child with floor := before, admitted := child.admitted - 1 },some .tokenBudget)

inductive Act (Context Options : Type)
  | call (call : Call Context Options) (ok stopOk : Bool)
  | returns (given : Given) (ok : Bool)
  | payload (place : Nat) (payload next : Value) (listed : Bool) (external : Option (Option Rat)) (ok : Bool)
  | charged (place : Nat) (answer : CostGuard.Answer) (settlement : CostGuard.Settlement)
  | resolves (index id : Nat)
  | settles (index : Nat) (settled : Meter.Settled) (ok : Bool)
  | unjudged (count : Nat)
  | exits (ok : Bool)

inductive Reply
  | dispatched
  | braked
  | done
  deriving DecidableEq

/-- `judge`, for a call that the guard may judge. -/
def judge (cap : Option (CostPolicy Context Options)) (child : Child Context Options) (call : Call Context Options)
    (ok stopOk : Bool) : Child Context Options × Reply :=
  if child.meter.stopReason.isSome = true then (child,.braked)
  else match child.isStopped call.stopFile with
    | some reason => (child.stop reason stopOk,.braked)
    | none => match guardAdmit cap child call ok with
      | (child,some refused) => (child.stop refused stopOk,.braked)
      | (child,none) => ({ child with
          prepared := if child.policy.cost.isSome = true then child.prepared ++ [call.ask] else child.prepared
          frames := ⟨⟨call.session,some call.ask.model.provider,some call.ask.model.id,call.ask.model⟩,call.ask.method,
            call.virtual⟩ :: child.frames },.dispatched)

def countObserved (child : Child Context Options) (frame : Frame) (seen : Option Nat) (pending ok : Bool) :
    Child Context Options :=
  write { child with
    meter := child.meter.observe seen
    outstanding := child.outstanding ++ [⟨frame.ctx,pending⟩] } .running ok

/-- `observe`, or `observeResult` for the two result methods. -/
def observed (child : Child Context Options) (frame : Frame) (given : Given) (ok : Bool) : Child Context Options :=
  if frame.virtual = true then child
  else if frame.method ∈ RUNTIME_RESULT_METHODS then match given with
    | .promise _ => child.countObserved frame none false ok
    | _ => child
  else match given with
    | .stream id => if id ∈ child.meter.observed then child else child.countObserved frame (some id) false ok
    | .promise id => if id ∈ child.meter.observed then child else child.countObserved frame (some id) true ok
    | _ => child

def refusePayload (child : Child Context Options) (policy : PolicyGuard) (reason : Stop) (ok : Bool) : Child Context Options :=
  stop { child with policy := policy } reason ok

/-- The prepared payload hooks of a call: the list's, then the cap's. -/
def payloadHook (cap : Option (CostPolicy Context Options)) (child : Child Context Options) (place : Nat)
    (payload next : Value) (listed : Bool) (external : Option (Option Rat)) (ok : Bool) : Child Context Options :=
  match child.policy.modelRefused,listed with
  | some refused,false => child.refusePayload { child.policy with modelRefused := some (refused + 1) } .modelNotAllowed ok
  | _,_ => match cap,child.policy.cost,child.prepared[place]? with
    | some cap,some guard,some ask => match guard.onPayload cap external place ask payload next with
      | (guard,some _) => { child with policy := { child.policy with cost := some guard } }
      | (guard,none) => child.refusePayload { child.policy with cost := some guard } .costCap ok
    | _,_,_ => child

def onCost (child : Child Context Options) (act : CostGuard → CostGuard) : Child Context Options :=
  { child with policy := { child.policy with cost := child.policy.cost.map act } }

def step (cap : Option (CostPolicy Context Options)) (act : Act Context Options) (child : Child Context Options) :
    Reply × Child Context Options :=
  match act with
  | .call call ok stopOk =>
    let (child,reply) := child.judge cap call ok stopOk
    (reply,child)
  | .returns given ok => match child.frames with
    | [] => (.done,child)
    | frame :: frames =>
      let bound := onCost { child with frames := frames } fun guard => (guard.bind given.answer).1
      (.done,bound.observed frame given ok)
  | .payload place payload next listed external ok => (.done,child.payloadHook cap place payload next listed external ok)
  | .charged place answer settlement => (.done,child.onCost fun guard => guard.answered place answer settlement)
  | .resolves index id =>
    (.done,if (child.outstanding[index]?).map Outstanding.pending = some true then
        { child with meter := { child.meter with observed := id :: child.meter.observed } }
      else child)
  | .settles index settled ok => match child.outstanding[index]? with
    | none => (.done,child)
    | some call =>
      (.done,write { child with
        outstanding := child.outstanding.eraseIdx index
        meter := child.meter.settle none call.ctx settled } .running ok)
  | .unjudged count => (.done,child.onCost fun guard => { guard with unjudged := guard.unjudged + count })
  | .exits ok => (.done,child.write .done ok)

/-- A child whose meter has installed, with or without a cap and a list; a lazy one writes nothing yet. -/
def start (cap : Option (CostPolicy Context Options)) (list lazy ok : Bool) : Child Context Options :=
  write ⟨.initial,⟨cap.map fun _ => .initial,if list = true then some 0 else none⟩,[],[],[],0,false,true,!lazy,false,0,[]⟩
    .running ok

end Child

end PiDispatch.UsageMeter
