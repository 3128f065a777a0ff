import PiDispatch.ProviderCalls

/-! The cost guard: what it holds of a job's dollar cap, how it lets a call through, what it charges when the call
settles, and the check of the body that is sent in the end. A ticket is known by its place; the charges made are kept
with what they were made for. -/
namespace PiDispatch.UsageMeter
open Payload

def LONG_CONTEXT_TOKENS : Rat := 200000

def ANTHROPIC_PRICED_APIS : List String := ["anthropic-messages","bedrock-converse-stream"]

structure Ticket where
  bound : Nat
  model : Model
  stream : Bool
  settled : Bool

/-- What a charge was made for: the bound its ticket had, and the message it settled with. -/
structure Charge where
  ticket : Nat
  model : Model
  bound : Nat
  message : Option Message
  charged : Nat

structure CostGuard where
  spent : Int
  inflight : Int
  refused : Nat
  boundExceeded : Nat
  longContext : Nat
  unjudged : Nat
  unanswered : Nat
  why : Option String
  pending : Option Nat
  tickets : List Ticket
  charges : List Charge

/-- The output cap, cache retention and number of answers that a final body asks for. -/
structure FinalPayload where
  payload : Value
  maxTokens : Option Rat
  longCache : Bool
  n : Value

/-- What a bound is asked for: a call as its caller makes it, or with the body that it sends in the end. -/
structure Ask (Context Options : Type) where
  method : Method
  model : Model
  context : Context
  options : Options
  finalPayload : Option FinalPayload

/-- The cap and the bound, in micro-dollars; a bound of none is infinite. -/
structure CostPolicy (Context Options : Type) where
  capMicros : Nat
  bound : Ask Context Options → Option Nat
  unreadable : Options → Bool

namespace CostGuard

def initial : CostGuard := ⟨0,0,0,0,0,0,0,none,none,[],[]⟩

def refuse (guard : CostGuard) (why : String) : CostGuard :=
  { guard with refused := guard.refused + 1, why := guard.why.or (some why) }

/-- What is spent outside of the guard, where no function for it is given and what the given one answers: none for a
throw or for anything but a finite number. The result is none where it is infinite. -/
def externalMicros (external : Option (Option Rat)) : Option Rat :=
  match external with
  | none => some 0
  | some none => none
  | some (some value) => if 0 ≤ value then some value else none

def noTiers (tiers : Value) : Bool :=
  match tiers with
  | .undefined | .null => true
  | .array _ items => items.isEmpty
  | .string text => text = ""
  | _ => false

def micros (dollars : Rat) : Nat := ⌈dollars * 1000000⌉.toNat

def inputSide (usage : Usage) : Rat := usage.input.getD 0 + usage.cacheRead.getD 0 + usage.cacheWrite.getD 0

/-- The long context tier of the two priced apis. -/
def passedTier (model : Model) (usage : Usage) : Bool :=
  model.api ∈ ANTHROPIC_PRICED_APIS && noTiers (model.cost.get "tiers") && LONG_CONTEXT_TOKENS < inputSide usage

def synthetic (cost : UsageCost) : Rat :=
  2 * (cost.input.getD 0 + cost.cacheRead.getD 0 + cost.cacheWrite.getD 0) + 3 / 2 * cost.output.getD 0

/-- A message whose usage names a price, with both. -/
def priced (message : Option Message) : Option (Message × Usage × UsageCost × Rat) := do
  let message ← message
  let usage ← message.usage
  let cost ← usage.cost
  let price ← cost.total
  pure (message,usage,cost,price)

/-- What a priced message is charged on a ticket. -/
def charge (model : Model) (bound : Nat) (message : Message) (usage : Usage) (cost : UsageCost) (price : Rat) : Nat :=
  let charged := micros price
  let charged :=
    if message.failed = true ∧ started message = false then charged
    else if message.failed = true ∨ unreportedUsage message model.api = true then max charged bound
    else charged
  if passedTier model usage = true then max charged (micros (synthetic cost)) else charged

/-- The ticket settles: it leaves what is in flight, and is charged. -/
def settle (guard : CostGuard) (place : Nat) (message : Option Message) : CostGuard :=
  match guard.tickets[place]? with
  | none => guard
  | some ticket =>
    if ticket.settled = true then guard
    else
      let guard := { guard with
        tickets := guard.tickets.set place { ticket with settled := true }
        inflight := guard.inflight - ticket.bound }
      match priced message with
      | none => { guard with
          spent := guard.spent + ticket.bound
          charges := ⟨place,ticket.model,ticket.bound,message,ticket.bound⟩ :: guard.charges }
      | some (answer,usage,cost,price) =>
        let charged := charge ticket.model ticket.bound answer usage cost price
        { guard with
          spent := guard.spent + charged
          unanswered := guard.unanswered + if answer.failed = true ∧ started answer = false then 1 else 0
          longContext := guard.longContext + if passedTier ticket.model usage = true then 1 else 0
          boundExceeded := guard.boundExceeded + if ticket.bound < charged then 1 else 0
          charges := ⟨place,ticket.model,ticket.bound,message,charged⟩ :: guard.charges }

def flushPending (guard : CostGuard) : CostGuard :=
  match guard.pending with
  | none => guard
  | some place => settle { guard with pending := none } place none

variable {Context Options : Type}

/-- The bound of a call, where the guard can judge it by one. -/
def boundOf (policy : CostPolicy Context Options) (ask : Ask Context Options) (pinned : Option (Option Pinned)) : Option Nat :=
  if (match pinned with
    | some pinned => !pricedAsPinned ask.model pinned
    | none => false) = true then none
  else if ask.model.unreadable = true ∨ policy.unreadable ask.options = true then none
  else if ask.method = .generateImages ∨ ask.method = .streamDeferred then none
  else policy.bound ask

def hold (guard : CostGuard) (ask : Ask Context Options) (bound : Nat) : CostGuard :=
  { guard with
    inflight := guard.inflight + bound
    pending := some guard.tickets.length
    tickets := guard.tickets ++ [⟨bound,ask.model,ask.method ∉ RUNTIME_RESULT_METHODS,false⟩] }

/-- A call is let through, or refused for the cap. -/
def admitCall (policy : CostPolicy Context Options) (guard : CostGuard) (external : Option (Option Rat))
    (ask : Ask Context Options) (pinned : Option (Option Pinned)) : CostGuard × Option Stop :=
  let guard := guard.flushPending
  match boundOf policy ask pinned with
  | none => (guard.refuse "unboundable",some .costCap)
  | some bound => match externalMicros external with
    | none => (guard.refuse "external",some .costCap)
    | some outside =>
      if policy.capMicros < ((guard.spent + guard.inflight + bound : Int) : Rat) + outside then
        (guard.refuse "over-cap",some .costCap)
      else (guard.hold ask bound,none)

/-- What a dispatch answered with: nothing to settle from where it threw. -/
inductive Answer
  | stream
  | promise
  | neither
  deriving DecidableEq

/-- The admission just made is tied to its answer; the ticket is the one that the answer will settle. -/
def bind (guard : CostGuard) (answer : Answer) : CostGuard × Option Nat :=
  match guard.pending with
  | none => (guard,none)
  | some place =>
    let guard := { guard with pending := none }
    match answer with
    | .stream | .promise => (guard,some place)
    | .neither =>
      let bound := ((guard.tickets[place]?).map Ticket.bound).getD 0
      (settle { guard with unanswered := guard.unanswered + if 0 < bound then 1 else 0 } place none,none)

/-- What a promise settles to: a value, which may have a stream's `result`, or a rejection. -/
inductive Settlement
  | fulfilled (result : Bool) (value : Option Message)
  | rejected

def streams (guard : CostGuard) (place : Nat) : Bool := ((guard.tickets[place]?).map Ticket.stream).getD false

/-- Whether a stream method's promise has resolved to its stream, whose result is still to come. -/
def opens (guard : CostGuard) (place : Nat) (answer : Answer) (settlement : Settlement) : Bool :=
  match answer,settlement with
  | .promise,.fulfilled result _ => guard.streams place && result
  | _,_ => false

/-- A ticket's answer has settled. -/
def answered (guard : CostGuard) (place : Nat) (answer : Answer) (settlement : Settlement) : CostGuard :=
  match answer,settlement with
  | .neither,_ => guard
  | .stream,.fulfilled _ value => guard.settle place value
  | .promise,.fulfilled result value =>
    if guard.streams place = false then guard.settle place value
    else if result = true then guard
    else guard.settle place none
  | _,.rejected => guard.settle place none

end CostGuard

/-! The body that is sent in the end. -/

def is1h : Value → Bool
  | .string text => text = "1h"
  | _ => false

mutual

def longCache : Value → Bool
  | .array _ items => longCacheItems items
  | .object made members =>
    is1h (((Value.object made members).get "cache_control").get "ttl") ||
      is1h (((Value.object made members).get "cachePoint").get "ttl") || longCacheMembers members
  | _ => false

def longCacheItems : List Value → Bool
  | [] => false
  | item :: items => longCache item || longCacheItems items

def longCacheMembers : List (String × Value) → Bool
  | [] => false
  | member :: members => longCacheMember member || longCacheMembers members

def longCacheMember : String × Value → Bool
  | (_,value) => longCache value

end

def figure : Value → Option Rat
  | .number (.finite value) => some value
  | .number .negativeZero => some 0
  | _ => none

def outputCaps (sent : Value) : List Value :=
  [sent.get "max_tokens",sent.get "max_completion_tokens",sent.get "max_output_tokens",
    (sent.get "config").get "maxOutputTokens",(sent.get "inferenceConfig").get "maxTokens"].filter fun value =>
      match value with
      | .undefined | .null => false
      | _ => true

variable {Context Options : Type}

/-- The plain JSON to send, and what its bound is asked for. -/
def finalBody (ask : Ask Context Options) (payload next : Value) : Option (Value × Ask Context Options) := do
  let sent ← jsonClone (if next.defined = true then next else payload)
  let caps ← (outputCaps sent).mapM figure
  let named := match figure (sent.get "max_tokens") with
    | some value => decide (0 < value)
    | none => false
  if sent.isPlain = true ∧ (completionsOwnServer ask.model = true → named = true) then
    some (sent,{ ask with finalPayload := some ⟨sent,caps.max?,longCache sent,sent.get "n"⟩ })
  else none

/-- The payload hook that a ticket's call is prepared with, once the caller's own hook has answered. -/
def CostGuard.onPayload (policy : CostPolicy Context Options) (guard : CostGuard) (external : Option (Option Rat))
    (place : Nat) (ask : Ask Context Options) (payload next : Value) : CostGuard × Option Value :=
  match guard.tickets[place]? with
  | none => (guard,none)
  | some ticket =>
    let refused := (guard.refuse "final-payload",none)
    match finalBody ask payload next with
    | none => refused
    | some (sent,final) => match policy.bound final,externalMicros external with
      | some bound,some outside =>
        let enlarged := max ticket.bound bound
        if ticket.settled = true ∨
            policy.capMicros < ((guard.spent + guard.inflight - ticket.bound + enlarged : Int) : Rat) + outside then refused
        else ({ guard with
          inflight := guard.inflight + (enlarged - ticket.bound : Int)
          tickets := guard.tickets.set place { ticket with bound := enlarged } },some sent)
      | _,_ => refused

end PiDispatch.UsageMeter
