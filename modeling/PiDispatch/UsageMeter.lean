import PiDispatch.ProviderCalls

/-! The usage meter of a pi process: its totals, the row of each model, and what is recorded when a call is observed and
when it settles. No token cap is set on the meter of a child. -/
namespace PiDispatch.UsageMeter
open Payload

structure Row where
  calls : Nat
  input : Rat
  output : Rat
  cacheRead : Rat
  cacheWrite : Rat
  cacheWrite1h : Rat
  reasoning : Rat
  total : Rat
  cost : Rat
  unpriced : Nat
  providerBilled : Nat

def emptyRow : Row := ⟨0,0,0,0,0,0,0,0,0,0,0⟩

def foldRow (into row : Row) : Row where
  calls := into.calls + row.calls
  input := into.input + row.input
  output := into.output + row.output
  cacheRead := into.cacheRead + row.cacheRead
  cacheWrite := into.cacheWrite + row.cacheWrite
  cacheWrite1h := into.cacheWrite1h + row.cacheWrite1h
  reasoning := into.reasoning + row.reasoning
  total := into.total + row.total
  cost := into.cost + row.cost
  unpriced := into.unpriced + row.unpriced
  providerBilled := into.providerBilled + row.providerBilled

structure NamedRow where
  provider : String
  model : String
  row : Row

/-- What is known of a call when it is observed. -/
structure CallContext where
  sessionId : Option String
  provider : Option String
  modelId : Option String
  model : Model

structure Meter where
  input : Rat
  output : Rat
  total : Rat
  cost : Rat
  rootTotal : Rat
  otherTotal : Rat
  looseTotal : Rat
  calls : Nat
  unresolved : Nat
  unpriced : Nat
  unreported : Nat
  stopReason : Option Stop
  sessionIds : List String
  byModel : List (String × NamedRow)
  other : Row
  observed : List Nat

namespace Meter

def initial : Meter := ⟨0,0,0,0,0,0,0,0,0,0,0,none,[],[],emptyRow,[]⟩

/-- A string with something in it. -/
def named (id : Option String) : Option String := id.filter fun id => id ≠ ""

def price (usage : Option Usage) : Option Rat := (Usage.price usage).map fun given => max 0 given

/-- What one call adds to its row. -/
def rowOf (usage : Option Usage) : Row where
  calls := 1
  input := finite (usage.bind Usage.input)
  output := finite (usage.bind Usage.output)
  cacheRead := finite (usage.bind Usage.cacheRead)
  cacheWrite := finite (usage.bind Usage.cacheWrite)
  cacheWrite1h := finite (usage.bind Usage.cacheWrite1h)
  reasoning := finite (usage.bind Usage.reasoning)
  total := finite (usage.bind Usage.totalTokens)
  cost := (price usage).getD 0
  unpriced := if (price usage).isSome = true then 0 else 1
  providerBilled :=
    if (price usage).isSome = true ∧ ((usage.bind Usage.cost).map UsageCost.totalFromProvider) = some true then 1 else 0

def landed (rows : List (String × NamedRow)) (provider model : String) (row : Row) : List (String × NamedRow) :=
  let key := provider ++ "\x00" ++ model
  if (rows.any fun held => held.1 = key) = true then
    rows.map fun held => if held.1 = key then (key,{ held.2 with row := foldRow held.2.row row }) else held
  else rows ++ [(key,⟨provider,model,foldRow emptyRow row⟩)]

/-- A settled call's usage joins the totals and its model's row, or that of the calls without a model. -/
def record (root : Option String) (meter : Meter) (usage : Option Usage) (ctx : CallContext) : Meter :=
  let row := rowOf usage
  let id := named ctx.sessionId
  let meter := { meter with
    input := meter.input + row.input
    output := meter.output + row.output
    total := meter.total + row.total
    cost := meter.cost + row.cost
    unpriced := meter.unpriced + row.unpriced
    sessionIds := match id with
      | some id => if id ∈ meter.sessionIds then meter.sessionIds else meter.sessionIds ++ [id]
      | none => meter.sessionIds
    rootTotal := meter.rootTotal + if root.isSome = true ∧ id = root then row.total else 0
    otherTotal := meter.otherTotal + if ¬(root.isSome = true ∧ id = root) ∧ id.isSome = true then row.total else 0
    looseTotal := meter.looseTotal + if ¬(root.isSome = true ∧ id = root) ∧ id.isSome = false then row.total else 0 }
  match named ctx.provider,named ctx.modelId with
  | some provider,some model => { meter with byModel := landed meter.byModel provider model row }
  | _,_ => { meter with other := foldRow meter.other row }

end Meter

def isObject : Value → Bool
  | .object _ _ | .array _ _ | .view _ _ _ _ | .reference _ _ _ => true
  | _ => false

def PRICE_RATES : List String := ["input","output","cacheRead","cacheWrite"]

/-- Whether a rate is above 0, or not to be read. -/
def rated : Value → Bool
  | .undefined => false
  | .number (.finite value) => 0 < value
  | .number .negativeZero => false
  | .number (.infinite negative) => !negative
  | _ => true

def pricedTable (table : Value) : Bool := !isObject table || PRICE_RATES.any fun key => rated (table.get key)

def anyTier (cost : Value) : Bool :=
  match cost.get "tiers" with
  | .array _ tiers => tiers.any pricedTable
  | _ => false

/-- Whether a call on this model costs money. -/
def pricedModel (model : Model) : Bool :=
  pricedTable model.cost || anyTier model.cost || match model.compat.get "allowedFallbackModels" with
    | .array _ fallbacks => fallbacks.any fun entry => pricedTable (entry.get "cost") || anyTier (entry.get "cost")
    | _ => false

namespace Meter

/-- A settled answer with broken usage is counted, unless its model is free or it was a forward's outer call. -/
def judgeUsage (meter : Meter) (message : Option Message) (ctx : CallContext) (forwarded : Bool) : Meter :=
  if pricedModel ctx.model = false ∨ forwarded = true then meter
  else if (message.map fun message => unreportedUsage message ctx.model.api) = some true then
    { meter with unreported := meter.unreported + 1 }
  else meter

/-- A call is counted when it is observed: `seen` is the stream or the promise that it answered with. -/
def observe (meter : Meter) (seen : Option Nat) : Meter :=
  { meter with
    calls := meter.calls + 1
    unresolved := meter.unresolved + 1
    observed := match seen with
      | some id => id :: meter.observed
      | none => meter.observed }

/-- How an observed call settles: with a message, or a value that has none; by a rejection; or by a stream that was
counted when it was dispatched. -/
inductive Settled
  | message (message : Option Message) (forwarded : Bool)
  | rejected
  | counted

def zeroUsage : Usage := ⟨some 0,some 0,some 0,some 0,none,none,some 0,some ⟨some 0,some 0,some 0,some 0,some 0,false⟩⟩

def settle (root : Option String) (meter : Meter) (ctx : CallContext) (settled : Settled) : Meter :=
  let meter := { meter with unresolved := meter.unresolved - 1 }
  match settled with
  | .message message forwarded => (meter.judgeUsage message ctx forwarded).record root (message.bind Message.usage) ctx
  | .rejected => meter.record root none ctx
  | .counted => meter.record root (some zeroUsage) ctx

end Meter

/-! The rows that a child's ledger carries. -/

def CHILD_LEDGER_ROWS : Nat := 120

def idLetter (letter : Char) : Bool :=
  ('a' ≤ letter && letter ≤ 'z') || ('0' ≤ letter && letter ≤ '9')

def idTail (letter : Char) : Bool := idLetter letter || letter ∈ ['.','_',':','/','@','-']

/-- `USAGE_ID_PATTERN`. -/
def usageId (id : List Char) : Bool :=
  decide (1 ≤ id.length) && decide (id.length ≤ 64) &&
    match (match id with
      | first :: rest => if first = '~' ∨ first = '@' then rest else id
      | [] => []) with
    | first :: rest => idLetter first && rest.all idTail
    | [] => false

def recordableId (id : String) : Bool :=
  id.toList ≠ [] && (id.toList.all fun letter => '!' ≤ letter && letter ≤ '~') && usageId (id.toList.map Char.toLower)

/-- A row of a ledger; without a provider and a model, that of the calls without one. -/
structure LedgerRow where
  provider : Option String
  model : Option String
  row : Row

def keepRow (kept : List LedgerRow × Row) (named : NamedRow) : List LedgerRow × Row :=
  if recordableId named.provider = true ∧ recordableId named.model = true ∧ kept.1.length < CHILD_LEDGER_ROWS - 1 then
    (kept.1 ++ [⟨some named.provider,some named.model,named.row⟩],kept.2)
  else (kept.1,foldRow kept.2 named.row)

/-- The named rows in first-seen order, and one for all the others. -/
def Meter.rows (meter : Meter) : List LedgerRow :=
  let (kept,bucket) := (meter.byModel.map Prod.snd).foldl keepRow ([],meter.other)
  if 0 < bucket.calls then kept ++ [⟨none,none,bucket⟩] else kept

end PiDispatch.UsageMeter
