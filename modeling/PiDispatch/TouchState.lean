import PiDispatch.Kernel.Dict
import PiDispatch.Kernel.Machine

/-! The index of touches: who stepped into which run and when. An event's text lies under its own key, its identity in an
index by instant, what the index has let go of in an epoch beside it, and actions that have begun in a fourth key. Each
script is one step; a read is the snapshot of three keys and then the texts, batch after batch. -/
namespace PiDispatch.TouchState
open Kernel

def TOUCH_CAUSES : List String := ["question-answer","approval-decision","rerun","config-fix","steer","cancel"]
def WAIT_END_REASONS : List String := ["approval-expired","approval-policy-changed"]
def ANSWER_SOURCES : List String := ["forge","console","panel","draft"]
def TOUCH_TYPES : List String := ["stop","touch","wait-end"]
def TOUCH_MAX_EVENTS : Nat := 30000
def READ_BATCH : Nat := 500
def MAX_SAFE_INTEGER : Int := 9007199254740991

/-- Whole milliseconds that a number holds exactly. -/
def isMs (value : Int) : Bool := 0 ≤ value && value ≤ MAX_SAFE_INTEGER

def lettersOf (allowed : Char → Bool) (least most : Nat) (text : String) : Bool :=
  least ≤ text.toList.length && text.toList.length ≤ most && text.toList.all allowed

def isId : String → Bool := lettersOf (fun letter => letter.isAlphanum || letter ∈ ['.','_',':','-']) 1 200
def isHash : String → Bool := lettersOf (fun letter => letter.isDigit || letter ∈ ['a','b','c','d','e','f']) 64 64
def isTarget : String → Bool :=
  lettersOf (fun letter => letter.isAlphanum || letter ∈ ['.','_',':','/','#','!',' ','-']) 1 300

def isProject (text : String) : Bool :=
  lettersOf (fun letter => letter.isLower || letter.isDigit || letter ∈ ['_','-']) 1 64 text &&
    text.toList.head?.all fun letter => letter.isLower || letter.isDigit

/-- A digest in hexadecimal. -/
structure Digest where
  hex : String → String
  proper : ∀ text, isHash (hex text)

/-- What a client says of a touch; what it leaves out is none. -/
structure Touch where
  type : Option String
  id : Option String
  runId : String
  cause : Option String
  reason : Option String
  instant : Int
  nonce : Option String
  answerSource : Option String
  draftRunId : Option String
  scopeId : Option String
  project : Option String
  target : Option String
  endedAt : Option Int
  parkedAt : Option Int
  receivedAt : Option Int
  deriving DecidableEq

inductive Kind
  | stop
  | touch (cause : String)
  | waitEnd (reason : String)
  deriving DecidableEq

/-- A touch as it is stored. -/
structure Event where
  id : String
  kind : Kind
  runId : String
  instant : Int
  scopeId : Option String
  project : Option String
  target : Option String
  answerSource : Option String
  draftRunId : Option String
  endedAt : Option Int
  parkedAt : Option Int
  receivedAt : Option Int
  deriving DecidableEq

namespace Kind

def type : Kind → String
  | .stop => "stop"
  | .touch _ => "touch"
  | .waitEnd _ => "wait-end"

def cause : Kind → Option String
  | .touch cause => some cause
  | _ => none

def reason : Kind → Option String
  | .waitEnd reason => some reason
  | _ => none

end Kind

def kindOf (value : Touch) : Option Kind :=
  if value.type = some "wait-end" then
    if value.cause.isSome then none
    else match value.reason with
      | some reason => if reason ∈ WAIT_END_REASONS then some (.waitEnd reason) else none
      | none => none
  else if value.type = some "stop" then some .stop
  else match value.cause with
    | some cause => if cause ∈ TOUCH_CAUSES then some (.touch cause) else none
    | none => none

/-- No optional field of the touch is one that is refused. -/
def fieldsFit (value : Touch) : Bool :=
  value.answerSource.all (fun source => source ∈ ANSWER_SOURCES) && value.draftRunId.all isId && value.scopeId.all isHash &&
    value.project.all isProject && value.target.all isTarget &&
    [value.endedAt,value.parkedAt,value.receivedAt].all fun field => field.all isMs

def touchId (digest : Digest) (kind : Kind) (value : Touch) : String :=
  match value.id.filter isHash with
  | some id => id
  | none => digest.hex (kind.type ++ "\x00" ++ value.runId ++ "\x00" ++ (value.cause.or value.reason).getD "" ++ "\x00" ++
      value.nonce.getD (toString value.instant))

def cleanTouch (digest : Digest) (value : Touch) : Option Event :=
  if isId value.runId = false ∨ isMs value.instant = false then none
  else if value.type.any fun type => type ∉ TOUCH_TYPES then none
  else match kindOf value with
    | none => none
    | some kind =>
      if fieldsFit value then
        some ⟨touchId digest kind value,kind,value.runId,value.instant,value.scopeId,value.project,value.target,
          value.answerSource,value.draftRunId,value.endedAt,value.parkedAt,value.receivedAt⟩
      else none

/-- An event as its text is parsed again. -/
def Event.spoken (event : Event) : Touch :=
  ⟨some event.kind.type,some event.id,event.runId,event.kind.cause,event.kind.reason,event.instant,none,event.answerSource,
    event.draftRunId,event.scopeId,event.project,event.target,event.endedAt,event.parkedAt,event.receivedAt⟩

/-- When tracking began, whether its index was ever written, and the score up to which it was cut. -/
structure Epoch where
  since : Int
  indexed : Bool
  horizon : Option Int
  deriving DecidableEq

/-- A read under way: what the snapshot found, the texts still to be fetched, the events so far, and when last a text was
missing. Kept beside them: the events stored since tracking began, the highest score evicted since, and the actions begun
and not resolved, as they were at the snapshot. -/
structure Reading where
  epoch : Option Epoch
  todo : List String
  held : Nat
  present : Bool
  events : List Event
  missingAt : Int
  stored : List Event
  evicted : Option Int
  begun : List String
  deriving DecidableEq

/-- The four keys, the reads under way, and, kept beside them: the events stored since tracking last began and ever, the
highest score evicted since, and the actions begun and not resolved. -/
structure Touches where
  epoch : Option Epoch
  index : Dict String Int
  bodies : String → Option Event
  pending : Dict String Int
  reads : List Reading
  stored : List Event
  ever : List Event
  evicted : Option Int
  begun : List String

namespace Touches

def empty : Touches := ⟨none,.empty,fun _ => none,.empty,[],[],[],none,[]⟩

def restart (touches : Touches) (since : Int) : Touches :=
  { touches with epoch := some ⟨since,false,none⟩, stored := [], evicted := none }

def initialized (touches : Touches) (now : Int) : Touches :=
  match touches.epoch with
  | none => touches.restart now
  | some _ => touches

/-- The epoch a write finds: a new one where there is none, or where its index is gone. -/
def opened (touches : Touches) (since : Int) : Touches :=
  match touches.epoch with
  | none => touches.restart since
  | some epoch => if touches.index.entries = [] ∧ epoch.indexed then touches.restart since else touches

/-- The event's text is stored once; its place in the index is that of the last write. -/
def place (touches : Touches) (event : Event) : Touches :=
  let index := touches.index.set event.id event.instant
  let epoch := touches.epoch.map fun epoch => { epoch with indexed := true }
  if touches.bodies event.id = none then
    { touches with
      index := index
      epoch := epoch
      bodies := Function.update touches.bodies event.id (some event)
      stored := event :: touches.stored
      ever := event :: touches.ever }
  else { touches with index := index, epoch := epoch }

def raise (touches : Touches) (score : Int) : Option Epoch :=
  touches.epoch.map fun epoch => { epoch with horizon := some (max (epoch.horizon.getD 0) score) }

def age (touches : Touches) (oldest : Int) : Touches :=
  if touches.index.entries.any fun entry => entry.2 < oldest then
    { touches with index := touches.index.filter fun _ score => oldest ≤ score, epoch := touches.raise oldest }
  else touches

/-- Lowest score first, and of one score the lowest name. -/
def ranksBefore (first second : String × Int) : Bool :=
  first.2 < second.2 || (first.2 = second.2 && first.1 ≤ second.1)

def overflow (touches : Touches) : List (String × Int) :=
  (touches.index.entries.mergeSort ranksBefore).take (touches.index.entries.length - TOUCH_MAX_EVENTS)

def remains (touches : Touches) (id : String) (_ : Int) : Bool := id ∉ touches.overflow.map Prod.fst

theorem remains_iff (touches : Touches) (id : String) (score : Int) :
    touches.remains id score = true ↔ id ∉ touches.overflow.map Prod.fst := decide_eq_true_iff

/-- The entries that overflow go, and the score of the last of them is remembered. -/
def cut (touches : Touches) (remains : String → Int → Bool) : Option (String × Int) → Touches
  | none => touches
  | some last =>
    { touches with
      index := touches.index.filter remains
      epoch := touches.raise last.2
      evicted := some (max (touches.evicted.getD last.2) last.2) }

def evict (touches : Touches) : Touches := touches.cut touches.remains touches.overflow.getLast?

def settle (touches : Touches) (id : String) : Touches :=
  { touches with pending := touches.pending.erase id, begun := touches.begun.filter fun other => other ≠ id }

/-- The `WRITE` script. -/
def write (touches : Touches) (since oldest : Int) (event : Event) : Touches :=
  ((((touches.opened since).place event).age oldest).evict).settle event.id

def begin' (touches : Touches) (event : Event) : Touches :=
  { touches with pending := touches.pending.set event.id event.instant, begun := event.id :: touches.begun }

/-- The `READ` script. -/
def snapshot (touches : Touches) : Reading :=
  ⟨touches.epoch,(touches.index.entries.mergeSort ranksBefore).map Prod.fst,touches.pending.entries.length,
    touches.index.entries ≠ [],[],0,touches.stored,touches.evicted,touches.begun⟩

end Touches

/-- One fetched text: an event, or none. -/
def Reading.take (digest : Digest) (now : Int) (reading : Reading) (body : Option Event) : Reading :=
  match body.bind fun event => cleanTouch digest event.spoken with
  | some event => { reading with events := reading.events ++ [event] }
  | none => { reading with missingAt := now }

def Reading.fetch (digest : Digest) (bodies : String → Option Event) (now : Int) (reading : Reading) : Reading :=
  { (reading.todo.take READ_BATCH).foldl (fun reading id => reading.take digest now (bodies id)) reading with
    todo := reading.todo.drop READ_BATCH }

inductive Why
  | notStarted
  | indexLost
  | unresolved
  | missing
  deriving DecidableEq

structure Coverage where
  fromMs : Int
  reasons : List Why
  deriving DecidableEq

def Coverage.isPartial (coverage : Coverage) : Bool := coverage.reasons ≠ []

def Reading.started (reading : Reading) : Option Int := (reading.epoch.map Epoch.since).filter isMs

def Reading.horizon (reading : Reading) : Int := ((reading.epoch.bind Epoch.horizon).getD 0)

def Reading.indexMissing (reading : Reading) : Bool := reading.epoch.any Epoch.indexed && !reading.present

/-- What a read answers beside its events, with what the clock shows it. -/
def Reading.coverage (ttl now : Int) (reading : Reading) : Coverage where
  fromMs := [reading.horizon,now - ttl,reading.missingAt,if reading.indexMissing || 0 < reading.held then now else 0].foldl max
    (reading.started.getD now)
  reasons := (if reading.started = none then [.notStarted] else []) ++ (if reading.indexMissing then [.indexLost] else []) ++
    (if 0 < reading.held then [.unresolved] else []) ++ (if reading.missingAt ≠ 0 then [.missing] else [])

inductive Act
  | initializes (now : Int)
  | begins (value : Touch)
  | abort (value : Touch)
  | write (value : Touch) (since agedAt : Int)
  | read
  | fetch (reading : Nat) (now : Int)
  | answer (reading : Nat) (now : Int)
  | loseEpoch
  | loseIndex
  | loseEvent (id : String)
  | losePending
  deriving DecidableEq

structure Config where
  digest : Digest
  ttl : Int

/-- One step of any client, or the loss or the expiry of a key; a read that is over answers. -/
def step (config : Config) (act : Act) (touches : Touches) : Option (Reading × Coverage) × Touches :=
  match act with
  | .initializes now => (none,touches.initialized now)
  | .begins value => (none,((cleanTouch config.digest value).map touches.begin').getD touches)
  | .abort value => (none,((cleanTouch config.digest value).map fun event => touches.settle event.id).getD touches)
  | .write value since agedAt =>
    (none,((cleanTouch config.digest value).map (touches.write since (agedAt - config.ttl))).getD touches)
  | .read => (none,{ touches with reads := touches.reads ++ [touches.snapshot] })
  | .fetch reading now =>
    (none,{ touches with reads := touches.reads.modify reading (Reading.fetch config.digest touches.bodies now) })
  | .answer reading now => match touches.reads[reading]? with
    | some found => (if found.todo = [] then some (found,found.coverage config.ttl now) else none,touches)
    | none => (none,touches)
  | .loseEpoch => (none,{ touches with epoch := none })
  | .loseIndex => (none,{ touches with index := .empty })
  | .loseEvent id => (none,{ touches with bodies := Function.update touches.bodies id none })
  | .losePending => (none,{ touches with pending := .empty })

end PiDispatch.TouchState
