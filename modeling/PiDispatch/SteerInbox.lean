import PiDispatch.Clock
import PiDispatch.SteerFraming
import PiDispatch.Kernel.Checks
import PiDispatch.Kernel.Dict

/-! The inbox of a running job: its four keys and the scripts on them, each one step. The text scrub and the framing
are taken as functions; nothing here rests on what they do. -/
namespace PiDispatch.SteerInbox
open Kernel SteerFraming

def STEER_MAX_MESSAGES : Nat := 16
def STEER_TOTAL_MAX_BYTES : Nat := 64 * 1024
def STEER_TEXT_MAX_BYTES : Nat := 8 * 1024
def STEER_TARGET_PREFIX : String := "run:steer:target:"
def HOST_MAX : Nat := 255

inductive Mode
  | steer
  | followUp
  deriving DecidableEq

def Mode.text : Mode → String
  | .steer => "steer"
  | .followUp => "followUp"

def STEER_MODES : List Mode := [.steer,.followUp]

inductive Source
  | forge
  | console
  | cli
  | panel
  deriving DecidableEq

def Source.text : Source → String
  | .forge => "forge"
  | .console => "console"
  | .cli => "cli"
  | .panel => "panel"

def STEER_SOURCES : List Source := [.forge,.console,.cli,.panel]

inductive MessageState
  | queued
  | written
  | delivered
  | withdrawn
  | late
  deriving DecidableEq

/-- A forge author by user id and association; an operator by a token-name word. -/
inductive Author
  | forge (id association : String)
  | operator (by' : String)
  deriving DecidableEq

structure Entry where
  id : String
  mode : Mode
  source : Source
  author : Author
  text : String
  at' : Instant
  deliveryId : Option String
  hop : Option Nat
  deriving DecidableEq

def Entry.bytes (entry : Entry) : Nat := entry.text.utf8ByteSize

/-- What a sender hands over; `text` is none for what is no well-formed text. -/
structure RawEntry where
  id : String
  mode : String
  source : String
  author : Author
  text : Option String
  at' : Option Instant
  deliveryId : Option String
  hop : Option Int
  deriving DecidableEq

/-- The functions on texts: the scrub, whether a text has nothing to say, and whether a message can be framed and
its file fits. -/
structure Texts where
  scrub : String → String
  blank : String → Bool
  framed : Entry → Bool
  fits : Entry → Bool

section Normalize
variable (texts : Texts)

def boundSteerText : Option String → Except String String
  | none => .error "the message is malformed text (it holds an unpaired UTF-16 surrogate); nothing was sent"
  | some raw =>
    let text := texts.scrub raw
    if texts.blank text then
      .error "the message is empty (after control and invisible characters are removed); nothing was sent"
    else if text.utf8ByteSize > STEER_TEXT_MAX_BYTES then
      .error ("the message is " ++ toString text.utf8ByteSize ++ " bytes, above the " ++ toString STEER_TEXT_MAX_BYTES ++
        "-byte limit; shorten it. Nothing was sent")
    else .ok text

/-- The author and the source must agree. -/
def authorOf : Source → Author → Except String Author
  | .forge,.forge id association =>
    if isForgeUser id.toList ∧ isAssociation association.toList then .ok (.forge id association)
    else .error "a forge message needs a forge author with a forge user id and an association"
  | .forge,_ => .error "a forge message needs a forge author with a forge user id and an association"
  | _,.operator by' =>
    if isTokenName by'.toList then .ok (.operator by')
    else .error "an operator message needs an operator author named by a token-name word"
  | _,_ => .error "an operator message needs an operator author named by a token-name word"

/-- `DELIVERY_ID_RE`. -/
def isDeliveryId (text : List Char) : Bool :=
  1 ≤ text.length && text.length ≤ 128 &&
    text.all fun letter => letter.isAlphanum || letter = '.' || letter = '_' || letter = ':' || letter = '-'

def normalizeSteerEntry (raw : RawEntry) (now : Instant) : Except String Entry :=
  (check (isSteerId raw.id.toList) "the message id is not 32 lowercase hex characters").bind fun _ =>
  (demand (STEER_MODES.find? fun mode => mode.text = raw.mode) "the mode is not one of steer, followUp").bind fun mode =>
  (demand (STEER_SOURCES.find? fun source => source.text = raw.source)
    "the source is not one of forge, console, cli, panel").bind fun source =>
  (authorOf source raw.author).bind fun author =>
  (boundSteerText texts raw.text).bind fun text =>
  (check (raw.deliveryId.all fun id => isDeliveryId id.toList) "the delivery id is not a plain delivery GUID").bind fun _ =>
  (check (raw.hop.all fun hop => 0 ≤ hop ∧ hop ≤ 8) "the hop is not a small non-negative integer").bind fun _ =>
  let entry : Entry := ⟨raw.id,mode,source,author,text,raw.at'.getD now,raw.deliveryId,raw.hop.map Int.toNat⟩
  (check (texts.framed entry)
    "the message cannot be framed for the run (an author or reference outside its charset). Nothing was sent").bind fun _ =>
  (check (texts.fits entry) ("the message, framed for the run, would be above the 16384-byte inbox file limit " ++
    "(long runs of backticks, quotes and backslashes count extra); shorten it. Nothing was sent")).bind fun _ =>
  .ok entry

/-- What is stored keeps the id, which is one, and the hop. -/
theorem normalize_kept {raw : RawEntry} {now : Instant} {entry : Entry}
    (ok : normalizeSteerEntry texts raw now = .ok entry) :
    entry.id = raw.id ∧ isSteerId entry.id.toList ∧ entry.hop = raw.hop.map Int.toNat := by
  unfold normalizeSteerEntry at ok
  obtain ⟨_,steer,ok⟩ := passed_bind ok
  obtain ⟨mode,_,ok⟩ := passed_bind ok
  obtain ⟨source,_,ok⟩ := passed_bind ok
  obtain ⟨author,_,ok⟩ := passed_bind ok
  obtain ⟨text,_,ok⟩ := passed_bind ok
  obtain ⟨_,_,ok⟩ := passed_bind ok
  obtain ⟨_,_,ok⟩ := passed_bind ok
  obtain ⟨_,_,ok⟩ := passed_bind ok
  obtain ⟨_,_,ok⟩ := passed_bind ok
  cases ok
  exact ⟨rfl,check_ok steer,rfl⟩

end Normalize

/-- One run's keys: the host that has it open, whether it is closed, the list, and the state hash with its counters. -/
structure Inbox where
  opened : Option String
  closed : Bool
  list : List Entry
  state : Dict String MessageState
  count : Nat
  bytes : Nat

def Inbox.empty : Inbox := ⟨none,false,[],.empty,0,0⟩

inductive Pushed
  | ok
  | dup
  | closed
  | gone
  | full
  deriving DecidableEq

def Inbox.push (inbox : Inbox) (entry : Entry) : Inbox :=
  { inbox with list := inbox.list ++ [entry], state := inbox.state.set entry.id .queued }

/-- `dup` first, then `closed`, then `gone`. -/
def PUSH_SCRIPT (inbox : Inbox) (entry : Entry) : Pushed × Inbox :=
  if (inbox.state.get? entry.id).isSome then (.dup,inbox)
  else if inbox.closed then (.closed,inbox)
  else if inbox.opened.isNone then (.gone,inbox)
  else if inbox.count + 1 > STEER_MAX_MESSAGES ∨ inbox.bytes + entry.bytes > STEER_TOTAL_MAX_BYTES then (.full,inbox)
  else (.ok,{ inbox.push entry with count := inbox.count + 1, bytes := inbox.bytes + entry.bytes })

inductive Preseeded
  | ok (added : Nat)
  | closed
  | full
  deriving DecidableEq

/-- The messages of a batch that the inbox does not have. -/
def Inbox.fresh (inbox : Inbox) (batch : List Entry) : List Entry :=
  batch.filter fun entry => (inbox.state.get? entry.id).isNone

def seed (inbox : Inbox) (entry : Entry) : Inbox :=
  if (inbox.state.get? entry.id).isNone then inbox.push entry else inbox

/-- All or nothing, decided before anything is written. -/
def PRESEED_SCRIPT (inbox : Inbox) (batch : List Entry) : Preseeded × Inbox :=
  if inbox.closed then (.closed,inbox)
  else
    let add := (inbox.fresh batch).length
    let addBytes := ((inbox.fresh batch).map Entry.bytes).sum
    if inbox.count + add > STEER_MAX_MESSAGES ∨ inbox.bytes + addBytes > STEER_TOTAL_MAX_BYTES then (.full,inbox)
    else (.ok add,{ batch.foldl seed inbox with count := inbox.count + add, bytes := inbox.bytes + addBytes })

def waiting (state : MessageState) : Bool := state = .queued || state = .written

/-- The state it found. -/
def WITHDRAW_SCRIPT (inbox : Inbox) (id : String) : Option MessageState × Inbox :=
  match inbox.state.get? id with
  | none => (none,inbox)
  | some current =>
    (some current,if waiting current then { inbox with state := inbox.state.set id .withdrawn } else inbox)

/-- What the final close answers. -/
structure Closing where
  entries : List Entry
  state : Dict String MessageState
  count : Nat
  bytes : Nat
  first : Bool
  deriving DecidableEq

def settled (_ : String) (state : MessageState) : MessageState := if waiting state then .late else state

def CLOSE_SCRIPT (inbox : Inbox) : Closing × Inbox :=
  let state := inbox.state.mapValues settled
  (⟨inbox.list,state,inbox.count,inbox.bytes,!inbox.closed⟩,
    { inbox with opened := none, closed := true, state := state })

def MARK_SCRIPT (inbox : Inbox) (id : String) (next : MessageState) (priors : List MessageState) :
    (Bool × Option MessageState) × Inbox :=
  match inbox.state.get? id with
  | none => ((false,none),inbox)
  | some current =>
    if current ∈ priors then ((true,some current),{ inbox with state := inbox.state.set id next })
    else ((false,some current),inbox)

def HOLD_SCRIPT (inbox : Inbox) (host : String) : Bool × Inbox :=
  if inbox.closed then (false,inbox) else (true,{ inbox with opened := some host })

end PiDispatch.SteerInbox
