import PiDispatch.Kernel.JsonText
import PiDispatch.SteerInbox

/-! The runner's half of a run's inbox: it reads the messages that the worker left, holds them in two queues and hands one at a
time to the running agent. Each event of the agent, of the timer and of the close meets the directory, the frames and the agent
as they then are. -/
namespace PiDispatch.RunnerInbox
open Kernel Octets JsonText Utf16 SteerFraming
open SteerInbox (Source STEER_MODES STEER_SOURCES)

def INBOX_FILE_MAX_BYTES : Nat := 16 * 1024
def MAX_DELIVERED_IDS : Nat := 16

/-- A message as it is held; a frame has no file. -/
structure Held where
  id : Units
  mode : SteerInbox.Mode
  source : Source
  content : Units
  name : Text
  deriving DecidableEq

/-- What is given to the agent. -/
structure Message where
  id : Units
  mode : SteerInbox.Mode
  source : Source
  content : Units
  ack : Units
  deriving DecidableEq

inductive Refusal
  | notJson
  | notAnObject
  | unknownField
  | version
  | id
  | mode
  | source
  | content
  | tooLarge
  deriving DecidableEq

section Parse

variable (numbers : Numbers)

def isId (id : Units) : Bool := isSteerId (id.map fun unit => Char.ofNat unit.toNat) && id.all fun unit => unit.toNat < 128

def ENTRY_KEYS : List Units := [spell "v",spell "id",spell "mode",spell "source",spell "content"]

def isBlank (unit : UInt16) : Bool :=
  unit.toNat ∈ [9,10,11,12,13,32,160,5760,8232,8233,8239,8287,12288,65279] || (8192 ≤ unit.toNat && unit.toNat ≤ 8202)

def textOf (value : Option (JsonValue numbers.Value)) : Option Units :=
  match value with
  | some (.string units) => some units
  | _ => none

def isOne (value : Option (JsonValue numbers.Value)) : Bool :=
  match value with
  | some (.number value) => numbers.safe? value = some 1
  | _ => false

/-- One file's message, or the reason it is refused. -/
def parseInboxEntry (text : Text) (idFromName : Option Units) (name : Text) : Except Refusal Held :=
  match parse numbers text with
  | none => .error .notJson
  | some (.object members) =>
    let entry : JsonValue numbers.Value := .object members
    if ¬members.all fun member => member.1 ∈ ENTRY_KEYS then .error .unknownField
    else if ¬isOne numbers (entry.field? (spell "v")) then .error .version
    else match (textOf numbers (entry.field? (spell "id"))).filter fun id => isId id && idFromName = some id with
      | none => .error .id
      | some id => match (textOf numbers (entry.field? (spell "mode"))).bind fun own =>
          STEER_MODES.find? fun mode => spell mode.text = own with
        | none => .error .mode
        | some mode => match (textOf numbers (entry.field? (spell "source"))).bind fun own =>
            STEER_SOURCES.find? fun source => spell source.text = own with
          | none => .error .source
          | some source => match (textOf numbers (entry.field? (spell "content"))).filter fun own => ¬own.all isBlank with
            | none => .error .content
            | some content => .ok ⟨id,mode,source,content,name⟩
  | some _ => .error .notAnObject

/-- The id in a file's name, six digits before it. -/
def idOfName (name : Text) : Option Units :=
  if name.length = 44 ∧ (name.take 6).all Char.isDigit ∧ name[6]? = some '-' ∧ isSteerId ((name.drop 7).take 32) ∧
    name.drop 39 = ".json".toList then some (ofText ((name.drop 7).take 32)) else none

end Parse

inductive FileRead
  | gone
  | file (size : Nat) (text : Text)

/-- A frame that verifies; an id that is no string is none. -/
structure Frame where
  id : Option Units
  body : Text

inductive Event
  | attach
  | listen
  | agentStart
  | turnEnd
  | agentEnd
  | messageEnd (mine : Option Units)
  | beforeSettle
  | settled
  | timer
  | close
  deriving DecidableEq

/-- What an event meets: the agent, the inbox directory and what the frames' descriptor holds. -/
structure Surroundings where
  busy : Bool
  parked : Bool
  names : Option (List Text)
  read : Text → FileRead
  exists' : Text → Bool
  frames : List Frame
  streamEnds : Bool

/-- What happens, newest first. -/
inductive Deed
  | event (event : Event) (busy parked : Bool)
  | queued (held : Held)
  | dropped (held : Held)
  | handed (held : Held) (message : Message)
  | delivered (id : Units)
  | shut

structure Config where
  numbers : Numbers
  framed : Bool
  seenIds : List Units
  inboxAck : Units → Units

structure Inbox where
  seen : List Units
  arrived : List Held
  reading : Bool
  readerDone : Bool
  refused : List Text
  steers : List Held
  followUps : List Held
  attached : Bool
  active : Bool
  closed : Bool
  inFlight : Option Held
  delivered : Nat
  deliveredIds : List Units
  heldLogged : Nat
  log : List Deed

section Scanning

variable (config : Config) (around : Surroundings)

def note (deed : Deed) (inbox : Inbox) : Inbox := { inbox with log := deed :: inbox.log }

def enqueue (held : Held) (inbox : Inbox) : Inbox :=
  match held.mode with
  | .steer => note (.queued held) { inbox with steers := inbox.steers ++ [held] }
  | .followUp => note (.queued held) { inbox with followUps := inbox.followUps ++ [held] }

def onFrame (frame : Frame) (inbox : Inbox) : Inbox :=
  let inbox := match frame.id.filter isId with
    | some id => { inbox with seen := id :: inbox.seen }
    | none => inbox
  if INBOX_FILE_MAX_BYTES < (utf8 frame.body).length then inbox
  else match parseInboxEntry config.numbers frame.body frame.id [] with
    | .error _ => inbox
    | .ok held => { inbox with arrived := inbox.arrived ++ [held] }

/-- A frame whose id was seen is a replay. -/
def judgeFrame (frame : Frame) (inbox : Inbox) : Inbox :=
  if frame.id.any fun id => id ∈ inbox.seen then inbox else onFrame config frame inbox

/-- Everything the descriptor holds now. -/
def readAvailable (inbox : Inbox) : Inbox :=
  if ¬inbox.reading ∨ inbox.readerDone then inbox
  else
    let inbox := around.frames.foldl (fun inbox frame => judgeFrame config frame inbox) inbox
    if around.streamEnds then { inbox with reading := false, readerDone := true } else inbox

def scanName (name : Text) (inbox : Inbox) : Inbox :=
  match idOfName name with
  | none => inbox
  | some id =>
    if id ∈ inbox.seen ∨ name ∈ inbox.refused then inbox
    else match around.read name with
      | .gone => inbox
      | .file size text =>
        if INBOX_FILE_MAX_BYTES < size ∨ INBOX_FILE_MAX_BYTES < (utf8 text).length then
          { inbox with refused := name :: inbox.refused }
        else match parseInboxEntry config.numbers text (some id) name with
          | .error _ => { inbox with refused := name :: inbox.refused }
          | .ok held => enqueue held { inbox with seen := id :: inbox.seen }

def sorted (names : List Text) : List Text := names.insertionSort fun one other => ¬other < one

def scan (inbox : Inbox) : Inbox :=
  if config.framed then
    let inbox := readAvailable config around inbox
    inbox.arrived.foldl (fun inbox held => enqueue held inbox) { inbox with arrived := [] }
  else match around.names with
    | none => inbox
    | some names => (sorted names).foldl (fun inbox name => scanName config around name inbox) inbox

end Scanning

section Handing

variable (config : Config) (around : Surroundings)

def pending (inbox : Inbox) : Nat :=
  inbox.steers.length + inbox.followUps.length + if inbox.inFlight.isSome then 1 else 0

/-- The worker has not unlinked the message's file; a frame has none. -/
def stillWaiting (held : Held) : Bool := config.framed || around.exists' held.name

def drop (gone : List Held) (inbox : Inbox) : Inbox := { inbox with log := (gone.map Deed.dropped).reverse ++ inbox.log }

def pruneWithdrawn (inbox : Inbox) : Inbox :=
  let waits := stillWaiting config around
  let inbox := drop (inbox.steers.filter fun held => ¬waits held) { inbox with steers := inbox.steers.filter waits }
  drop (inbox.followUps.filter fun held => ¬waits held) { inbox with followUps := inbox.followUps.filter waits }

def noteHeld (inbox : Inbox) : Inbox :=
  let inbox := pruneWithdrawn config around inbox
  { inbox with heldLogged := max inbox.heldLogged (pending inbox) }

def hand (held : Held) (inbox : Inbox) : Inbox :=
  note (.handed held ⟨held.id,held.mode,held.source,held.content,config.inboxAck held.id⟩) { inbox with inFlight := some held }

/-- The first steer that still waits, with those withdrawn before it dropped. -/
def shiftSteers (inbox : Inbox) : Inbox :=
  let gone := fun held => ¬stillWaiting config around held
  drop (inbox.steers.takeWhile gone) { inbox with steers := inbox.steers.dropWhile gone }

def shiftFollowUps (inbox : Inbox) : Inbox :=
  let gone := fun held => ¬stillWaiting config around held
  drop (inbox.followUps.takeWhile gone) { inbox with followUps := inbox.followUps.dropWhile gone }

/-- Whether a message was handed over. -/
def pump (atBoundary : Bool) (inbox : Inbox) : Bool × Inbox :=
  if ¬inbox.attached ∨ inbox.closed ∨ ¬inbox.active ∧ ¬atBoundary ∨ ¬around.busy ∨ inbox.inFlight.isSome then (false,inbox)
  else if inbox.steers = [] ∧ (¬atBoundary ∨ inbox.followUps = []) then (false,inbox)
  else if around.parked then (false,noteHeld config around inbox)
  else
    let inbox := shiftSteers config around inbox
    match inbox.steers with
    | next :: rest => (true,hand config next { inbox with steers := rest })
    | [] =>
      if ¬atBoundary then (false,inbox)
      else
        let inbox := shiftFollowUps config around inbox
        match inbox.followUps with
        | next :: rest => (true,hand config next { inbox with followUps := rest })
        | [] => (false,inbox)

def poll (inbox : Inbox) : Inbox := (pump config around false (scan config around inbox)).2

def shut (inbox : Inbox) : Inbox := note .shut { inbox with closed := true, active := false }

end Handing

section Events

variable (config : Config)

def deliver (mine : Option Units) (around : Surroundings) (inbox : Inbox) : Inbox :=
  match inbox.inFlight with
  | none => inbox
  | some held =>
    if mine ≠ some held.id then inbox
    else
      let ids := if inbox.deliveredIds.length < MAX_DELIVERED_IDS then inbox.deliveredIds ++ [held.id] else inbox.deliveredIds
      (pump config around false (note (.delivered held.id) { inbox with
        delivered := inbox.delivered + 1, deliveredIds := ids, inFlight := none })).2

def listen (around : Surroundings) (inbox : Inbox) : Inbox :=
  if ¬config.framed ∨ inbox.reading ∨ inbox.readerDone ∨ inbox.closed then inbox
  else readAvailable config around { inbox with reading := true }

/-- The agent's own events reach an inbox that is attached to it. -/
def happen (event : Event) (around : Surroundings) (inbox : Inbox) : Inbox :=
  match event with
  | .attach => { inbox with attached := true }
  | .listen => listen config around inbox
  | .timer => poll config around inbox
  | .close =>
    let inbox := pruneWithdrawn config around (scan config around (shut inbox))
    { inbox with reading := false, readerDone := true }
  | .agentStart =>
    if ¬inbox.attached ∨ inbox.closed then inbox
    else
      let inbox := { inbox with active := true }
      (pump config around false (if config.framed then scan config around inbox else inbox)).2
  | .turnEnd => if ¬inbox.attached ∨ inbox.closed then inbox else poll config around inbox
  | .agentEnd => if ¬inbox.attached then inbox else { inbox with active := false }
  | .messageEnd mine => if ¬inbox.attached then inbox else deliver config mine around inbox
  | .beforeSettle =>
    if ¬inbox.attached ∨ inbox.closed ∨ inbox.inFlight.isSome then inbox
    else
      let (pushed,inbox) := pump config around true (scan config around inbox)
      if pushed then inbox else shut inbox
  | .settled => if ¬inbox.attached then inbox else shut inbox

def handle (inbox : Inbox) (next : Event × Surroundings) : Inbox :=
  happen config next.1 next.2 (note (.event next.1 next.2.busy next.2.parked) inbox)

/-- An entry of the session's transcript, of the inbox's own type; an id or an ack that is no string is none. -/
structure Shown where
  id : Option Units
  ack : Option Units

def isMac (ack : Units) : Bool :=
  ack.length = 64 && ack.all fun unit => (48 ≤ unit.toNat && unit.toNat ≤ 57) || (97 ≤ unit.toNat && unit.toNat ≤ 102)

/-- The ids that a transcript shows as delivered. -/
def shownIds (transcript : List Shown) : List Units :=
  transcript.filterMap fun shown => shown.id.filter fun id =>
    isId id && shown.ack.any fun ack => isMac ack && config.inboxAck id = ack

def seed (transcript : List Shown) (inbox : Inbox) : Inbox :=
  let shown := shownIds config transcript
  let keep := fun held : Held => held.id ∉ shown
  { inbox with
    seen := shown ++ inbox.seen, arrived := inbox.arrived.filter keep, steers := inbox.steers.filter keep
    followUps := inbox.followUps.filter keep }

def fresh : Inbox where
  seen := config.seenIds
  arrived := []
  reading := false
  readerDone := false
  refused := []
  steers := []
  followUps := []
  attached := false
  active := false
  closed := false
  inFlight := none
  delivered := 0
  deliveredIds := []
  heldLogged := 0
  log := []

/-- Frames are read from before the session is there, and then seeded by its transcript. -/
def createInbox (early : Surroundings) (transcript : List Shown) : Inbox :=
  seed config transcript (listen config early (fresh config))

end Events

end PiDispatch.RunnerInbox
