import PiDispatch.Kernel.Contract
import PiDispatch.Kernel.Service
import PiDispatch.SteerInboxRuns
import PiDispatch.Valkey

/-! The worker's relay into a running job's inbox, over files or over frames on a pipe: one pass of it, command by
command. A relay's own variables are kept beside the inbox, by the relay's number, so that what happens to a relay while
a pass of it waits is a step like any other. -/
namespace PiDispatch.InboxRelay
open Kernel SteerInbox

/-- A relay's variables. -/
structure Memory where
  framed : Bool
  ready : Bool
  baselined : Bool
  stopped : Bool
  rebaseline : Option (List String)
  priorAcked : List String
  onDisk : List (String × String)
  attached : Bool
  sinkDead : Bool
  sinkEnded : Bool
  streamBytes : Nat
  nextSeq : Nat

def Memory.fresh (framed : Bool) : Memory := ⟨framed,false,false,false,none,[],[],false,false,false,0,2⟩

def Memory.file? (memory : Memory) (id : String) : Option String :=
  (memory.onDisk.find? fun placed => placed.1 = id).map Prod.snd

def Memory.sinkGone (memory : Memory) : Bool := !memory.attached || memory.sinkDead || memory.sinkEnded

/-- What a pass writes into its relay's variables. -/
inductive Note
  | placed (id file : String)
  | dropped (id : String)
  | rebaselined
  | sent (length : Nat)
  | sinkDied

def Memory.note (memory : Memory) : Note → Memory
  | .placed id file => { memory with onDisk := (id,file) :: memory.onDisk }
  | .dropped id => { memory with onDisk := memory.onDisk.filter fun placed => placed.1 ≠ id }
  | .rebaselined => { memory with rebaseline := none }
  | .sent length => { memory with nextSeq := memory.nextSeq + 1, streamBytes := memory.streamBytes + length }
  | .sinkDied => { memory with sinkDead := true }

/-- What happens to a relay from outside. -/
inductive Event
  | started
  | afterBaseline (prior verified : List String)
  | attached (written : Nat)
  | sinkDied
  | closeStdin
  | stopped

def Memory.meets (memory : Memory) : Event → Memory
  | .started => if memory.stopped then memory else { memory with ready := true }
  | .afterBaseline prior verified =>
    if memory.baselined ∨ memory.stopped then memory
    else { memory with baselined := true, rebaseline := some prior, priorAcked := verified }
  | .attached written =>
    if ¬memory.framed ∨ memory.attached then memory
    else { memory with attached := true, streamBytes := written, sinkEnded := memory.stopped }
  | .sinkDied => { memory with sinkDead := true }
  | .closeStdin => if memory.framed then { memory with sinkEnded := true } else memory
  | .stopped => { memory with stopped := true, sinkEnded := true }

/-- What one read of the inbox answers. -/
structure Reading where
  entries : List Entry
  state : Dict String MessageState
  closed : Bool

/-- The inbox, the relays, the ids that any runner was ever shown, and those whose withdrawal was answered `queued`. -/
structure Store where
  inbox : Inbox
  relays : Nat → Memory
  visible : List String
  guaranteed : List String

/-- A client marks nothing of its own. -/
def isClient : Act → Prop
  | .markState _ _ _ => False
  | _ => True

/-- The marks that a relay makes, but for a verified ack's. -/
inductive Move
  | written
  | acknowledged
  | rebaselined
  | late (prior : MessageState)

def Move.priors : Move → List MessageState
  | .written => [.queued]
  | .acknowledged => [.queued,.written]
  | .rebaselined => [.delivered]
  | .late prior => [prior]

def Move.next : Move → MessageState
  | .written | .rebaselined => .written
  | .acknowledged => .delivered
  | .late _ => .late

inductive Command
  | inbox (act : Act) (own : isClient act)
  | mark (id : String) (move : Move)
  | read
  | delivered (id : String)
  | reread (relay : Nat)
  | note (relay : Nat) (note : Note)
  | event (relay : Nat) (event : Event)
  | unlink (file : String)
  | write (file : String)
  | rename (file id : String)
  | pipe (id : String)

@[reducible] def Command.Carrier : Command → Type
  | .inbox _ _ | .mark _ _ => Answer
  | .read => Reading
  | .delivered _ => Bool
  | .reread _ => Memory
  | _ => Unit

def inboxFileName (index : Nat) (id : String) : String :=
  "".pushn '0' (6 - (toString (index + 1)).length) ++ toString (index + 1) ++ "-" ++ id ++ ".json"

def setMemory (store : Store) (relay : Nat) (memory : Memory) : Store :=
  { store with relays := fun other => if other = relay then memory else store.relays other }

/-- A withdrawal that finds its message queued has promised that nobody is shown it. -/
def promised : Act → Answer → List String
  | .withdrawSteer id,.prior (some .queued) => [id]
  | _,_ => []

def answer (texts : Texts) (store : Store) : (command : Command) → command.Carrier × Store
  | .inbox act _ =>
    ((step texts act store.inbox).1,{ store with
      inbox := (step texts act store.inbox).2
      guaranteed := promised act (step texts act store.inbox).1 ++ store.guaranteed })
  | .mark id move =>
    ((step texts (.markState id move.priors move.next) store.inbox).1,
      { store with inbox := (step texts (.markState id move.priors move.next) store.inbox).2 })
  | .read => (⟨store.inbox.list,store.inbox.state,store.inbox.closed⟩,store)
  | .delivered id =>
    ((MARK_SCRIPT store.inbox id .delivered [.written,.queued,.withdrawn]).1.1,
      { store with inbox := (MARK_SCRIPT store.inbox id .delivered [.written,.queued,.withdrawn]).2 })
  | .reread relay => (store.relays relay,store)
  | .note relay note => ((),setMemory store relay ((store.relays relay).note note))
  | .event relay event => ((),setMemory store relay ((store.relays relay).meets event))
  | .unlink _ => ((),store)
  | .write _ => ((),store)
  | .rename _ id => ((),{ store with visible := id :: store.visible })
  | .pipe id => ((),{ store with visible := id :: store.visible })

/-- A withdrawal whose answer is lost has promised nothing. -/
def unanswered (texts : Texts) (store : Store) (command : Command) : Store :=
  { (answer texts store command).2 with guaranteed := store.guaranteed }

/-- A relay's own variables are no service. -/
def loses : Command → Prop
  | .reread _ | .note _ _ | .event _ _ => False
  | _ => True

abbrev Relay : Signature := Fallible Command Command.Carrier Fault

abbrev Call (α : Type) := Program Relay α

def ask (command : Command) : Call (Except Fault command.Carrier) := @Program.issue Relay _ command .done

/-- The attempt's own numbers: its relay, whether an entry makes a file, and the length of its frame at a position. -/
structure Attempt where
  relay : Nat
  host : String
  targetKey : Option String
  makesFile : Entry → Bool
  frame : Nat → Entry → Option Nat
  budget : Nat

section Pass
variable (attempt : Attempt)

def markLate (entry : Entry) (state : MessageState) : Call Unit :=
  (ask (.mark entry.id (.late state))).bind fun _ => .done ()

def reread : Call Memory := (ask (.reread attempt.relay)).bind fun
  | .ok memory => .done memory
  | .error _ => .done (.fresh false)

def note (what : Note) (rest : Call Unit) : Call Unit := (ask (.note attempt.relay what)).bind fun _ => rest

/-- A queued message is marked before it is shown; a written one is shown again as it is. -/
def markFirst (entry : Entry) (state : MessageState) (show' refuse : Call Unit) : Call Unit :=
  if state = .queued then (ask (.mark entry.id .written)).bind fun
    | .ok (.marked true _) => show'
    | _ => refuse
  else show'

def writeFrame (entry : Entry) (state : MessageState) : Call Unit :=
  (reread attempt).bind fun memory =>
    if memory.sinkGone then .done ()
    else match attempt.frame memory.nextSeq entry with
      | none => markLate entry state
      | some length =>
        if memory.streamBytes + length > attempt.budget then markLate entry state
        else markFirst entry state
          (note attempt (.sent length) <| note attempt (.placed entry.id (toString memory.nextSeq)) <| (reread attempt).bind fun memory =>
            if memory.sinkGone then .done ()
            else (ask (.pipe entry.id)).bind fun
              | .ok () => .done ()
              | .error _ => note attempt .sinkDied (.done ()))
          (.done ())

def tmpName (id : String) : String := "." ++ id ++ ".tmp"

def place (entry : Entry) (index : Nat) (state : MessageState) : Call Unit :=
  (reread attempt).bind fun memory =>
    if memory.framed then writeFrame attempt entry state
    else if ¬attempt.makesFile entry then markLate entry state
    else (ask (.unlink (tmpName entry.id))).bind fun _ => (ask (.write (tmpName entry.id))).bind fun
      | .error _ => .done ()
      | .ok () => markFirst entry state
        ((ask (.rename (inboxFileName index entry.id) entry.id)).bind fun
          | .error _ => (ask (.unlink (tmpName entry.id))).bind fun _ => .done ()
          | .ok () => note attempt (.placed entry.id (inboxFileName index entry.id)) (.done ()))
        ((ask (.unlink (tmpName entry.id))).bind fun _ => .done ())

/-- A placed file is unlinked; a frame has none. -/
def unlinkId (id : String) : Call Unit :=
  (reread attempt).bind fun memory =>
    match memory.file? id with
    | none => .done ()
    | some file => note attempt (.dropped id) <|
      if memory.framed then .done () else (ask (.unlink file)).bind fun _ => .done ()

/-- The entries from a position on, by the states of the pass's own reading. -/
def walk (state : Dict String MessageState) : Nat → List Entry → Call Unit
  | _,[] => .done ()
  | index,entry :: rest => (reread attempt).bind fun memory =>
    if memory.stopped then .done ()
    else match state.get? entry.id with
      | some .withdrawn | some .delivered | some .late =>
        (unlinkId attempt entry.id).bind fun _ => walk state (index + 1) rest
      | some own =>
        if (memory.file? entry.id).isSome then walk state (index + 1) rest
        else (place attempt entry index own).bind fun _ => walk state (index + 1) rest
      | none => walk state (index + 1) rest

/-- Messages still waiting whose verified ack the staged transcript has; none where the inbox faults. -/
def acknowledge (state : Dict String MessageState) : List String → Call (Option (Dict String MessageState))
  | [] => .done (some state)
  | id :: rest =>
    if (state.get? id).any waiting then (ask (.mark id .acknowledged)).bind fun
      | .ok (.marked true _) => acknowledge (state.set id .delivered) rest
      | .ok (.marked false _) => acknowledge state rest
      | _ => .done none
    else acknowledge state rest

/-- Delivered messages that the staged transcript does not have go back to `written`. -/
def rebaseline (prior : List String) (state : Dict String MessageState) :
    List String → Call (Option (Dict String MessageState))
  | [] => .done (some state)
  | id :: rest =>
    if state.get? id = some .delivered ∧ id ∉ prior then (ask (.mark id .rebaselined)).bind fun
      | .ok (.marked true _) => rebaseline prior (state.set id .written) rest
      | .ok (.marked false _) => rebaseline prior state rest
      | _ => .done none
    else rebaseline prior state rest

def rebased (memory : Memory) (state : Dict String MessageState) (next : Dict String MessageState → Call Unit) : Call Unit :=
  match memory.rebaseline with
  | none => next state
  | some prior => (acknowledge state memory.priorAcked).bind fun
    | none => .done ()
    | some state => (rebaseline prior state state.keys).bind fun
      | none => .done ()
      | some state => note attempt .rebaselined (next state)

def pass : Call Unit :=
  (reread attempt).bind fun memory =>
    if ¬memory.ready then .done ()
    else (ask (.inbox (.registerLive attempt.targetKey attempt.host) trivial)).bind fun _ => (reread attempt).bind fun memory =>
      if ¬memory.baselined ∨ memory.stopped then .done ()
      else (ask .read).bind fun
        | .error _ => .done ()
        | .ok reading =>
          if reading.closed then .done ()
          else (reread attempt).bind fun memory =>
            rebased attempt memory reading.state fun state => walk attempt state 0 reading.entries

/-- A verified ack. -/
def delivered (id : String) : Call Unit := (ask (.delivered id)).bind fun _ => unlinkId attempt id

end Pass

/-- The clients' calls, and any relay's passes, acks and events, any number of each at once. -/
inductive Enters : Call Unit → Prop
  | client (act : Act) (own : isClient act) : Enters ((ask (.inbox act own)).bind fun _ => .done ())
  | pass (attempt : Attempt) : Enters (pass attempt)
  | delivered (attempt : Attempt) (id : String) : Enters (delivered attempt id)
  | event (relay : Nat) (event : Event) : Enters ((ask (.event relay event)).bind fun _ => .done ())

/-- A verified ack is of a message that a runner was shown. -/
def Shown (store : Store) : Command → Prop
  | .delivered id => id ∈ store.visible
  | .event _ (.afterBaseline _ verified) => ∀ id ∈ verified, id ∈ store.visible
  | _ => True

def relays (texts : Texts) : Agency Relay Store (Call Unit) :=
  callers (MayFail (answer texts) (unanswered texts) loses Shown) Enters

/-- An empty inbox, and relays that each begin afresh. -/
def Store.start (framed : Nat → Bool) : Store := ⟨.empty,fun relay => .fresh (framed relay),[],[]⟩

end PiDispatch.InboxRelay
