import PiDispatch.Kernel.JsonText

/-! A terminal session of the gateway: what the browser, the terminal, the store, the runtime and the timer may each do next,
in any order. A stretch between two awaits reads the clock anew at each of its calls. -/
namespace PiDispatch.GatewaySession
open Kernel Utf16

def GATEWAY_AUTH_MS : Nat := 5000

namespace GATEWAY_LIMITS

def frameBytes : Nat := 65536
def inputBytes : Nat := 16384
def bytesPerSecond : Nat := 65536
def framesPerSecond : Nat := 80
def resizesPerSecond : Nat := 10
def activityPerSecond : Nat := 2
def bufferedBytes : Nat := 1048576
def pollMs : Nat := 1000
def pingMs : Nat := 15000
def minimumWidth : Int := 761
def maxCols : Int := 500
def maxRows : Int := 200

end GATEWAY_LIMITS
open GATEWAY_LIMITS

/-- A number that a browser sends; none for an infinite one. -/
abbrev Value := JsonValue (Option Rat)

structure Geometry where
  cols : Int
  rows : Int
  revision : Nat
  deriving DecidableEq

structure Watcher where
  watcherKey : String
  name : String
  state : String
  registeredRevision : Nat
  deriving DecidableEq

/-- What a session reads of a room's record. -/
structure Room where
  driverConnectionId : String
  enabled : Bool
  rosterRevision : Nat
  geometry : Geometry
  watchers : List Watcher
  deriving DecidableEq

inductive Kind
  | drive
  | watch (driverConnectionId : String)
  deriving DecidableEq

def Kind.isWatch : Kind → Bool
  | .drive => false
  | .watch _ => true

/-- What crosses the session, to the browser or to the terminal. -/
inductive Crossing
  | output (bytes : List UInt8)
  | sharing (room : Room)
  | geometry (geometry : Geometry)
  | ping
  | ended (reason : String)
  | input (data : Units)
  | resized (cols rows : Int)
  deriving DecidableEq

/-- What happens in a session, each reading of the clock and each passed check among it. -/
inductive Entry
  | turn
  | read (at' : Nat)
  | checked (at' : Nat)
  | renewed (requestedAt authRemainingMs : Nat)
  | crossed (what : Crossing)
  | window
  | lost
  | detached
  | released (reason : String)
  | told (reason : String) (auditFailed : Bool)
  deriving DecidableEq

inductive Method
  | setWatching (enabled : Bool)
  | removeWatcher (watcherKey : Units)
  | acknowledgeRoster (revision : Nat)
  deriving DecidableEq

/-- Where a control of the serialized chain stands. -/
inductive Phase
  | queued
  | applying
  | auditingIntent
  | storing (accountingFailed : Bool)
  | auditing (accountingFailed : Bool) (room : Room)
  deriving DecidableEq

structure Control where
  method : Method
  phase : Phase
  deriving DecidableEq

/-- What the session waits on. -/
inductive Task
  | renewing (requestedAt : Nat)
  | inspecting
  | resizing
  | telling
  | losing
  | releasing (reason : String)
  | auditingEnd (reason : String)
  deriving DecidableEq

structure Session where
  ended : Bool
  polling : Bool
  resizing : Bool
  transportLost : Bool
  pendingResize : Option (Int × Int)
  deadline : Nat
  lastInput : Nat
  rateSince : Nat
  frames : Nat
  inputBytes : Nat
  resizes : Nat
  activities : Nat
  timer : Bool
  listening : Bool
  peerAnswered : Bool
  lastPing : Nat
  lastPoll : Nat
  revision : Int
  geometryRevision : Int
  chain : List Control
  pendingControls : Nat
  tasks : List Task
  open' : Bool
  bufferedAmount : Nat
  writableLength : Nat
  sendThrows : Bool
  writeThrows : Bool
  reads : Nat
  log : List Entry

/-- What a session is started with; the clock's readings in their order. -/
structure Config where
  kind : Kind
  connectionId : String
  room : Option Room
  authRemainingMs : Nat
  idleMinutes : Nat
  clock : Nat → Nat

/-- What the store answers; a remaining time that is no finite number is none. -/
inductive Answer
  | threw
  | refused (reason : String)
  | ok (authRemainingMs : Option Int) (room : Option Room)
  deriving DecidableEq

inductive Inspection
  | threw
  | refused (reason : String)
  | ok
  deriving DecidableEq

section Wire

def byteLength (data : Units) : Nat :=
  ((points data).map fun
    | .lone _ => 3
    | .scalar letter => letter.utf8Size).sum

def text (word : String) : JsonValue wholeNumbers.Value := .string (spell word)

def number (value : Int) : JsonValue wholeNumbers.Value := .number value.toNat

def sharingFrame (room : Room) : JsonValue wholeNumbers.Value :=
  .object [(spell "type",text "sharing"),(spell "enabled",.bool room.enabled),(spell "revision",number room.rosterRevision),
    (spell "watchers",.array ((room.watchers.insertionSort fun one other =>
      one.registeredRevision ≤ other.registeredRevision).map fun watcher =>
      .object [(spell "watcherKey",text watcher.watcherKey),(spell "name",text watcher.name),
        (spell "state",text watcher.state)]))]

def geometryFrame (geometry : Geometry) : JsonValue wholeNumbers.Value :=
  .object [(spell "type",text "geometry"),(spell "cols",number geometry.cols),(spell "rows",number geometry.rows),
    (spell "revision",number geometry.revision)]

/-- The length in UTF-8 of the text that a frame is sent as. -/
def wireLength (value : JsonValue wholeNumbers.Value) : Nat :=
  ((JsonText.stringify wholeNumbers value).map Char.utf8Size).sum

end Wire

section Steps

variable (config : Config)

def Config.watch : Bool := config.kind.isWatch

def now (session : Session) : Nat × Session :=
  let at' := config.clock session.reads
  (at',{ session with reads := session.reads + 1, log := .read at' :: session.log })

def cross (what : Crossing) (session : Session) : Session := { session with log := .crossed what :: session.log }

def await (task : Task) (session : Session) : Session := { session with tasks := task :: session.tasks }

def finish (reason : String) (session : Session) : Session :=
  if session.ended then session
  else
    let closing := { session with
      ended := true, pendingResize := none, timer := false, listening := false, log := .detached :: session.log }
    let goodbye :=
      if ¬session.open' ∨ config.watch ∧ 0 < session.bufferedAmount ∨ session.sendThrows then closing
      else cross (.ended reason) closing
    await (.releasing reason) { goodbye with open' := false, log := .released reason :: goodbye.log }

def authorized (session : Session) : Bool × Session :=
  if session.ended then (false,session)
  else
    let (at',session) := now config session
    if session.deadline ≤ at' then (false,finish config "authorization-unavailable" session)
    else if session.transportLost then (false,session)
    else if ¬config.watch ∧ 0 < config.idleMinutes then
      let (later,session) := now config session
      if session.lastInput + config.idleMinutes * 60000 ≤ later then (false,finish config "idle" session)
      else (true,{ session with log := .checked at' :: session.log })
    else (true,{ session with log := .checked at' :: session.log })

/-- A check, and what is done once it is passed. -/
def whenAuthorized (go : Session → Session) (session : Session) : Session :=
  let (may,session) := authorized config session
  if may then go session else session

def send (what : Crossing) (bytes : Nat) : Session → Session :=
  whenAuthorized config fun session =>
    if ¬session.open' then session
    else if bufferedBytes < session.bufferedAmount + bytes then finish config "backpressure" session
    else if session.sendThrows then finish config "disconnected" session
    else cross what { session with bufferedAmount := session.bufferedAmount + bytes }

def observeSharing (room : Room) (force : Bool) (session : Session) : Session :=
  if ¬config.watch ∧ session.revision ≤ room.rosterRevision ∧ (force ∨ session.revision < room.rosterRevision) then
    send config (.sharing room) (wireLength (sharingFrame room))
      { session with revision := max session.revision room.rosterRevision }
  else session

def observeGeometry (room : Room) (session : Session) : Session :=
  if config.watch ∧ session.geometryRevision < room.geometry.revision then
    send config (.geometry room.geometry) (wireLength (geometryFrame room.geometry))
      { session with geometryRevision := room.geometry.revision }
  else session

def expectedDriver : String :=
  match config.kind with
  | .drive => config.connectionId
  | .watch driverConnectionId => driverConnectionId

/-- Whether all went well, or the driver is another one's. -/
def observe (room : Option Room) (force : Bool) (session : Session) : Bool × Session :=
  match room with
  | none => (true,session)
  | some room =>
    if room.driverConnectionId ≠ expectedDriver config then (false,session)
    else (true,observeGeometry config room (observeSharing config room force session))

def outputFrames : Nat → List UInt8 → Session → Session
  | 0,_,session => session
  | count + 1,bytes,session =>
    if bytes = [] then session
    else whenAuthorized config (fun session =>
      if session.sendThrows then finish config "disconnected" session
      else outputFrames count (bytes.drop frameBytes)
        (cross (.output (bytes.take frameBytes))
          { session with bufferedAmount := session.bufferedAmount + (bytes.take frameBytes).length })) session

def output (bytes : List UInt8) : Session → Session :=
  whenAuthorized config fun session =>
    if bufferedBytes < session.bufferedAmount + bytes.length then finish config "backpressure" session
    else outputFrames config bytes.length bytes session

def tick : Session → Session :=
  whenAuthorized config fun session =>
    if session.polling then session
    else
      let (requestedAt,session) := now config { session with polling := true }
      await (.renewing requestedAt) session

def polled (session : Session) : Session := { session with polling := false }

def refusedWith (reason : String) : String :=
  if reason ∈ ["window-lost","watch-disabled","watch-removed","driver-ended"] then reason else "session-ended"

def renewed (requestedAt : Nat) (answer : Answer) (session : Session) : Session :=
  match answer with
  | .threw => polled (finish config "authorization-unavailable" session)
  | .refused reason => polled (if session.ended then session else finish config (refusedWith reason) session)
  | .ok remaining room =>
    if session.ended then polled session
    else match remaining.filter fun remaining => 0 < remaining with
      | none => polled (finish config "session-ended" session)
      | some remaining =>
        let (may,session) := authorized config session
        if ¬may then polled session
        else
          let (may,session) := authorized config { session with
            deadline := requestedAt + min GATEWAY_AUTH_MS remaining.toNat
            log := .renewed requestedAt remaining.toNat :: session.log }
          if ¬may then polled session
          else if config.room.isSome ∧ room.isNone then polled (finish config "authorization-unavailable" session)
          else
            let (agreed,session) := observe config room false session
            if agreed then await .inspecting session
            else polled (finish config "authorization-unavailable" session)

def inspected (answer : Inspection) (session : Session) : Session :=
  match answer with
  | .threw => polled (finish config "authorization-unavailable" session)
  | .ok => polled session
  | .refused reason =>
    polled (if session.ended then session
      else finish config (if reason = "sandbox-ended" then reason else "runtime-unavailable") session)

def rested (session : Session) : Session := { session with resizing := false }

/-- The head of the loop: the latest geometry that is pending goes to the terminal. -/
def resizeLoop (session : Session) : Session :=
  match session.pendingResize with
  | none => rested session
  | some (cols,rows) =>
    let (may,session) := authorized config session
    if may then await .resizing (cross (.resized cols rows) { session with pendingResize := none }) else rested session

def resize (geometry : Int × Int) (session : Session) : Session :=
  if session.resizing then { session with pendingResize := some geometry }
  else resizeLoop config { session with pendingResize := some geometry, resizing := true }

def terminalResized (done : Bool) (session : Session) : Session :=
  if ¬done then rested (finish config "runtime-unavailable" session)
  else
    let (may,session) := authorized config session
    if ¬may then rested session
    else if config.room.isNone then resizeLoop config session
    else
      let (may,session) := authorized config session
      if may then await .telling session else resizeLoop config session

def geometryTold (answer : Answer) (session : Session) : Session :=
  match answer with
  | .ok _ (some room) =>
    let (may,session) := authorized config session
    if ¬may then resizeLoop config session
    else
      let (agreed,session) := observe config (some room) false session
      if agreed then resizeLoop config session else rested (finish config "authorization-unavailable" session)
  | .refused "authorization-expired" => rested (finish config "session-ended" session)
  | _ => rested (finish config "authorization-unavailable" session)

def overFrameBudget (session : Session) : Bool × Session :=
  let (at',session) := now config session
  let session :=
    if session.rateSince + 1000 ≤ at' then
      let (since,session) := now config session
      { session with
        rateSince := since, frames := 0, inputBytes := 0, resizes := 0, activities := 0, log := .window :: session.log }
    else session
  (framesPerSecond < session.frames + 1,{ session with frames := session.frames + 1 })

def pinged : Session → Session :=
  whenAuthorized config fun session =>
    let (exceeded,session) := overFrameBudget config session
    if exceeded then finish config "protocol-error" session else session

end Steps

section Controls

variable (config : Config)

def keysJoined (members : List (Units × Value)) : Units :=
  (((members.map Prod.fst).insertionSort fun one other => ¬other < one).intersperse (spell ",")).flatten

def hasKeys (members : List (Units × Value)) (keys : String) : Bool := keysJoined members = spell keys

def member? (members : List (Units × Value)) (name : String) : Option Value := (JsonValue.object members).field? (spell name)

def isType (members : List (Units × Value)) (type : String) : Bool :=
  match member? members "type" with
  | some (.string word) => word = spell type
  | _ => false

def isInteger : Option Value → Option Int
  | some (.number (some value)) => if value.den = 1 then some value.num else none
  | _ => none

def isSafeInteger (value : Option Value) : Option Int :=
  (isInteger value).filter fun value => value.natAbs ≤ Kernel.maxSafeInteger

def isWatcherKey (key : Units) : Bool :=
  key.length = 64 && key.all fun unit =>
    (48 ≤ unit.toNat && unit.toNat ≤ 57) || (97 ≤ unit.toNat && unit.toNat ≤ 102)

/-- The control that a driver's message asks for. -/
def methodOf (members : List (Units × Value)) : Option Method :=
  if isType members "watch-policy" && hasKeys members "enabled,type" then
    match member? members "enabled" with
    | some (.bool enabled) => some (.setWatching enabled)
    | _ => none
  else if isType members "watch-remove" && hasKeys members "type,watcherKey" then
    match member? members "watcherKey" with
    | some (.string key) => if isWatcherKey key then some (.removeWatcher key) else none
    | _ => none
  else if isType members "sharing-seen" && hasKeys members "revision,type" then
    match isSafeInteger (member? members "revision") with
    | some revision => if 0 ≤ revision then some (.acknowledgeRoster revision.toNat) else none
    | none => none
  else none

def queueControl (method : Method) : Session → Session :=
  whenAuthorized config fun session =>
    if framesPerSecond ≤ session.pendingControls then finish config "protocol-error" session
    else { session with
      pendingControls := session.pendingControls + 1, chain := session.chain ++ [⟨method,.queued⟩] }

/-- The chain goes on to the next control. -/
def settled (rest : List Control) (session : Session) : Session :=
  { session with chain := rest, pendingControls := session.pendingControls - 1 }

def observed (room : Room) (force : Bool) (rest : List Control) (session : Session) : Session :=
  let (may,session) := authorized config session
  if ¬may then settled rest session
  else
    let (agreed,session) := observe config (some room) force session
    settled rest (if agreed then session else finish config "authorization-unavailable" session)

/-- What the first control of the chain waited on has come. -/
def controlled (answer : Answer) (session : Session) : Session :=
  match session.chain with
  | [] => session
  | ⟨method,phase⟩ :: rest =>
    let failed (reason : String) := settled rest (finish config reason session)
    let wait (phase : Phase) (session : Session) : Session := { session with chain := ⟨method,phase⟩ :: rest }
    match phase with
    | .queued =>
      let (may,session) := authorized config session
      if ¬may then settled rest session
      else match method with
        | .acknowledgeRoster _ =>
          let (may,session) := authorized config session
          if may then wait .applying session else settled rest session
        | _ => wait .auditingIntent session
    | .applying => match answer with
      | .ok _ (some room) => observed config room false rest session
      | _ => failed "authorization-unavailable"
    | .auditingIntent =>
      if answer = .threw then
        if method = .setWatching true then failed "audit-unavailable" else wait (.storing true) session
      else wait (.storing false) session
    | .storing accountingFailed => match answer with
      | .ok _ (some room) => wait (.auditing accountingFailed room) session
      | _ => failed "authorization-unavailable"
    | .auditing accountingFailed room =>
      if accountingFailed ∨ answer = .threw then failed "audit-unavailable" else observed config room true rest session

end Controls

section Events

variable (config : Config)

def gatewayDimensions (cols rows : Option Int) : Option (Int × Int) :=
  match cols,rows with
  | some cols,some rows => if 2 ≤ cols ∧ cols ≤ maxCols ∧ 1 ≤ rows ∧ rows ≤ maxRows then some (cols,rows) else none
  | _,_ => none

def input (data : Units) (session : Session) : Session :=
  let bytes := byteLength data
  if GATEWAY_LIMITS.inputBytes < bytes then finish config "backpressure" session
  else
    let session := { session with inputBytes := session.inputBytes + bytes }
    if bytesPerSecond < session.inputBytes ∨ bufferedBytes < session.writableLength then finish config "backpressure" session
    else if bytes = 0 then session
    else if session.writeThrows then finish config "runtime-unavailable" session
    else cross (.input data) session

def activity (session : Session) : Session :=
  let session := { session with activities := session.activities + 1 }
  if session.activities ≤ activityPerSecond then
    let (at',session) := now config session
    { session with lastInput := at' }
  else session

def resizeMessage (size : Int × Int) (width : Int) (session : Session) : Session :=
  if width < minimumWidth then finish config "phone" session
  else
    let session := { session with resizes := session.resizes + 1 }
    if resizesPerSecond < session.resizes then finish config "protocol-error" session else resize config size session

def content (members : List (Units × Value)) (session : Session) : Session :=
  if config.watch ∧ (isType members "input" ∨ isType members "resize" ∨ isType members "activity") then session
  else match if config.watch then none else methodOf members with
    | some method => queueControl config method session
    | none =>
      match if isType members "input" && hasKeys members "data,type" then member? members "data" else none with
      | some (.string data) => input config data session
      | _ =>
        if isType members "activity" && hasKeys members "type" then activity config session
        else
          match if isType members "resize" && hasKeys members "cols,rows,type,width" then
              (gatewayDimensions (isInteger (member? members "cols")) (isInteger (member? members "rows"))).bind fun size =>
                (isInteger (member? members "width")).map fun width => (size,width)
            else none with
          | some (size,width) => resizeMessage config size width session
          | none => finish config "protocol-error" session

/-- A frame of the browser; a content that is no JSON is none. -/
def message (binary : Bool) (length : Nat) (parsed : Option Value) : Session → Session :=
  whenAuthorized config fun session =>
    if binary ∨ frameBytes < length then finish config "protocol-error" session
    else
      let (exceeded,session) := overFrameBudget config session
      if exceeded then finish config "protocol-error" session
      else match parsed with
        | some (.object members) => content config members session
        | _ => finish config "protocol-error" session

def lost (session : Session) : Session :=
  if session.ended ∨ session.transportLost then session
  else await .losing { session with transportLost := true, log := .lost :: session.log }

def poll (session : Session) : Session :=
  let (at',session) := now config session
  let (wait,session) :=
    if at' < session.lastPoll + pollMs then
      let (later,session) := now config session
      (decide (later + pollMs < session.deadline),session)
    else (false,session)
  if wait then session
  else
    let (at',session) := now config session
    tick config { session with lastPoll := at' }

def keepAlive (session : Session) : Session :=
  let (at',session) := now config session
  if at' < session.lastPing + pingMs then session
  else if ¬session.peerAnswered then finish config "disconnected" session
  else
    let (at',session) := now config session
    let session := { session with peerAnswered := false, lastPing := at' }
    if session.sendThrows then finish config "disconnected" session
    else if session.open' then cross .ping session
    else session

def timed (session : Session) : Session :=
  if session.timer then whenAuthorized config (fun session => keepAlive config (poll config session)) session else session

/-- What may happen next: a callback, or an answer to what the session waits on. -/
inductive Event
  | timer
  | output (bytes : List UInt8)
  | message (binary : Bool) (length : Nat) (parsed : Option Value)
  | ping
  | pong
  | closed
  | streamLost
  | finish (reason : String)
  | tick
  | socket (open' : Bool) (bufferedAmount writableLength : Nat) (sendThrows writeThrows : Bool)
  | control (answer : Answer)
  | renewed (requestedAt : Nat) (answer : Answer)
  | inspected (answer : Inspection)
  | resized (done : Bool)
  | told (answer : Answer)
  | lostInspected (answer : Inspection)
  | released (reason : String)
  | audited (reason : String) (failed : Bool)

/-- The answer to a task, where the session waits on it. -/
def answered (task : Task) (go : Session → Session) (session : Session) : Session :=
  if task ∈ session.tasks then go { session with tasks := session.tasks.erase task } else session

def happen (event : Event) (session : Session) : Session :=
  match event with
  | .timer => timed config session
  | .output bytes => if session.listening then output config bytes session else session
  | .message binary length parsed => message config binary length parsed session
  | .ping => pinged config session
  | .pong => { session with peerAnswered := true }
  | .closed => GatewaySession.finish config "disconnected" session
  | .streamLost => lost session
  | .finish reason => GatewaySession.finish config reason session
  | .tick => GatewaySession.tick config session
  | .socket open' bufferedAmount writableLength sendThrows writeThrows => { session with
      open' := session.open' && open', bufferedAmount := bufferedAmount, writableLength := writableLength
      sendThrows := sendThrows, writeThrows := writeThrows }
  | .control answer => controlled config answer session
  | .renewed requestedAt answer => answered (.renewing requestedAt) (GatewaySession.renewed config requestedAt answer) session
  | .inspected answer => answered .inspecting (GatewaySession.inspected config answer) session
  | .resized done => answered .resizing (terminalResized config done) session
  | .told answer => answered .telling (geometryTold config answer) session
  | .lostInspected answer => answered .losing
      (GatewaySession.finish config (if answer = .refused "sandbox-ended" then "sandbox-ended" else "runtime-unavailable")) session
  | .released reason => answered (.releasing reason) (await (.auditingEnd reason)) session
  | .audited reason failed => answered (.auditingEnd reason)
      (fun session => { session with log := .told reason failed :: session.log }) session

/-- Each event is a stretch of its own. -/
def handle (session : Session) (event : Event) : Session := happen config event { session with log := .turn :: session.log }

/-- When the first lease ends. -/
def firstLease : Nat := config.clock 0 + min GATEWAY_AUTH_MS config.authRemainingMs

def fresh : Session where
  ended := false
  polling := false
  resizing := false
  transportLost := false
  pendingResize := none
  deadline := firstLease config
  lastInput := config.clock 1
  rateSince := config.clock 2
  frames := 0
  inputBytes := 0
  resizes := 0
  activities := 0
  timer := false
  listening := false
  peerAnswered := true
  lastPing := config.clock 3
  lastPoll := 0
  revision := -1
  geometryRevision := -1
  chain := []
  pendingControls := 0
  tasks := []
  open' := true
  bufferedAmount := 0
  writableLength := 0
  sendThrows := false
  writeThrows := false
  reads := 4
  log := [.read (config.clock 3),.read (config.clock 2),.read (config.clock 1),.read (config.clock 0)]

/-- A room of another driver leaves a session without its timer and its output. -/
def runGatewaySession : Session :=
  let (agreed,session) := observe config config.room true (fresh config)
  if ¬agreed then session
  else
    let (at',session) := now config { session with listening := true }
    let session := { session with lastPoll := at' }
    if session.ended then session else poll config { session with timer := true }

end Events

end PiDispatch.GatewaySession
