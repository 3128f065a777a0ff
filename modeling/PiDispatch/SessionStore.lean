import Mathlib
import PiDispatch.Kernel.Watch

/-! The store of one session key: its transcript and the sidecars beside it, the gates of a resume and the swap of a
promotion, as the file operations they issue. What a transcript's bytes say to pi is a parameter. The key's directory
and files are touched by nothing else, so that they are always a directory and regular files. -/
namespace PiDispatch.SessionStore
open Kernel

def VENUE_PENDING : String := "(pending)"
def UNATTRIBUTED_BACKEND : String := "local"
def SIDECAR_MAX_BYTES : Nat := 4096
def MAX_SAFE_INTEGER : Nat := 9007199254740991
def DAY_MS : Int := 86400000

/-- White space and line ends, as `trim` takes them off. -/
def isBlank (letter : Char) : Bool :=
  letter.toNat ∈ [9,10,11,12,13,32,160,5760,8232,8233,8239,8287,12288,65279] ||
    (8192 ≤ letter.toNat && letter.toNat ≤ 8202)

def trim (text : String) : String :=
  String.ofList ((text.toList.dropWhile isBlank).reverse.dropWhile isBlank).reverse

def words (text : String) : List String :=
  ((text.toList.splitOnP isBlank).filter fun word => word ≠ []).map String.ofList

def isVenueName (name : String) : Bool :=
  match name.toList with
  | [] => false
  | first :: rest => first.isLower && rest.length ≤ 31 &&
      rest.all fun letter => letter.isLower || letter.isDigit || letter == '-'

structure Venue where
  name : String
  proper : isVenueName name
  deriving DecidableEq

/-- What an image declares, as its label is read: trimmed, and not empty. -/
structure PiVersion where
  text : String
  trimmed : trim text = text
  filled : text ≠ ""
  deriving DecidableEq

/-- What tells one file from another: device, inode, size and the time of the last write. -/
structure Stat where
  dev : Nat
  ino : Nat
  size : Nat
  mtimeMs : Int
  deriving DecidableEq

structure ParkedSource where
  runId : String
  parkedAt : Nat
  deriving DecidableEq

/-- The park marker: a bare instant, or what it is bound to. -/
inductive Mark
  | instant (parkedAt : Nat)
  | source (source : ParkedSource) (transcriptIdentity : Stat)
  deriving DecidableEq

/-- Whose promotion a transcript is of, and how many resumes its conversation has had. -/
structure Origin where
  venue : Option Venue
  piVersion : Option PiVersion
  parkedSource : Option ParkedSource
  depth : Nat
  deriving DecidableEq

structure File (B : Type) where
  stat : Stat
  bytes : B
  origin : Origin
  deriving DecidableEq

inductive Name
  | venue
  | piVersion
  | resumeChain
  | context
  deriving DecidableEq

/-- Who reads: the gates of a resume of a job with this pi version, the check after its copy, or a promotion under its
lock of what came of a transcript of this depth. -/
inductive Asker
  | gate
  | check
  | promotion (lock : Nat) (handed : Nat)
  deriving DecidableEq

inductive Reason
  | resumed
  | absent
  | tooLarge
  | expired
  | venueChanged
  | piVersionChanged
  | resumeChainTooLong
  | contextTooFull
  | unparseable
  | conversationTooOld
  | compactionSummaryEmpty
  | transcriptReplaced
  deriving DecidableEq

/-- A job on the key, with what the clock shows it at its two checks of an age. -/
structure Job where
  modelId : Option String
  venue : Option Venue
  piVersion : Option PiVersion
  readAt : Int
  agedAt : Int
  deriving DecidableEq

/-- What a resolve gives a job: the transcript staged for it, or an empty file. -/
structure Session (B : Type) where
  modelId : Option String
  venue : Option Venue
  resume : Bool
  reason : Reason
  staged : Option (File B)
  parkedSource : Option ParkedSource

/-- What a completed run leaves. -/
structure Outcome (B : Type) where
  size : Nat
  left : B
  context : Option (Nat × Nat)
  parked : Bool
  runId : Option String
  parkedAt : Nat

inductive Command (B : Type)
  | inspect (asker : Asker)
  | stat (asker : Asker) (name : Name)
  | read (asker : Asker) (name : Name)
  | readParked
  | readTranscript
  | openTranscript
  | handOver (job : Job) (session : Session B)
  | takeLock
  | replace (lock : Nat) (name : Name) (text : String)
  | unlink (lock : Nat) (name : Name)
  | replaceParked (lock : Nat) (mark : Mark)
  | unlinkParked (lock : Nat)
  | swap (lock : Nat) (bytes : B) (origin : Origin)
  | releaseLock (lock : Nat)

@[reducible] def Command.Answer {B : Type} : Command B → Type
  | .inspect _ => Option Stat
  | .stat _ _ => Option Nat
  | .read _ _ => Option String
  | .readParked => Option Mark
  | .readTranscript => Option B
  | .openTranscript => Option (File B)
  | .handOver _ _ => Option (Outcome B)
  | .takeLock => Option Nat
  | .replace _ _ _ => Bool
  | .unlink _ _ => Unit
  | .replaceParked _ _ => Bool
  | .unlinkParked _ => Unit
  | .swap _ _ _ => Option Stat
  | .releaseLock _ => Unit

@[reducible] def FileSystem (B : Type) : Signature := ⟨Command B,Command.Answer⟩

abbrev Call (B α : Type) := Program (FileSystem B) α

variable {B α : Type}

def issue (command : Command B) (resume : command.Answer → Call B α) : Call B α :=
  @Program.issue (FileSystem B) α command resume

/-- The deployment's bounds, and what it makes of a transcript's bytes. -/
structure Config (B : Type) where
  ttlDays : Nat
  maxBytes : Nat
  maxAgeDays : Nat
  maxResumeChain : Nat
  maxContextPct : Option Nat
  isSession : B → Bool
  started : B → Option Int
  hasEmptyCompaction : B → Bool

def inspectSize (maxBytes size : Nat) : Option Reason :=
  if size = 0 then some .absent else if 0 < maxBytes ∧ maxBytes < size then some .tooLarge else none

def inspectFile (config : Config B) : Call B (Except Reason Stat) :=
  issue (.inspect .gate) fun
    | none => .done (.error .absent)
    | some stat => match inspectSize config.maxBytes stat.size with
      | some reason => .done (.error reason)
      | none => .done (.ok stat)

def readSidecar (asker : Asker) (name : Name) : Call B (Option String) :=
  issue (.stat asker name) fun
    | none => .done none
    | some size =>
      if size = 0 ∨ SIDECAR_MAX_BYTES < size then .done none
      else issue (.read asker name) fun text => .done (text.map trim)

def readVenue (asker : Asker) : Call B (Option String) :=
  issue (.stat asker .venue) fun
    | none => .done (some UNATTRIBUTED_BACKEND)
    | some _ => readSidecar asker .venue

/-- The number that is written so: `parseInt`, and `String` of it is the text again. -/
def spelled (text : String) : Option Nat :=
  let number := Nat.ofDigitChars 10 text.toList 0
  if text = Nat.repr number then some number else none

/-- The counter a text spells; 0 where it spells none. -/
def chainOf (raw : Option String) : Nat := (raw.bind spelled).getD 0

def readResumeChain (asker : Asker) : Call B Nat := (readSidecar asker .resumeChain).bind fun raw => .done (chainOf raw)

def contextOf (raw : Option String) : Option (Nat × Nat × Option String) :=
  match raw.map words with
  | some (rawTokens :: rawWindow :: rest) => match spelled rawTokens,spelled rawWindow with
    | some tokens,some window => if 0 < window then some (tokens,window,rest.head?) else none
    | _,_ => none
  | _ => none

def readContext : Call B (Option (Nat × Nat × Option String)) :=
  (readSidecar .gate .context).bind fun raw => .done (contextOf raw)

/-- A reading of another model's context is none of this one's. -/
def contextTooFull (maxContextPct : Nat) (modelId : Option String) (seen : Option (Nat × Nat × Option String)) : Bool :=
  match seen with
  | none => false
  | some (tokens,window,stamp) =>
    let foreign := stamp.isSome && modelId.isSome && stamp ≠ modelId
    !foreign && maxContextPct * window ≤ tokens * 100

/-- A header without a usable timestamp is too old. -/
def tooOld (config : Config B) (job : Job) (bytes : B) : Bool :=
  match config.started bytes with
  | none => true
  | some started => decide (config.maxAgeDays * DAY_MS < job.agedAt - started)

/-- What the transcript's own text is refused for. -/
def judgeTranscript (config : Config B) (job : Job) (transcript : Option B) : Option Reason :=
  match transcript with
  | none => some .unparseable
  | some bytes =>
    if config.isSession bytes = false then some .unparseable
    else if 0 < config.maxAgeDays ∧ tooOld config job bytes then some .conversationTooOld
    else if config.hasEmptyCompaction bytes then some .compactionSummaryEmpty
    else none

def venueText (venue : Option Venue) : Option String := venue.map Venue.name

def cold (reason : Reason) : Call B (Except Reason Stat) := .done (.error reason)

/-- The read path, gate by gate: the first miss names itself. -/
def readCanonical (config : Config B) (job : Job) : Call B (Except Reason Stat) :=
  (inspectFile config).bind fun
    | .error reason => cold reason
    | .ok stat =>
      if 0 < config.ttlDays ∧ config.ttlDays * DAY_MS < job.readAt - stat.mtimeMs then cold .expired
      else match job.venue with
        | none => cold .venueChanged
        | some venue => (readVenue .gate).bind fun stamp =>
          if stamp ≠ some venue.name then cold .venueChanged
          else match job.piVersion with
            | none => cold .piVersionChanged
            | some version => (readSidecar .gate .piVersion).bind fun stamped =>
              if stamped ≠ some version.text then cold .piVersionChanged
              else (chainGate config).bind fun long =>
                if long then cold .resumeChainTooLong
                else (contextGate config job).bind fun full =>
                  if full then cold .contextTooFull
                  else issue .readTranscript fun transcript => match judgeTranscript config job transcript with
                    | some reason => cold reason
                    | none => .done (.ok stat)
where
  chainGate (config : Config B) : Call B Bool :=
    if 0 < config.maxResumeChain then
      (readResumeChain .gate).bind fun chain => .done (decide (config.maxResumeChain ≤ chain))
    else .done false
  contextGate (config : Config B) (job : Job) : Call B Bool :=
    match config.maxContextPct with
    | none => .done false
    | some most => readContext.bind fun seen => .done (contextTooFull most job.modelId seen)

/-- What has moved under the copy: the venue is asked first. -/
def swapped (job : Job) (judged : Stat) : Call B (Option Reason) :=
  (readVenue .check).bind fun stamp =>
    if stamp ≠ venueText job.venue then .done (some .venueChanged)
    else issue (.inspect .check) fun found =>
      .done (if found ≠ some judged then some .transcriptReplaced else none)

def isRunId (runId : String) : Bool :=
  1 ≤ runId.toList.length && runId.toList.length ≤ 200 &&
    runId.toList.all fun letter => letter.isAlphanum || letter ∈ ['.','_',':','-']

def boundParkedSource (transcriptIdentity : Stat) (mark : Option Mark) : Option ParkedSource :=
  match mark with
  | some (.source source identity) =>
    if identity = transcriptIdentity ∧ isRunId source.runId ∧ source.parkedAt ≤ MAX_SAFE_INTEGER then some source else none
  | _ => none

def readBoundParkedSource (judged : Stat) : Call B (Option ParkedSource) :=
  issue .readParked fun mark => .done (boundParkedSource judged mark)

/-- The bytes come off the descriptor: of the file that was judged, or of none. None where the open throws. -/
def stageCanonical (job : Job) (judged : Stat) : Call B (Option (Except Reason (File B))) :=
  issue .openTranscript fun
    | none => .done none
    | some file =>
      if file.stat ≠ judged then
        (swapped job judged).bind fun raced => .done (some (.error (raced.getD .transcriptReplaced)))
      else (swapped job judged).bind fun
        | some reason => .done (some (.error reason))
        | none => .done (some (.ok file))

def coldSession (job : Job) (reason : Reason) : Session B := ⟨job.modelId,job.venue,false,reason,none,none⟩

def resolveSession (config : Config B) (job : Job) : Call B (Option (Session B)) :=
  (readCanonical config job).bind fun
    | .error reason => .done (some (coldSession job reason))
    | .ok judged => (stageCanonical job judged).bind fun
      | none => .done none
      | some (.error reason) => .done (some (coldSession job reason))
      | some (.ok file) => (readBoundParkedSource judged).bind fun parkedSource =>
        .done (some ⟨job.modelId,job.venue,true,.resumed,some file,parkedSource⟩)

/-- The depth of what a session was handed. -/
def Session.handed (session : Session B) : Nat := (session.staged.map fun file => file.origin.depth).getD 0

def chainValue (lock : Nat) (session : Session B) : Call B String :=
  if session.resume then (readResumeChain (.promotion lock session.handed)).bind fun chain => .done (Nat.repr (chain + 1))
  else .done (Nat.repr 0)

/-- A failed write is logged, and the promotion goes on. -/
def writeSidecar (lock : Nat) (name : Name) (text : String) : Call B Unit :=
  issue (.replace lock name text) fun _ => .done ()

def stampVenue (lock : Nat) (venue : Option Venue) : Call B Unit :=
  match venue with
  | none => .done ()
  | some venue => writeSidecar lock .venue venue.name

def versionText (piVersion : Option PiVersion) : String := (piVersion.map PiVersion.text).getD ""

def writeContextSidecar (lock : Nat) (session : Session B) (context : Option (Nat × Nat)) : Call B Unit :=
  if session.resume = false then issue (.unlink lock .context) fun _ => .done ()
  else match context with
    | none => .done ()
    | some (tokens,window) => writeSidecar lock .context
        (Nat.repr tokens ++ " " ++ Nat.repr window ++ ((session.modelId.map fun modelId => " " ++ modelId).getD ""))

/-- What a parked run names as its source. -/
def Outcome.source (outcome : Outcome B) : Option ParkedSource :=
  match outcome.runId with
  | some runId => if outcome.parked ∧ isRunId runId then some ⟨runId,outcome.parkedAt⟩ else none
  | none => none

def parkedMark (outcome : Outcome B) (transcriptIdentity : Option Stat) : Mark :=
  match transcriptIdentity,outcome.source with
  | some identity,some source => .source source identity
  | _,_ => .instant outcome.parkedAt

def writeParkedSidecar (lock handed : Nat) (outcome : Outcome B) : Call B Unit :=
  if outcome.parked then
    issue (.inspect (.promotion lock handed)) fun identity =>
      issue (.replaceParked lock (parkedMark outcome identity)) fun _ => .done ()
  else issue (.unlinkParked lock) fun _ => .done ()

def originOf (session : Session B) (piVersion : Option PiVersion) (outcome : Outcome B) : Origin :=
  ⟨session.venue,piVersion,outcome.source,if session.resume then session.handed + 1 else 0⟩

/-- The swap, with the stamp that no venue matches put in place before it, and then the sidecars. -/
def promoteLocked (lock : Nat) (session : Session B) (piVersion : Option PiVersion) (outcome : Outcome B) : Call B Bool :=
  issue (.replace lock .venue VENUE_PENDING) fun stamped =>
    if stamped = false then .done false
    else issue (.swap lock outcome.left (originOf session piVersion outcome)) fun
      | none => .done false
      | some tmpIdent => issue (.inspect (.promotion lock session.handed)) fun found =>
        if found ≠ some tmpIdent then .done false
        else (stampVenue lock session.venue).bind fun _ =>
          (writeSidecar lock .piVersion (versionText piVersion)).bind fun _ =>
          (chainValue lock session).bind fun chain =>
          (writeSidecar lock .resumeChain chain).bind fun _ =>
          (writeContextSidecar lock session outcome.context).bind fun _ =>
          (writeParkedSidecar lock session.handed outcome).bind fun _ => .done true

def promoteSession (config : Config B) (session : Session B) (piVersion : Option PiVersion) (outcome : Outcome B) :
    Call B Bool :=
  match inspectSize config.maxBytes outcome.size with
  | some _ => .done false
  | none => issue .takeLock fun
    | none => .done false
    | some lock => (promoteLocked lock session piVersion outcome).bind fun promoted =>
      issue (.releaseLock lock) fun _ => .done promoted

/-- A job on the key: it is resolved, its container is handed what was staged, and a completed run is promoted. -/
def runJob (config : Config B) (job : Job) : Call B Bool :=
  (resolveSession config job).bind fun
    | none => .done false
    | some session => issue (.handOver job session) fun
      | none => .done false
      | some outcome => promoteSession config session job.piVersion outcome

/-- The key's files. Kept beside them: how often the lock was taken, the transcripts ever swapped in, the last first, and
whether the pi version and the counter beside the transcript were written by its own promotion. -/
structure Store (B : Type) where
  transcript : Option (File B)
  texts : Name → Option String
  parked : Option Mark
  lock : Option Nat
  locks : Nat
  placed : List (File B)
  stamped : Bool
  counted : Bool

namespace Store

def empty : Store B := ⟨none,fun _ => none,none,none,0,[],false,false⟩

def put (store : Store B) (name : Name) (text : String) : Store B :=
  { store with
    texts := Function.update store.texts name (some text)
    stamped := store.stamped || name == .piVersion
    counted := store.counted || name == .resumeChain }

def remove (store : Store B) (name : Name) : Store B := { store with texts := Function.update store.texts name none }

def place (store : Store B) (file : File B) : Store B :=
  { store with transcript := some file, placed := file :: store.placed, stamped := false, counted := false }

def taken (store : Store B) : Store B := { store with lock := some store.locks, locks := store.locks + 1 }

@[simp] theorem put_self (store : Store B) (name : Name) (text : String) : (store.put name text).texts name = some text :=
  Function.update_self ..

theorem put_other (store : Store B) {name other : Name} (text : String) (apart : other ≠ name) :
    (store.put name text).texts other = store.texts other := Function.update_of_ne apart ..

theorem remove_other (store : Store B) {name other : Name} (apart : other ≠ name) :
    (store.remove name).texts other = store.texts other := Function.update_of_ne apart ..

/-- A promotion does something only while it holds the lock; the gates and the check read at any time. -/
def admits (store : Store B) : Asker → Prop
  | .promotion lock _ => store.lock = some lock
  | _ => True

end Store

/-- What one operation answers and leaves. A sidecar's write may fail, and so may a removal, the swap and the lock's
release. A lock is free, or its holder has died and it is taken over: one that has lost it does nothing more. -/
def Serves (store : Store B) (command : Command B) (answer : command.Answer) (next : Store B) : Prop :=
  match command with
  | .inspect asker => store.admits asker ∧ answer = store.transcript.map File.stat ∧ next = store
  | .stat asker name => store.admits asker ∧ answer = (store.texts name).map String.utf8ByteSize ∧ next = store
  | .read asker name => store.admits asker ∧ answer = store.texts name ∧ next = store
  | .readParked => answer = store.parked ∧ next = store
  | .readTranscript => answer = store.transcript.map File.bytes ∧ next = store
  | .openTranscript => answer = store.transcript ∧ next = store
  | .handOver _ _ => next = store
  | .takeLock => answer = none ∧ next = store ∨ answer = some store.locks ∧ next = store.taken
  | .replace lock name text => store.lock = some lock ∧
      (answer = true ∧ next = store.put name text ∨ answer = false ∧ next = store)
  | .unlink lock name => store.lock = some lock ∧ (next = store.remove name ∨ next = store)
  | .replaceParked lock mark => store.lock = some lock ∧
      (answer = true ∧ next = { store with parked := some mark } ∨ answer = false ∧ next = store)
  | .unlinkParked lock => store.lock = some lock ∧ (next = { store with parked := none } ∨ next = store)
  | .swap lock bytes origin => store.lock = some lock ∧
      (answer = none ∧ next = store ∨ ∃ stat, answer = some stat ∧ next = store.place ⟨stat,bytes,origin⟩)
  | .releaseLock lock => store.lock = some lock ∧ (next = { store with lock := none } ∨ next = store)

/-- No operation of a run breaks the rule. -/
def Under (rule : Store B → (command : Command B) → command.Answer → Prop) (store : Store B) (command : Command B)
    (answer : command.Answer) (next : Store B) : Prop :=
  rule store command answer ∧ Serves store command answer next

end PiDispatch.SessionStore
