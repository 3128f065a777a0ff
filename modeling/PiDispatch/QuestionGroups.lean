import PiDispatch.Kernel.JsonText
import PiDispatch.Kernel.Service
import PiDispatch.Kernel.Watch
import PiDispatch.SessionStore
import PiDispatch.TouchState

/-! What runs have asked people, and which questions are one: the private text of each in one key, its record in another,
and the groups of each scope in a third, with a revision that counts them. Nothing expires here; a command may fail, before
its effect or after it. -/
namespace PiDispatch.QuestionGroups
open Kernel JsonText Utf16
open TouchState (lettersOf isHash isId isMs)

inductive Status
  | unassigned
  | pending
  | assigned
  | sourceExpired
  | sourceUnavailable
  | sourceOversize
  | candidatesExpired
  | groupLimit
  | stale
  | refused
  | failed
  deriving DecidableEq

namespace QUESTION_GROUP_LIMITS

def excerptBytes : Nat := 16384
def corpusEntries : Nat := 1000
def metadataEntries : Nat := 5000
def candidates : Nat := 14

end QUESTION_GROUP_LIMITS

def isGroupId : String → Bool := lettersOf (fun letter => letter.isDigit || letter ∈ ['a','b','c','d','e','f']) 32 32

def safeWord (most : Nat) : String → Bool :=
  lettersOf (fun letter => letter.isAlphanum || letter ∈ ['.','_',':','/',' ','@','!','#','-']) 1 most

structure QuestionMeta where
  runId : String
  scopeId : String
  project : Option String
  repo : Option String
  instant : Nat
  digest : String
  status : Status
  groupId : Option String
  triggerIndex : Option Nat
  contextTruncated : Bool
  deriving DecidableEq

structure Source where
  runId : String
  scopeId : String
  instant : Nat
  digest : String
  excerpt : String
  deriving DecidableEq

structure Candidate where
  id : String
  runId : String
  instant : Nat
  deriving DecidableEq

structure Groups where
  revision : Nat
  entries : Dict String Candidate

structure Store where
  sources : String → Option Source
  metas : String → Option QuestionMeta
  corpus : Dict String Nat
  index : Dict String Nat
  groups : String → Groups

def Store.empty : Store := ⟨fun _ => none,fun _ => none,.empty,.empty,fun _ => ⟨0,.empty⟩⟩

/-- The hash, the language's numbers, and what the database's own JSON makes of a number. -/
structure Config where
  sha : String → String
  numbers : Numbers
  recoded : Nat → Nat

def Config.token (config : Config) (runId : String) : String := config.sha runId

inductive Verdict
  | sourceExpired
  | existing
  | stale
  | assigned
  deriving DecidableEq

inductive Command
  | getMeta (token : String)
  | getSource (token : String)
  | setMeta (token : String) (value : QuestionMeta)
  | rank (token : String) (instant : Nat)
  | capture (token : String) (source : Source) (value : QuestionMeta) (instant : Nat)
  | hgetall (scopeId : String)
  | assign (scopeId token digest : String) (revision : Nat) (fresh : Bool) (id : String) (candidate : Candidate)
  | setStatus (token : String) (status : Status)

@[reducible] def Command.Answer : Command → Type
  | .getMeta _ => Option QuestionMeta
  | .getSource _ => Option Source
  | .setMeta _ _ => Bool
  | .rank _ _ => Unit
  | .capture _ _ _ _ => Bool
  | .hgetall _ => Groups
  | .assign _ _ _ _ _ _ _ => Verdict
  | .setStatus _ _ => Bool

/-- Lowest score first, and of one score the lowest name. -/
def ranksBefore (first second : String × Nat) : Bool :=
  first.2 < second.2 || (first.2 = second.2 && first.1 ≤ second.1)

/-- The names that go when only so many may stay. -/
def surplus (scores : Dict String Nat) (most : Nat) : List String :=
  ((scores.entries.mergeSort ranksBefore).take (scores.entries.length - most)).map Prod.fst

namespace Store

def setMeta (store : Store) (token : String) (value : QuestionMeta) : Store :=
  { store with metas := Function.update store.metas token (some value) }

/-- The `QUESTION_CAPTURE_SCRIPT`. -/
def capture (store : Store) (token : String) (source : Source) (value : QuestionMeta) (instant : Nat) : Bool × Store :=
  if (store.metas token).isSome then (false,store)
  else
    let corpus := store.corpus.set token instant
    let index := store.index.set token instant
    let gone := surplus corpus QUESTION_GROUP_LIMITS.corpusEntries
    let old := surplus index QUESTION_GROUP_LIMITS.metadataEntries
    (true,{ store.setMeta token value with
      sources := fun other => if other ∈ gone then none else Function.update store.sources token (some source) other
      corpus := corpus.filter fun other _ => other ∉ gone
      index := index.filter fun other _ => other ∉ old })

/-- A record as the database writes it back. -/
def recode (config : Config) (value : QuestionMeta) : QuestionMeta :=
  { value with instant := config.recoded value.instant, triggerIndex := value.triggerIndex.map config.recoded }

/-- The `QUESTION_ASSIGN_SCRIPT`. -/
def assign (config : Config) (store : Store) (scopeId token digest : String) (revision : Nat) (fresh : Bool) (id : String)
    (candidate : Candidate) : Verdict × Store :=
  match store.metas token with
  | none => (.sourceExpired,store)
  | some value =>
    if value.groupId.isSome then (.existing,store)
    else if value.digest ≠ digest then (.stale,store)
    else if (store.groups scopeId).revision ≠ revision then (.stale,store)
    else
      let assigned := store.setMeta token { recode config value with groupId := some id, status := .assigned }
      if fresh then
        (.assigned,{ assigned with
          groups := Function.update store.groups scopeId ⟨revision + 1,(store.groups scopeId).entries.set id candidate⟩ })
      else if ((store.groups scopeId).entries.get? id).isNone then (.stale,store)
      else (.assigned,assigned)

def setStatus (config : Config) (store : Store) (token : String) (status : Status) : Bool × Store :=
  match store.metas token with
  | none => (false,store)
  | some value =>
    if value.groupId.isSome then (false,store)
    else (true,store.setMeta token { recode config value with status := status })

def answer (config : Config) (store : Store) : (command : Command) → command.Answer × Store
  | .getMeta token => (store.metas token,store)
  | .getSource token => (store.sources token,store)
  | .setMeta token value =>
    if (store.metas token).isSome then (false,store) else (true,store.setMeta token value)
  | .rank token instant => ((),{ store with index := store.index.set token instant })
  | .capture token source value instant => store.capture token source value instant
  | .hgetall scopeId => (store.groups scopeId,store)
  | .assign scopeId token digest revision fresh id candidate =>
    store.assign config scopeId token digest revision fresh id candidate
  | .setStatus token status => store.setStatus config token status

end Store

@[reducible] def Redis : Signature := Fallible Command Command.Answer Unit

abbrev Call (α : Type) := Program Redis α

/-- A command; nothing, where it throws. -/
def ask {α : Type} (command : Command) (resume : command.Answer → Call (Option α)) : Call (Option α) :=
  @Program.issue Redis (Option α) command fun
    | .ok answer => resume answer
    | .error _ => .done none

def validMeta (value : QuestionMeta) : Bool :=
  isId value.runId && isHash value.scopeId && isMs value.instant && isHash value.digest && value.groupId.all isGroupId &&
    value.project.all (safeWord 64) && value.repo.all (safeWord 200) && value.triggerIndex.all fun index => isMs index

/-- A run's record, where it can be read. A valid one is never too long. -/
def readMeta (config : Config) (runId : String) : Call (Option (Option QuestionMeta)) :=
  if isId runId then ask (.getMeta (config.token runId)) fun raw => .done (some (raw.filter validMeta))
  else .done (some none)

def Source.json (config : Config) (source : Source) : JsonValue config.numbers.Value :=
  .object [(spell "v",.number (config.numbers.ofNat 1)),(spell "runId",.string (spell source.runId)),
    (spell "scopeId",.string (spell source.scopeId)),(spell "at",.number (config.numbers.ofNat source.instant)),
    (spell "digest",.string (spell source.digest)),(spell "excerpt",.string (spell source.excerpt))]

def Source.bytes (config : Config) (source : Source) : Nat :=
  (Octets.utf8 (stringify config.numbers (source.json config))).length

/-- A private text that is no longer than one may be. -/
def Source.isLegible (config : Config) (source : Source) : Bool :=
  source.bytes config ≤ QUESTION_GROUP_LIMITS.excerptBytes + 1024

inductive Excerpt
  | unavailable
  | oversize
  | clean (text : String)

/-- Redacted, and then neither blank nor too long. -/
def privateQuestionExcerpt (text : Option String) (redact : Option (String → Option String)) : Excerpt :=
  match text,redact with
  | some text,some redact =>
    if text = "" then .unavailable
    else match redact text with
      | none => .unavailable
      | some clean =>
        if SessionStore.trim clean = "" then .unavailable
        else if QUESTION_GROUP_LIMITS.excerptBytes < (Octets.utf8 clean.toList).length then .oversize
        else .clean clean
  | _,_ => .unavailable

/-- What a capture is given; `sourceStatus` says that there is no text. -/
structure Question where
  runId : String
  scopeId : String
  project : Option String
  repo : Option String
  instant : Nat
  text : Option String
  redact : Option (String → Option String)
  triggerIndex : Option Nat
  sourceStatus : Option Status
  contextTruncated : Bool

def Question.isValid (question : Question) : Bool :=
  isId question.runId && isHash question.scopeId && isMs question.instant && question.project.all (safeWord 64) &&
    question.repo.all (safeWord 200) && (question.triggerIndex.all fun index => isMs index) &&
    question.sourceStatus.all fun status => status ∈ [.sourceUnavailable,.sourceOversize]

def Question.excerpt (question : Question) : Excerpt :=
  match question.sourceStatus with
  | none => privateQuestionExcerpt question.text question.redact
  | some .sourceOversize => .oversize
  | some _ => .unavailable

def Question.record (question : Question) (digest : String) (status : Status) : QuestionMeta :=
  ⟨question.runId,question.scopeId,question.project,question.repo,question.instant,digest,status,none,question.triggerIndex,
    question.contextTruncated⟩

structure Captured where
  ok : Bool
  status : Status
  deriving DecidableEq

inductive Input
  | status (status : Status)
  | ready (value : QuestionMeta) (revision : Nat) (excerpt : String) (candidates : List (Candidate × String))

structure Assigned where
  status : Verdict
  groupId : Option String
  deriving DecidableEq

inductive Result
  | captured (captured : Captured)
  | input (input : Option Input)
  | assigned (assigned : Option Assigned)
  | set (set : Option Bool)

section Calls

variable (config : Config)

/-- Text or none, a run is recorded once. -/
def capture (question : Question) : Call Captured :=
  if question.isValid = false then .done ⟨false,.sourceUnavailable⟩
  else
    let token := config.token question.runId
    let bare (status : Status) (name : String) : Call (Option Captured) :=
      ask (.setMeta token (question.record (config.sha (question.runId ++ ":" ++ name)) status)) fun _ =>
        ask (.rank token question.instant) fun _ => .done (some ⟨true,status⟩)
    let recorded : Call (Option Captured) := match question.excerpt with
      | .unavailable => bare .sourceUnavailable "source-unavailable"
      | .oversize => bare .sourceOversize "source-oversize"
      | .clean text =>
        ask (.capture token ⟨question.runId,question.scopeId,question.instant,config.sha text,text⟩
          (question.record (config.sha text) .unassigned) question.instant) fun _ => .done (some ⟨true,.unassigned⟩)
    recorded.bind fun captured => .done (captured.getD ⟨false,.sourceUnavailable⟩)

/-- The groups that a question may belong to, each with the text of the question that made it. -/
def candidates (value : QuestionMeta) (revision : Nat) (excerpt : String) :
    List (String × Candidate) → List (Candidate × String) → Call (Option Input)
  | [],found =>
    if QUESTION_GROUP_LIMITS.candidates < found.length then .done (some (.status .groupLimit))
    else .done (some (.ready value revision excerpt (found.mergeSort fun first second => first.1.id ≤ second.1.id)))
  | (id,candidate) :: rest,found =>
    if isGroupId id = false ∨ candidate.id ≠ id ∨ isId candidate.runId = false ∨ isMs candidate.instant = false then
      .done (some (.status .sourceUnavailable))
    else ask (.getSource (config.token candidate.runId)) fun raw => match raw.filter (Source.isLegible config) with
      | none => .done (some (.status .candidatesExpired))
      | some exemplar =>
        if exemplar.scopeId ≠ value.scopeId ∨ config.sha exemplar.excerpt ≠ exemplar.digest then
          .done (some (.status .candidatesExpired))
        else candidates value revision excerpt rest (found ++ [(candidate,exemplar.excerpt)])

def privateInput (runId : String) : Call (Option Input) :=
  (readMeta config runId).bind fun
    | none => .done none
    | some none => .done (some (.status .sourceExpired))
    | some (some value) =>
      if value.status ∉ [.unassigned,.pending,.assigned,.failed,.stale,.refused] then .done (some (.status value.status))
      else ask (.getSource (config.token runId)) fun raw => match raw.filter (Source.isLegible config) with
        | none => .done (some (.status .sourceExpired))
        | some source =>
          if source.runId ≠ runId ∨ source.scopeId ≠ value.scopeId ∨ source.digest ≠ value.digest ∨
              config.sha source.excerpt ≠ value.digest then .done (some (.status .sourceUnavailable))
          else ask (.hgetall value.scopeId) fun groups =>
            candidates config value groups.revision source.excerpt groups.entries.entries []

/-- A group of its own: a name made of the scope and the run. -/
def ownGroup (scopeId runId : String) : String := String.ofList ((config.sha (scopeId ++ "\x00" ++ runId)).toList.take 32)

def assign (runId digest : String) (revision : Nat) (groupId : Option String) : Call (Option Assigned) :=
  (readMeta config runId).bind fun
    | none => .done none
    | some none => .done (some ⟨.stale,none⟩)
    | some (some value) =>
      if value.digest ≠ digest ∨ isMs revision = false ∨ groupId.any (fun id => !isGroupId id) then .done (some ⟨.stale,none⟩)
      else
        let id := groupId.getD (ownGroup config value.scopeId runId)
        ask (.assign value.scopeId (config.token runId) digest revision groupId.isNone id ⟨id,runId,value.instant⟩) fun status =>
          .done (some ⟨status,if status = .assigned ∨ status = .existing then some id else none⟩)

def setStatus (runId : String) (status : Status) : Call (Option Bool) :=
  if isId runId then ask (.setStatus (config.token runId) status) fun done' => .done (some done') else .done (some false)

end Calls

inductive Request
  | capture (question : Question)
  | privateInput (runId : String)
  | assign (runId digest : String) (revision : Nat) (groupId : Option String)
  | setStatus (runId : String) (status : Status)

/-- A request, with what came of it. -/
def Request.call (config : Config) (request : Request) : Call (Request × Result) :=
  match request with
  | .capture question => (QuestionGroups.capture config question).bind fun captured => .done (request,.captured captured)
  | .privateInput runId => (QuestionGroups.privateInput config runId).bind fun input => .done (request,.input input)
  | .assign runId digest revision groupId =>
    (QuestionGroups.assign config runId digest revision groupId).bind fun assigned => .done (request,.assigned assigned)
  | .setStatus runId status => (QuestionGroups.setStatus config runId status).bind fun set => .done (request,.set set)

/-- A command that the store answers, or whose answer is lost. -/
def serves (config : Config) (allowed : Store → Command → Prop) (store : Store) (command : Command)
    (reply : Except Unit command.Answer) (next : Store) : Prop :=
  MayFail (Store.answer config) (fun store command => (Store.answer config store command).2) (fun _ => True) allowed store
    command reply next

/-- Any number of requests on one store. -/
def requests (config : Config) (allowed : Store → Command → Prop) : Agency Redis Store (Watched Redis (Request × Result)) :=
  watched (serves config allowed) fun program => ∃ request : Request, program = request.call config

end PiDispatch.QuestionGroups
