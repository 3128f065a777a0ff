import PiDispatch.Clock
import PiDispatch.Kernel.JsonText
import PiDispatch.Kernel.Machine
import PiDispatch.TouchState

/-! The findings of one watch rule on one source. A delivery is answered once, and its answer is what a repetition gets; while
a finding is held, deliveries with its fingerprint are added to it; a worker takes it when it is due, and from then on it stays
as it is. Each script is one step, and nothing expires. -/
namespace PiDispatch.WatchStore
open Kernel JsonText Utf16
open TouchState (lettersOf)

inductive Severity
  | debug
  | info
  | warning
  | error
  | critical
  deriving DecidableEq

/-- What is known of an incident. An instant stands for the text that `toISOString` gives of it. -/
structure Evidence where
  fields : List (String × String)
  severity : Severity
  count : Nat
  firstSeen : Int
  lastSeen : Int
  samples : List String
  policyDigest : String
  deriving DecidableEq

/-- Evidence as the receiver admits it. -/
structure Finding extends Evidence where
  counted : 1 ≤ count ∧ count ≤ 1000000
  ordered : firstSeen ≤ lastSeen
  few : samples.length ≤ 8
  deriving DecidableEq

inductive Status
  | held
  | ready
  | belowThreshold
  deriving DecidableEq

/-- A finding as it is stored. -/
structure Held extends Evidence where
  id : String
  fingerprint : String
  source : String
  ruleId : String
  dueAt : Nat
  createdAt : Nat
  minCount : Nat
  status : Status
  claimed : Bool
  deriving DecidableEq

structure Rule where
  id : String
  severities : Option (List Severity)
  labels : List (String × List String)
  fingerprint : List String
  minCount : Nat
  windowMs : Nat
  cooldownMs : Nat
  maxPerDay : Nat
  maxFingerprints : Nat

/-- The hash, the language's numbers, and what the database's own JSON makes of a number: its first fourteen digits. -/
structure Config where
  source : String
  rule : Rule
  sourceMaxPerDay : Nat
  hash : String → String
  numbers : Numbers
  recoded : Nat → Nat
  settled : ∀ number, recoded (recoded number) = recoded number

inductive Answer
  | threw
  | unmatched
  | sourceCapped
  | held (id fingerprint : String) (dueAt : Nat)
  | suppressed (id fingerprint : String) (dueAt : Nat)
  | capped (fingerprint : String)
  | missing
  | early (dueAt : Nat)
  | taken (status : Status) (finding : Held)
  deriving DecidableEq

structure Active where
  id : String
  dueAt : Nat
  deriving DecidableEq

structure Store where
  deliveries : String → Option Answer
  sourceDay : String → Nat
  active : String → Option Active
  fingerprints : Dict String Nat
  ruleDay : String → Nat
  findings : String → Option Held

def Store.empty : Store := ⟨fun _ => none,fun _ => 0,fun _ => none,.empty,fun _ => 0,fun _ => none⟩

inductive Act
  | ingest (delivery : String) (finding : Finding) (clock : Nat)
  | takeFinding (id : String) (clock : Nat)

def validId : String → Bool := lettersOf (fun letter => letter.isAlphanum || letter ∈ ['_','-']) 1 128

/-- `WATCH_ID_RE`. -/
def isWatchId (text : String) : Bool :=
  lettersOf (fun letter => letter.isAlphanum || letter ∈ ['_','-']) 1 64 text && text.toList.head?.all Char.isAlphanum

def matchesWatchFinding (rule : Rule) (finding : Finding) : Bool :=
  (rule.severities.all fun severities => finding.severity ∈ severities) &&
    rule.labels.all fun label => (finding.fields.lookup label.1).any fun value => value ∈ label.2

def word {numbers : Numbers} (text : String) : JsonValue numbers.Value := .string (spell text)

section Ingest

variable (config : Config)

/-- None, where it throws. -/
def watchFingerprint (finding : Finding) : Option String :=
  if isWatchId config.source && isWatchId config.rule.id then
    (config.rule.fingerprint.mapM fun key => (finding.fields.lookup key).map fun value => (key,value)).map fun values =>
      config.hash (String.ofList (stringify config.numbers (.array [word config.source,word config.rule.id,
        .array (values.map fun value => .array [word value.1,word value.2])])))
  else none

def findingId (fingerprint delivery : String) (clock : Nat) : String :=
  config.hash (String.ofList (stringify config.numbers (.array [word config.source,word config.rule.id,word fingerprint,
    word delivery,.number (config.numbers.ofNat clock)])))

/-- The UTC day of a clock, as the keys have it. -/
def dayOf (clock : Nat) : Option String := (Clock.isoInstant clock).map (Clock.slice 10)

/-- What a matching ingest gives the script: the day, the fingerprint and an identity; none, where it throws. -/
def arguments (delivery : String) (finding : Finding) (clock : Nat) : Option (String × String × String) := do
  let fingerprint ← watchFingerprint config finding
  let day ← dayOf clock
  pure (day,fingerprint,findingId config fingerprint delivery clock)

def isoText (instant : Int) : List Char := (Clock.isoInstant instant).getD []

/-- What is held, with what has come in for it. Instants are compared as their texts. -/
def Held.merged (held : Held) (incoming : Finding) : Held :=
  { held with
    count := min 1000000 (held.count + incoming.count)
    firstSeen := if isoText incoming.firstSeen < isoText held.firstSeen then incoming.firstSeen else held.firstSeen
    lastSeen := if isoText held.lastSeen < isoText incoming.lastSeen then incoming.lastSeen else held.lastSeen
    samples := incoming.samples.foldl (fun samples sample => if samples.length < 8 then samples ++ [sample] else samples)
      held.samples }

/-- A finding as the database writes it. -/
def Held.encoded (held : Held) : Held :=
  { held with dueAt := config.recoded held.dueAt, createdAt := config.recoded held.createdAt }

/-- What is active for a fingerprint, until its cooldown is over. -/
def Store.lives (store : Store) (fingerprint : String) (clock : Nat) : Option Active :=
  (store.active fingerprint).filter fun active => clock ≤ active.dueAt + config.rule.cooldownMs

/-- The finding that a delivery is added to. -/
def Store.open' (store : Store) (active : Active) (clock : Nat) : Option Held :=
  if clock ≤ active.dueAt then (store.findings active.id).filter fun held => !held.claimed else none

/-- The script once a delivery has been counted, and what has cooled down is gone. -/
def judge (store : Store) (day fingerprint id : String) (clock : Nat) (finding : Finding) : Answer × Store :=
  match store.active fingerprint with
  | some active => match store.open' active clock with
    | some held => (.held active.id fingerprint (config.recoded active.dueAt),
        { store with findings := Function.update store.findings active.id (some ((held.merged finding).encoded config)) })
    | none => (.suppressed active.id fingerprint (config.recoded active.dueAt),store)
  | none =>
    if config.rule.maxFingerprints ≤ store.fingerprints.entries.length ∨ config.rule.maxPerDay ≤ store.ruleDay day then
      (.capped fingerprint,store)
    else
      let due := clock + config.rule.windowMs
      let held : Held := { finding.toEvidence with
        id, fingerprint, source := config.source, ruleId := config.rule.id, dueAt := due, createdAt := clock,
        minCount := config.rule.minCount, status := .held, claimed := false }
      (.held id fingerprint (config.recoded due),
        { store with
          active := Function.update store.active fingerprint (some ⟨id,config.recoded due⟩)
          fingerprints := store.fingerprints.set fingerprint (due + config.rule.cooldownMs)
          ruleDay := Function.update store.ruleDay day (store.ruleDay day + 1)
          findings := Function.update store.findings id (some (held.encoded config)) })

/-- The store when a delivery has been counted, and what has cooled down is gone. -/
def Store.counted (store : Store) (day fingerprint : String) (clock : Nat) : Store :=
  { store with
    sourceDay := Function.update store.sourceDay day (store.sourceDay day + 1)
    fingerprints := store.fingerprints.filter fun _ score => clock < score
    active := Function.update store.active fingerprint (store.lives config fingerprint clock) }

/-- The `WATCH_INGEST_SCRIPT`. -/
def ingestScript (store : Store) (delivery day fingerprint id : String) (clock : Nat) (finding : Finding) : Answer × Store :=
  match store.deliveries delivery with
  | some answer => (answer,store)
  | none =>
    if config.sourceMaxPerDay ≤ store.sourceDay day then (.sourceCapped,store)
    else
      let (answer,judged) := judge config (store.counted config day fingerprint clock) day fingerprint id clock finding
      (answer,{ judged with deliveries := Function.update judged.deliveries delivery (some answer) })

def ingest (store : Store) (delivery : String) (finding : Finding) (clock : Nat) : Answer × Store :=
  if (validId config.source && validId config.rule.id && validId delivery) = false then (.threw,store)
  else if matchesWatchFinding config.rule finding = false then (.unmatched,store)
  else match arguments config delivery finding clock with
    | none => (.threw,store)
    | some (day,fingerprint,id) => ingestScript config store delivery day fingerprint id clock finding

def Held.verdict (held : Held) : Status := if held.minCount ≤ held.count then .ready else .belowThreshold

def Held.taken (held : Held) : Held := { held with claimed := true, status := held.verdict }

def takeFinding (store : Store) (id : String) (clock : Nat) : Answer × Store :=
  if validId id = false then (.threw,store)
  else match store.findings id with
    | none => (.missing,store)
    | some held =>
      if clock < held.dueAt then (.early held.dueAt,store)
      else if held.claimed then (.taken held.verdict held,store)
      else (.taken held.verdict held.taken,
        { store with findings := Function.update store.findings id (some (held.taken.encoded config)) })

def step : Act → Store → Answer × Store
  | .ingest delivery finding clock,store => ingest config store delivery finding clock
  | .takeFinding id clock,store => takeFinding config store id clock

end Ingest

end PiDispatch.WatchStore
