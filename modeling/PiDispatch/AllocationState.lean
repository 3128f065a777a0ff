import PiDispatch.Clock
import PiDispatch.PrioritiesLaws
import PiDispatch.Kernel.Json

/-! The applied split as it is stored: the state record, its document, and what a stored text is judged to be. An
instant stands in a document as its milliseconds, of which the written date is a spelling. -/
namespace PiDispatch.Allocation
open Kernel Priorities

def ALLOC_STATE_VERSION : Int := 1

inductive StateWriter
  | default
  | expiry
  | envelopeChange
  | operatorRevert
  | plan (writer : PlanWriter)
  deriving DecidableEq

def StateWriter.text : StateWriter → String
  | .default => "default"
  | .expiry => "expiry"
  | .envelopeChange => "envelope-change"
  | .operatorRevert => "operator-revert"
  | .plan .operatorSession => "operator-session"
  | .plan .portfolioJob => "portfolio-job"

def STATE_WRITERS : List StateWriter :=
  [.default,.expiry,.envelopeChange,.operatorRevert,.plan .operatorSession,.plan .portfolioJob]

structure State where
  planId : Option String
  basis : Option String
  writer : StateWriter
  jobId : Option String
  triggerId : Option String
  appliedAt : Instant
  lastPlanAt : Option Instant
  validUntil : Option Instant
  envelopeDigest : String
  weights : Dict String Int
  repoWeights : RepoShares
  reasons : Dict String String
  vector : Vector
  repos : RepoShares
  clamped : Bool
  deriving DecidableEq

/-- A stored value: JSON text stands as its document, any other text as itself. -/
inductive Stored
  | json (document : Json)
  | text (content : String)

section Document

def optionJson {α : Type} (write : α → Json) : Option α → Json
  | none => .null
  | some value => write value

def instantJson (instant : Instant) : Json := .int instant

def dictJson {α : Type} (write : α → Json) (dict : Dict String α) : Json :=
  .object (dict.entries.map fun entry => (entry.1,write entry.2))

def State.json (state : State) : Json :=
  .object [("version",.int ALLOC_STATE_VERSION),
    ("planId",optionJson .string state.planId),
    ("basis",optionJson .string state.basis),
    ("writer",.string state.writer.text),
    ("jobId",optionJson .string state.jobId),
    ("triggerId",optionJson .string state.triggerId),
    ("appliedAt",instantJson state.appliedAt),
    ("lastPlanAt",optionJson instantJson state.lastPlanAt),
    ("validUntil",optionJson instantJson state.validUntil),
    ("envelopeDigest",.string state.envelopeDigest),
    ("weights",dictJson .int state.weights),
    ("repoWeights",dictJson (dictJson .int) state.repoWeights),
    ("reasons",dictJson .string state.reasons),
    ("allocations",dictJson .int state.vector.allocations),
    ("unallocated",.int state.vector.unallocated),
    ("repos",dictJson (dictJson .int) state.repos),
    ("clamped",.bool state.clamped)]

def stringOf : Json → Option String
  | .string text => some text
  | _ => none

def intOf : Json → Option Int
  | .number value => if value.den = 1 then some value.num else none
  | _ => none

def instantOf (document : Json) : Option Instant := (intOf document).map Int.toNat

def dictOf {α : Type} (read : Json → Option α) : Json → Dict String α
  | .object members => .ofList (members.filterMap fun member => (read member.2).map fun value => (member.1,value))
  | _ => .empty

def writerOf (text : String) : StateWriter := (STATE_WRITERS.find? fun writer => writer.text = text).getD .default

/-- The fields of a document that was found to be a state. -/
def State.ofJson (document : Json) : State where
  planId := (document.field? "planId").bind stringOf
  basis := (document.field? "basis").bind stringOf
  writer := writerOf (((document.field? "writer").bind stringOf).getD "")
  jobId := (document.field? "jobId").bind stringOf
  triggerId := (document.field? "triggerId").bind stringOf
  appliedAt := ((document.field? "appliedAt").bind instantOf).getD 0
  lastPlanAt := (document.field? "lastPlanAt").bind instantOf
  validUntil := (document.field? "validUntil").bind instantOf
  envelopeDigest := ((document.field? "envelopeDigest").bind stringOf).getD ""
  weights := dictOf intOf ((document.field? "weights").getD .null)
  repoWeights := dictOf (fun value => some (dictOf intOf value)) ((document.field? "repoWeights").getD .null)
  reasons := dictOf stringOf ((document.field? "reasons").getD .null)
  vector :=
    { allocations := dictOf intOf ((document.field? "allocations").getD .null)
      unallocated := ((document.field? "unallocated").bind intOf).getD 0 }
  repos := dictOf (fun value => some (dictOf intOf value)) ((document.field? "repos").getD .null)
  clamped := match document.field? "clamped" with
    | some (.bool clamped) => clamped
    | _ => false

end Document

def isMicrosJson (document : Json) : Bool :=
  match intOf document with
  | some amount => isMicros amount
  | none => false

/-- The values of an object, none for what is no object. -/
def valuesOf : Json → Option (List Json)
  | .object members => some (members.map Prod.snd)
  | _ => none

/-- A field that may be left out or null. -/
def fieldOr (document : Json) (name : String) (fallback : Json) : Json :=
  match document.field? name with
  | none | some .null => fallback
  | some value => value

/-- Every amount of a state is micro-dollars, and its allocations carry `_other`. -/
def amountsAreMicros (document : Json) : Bool :=
  match valuesOf (fieldOr document "allocations" .null) with
  | none => false
  | some allocations =>
    allocations.all isMicrosJson &&
    ((document.field? "allocations").bind fun amounts => amounts.field? OTHER).isSome &&
    isMicrosJson (fieldOr document "unallocated" (.int 0)) &&
    match valuesOf (fieldOr document "repos" (.object [])) with
    | none => false
    | some repos => repos.all fun shares => match valuesOf shares with
      | none => false
      | some amounts => amounts.all isMicrosJson

inductive Parsed
  | absent
  | newer
  | corrupt (stored : Stored)
  | state (state : State)

def parseState : Option Stored → Parsed
  | none => .absent
  | some (.text content) => .corrupt (.text content)
  | some (.json document) =>
    let version := (document.field? "version").bind intOf
    if ∃ number ∈ version, number > ALLOC_STATE_VERSION then .newer
    else if version = some ALLOC_STATE_VERSION ∧ ((document.field? "envelopeDigest").bind stringOf).isSome ∧
        amountsAreMicros document then .state (.ofJson document)
    else .corrupt (.json document)

section RoundTrip

private theorem intOf_int (value : Int) : intOf (.int value) = some value := by
  simp [intOf,Json.int]

private theorem instantOf_json (instant : Instant) : instantOf (instantJson instant) = some instant := by
  unfold instantOf instantJson
  rw [intOf_int]
  simp

private theorem stringOf_string (text : String) : stringOf (.string text) = some text := rfl

private theorem option_string (value : Option String) : stringOf (optionJson .string value) = value := by
  cases value <;> rfl

private theorem option_instant (value : Option Instant) : instantOf (optionJson instantJson value) = value := by
  cases value with
  | none => rfl
  | some instant => exact instantOf_json instant

private theorem dictOf_json {α : Type} {write : α → Json} {read : Json → Option α}
    (inverse : ∀ value, read (write value) = some value) (dict : Dict String α) :
    dictOf read (dictJson write dict) = dict := by
  have kept : ∀ entries : List (String × α),
      (entries.map fun entry => (entry.1,write entry.2)).filterMap
        (fun member => (read member.2).map fun value => (member.1,value)) = entries := by
    intro entries
    induction entries with
    | nil => rfl
    | cons entry entries ih => simp [inverse,ih]
  unfold dictOf dictJson
  dsimp only
  rw [kept]
  exact Dict.ofList_self dict

private theorem writerOf_text (writer : StateWriter) : writerOf writer.text = writer := by
  cases writer with
  | plan writer => cases writer <;> decide
  | default | expiry | envelopeChange | operatorRevert => decide

theorem ofJson_json (state : State) : State.ofJson state.json = state := by
  have ints := dictOf_json intOf_int
  have shares : ∀ repos : RepoShares, dictOf (fun value => some (dictOf intOf value)) (dictJson (dictJson .int) repos) = repos :=
    dictOf_json fun value => congrArg some (ints value)
  have texts : ∀ texts : Dict String String, dictOf stringOf (dictJson .string texts) = texts :=
    dictOf_json stringOf_string
  unfold State.ofJson State.json
  simp only [Json.field?,List.find?_cons]
  simp [ints,shares,texts,option_string,option_instant,instantOf_json,intOf_int,stringOf_string,writerOf_text]

/-- The amounts that a state may hold. -/
structure Held (state : State) : Prop where
  allocations : ∀ amount ∈ state.vector.allocations.values, isMicros amount
  other : OTHER ∈ state.vector.allocations.keys
  unallocated : isMicros state.vector.unallocated
  repos : ∀ shares ∈ state.repos.values, ∀ amount ∈ shares.values, isMicros amount

private theorem micros_int {amount : Int} (micros : isMicros amount) : isMicrosJson (.int amount) = true := by
  simp [isMicrosJson,intOf_int,micros]

private theorem field_dict (dict : Dict String Int) (key : String) (member : key ∈ dict.keys) :
    ((dictJson .int dict).field? key).isSome = true := by
  obtain ⟨entry,inside,rfl⟩ := List.mem_map.mp member
  unfold dictJson Json.field?
  simp only [Option.isSome_map,List.find?_isSome,List.mem_map]
  exact ⟨(entry.1,.int entry.2),⟨entry,inside,rfl⟩,by simp⟩

/-- What is written is read back. -/
theorem parseState_json (state : State) (held : Held state) : parseState (some (.json state.json)) = .state state := by
  have version : (state.json.field? "version").bind intOf = some ALLOC_STATE_VERSION := intOf_int ALLOC_STATE_VERSION
  have digest : ((state.json.field? "envelopeDigest").bind stringOf) = some state.envelopeDigest := rfl
  have allocations : fieldOr state.json "allocations" .null = dictJson .int state.vector.allocations := rfl
  have stored : state.json.field? "allocations" = some (dictJson .int state.vector.allocations) := rfl
  have unallocated : fieldOr state.json "unallocated" (.int 0) = .int state.vector.unallocated := rfl
  have repos : fieldOr state.json "repos" (.object []) = dictJson (dictJson .int) state.repos := rfl
  have amounts : amountsAreMicros state.json = true := by
    unfold amountsAreMicros
    rw [allocations,stored,unallocated,repos]
    simp only [dictJson,valuesOf,List.map_map,Option.bind_some,Bool.and_eq_true,List.all_eq_true]
    refine ⟨⟨⟨?_,field_dict _ _ held.other⟩,micros_int held.unallocated⟩,?_⟩
    · intro value member
      obtain ⟨entry,inside,rfl⟩ := List.mem_map.mp member
      exact micros_int (held.allocations entry.2 (List.mem_map_of_mem inside))
    · intro value member
      obtain ⟨shares,inside,rfl⟩ := List.mem_map.mp member
      simp only [Function.comp_apply,List.all_eq_true]
      intro value written
      obtain ⟨pair,among,rfl⟩ := List.mem_map.mp written
      obtain ⟨entry,own,rfl⟩ := List.mem_map.mp among
      exact micros_int (held.repos shares.2 (List.mem_map_of_mem inside) entry.2 (List.mem_map_of_mem own))
  unfold parseState
  dsimp only
  rw [version,digest,amounts,if_neg (by simp),if_pos ⟨rfl,rfl,rfl⟩,ofJson_json]

end RoundTrip

end PiDispatch.Allocation
