import PiDispatch.DollarBudget
import PiDispatch.Kernel.Apportion
import PiDispatch.Kernel.Dict
import PiDispatch.Kernel.TextOrder

/-! The arithmetic of delegated allocation: an envelope's floors, the split of what is above them by weight, the
bounded step from the split now applied, and the projection of a split onto a changed envelope. -/
namespace PiDispatch.Priorities
open Kernel

def OTHER : String := "_other"
def WEIGHT_MAX : Int := 1000

inductive PlanWriter
  | operatorSession
  | portfolioJob
  deriving DecidableEq

/-- Off or on; when on, every bound is given. -/
structure Delegation where
  enabled : Bool
  writers : List PlanWriter
  maxStepPct : Option Int
  minIntervalHours : Option Int
  maxPlanDays : Option Int
  deriving DecidableEq

inductive Window
  | day
  | week
  | month
  deriving DecidableEq

/-- Weights as they were written: none where the value is no integer. -/
abbrev Weights := Dict String (Option Int)

structure Envelope where
  window : Window
  totalMicros : Int
  floors : Dict String Int
  defaultWeights : Weights
  delegation : Delegation
  deriving DecidableEq

def isWeight : Option Int → Prop
  | some weight => 0 ≤ weight ∧ weight ≤ WEIGHT_MAX
  | none => False

instance : (value : Option Int) → Decidable (isWeight value)
  | some weight => inferInstanceAs (Decidable (0 ≤ weight ∧ weight ≤ WEIGHT_MAX))
  | none => inferInstanceAs (Decidable False)

def isProjectId (id : String) : Bool :=
  match id.toList with
  | [] => false
  | first :: rest => (first.isLower || first.isDigit) && rest.length ≤ 31 &&
      rest.all fun letter => letter.isLower || letter.isDigit || letter = '-'

/-- The ids an envelope governs. -/
def envelopeEntries (envelope : Envelope) : List String := sortTexts envelope.floors.keys

def floorOf (envelope : Envelope) (id : String) : Int := (envelope.floors.get? id).getD 0

/-- What `parseEnvelope` accepts. -/
structure Envelope.WellFormed (envelope : Envelope) : Prop where
  ids : ∀ id ∈ envelope.floors.keys, id = OTHER ∨ isProjectId id
  other : OTHER ∈ envelope.floors.keys
  floors : ∀ micros ∈ envelope.floors.values, 0 ≤ micros
  sum : envelope.floors.values.sum ≤ envelope.totalMicros
  total : envelope.totalMicros ≤ 1000000 * 1000000
  step : envelope.delegation.enabled → ∃ pct ∈ envelope.delegation.maxStepPct, 1 ≤ pct ∧ pct ≤ 100
  interval : envelope.delegation.enabled → ∃ hours ∈ envelope.delegation.minIntervalHours, 0 ≤ hours ∧ hours ≤ 8784
  life : envelope.delegation.enabled → ∃ days ∈ envelope.delegation.maxPlanDays, 1 ≤ days ∧ days ≤ 366

/-- The effective amounts of a split. -/
structure Vector where
  allocations : Dict String Int
  unallocated : Int
  deriving DecidableEq

/-- What the arithmetic throws on. -/
inductive TypeError
  | envelope
  | weight (id : String)
  | notEntry (id : String)
  | maxStepPct
  | current
  | amount
  | repo (id : String)
  deriving DecidableEq

def envelopeNumbers (envelope : Envelope) : Except TypeError Unit :=
  let entries := envelopeEntries envelope
  if OTHER ∉ entries then .error .envelope
  else if ¬isMicros envelope.totalMicros ∨ ∃ id ∈ entries, ¬isMicros (floorOf envelope id) then .error .envelope
  else if (entries.map (floorOf envelope)).sum > envelope.totalMicros then .error .envelope
  else .ok ()

def amountOf (vector : Vector) (id : String) : Int := (vector.allocations.get? id).getD 0

/-- A vector over exactly the entries that sums to the total. -/
def vectorNumbers (vector : Vector) (entries : List String) (total : Int) : Except TypeError Unit :=
  if sortTexts vector.allocations.keys ≠ entries then .error .current
  else if ¬isMicros vector.unallocated ∨ ∃ id ∈ entries, ¬isMicros (amountOf vector id) then .error .current
  else if (entries.map (amountOf vector)).sum + vector.unallocated ≠ total then .error .current
  else .ok ()

/-- `amount` in proportion to the weights, the units left one each by largest remainder. -/
def largestRemainder (amount : Int) (weights : List (String × Int)) : List (String × Int) :=
  let total := (weights.map Prod.snd).sum
  if total = 0 then weights.map fun entry => (entry.1,0)
  else rounded total weights Prod.fst (fun _ => 0) (fun entry => amount * entry.2) amount

/-- One entry of a step: where it stands and where its target lies. -/
structure Row where
  key : String
  before : Int
  target : Int

/-- Every row moves the same fraction `step / largest` of its way, re-rounded by largest remainder. -/
def blend (rows : List Row) (step largest : Int) : List (String × Int) :=
  rounded largest rows Row.key Row.before (fun row => (row.target - row.before) * step) (rows.map Row.before).sum

def UNALLOCATED : String := ""

def moveOf (row : Row) : Int := |row.target - row.before|

def largestMove (rows : List Row) : Int := (rows.map moveOf).foldl max 0

/-- The entries' amounts, what stays unallocated, and whether the step bound. -/
structure Stepped where
  entries : List (String × Int)
  unallocated : Int
  clamped : Bool
  deriving DecidableEq

def weightOf (weights : Weights) (id : String) : Int := ((weights.get? id).getD none).getD 0

def headroom (envelope : Envelope) : Int :=
  envelope.totalMicros - ((envelopeEntries envelope).map (floorOf envelope)).sum

/-- Floors first, then the headroom by weight; with no weight the headroom stays unallocated. -/
def targetOf (envelope : Envelope) (weights : Weights) : Stepped :=
  let entries := envelopeEntries envelope
  let anyWeight := entries.any fun id => weightOf weights id > 0
  let shares := largestRemainder (if anyWeight then headroom envelope else 0)
    (entries.map fun id => (id,weightOf weights id))
  ⟨shares.map fun share => (share.1,floorOf envelope share.1 + share.2),if anyWeight then 0 else headroom envelope,false⟩

def stepRows (current : Vector) (target : Stepped) : List Row :=
  ⟨UNALLOCATED,current.unallocated,target.unallocated⟩ ::
    target.entries.map fun entry => ⟨entry.1,amountOf current entry.1,entry.2⟩

def stepFrom (envelope : Envelope) (current : Vector) (target : Stepped) : Except TypeError Stepped :=
  match envelope.delegation.maxStepPct with
  | none => .error .maxStepPct
  | some pct =>
    if pct < 1 ∨ pct > 100 then .error .maxStepPct
    else
      match vectorNumbers current (envelopeEntries envelope) envelope.totalMicros with
      | .error thrown => .error thrown
      | .ok () =>
        let rows := stepRows current target
        let step := envelope.totalMicros * pct / 100
        if largestMove rows > step then
          let blended := blend rows step (largestMove rows)
          .ok ⟨blended.tail,(blended.head?.map Prod.snd).getD 0,true⟩
        else .ok target

def stepped (envelope : Envelope) (current : Option Vector) (target : Stepped) : Except TypeError Stepped :=
  match current with
  | none => .ok target
  | some current => stepFrom envelope current target

abbrev Repos := Dict String Weights

abbrev RepoShares := Dict String (Dict String Int)

/-- One project's amount between its repos, by ref. -/
def repoSplit (amount : Int) (weights : Weights) : Dict String Int :=
  .ofList (largestRemainder amount ((sortTexts weights.keys).map fun ref => (ref,weightOf weights ref)))

def splitRepos (amounts : List (String × Int)) (repos : Repos) : RepoShares :=
  Dict.ofList (repos.entries.map fun repo =>
    (repo.1,repoSplit (((amounts.find? fun entry => entry.1 = repo.1).map Prod.snd).getD 0) repo.2))

structure Allocation where
  vector : Vector
  clamped : Bool
  target : Vector
  repos : RepoShares
  deriving DecidableEq

def Stepped.vector (stepped : Stepped) : Vector := ⟨.ofList stepped.entries,stepped.unallocated⟩

/-- The deterministic allocation: floors, weights, the bounded step when `current` is given, and the repo shares. -/
def allocate (envelope : Envelope) (weights : Weights) (current : Option Vector) (repos : Repos) :
    Except TypeError Allocation :=
  let entries := envelopeEntries envelope
  match envelopeNumbers envelope with
  | .error thrown => .error thrown
  | .ok () =>
    match entries.find? fun id => ¬isWeight ((weights.get? id).getD none) with
    | some id => .error (.weight id)
    | none =>
      match weights.keys.find? fun id => id ∉ entries with
      | some id => .error (.notEntry id)
      | none =>
        let target := targetOf envelope weights
        match stepped envelope current target with
        | .error thrown => .error thrown
        | .ok stepped =>
          match repos.entries.find? fun repo =>
            repo.1 ∉ entries ∨ repo.1 = OTHER ∨ ∃ weight ∈ repo.2.values, ¬isWeight weight with
          | some repo => .error (.repo repo.1)
          | none => .ok ⟨stepped.vector,stepped.clamped,target.vector,splitRepos stepped.entries repos⟩

/-- The repo shares of a vector that changed without a new plan. -/
def repoShares (allocations : Dict String Int) (repos : Repos) : Except TypeError RepoShares :=
  let kept := repos.filter fun id _ => id ≠ OTHER ∧ (allocations.get? id).isSome
  match kept.entries.find? fun repo =>
    (∃ weight ∈ repo.2.values, ¬isWeight weight) ∨ ¬isMicros ((allocations.get? repo.1).getD 0) with
  | some repo => .error (.repo repo.1)
  | none => .ok (splitRepos allocations.entries kept)

def neutralAllocation (envelope : Envelope) : Except TypeError Allocation :=
  allocate envelope envelope.defaultWeights none .empty

/-- The share of an entry above its new floor; what a dropped entry held goes to the others. -/
def rebaseWeight (envelope : Envelope) (vector : Vector) (id : String) : Int :=
  let own := match vector.allocations.get? id with
    | some amount => max 0 (amount - floorOf envelope id)
    | none => 0
  if id = OTHER then
    own + ((vector.allocations.entries.filter fun entry => entry.1 ∉ envelopeEntries envelope).map Prod.snd).sum
  else own

/-- A vector on a changed envelope, by its shares above the floors and without a step. -/
def rebase (vector : Vector) (envelope : Envelope) : Except TypeError Vector :=
  match envelopeNumbers envelope with
  | .error thrown => .error thrown
  | .ok () =>
    if ¬isMicros vector.unallocated ∨ ∃ amount ∈ vector.allocations.values, ¬isMicros amount then .error .amount
    else
      let entries := envelopeEntries envelope
      let weights := (UNALLOCATED,vector.unallocated) :: entries.map fun id => (id,rebaseWeight envelope vector id)
      let shares := largestRemainder (headroom envelope) weights
      let anyWeight := weights.any fun entry => entry.2 > 0
      .ok ⟨.ofList (shares.tail.map fun share => (share.1,floorOf envelope share.1 + share.2)),
        if anyWeight then (shares.head?.map Prod.snd).getD 0 else headroom envelope⟩

end PiDispatch.Priorities
