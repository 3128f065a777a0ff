import PiDispatch.Kernel.Joint
import PiDispatch.DollarRecord

/-! The dollars of one attempt, from its reservation to its end: the container runs or does not, the hold is settled, given
back or left standing, and the record says what the windows hold. All that the attempt does besides is an errand, which
answers as it likes. -/
namespace PiDispatch.DollarBudget
open Kernel

/-- What is thrown: a configuration error, a never-started retry, or anything else. -/
inductive Failure
  | config
  | neverStarted
  | other
  deriving DecidableEq

structure Result (N : Type) where
  code : Option Int
  aborted : Bool
  detached : Bool
  lingering : Bool
  oomKilled : Bool
  exitLineCode : Option Int
  tokens : Option (Tokens N)
  usage : Option (Usage N)

/-- How `runContainer` ends: it throws before a container has started, it throws later, or it has a result. -/
inductive Launch (N : Type)
  | refused (failure : Failure)
  | failed
  | ended (result : Result N)

inductive Errand
  | recordHold (hold : Hold)
  | prepare
  | container
  | collect
  | settleHold
  | releaseHold
  | conclude

/-- A run ledger's call answers whether it moved the hold; `conclude`, whether what ends the attempt carries its dollars. -/
@[reducible] def Errand.Answer (N : Type) : Errand → Type
  | .recordHold _ | .collect | .settleHold | .releaseHold | .conclude => Bool
  | .prepare => Option Failure
  | .container => Launch N

def errands (N : Type) : Signature := ⟨Errand,Errand.Answer N⟩

/-- What a call on a window's key is for. -/
inductive Purpose
  | reserve
  | settle (key : String) (first lower : Bool)
  | model
  | release (key : String)
  deriving DecidableEq

abbrev Attempting (N α : Type) := Program (Valkey.beside (errands N) Purpose) α

structure ModelRow where
  ref : String
  ledger : Ledger

/-- What an attempt knows of its job's dollars. -/
structure Spending where
  host : String
  valkeyTag : Option String
  armed : Bool
  isLocal : Bool
  neverStartedExits : List Int
  caps : Option Caps
  scope : Option Ledger
  project : Option Ledger
  other : Option Ledger
  models : List ModelRow
  maxCostMicros : Option Int
  zeroRated : Bool
  now : Instant

namespace Spending
variable (spending : Spending)

def ledgers : List Ledger :=
  dollarLedgers spending.caps spending.scope spending.project spending.other (spending.models.map ModelRow.ledger)

/-- `jobCostPrefixes`: the ledgers that settle to the job's cost. -/
def isJobCost (keyPrefix : String) : Bool :=
  keyPrefix = DOLLAR_KEY_PREFIX || [spending.scope,spending.project,spending.other].any fun ledger =>
    ledger.any fun ledger => ledger.keyPrefix = keyPrefix

/-- `modelPrefixes`: a later row of a prefix replaces an earlier one. -/
def modelRef (keyPrefix : String) : Option String :=
  (spending.models.reverse.find? fun row => row.ledger.keyPrefix = keyPrefix).map ModelRow.ref

def holdsModel (hold : Hold) : Bool := (hold.ledgers.getD []).any fun ledger => (spending.modelRef ledger.keyPrefix).isSome

/-- The record of a hold no step has moved. -/
def standingRecord (hold : Hold) (modelBasis : Option Basis) : DollarsRecord :=
  dollarsRecord hold.amountMicros hold.amountMicros .floor modelBasis
    (deploymentWindowsOf hold 0 hold.amountMicros hold.amountMicros spending.valkeyTag)

end Spending

def EXIT_COMPLETED : Int := 0
def EXIT_INFRA : Int := 1
def EXIT_POLICY : Int := 2

def isNeverStartedExit {N : Type} (result : Result N) (neverStartedCodes : List Int) : Bool :=
  !(result.detached || result.aborted) && result.code.any fun code =>
    !(code = EXIT_COMPLETED || code = EXIT_POLICY || code = EXIT_INFRA) && neverStartedCodes.contains code

/-- How the windows of a hold were moved, if a step moved them, and whether every walk of it was answered throughout. -/
inductive Closing
  | untouched
  | settled (settledMicros : Int) (models : List (HoldLedger × Int)) (complete : Bool)
  | released (complete : Bool)

/-- What an attempt leaves: its hold, how its container went, what became of the hold, and the record's dollars. -/
structure Ended (N : Type) where
  host : String
  hold : Option Hold
  launch : Option (Launch N)
  closing : Closing
  dollars : Option DollarsRecord

def Ended.record {N : Type} (ended : Ended N) : RunRecord := ⟨ended.host,ended.dollars.bind dollarsOf⟩

section Attempt
variable (meter : Meter) (spending : Spending)

def errand {N α : Type} (errand : Errand) (resume : errand.Answer N → Attempting N α) : Attempting N α :=
  @Program.ask Valkey (errands N) Purpose α errand resume

def valkey {N α : Type} (purpose : Nat → Purpose) (call : Call α) : Attempting N α := call.within (errands N) purpose 0

def conclude (ended : Ended meter.Number) : Attempting meter.Number (Ended meter.Number) :=
  errand .conclude fun carried => .done (if carried then ended else { ended with dollars := none })

def releasing (hold : Hold) (index : Nat) : Purpose := .release (hold.keys[index]?.getD "")

def settling (hold : Hold) (settledMicros : Int) (index : Nat) : Purpose :=
  .settle (hold.keys[index]?.getD "") (index = 0) (settledMicros < hold.amountMicros)

/-- Of a recorded hold, whether this call moved it in the run's ledger. -/
def moving {N : Type} (recorded : Bool) (move : Errand) (answered : move.Answer N → Bool) : Attempting N Bool :=
  if recorded then errand move fun answer => .done (answered answer) else .done true

/-- The hold is given back whole; what a walk left standing is the floor. -/
def giveBackHold (hold : Hold) (recorded : Bool) (launch : Option (Launch meter.Number)) :
    Attempting meter.Number (Ended meter.Number) :=
  (moving recorded .releaseHold fun moved => moved).bind fun releasable =>
    (if releasable then valkey (releasing hold) (releaseDollars hold) else .done ⟨0,1⟩).bind fun walked =>
      let complete : Bool := walked.applied = walked.of
      let recordedMicros := if complete then 0 else hold.amountMicros
      let basis : Basis := if complete then .refunded else .floor
      let modelBasis := if spending.holdsModel hold then some basis else none
      conclude meter ⟨spending.host,some hold,launch,if releasable then .released complete else .untouched,
        some (dollarsRecord hold.amountMicros recordedMicros basis modelBasis
          (deploymentWindowsOf hold walked.applied 0 recordedMicros spending.valkeyTag))⟩

/-- The attempt's `catch`. -/
def caught (hold : Option Hold) (recorded containerRan : Bool) (dollars : Option DollarsRecord)
    (launch : Option (Launch meter.Number)) (failure : Failure) : Attempting meter.Number (Ended meter.Number) :=
  match hold with
  | none => conclude meter ⟨spending.host,none,launch,.untouched,dollars⟩
  | some hold =>
    if (failure = .config ∧ ¬containerRan) ∨ failure = .neverStarted then giveBackHold meter spending hold recorded launch
    else conclude meter ⟨spending.host,some hold,launch,.untouched,
      some (spending.standingRecord hold (if spending.holdsModel hold then some .floor else none))⟩

/-- Each model window settles to its own row. -/
def settleModels (hold : Hold) (basis : Basis) (result : Result meter.Number) (trusted : Bool) :
    List HoldLedger → Option Basis → List (HoldLedger × Int) → Bool →
      Attempting meter.Number (Option Basis × List (HoldLedger × Int) × Bool)
  | [],modelBasis,walked,complete => .done (modelBasis,walked,complete)
  | part :: rest,modelBasis,walked,complete => match spending.modelRef part.keyPrefix with
    | none => settleModels hold basis result trusted rest modelBasis walked complete
    | some ref =>
      let own := modelDollarSettlement meter ref basis result.tokens result.usage hold.amountMicros trusted
      (valkey (fun _ => .model) (settleDollars ⟨hold.amountMicros,part.keys,none⟩ own.settledMicros)).bind fun done =>
        let ownBasis := if done.applied = 0 ∧ 0 < done.of ∧ own.settledMicros ≠ hold.amountMicros then .floor else own.basis
        settleModels hold basis result trusted rest
          (some (if modelBasis = some .floor ∨ ownBasis = .floor then .floor else .metered))
          (walked ++ [(part,own.settledMicros)]) (complete && done.applied = done.of)

/-- The settlement, once, wherever the container ran. -/
def settleHold (hold : Hold) (recorded : Bool) (result : Result meter.Number) :
    Attempting meter.Number (Ended meter.Number) :=
  let trusted : Bool := !result.aborted && !result.detached && result.exitLineCode.isSome && result.exitLineCode = result.code
  let own := dollarSettlement meter result.tokens result.usage hold.amountMicros trusted
  let jobPart := holdPart hold spending.isJobCost
  (moving recorded .settleHold fun moved => moved).bind fun ledgerMoved =>
    (if ledgerMoved then valkey (settling jobPart own.settledMicros) (settleDollars jobPart own.settledMicros)
      else .done ⟨0,1⟩).bind fun walked =>
      (settleModels meter spending hold own.basis result trusted (if ledgerMoved then hold.ledgers.getD [] else [])
        none [] true).bind fun models =>
        let modelBasis := if ¬ledgerMoved ∧ spending.models ≠ [] then some .floor else models.1
        let kept : Bool := walked.applied = 0 && 0 < walked.of && (own.settledMicros ≠ hold.amountMicros || !ledgerMoved)
        let reservedIn := deploymentWindowsOf jobPart walked.applied own.settledMicros
          (if kept then hold.amountMicros else own.settledMicros) spending.valkeyTag
        conclude meter ⟨spending.host,some hold,some (.ended result),
          if ledgerMoved then .settled own.settledMicros models.2.1 (walked.applied = walked.of && models.2.2) else .untouched,
          some (if kept then dollarsRecord hold.amountMicros hold.amountMicros .floor modelBasis reservedIn
            else dollarsRecord hold.amountMicros own.settledMicros own.basis modelBasis reservedIn)⟩

/-- After the container: settled, unless it never started. A killed or lingering venue's result is returned as it is. -/
def afterRun (hold : Option Hold) (recorded : Bool) (dollars : Option DollarsRecord) (result : Result meter.Number) :
    Attempting meter.Number (Ended meter.Number) :=
  errand .collect fun threw =>
    if threw then caught meter spending hold recorded true dollars (some (.ended result)) .other
    else if ¬isNeverStartedExit result spending.neverStartedExits then match hold with
      | none => conclude meter ⟨spending.host,none,some (.ended result),.untouched,dollars⟩
      | some hold => settleHold meter spending hold recorded result
    else if result.oomKilled ∨ result.lingering ∧ spending.isLocal then
      conclude meter ⟨spending.host,hold,some (.ended result),.untouched,dollars⟩
    else caught meter spending hold recorded true dollars (some (.ended result)) .neverStarted

def launch (hold : Option Hold) (recorded : Bool) (dollars : Option DollarsRecord) :
    Attempting meter.Number (Ended meter.Number) :=
  errand .prepare fun
    | some failure => caught meter spending hold recorded false dollars none failure
    | none => errand .container fun
      | .refused failure => caught meter spending hold recorded false dollars (some (.refused failure)) failure
      | .failed => caught meter spending hold recorded false dollars (some .failed) .other
      | .ended result => afterRun meter spending hold recorded dollars result

/-- A hold that is admitted is recorded by an armed run before its container. -/
def holdAdmitted (hold : Hold) : Attempting meter.Number (Ended meter.Number) :=
  let dollars := some (spending.standingRecord hold (if spending.models ≠ [] then some .floor else none))
  if spending.armed then errand (.recordHold hold) fun ok =>
    if ok then launch meter spending (some hold) true dollars
    else caught meter spending (some hold) false false dollars none .neverStarted
  else launch meter spending (some hold) false dollars

/-- An attempt, from its dollar windows on. -/
def attempt : Attempting meter.Number (Ended meter.Number) :=
  if spending.ledgers = [] then launch meter spending none false none
  else match spending.maxCostMicros with
    | none => caught meter spending none false false none none .config
    | some amountMicros =>
      if spending.zeroRated then launch meter spending none false (some (dollarsRecord 0 0 .unreserved none none))
      else (valkey (fun _ => .reserve) (reserveDollars spending.ledgers amountMicros spending.now)).bind fun
        | .error _ => caught meter spending none false false none none .neverStarted
        | .ok (.refused _ stranded) =>
          let basis : Basis := if 0 < stranded then .floor else .refunded
          conclude meter ⟨spending.host,none,none,.untouched,some (dollarsRecord amountMicros
            (if 0 < stranded then amountMicros else 0) basis (if spending.models ≠ [] then some basis else none) none)⟩
        | .ok (.admitted hold) => holdAdmitted meter spending hold

end Attempt

end PiDispatch.DollarBudget
