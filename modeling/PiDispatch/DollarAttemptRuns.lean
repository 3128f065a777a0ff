import PiDispatch.DollarDeeds

/-! What an attempt leaves in the windows of its hold, whatever its errands answer and wherever its walks stop. -/
namespace PiDispatch.DollarBudget
open Kernel Counting

/-- The reservation: the whole amount at each key. -/
def holding (hold : Hold) : Deeds String := hold.keys.map fun key => (key,hold.amountMicros)

/-- A model window's settlement, and how many of its keys it moved. -/
structure ModelWalk where
  part : HoldLedger
  settledMicros : Int
  moved : Nat

def ModelWalk.deeds (reservedMicros : Int) (walk : ModelWalk) : Deeds String :=
  adjusted (walk.settledMicros - reservedMicros) (walk.part.keys.take walk.moved)

section Shapes
variable (meter : Meter) (spending : Spending) (careful : Purpose → Bool)

/-- An attempt's own verdict that its exit line is the runner's. -/
def isTrusted {N : Type} (result : Result N) : Bool :=
  !result.aborted && !result.detached && result.exitLineCode.isSome && result.exitLineCode = result.code

def jobSettlement (hold : Hold) (result : Result meter.Number) : Settled :=
  dollarSettlement meter result.tokens result.usage hold.amountMicros (isTrusted result)

def modelSettlement (hold : Hold) (result : Result meter.Number) (ref : String) : Settled :=
  modelDollarSettlement meter ref (jobSettlement meter hold result).basis result.tokens result.usage hold.amountMicros
    (isTrusted result)

/-- No container ran: none was asked for, it was refused, or its exit says that it never started. -/
def NeverRan : Option (Launch meter.Number) → Prop
  | none | some (.refused _) => True
  | some .failed => False
  | some (.ended result) => isNeverStartedExit result spending.neverStartedExits = true

def Admitted (hold : Hold) : Prop :=
  isMicros hold.amountMicros ∧
    (hold = ⟨0,[],none⟩ ∨ 0 < hold.amountMicros ∧ hold = holdOf hold.amountMicros (activeWindows spending.ledgers spending.now))

/-- The model windows' settlements, in the order of the hold. -/
structure ModelsMoved (hold : Hold) (result : Result meter.Number) (ledgers : List HoldLedger) (before : Deeds String)
    (walks : List ModelWalk) (complete : Bool) (after : Deeds String) : Prop where
  shape : after = before ++ walks.flatMap (ModelWalk.deeds hold.amountMicros)
  parts : walks.map ModelWalk.part = ledgers.filter fun part => (spending.modelRef part.keyPrefix).isSome
  own : ∀ walk ∈ walks, ∀ ref ∈ spending.modelRef walk.part.keyPrefix,
    walk.settledMicros = (modelSettlement meter hold result ref).settledMicros
  within : ∀ walk ∈ walks, walk.moved ≤ walk.part.keys.length ∧ (isMicros walk.settledMicros ∨ walk.moved = 0)
  all : complete = true → ∀ walk ∈ walks, walk.moved = walk.part.keys.length

/-- How an attempt can leave its hold: none, standing, given back or settled, each with what its record states. -/
inductive Accounted : Ended meter.Number → Deeds String → Prop
  | unheld (ended : Ended meter.Number) (deeds : Deeds String) (unheld : ended.hold = none)
      (nowhere : ∀ dollars ∈ ended.dollars, dollars.reservedIn = none) : Accounted ended deeds
  | standing (hold part : Hold) (launch : Option (Launch meter.Number)) (dollars : Option DollarsRecord)
      (admitted : Admitted spending hold) (among : part = hold ∨ part = holdPart hold spending.isJobCost)
      (stated : ∀ own ∈ dollars, own.settledMicros = hold.amountMicros ∧
        ∃ target, own.reservedIn = deploymentWindowsOf part 0 target hold.amountMicros spending.valkeyTag) :
      Accounted ⟨spending.host,some hold,launch,.untouched,dollars⟩ (holding hold)
  | released (hold : Hold) (launch : Option (Launch meter.Number)) (dollars : Option DollarsRecord) (walked : Settlement)
      (moved : Nat) (deeds : Deeds String) (admitted : Admitted spending hold) (unrun : NeverRan meter spending launch)
      (walk : Moved careful (releasing hold) hold.keys (0 - hold.amountMicros) (holding hold) walked moved deeds)
      (stated : ∀ own ∈ dollars, own.settledMicros = (if walked.applied = walked.of then 0 else hold.amountMicros) ∧
        own.reservedIn = deploymentWindowsOf hold walked.applied 0 own.settledMicros spending.valkeyTag) :
      Accounted ⟨spending.host,some hold,launch,.released (walked.applied = walked.of),dollars⟩ deeds
  | settled (hold : Hold) (result : Result meter.Number) (dollars : Option DollarsRecord) (walked : Settlement) (moved : Nat)
      (middle deeds : Deeds String) (walks : List ModelWalk) (complete : Bool) (admitted : Admitted spending hold)
      (ran : isNeverStartedExit result spending.neverStartedExits = false)
      (walk : Moved careful (settling (holdPart hold spending.isJobCost) (jobSettlement meter hold result).settledMicros)
        (holdPart hold spending.isJobCost).keys ((jobSettlement meter hold result).settledMicros - hold.amountMicros)
        (holding hold) walked moved middle)
      (valid : isMicros (jobSettlement meter hold result).settledMicros ∨ moved = 0)
      (models : ModelsMoved meter spending hold result (hold.ledgers.getD []) middle walks complete deeds)
      (stated : ∀ own ∈ dollars, own.settledMicros =
          (if walked.applied = 0 ∧ 0 < walked.of ∧ (jobSettlement meter hold result).settledMicros ≠ hold.amountMicros
            then hold.amountMicros else (jobSettlement meter hold result).settledMicros) ∧
        own.reservedIn = deploymentWindowsOf (holdPart hold spending.isJobCost) walked.applied
          (jobSettlement meter hold result).settledMicros own.settledMicros spending.valkeyTag) :
      Accounted ⟨spending.host,some hold,some (.ended result),.settled (jobSettlement meter hold result).settledMicros
        (walks.map fun walk => (walk.part,walk.settledMicros)) (walked.applied = walked.of && complete),dollars⟩ deeds

end Shapes

section Spending
variable {meter : Meter} {spending : Spending} {careful : Purpose → Bool}

private theorem errand_spends {N α : Type} {post : α → Deeds String → Prop} {deeds : Deeds String} (own : Errand)
    {resume : own.Answer N → Attempting N α} (onward : ∀ answer, Owns (windows N careful) post (resume answer) deeds) :
    Owns (windows N careful) post (errand own resume) deeds := .idle _ _ deeds trivial onward

private theorem moving_spends {N : Type} (deeds : Deeds String) (recorded : Bool) (move : Errand) (answered : move.Answer N → Bool) :
    Owns (windows N careful) (fun _ after => after = deeds) (moving recorded move answered) deeds := by
  unfold moving
  split
  · exact errand_spends move fun answer => .done _ _ rfl
  · exact .done _ _ rfl

private theorem accounted_uncarried {ended : Ended meter.Number} {deeds : Deeds String}
    (accounted : Accounted meter spending careful ended deeds) :
    Accounted meter spending careful { ended with dollars := none } deeds := by
  cases accounted with
  | unheld _ _ unheld nowhere => exact .unheld _ _ unheld fun _ none => by cases none
  | standing hold part launch dollars admitted among stated =>
    exact .standing hold part launch none admitted among fun _ none => by cases none
  | released hold launch dollars walked moved _ admitted unrun walk stated =>
    exact .released hold launch none walked moved _ admitted unrun walk fun _ none => by cases none
  | settled hold result dollars walked moved middle _ walks complete admitted ran walk valid models stated =>
    exact .settled hold result none walked moved middle _ walks complete admitted ran walk valid models fun _ none => by
      cases none

private theorem conclude_spends {ended : Ended meter.Number} {deeds : Deeds String}
    (accounted : Accounted meter spending careful ended deeds) :
    Owns (windows meter.Number careful) (Accounted meter spending careful) (conclude meter ended) deeds := by
  refine errand_spends .conclude fun carried => .done _ _ ?_
  cases carried with
  | true => exact accounted
  | false => exact accounted_uncarried accounted

theorem holding_own (hold : Hold) (key : String) :
    (holding hold).at' key = hold.amountMicros * hold.keys.count key := Deeds.at_each hold.keys hold.amountMicros key

private theorem admitted_positive {hold : Hold} (admitted : Admitted spending hold) : hold.keys = [] ∨ 0 < hold.amountMicros := by
  rcases admitted.2 with rfl | ⟨positive,_⟩
  · exact .inl rfl
  · exact .inr positive

private theorem giveBackHold_spends {hold : Hold} {recorded : Bool} {launch : Option (Launch meter.Number)}
    (admitted : Admitted spending hold) (unrun : NeverRan meter spending launch) :
    Owns (windows meter.Number careful) (Accounted meter spending careful) (giveBackHold meter spending hold recorded launch)
      (holding hold) := by
  refine (moving_spends (holding hold) recorded .releaseHold _).bind _ ?_
  rintro releasable deeds rfl
  cases releasable with
  | false =>
    refine conclude_spends (.standing hold hold launch _ admitted (.inl rfl) ?_)
    intro own same
    cases same
    exact ⟨rfl,0,rfl⟩
  | true =>
    have walk := @settleDollars_spends meter.Number careful (releasing hold) (holding hold) hold 0 (admitted_positive admitted)
      fun key => le_of_eq (holding_own hold key).symm
    refine walk.bind _ ?_
    rintro walked deeds ⟨moved,walk,_⟩
    refine conclude_spends (.released hold launch _ walked moved deeds admitted unrun walk ?_)
    intro own same
    cases same
    refine ⟨?_,rfl⟩
    simp [dollarsRecord]

private theorem caught_spends {hold : Option Hold} {recorded containerRan : Bool} {dollars : Option DollarsRecord}
    {launch : Option (Launch meter.Number)} {failure : Failure} {deeds : Deeds String}
    (held : ∀ own ∈ hold, Admitted spending own ∧ deeds = holding own)
    (nowhere : hold = none → ∀ own ∈ dollars, own.reservedIn = none)
    (unrun : failure = .neverStarted ∨ failure = .config ∧ containerRan = false → NeverRan meter spending launch) :
    Owns (windows meter.Number careful) (Accounted meter spending careful)
      (caught meter spending hold recorded containerRan dollars launch failure) deeds := by
  cases hold with
  | none => exact conclude_spends (.unheld _ _ rfl (nowhere rfl))
  | some hold =>
    obtain ⟨admitted,rfl⟩ := held hold rfl
    unfold caught
    dsimp only
    split
    next gives =>
      refine giveBackHold_spends admitted (unrun ?_)
      rcases gives with ⟨config,ran⟩ | never
      · exact .inr ⟨config,Bool.eq_false_of_not_eq_true ran⟩
      · exact .inl never
    · refine conclude_spends (.standing hold hold launch _ admitted (.inl rfl) ?_)
      intro own same
      cases same
      exact ⟨rfl,hold.amountMicros,rfl⟩

theorem net_nonneg {reserved settled : Int} (positive : 0 ≤ reserved) (keys : List String) {moved : Nat}
    (valid : isMicros settled ∨ moved = 0) (key : String) :
    0 ≤ reserved * keys.count key + (settled - reserved) * (keys.take moved).count key := by
  have fewer : (keys.take moved).count key ≤ keys.count key := (List.take_sublist moved keys).count_le key
  have least : reserved * ((keys.take moved).count key : Int) ≤ reserved * (keys.count key : Int) :=
    mul_le_mul_of_nonneg_left (by exact_mod_cast fewer) positive
  rcases valid with micros | rfl
  · have own : 0 ≤ settled * ((keys.take moved).count key : Int) := mul_nonneg micros.1 (by positivity)
    linarith
  · simp only [List.take_zero,List.count_nil] at least ⊢
    push_cast at least ⊢
    linarith

private theorem settleModels_spends {hold : Hold} {result : Result meter.Number} (ledgers : List HoldLedger)
    (positive : ledgers = [] ∨ 0 < hold.amountMicros) (modelBasis : Option Basis) (walked : List (HoldLedger × Int)) (complete : Bool)
    (deeds : Deeds String)
    (own : ∀ key, hold.amountMicros *
      ((ledgers.filter fun part => (spending.modelRef part.keyPrefix).isSome).flatMap HoldLedger.keys).count key ≤ deeds.at' key) :
    Owns (windows meter.Number careful)
      (fun out after => ∃ walks, out.2.1 = walked ++ walks.map (fun walk => (walk.part,walk.settledMicros)) ∧
        ∃ rest, out.2.2 = (complete && rest) ∧ ModelsMoved meter spending hold result ledgers deeds walks rest after)
      (settleModels meter spending hold (jobSettlement meter hold result).basis result (isTrusted result) ledgers modelBasis
        walked complete) deeds := by
  induction ledgers generalizing modelBasis walked complete deeds with
  | nil =>
    refine .done _ _ ⟨[],by simp,true,by simp,?_⟩
    exact ⟨by simp,rfl,fun _ none => (List.not_mem_nil none).elim,fun _ none => (List.not_mem_nil none).elim,
      fun _ _ none => (List.not_mem_nil none).elim⟩
  | cons part ledgers ih =>
    have positive := positive.resolve_left (List.cons_ne_nil _ _)
    have ih := ih (.inr positive)
    unfold settleModels
    cases found : spending.modelRef part.keyPrefix with
    | none =>
      have skip : (part :: ledgers).filter (fun part => (spending.modelRef part.keyPrefix).isSome) =
          ledgers.filter fun part => (spending.modelRef part.keyPrefix).isSome :=
        List.filter_cons_of_neg (by simp [found])
      rw [skip] at own
      refine (ih modelBasis walked complete deeds own).weaken ?_
      rintro out after ⟨walks,same,rest,all,moved⟩
      exact ⟨walks,same,rest,all,{ moved with parts := moved.parts.trans skip.symm }⟩
    | some ref =>
      have take : (part :: ledgers).filter (fun part => (spending.modelRef part.keyPrefix).isSome) =
          part :: ledgers.filter fun part => (spending.modelRef part.keyPrefix).isSome :=
        List.filter_cons_of_pos (by simp [found])
      rw [take,List.flatMap_cons] at own
      have first : ∀ key, hold.amountMicros * part.keys.count key ≤ deeds.at' key := by
        intro key
        have both := own key
        rw [List.count_append] at both
        have later : 0 ≤ hold.amountMicros * (((ledgers.filter fun part =>
          (spending.modelRef part.keyPrefix).isSome).flatMap HoldLedger.keys).count key : Int) :=
          mul_nonneg positive.le (by positivity)
        push_cast at both
        linarith
      have walk := @settleDollars_spends meter.Number careful (fun _ => .model) deeds ⟨hold.amountMicros,part.keys,none⟩
        (modelSettlement meter hold result ref).settledMicros (.inr positive) first
      refine walk.bind _ ?_
      rintro done middle ⟨moved,moving,valid⟩
      refine (ih _ _ _ middle ?_).weaken ?_
      · intro key
        have both := own key
        have net := net_nonneg positive.le part.keys valid key
        rw [List.count_append] at both
        rw [moving.shape,Deeds.at_append,adjusted_at]
        push_cast at both
        dsimp only at net ⊢
        linarith
      · rintro out after ⟨walks,same,rest,all,moved'⟩
        refine ⟨⟨part,(modelSettlement meter hold result ref).settledMicros,moved⟩ :: walks,?_,
          done.applied = done.of && rest,?_,?_⟩
        · rw [same,List.append_assoc]
          rfl
        · rw [all,Bool.and_assoc]
        · refine ⟨?_,?_,?_,?_,?_⟩
          · rw [moved'.shape,moving.shape,List.append_assoc]
            rfl
          · rw [take,List.map_cons,moved'.parts]
          · intro walk member other named
            rcases List.mem_cons.mp member with rfl | later
            · rw [found] at named
              cases named
              rfl
            · exact moved'.own walk later other named
          · intro walk member
            rcases List.mem_cons.mp member with rfl | later
            · exact ⟨moving.within,valid⟩
            · exact moved'.within walk later
          · intro whole walk member
            obtain ⟨answered,others⟩ := Bool.and_eq_true_iff.mp whole
            rcases List.mem_cons.mp member with rfl | later
            · exact moving.whole (of_decide_eq_true answered)
            · exact moved'.all others walk later

private theorem parts_count (ledgers : List HoldLedger) (left right : HoldLedger → Bool)
    (apart : ∀ part, left part = true → right part = false) (key : String) :
    ((ledgers.filter left).flatMap HoldLedger.keys).count key + ((ledgers.filter right).flatMap HoldLedger.keys).count key ≤
      (ledgers.flatMap HoldLedger.keys).count key := by
  induction ledgers with
  | nil => exact le_rfl
  | cons part ledgers ih =>
    rw [List.flatMap_cons,List.count_append]
    cases own : left part with
    | true =>
      rw [List.filter_cons_of_pos own,List.filter_cons_of_neg (by simp [apart part own]),List.flatMap_cons,List.count_append]
      omega
    | false =>
      rw [List.filter_cons_of_neg (by simp [own])]
      cases other : right part with
      | true =>
        rw [List.filter_cons_of_pos other,List.flatMap_cons,List.count_append]
        omega
      | false =>
        rw [List.filter_cons_of_neg (by simp [other])]
        omega

/-- The ledgers of an admitted hold hold its keys. -/
theorem admitted_keys {hold : Hold} (admitted : Admitted spending hold) :
    (hold.ledgers.getD []).flatMap HoldLedger.keys = hold.keys := by
  rcases admitted.2 with rfl | ⟨_,shape⟩
  · rfl
  · rw [shape]
    exact holdLedgers_flatten _

private theorem admitted_groups {hold : Hold} (admitted : Admitted spending hold) :
    hold.ledgers.getD [] = [] ∨ 0 < hold.amountMicros := by
  rcases admitted.2 with rfl | ⟨positive,_⟩
  · exact .inl rfl
  · exact .inr positive

theorem jobPart_count {hold : Hold} (admitted : Admitted spending hold)
    (apart : ∀ keyPrefix, spending.isJobCost keyPrefix = true → spending.modelRef keyPrefix = none) (key : String) :
    (holdPart hold spending.isJobCost).keys.count key +
      (((hold.ledgers.getD []).filter fun part => (spending.modelRef part.keyPrefix).isSome).flatMap HoldLedger.keys).count key ≤
      hold.keys.count key := by
  rw [← admitted_keys admitted]
  exact parts_count (hold.ledgers.getD []) (fun part => spending.isJobCost part.keyPrefix) _
    (fun part own => by rw [apart part.keyPrefix own]; rfl) key

private theorem jobPart_positive {hold : Hold} (admitted : Admitted spending hold) :
    (holdPart hold spending.isJobCost).keys = [] ∨ 0 < hold.amountMicros := by
  rcases admitted.2 with rfl | ⟨positive,_⟩
  · exact .inl rfl
  · exact .inr positive

/-- What the record of a settlement states, and of which windows. -/
private theorem kept_record (hold part : Hold) (settlement : Settled) (walked : Settlement) (modelBasis : Option Basis)
    (valkey : Option String) :
    let kept : Bool := walked.applied = 0 && 0 < walked.of && (settlement.settledMicros ≠ hold.amountMicros || !true)
    let reservedIn := deploymentWindowsOf part walked.applied settlement.settledMicros
      (if kept then hold.amountMicros else settlement.settledMicros) valkey
    let dollars := if kept then dollarsRecord hold.amountMicros hold.amountMicros .floor modelBasis reservedIn
      else dollarsRecord hold.amountMicros settlement.settledMicros settlement.basis modelBasis reservedIn
    dollars.settledMicros = (if walked.applied = 0 ∧ 0 < walked.of ∧ settlement.settledMicros ≠ hold.amountMicros
        then hold.amountMicros else settlement.settledMicros) ∧
      dollars.reservedIn = deploymentWindowsOf part walked.applied settlement.settledMicros dollars.settledMicros valkey := by
  intro flag reservedIn dollars
  by_cases kept : walked.applied = 0 ∧ 0 < walked.of ∧ settlement.settledMicros ≠ hold.amountMicros
  · have set : flag = true := by simp [flag,kept.1,kept.2.1,kept.2.2]
    have own : dollars = dollarsRecord hold.amountMicros hold.amountMicros .floor modelBasis reservedIn := if_pos set
    have place : reservedIn = deploymentWindowsOf part walked.applied settlement.settledMicros hold.amountMicros valkey :=
      congrArg (deploymentWindowsOf part walked.applied settlement.settledMicros · valkey) (if_pos set)
    rw [own,if_pos kept]
    exact ⟨rfl,place⟩
  · have unset : ¬flag = true := by simpa [flag] using kept
    have own : dollars = dollarsRecord hold.amountMicros settlement.settledMicros settlement.basis modelBasis reservedIn :=
      if_neg unset
    have place : reservedIn =
        deploymentWindowsOf part walked.applied settlement.settledMicros settlement.settledMicros valkey :=
      congrArg (deploymentWindowsOf part walked.applied settlement.settledMicros · valkey) (if_neg unset)
    rw [own,if_neg kept]
    exact ⟨rfl,place⟩

private theorem settleHold_spends {hold : Hold} {recorded : Bool} {result : Result meter.Number}
    (admitted : Admitted spending hold) (ran : isNeverStartedExit result spending.neverStartedExits = false)
    (apart : ∀ keyPrefix, spending.isJobCost keyPrefix = true → spending.modelRef keyPrefix = none) :
    Owns (windows meter.Number careful) (Accounted meter spending careful) (settleHold meter spending hold recorded result)
      (holding hold) := by
  refine (moving_spends (holding hold) recorded .settleHold _).bind _ ?_
  rintro ledgerMoved deeds rfl
  cases ledgerMoved with
  | false =>
    refine conclude_spends (.standing hold (holdPart hold spending.isJobCost) _ _ admitted (.inr rfl) ?_)
    intro own same
    cases same
    refine ⟨?_,(jobSettlement meter hold result).settledMicros,?_⟩
    · simp [dollarsRecord]
    · simp [dollarsRecord,jobSettlement,isTrusted]
  | true =>
    have counts := jobPart_count admitted apart
    have least : 0 ≤ hold.amountMicros := admitted.1.1
    have own : ∀ key, hold.amountMicros * (holdPart hold spending.isJobCost).keys.count key ≤ (holding hold).at' key := by
      intro key
      have fewer := counts key
      rw [holding_own]
      exact mul_le_mul_of_nonneg_left (by exact_mod_cast (by omega)) least
    have walk := @settleDollars_spends meter.Number careful
      (settling (holdPart hold spending.isJobCost) (jobSettlement meter hold result).settledMicros) (holding hold)
      (holdPart hold spending.isJobCost) (jobSettlement meter hold result).settledMicros (jobPart_positive admitted) own
    refine walk.bind _ ?_
    rintro walked middle ⟨moved,walk,valid⟩
    change Moved careful _ _ ((jobSettlement meter hold result).settledMicros - hold.amountMicros) _ _ _ _ at walk
    refine (settleModels_spends (hold.ledgers.getD []) (admitted_groups admitted) none [] true middle ?_).bind _ ?_
    · intro key
      have fewer := counts key
      have net := net_nonneg least (holdPart hold spending.isJobCost).keys valid key
      have both : hold.amountMicros * ((holdPart hold spending.isJobCost).keys.count key : Int) +
          hold.amountMicros * ((((hold.ledgers.getD []).filter fun part =>
            (spending.modelRef part.keyPrefix).isSome).flatMap HoldLedger.keys).count key : Int) ≤
          hold.amountMicros * (hold.keys.count key : Int) := by
        rw [← mul_add]
        exact mul_le_mul_of_nonneg_left (by exact_mod_cast fewer) least
      rw [walk.shape,Deeds.at_append,adjusted_at,holding_own]
      linarith
    · rintro ⟨modelBasis,parts,whole⟩ deeds ⟨walks,same,rest,all,models⟩
      dsimp only at same all
      rw [List.nil_append] at same
      rw [Bool.true_and] at all
      subst same all
      refine conclude_spends (.settled hold result _ walked moved middle deeds walks whole admitted ran walk valid models ?_)
      intro own same
      cases same
      exact kept_record hold (holdPart hold spending.isJobCost) (jobSettlement meter hold result) walked _ spending.valkeyTag

/-- What the record states while the container has not been asked for. -/
private def Standing (spending : Spending) (hold : Option Hold) (dollars : Option DollarsRecord) : Prop :=
  match hold with
  | none => ∀ own ∈ dollars, own.reservedIn = none
  | some hold => ∀ own ∈ dollars, own.settledMicros = hold.amountMicros ∧
      ∃ target, own.reservedIn = deploymentWindowsOf hold 0 target hold.amountMicros spending.valkeyTag

private theorem standing_record (hold : Hold) (modelBasis : Option Basis) :
    Standing spending (some hold) (some (spending.standingRecord hold modelBasis)) := by
  intro own same
  cases same
  exact ⟨rfl,hold.amountMicros,rfl⟩

private theorem standing_nowhere {hold : Option Hold} {dollars : Option DollarsRecord} (standing : Standing spending hold dollars)
    (unheld : hold = none) : ∀ own ∈ dollars, own.reservedIn = none := by
  subst unheld
  exact standing

section Stages
variable {hold : Option Hold} {recorded : Bool} {dollars : Option DollarsRecord} {deeds : Deeds String}
  (held : ∀ own ∈ hold, Admitted spending own ∧ deeds = holding own) (standing : Standing spending hold dollars)
  (apart : ∀ keyPrefix, spending.isJobCost keyPrefix = true → spending.modelRef keyPrefix = none)
include held standing

private theorem returned_spends (launch : Option (Launch meter.Number)) :
    Owns (windows meter.Number careful) (Accounted meter spending careful)
      (conclude meter ⟨spending.host,hold,launch,.untouched,dollars⟩) deeds := by
  cases hold with
  | none => exact conclude_spends (.unheld _ _ rfl standing)
  | some hold =>
    obtain ⟨admitted,rfl⟩ := held hold rfl
    exact conclude_spends (.standing hold hold launch dollars admitted (.inl rfl) standing)

include apart

private theorem afterRun_spends (result : Result meter.Number) :
    Owns (windows meter.Number careful) (Accounted meter spending careful) (afterRun meter spending hold recorded dollars result)
      deeds := by
  refine errand_spends .collect fun threw => ?_
  split
  · refine caught_spends held (standing_nowhere standing) fun given => ?_
    rcases given with none | ⟨none,_⟩ <;> cases none
  split
  next ran =>
    have ran : isNeverStartedExit result spending.neverStartedExits = false := Bool.eq_false_of_not_eq_true ran
    cases hold with
    | none => exact conclude_spends (.unheld _ _ rfl standing)
    | some hold =>
      obtain ⟨admitted,rfl⟩ := held hold rfl
      exact settleHold_spends admitted ran apart
  next never =>
    split
    · exact returned_spends held standing _
    · exact caught_spends held (standing_nowhere standing) fun _ => not_not.mp never

private theorem launch_spends :
    Owns (windows meter.Number careful) (Accounted meter spending careful) (launch meter spending hold recorded dollars)
      deeds := by
  refine errand_spends .prepare fun failed => ?_
  cases failed with
  | some failure => exact caught_spends held (standing_nowhere standing) fun _ => trivial
  | none =>
    refine errand_spends .container fun launched => ?_
    cases launched with
    | refused failure => exact caught_spends held (standing_nowhere standing) fun _ => trivial
    | failed =>
      refine caught_spends held (standing_nowhere standing) fun given => ?_
      rcases given with none | ⟨none,_⟩ <;> cases none
    | ended result => exact afterRun_spends held standing apart result

end Stages

private theorem holdAdmitted_spends {hold : Hold} (admitted : Admitted spending hold)
    (apart : ∀ keyPrefix, spending.isJobCost keyPrefix = true → spending.modelRef keyPrefix = none) :
    Owns (windows meter.Number careful) (Accounted meter spending careful) (holdAdmitted meter spending hold) (holding hold) := by
  have held : ∀ own ∈ some hold, Admitted spending own ∧ holding hold = holding own := by
    intro own same
    cases same
    exact ⟨admitted,rfl⟩
  have standing := @standing_record spending hold (if spending.models ≠ [] then some .floor else none)
  unfold holdAdmitted
  dsimp only
  split
  · refine errand_spends (.recordHold hold) fun ok => ?_
    split
    · exact launch_spends held standing apart
    · exact caught_spends held (standing_nowhere standing) fun _ => trivial
  · exact launch_spends held standing apart

/-- Every attempt leaves its hold in one of four ways. -/
theorem attempt_spends (apart : ∀ keyPrefix, spending.isJobCost keyPrefix = true → spending.modelRef keyPrefix = none) :
    Owns (windows meter.Number careful) (Accounted meter spending careful) (attempt meter spending) [] := by
  have nothing : ∀ {deeds : Deeds String}, ∀ own ∈ (none : Option Hold), Admitted spending own ∧ deeds = holding own := by
    intro deeds own none
    cases none
  have unstated : Standing spending none none := by
    intro own none
    cases none
  unfold attempt
  split
  · exact launch_spends nothing unstated apart
  split
  · exact caught_spends nothing (fun _ => unstated) fun _ => trivial
  split
  · refine launch_spends nothing ?_ apart
    intro own same
    cases same
    rfl
  · refine (reserve_spends spending.ledgers _ spending.now).bind _ ?_
    intro answer deeds reserved
    cases answer with
    | error thrown => exact caught_spends nothing (fun _ => unstated) fun _ => trivial
    | ok reservation =>
      cases reservation with
      | refused refusal stranded =>
        refine conclude_spends (.unheld _ _ rfl ?_)
        intro own same
        cases same
        rfl
      | admitted hold =>
        obtain ⟨micros,rfl,shape⟩ := reserved
        exact holdAdmitted_spends ⟨micros,shape⟩ apart

end Spending

end PiDispatch.DollarBudget
