import PiDispatch.Kernel.Service
import PiDispatch.ScopedLimits
import PiDispatch.DollarAttemptRuns

/-! Doctor's sums against the counters: what the records of any attempts state to be in a deployment window, over any runs in
which no answer is lost that the record cannot make up for. -/
namespace PiDispatch.DollarBudget
open Kernel Counting ScopedLimits

/-- A call whose lost answer leaves the record stating the reservation at a key that no longer holds it: a release's, and
the first of a settlement below the reservation, at a deployment window's key. -/
def Purpose.overstates : Purpose → Bool
  | .settle key first lower => first && lower && (deploymentWindowOfKey key).isSome
  | .release key => (deploymentWindowOfKey key).isSome
  | .reserve | .model => false

/-- Whatever a record states to be in a window is there. -/
def Honest {N : Type} (ended : Ended N) (deeds : Deeds String) : Prop :=
  ∀ dollars ∈ ended.dollars, ∀ place ∈ dollars.reservedIn, ∀ window bucket, place.bucket window = some bucket →
    dollars.settledMicros ≤ deeds.at' (bucketKey window bucket)

section Honesty
variable {meter : Meter} {spending : Spending}

theorem dollarSettlement_least (tokens : Option (Tokens meter.Number)) (usage : Option (Usage meter.Number)) {reserved : Int}
    (trusted : Bool) (least : 0 ≤ reserved) : 0 ≤ (dollarSettlement meter tokens usage reserved trusted).settledMicros := by
  have floor : ∀ reported, 0 ≤ (floorOf reserved reported).settledMicros := by
    intro reported
    cases reported with
    | none => exact least
    | some reported => exact le_trans least (le_max_left reserved reported)
  unfold dollarSettlement
  cases tokens with
  | none => exact floor _
  | some tokens =>
    dsimp only
    split
    · exact floor _
    split
    · exact floor _
    split
    · exact floor _
    split
    · exact floor _
    · split
      · exact le_rfl
      · exact floor _
    next reported _ same =>
      obtain ⟨_,_,metered⟩ := Option.bind_eq_some_iff.mp same
      obtain ⟨cost,_,own⟩ := Option.bind_eq_some_iff.mp metered
      exact (meter.micros cost _ own).1

private theorem part_keys {hold : Hold} {part : HoldLedger} (inside : part ∈ hold.ledgers.getD []) {key : String}
    (member : key ∈ part.keys) (admitted : Admitted spending hold) : key ∈ hold.keys := by
  have all : key ∈ (hold.ledgers.getD []).flatMap HoldLedger.keys := List.mem_flatMap.mpr ⟨part,inside,member⟩
  rwa [admitted_keys admitted] at all

private theorem jobPart_keys {hold : Hold} {part : HoldLedger}
    (inside : part ∈ (holdPart hold spending.isJobCost).ledgers.getD []) {key : String} (member : key ∈ part.keys) :
    key ∈ (holdPart hold spending.isJobCost).keys := List.mem_flatMap.mpr ⟨part,inside,member⟩

private theorem count_least {keys : List String} {key : String} (member : key ∈ keys) : (1 : Int) ≤ keys.count key := by
  exact_mod_cast List.count_pos_iff.mpr member

/-- The standing record names windows of which the hold has its whole amount. -/
private theorem standing_honest {hold part : Hold} (admitted : Admitted spending hold)
    (among : part = hold ∨ part = holdPart hold spending.isJobCost) {target : Int} {place : ReservedIn}
    (stated : deploymentWindowsOf part 0 target hold.amountMicros spending.valkeyTag = some place) {window : WindowName}
    {bucket : String} (named : place.bucket window = some bucket) :
    hold.amountMicros ≤ (holding hold).at' (bucketKey window bucket) := by
  obtain ⟨⟨ledger,inside,_,member⟩,_⟩ := deploymentWindowsOf_held stated named
  have least := admitted.1.1
  have there : bucketKey window bucket ∈ hold.keys := by
    rcases among with rfl | rfl
    · exact part_keys inside member admitted
    · have own := List.mem_of_mem_filter inside
      exact part_keys own member admitted
  have one := count_least there
  rw [holding_own]
  nlinarith

/-- A key past what a walk counted that the walk moved all the same: the one whose answer was lost. -/
private theorem walk_stopped {purpose : Nat → Purpose} {keys : List String} {delta : Int} {before deeds : Deeds String}
    {walked : Settlement} {moved : Nat} (walk : Moved Purpose.overstates purpose keys delta before walked moved deeds)
    {key : String} (there : key ∈ keys) (early : key ∈ keys.take moved) (unmoved : walked.applied ≤ keys.idxOf key) :
    keys[walked.applied]? = some key ∧ (purpose walked.applied).overstates = false := by
  have position := (List.mem_take_iff_idxOf_lt there).mp early
  rcases walk.counted with same | ⟨more,lost⟩
  · omega
  · have own : keys.idxOf key = walked.applied := by omega
    exact ⟨own ▸ List.getElem?_idxOf there,lost⟩

private theorem released_honest {hold : Hold} (admitted : Admitted spending hold) {walked : Settlement} {moved : Nat}
    {deeds : Deeds String}
    (walk : Moved Purpose.overstates (releasing hold) hold.keys (0 - hold.amountMicros) (holding hold) walked moved deeds)
    {recorded : Int} (state : recorded = if walked.applied = walked.of then 0 else hold.amountMicros) {place : ReservedIn}
    (stated : deploymentWindowsOf hold walked.applied 0 recorded spending.valkeyTag = some place) {window : WindowName}
    {bucket : String} (named : place.bucket window = some bucket) : recorded ≤ deeds.at' (bucketKey window bucket) := by
  obtain ⟨⟨ledger,inside,_,member⟩,read,enough⟩ := deploymentWindowsOf_held stated named
  have least := admitted.1.1
  have there := part_keys inside member admitted
  have one := count_least there
  rw [walk.shape,Deeds.at_append,adjusted_at,holding_own]
  have net := @net_nonneg hold.amountMicros 0 least hold.keys moved (.inl ⟨le_rfl,by decide⟩) (bucketKey window bucket)
  by_cases nothing : recorded = 0
  · rw [nothing]
    linarith
  · have whole : recorded = hold.amountMicros := by
      rw [state] at nothing ⊢
      split at nothing
      · exact absurd rfl nothing
      next partial' => rw [if_neg partial']
    have past : bucketKey window bucket ∉ hold.keys.take moved := by
      intro early
      have unmoved : walked.applied ≤ hold.keys.idxOf (bucketKey window bucket) := by
        by_contra less
        unfold heldAt at enough
        dsimp only at enough
        rw [if_pos ⟨List.idxOf_lt_length_iff.mpr there,by omega⟩,whole] at enough
        exact nothing (whole.trans (le_antisymm enough least))
      have lost := walk_stopped walk there early unmoved
      unfold releasing Purpose.overstates at lost
      rw [lost.1] at lost
      simp [read] at lost
    rw [List.count_eq_zero.mpr past,whole]
    push_cast
    nlinarith

/-- What the model windows' settlements leave of a reservation is no less than nothing. -/
private theorem models_least {hold : Hold} {result : Result meter.Number} (least : 0 ≤ hold.amountMicros)
    {ledgers : List HoldLedger} {before after : Deeds String} {walks : List ModelWalk} {complete : Bool}
    (models : ModelsMoved meter spending hold result ledgers before walks complete after) (key : String) :
    before.at' key ≤ after.at' key + hold.amountMicros *
      (((ledgers.filter fun part => (spending.modelRef part.keyPrefix).isSome).flatMap HoldLedger.keys).count key : Int) := by
  rw [models.shape,Deeds.at_append,← models.parts]
  have within := models.within
  clear models
  induction walks with
  | nil => simp
  | cons walk walks ih =>
    have rest := ih fun other member => within other (List.mem_cons_of_mem _ member)
    have net := net_nonneg least walk.part.keys (within walk List.mem_cons_self).2 key
    have own : (walk.deeds hold.amountMicros).at' key =
        (walk.settledMicros - hold.amountMicros) * (walk.part.keys.take walk.moved).count key := adjusted_at _ _ key
    rw [List.flatMap_cons,List.map_cons,List.flatMap_cons,Deeds.at_append,List.count_append,own]
    push_cast
    linarith

private theorem settled_honest {hold : Hold} {result : Result meter.Number} (admitted : Admitted spending hold)
    (apart : ∀ keyPrefix, spending.isJobCost keyPrefix = true → spending.modelRef keyPrefix = none) {settled : Int}
    (positive : 0 ≤ settled) {walked : Settlement} {moved : Nat} {middle deeds : Deeds String} {walks : List ModelWalk}
    {complete : Bool}
    (walk : Moved Purpose.overstates (settling (holdPart hold spending.isJobCost) settled)
      (holdPart hold spending.isJobCost).keys (settled - hold.amountMicros) (holding hold) walked moved middle)
    (models : ModelsMoved meter spending hold result (hold.ledgers.getD []) middle walks complete deeds) {recorded : Int}
    (state : recorded = if walked.applied = 0 ∧ 0 < walked.of ∧ settled ≠ hold.amountMicros then hold.amountMicros else settled)
    {place : ReservedIn}
    (stated : deploymentWindowsOf (holdPart hold spending.isJobCost) walked.applied settled recorded spending.valkeyTag =
      some place) {window : WindowName} {bucket : String} (named : place.bucket window = some bucket) :
    recorded ≤ deeds.at' (bucketKey window bucket) := by
  obtain ⟨⟨ledger,inside,_,member⟩,read,enough⟩ := deploymentWindowsOf_held stated named
  have least := admitted.1.1
  have there := jobPart_keys inside member
  have one := count_least there
  have fewer : (((holdPart hold spending.isJobCost).keys.take moved).count (bucketKey window bucket) : Int) ≤
      (holdPart hold spending.isJobCost).keys.count (bucketKey window bucket) := by
    exact_mod_cast (List.take_sublist moved _).count_le _
  -- what the job's own settlement leaves at the key
  have base : hold.amountMicros * (holdPart hold spending.isJobCost).keys.count (bucketKey window bucket) +
      (settled - hold.amountMicros) * ((holdPart hold spending.isJobCost).keys.take moved).count (bucketKey window bucket) ≤
      deeds.at' (bucketKey window bucket) := by
    have all := mul_le_mul_of_nonneg_left (Int.ofNat_le.mpr (jobPart_count admitted apart (bucketKey window bucket))) least
    have others := models_least least models (bucketKey window bucket)
    rw [walk.shape,Deeds.at_append,adjusted_at,holding_own] at others
    push_cast at all
    rw [mul_add] at all
    linarith
  refine le_trans ?_ base
  split at state
  next kept =>
    subst state
    by_cases early : bucketKey window bucket ∈ (holdPart hold spending.isJobCost).keys.take moved
    · have lost := walk_stopped walk there early (kept.1 ▸ Nat.zero_le _)
      rw [kept.1] at lost
      have raised : hold.amountMicros ≤ settled := by
        have own := lost.2
        unfold settling Purpose.overstates at own
        rw [lost.1] at own
        simp only [Option.getD_some,read,Option.isSome_some,decide_true,Bool.true_and,Bool.and_true] at own
        exact not_lt.mp (of_decide_eq_false own)
      nlinarith
    · rw [List.count_eq_zero.mpr early]
      push_cast
      nlinarith
  next settles =>
    subst state
    rcases le_or_gt recorded hold.amountMicros with lowered | raised
    · nlinarith
    · have reached : bucketKey window bucket ∈ (holdPart hold spending.isJobCost).keys.take moved := by
        unfold heldAt at enough
        dsimp only at enough
        split at enough
        next counted =>
          refine (List.mem_take_iff_idxOf_lt there).mpr ?_
          rcases walk.counted with same | ⟨more,_⟩ <;> omega
        · exact absurd (lt_of_lt_of_le raised enough) (lt_irrefl _)
      have took := count_least reached
      nlinarith

/-- An attempt's record states of a deployment window no more than the attempt has there. -/
theorem accounted_honest {ended : Ended meter.Number} {deeds : Deeds String}
    (apart : ∀ keyPrefix, spending.isJobCost keyPrefix = true → spending.modelRef keyPrefix = none)
    (accounted : Accounted meter spending Purpose.overstates ended deeds) : Honest ended deeds := by
  intro dollars own place found window bucket named
  cases accounted with
  | unheld _ _ unheld nowhere =>
    rw [nowhere dollars own] at found
    cases found
  | standing hold part launch _ admitted among stated =>
    obtain ⟨recorded,target,same⟩ := stated dollars own
    rw [recorded]
    exact standing_honest admitted among (same ▸ found) named
  | released hold launch _ walked moved _ admitted unrun walk stated =>
    obtain ⟨recorded,same⟩ := stated dollars own
    exact released_honest admitted walk recorded (same ▸ found) named
  | settled hold result _ walked moved middle _ walks complete admitted ran walk valid models stated =>
    obtain ⟨recorded,same⟩ := stated dollars own
    refine settled_honest admitted apart ?_ walk models recorded (same ▸ found) named
    exact dollarSettlement_least _ _ _ admitted.1.1

end Honesty

section Worlds

/-- The ledgers carry the prefixes of their rows. -/
structure Spending.Shaped (hash16 : String → String) (spending : Spending) : Prop where
  rows : ∀ ledger ∈ [spending.scope,spending.project,spending.other], ∀ own ∈ ledger,
    ∃ scope, own.keyPrefix = scopeDollarKeyPrefix hash16 scope
  models : ∀ row ∈ spending.models, row.ledger.keyPrefix = modelDollarKeyPrefix hash16 row.ref

/-- Attempts of any hosts on one Valkey, whose answers may be lost wherever `careful` does not forbid it. -/
def attempts (meter : Meter) (hash16 : String → String) (careful : Purpose → Bool) :
    Agency (Valkey.beside (errands meter.Number) Purpose) Store (Attempting meter.Number (Ended meter.Number)) :=
  Counting.callers (windows meter.Number careful) fun program => ∃ spending : Spending, spending.Shaped hash16 ∧
    program = attempt meter spending

/-- The record of an attempt that has ended. -/
def recordOf {N : Type} : Attempting N (Ended N) → Option RunRecord
  | .done ended => some ended.record
  | .issue _ _ => none

variable {meter : Meter} {hash16 : String → String}

private theorem shaped_apart {spending : Spending} (shaped : spending.Shaped hash16) (keyPrefix : String)
    (own : spending.isJobCost keyPrefix = true) : spending.modelRef keyPrefix = none := by
  unfold Spending.modelRef
  rw [Option.map_eq_none_iff,List.find?_eq_none]
  intro row member same
  have named : keyPrefix = modelDollarKeyPrefix hash16 row.ref := by
    rw [← shaped.models row (List.mem_reverse.mp member)]
    exact (of_decide_eq_true same).symm
  have model : keyPrefix.toList = "budget:usd:mdl:".toList ++ (hash16 row.ref.toLower).toList := by
    simp [named,modelDollarKeyPrefix,MODEL_DOLLAR_KEY_PREFIX,DOLLAR_KEY_PREFIX]
  rcases Bool.or_eq_true_iff.mp own with deployment | row'
  · have length := congrArg List.length model
    rw [of_decide_eq_true deployment,List.length_append] at length
    have short : DOLLAR_KEY_PREFIX.toList.length = 10 := by decide
    have long : "budget:usd:mdl:".toList.length = 15 := by decide
    omega
  · obtain ⟨ledger,inside,any⟩ := List.any_eq_true.mp row'
    obtain ⟨found,held,equal⟩ := (Option.any_eq_true _ _).mp any
    obtain ⟨scope,text⟩ := shaped.rows ledger inside found held
    have other : keyPrefix.toList = "budget:usd:s:".toList ++ (hash16 scope).toList := by
      rw [← of_decide_eq_true equal,text]
      simp [scopeDollarKeyPrefix,SCOPE_DOLLAR_KEY_PREFIX,DOLLAR_KEY_PREFIX]
    have twelfth := congrArg (fun letters => letters[11]?) (model.symm.trans other)
    simp at twelfth

private theorem recorded_honest {ended : Ended meter.Number} {deeds : Deeds String} (honest : Honest ended deeds)
    (least : ∀ key, 0 ≤ deeds.at' key) (host valkey : String) (window : WindowName) (bucket : String) :
    statedIn host valkey window bucket ended.record ≤ deeds.at' (bucketKey window bucket) := by
  refine statedIn_le (least _) ?_
  intro dollars kept place found named
  obtain ⟨own,carried,same⟩ := Option.bind_eq_some_iff.mp kept
  unfold dollarsOf at same
  split at same
  · cases same
  · cases Option.some.inj same
    obtain ⟨given,held,read⟩ := Option.bind_eq_some_iff.mp found
    have equal := reservedInOf_same read
    exact honest own carried given held window bucket (equal ▸ named)

/-- The records of a balanced world state no more than the agents have. -/
private theorem stated_le {careful : Purpose → Bool} {post : Ended meter.Number → Deeds String → Prop} (window : WindowName)
    (bucket host valkey : String) (honest : ∀ ended deeds, post ended deeds → Honest ended deeds)
    (accounts : List (Account (Valkey.beside (errands meter.Number) Purpose) String (Ended meter.Number)))
    (owns : ∀ account ∈ accounts, Owns (windows meter.Number careful) post account.program account.deeds)
    (least : ∀ account ∈ accounts, ∀ key, 0 ≤ account.deeds.at' key) :
    (((accounts.map Account.program).filterMap recordOf).map (statedIn host valkey window bucket)).sum ≤
      (accounts.map fun account => account.deeds.at' (bucketKey window bucket)).sum := by
  induction accounts with
  | nil => exact le_rfl
  | cons account accounts ih =>
    have rest := ih (fun other member => owns other (List.mem_cons_of_mem _ member)) fun other member =>
      least other (List.mem_cons_of_mem _ member)
    have nonneg := least account List.mem_cons_self
    have own := owns account List.mem_cons_self
    rw [List.map_cons,List.map_cons,List.sum_cons]
    cases shape : account.program with
    | issue command resume =>
      have unended : recordOf (Program.issue command resume : Attempting meter.Number (Ended meter.Number)) = none := rfl
      rw [List.filterMap_cons_none unended]
      have positive := nonneg (bucketKey window bucket)
      linarith
    | done ended =>
      have recorded : recordOf (Program.done ended : Attempting meter.Number (Ended meter.Number)) = some ended.record := rfl
      rw [List.filterMap_cons_some recorded,List.map_cons,List.sum_cons]
      rw [shape] at own
      have stated := recorded_honest (honest ended account.deeds (owns_done own)) nonneg host valkey window bucket
      linarith

/-- While no answer is lost that the record cannot make up for, no floor is above its counter: over any of the records of the
attempts that have ended, for any host, Valkey and buckets, at every moment of every run. -/
theorem floors_within_counters {world : World Store (Attempting meter.Number (Ended meter.Number))}
    (reached : Reachable (attempts meter hash16 Purpose.overstates) Store.empty world) {records : List RunRecord}
    (among : records.Subperm (world.agents.filterMap recordOf)) {host valkey : String}
    {buckets : WindowName → Option String} {window : WindowName} {floor : Int}
    (found : dollarWindowFloors records host valkey buckets window = some floor) :
    ∃ bucket, buckets window = some bucket ∧ floor ≤ counter world.store (bucketKey window bucket) := by
  obtain ⟨bucket,asked,below⟩ := floors_le_stated found
  refine ⟨bucket,asked,below.trans ?_⟩
  have owned : ∀ program, (∃ spending : Spending, spending.Shaped hash16 ∧ program = attempt meter spending) →
      Owns (windows meter.Number Purpose.overstates) Honest program [] := by
    rintro program ⟨spending,shaped,rfl⟩
    exact (attempt_spends (shaped_apart shaped)).weaken fun _ _ => accounted_honest (shaped_apart shaped)
  obtain ⟨accounts,same,balanced⟩ := accounts_balanced (fun key => .inl rfl) (fun _ => rfl) owned reached
  have exact' : counter world.store (bucketKey window bucket) = _ := balanced.exact (bucketKey window bucket)
  rw [exact']
  refine le_trans ?_ (stated_le window bucket host valkey (fun _ _ honest => honest) accounts balanced.owns balanced.least)
  rw [← same]
  obtain ⟨kept,perm,sub⟩ := among
  rw [← (perm.map (statedIn host valkey window bucket)).sum_eq]
  refine (sub.map (statedIn host valkey window bucket)).sum_le_sum ?_
  intro amount member
  obtain ⟨record,_,rfl⟩ := List.mem_map.mp member
  exact statedIn_nonneg host valkey window bucket record

/-- An attempt, with what it knew of its job's dollars. -/
def told (meter : Meter) (spending : Spending) : Attempting meter.Number (Spending × Ended meter.Number) :=
  (attempt meter spending).bind fun ended => .done (spending,ended)

/-- Attempts of any hosts on one Valkey, each told with what it knew. -/
def billing (meter : Meter) (hash16 : String → String) (careful : Purpose → Bool) :
    Agency (Valkey.beside (errands meter.Number) Purpose) Store (Attempting meter.Number (Spending × Ended meter.Number)) :=
  Counting.callers (windows meter.Number careful) fun program => ∃ spending : Spending, spending.Shaped hash16 ∧
    program = told meter spending

/-- Every walk of a closing was answered throughout. -/
def Closing.answered : Closing → Bool
  | .untouched => true
  | .settled _ _ complete | .released complete => complete

/-- What a closing leaves at a key: the reservation, nothing, or the amounts that the key's own rows settled to. -/
def Closing.leaves (spending : Spending) (hold : Hold) (key : String) : Closing → Int
  | .untouched => hold.amountMicros * hold.keys.count key
  | .released _ => 0
  | .settled settledMicros models _ => settledMicros * (holdPart hold spending.isJobCost).keys.count key +
      (models.map fun walked => walked.2 * (walked.1.keys.count key : Int)).sum

/-- Every ledger of a hold settles to the job's cost or to a model's. -/
private theorem ledger_named {spending : Spending} {hold : Hold} (admitted : Admitted spending hold) {part : HoldLedger}
    (among : part ∈ hold.ledgers.getD []) :
    spending.isJobCost part.keyPrefix = true ∨ (spending.modelRef part.keyPrefix).isSome = true := by
  rcases admitted.2 with rfl | ⟨_,shape⟩
  · cases among
  rw [shape] at among
  obtain ⟨some',windows⟩ := holdLedgers_group _ part among
  obtain ⟨key,inside⟩ := List.exists_mem_of_ne_nil _ some'
  obtain ⟨window,active,named,_⟩ := windows key inside
  obtain ⟨ledger,member,own⟩ := List.mem_flatMap.mp active
  rw [← named,(ledgerWindows_ledger _ ledger window own).1]
  unfold Spending.ledgers dollarLedgers at member
  simp only [List.mem_append,Option.mem_toList,List.mem_map,Option.map_eq_some_iff] at member
  unfold Spending.isJobCost Spending.modelRef
  rw [Option.isSome_map,List.find?_isSome]
  rcases member with (((⟨_,_,rfl⟩ | held) | held) | held) | ⟨row,held,rfl⟩
  · exact .inl (by simp)
  · exact .inl (by simp [held])
  · exact .inl (by simp [held])
  · exact .inl (by simp [held])
  · exact .inr ⟨row,List.mem_reverse.mpr held,decide_eq_true rfl⟩

private theorem parts_counted {spending : Spending}
    (apart : ∀ keyPrefix, spending.isJobCost keyPrefix = true → spending.modelRef keyPrefix = none) (ledgers : List HoldLedger)
    (named : ∀ part ∈ ledgers, spending.isJobCost part.keyPrefix = true ∨ (spending.modelRef part.keyPrefix).isSome = true)
    (key : String) : (ledgers.flatMap HoldLedger.keys).count key =
      ((ledgers.filter fun part => spending.isJobCost part.keyPrefix).flatMap HoldLedger.keys).count key +
      ((ledgers.filter fun part => (spending.modelRef part.keyPrefix).isSome).flatMap HoldLedger.keys).count key := by
  induction ledgers with
  | nil => rfl
  | cons part ledgers ih =>
    obtain ⟨own,others⟩ := List.forall_mem_cons.mp named
    cases cost : spending.isJobCost part.keyPrefix with
    | true => simp [cost,apart _ cost,ih others,Nat.add_assoc]
    | false => simp [cost,own.resolve_left (by simp [cost]),ih others,Nat.add_left_comm]

private theorem walks_at (reserved : Int) {walks : List ModelWalk} (whole : ∀ own ∈ walks, own.moved = own.part.keys.length)
    (key : String) : Deeds.at' (walks.flatMap (ModelWalk.deeds reserved)) key =
      (walks.map fun own => own.settledMicros * (own.part.keys.count key : Int)).sum -
        reserved * (walks.flatMap fun own => own.part.keys).count key := by
  induction walks with
  | nil => simp [Deeds.at']
  | cons own walks ih =>
    obtain ⟨first,rest⟩ := List.forall_mem_cons.mp whole
    rw [List.flatMap_cons,Deeds.at_append,ih rest,ModelWalk.deeds,adjusted_at,first,List.take_length]
    simp
    ring

private theorem accounted_leaves {spending : Spending} {careful : Purpose → Bool} {ended : Ended meter.Number}
    {deeds : Deeds String} (apart : ∀ keyPrefix, spending.isJobCost keyPrefix = true → spending.modelRef keyPrefix = none)
    (accounted : Accounted meter spending careful ended deeds) {hold : Hold} (held : ended.hold = some hold)
    (answered : ended.closing.answered = true) (key : String) : deeds.at' key = ended.closing.leaves spending hold key := by
  cases accounted with
  | unheld _ _ unheld => cases unheld.symm.trans held
  | standing =>
    cases held
    exact holding_own _ key
  | released _ _ _ walked moved _ _ _ walk =>
    cases held
    rw [walk.shape,walk.whole (of_decide_eq_true answered),List.take_length,Deeds.at_append,holding_own,adjusted_at]
    unfold Closing.leaves
    ring
  | settled _ result _ walked moved middle _ walks complete admitted _ walk _ models =>
    cases held
    obtain ⟨all,others⟩ := Bool.and_eq_true_iff.mp answered
    have split := parts_counted apart (hold.ledgers.getD []) (fun _ => ledger_named admitted) key
    rw [admitted_keys admitted,← models.parts,List.flatMap_map] at split
    rw [models.shape,walk.shape,walk.whole (of_decide_eq_true all),List.take_length,Deeds.at_append,Deeds.at_append,
      holding_own,adjusted_at,walks_at _ (models.all others),split]
    simp only [Closing.leaves,holdPart,List.map_map,Function.comp_def]
    push_cast
    ring

/-- In every interleaving, whatever the errands answer and whatever answers are lost, each counter is the sum of what the
attempts have there, and each hold that has ended stands, was given back or was settled, once and by no more than its own. -/
theorem counters_exact {careful : Purpose → Bool} {world : World Store (Attempting meter.Number (Spending × Ended meter.Number))}
    (reached : Reachable (billing meter hash16 careful) Store.empty world) :
    ∃ accounts : List (Account (Valkey.beside (errands meter.Number) Purpose) String (Spending × Ended meter.Number)),
      world.agents = accounts.map Account.program ∧
      (∀ key, counter world.store key = (accounts.map fun account => account.deeds.at' key).sum) ∧
      ∀ account ∈ accounts, (∀ key, 0 ≤ account.deeds.at' key) ∧ ∀ spending ended, account.program = .done (spending,ended) →
        Accounted meter spending careful ended account.deeds ∧ ∀ hold, ended.hold = some hold →
          ended.closing.answered = true → ∀ key, account.deeds.at' key = ended.closing.leaves spending hold key := by
  have owned : ∀ program, (∃ spending : Spending, spending.Shaped hash16 ∧ program = told meter spending) →
      Owns (windows meter.Number careful) (fun out deeds => out.1.Shaped hash16 ∧ Accounted meter out.1 careful out.2 deeds)
        program [] := by
    rintro program ⟨spending,shaped,rfl⟩
    exact (attempt_spends (shaped_apart shaped)).bind _ fun ended deeds accounted => .done _ _ ⟨shaped,accounted⟩
  obtain ⟨accounts,same,balanced⟩ := accounts_balanced (fun key => .inl rfl) (fun _ => rfl) owned reached
  refine ⟨accounts,same,balanced.exact,fun account member => ⟨balanced.least account member,?_⟩⟩
  intro spending ended returned
  have own := balanced.owns account member
  rw [returned] at own
  obtain ⟨shaped,accounted⟩ := owns_done own
  exact ⟨accounted,fun hold held answered key => accounted_leaves (shaped_apart shaped) accounted held answered key⟩

end Worlds

section Samples

/-- Costs as fractions of a dollar. -/
def fractions : Meter where
  Number := Rat
  meteredMicros cost := if 0 ≤ cost ∧ isMicros (cost * 1000000).ceil then some (cost * 1000000).ceil else none
  micros cost amount found := by
    split at found
    next valid =>
      cases found
      exact valid.2
    · cases found
  isZero cost := cost = 0
  isAbove cost micros := micros < cost

def oneHash (_ : String) : String := "0123456789abcdef"

def twoDollars : Spending where
  host := "worker-1"
  valkeyTag := some "00112233445566ff"
  armed := false
  isLocal := true
  neverStartedExits := [125]
  caps := some ⟨some 10000000,none,none⟩
  scope := none
  project := none
  other := none
  models := []
  maxCostMicros := some 2000000
  zeroRated := false
  now := 0

def firstDay : WindowName → Option String
  | .day => some "1970-01-01"
  | .week | .month => none

theorem twoDollars_shaped : twoDollars.Shaped oneHash := by
  refine ⟨?_,?_⟩
  · intro ledger inside own held
    simp only [twoDollars,List.mem_cons,List.not_mem_nil,or_false,or_self] at inside
    rw [inside] at held
    cases held
  · intro row inside
    exact absurd inside List.not_mem_nil

/-- The container is refused before it starts; the answer of the release is lost after its effect. -/
def refusedAndLost (store : Store) :
    (command : (Valkey.beside (errands Rat) Purpose).Command) → (Valkey.beside (errands Rat) Purpose).Answer command × Store
  | .inl .container => (.refused .neverStarted,store)
  | .inl .prepare => (none,store)
  | .inl (.recordHold _) | .inl .settleHold | .inl .releaseHold | .inl .conclude => (true,store)
  | .inl .collect => (false,store)
  | .inr (.release _,command) => (.error ⟨none⟩,(command.2 store).2)
  | .inr (_,command) => command.2 store

def overstating : World Store (Attempting Rat (Ended Rat)) :=
  (attempts fractions oneHash fun _ => false).turns refusedAndLost ⟨.empty,[attempt fractions twoDollars]⟩ (List.replicate 6 0)

private theorem lost_served (store : Store) (command : (Valkey.beside (errands Rat) Purpose).Command) :
    attemptServes (fun _ => false) store command (refusedAndLost store command).1 (refusedAndLost store command).2 := by
  cases command with
  | inl errand => cases errand <;> rfl
  | inr marked =>
    obtain ⟨purpose,command⟩ := marked
    refine ⟨?_,fun none => by cases none⟩
    cases purpose with
    | release key => exact .inr ⟨_,rfl,.inr rfl⟩
    | reserve => exact .inl rfl
    | settle => exact .inl rfl
    | model => exact .inl rfl

/-- The record states a whole reservation in a window that holds nothing. -/
theorem refund_unanswered : ¬∀ (world : World Store (Attempting Rat (Ended Rat))),
    Reachable (attempts fractions oneHash fun _ => false) Store.empty world → ∀ (records : List RunRecord),
    records.Subperm (world.agents.filterMap recordOf) → ∀ host valkey buckets window floor,
    dollarWindowFloors records host valkey buckets window = some floor →
    ∃ bucket, buckets window = some bucket ∧ floor ≤ counter world.store (bucketKey window bucket) := by
  intro claim
  have entered : Reachable (attempts fractions oneHash fun _ => false) Store.empty ⟨.empty,[attempt fractions twoDollars]⟩ :=
    .tail .refl (.enter _ [] (attempt fractions twoDollars) ⟨twoDollars,twoDollars_shaped,rfl⟩)
  have reached : Reachable (attempts fractions oneHash fun _ => false) Store.empty overstating :=
    reachable_turns _ refusedAndLost lost_served (List.replicate 6 0) entered
  have stated : dollarWindowFloors (overstating.agents.filterMap recordOf) "worker-1" "00112233445566ff" firstDay .day =
      some 2000000 := by decide +kernel
  have held : counter overstating.store (bucketKey .day "1970-01-01") = 0 := by decide +kernel
  obtain ⟨bucket,same,below⟩ := claim overstating reached _ (List.Subperm.refl _) _ _ _ _ _ stated
  cases same
  omega

def halfDollar : Result Rat where
  code := some 0
  aborted := false
  detached := false
  lingering := false
  oomKilled := false
  exitLineCode := some 0
  tokens := some ⟨true,some 2000000,fun _ => some 0,some 1,some (1 / 2)⟩
  usage := some ⟨[⟨"anthropic","claude",some (1 / 2)⟩],some 0⟩

/-- Every command is answered, and the container reports half a dollar. -/
def metered (store : Store) :
    (command : (Valkey.beside (errands Rat) Purpose).Command) → (Valkey.beside (errands Rat) Purpose).Answer command × Store
  | .inl .container => (.ended halfDollar,store)
  | .inl .prepare => (none,store)
  | .inl (.recordHold _) | .inl .settleHold | .inl .releaseHold | .inl .conclude => (true,store)
  | .inl .collect => (false,store)
  | .inr (_,command) => command.2 store

def answers (store : Store) : (Valkey.beside (errands Rat) Purpose).Command → Bool
  | .inl _ => true
  | .inr (_,command) => (command.2 store).1.isOk

private theorem metered_served (store : Store) (command : (Valkey.beside (errands Rat) Purpose).Command)
    (answered : answers store command) :
    attemptServes Purpose.overstates store command (metered store command).1 (metered store command).2 := by
  cases command with
  | inl errand => cases errand <;> rfl
  | inr marked =>
    obtain ⟨purpose,command⟩ := marked
    refine ⟨.inl rfl,?_⟩
    rintro _ ⟨fault,failed⟩
    have failed : (command.2 store).1 = .error fault := failed
    have answered : (command.2 store).1.isOk = true := answered
    rw [failed] at answered
    cases answered

def oneSettled : World Store (Attempting Rat (Ended Rat)) :=
  (attempts fractions oneHash Purpose.overstates).turns metered
    ⟨.empty,[attempt fractions twoDollars,attempt fractions twoDollars]⟩ (List.replicate 7 0 ++ List.replicate 4 1)

theorem floors_within_counters_one_settled :
    dollarWindowFloors (oneSettled.agents.filterMap recordOf) "worker-1" "00112233445566ff" firstDay .day = some 500000 ∧
      ∃ bucket, firstDay .day = some bucket ∧ 500000 ≤ counter oneSettled.store (bucketKey .day bucket) := by
  have first : Reachable (attempts fractions oneHash Purpose.overstates) Store.empty ⟨.empty,[attempt fractions twoDollars]⟩ :=
    .tail .refl (.enter _ [] (attempt fractions twoDollars) ⟨twoDollars,twoDollars_shaped,rfl⟩)
  have entered : Reachable (attempts fractions oneHash Purpose.overstates) Store.empty
      ⟨.empty,[attempt fractions twoDollars,attempt fractions twoDollars]⟩ :=
    .tail first (.enter _ _ (attempt fractions twoDollars) ⟨twoDollars,twoDollars_shaped,rfl⟩)
  have reached : Reachable (attempts fractions oneHash Purpose.overstates) Store.empty oneSettled :=
    reachable_passes _ metered answers metered_served (List.replicate 7 0 ++ List.replicate 4 1) entered (by decide +kernel)
  have stated : dollarWindowFloors (oneSettled.agents.filterMap recordOf) "worker-1" "00112233445566ff" firstDay .day =
      some 500000 := by decide +kernel
  exact ⟨stated,floors_within_counters reached (List.Subperm.refl _) stated⟩

def billed : World Store (Attempting Rat (Spending × Ended Rat)) :=
  (billing fractions oneHash Purpose.overstates).turns metered ⟨.empty,[told fractions twoDollars]⟩ (List.replicate 7 0)

/-- Two dollars reserved, and half a dollar of them spent. -/
theorem counters_exact_one_settled : counter billed.store (bucketKey .day "1970-01-01") = 500000 ∧
    ∃ accounts : List (Account (Valkey.beside (errands Rat) Purpose) String (Spending × Ended Rat)),
      billed.agents = accounts.map Account.program ∧
      ∀ key, counter billed.store key = (accounts.map fun account => account.deeds.at' key).sum := by
  have entered : Reachable (billing fractions oneHash Purpose.overstates) Store.empty ⟨.empty,[told fractions twoDollars]⟩ :=
    .tail .refl (.enter _ [] (told fractions twoDollars) ⟨twoDollars,twoDollars_shaped,rfl⟩)
  have reached : Reachable (billing fractions oneHash Purpose.overstates) Store.empty billed :=
    reachable_passes _ metered answers metered_served (List.replicate 7 0) entered (by decide +kernel)
  obtain ⟨accounts,same,sums,_⟩ := counters_exact reached
  exact ⟨by decide +kernel,accounts,same,sums⟩

end Samples

end PiDispatch.DollarBudget
