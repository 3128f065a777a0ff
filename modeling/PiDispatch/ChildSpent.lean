import PiDispatch.ChildFoldRuns

/-! The file in which a parent tells its children what the whole job has spent, and what a child reads from it: the total
less its own part. Both saturate at the largest safe integer. -/
namespace PiDispatch.UsageMeter
open Kernel JsonText Utf16 Relation

/-- What a job has spent: each ledger's part, by file name, and the total. -/
structure SpentFile where
  total : Int
  byLedger : Dict String Int

/-- A number of the language as whole micro-dollars, rounded up; one that is no finite number is none. -/
def SpentFile.carry (value : Option Rat) : Int :=
  match value with
  | some value => if 0 ≤ value ∧ value ≤ maxSafeInteger then ⌈value⌉ else maxSafeInteger
  | none => maxSafeInteger

def partOf (entry : Entry) : Int := SpentFile.carry (some (ledgerCharge entry.high))

def spentFile (fold : Fold) (parentMicros : Option Rat) : SpentFile where
  total := (fold.files.values.map partOf).foldl saturatingAdd
    (saturatingAdd (SpentFile.carry parentMicros) (SpentFile.carry (some fold.retired.charge)))
  byLedger := fold.files.map partOf

section Text
variable (figures : Figures)

def SpentFile.json (spent : SpentFile) : JsonValue figures.Value :=
  .object [(spell "v",numeral figures 1),(spell "total",numeral figures spent.total),
    (spell "byLedger",.object (spent.byLedger.entries.map fun entry => (spell entry.1,numeral figures entry.2)))]

def SpentFile.text (spent : SpentFile) : Text := stringify figures.toNumbers (spent.json figures)

def isSpentVersion (value : Option (JsonValue figures.Value)) : Bool :=
  match value with
  | some (.number value) => figures.finite? value = some 1
  | _ => false

/-- A child's own part: that of its ledger's name, or nothing. -/
def ownPart (byLedger : JsonValue figures.Value) (ownName : String) : Option Nat :=
  match byLedger.field? (spell ownName) with
  | some value => whole figures (some value)
  | none => some 0

/-- What the rest of the job has spent; a file that is malformed says that it is infinite. -/
def externalFor (spent : JsonValue figures.Value) (ownName : String) : Option Nat :=
  if isPlain figures spent = false ∨ isSpentVersion figures (spent.field? (spell "v")) = false then none
  else do
    let total ← whole figures (spent.field? (spell "total"))
    let byLedger ← spent.field? (spell "byLedger")
    if isPlain figures byLedger = false then none
    else
      let own ← ownPart figures byLedger ownName
      if total < own then none else some (total - own)

/-- The same from the file's text; before the file is written, nothing is spent. -/
def readExternal (text : Option Text) (ownName : String) : Option Nat :=
  match text with
  | none => some 0
  | some text => (parse figures.toNumbers text).bind fun parsed => externalFor figures parsed ownName

/-- What the child of that name reads once its parent has written. -/
def externalOf (fold : Fold) (parentMicros : Option Rat) (ownName : String) : Option Nat :=
  readExternal figures (some ((spentFile fold parentMicros).text figures)) ownName

end Text

/-! What a fold holds, and of it what a child's own ledger does. -/

def ownCharge (fold : Fold) (ownName : String) : Int :=
  ((fold.files.get? ownName).map fun entry => ledgerCharge entry.high).getD 0

/-- The charges of the ledgers of the other names. -/
def otherCharges (fold : Fold) (ownName : String) : Int :=
  ((fold.files.erase ownName).values.map fun entry => ledgerCharge entry.high).sum

/-- What the parent, the other ledgers and the retired ones hold. -/
def restCharge (fold : Fold) (parentMicros : Option Rat) (ownName : String) : Int :=
  SpentFile.carry parentMicros + fold.retired.charge + otherCharges fold ownName

/-- A fold of files whose names are those of ledgers, and whose charges are amounts. -/
structure Fold.Charged (fold : Fold) : Prop where
  names : ∀ name ∈ fold.files.keys, (ledgerPid name).isSome
  spent : ∀ entry ∈ fold.files.values, 0 ≤ entry.high.spentMicros ∧ 0 ≤ entry.high.inflightMicros
  retired : 0 ≤ fold.retired.charge

/-- A mark as it is, or raised in what it is charged by. -/
def MarkUp (entry now : Entry) : Prop :=
  entry.high.spentMicros ≤ now.high.spentMicros ∧ entry.high.inflightMicros ≤ now.high.inflightMicros ∧
    entry.high.totals.cost ≤ now.high.totals.cost

/-- The same files, their marks and the retired charge as they are or raised. -/
structure Raised (fold more : Fold) : Prop where
  keys : more.files.keys = fold.files.keys
  marks : Dict.Raises MarkUp fold.files more.files
  retired : fold.retired.charge ≤ more.retired.charge

/-- A spend of nothing or more, and another as large; none is one that has grown past every number. -/
def SpendRaised (spend more : Option Rat) : Prop :=
  ∀ now, more = some now → ∃ micros, spend = some micros ∧ 0 ≤ micros ∧ micros ≤ now

/-! Charges and parts stay within the safe integers. -/

private theorem charge_within {high : Ledger} (spent : 0 ≤ high.spentMicros) (inflight : 0 ≤ high.inflightMicros) :
    0 ≤ ledgerCharge high ∧ ledgerCharge high ≤ maxSafeInteger := by
  have within : (0 : Int) ≤ maxSafeInteger := Int.natCast_nonneg maxSafeInteger
  have settled : 0 ≤ ledgerSettled high := le_min within (le_max_of_le_left spent)
  unfold ledgerCharge saturatingAdd
  exact ⟨le_min within (by omega),min_le_left _ _⟩

private theorem carry_within (value : Option Rat) : 0 ≤ SpentFile.carry value ∧ SpentFile.carry value ≤ maxSafeInteger := by
  have within : (0 : Int) ≤ maxSafeInteger := Int.natCast_nonneg maxSafeInteger
  unfold SpentFile.carry
  split
  · split
    next bounds => exact ⟨Int.ceil_nonneg bounds.1,Int.ceil_le.mpr (by exact_mod_cast bounds.2)⟩
    · exact ⟨within,le_refl _⟩
  · exact ⟨within,le_refl _⟩

private theorem carry_whole {charge : Int} (positive : 0 ≤ charge) : SpentFile.carry (some (charge : Rat)) = min (maxSafeInteger : Int) charge := by
  unfold SpentFile.carry
  dsimp only
  split
  next bounds =>
    have most : charge ≤ maxSafeInteger := by exact_mod_cast bounds.2
    rw [Int.ceil_intCast,min_eq_right most]
  next beyond =>
    have most : (maxSafeInteger : Int) < charge := by
      apply lt_of_not_ge
      intro most
      exact beyond ⟨by exact_mod_cast positive,by exact_mod_cast most⟩
    rw [min_eq_left most.le]

private theorem carry_up {spend more : Option Rat} (raised : SpendRaised spend more) : SpentFile.carry spend ≤ SpentFile.carry more := by
  cases more with
  | none => exact (carry_within spend).2
  | some now =>
    obtain ⟨micros,rfl,positive,up⟩ := raised now rfl
    by_cases most : now ≤ maxSafeInteger
    · unfold SpentFile.carry
      dsimp only
      rw [if_pos ⟨positive,up.trans most⟩,if_pos ⟨positive.trans up,most⟩]
      exact Int.ceil_mono up
    · have beyond : SpentFile.carry (some now) = maxSafeInteger := if_neg fun bounds => most bounds.2
      rw [beyond]
      exact (carry_within (some micros)).2

private theorem part_charge {entry : Entry} (spent : 0 ≤ entry.high.spentMicros) (inflight : 0 ≤ entry.high.inflightMicros) :
    partOf entry = ledgerCharge entry.high := by
  obtain ⟨positive,most⟩ := charge_within spent inflight
  unfold partOf
  rw [carry_whole positive,min_eq_right most]

private theorem parts_charges {fold : Fold} (charged : fold.Charged) :
    fold.files.values.map partOf = fold.files.values.map fun entry => ledgerCharge entry.high :=
  List.map_congr_left fun entry inside => part_charge (charged.spent entry inside).1 (charged.spent entry inside).2

/-- All charges are a child's own and the others'. -/
private theorem charges_split (fold : Fold) (ownName : String) :
    (fold.files.values.map fun entry => ledgerCharge entry.high).sum = ownCharge fold ownName + otherCharges fold ownName := by
  unfold ownCharge otherCharges
  cases held : fold.files.get? ownName with
  | none =>
    unfold Dict.values
    rw [Dict.erase_of_absent _ _ held]
    exact (zero_add _).symm
  | some entry =>
    rw [((Dict.values_perm_erase _ _ _ held).map fun entry => ledgerCharge entry.high).sum_eq]
    rfl

private theorem own_within {fold : Fold} (charged : fold.Charged) (ownName : String) :
    0 ≤ ownCharge fold ownName ∧ ownCharge fold ownName ≤ maxSafeInteger := by
  have within : (0 : Int) ≤ maxSafeInteger := Int.natCast_nonneg maxSafeInteger
  unfold ownCharge
  cases held : fold.files.get? ownName with
  | none => exact ⟨le_refl _,within⟩
  | some entry =>
    have spent := charged.spent entry ((Dict.mem_values_iff _ _).mpr ⟨ownName,held⟩)
    exact charge_within spent.1 spent.2

private theorem others_positive {fold : Fold} (charged : fold.Charged) (ownName : String) : 0 ≤ otherCharges fold ownName := by
  apply List.sum_nonneg
  intro charge inside
  obtain ⟨entry,member,rfl⟩ := List.mem_map.mp inside
  have spent := charged.spent entry ((Dict.values_erase _ _).subset member)
  exact (charge_within spent.1 spent.2).1

/-- The total that a parent writes. -/
theorem spentFile_total {fold : Fold} (charged : fold.Charged) (parentMicros : Option Rat) (ownName : String) :
    (spentFile fold parentMicros).total =
      min (maxSafeInteger : Int) (restCharge fold parentMicros ownName + ownCharge fold ownName) := by
  have least := carry_within parentMicros
  have positive := charged.retired
  have amounts : ∀ amount ∈ fold.files.values.map fun entry => ledgerCharge entry.high, 0 ≤ amount := by
    intro amount inside
    obtain ⟨entry,member,rfl⟩ := List.mem_map.mp inside
    exact (charge_within (charged.spent entry member).1 (charged.spent entry member).2).1
  have sum := List.sum_nonneg amounts
  unfold spentFile
  dsimp only
  have low : saturatingAdd (SpentFile.carry parentMicros) (SpentFile.carry (some fold.retired.charge)) ≤ maxSafeInteger := min_le_left _ _
  rw [parts_charges charged,Fold.saturated _ _ low amounts,carry_whole positive]
  rw [charges_split fold ownName] at sum ⊢
  unfold saturatingAdd restCharge
  omega

/-! The file is read back. -/

private theorem name_plain {name : String} (named : (ledgerPid name).isSome) : JsonValue.index? (spell name) = none := by
  have dotted : '.' ∈ name.toList := by
    obtain ⟨pid,named⟩ := Option.isSome_iff_exists.mp named
    unfold ledgerPid at named
    dsimp only at named
    split at named
    next tail =>
      rw [← List.takeWhile_append_dropWhile (p := Char.isDigit) (l := name.toList),tail]
      exact List.mem_append_right _ List.mem_cons_self
    · cases named
  unfold JsonValue.index?
  dsimp only
  rw [if_neg]
  rintro ⟨_,_,digits,_⟩
  generalize List.foldl _ 0 (spell name) = index at digits
  have same : name = String.ofList (decimal index) := by
    apply spell_inj.mp
    unfold spell
    rw [String.toList_ofList]
    exact digits.symm
  rw [same,String.toList_ofList] at dotted
  have digit := Nat.isDigit_of_mem_toDigits (by decide) (by decide) dotted
  revert digit
  decide

section Read
variable (figures : Figures)

private theorem micros_numeral {micros : Int} (positive : 0 ≤ micros) (most : micros ≤ maxSafeInteger) :
    Legible figures.toNumbers (numeral figures (micros : Rat)) ∧
      ∃ number : Nat, whole figures (some (numeral figures (micros : Rat))) = some number ∧ (number : Int) = micros := by
  obtain ⟨number,rfl⟩ := Int.eq_ofNat_of_zero_le positive
  have safe : number ≤ maxSafeInteger := by exact_mod_cast most
  have exact := figures.exact_nat number safe
  constructor
  · refine .number _ (figures.token _ ?_ ?_ ?_)
    · exact_mod_cast exact
    · positivity
    · exact_mod_cast safe
  · refine ⟨number,?_,rfl⟩
    unfold whole numeral
    dsimp only
    rw [Int.cast_natCast,figures.ofRat_nat number safe,figures.safe_ofNat number safe]

private theorem spent_legible {fold : Fold} (charged : fold.Charged) (parentMicros : Option Rat) :
    Legible figures.toNumbers ((spentFile fold parentMicros).json figures) := by
  have total : 0 ≤ (spentFile fold parentMicros).total ∧ (spentFile fold parentMicros).total ≤ maxSafeInteger := by
    have own := own_within charged ""
    have least := carry_within parentMicros
    have others := others_positive charged ""
    have positive := charged.retired
    rw [spentFile_total charged parentMicros ""]
    unfold restCharge
    omega
  unfold SpentFile.json
  refine .object _ ?_ ?_ ?_
  · simp only [List.forall_mem_cons]
    refine ⟨?_,(micros_numeral figures total.1 total.2).1,?_,nofun⟩
    · have one := @micros_numeral figures 1 (by decide) (by decide)
      rw [Int.cast_one] at one
      exact one.1
    · refine .object _ ?_ ?_ ?_
      · intro member inside
        obtain ⟨entry,there,rfl⟩ := List.mem_map.mp inside
        obtain ⟨own,_,rfl⟩ := List.mem_map.mp there
        have within := carry_within (some (ledgerCharge own.2.high))
        exact (micros_numeral figures within.1 within.2).1
      · intro member inside
        obtain ⟨entry,there,rfl⟩ := List.mem_map.mp inside
        obtain ⟨own,held,rfl⟩ := List.mem_map.mp there
        exact name_plain (charged.names own.1 (List.mem_map_of_mem held))
      · have distinct := (spentFile fold parentMicros).byLedger.distinct
        rw [List.map_map]
        have spelled := distinct.map fun one other same => spell_inj.mp same
        rw [List.map_map] at spelled
        exact spelled
  · simp only [List.forall_mem_cons]
    exact ⟨by decide,by decide,by decide,nofun⟩
  · simp [spell_inj]

private theorem field_part (fold : Fold) (parentMicros : Option Rat) (ownName : String) :
    (JsonValue.object ((spentFile fold parentMicros).byLedger.entries.map fun entry =>
      (spell entry.1,numeral figures entry.2))).field? (spell ownName) =
      (fold.files.get? ownName).map fun entry => numeral figures (partOf entry) := by
  unfold JsonValue.field? spentFile Dict.map Dict.get?
  dsimp only
  rw [List.map_map,List.find?_map,Option.map_map,Option.map_map]
  unfold Function.comp
  simp only [spell_inj]

/-- What a child reads: the rest of the job, as far as its own part leaves room below the largest safe integer. -/
theorem external_read {fold : Fold} (charged : fold.Charged) (parentMicros : Option Rat) (ownName : String) :
    ∃ external : Nat, externalOf figures fold parentMicros ownName = some external ∧
      (external : Int) = min (maxSafeInteger - ownCharge fold ownName) (restCharge fold parentMicros ownName) := by
  have parsed := parse_legible (spent_legible figures charged parentMicros)
  have own := own_within charged ownName
  have least := carry_within parentMicros
  have others := others_positive charged ownName
  have positive := charged.retired
  have written := spentFile_total charged parentMicros ownName
  have rest : 0 ≤ restCharge fold parentMicros ownName := by
    unfold restCharge
    omega
  obtain ⟨total,readTotal,sum⟩ := (@micros_numeral figures (spentFile fold parentMicros).total (by omega) (by omega)).2
  have part : ∃ number : Nat, ownPart figures (.object ((spentFile fold parentMicros).byLedger.entries.map fun entry =>
      (spell entry.1,numeral figures entry.2))) ownName = some number ∧ (number : Int) = ownCharge fold ownName := by
    unfold ownPart ownCharge
    rw [field_part]
    cases held : fold.files.get? ownName with
    | none => exact ⟨0,rfl,rfl⟩
    | some entry =>
      have spent := charged.spent entry ((Dict.mem_values_iff _ _).mpr ⟨ownName,held⟩)
      have within := charge_within spent.1 spent.2
      rw [Option.map_some,part_charge spent.1 spent.2]
      exact (micros_numeral figures within.1 within.2).2
  obtain ⟨mine,readMine,same⟩ := part
  have version : isSpentVersion figures (some (numeral figures 1)) = true := by
    have one := figures.exact_nat 1 (by decide)
    rw [Nat.cast_one] at one
    exact decide_eq_true (figures.finite_ofRat 1 one)
  refine ⟨total - mine,?_,by omega⟩
  unfold externalOf readExternal SpentFile.text
  dsimp only
  rw [parsed,Option.bind_some]
  unfold externalFor
  rw [if_neg]
  · simp only [SpentFile.json,JsonValue.field?,List.find?_cons,spell_inj,String.reduceEq,decide_true,decide_false,
      Option.map_some,Option.bind_eq_bind,Option.bind_some]
    rw [readTotal,Option.bind_some,if_neg (by simp [isPlain]),readMine,Option.bind_some,if_neg (by omega)]
  · simp [SpentFile.json,isPlain,JsonValue.field?,version]

/-! Every fold is of such files. -/

private theorem judged_named {tick : Tick} {name : String} {before after : Option Entry}
    (reads : ReflTransGen (Judged figures tick name) before after) (named : before.isSome → (ledgerPid name).isSome) :
    after.isSome → (ledgerPid name).isSome := by
  induction reads with
  | refl => exact named
  | tail _ judged _ =>
    obtain ⟨pid,_,own,_,_⟩ := judged
    intro _
    rw [own]
    rfl

private theorem retired_charge (entries : List (String × Entry)) (retired : Retired) (positive : 0 ≤ retired.charge)
    (spent : ∀ entry ∈ entries, 0 ≤ entry.2.high.spentMicros ∧ 0 ≤ entry.2.high.inflightMicros) :
    0 ≤ (entries.foldl (fun retired entry => retired.add entry.1 entry.2) retired).charge := by
  induction entries generalizing retired with
  | nil => exact positive
  | cons entry rest ih =>
    have within : (0 : Int) ≤ maxSafeInteger := Int.natCast_nonneg maxSafeInteger
    have own := spent entry List.mem_cons_self
    have charge := charge_within own.1 own.2
    apply ih
    · unfold Retired.add saturatingAdd
      exact le_min within (by omega)
    · exact fun other inside => spent other (List.mem_cons_of_mem _ inside)

private theorem charged_next {fold : Fold} {gone : List (String × Ledger)} {book : Dict String Ledger}
    (charged : fold.Charged) (booked : fold.Booked gone book) (tick : Tick) : (foldChildLedgers figures tick fold).Charged := by
  obtain ⟨more,later,booked',_⟩ := booked.next figures tick
  obtain ⟨files,each,kept,retired,_⟩ := fold_shape figures tick fold
  have fair : ∀ name entry, files.get? name = some entry → entry.high.Fair := by
    intro name entry held
    obtain ⟨read,present,reads,_,shape⟩ := each name
    rw [shape] at held
    obtain ⟨old,here,rfl⟩ := Option.map_eq_some_iff.mp held
    rw [(vanish_high present name old).1]
    exact (reads_entry figures reads fun _ => booked.mark_fair).1 old here
  refine ⟨?_,?_,?_⟩
  · intro name inside
    rw [kept] at inside
    obtain ⟨entry,member,rfl⟩ := List.mem_map.mp inside
    have held := Dict.get?_of_mem files (List.mem_of_mem_filter member)
    obtain ⟨read,present,reads,_,shape⟩ := each entry.1
    rw [shape] at held
    obtain ⟨old,here,_⟩ := Option.map_eq_some_iff.mp held
    refine judged_named figures reads ?_ (by rw [here]; rfl)
    exact fun before => charged.names _ ((Dict.get?_isSome_iff _ _).mp before)
  · intro entry inside
    obtain ⟨name,held⟩ := (Dict.mem_values_iff _ _).mp inside
    have own := booked'.mark_fair held
    exact ⟨own.spent.1,own.inflight.1⟩
  · rw [retired]
    apply retired_charge _ _ charged.retired
    intro entry inside
    have own := fair entry.1 entry.2 (Dict.get?_of_mem files (List.mem_of_mem_filter inside))
    exact ⟨own.spent.1,own.inflight.1⟩

theorem history_charged (ticks : List Tick) : (Fold.history figures ticks).Charged := by
  induction ticks using List.reverseRecOn with
  | nil => exact ⟨fun _ none => absurd none List.not_mem_nil,fun _ none => absurd none List.not_mem_nil,le_refl _⟩
  | append_singleton ticks tick ih =>
    obtain ⟨gone,book,booked⟩ := Fold.history_booked figures ticks
    have next := charged_next figures ih booked tick
    unfold Fold.history at next ⊢
    rw [List.foldl_append]
    exact next

/-! A raised fold. -/

private theorem charge_up {entry now : Entry} (up : MarkUp entry now) : ledgerCharge entry.high ≤ ledgerCharge now.high := by
  obtain ⟨spent,inflight,cost⟩ := up
  have settled : ledgerSettled entry.high ≤ ledgerSettled now.high := by
    unfold ledgerSettled
    refine min_le_min (le_refl _) (max_le_max spent ?_)
    exact Int.ceil_mono (mul_le_mul_of_nonneg_right cost (by norm_num))
  unfold ledgerCharge saturatingAdd
  exact min_le_min (le_refl _) (by omega)

private theorem raised_charged {fold more : Fold} (charged : fold.Charged) (raised : Raised fold more) : more.Charged := by
  refine ⟨?_,?_,charged.retired.trans raised.retired⟩
  · rw [raised.keys]
    exact charged.names
  · intro now inside
    obtain ⟨name,held⟩ := (Dict.mem_values_iff _ _).mp inside
    have present : name ∈ fold.files.keys := by
      rw [← raised.keys,← Dict.get?_isSome_iff,held]
      rfl
    obtain ⟨entry,before⟩ := Option.isSome_iff_exists.mp ((Dict.get?_isSome_iff _ _).mpr present)
    obtain ⟨other,there,spent,inflight,_⟩ := raised.marks name entry before
    rw [held] at there
    cases there
    have least := charged.spent entry ((Dict.mem_values_iff _ _).mpr ⟨name,before⟩)
    exact ⟨least.1.trans spent,least.2.trans inflight⟩

private theorem raised_own {fold more : Fold} (charged : fold.Charged) (raised : Raised fold more) (ownName : String) :
    ownCharge fold ownName ≤ ownCharge more ownName := by
  cases held : fold.files.get? ownName with
  | none =>
    have least := own_within (raised_charged charged raised) ownName
    unfold ownCharge at least ⊢
    rw [held]
    exact least.1
  | some entry =>
    obtain ⟨now,there,up⟩ := raised.marks ownName entry held
    unfold ownCharge
    rw [held,there]
    exact charge_up up

private theorem raised_rest {fold more : Fold} (charged : fold.Charged) (raised : Raised fold more)
    {spend spend' : Option Rat} (up : SpendRaised spend spend') (ownName : String) :
    restCharge fold spend ownName ≤ restCharge more spend' ownName := by
  have parent := carry_up up
  have retired := raised.retired
  have others : otherCharges fold ownName ≤ otherCharges more ownName := by
    refine (raised.marks.rest ownName).sum (fun entry => ledgerCharge entry.high) (fun _ _ up => charge_up up) ?_
    intro now inside
    have spent := (raised_charged charged raised).spent now ((Dict.values_erase _ _).subset inside)
    exact (charge_within spent.1 spent.2).1
  unfold restCharge
  omega

/-- What is wanted of a fold's file and of that of a raised one: a child reads a number from both, the sum of what the
rest of the job holds where nothing saturates, and from the second no less. -/
structure Overcharges (fold more : Fold) (spend spend' : Option Rat) (ownName : String) : Prop where
  read : ∃ external : Nat, externalOf figures fold spend ownName = some external
  exact : ∀ micros : Rat, spend = some micros → 0 ≤ micros → ∀ external : Nat,
    externalOf figures fold spend ownName = some external →
    ⌈micros⌉ + fold.retired.charge + otherCharges fold ownName + ownCharge fold ownName ≤ maxSafeInteger →
    (external : Int) = ⌈micros⌉ + fold.retired.charge + otherCharges fold ownName
  raised : ∃ external external' : Nat, externalOf figures fold spend ownName = some external ∧
    externalOf figures more spend' ownName = some external' ∧ external ≤ external'

private theorem overcharges_iff {fold more : Fold} (charged : fold.Charged) (raised : Raised fold more)
    {spend spend' : Option Rat} (up : SpendRaised spend spend') (ownName : String) :
    Overcharges figures fold more spend spend' ownName ↔ ownCharge more ownName = ownCharge fold ownName ∨
      restCharge fold spend ownName + ownCharge more ownName ≤ maxSafeInteger := by
  obtain ⟨external,read,value⟩ := external_read figures charged spend ownName
  obtain ⟨external',read',value'⟩ := external_read figures (raised_charged charged raised) spend' ownName
  have own := raised_own charged raised ownName
  have rest := raised_rest charged raised up ownName
  have bounds := own_within (raised_charged charged raised) ownName
  constructor
  · intro overcharges
    obtain ⟨one,other,same,same',least⟩ := overcharges.raised
    rw [read] at same
    rw [read'] at same'
    cases same
    cases same'
    omega
  · intro room
    refine ⟨⟨external,read⟩,?_,⟨external,external',read,read',by omega⟩⟩
    intro micros given positive other same small
    rw [read] at same
    cases same
    have others := others_positive charged ownName
    have least := own_within charged ownName
    have retired := charged.retired
    have ceiling := Int.ceil_nonneg positive
    have most : micros ≤ maxSafeInteger := by
      have within : ⌈micros⌉ ≤ (maxSafeInteger : Int) := by omega
      exact_mod_cast Int.ceil_le.mp within
    have carried : SpentFile.carry spend = ⌈micros⌉ := by
      rw [given]
      exact if_pos ⟨positive,most⟩
    rw [value]
    unfold restCharge
    rw [carried]
    omega

/-- For every fold and every raise of it: a child is overcharged, but for one whose own charge is raised beyond the room
that the rest of the job leaves below the largest safe integer. -/
theorem external_overcharges (ticks : List Tick) {more : Fold} (raised : Raised (Fold.history figures ticks) more)
    {spend spend' : Option Rat} (up : SpendRaised spend spend') (ownName : String) :
    Overcharges figures (Fold.history figures ticks) more spend spend' ownName ↔
      ownCharge more ownName = ownCharge (Fold.history figures ticks) ownName ∨
        restCharge (Fold.history figures ticks) spend ownName + ownCharge more ownName ≤ maxSafeInteger :=
  overcharges_iff figures (history_charged figures ticks) raised up ownName

end Read

/-! One child's ledger, and the same raised as far as a ledger can be. -/

/-- The listing of one child that runs. -/
def alone : Tick := ⟨some [ledgerFile 0],fun _ => idleFile,fun _ _ _ => false⟩

def idleEntry : Entry := ⟨1,some .running,false,none,idle⟩

def spentUp : Entry := { idleEntry with high := { idle with spentMicros := maxSafeInteger } }

def aloneUp : Fold := { Fold.history naturals [alone] with files := Dict.empty.set (ledgerFile 0) spentUp }

private theorem alone_fold : Fold.history naturals [alone] =
    ⟨⟨[(ledgerFile 0,idleEntry)],List.nodup_singleton _⟩,⟨0,[],emptyLedger,0,0⟩,0,false⟩ := by
  have listed : alone.listed = [ledgerFile 0] := by
    unfold Tick.listed alone
    exact List.mergeSort_singleton _
  have read : Loop.name naturals Fold.initial.retired.names alone
      ⟨Fold.initial.files,[],(Fold.initial.files.values.filter Entry.isOpen).length,0⟩ (ledgerFile 0) =
      ⟨Dict.empty.set (ledgerFile 0) idleEntry,[ledgerFile 0],1,0⟩ :=
    @name_fresh alone ⟨Dict.empty,[],0,0⟩ (ledgerFile 0) 1 rfl (ledgerFile_pid 0) rfl (by decide)
  have kept : vanish [ledgerFile 0] (ledgerFile 0) idleEntry = idleEntry := if_neg fun lost => lost.1 List.mem_cons_self
  have files : (Dict.empty.set (ledgerFile 0) idleEntry).mapValues (vanish [ledgerFile 0]) =
      ⟨[(ledgerFile 0,idleEntry)],List.nodup_singleton _⟩ := by
    have shape : Dict.empty.set (ledgerFile 0) idleEntry = ⟨[(ledgerFile 0,idleEntry)],List.nodup_singleton _⟩ := rfl
    rw [shape]
    unfold Dict.mapValues
    simp only [List.map_cons,List.map_nil,kept]
  unfold Fold.history
  rw [List.foldl_cons,List.foldl_nil]
  unfold foldChildLedgers
  dsimp only
  rw [listed,List.foldl_cons,List.foldl_nil,read]
  dsimp only
  rw [files]
  rfl

private theorem alone_raised : Raised (Fold.history naturals [alone]) aloneUp := by
  refine ⟨?_,?_,le_refl _⟩
  · rw [alone_fold]
    rfl
  · intro name entry held
    rw [alone_fold] at held
    by_cases own : ledgerFile 0 = name
    · subst own
      rw [show entry = idleEntry from by simpa [Dict.get?] using held.symm]
      exact ⟨spentUp,Dict.get?_set_self _ _ _,Int.natCast_nonneg _,le_refl _,le_refl _⟩
    · simp [Dict.get?,own] at held

private theorem alone_own : ownCharge (Fold.history naturals [alone]) (ledgerFile 0) = 0 ∧
    ownCharge aloneUp (ledgerFile 0) = maxSafeInteger := by
  rw [alone_fold]
  constructor
  · unfold ownCharge Dict.get?
    simp [ledgerCharge,ledgerSettled,saturatingAdd,idleEntry,idle,emptyLedger]
  · unfold ownCharge aloneUp
    rw [Dict.get?_set_self]
    simp [ledgerCharge,ledgerSettled,saturatingAdd,spentUp,idleEntry,idle,emptyLedger]

/-- The child reads the parent's five micro-dollars at first, and nothing once its own ledger says that it has spent all. -/
theorem own_raised_lowers : ¬ Overcharges naturals (Fold.history naturals [alone]) aloneUp (some 5) (some 5) (ledgerFile 0) := by
  have up : SpendRaised (some 5) (some 5) := by
    intro now same
    cases same
    exact ⟨5,rfl,by norm_num,le_refl _⟩
  have charged := history_charged naturals [alone]
  have others := others_positive charged (ledgerFile 0)
  have retired := charged.retired
  rw [overcharges_iff naturals charged alone_raised up,alone_own.1,alone_own.2]
  unfold restCharge
  rw [show SpentFile.carry (some 5) = 5 from by unfold SpentFile.carry; norm_num [maxSafeInteger]]
  rintro (none | room)
  · revert none
    decide
  · omega

theorem external_overcharges_alone : Overcharges naturals (Fold.history naturals [alone]) aloneUp (some 5) none "SPENT" := by
  refine (external_overcharges naturals [alone] alone_raised (by intro now same; cases same) "SPENT").mpr (.inl ?_)
  have apart : ledgerFile 0 ≠ "SPENT" := by decide
  unfold ownCharge aloneUp
  rw [Dict.get?_set_ne _ _ apart,alone_fold]
  unfold Dict.get?
  simp [apart,Dict.empty]

end PiDispatch.UsageMeter
