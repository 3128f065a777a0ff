import PiDispatch.DollarBudget

/-! What a job's dollars come to, and what its record says of them: the settled amounts, the deployment's windows that hold
them, and the sums that doctor compares with the counters. Costs are floating point and known by their conversion alone. -/
namespace PiDispatch.DollarBudget
open Budget

inductive Basis
  | metered
  | floor
  | refunded
  | unreserved
  deriving DecidableEq

def MODEL_BASIS : List Basis := [.metered,.floor,.refunded]

section Settlement

/-- The language's numbers as the runner reports them: `meteredMicros` rounds a cost up to micro-dollars. -/
structure Meter where
  Number : Type
  meteredMicros : Number → Option Int
  micros : ∀ cost, ∀ amount ∈ meteredMicros cost, isMicros amount
  isZero : Number → Bool
  isAbove : Number → Int → Bool

def FLOOR_COUNTERS : List String :=
  ["unresolved","unpriced","boundExceeded","longContext","costUnjudged","costUnanswered","costUnreported","unmeteredChildren"]

/-- The exit line's usage totals; what is absent is none. -/
structure Tokens (N : Type) where
  metered : Bool
  costCapMicros : Option N
  counters : String → Option N
  calls : Option N
  cost : Option N

structure UsageRow (N : Type) where
  provider : String
  model : String
  cost : Option N

structure Usage (N : Type) where
  models : List (UsageRow N)
  truncated : Option N

structure Settled where
  settledMicros : Int
  basis : Basis
  deriving DecidableEq

variable (meter : Meter)

def Meter.isNought (number : Option meter.Number) : Bool := number.any meter.isZero

def Meter.micros? (cost : Option meter.Number) : Option Int := cost.bind meter.meteredMicros

/-- At least the reservation, and never less than what was reported. -/
def floorOf (reservedMicros : Int) (reported : Option Int) : Settled :=
  ⟨match reported with
    | none => reservedMicros
    | some reported => max reservedMicros reported,.floor⟩

def dollarSettlement (tokens : Option (Tokens meter.Number)) (usage : Option (Usage meter.Number)) (reservedMicros : Int)
    (trusted : Bool) : Settled :=
  let reported := tokens.bind fun tokens => meter.micros? tokens.cost
  let floor := floorOf reservedMicros reported
  match tokens with
  | none => floor
  | some tokens =>
    if ¬trusted ∨ ¬tokens.metered then floor
    else if tokens.costCapMicros.all fun cap => meter.isAbove cap reservedMicros then floor
    else if ¬FLOOR_COUNTERS.all fun key => meter.isNought (tokens.counters key) then floor
    else match reported,usage with
      | none,_ => floor
      | some reported,none => if meter.isNought tokens.calls ∧ reported = 0 then ⟨0,.metered⟩ else floor
      | some reported,some _ => ⟨reported,.metered⟩

/-- The rows of one model, their costs summed; none where one of them cannot be converted. -/
def reportedOf (ref : String) (rows : List (UsageRow meter.Number)) : Option Int :=
  rows.foldl (fun reported row =>
    if (row.provider ++ "/" ++ row.model).toLower ≠ ref then reported
    else reported.bind fun reported => (meter.micros? row.cost).map (reported + ·)) (some 0)

def modelDollarSettlement (ref : String) (basis : Basis) (tokens : Option (Tokens meter.Number))
    (usage : Option (Usage meter.Number)) (reservedMicros : Int) (trusted : Bool) : Settled :=
  let rows := (usage.map Usage.models).getD []
  let reported := reportedOf meter ref rows
  let floor := floorOf reservedMicros reported
  if basis ≠ .metered ∨ ¬trusted then floor
  else match usage with
    | none => if meter.isNought (tokens.bind Tokens.calls) then ⟨0,.metered⟩ else floor
    | some usage =>
      if ¬meter.isNought usage.truncated then floor
      else if rows.any fun row => row.provider = "other" ∧ row.model = "other" ∧ ¬meter.isNought row.cost then floor
      else match reported with
        | none => floor
        | some reported => ⟨reported,.metered⟩

end Settlement

section Windows

def DEPLOYMENT_WINDOWS : List WindowName := [.day,.week,.month]

def isHexTag (letter : Char) : Bool := letter.isDigit || ('a' ≤ letter && letter ≤ 'f')

/-- `VALKEY_TAG_RE`. -/
def isValkeyTag (text : String) : Bool := text.toList.length = 16 && text.toList.all isHexTag

def isDate : List Char → Bool
  | [a,b,c,d,'-',e,f,'-',g,h] => [a,b,c,d,e,f,g,h].all Char.isDigit
  | _ => false

def isYearMonth : List Char → Bool
  | [a,b,c,d,'-',e,f] => [a,b,c,d,e,f].all Char.isDigit
  | _ => false

def bucketShape : WindowName → List Char → Bool
  | .day | .week => isDate
  | .month => isYearMonth

/-- The deployment's key of a window and a bucket. -/
def bucketKey (name : WindowName) (bucket : String) : String :=
  DOLLAR_KEY_PREFIX ++ ((match name with
    | .day => ":"
    | .week => ":w:"
    | .month => ":m:") ++ bucket)

/-- `WINDOW_KEY_RES`: what follows the window's prefix, where it has its shape. -/
def bucketOf (name : WindowName) (key : String) : Option String :=
  let lead := (bucketKey name "").toList
  let bucket := key.toList.drop lead.length
  if lead.isPrefixOf key.toList ∧ bucketShape name bucket then some (String.ofList bucket) else none

def deploymentWindowOfKey (key : String) : Option (WindowName × String) :=
  DEPLOYMENT_WINDOWS.findSome? fun name => (bucketOf name key).map fun bucket => (name,bucket)

structure ReservedIn where
  day : Option String
  week : Option String
  month : Option String
  valkey : String
  deriving DecidableEq

def ReservedIn.bucket (reserved : ReservedIn) : WindowName → Option String
  | .day => reserved.day
  | .week => reserved.week
  | .month => reserved.month

/-- What a key holds of the job's money: the target where the walk moved it, the reservation otherwise. -/
def heldAt (hold : Hold) (applied : Nat) (target : Int) (key : String) : Int :=
  let index := hold.keys.idxOf key
  if index < hold.keys.length ∧ index < applied then target else hold.amountMicros

/-- A window is found by a key that holds at least what is recorded. -/
def findWindow (hold : Hold) (applied : Nat) (target recorded : Int) (found : WindowName → Option String) (key : String) :
    WindowName → Option String :=
  match deploymentWindowOfKey key with
  | none => found
  | some (window,bucket) =>
    if isSafeInteger (heldAt hold applied target key) ∧ recorded ≤ heldAt hold applied target key then
      fun name => if name = window then some bucket else found name
    else found

def windowsFound (hold : Hold) (applied : Nat) (target recorded : Int) (keys : List String) : WindowName → Option String :=
  keys.foldl (findWindow hold applied target recorded) fun _ => none

def deploymentWindowsOf (hold : Hold) (applied : Nat) (target recorded : Int) (valkey : Option String) : Option ReservedIn :=
  valkey.bind fun valkey =>
    if ¬isValkeyTag valkey then none
    else ((hold.ledgers.getD []).find? fun ledger => ledger.keyPrefix = DOLLAR_KEY_PREFIX).bind fun ledger =>
      if ¬isSafeInteger hold.amountMicros ∨ ¬isSafeInteger recorded ∨ ¬isSafeInteger applied then none
      else
        let found := windowsFound hold applied target recorded ledger.keys
        if DEPLOYMENT_WINDOWS.all fun name => (found name).isNone then none
        else some ⟨found .day,found .week,found .month,valkey⟩

private theorem bucketKey_toList (name : WindowName) (bucket : String) :
    (bucketKey name bucket).toList = (bucketKey name "").toList ++ bucket.toList := by
  cases name <;> simp [bucketKey]

theorem bucketOf_key {name : WindowName} {key bucket : String} (found : bucketOf name key = some bucket) :
    key = bucketKey name bucket := by
  unfold bucketOf at found
  dsimp only at found
  split at found
  next shaped =>
    obtain ⟨rest,same⟩ := List.isPrefixOf_iff_prefix.mp shaped.1
    cases Option.some.inj found
    apply String.toList_injective
    rw [bucketKey_toList,String.toList_ofList,← same,List.drop_left]
  · cases found

theorem deploymentWindowOfKey_key {key bucket : String} {window : WindowName}
    (found : deploymentWindowOfKey key = some (window,bucket)) : key = bucketKey window bucket := by
  obtain ⟨name,_,own⟩ := List.exists_of_findSome?_eq_some found
  obtain ⟨text,read,same⟩ := Option.map_eq_some_iff.mp own
  cases same
  exact bucketOf_key read

private theorem windowsFound_held {hold : Hold} {applied : Nat} {target recorded : Int} (keys : List String)
    {window : WindowName} {bucket : String} (found : windowsFound hold applied target recorded keys window = some bucket) :
    bucketKey window bucket ∈ keys ∧ deploymentWindowOfKey (bucketKey window bucket) = some (window,bucket) ∧
      recorded ≤ heldAt hold applied target (bucketKey window bucket) := by
  induction keys using List.reverseRecOn with
  | nil => cases found
  | append_singleton keys key ih =>
    have earlier : windowsFound hold applied target recorded keys window = some bucket →
        bucketKey window bucket ∈ keys ++ [key] ∧ deploymentWindowOfKey (bucketKey window bucket) = some (window,bucket) ∧
          recorded ≤ heldAt hold applied target (bucketKey window bucket) :=
      fun old => ⟨List.mem_append_left _ (ih old).1,(ih old).2⟩
    have last : windowsFound hold applied target recorded (keys ++ [key]) =
        findWindow hold applied target recorded (windowsFound hold applied target recorded keys) key := List.foldl_append
    rw [last] at found
    unfold findWindow at found
    cases read : deploymentWindowOfKey key with
    | none =>
      rw [read] at found
      exact earlier found
    | some own =>
      obtain ⟨name,text⟩ := own
      have key' := deploymentWindowOfKey_key read
      rw [read] at found
      dsimp only at found
      split at found
      next holds =>
        dsimp only at found
        split at found
        next same =>
          cases Option.some.inj found
          subst same
          exact ⟨key' ▸ List.mem_append_right _ List.mem_cons_self,key' ▸ read,key' ▸ holds.2⟩
        · exact earlier found
      · exact earlier found

/-- A window that is named holds at least what is recorded, as far as the walk's count can tell. -/
theorem deploymentWindowsOf_held {hold : Hold} {applied : Nat} {target recorded : Int} {valkey : Option String}
    {place : ReservedIn} (found : deploymentWindowsOf hold applied target recorded valkey = some place) {window : WindowName}
    {bucket : String} (named : place.bucket window = some bucket) :
    (∃ ledger ∈ hold.ledgers.getD [], ledger.keyPrefix = DOLLAR_KEY_PREFIX ∧ bucketKey window bucket ∈ ledger.keys) ∧
      deploymentWindowOfKey (bucketKey window bucket) = some (window,bucket) ∧
      recorded ≤ heldAt hold applied target (bucketKey window bucket) := by
  obtain ⟨tag,_,found⟩ := Option.bind_eq_some_iff.mp found
  split at found
  · cases found
  obtain ⟨ledger,inside,found⟩ := Option.bind_eq_some_iff.mp found
  split at found
  · cases found
  dsimp only at found
  split at found
  · cases found
  cases Option.some.inj found
  have own : windowsFound hold applied target recorded ledger.keys window = some bucket := by
    cases window <;> exact named
  obtain ⟨member,read,enough⟩ := windowsFound_held ledger.keys own
  exact ⟨⟨ledger,List.mem_of_find?_eq_some inside,by simpa using List.find?_some inside,member⟩,read,enough⟩

end Windows

section Records

structure DollarsRecord where
  reservedMicros : Int
  settledMicros : Int
  basis : Basis
  modelBasis : Option Basis
  reservedIn : Option ReservedIn
  deriving DecidableEq

def dollarsRecord (reservedMicros settledMicros : Int) (basis : Basis) (modelBasis : Option Basis) (reservedIn : Option ReservedIn) :
    DollarsRecord :=
  ⟨reservedMicros,settledMicros,basis,modelBasis.filter fun basis => basis ∈ MODEL_BASIS,reservedIn⟩

/-- The number of a day of the calendar, from its parts. -/
def dayOf (year month day : Nat) : Int :=
  let shifted : Int := if month ≤ 2 then year - 1 else year
  let era := shifted / 400
  let yearOfEra := shifted - era * 400
  let marchMonth : Int := ((month + 9) % 12 : Nat)
  let dayOfYear := (153 * marchMonth + 2) / 5 + day - 1
  era * 146097 + (yearOfEra * 365 + yearOfEra / 4 - yearOfEra / 100 + dayOfYear) - 719468

/-- The text as a real date, as its day's number. -/
def calendarDate (text : String) : Option Int :=
  if ¬isDate text.toList then none
  else
    let part := fun from' count => Nat.ofDigitChars 10 ((text.toList.drop from').take count) 0
    let number := dayOf (part 0 4) (part 5 2) (part 8 2)
    if Clock.slice 10 (Clock.isoDate (Clock.civil number)) = text then some number else none

def isMonth (text : String) : Bool :=
  isYearMonth text.toList && (let month := Nat.ofDigitChars 10 (text.toList.drop 5) 0
    1 ≤ month && month ≤ 12)

/-- A record's `reservedIn` as its readers take it: whole, or not at all. -/
def reservedInOf (value : ReservedIn) : Option ReservedIn :=
  if ¬isValkeyTag value.valkey then none
  else if ¬value.day.all fun day => (calendarDate day).isSome then none
  else if ¬value.week.all fun week => (calendarDate week).any fun number => Clock.weekday number = 1 then none
  else if ¬value.month.all isMonth then none
  else if value.day.isNone ∧ value.week.isNone ∧ value.month.isNone then none
  else some value

/-- A run record: the host that ran the job, and its dollars as the writer keeps them. -/
structure RunRecord where
  host : String
  dollars : Option DollarsRecord
  deriving DecidableEq

/-- What the record's writer keeps. -/
def dollarsOf (dollars : DollarsRecord) : Option DollarsRecord :=
  if ¬isMicros dollars.reservedMicros ∨ ¬isMicros dollars.settledMicros then none
  else some { dollars with reservedIn := dollars.reservedIn.bind reservedInOf }

/-- What a record states to be in a window's bucket. -/
def statedIn (host valkey : String) (window : WindowName) (bucket : String) (record : RunRecord) : Int :=
  if record.host ≠ host then 0
  else match record.dollars with
    | none => 0
    | some dollars =>
      if ¬isMicros dollars.settledMicros then 0
      else match dollars.reservedIn.bind reservedInOf with
        | none => 0
        | some place => if place.valkey = valkey ∧ place.bucket window = some bucket then dollars.settledMicros else 0

def addSafe (floor amount : Int) : Int := if isSafeInteger (floor + amount) then floor + amount else floor

/-- Per window that is asked for, what the host's own records settled into its bucket. -/
def dollarWindowFloors (records : List RunRecord) (host valkey : String) (buckets : WindowName → Option String)
    (window : WindowName) : Option Int :=
  (buckets window).map fun bucket =>
    records.foldl (fun floor record => addSafe floor (statedIn host valkey window bucket record)) 0

theorem reservedInOf_same {value place : ReservedIn} (read : reservedInOf value = some place) : value = place := by
  unfold reservedInOf at read
  repeat' split at read
  all_goals cases read
  rfl

private theorem addSafe_le {floor amount total : Int} (below : floor ≤ total) (least : 0 ≤ amount) :
    addSafe floor amount ≤ total + amount := by
  unfold addSafe
  split <;> omega

theorem statedIn_nonneg (host valkey : String) (window : WindowName) (bucket : String) (record : RunRecord) :
    0 ≤ statedIn host valkey window bucket record := by
  unfold statedIn
  split
  · exact le_rfl
  split
  · exact le_rfl
  split
  · exact le_rfl
  next micros =>
    split
    · exact le_rfl
    split
    · exact (not_not.mp micros).1
    · exact le_rfl

/-- A floor is no more than what its records state. -/
theorem floors_le_stated {records : List RunRecord} {host valkey : String} {buckets : WindowName → Option String}
    {window : WindowName} {floor : Int} (found : dollarWindowFloors records host valkey buckets window = some floor) :
    ∃ bucket, buckets window = some bucket ∧ floor ≤ (records.map (statedIn host valkey window bucket)).sum := by
  obtain ⟨bucket,asked,rfl⟩ := Option.map_eq_some_iff.mp found
  refine ⟨bucket,asked,?_⟩
  clear found
  induction records using List.reverseRecOn with
  | nil => exact le_rfl
  | append_singleton records record ih =>
    rw [List.foldl_append,List.map_append,List.sum_append]
    simpa using addSafe_le ih (statedIn_nonneg host valkey window bucket record)

/-- Where a record states something, it names the bucket. -/
theorem statedIn_le {host valkey : String} {window : WindowName} {bucket : String} {record : RunRecord} {amount : Int}
    (least : 0 ≤ amount)
    (honest : ∀ dollars ∈ record.dollars, ∀ place ∈ dollars.reservedIn, place.bucket window = some bucket →
      dollars.settledMicros ≤ amount) : statedIn host valkey window bucket record ≤ amount := by
  unfold statedIn
  split
  · exact least
  split
  · exact least
  next dollars own =>
    split
    · exact least
    split
    · exact least
    next place read =>
      split
      next named =>
        obtain ⟨given,held,same⟩ := Option.bind_eq_some_iff.mp read
        have kept := reservedInOf_same same
        exact honest dollars own given held (kept ▸ named.2)
      · exact least

end Records

end PiDispatch.DollarBudget
