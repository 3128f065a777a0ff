import PiDispatch.DollarBudget
import PiDispatch.Kernel.TextOrder

/-! The host budget's pure rules: the budget a host's facts give, the ranking of the waiting jobs' holds, and
the rule that admits a job. Memory is counted in MiB and CPU in hundredths. -/
namespace PiDispatch.HostBudget
open Kernel

structure Size where
  memMiB : Nat
  cpuCenti : Nat
  deriving DecidableEq

/-- One dimension of the budget: unknown when no fact gave it, off when the settings say so. -/
inductive Dimension
  | unknown
  | off
  | value (limit : Nat)
  deriving DecidableEq

structure Budget where
  memMiB : Dimension
  cpuCenti : Dimension
  deriving DecidableEq

inductive Setting
  | auto
  | off
  | value (amount : Nat)
  deriving DecidableEq

/-- The reserves are never off: for them only `auto` and a value are written. -/
structure Settings where
  memory : Setting
  cpus : Setting
  reserveMemory : Option Nat
  reserveCpus : Option Nat
  deriving DecidableEq

structure Facts where
  memTotalMiB : Option Nat
  hostCpus : Option Nat
  userMemMiB : Option Nat
  userCpuCenti : Option Nat
  deriving DecidableEq

def RESERVE_MEMORY_MIN_MIB : Nat := 1024
def RESERVE_MEMORY_MAX_MIB : Nat := 4096
def RESERVE_CPUS_FROM : Nat := 4

def smallerKnown (left right : Option Nat) : Option Nat :=
  let known := [left,right].filterMap fun value => value.filter fun value => 0 < value ∧ (value : Int) ≤ maxSafeInteger
  known.min?

def computeHostBudget (settings : Settings) (facts : Facts) (jobDefault : Size) : Budget where
  memMiB :=
    match settings.memory with
    | .off => .off
    | .value amount => .value amount
    | .auto =>
      match smallerKnown facts.memTotalMiB facts.userMemMiB with
      | none => .unknown
      | some total =>
        let reserve := settings.reserveMemory.getD (min RESERVE_MEMORY_MAX_MIB (max RESERVE_MEMORY_MIN_MIB (total / 10)))
        .value (max (total - reserve) jobDefault.memMiB)
  cpuCenti :=
    match settings.cpus with
    | .off => .off
    | .value amount => .value amount
    | .auto =>
      match smallerKnown (facts.hostCpus.map (· * 100)) facts.userCpuCenti with
      | none => .unknown
      | some total =>
        let reserve := settings.reserveCpus.getD (if total ≥ RESERVE_CPUS_FROM * 100 then 100 else 0)
        .value (max (total - reserve) jobDefault.cpuCenti)

def PROJECT_ROW_PREFIX : String := "project:"

/-- The fields of a limits row that the budget reads. -/
structure LimitRow where
  scope : String
  hostShare : Option Int
  minJobs : Option Int
  memory : Option String
  cpus : Option String
  deriving DecidableEq

structure ProjectRow where
  hostShare : Option Int
  minJobs : Nat
  deriving DecidableEq

def projectBudgetRow (limits : List LimitRow) (project : String) : ProjectRow :=
  let row := limits.find? fun row => row.scope = PROJECT_ROW_PREFIX ++ project
  { hostShare := (row.bind LimitRow.hostShare).filter fun share => isSafeInteger share
    minJobs := (((row.bind LimitRow.minJobs).filter fun least => isSafeInteger least ∧ least > 0).getD 0).toNat }

def fits (amount : Nat) : Dimension → Prop
  | .value limit => amount ≤ limit
  | .unknown | .off => True

instance (amount : Nat) (dimension : Dimension) : Decidable (fits amount dimension) := by
  cases dimension <;> unfold fits <;> infer_instance

/-- In integers: `share` percent of the dimension. -/
def withinShare (amount : Nat) (dimension : Dimension) (share : Option Int) : Prop :=
  match share,dimension with
  | some share,.value limit => (amount : Int) * 100 ≤ share * limit
  | _,_ => True

instance (amount : Nat) (dimension : Dimension) (share : Option Int) : Decidable (withinShare amount dimension share) := by
  cases share <;> cases dimension <;> unfold withinShare <;> infer_instance

def sumOf (sizes : List Size) : Size := ⟨(sizes.map Size.memMiB).sum,(sizes.map Size.cpuCenti).sum⟩

/-- What an orphan keeps for the sweep. -/
structure Orphan where
  name : Option String
  venue : Option String
  since : Instant
  deriving DecidableEq

/-- A ledger entry. `stamp` is the object's identity: a rewritten entry is a new object, a re-sized one is not. -/
structure Entry where
  id : String
  project : Option String
  size : Size
  at_ : Instant
  ticket : Option Nat
  name : Option String
  orphan : Option Orphan
  guess : Option Size
  stamp : Nat
  deriving DecidableEq

structure Waiter where
  id : String
  project : Option String
  size : Size
  firstAt : Instant
  lastAt : Instant
  checkedAt : Instant
  suspended : Bool
  readsState : Bool
  stamp : Nat
  deriving DecidableEq

/-- Oldest first; the id breaks a tie. -/
def byAge (left right : Waiter) : Bool :=
  left.firstAt < right.firstAt ∨ (left.firstAt = right.firstAt ∧ notAfter left.id right.id)

/-- An empty project name is no project. -/
def projectOf (project : Option String) : Option String := project.filter (· ≠ "")

/-- The oldest waiter of each project that runs fewer jobs than its `minJobs`, in the order of `active`. -/
def tier1 (running minJobsOf : String → Nat) : List Waiter → List String → List Waiter
  | [], _ => []
  | waiter :: rest, seen =>
    match projectOf waiter.project with
    | none => tier1 running minJobsOf rest seen
    | some project =>
      if project ∈ seen then tier1 running minJobsOf rest seen
      else if minJobsOf project > 0 ∧ running project < minJobsOf project then
        waiter :: tier1 running minJobsOf rest (project :: seen)
      else tier1 running minJobsOf rest (project :: seen)

def activeWaiters (waiters : List Waiter) : List Waiter :=
  (waiters.filter fun waiter => !waiter.suspended).insertionSort fun left right => byAge left right

def rankHolds (waiters : List Waiter) (ledger : List Entry) (minJobsOf : String → Nat) : List Waiter :=
  let active := activeWaiters waiters
  let running := fun project => ledger.countP fun entry => projectOf entry.project = some project
  let first := tier1 running minJobsOf active []
  match active with
  | [] => first
  | oldest :: _ => if first.any fun waiter => waiter.id = oldest.id then first else first ++ [oldest]

inductive Why
  | share
  | memory
  | cpu
  | count
  deriving DecidableEq

/-- The holds ranked above the asking job: all of them for a job that has none. -/
def holdsAbove (holds : List Waiter) (id : String) : List Waiter := holds.takeWhile fun hold => hold.id ≠ id

/-- The admission rule (`admit`): none lets the job in. -/
def admits (budget : Budget) (count : Option Nat) (ledger : List Entry) (holds : List Waiter) (ask : Waiter)
    (shareOf : String → Option Int) : Option Why :=
  let share := (projectOf ask.project).bind shareOf
  let mine := sumOf ((ledger.filter fun entry => entry.project = ask.project).map Entry.size)
  if share.isSome ∧ (¬withinShare (mine.memMiB + ask.size.memMiB) budget.memMiB share ∨
      ¬withinShare (mine.cpuCenti + ask.size.cpuCenti) budget.cpuCenti share) then some .share
  else
    let counted := ledger.map Entry.size ++ [ask.size] ++ (holdsAbove holds ask.id).map Waiter.size
    let need := sumOf counted
    if ¬fits need.memMiB budget.memMiB then some .memory
    else if ¬fits need.cpuCenti budget.cpuCenti then some .cpu
    else if ¬∀ limit ∈ count, counted.length ≤ limit then some .count
    else none

inductive Never
  | host
  | share
  deriving DecidableEq

/-- Whether a size can ever start on a host with this budget. -/
def neverFits (size : Size) (budget : Budget) (share : Option Int) : Option Never :=
  if ¬fits size.memMiB budget.memMiB ∨ ¬fits size.cpuCenti budget.cpuCenti then some .host
  else if ¬withinShare size.memMiB budget.memMiB share ∨ ¬withinShare size.cpuCenti budget.cpuCenti share then some .share
  else none

def JOB_MEMORY_FLOOR_MIB : Nat := 512
def JOB_MEMORY_CEILING_MIB : Nat := 1024 * 1024
def JOB_CPUS_FLOOR_CENTI : Nat := 25
def JOB_CPUS_CEILING_CENTI : Nat := 256 * 100

def digitsOf (text : List Char) : Option Nat :=
  if text ≠ [] ∧ text.all Char.isDigit then some (Nat.ofDigitChars 10 text 0) else none

/-- A number written without a leading zero. -/
def positiveDigits (text : List Char) : Option Nat :=
  if text.head? = some '0' then none else digitsOf text

/-- `512m`, `4g`: none for what the parser refuses. -/
def parseMemory (text : String) : Option Nat :=
  let digits := text.toList.dropLast
  let unit := match text.toList.getLast? with
    | some 'm' => some 1
    | some 'g' => some 1024
    | _ => none
  match unit,positiveDigits digits with
  | some unit,some number =>
    let mib := number * unit
    if mib < JOB_MEMORY_FLOOR_MIB ∨ mib > JOB_MEMORY_CEILING_MIB then none else some mib
  | _,_ => none

/-- `0.5`, `2`, `1.25`: at most six digits before the point and two after it. -/
def parseCpus (text : String) : Option Nat :=
  let whole := text.toList.takeWhile (· ≠ '.')
  let point := text.toList.dropWhile (· ≠ '.')
  let wholeNumber := if whole = ['0'] then some 0 else if whole.length > 6 then none else positiveDigits whole
  let hundredths := match point with
    | [] => some 0
    | _ :: [tenth] => (digitsOf [tenth]).map (· * 10)
    | _ :: [tenth,hundredth] => digitsOf [tenth,hundredth]
    | _ => none
  match wholeNumber,hundredths with
  | some whole,some hundredths =>
    let centi := whole * 100 + hundredths
    if centi < JOB_CPUS_FLOOR_CENTI ∨ centi > JOB_CPUS_CEILING_CENTI then none else some centi
  | _,_ => none

def capped (amount : Nat) : Dimension → Nat
  | .value limit => if 0 < limit then min amount limit else amount
  | .unknown | .off => amount

def largestRow (limits : List LimitRow) (jobDefault : Size) : Size :=
  limits.foldl (fun size row =>
    if PROJECT_ROW_PREFIX.toList <+: row.scope.toList then
      { memMiB := max size.memMiB ((row.memory.bind parseMemory).getD 0)
        cpuCenti := max size.cpuCenti ((row.cpus.bind parseCpus).getD 0) }
    else size) jobDefault

/-- The size counted for a container that says none: the largest any job could have, at most the budget. -/
def pessimisticSize (limits : List LimitRow) (jobDefault : Size) (budget : Budget) : Size :=
  let size := largestRow limits jobDefault
  ⟨capped size.memMiB budget.memMiB,capped size.cpuCenti budget.cpuCenti⟩

theorem sumOf_append (left right : List Size) :
    sumOf (left ++ right) = ⟨(sumOf left).memMiB + (sumOf right).memMiB,(sumOf left).cpuCenti + (sumOf right).cpuCenti⟩ := by
  simp [sumOf]

theorem sumOf_cons (size : Size) (sizes : List Size) :
    sumOf (size :: sizes) = ⟨size.memMiB + (sumOf sizes).memMiB,size.cpuCenti + (sumOf sizes).cpuCenti⟩ := by
  simp [sumOf]

theorem sumOf_perm {left right : List Size} (same : left.Perm right) : sumOf left = sumOf right := by
  simp [sumOf,(same.map Size.memMiB).sum_eq,(same.map Size.cpuCenti).sum_eq]

theorem fits_mono {small large : Nat} (less : small ≤ large) {dimension : Dimension} (fit : fits large dimension) :
    fits small dimension := by
  cases dimension with
  | value limit => exact less.trans fit
  | unknown | off => trivial

theorem sumOf_sublist {small large : List Size} (part : small.Sublist large) :
    (sumOf small).memMiB ≤ (sumOf large).memMiB ∧ (sumOf small).cpuCenti ≤ (sumOf large).cpuCenti := by
  induction part with
  | slnil => exact ⟨le_rfl,le_rfl⟩
  | cons size _ ih =>
    rw [sumOf_cons]
    exact ⟨ih.1.trans (Nat.le_add_left ..),ih.2.trans (Nat.le_add_left ..)⟩
  | cons_cons size _ ih =>
    rw [sumOf_cons,sumOf_cons]
    exact ⟨Nat.add_le_add_left ih.1 _,Nat.add_le_add_left ih.2 _⟩

/-- What the entries of one project hold. -/
def ofProject (project : Option String) (entries : List Entry) : Size :=
  sumOf ((entries.filter fun entry => entry.project = project).map Entry.size)

/-- What `admits` lets in. -/
theorem admits_none_iff (budget : Budget) (count : Option Nat) (ledger : List Entry) (holds : List Waiter)
    (ask : Waiter) (shareOf : String → Option Int) :
    admits budget count ledger holds ask shareOf = none ↔
      withinShare ((ofProject ask.project ledger).memMiB + ask.size.memMiB) budget.memMiB
        ((projectOf ask.project).bind shareOf) ∧
      withinShare ((ofProject ask.project ledger).cpuCenti + ask.size.cpuCenti) budget.cpuCenti
        ((projectOf ask.project).bind shareOf) ∧
      (let counted := ledger.map Entry.size ++ [ask.size] ++ (holdsAbove holds ask.id).map Waiter.size
       fits (sumOf counted).memMiB budget.memMiB ∧ fits (sumOf counted).cpuCenti budget.cpuCenti ∧
        ∀ limit ∈ count, counted.length ≤ limit) := by
  unfold admits ofProject
  have open_share : ¬((projectOf ask.project).bind shareOf).isSome → ∀ amount dimension,
      withinShare amount dimension ((projectOf ask.project).bind shareOf) := by
    intro unset amount dimension
    rw [Option.not_isSome_iff_eq_none.mp unset]
    trivial
  dsimp only
  split
  next exceeded =>
    constructor
    · intro impossible
      cases impossible
    · rintro ⟨mem,cpu,_⟩
      exact absurd exceeded.2 (not_or.mpr ⟨not_not_intro mem,not_not_intro cpu⟩)
  next within =>
    by_cases set : ((projectOf ask.project).bind shareOf).isSome
    · obtain ⟨mem,cpu⟩ := not_or.mp fun exceeded => within ⟨set,exceeded⟩
      simp only [not_not.mp mem,not_not.mp cpu,true_and]
      split_ifs <;> simp_all
    · simp only [open_share set,true_and]
      split_ifs <;> simp_all

end PiDispatch.HostBudget
