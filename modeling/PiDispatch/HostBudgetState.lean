import PiDispatch.HostBudget
import PiDispatch.Kernel.Dict
import PiDispatch.Kernel.Machine

/-! The host budget's state and its doors. Each act is one synchronous piece of the program: what a walk does
between two awaits is an act of its own, so a sweep or a verification may be cut by any other act. -/
namespace PiDispatch.HostBudget
open PiDispatch.Kernel

def HOLD_VERIFY_AFTER_MS : Nat := 15000
def HOLD_DROP_ON_ERROR_MS : Nat := 120000

def WHOLE_HOST : String := "*"

/-- What the state is built from: `venues` are the venues whose survivors can be listed. -/
structure Config where
  settings : Settings
  jobDefault : Size
  defaultVenue : Option String
  venues : List String
  deriving DecidableEq

structure Ask where
  id : String
  ticket : Option Nat
  project : Option String
  size : Size
  venue : Option String
  name : Option String
  readsState : Bool
  limits : List LimitRow
  deriving DecidableEq

structure Survivor where
  name : Option String
  venue : Option String
  memMiB : Option Nat
  cpuCenti : Option Nat
  deriving DecidableEq

/-- What the runtime is asked about: an orphan's container. -/
structure Question where
  entry : Entry
  orphan : Orphan
  own : entry.orphan = some orphan
  deriving DecidableEq

structure Sweep where
  todo : List Entry
  asking : Option Question
  deriving DecidableEq

structure Verify where
  since : Instant
  todo : List Waiter
  reading : Option Waiter
  deriving DecidableEq

structure Host where
  budget : Budget
  ledger : Dict String Entry
  waiters : Dict String Waiter
  handling : Dict String Nat
  tickets : Nat
  unseeded : List String
  stamps : Nat
  sweeps : List Sweep
  verifies : List Verify
  deriving DecidableEq

def makeHostBudget (config : Config) : Host where
  budget := ⟨.unknown,.unknown⟩
  ledger := .empty
  waiters := .empty
  handling := .empty
  tickets := 0
  unseeded := config.venues
  stamps := 0
  sweeps := []
  verifies := []

def blockedBySeed (config : Config) (unseeded : List String) (venue : Option String) : Bool :=
  if unseeded = [] then false
  else if WHOLE_HOST ∈ unseeded then true
  else match venue.or config.defaultVenue with
    | none => true
    | some venue => venue ∈ unseeded

/-- The live count limit; an answer that is no count is no bound. -/
def countNow (limit : Option Int) : Option Nat :=
  (limit.filter fun limit => isSafeInteger limit ∧ limit ≥ 0).map Int.toNat

inductive Refusal
  | unseeded
  | runningHere
  | budget (why : Why)
  deriving DecidableEq

inductive Answer
  | done
  | ticket (ticket : Nat)
  | admitted
  | refused (why : Refusal) (rank : Option Nat)
  | gaveBack (did : Bool)
  | asked (name venue : Option String)
  deriving DecidableEq

namespace Host

def enter (host : Host) (id : String) : Answer × Host :=
  (.ticket (host.tickets + 1),
    { host with
      handling := host.handling.set id ((host.handling.get? id).getD 0 + 1)
      tickets := host.tickets + 1 })

def leave (host : Host) (id : String) : Answer × Host :=
  let pickups := (host.handling.get? id).getD 0 - 1
  (.done,{ host with handling := if pickups > 0 then host.handling.set id pickups else host.handling.erase id })

def entries (host : Host) : List Entry := host.ledger.values

/-- The asking job as the waiter it is, or would be. -/
def asWaiter (host : Host) (ask : Ask) (now : Instant) : Waiter where
  id := ask.id
  project := ask.project
  size := ask.size
  firstAt := ((host.waiters.get? ask.id).map Waiter.firstAt).getD now
  lastAt := now
  checkedAt := now
  suspended := false
  readsState := ask.readsState || ((host.waiters.get? ask.id).map Waiter.readsState).getD false
  stamp := host.stamps

def holdsFor (host : Host) (ask : Ask) (now : Instant) : List Waiter :=
  rankHolds (host.waiters.set ask.id (host.asWaiter ask now)).values host.entries
    fun project => (projectBudgetRow ask.limits project).minJobs

def shareOf (ask : Ask) (project : String) : Option Int := (projectBudgetRow ask.limits project).hostShare

def verdict (host : Host) (ask : Ask) (now : Instant) (countLimit : Option Int) : Option Why :=
  admits host.budget (countNow countLimit) host.entries (host.holdsFor ask now) (host.asWaiter ask now) (shareOf ask)

def gate (config : Config) (host : Host) (ask : Ask) (now : Instant) (countLimit : Option Int) : Answer × Host :=
  if blockedBySeed config host.unseeded ask.venue then (.refused .unseeded none,host)
  else if (host.ledger.get? ask.id).isSome then (.refused .runningHere none,host)
  else if ask.name.isSome ∧ ∃ entry ∈ host.entries, entry.orphan.bind Orphan.name = ask.name then
    (.refused .runningHere none,host)
  else
    match host.verdict ask now countLimit with
    | none =>
      (.admitted,
        { host with
          waiters := host.waiters.erase ask.id
          ledger := host.ledger.set ask.id
            ⟨ask.id,ask.project,ask.size,now,ask.ticket,ask.name,none,none,host.stamps⟩
          stamps := host.stamps + 1 })
    | some why =>
      (.refused (.budget why) ((host.holdsFor ask now).findIdx? fun hold => hold.id = ask.id),
        { host with
          waiters := host.waiters.set ask.id { host.asWaiter ask now with suspended := why = .share }
          stamps := host.stamps + 1 })

def suspend (host : Host) (id : String) (now : Instant) : Answer × Host :=
  match host.waiters.get? id with
  | none => (.done,host)
  | some waiter =>
    (.done,
      { host with
        waiters := host.waiters.set id { waiter with suspended := true, lastAt := now, stamp := host.stamps }
        stamps := host.stamps + 1 })

def forget (host : Host) (id : String) : Answer × Host :=
  (.done,{ host with waiters := host.waiters.erase id })

/-- The entry that this pickup's ticket took, while it is not an orphan. -/
def held (host : Host) (id : String) (ticket : Option Nat) : Option Entry :=
  (host.ledger.get? id).filter fun entry => entry.orphan.isNone ∧ entry.ticket = ticket

def release (host : Host) (id : String) (ticket : Option Nat) : Answer × Host :=
  match host.held id ticket with
  | none => (.gaveBack false,host)
  | some _ => (.gaveBack true,{ host with ledger := host.ledger.erase id })

def orphan (host : Host) (id : String) (name venue : Option String) (ticket : Option Nat) (now : Instant) :
    Answer × Host :=
  match host.held id ticket with
  | none => (.gaveBack false,host)
  | some entry =>
    (.gaveBack true,
      { host with
        ledger := host.ledger.set id { entry with orphan := some ⟨name,venue,now⟩, stamp := host.stamps }
        stamps := host.stamps + 1 })

/-- The entry as the budget caps it: only a guessed size follows the budget. -/
def recap (budget : Budget) (entry : Entry) : Entry :=
  match entry.guess with
  | none => entry
  | some guess => { entry with size := pessimisticSize [] guess budget }

def refresh (config : Config) (host : Host) (facts : Facts) : Answer × Host :=
  let budget := computeHostBudget config.settings facts config.jobDefault
  (.done,{ host with budget := budget, ledger := host.ledger.mapValues fun _ => recap budget })

def survivorId (name : String) : String := "container:" ++ name

def labelled (survivor : Survivor) : Option Size :=
  match survivor.memMiB,survivor.cpuCenti with
  | some memMiB,some cpuCenti =>
    if isSafeInteger memMiB ∧ memMiB > 0 ∧ isSafeInteger cpuCenti ∧ cpuCenti > 0 then some ⟨memMiB,cpuCenti⟩ else none
  | _,_ => none

/-- One listed container as the orphan it is counted as. -/
def survivorEntry (budget : Budget) (guess : Size) (now : Instant) (name : String) (survivor : Survivor)
    (stamp : Nat) : Entry where
  id := survivorId name
  project := none
  size := (labelled survivor).getD (pessimisticSize [] guess budget)
  at_ := now
  ticket := none
  name := some name
  orphan := some ⟨some name,survivor.venue,now⟩
  guess := if (labelled survivor).isSome then none else some guess
  stamp := stamp

def seedOne (guess : Size) (now : Instant) (host : Host) (survivor : Survivor) : Host :=
  match survivor.name.filter (· ≠ "") with
  | none => host
  | some name =>
    { host with
      ledger := host.ledger.set (survivorId name) (survivorEntry host.budget guess now name survivor host.stamps)
      stamps := host.stamps + 1 }

/-- A venue's listing, read once; one that could not be listed is no act. -/
def seedVenue (config : Config) (host : Host) (venue : String) (listed : List Survivor) (limits : List LimitRow)
    (now : Instant) : Answer × Host :=
  if venue ∈ host.unseeded then
    let guess := pessimisticSize limits config.jobDefault ⟨.unknown,.unknown⟩
    let seeded := listed.foldl (seedOne guess now) host
    (.done,{ seeded with unseeded := host.unseeded.filter (· ≠ venue) })
  else (.done,host)

def sweepStart (host : Host) : Answer × Host :=
  (.done,{ host with sweeps := host.sweeps ++ [⟨host.entries,none⟩] })

/-- Whether a live entry carries the name. -/
def carried (host : Host) (name : Option String) : Prop :=
  name.isSome ∧ ∃ entry ∈ host.entries, entry.orphan = none ∧ entry.name = name

instance (host : Host) (name : Option String) : Decidable (host.carried name) := inferInstanceAs (Decidable (_ ∧ _))

def sweepTurn (host : Host) (index : Nat) : Answer × Host :=
  match host.sweeps[index]? with
  | some ⟨entry :: rest,none⟩ =>
    match own : entry.orphan with
    | none => (.done,{ host with sweeps := host.sweeps.set index ⟨rest,none⟩ })
    | some orphan =>
      if host.carried orphan.name then (.done,{ host with sweeps := host.sweeps.set index ⟨rest,none⟩ })
      else
        (.asked orphan.name orphan.venue,
          { host with sweeps := host.sweeps.set index ⟨rest,some ⟨entry,orphan,own⟩⟩ })
  | _ => (.done,host)

/-- The runtime answered whether the container the sweep asked about is gone. -/
def sweepAnswer (host : Host) (index : Nat) (gone : Bool) : Answer × Host :=
  match host.sweeps[index]? with
  | some ⟨todo,some ⟨entry,_,_⟩⟩ =>
    let walked := { host with sweeps := host.sweeps.set index ⟨todo,none⟩ }
    if gone ∧ (host.ledger.get? entry.id).map Entry.stamp = some entry.stamp then
      (.done,{ walked with ledger := host.ledger.erase entry.id })
    else (.done,walked)
  | _ => (.done,host)

inductive JobState
  | completed
  | failed
  | unknown
  | active
  | other
  deriving DecidableEq

def verifyStart (host : Host) (now : Instant) : Answer × Host :=
  (.done,{ host with verifies := host.verifies ++ [⟨now,host.waiters.values,none⟩] })

/-- Only the waiter that was read is judged: not one that came back or was replaced meanwhile. -/
def judged (host : Host) (waiter : Waiter) : Prop :=
  (host.waiters.get? waiter.id).map Waiter.stamp = some waiter.stamp

instance (host : Host) (waiter : Waiter) : Decidable (host.judged waiter) := inferInstanceAs (Decidable (_ = _))

def unverifiable (host : Host) (waiter : Waiter) (now : Instant) : Host :=
  if now ≥ waiter.lastAt + HOLD_DROP_ON_ERROR_MS ∧ host.judged waiter then
    { host with waiters := host.waiters.erase waiter.id }
  else host

def verifyTurn (host : Host) (index : Nat) (now : Instant) : Answer × Host :=
  match host.verifies[index]? with
  | some ⟨since,waiter :: rest,none⟩ =>
    let walked := { host with verifies := host.verifies.set index ⟨since,rest,none⟩ }
    if since < max waiter.lastAt waiter.checkedAt + HOLD_VERIFY_AFTER_MS then (.done,walked)
    else if waiter.readsState then
      (.done,{ host with verifies := host.verifies.set index ⟨since,rest,some waiter⟩ })
    else (.done,walked.unverifiable waiter now)
  | _ => (.done,host)

/-- The queue answered with the job's state; none when the read failed or took too long. -/
def verifyAnswer (host : Host) (index : Nat) (state : Option JobState) (now : Instant) : Answer × Host :=
  match host.verifies[index]? with
  | some ⟨since,todo,some waiter⟩ =>
    let walked := { host with verifies := host.verifies.set index ⟨since,todo,none⟩ }
    match state with
    | none => (.done,walked.unverifiable waiter now)
    | some state =>
      if host.judged waiter then
        if state = .completed ∨ state = .failed ∨ state = .unknown ∨
            (state = .active ∧ host.handling.get? waiter.id = none) then
          (.done,{ walked with waiters := host.waiters.erase waiter.id })
        else
          (.done,
            { walked with
              waiters := host.waiters.set waiter.id { waiter with checkedAt := since, stamp := host.stamps }
              stamps := host.stamps + 1 })
      else (.done,walked)
  | _ => (.done,host)

end Host

inductive Act
  | enter (id : String)
  | leave (id : String)
  | gate (ask : Ask) (now : Instant) (countLimit : Option Int)
  | suspend (id : String) (now : Instant)
  | forget (id : String)
  | release (id : String) (ticket : Option Nat)
  | orphan (id : String) (name venue : Option String) (ticket : Option Nat) (now : Instant)
  | refresh (facts : Facts)
  | seedVenue (venue : String) (listed : List Survivor) (limits : List LimitRow) (now : Instant)
  | sweepStart
  | sweepTurn (index : Nat)
  | sweepAnswer (index : Nat) (gone : Bool)
  | verifyStart (now : Instant)
  | verifyTurn (index : Nat) (now : Instant)
  | verifyAnswer (index : Nat) (state : Option Host.JobState) (now : Instant)
  deriving DecidableEq

def step (config : Config) : Act → Host → Answer × Host
  | .enter id, host => host.enter id
  | .leave id, host => host.leave id
  | .gate ask now countLimit, host => host.gate config ask now countLimit
  | .suspend id now, host => host.suspend id now
  | .forget id, host => host.forget id
  | .release id ticket, host => host.release id ticket
  | .orphan id name venue ticket now, host => host.orphan id name venue ticket now
  | .refresh facts, host => host.refresh config facts
  | .seedVenue venue listed limits now, host => host.seedVenue config venue listed limits now
  | .sweepStart, host => host.sweepStart
  | .sweepTurn index, host => host.sweepTurn index
  | .sweepAnswer index gone, host => host.sweepAnswer index gone
  | .verifyStart now, host => host.verifyStart now
  | .verifyTurn index now, host => host.verifyTurn index now
  | .verifyAnswer index state now, host => host.verifyAnswer index state now

/-- Every run of one host's budget, in whatever order the acts fall. -/
abbrev HostRun (config : Config) : List (Act × Answer) → Host → Prop :=
  Runs (step config) (fun _ _ => True) (makeHostBudget config)

end PiDispatch.HostBudget
