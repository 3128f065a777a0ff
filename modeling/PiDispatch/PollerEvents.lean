import PiDispatch.Kernel.Dict
import PiDispatch.Kernel.Machine
import Mathlib

/-! The issue events of a polled repository: the feed, newest first, what the server does between any two fetches, a cycle's
paging back to the cursor, and the handling of what is new, one entry after the other, any command of which may fail. -/
namespace PiDispatch.PollerEvents
open Kernel

def PER_PAGE : Nat := 100
def MAX_EVENT_PAGES : Nat := 5
def CLOSE_GATE_MAX_ATTEMPTS : Nat := 20
def MAX_SAFE_INTEGER : Nat := 2 ^ 53 - 1
def CLOSE_ACTION : String := "closed"

inductive Kind
  | labeled
  | closed
  | other
  deriving DecidableEq

/-- The issue of an entry, whose number is `none` where it is not an integer. -/
structure Issue where
  number : Option Nat
  pullRequest : Bool
  deriving DecidableEq

/-- An entry of the feed; its id and its actor's are `none` where they are not numbers. -/
structure Entry where
  id : Option Nat
  kind : Kind
  actor : Option Nat
  issue : Option Issue
  deriving DecidableEq

structure CloseRule where
  actions : List String
  number : Option Nat
  deriving DecidableEq

structure Setting where
  issue : List CloseRule
  prClose : List CloseRule
  selfId : Nat
  deriving DecidableEq

section Filter

def findCloseRule (rules : List CloseRule) (closeWord : String) (number : Nat) : Except String CloseRule :=
  go rules false
where
  go : List CloseRule → Bool → Except String CloseRule
    | [],numberSkipped => .error (if numberSkipped then "close-number-not-matched" else "no-matching-close-trigger")
    | rule :: rules,numberSkipped =>
      if closeWord ∉ rule.actions then go rules numberSkipped
      else if rule.number.isSome ∧ rule.number ≠ some number then go rules true
      else .ok rule

def hasCloseTriggers (setting : Setting) : Bool := !setting.issue.isEmpty || !setting.prClose.isEmpty

/-- A close as the filter gets it: who closed it, and the number of the issue or of the pull request. -/
structure Close where
  sender : Option Nat
  pullRequest : Bool
  number : Option Nat
  deriving DecidableEq

def Setting.rules (setting : Setting) (close : Close) : List CloseRule :=
  if close.pullRequest then setting.prClose else setting.issue

def wantsCloserAuthority (setting : Setting) (close : Close) : Bool :=
  match close.sender,close.number with
  | some sender,some number =>
    sender ≠ setting.selfId && (findCloseRule (setting.rules close) CLOSE_ACTION number).toBool
  | _,_ => false

def routeClose (rules : List CloseRule) (number : Nat) (closerAuthorized : Option Bool) : Except String CloseRule :=
  match findCloseRule rules CLOSE_ACTION number with
  | .error reason => .error reason
  | .ok rule => if closerAuthorized ≠ some true then .error "closer-not-allowed" else .ok rule

/-- The filter, on closes. -/
def filter (setting : Setting) (close : Close) (closerAuthorized : Option Bool) : Except String CloseRule :=
  match close.sender with
  | none => .error "missing-sender-id"
  | some sender =>
    if sender = setting.selfId then .error "self"
    else
      match close.number with
      | none => .error (if close.pullRequest then "missing-pull-request" else "missing-issue-number")
      | some number => routeClose (setting.rules close) number closerAuthorized

end Filter

/-- What becomes of a command: it is carried out and answered, it is carried out and the answer lost, or it is lost. -/
inductive Sent
  | done
  | unheard
  | lost
  deriving DecidableEq

/-- Where a cycle stands: before its first fetch, among the pages, or among the entries to handle, oldest first, and whether
it logged a gap. -/
inductive Phase
  | idle
  | paging (events : List Entry) (page : Nat)
  | handling (fresh : List (Nat × Entry)) (gap : Bool)
  deriving DecidableEq

/-- The feed, and the highest id it had; the keys of the repository, a validator standing for the body it came with; and of
the history, where the cursor was armed, which entries were handed to a handler, for which it returned and which it gave up,
what the lookups said, which closes were enqueued, if a gap was logged, and the cursor's moves in cycles that logged one. -/
structure State where
  feed : List Entry
  newest : Nat
  cursor : Option Nat
  etagEvents : Option (List Entry)
  attempts : Dict Nat Nat
  phase : Phase
  armedAt : Nat
  calls : List Nat
  handled : List Nat
  gaveUp : List Nat
  lookups : List (Nat × Option Bool)
  closes : List Nat
  gapped : Bool
  leaps : List (Nat × Nat)
  deriving DecidableEq

def State.start : State := ⟨[],0,none,none,.empty,.idle,0,[],[],[],[],[],false,[]⟩

section Paging

def State.pageOf (state : State) (page : Nat) : List Entry := (state.feed.drop (PER_PAGE * (page - 1))).take PER_PAGE

def lastId (events : List Entry) : Nat := (events.getLast?.bind Entry.id).getD MAX_SAFE_INTEGER

/-- What is new, oldest first. -/
def freshOf (events : List Entry) (cursor : Nat) : List (Nat × Entry) :=
  (events.filterMap fun entry => match entry.id with
    | some id => if cursor < id then some (id,entry) else none
    | none => none).insertionSort fun first second => first.1 ≤ second.1

def handlingOf (fresh : List (Nat × Entry)) (gap : Bool) : Phase := if fresh.isEmpty then .idle else .handling fresh gap

/-- The pages are read. -/
def eventsRead (events : List Entry) (gap : Bool) (cursor : Nat) (state : State) : State :=
  { state with
    phase := handlingOf (freshOf events cursor) gap
    gapped := state.gapped || gap }

/-- A page is read, and `page` is the next one. -/
def pageRead (events : List Entry) (page cursor : Nat) (state : State) : State :=
  if events ≠ [] ∧ cursor < lastId events then
    if page ≤ MAX_EVENT_PAGES then { state with phase := .paging events page } else eventsRead events true cursor state
  else eventsRead events false cursor state

def maxIdOf (events : List Entry) : Nat := events.foldl (fun most entry => max most (entry.id.getD 0)) 0

/-- What becomes of a fetch: its answer is read, it fails before its validator is kept, or behind that. -/
inductive Got
  | read
  | failed
  | unread
  deriving DecidableEq

/-- A page of the feed; the write that arms the cursor is sent only where it is not armed. -/
def fetch (got : Got) (arming : Sent) (state : State) : State :=
  match state.phase,state.cursor with
  | .idle,none =>
    let first := state.pageOf 1
    match got,arming with
    | .failed,_ => state
    | .unread,_ | .read,.lost => { state with etagEvents := some first }
    | .read,_ => { state with etagEvents := some first, cursor := some (maxIdOf first), armedAt := maxIdOf first }
  | .idle,some cursor =>
    let first := state.pageOf 1
    match got with
    | .failed => state
    | .unread => if state.etagEvents = some first then state else { state with etagEvents := some first }
    | .read =>
      if state.etagEvents = some first then state
      else pageRead first 2 cursor { state with etagEvents := some first }
  | .paging events page,some cursor =>
    match got with
    | .failed | .unread => { state with phase := .idle }
    | .read =>
      let batch := state.pageOf page
      if batch.isEmpty then eventsRead events false cursor state else pageRead (events ++ batch) (page + 1) cursor state
  | _,_ => state

end Paging

section Handling

/-- What a handler meets: the pull request's number if it is fetched, what the lookup says if it answers, what becomes of the
counter's commands, if the rest of the gate returns, and what becomes of the cursor's write. -/
structure Luck where
  pull : Option (Option Nat)
  lookup : Option (Option Bool)
  counter : Sent
  gate : Bool
  write : Sent
  deriving DecidableEq

/-- How a call ends. -/
inductive Verdict
  | returned
  | gaveUp
  | threw
  deriving DecidableEq

def Luck.rest (luck : Luck) : Verdict := if luck.gate then .returned else .threw

/-- The gate behind the lookup: what the filter lets through is enqueued. -/
def filtered (setting : Setting) (id : Nat) (close : Close) (closerAuthorized : Option Bool) (luck : Luck) (state : State) :
    Verdict × State :=
  match filter setting close closerAuthorized with
  | .error _ => (.returned,state)
  | .ok _ => (luck.rest,{ state with closes := state.closes ++ [id] })

/-- The gate, on closes. -/
def gate (setting : Setting) (id : Nat) (close : Close) (luck : Luck) (state : State) : Verdict × State :=
  if wantsCloserAuthority setting close then
    match luck.lookup with
    | none => (.threw,state)
    | some none =>
      let asked := { state with lookups := state.lookups ++ [(id,none)] }
      let attempts := (state.attempts.get? id).getD 0 + 1
      let counted := { asked with attempts := state.attempts.set id attempts }
      match luck.counter with
      | .lost => (.threw,asked)
      | .unheard => (.threw,counted)
      | .done => (if attempts < CLOSE_GATE_MAX_ATTEMPTS then .threw else .gaveUp,counted)
    | some (some authorized) =>
      filtered setting id close (some authorized) luck { state with lookups := state.lookups ++ [(id,some authorized)] }
  else filtered setting id close none luck state

def handleLabeledEvent (issue : Issue) (luck : Luck) (state : State) : Verdict × State :=
  if issue.pullRequest ∧ luck.pull.isNone then (.threw,state) else (luck.rest,state)

def handleClosedEvent (setting : Setting) (id : Nat) (entry : Entry) (issue : Issue) (luck : Luck) (state : State) :
    Verdict × State :=
  if issue.pullRequest then
    match luck.pull with
    | none => (.threw,state)
    | some number => gate setting id ⟨entry.actor,true,number⟩ luck state
  else gate setting id ⟨entry.actor,false,issue.number⟩ luck state

/-- The handler of an entry, if it has one. -/
def handlerOf (setting : Setting) (id : Nat) (entry : Entry) (luck : Luck) : Option (State → Verdict × State) :=
  match entry.issue,entry.kind with
  | some issue,.labeled => some (handleLabeledEvent issue luck)
  | some issue,.closed => if hasCloseTriggers setting then some (handleClosedEvent setting id entry issue luck) else none
  | _,_ => none

/-- How a call ended is noted. -/
def State.noted (state : State) (id : Nat) : Verdict → State
  | .returned => { state with handled := state.handled ++ [id] }
  | .gaveUp => { state with gaveUp := state.gaveUp ++ [id] }
  | .threw => state

def called (setting : Setting) (id : Nat) (entry : Entry) (luck : Luck) (state : State) : Verdict × State :=
  match handlerOf setting id entry luck with
  | none => (.returned,state)
  | some handler =>
    let outcome := handler { state with calls := state.calls ++ [id] }
    (outcome.1,outcome.2.noted id outcome.1)

/-- The cursor moves to an entry. -/
def State.moveTo (state : State) (id : Nat) (gap : Bool) : State :=
  { state with
    cursor := some id
    leaps := if gap then state.leaps ++ [(state.cursor.getD 0,id)] else state.leaps }

def handle (setting : Setting) (luck : Luck) (state : State) : State :=
  match state.phase with
  | .handling ((id,entry) :: rest) gap =>
    let outcome := called setting id entry luck state
    match outcome.1,luck.write with
    | .threw,_ | _,.lost => { outcome.2 with phase := .idle }
    | _,.unheard => { outcome.2.moveTo id gap with phase := .idle }
    | _,.done => { outcome.2.moveTo id gap with phase := handlingOf rest gap }
  | _ => state

end Handling

inductive Act
  | occurs (entry : Entry)
  | removes (entry : Entry)
  | forgets (id : Nat)
  | fetch (got : Got) (arming : Sent)
  | handle (luck : Luck)
  deriving DecidableEq

/-- What the server, the clock and the cycles do; the counter of an entry's attempts is kept for a day. -/
def step (setting : Setting) (act : Act) (state : State) : Unit × State :=
  ((),match act with
    | .occurs entry => { state with
        feed := entry :: state.feed
        newest := max state.newest (entry.id.getD 0) }
    | .removes entry => { state with feed := state.feed.filter fun other => other ≠ entry }
    | .forgets id => { state with attempts := state.attempts.erase id }
    | .fetch got arming => fetch got arming state
    | .handle luck => handle setting luck state)

end PiDispatch.PollerEvents
