import PiDispatch.Kernel.Dict
import PiDispatch.Kernel.Machine
import Mathlib

/-! The pull requests of a polled repository and their reviews: what the server does between any two fetches, the listing
page by page, the diff against the snapshot, and the sweep of the listed ones for reviews. -/
namespace PiDispatch.PollerPulls
open Kernel

def PER_PAGE : Nat := 100
def MAX_PR_PAGES : Nat := 10
def MAX_REVIEW_PRS : Nat := 50
def CLOSED_MARKER : String := "closed"

/-- A pull request as the open list has it; `updated` stands for what else of it an update changes. -/
structure Listed where
  number : Nat
  head : String
  updated : Nat
  deriving DecidableEq

/-- A pull request with its reviews' ids, and the id the next review had when it was last opened. -/
structure Pull extends Listed where
  isOpen : Bool
  reviews : List Nat
  openedAt : Nat
  deriving DecidableEq

inductive Action
  | opened
  | reopened
  | synchronize
  deriving DecidableEq

structure Gate where
  action : Action
  number : Nat
  sha : String
  deriving DecidableEq

/-- Where a cycle stands: before its first fetch, among the pages of the list, or in its sweep of the pull requests that
are left, with the highest review id so far and whether it leaves any out. -/
inductive Phase
  | idle
  | listing (listed : List Listed) (page : Nat)
  | sweeping (numbers : List Nat) (maxId : Nat) (gap : Bool)
  deriving DecidableEq

/-- The server's pull requests, the least lately updated first; the feed's keys, a validator standing for the body it came
with; what was gated; and of the history, which were open when the feed was armed, which were closed or pushed to since a
cycle last saw them open, and the ids that the next review had at the arming and at the end of the last sweep. -/
structure State where
  pulls : List Pull
  clock : Nat
  nextNumber : Nat
  nextReview : Nat
  prsArmed : Bool
  prs : Dict Nat String
  etagPulls : Option (List Listed)
  reviewsCursor : Option Nat
  etagReviews : Dict Nat (List Nat)
  phase : Phase
  gated : List Gate
  reviewed : List Nat
  atArming : List Nat
  shut : List Nat
  pushed : List Nat
  reviewsFrom : Nat
  sweptAt : Nat
  deriving DecidableEq

def State.start : State :=
  ⟨[],0,0,1,false,.empty,none,none,.empty,.idle,[],[],[],[],[],0,0⟩

/-- What a step gates, and whether it ends a sweep, which says if it left any out. -/
structure Report where
  gates : List Gate
  swept : Option Bool
  deriving DecidableEq

def Report.none : Report := ⟨[],Option.none⟩

def State.openList (state : State) : List Listed := (state.pulls.filter Pull.isOpen).map Pull.toListed

/-- A page of the open list. -/
def State.openPage (state : State) (page : Nat) : List Listed :=
  (state.openList.drop (PER_PAGE * (page - 1))).take PER_PAGE

/-- The first page of a pull request's reviews. -/
def State.reviewsOf (state : State) (number : Nat) : List Nat :=
  (((state.pulls.find? fun pull => pull.number = number).map Pull.reviews).getD []).take PER_PAGE

section Reviews

/-- Past the last pull request the cursor is kept. -/
def sweepOn (numbers : List Nat) (maxId : Nat) (gap : Bool) (state : State) : Option Bool × State :=
  if numbers.isEmpty then
    (some gap,{ state with
      phase := .idle
      reviewsCursor := some maxId
      reviewsFrom := if state.reviewsCursor.isNone then state.nextReview else state.reviewsFrom
      sweptAt := state.nextReview })
  else (none,{ state with phase := .sweeping numbers maxId gap })

/-- The pull requests to sweep: those on the list, or where it was not read those the snapshot has as open. -/
def sweepSet (listed : Option (List Listed)) (prs : Dict Nat String) : List Nat :=
  match listed with
  | some listed => listed.map Listed.number
  | none => ((prs.entries.filter fun entry => entry.2 ≠ CLOSED_MARKER).map Prod.fst).insertionSort (· ≤ ·)

def pollReviews (listed : Option (List Listed)) (state : State) : Option Bool × State :=
  let numbers := sweepSet listed state.prs
  sweepOn (numbers.take MAX_REVIEW_PRS) (state.reviewsCursor.getD 0) (MAX_REVIEW_PRS < numbers.length) state

/-- The fetch of one pull request's reviews. -/
def sweepFetch (number : Nat) (rest : List Nat) (maxId : Nat) (gap : Bool) (state : State) : Option Bool × State :=
  let body := state.reviewsOf number
  if state.reviewsCursor.isSome ∧ state.etagReviews.get? number = some body then sweepOn rest maxId gap state
  else
    let fresh := body.filter fun id => state.reviewsCursor.getD 0 < id
    sweepOn rest (fresh.foldl max maxId) gap { state with
      etagReviews := state.etagReviews.set number body
      reviewed := state.reviewed ++ if state.reviewsCursor.isSome then fresh else [] }

end Reviews

section Pulls

def actionOf (known : Dict Nat String) (pr : Listed) : Option Action :=
  match known.get? pr.number with
  | none => some .opened
  | some prev => if prev = CLOSED_MARKER then some .reopened else if prev ≠ pr.head then some .synchronize else none

def gatesOf (known : Dict Nat String) (listed : List Listed) : List Gate :=
  listed.filterMap fun pr => (actionOf known pr).map fun action => ⟨action,pr.number,pr.head⟩

/-- The snapshot behind the gates, and behind the marks of what is gone. -/
def snapshotOf (known : Dict Nat String) (listed : List Listed) : Dict Nat String :=
  let gated := listed.foldl (fun prs pr => if (actionOf known pr).isSome then prs.set pr.number pr.head else prs) known
  (known.entries.filter fun entry => entry.1 ∉ listed.map Listed.number ∧ entry.2 ≠ CLOSED_MARKER).foldl
    (fun prs entry => prs.set entry.1 CLOSED_MARKER) gated

/-- What a cycle has seen open was neither closed nor pushed to since. -/
def State.saw (state : State) (listed : List Listed) : State :=
  { state with
    shut := state.shut.filter fun number => number ∉ listed.map Listed.number
    pushed := state.pushed.filter fun number => number ∉ listed.map Listed.number }

/-- The whole list is read. -/
def listRead (listed : List Listed) (state : State) : Report × State :=
  if state.prsArmed then
    let gates := gatesOf state.prs listed
    let next := pollReviews (some listed) { state.saw listed with
      prs := snapshotOf state.prs listed
      gated := state.gated ++ gates }
    (⟨gates,next.1⟩,next.2)
  else
    let next := pollReviews (some listed) { state.saw listed with
      prs := listed.foldl (fun prs pr => prs.set pr.number pr.head) state.prs
      prsArmed := true
      atArming := listed.map Listed.number }
    (⟨[],next.1⟩,next.2)

/-- A page of the list: the last one, or one behind which there may be more. -/
def pageRead (listed batch : List Listed) (page : Nat) (state : State) : Report × State :=
  if batch.length = PER_PAGE ∧ page ≤ MAX_PR_PAGES then (.none,{ state with phase := .listing listed page })
  else listRead listed state

def fetch (state : State) : Report × State :=
  match state.phase with
  | .idle =>
    let first := state.openPage 1
    if state.prsArmed ∧ state.etagPulls = some first then
      let next := pollReviews none state
      (⟨[],next.1⟩,next.2)
    else pageRead first first 2 { state with etagPulls := some first }
  | .listing listed page => pageRead (listed ++ state.openPage page) (state.openPage page) (page + 1) state
  | .sweeping [] maxId gap =>
    let next := sweepOn [] maxId gap state
    (⟨[],next.1⟩,next.2)
  | .sweeping (number :: rest) maxId gap =>
    let next := sweepFetch number rest maxId gap state
    (⟨[],next.1⟩,next.2)

end Pulls

inductive Act
  | opens (head : String)
  | closes (number : Nat)
  | reopens (number : Nat)
  | pushes (number : Nat) (head : String)
  | updates (number : Nat)
  | submits (number : Nat)
  | fetch
  deriving DecidableEq

/-- An update of a pull request, which is then the one lately updated. -/
def State.touch (state : State) (number : Nat) (change : Pull → Pull) : State :=
  { state with
    clock := state.clock + 1
    pulls := state.pulls.filter (fun pull => pull.number ≠ number) ++
      (state.pulls.filter fun pull => pull.number = number).map fun pull => { change pull with updated := state.clock } }

def step (act : Act) (state : State) : Report × State :=
  match act with
  | .opens head => (.none,{ state with
      clock := state.clock + 1
      nextNumber := state.nextNumber + 1
      pulls := state.pulls ++ [⟨⟨state.nextNumber,head,state.clock⟩,true,[],state.nextReview⟩] })
  | .closes number => (.none,{ state.touch number (fun pull => { pull with isOpen := false }) with
      shut := number :: state.shut })
  | .reopens number => (.none,state.touch number fun pull =>
      { pull with isOpen := true, openedAt := if pull.isOpen then pull.openedAt else state.nextReview })
  | .pushes number head => (.none,{ state.touch number (fun pull => { pull with head := head }) with
      pushed := number :: state.pushed })
  | .updates number => (.none,state.touch number id)
  | .submits number => (.none,{ state with
      nextReview := state.nextReview + 1
      pulls := state.pulls.map fun pull =>
        if pull.number = number then { pull with reviews := pull.reviews ++ [state.nextReview] } else pull })
  | .fetch => fetch state

end PiDispatch.PollerPulls
