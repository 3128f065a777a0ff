import PiDispatch.Clock
import PiDispatch.Kernel.Blank
import PiDispatch.Kernel.TextOrder

/-! The pause windows of the worker: what a zone's clock shows, the occurrence of a window that is active at an instant
and when it ends, and until when a job is paused. A zone is what it adds to UTC at each instant; an instant is a whole
number of milliseconds, of any size. -/
namespace PiDispatch.PauseWindows
open Kernel

/-- Whole minutes ahead of UTC. -/
abbrev Zone := Int → Int

def DAYS : List String := ["sun","mon","tue","wed","thu","fri","sat"]

/-- What `normalizeWindow` returns: two different minutes of a day, and weekdays and dates where they are given. -/
structure Window where
  scope : String
  fromMin : Int
  toMin : Int
  tz : String
  days : Option (List String)
  dateFrom : Option String
  dateTo : Option String
  from_range : 0 ≤ fromMin ∧ fromMin ≤ 1439
  to_range : 0 ≤ toMin ∧ toMin ≤ 1439
  differ : fromMin ≠ toMin

structure Parts where
  y : Int
  mo : Int
  d : Int
  hh : Int
  mi : Int
  dow : Int
  deriving DecidableEq

/-- The wall-clock parts of an instant; a year before the first shows as its number before Christ. -/
def zonedParts (zone : Zone) (ms : Int) : Parts :=
  let shown := ms + zone ms * 60000
  let date := Clock.civil (shown / 86400000)
  ⟨if date.year ≤ 0 then 1 - date.year else date.year,date.month,date.day,shown / 3600000 % 24,shown / 60000 % 60,
    Clock.weekday (shown / 86400000)⟩

/-- `Date.UTC` of a month counted from 1: a year of two digits is one of the twentieth century. -/
def dateUTC (y mo d hh mi : Int) : Int :=
  Clock.numberOf (if 0 ≤ y ∧ y ≤ 99 then 1900 + y else y) mo d * 86400000 + (hh * 60 + mi) * 60000

/-- The instant of a wall-clock time: the time read as UTC, less what the zone's clock is ahead there. -/
def wallToMs (zone : Zone) (y mo d hh mi : Int) : Int :=
  let guess := dateUTC y mo d hh mi
  let shown := zonedParts zone guess
  let shownAsUtc := dateUTC shown.y shown.mo shown.d shown.hh shown.mi
  guess - (shownAsUtc - guess)

/-- The date `delta` days on, by way of local noon. -/
def shiftDay (zone : Zone) (parts : Parts) (delta : Int) : Parts :=
  let noon := wallToMs zone parts.y parts.mo parts.d 12 0
  zonedParts zone (noon + delta * 86400000)

def ymd (parts : Parts) : String :=
  String.ofList (Clock.padded 4 parts.y.toNat ++ '-' :: Clock.padded 2 parts.mo.toNat ++ '-' :: Clock.padded 2 parts.d.toNat)

/-- Whether an occurrence may start on the day of `parts`. -/
def qualifies (w : Window) (parts : Parts) : Bool :=
  if w.days.any fun days => (DAYS[parts.dow.toNat]?.getD "") ∉ days then false
  else
    let date := ymd parts
    if w.dateFrom.any fun dateFrom => !notAfter dateFrom date then false
    else if w.dateTo.any fun dateTo => !notAfter date dateTo then false
    else true

/-- The end of the occurrence that is active at `nowMs`. -/
def windowEndAt (zones : String → Zone) (w : Window) (nowMs : Int) : Option Int :=
  let p := zonedParts (zones w.tz) nowMs
  let nowMin := p.hh * 60 + p.mi
  let endAt := fun date : Parts => wallToMs (zones w.tz) date.y date.mo date.d (w.toMin / 60) (w.toMin % 60)
  if w.fromMin < w.toMin then
    if nowMin ≥ w.fromMin ∧ nowMin < w.toMin ∧ qualifies w p then some (endAt p) else none
  else if nowMin ≥ w.fromMin ∧ qualifies w p then some (endAt (shiftDay (zones w.tz) p 1))
  else if nowMin < w.toMin ∧ qualifies w (shiftDay (zones w.tz) p (-1)) then some (endAt p)
  else none

structure Job where
  kind : Option String
  repo : Option String
  folder : Option String

def isNonEmptyString : Option String → Bool
  | some text => trim text ≠ ""
  | none => false

/-- The folder of a local job, the repo of any other. -/
def scopeOf (job : Job) : Option String := if job.kind = some "local" then job.folder else job.repo

/-- The scope with its forge before it; `nfc` is Unicode's normal form. -/
def qualifiedScopeOf (nfc : String → String) (job : Job) : Option String :=
  if job.kind = some "local" then job.folder
  else if !isNonEmptyString job.kind || !isNonEmptyString job.repo then none
  else some (nfc (job.kind.getD "" ++ ":" ++ job.repo.getD ""))

/-- Whether a window is one for this job's scope. -/
def covers (nfc : String → String) (job : Job) (w : Window) : Bool :=
  w.scope = "*" || some w.scope = scopeOf job || some w.scope = qualifiedScopeOf nfc job

/-- The latest end among the windows that pause the job now. -/
def pauseUntilMs (zones : String → Zone) (nfc : String → String) (windows : List Window) (job : Job) (nowMs : Int) :
    Option Int :=
  if isNonEmptyString (scopeOf job) then
    windows.foldl (fun end' w =>
      if covers nfc job w then
        match windowEndAt zones w nowMs with
        | some e => if end'.all fun last => e > last then some e else end'
        | none => end'
      else end') none
  else none

end PiDispatch.PauseWindows
