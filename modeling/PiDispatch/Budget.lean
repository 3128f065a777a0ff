import PiDispatch.Clock
import PiDispatch.Valkey

/-! The job-count windows: one slot reserved in every active window of every ledger before a container
starts. A refused reservation still counts; only the ledgers that admitted are ever given back. -/
namespace PiDispatch
open Kernel Command

inductive WindowName
  | day
  | week
  | month
  deriving DecidableEq, Repr

structure Caps where
  day : Option Int
  week : Option Int
  month : Option Int
  deriving DecidableEq

def Caps.cap (caps : Caps) : WindowName → Option Int
  | .day => caps.day
  | .week => caps.week
  | .month => caps.month

/-- An active window: its cap is a number. -/
structure Window where
  name : WindowName
  key : String
  cap : Int
  ttl : Nat
  deriving DecidableEq

namespace Budget

def dayKey (now : Instant) (keyPrefix : String) : String :=
  keyPrefix ++ (":" ++ Clock.slice 10 (Clock.isoDate (Clock.civil (Clock.dayNumber now))))

def weekKey (now : Instant) (keyPrefix : String) : String :=
  keyPrefix ++ (":w:" ++ Clock.slice 10 (Clock.isoDate (Clock.civil (Clock.monday (Clock.dayNumber now)))))

def monthKey (now : Instant) (keyPrefix : String) : String :=
  keyPrefix ++ (":m:" ++ Clock.slice 7 (Clock.isoDate (Clock.civil (Clock.dayNumber now))))

def DAY_TTL_SECONDS : Nat := 2 * 24 * 60 * 60
def WEEK_TTL_SECONDS : Nat := 9 * 24 * 60 * 60
def MONTH_TTL_SECONDS : Nat := 40 * 24 * 60 * 60

def windowNames : List WindowName := [.day,.week,.month]

def windowKey (now : Instant) (keyPrefix : String) : WindowName → String
  | .day => dayKey now keyPrefix
  | .week => weekKey now keyPrefix
  | .month => monthKey now keyPrefix

def windowTtl : WindowName → Nat
  | .day => DAY_TTL_SECONDS
  | .week => WEEK_TTL_SECONDS
  | .month => MONTH_TTL_SECONDS

def activeWindows (caps : Caps) (now : Instant) (keyPrefix : String) : List Window :=
  windowNames.filterMap fun name =>
    (caps.cap name).map fun cap => ⟨name,windowKey now keyPrefix name,cap,windowTtl name⟩

inductive WindowState
  | over
  | softHold
  | ok
  deriving DecidableEq, Repr

def windowState (reserved cap : Int) (softHoldPct : Option Int) : WindowState :=
  if reserved > cap then .over
  else
    match softHoldPct with
    | some percent => if reserved > cap * percent / 100 then .softHold else .ok
    | none => .ok

structure Reading where
  name : WindowName
  reserved : Int
  cap : Int
  state : WindowState
  deriving DecidableEq

structure Verdict where
  allowed : Bool
  reason : String
  blockedWindow : Option WindowName
  windows : List Reading
  deriving DecidableEq

def firstIn (state : WindowState) (windows : List Reading) : Option WindowName :=
  windowNames.find? fun name => windows.any fun reading => reading.name = name ∧ reading.state = state

def judge (windows : List Reading) : Verdict :=
  match firstIn .over windows with
  | some name => ⟨false,"over-budget",some name,windows⟩
  | none =>
    match firstIn .softHold windows with
    | some name => ⟨false,"soft-hold",some name,windows⟩
    | none => ⟨true,"ok",none,windows⟩

def reserveWindows (softHoldPct : Option Int) : List Window → List Reading → Call (Except Fault Verdict)
  | [], windows => .done (.ok (judge windows))
  | window :: rest, windows =>
    call (incr window.key) fun
      | .error fault => .done (.error fault)
      | .ok reserved =>
        let reading := ⟨window.name,reserved,window.cap,windowState reserved window.cap softHoldPct⟩
        if reserved = 1 then
          call (expire window.key window.ttl) fun
            | .error fault => .done (.error fault)
            | .ok _ => reserveWindows softHoldPct rest (windows ++ [reading])
        else reserveWindows softHoldPct rest (windows ++ [reading])

def reserveBudget (caps : Caps) (softHoldPct : Option Int) (now : Instant) (keyPrefix : String) :
    Call (Except Fault Verdict) :=
  reserveWindows softHoldPct (activeWindows caps now keyPrefix) []

def releaseWindows : List Window → Call (Except Fault Unit)
  | [] => .done (.ok ())
  | window :: rest =>
    call (decr window.key) fun
      | .error fault => .done (.error fault)
      | .ok _ => releaseWindows rest

def releaseBudget (caps : Caps) (now : Instant) (keyPrefix : String) : Call (Except Fault Unit) :=
  releaseWindows (activeWindows caps now keyPrefix)

/-- One job-count ledger: a scope row's, a project row's, or the global one. -/
structure JobLedger where
  scope : Option String
  keyPrefix : Option String
  caps : Caps
  softHoldPct : Option Int
  reason : String
  deriving DecidableEq

def JobLedger.prefixOf (ledger : JobLedger) : String :=
  (ledger.keyPrefix.filter (· ≠ "")).getD "budget"

structure LedgersVerdict where
  allowed : Bool
  refusedBy : Option JobLedger
  result : Option Verdict
  deriving DecidableEq

/-- The caller's `held` list is threaded through: after a fault it is exactly what still stands. -/
def reserveLedgers (now : Instant) :
    List JobLedger → List JobLedger → Call (Except Fault LedgersVerdict × List JobLedger)
  | [], held => .done (.ok ⟨true,none,none⟩,held)
  | ledger :: rest, held =>
    (reserveBudget ledger.caps ledger.softHoldPct now ledger.prefixOf).bind fun
      | .error fault => .done (.error fault,held)
      | .ok result =>
        if result.allowed then reserveLedgers now rest (held ++ [ledger])
        else .done (.ok ⟨false,some ledger,some result⟩,held)

/-- The ledgers of `held` are released last first; `reversed` is `held` read from its end. -/
def releaseReversed (now : Instant) : List JobLedger → Call (Except Fault Unit × List JobLedger)
  | [] => .done (.ok (),[])
  | ledger :: rest =>
    (releaseBudget ledger.caps now ledger.prefixOf).bind fun
      | .error fault => .done (.error fault,(ledger :: rest).reverse)
      | .ok _ => releaseReversed now rest

def releaseLedgers (now : Instant) (held : List JobLedger) : Call (Except Fault Unit × List JobLedger) :=
  releaseReversed now held.reverse

theorem windowKey_prefix (now : Instant) (keyPrefix : String) (name : WindowName) :
    ∃ suffix : String, windowKey now keyPrefix name = keyPrefix ++ (":" ++ suffix) := by
  have week : ":w:" = ":" ++ "w:" := by decide
  have month : ":m:" = ":" ++ "m:" := by decide
  cases name with
  | day => exact ⟨_,rfl⟩
  | week =>
    refine ⟨"w:" ++ Clock.slice 10 (Clock.isoDate (Clock.civil (Clock.monday (Clock.dayNumber now)))),?_⟩
    simp only [windowKey,weekKey,week,String.append_assoc]
  | month =>
    refine ⟨"m:" ++ Clock.slice 7 (Clock.isoDate (Clock.civil (Clock.dayNumber now))),?_⟩
    simp only [windowKey,monthKey,month,String.append_assoc]

end Budget

end PiDispatch
