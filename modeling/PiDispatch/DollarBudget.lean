import PiDispatch.Budget

/-! The dollar windows: a job's cost cap is reserved in every active window of every ledger before its
container starts, settled to what it cost after the run, and given back whole when the reservation is
refused. Amounts are integer micro-dollars. -/
namespace PiDispatch
open Kernel Command

def maxSafeInteger : Int := 2 ^ 53 - 1

def isSafeInteger (value : Int) : Prop := -maxSafeInteger ≤ value ∧ value ≤ maxSafeInteger

instance (value : Int) : Decidable (isSafeInteger value) := inferInstanceAs (Decidable (_ ∧ _))

/-- A safe integer that is not negative: the only amounts of micro-dollars. -/
def isMicros (value : Int) : Prop := 0 ≤ value ∧ value ≤ maxSafeInteger

instance (value : Int) : Decidable (isMicros value) := inferInstanceAs (Decidable (_ ∧ _))

namespace DollarBudget

def DOLLAR_KEY_PREFIX : String := "budget:usd"

structure Ledger where
  keyPrefix : String
  caps : Caps
  deriving DecidableEq

/-- The ledgers of one job in reservation order. -/
def dollarLedgers (caps : Option Caps) (scope project other : Option Ledger) (models : List Ledger) :
    List Ledger :=
  (caps.map fun caps => ⟨DOLLAR_KEY_PREFIX,caps⟩).toList ++ scope.toList ++ project.toList ++ other.toList ++ models

/-- An active window of a ledger. -/
structure LedgerWindow where
  ledger : String
  window : WindowName
  key : String
  cap : Int
  ttl : Nat
  deriving DecidableEq

def ledgerWindows (now : Instant) (ledger : Ledger) : List LedgerWindow :=
  Budget.windowNames.filterMap fun name =>
    (ledger.caps.cap name).map fun cap =>
      ⟨ledger.keyPrefix,name,Budget.windowKey now ledger.keyPrefix name,cap,Budget.windowTtl name⟩

def activeWindows (ledgers : List Ledger) (now : Instant) : List LedgerWindow :=
  ledgers.flatMap (ledgerWindows now)

structure HoldLedger where
  keyPrefix : String
  keys : List String
  deriving DecidableEq

/-- `ledgers` is absent from the empty hold of a zero amount. -/
structure Hold where
  amountMicros : Int
  keys : List String
  ledgers : Option (List HoldLedger)
  deriving DecidableEq

structure Refusal where
  ledger : String
  window : WindowName
  reservedMicros : Int
  capMicros : Int
  deriving DecidableEq

inductive Reservation
  | admitted (hold : Hold)
  | refused (refusal : Refusal) (stranded : Nat)
  deriving DecidableEq

inductive Thrown
  | typeError (message : String)
  | fault (fault : Fault)
  deriving DecidableEq

def notMicros : Thrown := .typeError "amountMicros must be a non-negative safe integer of micro-dollars"

/-- Best effort per key: the answer counts the keys that could not be given back. -/
def giveBack (amountMicros : Int) : List LedgerWindow → Nat → Call Nat
  | [], failed => .done failed
  | window :: rest, failed =>
    call (decrby window.key amountMicros) fun
      | .ok _ => giveBack amountMicros rest failed
      | .error _ => giveBack amountMicros rest (failed + 1)

/-- Groups a run of windows of one ledger, in ledger order. -/
def pushLedger (out : List HoldLedger) (window : LedgerWindow) : List HoldLedger :=
  match out.getLast? with
  | some last =>
    if last.keyPrefix = window.ledger then out.dropLast ++ [⟨last.keyPrefix,last.keys ++ [window.key]⟩]
    else out ++ [⟨window.ledger,[window.key]⟩]
  | none => [⟨window.ledger,[window.key]⟩]

def holdLedgers (touched : List LedgerWindow) : List HoldLedger := touched.foldl pushLedger []

def holdOf (amountMicros : Int) (touched : List LedgerWindow) : Hold :=
  ⟨amountMicros,touched.map LedgerWindow.key,some (holdLedgers touched)⟩

/-- How the walk over the windows ended, with the windows whose counter it had added to. -/
inductive Walk
  | complete (touched : List LedgerWindow)
  | refused (refusal : Refusal) (touched : List LedgerWindow)
  | fault (fault : Fault) (touched : List LedgerWindow)

def overCap (window : LedgerWindow) (total : Int) : Refusal := ⟨window.ledger,window.window,total,window.cap⟩

def walk (amountMicros : Int) (touched : List LedgerWindow) : List LedgerWindow → Call Walk
  | [] => .done (.complete touched)
  | window :: rest =>
    call (incrby window.key amountMicros) fun
      | .error fault => .done (.fault fault touched)
      | .ok total =>
        let judged : Call Walk :=
          if total > window.cap then .done (.refused (overCap window total) (touched ++ [window]))
          else walk amountMicros (touched ++ [window]) rest
        if total = amountMicros then
          call (expire window.key window.ttl) fun
            | .error fault => .done (.fault fault (touched ++ [window]))
            | .ok _ => judged
        else judged

def finish (amountMicros : Int) : Walk → Call (Except Thrown Reservation)
  | .complete touched => .done (.ok (.admitted (holdOf amountMicros touched)))
  | .refused refusal touched => (giveBack amountMicros touched 0).bind fun stranded =>
      .done (.ok (.refused refusal stranded))
  | .fault fault touched => (giveBack amountMicros touched 0).bind fun _ => .done (.error (.fault fault))

def reserveDollars (ledgers : List Ledger) (amountMicros : Int) (now : Instant) :
    Call (Except Thrown Reservation) :=
  if ¬isMicros amountMicros then .done (.error notMicros)
  else if amountMicros = 0 then .done (.ok (.admitted ⟨0,[],none⟩))
  else (walk amountMicros [] (activeWindows ledgers now)).bind (finish amountMicros)

/-- The part of a hold that belongs to the ledgers `keep` selects; a hold without ledgers has no parts. -/
def holdPart (hold : Hold) (keep : String → Bool) : Hold :=
  let ledgers := (hold.ledgers.getD []).filter fun ledger => keep ledger.keyPrefix
  ⟨hold.amountMicros,ledgers.flatMap HoldLedger.keys,some ledgers⟩

/-- One key's settlement: a missing key is skipped, a result below zero is brought back to zero. -/
def SETTLE_SCRIPT (key : String) (delta : Int) : Command .integers := fun store =>
  if (store key).isNone then (.ok [1,0],store)
  else
    match incrby key delta store with
    | (.error fault,store) => (.error fault,store)
    | (.ok total,store) =>
      if total < 0 then
        match incrby key (-total) store with
        | (.error fault,store) => (.error fault,store)
        | (.ok _,store) => (.ok [2,0],store)
      else (.ok [0,total],store)

structure Settlement where
  applied : Nat
  of : Nat
  deriving DecidableEq

def settleKeys (delta : Int) (of : Nat) : List String → Nat → Call Settlement
  | [], applied => .done ⟨applied,of⟩
  | key :: rest, applied =>
    call (SETTLE_SCRIPT key delta) fun
      | .ok _ => settleKeys delta of rest (applied + 1)
      | .error _ => .done ⟨applied,of⟩

/-- Exactly the hold's keys, in order, stopping at a fault; never throws. -/
def settleDollars (hold : Hold) (settledMicros : Int) : Call Settlement :=
  if ¬isMicros settledMicros ∨ ¬isSafeInteger hold.amountMicros then .done ⟨0,hold.keys.length⟩
  else
    let delta := settledMicros - hold.amountMicros
    if delta = 0 then .done ⟨hold.keys.length,hold.keys.length⟩
    else settleKeys delta hold.keys.length hold.keys 0

def releaseDollars (hold : Hold) : Call Settlement := settleDollars hold 0

theorem ledgerWindows_ledger (now : Instant) (ledger : Ledger) (window : LedgerWindow)
    (member : window ∈ ledgerWindows now ledger) :
    window.ledger = ledger.keyPrefix ∧ window.key = Budget.windowKey now ledger.keyPrefix window.window ∧
      ledger.caps.cap window.window = some window.cap := by
  simp only [ledgerWindows,List.mem_filterMap,Option.map_eq_some_iff] at member
  obtain ⟨name,_,cap,found,rfl⟩ := member
  exact ⟨rfl,rfl,found⟩

theorem holdLedgers_append (touched : List LedgerWindow) (window : LedgerWindow) :
    holdLedgers (touched ++ [window]) = pushLedger (holdLedgers touched) window := by
  simp [holdLedgers]

theorem pushLedger_flatten (out : List HoldLedger) (window : LedgerWindow) :
    (pushLedger out window).flatMap HoldLedger.keys = out.flatMap HoldLedger.keys ++ [window.key] := by
  unfold pushLedger
  split
  next last found =>
    have shape : out = out.dropLast ++ [last] := (List.dropLast_append_getLast? last found).symm
    split
    · conv_rhs => rw [shape]
      simp
    · simp
  next none =>
    have nothing : out = [] := List.getLast?_eq_none_iff.mp none
    simp [nothing]

/-- The groups of a hold flatten, in order, to its keys. -/
theorem holdLedgers_flatten (touched : List LedgerWindow) :
    (holdLedgers touched).flatMap HoldLedger.keys = touched.map LedgerWindow.key := by
  induction touched using List.reverseRecOn with
  | nil => rfl
  | append_singleton touched window ih => simp [holdLedgers_append,pushLedger_flatten,ih]

private theorem judged_complete {excess : Prop} [Decidable excess] {refusal : Refusal}
    {touched : List LedgerWindow} {later : Call Walk} {out : List LedgerWindow}
    (returned : Program.Returns (if excess then .done (.refused refusal touched) else later) (.complete out)) :
    Program.Returns later (.complete out) := by
  split at returned
  · cases Program.returns_done _ _ returned
  · exact returned

/-- A walk that completes has touched every window. -/
theorem walk_complete (amountMicros : Int) (touched rest out : List LedgerWindow)
    (returned : Program.Returns (walk amountMicros touched rest) (.complete out)) : out = touched ++ rest := by
  induction rest generalizing touched with
  | nil =>
    cases Program.returns_done _ _ returned
    simp
  | cons window rest ih =>
    obtain ⟨answer,returned⟩ := Program.returns_issue returned
    have onward : Program.Returns (walk amountMicros (touched ++ [window]) rest) (.complete out) := by
      cases answer with
      | error fault => cases Program.returns_done _ _ returned
      | ok total =>
        simp only at returned
        split at returned
        · obtain ⟨flag,returned⟩ := Program.returns_issue returned
          cases flag with
          | error fault => cases Program.returns_done _ _ returned
          | ok flag => exact judged_complete returned
        · exact judged_complete returned
    simpa using ih _ onward

/-- Whatever Valkey answers, an admitted hold is the whole reservation: every active window, in order. -/
theorem admitted_hold (ledgers : List Ledger) (amountMicros : Int) (now : Instant) (hold : Hold)
    (returned : Program.Returns (reserveDollars ledgers amountMicros now) (.ok (.admitted hold))) :
    isMicros amountMicros ∧
      hold = if amountMicros = 0 then ⟨0,[],none⟩ else holdOf amountMicros (activeWindows ledgers now) := by
  unfold reserveDollars at returned
  split at returned
  · cases Program.returns_done _ _ returned
  next micros =>
    refine ⟨not_not.mp micros,?_⟩
    split at returned
    next zero =>
      cases Program.returns_done _ _ returned
      simp [zero]
    next positive =>
      obtain ⟨ended,walked,finished⟩ := Program.returns_bind _ _ _ returned
      rw [if_neg positive]
      cases ended with
      | complete touched =>
        cases Program.returns_done _ _ finished
        rw [walk_complete _ _ _ _ walked]
        rfl
      | refused refusal touched =>
        obtain ⟨stranded,_,last⟩ := Program.returns_bind _ _ _ finished
        cases Program.returns_done _ _ last
      | fault fault touched =>
        obtain ⟨stranded,_,last⟩ := Program.returns_bind _ _ _ finished
        cases Program.returns_done _ _ last

private theorem walk_fresh (amountMicros : Int) (range : inInt64 amountMicros) (touched rest : List LedgerWindow)
    (store : Store) (absent : ∀ window ∈ rest, store window.key = none)
    (distinct : (rest.map LedgerWindow.key).Nodup) (fits : ∀ window ∈ rest, amountMicros ≤ window.cap) :
    ((walk amountMicros touched rest).run execute store).1 = .complete (touched ++ rest) := by
  induction rest generalizing touched store with
  | nil => simp [walk,Program.run]
  | cons window rest ih =>
    obtain ⟨fresh,distinct⟩ := List.nodup_cons.mp distinct
    have within : ¬amountMicros > window.cap := not_lt.mpr (fits window (by simp))
    have added : incrby window.key amountMicros store =
        (.ok amountMicros,store.put window.key (.integer amountMicros)) := by
      simp [incrby,absent window (by simp),range]
    have onward := ih (touched ++ [window]) (store.put window.key (.integer amountMicros)) (fun other member => by
        have apart : other.key ≠ window.key := fun same => fresh (same ▸ List.mem_map_of_mem member)
        rw [Store.put_ne _ _ apart]
        exact absent other (by simp [member])) distinct (fun other member => fits other (by simp [member]))
    simp only [walk,run_call,added,if_true,within,if_false,expire]
    rw [onward]
    simp

/-- Windows nobody has reserved in admit any amount within their caps. -/
theorem reserve_fresh (ledgers : List Ledger) (amountMicros : Int) (now : Instant) (micros : isMicros amountMicros)
    (positive : amountMicros ≠ 0) (distinct : ((activeWindows ledgers now).map LedgerWindow.key).Nodup)
    (fits : ∀ window ∈ activeWindows ledgers now, amountMicros ≤ window.cap) :
    ((reserveDollars ledgers amountMicros now).run execute Store.empty).1 =
      .ok (.admitted (holdOf amountMicros (activeWindows ledgers now))) := by
  have range : inInt64 amountMicros := by
    obtain ⟨least,most⟩ := micros
    simp only [maxSafeInteger] at most
    constructor <;> omega
  simp only [reserveDollars,micros,not_true_eq_false,if_false,positive,Program.run_bind]
  rw [walk_fresh amountMicros range [] _ Store.empty (fun _ _ => rfl) distinct fits]
  simp [finish,Program.run]

/-- Each group of a hold is one ledger's, and never empty. -/
theorem holdLedgers_group (touched : List LedgerWindow) (group : HoldLedger) (member : group ∈ holdLedgers touched) :
    group.keys ≠ [] ∧ ∀ key ∈ group.keys, ∃ window ∈ touched, window.ledger = group.keyPrefix ∧ window.key = key := by
  induction touched using List.reverseRecOn generalizing group with
  | nil => cases member
  | append_singleton touched window ih =>
    have earlier : ∀ other ∈ holdLedgers touched, other.keys ≠ [] ∧
        ∀ key ∈ other.keys, ∃ found ∈ touched ++ [window], found.ledger = other.keyPrefix ∧ found.key = key := by
      intro other old
      refine ⟨(ih other old).1,fun key inside => ?_⟩
      obtain ⟨found,there,same⟩ := (ih other old).2 key inside
      exact ⟨found,List.mem_append_left _ there,same⟩
    have own : ∀ key ∈ [window.key], ∃ found ∈ touched ++ [window], found.ledger = window.ledger ∧ found.key = key := by
      intro key inside
      exact ⟨window,by simp,rfl,(List.mem_singleton.mp inside).symm⟩
    rw [holdLedgers_append,pushLedger] at member
    split at member
    next last found =>
      split at member
      next same =>
        rcases List.mem_append.mp member with old | new
        · exact earlier group ((List.dropLast_subset _) old)
        · obtain rfl := List.mem_singleton.mp new
          have lastMember : last ∈ holdLedgers touched := List.mem_of_getLast? found
          refine ⟨by simp,fun key inside => ?_⟩
          rcases List.mem_append.mp inside with old | new
          · exact (earlier last lastMember).2 key old
          · obtain ⟨window,there,ledger,key⟩ := own key new
            exact ⟨window,there,ledger.trans same.symm,key⟩
      next =>
        rcases List.mem_append.mp member with old | new
        · exact earlier group old
        · obtain rfl := List.mem_singleton.mp new
          exact ⟨by simp,own⟩
    next =>
      obtain rfl := List.mem_singleton.mp member
      exact ⟨by simp,own⟩

end DollarBudget

end PiDispatch
