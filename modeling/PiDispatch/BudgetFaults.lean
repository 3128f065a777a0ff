import PiDispatch.Budget
import PiDispatch.ScopedLimits
import PiDispatch.ValkeyFaults

/-! The list of standing job-count reservations after faults: a slot counted or given back for a part of a ledger's windows
is in no list, so the list is exact where a fault strikes a ledger only at its first command. -/
namespace PiDispatch.Budget
open Kernel Command ValkeyFaults
open DollarBudget (counter)

section Windows

variable {faults : Faults} {now : Instant}

def keysOf (now : Instant) (ledger : JobLedger) : List String :=
  (activeWindows ledger.caps now ledger.prefixOf).map Window.key

/-- How many of the ledgers count at a key. -/
def slots (now : Instant) (key : String) (ledgers : List JobLedger) : Nat :=
  (ledgers.filter fun ledger => key ∈ keysOf now ledger).length

/-- The list is exact: each counter has moved by one for each ledger that is held and for each that refused. -/
def Exact (now : Instant) (before after : Store) (held refused : List JobLedger) : Prop :=
  ∀ key, counter after key = counter before key + slots now key held + slots now key refused

/-- A call throws when a command of it has already had its effect, or may have. -/
def throwsLate {α : Type} (faults : Faults) (state : Store × Nat) (call : Call (Except Fault α)) : Prop :=
  (∃ fault, (call.run (struck faults) state).1 = .error fault) ∧ state.2 + 1 < (call.run (struck faults) state).2.2

/-- The windows of a ledger have keys of their own. -/
theorem keysOf_nodup (ledger : JobLedger) : (keysOf now ledger).Nodup := by
  have shape : keysOf now ledger = (windowNames.filter fun name => (ledger.caps.cap name).isSome).map
      (windowKey now ledger.prefixOf) := by
    unfold keysOf activeWindows
    rw [List.map_filterMap,← List.filterMap_eq_map,List.filterMap_filter]
    refine List.filterMap_congr fun name _ => ?_
    cases ledger.caps.cap name <;> simp
  rw [shape]
  refine List.Nodup.map_on (fun first _ second _ same => ?_) (List.Nodup.filter _ (by decide))
  have lengths := congrArg (fun key => key.toList.length) same
  simp only [ScopedLimits.windowKey_toList,List.length_append,ScopedLimits.windowSuffix_length] at lengths
  cases first <;> cases second <;> first | rfl | (simp [ScopedLimits.suffixLength] at lengths)

private theorem slots_cons (key : String) (ledger : JobLedger) (ledgers : List JobLedger) :
    slots now key (ledger :: ledgers) = (keysOf now ledger).count key + slots now key ledgers := by
  unfold slots
  rw [List.filter_cons]
  split
  next member =>
    rw [List.count_eq_one_of_mem (keysOf_nodup ledger) (of_decide_eq_true member),List.length_cons]
    omega
  next absent =>
    rw [List.count_eq_zero_of_not_mem fun member => absent (decide_eq_true member),Nat.zero_add]

private theorem slots_append (key : String) (left right : List JobLedger) :
    slots now key (left ++ right) = slots now key left + slots now key right := by
  unfold slots
  rw [List.filter_append,List.length_append]

private theorem slots_reverse (key : String) (ledgers : List JobLedger) : slots now key ledgers.reverse = slots now key ledgers := by
  unfold slots
  rw [List.filter_reverse,List.length_reverse]

/-- What a call over a ledger's windows does: the windows `done` have had their effect, and with a fault there are some of these
just where the fault came after the first command. -/
structure Served (delta : Int) (windows done : List Window) (ok : Prop) (state after : Store × Nat) : Prop where
  first : done <+: windows
  counts : ∀ key, counter after.1 key = counter state.1 key + delta * (done.map Window.key).count key
  whole : ok → done = windows
  late : ¬ok → state.2 < after.2 ∧ (state.2 + 1 < after.2 ↔ done ≠ [])

/-- One window's counter moves, and then the rest of the windows are served. -/
private theorem served_cons {delta : Int} {window : Window} {rest done : List Window} {ok : Prop} {state middle after : Store × Nat}
    (moved : ∀ other, counter middle.1 other = counter state.1 other + if window.key = other then delta else 0)
    (later : state.2 < middle.2) (served : Served delta rest done ok middle after) :
    Served delta (window :: rest) (window :: done) ok state after := by
  refine ⟨(List.prefix_cons_inj window).mpr served.first,fun key => ?_,fun own => congrArg _ (served.whole own),fun lost => ?_⟩
  · rw [served.counts,moved,List.map_cons,List.count_cons]
    by_cases same : window.key = key
    · simp only [same,if_true,beq_self_eq_true]
      push_cast
      ring
    · simp [same]
  · have places := (served.late lost).1
    exact ⟨by omega,fun _ => List.cons_ne_nil _ _,fun _ => by omega⟩

/-- The first command throws. -/
private theorem served_lost (delta : Int) (windows : List Window) {ok : Prop} (lost : ¬ok) (state : Store × Nat) :
    Served delta windows [] ok state (state.1,state.2 + 1) := by
  refine ⟨List.nil_prefix,fun key => ?_,fun own => absurd own lost,fun _ => ⟨Nat.lt_succ_self _,?_⟩⟩
  · simp
  · simp

/-- The window's counter has moved and the command after it throws. -/
private theorem served_one (delta : Int) (window : Window) (rest : List Window) {ok : Prop} (lost : ¬ok)
    {state middle : Store × Nat}
    (moved : ∀ other, counter middle.1 other = counter state.1 other + if window.key = other then delta else 0)
    (later : state.2 < middle.2) : Served delta (window :: rest) [window] ok state (middle.1,middle.2 + 1) :=
  served_cons moved later (served_lost delta rest lost middle)

private theorem reserveWindows_served (faults : Faults) (pct : Option Int) (windows : List Window) (readings : List Reading)
    (state : Store × Nat) :
    ∃ done, Served 1 windows done (∃ verdict, ((reserveWindows pct windows readings).run (struck faults) state).1 = .ok verdict)
      state ((reserveWindows pct windows readings).run (struck faults) state).2 := by
  induction windows generalizing readings state with
  | nil =>
    refine ⟨[],List.prefix_rfl,fun key => ?_,fun _ => rfl,fun lost => absurd ⟨_,rfl⟩ lost⟩
    exact (add_zero _).symm
  | cons window rest ih =>
    unfold reserveWindows
    rw [run_struck]
    rcases incrby_struck faults state window.key 1 with ⟨fault,lost⟩ | ⟨total,store,added,counted⟩
    · unfold incr
      rw [lost]
      exact ⟨[],served_lost 1 _ (fun ⟨_,bad⟩ => by cases bad) state⟩
    · unfold incr
      rw [added]
      dsimp only
      split
      · rw [run_struck]
        have placed := expire_struck faults (store,state.2 + 1) window.key window.ttl
        cases told : (struck faults (store,state.2 + 1) ⟨.flag,expire window.key window.ttl⟩).1 with
        | error fault =>
          dsimp only
          rw [placed]
          exact ⟨[window],served_one 1 window rest (fun ⟨_,bad⟩ => by cases bad) counted (Nat.lt_succ_self _)⟩
        | ok flag =>
          dsimp only
          rw [placed]
          obtain ⟨done,served⟩ := ih (readings ++ [⟨window.name,total,window.cap,windowState total window.cap pct⟩])
            (store,state.2 + 1 + 1)
          exact ⟨window :: done,served_cons counted (by omega) served⟩
      · obtain ⟨done,served⟩ := ih (readings ++ [⟨window.name,total,window.cap,windowState total window.cap pct⟩])
          (store,state.2 + 1)
        exact ⟨window :: done,served_cons counted (Nat.lt_succ_self _) served⟩

private theorem releaseWindows_served (faults : Faults) (windows : List Window) (state : Store × Nat) :
    ∃ done, Served (-1) windows done (∃ given, ((releaseWindows windows).run (struck faults) state).1 = .ok given) state
      ((releaseWindows windows).run (struck faults) state).2 := by
  induction windows generalizing state with
  | nil =>
    refine ⟨[],List.prefix_rfl,fun key => ?_,fun _ => rfl,fun lost => absurd ⟨_,rfl⟩ lost⟩
    exact (add_zero _).symm
  | cons window rest ih =>
    unfold releaseWindows
    rw [run_struck]
    rcases incrby_struck faults state window.key (-1) with ⟨fault,lost⟩ | ⟨total,store,added,counted⟩
    · unfold decr decrby
      rw [lost]
      exact ⟨[],served_lost (-1) _ (fun ⟨_,bad⟩ => by cases bad) state⟩
    · unfold decr decrby
      rw [added]
      obtain ⟨done,served⟩ := ih (store,state.2 + 1)
      exact ⟨window :: done,served_cons counted (Nat.lt_succ_self _) served⟩

end Windows
section Ledgers

variable (faults : Faults) (now : Instant)

/-- No fault strikes a ledger's reservation after its first command. -/
def reserveClean : List JobLedger → Store × Nat → Prop
  | [],_ => True
  | ledger :: rest,state =>
    let reserving := reserveBudget ledger.caps ledger.softHoldPct now ledger.prefixOf
    ¬throwsLate faults state reserving ∧ ∀ result, (reserving.run (struck faults) state).1 = .ok result → result.allowed →
      reserveClean rest (reserving.run (struck faults) state).2

/-- No fault strikes a ledger's release after its first command; the ledgers as they are released. -/
def releaseClean : List JobLedger → Store × Nat → Prop
  | [],_ => True
  | ledger :: rest,state =>
    let releasing := releaseBudget ledger.caps now ledger.prefixOf
    ¬throwsLate faults state releasing ∧ ∀ given, (releasing.run (struck faults) state).1 = .ok given →
      releaseClean rest (releasing.run (struck faults) state).2

/-- The ledger that refused. -/
def refusals (answer : Except Fault LedgersVerdict) : List JobLedger :=
  match answer with
  | .ok verdict => verdict.refusedBy.toList
  | .error _ => []

variable {faults} {now}

/-- A call over one ledger's windows: all of them are served, or a fault has left some of them. -/
private theorem ledger_served {α : Type} {delta : Int} {ledger : JobLedger} {call : Call (Except Fault α)} {state : Store × Nat}
    {done : List Window} (served : Served delta (activeWindows ledger.caps now ledger.prefixOf) done
      (∃ value, (call.run (struck faults) state).1 = .ok value) state (call.run (struck faults) state).2) :
    ((∃ value, (call.run (struck faults) state).1 = .ok value) ∧ ¬throwsLate faults state call ∧
        ∀ key, counter (call.run (struck faults) state).2.1 key = counter state.1 key + delta * (keysOf now ledger).count key) ∨
      (∃ fault, (call.run (struck faults) state).1 = .error fault) ∧ (¬throwsLate faults state call ↔ done = []) ∧
        ∀ key, counter (call.run (struck faults) state).2.1 key = counter state.1 key + delta * (done.map Window.key).count key := by
  unfold throwsLate
  cases ended : (call.run (struck faults) state).1 with
  | ok value =>
    rw [ended] at served
    have whole := served.whole ⟨value,rfl⟩
    refine .inl ⟨⟨value,rfl⟩,fun late => (nomatch late.1.choose_spec),fun key => ?_⟩
    rw [served.counts,whole]
    rfl
  | error fault =>
    rw [ended] at served
    have late := (served.late fun ⟨_,bad⟩ => by cases bad).2
    refine .inr ⟨⟨fault,rfl⟩,⟨fun clean => ?_,fun none lost => late.mp lost.2 none⟩,served.counts⟩
    by_contra some'
    exact clean ⟨⟨fault,rfl⟩,late.mpr some'⟩

theorem reserveLedgers_counted (ledgers held : List JobLedger) (state : Store × Nat) :
    ∃ extra : List String,
      (∀ key, counter ((reserveLedgers now ledgers held).run (struck faults) state).2.1 key + slots now key held =
        counter state.1 key + slots now key ((reserveLedgers now ledgers held).run (struck faults) state).1.2 +
          slots now key (refusals ((reserveLedgers now ledgers held).run (struck faults) state).1.1) + extra.count key) ∧
      (reserveClean faults now ledgers state ↔ extra = []) := by
  induction ledgers generalizing held state with
  | nil =>
    refine ⟨[],fun key => ?_,iff_of_true trivial rfl⟩
    show counter state.1 key + slots now key held = counter state.1 key + slots now key held + (0 : Nat) + (0 : Nat)
    ring
  | cons ledger rest ih =>
    obtain ⟨done,served⟩ := reserveWindows_served faults ledger.softHoldPct (activeWindows ledger.caps now ledger.prefixOf) []
      state
    unfold reserveLedgers reserveClean
    rw [Program.run_bind]
    have parts := @ledger_served faults now _ _ _ _ _ _ served
    unfold reserveBudget
    dsimp only
    generalize (reserveWindows ledger.softHoldPct (activeWindows ledger.caps now ledger.prefixOf) []).run (struck faults) state =
      out at parts ⊢
    obtain ⟨answer,middle⟩ := out
    rcases parts with ⟨⟨result,ok⟩,clean,counts⟩ | ⟨⟨fault,lost⟩,clean,counts⟩
    · cases ok
      dsimp only at counts ⊢
      split
      next admitted =>
        obtain ⟨extra,rest,cleanly⟩ := ih (held ++ [ledger]) middle
        refine ⟨extra,fun key => ?_,?_⟩
        · have total := rest key
          rw [counts,slots_append,slots_cons] at total
          have none : slots now key [] = 0 := rfl
          rw [none] at total
          push_cast at total ⊢
          linarith
        · rw [← cleanly]
          refine ⟨fun both => both.2 result rfl admitted,fun rest => ⟨clean,fun other same _ => ?_⟩⟩
          exact rest
      next refused =>
        refine ⟨[],fun key => ?_,iff_of_true ⟨clean,fun other same admitted => ?_⟩ rfl⟩
        · have one : slots now key [ledger] = (keysOf now ledger).count key := slots_cons key ledger []
          have moved := counts key
          show counter middle.1 key + slots now key held =
            counter state.1 key + slots now key held + slots now key [ledger] + (0 : Nat)
          rw [one,moved]
          push_cast
          ring
        · cases same
          exact absurd admitted refused
    · cases lost
      refine ⟨done.map Window.key,fun key => ?_,?_⟩
      · have moved := counts key
        show counter middle.1 key + slots now key held =
          counter state.1 key + slots now key held + (0 : Nat) + (done.map Window.key).count key
        rw [moved]
        push_cast
        ring
      · rw [List.map_eq_nil_iff,← clean]
        exact ⟨fun both => both.1,fun own => ⟨own,fun result same => by cases same⟩⟩

theorem releaseReversed_counted (ledgers : List JobLedger) (state : Store × Nat) :
    ∃ extra : List String,
      (∀ key, counter ((releaseReversed now ledgers).run (struck faults) state).2.1 key + slots now key ledgers + extra.count key =
        counter state.1 key + slots now key ((releaseReversed now ledgers).run (struck faults) state).1.2) ∧
      (releaseClean faults now ledgers state ↔ extra = []) := by
  induction ledgers generalizing state with
  | nil =>
    refine ⟨[],fun key => ?_,iff_of_true trivial rfl⟩
    exact add_zero (counter state.1 key + slots now key [])
  | cons ledger rest ih =>
    obtain ⟨done,served⟩ := releaseWindows_served faults (activeWindows ledger.caps now ledger.prefixOf) state
    unfold releaseReversed releaseClean
    rw [Program.run_bind]
    have parts := @ledger_served faults now _ _ _ _ _ _ served
    unfold releaseBudget
    dsimp only
    generalize (releaseWindows (activeWindows ledger.caps now ledger.prefixOf)).run (struck faults) state = out at parts ⊢
    obtain ⟨answer,middle⟩ := out
    rcases parts with ⟨⟨given,ok⟩,clean,counts⟩ | ⟨⟨fault,lost⟩,clean,counts⟩
    · cases ok
      dsimp only at counts ⊢
      obtain ⟨extra,rest,cleanly⟩ := ih middle
      refine ⟨extra,fun key => ?_,?_⟩
      · have total := rest key
        rw [counts] at total
        rw [slots_cons]
        push_cast at total ⊢
        linarith
      · rw [← cleanly]
        exact ⟨fun both => both.2 given rfl,fun rest => ⟨clean,fun _ _ => rest⟩⟩
    · cases lost
      refine ⟨done.map Window.key,fun key => ?_,?_⟩
      · have moved := counts key
        show counter middle.1 key + slots now key (ledger :: rest) + (done.map Window.key).count key =
          counter state.1 key + slots now key (ledger :: rest).reverse
        rw [moved,slots_reverse]
        ring
      · rw [List.map_eq_nil_iff,← clean]
        exact ⟨fun both => both.1,fun own => ⟨own,fun result same => by cases same⟩⟩

end Ledgers
section Course

variable (faults : Faults) (now : Instant) (ledgers : List JobLedger) (store : Store)

/-- The reservation of a job's ledgers, then the release of what is held, then the release of what that left. -/
def reserved : (Except Fault LedgersVerdict × List JobLedger) × Store × Nat :=
  (reserveLedgers now ledgers []).run (struck faults) (store,0)

def released : (Except Fault Unit × List JobLedger) × Store × Nat :=
  (releaseLedgers now (reserved faults now ledgers store).1.2).run (struck faults) (reserved faults now ledgers store).2

def releasedAgain : (Except Fault Unit × List JobLedger) × Store × Nat :=
  (releaseLedgers now (released faults now ledgers store).1.2).run (struck faults) (released faults now ledgers store).2

/-- Whichever calls have come to an end, the list says what stands. -/
def ExactThroughout : Prop :=
  let refused := refusals (reserved faults now ledgers store).1.1
  Exact now store (reserved faults now ledgers store).2.1 (reserved faults now ledgers store).1.2 refused ∧
    Exact now store (released faults now ledgers store).2.1 (released faults now ledgers store).1.2 refused ∧
    Exact now store (releasedAgain faults now ledgers store).2.1 (releasedAgain faults now ledgers store).1.2 refused

/-- In each of the three calls a fault strikes a ledger at its first command or not at all. -/
def StruckFirst : Prop :=
  reserveClean faults now ledgers (store,0) ∧
    releaseClean faults now (reserved faults now ledgers store).1.2.reverse (reserved faults now ledgers store).2 ∧
    releaseClean faults now (released faults now ledgers store).1.2.reverse (released faults now ledgers store).2

private theorem exact_counted {before after : Store} {held refused : List JobLedger} {extra : List String} {sign : Int}
    (unit : sign = 1 ∨ sign = -1)
    (counts : ∀ key, counter after key = counter before key + slots now key held + slots now key refused + sign * extra.count key) :
    Exact now before after held refused ↔ extra = [] := by
  refine ⟨fun exact => ?_,fun none key => ?_⟩
  · refine List.eq_nil_iff_forall_not_mem.mpr fun key member => ?_
    have some' := List.count_pos_iff.mpr member
    have total := counts key
    rw [exact key] at total
    rcases unit with rfl | rfl <;> omega
  · rw [counts key,none]
    simp

private theorem released_exact {held : List JobLedger} {state : Store × Nat} {refused : List JobLedger}
    (exact : Exact now store state.1 held refused) :
    Exact now store ((releaseLedgers now held).run (struck faults) state).2.1
      ((releaseLedgers now held).run (struck faults) state).1.2 refused ↔ releaseClean faults now held.reverse state := by
  obtain ⟨extra,counts,clean⟩ := @releaseReversed_counted faults now held.reverse state
  rw [clean]
  refine exact_counted now (.inr rfl) fun key => ?_
  have total := counts key
  rw [slots_reverse,exact key] at total
  unfold releaseLedgers
  linarith

/-- The list of standing reservations is exact after the reservation, the release and its retry just where no fault strikes a
ledger after its first command. -/
theorem reservations_exact : ExactThroughout faults now ledgers store ↔ StruckFirst faults now ledgers store := by
  obtain ⟨extra,counts,clean⟩ := @reserveLedgers_counted faults now ledgers [] (store,0)
  have first : Exact now store (reserved faults now ledgers store).2.1 (reserved faults now ledgers store).1.2
      (refusals (reserved faults now ledgers store).1.1) ↔ reserveClean faults now ledgers (store,0) := by
    rw [clean]
    refine exact_counted now (.inl rfl) fun key => ?_
    have total := counts key
    have none : slots now key [] = 0 := rfl
    rw [none] at total
    unfold reserved
    push_cast at total ⊢
    linarith
  unfold ExactThroughout StruckFirst
  dsimp only
  refine and_congr_left' first |>.trans ?_
  refine and_congr_right fun clean => ?_
  have second := released_exact faults now store (first.mpr clean)
  refine (and_congr_left' second).trans ?_
  exact and_congr_right fun again => released_exact faults now store (second.mpr again)

end Course

section Torn

/-- A ledger of two windows, and a fault of the first command after the day's. -/
def twoWindows : JobLedger := ⟨none,none,⟨some 5,some 5,none⟩,none,"daily"⟩

def thirdThrows : Faults := fun place => if place = 2 then some ⟨none⟩ else none

/-- The day is counted and no list says so. -/
theorem torn_reservation : ¬ExactThroughout thirdThrows 0 [twoWindows] .empty := by
  intro exact
  have day := exact.1 (dayKey 0 "budget")
  exact absurd day (by decide +kernel)

end Torn

end PiDispatch.Budget
