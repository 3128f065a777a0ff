import PiDispatch.ValkeyFaults

/-! What a dollar reservation leaves in the windows when commands throw: the amount at every window of an admitted hold, and
else at the windows whose give-back threw. -/
namespace PiDispatch.DollarBudget
open Kernel Command ValkeyFaults

variable {faults : Faults}

/-- How often each key was added to. -/
def times (windows : List LedgerWindow) (key : String) : Nat := (windows.map LedgerWindow.key).count key

/-- The windows whose own give-back throws. -/
def unreturned (faults : Faults) (amountMicros : Int) : List LedgerWindow → Store × Nat → List LedgerWindow
  | [],_ => []
  | window :: rest,state =>
    let answered := struck faults state ⟨.integer,decrby window.key amountMicros⟩
    match answered.1 with
    | .ok _ => unreturned faults amountMicros rest answered.2
    | .error _ => window :: unreturned faults amountMicros rest answered.2

/-- The windows that a walk added to. -/
def Walk.touched : Walk → List LedgerWindow
  | .complete touched => touched
  | .refused _ touched => touched
  | .fault _ touched => touched

private theorem untouched (number amountMicros : Int) (key : String) : number = number + amountMicros * times [] key := by
  simp [times]

theorem unreturned_sublist (amountMicros : Int) (windows : List LedgerWindow) (state : Store × Nat) :
    (unreturned faults amountMicros windows state).Sublist windows := by
  induction windows generalizing state with
  | nil => exact List.Sublist.refl _
  | cons window rest ih =>
    unfold unreturned
    dsimp only
    split
    · exact (ih _).cons _
    · exact (ih _).cons_cons _

theorem giveBack_counted (amountMicros : Int) (windows : List LedgerWindow) (failed : Nat) (state : Store × Nat) :
    ((giveBack amountMicros windows failed).run (struck faults) state).1 =
        failed + (unreturned faults amountMicros windows state).length ∧
      ∀ key, counter ((giveBack amountMicros windows failed).run (struck faults) state).2.1 key +
        amountMicros * times windows key =
          counter state.1 key + amountMicros * times (unreturned faults amountMicros windows state) key := by
  induction windows generalizing failed state with
  | nil => exact ⟨rfl,fun key => rfl⟩
  | cons window rest ih =>
    unfold giveBack unreturned
    rw [run_struck]
    dsimp only
    rcases incrby_struck faults state window.key (-amountMicros) with ⟨fault,lost⟩ | ⟨total,store,added,counted⟩
    · unfold decrby
      rw [lost]
      dsimp only
      obtain ⟨count,counts⟩ := ih (failed + 1) (state.1,state.2 + 1)
      refine ⟨?_,fun key => ?_⟩
      · rw [count,List.length_cons]
        omega
      · have total := counts key
        unfold times at total ⊢
        rw [List.map_cons,List.map_cons,List.count_cons,List.count_cons]
        push_cast
        linarith
    · unfold decrby
      rw [added]
      dsimp only
      obtain ⟨count,counts⟩ := ih failed (store,state.2 + 1)
      refine ⟨count,fun key => ?_⟩
      have total := counts key
      have moved := counted key
      unfold times at total ⊢
      rw [moved] at total
      rw [List.map_cons,List.count_cons]
      by_cases same : window.key = key
      · simp only [same,if_true,beq_self_eq_true] at total ⊢
        push_cast
        linarith
      · have apart : ¬(window.key == key) = true := fun equal => same (beq_iff_eq.mp equal)
        rw [if_neg same] at total
        rw [if_neg apart]
        push_cast
        linarith

/-- A walk adds to each window that it has touched, once; one that completes has touched all. -/
theorem walk_counted (amountMicros : Int) (windows touched : List LedgerWindow) (state : Store × Nat) :
    ∃ more, more <+: windows ∧ ((walk amountMicros touched windows).run (struck faults) state).1.touched = touched ++ more ∧
      (∀ out, ((walk amountMicros touched windows).run (struck faults) state).1 = .complete out → more = windows) ∧
      ∀ key, counter ((walk amountMicros touched windows).run (struck faults) state).2.1 key =
        counter state.1 key + amountMicros * times more key := by
  induction windows generalizing touched state with
  | nil => exact ⟨[],List.prefix_rfl,(List.append_nil _).symm,fun _ _ => rfl,fun key => untouched _ _ _⟩
  | cons window rest ih =>
    -- The window was added to at `middle`, and what follows touches `more` after it.
    have onward : ∀ (ended : Walk) (middle after : Store × Nat) (more : List LedgerWindow),
        (∀ other, counter middle.1 other = counter state.1 other + if window.key = other then amountMicros else 0) →
        more <+: rest → ended.touched = touched ++ [window] ++ more → (∀ out, ended = .complete out → more = rest) →
        (∀ key, counter after.1 key = counter middle.1 key + amountMicros * times more key) →
        ∃ more, more <+: window :: rest ∧ ended.touched = touched ++ more ∧ (∀ out, ended = .complete out → more = window :: rest) ∧
          ∀ key, counter after.1 key = counter state.1 key + amountMicros * times more key := by
      intro ended middle after more counted first shape whole counts
      refine ⟨window :: more,(List.prefix_cons_inj window).mpr first,?_,fun out done => congrArg _ (whole out done),fun key => ?_⟩
      · rw [shape,List.append_assoc]
        rfl
      · rw [counts,counted]
        unfold times
        rw [List.map_cons,List.count_cons]
        by_cases same : window.key = key
        · simp only [same,if_true,beq_self_eq_true]
          push_cast
          ring
        · simp [same]
    unfold walk
    rw [run_struck]
    rcases incrby_struck faults state window.key amountMicros with ⟨fault,lost⟩ | ⟨total,store,added,counted⟩
    · rw [lost]
      refine ⟨[],List.nil_prefix,(List.append_nil _).symm,?_,fun key => untouched _ _ _⟩
      intro out done
      cases done
    · rw [added]
      dsimp only
      have judged : ∀ middle : Store × Nat, middle.1 = store → ∃ more, more <+: window :: rest ∧
          ((if total > window.cap then .done (.refused (overCap window total) (touched ++ [window])) else
            walk amountMicros (touched ++ [window]) rest : Call Walk).run (struck faults) middle).1.touched = touched ++ more ∧
          (∀ out, ((if total > window.cap then .done (.refused (overCap window total) (touched ++ [window])) else
            walk amountMicros (touched ++ [window]) rest : Call Walk).run (struck faults) middle).1 = .complete out →
              more = window :: rest) ∧
          ∀ key, counter ((if total > window.cap then .done (.refused (overCap window total) (touched ++ [window])) else
            walk amountMicros (touched ++ [window]) rest : Call Walk).run (struck faults) middle).2.1 key =
              counter state.1 key + amountMicros * times more key := by
        intro middle same
        rw [← same] at counted
        split
        · exact onward _ middle middle [] counted List.nil_prefix (List.append_nil _).symm (fun out done => by cases done)
            fun key => untouched _ _ _
        · obtain ⟨more,first,shape,whole,counts⟩ := ih (touched ++ [window]) middle
          exact onward _ middle _ more counted first shape whole counts
      split
      · rw [run_struck]
        have placed := expire_struck faults (store,state.2 + 1) window.key window.ttl
        cases told : (struck faults (store,state.2 + 1) ⟨.flag,expire window.key window.ttl⟩).1 with
        | error fault =>
          dsimp only
          rw [placed]
          exact onward _ (store,state.2 + 1) (store,state.2 + 1 + 1) [] counted List.nil_prefix (List.append_nil _).symm
            (fun out done => by cases done) fun key => untouched _ _ _
        | ok flag =>
          dsimp only
          rw [placed]
          exact judged _ rfl
      · exact judged _ rfl
section Reservations

variable (faults : Faults) (ledgers : List Ledger) (amountMicros : Int) (now : Instant) (store : Store)

def reservation : Except Thrown Reservation × Store × Nat :=
  (reserveDollars ledgers amountMicros now).run (struck faults) (store,0)

/-- The windows a reservation added to, and where its walk left the store. -/
def walked : Walk × Store × Nat := (walk amountMicros [] (activeWindows ledgers now)).run (struck faults) (store,0)

/-- The windows it added to whose give-back threw. -/
def strandedWindows : List LedgerWindow :=
  unreturned faults amountMicros (walked faults ledgers amountMicros now store).1.touched
    (walked faults ledgers amountMicros now store).2

/-- The amount is at these windows more than before the call, and nowhere else. -/
def Raised (after : Store) (windows : List LedgerWindow) : Prop :=
  ∀ key, counter after key = counter store key + amountMicros * times windows key

/-- What a reservation says it left, it left. -/
structure Reported : Prop where
  admitted : ∀ hold, (reservation faults ledgers amountMicros now store).1 = .ok (.admitted hold) →
    (hold.ledgers.getD []).flatMap HoldLedger.keys = hold.keys ∧
      ∀ key, counter (reservation faults ledgers amountMicros now store).2.1 key =
        counter store key + amountMicros * hold.keys.count key
  refused : ∀ refusal stranded, (reservation faults ledgers amountMicros now store).1 = .ok (.refused refusal stranded) →
    stranded = (strandedWindows faults ledgers amountMicros now store).length ∧
      Raised amountMicros store (reservation faults ledgers amountMicros now store).2.1
        (strandedWindows faults ledgers amountMicros now store)
  thrown : ∀ fault, (reservation faults ledgers amountMicros now store).1 = .error (.fault fault) →
    Raised amountMicros store (reservation faults ledgers amountMicros now store).2.1
      (strandedWindows faults ledgers amountMicros now store)
  unasked : ∀ message, (reservation faults ledgers amountMicros now store).1 = .error (.typeError message) →
    (reservation faults ledgers amountMicros now store).2.1 = store
  walked : (walked faults ledgers amountMicros now store).1.touched <+: activeWindows ledgers now ∧
    (strandedWindows faults ledgers amountMicros now store).Sublist (walked faults ledgers amountMicros now store).1.touched

/-- The keys of the active windows that are above what they were before the call. -/
def above (after : Store) : List String :=
  ((activeWindows ledgers now).map LedgerWindow.key).filter fun key => counter store key < counter after key

/-- A reservation as it is where no two of its windows share a key. -/
structure Once : Prop where
  admitted : ∀ hold, (reservation faults ledgers amountMicros now store).1 = .ok (.admitted hold) → ∀ key,
    counter (reservation faults ledgers amountMicros now store).2.1 key =
      counter store key + if key ∈ hold.keys then amountMicros else 0
  refused : ∀ refusal stranded, (reservation faults ledgers amountMicros now store).1 = .ok (.refused refusal stranded) →
    (above ledgers now store (reservation faults ledgers amountMicros now store).2.1).length = stranded ∧
      ∀ key ∈ above ledgers now store (reservation faults ledgers amountMicros now store).2.1,
        counter (reservation faults ledgers amountMicros now store).2.1 key = counter store key + amountMicros

/-- Where no two windows share a key, a raised key holds the amount once, and there are as many as the windows. -/
private theorem raised_distinct {after : Store} {windows touched : List LedgerWindow} (positive : 0 < amountMicros)
    (distinct : (touched.map LedgerWindow.key).Nodup) (inside : windows.Sublist touched)
    (raised : Raised amountMicros store after windows) :
    (((touched.map LedgerWindow.key).filter fun key => counter store key < counter after key).length = windows.length) ∧
      ∀ key ∈ (touched.map LedgerWindow.key).filter fun key => counter store key < counter after key,
        counter after key = counter store key + amountMicros := by
  have apart : (windows.map LedgerWindow.key).Nodup := distinct.sublist (inside.map _)
  have exact : ∀ key, counter store key < counter after key ↔ key ∈ windows.map LedgerWindow.key := by
    intro key
    rw [raised key]
    unfold times
    rw [← List.count_pos_iff]
    constructor
    · intro more
      by_contra none
      have zero : (windows.map LedgerWindow.key).count key = 0 := by omega
      rw [zero] at more
      simp at more
    · intro some'
      have least : 0 < amountMicros * ((windows.map LedgerWindow.key).count key : Nat) := by positivity
      linarith
  have same : (touched.map LedgerWindow.key).filter (fun key => counter store key < counter after key) =
      (touched.map LedgerWindow.key).filter fun key => key ∈ windows.map LedgerWindow.key :=
    List.filter_congr fun key _ => decide_eq_decide.mpr (exact key)
  rw [same]
  refine ⟨?_,?_⟩
  · have perm : ((touched.map LedgerWindow.key).filter fun key => key ∈ windows.map LedgerWindow.key).Perm
        (windows.map LedgerWindow.key) := by
      rw [List.perm_ext_iff_of_nodup (distinct.filter _) apart]
      intro key
      rw [List.mem_filter,decide_eq_true_eq]
      exact ⟨fun both => both.2,fun member => ⟨(inside.map _).subset member,member⟩⟩
    rw [perm.length_eq,List.length_map]
  · intro key member
    have within := of_decide_eq_true (List.mem_filter.mp member).2
    rw [raised key]
    unfold times
    rw [List.count_eq_one_of_mem apart within]
    ring

private theorem reported : Reported faults ledgers amountMicros now store := by
  have counted := @walk_counted faults amountMicros (activeWindows ledgers now) [] (store,0)
  obtain ⟨more,first,shape,whole,counts⟩ := counted
  rw [List.nil_append] at shape
  have given : ∀ failed, ((giveBack amountMicros (walked faults ledgers amountMicros now store).1.touched failed).run
      (struck faults) (walked faults ledgers amountMicros now store).2).1 =
        failed + (strandedWindows faults ledgers amountMicros now store).length ∧
      Raised amountMicros store ((giveBack amountMicros (walked faults ledgers amountMicros now store).1.touched failed).run
        (struck faults) (walked faults ledgers amountMicros now store).2).2.1
        (strandedWindows faults ledgers amountMicros now store) := by
    intro failed
    obtain ⟨count,back⟩ := @giveBack_counted faults amountMicros (walked faults ledgers amountMicros now store).1.touched failed
      (walked faults ledgers amountMicros now store).2
    refine ⟨count,fun key => ?_⟩
    have total := back key
    have moved := counts key
    have touched : (walked faults ledgers amountMicros now store).1.touched = more := shape
    have reached : counter (walked faults ledgers amountMicros now store).2.1 key = counter store key + amountMicros * times more key :=
      moved
    rw [touched,reached] at total
    unfold strandedWindows
    rw [touched]
    linarith
  have inside : (walked faults ledgers amountMicros now store).1.touched <+: activeWindows ledgers now ∧
      (strandedWindows faults ledgers amountMicros now store).Sublist (walked faults ledgers amountMicros now store).1.touched :=
    ⟨(show (walked faults ledgers amountMicros now store).1.touched = more from shape) ▸ first,unreturned_sublist _ _ _⟩
  have parts : reservation faults ledgers amountMicros now store =
      if ¬isMicros amountMicros then (.error notMicros,store,0)
      else if amountMicros = 0 then (.ok (.admitted ⟨0,[],none⟩),store,0)
      else (finish amountMicros (walked faults ledgers amountMicros now store).1).run (struck faults)
        (walked faults ledgers amountMicros now store).2 := by
    unfold reservation reserveDollars
    split
    · rfl
    split
    · rfl
    · exact Program.run_bind ..
  split at parts
  next wrong =>
    refine ⟨?_,?_,?_,?_,inside⟩ <;> rw [parts]
    · intro hold bad
      cases bad
    · intro refusal stranded bad
      cases bad
    · intro fault bad
      cases bad
    · exact fun _ _ => rfl
  split at parts
  next zero =>
    refine ⟨?_,?_,?_,?_,inside⟩ <;> rw [parts]
    · intro hold ok
      cases ok
      exact ⟨rfl,fun key => by simp⟩
    · intro refusal stranded bad
      cases bad
    · intro fault bad
      cases bad
    · intro message bad
      cases bad
  cases ended : (walked faults ledgers amountMicros now store).1 with
  | complete touched =>
    rw [ended] at parts
    refine ⟨?_,?_,?_,?_,inside⟩ <;> rw [parts]
    · intro hold ok
      cases ok
      refine ⟨holdLedgers_flatten touched,fun key => ?_⟩
      have same : touched = more := by
        have own : (walked faults ledgers amountMicros now store).1.touched = more := shape
        rw [ended] at own
        exact own
      rw [same]
      exact counts key
    · intro refusal stranded bad
      cases bad
    · intro fault bad
      cases bad
    · intro message bad
      cases bad
  | refused refusal touched =>
    have back := given 0
    rw [ended] at parts back
    unfold finish at parts
    rw [Program.run_bind] at parts
    refine ⟨?_,?_,?_,?_,inside⟩ <;> rw [parts]
    · intro hold bad
      cases bad
    · intro refusal' stranded ok
      cases ok
      exact ⟨back.1.trans (Nat.zero_add _),back.2⟩
    · intro fault bad
      cases bad
    · intro message bad
      cases bad
  | fault fault touched =>
    have back := given 0
    rw [ended] at parts back
    unfold finish at parts
    rw [Program.run_bind] at parts
    refine ⟨?_,?_,?_,?_,inside⟩ <;> rw [parts]
    · intro hold bad
      cases bad
    · intro refusal stranded bad
      cases bad
    · intro fault' thrown
      exact back.2
    · intro message bad
      cases bad

def twice : List Ledger := [⟨DOLLAR_KEY_PREFIX,⟨some 100,none,none⟩⟩,⟨DOLLAR_KEY_PREFIX,⟨some 100,none,none⟩⟩]

end Reservations

end PiDispatch.DollarBudget
