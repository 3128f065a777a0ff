import PiDispatch.DollarInterleaving

/-! Runs of calls to Valkey in which any of the commands throw without taking effect. -/
namespace PiDispatch.ValkeyFaults
open Kernel Command DollarBudget

/-- The commands that throw, by their places in a run. -/
abbrev Faults := Nat → Option Fault

def struck (faults : Faults) (state : Store × Nat) (command : Valkey.Command) : Valkey.Answer command × (Store × Nat) :=
  match faults state.2 with
  | some fault => (.error fault,state.1,state.2 + 1)
  | none => ((command.2 state.1).1,(command.2 state.1).2,state.2 + 1)

variable {faults : Faults}

private theorem incrby_cases (key : String) (increment : Int) (store : Store) :
    (∃ fault, incrby key increment store = (.error fault,store)) ∨
      incrby key increment store =
        (.ok (counter store key + increment),store.put key (.integer (counter store key + increment))) := by
  unfold incrby counter
  cases store key with
  | none =>
    dsimp only
    rw [zero_add]
    split
    · exact .inr rfl
    · exact .inl ⟨_,rfl⟩
  | some value =>
    cases value with
    | integer number =>
      dsimp only
      split
      · exact .inr rfl
      · exact .inl ⟨_,rfl⟩
    | text | document | hash | list => exact .inl ⟨_,rfl⟩

/-- A command that adds to a counter throws and leaves the store, or adds. -/
theorem incrby_struck (faults : Faults) (state : Store × Nat) (key : String) (increment : Int) :
    (∃ fault, struck faults state ⟨.integer,incrby key increment⟩ = (.error fault,state.1,state.2 + 1)) ∨
      ∃ total store, struck faults state ⟨.integer,incrby key increment⟩ = (.ok total,store,state.2 + 1) ∧
        ∀ other, counter store other = counter state.1 other + if key = other then increment else 0 := by
  unfold struck
  split
  next fault _ => exact .inl ⟨fault,rfl⟩
  dsimp only
  rcases incrby_cases key increment state.1 with ⟨fault,lost⟩ | added
  · refine .inl ⟨fault,?_⟩
    rw [lost]
  · refine .inr ⟨_,_,by rw [added],fun other => ?_⟩
    rw [counter_put]
    by_cases same : other = key
    · rw [if_pos same,if_pos same.symm,same]
    · rw [if_neg same,if_neg fun equal => same equal.symm,add_zero]

/-- A time to live leaves the store. -/
theorem expire_struck (faults : Faults) (state : Store × Nat) (key : String) (seconds : Nat) :
    (struck faults state ⟨.flag,expire key seconds⟩).2 = (state.1,state.2 + 1) := by
  unfold struck
  split <;> rfl

theorem run_struck {α : Type} {kind : ReplyKind} (command : Command kind) (resume : Reply kind → Call α) (state : Store × Nat) :
    (call command resume).run (struck faults) state =
      (resume (struck faults state ⟨kind,command⟩).1).run (struck faults) (struck faults state ⟨kind,command⟩).2 := rfl

end PiDispatch.ValkeyFaults
