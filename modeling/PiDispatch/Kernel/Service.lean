import PiDispatch.Kernel.Program

/-! Services whose answers may be lost, and runs of them that can be computed: some agents in a world, and the order
in which they take their turns. -/
namespace PiDispatch.Kernel

/-- Commands that answer or fail. -/
@[reducible] def Fallible (C : Type) (R : C → Type) (F : Type) : Signature := ⟨C,fun command => Except F (R command)⟩

section Failures

variable {S C F : Type} {R : C → Type}

/-- A command that is allowed answers, or its answer is lost, before its effect or after it. -/
def MayFail (answer : S → (command : C) → R command × S) (lost : S → C → S) (loses : C → Prop)
    (allowed : S → C → Prop) (store : S) (command : C) (reply : Except F (R command)) (next : S) : Prop :=
  allowed store command ∧
  (reply = .ok (answer store command).1 ∧ next = (answer store command).2 ∨
    loses command ∧ ∃ fault, reply = .error fault ∧ (next = store ∨ next = lost store command))

/-- Every command answered. -/
def answering (F : Type) (answer : S → (command : C) → R command × S) (store : S) (command : C) :
    Except F (R command) × S := (.ok (answer store command).1,(answer store command).2)

theorem mayFail_answering {answer : S → (command : C) → R command × S} {lost : S → C → S} {loses : C → Prop}
    {allowed : S → C → Prop} {store : S} {command : C} (ok : allowed store command) :
    MayFail answer lost loses allowed store command (answering F answer store command).1
      (answering F answer store command).2 := ⟨ok,.inl ⟨rfl,rfl⟩⟩

/-- What every command keeps, answered or lost, its service keeps. -/
theorem mayFail_kept {answer : S → (command : C) → R command × S} {lost : S → C → S} {loses : C → Prop}
    {allowed : S → C → Prop} {invariant : S → Prop}
    (answered : ∀ store command, invariant store → allowed store command → invariant (answer store command).2)
    (unanswered : ∀ store command, invariant store → allowed store command → loses command → invariant (lost store command))
    {store next : S} {command : C} {reply : Except F (R command)} (holds : invariant store)
    (served : MayFail answer lost loses allowed store command reply next) : invariant next := by
  obtain ⟨ok,⟨_,rfl⟩ | ⟨failing,_,_,rfl | rfl⟩⟩ := served
  · exact answered store command holds ok
  · exact holds
  · exact unanswered store command holds ok failing

end Failures

section Turns

variable {σ : Signature} {S A : Type}

/-- The agents take their turns in the order given. -/
def Agency.turns (agency : Agency σ S A) (answer : S → (command : σ.Command) → σ.Answer command × S)
    (world : World S A) (order : List Nat) : World S A :=
  order.foldl (fun world index => agency.turn answer index world) world

/-- Every command of those turns passes the check in the store it meets. -/
def Agency.passes (agency : Agency σ S A) (answer : S → (command : σ.Command) → σ.Answer command × S)
    (check : S → σ.Command → Bool) (world : World S A) : List Nat → Bool
  | [] => true
  | index :: order => (match world.agents[index]? with
      | none => true
      | some agent => match agency.pending agent with
        | none => true
        | some ⟨command,_⟩ => check world.store command) &&
    agency.passes answer check (agency.turn answer index world) order

theorem reachable_turns (agency : Agency σ S A) (answer : S → (command : σ.Command) → σ.Answer command × S)
    (serves : ∀ store command, agency.serves store command (answer store command).1 (answer store command).2)
    (order : List Nat) {start : S} {world : World S A} (reached : Reachable agency start world) :
    Reachable agency start (agency.turns answer world order) := by
  induction order generalizing world with
  | nil => exact reached
  | cons index order ih => exact ih (reachable_turn agency answer serves index reached)

theorem reachable_passes (agency : Agency σ S A) (answer : S → (command : σ.Command) → σ.Answer command × S)
    (check : S → σ.Command → Bool)
    (serves : ∀ store command, check store command → agency.serves store command (answer store command).1 (answer store command).2)
    (order : List Nat) {start : S} {world : World S A} (reached : Reachable agency start world)
    (passed : agency.passes answer check world order) : Reachable agency start (agency.turns answer world order) := by
  induction order generalizing world with
  | nil => exact reached
  | cons index order ih =>
    obtain ⟨here,rest⟩ := Bool.and_eq_true_iff.mp passed
    refine ih (reachable_turn_of agency answer index ?_ reached) rest
    intro agent found call waiting
    have found : world.agents[index]? = some agent := found
    have waiting : agency.pending agent = some call := waiting
    rw [found] at here
    dsimp only at here
    rw [waiting] at here
    exact serves world.store call.1 here

end Turns

end PiDispatch.Kernel
