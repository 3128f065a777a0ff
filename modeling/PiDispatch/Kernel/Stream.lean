import Mathlib.Data.List.Induction

/-! Readers of a stream: a loop that takes what it can off a buffer, and pushes of bytes as they arrive. Where a step of the
loop asks only for what the buffer begins with, the cuts between the pushes do not matter. -/
namespace PiDispatch.Kernel

variable {S B : Type}

/-- The loop, for as many rounds as it may take. -/
def exhaust (step : S → Option S) : Nat → S → S
  | 0,state => state
  | rounds + 1,state => match step state with
    | none => state
    | some next => exhaust step rounds next

/-- A reader: its loop's step, what is left to read, the bytes added behind it, and whether it has stopped for good. -/
structure Reader (S B : Type) where
  step : S → Option S
  left : S → Nat
  add : List B → S → S
  stopped : S → Bool
  shrinks : ∀ state next, step state = some next → left next < left state
  rests : ∀ state, stopped state → step state = none
  add_nil : ∀ state, add [] state = state
  add_add : ∀ state first second, add second (add first state) = add (first ++ second) state
  add_stopped : ∀ state bytes, stopped (add bytes state) = stopped state
  /-- More bytes behind the buffer change nothing of a step but what it leaves, unless it stops. -/
  step_add : ∀ state next bytes, step state = some next →
    step (add bytes state) = some (if stopped next then next else add bytes next)

namespace Reader
variable (reader : Reader S B)

def drain (state : S) : S := exhaust reader.step (reader.left state) state

/-- Bytes arrive; a stopped reader drops them. -/
def push (state : S) (bytes : List B) : S := if reader.stopped state then state else reader.drain (reader.add bytes state)

def Drained (state : S) : Prop := reader.step state = none

private theorem exhaust_more {rounds more : Nat} {state : S} (enough : reader.left state ≤ rounds) (least : rounds ≤ more) :
    exhaust reader.step more state = exhaust reader.step rounds state := by
  induction rounds generalizing state more with
  | zero =>
    cases more with
    | zero => rfl
    | succ more =>
      unfold exhaust
      cases found : reader.step state with
      | none => rfl
      | some next => exact absurd (reader.shrinks state next found) (by omega)
  | succ rounds ih =>
    obtain ⟨more,rfl⟩ : ∃ fewer, more = fewer + 1 := ⟨more - 1,by omega⟩
    unfold exhaust
    cases found : reader.step state with
    | none => rfl
    | some next =>
      have less := reader.shrinks state next found
      exact ih (by omega) (by omega)

theorem drain_step {state next : S} (found : reader.step state = some next) : reader.drain state = reader.drain next := by
  have less := reader.shrinks state next found
  unfold drain
  obtain ⟨rounds,same⟩ : ∃ rounds, reader.left state = rounds + 1 := ⟨reader.left state - 1,by omega⟩
  rw [same]
  conv_lhs => unfold exhaust
  rw [found]
  exact reader.exhaust_more (Nat.le_refl _) (by omega)

theorem drain_of_drained {state : S} (drained : reader.Drained state) : reader.drain state = state := by
  unfold drain
  cases reader.left state with
  | zero => rfl
  | succ rounds =>
    unfold exhaust
    rw [show reader.step state = none from drained]

/-- Whatever every step keeps holds once the loop is through. -/
theorem drain_keeps {invariant : S → Prop} (kept : ∀ state next, reader.step state = some next → invariant state → invariant next)
    {state : S} (holds : invariant state) : invariant (reader.drain state) := by
  unfold drain
  generalize reader.left state = rounds
  induction rounds generalizing state with
  | zero => exact holds
  | succ rounds ih =>
    unfold exhaust
    cases found : reader.step state with
    | none => exact holds
    | some next => exact ih (kept state next found holds)

private theorem drain_add (state : S) (bytes : List B) (running : reader.stopped state = false) :
    reader.drain (reader.add bytes state) = reader.push (reader.drain state) bytes := by
  generalize size : reader.left state = length
  induction length using Nat.strongRecOn generalizing state with
  | ind length ih =>
    cases found : reader.step state with
    | none =>
      rw [reader.drain_of_drained found]
      unfold push
      rw [running]
      rfl
    | some next =>
      have less := reader.shrinks state next found
      rw [reader.drain_step (reader.step_add state next bytes found),reader.drain_step found]
      cases stops : reader.stopped next with
      | true =>
        rw [if_pos rfl,reader.drain_of_drained (reader.rests next stops)]
        unfold push
        rw [if_pos stops]
      | false =>
        rw [if_neg (by decide)]
        exact ih _ (by omega) next stops rfl

private theorem push_running {state : S} (bytes : List B) (running : reader.stopped state = false) :
    reader.push state bytes = reader.drain (reader.add bytes state) := by
  unfold push
  rw [running]
  rfl

theorem push_push (state : S) (first second : List B) :
    reader.push (reader.push state first) second = reader.push state (first ++ second) := by
  cases running : reader.stopped state with
  | true => simp [push,running]
  | false =>
    have still : reader.stopped (reader.add first state) = false := (reader.add_stopped state first).trans running
    have joined := reader.drain_add (reader.add first state) second still
    rw [reader.add_add] at joined
    rw [reader.push_running first running,reader.push_running (first ++ second) running,joined]

/-- A reader with nothing left to take is where any cuts of the same bytes bring it. -/
theorem pushes_flatten {state : S} (drained : reader.Drained state) (chunks : List (List B)) :
    chunks.foldl reader.push state = reader.push state chunks.flatten := by
  have nothing : reader.push state [] = state := by
    unfold push
    split
    · rfl
    · rw [reader.add_nil,reader.drain_of_drained drained]
  induction chunks using List.reverseRecOn with
  | nil => exact nothing.symm
  | append_singleton chunks last ih =>
    rw [List.foldl_append,ih,List.flatten_append,List.flatten_singleton]
    exact reader.push_push state chunks.flatten last

end Reader

end PiDispatch.Kernel
