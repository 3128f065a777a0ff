import Mathlib.Logic.Basic

/-! Runs of a machine whose acts answer: the acts a guard allows, each with its answer, latest first. An invariant
of one step is an invariant of every run, alone or together with what the run's acts and answers say. -/
namespace PiDispatch.Kernel

variable {S A R : Type}

inductive Runs (step : A → S → R × S) (allowed : A → S → Prop) (start : S) : List (A × R) → S → Prop
  | start : Runs step allowed start [] start
  | next {past : List (A × R)} {state : S} (run : Runs step allowed start past state) (act : A)
      (ok : allowed act state) : Runs step allowed start ((act,(step act state).1) :: past) (step act state).2

namespace Runs

variable {step : A → S → R × S} {allowed : A → S → Prop} {start : S}

theorem invariant (Invariant : List (A × R) → S → Prop) (initial : Invariant [] start)
    (kept : ∀ past state act, Invariant past state → allowed act state →
      Invariant ((act,(step act state).1) :: past) (step act state).2)
    {past : List (A × R)} {state : S} (run : Runs step allowed start past state) : Invariant past state := by
  induction run with
  | start => exact initial
  | next _ act ok ih => exact kept _ _ act ih ok

theorem append {past later : List (A × R)} {state state' : S} (first : Runs step allowed start past state)
    (second : Runs step allowed state later state') : Runs step allowed start (later ++ past) state' := by
  induction second with
  | start => exact first
  | next _ act ok ih => exact .next ih act ok

end Runs

/-- The state after some acts, in the order written. -/
def after (step : A → S → R × S) (state : S) (acts : List A) : S :=
  acts.foldl (fun state act => (step act state).2) state

/-- The acts with their answers, latest first. -/
def answered (step : A → S → R × S) (state : S) (acts : List A) : List (A × R) :=
  match acts with
  | [] => []
  | act :: rest => answered step (step act state).2 rest ++ [(act,(step act state).1)]

theorem after_concat (step : A → S → R × S) (state : S) (acts : List A) (act : A) :
    after step state (acts ++ [act]) = (step act (after step state acts)).2 := by
  unfold after
  rw [List.foldl_append,List.foldl_cons,List.foldl_nil]

theorem answered_concat (step : A → S → R × S) (state : S) (acts : List A) (act : A) :
    answered step state (acts ++ [act]) =
      (act,(step act (after step state acts)).1) :: answered step state acts := by
  induction acts generalizing state with
  | nil => rfl
  | cons first rest ih =>
    rw [List.cons_append,answered,ih,answered,List.cons_append]
    rfl

/-- Each act is allowed in the state it meets. -/
def Guarded (step : A → S → R × S) (allowed : A → S → Prop) (state : S) (acts : List A) : Prop :=
  match acts with
  | [] => True
  | act :: rest => allowed act state ∧ Guarded step allowed (step act state).2 rest

instance decidableGuarded (step : A → S → R × S) (allowed : A → S → Prop) [∀ act state, Decidable (allowed act state)] :
    (state : S) → (acts : List A) → Decidable (Guarded step allowed state acts)
  | _,[] => isTrue trivial
  | state,act :: rest =>
    have := decidableGuarded step allowed (step act state).2 rest
    inferInstanceAs (Decidable (allowed act state ∧ Guarded step allowed (step act state).2 rest))

theorem runs_guarded (step : A → S → R × S) (allowed : A → S → Prop) (state : S) (acts : List A)
    (guarded : Guarded step allowed state acts) :
    Runs step allowed state (answered step state acts) (after step state acts) := by
  induction acts generalizing state with
  | nil => exact .start
  | cons act rest ih => exact Runs.append (.next .start act guarded.1) (ih _ guarded.2)

theorem runs_after (step : A → S → R × S) (state : S) (acts : List A) :
    Runs step (fun _ _ => True) state (answered step state acts) (after step state acts) := by
  refine runs_guarded step _ state acts ?_
  induction acts generalizing state with
  | nil => trivial
  | cons act rest ih => exact ⟨trivial,ih _⟩

end PiDispatch.Kernel
