import Mathlib.Logic.Basic

/-! Validations: a chain of checks that stops at the first refusal. -/
namespace PiDispatch.Kernel

variable {ε α β : Type}

def check (ok : Prop) [Decidable ok] (refusal : ε) : Except ε Unit := if ok then .ok () else .error refusal

def demand (found : Option α) (refusal : ε) : Except ε α :=
  match found with
  | some value => .ok value
  | none => .error refusal

theorem check_ok {ok : Prop} [Decidable ok] {refusal : ε} {result : Unit} (passed : check ok refusal = .ok result) : ok := by
  unfold check at passed
  split at passed
  · assumption
  · cases passed

theorem demand_ok {found : Option α} {refusal : ε} {value : α} (passed : demand found refusal = .ok value) :
    found = some value := by
  unfold demand at passed
  split at passed
  · cases passed
    rfl
  · cases passed

theorem passed_bind {first : Except ε α} {next : α → Except ε β} {result : β} (ok : first.bind next = .ok result) :
    ∃ value, first = .ok value ∧ next value = .ok result := by
  cases first with
  | error refusal => cases ok
  | ok value => exact ⟨value,rfl,ok⟩

theorem passed_map {first : Except ε α} {next : α → β} {result : β} (ok : first.map next = .ok result) :
    ∃ value, first = .ok value ∧ next value = result := by
  cases first with
  | error refusal => cases ok
  | ok value => exact ⟨value,rfl,Except.ok.inj ok⟩

end PiDispatch.Kernel
