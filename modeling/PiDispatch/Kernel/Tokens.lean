import Mathlib
import PiDispatch.Kernel.Contract

/-! Tokens: what a program pays for its commands and is handed by their answers. Programs that enter with empty purses
and afford all that they ask can spend, side by side and in every interleaving, no more than the store had to hand out. -/
namespace PiDispatch.Kernel

/-- What a command costs, and what an answer hands over. -/
structure Tariff (σ : Signature) where
  pays : σ.Command → Nat
  gains : (command : σ.Command) → σ.Answer command → Nat

variable {σ : Signature} {S α β : Type}

namespace Program

/-- Whatever it is answered, the purse pays for every command and for what is left to pay after its result. -/
def Affords (tariff : Tariff σ) (left : α → Nat) : Program σ α → Nat → Prop
  | .done value,purse => left value ≤ purse
  | .issue command resume,purse => tariff.pays command ≤ purse ∧
      ∀ answer, (resume answer).Affords tariff left (purse - tariff.pays command + tariff.gains command answer)

theorem affords_more {tariff : Tariff σ} {left : α → Nat} {program : Program σ α} {purse more : Nat}
    (affords : program.Affords tariff left purse) (least : purse ≤ more) : program.Affords tariff left more := by
  induction program generalizing purse more with
  | done value => exact Nat.le_trans affords least
  | issue command resume ih =>
    refine ⟨Nat.le_trans affords.1 least,?_⟩
    intro answer
    exact ih answer (affords.2 answer) (by omega)

theorem affords_bind {tariff : Tariff σ} {middle : α → Nat} {left : β → Nat} {program : Program σ α}
    {next : α → Program σ β} {purse : Nat} (first : program.Affords tariff middle purse)
    (second : ∀ value, (next value).Affords tariff left (middle value)) :
    (program.bind next).Affords tariff left purse := by
  induction program generalizing purse with
  | done value => exact affords_more (second value) first
  | issue command resume ih => exact ⟨first.1,fun answer => ih answer (first.2 answer)⟩

/-- On any path at most so many of these commands. -/
def AtMost (counted : σ.Command → Bool) (most : Nat) (program : Program σ α) : Prop :=
  program.Affords ⟨fun command => if counted command then 1 else 0,fun _ _ => 0⟩ (fun _ => 0) most

end Program

private abbrev Purses (tariff : Tariff σ) : List (Program σ α) → List Nat → Prop :=
  List.Forall₂ fun program purse => program.Affords tariff (fun _ => 0) purse

private theorem purses_replaced {tariff : Tariff σ} {before after : List (Program σ α)} {agent : Program σ α}
    {purses : List Nat} (next : Program σ α) (afford : Purses tariff (before ++ agent :: after) purses) :
    ∃ purse rest, agent.Affords tariff (fun _ => 0) purse ∧ purses.sum = purse + rest ∧
      ∀ other, next.Affords tariff (fun _ => 0) other →
        ∃ purses', Purses tariff (before ++ next :: after) purses' ∧ purses'.sum = other + rest := by
  induction before generalizing purses with
  | nil =>
    cases afford with
    | cons own others =>
      next purse purses =>
      refine ⟨purse,purses.sum,own,List.sum_cons,?_⟩
      intro other affords
      exact ⟨other :: purses,.cons affords others,List.sum_cons⟩
  | cons first before ih =>
    cases afford with
    | cons own others =>
      next held purses =>
      obtain ⟨purse,rest,affords,total,replace⟩ := ih others
      refine ⟨purse,held + rest,affords,?_,?_⟩
      · rw [List.sum_cons,total]
        omega
      · intro other affords
        obtain ⟨purses',all,sum⟩ := replace other affords
        refine ⟨held :: purses',.cons own all,?_⟩
        rw [List.sum_cons,sum]
        omega

private theorem purses_entered {tariff : Tariff σ} {agents : List (Program σ α)} {purses : List Nat} {agent : Program σ α}
    (afford : Purses tariff agents purses) (own : agent.Affords tariff (fun _ => 0) 0) :
    Purses tariff (agents ++ [agent]) (purses ++ [0]) := by
  induction afford with
  | nil => exact .cons own .nil
  | cons head _ ih => exact .cons head ih

/-- The token rule: where every served command meters what it hands out against what it is paid, the measure of the
store never exceeds what it began with. -/
theorem callers_afford {serves : S → (command : σ.Command) → σ.Answer command → S → Prop}
    {enters : Program σ α → Prop} (tariff : Tariff σ) (measure : S → Nat) {start : S}
    (entered : ∀ program, enters program → program.Affords tariff (fun _ => 0) 0)
    (metered : ∀ world store' command answer, Reachable (callers serves enters) start world →
      serves world.store command answer store' →
      measure store' + tariff.gains command answer ≤ measure world.store + tariff.pays command)
    {world : World S (Program σ α)} (reached : Reachable (callers serves enters) start world) :
    measure world.store ≤ measure start := by
  have kept : ∃ purses, Purses tariff world.agents purses ∧ measure world.store + purses.sum ≤ measure start := by
    induction reached with
    | refl => exact ⟨[],.nil,Nat.le_of_eq (Nat.add_zero _)⟩
    | tail before step ih =>
      obtain ⟨purses,afford,bound⟩ := ih
      cases step with
      | enter store agents agent allowed =>
        refine ⟨purses ++ [0],purses_entered afford (entered agent allowed),?_⟩
        simpa using bound
      | move store left agent next right allowed => exact allowed.elim
      | issue store store' left agent right command resume answer waiting served =>
        have shape : agent = .issue command resume := by
          cases agent with
          | done value => cases waiting
          | issue asked continuation =>
            have same : (⟨asked,continuation⟩ : (command : σ.Command) × (σ.Answer command → Program σ α)) =
                ⟨command,resume⟩ := Option.some.inj waiting
            cases same
            rfl
        subst shape
        obtain ⟨purse,rest,own,total,replace⟩ := purses_replaced (resume answer) afford
        obtain ⟨purses',all,sum⟩ := replace _ (own.2 answer)
        refine ⟨purses',all,?_⟩
        have paid := own.1
        have metered := metered ⟨store,left ++ .issue command resume :: right⟩ store' command answer before served
        dsimp only at metered bound ⊢
        rw [sum]
        omega
  obtain ⟨purses,-,bound⟩ := kept
  omega

end PiDispatch.Kernel
