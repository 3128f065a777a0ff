import PiDispatch.Kernel.Program

/-! Contracts of programs: what a program may ask for, given what it may be told. Programs that keep a contract,
run side by side on a store whose service keeps it too, preserve the store's invariant in every interleaving. -/
namespace PiDispatch.Kernel

structure Contract (σ : Signature) where
  asks : σ.Command → Prop
  told : (command : σ.Command) → σ.Answer command → Prop

namespace Program

variable {σ : Signature} {α β ε : Type}

/-- Whatever it is told within the contract, the program asks within it and returns what `post` says. -/
def Keeps (contract : Contract σ) (post : α → Prop) : Program σ α → Prop
  | .done value => post value
  | .issue command resume => contract.asks command ∧
      ∀ answer, contract.told command answer → (resume answer).Keeps contract post

theorem keeps_bind {contract : Contract σ} {middle : α → Prop} {post : β → Prop} {program : Program σ α}
    {next : α → Program σ β} (first : program.Keeps contract middle)
    (second : ∀ value, middle value → (next value).Keeps contract post) : (program.bind next).Keeps contract post := by
  induction program with
  | done value => exact second value first
  | issue command resume ih => exact ⟨first.1,fun answer told => ih answer (first.2 answer told)⟩

/-- A program that may throw, and what comes after it when it does not. -/
def andThen (program : Program σ (Except ε α)) (next : α → Program σ (Except ε β)) : Program σ (Except ε β) :=
  program.bind fun
    | .ok value => next value
    | .error thrown => .done (.error thrown)

/-- What a program that may throw returns, and what it throws. -/
def Ends (good : α → Prop) (bad : ε → Prop) : Except ε α → Prop
  | .ok value => good value
  | .error thrown => bad thrown

theorem keeps_andThen {contract : Contract σ} {middle : α → Prop} {post : β → Prop} {bad : ε → Prop}
    {program : Program σ (Except ε α)} {next : α → Program σ (Except ε β)}
    (first : program.Keeps contract (Ends middle bad))
    (second : ∀ value, middle value → (next value).Keeps contract (Ends post bad)) :
    (program.andThen next).Keeps contract (Ends post bad) := by
  refine keeps_bind first ?_
  intro result ended
  cases result with
  | ok value => exact second value ended
  | error thrown => exact ended

end Program

variable {σ : Signature} {S α : Type}

/-- Programs that enter a store and run to their ends. -/
def callers (serves : S → (command : σ.Command) → σ.Answer command → S → Prop) (enters : Program σ α → Prop) :
    Agency σ S (Program σ α) where
  serves := serves
  pending := Program.pending
  enters := enters
  moves := fun _ _ => False

/-- The contract rule. `final` is what the end of the run is known to hold and every earlier store held too, so that
a contract may tell programs of what the end remembers. -/
theorem callers_keep {serves : S → (command : σ.Command) → σ.Answer command → S → Prop}
    {enters : Program σ α → Prop} (contract : Contract σ) (post : α → Prop) (invariant final : S → Prop)
    (earlier : ∀ store command answer store', serves store command answer store' → final store' → final store)
    (entered : ∀ program, enters program → program.Keeps contract post)
    (kept : ∀ store command answer store', final store' → invariant store → contract.asks command →
      serves store command answer store' → invariant store' ∧ contract.told command answer)
    {start : S} (initial : invariant start) {world : World S (Program σ α)}
    (reached : Reachable (callers serves enters) start world) (ends : final world.store) :
    invariant world.store ∧ ∀ program ∈ world.agents, program.Keeps contract post := by
  induction reached with
  | refl => exact ⟨initial,fun program member => absurd member List.not_mem_nil⟩
  | tail _ step ih =>
    cases step with
    | enter store agents agent allowed =>
      obtain ⟨holds,keeping⟩ := ih ends
      refine ⟨holds,?_⟩
      intro program member
      rcases List.mem_append.mp member with old | new
      · exact keeping program old
      · rw [List.mem_singleton.mp new]
        exact entered agent allowed
    | move store before agent next after allowed => exact allowed.elim
    | issue store store' before agent after command resume answer waiting served =>
      obtain ⟨holds,keeping⟩ := ih (earlier store command answer store' served ends)
      have own := keeping agent (by simp)
      have shape : agent = .issue command resume := by
        cases agent with
        | done value => cases waiting
        | issue asked continuation =>
          have same : (⟨asked,continuation⟩ : (command : σ.Command) × (σ.Answer command → Program σ α)) =
              ⟨command,resume⟩ := Option.some.inj waiting
          cases same
          rfl
      rw [shape] at own
      obtain ⟨holds',told⟩ := kept store command answer store' ends holds own.1 served
      refine ⟨holds',?_⟩
      intro program member
      rcases List.mem_append.mp member with old | later
      · exact keeping program (List.mem_append_left _ old)
      · rcases List.mem_cons.mp later with rfl | later
        · exact own.2 answer told
        · exact keeping program (by simp [later])

end PiDispatch.Kernel
