import PiDispatch.Kernel.Program

/-! Agents with what each has heard: the commands it issued and their answers, latest first. Conduct is what a program
may issue after what it has heard, and what it has heard when it returns. An invariant of a store may then speak of what
every agent knows. -/
namespace PiDispatch.Kernel

variable {σ : Signature} {S α β : Type}

/-- What an agent was answered, latest first. -/
abbrev Heard (σ : Signature) := List ((command : σ.Command) × σ.Answer command)

namespace Program

/-- Whatever it is answered, the program issues what it may after what it has heard, and returns what `post` says. -/
def Conducts (may : Heard σ → σ.Command → Prop) (post : α → Heard σ → Prop) : Program σ α → Heard σ → Prop
  | .done value,heard => post value heard
  | .issue command resume,heard => may heard command ∧
      ∀ answer, (resume answer).Conducts may post (⟨command,answer⟩ :: heard)

theorem conducts_weaken {may : Heard σ → σ.Command → Prop} {post wider : α → Heard σ → Prop}
    (wide : ∀ value heard, post value heard → wider value heard) {program : Program σ α} {heard : Heard σ}
    (conducts : program.Conducts may post heard) : program.Conducts may wider heard := by
  induction program generalizing heard with
  | done value => exact wide value heard conducts
  | issue command resume ih => exact ⟨conducts.1,fun answer => ih answer (conducts.2 answer)⟩

theorem conducts_bind {may : Heard σ → σ.Command → Prop} {middle : α → Heard σ → Prop} {post : β → Heard σ → Prop}
    {program : Program σ α} {next : α → Program σ β} {heard : Heard σ} (first : program.Conducts may middle heard)
    (second : ∀ value heard, middle value heard → (next value).Conducts may post heard) :
    (program.bind next).Conducts may post heard := by
  induction program generalizing heard with
  | done value => exact second value heard first
  | issue command resume ih => exact ⟨first.1,fun answer => ih answer (first.2 answer)⟩

end Program

/-- Every command heard of was one that the agent might issue. -/
def Lawful (may : Heard σ → σ.Command → Prop) : Heard σ → Prop
  | [] => True
  | said :: heard => may heard said.1 ∧ Lawful may heard

theorem lawful_at {may : Heard σ → σ.Command → Prop} {later earlier : Heard σ} {command : σ.Command}
    {answer : σ.Answer command} (lawful : Lawful may (later ++ ⟨command,answer⟩ :: earlier)) : may earlier command := by
  induction later with
  | nil => exact lawful.1
  | cons said later ih => exact ih lawful.2

structure Watched (σ : Signature) (α : Type) where
  program : Program σ α
  heard : Heard σ

def Watched.pending : Watched σ α → Option ((command : σ.Command) × (σ.Answer command → Watched σ α))
  | ⟨.done _,_⟩ => none
  | ⟨.issue command resume,heard⟩ => some ⟨command,fun answer => ⟨resume answer,⟨command,answer⟩ :: heard⟩⟩

/-- Programs that enter a store, each with what it hears. -/
def watched (serves : S → (command : σ.Command) → σ.Answer command → S → Prop) (enters : Program σ α → Prop) :
    Agency σ S (Watched σ α) where
  serves := serves
  pending := Watched.pending
  enters agent := enters agent.program ∧ agent.heard = []
  moves _ _ := False

theorem pending_shape {agent : Watched σ α} {command : σ.Command} {resume : σ.Answer command → Watched σ α}
    (waiting : agent.pending = some ⟨command,resume⟩) :
    ∃ next, agent.program = .issue command next ∧
      ∀ answer, resume answer = ⟨next answer,⟨command,answer⟩ :: agent.heard⟩ := by
  obtain ⟨program,heard⟩ := agent
  cases program with
  | done value => cases waiting
  | issue asked next =>
    cases Option.some.inj waiting
    exact ⟨next,rfl,fun _ => rfl⟩

section Rule

variable {serves : S → (command : σ.Command) → σ.Answer command → S → Prop} {enters : Program σ α → Prop}
  {may : Heard σ → σ.Command → Prop} {post : α → Heard σ → Prop}

/-- The rule of conduct: what every answer keeps of the store and of what the agents have heard holds in every
interleaving, and every agent conducts itself. -/
theorem watched_keep (Invariant : S → List (Heard σ) → Prop)
    (entered : ∀ program, enters program → program.Conducts may post [])
    (enter : ∀ store all, Invariant store all → Invariant store (all ++ [[]]))
    (answered : ∀ store store' before heard after command answer, Invariant store (before ++ heard :: after) →
      may heard command → serves store command answer store' →
      Invariant store' (before ++ (⟨command,answer⟩ :: heard) :: after))
    {start : S} (initial : Invariant start []) {world : World S (Watched σ α)}
    (reached : Reachable (watched serves enters) start world) :
    Invariant world.store (world.agents.map Watched.heard) ∧
      ∀ agent ∈ world.agents, agent.program.Conducts may post agent.heard ∧ Lawful may agent.heard := by
  induction reached with
  | refl => exact ⟨initial,fun _ none => absurd none List.not_mem_nil⟩
  | tail _ step ih =>
    obtain ⟨holds,keeping⟩ := ih
    cases step with
    | enter store agents agent allowed =>
      obtain ⟨program,heard⟩ := agent
      obtain ⟨allowed,fresh⟩ := allowed
      have fresh : heard = [] := fresh
      subst fresh
      refine ⟨?_,?_⟩
      · rw [List.map_append]
        exact enter store _ holds
      · intro other member
        rcases List.mem_append.mp member with old | new
        · exact keeping other old
        · rw [List.mem_singleton.mp new]
          exact ⟨entered program allowed,trivial⟩
    | move store before agent next after allowed => exact allowed.elim
    | issue store store' before agent after command resume answer waiting served =>
      obtain ⟨next,shape,resumes⟩ := pending_shape waiting
      obtain ⟨conducts,lawful⟩ := keeping agent (by simp)
      rw [shape] at conducts
      refine ⟨?_,?_⟩
      · rw [List.map_append,List.map_cons] at holds ⊢
        rw [resumes answer]
        exact answered store store' _ _ _ command answer holds conducts.1 served
      · intro other member
        rcases List.mem_append.mp member with old | later
        · exact keeping other (List.mem_append_left _ old)
        · rcases List.mem_cons.mp later with rfl | later
          · rw [resumes answer]
            exact ⟨conducts.2 answer,conducts.1,lawful⟩
          · exact keeping other (by simp [later])

end Rule

section Facts

variable (fact : S → (command : σ.Command) → σ.Answer command → Prop)

/-- Every answer that an agent heard says something that is still so. -/
def Known (store : S) (all : List (Heard σ)) : Prop := ∀ heard ∈ all, ∀ said ∈ heard, fact store said.1 said.2

variable {fact}

theorem known_enter {store : S} {all : List (Heard σ)} (known : Known fact store all) : Known fact store (all ++ [[]]) := by
  intro heard member
  rcases List.mem_append.mp member with old | new
  · exact known heard old
  · rw [List.mem_singleton.mp new]
    exact fun said none => absurd none List.not_mem_nil

theorem known_answered {store store' : S} {before after : List (Heard σ)} {heard : Heard σ} {command : σ.Command}
    {answer : σ.Answer command} (known : Known fact store (before ++ heard :: after))
    (lasting : ∀ asked told, fact store asked told → fact store' asked told) (fresh : fact store' command answer) :
    Known fact store' (before ++ (⟨command,answer⟩ :: heard) :: after) := by
  intro other member said inside
  rcases List.mem_append.mp member with old | later
  · exact lasting _ _ (known other (List.mem_append_left _ old) said inside)
  · rcases List.mem_cons.mp later with rfl | later
    · rcases List.mem_cons.mp inside with rfl | inside
      · exact fresh
      · exact lasting _ _ (known heard (by simp) said inside)
    · exact lasting _ _ (known other (by simp [later]) said inside)

end Facts

end PiDispatch.Kernel
