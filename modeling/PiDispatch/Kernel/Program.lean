import Mathlib.Data.List.Induction
import Mathlib.Logic.Relation

/-! Programs that issue one command at a time, and worlds in which any number of agents interleave.
A program is data: the command it waits on and what it does with the answer. The atomic unit of an
interleaving is one answered command, so nothing here depends on what the commands are. -/
namespace PiDispatch.Kernel

structure Signature where
  Command : Type
  Answer : Command → Type

inductive Program (σ : Signature) (α : Type) : Type
  | done (value : α)
  | issue (command : σ.Command) (resume : σ.Answer command → Program σ α)

namespace Program
variable {σ : Signature} {α β γ : Type}

def bind : Program σ α → (α → Program σ β) → Program σ β
  | .done value, next => next value
  | .issue command resume, next => .issue command fun answer => (resume answer).bind next

@[simp] theorem bind_done (value : α) (next : α → Program σ β) : (done value).bind next = next value := rfl

@[simp] theorem bind_issue (command : σ.Command) (resume : σ.Answer command → Program σ α)
    (next : α → Program σ β) :
    (issue command resume).bind next = issue command fun answer => (resume answer).bind next := rfl

theorem bind_assoc (program : Program σ α) (next : α → Program σ β) (last : β → Program σ γ) :
    (program.bind next).bind last = program.bind fun value => (next value).bind last := by
  induction program with
  | done value => rfl
  | issue command resume ih =>
    simp only [bind_issue]
    congr 1
    funext answer
    exact ih answer

/-- The command a program waits on, with its continuation; none once it has returned. -/
def pending : Program σ α → Option ((command : σ.Command) × (σ.Answer command → Program σ α))
  | .done _ => none
  | .issue command resume => some ⟨command,resume⟩

/-- What a program can return when its commands may get any answers. -/
inductive Returns : Program σ α → α → Prop
  | done (value : α) : Returns (.done value) value
  | answered (command : σ.Command) (resume : σ.Answer command → Program σ α) (answer : σ.Answer command)
      (value : α) (rest : Returns (resume answer) value) : Returns (.issue command resume) value

theorem returns_done (value result : α) (returned : Returns (done value : Program σ α) result) : result = value := by
  cases returned
  rfl

theorem returns_issue {command : σ.Command} {resume : σ.Answer command → Program σ α} {result : α}
    (returned : Returns (issue command resume) result) : ∃ answer, Returns (resume answer) result := by
  cases returned with
  | answered _ _ answer _ rest => exact ⟨answer,rest⟩

theorem returns_bind (program : Program σ α) (next : α → Program σ β) (result : β)
    (returned : Returns (program.bind next) result) : ∃ value, Returns program value ∧ Returns (next value) result := by
  induction program with
  | done value => exact ⟨value,.done value,returned⟩
  | issue command resume ih =>
    obtain ⟨answer,rest⟩ := returns_issue returned
    obtain ⟨value,first,second⟩ := ih answer rest
    exact ⟨value,.answered command resume answer value first,second⟩

/-- A program run alone, each command answered at once. -/
def run {S : Type} (answer : S → (command : σ.Command) → σ.Answer command × S) : Program σ α → S → α × S
  | .done value, store => (value,store)
  | .issue command resume, store =>
    (resume (answer store command).1).run answer (answer store command).2

theorem run_bind {S : Type} (answer : S → (command : σ.Command) → σ.Answer command × S) (program : Program σ α)
    (next : α → Program σ β) (store : S) :
    (program.bind next).run answer store = (next (program.run answer store).1).run answer (program.run answer store).2 := by
  induction program generalizing store with
  | done value => rfl
  | issue command resume ih => exact ih _ _

theorem returns_run {S : Type} (answer : S → (command : σ.Command) → σ.Answer command × S) (program : Program σ α)
    (store : S) : Returns program (program.run answer store).1 := by
  induction program generalizing store with
  | done value => exact .done value
  | issue command resume ih => exact .answered command resume _ _ (ih _ _)

end Program

structure World (S A : Type) where
  store : S
  agents : List A

/-- How agents of type `A` live on a store `S`: which answer and next store a command may get, what an
agent waits on, who may enter, and what an agent may decide between two of its calls. -/
structure Agency (σ : Signature) (S A : Type) where
  serves : S → (command : σ.Command) → σ.Answer command → S → Prop
  pending : A → Option ((command : σ.Command) × (σ.Answer command → A))
  enters : A → Prop
  moves : A → A → Prop

variable {σ : Signature} {S A P : Type}

inductive Step (agency : Agency σ S A) : World S A → World S A → Prop
  | enter (store agents agent) (allowed : agency.enters agent) :
      Step agency ⟨store,agents⟩ ⟨store,agents ++ [agent]⟩
  | move (store before agent next after) (allowed : agency.moves agent next) :
      Step agency ⟨store,before ++ agent :: after⟩ ⟨store,before ++ next :: after⟩
  | issue (store store' before agent after command resume answer)
      (waiting : agency.pending agent = some ⟨command,resume⟩)
      (served : agency.serves store command answer store') :
      Step agency ⟨store,before ++ agent :: after⟩ ⟨store',before ++ resume answer :: after⟩

def Reachable (agency : Agency σ S A) (start : S) (world : World S A) : Prop :=
  Relation.ReflTransGen (Step agency) ⟨start,[]⟩ world

/-- The invariant rule over program points: a point `p` stands for the agent `view p`, so an invariant
may speak of how far each agent has come, which the agent's own continuation does not show. -/
theorem reachable_points (agency : Agency σ S A) (view : P → A) (Invariant : S → List P → Prop)
    (start : S) (initial : Invariant start [])
    (enter : ∀ store points agent, Invariant store points → agency.enters agent →
      ∃ point, view point = agent ∧ Invariant store (points ++ [point]))
    (move : ∀ store before point after next, Invariant store (before ++ point :: after) →
      agency.moves (view point) next →
      ∃ point', view point' = next ∧ Invariant store (before ++ point' :: after))
    (issue : ∀ store store' before point after command resume answer,
      Invariant store (before ++ point :: after) →
      agency.pending (view point) = some ⟨command,resume⟩ →
      agency.serves store command answer store' →
      ∃ point', view point' = resume answer ∧ Invariant store' (before ++ point' :: after))
    (world : World S A) (reached : Reachable agency start world) :
    ∃ points, world.agents = points.map view ∧ Invariant world.store points := by
  induction reached with
  | refl => exact ⟨[],rfl,initial⟩
  | tail _ step ih =>
    obtain ⟨points,shape,holds⟩ := ih
    cases step with
    | enter store agents agent allowed =>
      obtain ⟨point,same,kept⟩ := enter store points agent holds allowed
      have shape : agents = points.map view := shape
      exact ⟨points ++ [point],by simp [shape,same],kept⟩
    | move store before agent next after allowed =>
      obtain ⟨left,right,rfl,leftShape,rightShape⟩ := List.map_eq_append_iff.mp shape.symm
      obtain ⟨point,rest,rfl,rfl,rfl⟩ := List.map_eq_cons_iff.mp rightShape
      obtain ⟨point',same,kept⟩ := move store left point rest next holds allowed
      exact ⟨left ++ point' :: rest,by simp [leftShape,same],kept⟩
    | issue store store' before agent after command resume answer waiting served =>
      obtain ⟨left,right,rfl,leftShape,rightShape⟩ := List.map_eq_append_iff.mp shape.symm
      obtain ⟨point,rest,rfl,rfl,rfl⟩ := List.map_eq_cons_iff.mp rightShape
      obtain ⟨point',same,kept⟩ :=
        issue store store' left point rest command resume answer holds waiting served
      exact ⟨left ++ point' :: rest,by simp [leftShape,same],kept⟩

/-- What every served command keeps of the store holds in every reachable world. -/
theorem store_invariant (agency : Agency σ S A) (invariant : S → Prop)
    (kept : ∀ store command answer store', invariant store → agency.serves store command answer store' → invariant store')
    {start : S} (initial : invariant start) {world : World S A} (reached : Reachable agency start world) :
    invariant world.store := by
  induction reached with
  | refl => exact initial
  | tail _ step ih =>
    cases step with
    | enter => exact ih
    | move => exact ih
    | issue store store' _ _ _ command _ answer _ served => exact kept store command answer store' ih served

/-- The next command of one agent, where each command has a single answer: worlds that can be computed. -/
def Agency.turn (agency : Agency σ S A) (answer : S → (command : σ.Command) → σ.Answer command × S) (index : Nat)
    (world : World S A) : World S A :=
  match world.agents[index]? with
  | none => world
  | some agent =>
    match agency.pending agent with
    | none => world
    | some ⟨command,resume⟩ =>
      let (reply,store) := answer world.store command
      ⟨store,world.agents.set index (resume reply)⟩

private theorem set_split (agents : List A) (index : Nat) (agent next : A) (found : agents[index]? = some agent) :
    agents = agents.take index ++ agent :: agents.drop (index + 1) ∧
      agents.set index next = agents.take index ++ next :: agents.drop (index + 1) := by
  obtain ⟨inside,rfl⟩ := List.getElem?_eq_some_iff.mp found
  constructor
  · simp
  · rw [List.set_eq_take_append_cons_drop,if_pos inside]

theorem reachable_turn_of (agency : Agency σ S A) (answer : S → (command : σ.Command) → σ.Answer command × S)
    (index : Nat) {start : S} {world : World S A}
    (serves : ∀ agent ∈ world.agents[index]?, ∀ call ∈ agency.pending agent,
      agency.serves world.store call.1 (answer world.store call.1).1 (answer world.store call.1).2)
    (reached : Reachable agency start world) : Reachable agency start (agency.turn answer index world) := by
  unfold Agency.turn
  split
  · exact reached
  next agent found =>
    split
    · exact reached
    next command resume waiting =>
      obtain ⟨store,agents⟩ := world
      obtain ⟨split,next⟩ := set_split agents index agent (resume (answer store command).1) found
      have step := Step.issue store _ (agents.take index) agent (agents.drop (index + 1)) command resume _ waiting
        (serves agent found ⟨command,resume⟩ waiting)
      rw [← split,← next] at step
      exact reached.tail step

theorem reachable_turn (agency : Agency σ S A) (answer : S → (command : σ.Command) → σ.Answer command × S)
    (serves : ∀ store command, agency.serves store command (answer store command).1 (answer store command).2)
    (index : Nat) {start : S} {world : World S A} (reached : Reachable agency start world) :
    Reachable agency start (agency.turn answer index world) :=
  reachable_turn_of agency answer index (fun _ _ call _ => serves world.store call.1) reached

/-- What an agent decides between two calls. -/
def World.become (world : World S A) (index : Nat) (next : A) : World S A :=
  ⟨world.store,world.agents.set index next⟩

theorem reachable_become (agency : Agency σ S A) (index : Nat) {start : S} {world : World S A} (agent next : A)
    (found : world.agents[index]? = some agent) (allowed : agency.moves agent next)
    (reached : Reachable agency start world) : Reachable agency start (world.become index next) := by
  obtain ⟨store,agents⟩ := world
  obtain ⟨split,joined⟩ := set_split agents index agent next found
  have step : Step agency _ _ :=
    .move store (agents.take index) agent next (agents.drop (index + 1)) allowed
  rw [← split,← joined] at step
  exact reached.tail step

theorem reachable_enter (agency : Agency σ S A) {start : S} {world : World S A} (agent : A)
    (allowed : agency.enters agent) (reached : Reachable agency start world) :
    Reachable agency start ⟨world.store,world.agents ++ [agent]⟩ :=
  reached.tail (.enter world.store world.agents agent allowed)

/-- Agents that have entered and not begun. -/
theorem reachable_entered (agency : Agency σ S A) (start : S) (agents : List A)
    (allowed : ∀ agent ∈ agents, agency.enters agent) : Reachable agency start ⟨start,agents⟩ := by
  induction agents using List.reverseRecOn with
  | nil => exact .refl
  | append_singleton agents agent ih =>
    have before := ih fun other member => allowed other (List.mem_append_left _ member)
    exact reachable_enter agency agent (allowed agent (by simp)) before

end PiDispatch.Kernel
