import PiDispatch.Kernel.Service
import PiDispatch.Kernel.Watch
import PiDispatch.RecoveryQueue
import PiDispatch.SteerFramesRuns

/-! Any number of enqueuers of one recovery, on any hosts, while claims lapse and any command may throw: at most one job
comes of it, and every call that says so has it on the queue. -/
namespace PiDispatch.RecoveryQueue
open Kernel

structure Store (numbers : Numbers) where
  clock : Instant
  claims : Dict Units Units
  jobs : Dict Key (Job numbers)
  pending : Dict Text Int

variable {numbers : Numbers}

section Service

/-- A set that finds its key leaves it. -/
def Store.setNX (store : Store numbers) (key host : Units) : Bool × Store numbers :=
  match store.claims.get? key with
  | some _ => (false,store)
  | none => (true,{ store with claims := store.claims.set key host })

/-- An add that finds its job leaves it. -/
def Store.add (store : Store numbers) (key : Key) (job : Job numbers) : Store numbers :=
  match store.jobs.get? key with
  | some _ => store
  | none => { store with jobs := store.jobs.set key job }

def Enqueue.answer (store : Store numbers) : (command : Enqueue numbers) → command.Reply × Store numbers
  | .now => (store.clock,store)
  | .setNX key host _ => (.ok (store.setNX key host).1,(store.setNX key host).2)
  | .getJob key => (.ok (store.jobs.get? key),store)
  | .add key job => (.ok (),store.add key job)
  | .zadd deadline member => (.ok (),{ store with pending := store.pending.set member deadline })
  | .del key => (.ok (),{ store with claims := store.claims.erase key })

theorem setNX_jobs (store : Store numbers) (key host : Units) : (store.setNX key host).2.jobs = store.jobs := by
  unfold Store.setNX
  split <;> rfl

theorem mem_add (store : Store numbers) (key other : Key) (job : Job numbers) :
    other ∈ (store.add key job).jobs.keys ↔ other ∈ store.jobs.keys ∨ other = key := by
  unfold Store.add
  split
  next held found =>
    have there : key ∈ store.jobs.keys := (Dict.get?_isSome_iff store.jobs key).mp (by rw [found]; rfl)
    constructor
    · exact .inl
    · rintro (old | rfl)
      · exact old
      · exact there
  next absent =>
    have missing : key ∉ store.jobs.keys := (Dict.get?_eq_none_iff store.jobs key).mp absent
    dsimp only
    rw [Dict.keys_set_absent store.jobs job missing,List.mem_append,List.mem_singleton]

/-- What a command answers that throws. -/
def Enqueue.thrown : (command : Enqueue numbers) → Option command.Reply
  | .now => none
  | .setNX _ _ _ | .getJob _ | .add _ _ | .zadd _ _ | .del _ => some (.error ())

/-- What may change between two commands: all but which jobs of this id there are. -/
def Tide (jobId : Units) (store next : Store numbers) : Prop :=
  ∀ key : Key, key.2 = jobId → (key ∈ next.jobs.keys ↔ key ∈ store.jobs.keys)

/-- A command answers, or throws without effect. -/
def EnqueueServed (jobId : Units) (store : Store numbers) (command : Enqueue numbers) (reply : command.Reply)
    (next : Store numbers) : Prop :=
  ∃ before, Tide jobId store before ∧
    ((reply,next) = command.answer before ∨ command.thrown = some reply ∧ next = before)

/-- Calls for any crashed jobs, those whose recovery has this id routed to this queue. -/
def Enqueues (jobId queue : Units) (call : Call numbers) : Prop :=
  ∃ job pointer, call = enqueueRecovery job pointer ∧
    ∀ plan, planned job pointer = .ok plan → plan.jobId = jobId → plan.queue = queue

def enqueuing (jobId queue : Units) : Agency (Enqueuing numbers) (Store numbers) (Watched (Enqueuing numbers) Answered) :=
  watched (EnqueueServed jobId) (Enqueues jobId queue)

end Service

section Conduct

/-- The recovery that an id is of, within the cap. -/
def Capped (jobId : Units) (n : Nat) : Prop := n ≤ RECOVERY_CAP ∧ ∃ runId, recoveryJobId runId n = some jobId

/-- A call is refused for one of the reasons before its claim, or is about a recovery within the cap. -/
def Sound : Except Reason (Plan numbers) → Prop
  | .error reason => reason ≠ .enqueueFailed
  | .ok plan => Capped plan.jobId plan.n

theorem planned_sound (job : Crashed numbers) (pointer : Option (Value numbers)) : Sound (planned job pointer) := by
  unfold planned
  split
  · exact nofun
  split
  · exact nofun
  split
  · exact nofun
  split
  · exact nofun
  dsimp only
  split
  · exact nofun
  next within =>
    split
    · exact nofun
    next route routed =>
      split
      · exact nofun
      next id named => exact ⟨Nat.le_of_not_lt within,_,named⟩

/-- An answer from which a call's own command is seen to have thrown before its job was known to be there. -/
def Threw (said : (command : Enqueue numbers) × command.Reply) : Prop :=
  match said with
  | ⟨.setNX _ _ _,.error _⟩ | ⟨.getJob _,.error _⟩ | ⟨.add _ _,.error _⟩ => True
  | _ => False

/-- An answer from which a job is seen to be there. -/
def Shows (key : Key) (said : (command : Enqueue numbers) × command.Reply) : Prop :=
  match said with
  | ⟨.add other _,.ok _⟩ | ⟨.getJob other,.ok (some _)⟩ => other = key
  | _ => False

/-- Only capped recoveries are added, this one to this queue. -/
def MayAdd (jobId queue : Units) (_ : Heard (Enqueuing numbers)) : Enqueue numbers → Prop
  | .add key _ => (key.2 = jobId → key.1 = queue) ∧ ∃ n, Capped key.2 n
  | _ => True

def Answers (answered : Answered) (heard : Heard (Enqueuing numbers)) : Prop :=
  match answered with
  | .enqueued jobId n queue => Capped jobId n ∧ ∃ said ∈ heard, Shows (queue,jobId) said
  | .refused .enqueueFailed => ∃ said ∈ heard, Threw said
  | .refused _ => True

variable {jobId queue : Units} {plan : Plan numbers} {heard : Heard (Enqueuing numbers)}

private theorem failing_conducts (claimed : Bool) (threw : ∃ said ∈ heard, Threw said) :
    (failing plan claimed).Conducts (MayAdd jobId queue) Answers heard := by
  unfold failing
  split
  · refine ⟨trivial,fun answer => ?_⟩
    obtain ⟨said,member,threw⟩ := threw
    exact ⟨said,List.mem_cons_of_mem _ member,threw⟩
  · exact threw

private theorem adding_conducts (claimed : Bool) (capped : Capped plan.jobId plan.n)
    (routed : plan.jobId = jobId → plan.queue = queue) :
    (adding plan claimed).Conducts (MayAdd jobId queue) Answers heard := by
  unfold adding
  refine ⟨trivial,fun now => ⟨⟨routed,plan.n,capped⟩,fun answer => ?_⟩⟩
  cases answer with
  | error fault => exact failing_conducts claimed ⟨_,List.mem_cons_self,trivial⟩
  | ok added =>
    refine ⟨trivial,fun _ => ⟨capped,_,List.mem_cons_of_mem _ List.mem_cons_self,?_⟩⟩
    rfl

theorem enqueueRecovery_conducts {call : Call numbers} (enters : Enqueues jobId queue call) :
    call.Conducts (MayAdd jobId queue) Answers [] := by
  obtain ⟨job,pointer,rfl,routed⟩ := enters
  unfold enqueueRecovery
  have sound := planned_sound job pointer
  cases passed : planned job pointer with
  | error reason =>
    rw [passed] at sound
    cases reason with
    | enqueueFailed => exact absurd rfl sound
    | noJob | notArmed | localKind | recoveryCap | pointerInvalid | jobIdRefused => trivial
  | ok plan =>
    rw [passed] at sound
    have routed := routed plan passed
    refine ⟨trivial,fun answer => ?_⟩
    match answer with
    | .error _ => exact failing_conducts false ⟨_,List.mem_cons_self,trivial⟩
    | .ok true => exact adding_conducts true sound routed
    | .ok false =>
      refine ⟨trivial,fun answer => ?_⟩
      match answer with
      | .error _ => exact failing_conducts false ⟨_,List.mem_cons_self,trivial⟩
      | .ok (some _) => exact ⟨sound,_,List.mem_cons_self,rfl⟩
      | .ok none => exact adding_conducts false sound routed

end Conduct

section Runs

variable {jobId queue : Units} {store next : Store numbers}

/-- The jobs of this id: all of them on this queue, and recoveries within the cap. -/
def Single (jobId queue : Units) (store : Store numbers) : Prop :=
  ∀ key ∈ store.jobs.keys, key.2 = jobId → key = (queue,jobId) ∧ ∃ n, Capped jobId n

/-- An answer that showed this recovery still shows it. -/
def Present (jobId : Units) (store : Store numbers) (command : Enqueue numbers) (reply : command.Reply) : Prop :=
  ∀ key : Key, key.2 = jobId → Shows key ⟨command,reply⟩ → key ∈ store.jobs.keys

/-- Of this id, a command brings no job but the recovery, and takes none. -/
private theorem answered_jobs {command : Enqueue numbers} {heard : Heard (Enqueuing numbers)} {reply : command.Reply}
    (may : MayAdd jobId queue heard command) (served : EnqueueServed jobId store command reply next) (key : Key)
    (own : key.2 = jobId) :
    (key ∈ store.jobs.keys → key ∈ next.jobs.keys) ∧
      (key ∈ next.jobs.keys → key ∈ store.jobs.keys ∨ key = (queue,jobId) ∧ ∃ n, Capped jobId n) := by
  obtain ⟨before,tide,answered | ⟨_,rfl⟩⟩ := served
  · rw [← tide key own]
    cases command with
    | add other job =>
      cases answered
      rw [mem_add]
      refine ⟨.inl,?_⟩
      rintro (old | rfl)
      · exact .inl old
      · obtain ⟨routed,n,capped⟩ := may
        rw [own] at capped
        exact .inr ⟨Prod.ext (routed own) own,n,capped⟩
    | setNX asked host life =>
      cases answered
      rw [setNX_jobs]
      exact ⟨id,.inl⟩
    | now | getJob | zadd | del =>
      cases answered
      exact ⟨id,.inl⟩
  · rw [tide key own]
    exact ⟨id,.inl⟩

private theorem answered_shows {command : Enqueue numbers} {reply : command.Reply}
    (served : EnqueueServed jobId store command reply next) : Present jobId next command reply := by
  intro key own shows
  obtain ⟨before,tide,answered | ⟨thrown,_⟩⟩ := served
  · cases command with
    | add other job =>
      cases answered
      have same : other = key := shows
      exact (mem_add before other key job).mpr (.inr same.symm)
    | getJob other =>
      cases answered
      cases found : next.jobs.get? other with
      | none =>
        rw [found] at shows
        exact shows.elim
      | some job =>
        rw [found] at shows
        have same : other = key := shows
        rw [← same]
        exact (Dict.get?_isSome_iff next.jobs other).mp (by rw [found]; rfl)
    | now | setNX | zadd | del => exact shows.elim
  · cases command with
    | now => cases thrown
    | setNX | getJob | add | zadd | del =>
      cases thrown
      exact shows.elim

/-- What every interleaving keeps. -/
private theorem enqueuing_kept {start : Store numbers} (fresh : ∀ key ∈ start.jobs.keys, key.2 ≠ jobId)
    {world : World (Store numbers) (Watched (Enqueuing numbers) Answered)}
    (reached : Reachable (enqueuing jobId queue) start world) :
    (Single jobId queue world.store ∧ Known (Present jobId) world.store (world.agents.map Watched.heard)) ∧
      ∀ agent ∈ world.agents, agent.program.Conducts (MayAdd jobId queue) Answers agent.heard ∧
        Lawful (MayAdd jobId queue) agent.heard := by
  refine watched_keep (fun store all => Single jobId queue store ∧ Known (Present jobId) store all)
    (fun _ enters => enqueueRecovery_conducts enters) ?_ ?_ ?_ reached
  · exact fun store all holds => ⟨holds.1,known_enter holds.2⟩
  · intro store store' before heard after command reply holds may served
    obtain ⟨single,known⟩ := holds
    refine ⟨?_,known_answered known ?_ (answered_shows served)⟩
    · intro key member own
      rcases (answered_jobs may served key own).2 member with old | new
      · exact single key old own
      · exact new
    · exact fun asked told shown key own shows => (answered_jobs may served key own).1 (shown key own shows)
  · exact ⟨fun key member own => absurd own (fresh key member),fun _ none => absurd none List.not_mem_nil⟩

/-- At most one job comes of a crash, its number within the cap; a call that answers that it is enqueued has it on its
queue, and a call answers that it failed only when one of its own commands threw. -/
theorem recovered_once {jobId queue : Units} {start : Store numbers} (fresh : ∀ key ∈ start.jobs.keys, key.2 ≠ jobId)
    {world : World (Store numbers) (Watched (Enqueuing numbers) Answered)}
    (reached : Reachable (enqueuing jobId queue) start world) :
    (world.store.jobs.keys.filter fun key => key.2 = jobId).length ≤ 1 ∧
    (∀ key ∈ world.store.jobs.keys, key.2 = jobId → ∃ n, Capped jobId n) ∧
    ∀ agent ∈ world.agents,
      (∀ n own, agent.program = .done (.enqueued jobId n own) →
        Capped jobId n ∧ own = queue ∧ (own,jobId) ∈ world.store.jobs.keys) ∧
      (agent.program = .done (.refused .enqueueFailed) → ∃ said ∈ agent.heard, Threw said) := by
  obtain ⟨⟨single,known⟩,conducts⟩ := enqueuing_kept fresh reached
  refine ⟨?_,?_,?_⟩
  · have distinct : (world.store.jobs.keys.filter fun key => key.2 = jobId).Nodup :=
      world.store.jobs.distinct.filter _
    have within : ∀ key ∈ world.store.jobs.keys.filter fun key => key.2 = jobId, key ∈ [(queue,jobId)] := by
      intro key member
      obtain ⟨member,own⟩ := List.mem_filter.mp member
      exact List.mem_singleton.mpr (single key member (of_decide_eq_true own)).1
    exact (List.subperm_of_subset distinct within).length_le
  · exact fun key member own => (single key member own).2
  · intro agent member
    obtain ⟨program,heard⟩ := agent
    have conducts := (conducts _ member).1
    refine ⟨?_,?_⟩
    · rintro n own rfl
      obtain ⟨capped,said,inside,shows⟩ := conducts
      have there := known heard (List.mem_map_of_mem member) said inside (own,jobId) rfl shows
      have shape := (single _ there rfl).1
      exact ⟨capped,congrArg Prod.fst shape,there⟩
    · rintro rfl
      exact conducts

end Runs

section Samples

/-- A run that was armed, and the pointer of a host without a queue of its own. -/
def crashedRun : Crashed SteerFrames.tokens where
  id := Utf16.spell "g"
  name := some (.string (Utf16.spell "f"))
  data := some (.object [(Utf16.spell "recover",.bool true)])
  timestamp := none

def hostPointer : Value SteerFrames.tokens := .object [(Utf16.spell "host",.string (Utf16.spell "h"))]

def recoveryCall : Call SteerFrames.tokens := enqueueRecovery crashedRun (some hostPointer)

def noJobs : Store SteerFrames.tokens := ⟨0,.empty,.empty,.empty⟩

/-- A claim whose set throws. -/
def setThrows (store : Store SteerFrames.tokens) (command : Enqueue SteerFrames.tokens) :
    command.Reply × Store SteerFrames.tokens :=
  match command with
  | .setNX _ _ _ => (.error (),store)
  | command => command.answer store

def recoveryId : Units := Utf16.spell "g.r1"

/-- One call's claim throws, and the other call makes the recovery. -/
def bothWays : World (Store SteerFrames.tokens) (Watched (Enqueuing SteerFrames.tokens) Answered) :=
  let agency := enqueuing recoveryId QUEUE
  agency.turns Enqueue.answer (agency.turn setThrows 0 ⟨noJobs,[⟨recoveryCall,[]⟩,⟨recoveryCall,[]⟩]⟩) [1,1,1,1]

private theorem tide_refl (jobId : Units) (store : Store numbers) : Tide jobId store store := fun _ _ => Iff.rfl

private theorem recoveryCall_enters : Enqueues recoveryId QUEUE recoveryCall := by
  refine ⟨crashedRun,some hostPointer,rfl,?_⟩
  intro plan passed _
  cases passed
  rfl

theorem bothWays_reached : Reachable (enqueuing recoveryId QUEUE) noJobs bothWays := by
  refine reachable_turns (enqueuing recoveryId QUEUE) Enqueue.answer ?_ _
    (reachable_turn (enqueuing recoveryId QUEUE) setThrows ?_ 0 (reachable_entered (enqueuing recoveryId QUEUE) noJobs _ ?_))
  · exact fun store command => ⟨store,tide_refl _ store,.inl rfl⟩
  · intro store command
    refine ⟨store,tide_refl _ store,?_⟩
    cases command with
    | setNX => exact .inr ⟨rfl,rfl⟩
    | now | getJob | add | zadd | del => exact .inl rfl
  · intro agent member
    have same : agent = ⟨recoveryCall,[]⟩ := by simpa using member
    rw [same]
    exact ⟨recoveryCall_enters,rfl⟩

private theorem bothWays_ends : bothWays.agents.map Watched.program =
    [.done (.refused .enqueueFailed),.done (.enqueued recoveryId 1 QUEUE)] := rfl

/-- A call whose own claim throws answers that it failed beside the recovery that another call made. -/
theorem recovered_beside_failure : ∃ world, Reachable (enqueuing recoveryId QUEUE) noJobs world ∧
    (∃ agent ∈ world.agents, agent.program = .done (.refused .enqueueFailed)) ∧
    ∃ agent ∈ world.agents, agent.program = .done (.enqueued recoveryId 1 QUEUE) := by
  refine ⟨bothWays,bothWays_reached,?_,?_⟩
  · exact List.mem_map.mp (by rw [bothWays_ends]; simp)
  · exact List.mem_map.mp (by rw [bothWays_ends]; simp)

theorem recovered_once_beside_failure :
    (bothWays.store.jobs.keys.filter fun key => key.2 = recoveryId).length ≤ 1 :=
  (recovered_once (by exact fun _ none => absurd none List.not_mem_nil) bothWays_reached).1

end Samples

end PiDispatch.RecoveryQueue
