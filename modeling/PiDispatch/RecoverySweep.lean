import PiDispatch.Kernel.Watch
import PiDispatch.RecoveryEnqueueRuns

/-! The sweep for lost hosts beside anything that may happen to the jobs, and what a sweep does with a member it claimed:
it puts the member back, or it knows that the job's wait is over, or it takes the job and tells its run. -/
namespace PiDispatch.RecoveryQueue
open Kernel

/-- The store, with the jobs whose wait is over, those that sweeps removed, each in the state it was in, and those that
`onLost` was called for. -/
structure Fleet (numbers : Numbers) extends Store numbers where
  past : List Key
  removed : List (Key × JobState)
  lost : List Key

variable {numbers : Numbers}

section Service

def Fleet.stateAt (fleet : Fleet numbers) (key : Key) : JobState :=
  match fleet.jobs.get? key with
  | some job => job.state
  | none => .unknown

def byDeadline (first second : Text × Int) : Bool :=
  first.2 < second.2 || first.2 = second.2 && decide (first.1 ≤ second.1)

/-- `ZRANGEBYSCORE … -inf until LIMIT 0 limit`. -/
def Fleet.due (fleet : Fleet numbers) (until' : Instant) (limit : Nat) : List (Text × Int) :=
  ((fleet.pending.entries.filter fun entry => entry.2 ≤ (until' : Int)).insertionSort fun first second => byDeadline first second).take limit

def Fleet.put (fleet : Fleet numbers) (deadline : Int) (member : Text) : Fleet numbers :=
  { fleet with pending := fleet.pending.set member deadline }

def Fleet.drop (fleet : Fleet numbers) (member : Text) : Fleet numbers :=
  { fleet with pending := fleet.pending.erase member }

def Fleet.without (fleet : Fleet numbers) (key : Key) : Fleet numbers :=
  { fleet with
    jobs := fleet.jobs.erase key
    past := key :: fleet.past
    removed := (key,fleet.stateAt key) :: fleet.removed }

/-- What a command may be answered. A job is removed wherever it is but when a worker holds it, and a command that throws
may have had its effect, a claim excepted; a put-back succeeds. -/
def Sweep.Replied (fleet : Fleet numbers) : (command : Sweep numbers) → command.Reply → Fleet numbers → Prop
  | .now,reply,next => reply = fleet.clock ∧ next = fleet
  | .zrangebyscore until' limit,reply,next => (reply = .ok (fleet.due until' limit) ∨ reply = .error ()) ∧ next = fleet
  | .zrem member,reply,next =>
    reply = .ok (decide (member ∈ fleet.pending.keys)) ∧ next = fleet.drop member ∨ reply = .error () ∧ next = fleet
  | .getJob key,reply,next => (reply = .ok (fleet.jobs.get? key) ∨ reply = .error ()) ∧ next = fleet
  | .getState key,reply,next => (reply = .ok (fleet.stateAt key) ∨ reply = .error ()) ∧ next = fleet
  | .isPaused _,_,next | .liveHosts,_,next | .dropModelAttempt _,_,next => next = fleet
  | .zadd deadline member,reply,next =>
    reply = .ok () ∧ next = fleet.put deadline member ∨
      reply = .error () ∧ (next = fleet ∨ next = fleet.put deadline member)
  | .putBack deadline member,_,next => next = fleet.put deadline member
  | .remove key,reply,next =>
    fleet.stateAt key ≠ .active ∧ next = fleet.without key ∨ reply = .error () ∧ next = fleet
  | .onLost key _,_,next => next = { fleet with lost := key :: fleet.lost }

/-- A remove finds the job where it still waits, or held by a worker; and where it took effect it says so. -/
def Careful (fleet : Fleet numbers) : (command : Sweep numbers) → command.Reply → Fleet numbers → Prop
  | .remove key,reply,next =>
    (fleet.stateAt key ∈ NOT_STARTED_STATES ∨ fleet.stateAt key = .active) ∧ (reply = .error () → next = fleet)
  | _,_,_ => True

variable (given : Text → Int → Prop)

/-- A deadline is within the hard maximum, or one that an enqueuer gave. -/
def Fits (member : Text) (pending : Pending) (deadline : Int) : Prop := deadline ≤ pending.hard ∨ given member deadline

/-- A job that no longer waits is known for it, and a member stands for a job that is there or whose wait is over. -/
structure Orderly (fleet : Fleet numbers) : Prop where
  begun : ∀ key job, fleet.jobs.get? key = some job → job.state ∉ NOT_STARTED_STATES → key ∈ fleet.past
  named : ∀ member ∈ fleet.pending.keys, ∀ pending, parsePendingMember numbers member = some pending →
    pending.key ∈ fleet.jobs.keys ∨ pending.key ∈ fleet.past
  deadlines : ∀ member deadline, fleet.pending.get? member = some deadline →
    ∀ pending, parsePendingMember numbers member = some pending → Fits given member pending deadline

/-- What may happen between two commands: jobs start, move, finish, vanish and are added, but none comes back; members
are added with deadlines of their own. -/
structure Drift (fleet next : Fleet numbers) : Prop where
  orderly : Orderly given fleet → Orderly given next
  removed : next.removed = fleet.removed
  lost : next.lost = fleet.lost
  past : ∀ key ∈ fleet.past, key ∈ next.past
  left : ∀ key ∈ fleet.jobs.keys, key ∈ next.jobs.keys ∨ key ∈ next.past
  gone : ∀ key ∈ fleet.past, key ∉ fleet.jobs.keys → key ∉ next.jobs.keys
  members : ∀ member ∈ fleet.pending.keys, member ∈ next.pending.keys

variable (allowed : Fleet numbers → (command : Sweep numbers) → command.Reply → Fleet numbers → Prop)

def SweepServed (fleet : Fleet numbers) (command : Sweep numbers) (reply : command.Reply) (next : Fleet numbers) : Prop :=
  ∃ before, Drift given fleet before ∧ command.Replied before reply next ∧ allowed before command reply next

/-- Sweeps on any hosts. -/
def sweeping : Agency (Sweeping numbers) (Fleet numbers) (Watched (Sweeping numbers) Swept) :=
  watched (SweepServed given allowed) (· = sweepHostLost)

end Service

section Log

variable (numbers)

abbrev Log := Heard (Sweeping numbers)

variable {numbers}

def ReadAt (log : Log numbers) (member : Text) (deadline : Int) : Prop :=
  ∃ until' limit due, (⟨.zrangebyscore until' limit,.ok due⟩ : (command : Sweep numbers) × command.Reply) ∈ log ∧
    (member,deadline) ∈ due

/-- The sweep read the member as due. -/
def Read (log : Log numbers) (member : Text) : Prop := ∃ deadline, ReadAt log member deadline

/-- The sweep read a member of the job as due. -/
def ReadJob (log : Log numbers) (key : Key) : Prop :=
  ∃ member pending, Read log member ∧ parsePendingMember numbers member = some pending ∧ pending.key = key

/-- The member that the sweep claimed last, unless it gave it back. -/
def taken : Log numbers → Option Text
  | [] => none
  | ⟨.zrem member,.ok true⟩ :: _ => some member
  | ⟨.zadd _ _,.ok _⟩ :: _ | ⟨.putBack _ _,_⟩ :: _ => none
  | _ :: log => taken log

/-- What the sweep has heard since it last asked for a member. -/
def sinceClaim : Log numbers → Log numbers
  | [] => []
  | ⟨.zrem _,_⟩ :: _ => []
  | said :: log => said :: sinceClaim log

/-- The removals of a job that `onLost` was not called for yet. -/
def owed (key : Key) : Log numbers → Int
  | [] => 0
  | ⟨.remove other,.ok _⟩ :: log => owed key log + if other = key then 1 else 0
  | ⟨.onLost other _,_⟩ :: log => owed key log - if other = key then 1 else 0
  | _ :: log => owed key log

/-- An answer from which a job's wait is seen to be over. -/
def Over (key : Key) (said : (command : Sweep numbers) × command.Reply) : Prop :=
  match said with
  | ⟨.getJob other,.ok none⟩ | ⟨.remove other,.ok _⟩ => other = key
  | ⟨.getState other,.ok state⟩ => other = key ∧ state ∉ NOT_STARTED_STATES
  | _ => False

/-- No member is left in the sweep's hands, and no run untold. -/
structure Settled (log : Log numbers) : Prop where
  ended : ∀ member pending, taken log = some member → parsePendingMember numbers member = some pending →
    ∃ said ∈ log, Over pending.key said
  told : ∀ key, owed key log = 0

/-- What the sweep must have heard of a claimed member before it takes its job: that its longest wait is over, or that
its queue is not reported paused and its host absent from a readable registry. -/
def Warrant (pending : Pending) (log : Log numbers) : Prop :=
  (∃ now : Instant, (⟨.now,now⟩ : (command : Sweep numbers) × command.Reply) ∈ sinceClaim log ∧ pending.hard ≤ now) ∨
  (∃ paused : Except Unit Bool,
    (⟨.isPaused pending.queue,paused⟩ : (command : Sweep numbers) × command.Reply) ∈ sinceClaim log ∧ paused ≠ .ok true) ∧
  ∃ live, (⟨.liveHosts,.ok (some live)⟩ : (command : Sweep numbers) × command.Reply) ∈ log ∧ pending.host ∉ live

/-- The claimed member is of this job, and the job may be taken. -/
def Warranted (key : Key) (log : Log numbers) : Prop :=
  ∃ member pending, taken log = some member ∧ parsePendingMember numbers member = some pending ∧ pending.key = key ∧
    Warrant pending log

/-- What a sweep may do after what it has heard. -/
def May (log : Log numbers) : Sweep numbers → Prop
  | .zrem member => Read log member ∧ Settled log
  | .getJob key | .getState key | .remove key => ReadJob log key
  | .zadd deadline member => taken log = some member ∧ Read log member ∧
      ∀ pending, parsePendingMember numbers member = some pending → deadline ≤ pending.hard
  | .putBack deadline member => taken log = some member ∧ ReadAt log member deadline
  | .onLost key _ => 1 ≤ owed key log ∧ ReadJob log key ∧ Warranted key log
  | _ => True

end Log

section Conduct

variable {log : Log numbers} {said : (command : Sweep numbers) × command.Reply}

theorem readAt_later {member : Text} {deadline : Int} (read : ReadAt log member deadline) :
    ReadAt (said :: log) member deadline := by
  obtain ⟨until',limit,due,inside,member⟩ := read
  exact ⟨until',limit,due,List.mem_cons_of_mem _ inside,member⟩

/-- The registry's answer that the sweep carries is one it heard. -/
def HostsHeard (hosts : Hosts) (log : Log numbers) : Prop :=
  ∀ live, hosts = some (some live) → (⟨.liveHosts,.ok (some live)⟩ : (command : Sweep numbers) × command.Reply) ∈ log

/-- Where a sweep stands between two members. -/
structure Between (due : List (Text × Int)) (hosts : Hosts) (log : Log numbers) : Prop where
  settled : Settled log
  rest : ∀ entry ∈ due, ReadAt log entry.1 entry.2
  hosts : HostsHeard hosts log

/-- Where a sweep stands with a member in its hands. -/
structure Holding (due : List (Text × Int)) (member : Text) (score : Int) (pending : Pending) (hosts : Hosts)
    (log : Log numbers) : Prop where
  taken : taken log = some member
  own : parsePendingMember numbers member = some pending
  read : ReadAt log member score
  told : ∀ key, owed key log = 0
  rest : ∀ entry ∈ due, ReadAt log entry.1 entry.2
  hosts : HostsHeard hosts log

variable {due : List (Text × Int)} {member : Text} {score : Int} {pending : Pending} {hosts : Hosts}

/-- A command that moves no member and takes no job. -/
private theorem Holding.later (holding : Holding due member score pending hosts log)
    (same : RecoveryQueue.taken (said :: log) = RecoveryQueue.taken log)
    (even : ∀ key, owed key (said :: log) = owed key log) : Holding due member score pending hosts (said :: log) where
  taken := same.trans holding.taken
  own := holding.own
  read := readAt_later holding.read
  told key := (even key).trans (holding.told key)
  rest entry inside := readAt_later (holding.rest entry inside)
  hosts live found := List.mem_cons_of_mem _ (holding.hosts live found)

private theorem Holding.readJob (holding : Holding due member score pending hosts log) : ReadJob log pending.key :=
  ⟨member,pending,⟨score,holding.read⟩,holding.own,rfl⟩

/-- With the job known to be over, the member may be let go. -/
private theorem Holding.ended (holding : Holding due member score pending hosts log)
    (ended : ∃ said ∈ log, Over pending.key said) : Between due hosts log where
  settled := by
    refine ⟨?_,holding.told⟩
    intro other known mine own
    rw [holding.taken] at mine
    cases mine
    rw [holding.own] at own
    cases own
    exact ended
  rest := holding.rest
  hosts := holding.hosts

private def After (due : List (Text × Int)) (carried : Carried) (log : Log numbers) : Prop := Between due carried.1 log

private theorem puttingBack_conducts {out : Counts} (holding : Holding due member score pending hosts log) :
    (puttingBack member score hosts out : Judging numbers).Conducts May (After due) log := by
  refine ⟨⟨holding.taken,holding.read⟩,fun answer => ⟨⟨?_,?_⟩,?_,?_⟩⟩
  · exact fun other known mine => absurd mine nofun
  · exact holding.told
  · exact fun entry inside => readAt_later (holding.rest entry inside)
  · exact fun live found => List.mem_cons_of_mem _ (holding.hosts live found)

private theorem warrant_later (warrant : Warrant pending log) (plain : sinceClaim (said :: log) = said :: sinceClaim log) :
    Warrant pending (said :: log) := by
  unfold Warrant
  rw [plain]
  rcases warrant with ⟨now,inside,late⟩ | ⟨⟨paused,inside,running⟩,live,heard,absent⟩
  · exact .inl ⟨now,List.mem_cons_of_mem _ inside,late⟩
  · exact .inr ⟨⟨paused,List.mem_cons_of_mem _ inside,running⟩,live,List.mem_cons_of_mem _ heard,absent⟩

private theorem taking_conducts {job : Job numbers} {out : Counts} (holding : Holding due member score pending hosts log)
    (warrant : Warrant pending log) :
    (taking member score pending job hosts out).Conducts May (After due) log := by
  refine ⟨holding.readJob,fun answer => ?_⟩
  match answer with
  | .error _ => exact puttingBack_conducts (holding.later rfl fun _ => rfl)
  | .ok done =>
    refine ⟨trivial,fun _ => ⟨⟨?_,?_,?_⟩,fun told => ⟨⟨?_,?_⟩,?_,?_⟩⟩⟩
    · change 1 ≤ owed pending.key log + if pending.key = pending.key then 1 else 0
      rw [holding.told,if_pos rfl]
      omega
    · exact ⟨member,pending,⟨score,readAt_later (readAt_later holding.read)⟩,holding.own,rfl⟩
    · exact ⟨member,pending,holding.taken,holding.own,rfl,warrant_later (warrant_later warrant rfl) rfl⟩
    · intro other known mine own
      have mine : RecoveryQueue.taken log = some other := mine
      rw [holding.taken] at mine
      cases mine
      rw [holding.own] at own
      cases own
      exact ⟨⟨.remove pending.key,.ok done⟩,by simp,rfl⟩
    · intro key
      change owed key log + (if pending.key = key then 1 else 0) - (if pending.key = key then 1 else 0) = 0
      rw [holding.told]
      omega
    · exact fun entry inside => readAt_later (readAt_later (readAt_later (holding.rest entry inside)))
    · exact fun live found => by
        have heard := holding.hosts live found
        simp [heard]

private theorem hostsNow_conducts {α : Type} {post : α → Log numbers → Prop}
    {next : Option (List Units) → Program (Sweeping numbers) α} (holding : Holding due member score pending hosts log)
    (onward : ∀ live later, Holding due member score pending (some live) (later ++ log) →
      (∀ said ∈ later, said.1 = .liveHosts) → (next live).Conducts May post (later ++ log)) :
    (hostsNow hosts next).Conducts May post log := by
  unfold hostsNow
  split
  next live => exact onward live [] holding nofun
  next =>
    have heard : ∀ reply live, (∀ found, live = some found → reply = .ok (some found)) →
        Holding due member score pending (some live)
          ((⟨.liveHosts,reply⟩ : (command : Sweep numbers) × command.Reply) :: log) := by
      intro reply live told
      refine ⟨holding.taken,holding.own,readAt_later holding.read,holding.told,?_,?_⟩
      · exact fun entry inside => readAt_later (holding.rest entry inside)
      · intro found same
        rw [told found (Option.some.inj same)]
        exact List.mem_cons_self
    refine ⟨trivial,fun reply => ?_⟩
    match reply with
    | .error fault => exact onward none [_] (heard _ none nofun) (by simp)
    | .ok live =>
      refine onward live [_] (heard _ live ?_) (by simp)
      rintro found rfl
      rfl

private theorem whyNot_none {paused : Except Unit Bool} {live : Option (List Units)} {host : Units}
    (clear : whyNot paused live host = none) : paused ≠ .ok true ∧ ∃ hosts, live = some hosts ∧ host ∉ hosts := by
  have running : paused ≠ .ok true := by
    rintro rfl
    cases clear
  refine ⟨running,?_⟩
  cases live with
  | none => match paused with
    | .error _ | .ok false => cases clear
    | .ok true => cases clear
  | some hosts =>
    refine ⟨hosts,rfl,?_⟩
    intro inside
    match paused with
    | .error _ | .ok false =>
      have clear : (if host ∈ hosts then some Why.hostAlive else none) = none := clear
      rw [if_pos inside] at clear
      cases clear
    | .ok true => cases clear

private theorem judging_conducts {job : Job numbers} {out : Counts} (holding : Holding due member score pending hosts log) :
    (judging member score pending job hosts out).Conducts May (After due) log := by
  refine ⟨trivial,fun now => ?_⟩
  have holding := @Holding.later _ _ ⟨.now,now⟩ _ _ _ _ _ holding rfl fun _ => rfl
  dsimp only
  split
  next late => exact taking_conducts holding (.inl ⟨now,List.mem_cons_self,late⟩)
  next =>
    refine ⟨trivial,fun paused => ?_⟩
    have holding := @Holding.later _ _ ⟨.isPaused pending.queue,paused⟩ _ _ _ _ _ holding rfl fun _ => rfl
    refine hostsNow_conducts holding ?_
    intro live later holding asked
    have since : ∀ said ∈ sinceClaim
        (((⟨.isPaused pending.queue,paused⟩ : (command : Sweep numbers) × command.Reply)) :: ⟨.now,now⟩ :: log),
        said ∈ sinceClaim (later ++ ⟨.isPaused pending.queue,paused⟩ :: ⟨.now,now⟩ :: log) := by
      intro said inside
      clear holding
      induction later with
      | nil => exact inside
      | cons first later ih =>
        obtain ⟨command,reply⟩ := first
        have same : command = .liveHosts := asked _ List.mem_cons_self
        subst same
        exact List.mem_cons_of_mem _ (ih fun said member => asked said (List.mem_cons_of_mem _ member))
    split
    next clear =>
      obtain ⟨running,hosts,rfl,absent⟩ := whyNot_none clear
      exact taking_conducts holding
        (.inr ⟨⟨paused,since _ List.mem_cons_self,running⟩,hosts,holding.hosts hosts rfl,absent⟩)
    next why _ =>
      refine ⟨trivial,fun later => ?_⟩
      have holding := @Holding.later _ _ ⟨.now,later⟩ _ _ _ _ _ holding rfl fun _ => rfl
      refine ⟨⟨holding.taken,⟨score,holding.read⟩,?_⟩,fun answer => ?_⟩
      · intro other own
        rw [holding.own] at own
        cases own
        exact min_le_right _ _
      · match answer with
        | .error _ => exact puttingBack_conducts (holding.later rfl fun _ => rfl)
        | .ok done =>
          refine ⟨⟨?_,holding.told⟩,?_,?_⟩
          · exact fun other known mine => absurd mine nofun
          · exact fun entry inside => readAt_later (holding.rest entry inside)
          · exact fun found same => List.mem_cons_of_mem _ (holding.hosts found same)

private theorem handling_conducts {out : Counts} (holding : Holding due member score pending hosts log) :
    (handling member score pending hosts out).Conducts May (After due) log := by
  refine ⟨holding.readJob,fun answer => ?_⟩
  match answer with
  | .error _ => exact puttingBack_conducts (holding.later rfl fun _ => rfl)
  | .ok none => exact (holding.later rfl fun _ => rfl).ended ⟨_,List.mem_cons_self,rfl⟩
  | .ok (some job) =>
    have holding := @Holding.later _ _ ⟨.getJob pending.key,.ok (some job)⟩ _ _ _ _ _ holding rfl fun _ => rfl
    refine ⟨holding.readJob,fun answer => ?_⟩
    match answer with
    | .error _ => exact puttingBack_conducts (holding.later rfl fun _ => rfl)
    | .ok state =>
      have holding := @Holding.later _ _ ⟨.getState pending.key,.ok state⟩ _ _ _ _ _ holding rfl fun _ => rfl
      dsimp only
      split
      next ended => exact holding.ended ⟨_,List.mem_cons_self,rfl,ended⟩
      · exact judging_conducts holding

/-- What a sweep returns says nothing; when it returns, it is settled. -/
def Ends (_ : Swept) (log : Log numbers) : Prop := Settled log

private theorem between_missed {reply : Except Unit Bool} (missed : reply ≠ .ok true)
    (between : Between ((member,score) :: due) hosts log) :
    Between due hosts ((⟨.zrem member,reply⟩ : (command : Sweep numbers) × command.Reply) :: log) := by
  have same : RecoveryQueue.taken ((⟨.zrem member,reply⟩ : (command : Sweep numbers) × command.Reply) :: log) = RecoveryQueue.taken log := by
    match reply with
    | .error _ | .ok false => rfl
    | .ok true => exact absurd rfl missed
  refine ⟨⟨?_,between.settled.told⟩,?_,?_⟩
  · intro other known mine own
    rw [same] at mine
    obtain ⟨said,inside,ended⟩ := between.settled.ended other known mine own
    exact ⟨said,List.mem_cons_of_mem _ inside,ended⟩
  · exact fun entry inside => readAt_later (between.rest entry (List.mem_cons_of_mem _ inside))
  · exact fun live found => List.mem_cons_of_mem _ (between.hosts live found)

private theorem sweepDue_conducts {out : Counts} (between : Between due hosts log) :
    (sweepDue due hosts out).Conducts May Ends log := by
  induction due generalizing hosts out log with
  | nil => exact between.settled
  | cons entry due ih =>
    obtain ⟨member,score⟩ := entry
    have read := between.rest (member,score) List.mem_cons_self
    refine ⟨⟨⟨score,read⟩,between.settled⟩,fun answer => ?_⟩
    match answer with
    | .error _ => exact ih (between_missed nofun between)
    | .ok false => exact ih (between_missed (by simp) between)
    | .ok true =>
      have rest : ∀ entry ∈ due, ReadAt ((⟨.zrem member,.ok true⟩ : (command : Sweep numbers) × command.Reply) :: log)
          entry.1 entry.2 :=
        fun entry inside => readAt_later (between.rest entry (List.mem_cons_of_mem _ inside))
      have hosts : HostsHeard hosts ((⟨.zrem member,.ok true⟩ : (command : Sweep numbers) × command.Reply) :: log) :=
        fun live found => List.mem_cons_of_mem _ (between.hosts live found)
      dsimp only
      split
      next malformed =>
        refine ih ⟨⟨?_,between.settled.told⟩,rest,hosts⟩
        intro other known mine own
        cases Option.some.inj mine
        rw [malformed] at own
        cases own
      next pending own =>
        refine Program.conducts_bind (handling_conducts ⟨rfl,own,readAt_later read,between.settled.told,rest,hosts⟩) ?_
        exact fun carried log after => ih after

theorem sweepHostLost_conducts : (sweepHostLost : Program (Sweeping numbers) Swept).Conducts May Ends [] := by
  refine ⟨trivial,fun now => ⟨trivial,fun answer => ?_⟩⟩
  match answer with
  | .error _ => exact ⟨nofun,fun _ => rfl⟩
  | .ok due =>
    refine sweepDue_conducts ⟨⟨nofun,fun _ => rfl⟩,?_,nofun⟩
    exact fun entry inside => ⟨_,_,due,List.mem_cons_self,inside⟩

end Conduct

end PiDispatch.RecoveryQueue
