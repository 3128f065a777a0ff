import PiDispatch.Valkey
import PiDispatch.Kernel.Contract
import PiDispatch.Kernel.Service

/-! One wait target's supersede lease: how jobs claim it, hold on it and release it, any number of them at once, each a
command at a time and no lease expiring. A job stands on the target from the answer that lets it hold until its release. -/
namespace PiDispatch.WaitState
open Kernel

abbrev Job := String

/-- The lease key, with what is true of the jobs: who stands, who has begun its release, who can no longer wake. -/
structure Target where
  lease : Option Job
  stands : Job → Bool
  left : Job → Bool
  dead : Job → Bool

def Target.empty : Target := ⟨none,fun _ => false,fun _ => false,fun _ => false⟩

/-- The job has not released and can still wake. -/
def Target.live (target : Target) (job : Job) : Bool := !target.dead job && !target.left job

/-- The commands on the lease key, the liveness probe, the keys that do not matter here, and the ghost commands that
mark a claim's begin, a release's begin and a job's death. -/
inductive Command
  | begins (job : Job)
  | setNx (job : Job)
  | getHolder (job : Job)
  | isLive (holder : Job)
  | takeOver (job : Job)
  | leaves (job : Job)
  | getLease
  | del
  | other
  | dies (job : Job)

@[reducible] def Command.Carrier : Command → Type
  | .setNx _ | .isLive _ => Bool
  | .getHolder _ | .getLease => Option Job
  | _ => Unit

/-- The job is told that it may hold. -/
def Target.told (target : Target) (job : Job) : Target :=
  { target with stands := Function.update target.stands job true, left := Function.update target.left job false }

def answer (target : Target) : (command : Command) → command.Carrier × Target
  | .begins job => ((),{ target with left := Function.update target.left job false })
  | .setNx job => if target.lease.isNone then (true,{ target with lease := some job }.told job) else (false,target)
  | .getHolder job =>
    (target.lease,if target.lease = none ∨ target.lease = some job then target.told job else target)
  | .isLive holder => (target.live holder,target)
  | .takeOver job => ((),{ target with lease := some job }.told job)
  | .leaves job =>
    ((),{ target with stands := Function.update target.stands job false, left := Function.update target.left job true })
  | .getLease => (target.lease,target)
  | .del => ((),{ target with lease := none })
  | .other => ((),target)
  | .dies job => ((),{ target with dead := Function.update target.dead job true })

/-- What a command leaves whose answer is lost: nobody is told anything. -/
def unanswered (target : Target) (command : Command) : Target := { target with lease := (answer target command).2.lease }

def loses : Command → Prop
  | .begins _ | .leaves _ | .dies _ => False
  | _ => True

abbrev Wait : Signature := Fallible Command Command.Carrier Fault

inductive Claim
  | ok (tookOverFrom : Option Job)
  | heldBy (holder : Job)
  | retry (holder : Option Job)

abbrev Call (α : Type) := Program Wait α

/-- A claim with a semantic identity; `probed` is whether a liveness probe is wired. -/
def claim (job : Job) (probed : Bool) : Call Claim :=
  @Program.issue Wait _ (.begins job) fun _ =>
  @Program.issue Wait _ (.setNx job) fun
    | .error _ => .done (.retry none)
    | .ok true => .done (.ok none)
    | .ok false => @Program.issue Wait _ (.getHolder job) fun
      | .error _ => .done (.retry none)
      | .ok none => .done (.ok none)
      | .ok (some holder) =>
        if holder = job then .done (.ok none)
        else if ¬probed then .done (.retry (some holder))
        else @Program.issue Wait _ (.isLive holder) fun
          | .error _ => .done (.retry (some holder))
          | .ok true => .done (.heldBy holder)
          | .ok false => @Program.issue Wait _ (.takeOver job) fun
            | .error _ => .done (.retry none)
            | .ok () => .done (.ok (some holder))

/-- Commands one after another, given up at the first that fails. -/
def others : Nat → Call Unit → Call Unit
  | 0, rest => rest
  | count + 1, rest => @Program.issue Wait _ .other fun
    | .error _ => .done ()
    | .ok () => others count rest

def hold (job : Job) : Call Unit :=
  others 4 <| @Program.issue Wait _ .getLease fun
    | .error _ => .done ()
    | .ok holder => if holder = some job then others 1 (.done ()) else .done ()

def release (job : Job) : Call Unit :=
  @Program.issue Wait _ (.leaves job) fun _ =>
  others 2 <| @Program.issue Wait _ .getLease fun
    | .error _ => .done ()
    | .ok holder => if holder = some job then @Program.issue Wait _ .del fun _ => .done () else .done ()

inductive Outcome
  | claimed (answer : Claim)
  | finished

/-- The calls of any jobs, and the deaths of jobs. -/
inductive Enters : Call Outcome → Prop
  | claim (job : Job) (probed : Bool) : Enters ((claim job probed).bind fun answer => .done (.claimed answer))
  | hold (job : Job) : Enters ((hold job).bind fun _ => .done .finished)
  | release (job : Job) : Enters ((release job).bind fun _ => .done .finished)
  | dies (job : Job) : Enters (@Program.issue Wait _ (.dies job) fun _ => .done .finished)

def targetAgency (allowed : Target → Command → Prop) : Agency Wait Target (Call Outcome) :=
  callers (MayFail answer unanswered loses allowed) Enters

/-- No two live jobs stand on the target. -/
def Exclusive (target : Target) : Prop :=
  ∀ job other, target.stands job → target.live job → target.stands other → target.live other → job = other

/-- A lost claim finds the lease it lost to, a take-over finds no live job's lease, and a release deletes none that a
standing live job holds. -/
def Careful (target : Target) : Command → Prop
  | .getHolder _ => target.lease.isSome
  | .takeOver _ => ∀ holder ∈ target.lease, target.live holder = false
  | .del => ∀ holder ∈ target.lease, target.live holder → target.stands holder = false
  | _ => True

/-- Who stands has not begun its release, and has the lease while it can wake. -/
private structure Leased (target : Target) : Prop where
  stays : ∀ job, target.stands job → target.left job = false
  holds : ∀ job, target.stands job → target.dead job = false → target.lease = some job

private theorem live_iff (target : Target) (job : Job) :
    target.live job = true ↔ target.dead job = false ∧ target.left job = false := by
  simp [Target.live]

private theorem told_leased {target : Target} {job : Job} (leased : Leased target) {lease : Option Job}
    (own : target.dead job = false → lease = some job)
    (alone : ∀ other, other ≠ job → target.stands other → target.dead other = false → lease = some other) :
    Leased ({ target with lease := lease }.told job) := by
  constructor
  · intro other stands
    by_cases same : other = job
    · simp [Target.told,same]
    · simp only [Target.told,Function.update_of_ne same] at stands ⊢
      exact leased.stays other stands
  · intro other stands wakes
    by_cases same : other = job
    · rw [same] at wakes ⊢
      exact own wakes
    · simp only [Target.told,Function.update_of_ne same] at stands
      exact alone other same stands wakes

private theorem answer_leased {target : Target} {command : Command} (leased : Leased target)
    (careful : Careful target command) : Leased (answer target command).2 := by
  have standing : ∀ job, target.stands job → target.dead job = false → target.live job := fun job stands wakes =>
    (live_iff target job).mpr ⟨wakes,leased.stays job stands⟩
  cases command with
  | isLive | getLease | other => exact leased
  | begins job =>
    refine ⟨?_,leased.holds⟩
    intro other stands
    by_cases same : other = job
    · simp [answer,same]
    · simp only [answer,Function.update_of_ne same]
      exact leased.stays other stands
  | setNx job =>
    unfold answer
    dsimp only
    split
    next absent =>
      refine told_leased leased (fun _ => rfl) fun other _ stands wakes => ?_
      rw [leased.holds other stands wakes] at absent
      cases absent
    · exact leased
  | getHolder job =>
    unfold answer
    dsimp only
    split
    next mine =>
      have own : target.lease = some job := by
        rcases mine with absent | own
        · simp only [Careful,absent] at careful
          cases careful
        · exact own
      exact told_leased leased (fun _ => own) fun other _ => leased.holds other
    · exact leased
  | takeOver job =>
    refine told_leased leased (fun _ => rfl) fun other _ stands wakes => ?_
    have live := careful other (leased.holds other stands wakes)
    rw [standing other stands wakes] at live
    cases live
  | leaves job =>
    have kept : ∀ other, (answer target (.leaves job)).2.stands other → other ≠ job ∧ target.stands other := by
      intro other stands
      by_cases same : other = job
      · simp [answer,same] at stands
      · simp only [answer,Function.update_of_ne same] at stands
        exact ⟨same,stands⟩
    constructor
    · intro other stands
      obtain ⟨apart,stood⟩ := kept other stands
      simp only [answer,Function.update_of_ne apart]
      exact leased.stays other stood
    · intro other stands wakes
      exact leased.holds other (kept other stands).2 wakes
  | del =>
    refine ⟨leased.stays,fun job stands wakes => ?_⟩
    have gone := careful job (leased.holds job stands wakes) (standing job stands wakes)
    have stands : target.stands job = true := stands
    rw [gone] at stands
    cases stands
  | dies job =>
    refine ⟨leased.stays,fun other stands wakes => leased.holds other stands ?_⟩
    by_cases same : other = job
    · simp [answer,same] at wakes
    · simpa only [answer,Function.update_of_ne same] using wakes

/-- A lost answer leaves the lease as the answered one would. -/
private theorem unanswered_leased {target : Target} {command : Command} (leased : Leased target)
    (careful : Careful target command) : Leased (unanswered target command) := by
  have after := answer_leased leased careful
  refine ⟨leased.stays,?_⟩
  intro job stands wakes
  change (answer target command).2.lease = some job
  have before := leased.holds job stands wakes
  have standing : target.live job := (live_iff target job).mpr ⟨wakes,leased.stays job stands⟩
  cases command with
  | isLive | getLease | other | begins | leaves | dies => exact before
  | setNx =>
    unfold answer
    dsimp only
    rw [before]
    exact before
  | getHolder =>
    unfold answer
    dsimp only
    split <;> exact before
  | takeOver =>
    have live := careful job before
    rw [standing] at live
    cases live
  | del =>
    have gone := careful job before standing
    have stands : target.stands job = true := stands
    rw [gone] at stands
    cases stands

/-- At most one live job stands on a wait target, in every run whose steps are careful. -/
theorem wait_target_exclusive {world : World Target (Call Outcome)}
    (reached : Reachable (targetAgency Careful) .empty world) : Exclusive world.store := by
  have leased : Leased world.store := by
    refine store_invariant (targetAgency Careful) Leased ?_ ?_ reached
    · intro store command reply next leased served
      exact mayFail_kept (fun _ _ leased careful => answer_leased leased careful)
        (fun _ _ leased careful _ => unanswered_leased leased careful) leased served
    · exact ⟨fun _ stands => (nomatch stands),fun _ stands => (nomatch stands)⟩
  intro job other stands live stands' live'
  have own := leased.holds job stands ((live_iff _ _).mp live).1
  have others := leased.holds other stands' ((live_iff _ _).mp live').1
  exact Option.some.inj (own.symm.trans others)

section Samples

/-- A job that holds and dies, and two that then claim. -/
def deadHolder : List (Call Outcome) :=
  [(claim "job-1" true).bind fun answer => .done (.claimed answer),
    @Program.issue Wait _ (.dies "job-1") fun _ => .done .finished,
    (claim "job-2" true).bind fun answer => .done (.claimed answer),
    (claim "job-3" true).bind fun answer => .done (.claimed answer)]

private theorem holders_reached (allowed : Target → Command → Prop) :
    Reachable (targetAgency allowed) .empty ⟨Target.empty,deadHolder⟩ := by
  refine reachable_entered (targetAgency allowed) Target.empty deadHolder ?_
  intro agent member
  simp only [deadHolder,List.mem_cons,List.not_mem_nil,or_false] at member
  rcases member with rfl | rfl | rfl | rfl
  · exact .claim "job-1" true
  · exact .dies "job-1"
  · exact .claim "job-2" true
  · exact .claim "job-3" true

def anyCommand (_ : Target) (_ : Command) : Prop := True

/-- One of the two takes the lease over before the other claims. -/
def oneTakesOver : World Target (Call Outcome) :=
  (targetAgency anyCommand).turns (answering Fault answer) ⟨Target.empty,deadHolder⟩ [0,0,1,2,2,2,2,2,3,3,3,3]

/-- Both find the dead holder, and then both take its lease over. -/
def bothTakeOver : World Target (Call Outcome) :=
  (targetAgency anyCommand).turns (answering Fault answer) ⟨Target.empty,deadHolder⟩ [0,0,1,2,2,2,2,3,3,3,3,2,3]

private def checked (target : Target) : Command → Bool
  | .getHolder _ => target.lease.isSome
  | .takeOver _ => target.lease.all fun holder => !target.live holder
  | .del => target.lease.all fun holder => !target.live holder || !target.stands holder
  | _ => true

private theorem checked_careful {target : Target} {command : Command} (passed : checked target command) :
    Careful target command := by
  cases command with
  | getHolder job => exact passed
  | takeOver job =>
    intro holder member
    have member : target.lease = some holder := member
    simpa [checked,member] using passed
  | del =>
    intro holder member live
    have member : target.lease = some holder := member
    simpa [checked,member,live] using passed
  | _ => trivial

theorem wait_target_exclusive_one_takes_over : Exclusive oneTakesOver.store := by
  have reached := reachable_passes (targetAgency Careful) (answering Fault answer) checked
    (fun _ _ passed => mayFail_answering (checked_careful passed)) [0,0,1,2,2,2,2,2,3,3,3,3]
    (holders_reached Careful) (by decide)
  exact wait_target_exclusive reached

theorem both_take_over_a_dead_holder :
    ¬∀ world : World Target (Call Outcome), Reachable (targetAgency anyCommand) .empty world → Exclusive world.store := by
  intro exclusive
  have reached := reachable_turns (targetAgency anyCommand) (answering Fault answer)
    (fun _ _ => mayFail_answering trivial) [0,0,1,2,2,2,2,3,3,3,3,2,3] (holders_reached anyCommand)
  have same := exclusive bothTakeOver reached "job-2" "job-3" (by decide) (by decide) (by decide) (by decide)
  exact absurd same (by decide)

end Samples

end PiDispatch.WaitState
