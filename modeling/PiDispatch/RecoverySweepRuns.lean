import PiDispatch.RecoverySweep

/-! Any number of sweeps at once: a member that was read as due is back in the set, or in the hands of a sweep that still
runs, or its job's wait is over; and of every job that a sweep removed the run is told, once. -/
namespace PiDispatch.RecoveryQueue
open Kernel

variable {numbers : Numbers} {fleet next : Fleet numbers} {given : Text → Int → Prop}

section Pending

theorem mem_put (fleet : Fleet numbers) (deadline : Int) (member other : Text) :
    other ∈ (fleet.put deadline member).pending.keys ↔ other ∈ fleet.pending.keys ∨ other = member := by
  unfold Fleet.put
  dsimp only
  by_cases there : member ∈ fleet.pending.keys
  · rw [Dict.keys_set_present fleet.pending deadline there]
    constructor
    · exact .inl
    · rintro (old | rfl)
      · exact old
      · exact there
  · rw [Dict.keys_set_absent fleet.pending deadline there,List.mem_append,List.mem_singleton]

theorem mem_drop (fleet : Fleet numbers) (member other : Text) :
    other ∈ (fleet.drop member).pending.keys ↔ other ∈ fleet.pending.keys ∧ other ≠ member := by
  unfold Fleet.drop
  dsimp only
  rw [Dict.keys_erase,List.mem_filter,decide_eq_true_eq]

theorem mem_due (fleet : Fleet numbers) (until' : Instant) (limit : Nat) {member : Text} {deadline : Int}
    (due : (member,deadline) ∈ fleet.due until' limit) : fleet.pending.get? member = some deadline := by
  unfold Fleet.due at due
  have kept := (List.mem_insertionSort _).mp (List.mem_of_mem_take due)
  exact Dict.get?_of_mem fleet.pending (List.mem_filter.mp kept).1

theorem stateAt_present {key : Key} (waits : fleet.stateAt key ∈ NOT_STARTED_STATES) : key ∈ fleet.jobs.keys := by
  unfold Fleet.stateAt at waits
  split at waits
  next job found => exact (Dict.get?_isSome_iff fleet.jobs key).mp (by rw [found]; rfl)
  · exact absurd waits (by decide)

theorem stateAt_over (orderly : Orderly given fleet) {key : Key} (ended : fleet.stateAt key ∉ NOT_STARTED_STATES)
    (named : key ∈ fleet.jobs.keys ∨ key ∈ fleet.past) : key ∈ fleet.past := by
  unfold Fleet.stateAt at ended
  split at ended
  next job found => exact orderly.begun key job found ended
  next absent =>
    rcases named with there | past
    · exact absurd there ((Dict.get?_eq_none_iff fleet.jobs key).mp absent)
    · exact past

end Pending

section Facts

variable (given)

/-- What an answer says of a fleet for good. -/
def Fact (fleet : Fleet numbers) (command : Sweep numbers) (reply : command.Reply) : Prop :=
  match command,reply with
  | .zrangebyscore _ _,.ok due => ∀ member deadline, (member,deadline) ∈ due →
      ∀ pending, parsePendingMember numbers member = some pending →
        Fits given member pending deadline ∧ (pending.key ∈ fleet.jobs.keys ∨ pending.key ∈ fleet.past)
  | .getJob key,.ok none | .remove key,.ok _ => key ∈ fleet.past
  | .getState key,.ok state => state ∈ NOT_STARTED_STATES ∨ key ∈ fleet.past
  | _,_ => True

variable {given}

/-- No job that is over waits again, and none is lost from sight. -/
structure Lasts (fleet next : Fleet numbers) : Prop where
  past : ∀ key ∈ fleet.past, key ∈ next.past
  seen : ∀ key, key ∈ fleet.jobs.keys ∨ key ∈ fleet.past → key ∈ next.jobs.keys ∨ key ∈ next.past

private theorem fact_lasts (lasts : Lasts fleet next) {command : Sweep numbers} {reply : command.Reply}
    (fact : Fact given fleet command reply) : Fact given next command reply := by
  match command,reply with
  | .zrangebyscore _ _,.ok due =>
    intro member deadline inside pending own
    obtain ⟨fits,seen⟩ := fact member deadline inside pending own
    exact ⟨fits,lasts.seen _ seen⟩
  | .getJob key,.ok none | .remove key,.ok _ => exact lasts.past key fact
  | .getState key,.ok state => exact fact.imp_right (lasts.past key)
  | .zrangebyscore _ _,.error _ | .getJob _,.error _ | .getJob _,.ok (some _) | .remove _,.error _ | .getState _,.error _ =>
    trivial
  | .now,_ | .zrem _,_ | .isPaused _,_ | .liveHosts,_ | .zadd _ _,_ | .putBack _ _,_ | .dropModelAttempt _,_
  | .onLost _ _,_ => trivial

variable {all : List (Log numbers)} {log : Log numbers}

private theorem read_fact (known : Known (Fact given) fleet all) (inside : log ∈ all) {member : Text} {deadline : Int}
    (read : ReadAt log member deadline) {pending : Pending} (own : parsePendingMember numbers member = some pending) :
    Fits given member pending deadline ∧ (pending.key ∈ fleet.jobs.keys ∨ pending.key ∈ fleet.past) := by
  obtain ⟨until',limit,due,heard,listed⟩ := read
  exact known log inside _ heard member deadline listed pending own

private theorem readJob_fact (known : Known (Fact given) fleet all) (inside : log ∈ all) {key : Key}
    (read : ReadJob log key) : key ∈ fleet.jobs.keys ∨ key ∈ fleet.past := by
  obtain ⟨member,pending,⟨deadline,read⟩,own,rfl⟩ := read
  exact (read_fact known inside read own).2

private theorem over_past (known : Known (Fact given) fleet all) (inside : log ∈ all) {key : Key}
    (ended : ∃ said ∈ log, Over key said) : key ∈ fleet.past := by
  obtain ⟨⟨command,reply⟩,heard,ended⟩ := ended
  have fact := known log inside _ heard
  match command,reply with
  | .getJob other,.ok none | .remove other,.ok _ =>
    have same : other = key := ended
    rw [← same]
    exact fact
  | .getState other,.ok state =>
    obtain ⟨same,ended⟩ := ended
    rw [← same]
    exact fact.resolve_left ended
  | .zrangebyscore _ _,_ | .getJob _,.error _ | .getJob _,.ok (some _) | .remove _,.error _ | .getState _,.error _ =>
    exact ended.elim
  | .now,_ | .zrem _,_ | .isPaused _,_ | .liveHosts,_ | .zadd _ _,_ | .putBack _ _,_ | .dropModelAttempt _,_
  | .onLost _ _,_ => exact ended.elim

end Facts

section Steps

variable {log : Log numbers} {command : Sweep numbers} {reply : command.Reply}

private theorem replied_lasts (replied : command.Replied fleet reply next) : Lasts fleet next := by
  cases command with
  | now | zrangebyscore | getJob | getState =>
    obtain ⟨_,rfl⟩ := replied
    exact ⟨fun _ => id,fun _ => id⟩
  | isPaused | liveHosts | dropModelAttempt =>
    have same : next = fleet := replied
    subst same
    exact ⟨fun _ => id,fun _ => id⟩
  | zrem | zadd =>
    rcases replied with ⟨_,rfl⟩ | ⟨_,same⟩
    · exact ⟨fun _ => id,fun _ => id⟩
    · rcases same with rfl | rfl <;> exact ⟨fun _ => id,fun _ => id⟩
  | putBack | onLost =>
    have same := replied
    unfold Sweep.Replied at same
    subst same
    exact ⟨fun _ => id,fun _ => id⟩
  | remove key =>
    rcases replied with ⟨_,rfl⟩ | ⟨_,rfl⟩
    · refine ⟨fun _ => List.mem_cons_of_mem _,?_⟩
      intro other seen
      unfold Fleet.without
      dsimp only
      rw [Dict.keys_erase,List.mem_filter,decide_eq_true_eq,List.mem_cons]
      by_cases same : other = key
      · exact .inr (.inl same)
      · exact seen.imp (⟨·,same⟩) .inr
    · exact ⟨fun _ => id,fun _ => id⟩

variable {all : List (Log numbers)}

private theorem replied_fact (orderly : Orderly given fleet) (known : Known (Fact given) fleet all) (inside : log ∈ all)
    (may : May log command) (replied : command.Replied fleet reply next) : Fact given next command reply := by
  cases command with
  | zrangebyscore until' limit =>
    obtain ⟨rfl | rfl,rfl⟩ := replied
    · intro member deadline due pending own
      have held := mem_due next until' limit due
      have there : member ∈ next.pending.keys := (Dict.get?_isSome_iff next.pending member).mp (by rw [held]; rfl)
      exact ⟨orderly.deadlines member deadline held pending own,orderly.named member there pending own⟩
    · trivial
  | getJob key =>
    obtain ⟨rfl | rfl,rfl⟩ := replied
    · cases found : next.jobs.get? key with
      | some job => trivial
      | none =>
        rcases readJob_fact known inside may with there | past
        · exact absurd there ((Dict.get?_eq_none_iff next.jobs key).mp found)
        · exact past
    · trivial
  | getState key =>
    obtain ⟨rfl | rfl,rfl⟩ := replied
    · by_cases waits : next.stateAt key ∈ NOT_STARTED_STATES
      · exact .inl waits
      · exact .inr (stateAt_over orderly waits (readJob_fact known inside may))
    · trivial
  | remove key =>
    rcases replied with ⟨_,rfl⟩ | ⟨rfl,_⟩
    · cases reply with
      | error => trivial
      | ok done => exact List.mem_cons_self
    · trivial
  | now | zrem | isPaused | liveHosts | zadd | putBack | dropModelAttempt | onLost => trivial

private theorem put_orderly (orderly : Orderly given fleet) {deadline : Int} {member : Text}
    (fits : ∀ pending, parsePendingMember numbers member = some pending →
      Fits given member pending deadline ∧ (pending.key ∈ fleet.jobs.keys ∨ pending.key ∈ fleet.past)) :
    Orderly given (fleet.put deadline member) where
  begun := orderly.begun
  named other inside pending own := by
    rcases (mem_put fleet deadline member other).mp inside with old | rfl
    · exact orderly.named other old pending own
    · exact (fits pending own).2
  deadlines other found held pending own := by
    unfold Fleet.put at held
    dsimp only at held
    rw [Dict.get?_set] at held
    split at held
    next same =>
      cases held
      subst same
      exact (fits pending own).1
    · exact orderly.deadlines other found held pending own

private theorem replied_orderly (orderly : Orderly given fleet) (known : Known (Fact given) fleet all) (inside : log ∈ all)
    (may : May log command) (replied : command.Replied fleet reply next) : Orderly given next := by
  cases command with
  | now | zrangebyscore | getJob | getState =>
    obtain ⟨_,rfl⟩ := replied
    exact orderly
  | isPaused | liveHosts | dropModelAttempt =>
    have same : next = fleet := replied
    subst same
    exact orderly
  | onLost =>
    have same := replied
    unfold Sweep.Replied at same
    subst same
    exact ⟨orderly.begun,orderly.named,orderly.deadlines⟩
  | zrem member =>
    rcases replied with ⟨_,rfl⟩ | ⟨_,rfl⟩
    · refine ⟨orderly.begun,?_,?_⟩
      · exact fun other inside => orderly.named other ((mem_drop fleet member other).mp inside).1
      · intro other deadline held
        unfold Fleet.drop at held
        dsimp only at held
        rw [Dict.get?_erase] at held
        split at held
        · cases held
        · exact orderly.deadlines other deadline held
    · exact orderly
  | zadd deadline member =>
    obtain ⟨_,⟨own,read⟩,within⟩ := may
    have put : Orderly given (fleet.put deadline member) :=
      put_orderly orderly fun pending named => ⟨.inl (within pending named),(read_fact known inside read named).2⟩
    rcases replied with ⟨_,rfl⟩ | ⟨_,rfl | rfl⟩
    · exact put
    · exact orderly
    · exact put
  | putBack deadline member =>
    have same := replied
    unfold Sweep.Replied at same
    subst same
    exact put_orderly orderly fun pending named => read_fact known inside may.2 named
  | remove key =>
    rcases replied with ⟨_,rfl⟩ | ⟨_,rfl⟩
    · refine ⟨?_,?_,orderly.deadlines⟩
      · intro other job found ended
        unfold Fleet.without at found
        dsimp only at found
        rw [Dict.get?_erase] at found
        split at found
        · cases found
        · exact List.mem_cons_of_mem _ (orderly.begun other job found ended)
      · intro member inside pending own
        have gone : (Sweep.remove key : Sweep numbers).Replied fleet (.error ()) (fleet.without key) :=
          .inl ⟨by assumption,rfl⟩
        have lasts : Lasts fleet (fleet.without key) := replied_lasts gone
        exact lasts.seen _ (orderly.named member inside pending own)
    · exact orderly

/-- What becomes of the members that a sweep may have in its hands. -/
structure Moves (fleet next : Fleet numbers) (log : Log numbers) (said : (command : Sweep numbers) × command.Reply) :
    Prop where
  members : ∀ member ∈ fleet.pending.keys, member ∈ next.pending.keys ∨ taken (said :: log) = some member
  hands : ∀ member pending, parsePendingMember numbers member = some pending → taken log = some member →
    taken (said :: log) = some member ∨ member ∈ next.pending.keys ∨ pending.key ∈ next.past
  reads : ∀ member, Read (said :: log) member → Read log member ∨ member ∈ next.pending.keys

private theorem read_same {said : (command : Sweep numbers) × command.Reply} {member : Text}
    (read : Read (said :: log) member)
    (other : ∀ until' limit due, said ≠ ⟨.zrangebyscore until' limit,.ok due⟩) : Read log member := by
  obtain ⟨deadline,until',limit,due,inside,listed⟩ := read
  rcases List.mem_cons.mp inside with same | inside
  · exact absurd same.symm (other until' limit due)
  · exact ⟨deadline,until',limit,due,inside,listed⟩

private theorem moves_quiet {said : (command : Sweep numbers) × command.Reply}
    (same : taken (said :: log) = taken log) (members : ∀ member ∈ fleet.pending.keys, member ∈ next.pending.keys)
    (other : ∀ until' limit due, said ≠ ⟨.zrangebyscore until' limit,.ok due⟩) : Moves fleet next log said where
  members member inside := .inl (members member inside)
  hands member _ _ mine := .inl (same.trans mine)
  reads member read := .inl (read_same read other)

private theorem moves_put {said : (command : Sweep numbers) × command.Reply} {deadline : Int} {own : Text}
    (mine : taken log = some own) (other : ∀ until' limit due, said ≠ ⟨.zrangebyscore until' limit,.ok due⟩) :
    Moves fleet (fleet.put deadline own) log said where
  members member inside := .inl ((mem_put fleet deadline own member).mpr (.inl inside))
  hands member _ _ held := by
    rw [mine] at held
    cases held
    exact .inr (.inl ((mem_put fleet deadline own own).mpr (.inr rfl)))
  reads member read := .inl (read_same read other)

private theorem replied_moves (known : Known (Fact given) fleet all) (inside : log ∈ all) (may : May log command)
    (replied : command.Replied fleet reply next) : Moves fleet next log ⟨command,reply⟩ := by
  cases command with
  | now | getJob | getState =>
    obtain ⟨_,rfl⟩ := replied
    exact moves_quiet rfl (fun _ => id) nofun
  | isPaused | liveHosts | dropModelAttempt | onLost =>
    have same := replied
    unfold Sweep.Replied at same
    subst same
    exact moves_quiet rfl (fun _ => id) nofun
  | zrangebyscore until' limit =>
    obtain ⟨answered,rfl⟩ := replied
    refine ⟨fun member there => .inl there,fun member _ _ mine => .inl mine,?_⟩
    rintro member ⟨deadline,asked,most,due,heard,listed⟩
    rcases List.mem_cons.mp heard with same | heard
    · cases same
      rcases answered with answered | answered
      · cases answered
        have held := mem_due next until' limit listed
        exact .inr ((Dict.get?_isSome_iff next.pending member).mp (by rw [held]; rfl))
      · cases answered
    · exact .inl ⟨deadline,asked,most,due,heard,listed⟩
  | zrem own =>
    have hands : ∀ member pending, parsePendingMember numbers member = some pending → taken log = some member →
        pending.key ∈ fleet.past :=
      fun member pending known' mine => over_past known inside (may.2.ended member pending mine known')
    rcases replied with ⟨rfl,rfl⟩ | ⟨rfl,rfl⟩
    · refine ⟨?_,fun member pending named mine => .inr (.inr (hands member pending named mine)),?_⟩
      · intro member there
        by_cases same : member = own
        · subst same
          refine .inr ?_
          rw [decide_eq_true there]
          rfl
        · exact .inl ((mem_drop fleet own member).mpr ⟨there,same⟩)
      · exact fun member read => .inl (read_same read nofun)
    · exact moves_quiet rfl (fun _ => id) nofun
  | zadd deadline own =>
    rcases replied with ⟨rfl,rfl⟩ | ⟨rfl,rfl | rfl⟩
    · exact moves_put may.1 nofun
    · exact moves_quiet rfl (fun _ => id) nofun
    · exact moves_put may.1 nofun
  | putBack deadline own =>
    have same := replied
    unfold Sweep.Replied at same
    subst same
    exact moves_put may.1 nofun
  | remove key =>
    have same : taken ((⟨.remove key,reply⟩ : (command : Sweep numbers) × command.Reply) :: log) = taken log := rfl
    rcases replied with ⟨_,rfl⟩ | ⟨_,rfl⟩
    · exact moves_quiet same (fun _ => id) nofun
    · exact moves_quiet same (fun _ => id) nofun

/-- What a command does to the account of the jobs that sweeps removed. -/
structure Accounts (fleet next : Fleet numbers) (log : Log numbers) (said : (command : Sweep numbers) × command.Reply) :
    Prop where
  told : ∀ key, (next.lost.count key : Int) + owed key (said :: log) + (fleet.removed.map Prod.fst).count key =
    fleet.lost.count key + owed key log + (next.removed.map Prod.fst).count key
  removed : next.removed = fleet.removed ∧ next.jobs = fleet.jobs ∨
    ∃ key, fleet.stateAt key ∈ NOT_STARTED_STATES ∧ next.removed = (key,fleet.stateAt key) :: fleet.removed ∧
      next.jobs = fleet.jobs.erase key ∧ key ∈ next.past

private theorem accounts_quiet {said : (command : Sweep numbers) × command.Reply}
    (same : ∀ key, owed key (said :: log) = owed key log) (lost : next.lost = fleet.lost)
    (removed : next.removed = fleet.removed) (jobs : next.jobs = fleet.jobs) : Accounts fleet next log said where
  told key := by rw [same,lost,removed]
  removed := .inl ⟨removed,jobs⟩

private theorem replied_accounts (replied : command.Replied fleet reply next) (careful : Careful fleet command reply next) :
    Accounts fleet next log ⟨command,reply⟩ := by
  cases command with
  | now | zrangebyscore | getJob | getState =>
    obtain ⟨_,rfl⟩ := replied
    exact accounts_quiet (fun _ => rfl) rfl rfl rfl
  | isPaused | liveHosts | dropModelAttempt | putBack =>
    have same := replied
    unfold Sweep.Replied at same
    subst same
    exact accounts_quiet (fun _ => rfl) rfl rfl rfl
  | zrem | zadd =>
    rcases replied with ⟨_,rfl⟩ | ⟨_,same⟩
    · exact accounts_quiet (fun _ => rfl) rfl rfl rfl
    · rcases same with rfl | rfl <;> exact accounts_quiet (fun _ => rfl) rfl rfl rfl
  | onLost key job =>
    have same := replied
    unfold Sweep.Replied at same
    subst same
    refine ⟨?_,.inl ⟨rfl,rfl⟩⟩
    intro other
    change (((key :: fleet.lost).count other : Nat) : Int) + (owed other log - if key = other then 1 else 0) + _ = _
    rw [List.count_cons]
    by_cases same : key = other
    · simp only [same,beq_self_eq_true,if_true]
      omega
    · simp only [same,beq_iff_eq,if_false]
      omega
  | remove key =>
    rcases replied with ⟨idle,rfl⟩ | ⟨rfl,rfl⟩
    · match reply with
      | .error fault =>
        have same : fleet.without key = fleet := careful.2 rfl
        rw [same]
        exact accounts_quiet (fun _ => rfl) rfl rfl rfl
      | .ok done =>
        refine ⟨?_,.inr ⟨key,careful.1.resolve_right idle,rfl,rfl,List.mem_cons_self⟩⟩
        intro other
        change _ + (owed other log + if key = other then 1 else 0) + _ =
          _ + _ + (((key :: fleet.removed.map Prod.fst).count other : Nat) : Int)
        rw [List.count_cons]
        by_cases same : key = other
        · simp only [same,beq_self_eq_true,if_true,Fleet.without]
          omega
        · simp only [same,beq_iff_eq,if_false,Fleet.without]
          omega
    · exact accounts_quiet (fun _ => rfl) rfl rfl rfl

end Steps

section Runs

variable (given)

/-- What every interleaving of sweeps keeps. -/
structure Standing (fleet : Fleet numbers) (all : List (Log numbers)) : Prop where
  orderly : Orderly given fleet
  known : Known (Fact given) fleet all
  kept : ∀ member pending, parsePendingMember numbers member = some pending → (∃ log ∈ all, Read log member) →
    member ∈ fleet.pending.keys ∨ (∃ log ∈ all, taken log = some member) ∨ pending.key ∈ fleet.past
  told : ∀ key, (fleet.lost.count key : Int) + (all.map (owed key)).sum = (fleet.removed.map Prod.fst).count key
  once : (fleet.removed.map Prod.fst).Nodup
  gone : ∀ key ∈ fleet.removed.map Prod.fst, key ∈ fleet.past ∧ key ∉ fleet.jobs.keys
  waiting : ∀ entry ∈ fleet.removed, entry.2 ∈ NOT_STARTED_STATES

variable {given} {all before after : List (Log numbers)} {log : Log numbers} {command : Sweep numbers}
  {reply : command.Reply}

private theorem Standing.start (orderly : Orderly given fleet) (removed : fleet.removed = []) (lost : fleet.lost = []) :
    Standing given fleet [] where
  orderly := orderly
  known _ none := absurd none List.not_mem_nil
  kept _ _ _ read := by
    obtain ⟨log,none,_⟩ := read
    exact absurd none List.not_mem_nil
  told key := by simp [removed,lost]
  once := by simp [removed]
  gone key member := by simp [removed] at member
  waiting entry member := by simp [removed] at member

private theorem Standing.enter (standing : Standing given fleet all) : Standing given fleet (all ++ [[]]) where
  orderly := standing.orderly
  known := known_enter standing.known
  kept member pending own read := by
    obtain ⟨log,inside,read⟩ := read
    rcases List.mem_append.mp inside with old | new
    · rcases standing.kept member pending own ⟨log,old,read⟩ with there | ⟨other,among,mine⟩ | past
      · exact .inl there
      · exact .inr (.inl ⟨other,List.mem_append_left _ among,mine⟩)
      · exact .inr (.inr past)
    · rw [List.mem_singleton.mp new] at read
      obtain ⟨_,_,_,_,none,_⟩ := read
      exact absurd none List.not_mem_nil
  told key := by simpa [owed] using standing.told key
  once := standing.once
  gone := standing.gone
  waiting := standing.waiting

private theorem Standing.drift (standing : Standing given fleet all) (drift : Drift given fleet next) :
    Standing given next all where
  orderly := drift.orderly standing.orderly
  known heard inside said member := by
    refine fact_lasts ⟨drift.past,?_⟩ (standing.known heard inside said member)
    rintro key (there | past)
    · exact drift.left key there
    · exact .inr (drift.past key past)
  kept member pending own read := by
    rcases standing.kept member pending own read with there | mine | past
    · exact .inl (drift.members member there)
    · exact .inr (.inl mine)
    · exact .inr (.inr (drift.past _ past))
  told key := by
    rw [drift.removed,drift.lost]
    exact standing.told key
  once := by
    rw [drift.removed]
    exact standing.once
  gone key member := by
    rw [drift.removed] at member
    obtain ⟨past,absent⟩ := standing.gone key member
    exact ⟨drift.past key past,drift.gone key past absent⟩
  waiting entry member := standing.waiting entry (drift.removed ▸ member)

private theorem kept_moved {said : (command : Sweep numbers) × command.Reply}
    (kept : ∀ member pending, parsePendingMember numbers member = some pending →
      (∃ other ∈ before ++ log :: after, Read other member) →
      member ∈ fleet.pending.keys ∨ (∃ other ∈ before ++ log :: after, taken other = some member) ∨ pending.key ∈ fleet.past)
    (moves : Moves fleet next log said) (lasts : Lasts fleet next) (member : Text) (pending : Pending)
    (own : parsePendingMember numbers member = some pending)
    (read : ∃ other ∈ before ++ (said :: log) :: after, Read other member) :
    member ∈ next.pending.keys ∨ (∃ other ∈ before ++ (said :: log) :: after, taken other = some member) ∨
      pending.key ∈ next.past := by
  have acting : said :: log ∈ before ++ (said :: log) :: after := by simp
  have earlier : (∃ other ∈ before ++ log :: after, Read other member) ∨ member ∈ next.pending.keys := by
    obtain ⟨other,inside,read⟩ := read
    rcases List.mem_append.mp inside with old | later
    · exact .inl ⟨other,List.mem_append_left _ old,read⟩
    · rcases List.mem_cons.mp later with rfl | later
      · exact (moves.reads member read).imp_left fun read => ⟨log,by simp,read⟩
      · exact .inl ⟨other,by simp [later],read⟩
  rcases earlier with earlier | there
  · rcases kept member pending own earlier with there | ⟨other,inside,mine⟩ | past
    · exact (moves.members member there).imp_right fun mine => .inl ⟨_,acting,mine⟩
    · rcases List.mem_append.mp inside with old | later
      · exact .inr (.inl ⟨other,List.mem_append_left _ old,mine⟩)
      · rcases List.mem_cons.mp later with rfl | later
        · rcases moves.hands member pending own mine with held | there | past
          · exact .inr (.inl ⟨_,acting,held⟩)
          · exact .inl there
          · exact .inr (.inr past)
        · exact .inr (.inl ⟨other,by simp [later],mine⟩)
    · exact .inr (.inr (lasts.past _ past))
  · exact .inl there

private theorem Standing.answered (standing : Standing given fleet (before ++ log :: after)) (may : May log command)
    (replied : command.Replied fleet reply next) (careful : Careful fleet command reply next) :
    Standing given next (before ++ (⟨command,reply⟩ :: log) :: after) := by
  have inside : log ∈ before ++ log :: after := by simp
  have lasts := replied_lasts replied
  have accounts := @replied_accounts _ _ _ log _ _ replied careful
  refine ⟨replied_orderly standing.orderly standing.known inside may replied,?_,?_,?_,?_,?_,?_⟩
  · exact known_answered standing.known (fun _ _ => fact_lasts lasts)
      (replied_fact standing.orderly standing.known inside may replied)
  · exact kept_moved standing.kept (replied_moves standing.known inside may replied) lasts
  · intro key
    have before := standing.told key
    have step := accounts.told key
    simp only [List.map_append,List.map_cons,List.sum_append,List.sum_cons] at before ⊢
    omega
  · rcases accounts.removed with ⟨same,_⟩ | ⟨key,waits,grown,_,_⟩
    · rw [same]
      exact standing.once
    · rw [grown,List.map_cons,List.nodup_cons]
      exact ⟨fun member => (standing.gone key member).2 (stateAt_present waits),standing.once⟩
  · rcases accounts.removed with ⟨same,jobs⟩ | ⟨key,waits,grown,jobs,past⟩
    · rw [same,jobs]
      exact fun other member => ⟨lasts.past other (standing.gone other member).1,(standing.gone other member).2⟩
    · rw [grown,jobs]
      intro other member
      rw [Dict.keys_erase,List.mem_filter,decide_eq_true_eq]
      rcases List.mem_cons.mp member with rfl | member
      · exact ⟨past,fun there => there.2 rfl⟩
      · obtain ⟨known,absent⟩ := standing.gone other member
        exact ⟨lasts.past other known,fun there => absent there.1⟩
  · rcases accounts.removed with ⟨same,_⟩ | ⟨key,waits,grown,_,_⟩
    · rw [same]
      exact standing.waiting
    · rw [grown]
      intro entry member
      rcases List.mem_cons.mp member with rfl | member
      · exact waits
      · exact standing.waiting entry member

theorem sweeps_stand {start : Fleet numbers} (orderly : Orderly given start) (removed : start.removed = [])
    (lost : start.lost = []) {world : World (Fleet numbers) (Watched (Sweeping numbers) Swept)}
    (reached : Reachable (sweeping given Careful) start world) :
    Standing given world.store (world.agents.map Watched.heard) ∧
      ∀ agent ∈ world.agents, agent.program.Conducts May Ends agent.heard ∧ Lawful May agent.heard := by
  refine watched_keep (Standing given) ?_ (fun _ _ => Standing.enter) ?_ (Standing.start orderly removed lost) reached
  · rintro _ rfl
    exact sweepHostLost_conducts
  · intro store store' before heard after command reply standing may served
    obtain ⟨middle,drift,replied,careful⟩ := served
    exact (standing.drift drift).answered may replied careful

private theorem readJob_later {said : (command : Sweep numbers) × command.Reply} {key : Key} (read : ReadJob log key) :
    ReadJob (said :: log) key := by
  obtain ⟨member,pending,⟨deadline,read⟩,own,same⟩ := read
  exact ⟨member,pending,⟨deadline,readAt_later read⟩,own,same⟩

/-- A sweep owes nothing of a job that it read no member of, and never less than nothing. -/
private theorem owed_read (lawful : Lawful May log) (key : Key) :
    0 ≤ owed key log ∧ (owed key log ≠ 0 → ReadJob log key) := by
  induction log with
  | nil => exact ⟨le_rfl,fun owes => absurd rfl owes⟩
  | cons said log ih =>
    obtain ⟨command,reply⟩ := said
    obtain ⟨may,lawful⟩ := lawful
    obtain ⟨least,read⟩ := ih lawful
    have quiet : owed key (⟨command,reply⟩ :: log) = owed key log →
        0 ≤ owed key (⟨command,reply⟩ :: log) ∧
          (owed key (⟨command,reply⟩ :: log) ≠ 0 → ReadJob (⟨command,reply⟩ :: log) key) := by
      intro same
      rw [same]
      exact ⟨least,fun owes => readJob_later (read owes)⟩
    match command,reply with
    | .remove other,.ok done =>
      have shape : owed key (⟨.remove other,.ok done⟩ :: log) = owed key log + if other = key then 1 else 0 := rfl
      rw [shape]
      split
      next same =>
        subst same
        exact ⟨by omega,fun _ => readJob_later may⟩
      · exact ⟨by omega,fun owes => readJob_later (read (by omega))⟩
    | .onLost other job,answer =>
      have shape : owed key (⟨.onLost other job,answer⟩ :: log) = owed key log - if other = key then 1 else 0 := rfl
      rw [shape]
      split
      next same =>
        subst same
        have enough : 1 ≤ owed other log := may.1
        exact ⟨by omega,fun _ => readJob_later may.2.1⟩
      · exact ⟨by omega,fun owes => readJob_later (read (by omega))⟩
    | .remove _,.error _ | .now,_ | .zrangebyscore _ _,_ | .zrem _,_ | .getJob _,_ | .getState _,_ | .isPaused _,_
    | .liveHosts,_ | .zadd _ _,_ | .putBack _ _,_ | .dropModelAttempt _,_ => exact quiet rfl

/-- A sweep that has returned. -/
def Returned (agent : Watched (Sweeping numbers) Swept) : Prop := ∃ swept, agent.program = .done swept

private theorem returned_settled {agent : Watched (Sweeping numbers) Swept} (returned : Returned agent)
    (conducts : agent.program.Conducts May Ends agent.heard) : Settled agent.heard := by
  obtain ⟨swept,shape⟩ := returned
  rw [shape] at conducts
  exact conducts

variable {start : Fleet numbers} {world : World (Fleet numbers) (Watched (Sweeping numbers) Swept)}

private theorem taken_read (lawful : Lawful May log) {member : Text} (mine : taken log = some member) :
    Read log member := by
  induction log with
  | nil => cases mine
  | cons said log ih =>
    obtain ⟨command,reply⟩ := said
    obtain ⟨may,lawful⟩ := lawful
    have later : taken log = some member → Read (⟨command,reply⟩ :: log) member := by
      intro held
      obtain ⟨deadline,read⟩ := ih lawful held
      exact ⟨deadline,readAt_later read⟩
    match command,reply with
    | .zrem own,.ok true =>
      obtain ⟨deadline,read⟩ := may.1
      cases Option.some.inj mine
      exact ⟨deadline,readAt_later read⟩
    | .zadd _ _,.ok _ | .putBack _ _,_ => cases mine
    | .zrem _,.error _ | .zrem _,.ok false | .zadd _ _,.error _ | .now,_ | .zrangebyscore _ _,_ | .getJob _,_
    | .getState _,_ | .isPaused _,_ | .liveHosts,_ | .remove _,_ | .dropModelAttempt _,_ | .onLost _ _,_ => exact later mine

private theorem owed_sum
    (conducts : ∀ agent ∈ world.agents, agent.program.Conducts May Ends agent.heard ∧ Lawful May agent.heard) (key : Key) :
    0 ≤ ((world.agents.map Watched.heard).map (owed key)).sum := by
  refine List.sum_nonneg ?_
  intro amount member
  obtain ⟨log,inside,rfl⟩ := List.mem_map.mp member
  obtain ⟨agent,acting,rfl⟩ := List.mem_map.mp inside
  exact (owed_read (conducts agent acting).2 key).1

/-- A member whose readers have all returned is in the set, or its job's wait is over. -/
private theorem member_kept (standing : Standing given world.store (world.agents.map Watched.heard))
    (conducts : ∀ agent ∈ world.agents, agent.program.Conducts May Ends agent.heard ∧ Lawful May agent.heard)
    {member : Text} {pending : Pending} (own : parsePendingMember numbers member = some pending)
    (read : ∃ agent ∈ world.agents, Read agent.heard member)
    (returned : ∀ agent ∈ world.agents, Read agent.heard member → Returned agent) :
    (∃ deadline, world.store.pending.get? member = some deadline ∧ Fits given member pending deadline) ∨
      pending.key ∈ world.store.past := by
  obtain ⟨reader,among,read⟩ := read
  rcases standing.kept member pending own ⟨reader.heard,List.mem_map_of_mem among,read⟩ with there | ⟨log,inside,mine⟩ | past
  · obtain ⟨deadline,held⟩ := Option.isSome_iff_exists.mp ((Dict.get?_isSome_iff world.store.pending member).mpr there)
    exact .inl ⟨deadline,held,standing.orderly.deadlines member deadline held pending own⟩
  · obtain ⟨agent,acting,rfl⟩ := List.mem_map.mp inside
    obtain ⟨follows,lawful⟩ := conducts agent acting
    have settled := returned_settled (returned agent acting (taken_read lawful mine)) follows
    exact .inr (over_past standing.known inside (settled.ended member pending mine own))
  · exact .inr past

/-- Of a job that a sweep removed the run is told at most once, and once when the sweeps that read it have returned. -/
private theorem removed_told (standing : Standing given world.store (world.agents.map Watched.heard))
    (conducts : ∀ agent ∈ world.agents, agent.program.Conducts May Ends agent.heard ∧ Lawful May agent.heard) {key : Key}
    (removed : key ∈ world.store.removed.map Prod.fst) :
    world.store.lost.count key ≤ 1 ∧
      ((∀ agent ∈ world.agents, ReadJob agent.heard key → Returned agent) → world.store.lost.count key = 1) := by
  have told := standing.told key
  rw [List.count_eq_one_of_mem standing.once removed] at told
  have least := owed_sum conducts key
  refine ⟨by omega,?_⟩
  intro returned
  have even : ((world.agents.map Watched.heard).map (owed key)).sum = 0 := by
    refine List.sum_eq_zero ?_
    intro amount member
    obtain ⟨log,inside,rfl⟩ := List.mem_map.mp member
    obtain ⟨agent,acting,rfl⟩ := List.mem_map.mp inside
    obtain ⟨follows,lawful⟩ := conducts agent acting
    by_contra owes
    have settled := returned_settled (returned agent acting ((owed_read lawful key).2 owes)) follows
    exact owes (settled.told key)
  omega

/-- No queued recovery is forgotten while every remove finds its job still waiting or held by a worker. -/
theorem none_forgotten (orderly : Orderly given start) (removed : start.removed = []) (lost : start.lost = [])
    (reached : Reachable (sweeping given Careful) start world) :
    (∀ member pending, parsePendingMember numbers member = some pending →
      (∃ agent ∈ world.agents, Read agent.heard member) →
      (∀ agent ∈ world.agents, Read agent.heard member → Returned agent) →
      (∃ deadline, world.store.pending.get? member = some deadline ∧ Fits given member pending deadline) ∨
        pending.key ∈ world.store.past) ∧
    (∀ key ∈ world.store.removed.map Prod.fst, key ∉ world.store.jobs.keys ∧ world.store.lost.count key ≤ 1 ∧
      ((∀ agent ∈ world.agents, ReadJob agent.heard key → Returned agent) → world.store.lost.count key = 1)) ∧
    (∀ key ∈ world.store.lost, ∃ state ∈ NOT_STARTED_STATES, (key,state) ∈ world.store.removed) ∧
    ∀ agent ∈ world.agents, ∀ later key job reply earlier,
      agent.heard = later ++ ⟨.onLost key job,reply⟩ :: earlier → Warranted key earlier := by
  obtain ⟨standing,conducts⟩ := sweeps_stand orderly removed lost reached
  refine ⟨?_,?_,?_,?_⟩
  · exact fun member pending own read returned => member_kept standing conducts own read returned
  · exact fun key member => ⟨(standing.gone key member).2,removed_told standing conducts member⟩
  · intro key member
    have told := standing.told key
    have counted := List.count_pos_iff.mpr member
    have least : 0 ≤ ((world.agents.map Watched.heard).map (owed key)).sum := owed_sum conducts key
    have there : key ∈ world.store.removed.map Prod.fst := List.count_pos_iff.mp (by omega)
    obtain ⟨⟨other,state⟩,entry,rfl⟩ := List.mem_map.mp there
    exact ⟨state,standing.waiting _ entry,entry⟩
  · intro agent acting later key job reply earlier shape
    have lawful := (conducts agent acting).2
    rw [shape] at lawful
    exact (lawful_at lawful).2.2

end Runs

section Samples

/-- Every command answered, no queue paused and no host live. -/
def Sweep.answer (fleet : Fleet numbers) : (command : Sweep numbers) → command.Reply × Fleet numbers
  | .now => (fleet.clock,fleet)
  | .zrangebyscore until' limit => (.ok (fleet.due until' limit),fleet)
  | .zrem member => (.ok (decide (member ∈ fleet.pending.keys)),fleet.drop member)
  | .getJob key => (.ok (fleet.jobs.get? key),fleet)
  | .getState key => (.ok (fleet.stateAt key),fleet)
  | .isPaused _ => (.ok false,fleet)
  | .liveHosts => (.ok (some []),fleet)
  | .zadd deadline member => (.ok (),fleet.put deadline member)
  | .putBack deadline member => ((),fleet.put deadline member)
  | .remove key => if fleet.stateAt key = .active then (.error (),fleet) else (.ok (),fleet.without key)
  | .dropModelAttempt _ => ((),fleet)
  | .onLost key _ => (.ok (),{ fleet with lost := key :: fleet.lost })

/-- The job is done by the time the command arrives. -/
def Fleet.finished (fleet : Fleet numbers) (key : Key) : Fleet numbers :=
  { fleet with
    jobs := fleet.jobs.mapValues fun other job => if other = key then { job with state := .completed } else job
    past := key :: fleet.past }

def recoveryKey : Key := (QUEUE,recoveryId)

def waitingMember : Text := pendingMember SteerFrames.tokens QUEUE recoveryId (Utf16.spell "h") 0

/-- One recovery that waits past its deadline. -/
def waitingFleet : Fleet SteerFrames.tokens where
  clock := 100
  claims := .empty
  jobs := Dict.empty.set recoveryKey ⟨none,.null,1,FORGE_JOB_RETENTION_S,.waiting⟩
  pending := Dict.empty.set waitingMember 10
  past := []
  removed := []
  lost := []

theorem answer_replied (fleet : Fleet numbers) (command : Sweep numbers) :
    command.Replied fleet (command.answer fleet).1 (command.answer fleet).2 := by
  cases command with
  | now => exact ⟨rfl,rfl⟩
  | zrangebyscore | getJob | getState => exact ⟨.inl rfl,rfl⟩
  | zrem | zadd => exact .inl ⟨rfl,rfl⟩
  | isPaused | liveHosts | putBack | dropModelAttempt | onLost => rfl
  | remove key =>
    unfold Sweep.answer
    dsimp only
    split
    · exact .inr ⟨rfl,rfl⟩
    next idle => exact .inl ⟨idle,rfl⟩

private theorem drift_refl (given : Text → Int → Prop) (fleet : Fleet numbers) : Drift given fleet fleet :=
  ⟨id,rfl,rfl,fun _ => id,fun _ => .inl,fun _ _ => id,fun _ => id⟩

private theorem drift_finished (given : Text → Int → Prop) (fleet : Fleet numbers) (key : Key) :
    Drift given fleet (fleet.finished key) := by
  have same : (fleet.finished key).jobs.keys = fleet.jobs.keys := Dict.keys_mapValues _ _
  refine ⟨?_,rfl,rfl,fun _ => List.mem_cons_of_mem _,?_,?_,fun _ => id⟩
  · intro orderly
    refine ⟨?_,?_,orderly.deadlines⟩
    · intro other job found ended
      unfold Fleet.finished at found
      dsimp only at found
      rw [Dict.get?_mapValues] at found
      obtain ⟨held,there,shape⟩ := Option.map_eq_some_iff.mp found
      by_cases own : other = key
      · rw [own]
        exact List.mem_cons_self
      · rw [if_neg own] at shape
        subst shape
        exact List.mem_cons_of_mem _ (orderly.begun other held there ended)
    · intro member inside pending own
      rw [same]
      exact (orderly.named member inside pending own).imp_right (List.mem_cons_of_mem _)
  · intro other there
    rw [same]
    exact .inl there
  · intro other _ absent
    rw [same]
    exact absent

def anyReply (_ : Fleet SteerFrames.tokens) (command : Sweep SteerFrames.tokens) (_ : command.Reply)
    (_ : Fleet SteerFrames.tokens) : Prop := True

def noneGiven (_ : Text) (_ : Int) : Prop := False

/-- One sweep that reads the job as waiting, and removes it when it is done. -/
def finishedMeanwhile : World (Fleet SteerFrames.tokens) (Watched (Sweeping SteerFrames.tokens) Swept) :=
  let agency := sweeping noneGiven anyReply
  let read := agency.turns Sweep.answer ⟨waitingFleet,[⟨sweepHostLost,[]⟩]⟩ [0,0,0,0,0,0,0,0]
  agency.turns Sweep.answer (agency.turn (fun fleet command => command.answer (fleet.finished recoveryKey)) 0 read) [0,0]

theorem finishedMeanwhile_reached : Reachable (sweeping noneGiven anyReply) waitingFleet finishedMeanwhile := by
  have answered : ∀ fleet command, (sweeping noneGiven anyReply).serves fleet command (Sweep.answer fleet command).1
      (Sweep.answer fleet command).2 :=
    fun fleet command => ⟨fleet,drift_refl _ fleet,answer_replied fleet command,trivial⟩
  refine reachable_turns (sweeping noneGiven anyReply) Sweep.answer answered _
    (reachable_turn (sweeping noneGiven anyReply) _ ?_ 0
      (reachable_turns (sweeping noneGiven anyReply) Sweep.answer answered _
        (reachable_entered (sweeping noneGiven anyReply) waitingFleet _ ?_)))
  · exact fun fleet command => ⟨fleet.finished recoveryKey,drift_finished _ fleet _,answer_replied _ command,trivial⟩
  · intro agent member
    rw [List.mem_singleton.mp member]
    exact ⟨rfl,rfl⟩

private theorem finishedMeanwhile_told : (finishedMeanwhile.store.removed,finishedMeanwhile.store.lost) =
    ([(recoveryKey,.completed)],[recoveryKey]) := by
  decide +kernel

/-- A job that finishes between the sweep's look and its remove is told as lost. -/
theorem finished_told_lost : ∃ world, Reachable (sweeping noneGiven anyReply) waitingFleet world ∧
    recoveryKey ∈ world.store.lost ∧ ∀ state ∈ NOT_STARTED_STATES, (recoveryKey,state) ∉ world.store.removed := by
  have told := Prod.mk.inj finishedMeanwhile_told
  refine ⟨finishedMeanwhile,finishedMeanwhile_reached,?_,?_⟩
  · rw [told.2]
    exact List.mem_singleton.mpr rfl
  · rw [told.1]
    decide

private theorem waiting_orderly : Orderly noneGiven waitingFleet := by
  have back : parsePendingMember SteerFrames.tokens waitingMember = some ⟨QUEUE,recoveryId,Utf16.spell "h",0⟩ :=
    parsePendingMember_written SteerFrames.tokens (by decide) (by decide) (by decide) (by decide)
  have alone : ∀ member ∈ waitingFleet.pending.keys, member = waitingMember := fun member inside => List.mem_singleton.mp inside
  refine ⟨?_,?_,?_⟩
  · intro key job found ended
    have shape : (if recoveryKey = key then some (Job.mk none .null 1 FORGE_JOB_RETENTION_S .waiting : Job SteerFrames.tokens)
        else none) = some job := by
      rw [← found]
      exact (Dict.get?_set (Dict.empty : Dict Key (Job SteerFrames.tokens)) recoveryKey key _).symm
    split at shape
    · cases shape
      exact absurd (by decide) ended
    · cases shape
  · intro member inside pending own
    rw [alone member inside,back] at own
    cases own
    exact .inl (List.mem_singleton.mpr rfl)
  · intro member deadline held pending own
    have inside : member ∈ waitingFleet.pending.keys := (Dict.get?_isSome_iff _ member).mp (by rw [held]; rfl)
    rw [alone member inside] at held own
    rw [back] at own
    cases own
    have same : some deadline = some 10 := by
      rw [← held]
      exact Dict.get?_set_self (Dict.empty : Dict Text Int) waitingMember 10
    cases same
    exact .inl (by decide)

/-- A remove finds the job where it waits or held by a worker. -/
def looks (fleet : Fleet SteerFrames.tokens) : Sweep SteerFrames.tokens → Bool
  | .remove key => fleet.stateAt key ∈ NOT_STARTED_STATES || fleet.stateAt key = .active
  | _ => true

/-- One sweep with the fleet to itself. -/
def sweptAlone : World (Fleet SteerFrames.tokens) (Watched (Sweeping SteerFrames.tokens) Swept) :=
  (sweeping noneGiven Careful).turns Sweep.answer ⟨waitingFleet,[⟨sweepHostLost,[]⟩]⟩ [0,0,0,0,0,0,0,0,0,0,0]

theorem sweptAlone_reached : Reachable (sweeping noneGiven Careful) waitingFleet sweptAlone := by
  refine reachable_passes (sweeping noneGiven Careful) Sweep.answer looks ?_ _
    (reachable_entered (sweeping noneGiven Careful) waitingFleet _ ?_) (by decide +kernel)
  · intro fleet command looked
    refine ⟨fleet,drift_refl _ fleet,answer_replied fleet command,?_⟩
    cases command with
    | remove key =>
      refine ⟨by simpa [looks] using looked,?_⟩
      unfold Sweep.answer
      dsimp only
      split
      · exact fun _ => rfl
      · exact nofun
    | now | zrangebyscore | zrem | getJob | getState | isPaused | liveHosts | zadd | putBack | dropModelAttempt | onLost =>
      trivial
  · intro agent member
    rw [List.mem_singleton.mp member]
    exact ⟨rfl,rfl⟩

theorem none_forgotten_alone : recoveryKey ∉ sweptAlone.store.jobs.keys ∧ sweptAlone.store.lost.count recoveryKey ≤ 1 :=
  have told := (none_forgotten waiting_orderly rfl rfl sweptAlone_reached).2.1 recoveryKey (by decide +kernel)
  ⟨told.1,told.2.1⟩

end Samples

end PiDispatch.RecoveryQueue
