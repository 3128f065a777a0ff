import PiDispatch.HostBudgetMoves

/-! The oldest waiting job's room is never given away: under one budget and without `minJobs`, whatever is admitted
after it became the oldest leaves room for it, so that it starts once the jobs before it are gone. -/
namespace PiDispatch.HostBudget
open PiDispatch.Kernel

/-- Strictly older, or as old with the smaller id. -/
def before (left right : Waiter) : Prop := byAge left right = true ∧ byAge right left = false

/-- The oldest unsuspended waiter. -/
def Oldest (waiter : Waiter) (waiters : Dict String Waiter) : Prop :=
  waiters.get? waiter.id = some waiter ∧ waiter.suspended = false ∧
  ∀ id other, waiters.get? id = some other → id ≠ waiter.id → other.suspended = false → before waiter other

private theorem byAge_total (left right : Waiter) : byAge left right = true ∨ byAge right left = true := by
  simp only [byAge,decide_eq_true_eq]
  rcases lt_trichotomy left.firstAt right.firstAt with older | same | younger
  · exact .inl (.inl older)
  · exact (notAfter_total left.id right.id).imp (fun least => .inr ⟨same,least⟩)
      fun least => .inr ⟨same.symm,least⟩
  · exact .inr (.inl younger)

private theorem byAge_trans (left middle right : Waiter) (first : byAge left middle = true)
    (second : byAge middle right = true) : byAge left right = true := by
  simp only [byAge,decide_eq_true_eq] at first second ⊢
  rcases first with older | ⟨same,least⟩
  · exact .inl (second.elim older.trans fun tie => tie.1 ▸ older)
  · exact second.imp (fun older => same ▸ older) fun ⟨same',least'⟩ =>
      ⟨same.trans same',notAfter_trans least least'⟩

/-- Sorting by age puts the oldest waiter first. -/
private theorem activeWaiters_oldest {waiter : Waiter} {waiters : Dict String Waiter} (oldest : Oldest waiter waiters) :
    ∃ rest, activeWaiters waiters.values = waiter :: rest := by
  obtain ⟨found,awake,first⟩ := oldest
  have member : waiter ∈ activeWaiters waiters.values := by
    refine (List.mem_insertionSort _).mpr (List.mem_filter.mpr ⟨?_,by simp [awake]⟩)
    exact (waiters.mem_values_iff waiter).mpr ⟨waiter.id,found⟩
  have total : Std.Total fun left right => byAge left right = true := ⟨byAge_total⟩
  have trans : IsTrans Waiter fun left right => byAge left right = true := ⟨byAge_trans⟩
  have sorted := List.pairwise_insertionSort (fun left right => byAge left right = true)
    (waiters.values.filter fun waiter => !waiter.suspended)
  change (activeWaiters waiters.values).Pairwise _ at sorted
  cases shape : activeWaiters waiters.values with
  | nil =>
    rw [shape] at member
    cases member
  | cons head rest =>
    have inside : head ∈ activeWaiters waiters.values := by simp [shape]
    obtain ⟨stored,headAwake⟩ := List.mem_filter.mp ((List.mem_insertionSort _).mp inside)
    obtain ⟨id,here⟩ := (waiters.mem_values_iff head).mp stored
    rcases eq_or_ne id waiter.id with rfl | apart
    · exact ⟨rest,by rw [Option.some.inj (here.symm.trans found)]⟩
    · have younger := (first id head here apart (by simpa using headAwake)).2
      rw [shape] at member sorted
      rcases List.mem_cons.mp member with rfl | later
      · exact ⟨rest,rfl⟩
      · have older := List.rel_of_pairwise_cons sorted later
        rw [older] at younger
        cases younger

private theorem tier1_empty (running minJobsOf : String → Nat) (none : ∀ project, minJobsOf project = 0)
    (active : List Waiter) (seen : List String) : tier1 running minJobsOf active seen = [] := by
  induction active generalizing seen with
  | nil => rfl
  | cons waiter rest ih =>
    unfold tier1
    split
    · exact ih seen
    · split
      · exact ih seen
      · simp [none,ih]

/-- Without `minJobs` the oldest waiter's hold is the only one. -/
theorem rankHolds_oldest {waiter : Waiter} {waiters : Dict String Waiter} (oldest : Oldest waiter waiters)
    (ledger : List Entry) (minJobsOf : String → Nat) (none : ∀ project, minJobsOf project = 0) :
    rankHolds waiters.values ledger minJobsOf = [waiter] := by
  obtain ⟨rest,shape⟩ := activeWaiters_oldest oldest
  unfold rankHolds
  simp [shape,tier1_empty _ _ none]

/-- A limits snapshot that gives no project a least number of jobs. -/
def NoMinJobs (limits : List LimitRow) : Prop := ∀ project, (projectBudgetRow limits project).minJobs = 0

private theorem holdsFor_other {host : Host} {waiter : Waiter} {ask : Ask} {now : Instant}
    (oldest : Oldest waiter host.waiters) (other : ask.id ≠ waiter.id) (younger : before waiter (host.asWaiter ask now))
    (noMin : NoMinJobs ask.limits) : host.holdsFor ask now = [waiter] := by
  refine rankHolds_oldest ⟨?_,oldest.2.1,?_⟩ _ _ noMin
  · rw [Dict.get?_set_ne _ _ other]
    exact oldest.1
  · intro id candidate found apart awake
    rw [Dict.get?_set] at found
    split at found
    · rw [← Option.some.inj found]
      exact younger
    · exact oldest.2.2 id candidate found apart awake

private theorem holdsFor_self {host : Host} {waiter : Waiter} {ask : Ask} {now : Instant}
    (oldest : Oldest waiter host.waiters) (same : ask.id = waiter.id) (noMin : NoMinJobs ask.limits) :
    host.holdsFor ask now = [host.asWaiter ask now] := by
  have age : (host.asWaiter ask now).firstAt = waiter.firstAt := by
    simp [Host.asWaiter,same,oldest.1]
  have id : (host.asWaiter ask now).id = waiter.id := same
  refine rankHolds_oldest ⟨?_,rfl,?_⟩ _ _ noMin
  · exact Dict.get?_set_self ..
  · intro other candidate found apart awake
    have apart : ask.id ≠ other := fun equal => apart equal.symm
    rw [Dict.get?_set_ne _ _ apart] at found
    have older := oldest.2.2 other candidate found (fun equal => apart (same.trans equal.symm)) awake
    unfold before byAge at older ⊢
    rwa [age,id]

/-- What was admitted since a point and still runs. -/
def since (point host : Host) : List Entry := host.entries.filter fun entry => entry ∉ point.entries

/-- A release, or a gate of another, younger job, under one limits snapshot and one count limit. -/
def ByOthers (waiter : Waiter) (limits : List LimitRow) (countLimit : Option Int) (act : Act) (host : Host) : Prop :=
  (∃ id ticket, act = .release id ticket) ∨
  ∃ ask now, act = .gate ask now countLimit ∧ ask.id ≠ waiter.id ∧ ask.limits = limits ∧
    before waiter (host.asWaiter ask now)

/-- What the acts of others leave of a waiting job's room: its hold, and enough beside what came since. -/
structure RoomKept (waiter : Waiter) (countLimit : Option Int) (point host : Host) : Prop where
  budget : host.budget = point.budget
  oldest : Oldest waiter host.waiters
  seeded : host.unseeded ⊆ point.unseeded
  live : ∀ entry ∈ host.entries, entry ∈ point.entries ∨ entry.orphan = none
  mine : ∀ entry, host.ledger.get? waiter.id = some entry → entry ∈ point.entries
  mem : fits ((sumOf ((since point host).map Entry.size)).memMiB + waiter.size.memMiB) host.budget.memMiB
  cpu : fits ((sumOf ((since point host).map Entry.size)).cpuCenti + waiter.size.cpuCenti) host.budget.cpuCenti
  count : ∀ limit ∈ countNow countLimit, (since point host).length + 1 ≤ limit

private theorem roomKept_point {waiter : Waiter} {countLimit : Option Int} {point : Host}
    (oldest : Oldest waiter point.waiters) {share : Option Int}
    (possible : neverFits waiter.size point.budget share = none) (some_job : ∀ limit ∈ countNow countLimit, 1 ≤ limit) :
    RoomKept waiter countLimit point point := by
  have nothing : since point point = [] := by simp [since]
  have fit : fits waiter.size.memMiB point.budget.memMiB ∧ fits waiter.size.cpuCenti point.budget.cpuCenti := by
    unfold neverFits at possible
    split at possible
    · cases possible
    next within => simpa [not_or] using within
  refine ⟨rfl,oldest,List.Subset.refl _,fun entry member => .inl member,?_,?_,?_,?_⟩
  · intro entry found
    exact (point.ledger.mem_values_iff entry).mpr ⟨_,found⟩
  · simpa [nothing,sumOf] using fit.1
  · simpa [nothing,sumOf] using fit.2
  · simpa [nothing] using some_job

/-- A ledger that only lost entries keeps the room. -/
private theorem roomKept_less {waiter : Waiter} {countLimit : Option Int} {point host next : Host}
    (room : RoomKept waiter countLimit point host) (budget : next.budget = host.budget)
    (oldest : Oldest waiter next.waiters) (seeded : next.unseeded ⊆ host.unseeded)
    (part : next.entries.Sublist host.entries)
    (mine : ∀ entry, next.ledger.get? waiter.id = some entry → host.ledger.get? waiter.id = some entry) :
    RoomKept waiter countLimit point next := by
  have fewer : (since point next).Sublist (since point host) := part.filter _
  have sums := sumOf_sublist (fewer.map Entry.size)
  refine ⟨budget.trans room.budget,oldest,List.Subset.trans seeded room.seeded,?_,?_,?_,?_,?_⟩
  · intro entry member
    exact room.live entry (part.subset member)
  · intro entry found
    exact room.mine entry (mine entry found)
  · rw [budget]
    exact fits_mono (Nat.add_le_add_right sums.1 _) room.mem
  · rw [budget]
    exact fits_mono (Nat.add_le_add_right sums.2 _) room.cpu
  · intro limit bound
    exact (Nat.succ_le_succ fewer.length_le).trans (room.count limit bound)

private theorem gate_waiters (config : Config) (host : Host) (ask : Ask) (now : Instant) (countLimit : Option Int) :
    (host.gate config ask now countLimit).2.waiters = host.waiters ∨
    (host.gate config ask now countLimit).2.waiters = host.waiters.erase ask.id ∨
    ∃ suspended, (host.gate config ask now countLimit).2.waiters =
      host.waiters.set ask.id { host.asWaiter ask now with suspended := suspended } := by
  unfold Host.gate
  split
  · exact .inl rfl
  split
  · exact .inl rfl
  split
  · exact .inl rfl
  split
  · exact .inr (.inl rfl)
  · exact .inr (.inr ⟨_,rfl⟩)

/-- Another job's gate leaves the oldest waiter the oldest. -/
private theorem oldest_gate (config : Config) {host : Host} {waiter : Waiter} {ask : Ask} {now : Instant}
    (countLimit : Option Int) (oldest : Oldest waiter host.waiters) (other : ask.id ≠ waiter.id)
    (younger : before waiter (host.asWaiter ask now)) :
    Oldest waiter (host.gate config ask now countLimit).2.waiters := by
  rcases gate_waiters config host ask now countLimit with same | erased | ⟨suspended,stored⟩
  · rw [same]
    exact oldest
  · rw [erased]
    refine ⟨by rw [Dict.get?_erase_ne _ other]; exact oldest.1,oldest.2.1,?_⟩
    intro id candidate found apart awake
    rw [Dict.get?_erase] at found
    split at found
    · cases found
    · exact oldest.2.2 id candidate found apart awake
  · rw [stored]
    refine ⟨by rw [Dict.get?_set_ne _ _ other]; exact oldest.1,oldest.2.1,?_⟩
    intro id candidate found apart awake
    rw [Dict.get?_set] at found
    split at found
    · rw [← Option.some.inj found]
      exact younger
    · exact oldest.2.2 id candidate found apart awake

/-- An admission counted the oldest waiter's hold, so it leaves its room. -/
private theorem roomKept_admitted {waiter : Waiter} {countLimit : Option Int} {point host next : Host} {ask : Ask}
    {now : Instant} (room : RoomKept waiter countLimit point host) (other : ask.id ≠ waiter.id)
    (younger : before waiter (host.asWaiter ask now)) (noMin : NoMinJobs ask.limits)
    (oldest : Oldest waiter next.waiters) (seeded : next.unseeded ⊆ host.unseeded)
    (budget : next.budget = host.budget) (ledger : next.ledger = host.ledger.set ask.id (host.admittedEntry ask now))
    (free : host.ledger.get? ask.id = none) (verdict : host.verdict ask now countLimit = none) :
    RoomKept waiter countLimit point next := by
  unfold Host.verdict at verdict
  obtain ⟨_,_,mem,cpu,count⟩ := (admits_none_iff ..).mp verdict
  have above : holdsAbove (host.holdsFor ask now) (host.asWaiter ask now).id = [waiter] := by
    rw [holdsFor_other room.oldest other younger noMin]
    have apart : waiter.id ≠ (host.asWaiter ask now).id := other.symm
    simp [holdsAbove,apart]
  rw [above] at mem cpu count
  have fresh : next.entries.Perm (host.admittedEntry ask now :: host.entries) := by
    unfold Host.entries
    rw [ledger]
    exact host.ledger.values_perm_fresh ask.id _ free
  have counted : sumOf (host.entries.map Entry.size ++ [ask.size] ++ [waiter.size]) =
      ⟨(sumOf (next.entries.map Entry.size)).memMiB + waiter.size.memMiB,
        (sumOf (next.entries.map Entry.size)).cpuCenti + waiter.size.cpuCenti⟩ := by
    rw [sumOf_append,sumOf_perm (fresh.map Entry.size)]
    have same : sumOf ((host.admittedEntry ask now :: host.entries).map Entry.size) =
        sumOf (host.entries.map Entry.size ++ [ask.size]) := sumOf_perm (List.perm_append_singleton ask.size _).symm
    rw [same]
    simp [sumOf]
  have counted : sumOf (host.entries.map Entry.size ++ [(host.asWaiter ask now).size] ++ [waiter].map Waiter.size) =
      ⟨(sumOf (next.entries.map Entry.size)).memMiB + waiter.size.memMiB,
        (sumOf (next.entries.map Entry.size)).cpuCenti + waiter.size.cpuCenti⟩ := counted
  have sums := sumOf_sublist (List.Sublist.map Entry.size
    (List.filter_sublist : (since point next).Sublist next.entries))
  rw [counted] at mem cpu
  refine ⟨budget.trans room.budget,oldest,List.Subset.trans seeded room.seeded,?_,?_,?_,?_,?_⟩
  · intro entry member
    rcases List.mem_cons.mp (fresh.mem_iff.mp member) with rfl | old
    · exact .inr rfl
    · exact room.live entry old
  · intro entry found
    rw [ledger,Dict.get?_set_ne _ _ other] at found
    exact room.mine entry found
  · rw [budget]
    exact fits_mono (Nat.add_le_add_right sums.1 _) mem
  · rw [budget]
    exact fits_mono (Nat.add_le_add_right sums.2 _) cpu
  · intro limit bound
    have all := count limit bound
    have fewer : (since point next).length ≤ next.entries.length := List.length_filter_le ..
    have one : next.entries.length = host.entries.length + 1 := fresh.length_eq
    simp only [List.length_append,List.length_map,List.length_singleton] at all
    omega

private theorem roomKept_step {config : Config} {waiter : Waiter} {limits : List LimitRow} {countLimit : Option Int}
    {point host : Host} {act : Act} (noMin : NoMinJobs limits) (room : RoomKept waiter countLimit point host)
    (allowed : ByOthers waiter limits countLimit act host) :
    RoomKept waiter countLimit point (step config act host).2 := by
  have move := moves config host act
  rcases allowed with ⟨id,ticket,rfl⟩ | ⟨ask,now,rfl,other,rfl,younger⟩
  · have waiters : (step config (.release id ticket) host).2.waiters = host.waiters := by
      simp only [step]
      unfold Host.release
      split <;> rfl
    have oldest := room.oldest
    rw [← waiters] at oldest
    generalize (step config (.release id ticket) host).1 = answer,
      (step config (.release id ticket) host).2 = next at move oldest
    cases move with
    | still kept budget ledger admits gives =>
      refine roomKept_less room budget oldest kept.unseeded ?_ ?_
      · unfold Host.entries
        rw [ledger]
      · intro entry found
        rwa [ledger] at found
    | released kept budget ledger held =>
      refine roomKept_less room budget oldest kept.unseeded ?_ ?_
      · unfold Host.entries
        rw [ledger]
        exact host.ledger.values_erase id
      · intro entry found
        rw [ledger,Dict.get?_erase] at found
        split at found
        · cases found
        · exact found
  · have oldest := oldest_gate config countLimit room.oldest other younger
    change Oldest waiter (step config (.gate ask now countLimit) host).2.waiters at oldest
    generalize (step config (.gate ask now countLimit) host).1 = answer,
      (step config (.gate ask now countLimit) host).2 = next at move oldest
    cases move with
    | still kept budget ledger admits gives =>
      refine roomKept_less room budget oldest kept.unseeded ?_ ?_
      · unfold Host.entries
        rw [ledger]
      · intro entry found
        rwa [ledger] at found
    | admitted kept stamp budget ledger free unnamed verdict =>
      exact roomKept_admitted room other younger noMin oldest kept.unseeded budget ledger free verdict

private theorem blocked_less {config : Config} {less more : List String} {venue : Option String}
    (part : less ⊆ more) (opened : blockedBySeed config more venue = false) :
    blockedBySeed config less venue = false := by
  unfold blockedBySeed at opened ⊢
  split at opened
  next empty =>
    rw [empty] at part
    rw [if_pos (List.subset_nil.mp part)]
  next =>
    split at opened
    · cases opened
    next whole =>
      split
      · rfl
      · rw [if_neg fun member => whole (part member)]
        cases chosen : venue.or config.defaultVenue with
        | none =>
          rw [chosen] at opened
          cases opened
        | some venue =>
          rw [chosen] at opened
          simp only [decide_eq_false_iff_not] at opened ⊢
          exact fun member => opened (part member)

/-- A job that the budget once stopped asks on a venue whose listing is read. -/
private theorem refused_open {config : Config} {past : List (Act × Answer)} {host : Host}
    (run : HostRun config past host) :
    ∀ ask now countLimit why rank, (Act.gate ask now countLimit,Answer.refused (.budget why) rank) ∈ past →
      blockedBySeed config host.unseeded ask.venue = false := by
  refine run.invariant (fun past host => ∀ ask now countLimit why rank,
    (Act.gate ask now countLimit,Answer.refused (.budget why) rank) ∈ past →
      blockedBySeed config host.unseeded ask.venue = false) ?_ ?_
  · intro ask now countLimit why rank member
    cases member
  · intro past host act open_ _ ask now countLimit why rank member
    have kept : (step config act host).2.unseeded ⊆ host.unseeded := by
      have move := moves config host act
      generalize (step config act host).1 = answer,(step config act host).2 = next at move ⊢
      cases move <;> exact Kept.unseeded ‹_›
    rcases List.mem_cons.mp member with now_ | old
    · obtain ⟨rfl,answer⟩ := Prod.mk.inj now_
      refine blocked_less kept ?_
      simp only [step] at answer
      unfold Host.gate at answer
      split at answer
      · cases answer
      next opened => simpa using opened
    · exact blocked_less kept (open_ ask now countLimit why rank old)

/-- With the jobs of the point gone, the oldest waiter's own gate admits it. -/
private theorem oldest_admitted {config : Config} {waiter : Waiter} {countLimit : Option Int} {point host : Host}
    {ask : Ask} (room : RoomKept waiter countLimit point host) (same : ask.id = waiter.id)
    (size : ask.size = waiter.size) (noMin : NoMinJobs ask.limits)
    (opened : blockedBySeed config host.unseeded ask.venue = false)
    (gone : ∀ entry ∈ point.entries, entry ∉ host.entries)
    (within : let share := (projectOf ask.project).bind (Host.shareOf ask)
      withinShare ((ofProject ask.project host.entries).memMiB + ask.size.memMiB) host.budget.memMiB share ∧
      withinShare ((ofProject ask.project host.entries).cpuCenti + ask.size.cpuCenti) host.budget.cpuCenti share)
    (now : Instant) : (host.gate config ask now countLimit).1 = .admitted := by
  have all : since point host = host.entries := by
    refine List.filter_eq_self.mpr fun entry member => ?_
    simpa using fun old => gone entry old member
  have free : ¬(host.ledger.get? ask.id).isSome := by
    rw [same]
    intro taken
    obtain ⟨entry,found⟩ := Option.isSome_iff_exists.mp taken
    exact gone entry (room.mine entry found) ((host.ledger.mem_values_iff entry).mpr ⟨_,found⟩)
  have unnamed : ¬(ask.name.isSome ∧ ∃ entry ∈ host.entries, entry.orphan.bind Orphan.name = ask.name) := by
    rintro ⟨named,entry,member,carried⟩
    rcases room.live entry member with old | live
    · exact gone entry old member
    · rw [live] at carried
      rw [← carried] at named
      cases named
  have above : holdsAbove (host.holdsFor ask now) (host.asWaiter ask now).id = [] := by
    rw [holdsFor_self room.oldest same noMin]
    simp [holdsAbove]
  have verdict : host.verdict ask now countLimit = none := by
    refine (admits_none_iff ..).mpr ⟨within.1,within.2,?_⟩
    rw [above]
    have counted : sumOf (host.entries.map Entry.size ++ [(host.asWaiter ask now).size] ++ ([] : List Waiter).map Waiter.size) =
        ⟨(sumOf (host.entries.map Entry.size)).memMiB + waiter.size.memMiB,
          (sumOf (host.entries.map Entry.size)).cpuCenti + waiter.size.cpuCenti⟩ := by
      simp [sumOf,Host.asWaiter,size]
    have mem := room.mem
    have cpu := room.cpu
    have count := room.count
    rw [all] at mem cpu count
    refine ⟨by rw [counted]; exact mem,by rw [counted]; exact cpu,?_⟩
    intro limit bound
    simpa using count limit bound
  unfold Host.gate
  rw [if_neg (by simp [opened]),if_neg free,if_neg unnamed,verdict]

/-- A waiting job's room is never given away. Let a job that the budget once stopped be the oldest unsuspended waiter
at a point, of a size that fits the host. Through any later gates of younger jobs and any releases, the jobs admitted
since fit the budget and the count together with it; and once the jobs of that point are gone, its own gate admits it
while its project's share allows it. -/
theorem oldest_waiter_keeps_room {config : Config} {past later : List (Act × Answer)} {point host : Host}
    {waiter : Waiter} {ask : Ask} {asked : Instant} {countThen countLimit : Option Int} {why : Why}
    {rank : Option Nat} {limits : List LimitRow} (run : HostRun config past point)
    (refused : (Act.gate ask asked countThen,Answer.refused (.budget why) rank) ∈ past)
    (oldest : Oldest waiter point.waiters) (same : waiter.id = ask.id) (size : waiter.size = ask.size)
    (noMin : NoMinJobs limits) (possible : neverFits ask.size point.budget
      ((projectOf ask.project).bind fun project => (projectBudgetRow limits project).hostShare) = none)
    (someJob : ∀ limit ∈ countNow countLimit, 1 ≤ limit)
    (others : Runs (step config) (ByOthers waiter limits countLimit) point later host) :
    (let admitted := sumOf ((since point host).map Entry.size)
     fits (admitted.memMiB + ask.size.memMiB) point.budget.memMiB ∧
     fits (admitted.cpuCenti + ask.size.cpuCenti) point.budget.cpuCenti ∧
     ∀ limit ∈ countNow countLimit, (since point host).length + 1 ≤ limit) ∧
    ((∀ entry ∈ point.entries, entry ∉ host.entries) → ∀ again now, again.id = ask.id →
      again.project = ask.project → again.size = ask.size → again.venue = ask.venue → again.limits = limits →
      (let mine := ofProject ask.project host.entries
       let share := (projectOf ask.project).bind fun project => (projectBudgetRow limits project).hostShare
       withinShare (mine.memMiB + ask.size.memMiB) point.budget.memMiB share ∧
       withinShare (mine.cpuCenti + ask.size.cpuCenti) point.budget.cpuCenti share) →
      (step config (.gate again now countLimit) host).1 = .admitted) := by
  rw [← size] at possible
  have room : RoomKept waiter countLimit point host :=
    others.invariant (fun _ host => RoomKept waiter countLimit point host) (roomKept_point oldest possible someJob)
      fun _ host act room allowed => roomKept_step noMin room allowed
  have budget := room.budget
  constructor
  · rw [← budget,← size]
    exact ⟨room.mem,room.cpu,room.count⟩
  · rintro gone again now id project sized venue rfl within
    refine oldest_admitted room (id.trans same.symm) (sized.trans size.symm) noMin ?_ gone ?_ now
    · rw [venue]
      exact blocked_less room.seeded (refused_open run ask asked countThen why rank refused)
    · unfold Host.shareOf
      rw [project,sized,budget]
      exact within

/-- A host of 7168 MiB for jobs: one job runs, a big one waits for it and a small one comes after. -/
def waitingConfig : Config := ⟨⟨.auto,.auto,none,none⟩,⟨4096,200⟩,some "local",[]⟩

def waitingAsk (id : String) (memMiB : Nat) : Ask := ⟨id,none,none,⟨memMiB,100⟩,none,some ("pi-job-" ++ id),true,[]⟩

def waitingActs : List Act := [.refresh ⟨some 8192,some 4,none,none⟩,.gate (waitingAsk "first" 4096) 10 (some 3),
  .gate (waitingAsk "big" 3500) 20 (some 3)]

def waitingPoint : Host := after (step waitingConfig) (makeHostBudget waitingConfig) waitingActs

def laterActs : List Act := [.gate (waitingAsk "small" 500) 30 (some 3),.release "first" none,
  .gate (waitingAsk "small" 500) 40 (some 3)]

def laterHost : Host := after (step waitingConfig) waitingPoint laterActs

def bigWaiter : Waiter := ⟨"big",none,⟨3500,100⟩,20,20,20,false,true,1⟩

private theorem bigWaiter_oldest : Oldest bigWaiter waitingPoint.waiters := by
  have only : waitingPoint.waiters.entries = [("big",bigWaiter)] := by decide +kernel
  refine ⟨(Dict.get?_eq_some_iff ..).mpr (by rw [only]; exact List.mem_singleton.mpr rfl),rfl,?_⟩
  intro id other found apart
  rw [Dict.get?_eq_some_iff,only,List.mem_singleton] at found
  exact absurd (congrArg Prod.fst found) apart

theorem oldest_waiter_keeps_room_big_job :
    fits ((sumOf ((since waitingPoint laterHost).map Entry.size)).memMiB + 3500) waitingPoint.budget.memMiB ∧
    (step waitingConfig (.gate (waitingAsk "big" 3500) 50 (some 3)) laterHost).1 = .admitted := by
  have small : ∀ host now, before bigWaiter (host.asWaiter (waitingAsk "small" 500) now) →
      ByOthers bigWaiter [] (some 3) (.gate (waitingAsk "small" 500) now (some 3)) host := by
    intro host now younger
    exact .inr ⟨_,_,rfl,by decide,rfl,younger⟩
  have others : Runs (step waitingConfig) (ByOthers bigWaiter [] (some 3)) waitingPoint _ laterHost :=
    runs_guarded _ _ _ laterActs ⟨small _ _ ⟨by decide +kernel,by decide +kernel⟩,.inl ⟨_,_,rfl⟩,
      small _ _ ⟨by decide +kernel,by decide +kernel⟩,trivial⟩
  have refused : (Act.gate (waitingAsk "big" 3500) 20 (some 3),Answer.refused (.budget .memory) (some 0)) ∈
      answered (step waitingConfig) (makeHostBudget waitingConfig) waitingActs := by decide +kernel
  obtain ⟨room,start⟩ := oldest_waiter_keeps_room (runs_after _ _ waitingActs) refused bigWaiter_oldest rfl rfl
    (fun _ => rfl) (by decide +kernel) (by decide +kernel) others
  exact ⟨room.1,start (by decide +kernel) _ 50 rfl rfl rfl rfl rfl ⟨trivial,trivial⟩⟩

end PiDispatch.HostBudget
