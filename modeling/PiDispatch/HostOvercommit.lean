import PiDispatch.HostBudgetMoves

/-! A host never promises more than it has: what an admission leaves fits the budget, the count and the project's
share, and between admissions nothing but a survivor's listing adds to the ledger. -/
namespace PiDispatch.HostBudget
open PiDispatch.Kernel

def Host.total (host : Host) : Size := sumOf (host.entries.map Entry.size)

/-- A guessed size is always the guess under the budget in force. -/
def Capped (host : Host) : Prop := ∀ entry ∈ host.entries, Host.recap host.budget entry = entry

private theorem recap_twice (budget : Budget) (entry : Entry) :
    Host.recap budget (Host.recap budget entry) = Host.recap budget entry := by
  unfold Host.recap
  cases guessed : entry.guess <;> simp [guessed]

private theorem recap_survivor (budget : Budget) (guess : Size) (now : Instant) (name : String) (survivor : Survivor)
    (stamp : Nat) :
    Host.recap budget (Host.survivorEntry budget guess now name survivor stamp) =
      Host.survivorEntry budget guess now name survivor stamp := by
  unfold Host.recap Host.survivorEntry
  cases Host.labelled survivor <;> simp

private theorem mem_set {ledger : Dict String Entry} {id : String} {entry other : Entry}
    (member : other ∈ (ledger.set id entry).values) : other = entry ∨ other ∈ ledger.values := by
  rcases List.mem_cons.mp ((ledger.values_perm_set id entry).mem_iff.mp member) with here | there
  · exact .inl here
  · exact .inr ((ledger.values_erase id).subset there)

private theorem capped_set {host next : Host} {id : String} {entry : Entry} (capped : Capped host)
    (budget : next.budget = host.budget) (ledger : next.ledger = host.ledger.set id entry)
    (kept : Host.recap host.budget entry = entry) : Capped next := by
  intro other member
  rw [budget]
  unfold Host.entries at member
  rw [ledger] at member
  rcases mem_set member with rfl | there
  · exact kept
  · exact capped other there

private theorem capped_erase {host next : Host} {id : String} (capped : Capped host)
    (budget : next.budget = host.budget) (ledger : next.ledger = host.ledger.erase id) : Capped next := by
  intro other member
  rw [budget]
  unfold Host.entries at member
  rw [ledger] at member
  exact capped other ((host.ledger.values_erase id).subset member)

private theorem capped_seedOne {host : Host} (guess : Size) (now : Instant) (survivor : Survivor)
    (capped : Capped host) : Capped (Host.seedOne guess now host survivor) := by
  unfold Host.seedOne
  split
  · exact capped
  · exact capped_set capped rfl rfl (recap_survivor ..)

private theorem capped_seeded {host : Host} (config : Config) (listed : List Survivor) (limits : List LimitRow)
    (now : Instant) (capped : Capped host) : Capped (host.seeded config listed limits now) := by
  unfold Host.seeded
  induction listed generalizing host with
  | nil => exact capped
  | cons survivor rest ih => exact ih (capped_seedOne _ now survivor capped)

private theorem capped_step (config : Config) (host : Host) (act : Act) (capped : Capped host) :
    Capped (step config act host).2 := by
  have move := moves config host act
  generalize (step config act host).1 = answer,(step config act host).2 = next at move
  cases move with
  | still kept budget ledger admits gives =>
    intro entry member
    unfold Host.entries at member
    rw [ledger] at member
    rw [budget]
    exact capped entry member
  | admitted kept stamp budget ledger free unnamed verdict => exact capped_set capped budget ledger rfl
  | released kept budget ledger held => exact capped_erase capped budget ledger
  | @orphaned id name venue ticket now entry _ kept stamp budget ledger held =>
    refine capped_set capped budget ledger ?_
    have same := capped entry ((host.ledger.mem_values_iff entry).mpr ⟨id,(Host.held_some held).1⟩)
    unfold Host.recap at same ⊢
    unfold Host.orphanedEntry
    cases guessed : entry.guess with
    | none => rfl
    | some guess =>
      simp only [guessed] at same ⊢
      have size : pessimisticSize [] guess host.budget = entry.size := congrArg Entry.size same
      rw [size]
  | recapped kept budget ledger =>
    intro entry member
    unfold Host.entries at member
    rw [ledger,Dict.mem_values_iff] at member
    obtain ⟨id,found⟩ := member
    rw [Dict.get?_mapValues,Option.map_eq_some_iff] at found
    obtain ⟨old,_,rfl⟩ := found
    exact recap_twice next.budget old
  | @seeded venue listed limits now _ kept budget stamp sweeps ledger unread =>
    have seeded := capped_seeded config listed limits now capped
    intro entry member
    unfold Host.entries at member
    rw [ledger] at member
    have same := seeded entry member
    rwa [(seeded_frame config host listed limits now).1,← budget] at same
  | swept kept budget ledger asking same => exact capped_erase capped budget ledger

theorem capped_run {config : Config} {past : List (Act × Answer)} {host : Host} (run : HostRun config past host) :
    Capped host := by
  refine run.invariant (fun _ host => Capped host) ?_ fun _ host act capped _ => capped_step config host act capped
  intro entry member
  cases member

/-- How much a ledger promises, whole and to each project. -/
def Promises (small large : List Entry) : Prop :=
  (sumOf (small.map Entry.size)).memMiB ≤ (sumOf (large.map Entry.size)).memMiB ∧
  (sumOf (small.map Entry.size)).cpuCenti ≤ (sumOf (large.map Entry.size)).cpuCenti ∧
  small.length ≤ large.length ∧
  ∀ project, (ofProject project small).memMiB ≤ (ofProject project large).memMiB ∧
    (ofProject project small).cpuCenti ≤ (ofProject project large).cpuCenti

private theorem promises_refl (entries : List Entry) : Promises entries entries :=
  ⟨le_rfl,le_rfl,le_rfl,fun _ => ⟨le_rfl,le_rfl⟩⟩

private theorem promises_sublist {small large : List Entry} (part : small.Sublist large) : Promises small large := by
  have whole := sumOf_sublist (part.map Entry.size)
  refine ⟨whole.1,whole.2,part.length_le,?_⟩
  intro project
  exact sumOf_sublist ((part.filter _).map Entry.size)

private theorem promises_replace {small large rest : List Entry} {entry entry' : Entry}
    (before : large.Perm (entry :: rest)) (after : small.Perm (entry' :: rest)) (size : entry'.size = entry.size)
    (project : entry'.project = entry.project) : Promises small large := by
  have whole : sumOf (small.map Entry.size) = sumOf (large.map Entry.size) := by
    rw [sumOf_perm (after.map _),sumOf_perm (before.map _)]
    simp [size]
  refine ⟨by rw [whole],by rw [whole],by rw [after.length_eq,before.length_eq]; rfl,?_⟩
  intro other
  have same : ofProject other small = ofProject other large := by
    unfold ofProject
    rw [sumOf_perm ((after.filter _).map _),sumOf_perm ((before.filter _).map _),List.filter_cons,List.filter_cons,
      project]
    split
    · simp [size]
    · rfl
  rw [same]
  exact ⟨le_rfl,le_rfl⟩

/-- Between admissions, under one budget, only a survivor's listing adds to what the ledger promises. -/
private theorem promises_step {config : Config} {host : Host} (capped : Capped host) (act : Act)
    (other : (step config act host).1 ≠ .admitted) (fixed : (step config act host).2.budget = host.budget)
    (listing : ∀ venue listed limits now, act ≠ .seedVenue venue listed limits now) :
    Promises (step config act host).2.entries host.entries := by
  have move := moves config host act
  generalize (step config act host).1 = answer,(step config act host).2 = next at move other fixed
  unfold Host.entries
  cases move with
  | still kept budget ledger admits gives =>
    rw [ledger]
    exact promises_refl _
  | admitted => exact absurd rfl other
  | @released id ticket entry _ kept budget ledger held =>
    rw [ledger]
    exact promises_sublist (host.ledger.values_erase id)
  | @orphaned id name venue ticket now entry _ kept stamp budget ledger held =>
    rw [ledger]
    exact promises_replace (host.ledger.values_perm_erase id entry (Host.held_some held).1)
      (host.ledger.values_perm_set id _) rfl rfl
  | recapped kept budget ledger =>
    have same : next.ledger.values = host.ledger.values := by
      rw [ledger,fixed]
      unfold Dict.values Dict.mapValues
      simp only [List.map_map]
      refine List.map_congr_left fun entry member => ?_
      exact capped entry.2 (List.mem_map_of_mem member)
    rw [same]
    exact promises_refl _
  | seeded => exact absurd rfl (listing _ _ _ _)
  | @swept index todo question _ kept budget ledger asking same =>
    rw [ledger]
    exact promises_sublist (host.ledger.values_erase question.entry.id)

/-- What an admission leaves: the hold is the ask's, and everything the ledger holds fits. -/
private theorem admitted_fits {config : Config} {host : Host} {ask : Ask} {now : Instant} {countLimit : Option Int}
    (admitted : (step config (.gate ask now countLimit) host).1 = .admitted) :
    let next := (step config (.gate ask now countLimit) host).2
    fits next.total.memMiB next.budget.memMiB ∧ fits next.total.cpuCenti next.budget.cpuCenti ∧
    (∀ count ∈ countNow countLimit, next.entries.length ≤ count) ∧
    (let share := (projectOf ask.project).bind (Host.shareOf ask)
     withinShare (ofProject ask.project next.entries).memMiB next.budget.memMiB share ∧
     withinShare (ofProject ask.project next.entries).cpuCenti next.budget.cpuCenti share) := by
  have move := moves config host (.gate ask now countLimit)
  rw [admitted] at move
  generalize (step config (.gate ask now countLimit) host).2 = next at move
  cases move with
  | still kept budget ledger admits gives => exact absurd rfl admits
  | admitted kept stamp budget ledger free unnamed verdict =>
    unfold Host.verdict at verdict
    obtain ⟨shareMem,shareCpu,mem,cpu,count⟩ := (admits_none_iff ..).mp verdict
    have fresh := host.ledger.values_perm_fresh ask.id (host.admittedEntry ask now) free
    rw [← ledger] at fresh
    have whole : next.total = sumOf (host.entries.map Entry.size ++ [ask.size]) := by
      unfold Host.total Host.entries
      rw [sumOf_perm (fresh.map Entry.size)]
      exact sumOf_perm (List.perm_append_singleton ask.size _).symm
    have mine : ofProject ask.project next.entries =
        ⟨(ofProject ask.project host.entries).memMiB + ask.size.memMiB,
          (ofProject ask.project host.entries).cpuCenti + ask.size.cpuCenti⟩ := by
      unfold ofProject Host.entries
      rw [sumOf_perm ((fresh.filter _).map Entry.size)]
      simp [Host.admittedEntry,sumOf_cons,Nat.add_comm]
    have within := sumOf_sublist (List.sublist_append_left (host.entries.map Entry.size ++ [ask.size])
      ((holdsAbove (host.holdsFor ask now) (host.asWaiter ask now).id).map Waiter.size))
    rw [← whole] at within
    refine ⟨?_,?_,?_,?_⟩
    · rw [budget]
      exact fits_mono within.1 mem
    · rw [budget]
      exact fits_mono within.2 cpu
    · intro limit bound
      have counted := count limit bound
      have length : next.entries.length = host.entries.length + 1 := fresh.length_eq
      rw [length]
      simp only [List.length_append,List.length_map,List.length_singleton] at counted
      omega
    · dsimp only
      rw [mine,budget]
      exact ⟨shareMem,shareCpu⟩

/-- The host never overcommits. Right after an admission every entry of the ledger together fits the budget in
force, their number fits the count and the project's entries fit its share; and between admissions, with the budget
unchanged, no act but the listing of survivors adds to any of these sums. -/
theorem host_never_overcommits {config : Config} {past : List (Act × Answer)} {host : Host}
    (run : HostRun config past host) (act : Act) :
    let next := (step config act host).2
    (∀ ask now countLimit, act = .gate ask now countLimit → (step config act host).1 = .admitted →
      fits next.total.memMiB next.budget.memMiB ∧ fits next.total.cpuCenti next.budget.cpuCenti ∧
      (∀ count : Nat, isSafeInteger count → countLimit = some (count : Int) → next.entries.length ≤ count) ∧
      ∀ project share, projectOf ask.project = some project → Host.shareOf ask project = some share →
        withinShare (ofProject project next.entries).memMiB next.budget.memMiB (some share) ∧
        withinShare (ofProject project next.entries).cpuCenti next.budget.cpuCenti (some share)) ∧
    ((step config act host).1 ≠ .admitted → next.budget = host.budget →
      (∀ venue listed limits now, act ≠ .seedVenue venue listed limits now) →
      Promises next.entries host.entries) := by
  constructor
  · rintro ask now countLimit rfl admitted
    obtain ⟨mem,cpu,count,share⟩ := admitted_fits admitted
    refine ⟨mem,cpu,?_,?_⟩
    · rintro limit safe rfl
      refine count limit ?_
      simp [countNow,safe]
    · intro project percent named set
      have same : ask.project = some project := (Option.filter_eq_some_iff.mp named).1
      rw [named,Option.bind_some,set,same] at share
      exact share
  · intro other fixed listing
    exact promises_step (capped_run run) act other fixed listing

/-- One host of 8 GiB and four CPUs whose every venue is listed, and a project that may hold half of it. -/
def halfShare : Config := ⟨⟨.auto,.auto,none,none⟩,⟨4096,200⟩,some "local",["local"]⟩

def halfLimits : List LimitRow := [⟨"project:web",some 50,none,none,none⟩]

def halfAsk (id : String) (ticket : Nat) : Ask :=
  ⟨id,some ticket,some "web",⟨2048,100⟩,none,some ("pi-job-" ++ id),true,halfLimits⟩

def halfActs : List Act := [.refresh ⟨some 8192,some 4,none,none⟩,
  .seedVenue "local" [⟨some "pi-job-old",some "local",some 1024,some 100⟩] halfLimits 5,.enter "first"]

def halfHost : Host :=
  (step halfShare (.gate (halfAsk "first" 1) 10 (some 3))
    (after (step halfShare) (makeHostBudget halfShare) halfActs)).2

theorem host_never_overcommits_first_ask :
    fits halfHost.total.memMiB halfHost.budget.memMiB ∧ fits halfHost.total.cpuCenti halfHost.budget.cpuCenti ∧
    halfHost.entries.length ≤ 3 ∧
    withinShare (ofProject (some "web") halfHost.entries).memMiB halfHost.budget.memMiB (some 50) := by
  obtain ⟨mem,cpu,count,share⟩ := (host_never_overcommits
    (runs_after (step halfShare) (makeHostBudget halfShare) halfActs)
    (.gate (halfAsk "first" 1) 10 (some 3))).1 _ _ _ rfl (by decide +kernel)
  exact ⟨mem,cpu,count 3 (by decide) rfl,(share "web" 50 (by decide +kernel) (by decide +kernel)).1⟩

end PiDispatch.HostBudget
