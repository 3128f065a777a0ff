import PiDispatch.HostBudgetState

/-! What one act does to the ledger, the budget and the walks under way. Every invariant of the ledger is a case
analysis over these moves, so only this module looks inside the doors. -/
namespace PiDispatch.HostBudget
open PiDispatch.Kernel

namespace Host

theorem held_some {host : Host} {id : String} {ticket : Option Nat} {entry : Entry}
    (held : host.held id ticket = some entry) :
    host.ledger.get? id = some entry ∧ entry.orphan = none ∧ entry.ticket = ticket := by
  unfold Host.held at held
  obtain ⟨found,live⟩ := Option.filter_eq_some_iff.mp held
  exact ⟨found,by simpa using live⟩

/-- The entry a pickup's hold becomes. -/
def admittedEntry (host : Host) (ask : Ask) (now : Instant) : Entry :=
  ⟨ask.id,ask.project,ask.size,now,ask.ticket,ask.name,none,none,host.stamps⟩

def orphanedEntry (host : Host) (entry : Entry) (name venue : Option String) (now : Instant) : Entry :=
  { entry with orphan := some ⟨name,venue,now⟩, stamp := host.stamps }

/-- What a listing makes of the host. -/
def seeded (config : Config) (host : Host) (listed : List Survivor) (limits : List LimitRow) (now : Instant) : Host :=
  listed.foldl (seedOne (pessimisticSize limits config.jobDefault ⟨.unknown,.unknown⟩) now) host

end Host

/-- The entries a sweep still remembers. -/
def Sweep.seen (sweep : Sweep) : List Entry := sweep.todo ++ (sweep.asking.map Question.entry).toList

/-- What every act keeps: stamps grow, a venue once listed stays listed, and a sweep remembers only what the ledger
held. -/
structure Kept (host next : Host) : Prop where
  stamps : host.stamps ≤ next.stamps
  unseeded : next.unseeded ⊆ host.unseeded
  sweeps : ∀ sweep ∈ next.sweeps, ∀ entry ∈ sweep.seen,
    entry ∈ host.entries ∨ ∃ old ∈ host.sweeps, entry ∈ old.seen

/-- The host after an act, by the answer it gave. -/
inductive Moves (config : Config) (host : Host) : Act → Answer → Host → Prop
  | still {act answer next} (kept : Kept host next) (budget : next.budget = host.budget)
      (ledger : next.ledger = host.ledger) (admits : answer ≠ .admitted) (gives : answer ≠ .gaveBack true) :
      Moves config host act answer next
  | admitted {ask now countLimit next} (kept : Kept host next) (stamp : host.stamps < next.stamps)
      (budget : next.budget = host.budget)
      (ledger : next.ledger = host.ledger.set ask.id (host.admittedEntry ask now))
      (free : host.ledger.get? ask.id = none)
      (unnamed : ask.name.isSome → ∀ entry ∈ host.entries, entry.orphan.bind Orphan.name ≠ ask.name)
      (verdict : host.verdict ask now countLimit = none) :
      Moves config host (.gate ask now countLimit) .admitted next
  | released {id ticket entry next} (kept : Kept host next) (budget : next.budget = host.budget)
      (ledger : next.ledger = host.ledger.erase id) (held : host.held id ticket = some entry) :
      Moves config host (.release id ticket) (.gaveBack true) next
  | orphaned {id name venue ticket now entry next} (kept : Kept host next) (stamp : host.stamps < next.stamps)
      (budget : next.budget = host.budget)
      (ledger : next.ledger = host.ledger.set id (host.orphanedEntry entry name venue now))
      (held : host.held id ticket = some entry) :
      Moves config host (.orphan id name venue ticket now) (.gaveBack true) next
  | recapped {facts next} (kept : Kept host next)
      (budget : next.budget = computeHostBudget config.settings facts config.jobDefault)
      (ledger : next.ledger = host.ledger.mapValues fun _ => Host.recap next.budget) :
      Moves config host (.refresh facts) .done next
  | seeded {venue listed limits now next} (kept : Kept host next) (budget : next.budget = host.budget)
      (stamp : next.stamps = (host.seeded config listed limits now).stamps) (sweeps : next.sweeps = host.sweeps)
      (ledger : next.ledger = (host.seeded config listed limits now).ledger) (unread : venue ∈ host.unseeded) :
      Moves config host (.seedVenue venue listed limits now) .done next
  | swept {index todo question next} (kept : Kept host next) (budget : next.budget = host.budget)
      (ledger : next.ledger = host.ledger.erase question.entry.id)
      (asking : host.sweeps[index]? = some ⟨todo,some question⟩)
      (same : (host.ledger.get? question.entry.id).map Entry.stamp = some question.entry.stamp) :
      Moves config host (.sweepAnswer index true) .done next

theorem kept_same {host next : Host} (sweeps : next.sweeps = host.sweeps) (stamps : host.stamps ≤ next.stamps)
    (unseeded : next.unseeded ⊆ host.unseeded) : Kept host next := by
  refine ⟨stamps,unseeded,?_⟩
  intro sweep member entry seen
  rw [sweeps] at member
  exact .inr ⟨sweep,member,seen⟩

/-- A sweep that goes on remembers no more than it did. -/
theorem kept_walk {host next : Host} {index : Nat} {old walked : Sweep} (found : host.sweeps[index]? = some old)
    (less : ∀ entry ∈ walked.seen, entry ∈ old.seen) (sweeps : next.sweeps = host.sweeps.set index walked)
    (stamps : host.stamps ≤ next.stamps) (unseeded : next.unseeded ⊆ host.unseeded) : Kept host next := by
  refine ⟨stamps,unseeded,?_⟩
  intro sweep member entry seen
  rw [sweeps] at member
  rcases List.mem_or_eq_of_mem_set member with member | rfl
  · exact .inr ⟨sweep,member,seen⟩
  · exact .inr ⟨old,List.mem_of_getElem? found,less entry seen⟩

private theorem still_same {config : Config} {host next : Host} {act : Act} {answer : Answer}
    (sweeps : next.sweeps = host.sweeps) (stamps : host.stamps ≤ next.stamps)
    (unseeded : next.unseeded ⊆ host.unseeded) (budget : next.budget = host.budget)
    (ledger : next.ledger = host.ledger) (quiet : answer = .done ∨ answer = .gaveBack false ∨
      (∃ ticket, answer = .ticket ticket) ∨ ∃ why rank, answer = .refused why rank) :
    Moves config host act answer next := by
  refine .still (kept_same sweeps stamps unseeded) budget ledger ?_ ?_
  · rintro rfl
    simp at quiet
  · rintro rfl
    simp at quiet

private theorem gate_moves (config : Config) (host : Host) (ask : Ask) (now : Instant) (countLimit : Option Int) :
    Moves config host (.gate ask now countLimit) (host.gate config ask now countLimit).1
      (host.gate config ask now countLimit).2 := by
  unfold Host.gate
  split
  · exact still_same rfl le_rfl (List.Subset.refl _) rfl rfl (by simp)
  split
  · exact still_same rfl le_rfl (List.Subset.refl _) rfl rfl (by simp)
  next free =>
    split
    · exact still_same rfl le_rfl (List.Subset.refl _) rfl rfl (by simp)
    next unnamed =>
      split
      next verdict =>
        refine .admitted (kept_same rfl (Nat.le_succ _) (List.Subset.refl _)) (Nat.lt_succ_self _) rfl rfl (by simpa using free) ?_ verdict
        intro named entry member carried
        exact unnamed ⟨named,entry,member,carried⟩
      next => exact still_same rfl (Nat.le_succ _) (List.Subset.refl _) rfl rfl (by simp)

private theorem giveBack_moves (config : Config) (host : Host) (id : String) (name venue : Option String)
    (ticket : Option Nat) (now : Instant) :
    Moves config host (.release id ticket) (host.release id ticket).1 (host.release id ticket).2 ∧
    Moves config host (.orphan id name venue ticket now) (host.orphan id name venue ticket now).1
      (host.orphan id name venue ticket now).2 := by
  unfold Host.release Host.orphan
  cases held : host.held id ticket with
  | none => exact ⟨still_same rfl le_rfl (List.Subset.refl _) rfl rfl (by simp),still_same rfl le_rfl (List.Subset.refl _) rfl rfl (by simp)⟩
  | some entry =>
    exact ⟨.released (kept_same rfl le_rfl (List.Subset.refl _)) rfl rfl held,
      .orphaned (kept_same rfl (Nat.le_succ _) (List.Subset.refl _)) (Nat.lt_succ_self _) rfl rfl held⟩

theorem seedOne_frame (guess : Size) (now : Instant) (host : Host) (survivor : Survivor) :
    (Host.seedOne guess now host survivor).budget = host.budget ∧
    (Host.seedOne guess now host survivor).sweeps = host.sweeps ∧
    host.stamps ≤ (Host.seedOne guess now host survivor).stamps := by
  unfold Host.seedOne
  split
  · exact ⟨rfl,rfl,le_rfl⟩
  · exact ⟨rfl,rfl,Nat.le_succ _⟩

theorem seeded_frame (config : Config) (host : Host) (listed : List Survivor) (limits : List LimitRow)
    (now : Instant) :
    (host.seeded config listed limits now).budget = host.budget ∧
    (host.seeded config listed limits now).sweeps = host.sweeps ∧
    host.stamps ≤ (host.seeded config listed limits now).stamps := by
  unfold Host.seeded
  induction listed generalizing host with
  | nil => exact ⟨rfl,rfl,le_rfl⟩
  | cons survivor rest ih =>
    rw [List.foldl_cons]
    obtain ⟨budget,sweeps,stamps⟩ := ih (Host.seedOne _ now host survivor)
    obtain ⟨budget',sweeps',stamps'⟩ := seedOne_frame (pessimisticSize limits config.jobDefault ⟨.unknown,.unknown⟩)
      now host survivor
    exact ⟨budget.trans budget',sweeps.trans sweeps',stamps'.trans stamps⟩

private theorem seed_moves (config : Config) (host : Host) (venue : String) (listed : List Survivor)
    (limits : List LimitRow) (now : Instant) :
    Moves config host (.seedVenue venue listed limits now) (host.seedVenue config venue listed limits now).1
      (host.seedVenue config venue listed limits now).2 := by
  unfold Host.seedVenue
  split
  next unread =>
    obtain ⟨budget,sweeps,stamps⟩ := seeded_frame config host listed limits now
    exact .seeded (kept_same sweeps stamps (List.filter_subset_self _)) budget rfl sweeps rfl unread
  next => exact still_same rfl le_rfl (List.Subset.refl _) rfl rfl (by simp)

private theorem sweepStart_moves (config : Config) (host : Host) :
    Moves config host .sweepStart host.sweepStart.1 host.sweepStart.2 := by
  refine .still ⟨le_rfl,List.Subset.refl _,?_⟩ rfl rfl (by simp [Host.sweepStart]) (by simp [Host.sweepStart])
  intro sweep member entry seen
  rcases List.mem_append.mp member with old | fresh
  · exact .inr ⟨sweep,old,seen⟩
  · rw [List.mem_singleton.mp fresh] at seen
    exact .inl (by simpa [Sweep.seen] using seen)

private theorem sweepTurn_moves (config : Config) (host : Host) (index : Nat) :
    Moves config host (.sweepTurn index) (host.sweepTurn index).1 (host.sweepTurn index).2 := by
  unfold Host.sweepTurn
  split
  next entry rest found =>
    have less : ∀ other ∈ (⟨rest,none⟩ : Sweep).seen, other ∈ (⟨entry :: rest,none⟩ : Sweep).seen := by
      intro other seen
      simp [Sweep.seen] at seen
      simp [Sweep.seen,seen]
    split
    · exact .still (kept_walk found less rfl le_rfl (List.Subset.refl _)) rfl rfl (by simp) (by simp)
    · split
      · exact .still (kept_walk found less rfl le_rfl (List.Subset.refl _)) rfl rfl (by simp) (by simp)
      · refine .still (kept_walk found ?_ rfl le_rfl (List.Subset.refl _)) rfl rfl (by simp) (by simp)
        intro other seen
        simp [Sweep.seen] at seen
        simp [Sweep.seen,seen.symm]
  · exact still_same rfl le_rfl (List.Subset.refl _) rfl rfl (by simp)

private theorem sweepAnswer_moves (config : Config) (host : Host) (index : Nat) (gone : Bool) :
    Moves config host (.sweepAnswer index gone) (host.sweepAnswer index gone).1
      (host.sweepAnswer index gone).2 := by
  unfold Host.sweepAnswer
  split
  next todo entry orphan own asking =>
    have less : ∀ other ∈ (⟨todo,none⟩ : Sweep).seen, other ∈ (⟨todo,some ⟨entry,orphan,own⟩⟩ : Sweep).seen := by
      intro other seen
      simp [Sweep.seen] at seen
      simp [Sweep.seen,seen]
    dsimp only
    split
    next condition =>
      obtain ⟨rfl,same⟩ := condition
      exact .swept (kept_walk asking less rfl le_rfl (List.Subset.refl _)) rfl rfl asking same
    next => exact .still (kept_walk asking less rfl le_rfl (List.Subset.refl _)) rfl rfl (by simp) (by simp)
  next => exact still_same rfl le_rfl (List.Subset.refl _) rfl rfl (by simp)

private theorem unverifiable_moves {config : Config} {host next : Host} {act : Act} (waiter : Waiter) (now : Instant)
    (sweeps : next.sweeps = host.sweeps) (stamps : host.stamps ≤ next.stamps)
    (unseeded : next.unseeded ⊆ host.unseeded) (budget : next.budget = host.budget)
    (ledger : next.ledger = host.ledger) : Moves config host act .done (next.unverifiable waiter now) := by
  unfold Host.unverifiable
  split <;> exact still_same sweeps stamps unseeded budget ledger (.inl rfl)

private theorem verifyTurn_moves (config : Config) (host : Host) (index : Nat) (now : Instant) :
    Moves config host (.verifyTurn index now) (host.verifyTurn index now).1 (host.verifyTurn index now).2 := by
  unfold Host.verifyTurn
  split
  · dsimp only
    split
    · exact still_same rfl le_rfl (List.Subset.refl _) rfl rfl (by simp)
    · split
      · exact still_same rfl le_rfl (List.Subset.refl _) rfl rfl (by simp)
      · exact unverifiable_moves _ now rfl le_rfl (List.Subset.refl _) rfl rfl
  · exact still_same rfl le_rfl (List.Subset.refl _) rfl rfl (by simp)

private theorem verifyAnswer_moves (config : Config) (host : Host) (index : Nat) (state : Option Host.JobState)
    (now : Instant) :
    Moves config host (.verifyAnswer index state now) (host.verifyAnswer index state now).1
      (host.verifyAnswer index state now).2 := by
  unfold Host.verifyAnswer
  split
  · dsimp only
    split
    · exact unverifiable_moves _ now rfl le_rfl (List.Subset.refl _) rfl rfl
    · split
      · split
        · exact still_same rfl le_rfl (List.Subset.refl _) rfl rfl (by simp)
        · exact still_same rfl (Nat.le_succ _) (List.Subset.refl _) rfl rfl (by simp)
      · exact still_same rfl le_rfl (List.Subset.refl _) rfl rfl (by simp)
  · exact still_same rfl le_rfl (List.Subset.refl _) rfl rfl (by simp)

theorem moves (config : Config) (host : Host) (act : Act) :
    Moves config host act (step config act host).1 (step config act host).2 := by
  cases act with
  | enter id => exact still_same rfl le_rfl (List.Subset.refl _) rfl rfl (by simp [step,Host.enter])
  | leave id => exact still_same rfl le_rfl (List.Subset.refl _) rfl rfl (by simp [step,Host.leave])
  | gate ask now countLimit => exact gate_moves config host ask now countLimit
  | suspend id now =>
    simp only [step]
    unfold Host.suspend
    split
    · exact still_same rfl le_rfl (List.Subset.refl _) rfl rfl (by simp)
    · exact still_same rfl (Nat.le_succ _) (List.Subset.refl _) rfl rfl (by simp)
  | forget id => exact still_same rfl le_rfl (List.Subset.refl _) rfl rfl (by simp [step,Host.forget])
  | release id ticket => exact (giveBack_moves config host id none none ticket 0).1
  | orphan id name venue ticket now => exact (giveBack_moves config host id name venue ticket now).2
  | refresh facts => exact .recapped (kept_same rfl le_rfl (List.Subset.refl _)) rfl rfl
  | seedVenue venue listed limits now => exact seed_moves config host venue listed limits now
  | sweepStart => exact sweepStart_moves config host
  | sweepTurn index => exact sweepTurn_moves config host index
  | sweepAnswer index gone => exact sweepAnswer_moves config host index gone
  | verifyStart now => exact still_same rfl le_rfl (List.Subset.refl _) rfl rfl (by simp [step,Host.verifyStart])
  | verifyTurn index now => exact verifyTurn_moves config host index now
  | verifyAnswer index state now => exact verifyAnswer_moves config host index state now

/-- A give-back that is refused changes nothing. -/
theorem refused_giveBack (host : Host) (id : String) (name venue : Option String) (ticket : Option Nat)
    (now : Instant) :
    ((host.release id ticket).1 ≠ .gaveBack true → (host.release id ticket).2 = host) ∧
    ((host.orphan id name venue ticket now).1 ≠ .gaveBack true → (host.orphan id name venue ticket now).2 = host) := by
  unfold Host.release Host.orphan
  cases host.held id ticket with
  | none => exact ⟨fun _ => rfl,fun _ => rfl⟩
  | some entry => exact ⟨fun refused => absurd rfl refused,fun refused => absurd rfl refused⟩

end PiDispatch.HostBudget
