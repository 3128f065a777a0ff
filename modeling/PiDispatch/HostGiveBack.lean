import PiDispatch.HostBudgetMoves

/-! Every hold is given back once, by the pickup that took it, and a survivor's hold only once its container is gone.
This stands while no listing names a container that the ledger already counts and no orphan takes a name that another
live entry carries. -/
namespace PiDispatch.HostBudget
open PiDispatch.Kernel

/-- The ticket of the admission of a job that nobody gave back yet. -/
def opened (id : String) : List (Act × Answer) → Option (Option Nat)
  | [] => none
  | (.gate ask _ _,.admitted) :: past => if ask.id = id then some ask.ticket else opened id past
  | (.release other _,.gaveBack true) :: past => if other = id then none else opened id past
  | (.orphan other _ _ _ _,.gaveBack true) :: past => if other = id then none else opened id past
  | _ :: past => opened id past

/-- A name that a listing says. -/
def Listed (listed : List Survivor) (name : String) : Prop := name ≠ "" ∧ ∃ survivor ∈ listed, survivor.name = some name

def liveNamed (host : Host) (name : String) (entry : Entry) : Prop :=
  entry ∈ host.entries ∧ entry.orphan = none ∧ entry.name = some name

/-- A listing names no container that the ledger counts, and an orphan no container that another live entry runs. -/
def Careful (act : Act) (host : Host) : Prop :=
  match act with
  | .seedVenue venue listed _ _ => venue ∈ host.unseeded → ∀ name, Listed listed name →
      host.ledger.get? (Host.survivorId name) = none ∧ ∀ entry, ¬liveNamed host name entry
  | .orphan id name _ ticket _ => (host.held id ticket).isSome → ∀ carried, name = some carried →
      ∀ entry, liveNamed host carried entry → entry.id = id
  | _ => True

/-- What giving back once and by the owner asks of a state that a run of acts led to, and of its next act. -/
structure GivenBackOnce (config : Config) (allowed : Act → Host → Prop) (past : List (Act × Answer)) (host : Host) :
    Prop where
  one : (host.entries.map Entry.id).Nodup
  apart : ∀ name entry, liveNamed host name entry → ∀ other ∈ host.entries,
    other.orphan.bind Orphan.name ≠ some name
  release : ∀ id ticket, (host.release id ticket).1 = .gaveBack true ↔ opened id past = some ticket
  orphan : ∀ id name venue ticket now,
    (host.orphan id name venue ticket now).1 = .gaveBack true ↔ opened id past = some ticket
  refused : ∀ id name venue ticket now, opened id past ≠ some ticket →
    (host.release id ticket).2 = host ∧ (host.orphan id name venue ticket now).2 = host
  swept : ∀ act, allowed act host → ∀ entry ∈ host.entries, ∀ orphan, entry.orphan = some orphan →
    (∃ kept ∈ (step config act host).2.entries, kept.id = entry.id ∧ kept.stamp = entry.stamp ∧
      kept.orphan = some orphan) ∨
    ∃ index todo question, act = .sweepAnswer index true ∧
      host.sweeps[index]? = some ⟨todo,some question⟩ ∧ question.entry.id = entry.id ∧ question.orphan = orphan
  asked : ∀ index name venue, (host.sweepTurn index).1 = .asked (some name) venue →
    ∀ entry, ¬liveNamed host name entry

/-- A sweep's entry, or the ledger's own. -/
def Remembered (host : Host) (entry : Entry) : Prop :=
  entry ∈ host.entries ∨ ∃ sweep ∈ host.sweeps, entry ∈ sweep.seen

/-- Stamps tell entries apart: what is remembered under a stamp is what the ledger holds under it. -/
structure Traced (host : Host) : Prop where
  keyed : ∀ id entry, host.ledger.get? id = some entry → entry.id = id
  older : ∀ entry, Remembered host entry → entry.stamp < host.stamps
  same : ∀ entry ∈ host.entries, ∀ old, Remembered host old → entry.stamp = old.stamp →
    entry.id = old.id ∧ entry.orphan = old.orphan

private theorem remembered_kept {host next : Host} (kept : Kept host next) {entry : Entry}
    (remembered : Remembered next entry) : entry ∈ next.entries ∨ Remembered host entry := by
  rcases remembered with here | ⟨sweep,member,seen⟩
  · exact .inl here
  · exact .inr (kept.sweeps sweep member entry seen)

private theorem entry_stored {host : Host} {entry : Entry} (traced : Traced host) (member : entry ∈ host.entries) :
    host.ledger.get? entry.id = some entry := by
  obtain ⟨id,found⟩ := (host.ledger.mem_values_iff entry).mp member
  rwa [traced.keyed id entry found]

private theorem stored_entry {host : Host} {id : String} {entry : Entry} (found : host.ledger.get? id = some entry) :
    entry ∈ host.entries := (host.ledger.mem_values_iff entry).mpr ⟨id,found⟩

/-- A ledger that lost entries, or whose entries were only re-sized, is as traced as it was. -/
private theorem traced_less {host next : Host} (traced : Traced host) (stamps : host.stamps ≤ next.stamps)
    (recalls : ∀ entry, Remembered next entry → entry ∈ next.entries ∨ Remembered host entry)
    (part : ∀ id entry, next.ledger.get? id = some entry → ∃ old, host.ledger.get? id = some old ∧
      entry.id = old.id ∧ entry.stamp = old.stamp ∧ entry.orphan = old.orphan) : Traced next := by
  have known : ∀ entry ∈ next.entries, ∃ old ∈ host.entries, entry.id = old.id ∧ entry.stamp = old.stamp ∧
      entry.orphan = old.orphan := by
    intro entry member
    obtain ⟨id,found⟩ := (next.ledger.mem_values_iff entry).mp member
    obtain ⟨old,stored,alike⟩ := part id entry found
    exact ⟨old,stored_entry stored,alike⟩
  have recalled : ∀ entry, Remembered next entry → ∃ old, Remembered host old ∧ entry.id = old.id ∧
      entry.stamp = old.stamp ∧ entry.orphan = old.orphan := by
    intro entry remembered
    rcases recalls entry remembered with here | old
    · obtain ⟨old,member,alike⟩ := known entry here
      exact ⟨old,.inl member,alike⟩
    · exact ⟨entry,old,rfl,rfl,rfl⟩
  refine ⟨?_,?_,?_⟩
  · intro id entry found
    obtain ⟨old,stored,id',_⟩ := part id entry found
    exact id'.trans (traced.keyed id old stored)
  · intro entry remembered
    obtain ⟨old,was,_,stamp,_⟩ := recalled entry remembered
    exact stamp ▸ (traced.older old was).trans_le stamps
  · intro entry member other remembered equal
    obtain ⟨old,was,id,stamp,orphan⟩ := known entry member
    obtain ⟨old',was',id',stamp',orphan'⟩ := recalled other remembered
    obtain ⟨sameId,sameOrphan⟩ := traced.same old was old' was' (stamp.symm.trans (equal.trans stamp'))
    exact ⟨id.trans (sameId.trans id'.symm),orphan.trans (sameOrphan.trans orphan'.symm)⟩

/-- A new entry under a new stamp. -/
private theorem traced_set {host next : Host} {id : String} {entry : Entry} (traced : Traced host)
    (kept : Kept host next) (stamp : host.stamps < next.stamps) (ledger : next.ledger = host.ledger.set id entry)
    (named : entry.id = id) (fresh : entry.stamp = host.stamps) : Traced next := by
  have stored : ∀ other, other ∈ next.entries → other = entry ∨ other ∈ host.entries := by
    intro other member
    obtain ⟨key,found⟩ := (next.ledger.mem_values_iff other).mp member
    rw [ledger,Dict.get?_set] at found
    split at found
    · exact .inl (Option.some.inj found).symm
    · exact .inr (stored_entry found)
  have recalled : ∀ other, Remembered next other → other = entry ∨ Remembered host other := by
    intro other remembered
    rcases remembered_kept kept remembered with here | old
    · exact (stored other here).imp_right .inl
    · exact .inr old
  refine ⟨?_,?_,?_⟩
  · intro key other found
    rw [ledger,Dict.get?_set] at found
    split at found
    next same =>
      rw [← Option.some.inj found,named,same]
    next => exact traced.keyed key other found
  · intro other remembered
    rcases recalled other remembered with rfl | old
    · rwa [fresh]
    · exact (traced.older other old).trans_le kept.stamps
  · intro left member right remembered equal
    rcases stored left member with rfl | before
    · rcases recalled right remembered with rfl | old
      · exact ⟨rfl,rfl⟩
      · have less := traced.older right old
        omega
    · rcases recalled right remembered with rfl | old
      · have less := traced.older left (.inl before)
        omega
      · exact traced.same left before right old equal

private theorem traced_seedOne {host : Host} (guess : Size) (now : Instant) (survivor : Survivor)
    (traced : Traced host) : Traced (Host.seedOne guess now host survivor) := by
  unfold Host.seedOne
  split
  · exact traced
  · exact traced_set traced (kept_same rfl (Nat.le_succ _) (List.Subset.refl _)) (Nat.lt_succ_self _) rfl rfl rfl

private theorem traced_seeded {host : Host} (config : Config) (listed : List Survivor) (limits : List LimitRow)
    (now : Instant) (traced : Traced host) : Traced (host.seeded config listed limits now) := by
  unfold Host.seeded
  induction listed generalizing host with
  | nil => exact traced
  | cons survivor rest ih => exact ih (traced_seedOne _ now survivor traced)

private theorem recap_same (budget : Budget) (entry : Entry) :
    (Host.recap budget entry).id = entry.id ∧ (Host.recap budget entry).stamp = entry.stamp ∧
    (Host.recap budget entry).orphan = entry.orphan ∧ (Host.recap budget entry).name = entry.name ∧
    (Host.recap budget entry).ticket = entry.ticket := by
  unfold Host.recap
  split <;> exact ⟨rfl,rfl,rfl,rfl,rfl⟩

private theorem traced_step (config : Config) (host : Host) (act : Act) (traced : Traced host) :
    Traced (step config act host).2 := by
  have move := moves config host act
  generalize (step config act host).1 = answer,(step config act host).2 = next at move
  cases move with
  | still kept budget ledger admits gives =>
    refine traced_less traced kept.stamps (fun _ => remembered_kept kept) ?_
    intro id entry found
    rw [ledger] at found
    exact ⟨entry,found,rfl,rfl,rfl⟩
  | admitted kept stamp budget ledger free unnamed verdict => exact traced_set traced kept stamp ledger rfl rfl
  | @released id ticket entry _ kept budget ledger held =>
    refine traced_less traced kept.stamps (fun _ => remembered_kept kept) ?_
    intro other entry found
    rw [ledger,Dict.get?_erase] at found
    split at found
    · cases found
    · exact ⟨entry,found,rfl,rfl,rfl⟩
  | @orphaned id name venue ticket now entry _ kept stamp budget ledger held =>
    exact traced_set traced kept stamp ledger (traced.keyed id entry (Host.held_some held).1) rfl
  | recapped kept budget ledger =>
    refine traced_less traced kept.stamps (fun _ => remembered_kept kept) ?_
    intro id entry found
    rw [ledger,Dict.get?_mapValues,Option.map_eq_some_iff] at found
    obtain ⟨old,stored,rfl⟩ := found
    obtain ⟨sameId,sameStamp,sameOrphan,_⟩ := recap_same next.budget old
    exact ⟨old,stored,sameId,sameStamp,sameOrphan⟩
  | @seeded venue listed limits now _ kept budget stamp sweeps ledger unread =>
    have seeded := traced_seeded config listed limits now traced
    have frame := (seeded_frame config host listed limits now).2.1
    refine traced_less seeded stamp.ge ?_ ?_
    · rintro entry (here | ⟨sweep,member,seen⟩)
      · exact .inl here
      · rw [sweeps,← frame] at member
        exact .inr (.inr ⟨sweep,member,seen⟩)
    · intro id entry found
      rw [ledger] at found
      exact ⟨entry,found,rfl,rfl,rfl⟩
  | @swept index todo question _ kept budget ledger asking same =>
    refine traced_less traced kept.stamps (fun _ => remembered_kept kept) ?_
    intro other entry found
    rw [ledger,Dict.get?_erase] at found
    split at found
    · cases found
    · exact ⟨entry,found,rfl,rfl,rfl⟩

/-- The live entry of a job, by its ticket. -/
def liveTicket (host : Host) (id : String) : Option (Option Nat) :=
  ((host.ledger.get? id).filter fun entry => entry.orphan.isNone).map Entry.ticket

private theorem held_iff (host : Host) (id : String) (ticket : Option Nat) :
    (host.held id ticket).isSome ↔ liveTicket host id = some ticket := by
  unfold Host.held liveTicket
  cases host.ledger.get? id with
  | none => simp
  | some entry => cases live : entry.orphan <;> simp [live,Option.filter]

private theorem giveBack_iff (host : Host) (id : String) (name venue : Option String) (ticket : Option Nat)
    (now : Instant) :
    ((host.release id ticket).1 = .gaveBack true ↔ liveTicket host id = some ticket) ∧
    ((host.orphan id name venue ticket now).1 = .gaveBack true ↔ liveTicket host id = some ticket) := by
  rw [← held_iff]
  unfold Host.release Host.orphan
  cases host.held id ticket <;> simp

/-- A listing's entries, and the keys it leaves alone. -/
private theorem seeded_entries (config : Config) (host : Host) (listed : List Survivor) (limits : List LimitRow)
    (now : Instant) (id : String) :
    (host.seeded config listed limits now).ledger.get? id = host.ledger.get? id ∨
    ∃ name, Listed listed name ∧ id = Host.survivorId name ∧ ∃ entry,
      (host.seeded config listed limits now).ledger.get? id = some entry ∧
      entry.orphan.bind Orphan.name = some name := by
  unfold Host.seeded
  generalize pessimisticSize limits config.jobDefault ⟨.unknown,.unknown⟩ = guess
  induction listed using List.reverseRecOn with
  | nil => exact .inl rfl
  | append_singleton rest survivor ih =>
    rw [List.foldl_append,List.foldl_cons,List.foldl_nil]
    generalize rest.foldl (Host.seedOne guess now) host = walked at ih
    have widen : ∀ name, Listed rest name → Listed (rest ++ [survivor]) name := by
      rintro name ⟨filled,other,member,said⟩
      exact ⟨filled,other,List.mem_append_left _ member,said⟩
    have kept : walked.ledger.get? id = host.ledger.get? id ∨ ∃ name, Listed (rest ++ [survivor]) name ∧
        id = Host.survivorId name ∧ ∃ entry, walked.ledger.get? id = some entry ∧
        entry.orphan.bind Orphan.name = some name := by
      refine ih.imp_right ?_
      rintro ⟨name,said,key,stored⟩
      exact ⟨name,widen name said,key,stored⟩
    unfold Host.seedOne
    split
    · exact kept
    next name said =>
      obtain ⟨said,filled⟩ := Option.filter_eq_some_iff.mp said
      by_cases here : Host.survivorId name = id
      · refine .inr ⟨name,⟨by simpa using filled,survivor,by simp,said⟩,here.symm,
          Host.survivorEntry walked.budget guess now name survivor walked.stamps,?_,?_⟩
        · rw [Dict.get?_set,if_pos here]
        · rfl
      · rw [Dict.get?_set_ne _ _ here]
        exact kept

/-- What a careful listing adds is orphans no live entry knows. -/
private theorem seeded_stored (config : Config) {host : Host} {listed : List Survivor} (limits : List LimitRow)
    (now : Instant) (free : ∀ name, Listed listed name → host.ledger.get? (Host.survivorId name) = none) (id : String)
    (entry : Entry) :
    (host.ledger.get? id = some entry → (host.seeded config listed limits now).ledger.get? id = some entry) ∧
    ((host.seeded config listed limits now).ledger.get? id = some entry → host.ledger.get? id = some entry ∨
      ∃ name, Listed listed name ∧ host.ledger.get? id = none ∧ entry.orphan.bind Orphan.name = some name) := by
  rcases seeded_entries config host listed limits now id with same | ⟨name,said,key,stored,found,named⟩
  · rw [same]
    exact ⟨fun present => present,.inl⟩
  · have absent := free name said
    rw [← key] at absent
    refine ⟨fun present => ?_,fun present => ?_⟩
    · rw [absent] at present
      cases present
    · rw [found] at present
      exact .inr ⟨name,said,absent,Option.some.inj present ▸ named⟩

private theorem opened_still {act : Act} {answer : Answer} (admits : answer ≠ .admitted)
    (gives : answer ≠ .gaveBack true) (id : String) (past : List (Act × Answer)) :
    opened id ((act,answer) :: past) = opened id past := by
  cases answer with
  | admitted => exact absurd rfl admits
  | gaveBack did =>
    cases did with
    | true => exact absurd rfl gives
    | false => cases act <;> rfl
  | done | ticket given | refused why rank | asked name venue => cases act <;> rfl

/-- What a run of careful acts keeps. -/
structure HoldsStand (past : List (Act × Answer)) (host : Host) : Prop where
  traced : Traced host
  apart : ∀ name entry, liveNamed host name entry → ∀ other ∈ host.entries, other.orphan.bind Orphan.name ≠ some name
  standing : ∀ id, opened id past = liveTicket host id

private theorem apart_stored {host next : Host}
    (apart : ∀ name entry, liveNamed host name entry → ∀ other ∈ host.entries,
      other.orphan.bind Orphan.name ≠ some name)
    (part : ∀ entry ∈ next.entries, ∃ old ∈ host.entries, entry.name = old.name ∧ entry.orphan = old.orphan) :
    ∀ name entry, liveNamed next name entry → ∀ other ∈ next.entries, other.orphan.bind Orphan.name ≠ some name := by
  rintro name entry ⟨member,live,named⟩ other inside
  obtain ⟨old,was,sameName,sameOrphan⟩ := part entry member
  obtain ⟨old',was',_,sameOrphan'⟩ := part other inside
  rw [sameOrphan']
  exact apart name old ⟨was,sameOrphan ▸ live,sameName ▸ named⟩ old' was'

private theorem apart_erased {host next : Host} {id : String}
    (apart : ∀ name entry, liveNamed host name entry → ∀ other ∈ host.entries,
      other.orphan.bind Orphan.name ≠ some name) (ledger : next.ledger = host.ledger.erase id) :
    ∀ name entry, liveNamed next name entry → ∀ other ∈ next.entries, other.orphan.bind Orphan.name ≠ some name := by
  refine apart_stored apart ?_
  intro entry member
  unfold Host.entries at member
  rw [ledger] at member
  exact ⟨entry,(host.ledger.values_erase id).subset member,rfl,rfl⟩

private theorem set_entries {host next : Host} {id : String} {entry other : Entry}
    (ledger : next.ledger = host.ledger.set id entry) (member : other ∈ next.entries) :
    other = entry ∨ ∃ key, key ≠ id ∧ host.ledger.get? key = some other := by
  obtain ⟨key,found⟩ := (next.ledger.mem_values_iff other).mp member
  rw [ledger,Dict.get?_set] at found
  split at found
  · exact .inl (Option.some.inj found).symm
  next apart => exact .inr ⟨key,fun equal => apart equal.symm,found⟩

private theorem stand_admitted {past : List (Act × Answer)} {host next : Host} {ask : Ask}
    {now : Instant} {countLimit : Option Int} (stand : HoldsStand past host) (traced : Traced next)
    (ledger : next.ledger = host.ledger.set ask.id (host.admittedEntry ask now))
    (unnamed : ask.name.isSome → ∀ entry ∈ host.entries, entry.orphan.bind Orphan.name ≠ ask.name) :
    HoldsStand ((.gate ask now countLimit,.admitted) :: past) next := by
  refine ⟨traced,?_,?_⟩
  · rintro name entry ⟨member,live,named⟩ other inside
    rcases set_entries ledger inside with rfl | ⟨key,_,found⟩
    · simp [Host.admittedEntry]
    · rcases set_entries ledger member with rfl | ⟨key',_,found'⟩
      · have named : ask.name = some name := named
        rw [← named]
        exact unnamed (by simp [named]) other (stored_entry found)
      · exact stand.apart name entry ⟨stored_entry found',live,named⟩ other (stored_entry found)
  · intro id
    unfold opened liveTicket
    rw [ledger,Dict.get?_set]
    split
    · rfl
    · exact stand.standing id

private theorem stand_released {past : List (Act × Answer)} {host next : Host} {id : String} {ticket : Option Nat}
    (stand : HoldsStand past host) (traced : Traced next) (ledger : next.ledger = host.ledger.erase id) :
    HoldsStand ((.release id ticket,.gaveBack true) :: past) next := by
  refine ⟨traced,apart_erased stand.apart ledger,?_⟩
  intro other
  unfold opened liveTicket
  rw [ledger,Dict.get?_erase]
  split
  · rfl
  · exact stand.standing other

private theorem stand_orphaned {past : List (Act × Answer)} {host next : Host} {id : String}
    {name venue : Option String} {ticket : Option Nat} {now : Instant} {entry : Entry}
    (stand : HoldsStand past host) (traced : Traced next)
    (ledger : next.ledger = host.ledger.set id (host.orphanedEntry entry name venue now))
    (careful : ∀ carried, name = some carried → ∀ entry, liveNamed host carried entry → entry.id = id) :
    HoldsStand ((.orphan id name venue ticket now,.gaveBack true) :: past) next := by
  refine ⟨traced,?_,?_⟩
  · rintro carried live ⟨member,alive,named⟩ other inside
    rcases set_entries ledger member with rfl | ⟨key,apart,found⟩
    · cases alive
    · have here : liveNamed host carried live := ⟨stored_entry found,alive,named⟩
      rcases set_entries ledger inside with rfl | ⟨key',_,found'⟩
      · intro same
        have own := careful carried same live here
        exact apart ((stand.traced.keyed key live found).symm.trans own)
      · exact stand.apart carried live here other (stored_entry found')
  · intro other
    unfold opened liveTicket
    rw [ledger,Dict.get?_set]
    split
    · rfl
    · exact stand.standing other

private theorem stand_seeded {config : Config} {past : List (Act × Answer)} {host next : Host} {venue : String}
    {listed : List Survivor} {limits : List LimitRow} {now : Instant} (stand : HoldsStand past host)
    (traced : Traced next) (ledger : next.ledger = (host.seeded config listed limits now).ledger)
    (careful : ∀ name, Listed listed name →
      host.ledger.get? (Host.survivorId name) = none ∧ ∀ entry, ¬liveNamed host name entry) :
    HoldsStand ((.seedVenue venue listed limits now,.done) :: past) next := by
  have stored := seeded_stored config limits now fun name said => (careful name said).1
  rw [← ledger] at stored
  refine ⟨traced,?_,?_⟩
  · rintro name entry ⟨member,live,named⟩ other inside
    obtain ⟨id,found⟩ := (next.ledger.mem_values_iff entry).mp member
    have here : liveNamed host name entry := by
      rcases (stored id entry).2 found with was | ⟨said,_,_,orphaned⟩
      · exact ⟨stored_entry was,live,named⟩
      · rw [live] at orphaned
        cases orphaned
    obtain ⟨id',found'⟩ := (next.ledger.mem_values_iff other).mp inside
    rcases (stored id' other).2 found' with was | ⟨said,listed,_,orphaned⟩
    · exact stand.apart name entry here other (stored_entry was)
    · rw [orphaned]
      rintro ⟨rfl⟩
      exact (careful name listed).2 entry here
  · intro id
    rw [opened_still (by simp) (by simp),stand.standing id]
    unfold liveTicket
    cases was : host.ledger.get? id with
    | some entry => rw [(stored id entry).1 was]
    | none =>
      cases now_ : next.ledger.get? id with
      | none => rfl
      | some entry =>
        rcases (stored id entry).2 now_ with before | ⟨said,_,_,orphaned⟩
        · rw [before] at was
          cases was
        · cases live : entry.orphan with
          | none =>
            rw [live] at orphaned
            cases orphaned
          | some orphan => simp [Option.filter,live]

private theorem stand_swept {past : List (Act × Answer)} {host next : Host} {index : Nat} {question : Question}
    (stand : HoldsStand past host) (traced : Traced next) (ledger : next.ledger = host.ledger.erase question.entry.id)
    (remembered : Remembered host question.entry)
    (same : (host.ledger.get? question.entry.id).map Entry.stamp = some question.entry.stamp) :
    HoldsStand ((.sweepAnswer index true,.done) :: past) next := by
  refine ⟨traced,apart_erased stand.apart ledger,?_⟩
  intro id
  rw [opened_still (by simp) (by simp),stand.standing id]
  unfold liveTicket
  rw [ledger,Dict.get?_erase]
  split
  next here =>
    subst here
    obtain ⟨entry,found,stamp⟩ := Option.map_eq_some_iff.mp same
    have orphaned := (stand.traced.same entry (stored_entry found) _ remembered stamp).2
    rw [question.own] at orphaned
    simp [found,Option.filter,orphaned]
  next => rfl

private theorem asking_remembered {host : Host} {index : Nat} {todo : List Entry} {question : Question}
    (asking : host.sweeps[index]? = some ⟨todo,some question⟩) : Remembered host question.entry :=
  .inr ⟨_,List.mem_of_getElem? asking,by simp [Sweep.seen]⟩

private theorem stand_step {config : Config} {past : List (Act × Answer)} {host : Host} {act : Act}
    (stand : HoldsStand past host) (careful : Careful act host) :
    HoldsStand ((act,(step config act host).1) :: past) (step config act host).2 := by
  have traced := traced_step config host act stand.traced
  have move := moves config host act
  generalize (step config act host).1 = answer,(step config act host).2 = next at move traced ⊢
  cases move with
  | still kept budget ledger admits gives =>
    refine ⟨traced,?_,?_⟩
    · refine apart_stored stand.apart ?_
      intro entry member
      unfold Host.entries at member
      rw [ledger] at member
      exact ⟨entry,member,rfl,rfl⟩
    · intro id
      rw [opened_still admits gives,stand.standing id]
      unfold liveTicket
      rw [ledger]
  | admitted kept stamp budget ledger free unnamed verdict => exact stand_admitted stand traced ledger unnamed
  | released kept budget ledger held => exact stand_released stand traced ledger
  | orphaned kept stamp budget ledger held =>
    refine stand_orphaned stand traced ledger (careful ?_)
    rw [held]
    rfl
  | recapped kept budget ledger =>
    refine ⟨traced,?_,?_⟩
    · refine apart_stored stand.apart ?_
      intro entry member
      obtain ⟨id,found⟩ := (next.ledger.mem_values_iff entry).mp member
      rw [ledger,Dict.get?_mapValues,Option.map_eq_some_iff] at found
      obtain ⟨old,was,rfl⟩ := found
      obtain ⟨_,_,orphan,name,_⟩ := recap_same next.budget old
      exact ⟨old,stored_entry was,name,orphan⟩
    · intro id
      rw [opened_still (by simp) (by simp),stand.standing id]
      unfold liveTicket
      rw [ledger,Dict.get?_mapValues]
      cases host.ledger.get? id with
      | none => rfl
      | some entry =>
        obtain ⟨_,_,orphan,_,ticket⟩ := recap_same next.budget entry
        cases live : entry.orphan <;> simp [Option.filter,orphan,live,ticket]
  | seeded kept budget stamp sweeps ledger unread => exact stand_seeded stand traced ledger (careful unread)
  | swept kept budget ledger asking same =>
    exact stand_swept stand traced ledger (asking_remembered asking) same

theorem holdsStand_run {config : Config} {past : List (Act × Answer)} {host : Host}
    (run : Runs (step config) Careful (makeHostBudget config) past host) : HoldsStand past host := by
  refine run.invariant HoldsStand ?_ fun past host act stand careful => stand_step stand careful
  have nothing : ∀ entry, ¬Remembered (makeHostBudget config) entry := by
    rintro entry (member | ⟨sweep,member,_⟩) <;> cases member
  refine ⟨⟨?_,?_,?_⟩,?_,fun id => rfl⟩
  · intro id entry found
    cases found
  · intro entry remembered
    exact absurd remembered (nothing entry)
  · intro entry member
    cases member
  · rintro name entry ⟨member,_⟩
    cases member

private theorem ids_distinct {host : Host} (traced : Traced host) : (host.entries.map Entry.id).Nodup := by
  have keys : host.entries.map Entry.id = host.ledger.entries.map Prod.fst := by
    unfold Host.entries Dict.values
    rw [List.map_map]
    refine List.map_congr_left fun entry member => ?_
    exact traced.keyed entry.1 entry.2 ((host.ledger.get?_eq_some_iff ..).mpr member)
  rw [keys]
  exact host.ledger.distinct

/-- An orphan stays through every careful act but the answer that its own container is gone. -/
private theorem orphan_stays {config : Config} {host : Host} {act : Act} (traced : Traced host)
    (careful : Careful act host) {entry : Entry} (member : entry ∈ host.entries) {orphan : Orphan}
    (orphaned : entry.orphan = some orphan) :
    (∃ kept ∈ (step config act host).2.entries, kept.id = entry.id ∧ kept.stamp = entry.stamp ∧
      kept.orphan = some orphan) ∨
    ∃ index todo question, act = .sweepAnswer index true ∧
      host.sweeps[index]? = some ⟨todo,some question⟩ ∧ question.entry.id = entry.id ∧ question.orphan = orphan := by
  have stored := entry_stored traced member
  have move := moves config host act
  generalize (step config act host).1 = answer,(step config act host).2 = next at move ⊢
  have held_apart : ∀ id ticket live, host.held id ticket = some live → id ≠ entry.id := by
    rintro id ticket live held rfl
    obtain ⟨found,alive,_⟩ := Host.held_some held
    rw [stored] at found
    rw [← Option.some.inj found,orphaned] at alive
    cases alive
  have stays : next.ledger.get? entry.id = some entry → ∃ kept ∈ next.entries, kept.id = entry.id ∧
      kept.stamp = entry.stamp ∧ kept.orphan = some orphan :=
    fun found => ⟨entry,stored_entry found,rfl,rfl,orphaned⟩
  cases move with
  | still kept budget ledger admits gives => exact .inl (stays (by rw [ledger]; exact stored))
  | @admitted ask now countLimit _ kept stamp budget ledger free unnamed verdict =>
    have apart : ask.id ≠ entry.id := by
      intro same
      rw [same,stored] at free
      cases free
    exact .inl (stays (by rw [ledger,Dict.get?_set_ne _ _ apart]; exact stored))
  | released kept budget ledger held =>
    exact .inl (stays (by rw [ledger,Dict.get?_erase_ne _ (held_apart _ _ _ held)]; exact stored))
  | orphaned kept stamp budget ledger held =>
    exact .inl (stays (by rw [ledger,Dict.get?_set_ne _ _ (held_apart _ _ _ held)]; exact stored))
  | recapped kept budget ledger =>
    obtain ⟨id,stamp,same,_⟩ := recap_same next.budget entry
    refine .inl ⟨Host.recap next.budget entry,?_,id,stamp,same.trans orphaned⟩
    have found : next.ledger.get? entry.id = some (Host.recap next.budget entry) := by
      rw [ledger,Dict.get?_mapValues,stored]
      rfl
    exact stored_entry found
  | @seeded venue listed limits now _ kept budget stamp sweeps ledger unread =>
    refine .inl (stays ?_)
    rw [ledger]
    exact (seeded_stored config limits now (fun name said => (careful unread name said).1) entry.id entry).1 stored
  | @swept index todo question _ kept budget ledger asking same =>
    by_cases here : question.entry.id = entry.id
    · refine .inr ⟨index,todo,question,rfl,asking,here,?_⟩
      rw [here,stored] at same
      have alike := (traced.same entry member question.entry (asking_remembered asking) (by simpa using same)).2
      rw [orphaned,question.own] at alike
      exact (Option.some.inj alike).symm
    · exact .inl (stays (by rw [ledger,Dict.get?_erase_ne _ here]; exact stored))

private theorem asked_free (host : Host) (index : Nat) (name : String) (venue : Option String)
    (asked : (host.sweepTurn index).1 = .asked (some name) venue) (entry : Entry) : ¬liveNamed host name entry := by
  rintro ⟨member,live,named⟩
  unfold Host.sweepTurn at asked
  split at asked
  · split at asked
    · cases asked
    · split at asked
      · cases asked
      next uncarried =>
        have name_ := (Answer.asked.inj asked).1
        refine uncarried ⟨by rw [name_]; rfl,entry,member,live,by rw [named,name_]⟩
  · cases asked

/-- A hold is given back exactly once and only by its owner, in every state that a run of careful acts reaches. -/
theorem holds_given_back_once {config : Config} {past : List (Act × Answer)} {host : Host}
    (run : Runs (step config) Careful (makeHostBudget config) past host) :
    GivenBackOnce config Careful past host := by
  have stand := holdsStand_run run
  refine ⟨ids_distinct stand.traced,stand.apart,?_,?_,?_,?_,?_⟩
  · intro id ticket
    rw [stand.standing]
    exact (giveBack_iff host id none none ticket 0).1
  · intro id name venue ticket now
    rw [stand.standing]
    exact (giveBack_iff host id name venue ticket now).2
  · intro id name venue ticket now closed
    rw [stand.standing] at closed
    have both := giveBack_iff host id name venue ticket now
    have unchanged := refused_giveBack host id name venue ticket now
    exact ⟨unchanged.1 fun gave => closed (both.1.mp gave),unchanged.2 fun gave => closed (both.2.mp gave)⟩
  · intro act careful entry member orphan orphaned
    exact orphan_stays stand.traced careful member orphaned
  · exact asked_free host

/-- Two venues: the second one's listing is read only after a job was admitted on the first. -/
def twoVenues : Config := ⟨⟨.off,.off,none,none⟩,⟨4096,200⟩,some "local",["local","podman"]⟩

def retried : Ask := ⟨"7",some 1,none,⟨1024,100⟩,none,some "pi-job-7",true,[]⟩

def lateListing : List Act := [.seedVenue "local" [] [] 5,.enter "7",.gate retried 10 (some 3),
  .seedVenue "podman" [⟨some "pi-job-7",some "podman",none,none⟩] [] 20]

/-- The late listing counts, as an orphan, a container under the name that the admitted job carries. -/
theorem late_listing_takes_a_live_name :
    ¬∀ past host, HostRun twoVenues past host → GivenBackOnce twoVenues (fun _ _ => True) past host := by
  intro claimed
  have kept := claimed _ _ (runs_after (step twoVenues) (makeHostBudget twoVenues) lateListing)
  have live : ∃ entry, liveNamed (after (step twoVenues) (makeHostBudget twoVenues) lateListing) "pi-job-7" entry ∧
      ∃ other ∈ (after (step twoVenues) (makeHostBudget twoVenues) lateListing).entries,
        other.orphan.bind Orphan.name = some "pi-job-7" := by
    refine ⟨⟨"7",none,⟨1024,100⟩,10,some 1,some "pi-job-7",none,none,0⟩,⟨?_,rfl,rfl⟩,?_⟩ <;> decide +kernel
  obtain ⟨entry,carries,other,member,taken⟩ := live
  exact kept.apart "pi-job-7" entry carries other member taken

def earlyListing : List Act := [.seedVenue "local" [⟨some "pi-job-3",some "local",none,none⟩] [] 5,
  .enter "7",.gate retried 10 (some 3)]

theorem holds_given_back_once_early_listing :
    ((after (step twoVenues) (makeHostBudget twoVenues) earlyListing).release "7" (some 1)).1 = .gaveBack true := by
  have listed : Careful (.seedVenue "local" [⟨some "pi-job-3",some "local",none,none⟩] [] 5)
      (makeHostBudget twoVenues) := by
    refine fun _ name _ => ⟨rfl,?_⟩
    rintro entry ⟨member,_⟩
    cases member
  have run := runs_guarded (step twoVenues) Careful (makeHostBudget twoVenues) earlyListing
    ⟨listed,trivial,trivial,trivial⟩
  exact ((holds_given_back_once run).release "7" (some 1)).mpr (by decide +kernel)

end PiDispatch.HostBudget
