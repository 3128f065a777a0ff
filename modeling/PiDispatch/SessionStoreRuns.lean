import PiDispatch.Kernel.Service
import PiDispatch.SessionStoreConduct

/-! Any number of jobs and promotions at once: what the lock keeps, what a stamp says of the transcript beside it, and what
a resume has read of a transcript that was in place from its first gate to its last check. -/
namespace PiDispatch.SessionStore
open Kernel

variable {B : Type} {config : Config B} {store next : Store B} {log other : Log B} {command : Command B}
  {answer : command.Answer}

/-- No transcript that is swapped in has the identity of an earlier one. -/
def Fresh (store : Store B) (command : Command B) (answer : command.Answer) : Prop :=
  match command,answer with
  | .swap _ _ _,some stat => ∀ file ∈ store.placed, file.stat ≠ stat
  | _,_ => True

/-- What stands in the key's directory, whatever has happened. -/
structure Sound (store : Store B) : Prop where
  head : store.transcript = store.placed.head?
  apart : (store.placed.map File.stat).Nodup
  venue : ∀ file, store.transcript = some file → ∃ text, store.texts .venue = some text ∧
    (text = VENUE_PENDING ∨ venueText file.origin.venue = some text)
  stamped : ∀ file, store.transcript = some file → store.stamped = true →
    store.texts .piVersion = some (versionText file.origin.piVersion)
  parked : ∀ source identity, store.parked = some (.source source identity) →
    ∃ file ∈ store.placed, file.stat = identity ∧ file.origin.parkedSource = some source
  locked : ∀ lock, store.lock = some lock → lock < store.locks

theorem sound_empty : Sound (Store.empty : Store B) := by
  refine ⟨rfl,List.nodup_nil,?_,?_,?_,?_⟩
  · intro file none
    cases none
  · intro file none
    cases none
  · intro source identity none
    cases none
  · intro lock none
    cases none

theorem Sound.mem {file : File B} (sound : Sound store) (current : store.transcript = some file) : file ∈ store.placed :=
  List.mem_of_mem_head? (sound.head.symm.trans current)

theorem Sound.same {file file' : File B} (sound : Sound store) (member : file ∈ store.placed) (member' : file' ∈ store.placed)
    (same : file.stat = file'.stat) : file = file' :=
  List.inj_on_of_nodup_map sound.apart member member' same

/-- What a promotion knows of the store: nothing more once it has lost its lock. -/
structure Mine (store : Store B) (log : Log B) : Prop where
  issued : ∀ lock, (stageOf log).lock = some lock → lock < store.locks
  pended : ∀ lock, stageOf log = .pended lock → store.lock = some lock → store.texts .venue = some VENUE_PENDING
  placed : ∀ lock file, stageOf log = .placed lock file → store.lock = some lock → store.transcript = some file
  seen : ∀ lock handed found, said (.inspect (.promotion lock handed)) found ∈ log →
    ∃ file, stageOf log = .placed lock file ∧ found = some file.stat

theorem mine_nil (store : Store B) : Mine store [] := by
  refine ⟨?_,?_,?_,?_⟩
  · intro lock none
    cases none
  · intro lock none
    cases none
  · intro lock file none
    cases none
  · intro lock handed found member
    exact absurd member List.not_mem_nil

/-- Two promotions have two locks. -/
def Apart (log other : Log B) : Prop := ∀ lock, (stageOf log).lock = some lock → (stageOf other).lock ≠ some lock

theorem Apart.symm (apart : Apart log other) : Apart other log :=
  fun lock theirs own => apart lock own theirs

/-- An operation of another promotion, or a lock taken or released. -/
theorem Mine.moved (mine : Mine store log) (locks : store.locks ≤ next.locks)
    (lost : ∀ lock, (stageOf log).lock = some lock → next.lock ≠ some lock) : Mine next log := by
  refine ⟨?_,?_,?_,mine.seen⟩
  · intro lock own
    exact Nat.lt_of_lt_of_le (mine.issued lock own) locks
  · intro lock pended holds
    exact absurd holds (lost lock (by rw [pended]; rfl))
  · intro lock file placed holds
    exact absurd holds (lost lock (by rw [placed]; rfl))

/-- What the promotions know beside a store that is sound. -/
structure Held (store : Store B) (all : List (Log B)) : Prop where
  sound : Sound store
  mine : ∀ log ∈ all, Mine store log
  apart : all.Pairwise Apart

theorem held_empty : Held (Store.empty : Store B) [] :=
  ⟨sound_empty,fun _ none => absurd none List.not_mem_nil,.nil⟩

theorem Held.enter {all : List (Log B)} (held : Held store all) : Held store (all ++ [[]]) := by
  refine ⟨held.sound,?_,?_⟩
  · intro log member
    rcases List.mem_append.mp member with old | new
    · exact held.mine log old
    · rw [List.mem_singleton.mp new]
      exact mine_nil store
  · refine List.pairwise_append.mpr ⟨held.apart,List.pairwise_singleton _ _,?_⟩
    intro log _ fresh member lock _ own
    rw [List.mem_singleton.mp member] at own
    cases own

section Operation

/-- One operation leaves the store sound, and its own promotion knows what it did. -/
structure Done (store next : Store B) (log log' : Log B) : Prop where
  sound : Sound next
  own : Mine next log'
  locks : store.locks ≤ next.locks
  others : ∀ lock, lock < store.locks → next.lock = some lock → store = next ∨ (stageOf log).lock = some lock
  lock : ∀ lock, (stageOf log').lock = some lock → (stageOf log).lock = some lock ∨ store.locks ≤ lock

private theorem stage_said (command : Command B) (answer : command.Answer) (log : Log B) :
    stageOf (said command answer :: log) = (stageOf log).advance command answer := rfl

private theorem seen_cons (mine : Mine store log) (still : stageOf (said command answer :: log) = stageOf log)
    (new : ∀ lock handed found, said command answer = said (.inspect (.promotion lock handed)) found →
      ∃ file, stageOf log = .placed lock file ∧ found = some file.stat) :
    ∀ lock handed found, said (.inspect (.promotion lock handed)) found ∈ said command answer :: log →
      ∃ file, stageOf (said command answer :: log) = .placed lock file ∧ found = some file.stat := by
  intro lock handed found member
  rw [still]
  rcases List.mem_cons.mp member with same | old
  · exact new lock handed found same.symm
  · exact mine.seen lock handed found old

/-- A reading operation. -/
private theorem done_read (sound : Sound store) (mine : Mine store log)
    (still : stageOf (said command answer :: log) = stageOf log)
    (new : ∀ lock handed found, said command answer = said (.inspect (.promotion lock handed)) found →
      ∃ file, stageOf log = .placed lock file ∧ found = some file.stat) :
    Done store store log (said command answer :: log) := by
  refine ⟨sound,⟨?_,?_,?_,seen_cons mine still new⟩,Nat.le_refl _,fun _ _ _ => .inl rfl,?_⟩
  · rw [still]
    exact mine.issued
  · rw [still]
    exact mine.pended
  · rw [still]
    exact mine.placed
  · intro lock own
    rw [still] at own
    exact .inl own

private theorem other_command (other : ∀ lock handed, command ≠ .inspect (.promotion lock handed)) :
    ∀ lock handed found, said command answer = said (.inspect (.promotion lock handed)) found →
      ∃ file, stageOf log = .placed lock file ∧ found = some file.stat :=
  fun lock handed _ same => absurd (congrArg Sigma.fst same) (other lock handed)

private theorem done_inspect {lock handed : Nat} {found : Option Stat} (sound : Sound store) (mine : Mine store log)
    (may : May config log (.inspect (.promotion lock handed))) (holds : store.lock = some lock)
    (answered : found = store.transcript.map File.stat) :
    Done store store log (said (.inspect (.promotion lock handed)) found :: log) := by
  refine done_read sound mine rfl ?_
  intro lock' handed' found' same
  cases same
  obtain ⟨file,placed⟩ := may
  exact ⟨file,placed,by rw [answered,mine.placed lock file placed holds]; rfl⟩

private theorem done_taken (sound : Sound store) (mine : Mine store log) (outside : stageOf log = .outside) :
    Done store store.taken log (said .takeLock (some store.locks) :: log) := by
  have stage : stageOf (said .takeLock (some store.locks) :: log) = .took store.locks := rfl
  refine ⟨⟨sound.head,sound.apart,sound.venue,sound.stamped,sound.parked,?_⟩,⟨?_,?_,?_,?_⟩,Nat.le_succ _,?_,?_⟩
  · intro lock holds
    cases holds
    exact Nat.lt_succ_self _
  · intro lock own
    cases own
    exact Nat.lt_succ_self _
  · intro lock pended
    rw [stage] at pended
    cases pended
  · intro lock file placed
    rw [stage] at placed
    cases placed
  · intro lock handed found member
    rcases List.mem_cons.mp member with same | old
    · cases congrArg Sigma.fst same
    · obtain ⟨file,placed,_⟩ := mine.seen lock handed found old
      rw [outside] at placed
      cases placed
  · intro lock less holds
    cases holds
    exact absurd less (Nat.lt_irrefl _)
  · intro lock own
    cases own
    exact .inr (Nat.le_refl _)

private theorem done_released {lock : Nat} (sound : Sound store) (mine : Mine store log) :
    Done store { store with lock := none } log (said (.releaseLock lock) () :: log) := by
  refine ⟨⟨sound.head,sound.apart,sound.venue,sound.stamped,sound.parked,nofun⟩,?_,Nat.le_refl _,nofun,fun _ own => .inl own⟩
  refine ⟨mine.issued,nofun,nofun,seen_cons mine rfl (other_command nofun)⟩

/-- A write beside the transcript, under the lock of the promotion that placed it or is about to. -/
private theorem done_beside {lock : Nat} (mine : Mine store log) (sound : Sound next)
    (still : stageOf (said command answer :: log) = stageOf log) (own : (stageOf log).lock = some lock)
    (holds : store.lock = some lock) (held : next.lock = store.lock) (locks : next.locks = store.locks)
    (transcript : next.transcript = store.transcript)
    (pended : ∀ lock, stageOf log = .pended lock → next.texts .venue = store.texts .venue)
    (other : ∀ lock handed, command ≠ .inspect (.promotion lock handed)) :
    Done store next log (said command answer :: log) := by
  refine ⟨sound,⟨?_,?_,?_,seen_cons mine still (other_command other)⟩,Nat.le_of_eq locks.symm,?_,?_⟩
  · rw [still,locks]
    exact mine.issued
  · rw [still,held]
    intro lock stage has
    rw [pended lock stage]
    exact mine.pended lock stage has
  · rw [still,held,transcript]
    exact mine.placed
  · intro lock' less has
    rw [held,holds] at has
    exact .inr (own.trans has)
  · intro lock own
    rw [still] at own
    exact .inl own

private theorem sound_put {lock : Nat} {file : File B} {name : Name} {text : String} (sound : Sound store)
    (current : store.transcript = some file) (fits : Fits lock file name text log) : Sound (store.put name text) := by
  refine ⟨sound.head,sound.apart,?_,?_,sound.parked,sound.locked⟩
  · intro file' current'
    obtain rfl := Option.some.inj (current.symm.trans current')
    by_cases venue : name = .venue
    · subst venue
      exact ⟨text,store.put_self .venue text,.inr fits⟩
    · rw [store.put_other text (Ne.symm venue)]
      exact sound.venue file current
  · intro file' current' stamped
    obtain rfl := Option.some.inj (current.symm.trans current')
    by_cases version : name = .piVersion
    · subst version
      rw [store.put_self]
      exact congrArg some fits
    · rw [store.put_other text (Ne.symm version)]
      refine sound.stamped file current ?_
      have other : (name == Name.piVersion) = false := decide_eq_false version
      have stamped : (store.stamped || name == .piVersion) = true := stamped
      rw [other,Bool.or_false] at stamped
      exact stamped

private theorem done_replace {lock : Nat} {name : Name} {text : String} (sound : Sound store) (mine : Mine store log)
    (may : May config log (.replace lock name text)) (holds : store.lock = some lock) :
    Done store (store.put name text) log (said (.replace lock name text) true :: log) := by
  rcases may with ⟨took,rfl,rfl⟩ | ⟨file,placed,fits⟩
  · have stage : stageOf (said (.replace lock .venue VENUE_PENDING) true :: log) = .pended lock := by
      rw [stage_said,took]
      rfl
    refine ⟨⟨sound.head,sound.apart,?_,?_,sound.parked,sound.locked⟩,⟨?_,?_,?_,?_⟩,Nat.le_refl _,?_,?_⟩
    · intro file current
      exact ⟨VENUE_PENDING,store.put_self .venue VENUE_PENDING,.inl rfl⟩
    · intro file current stamped
      rw [store.put_other VENUE_PENDING (by decide)]
      refine sound.stamped file current ?_
      have stamped : (store.stamped || false) = true := stamped
      rw [Bool.or_false] at stamped
      exact stamped
    · rw [stage]
      intro lock' own
      exact mine.issued lock' (by rw [took]; exact own)
    · intro _ _ _
      exact store.put_self .venue VENUE_PENDING
    · intro lock' file none
      rw [stage] at none
      cases none
    · intro lock' handed found member
      rcases List.mem_cons.mp member with same | old
      · cases congrArg Sigma.fst same
      · obtain ⟨file,placed,_⟩ := mine.seen lock' handed found old
        rw [took] at placed
        cases placed
    · intro lock' less has
      exact .inr (by rw [took]; exact holds.symm.trans has)
    · rw [stage,took]
      exact fun _ own => .inl own
  · refine done_beside mine (sound_put sound (mine.placed lock file placed holds) fits) ?_ (by rw [placed]; rfl) holds rfl rfl rfl
      ?_ nofun
    · rw [stage_said,placed]
      rfl
    · intro lock' pended
      rw [placed] at pended
      cases pended

private theorem done_unlink {lock : Nat} (sound : Sound store) (mine : Mine store log)
    (own : (stageOf log).lock = some lock) (holds : store.lock = some lock) :
    Done store (store.remove .context) log (said (.unlink lock .context) () :: log) := by
  have same : ∀ name, name ≠ .context → (store.remove .context).texts name = store.texts name :=
    fun _ apart => store.remove_other apart
  refine done_beside mine ⟨sound.head,sound.apart,?_,?_,sound.parked,sound.locked⟩ rfl own holds rfl rfl rfl ?_ nofun
  · rw [same .venue (by decide)]
    exact sound.venue
  · rw [same .piVersion (by decide)]
    exact sound.stamped
  · intro _ _
    exact same .venue (by decide)

private theorem done_replaceParked {lock : Nat} {mark : Mark} (sound : Sound store) (mine : Mine store log)
    (may : May config log (.replaceParked lock mark)) (holds : store.lock = some lock) :
    Done store { store with parked := some mark } log (said (.replaceParked lock mark) true :: log) := by
  obtain ⟨file,placed,bound⟩ := may
  have current := mine.placed lock file placed holds
  refine done_beside mine ⟨sound.head,sound.apart,sound.venue,sound.stamped,?_,sound.locked⟩ rfl (by rw [placed]; rfl) holds
    rfl rfl rfl (fun _ _ => rfl) nofun
  intro source identity written
  obtain ⟨own,handed,read⟩ := bound source identity (Option.some.inj written)
  obtain ⟨file',placed',found⟩ := mine.seen lock handed _ read
  rw [placed] at placed'
  cases placed'
  exact ⟨file,sound.mem current,(Option.some.inj found).symm,own⟩

private theorem done_unlinkParked {lock : Nat} (sound : Sound store) (mine : Mine store log)
    (own : (stageOf log).lock = some lock) (holds : store.lock = some lock) :
    Done store { store with parked := none } log (said (.unlinkParked lock) () :: log) :=
  done_beside mine ⟨sound.head,sound.apart,sound.venue,sound.stamped,nofun,sound.locked⟩ rfl own holds rfl rfl rfl
    (fun _ _ => rfl) nofun

private theorem done_swap {lock : Nat} {bytes : B} {origin : Origin} {stat : Stat} (sound : Sound store) (mine : Mine store log)
    (pended : stageOf log = .pended lock) (holds : store.lock = some lock)
    (fresh : ∀ file ∈ store.placed, file.stat ≠ stat) :
    Done store (store.place ⟨stat,bytes,origin⟩) log (said (.swap lock bytes origin) (some stat) :: log) := by
  have stage : stageOf (said (.swap lock bytes origin) (some stat) :: log) = .placed lock ⟨stat,bytes,origin⟩ := by
    rw [stage_said,pended]
    rfl
  have own : (stageOf log).lock = some lock := by rw [pended]; rfl
  refine ⟨⟨rfl,?_,?_,?_,?_,sound.locked⟩,⟨?_,?_,?_,?_⟩,Nat.le_refl _,?_,?_⟩
  · refine List.nodup_cons.mpr ⟨?_,sound.apart⟩
    intro member
    obtain ⟨file,inside,same⟩ := List.mem_map.mp member
    exact fresh file inside same
  · intro file current
    exact ⟨VENUE_PENDING,mine.pended lock pended holds,.inl rfl⟩
  · intro file current stamped
    cases stamped
  · intro source identity written
    obtain ⟨file,member,bound⟩ := sound.parked source identity written
    exact ⟨file,List.mem_cons_of_mem _ member,bound⟩
  · rw [stage]
    intro lock' same
    exact mine.issued lock' (own.trans same)
  · intro lock' other
    rw [stage] at other
    cases other
  · intro lock' file placed _
    rw [stage] at placed
    cases placed
    rfl
  · intro lock' handed found member
    rcases List.mem_cons.mp member with same | old
    · cases congrArg Sigma.fst same
    · obtain ⟨file,placed,_⟩ := mine.seen lock' handed found old
      rw [pended] at placed
      cases placed
  · intro lock' less has
    exact .inr (own.trans (holds.symm.trans has))
  · rw [stage]
    intro lock' same
    exact .inl (own.trans same)

theorem served_done (sound : Sound store) (mine : Mine store log) (may : May config log command)
    (fresh : Fresh store command answer) (served : Serves store command answer next) :
    Done store next log (said command answer :: log) := by
  cases command with
  | inspect asker =>
    obtain ⟨admitted,answered,rfl⟩ := served
    cases asker with
    | gate => exact done_read sound mine rfl (other_command nofun)
    | check => exact done_read sound mine rfl (other_command nofun)
    | promotion lock handed => exact done_inspect sound mine may admitted answered
  | stat asker name =>
    obtain ⟨_,_,rfl⟩ := served
    exact done_read sound mine rfl (other_command nofun)
  | read asker name =>
    obtain ⟨_,_,rfl⟩ := served
    exact done_read sound mine rfl (other_command nofun)
  | readParked =>
    obtain ⟨_,rfl⟩ := served
    exact done_read sound mine rfl (other_command nofun)
  | readTranscript =>
    obtain ⟨_,rfl⟩ := served
    exact done_read sound mine rfl (other_command nofun)
  | openTranscript =>
    obtain ⟨_,rfl⟩ := served
    exact done_read sound mine rfl (other_command nofun)
  | handOver job session =>
    obtain rfl := served
    exact done_read sound mine rfl (other_command nofun)
  | takeLock =>
    obtain ⟨rfl,rfl⟩ | ⟨rfl,rfl⟩ := served
    · exact done_read sound mine rfl (other_command nofun)
    · exact done_taken sound mine may
  | replace lock name text =>
    obtain ⟨holds,⟨rfl,rfl⟩ | ⟨rfl,rfl⟩⟩ := served
    · exact done_replace sound mine may holds
    · exact done_read sound mine rfl (other_command nofun)
  | unlink lock name =>
    obtain ⟨rfl,file,placed⟩ := may
    obtain ⟨holds,rfl | rfl⟩ := served
    · exact done_unlink sound mine (by rw [placed]; rfl) holds
    · exact done_read sound mine rfl (other_command nofun)
  | replaceParked lock mark =>
    obtain ⟨holds,⟨rfl,rfl⟩ | ⟨rfl,rfl⟩⟩ := served
    · exact done_replaceParked sound mine may holds
    · exact done_read sound mine rfl (other_command nofun)
  | unlinkParked lock =>
    obtain ⟨file,placed⟩ := may
    obtain ⟨holds,rfl | rfl⟩ := served
    · exact done_unlinkParked sound mine (by rw [placed]; rfl) holds
    · exact done_read sound mine rfl (other_command nofun)
  | swap lock bytes origin =>
    obtain ⟨holds,⟨rfl,rfl⟩ | ⟨stat,rfl,rfl⟩⟩ := served
    · exact done_read sound mine rfl (other_command nofun)
    · exact done_swap sound mine may holds fresh
  | releaseLock lock =>
    obtain ⟨holds,rfl | rfl⟩ := served
    · exact done_released sound mine
    · exact done_read sound mine rfl (other_command nofun)

theorem Held.answered {before after : List (Log B)} (held : Held store (before ++ log :: after))
    (may : May config log command) (fresh : Fresh store command answer) (served : Serves store command answer next) :
    Held next (before ++ (said command answer :: log) :: after) := by
  have done := served_done held.sound (held.mine log (by simp)) may fresh served
  obtain ⟨own,rest⟩ := List.pairwise_cons.mp ((List.pairwise_middle Apart.symm).mp held.apart)
  have elsewhere : ∀ other ∈ before ++ after, Mine store other := by
    intro other member
    refine held.mine other ?_
    rcases List.mem_append.mp member with left | right
    · exact List.mem_append_left _ left
    · exact List.mem_append_right _ (List.mem_cons_of_mem _ right)
  have kept : ∀ other ∈ before ++ after, Mine next other := by
    intro other member
    have mine := elsewhere other member
    by_cases same : store = next
    · exact same ▸ mine
    · refine mine.moved done.locks ?_
      intro lock theirs has
      rcases done.others lock (mine.issued lock theirs) has with still | taken
      · exact same still
      · exact own other member lock taken theirs
  refine ⟨done.sound,?_,?_⟩
  · intro other member
    rcases List.mem_append.mp member with left | right
    · exact kept other (List.mem_append_left _ left)
    rcases List.mem_cons.mp right with rfl | right
    · exact done.own
    · exact kept other (List.mem_append_right _ right)
  · refine (List.pairwise_middle Apart.symm).mpr (List.pairwise_cons.mpr ⟨?_,rest⟩)
    intro other member lock new theirs
    rcases done.lock lock new with old | late
    · exact own other member lock old theirs
    · exact absurd ((elsewhere other member).issued lock theirs) (Nat.not_lt.mpr late)

end Operation
section Resumes

variable {told : File B → (command : Command B) → command.Answer → Prop}

/-- The reads whose answers say something of the transcript in place. -/
def Noted : Command B → Prop
  | .stat .gate _ | .stat .check _ | .read .gate _ | .read .check _ => True
  | _ => False

/-- The transcript that the gates found was placed; and while it is in place, or was at the check, all that was told of
the transcript in place was told of it. -/
def Truth (told : File B → (command : Command B) → command.Answer → Prop) (store : Store B) (log : Log B) : Prop :=
  ∀ stat, said (.inspect .gate) (some stat) ∈ log → ∃ file ∈ store.placed, file.stat = stat ∧
    (store.transcript = some file ∨ said (.inspect .check) (some stat) ∈ log →
      ∀ command answer, said command answer ∈ log → told file command answer)

/-- What no operation does: forget a transcript that was placed, or put one back. -/
structure Replaces (store next : Store B) : Prop where
  kept : ∀ file ∈ store.placed, file ∈ next.placed
  back : ∀ file ∈ store.placed, next.transcript = some file → store.transcript = some file

theorem served_replaces (fresh : Fresh store command answer) (served : Serves store command answer next) :
    Replaces store next := by
  have same : next.placed = store.placed → next.transcript = store.transcript → Replaces store next := by
    intro placed transcript
    exact ⟨fun _ member => placed ▸ member,fun _ _ current => transcript ▸ current⟩
  cases command with
  | inspect asker => exact same (by rw [served.2.2]) (by rw [served.2.2])
  | stat asker name => exact same (by rw [served.2.2]) (by rw [served.2.2])
  | read asker name => exact same (by rw [served.2.2]) (by rw [served.2.2])
  | readParked => exact same (by rw [served.2]) (by rw [served.2])
  | readTranscript => exact same (by rw [served.2]) (by rw [served.2])
  | openTranscript => exact same (by rw [served.2]) (by rw [served.2])
  | handOver job session =>
    obtain rfl := served
    exact same rfl rfl
  | takeLock =>
    obtain ⟨_,rfl⟩ | ⟨_,rfl⟩ := served
    · exact same rfl rfl
    · exact same rfl rfl
  | replace lock name text =>
    obtain ⟨_,⟨_,rfl⟩ | ⟨_,rfl⟩⟩ := served
    · exact same rfl rfl
    · exact same rfl rfl
  | unlink lock name =>
    obtain ⟨_,rfl | rfl⟩ := served
    · exact same rfl rfl
    · exact same rfl rfl
  | replaceParked lock mark =>
    obtain ⟨_,⟨_,rfl⟩ | ⟨_,rfl⟩⟩ := served
    · exact same rfl rfl
    · exact same rfl rfl
  | unlinkParked lock =>
    obtain ⟨_,rfl | rfl⟩ := served
    · exact same rfl rfl
    · exact same rfl rfl
  | swap lock bytes origin =>
    obtain ⟨_,⟨rfl,rfl⟩ | ⟨stat,rfl,rfl⟩⟩ := served
    · exact same rfl rfl
    · refine ⟨fun file member => List.mem_cons_of_mem _ member,?_⟩
      intro file member current
      obtain rfl := Option.some.inj current
      exact absurd rfl (fresh _ member)
  | releaseLock lock =>
    obtain ⟨_,rfl | rfl⟩ := served
    · exact same rfl rfl
    · exact same rfl rfl

theorem Truth.later (truth : Truth told store log) (replaces : Replaces store next) : Truth told next log := by
  intro stat found
  obtain ⟨file,member,same,all⟩ := truth stat found
  refine ⟨file,replaces.kept file member,same,?_⟩
  rintro (current | checked)
  · exact all (.inl (replaces.back file member current))
  · exact all (.inr checked)

theorem noted_unchecked (may : May config log command) (noted : Noted command) : ¬ Checked log := by
  cases command with
  | stat asker name =>
    cases asker with
    | gate => exact may
    | check => exact may
    | promotion lock handed => exact noted.elim
  | read asker name =>
    cases asker with
    | gate => exact may
    | check => exact may
    | promotion lock handed => exact noted.elim
  | _ => exact noted.elim

/-- The rule of a resume: what every noted read tells of the transcript in place, all of them told of the one that was
found first and was there still at the check. -/
theorem Truth.answered (quiet : ∀ file command answer, ¬ Noted command → told file command answer) (sound : Sound store)
    (truth : Truth told store log) (may : May config log command) (fresh : Fresh store command answer)
    (served : Serves store command answer next)
    (tells : ∀ file, store.transcript = some file → Noted command → told file command answer) :
    Truth told next (said command answer :: log) := by
  have replaces := served_replaces fresh served
  intro stat found
  rcases List.mem_cons.mp found with new | old
  · cases new
    obtain rfl : log = [] := may
    obtain ⟨_,answered,rfl⟩ := served
    obtain ⟨file,current,same⟩ := Option.map_eq_some_iff.mp answered.symm
    refine ⟨file,sound.mem current,same,?_⟩
    intro _ command answer member
    cases List.mem_singleton.mp member
    exact quiet file _ _ id
  · obtain ⟨file,member,same,all⟩ := truth stat old
    refine ⟨file,replaces.kept file member,same,?_⟩
    intro still asked told' inside
    rcases List.mem_cons.mp inside with last | before
    · cases last
      by_cases noted : Noted command
      · refine tells file ?_ noted
        rcases still with current | checked
        · exact replaces.back file member current
        · rcases List.mem_cons.mp checked with now | earlier
          · cases now
            exact noted.elim
          · exact absurd ⟨_,earlier⟩ (noted_unchecked may noted)
      · exact quiet file command answer noted
    · refine all ?_ asked told' before
      rcases still with current | checked
      · exact .inl (replaces.back file member current)
      · rcases List.mem_cons.mp checked with now | earlier
        · cases now
          obtain ⟨_,answered,rfl⟩ := served
          obtain ⟨file',current,same'⟩ := Option.map_eq_some_iff.mp answered.symm
          rw [sound.same member (sound.mem current) (same.trans same'.symm)]
          exact .inl current
        · exact .inr earlier

end Resumes
section Texts

theorem trim_solid (text : String) (solid : ∀ letter ∈ text.toList, isBlank letter = false) : trim text = text := by
  have whole : ∀ letters : List Char, (∀ letter ∈ letters, isBlank letter = false) → letters.dropWhile isBlank = letters := by
    intro letters plain
    cases letters with
    | nil => rfl
    | cons letter rest => rw [List.dropWhile_cons_of_neg (by rw [plain letter List.mem_cons_self]; exact Bool.false_ne_true)]
  unfold trim
  rw [whole _ solid,whole _ fun letter member => solid letter (List.mem_reverse.mp member),List.reverse_reverse]
  exact String.ofList_toList

theorem proper_solid {letter : Char} (proper : (letter.isLower || letter.isDigit || letter == '-') = true) :
    isBlank letter = false := by
  have range : 45 ≤ letter.toNat ∧ letter.toNat ≤ 122 := by
    rcases Bool.or_eq_true_iff.mp proper with proper | dash
    · rcases Bool.or_eq_true_iff.mp proper with lower | digit
      · have lower : letter.val ≥ 'a'.val ∧ letter.val ≤ 'z'.val := by simpa [Char.isLower] using lower
        have least : 97 ≤ letter.toNat := lower.1
        have most : letter.toNat ≤ 122 := lower.2
        omega
      · have digit : letter.val ≥ '0'.val ∧ letter.val ≤ '9'.val := by simpa [Char.isDigit] using digit
        have least : 48 ≤ letter.toNat := digit.1
        have most : letter.toNat ≤ 57 := digit.2
        omega
    · rw [beq_iff_eq.mp dash]
      decide
  unfold isBlank
  refine Bool.or_eq_false_iff.mpr ⟨decide_eq_false ?_,?_⟩
  · simp only [List.mem_cons,List.not_mem_nil,or_false]
    omega
  · have below : ¬ 8192 ≤ letter.toNat := by omega
    rw [decide_eq_false below,Bool.false_and]

theorem Venue.trimmed (venue : Venue) : trim venue.name = venue.name := by
  refine trim_solid venue.name ?_
  intro letter member
  have proper := venue.proper
  unfold isVenueName at proper
  split at proper
  · cases proper
  next first rest letters =>
    rw [letters] at member
    obtain ⟨⟨lead,_⟩,others⟩ : (first.isLower = true ∧ rest.length ≤ 31) ∧
        ∀ letter ∈ rest, (letter.isLower || letter.isDigit || letter == '-') = true := by simpa using proper
    rcases List.mem_cons.mp member with rfl | inside
    · exact proper_solid (by rw [lead]; rfl)
    · exact proper_solid (others letter inside)

theorem Venue.settled (venue : Venue) : trim VENUE_PENDING ≠ venue.name := by
  intro same
  have pending : trim VENUE_PENDING = VENUE_PENDING := by decide +kernel
  have proper := venue.proper
  rw [← same,pending] at proper
  exact absurd proper (by decide +kernel)

theorem Venue.eq {venue venue' : Venue} (same : venue.name = venue'.name) : venue = venue' := by
  cases venue
  cases venue'
  cases same
  rfl

theorem PiVersion.eq {version version' : PiVersion} (same : version.text = version'.text) : version = version' := by
  cases version
  cases version'
  cases same
  rfl

end Texts
section Venues

/-- A pi version is read only where the transcript in place has been stamped by its own promotion, or the stamp that an
earlier one left is the same. -/
def Stamped (store : Store B) (command : Command B) : Prop :=
  match command with
  | .read .gate .piVersion => ∀ file, store.transcript = some file →
      store.stamped = true ∨ store.texts .piVersion = some (versionText file.origin.piVersion)
  | _ => True

/-- What the gates and the check were told of the transcript in place. -/
def Stamps (file : File B) (command : Command B) (answer : command.Answer) : Prop :=
  match command,answer with
  | .stat .check .venue,found => found ≠ none
  | .read .check .venue,found => ∃ text, found = some text ∧ (text = VENUE_PENDING ∨ venueText file.origin.venue = some text)
  | .read .gate .piVersion,found => found = some (versionText file.origin.piVersion)
  | _,_ => True

/-- What a store goes on to hold of an answer. -/
def Lasting (store : Store B) (command : Command B) (answer : command.Answer) : Prop :=
  match command,answer with
  | .openTranscript,some file => file ∈ store.placed
  | .readParked,some (.source source identity) => ∃ file ∈ store.placed, file.stat = identity ∧ file.origin.parkedSource = some source
  | _,_ => True

private theorem stamps_quiet (file : File B) (command : Command B) (answer : command.Answer) (quiet : ¬ Noted command) :
    Stamps file command answer := by
  unfold Stamps
  split
  · exact absurd trivial quiet
  · exact absurd trivial quiet
  · exact absurd trivial quiet
  · trivial

private theorem stamps_told (sound : Sound store) (stamped : Stamped store command)
    (served : Serves store command answer next) {file : File B} (current : store.transcript = some file) :
    Stamps file command answer := by
  obtain ⟨text,venue,fits⟩ := sound.venue file current
  unfold Stamps
  split
  · obtain ⟨_,answered,_⟩ := served
    rw [answered,venue]
    exact Option.some_ne_none _
  · obtain ⟨_,answered,_⟩ := served
    exact ⟨text,answered.trans venue,fits⟩
  · obtain ⟨_,answered,_⟩ := served
    rcases stamped file current with own | same
    · exact answered.trans (sound.stamped file current own)
    · exact answered.trans same
  · trivial

theorem lasting_later (replaces : Replaces store next) (command : Command B) (answer : command.Answer)
    (lasting : Lasting store command answer) : Lasting next command answer := by
  unfold Lasting at lasting ⊢
  split
  · exact replaces.kept _ lasting
  · obtain ⟨file,member,bound⟩ := lasting
    exact ⟨file,replaces.kept file member,bound⟩
  · trivial

theorem lasting_answered (sound : Sound store) (served : Serves store command answer next) : Lasting next command answer := by
  unfold Lasting
  split
  · obtain ⟨answered,rfl⟩ := served
    exact sound.mem answered.symm
  · obtain ⟨answered,rfl⟩ := served
    exact sound.parked _ _ answered.symm
  · trivial

/-- The jobs of a key, and promotions of any sessions on it. -/
inductive Enters (config : Config B) : Call B Bool → Prop
  | job (job : Job) : Enters config (runJob config job)
  | promotion (session : Session B) (piVersion : Option PiVersion) (outcome : Outcome B) :
      Enters config (promoteSession config session piVersion outcome)

theorem enters_conduct {program : Call B Bool} (enters : Enters config program) :
    program.Conducts (May config) (fun _ _ => True) [] := by
  cases enters with
  | job job => exact runJob_conducts job
  | promotion session piVersion outcome => exact promoteSession_conducts rfl

/-- The world of a key: its jobs and promotions in any interleaving, each operation within the rule. -/
abbrev Key (config : Config B) (rule : Store B → (command : Command B) → command.Answer → Prop) :
    Agency (FileSystem B) (Store B) (Watched (FileSystem B) Bool) := watched (Under rule) (Enters config)

/-- Fresh identities, and no pi version read off a stamp that is not the transcript's own. -/
def OwnStamp (store : Store B) (command : Command B) (answer : command.Answer) : Prop :=
  Fresh store command answer ∧ Stamped store command

private theorem resumes_true {world : World (Store B) (Watched (FileSystem B) Bool)}
    (reached : Reachable (Key config OwnStamp) Store.empty world) :
    (Held world.store (world.agents.map Watched.heard) ∧ Known Lasting world.store (world.agents.map Watched.heard) ∧
      ∀ log ∈ world.agents.map Watched.heard, Truth Stamps world.store log) ∧
      ∀ agent ∈ world.agents, agent.program.Conducts (May config) (fun _ _ => True) agent.heard ∧
        Lawful (May config) agent.heard := by
  refine watched_keep (fun store all => Held store all ∧ Known Lasting store all ∧ ∀ log ∈ all, Truth Stamps store log)
    (fun _ enters => enters_conduct enters) ?_ ?_ ?_ reached
  · intro store all ⟨held,known,truths⟩
    refine ⟨held.enter,known_enter known,?_⟩
    intro log member
    rcases List.mem_append.mp member with old | new
    · exact truths log old
    · rw [List.mem_singleton.mp new]
      exact fun stat none => absurd none List.not_mem_nil
  · intro store next before log after command answer ⟨held,known,truths⟩ may ⟨⟨fresh,stamped⟩,served⟩
    have replaces := served_replaces fresh served
    refine ⟨held.answered may fresh served,
      known_answered known (lasting_later replaces) (lasting_answered held.sound served),?_⟩
    intro other member
    rcases List.mem_append.mp member with left | right
    · exact (truths other (List.mem_append_left _ left)).later replaces
    rcases List.mem_cons.mp right with rfl | right
    · exact (truths log (by simp)).answered stamps_quiet held.sound may fresh served
        fun file current _ => stamps_told held.sound stamped served current
    · exact (truths other (List.mem_append_right _ (List.mem_cons_of_mem _ right))).later replaces
  · exact ⟨held_empty,fun _ none => absurd none List.not_mem_nil,fun _ none => absurd none List.not_mem_nil⟩

private theorem venue_stamped {file : File B} {venue : Option Venue} (present : venue.isSome) (read : ReadVenue .check (venueText venue) log)
    (told : ∀ command answer, said command answer ∈ log → Stamps file command answer) : file.origin.venue = venue := by
  obtain ⟨venue,rfl⟩ := Option.isSome_iff_exists.mp present
  rcases read with ⟨absent,_⟩ | ⟨absent,_⟩ | ⟨_,_,_,none⟩ | ⟨raw,heard,same⟩
  · exact absurd rfl (told _ _ absent)
  · exact absurd rfl (told _ _ absent)
  · cases none
  · obtain ⟨text,rfl,fits⟩ := told _ _ heard
    have same : venue.name = trim text := Option.some.inj same
    rcases fits with rfl | own
    · exact absurd same.symm venue.settled
    · obtain ⟨venue',written,rfl⟩ := Option.map_eq_some_iff.mp own
      rw [venue'.trimmed] at same
      rw [written,Venue.eq same]

private theorem version_stamped {file : File B} {version : PiVersion} (read : Read .gate .piVersion (some version.text) log)
    (told : ∀ command answer, said command answer ∈ log → Stamps file command answer) :
    file.origin.piVersion = some version := by
  rcases read with ⟨_,none⟩ | ⟨_,_,_,none⟩ | ⟨raw,heard,same⟩
  · cases none
  · cases none
  · have own : raw = some (versionText file.origin.piVersion) := told _ _ heard
    rw [own] at same
    have same : version.text = trim (versionText file.origin.piVersion) := Option.some.inj same
    cases named : file.origin.piVersion with
    | none =>
      rw [named] at same
      exact absurd same version.filled
    | some version' =>
      rw [named] at same
      rw [PiVersion.eq (same.trans version'.trimmed)]

/-- A resume is of one transcript that was promoted, by a job of the same venue and pi version, and with the source that
its own promotion recorded, in every run in which no gate reads a pi version that is not the transcript's own. -/
theorem resumed_own {world : World (Store B) (Watched (FileSystem B) Bool)}
    (reached : Reachable (Key config OwnStamp) Store.empty world) {agent : Watched (FileSystem B) Bool}
    (member : agent ∈ world.agents) {job : Job} {session : Session B} {left : Option (Outcome B)}
    (handed : said (.handOver job session) left ∈ agent.heard) (resumes : session.resume = true) :
    ∃ file ∈ world.store.placed, session.staged = some file ∧
      job.venue.isSome ∧ file.origin.venue = job.venue ∧
      job.piVersion.isSome ∧ file.origin.piVersion = job.piVersion ∧
      ∀ source, session.parkedSource = some source → file.origin.parkedSource = some source := by
  obtain ⟨⟨held,known,truths⟩,conducts⟩ := resumes_true reached
  have listed : agent.heard ∈ world.agents.map Watched.heard := List.mem_map_of_mem member
  obtain ⟨later,earlier,shape⟩ := List.append_of_mem handed
  have lawful := (conducts agent member).2
  rw [shape] at lawful
  obtain ⟨stat,file,staged,passed,copied,bound⟩ := (lawful_at lawful resumes).passed
  have inside : ∀ heard ∈ earlier, heard ∈ agent.heard := by
    intro heard before
    rw [shape]
    exact List.mem_append_right _ (List.mem_cons_of_mem _ before)
  obtain ⟨found,placed,same,told⟩ := truths agent.heard listed stat (inside _ passed.found)
  have told : ∀ command answer, said command answer ∈ earlier → Stamps found command answer :=
    fun command answer before => told (.inr (inside _ copied.still)) command answer (inside _ before)
  have opened : file ∈ world.store.placed := known agent.heard listed _ (inside _ copied.bytes)
  obtain rfl : found = file := held.sound.same placed opened (same.trans copied.same.symm)
  obtain ⟨version,named,read⟩ := passed.version
  refine ⟨found,placed,staged,passed.venue,venue_stamped passed.venue copied.stamp told,?_,?_,?_⟩
  · rw [named]
    rfl
  · rw [named]
    exact version_stamped read told
  · intro source recorded
    obtain ⟨marked,member',identity,own⟩ := known agent.heard listed _ (inside _ (bound source recorded))
    rw [held.sound.same placed member' (same.trans identity.symm)]
    exact own

end Venues
section Computed

variable (leaves : Job → Option (Outcome B)) (fails : Name → String → Bool)

/-- A key whose writes fail where they are said to, and whose files have a number each. -/
def answering (store : Store B) (command : Command B) : command.Answer × Store B :=
  match command with
  | .inspect _ => (store.transcript.map File.stat,store)
  | .stat _ name => ((store.texts name).map String.utf8ByteSize,store)
  | .read _ name => (store.texts name,store)
  | .readParked => (store.parked,store)
  | .readTranscript => (store.transcript.map File.bytes,store)
  | .openTranscript => (store.transcript,store)
  | .handOver job _ => (leaves job,store)
  | .takeLock => if store.lock = none then (some store.locks,store.taken) else (none,store)
  | .replace _ name text => if fails name text then (false,store) else (true,store.put name text)
  | .unlink _ name => ((),store.remove name)
  | .replaceParked _ mark => (true,{ store with parked := some mark })
  | .unlinkParked _ => ((),{ store with parked := none })
  | .swap _ bytes origin =>
    let stat : Stat := ⟨0,store.placed.length,1,0⟩
    (some stat,store.place ⟨stat,bytes,origin⟩)
  | .releaseLock _ => ((),{ store with lock := none })

/-- Who reads or writes holds the lock it names, and a swap's number is new. -/
def ready (store : Store B) (command : Command B) : Bool :=
  match command with
  | .inspect (.promotion lock _) | .stat (.promotion lock _) _ | .read (.promotion lock _) _
  | .replace lock _ _ | .unlink lock _ | .replaceParked lock _ | .unlinkParked lock | .releaseLock lock => store.lock = some lock
  | .swap lock _ _ => store.lock = some lock && store.placed.all fun file => file.stat ≠ ⟨0,store.placed.length,1,0⟩
  | _ => true

theorem answering_serves (store : Store B) (command : Command B) (free : ready store command = true) :
    Fresh store command (answering leaves fails store command).1 ∧
      Serves store command (answering leaves fails store command).1 (answering leaves fails store command).2 := by
  have admitted : ∀ asker : Asker, (∀ lock handed, asker = .promotion lock handed → store.lock = some lock) → store.admits asker := by
    intro asker holds
    cases asker with
    | gate => trivial
    | check => trivial
    | promotion lock handed => exact holds lock handed rfl
  cases command with
  | inspect asker =>
    refine ⟨trivial,admitted asker ?_,rfl,rfl⟩
    rintro lock handed rfl
    exact of_decide_eq_true free
  | stat asker name =>
    refine ⟨trivial,admitted asker ?_,rfl,rfl⟩
    rintro lock handed rfl
    exact of_decide_eq_true free
  | read asker name =>
    refine ⟨trivial,admitted asker ?_,rfl,rfl⟩
    rintro lock handed rfl
    exact of_decide_eq_true free
  | readParked => exact ⟨trivial,rfl,rfl⟩
  | readTranscript => exact ⟨trivial,rfl,rfl⟩
  | openTranscript => exact ⟨trivial,rfl,rfl⟩
  | handOver job session => exact ⟨trivial,rfl⟩
  | takeLock =>
    unfold answering
    dsimp only
    split
    · exact ⟨trivial,.inr ⟨rfl,rfl⟩⟩
    · exact ⟨trivial,.inl ⟨rfl,rfl⟩⟩
  | replace lock name text =>
    have holds : store.lock = some lock := of_decide_eq_true free
    unfold answering
    dsimp only
    split
    · exact ⟨trivial,holds,.inr ⟨rfl,rfl⟩⟩
    · exact ⟨trivial,holds,.inl ⟨rfl,rfl⟩⟩
  | unlink lock name => exact ⟨trivial,of_decide_eq_true free,.inl rfl⟩
  | replaceParked lock mark => exact ⟨trivial,of_decide_eq_true free,.inl ⟨rfl,rfl⟩⟩
  | unlinkParked lock => exact ⟨trivial,of_decide_eq_true free,.inl rfl⟩
  | swap lock bytes origin =>
    obtain ⟨holds,fresh⟩ := Bool.and_eq_true_iff.mp free
    refine ⟨?_,of_decide_eq_true holds,.inr ⟨_,rfl,rfl⟩⟩
    intro file member
    exact of_decide_eq_true (List.all_eq_true.mp fresh file member)
  | releaseLock lock => exact ⟨trivial,of_decide_eq_true free,.inl rfl⟩

/-- What a job was handed, last. -/
def handedOver : Log B → Option (Job × Session B)
  | [] => none
  | ⟨.handOver job session,_⟩ :: _ => some (job,session)
  | _ :: log => handedOver log

theorem handedOver_said {log : Log B} {job : Job} {session : Session B} (found : handedOver log = some (job,session)) :
    ∃ left, said (.handOver job session) left ∈ log := by
  induction log with
  | nil => cases found
  | cons heard log ih =>
    obtain ⟨command,answer⟩ := heard
    cases command with
    | handOver job' session' =>
      cases found
      exact ⟨answer,List.mem_cons_self⟩
    | _ =>
      obtain ⟨left,member⟩ := ih found
      exact ⟨left,List.mem_cons_of_mem _ member⟩

end Computed

section Examples

def plainConfig : Config Unit := ⟨0,0,0,0,none,fun _ => true,fun _ => none,fun _ => false⟩

def localVenue : Venue := ⟨"local",by decide +kernel⟩
def firstPi : PiVersion := ⟨"1.0.0",by decide +kernel,by decide +kernel⟩
def secondPi : PiVersion := ⟨"2.0.0",by decide +kernel,by decide +kernel⟩

def jobOf (piVersion : PiVersion) : Job := ⟨none,some localVenue,some piVersion,0,0⟩

def completed (_ : Job) : Option (Outcome Unit) := some ⟨1,(),none,false,none,0⟩

def entered (jobs : List Job) : World (Store Unit) (Watched (FileSystem Unit) Bool) :=
  ⟨.empty,jobs.map fun job => ⟨runJob plainConfig job,[]⟩⟩

/-- Jobs that run one after another. -/
def inTurn (fails : Name → String → Bool) (jobs : List Job) : World (Store Unit) (Watched (FileSystem Unit) Bool) :=
  (Key plainConfig Fresh).turns (answering completed fails) (entered jobs)
    ((List.range jobs.length).flatMap fun index => List.replicate 40 index)

private theorem entered_reached {rule : Store Unit → (command : Command Unit) → command.Answer → Prop} (jobs : List Job) :
    Reachable (Key plainConfig rule) Store.empty (entered jobs) := by
  refine reachable_entered _ _ _ ?_
  intro agent member
  obtain ⟨job,_,rfl⟩ := List.mem_map.mp member
  exact ⟨.job job,rfl⟩

private def stampedToo (store : Store Unit) (command : Command Unit) : Bool :=
  ready store command && match command with
    | .read .gate .piVersion => store.stamped
    | _ => true

private theorem stampedToo_serves (fails : Name → String → Bool) (store : Store Unit) (command : Command Unit)
    (checked : stampedToo store command = true) :
    Under OwnStamp store command (answering completed fails store command).1 (answering completed fails store command).2 := by
  obtain ⟨free,own⟩ := Bool.and_eq_true_iff.mp checked
  obtain ⟨fresh,serves⟩ := answering_serves completed fails store command free
  refine ⟨⟨fresh,?_⟩,serves⟩
  unfold Stamped
  split
  · exact fun _ _ => .inl own
  · trivial

private theorem inTurn_stamped {fails : Name → String → Bool} {jobs : List Job}
    (passed : (Key plainConfig OwnStamp).passes (answering completed fails) stampedToo (entered jobs)
      ((List.range jobs.length).flatMap fun index => List.replicate 40 index) = true) :
    Reachable (Key plainConfig OwnStamp) Store.empty (inTurn fails jobs) :=
  reachable_passes (Key plainConfig OwnStamp) (answering completed fails) stampedToo (stampedToo_serves fails) _
    (entered_reached jobs) passed

private theorem inTurn_reached {fails : Name → String → Bool} {jobs : List Job}
    (passed : (Key plainConfig Fresh).passes (answering completed fails) ready (entered jobs)
      ((List.range jobs.length).flatMap fun index => List.replicate 40 index) = true) :
    Reachable (Key plainConfig Fresh) Store.empty (inTurn fails jobs) :=
  reachable_passes (Key plainConfig Fresh) (answering completed fails) ready (answering_serves completed fails) _
    (entered_reached jobs) passed

def handedTo (world : World (Store Unit) (Watched (FileSystem Unit) Bool)) (index : Nat) :
    Option (Job × Session Unit) := world.agents[index]?.bind fun agent => handedOver agent.heard

theorem handedTo_said {world : World (Store Unit) (Watched (FileSystem Unit) Bool)} {index : Nat} {job : Job}
    {session : Session Unit} (found : handedTo world index = some (job,session)) :
    ∃ agent ∈ world.agents, ∃ left, said (.handOver job session) left ∈ agent.heard := by
  obtain ⟨agent,listed,handed⟩ := Option.bind_eq_some_iff.mp found
  exact ⟨agent,List.mem_of_getElem? listed,handedOver_said handed⟩

def twoJobs : World (Store Unit) (Watched (FileSystem Unit) Bool) :=
  inTurn (fun _ _ => false) [jobOf firstPi,jobOf firstPi]

theorem resumed_second : ∃ session : Session Unit, handedTo twoJobs 1 = some (jobOf firstPi,session) ∧
    ∃ file ∈ twoJobs.store.placed, session.staged = some file ∧ file.origin.piVersion = some firstPi := by
  have reached : Reachable (Key plainConfig OwnStamp) Store.empty twoJobs := inTurn_stamped (by decide +kernel)
  have resumes : (handedTo twoJobs 1).any fun handed => decide (handed.1 = jobOf firstPi) && handed.2.resume := by decide +kernel
  obtain ⟨⟨job,session⟩,found,both⟩ := (Option.any_eq_true _ _).mp resumes
  obtain ⟨own,resumes⟩ := Bool.and_eq_true_iff.mp both
  have own : job = jobOf firstPi := of_decide_eq_true own
  subst own
  obtain ⟨agent,member,left,handed⟩ := handedTo_said found
  obtain ⟨file,placed,staged,_,_,_,same,_⟩ := resumed_own reached member handed resumes
  exact ⟨session,found,file,placed,staged,same⟩

/-- A run of the second version whose stamp fails leaves the first one's beside its transcript. -/
def staleStamp : World (Store Unit) (Watched (FileSystem Unit) Bool) :=
  inTurn (fun name text => name = .piVersion && text = "2.0.0") [jobOf firstPi,jobOf secondPi,jobOf firstPi]

theorem stale_resumed : ¬ ∀ (config : Config Unit) (world : World (Store Unit) (Watched (FileSystem Unit) Bool)),
    Reachable (Key config Fresh) Store.empty world → ∀ agent ∈ world.agents, ∀ job session left,
      said (.handOver job session) left ∈ agent.heard → session.resume = true →
      ∃ file ∈ world.store.placed, session.staged = some file ∧ file.origin.venue = job.venue ∧
        file.origin.piVersion = job.piVersion := by
  intro claimed
  have reached : Reachable (Key plainConfig Fresh) Store.empty staleStamp := inTurn_reached (by decide +kernel)
  have resumes : (handedTo staleStamp 2).any fun handed => decide (handed.1 = jobOf firstPi) && handed.2.resume &&
      decide (handed.2.staged.map (fun file => file.origin.piVersion) = some (some secondPi)) := by decide +kernel
  obtain ⟨⟨job,session⟩,found,all⟩ := (Option.any_eq_true _ _).mp resumes
  obtain ⟨both,other⟩ := Bool.and_eq_true_iff.mp all
  obtain ⟨own,resumes⟩ := Bool.and_eq_true_iff.mp both
  have own : job = jobOf firstPi := of_decide_eq_true own
  have other : session.staged.map (fun file => file.origin.piVersion) = some (some secondPi) := of_decide_eq_true other
  obtain ⟨agent,member,left,handed⟩ := handedTo_said found
  obtain ⟨file,_,staged,_,same⟩ := claimed plainConfig staleStamp reached agent member job session left handed resumes
  rw [staged] at other
  have other : file.origin.piVersion = some secondPi := Option.some.inj other
  rw [other,own] at same
  exact absurd same (by decide +kernel)

end Examples

end PiDispatch.SessionStore
