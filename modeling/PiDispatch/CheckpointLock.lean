import PiDispatch.Kernel.Dict
import PiDispatch.Kernel.Machine

/-! The lock of a checkpoint store: a file made by exclusive create, taken over from a dead holder by renaming it and reading
what was renamed. Any number of processes take and release it, one file system operation at a time; it has one holder as long
as no takeover moves another lock than the one it judged. -/
namespace PiDispatch.CheckpointLock
open Kernel

/-- A lock file: the tag in it, once its body is written, when it was last written, and who made it. -/
structure LockFile where
  tag : Option Nat
  mtime : Nat
  maker : Nat
  deriving DecidableEq

/-- The operation that a process comes to next. A file goes by its place among all that were ever made, `seen` is what was
read of the lock, and `moved` the file that was renamed. -/
inductive Stage
  | away
  | creating (tag attempt : Nat)
  | writing (tag file : Nat)
  | holding (tag file : Nat)
  | reading (tag attempt : Nat)
  | judging (tag attempt : Nat) (seen : Option Nat)
  | moving (tag attempt : Nat) (seen : Option Nat) (judged : Nat)
  | checking (tag attempt : Nat) (seen : Option Nat) (moved : Nat)
  | taking (tag attempt : Nat)
  | puttingBack (moved : Nat)
  | clearing
  | releasing (tag file : Nat)
  | verifying (tag moved : Nat)
  | dead
  deriving DecidableEq

/-- The lock file of a process, from its creation to its release. -/
def Stage.owned : Stage → Option Nat
  | .writing _ file | .holding _ file | .releasing _ file => some file
  | _ => none

/-- The lock file that a process moved aside. -/
def Stage.aside : Stage → Option Nat
  | .checking _ _ _ moved | .puttingBack moved | .verifying _ moved => some moved
  | _ => none

structure State where
  files : List LockFile
  lock : Option Nat
  stages : Dict Nat Stage
  now : Nat
  tags : Nat
  deriving DecidableEq

def State.start : State := ⟨[],none,.empty,0,0⟩

def State.stageOf (state : State) (process : Nat) : Stage := (state.stages.get? process).getD .away

def State.enter (state : State) (process : Nat) (stage : Stage) : State :=
  { state with stages := state.stages.set process stage }

def State.tagOf (state : State) (file : Nat) : Option Nat := (state.files[file]?).bind LockFile.tag

def State.ageOf (state : State) (file : Nat) : Nat := state.now - ((state.files[file]?).map LockFile.mtime).getD 0

/-- The exclusive create, where there is no lock. -/
def State.create (state : State) (process tag : Nat) : State :=
  State.enter { state with files := state.files ++ [⟨none,state.now,process⟩], lock := some state.files.length } process
    (.writing tag state.files.length)

def State.write (state : State) (process tag file : Nat) : State :=
  State.enter { state with files := state.files.modify file fun made => { made with tag := some tag, mtime := state.now } }
    process (.holding tag file)

/-- The loop of `takeLock` has two rounds. -/
def retry (tag attempt : Nat) : Stage := if attempt + 1 < 2 then .creating tag (attempt + 1) else .away

/-- The next operation of a process. -/
def State.operate (state : State) (lockStaleMs process : Nat) : State :=
  match state.stageOf process,state.lock with
  | .away,_ | .holding .. ,_ | .dead,_ => state
  | .creating tag _,none => state.create process tag
  | .creating tag attempt,some _ => state.enter process (.reading tag attempt)
  | .writing tag file,_ => state.write process tag file
  | .reading tag attempt,none => state.enter process (retry tag attempt)
  | .reading tag attempt,some file => state.enter process (.judging tag attempt (state.tagOf file))
  | .judging tag attempt _,none => state.enter process (retry tag attempt)
  | .judging tag attempt seen,some file =>
    state.enter process (if state.ageOf file ≤ lockStaleMs then .away else .moving tag attempt seen file)
  | .moving tag attempt _ _,none => state.enter process (retry tag attempt)
  | .moving tag attempt seen _,some file => State.enter { state with lock := none } process (.checking tag attempt seen file)
  | .checking tag attempt seen moved,_ =>
    state.enter process (if state.tagOf moved = seen then .taking tag attempt else .puttingBack moved)
  | .taking tag attempt,_ => state.enter process (retry tag attempt)
  | .puttingBack moved,none => State.enter { state with lock := some moved } process .clearing
  | .puttingBack _,some _ => state.enter process .clearing
  | .clearing,_ => state.enter process .away
  | .releasing _ _,none => state.enter process .away
  | .releasing tag _,some file => State.enter { state with lock := none } process (.verifying tag file)
  | .verifying tag moved,_ => state.enter process (if state.tagOf moved = some tag then .clearing else .puttingBack moved)

inductive Act
  | takes (process : Nat)
  | operates (process : Nat)
  | releases (process : Nat)
  | crashes (process : Nat)
  | ticks (ms : Nat)
  deriving DecidableEq

def step (lockStaleMs : Nat) (act : Act) (state : State) : Unit × State :=
  ((),match act with
    | .takes process =>
      if state.stageOf process = .away then State.enter { state with tags := state.tags + 1 } process (.creating state.tags 0) else state
    | .operates process => state.operate lockStaleMs process
    | .releases process =>
      match state.stageOf process with
      | .holding tag file => state.enter process (.releasing tag file)
      | _ => state
    | .crashes process => state.enter process .dead
    | .ticks ms => { state with now := state.now + ms })

/-- No live process keeps its lock file longer than it takes to be stale. -/
def Timely (lockStaleMs : Nat) (act : Act) (state : State) : Prop :=
  match act with
  | .ticks ms => ∀ entry ∈ state.stages.entries, ∀ file ∈ entry.2.owned, state.ageOf file + ms ≤ lockStaleMs
  | _ => True

/-- A takeover finds the lock it judged, or none. -/
def Judged (act : Act) (state : State) : Prop :=
  match act with
  | .operates process =>
    match state.stageOf process with
    | .moving _ _ _ judged => state.lock = none ∨ state.lock = some judged
    | _ => True
  | _ => True

def State.Holds (state : State) (process file : Nat) : Prop := ∃ tag, state.stageOf process = .holding tag file

/-- The lock has one holder, and its file is in place, if no one has moved it aside. -/
def Exclusive (state : State) : Prop :=
  (∀ one other file file', state.Holds one file → state.Holds other file' → one = other) ∧
    ∀ process file, state.Holds process file → state.lock = some file ∨ ∃ other, (state.stageOf other).aside = some file

section Invariant

variable {lockStaleMs : Nat} {state : State}

/-- Whoever made a lock file and has not released it has it in place, and fresh; none is judged that someone still owns. -/
private structure Stands (lockStaleMs : Nat) (state : State) : Prop where
  known : ∀ file ∈ state.lock, file < state.files.length
  owns : ∀ process, ∀ file ∈ (state.stageOf process).owned, state.lock = some file ∧ state.ageOf file ≤ lockStaleMs ∧
    ∃ made, state.files[file]? = some made ∧ made.maker = process
  aside : ∀ process, ∀ file ∈ (state.stageOf process).aside, file < state.files.length
  judged : ∀ process tag attempt seen file, state.stageOf process = .moving tag attempt seen file → file < state.files.length ∧
    ∀ other, file ∉ (state.stageOf other).owned

private theorem start_stands : Stands lockStaleMs .start := by
  refine ⟨fun _ none' => (nomatch none'),fun _ _ own => (nomatch own),fun _ _ own => (nomatch own),?_⟩
  intro process tag attempt seen file own
  cases own

private theorem stageOf_enter (process other : Nat) (stage : Stage) :
    (state.enter process stage).stageOf other = if process = other then stage else state.stageOf other := by
  unfold State.enter State.stageOf
  dsimp only
  rw [Dict.get?_set]
  split <;> rfl

/-- A stage that owns nothing and judged nothing. -/
private theorem enter_stands {process : Nat} {stage : Stage} (stands : Stands lockStaleMs state) (unowned : stage.owned = none)
    (aside : ∀ file ∈ stage.aside, file < state.files.length)
    (judged : ∀ tag attempt seen file, stage = .moving tag attempt seen file → file < state.files.length ∧
      ∀ other, file ∉ (state.stageOf other).owned) : Stands lockStaleMs (state.enter process stage) := by
  have less {other file : Nat} (own : file ∈ ((state.enter process stage).stageOf other).owned) :
      file ∈ (state.stageOf other).owned := by
    rw [stageOf_enter] at own
    split at own
    · rw [unowned] at own
      cases own
    · exact own
  refine ⟨stands.known,fun other file own => stands.owns other file (less own),fun other file own => ?_,?_⟩
  · rw [stageOf_enter] at own
    split at own
    · exact aside file own
    · exact stands.aside other file own
  · intro other tag attempt seen file own
    rw [stageOf_enter] at own
    split at own
    · obtain ⟨known,none'⟩ := judged tag attempt seen file own
      exact ⟨known,fun one owned => none' one (less owned)⟩
    · obtain ⟨known,none'⟩ := stands.judged other tag attempt seen file own
      exact ⟨known,fun one owned => none' one (less owned)⟩

/-- The lock is moved aside only from a process that does not own it any more. -/
private theorem unlocked_stands {process : Nat} {stage : Stage} (stands : Stands lockStaleMs state) (unowned : stage.owned = none)
    (aside : ∀ file ∈ stage.aside, file < state.files.length)
    (still : ∀ tag attempt seen file, stage ≠ .moving tag attempt seen file)
    (free : ∀ other, other ≠ process → (state.stageOf other).owned = none) :
    Stands lockStaleMs (State.enter { state with lock := none } process stage) := by
  have none' (other : Nat) : ((State.enter { state with lock := none } process stage).stageOf other).owned = none := by
    rw [stageOf_enter]
    split
    · exact unowned
    next apart => exact free other (Ne.symm apart)
  refine ⟨fun _ own => (nomatch own),fun other file own => ?_,fun other file own => ?_,?_⟩
  · rw [none' other] at own
    cases own
  · rw [stageOf_enter] at own
    split at own
    · exact aside file own
    · exact stands.aside other file own
  · intro other tag attempt seen file own
    rw [stageOf_enter] at own
    split at own
    · exact absurd own (still tag attempt seen file)
    · refine ⟨(stands.judged other tag attempt seen file own).1,fun one owned => ?_⟩
      rw [none' one] at owned
      cases owned

/-- No one owns a lock file while there is no lock. -/
private theorem free_of_unlocked (stands : Stands lockStaleMs state) (unlocked : state.lock = none) (process : Nat) :
    (state.stageOf process).owned = none := by
  cases own : (state.stageOf process).owned with
  | none => rfl
  | some file =>
    have locked := (stands.owns process file own).1
    rw [unlocked] at locked
    cases locked

private theorem stageOf_create (process other tag : Nat) :
    (state.create process tag).stageOf other = if process = other then .writing tag state.files.length else state.stageOf other :=
  stageOf_enter ..

private theorem create_stands {process : Nat} (tag : Nat) (stands : Stands lockStaleMs state) (unlocked : state.lock = none) :
    Stands lockStaleMs (state.create process tag) := by
  have owned (other : Nat) : ((state.create process tag).stageOf other).owned =
      if process = other then some state.files.length else none := by
    rw [stageOf_create]
    split
    · rfl
    · exact free_of_unlocked stands unlocked other
  have last : (state.create process tag).files[state.files.length]? = some ⟨none,state.now,process⟩ := by
    simp [State.create,State.enter]
  have longer : state.files.length < (state.create process tag).files.length := by simp [State.create,State.enter]
  refine ⟨?_,?_,?_,?_⟩
  · intro file own
    cases own
    exact longer
  · intro other file own
    rw [owned] at own
    split at own
    next same =>
      cases own
      refine ⟨rfl,?_,_,last,same⟩
      unfold State.ageOf
      rw [last]
      change state.now - state.now ≤ _
      rw [Nat.sub_self]
      exact Nat.zero_le _
    · cases own
  · intro other file own
    rw [stageOf_create] at own
    split at own
    · cases own
    · exact Nat.lt_trans (stands.aside other file own) longer
  · intro other tag attempt seen file own
    rw [stageOf_create] at own
    split at own
    · cases own
    · obtain ⟨known,_⟩ := stands.judged other tag attempt seen file own
      refine ⟨Nat.lt_trans known longer,fun one own => ?_⟩
      rw [owned] at own
      split at own
      · cases own
        exact absurd known (Nat.lt_irrefl _)
      · cases own

private theorem write_stands {process tag file : Nat} (stands : Stands lockStaleMs state)
    (stage : state.stageOf process = .writing tag file) : Stands lockStaleMs (state.write process tag file) := by
  have stageOf (other : Nat) : (state.write process tag file).stageOf other =
      if process = other then .holding tag file else state.stageOf other := stageOf_enter ..
  have owned (other : Nat) : ((state.write process tag file).stageOf other).owned = (state.stageOf other).owned := by
    rw [stageOf]
    split
    next here =>
      rw [← here,stage]
      rfl
    · rfl
  have size : (state.write process tag file).files.length = state.files.length := List.length_modify ..
  have files (other : Nat) : (state.write process tag file).files[other]? = if file = other then
      (state.files[other]?).map fun made => { made with tag := some tag, mtime := state.now } else state.files[other]? := by
    unfold State.write State.enter
    rw [List.getElem?_modify]
    split <;> simp
  refine ⟨?_,?_,?_,?_⟩
  · rw [size]
    exact stands.known
  · intro other own' own
    rw [owned] at own
    obtain ⟨locked,fresh,made,found,maker⟩ := stands.owns other own' own
    refine ⟨locked,?_,?_⟩
    · unfold State.ageOf at fresh ⊢
      rw [files,found]
      split
      · change state.now - state.now ≤ _
        rw [Nat.sub_self]
        exact Nat.zero_le _
      · rw [found] at fresh
        exact fresh
    · rw [files,found]
      split
      · exact ⟨_,rfl,maker⟩
      · exact ⟨made,rfl,maker⟩
  · intro other own' own
    rw [stageOf] at own
    rw [size]
    split at own
    · cases own
    · exact stands.aside other own' own
  · intro other tag' attempt seen own' own
    rw [stageOf] at own
    rw [size]
    split at own
    · cases own
    · refine ⟨(stands.judged other tag' attempt seen own' own).1,fun one => ?_⟩
      rw [owned]
      exact (stands.judged other tag' attempt seen own' own).2 one

/-- Only one owns a lock file. -/
private theorem owner_unique (stands : Stands lockStaleMs state) {one other file file' : Nat}
    (own : file ∈ (state.stageOf one).owned) (own' : file' ∈ (state.stageOf other).owned) : one = other := by
  obtain ⟨locked,_,made,found,maker⟩ := stands.owns one file own
  obtain ⟨locked',_,made',found',maker'⟩ := stands.owns other file' own'
  cases locked.symm.trans locked'
  cases found.symm.trans found'
  exact maker.symm.trans maker'

private theorem operate_stands {process : Nat} (stands : Stands lockStaleMs state) (judged : Judged (.operates process) state) :
    Stands lockStaleMs (state.operate lockStaleMs process) := by
  have retries (tag attempt : Nat) : Stands lockStaleMs (state.enter process (retry tag attempt)) := by
    unfold retry
    split
    · exact enter_stands stands rfl (fun _ own => (nomatch own)) fun _ _ _ _ own => (nomatch own)
    · exact enter_stands stands rfl (fun _ own => (nomatch own)) fun _ _ _ _ own => (nomatch own)
  unfold State.operate
  split
  · exact stands
  · exact stands
  · exact stands
  next tag _ stage unlocked => exact create_stands tag stands unlocked
  · exact enter_stands stands rfl (fun _ own => (nomatch own)) fun _ _ _ _ own => (nomatch own)
  next stage => exact write_stands stands stage
  · exact retries ..
  · exact enter_stands stands rfl (fun _ own => (nomatch own)) fun _ _ _ _ own => (nomatch own)
  · exact retries ..
  next tag attempt seen file stage locked =>
    split
    · exact enter_stands stands rfl (fun _ own => (nomatch own)) fun _ _ _ _ own => (nomatch own)
    next stale =>
      refine enter_stands stands rfl (fun _ own => (nomatch own)) fun _ _ _ _ own => ?_
      cases own
      refine ⟨stands.known file locked,fun other own => ?_⟩
      exact stale (stands.owns other file own).2.1
  · exact retries ..
  next tag attempt seen stale file stage locked =>
    obtain ⟨_,orphan⟩ := stands.judged process tag attempt seen stale stage
    have same : file = stale := by
      unfold Judged at judged
      simp only [stage,locked] at judged
      simpa using judged
    refine unlocked_stands stands rfl (fun moved own => ?_) (fun _ _ _ _ own => (nomatch own)) fun other _ => ?_
    · cases own
      exact stands.known file locked
    · cases own : (state.stageOf other).owned with
      | none => rfl
      | some kept =>
        have locked' := (stands.owns other kept own).1
        rw [locked,same] at locked'
        cases locked'
        exact absurd own (orphan other)
  next _ tag attempt seen moved stage =>
    have known := stands.aside process moved (by rw [stage]; rfl)
    split
    · exact enter_stands stands rfl (fun _ own => (nomatch own)) fun _ _ _ _ own => (nomatch own)
    · refine enter_stands stands rfl (fun _ own => ?_) fun _ _ _ _ own => (nomatch own)
      cases own
      exact known
  · exact retries ..
  next moved stage unlocked =>
    have known := stands.aside process moved (by rw [stage]; rfl)
    have free := free_of_unlocked stands unlocked
    have back : Stands lockStaleMs { state with lock := some moved } := by
      refine ⟨fun _ own => ?_,fun other file own => ?_,stands.aside,stands.judged⟩
      · cases own
        exact known
      · have own : file ∈ (state.stageOf other).owned := own
        rw [free other] at own
        cases own
    exact enter_stands back rfl (fun _ own => (nomatch own)) fun _ _ _ _ own => (nomatch own)
  · exact enter_stands stands rfl (fun _ own => (nomatch own)) fun _ _ _ _ own => (nomatch own)
  · exact enter_stands stands rfl (fun _ own => (nomatch own)) fun _ _ _ _ own => (nomatch own)
  · exact enter_stands stands rfl (fun _ own => (nomatch own)) fun _ _ _ _ own => (nomatch own)
  next tag own' file stage locked =>
    have mine : own' ∈ (state.stageOf process).owned := by
      rw [stage]
      rfl
    refine unlocked_stands stands rfl (fun moved own => ?_) (fun _ _ _ _ own => (nomatch own)) fun other apart => ?_
    · cases own
      exact stands.known file locked
    · cases own : (state.stageOf other).owned with
      | none => rfl
      | some kept => exact absurd (owner_unique stands own mine) apart
  next _ tag moved stage =>
    have known := stands.aside process moved (by rw [stage]; rfl)
    split
    · exact enter_stands stands rfl (fun _ own => (nomatch own)) fun _ _ _ _ own => (nomatch own)
    · refine enter_stands stands rfl (fun _ own => ?_) fun _ _ _ _ own => (nomatch own)
      cases own
      exact known

private theorem release_stands {process tag file : Nat} (stands : Stands lockStaleMs state)
    (stage : state.stageOf process = .holding tag file) : Stands lockStaleMs (state.enter process (.releasing tag file)) := by
  have owned (other : Nat) : ((state.enter process (.releasing tag file)).stageOf other).owned = (state.stageOf other).owned := by
    rw [stageOf_enter]
    split
    next here =>
      rw [← here,stage]
      rfl
    · rfl
  refine ⟨stands.known,fun other file own => stands.owns other file (owned other ▸ own),fun other file own => ?_,?_⟩
  · rw [stageOf_enter] at own
    split at own
    · cases own
    · exact stands.aside other file own
  · intro other tag attempt seen file own
    rw [stageOf_enter] at own
    split at own
    · cases own
    · obtain ⟨known,none'⟩ := stands.judged other tag attempt seen file own
      exact ⟨known,fun one => owned one ▸ none' one⟩

private theorem ticks_stands {ms : Nat} (stands : Stands lockStaleMs state) (timely : Timely lockStaleMs (.ticks ms) state) :
    Stands lockStaleMs (step lockStaleMs (.ticks ms) state).2 := by
  refine ⟨stands.known,fun process file own => ?_,stands.aside,stands.judged⟩
  obtain ⟨locked,_,made⟩ := stands.owns process file own
  refine ⟨locked,?_,made⟩
  have own : file ∈ (state.stageOf process).owned := own
  have entered : ∃ stage, (process,stage) ∈ state.stages.entries ∧ file ∈ stage.owned := by
    unfold State.stageOf at own
    cases found : state.stages.get? process with
    | none =>
      rw [found] at own
      cases own
    | some stage =>
      rw [found] at own
      exact ⟨stage,(Dict.get?_eq_some_iff _ _ _).mp found,own⟩
  obtain ⟨stage,inside,own⟩ := entered
  have fresh := timely (process,stage) inside file own
  unfold State.ageOf at fresh ⊢
  dsimp only [step]
  omega

private theorem step_stands (act : Act) (stands : Stands lockStaleMs state) (timely : Timely lockStaleMs act state)
    (judged : Judged act state) : Stands lockStaleMs (step lockStaleMs act state).2 := by
  cases act with
  | takes process =>
    dsimp only [step]
    split
    · have more : Stands lockStaleMs { state with tags := state.tags + 1 } :=
        ⟨stands.known,stands.owns,stands.aside,stands.judged⟩
      exact enter_stands more rfl (fun _ own => (nomatch own)) fun _ _ _ _ own => (nomatch own)
    · exact stands
  | operates process => exact operate_stands stands judged
  | releases process =>
    dsimp only [step]
    split
    next stage => exact release_stands stands stage
    · exact stands
  | crashes process => exact enter_stands stands rfl (fun _ own => (nomatch own)) fun _ _ _ _ own => (nomatch own)
  | ticks ms => exact ticks_stands stands timely

end Invariant

theorem lock_exclusive {lockStaleMs : Nat} {past : List (Act × Unit)} {state : State}
    (run : Runs (step lockStaleMs) (fun act state => Timely lockStaleMs act state ∧ Judged act state) .start past state) :
    Exclusive state := by
  have stands : Stands lockStaleMs state := by
    refine Runs.invariant (fun _ state => Stands lockStaleMs state) start_stands ?_ run
    exact fun _ state act stands ok => step_stands act stands ok.1 ok.2
  have owned {process file : Nat} (holds : state.Holds process file) : file ∈ (state.stageOf process).owned := by
    obtain ⟨tag,stage⟩ := holds
    rw [stage]
    rfl
  exact ⟨fun one other file file' holds holds' => owner_unique stands (owned holds) (owned holds'),
    fun process file holds => .inl (stands.owns process file (owned holds)).1⟩

section Samples

private instance (lockStaleMs : Nat) (act : Act) (state : State) : Decidable (Timely lockStaleMs act state) :=
  match act with
  | .ticks ms =>
    inferInstanceAs (Decidable (∀ entry ∈ state.stages.entries, ∀ file ∈ entry.2.owned, state.ageOf file + ms ≤ lockStaleMs))
  | .takes _ | .operates _ | .releases _ | .crashes _ => isTrue trivial

private def judged (act : Act) (state : State) : Bool :=
  match act with
  | .operates process =>
    match state.stageOf process with
    | .moving _ _ _ judged => state.lock = none || state.lock = some judged
    | _ => true
  | _ => true

private instance (act : Act) (state : State) : Decidable (Judged act state) :=
  decidable_of_iff (judged act state = true) (by
    unfold judged Judged
    split
    · split <;> simp
    · simp)

/-- A holder crashes, and another process takes its lock over. -/
def takenOver : List Act :=
  [.takes 0,.operates 0,.operates 0,.crashes 0,.ticks 11,.takes 1] ++ List.replicate 8 (.operates 1)

theorem lock_exclusive_of_takeover :
    Exclusive (after (step 10) .start takenOver) ∧ (after (step 10) .start takenOver).stageOf 1 = .holding 1 1 :=
  ⟨lock_exclusive (runs_guarded _ _ _ takenOver (by decide)),by decide⟩

/-- A second process judges the crashed holder's lock too, and moves the first one's aside; a third one makes its own. -/
def misjudged : List Act :=
  [.takes 0,.operates 0,.operates 0,.crashes 0,.ticks 11,.takes 1,.takes 2] ++ List.replicate 3 (.operates 2) ++
    List.replicate 8 (.operates 1) ++ [.operates 2,.takes 3,.operates 3,.operates 3]

theorem misjudged_shared : ¬∀ lockStaleMs past state, Runs (step lockStaleMs) (Timely lockStaleMs) .start past state → Exclusive state := by
  intro exclusive
  have run := runs_guarded (step 10) (Timely 10) .start misjudged (by decide)
  have first : (after (step 10) .start misjudged).Holds 1 1 := ⟨1,by decide⟩
  have second : (after (step 10) .start misjudged).Holds 3 2 := ⟨3,by decide⟩
  exact absurd ((exclusive _ _ _ run).1 1 3 1 2 first second) (by decide)

end Samples

end PiDispatch.CheckpointLock
