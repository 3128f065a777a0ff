import PiDispatch.SandboxStore

/-! What a disk of retained runs keeps at every call: a draft is its own pin's and lies under its own temporary name, and a
manifest that is whole says what its directory's run was retained with. -/
namespace PiDispatch.SandboxStore
open Kernel Files

/-- The pin that each draft is of; no other file is one's. -/
abbrev Owners := Nat → Option Nat

structure Sound (disk : Disk) (written : Nat → Option Fields) (owner : Owners) : Prop where
  below : ∀ dir file inode, disk.entry dir file = some inode → inode < disk.nextFile
  owned : ∀ inode stamp, owner inode = some stamp → inode < disk.nextFile
  drafts : ∀ dir stamp inode, disk.entry dir (.temp stamp) = some inode → owner inode = some stamp
  apart : ∀ dir file inode stamp, disk.entry dir file = some inode → owner inode = some stamp → file = .temp stamp
  one : ∀ first second file other inode, disk.entry first file = some inode → disk.entry second other = some inode →
    first = second
  named : ∀ name dir, disk.names name = some dir → dir < disk.nextDir
  born : ∀ dir file, disk.nextDir ≤ dir → disk.entry dir file = none
  faithful : ∀ dir inode manifest, disk.entry dir .manifest = some inode → disk.contents inode = some manifest →
    written dir = some manifest.toFields

theorem sound_empty : Sound .empty (fun _ => none) fun _ => none where
  below := fun _ _ _ found => by cases found
  owned := fun _ _ found => by cases found
  drafts := fun _ _ _ found => by cases found
  apart := fun _ _ _ _ found => by cases found
  one := fun _ _ _ _ _ found => by cases found
  named := fun _ _ found => by cases found
  born := fun _ _ _ => rfl
  faithful := fun _ _ _ found => by cases found

namespace Sound

variable {disk next : Disk} {written : Nat → Option Fields} {owner : Owners}

/-- Entries that go, names that go and contents that are cut. -/
theorem shrinks (sound : Sound disk written owner)
    (entries : ∀ dir file inode, next.entry dir file = some inode → disk.entry dir file = some inode)
    (contents : ∀ inode, next.contents inode = disk.contents inode ∨ next.contents inode = none)
    (names : ∀ name dir, next.names name = some dir → dir < disk.nextDir) (dirs : next.nextDir = disk.nextDir)
    (files : next.nextFile = disk.nextFile) : Sound next written owner where
  below := fun dir file inode found => files ▸ sound.below dir file inode (entries _ _ _ found)
  owned := fun inode stamp own => files ▸ sound.owned inode stamp own
  drafts := fun dir stamp inode found => sound.drafts dir stamp inode (entries _ _ _ found)
  apart := fun dir file inode stamp found own => sound.apart dir file inode stamp (entries _ _ _ found) own
  one := fun first second file other inode here there =>
    sound.one first second file other inode (entries _ _ _ here) (entries _ _ _ there)
  named := fun name dir found => dirs ▸ names name dir found
  born := fun dir file new => by
    cases found : next.entry dir file with
    | none => rfl
    | some inode => exact (entries _ _ _ found).symm.trans (sound.born dir file (dirs ▸ new))
  faithful := fun dir inode manifest found whole => by
    rcases contents inode with same | cut
    · exact sound.faithful dir inode manifest (entries _ _ _ found) (same ▸ whole)
    · rw [cut] at whole
      cases whole

/-- A new file, which is a draft where its name is a temporary one. -/
theorem adds {dir : Nat} {file : FileName} {owner' : Owners} (sound : Sound disk written owner)
    (dirs : dir < disk.nextDir)
    (others : ∀ inode, inode < disk.nextFile → owner' inode = owner inode)
    (bound : ∀ inode stamp, owner' inode = some stamp → inode < disk.nextFile + 1)
    (own : ∀ stamp, owner' disk.nextFile = some stamp ↔ file = .temp stamp) : Sound (disk.add dir file) written owner' where
  below := fun last other inode found => by
    rw [entry_add] at found
    show inode < disk.nextFile + 1
    split at found
    · have equal := Option.some.inj found
      omega
    · have := sound.below last other inode found
      omega
  owned := bound
  drafts := fun last stamp inode found => by
    rw [entry_add] at found
    split at found
    next here =>
      cases found
      exact (own stamp).mpr here.2.symm
    · rw [others inode (sound.below _ _ _ found)]
      exact sound.drafts last stamp inode found
  apart := fun last other inode stamp found mine => by
    rw [entry_add] at found
    split at found
    next here =>
      cases found
      exact here.2.trans ((own stamp).mp mine)
    · rw [others inode (sound.below _ _ _ found)] at mine
      exact sound.apart last other inode stamp found mine
  one := fun first second file' other inode here there => by
    rw [entry_add] at here there
    split at here
    next at' =>
      split at there
      next also => exact at'.1.trans also.1.symm
      · cases here
        exact absurd (sound.below _ _ _ there) (by omega)
    · split at there
      · cases there
        exact absurd (sound.below _ _ _ here) (by omega)
      · exact sound.one _ _ _ _ _ here there
  named := sound.named
  born := fun last other new => by
    have new : disk.nextDir ≤ last := new
    rw [entry_add,if_neg fun here => by omega]
    exact sound.born last other new
  faithful := fun last inode manifest found whole => by
    rw [entry_add] at found
    have whole : Function.update disk.contents disk.nextFile none inode = some manifest := whole
    split at found
    · cases found
      rw [Function.update_self] at whole
      cases whole
    · rw [Function.update_of_ne (by have := sound.below _ _ _ found; omega)] at whole
      exact sound.faithful last inode manifest found whole

theorem writes {inode : Nat} {content : Manifest} (sound : Sound disk written owner)
    (fit : ∀ dir, disk.entry dir .manifest = some inode → written dir = some content.toFields) :
    Sound (disk.write inode content) written owner where
  below := sound.below
  owned := sound.owned
  drafts := sound.drafts
  apart := sound.apart
  one := sound.one
  named := sound.named
  born := sound.born
  faithful := fun dir last manifest found whole => by
    have whole : Function.update disk.contents inode (some content) last = some manifest := whole
    by_cases same : last = inode
    · subst same
      rw [Function.update_self] at whole
      cases whole
      exact fit dir found
    · rw [Function.update_of_ne same] at whole
      exact sound.faithful dir last manifest found whole

variable {dir stamp inode : Nat}

private def placed (disk : Disk) (dir stamp inode : Nat) : Disk :=
  { disk with inside := Function.update disk.inside dir (((disk.inside dir).erase (.temp stamp)).set .manifest inode) }

/-- The draft has no other name then. -/
private theorem placed_entry (sound : Sound disk written owner) (source : disk.entry dir (.temp stamp) = some inode)
    {last : Nat} {other : FileName} {file : Nat} (found : (placed disk dir stamp inode).entry last other = some file) :
    (last = dir ∧ other = .manifest ∧ file = inode) ∨ (disk.entry last other = some file ∧ file ≠ inode) := by
  unfold placed at found
  rw [entry_place] at found
  split at found
  next here => exact .inl ⟨here.1,here.2,(Option.some.inj found).symm⟩
  next elsewhere =>
    split at found
    · cases found
    next apart =>
      refine .inr ⟨found,?_⟩
      rintro rfl
      have draft := sound.apart last other file stamp found (sound.drafts dir stamp file source)
      exact apart ⟨sound.one _ _ _ _ _ found source,draft⟩

private theorem placed_owner {last : Nat} {own : Nat} (mine : Function.update owner inode none last = some own) :
    last ≠ inode ∧ owner last = some own := by
  by_cases same : last = inode
  · subst same
    rw [Function.update_self] at mine
    cases mine
  · rw [Function.update_of_ne same] at mine
    exact ⟨same,mine⟩

/-- A draft takes the manifest's name where it says what the directory's run was retained with. -/
theorem places (sound : Sound disk written owner) (source : disk.entry dir (.temp stamp) = some inode)
    (fit : ∀ manifest, disk.contents inode = some manifest → written dir = some manifest.toFields) :
    Sound { disk with
      inside := Function.update disk.inside dir (((disk.inside dir).erase (.temp stamp)).set .manifest inode) }
      written (Function.update owner inode none) where
  below := fun last other file found => by
    rcases sound.placed_entry source found with ⟨-,-,rfl⟩ | ⟨old,-⟩
    · exact sound.below _ _ _ source
    · exact sound.below _ _ _ old
  owned := fun last own mine => sound.owned last own (placed_owner mine).2
  drafts := fun last own file found => by
    rcases sound.placed_entry source found with ⟨-,none',-⟩ | ⟨old,apart⟩
    · cases none'
    · rw [Function.update_of_ne apart]
      exact sound.drafts last own file old
  apart := fun last other file own found mine => by
    obtain ⟨apart,mine⟩ := placed_owner mine
    rcases sound.placed_entry source found with ⟨-,-,same⟩ | ⟨old,-⟩
    · exact absurd same apart
    · exact sound.apart last other file own old mine
  one := fun first second file other last here there => by
    rcases sound.placed_entry source here with ⟨rfl,-,same⟩ | ⟨old,apart⟩
    · rcases sound.placed_entry source there with ⟨rfl,-,-⟩ | ⟨-,apart⟩
      · rfl
      · exact absurd same apart
    · rcases sound.placed_entry source there with ⟨-,-,same⟩ | ⟨also,-⟩
      · exact absurd same apart
      · exact sound.one _ _ _ _ _ old also
  named := sound.named
  born := fun last other new => by
    cases found : (placed disk dir stamp inode).entry last other with
    | none => exact found
    | some file =>
      have new : disk.nextDir ≤ last := new
      rcases sound.placed_entry source found with ⟨rfl,-,-⟩ | ⟨old,-⟩
      · rw [sound.born last _ new] at source
        cases source
      · rw [sound.born last _ new] at old
        cases old
  faithful := fun last file manifest found whole => by
    rcases sound.placed_entry source found with ⟨rfl,-,rfl⟩ | ⟨old,-⟩
    · exact fit manifest whole
    · exact sound.faithful last file manifest old whole

private theorem raises (sound : Sound disk written owner) (fields : Option Fields) :
    Sound { disk with nextDir := disk.nextDir + 1 } (Function.update written disk.nextDir fields) owner where
  below := sound.below
  owned := sound.owned
  drafts := sound.drafts
  apart := sound.apart
  one := sound.one
  named := fun name dir found => Nat.lt_succ_of_lt (sound.named name dir found)
  born := fun dir file new => sound.born dir file (Nat.le_of_succ_le new)
  faithful := fun dir file manifest found whole => by
    rw [Function.update_of_ne ?_]
    · exact sound.faithful dir file manifest found whole
    · rintro rfl
      have found : disk.entry disk.nextDir .manifest = some file := found
      rw [sound.born disk.nextDir .manifest (Nat.le_refl _)] at found
      cases found

private def filled (dir : Nat) (tree : List String) (files : Disk) : Disk :=
  tree.foldl (fun files entry => files.add dir (.other entry)) files

private theorem fills (tree : List String) (sound : Sound disk written owner) (within : dir < disk.nextDir) :
    Sound (filled dir tree disk) written owner ∧ (filled dir tree disk).nextDir = disk.nextDir ∧
      ∀ inode, inode < disk.nextFile → (filled dir tree disk).contents inode = disk.contents inode := by
  induction tree generalizing disk with
  | nil => exact ⟨sound,rfl,fun _ _ => rfl⟩
  | cons entry rest ih =>
    have added : Sound (disk.add dir (.other entry)) written owner := by
      refine sound.adds within (fun _ _ => rfl) (fun last own mine => Nat.lt_succ_of_lt (sound.owned last own mine)) ?_
      intro own
      constructor
      · exact fun mine => absurd (sound.owned _ _ mine) (Nat.lt_irrefl _)
      · intro same
        cases same
    obtain ⟨sound,dirs,same⟩ := ih added within
    refine ⟨sound,dirs,fun inode old => (same inode (Nat.lt_succ_of_lt old)).trans ?_⟩
    exact Function.update_of_ne (Nat.ne_of_lt old) ..

/-- A job's directory comes to be with what the job has left in it. -/
theorem lays (sound : Sound disk written owner) (tree : List String) (fields : Option Fields) :
    Sound (laid disk tree) (Function.update written disk.nextDir fields) owner ∧
      (laid disk tree).nextDir = disk.nextDir + 1 ∧
      ∀ inode, inode < disk.nextFile → (laid disk tree).contents inode = disk.contents inode :=
  (sound.raises fields).fills tree (Nat.lt_succ_self _)

/-- No draft is what is opened where the manifest is. -/
theorem opens (sound : Sound disk written owner) (name : String) :
    Sound (disk.openFile name .manifest).2 written owner ∧ (disk.openFile name .manifest).2.nextDir = disk.nextDir ∧
      ∀ inode stamp, owner inode = some stamp → (disk.openFile name .manifest).2.contents inode = disk.contents inode := by
  rcases @Files.openFile_cases _ _ _ disk name .manifest with
    ⟨fault,opened⟩ | ⟨dir,inode,-,found,opened⟩ | ⟨dir,named,-,opened⟩
  · rw [opened]
    exact ⟨sound,rfl,fun _ _ _ => rfl⟩
  · rw [opened]
    refine ⟨?_,rfl,fun other stamp mine => ?_⟩
    · refine sound.shrinks (fun _ _ _ same => same) (fun other => ?_) sound.named rfl rfl
      by_cases same : other = inode
      · exact .inr (by rw [same]; exact Function.update_self ..)
      · exact .inl (Function.update_of_ne same ..)
    · refine Function.update_of_ne ?_ ..
      rintro rfl
      cases sound.apart _ _ _ _ found mine
  · rw [opened]
    refine ⟨?_,rfl,fun other stamp mine => Function.update_of_ne (Nat.ne_of_lt (sound.owned _ _ mine)) ..⟩
    refine sound.adds (sound.named _ _ named) (fun _ _ => rfl)
      (fun last own mine => Nat.lt_succ_of_lt (sound.owned last own mine)) fun own => ?_
    constructor
    · exact fun mine => absurd (sound.owned _ _ mine) (Nat.lt_irrefl _)
    · intro same
      cases same

end Sound

/-- A disk with the retained runs' fields and whose each draft is. -/
structure Kept where
  disk : Disk
  written : Nat → Option Fields
  owner : Owners
  sound : Sound disk written owner

/-- What a pin leaves as the worker has it. -/
structure Beside (kept later : Kept) : Prop where
  names : later.disk.names = kept.disk.names
  written : later.written = kept.written
  dirs : later.disk.nextDir = kept.disk.nextDir
  files : kept.disk.nextFile ≤ later.disk.nextFile
  owner : ∀ inode, inode < kept.disk.nextFile → kept.owner inode = none → later.owner inode = none
  entries : ∀ dir file inode, inode < kept.disk.nextFile → kept.owner inode = none →
    later.disk.entry dir file = some inode → kept.disk.entry dir file = some inode

/-- What the worker and every other pin leave as a pin has it. -/
structure Aside (stamp : Nat) (kept later : Kept) : Prop where
  mine : ∀ inode, kept.owner inode = some stamp →
    later.owner inode = some stamp ∧ later.disk.contents inode = kept.disk.contents inode
  only : ∀ inode, later.owner inode = some stamp → kept.owner inode = some stamp
  dirs : kept.disk.nextDir ≤ later.disk.nextDir
  written : ∀ dir, dir < kept.disk.nextDir → later.written dir = kept.written dir

theorem beside_refl (kept : Kept) : Beside kept kept :=
  ⟨rfl,rfl,rfl,Nat.le_refl _,fun _ _ none' => none',fun _ _ _ _ _ found => found⟩

theorem beside_trans (first second third : Kept) (one : Beside first second) (two : Beside second third) :
    Beside first third where
  names := two.names.trans one.names
  written := two.written.trans one.written
  dirs := two.dirs.trans one.dirs
  files := one.files.trans two.files
  owner := fun inode old none' => two.owner inode (old.trans_le one.files) (one.owner inode old none')
  entries := fun dir file inode old none' found => one.entries dir file inode old none'
    (two.entries dir file inode (old.trans_le one.files) (one.owner inode old none') found)

theorem aside_refl (stamp : Nat) (kept : Kept) : Aside stamp kept kept :=
  ⟨fun _ mine => ⟨mine,rfl⟩,fun _ mine => mine,Nat.le_refl _,fun _ _ => rfl⟩

theorem aside_trans {stamp : Nat} (first second third : Kept) (one : Aside stamp first second)
    (two : Aside stamp second third) : Aside stamp first third where
  mine := fun inode mine =>
    ⟨(two.mine inode (one.mine inode mine).1).1,
      (two.mine inode (one.mine inode mine).1).2.trans (one.mine inode mine).2⟩
  only := fun inode mine => one.only inode (two.only inode mine)
  dirs := one.dirs.trans two.dirs
  written := fun dir old => (two.written dir (old.trans_le one.dirs)).trans (one.written dir old)
/-- A call leaves the disk alone or does what it is for. -/
private theorem serves_cases {disk next : Disk} {command : Command} {reply : Except FileFault command.Answer}
    (served : serves disk command reply next) :
    (∃ fault, reply = .error fault ∧ next = disk) ∨ next = (answer disk command).2 := by
  rcases served with failed | served
  · exact .inl failed
  · right
    cases command with
    | list name => cases reply with
      | error fault => exact served.2
      | ok files =>
        obtain ⟨dir,-,-,same⟩ := served
        exact same
    | prepare | unlink | rmdir | adopt | openManifest | write | read | lstat | create | chmod | place => exact served.2

/-- What the worker may call. -/
def fitsWorker (kept : Kept) : Command → Prop
  | .adopt _ dir => dir < kept.disk.nextDir
  | .write inode content => kept.owner inode = none ∧
      ∀ dir, kept.disk.entry dir .manifest = some inode → kept.written dir = some content.toFields
  | .create _ _ | .place _ _ => False
  | _ => True

/-- No call of the worker touches a draft. -/
theorem worker_call {kept : Kept} {command : Command} {reply : Except FileFault command.Answer} {disk : Disk}
    (fits : fitsWorker kept command) (served : serves kept.disk command reply disk) :
    ∃ next : Kept, next.disk = disk ∧ next.written = kept.written ∧ next.owner = kept.owner ∧
      next.disk.nextDir = kept.disk.nextDir ∧ ∀ stamp, Aside stamp kept next := by
  have still : ∃ next : Kept, next.disk = kept.disk ∧ next.written = kept.written ∧ next.owner = kept.owner ∧
      next.disk.nextDir = kept.disk.nextDir ∧ ∀ stamp, Aside stamp kept next :=
    ⟨kept,rfl,rfl,rfl,rfl,fun stamp => aside_refl stamp kept⟩
  have sound := kept.sound
  -- A sound disk whose drafts have what they had is what the pins rely on.
  have moves : ∀ next : Disk, Sound next kept.written kept.owner → next.nextDir = kept.disk.nextDir →
      (∀ inode stamp, kept.owner inode = some stamp → next.contents inode = kept.disk.contents inode) →
      ∃ later : Kept, later.disk = next ∧ later.written = kept.written ∧ later.owner = kept.owner ∧
        later.disk.nextDir = kept.disk.nextDir ∧ ∀ stamp, Aside stamp kept later := by
    intro next sound' dirs same
    refine ⟨⟨next,kept.written,kept.owner,sound'⟩,rfl,rfl,rfl,dirs,fun stamp => ?_⟩
    exact ⟨fun inode mine => ⟨mine,same inode stamp mine⟩,fun _ mine => mine,dirs.ge,fun _ _ => rfl⟩
  rcases serves_cases served with ⟨-,-,rfl⟩ | rfl
  · exact still
  cases command with
  | prepare | list name | read name | lstat name | chmod name stamp => exact still
  | create name stamp | place name stamp => exact fits.elim
  | unlink name file =>
    obtain ⟨names,contents,dirs,files,entries⟩ := @Files.unlink_keeps _ _ _ kept.disk name file
    refine moves _ ?_ dirs fun inode _ _ => congrFun contents inode
    exact sound.shrinks entries (fun inode => .inl (congrFun contents inode))
      (fun name dir found => sound.named name dir (names ▸ found)) dirs files
  | rmdir name =>
    obtain ⟨inside,contents,dirs,files,names⟩ := @Files.rmdir_keeps _ _ _ kept.disk name
    refine moves _ ?_ dirs fun inode _ _ => congrFun contents inode
    refine sound.shrinks (fun dir file inode found => ?_) (fun inode => .inl (congrFun contents inode))
      (fun name dir found => sound.named name dir (names name dir found)) dirs files
    exact (congrArg (fun inside => (inside dir).get? file) inside).symm.trans found
  | adopt name dir =>
    obtain ⟨inside,contents,dirs,files,names⟩ := @Files.adopt_keeps _ _ _ kept.disk name dir
    refine moves _ ?_ dirs fun inode _ _ => congrFun contents inode
    refine sound.shrinks (fun last file inode found => ?_) (fun inode => .inl (congrFun contents inode))
      (fun other last found => ?_) dirs files
    · exact (congrArg (fun inside => (inside last).get? file) inside).symm.trans found
    · rcases names other last found with rfl | old
      · exact fits
      · exact sound.named other last old
  | openManifest name =>
    obtain ⟨sound',dirs,same⟩ := sound.opens name
    exact moves _ sound' dirs same
  | write inode content =>
    refine moves _ (sound.writes fits.2) rfl fun other stamp mine => ?_
    refine Function.update_of_ne ?_ ..
    rintro rfl
    rw [fits.1] at mine
    cases mine
/-- A disk as a pin meets it, with what the pin has seen. -/
structure Sight where
  kept : Kept
  seen : String → Option Nat

section PinCalls

variable {stamp : Nat}

/-- What a pin may call. -/
def fitsPin (stamp : Nat) (sight : Sight) : Command → Prop
  | .create _ own => own = stamp
  | .write inode _ => sight.kept.owner inode = some stamp
  | .place name own => own = stamp ∧ ∀ inode manifest, sight.kept.owner inode = some stamp →
      sight.kept.disk.contents inode = some manifest → (sight.seen name).bind sight.kept.written = some manifest.toFields
  | .adopt _ _ | .rmdir _ | .openManifest _ => False
  | _ => True

/-- A pin's draft is its own from its creation until it takes the manifest's name. -/
def owners (disk : Disk) (owner : Owners) (stamp : Nat) : (command : Command) → Except FileFault command.Answer → Owners
  | .create _ _,.ok inode => Function.update owner inode (some stamp)
  | .place name own,.ok _ => (disk.find name (.temp own)).elim owner fun inode => Function.update owner inode none
  | _,_ => owner

private theorem owners_fault (disk : Disk) (owner : Owners) (command : Command) (fault : FileFault) :
    owners disk owner stamp command (.error fault) = owner := by
  cases command <;> rfl

/-- Whose draft a file is after a call of a pin: the pin's new one, or as it was. -/
theorem owners_from {disk : Disk} {owner : Owners} {command : Command} {reply : Except FileFault command.Answer}
    {inode own : Nat} (mine : owners disk owner stamp command reply inode = some own) :
    (own = stamp ∧ ∃ name last, command = .create name last) ∨ owner inode = some own := by
  cases reply with
  | error fault =>
    rw [owners_fault] at mine
    exact .inr mine
  | ok value => cases command with
    | create name last =>
      have mine : Function.update owner value (some stamp) inode = some own := mine
      by_cases same : inode = value
      · rw [same,Function.update_self] at mine
        exact .inl ⟨(Option.some.inj mine).symm,name,last,rfl⟩
      · rw [Function.update_of_ne same] at mine
        exact .inr mine
    | place name last =>
      have mine : ((disk.find name (.temp last)).elim owner fun inode => Function.update owner inode none) inode = some own :=
        mine
      cases found : disk.find name (.temp last) with
      | none =>
        rw [found] at mine
        exact .inr mine
      | some file =>
        rw [found] at mine
        have mine : Function.update owner file none inode = some own := mine
        by_cases same : inode = file
        · rw [same,Function.update_self] at mine
          cases mine
        · rw [Function.update_of_ne same] at mine
          exact .inr mine
    | prepare | list | unlink | rmdir | adopt | openManifest | write | read | lstat | chmod => exact .inr mine

/-- What a pin's call comes to: a sound disk, with the drafts and files of the others as they were. -/
structure Called (stamp : Nat) (kept : Kept) (disk : Disk) (owner : Owners) (next : Kept) : Prop where
  disk : next.disk = disk
  written : next.written = kept.written
  owner : next.owner = owner
  dirs : next.disk.nextDir = kept.disk.nextDir
  beside : Beside kept next
  aside : ∀ other, other ≠ stamp → Aside other kept next

private theorem called_same (kept : Kept) : Called stamp kept kept.disk kept.owner kept :=
  ⟨rfl,rfl,rfl,rfl,beside_refl kept,fun other _ => aside_refl other kept⟩

/-- The draft comes to be. -/
private theorem called_create {kept : Kept} {dir : Nat} (within : dir < kept.disk.nextDir) :
    ∃ next, Called stamp kept (kept.disk.add dir (.temp stamp))
      (Function.update kept.owner kept.disk.nextFile (some stamp)) next := by
  have sound := kept.sound
  have apart : ∀ inode, inode < kept.disk.nextFile →
      Function.update kept.owner kept.disk.nextFile (some stamp) inode = kept.owner inode :=
    fun inode old => Function.update_of_ne (Nat.ne_of_lt old) ..
  have own : ∀ inode other, Function.update kept.owner kept.disk.nextFile (some stamp) inode = some other →
      inode = kept.disk.nextFile ∧ other = stamp ∨ inode < kept.disk.nextFile ∧ kept.owner inode = some other := by
    intro inode other mine
    by_cases same : inode = kept.disk.nextFile
    · subst same
      rw [Function.update_self] at mine
      exact .inl ⟨rfl,(Option.some.inj mine).symm⟩
    · rw [Function.update_of_ne same] at mine
      exact .inr ⟨sound.owned _ _ mine,mine⟩
  have added : Sound (kept.disk.add dir (.temp stamp)) kept.written
      (Function.update kept.owner kept.disk.nextFile (some stamp)) := by
    refine sound.adds within apart (fun inode other mine => ?_) fun other => ?_
    · rcases own inode other mine with ⟨rfl,-⟩ | ⟨old,-⟩ <;> omega
    · rw [Function.update_self,Option.some.injEq,FileName.temp.injEq]
  refine ⟨⟨_,_,_,added⟩,rfl,rfl,rfl,rfl,⟨rfl,rfl,rfl,Nat.le_succ _,fun inode old none' => (apart inode old).trans none',?_⟩,?_⟩
  · intro last file inode old _ found
    rw [entry_add] at found
    split at found
    · cases found
      exact absurd old (Nat.lt_irrefl _)
    · exact found
  · intro other differs
    refine ⟨fun inode mine => ?_,fun inode mine => ?_,Nat.le_refl _,fun _ _ => rfl⟩
    · have old := sound.owned _ _ mine
      exact ⟨(apart inode old).trans mine,Function.update_of_ne (Nat.ne_of_lt old) ..⟩
    · rcases own inode other mine with ⟨-,same⟩ | ⟨-,mine⟩
      · exact absurd same differs
      · exact mine

/-- The draft takes the manifest's name. -/
private theorem called_place {kept : Kept} {dir inode : Nat} (source : kept.disk.entry dir (.temp stamp) = some inode)
    (fit : ∀ manifest, kept.disk.contents inode = some manifest → kept.written dir = some manifest.toFields) :
    ∃ next, Called stamp kept { kept.disk with
      inside := Function.update kept.disk.inside dir (((kept.disk.inside dir).erase (.temp stamp)).set .manifest inode) }
      (Function.update kept.owner inode none) next := by
  have sound := kept.sound
  have mine := sound.drafts _ _ _ source
  refine ⟨⟨_,_,_,sound.places source fit⟩,rfl,rfl,rfl,rfl,⟨rfl,rfl,rfl,Nat.le_refl _,?_,?_⟩,?_⟩
  · intro last _ none'
    by_cases same : last = inode
    · rw [same]
      exact Function.update_self ..
    · exact (Function.update_of_ne same ..).trans none'
  · intro last file other _ none' found
    rw [entry_place] at found
    split at found
    · cases found
      rw [mine] at none'
      cases none'
    · split at found
      · cases found
      · exact found
  · intro other differs
    refine ⟨fun last own => ⟨?_,rfl⟩,fun last own => ?_,Nat.le_refl _,fun _ _ => rfl⟩
    · refine (Function.update_of_ne ?_ ..).trans own
      rintro rfl
      rw [mine] at own
      exact differs (Option.some.inj own).symm
    · by_cases same : last = inode
      · subst same
        have own : Function.update kept.owner last none last = some other := own
        rw [Function.update_self] at own
        cases own
      · exact (Function.update_of_ne same ..).symm.trans own

/-- No call of a pin touches what another one or the worker holds, where its rename finds its own run. -/
theorem pin_call {sight : Sight} {command : Command} {reply : Except FileFault command.Answer} {disk : Disk}
    (fits : fitsPin stamp sight command)
    (may : ∀ name own dir inode, command = .place name own → sight.kept.disk.names name = some dir →
      sight.kept.disk.entry dir (.temp own) = some inode → sight.kept.written dir = (sight.seen name).bind sight.kept.written)
    (served : serves sight.kept.disk command reply disk) :
    ∃ next, Called stamp sight.kept disk (owners sight.kept.disk sight.kept.owner stamp command reply) next := by
  obtain ⟨kept,seen⟩ := sight
  dsimp only at may served ⊢
  have sound := kept.sound
  rcases serves_cases served with ⟨fault,rfl,rfl⟩ | rfl
  · rw [owners_fault]
    exact ⟨kept,called_same kept⟩
  cases command with
  | prepare | list name | read name | lstat name | chmod name stamp => exact ⟨kept,called_same kept⟩
  | rmdir name | adopt name dir | openManifest name => exact fits.elim
  | unlink name file =>
    obtain ⟨names,contents,dirs,files,entries⟩ := @Files.unlink_keeps _ _ _ kept.disk name file
    refine ⟨⟨_,kept.written,kept.owner,sound.shrinks entries (fun inode => .inl (congrFun contents inode))
      (fun name dir found => sound.named name dir (names ▸ found)) dirs files⟩,rfl,rfl,rfl,dirs,?_,?_⟩
    · exact ⟨names,rfl,dirs,files.ge,fun _ _ none' => none',fun dir file inode _ _ found => entries dir file inode found⟩
    · exact fun other _ => ⟨fun inode mine => ⟨mine,congrFun contents inode⟩,fun _ mine => mine,dirs.ge,fun _ _ => rfl⟩
  | write inode content =>
    have mine : kept.owner inode = some stamp := fits
    refine ⟨⟨_,kept.written,kept.owner,@Sound.writes _ _ _ _ content sound fun dir found => ?_⟩,rfl,rfl,rfl,rfl,?_,?_⟩
    · cases sound.apart _ _ _ _ found mine
    · exact ⟨rfl,rfl,rfl,Nat.le_refl _,fun _ _ none' => none',fun _ _ _ _ _ found => found⟩
    · intro other differs
      refine ⟨fun last own => ⟨own,Function.update_of_ne ?_ ..⟩,fun _ own => own,Nat.le_refl _,fun _ _ => rfl⟩
      rintro rfl
      rw [mine] at own
      exact differs (Option.some.inj own).symm
  | create name own =>
    obtain rfl : own = stamp := fits
    rcases served with ⟨fault,rfl,same⟩ | ⟨rfl,-⟩
    · rw [owners_fault,same]
      exact ⟨kept,called_same kept⟩
    rcases @Files.create_cases _ _ _ kept.disk name (.temp own) with ⟨fault,made⟩ | ⟨dir,named,-,made⟩
    · have made : answer kept.disk (.create name own) = (.error fault,kept.disk) := made
      rw [made,owners_fault]
      exact ⟨kept,called_same kept⟩
    · have made : answer kept.disk (.create name own) = (.ok kept.disk.nextFile,kept.disk.add dir (.temp own)) := made
      rw [made]
      exact called_create (sound.named _ _ named)
  | place name own =>
    obtain ⟨rfl,content⟩ : own = stamp ∧ _ := fits
    rcases served with ⟨fault,rfl,same⟩ | ⟨rfl,-⟩
    · rw [owners_fault,same]
      exact ⟨kept,called_same kept⟩
    rcases @Files.place_cases _ _ _ kept.disk name (.temp own) .manifest with
      ⟨fault,made⟩ | ⟨dir,inode,named,source,one,two⟩
    · have made : answer kept.disk (.place name own) = (.error fault,kept.disk) := made
      rw [made,owners_fault]
      exact ⟨kept,called_same kept⟩
    · have one : (answer kept.disk (.place name own)).1 = .ok () := one
      have found : kept.disk.find name (.temp own) = some inode := by
        unfold find
        rw [named]
        exact source
      have owned : owners kept.disk kept.owner own (.place name own) (.ok ()) = Function.update kept.owner inode none := by
        show (kept.disk.find name (.temp own)).elim kept.owner _ = _
        rw [found]
        rfl
      rw [one,owned]
      have two : (answer kept.disk (.place name own)).2 = _ := two
      rw [two]
      refine called_place source fun manifest whole => ?_
      rw [may name own dir inode rfl named source]
      exact content inode manifest (sound.drafts _ _ _ source) whole

end PinCalls

end PiDispatch.SandboxStore
