import PiDispatch.SandboxKept

/-! Runs of a worker that retains and of others that pin. -/
namespace PiDispatch.SandboxStore
open Kernel Files Program
open RunBudgetLedger (sanitizeJobId)

def workerTerms : Terms Calls Kept where
  serves kept command reply next := serves kept.disk command reply next.disk ∧ next.written = kept.written ∧
    next.owner = kept.owner ∧ next.disk.nextDir = kept.disk.nextDir
  rely := Beside
  fits := fitsWorker

def pinTerms (stamp : Nat) : Terms Calls Sight where
  serves sight command reply next := serves sight.kept.disk command reply next.kept.disk ∧
    next.kept.written = sight.kept.written ∧
    next.kept.owner = owners sight.kept.disk sight.kept.owner stamp command reply ∧
    next.kept.disk.nextDir = sight.kept.disk.nextDir ∧ next.seen = sees sight.seen sight.kept.disk command
  rely sight later := Aside stamp sight.kept later.kept ∧ later.seen = sight.seen
  fits := fitsPin stamp

section Retaining

variable {kept next : Kept} {name : String} {dir : Nat} {fields : Fields}

/-- The directory of the run that is being retained. -/
private def Ready (dir : Nat) (fields : Fields) (kept : Kept) : Prop :=
  dir < kept.disk.nextDir ∧ kept.written dir = some fields

private theorem ready_beside (ready : Ready dir fields kept) (beside : Beside kept next) : Ready dir fields next := by
  unfold Ready
  rw [beside.dirs,beside.written]
  exact ready

private theorem ready_served {command : Command} {reply : Except FileFault command.Answer} (ready : Ready dir fields kept)
    (served : workerTerms.serves kept command reply next) : Ready dir fields next := by
  obtain ⟨-,written,-,dirs⟩ := served
  unfold Ready
  rw [dirs,written]
  exact ready

private theorem unlinkAll_stands (files : List FileName) (ready : Ready dir fields kept) :
    (unlinkAll name files).Stands workerTerms (fun _ => Ready dir fields) kept := by
  induction files generalizing kept with
  | nil => exact fun later beside => ready_beside ready beside
  | cons file rest ih =>
    intro later beside
    have ready := ready_beside ready beside
    refine ⟨trivial,fun reply next served => ?_⟩
    have ready := ready_served ready served
    cases reply with
    | ok _ => exact ih ready
    | error fault => cases fault with
      | missing => exact ih ready
      | exists' | notEmpty | other => exact fun later beside => ready_beside ready beside

private theorem removing_stands {again : Call Bool}
    (stands : ∀ kept, Ready dir fields kept → again.Stands workerTerms (fun _ => Ready dir fields) kept)
    (ready : Ready dir fields kept) : (removing name again).Stands workerTerms (fun _ => Ready dir fields) kept := by
  have over' : ∀ value kept, Ready dir fields kept →
      (Program.done value : Call Bool).Stands workerTerms (fun _ => Ready dir fields) kept :=
    fun _ _ ready _ beside => ready_beside ready beside
  intro later beside
  have ready := ready_beside ready beside
  refine ⟨trivial,fun reply next served => ?_⟩
  have ready := ready_served ready served
  cases reply with
  | error fault => cases fault <;> exact over' _ _ ready
  | ok files =>
    refine stands_bind beside_refl (unlinkAll_stands files ready) fun gone kept ready => ?_
    cases gone with
    | false => exact over' _ _ ready
    | true =>
      intro later beside
      have ready := ready_beside ready beside
      refine ⟨trivial,fun reply next served => ?_⟩
      have ready := ready_served ready served
      cases reply with
      | ok _ => exact over' _ _ ready
      | error fault => cases fault with
        | missing | exists' | other => exact over' _ _ ready
        | notEmpty => exact stands _ ready

private theorem remove_stands (patience : Nat) (ready : Ready dir fields kept) :
    (remove name patience).Stands workerTerms (fun _ => Ready dir fields) kept := by
  induction patience generalizing kept with
  | zero => exact @removing_stands _ name _ _ (.done false) (fun _ ready _ beside => ready_beside ready beside) ready
  | succ patience ih => exact removing_stands (fun _ ready => ih ready) ready

private theorem remake_fields (manifest : Manifest) : (withManifestVersion manifest).toFields = manifest.toFields := by
  unfold withManifestVersion
  dsimp only
  split <;> rfl

/-- The directory has its name. -/
private def Adopted (name : String) (dir : Nat) (fields : Fields) (kept : Kept) : Prop :=
  Ready dir fields kept ∧ kept.disk.names name = some dir

/-- The file opened is no draft and lies in the run's own directory, if anywhere. -/
private def Opened (dir inode : Nat) (fields : Fields) (kept : Kept) : Prop :=
  Ready dir fields kept ∧ inode < kept.disk.nextFile ∧ kept.owner inode = none ∧
    ∀ last file, kept.disk.entry last file = some inode → last = dir

private theorem opened_served {inode : Nat} (adopted : Adopted name dir fields kept)
    (served : workerTerms.serves kept (.openManifest name) (.ok inode) next) : Opened dir inode fields next := by
  obtain ⟨ready,named⟩ := adopted
  refine ⟨ready_served ready served,?_⟩
  obtain ⟨served,-,owner,-⟩ := served
  rcases served with ⟨fault,failed,-⟩ | ⟨replies,disk⟩
  · cases failed
  rw [owner,disk]
  have sound := kept.sound
  rcases @Files.openFile_cases _ _ _ kept.disk name FileName.manifest with
    ⟨fault,opened⟩ | ⟨own,last,named',found,opened⟩ | ⟨own,named',absent,opened⟩
  · have opened : answer kept.disk (.openManifest name) = (.error fault,kept.disk) := opened
    rw [opened] at replies
    cases replies
  · have opened : answer kept.disk (.openManifest name) = _ := opened
    rw [opened] at replies ⊢
    cases replies
    rw [named] at named'
    cases named'
    refine ⟨sound.below _ _ _ found,?_,fun other file also => sound.one _ _ _ _ _ also found⟩
    cases mine : kept.owner inode with
    | none => rfl
    | some stamp => cases sound.apart _ _ _ _ found mine
  · have opened : answer kept.disk (.openManifest name) = _ := opened
    rw [opened] at replies ⊢
    cases replies
    rw [named] at named'
    cases named'
    refine ⟨Nat.lt_succ_self _,?_,fun other file also => ?_⟩
    · cases mine : kept.owner kept.disk.nextFile with
      | none => rfl
      | some stamp => exact absurd (sound.owned _ _ mine) (Nat.lt_irrefl _)
    · rw [entry_add] at also
      split at also
      next here => exact here.1
      · exact absurd (sound.below _ _ _ also) (Nat.lt_irrefl _)

private theorem opened_beside {inode : Nat} (opened : Opened dir inode fields kept) (beside : Beside kept next) :
    Opened dir inode fields next := by
  obtain ⟨ready,old,none',only⟩ := opened
  refine ⟨ready_beside ready beside,old.trans_le beside.files,beside.owner _ old none',fun last file found => ?_⟩
  exact only last file (beside.entries _ _ _ old none' found)

/-- Retaining a run fits beside any pins. -/
theorem retain_stands (config : Config) (sandbox : Meta) (dir : Nat) (fields : Fields) {kept : Kept}
    (within : dir < kept.disk.nextDir) (written : kept.written dir = some fields) :
    (retainJobDir config sandbox fields dir).Stands workerTerms (fun _ _ => True) kept := by
  have ready : Ready dir fields kept := ⟨within,written⟩
  have over' : ∀ value kept, (Program.done value : Call (Option Manifest)).Stands workerTerms (fun _ _ => True) kept :=
    fun _ _ _ _ => trivial
  have failed : ∀ kept, Ready dir fields kept →
      ((remove (sandboxEntryName sandbox.jobId) config.patience).bind fun _ =>
        (.done none : Call (Option Manifest))).Stands workerTerms (fun _ _ => True) kept :=
    fun kept ready => stands_bind beside_refl (remove_stands _ ready) fun _ later _ => over' none later
  unfold retainJobDir
  split
  · exact over' _ _
  dsimp only
  intro later beside
  have ready := ready_beside ready beside
  refine ⟨trivial,fun reply next served => ?_⟩
  have ready := ready_served ready served
  cases reply with
  | error fault => exact failed _ ready
  | ok _ =>
    refine stands_bind beside_refl (remove_stands _ ready) fun gone kept ready => ?_
    cases gone with
    | false => exact failed _ ready
    | true =>
      intro later beside
      have ready := ready_beside ready beside
      refine ⟨ready.1,fun reply next served => ?_⟩
      have ready' := ready_served ready served
      cases reply with
      | error fault => exact failed _ ready'
      | ok _ =>
        have adopted : Adopted (sandboxEntryName sandbox.jobId) dir fields next := by
          refine ⟨ready',?_⟩
          rcases served.1 with ⟨fault,failed,-⟩ | ⟨replies,disk⟩
          · cases failed
          · rw [disk]
            exact adopt_ok replies.symm
        intro later beside
        have adopted : Adopted (sandboxEntryName sandbox.jobId) dir fields later :=
          ⟨ready_beside adopted.1 beside,by rw [beside.names]; exact adopted.2⟩
        refine ⟨trivial,fun reply next served => ?_⟩
        cases reply with
        | error fault => exact failed _ (ready_served adopted.1 served)
        | ok inode =>
          have opened := opened_served adopted served
          intro later beside
          obtain ⟨ready,-,none',only⟩ := opened_beside opened beside
          refine ⟨⟨none',fun last found => ?_⟩,fun reply next served => ?_⟩
          · obtain rfl := only last _ found
            rw [remake_fields]
            exact ready.2
          · cases reply with
            | error fault => exact failed _ (ready_served ready served)
            | ok _ => exact over' _ _

end Retaining
section Pinning

variable {stamp : Nat} {sight next : Sight} {found : Manifest × String}

/-- The manifest is the one of a run that the pin has seen under the name. -/
private def Known (found : Manifest × String) (sight : Sight) : Prop :=
  ∃ dir, sight.seen found.2 = some dir ∧ dir < sight.kept.disk.nextDir ∧ sight.kept.written dir = some found.1.toFields

private theorem known_aside (known : Known found sight) (aside : (pinTerms stamp).rely sight next) : Known found next := by
  obtain ⟨dir,seen,old,written⟩ := known
  exact ⟨dir,aside.2 ▸ seen,old.trans_le aside.1.dirs,(aside.1.written dir old).trans written⟩

private theorem known_served {command : Command} {reply : Except FileFault command.Answer} (known : Known found sight)
    (served : (pinTerms stamp).serves sight command reply next) (apart : ∀ name, command = .read name → name ≠ found.2) :
    Known found next := by
  obtain ⟨-,written,-,dirs,seen⟩ := served
  have same : sees sight.seen sight.kept.disk command found.2 = sight.seen found.2 := by
    cases command with
    | read name => exact Function.update_of_ne (apart name rfl).symm ..
    | prepare | list | unlink | rmdir | adopt | openManifest | write | lstat | create | chmod | place => rfl
  unfold Known
  rw [seen,same,dirs,written]
  exact known

/-- The pin has no draft. -/
private def Blank (stamp : Nat) (sight : Sight) : Prop := ∀ inode, sight.kept.owner inode ≠ some stamp

private theorem blank_aside (blank : Blank stamp sight) (aside : (pinTerms stamp).rely sight next) : Blank stamp next :=
  fun inode mine => blank inode (aside.1.only inode mine)

private theorem blank_served {command : Command} {reply : Except FileFault command.Answer} (blank : Blank stamp sight)
    (served : (pinTerms stamp).serves sight command reply next) (quiet : ∀ name own, command ≠ .create name own) :
    Blank stamp next := by
  obtain ⟨-,-,owner,-,-⟩ := served
  intro inode mine
  rw [owner] at mine
  rcases owners_from mine with ⟨-,name,own,made⟩ | old
  · exact quiet name own made
  · exact blank inode old

private theorem pin_refl (sight : Sight) : (pinTerms stamp).rely sight sight := ⟨aside_refl stamp sight.kept,rfl⟩

private theorem pin_trans (first second third : Sight) (one : (pinTerms stamp).rely first second)
    (two : (pinTerms stamp).rely second third) : (pinTerms stamp).rely first third :=
  ⟨aside_trans _ _ _ one.1 two.1,two.2.trans one.2⟩

/-- What is read is what the directory seen there was retained with; what was read under another name stays so. -/
private theorem readAt_stands (name : String) {before : Option (Manifest × String)} (blank : Blank stamp sight)
    (known : ∀ found ∈ before, name ≠ found.2 ∧ Known found sight) :
    (readAt name).Stands (pinTerms stamp)
      (fun found sight => Blank stamp sight ∧ (∀ last ∈ before, Known last sight) ∧
        ∀ last ∈ found, last.2 = name ∧ Known last sight) sight := by
  intro later aside
  have blank := blank_aside blank aside
  refine ⟨trivial,fun reply next served => ?_⟩
  have blank' := blank_served blank served fun _ _ same => by cases same
  have known' : ∀ last ∈ before, Known last next := by
    intro last member
    refine known_served (known_aside (known last member).2 aside) served fun other same => ?_
    cases same
    exact (known last member).1
  have nothing : (Program.done none : Call (Option (Manifest × String))).Stands (pinTerms stamp)
      (fun found sight => Blank stamp sight ∧ (∀ last ∈ before, Known last sight) ∧
        ∀ last ∈ found, last.2 = name ∧ Known last sight) next := by
    intro later aside
    refine ⟨blank_aside blank' aside,fun last member => known_aside (known' last member) aside,fun last member => ?_⟩
    cases member
  match reply,served with
  | .error fault,_ => exact nothing
  | .ok none,_ => exact nothing
  | .ok (some manifest),served =>
    have here : Known (manifest,name) next := by
      obtain ⟨served,written,-,dirs,seen⟩ := served
      rcases served with ⟨fault,failed,-⟩ | ⟨replies,-⟩
      · cases failed
      obtain ⟨dir,inode,named,entry,content⟩ := @Files.read_ok _ _ _ later.kept.disk _ _ _ replies.symm
      refine ⟨dir,?_,?_,?_⟩
      · rw [seen]
        exact (Function.update_self ..).trans named
      · rw [dirs]
        exact later.kept.sound.named _ _ named
      · rw [written]
        exact later.kept.sound.faithful dir inode manifest entry content.symm
    intro last aside
    refine ⟨blank_aside blank' aside,fun last member => known_aside (known' last member) aside,fun last member => ?_⟩
    cases member
    exact ⟨rfl,known_aside here aside⟩

private theorem readManifest_stands (jobId : String) (blank : Blank stamp sight) :
    (readManifest jobId).Stands (pinTerms stamp)
      (fun found sight => Blank stamp sight ∧ ∀ last ∈ found, Known last sight) sight := by
  have over' : ∀ (found : Option (Manifest × String)) sight, Blank stamp sight → (∀ last ∈ found, Known last sight) →
      (Program.done found : Call (Option (Manifest × String))).Stands (pinTerms stamp)
        (fun found sight => Blank stamp sight ∧ ∀ last ∈ found, Known last sight) sight :=
    fun found sight blank known later aside =>
      ⟨blank_aside blank aside,fun last member => known_aside (known last member) aside⟩
  unfold readManifest
  refine stands_bind pin_refl (@readAt_stands _ _ _ none blank fun _ member => by cases member) ?_
  intro found sight known
  obtain ⟨blank,-,known⟩ := known
  split
  · exact over' found sight blank fun last member => (known last member).2
  split
  · exact over' found sight blank fun last member => (known last member).2
  next apart =>
    have apart : sanitizeJobId jobId ≠ sandboxEntryName jobId := fun same => apart (.inl same)
    refine stands_bind pin_refl (@readAt_stands _ _ _ found blank fun last member => ?_) ?_
    · exact ⟨fun same => apart (same.trans (known last member).1),(known last member).2⟩
    · intro old sight both
      obtain ⟨blank,first,second⟩ := both
      refine over' _ sight blank fun last member => ?_
      split at member
      · exact (second last member).2
      · exact first last member

/-- The pin's draft, and what it says if it is written. -/
private def Drafted (stamp : Nat) (found : Manifest × String) (inode : Nat) (content : Option Manifest) (sight : Sight) :
    Prop :=
  Known found sight ∧ sight.kept.owner inode = some stamp ∧ (∀ last, sight.kept.owner last = some stamp → last = inode) ∧
    ∀ manifest ∈ content, sight.kept.disk.contents inode = some manifest

private theorem drafted_aside {inode : Nat} {content : Option Manifest} (drafted : Drafted stamp found inode content sight)
    (aside : (pinTerms stamp).rely sight next) : Drafted stamp found inode content next := by
  obtain ⟨known,mine,only,content⟩ := drafted
  refine ⟨known_aside known aside,(aside.1.mine inode mine).1,fun last also => only last (aside.1.only last also),?_⟩
  exact fun manifest member => (aside.1.mine inode mine).2.trans (content manifest member)

/-- Pinning fits beside the worker and any other pins. -/
theorem pin_stands (config : Config) (jobId : String) (pinDays : Nat) (now : Instant) (blank : Blank stamp sight) :
    (pinSandbox config jobId pinDays now stamp).Stands (pinTerms stamp) (fun _ _ => True) sight := by
  have over' : ∀ value sight, (Program.done value : Call Pinned).Stands (pinTerms stamp) (fun _ _ => True) sight :=
    fun _ _ _ _ => trivial
  have undone : ∀ name sight, (issue (.unlink name (.temp stamp)) fun _ => (.done .failed : Call Pinned)).Stands
      (pinTerms stamp) (fun _ _ => True) sight :=
    fun name sight later aside => ⟨trivial,fun _ next _ => over' _ next⟩
  unfold pinSandbox
  refine stands_bind pin_refl (readManifest_stands jobId blank) fun found sight both => ?_
  obtain ⟨blank,known⟩ := both
  match found,known with
  | none,_ => exact over' _ _
  | some (manifest,name),known =>
    have known := known _ rfl
    dsimp only
    split
    · exact over' _ _
    intro later aside
    have blank := blank_aside blank aside
    have known := known_aside known aside
    refine ⟨trivial,fun reply next served => ?_⟩
    have blank := blank_served blank served fun _ _ same => by cases same
    have known := known_served known served fun _ same => by cases same
    cases reply with
    | error fault => exact over' _ _
    | ok _ =>
      intro later aside
      have blank := blank_aside blank aside
      have known := known_aside known aside
      refine ⟨rfl,fun reply next served => ?_⟩
      cases reply with
      | error fault => exact over' _ _
      | ok inode =>
        have drafted : Drafted stamp (manifest,name) inode none next := by
          refine ⟨known_served known served (fun _ same => by cases same),?_,fun last mine => ?_,fun _ member => by cases member⟩
          · rw [served.2.2.1]
            exact Function.update_self ..
          · rw [served.2.2.1] at mine
            by_cases same : last = inode
            · exact same
            · exact absurd ((Function.update_of_ne same ..).symm.trans mine) (blank last)
        intro later aside
        have drafted := drafted_aside drafted aside
        refine ⟨drafted.2.1,fun reply next served => ?_⟩
        have written : reply = .ok () → Drafted stamp (manifest,name) inode
            (some (withManifestVersion { manifest with keepUntil := some (now + pinDays * DAY_MS) })) next := by
          rintro rfl
          obtain ⟨known,mine,only,-⟩ := drafted
          refine ⟨known_served known served (fun _ same => by cases same),?_,fun last also => ?_,fun last member => ?_⟩
          · rw [served.2.2.1]
            exact mine
          · rw [served.2.2.1] at also
            exact only last also
          · cases member
            rcases served.1 with ⟨fault,failed,-⟩ | ⟨-,disk⟩
            · cases failed
            · rw [disk]
              exact Function.update_self ..
        cases reply with
        | error fault => exact over' _ _
        | ok _ =>
          have drafted := written rfl
          intro later aside
          have drafted := drafted_aside drafted aside
          refine ⟨trivial,fun reply next served => ?_⟩
          cases reply with
          | error fault => exact undone name _
          | ok _ =>
            have drafted : Drafted stamp (manifest,name) inode
                (some (withManifestVersion { manifest with keepUntil := some (now + pinDays * DAY_MS) })) next := by
              obtain ⟨known,mine,only,content⟩ := drafted
              have disk : next.kept.disk = later.kept.disk := by
                rcases served.1 with ⟨fault,-,same⟩ | ⟨-,same⟩ <;> exact same
              refine ⟨known_served known served (fun _ same => by cases same),?_,?_,?_⟩
              · rw [served.2.2.1]
                exact mine
              · rw [served.2.2.1]
                exact only
              · rw [disk]
                exact content
            intro later aside
            obtain ⟨known,mine,only,content⟩ := drafted_aside drafted aside
            refine ⟨⟨rfl,fun last draft own whole => ?_⟩,fun reply next served => ?_⟩
            · obtain rfl := only last own
              rw [content _ rfl] at whole
              obtain ⟨dir,seen,-,written⟩ := known
              rw [← Option.some.inj whole,remake_fields,seen]
              exact written
            · cases reply with
              | error fault => exact undone name _
              | ok _ => exact over' _ _

end Pinning
/-- Each program is where it fits, on one sound disk; the pins' temporary names are their own. -/
private structure Whole (world : World) where
  kept : Kept
  disk : kept.disk = world.disk
  written : kept.written = world.written
  worker : ∀ program ∈ world.worker, program.Stands workerTerms (fun _ _ => True) kept
  pins : ∀ (index : Nat) (pin : Pin), world.pins[index]? = some pin →
    pin.program.Stands (pinTerms pin.stamp) (fun _ _ => True) ⟨kept,pin.seen⟩ ∧ pin.stamp < world.stamps
  own : ∀ (first second : Nat) (pin other : Pin), world.pins[first]? = some pin → world.pins[second]? = some other →
    pin.stamp = other.stamp → first = second
  drafts : ∀ inode stamp, kept.owner inode = some stamp → stamp < world.stamps

private theorem whole_empty : Nonempty (Whole .empty) := by
  refine ⟨⟨⟨_,_,_,sound_empty⟩,rfl,rfl,?_,?_,?_,?_⟩⟩
  · intro program member
    cases member
  · intro index pin found
    cases found
  · intro first second pin other found
    cases found
  · intro inode stamp mine
    cases mine

/-- The pins stand where the disk moves on aside from each. -/
private theorem pins_move {world : World} (whole : Whole world) {next : Kept}
    (aside : ∀ (index : Nat) (pin : Pin), world.pins[index]? = some pin → Aside pin.stamp whole.kept next) (index : Nat) (pin : Pin)
    (found : world.pins[index]? = some pin) :
    pin.program.Stands (pinTerms pin.stamp) (fun _ _ => True) ⟨next,pin.seen⟩ ∧ pin.stamp < world.stamps :=
  ⟨stands_rely pin_trans (whole.pins index pin found).1 ⟨aside index pin found,rfl⟩,(whole.pins index pin found).2⟩

private theorem step_whole {config : Config} {world next : World} (whole : Whole world)
    (step : Step config (fun world pin command => steady world pin command) world next) : Nonempty (Whole next) := by
  obtain ⟨disk,written⟩ : whole.kept.disk = world.disk ∧ whole.kept.written = world.written := ⟨whole.disk,whole.written⟩
  cases step with
  | retain prepared sandbox created tree idle given =>
    obtain ⟨sound,dirs,same⟩ := whole.kept.sound.lays tree (some (fieldsOf config prepared sandbox created))
    rw [disk,written] at sound
    rw [disk] at dirs same
    refine ⟨⟨⟨_,_,_,sound⟩,rfl,rfl,fun program member => ?_,?_,whole.own,whole.drafts⟩⟩
    · cases member
      refine retain_stands config sandbox _ _ ?_ (Function.update_self ..)
      exact dirs ▸ Nat.lt_succ_self _
    · refine pins_move whole fun index pin found => ⟨fun inode mine => ⟨mine,?_⟩,fun _ mine => mine,?_,fun dir old => ?_⟩
      · rw [disk]
        exact same inode (disk ▸ whole.kept.sound.owned _ _ mine)
      · rw [disk]
        exact dirs ▸ Nat.le_succ _
      · rw [written]
        rw [disk] at old
        exact Function.update_of_ne (Nat.ne_of_lt old) ..
  | works command resume reply last waits served =>
    obtain ⟨fits,rest⟩ := whole.worker _ waits whole.kept (beside_refl _)
    rw [← disk] at served
    obtain ⟨kept,same,written',owner,dirs,aside⟩ := worker_call fits served
    refine ⟨⟨kept,same,written'.trans written,fun program member => ?_,?_,whole.own,fun inode stamp mine => ?_⟩⟩
    · cases member
      exact rest reply kept ⟨same ▸ served,written',owner,dirs⟩
    · exact pins_move whole fun _ pin _ => aside pin.stamp
    · rw [owner] at mine
      exact whole.drafts inode stamp mine
  | rests value finished =>
    exact ⟨⟨whole.kept,disk,written,(fun _ member => by cases member),whole.pins,whole.own,whole.drafts⟩⟩
  | pin jobId pinDays now =>
    have fresh : Blank world.stamps ⟨whole.kept,fun _ => none⟩ := fun inode mine =>
      absurd (whole.drafts _ _ mine) (Nat.lt_irrefl _)
    have cases' : ∀ index pin, (world.pins ++ [⟨world.stamps,fun _ => none,
        pinSandbox config jobId pinDays now world.stamps⟩])[index]? = some pin →
        world.pins[index]? = some pin ∨ index = world.pins.length ∧
          pin = ⟨world.stamps,fun _ => none,pinSandbox config jobId pinDays now world.stamps⟩ := by
      intro index pin found
      rcases Nat.lt_or_ge index world.pins.length with old | new
      · rw [List.getElem?_append_left old] at found
        exact .inl found
      · rw [List.getElem?_append_right new] at found
        obtain ⟨zero,same⟩ := List.getElem?_eq_some_iff.mp found
        rw [List.length_singleton] at zero
        have zero : index - world.pins.length = 0 := by omega
        exact .inr ⟨by omega,by simpa [zero] using same.symm⟩
    refine ⟨⟨whole.kept,disk,written,whole.worker,?_,?_,fun inode stamp mine => Nat.lt_succ_of_lt (whole.drafts _ _ mine)⟩⟩
    · intro index pin found
      rcases cases' index pin found with old | ⟨-,rfl⟩
      · exact ⟨(whole.pins index pin old).1,Nat.lt_succ_of_lt (whole.pins index pin old).2⟩
      · exact ⟨pin_stands config jobId pinDays now fresh,Nat.lt_succ_self _⟩
    · intro first second pin other here there same
      rcases cases' first pin here with old | ⟨rfl,rfl⟩
      · rcases cases' second other there with also | ⟨rfl,rfl⟩
        · exact whole.own _ _ _ _ old also same
        · exact absurd (whole.pins first pin old).2 (by rw [same]; exact Nat.lt_irrefl _)
      · rcases cases' second other there with also | ⟨rfl,rfl⟩
        · exact absurd (whole.pins second other also).2 (by rw [← same]; exact Nat.lt_irrefl _)
        · rfl
  | pins index stamp seen command resume reply last waits may served =>
    obtain ⟨stands,below⟩ := whole.pins index _ waits
    obtain ⟨fits,rest⟩ := stands ⟨whole.kept,seen⟩ (pin_refl _)
    rw [← disk] at served
    have may' : ∀ name own dir inode, command = .place name own → whole.kept.disk.names name = some dir →
        whole.kept.disk.entry dir (.temp own) = some inode →
        whole.kept.written dir = (seen name).bind whole.kept.written := by
      rintro name own dir inode rfl named found
      rw [disk] at named found
      have found : (world.disk.inside dir).get? (.temp own) = some inode := found
      have may : ((world.disk.names name).all fun dir =>
        ((world.disk.inside dir).get? (.temp own)).isNone || world.written dir = (seen name).bind world.written) = true := may
      rw [named,Option.all_some,found,Option.isNone_some,Bool.false_or] at may
      rw [written]
      exact of_decide_eq_true may
    obtain ⟨kept,called⟩ := pin_call fits may' served
    have cases' : ∀ other pin, (world.pins.set index ⟨stamp,sees seen world.disk command,resume reply⟩)[other]? = some pin →
        (other = index ∧ pin = ⟨stamp,sees seen world.disk command,resume reply⟩) ∨
          other ≠ index ∧ world.pins[other]? = some pin := by
      intro other pin found
      rw [List.getElem?_set] at found
      split at found
      next same =>
        split at found
        · exact .inl ⟨same.symm,(Option.some.inj found).symm⟩
        · cases found
      next apart => exact .inr ⟨Ne.symm apart,found⟩
    refine ⟨⟨kept,called.disk,called.written.trans written,fun program member => ?_,?_,?_,fun inode own mine => ?_⟩⟩
    · exact stands_rely beside_trans (whole.worker program member) called.beside
    · intro other pin found
      rcases cases' other pin found with ⟨rfl,rfl⟩ | ⟨apart,old⟩
      · refine ⟨rest reply ⟨kept,_⟩ ⟨called.disk ▸ served,called.written,called.owner,called.dirs,?_⟩,below⟩
        rw [← disk]
      · have differs : pin.stamp ≠ stamp := fun same => apart (whole.own _ _ _ _ old waits same)
        obtain ⟨stands,below⟩ := whole.pins other pin old
        exact ⟨stands_rely pin_trans stands ⟨called.aside _ differs,rfl⟩,below⟩
    · intro first second pin other here there same
      rcases cases' first pin here with ⟨rfl,rfl⟩ | ⟨-,old⟩
      · rcases cases' second other there with ⟨rfl,rfl⟩ | ⟨-,also⟩
        · rfl
        · exact whole.own _ _ _ _ waits also same
      · rcases cases' second other there with ⟨rfl,rfl⟩ | ⟨-,also⟩
        · exact whole.own _ _ _ _ old waits same
        · exact whole.own _ _ _ _ old also same
    · rw [called.owner] at mine
      rcases owners_from mine with ⟨rfl,-⟩ | old
      · exact below
      · exact whole.drafts inode own old

private theorem run_whole {config : Config} {world : World}
    (run : Relation.ReflTransGen (Step config fun world pin command => steady world pin command) .empty world) :
    Nonempty (Whole world) := by
  induction run with
  | refl => exact whole_empty
  | tail _ step ih =>
    obtain ⟨whole⟩ := ih
    exact step_whole whole step

/-- Where a pin's rename finds a run retained as the one that it read was, a manifest says what the run beside it was retained
with, whenever it is read. -/
theorem manifest_kept {config : Config} {world : World}
    (run : Relation.ReflTransGen (Step config fun world pin command => steady world pin command) .empty world)
    {name : String} {manifest : Manifest} (reads : world.disk.read name .manifest = .ok (some manifest)) :
    ∃ dir, world.disk.names name = some dir ∧ world.written dir = some manifest.toFields := by
  obtain ⟨whole⟩ := run_whole run
  obtain ⟨dir,inode,named,found,content⟩ := read_ok reads
  refine ⟨dir,named,?_⟩
  rw [← whole.written]
  rw [← whole.disk] at found content
  exact whole.kept.sound.faithful dir inode manifest found content.symm
section Plays

variable (config : Config)

/-- What happens next, where every call is answered as the disk answers it. -/
inductive Move
  | retain (prepared : Prepared) (created : Instant) (tree : List String)
  | work
  | pin (jobId : String) (pinDays : Nat) (now : Instant)
  | call (index : Nat)

def move (guard : World → Pin → Command → Bool) (world : World) : Move → Option World
  | .retain prepared created tree => match world.worker,prepared.sandbox with
    | none,some sandbox => some { world with
        disk := laid world.disk tree
        worker := some (retainJobDir config sandbox (fieldsOf config prepared sandbox created) world.disk.nextDir)
        written := Function.update world.written world.disk.nextDir (some (fieldsOf config prepared sandbox created)) }
    | _,_ => none
  | .work => match world.worker with
    | some (.issue command resume) =>
      some { world with disk := (answer world.disk command).2, worker := some (resume (answer world.disk command).1) }
    | some (.done _) => some { world with worker := none }
    | none => none
  | .pin jobId pinDays now => some { world with
      pins := world.pins ++ [⟨world.stamps,fun _ => none,pinSandbox config jobId pinDays now world.stamps⟩]
      stamps := world.stamps + 1 }
  | .call index => match world.pins[index]? with
    | some ⟨stamp,seen,.issue command resume⟩ =>
      if guard world ⟨stamp,seen,.issue command resume⟩ command then some { world with
        disk := (answer world.disk command).2
        pins := world.pins.set index ⟨stamp,sees seen world.disk command,resume (answer world.disk command).1⟩ }
      else none
    | _ => none

private theorem answer_serves (disk : Disk) (command : Command) :
    serves disk command (answer disk command).1 (answer disk command).2 := by
  right
  cases command with
  | list name =>
    cases named : disk.names name with
    | none =>
      have own : answer disk (.list name) = (.error .missing,disk) := by
        unfold answer
        simp only [named]
        rfl
      rw [own]
      exact ⟨(congrArg Prod.fst own).symm,(congrArg Prod.snd own).symm⟩
    | some dir =>
      have own : answer disk (.list name) = (.ok (disk.inside dir).keys,disk) := by
        unfold answer
        simp only [named]
        rfl
      rw [own]
      exact ⟨dir,named,.refl _,rfl⟩
  | prepare | unlink | rmdir | adopt | openManifest | write | read | lstat | create | chmod | place => exact ⟨rfl,rfl⟩

variable {config} {guard : World → Pin → Command → Bool} {world next : World}

private theorem move_step {next' : Move} (moved : move config guard world next' = some next) :
    Step config (fun world pin command => guard world pin command) world next := by
  cases next' with
  | retain prepared created tree =>
    unfold move at moved
    dsimp only at moved
    split at moved
    next idle given =>
      cases moved
      exact .retain world prepared _ created tree idle given
    · cases moved
  | work =>
    unfold move at moved
    dsimp only at moved
    split at moved
    next command resume waits =>
      cases moved
      exact .works world command resume _ _ waits (answer_serves ..)
    next value finished =>
      cases moved
      exact .rests world value finished
    · cases moved
  | pin jobId pinDays now =>
    cases moved
    exact .pin world jobId pinDays now
  | call index =>
    unfold move at moved
    dsimp only at moved
    split at moved
    next stamp seen command resume waits =>
      split at moved
      next may =>
        cases moved
        exact .pins world index stamp seen command resume _ _ waits may (answer_serves ..)
      · cases moved
    · cases moved

private theorem moves_run (moves : List Move) (moved : moves.foldlM (move config guard) world = some next) :
    Relation.ReflTransGen (Step config fun world pin command => guard world pin command) world next := by
  induction moves generalizing world with
  | nil =>
    cases moved
    exact .refl
  | cons first rest ih =>
    rw [List.foldlM_cons] at moved
    cases one : move config guard world first with
    | none =>
      rw [one] at moved
      cases moved
    | some middle =>
      rw [one] at moved
      exact .head (move_step one) (ih moved)

end Plays

section Attempts

private def config : Config := ⟨"/s",some 24,0,1⟩

/-- One attempt at the run, in the image given. -/
private def attempt (image : String) : Prepared where
  jobDir := "/j/a"
  workspace := some "/j/a/w"
  sha := none
  sandbox := some ⟨"a",none,some image,none,none,none,none⟩

private def alike : List Move := .retain (attempt "one") 0 ["w"] :: List.replicate 6 .work ++
  .pin "a" 1 0 :: List.replicate 6 (.call 0)

/-- A pin beside no other attempt says what the run was retained with, and is kept. -/
theorem manifest_kept_pinned : ∃ (world : World) (name : String) (manifest : Manifest),
    Files.read world.disk name .manifest = .ok (some manifest) ∧
    manifest.keepUntil = some DAY_MS ∧
    ∃ dir, world.disk.names name = some dir ∧ world.written dir = some manifest.toFields := by
  have played : (alike.foldlM (move config steady) .empty).isSome = true := by decide +kernel
  obtain ⟨world,found⟩ := Option.isSome_iff_exists.mp played
  have reads : ((alike.foldlM (move config steady) .empty).bind fun world =>
      (Files.read world.disk "a" .manifest).toOption.join.bind Manifest.keepUntil) = some DAY_MS := by decide +kernel
  rw [found,Option.bind_some] at reads
  cases own : Files.read world.disk "a" .manifest with
  | error fault =>
    rw [own] at reads
    cases reads
  | ok content => cases content with
    | none =>
      rw [own] at reads
      cases reads
    | some manifest =>
      rw [own] at reads
      exact ⟨world,"a",manifest,own,reads,manifest_kept (moves_run alike found) own⟩

private def retried : List Move := .retain (attempt "one") 0 [] :: List.replicate 6 .work ++
  .pin "a" 1 0 :: .call 0 :: .retain (attempt "two") 1 [] :: List.replicate 8 .work ++ List.replicate 5 (.call 0)

/-- A pin that read the first attempt's manifest renames it over the second one's, which ran in another image. -/
theorem pinned_first_attempt : ∃ (config : Config) (world : World) (name : String) (manifest : Manifest) (dir : Nat)
    (fields : Fields),
    Relation.ReflTransGen (Step config fun _ _ _ => True) .empty world ∧
    Files.read world.disk name .manifest = .ok (some manifest) ∧ world.disk.names name = some dir ∧
    world.written dir = some fields ∧ manifest.image = some "one" ∧ fields.image = some "two" := by
  have played : ((retried.foldlM (move config fun _ _ _ => true) .empty).bind fun world =>
    (Files.read world.disk "a" .manifest).toOption.join.bind fun manifest => (world.disk.names "a").bind fun dir =>
      (world.written dir).map fun fields => (manifest.image,fields.image)) = some (some "one",some "two") := by
    decide +kernel
  obtain ⟨world,found,played⟩ := Option.bind_eq_some_iff.mp played
  obtain ⟨manifest,reads,played⟩ := Option.bind_eq_some_iff.mp played
  obtain ⟨dir,named,played⟩ := Option.bind_eq_some_iff.mp played
  obtain ⟨fields,written,images⟩ := Option.map_eq_some_iff.mp played
  refine ⟨config,world,"a",manifest,dir,fields,?_,?_,named,written,(Prod.ext_iff.mp images).1,(Prod.ext_iff.mp images).2⟩
  · exact Relation.ReflTransGen.mono (fun _ _ step => by simpa using step) _ _ (moves_run retried found)
  · cases own : Files.read world.disk "a" .manifest with
    | error fault =>
      rw [own] at reads
      cases reads
    | ok content =>
      rw [own] at reads
      have same : content = some manifest := reads
      rw [same]

end Attempts

end PiDispatch.SandboxStore
