import PiDispatch.SessionStore

/-! How a job conducts itself on the key's files: the gates read before the check does, a session is handed over as what
was read, and a promotion writes under its lock, in its order, and of the transcript that it swapped in. -/
namespace PiDispatch.SessionStore
open Kernel

variable {B α β : Type}

abbrev Log (B : Type) := Heard (FileSystem B)

/-- How far a promotion has come. -/
inductive Stage (B : Type)
  | outside
  | took (lock : Nat)
  | pended (lock : Nat)
  | placed (lock : Nat) (file : File B)

namespace Stage

def lock : Stage B → Option Nat
  | .outside => none
  | .took lock | .pended lock | .placed lock _ => some lock

def pend : Stage B → Stage B
  | .took lock => .pended lock
  | stage => stage

def place (stat : Stat) (bytes : B) (origin : Origin) : Stage B → Stage B
  | .pended lock => .placed lock ⟨stat,bytes,origin⟩
  | stage => stage

def advance (stage : Stage B) (command : Command B) (answer : command.Answer) : Stage B :=
  match command,answer with
  | .takeLock,some lock => .took lock
  | .replace _ _ _,true => stage.pend
  | .swap _ bytes origin,some stat => stage.place stat bytes origin
  | _,_ => stage

end Stage

def stageOf : Log B → Stage B
  | [] => .outside
  | ⟨command,answer⟩ :: log => (stageOf log).advance command answer

def said (command : Command B) (answer : command.Answer) : (command : (FileSystem B).Command) × (FileSystem B).Answer command :=
  ⟨command,answer⟩

def Checked (log : Log B) : Prop := ∃ answer, said (.inspect .check) answer ∈ log

/-- What a sidecar was read as. -/
def Read (asker : Asker) (name : Name) (value : Option String) (log : Log B) : Prop :=
  (said (.stat asker name) none ∈ log ∧ value = none) ∨
  (∃ size, said (.stat asker name) (some size) ∈ log ∧ (size = 0 ∨ SIDECAR_MAX_BYTES < size) ∧ value = none) ∨
  ∃ raw, said (.read asker name) raw ∈ log ∧ value = raw.map trim

def ReadVenue (asker : Asker) (value : Option String) (log : Log B) : Prop :=
  (said (.stat asker .venue) none ∈ log ∧ value = some UNATTRIBUTED_BACKEND) ∨ Read asker .venue value log

def ReadChain (asker : Asker) (chain : Nat) (log : Log B) : Prop := ∃ raw, Read asker .resumeChain raw log ∧ chain = chainOf raw

/-- The transcript of this stat passed the gates of the job. -/
structure Passed (config : Config B) (job : Job) (stat : Stat) (log : Log B) : Prop where
  found : said (.inspect .gate) (some stat) ∈ log
  venue : job.venue.isSome
  version : ∃ version, job.piVersion = some version ∧ Read .gate .piVersion (some version.text) log
  chain : 0 < config.maxResumeChain → ∃ chain < config.maxResumeChain, ReadChain .gate chain log

/-- The file was still in place after its copy. -/
structure Copied (job : Job) (stat : Stat) (file : File B) (log : Log B) : Prop where
  bytes : said .openTranscript (some file) ∈ log
  same : file.stat = stat
  stamp : ReadVenue .check (venueText job.venue) log
  still : said (.inspect .check) (some stat) ∈ log

/-- What a session that resumes was handed over on. -/
structure Resumed (config : Config B) (job : Job) (session : Session B) (log : Log B) : Prop where
  passed : ∃ stat file, session.staged = some file ∧ Passed config job stat log ∧ Copied job stat file log ∧
    ∀ source, session.parkedSource = some source → said .readParked (some (.source source stat)) ∈ log

/-- What a promotion writes beside the transcript that it swapped in. -/
def Fits (lock : Nat) (file : File B) (name : Name) (text : String) (log : Log B) : Prop :=
  match name with
  | .venue => venueText file.origin.venue = some text
  | .piVersion => text = versionText file.origin.piVersion
  | .resumeChain => text = Nat.repr 0 ∧ file.origin.depth = 0 ∨
      ∃ chain handed, text = Nat.repr (chain + 1) ∧ file.origin.depth = handed + 1 ∧
        ReadChain (.promotion lock handed) chain log
  | .context => True

def May (config : Config B) (log : Log B) : Command B → Prop
  | .inspect .gate => log = []
  | .inspect .check => True
  | .inspect (.promotion lock _) => ∃ file, stageOf log = .placed lock file
  | .stat .gate _ | .stat .check _ | .read .gate _ | .read .check _ => ¬ Checked log
  | .stat (.promotion lock _) _ | .read (.promotion lock _) _ => ∃ file, stageOf log = .placed lock file
  | .readParked | .readTranscript | .openTranscript => True
  | .handOver job session => session.resume = true → Resumed config job session log
  | .takeLock => stageOf log = .outside
  | .replace lock name text => (stageOf log = .took lock ∧ name = .venue ∧ text = VENUE_PENDING) ∨
      ∃ file, stageOf log = .placed lock file ∧ Fits lock file name text log
  | .unlink lock name => name = .context ∧ ∃ file, stageOf log = .placed lock file
  | .replaceParked lock mark => ∃ file, stageOf log = .placed lock file ∧
      ∀ source identity, mark = .source source identity → file.origin.parkedSource = some source ∧
        ∃ handed, said (.inspect (.promotion lock handed)) (some identity) ∈ log
  | .unlinkParked lock => ∃ file, stageOf log = .placed lock file
  | .swap lock _ _ => stageOf log = .pended lock
  | .releaseLock _ => True

/-- What is heard later: what was heard before, and no step of a promotion. -/
structure Onward (log log' : Log B) : Prop where
  kept : ∀ heard ∈ log, heard ∈ log'
  stage : stageOf log' = stageOf log

theorem onward_refl (log : Log B) : Onward log log := ⟨fun _ member => member,rfl⟩

theorem Onward.trans {log log' log'' : Log B} (first : Onward log log') (second : Onward log' log'') : Onward log log'' :=
  ⟨fun heard member => second.kept heard (first.kept heard member),second.stage.trans first.stage⟩

theorem onward_cons (log : Log B) {command : Command B} (answer : command.Answer)
    (still : (stageOf log).advance command answer = stageOf log) :
    Onward log (said command answer :: log) := ⟨fun _ member => List.mem_cons_of_mem _ member,still⟩

theorem Read.onward {asker : Asker} {name : Name} {value : Option String} {log log' : Log B} (read : Read asker name value log)
    (onward : Onward log log') : Read asker name value log' := by
  rcases read with ⟨absent,rfl⟩ | ⟨size,present,bound,rfl⟩ | ⟨raw,text,rfl⟩
  · exact .inl ⟨onward.kept _ absent,rfl⟩
  · exact .inr (.inl ⟨size,onward.kept _ present,bound,rfl⟩)
  · exact .inr (.inr ⟨raw,onward.kept _ text,rfl⟩)

theorem ReadVenue.onward {asker : Asker} {value : Option String} {log log' : Log B} (read : ReadVenue asker value log)
    (onward : Onward log log') : ReadVenue asker value log' := by
  rcases read with ⟨absent,rfl⟩ | read
  · exact .inl ⟨onward.kept _ absent,rfl⟩
  · exact .inr (read.onward onward)

theorem ReadChain.onward {asker : Asker} {chain : Nat} {log log' : Log B} (read : ReadChain asker chain log)
    (onward : Onward log log') : ReadChain asker chain log' := by
  obtain ⟨raw,read,same⟩ := read
  exact ⟨raw,read.onward onward,same⟩

theorem Passed.onward {config : Config B} {job : Job} {stat : Stat} {log log' : Log B} (passed : Passed config job stat log)
    (onward : Onward log log') : Passed config job stat log' := by
  obtain ⟨version,named,read⟩ := passed.version
  refine ⟨onward.kept _ passed.found,passed.venue,⟨version,named,read.onward onward⟩,?_⟩
  intro bounded
  obtain ⟨chain,less,read⟩ := passed.chain bounded
  exact ⟨chain,less,read.onward onward⟩

theorem Copied.onward {job : Job} {stat : Stat} {file : File B} {log log' : Log B} (copied : Copied job stat file log)
    (onward : Onward log log') : Copied job stat file log' :=
  ⟨onward.kept _ copied.bytes,copied.same,copied.stamp.onward onward,onward.kept _ copied.still⟩

/-- What is heard while the check has not come. -/
structure Quiet (log log' : Log B) : Prop extends Onward log log' where
  checked : Checked log' → Checked log

theorem quiet_refl (log : Log B) : Quiet log log := ⟨onward_refl log,id⟩

theorem Quiet.trans {log log' log'' : Log B} (first : Quiet log log') (second : Quiet log' log'') : Quiet log log'' :=
  ⟨first.toOnward.trans second.toOnward,fun checked => first.checked (second.checked checked)⟩

theorem quiet_cons (log : Log B) {command : Command B} (answer : command.Answer)
    (still : (stageOf log).advance command answer = stageOf log) (other : command ≠ .inspect .check) :
    Quiet log (said command answer :: log) := by
  refine ⟨onward_cons log answer still,?_⟩
  rintro ⟨found,member⟩
  rcases List.mem_cons.mp member with same | member
  · exact absurd (congrArg Sigma.fst same).symm other
  · exact ⟨found,member⟩

section Reading

variable {config : Config B} {asker : Asker} {name : Name} {log : Log B}

private theorem conducts_issue {command : Command B} {resume : command.Answer → Call B α} {post : α → Log B → Prop}
    (may : May config log command) (rest : ∀ answer, (resume answer).Conducts (May config) post (said command answer :: log)) :
    (issue command resume).Conducts (May config) post log := ⟨may,rest⟩

private theorem conducts_done {value : α} {post : α → Log B → Prop} (holds : post value log) :
    (Program.done value : Call B α).Conducts (May config) post log := holds

/-- The asker may read this sidecar now, and after more reading. -/
def MayRead (config : Config B) (asker : Asker) (name : Name) (log : Log B) : Prop :=
  ∀ log', Quiet log log' → May config log' (.stat asker name) ∧ May config log' (.read asker name)

theorem mayRead_gate (unchecked : ¬ Checked log) : MayRead config .gate name log :=
  fun _ quiet => ⟨fun checked => unchecked (quiet.checked checked),fun checked => unchecked (quiet.checked checked)⟩

theorem mayRead_check (unchecked : ¬ Checked log) : MayRead config .check name log :=
  fun _ quiet => ⟨fun checked => unchecked (quiet.checked checked),fun checked => unchecked (quiet.checked checked)⟩

theorem mayRead_promotion {lock handed : Nat} {file : File B} (placed : stageOf log = .placed lock file) :
    MayRead config (.promotion lock handed) name log :=
  fun _ quiet => ⟨⟨file,quiet.stage.trans placed⟩,⟨file,quiet.stage.trans placed⟩⟩

theorem readSidecar_conducts (may : MayRead config asker name log) :
    (readSidecar asker name).Conducts (May config) (fun value log' => Quiet log log' ∧ Read asker name value log') log := by
  refine conducts_issue (may log (quiet_refl log)).1 ?_
  intro found
  have looked : Quiet log (said (.stat asker name) found :: log) := quiet_cons log found rfl nofun
  cases found with
  | none => exact conducts_done ⟨looked,.inl ⟨List.mem_cons_self,rfl⟩⟩
  | some size =>
    dsimp only
    split
    next bound => exact conducts_done ⟨looked,.inr (.inl ⟨size,List.mem_cons_self,bound,rfl⟩)⟩
    next =>
      refine conducts_issue (may _ looked).2 ?_
      intro raw
      exact conducts_done ⟨looked.trans (quiet_cons _ raw rfl nofun),.inr (.inr ⟨raw,List.mem_cons_self,rfl⟩)⟩

theorem readVenue_conducts (may : MayRead config asker .venue log) :
    (readVenue asker).Conducts (May config) (fun value log' => Quiet log log' ∧ ReadVenue asker value log') log := by
  refine conducts_issue (may log (quiet_refl log)).1 ?_
  intro found
  have looked : Quiet log (said (.stat asker .venue) found :: log) := quiet_cons log found rfl nofun
  cases found with
  | none => exact conducts_done ⟨looked,.inl ⟨List.mem_cons_self,rfl⟩⟩
  | some size =>
    refine Program.conducts_weaken ?_ (readSidecar_conducts fun log' quiet => may log' (looked.trans quiet))
    intro value log' ⟨quiet,read⟩
    exact ⟨looked.trans quiet,.inr read⟩

theorem readResumeChain_conducts (may : MayRead config asker .resumeChain log) :
    (readResumeChain asker).Conducts (May config) (fun chain log' => Quiet log log' ∧ ReadChain asker chain log') log := by
  refine Program.conducts_bind (readSidecar_conducts may) ?_
  intro raw log' ⟨quiet,read⟩
  exact conducts_done ⟨quiet,raw,read,rfl⟩

end Reading

section Gates

variable {config : Config B} {job : Job} {log : Log B}

private theorem chainGate_conducts (unchecked : ¬ Checked log) :
    (readCanonical.chainGate config).Conducts (May config) (fun long log' => Quiet log log' ∧
      (long = false → 0 < config.maxResumeChain → ∃ chain < config.maxResumeChain, ReadChain .gate chain log')) log := by
  unfold readCanonical.chainGate
  split
  next bounded =>
    refine Program.conducts_bind (readResumeChain_conducts (mayRead_gate unchecked)) ?_
    intro chain log' ⟨quiet,read⟩
    refine conducts_done ⟨quiet,?_⟩
    intro passed _
    exact ⟨chain,Nat.lt_of_not_le (of_decide_eq_false passed),read⟩
  next unbounded => exact conducts_done ⟨quiet_refl log,fun _ bounded => absurd bounded unbounded⟩

private theorem contextGate_conducts (unchecked : ¬ Checked log) :
    (readCanonical.contextGate config job).Conducts (May config) (fun _ log' => Quiet log log') log := by
  unfold readCanonical.contextGate
  split
  · exact conducts_done (quiet_refl log)
  · unfold readContext
    rw [Program.bind_assoc]
    refine Program.conducts_bind (readSidecar_conducts (mayRead_gate unchecked)) ?_
    intro raw log' ⟨quiet,_⟩
    exact conducts_done quiet

/-- What the gates leave: the check still to come, and of a transcript that passed, what was read of it. -/
private def Judged (config : Config B) (job : Job) (result : Except Reason Stat) (log : Log B) : Prop :=
  ¬ Checked log ∧ stageOf log = .outside ∧ ∀ stat, result = .ok stat → Passed config job stat log

private theorem cold_conducts (reason : Reason) (unchecked : ¬ Checked log) (outside : stageOf log = .outside) :
    (cold reason : Call B (Except Reason Stat)).Conducts (May config) (Judged config job) log :=
  ⟨unchecked,outside,nofun⟩

private theorem gates_conducts {stat : Stat} {venue : Venue} {version : PiVersion} (named : job.venue = some venue)
    (declared : job.piVersion = some version) (unchecked : ¬ Checked log) (outside : stageOf log = .outside)
    (found : said (.inspect .gate) (some stat) ∈ log) (read : Read .gate .piVersion (some version.text) log) :
    ((readCanonical.chainGate config).bind fun long =>
      if long then cold .resumeChainTooLong
      else (readCanonical.contextGate config job).bind fun full =>
        if full then cold .contextTooFull
        else issue .readTranscript fun transcript => match judgeTranscript config job transcript with
          | some reason => cold reason
          | none => .done (.ok stat)).Conducts (May config) (Judged config job) log := by
  refine Program.conducts_bind (chainGate_conducts unchecked) ?_
  intro long log' ⟨quiet,short⟩
  have unchecked' : ¬ Checked log' := fun checked => unchecked (quiet.checked checked)
  have outside' := quiet.stage.trans outside
  split
  · exact cold_conducts _ unchecked' outside'
  next passes =>
    refine Program.conducts_bind (contextGate_conducts unchecked') ?_
    intro full log'' quiet'
    have unchecked'' : ¬ Checked log'' := fun checked => unchecked' (quiet'.checked checked)
    have outside'' := quiet'.stage.trans outside'
    split
    · exact cold_conducts _ unchecked'' outside''
    next =>
      refine conducts_issue trivial ?_
      intro transcript
      have last : Quiet log'' (said .readTranscript transcript :: log'') := quiet_cons log'' transcript rfl nofun
      have unseen : ¬ Checked (said .readTranscript transcript :: log'') := fun checked => unchecked'' (last.checked checked)
      split
      · exact cold_conducts _ unseen (last.stage.trans outside'')
      next =>
        refine conducts_done ⟨unseen,last.stage.trans outside'',?_⟩
        rintro _ ⟨⟩
        have all := quiet.trans (quiet'.trans last)
        refine ⟨all.kept _ found,by rw [named]; rfl,⟨version,declared,read.onward all.toOnward⟩,?_⟩
        intro bounded
        obtain ⟨chain,less,counted⟩ := short (eq_false_of_ne_true passes) bounded
        exact ⟨chain,less,counted.onward (quiet'.trans last).toOnward⟩

theorem readCanonical_conducts :
    (readCanonical config job).Conducts (May config) (Judged config job) [] := by
  have start : ¬ Checked ([] : Log B) := fun ⟨_,member⟩ => absurd member List.not_mem_nil
  unfold readCanonical inspectFile
  refine conducts_issue rfl ?_
  intro found
  have looked : Quiet [] [said (.inspect .gate) found] := quiet_cons [] found rfl nofun
  have unchecked : ¬ Checked [said (.inspect .gate) found] := fun checked => start (looked.checked checked)
  have outside : stageOf [said (.inspect .gate) found] = .outside := looked.stage
  cases found with
  | none => exact cold_conducts _ unchecked outside
  | some stat =>
    dsimp only
    split
    · exact cold_conducts _ unchecked outside
    simp only [Program.bind_done]
    split
    · exact cold_conducts _ unchecked outside
    split
    · exact cold_conducts _ unchecked outside
    next venue named =>
      refine Program.conducts_bind (readVenue_conducts (mayRead_gate unchecked)) ?_
      intro stamp log' ⟨quiet,_⟩
      have unchecked' : ¬ Checked log' := fun checked => unchecked (quiet.checked checked)
      have outside' := quiet.stage.trans outside
      split
      · exact cold_conducts _ unchecked' outside'
      split
      · exact cold_conducts _ unchecked' outside'
      next version declared =>
        refine Program.conducts_bind (readSidecar_conducts (mayRead_gate unchecked')) ?_
        intro stamped log'' ⟨quiet',read⟩
        have unchecked'' : ¬ Checked log'' := fun checked => unchecked' (quiet'.checked checked)
        have outside'' := quiet'.stage.trans outside'
        split
        · exact cold_conducts _ unchecked'' outside''
        next same =>
          rw [not_not.mp same] at read
          exact gates_conducts named declared unchecked'' outside''
            (quiet'.kept _ (quiet.kept _ List.mem_cons_self)) read

end Gates

section Staging

variable {config : Config B} {job : Job} {log : Log B}

private theorem swapped_conducts (judged : Stat) (unchecked : ¬ Checked log) :
    (swapped job judged).Conducts (May config) (fun raced log' => Onward log log' ∧
      (raced = none → ReadVenue .check (venueText job.venue) log' ∧ said (.inspect .check) (some judged) ∈ log')) log := by
  refine Program.conducts_bind (readVenue_conducts (mayRead_check unchecked)) ?_
  intro stamp log' ⟨quiet,read⟩
  split
  · exact conducts_done ⟨quiet.toOnward,nofun⟩
  next same =>
    refine conducts_issue trivial ?_
    intro found
    have last : Onward log' (said (.inspect .check) found :: log') := onward_cons log' found rfl
    refine conducts_done ⟨quiet.toOnward.trans last,?_⟩
    intro still
    rw [not_not.mp same] at read
    refine ⟨read.onward last,?_⟩
    by_cases placed : found = some judged
    · rw [placed]
      exact List.mem_cons_self
    · rw [if_pos placed] at still
      cases still

/-- What the staging leaves: of a copy that was kept, that its file was still in place. -/
private def Staged (job : Job) (judged : Stat) (log : Log B) (result : Option (Except Reason (File B))) (log' : Log B) : Prop :=
  Onward log log' ∧ ∀ file, result = some (.ok file) → Copied job judged file log'

private theorem staged_none {judged : Stat} {log' : Log B} {result : Option (Except Reason (File B))}
    (onward : Onward log log') (none : ∀ file, result ≠ some (.ok file)) : Staged job judged log result log' :=
  ⟨onward,fun file kept => absurd kept (none file)⟩

private theorem stageCanonical_conducts (judged : Stat) (unchecked : ¬ Checked log) :
    (stageCanonical job judged).Conducts (May config) (Staged job judged log) log := by
  refine conducts_issue trivial ?_
  intro opened
  have first : Quiet log (said .openTranscript opened :: log) := quiet_cons log opened rfl nofun
  have unchecked' : ¬ Checked (said .openTranscript opened :: log) := fun checked => unchecked (first.checked checked)
  cases opened with
  | none => exact conducts_done (staged_none first.toOnward fun _ none => by cases none)
  | some file =>
    dsimp only
    split
    · refine Program.conducts_bind (swapped_conducts judged unchecked') ?_
      intro raced log' ⟨onward,_⟩
      exact conducts_done (staged_none (first.toOnward.trans onward) fun _ none => by cases none)
    next same =>
      refine Program.conducts_bind (swapped_conducts judged unchecked') ?_
      intro raced log' ⟨onward,still⟩
      cases raced with
      | some reason => exact conducts_done (staged_none (first.toOnward.trans onward) fun _ none => by cases none)
      | none =>
        refine conducts_done ⟨first.toOnward.trans onward,?_⟩
        rintro _ ⟨⟩
        obtain ⟨stamp,placed⟩ := still rfl
        exact ⟨onward.kept _ List.mem_cons_self,not_not.mp same,stamp,placed⟩

/-- What a resolve gives: a session of the job, which resumes only on what was read. -/
structure Given (config : Config B) (job : Job) (result : Option (Session B)) (log : Log B) : Prop where
  outside : stageOf log = .outside
  venue : ∀ session, result = some session → session.venue = job.venue
  resumed : ∀ session, result = some session → session.resume = true → Resumed config job session log

private theorem given_cold (reason : Reason) (outside : stageOf log = .outside) :
    Given config job (some (coldSession job reason)) log := by
  refine ⟨outside,?_,?_⟩
  · rintro _ ⟨⟩
    rfl
  · rintro _ ⟨⟩ ⟨⟩

private theorem given_none (outside : stageOf log = .outside) : Given config job none log := by
  refine ⟨outside,?_,?_⟩
  · intro session none
    cases none
  · intro session none
    cases none

private theorem bound_source {judged : Stat} {mark : Option Mark} {source : ParkedSource}
    (found : boundParkedSource judged mark = some source) : mark = some (.source source judged) := by
  unfold boundParkedSource at found
  split at found
  next written identity =>
    split at found
    next fits =>
      obtain rfl := Option.some.inj found
      rw [fits.1]
    · cases found
  · cases found

private theorem readBoundParkedSource_conducts (judged : Stat) :
    (readBoundParkedSource judged).Conducts (May config) (fun source log' => Onward log log' ∧
      ∀ found, source = some found → said .readParked (some (.source found judged)) ∈ log') log := by
  refine conducts_issue trivial ?_
  intro mark
  refine conducts_done ⟨onward_cons log mark rfl,?_⟩
  intro source found
  rw [bound_source found]
  exact List.mem_cons_self

theorem resolveSession_conducts :
    (resolveSession config job).Conducts (May config) (Given config job) [] := by
  refine Program.conducts_bind readCanonical_conducts ?_
  intro result log ⟨unchecked,outside,passes⟩
  cases result with
  | error reason => exact conducts_done (given_cold reason outside)
  | ok judged =>
    have passed := passes judged rfl
    refine Program.conducts_bind (stageCanonical_conducts judged unchecked) ?_
    intro staged log' ⟨onward,copies⟩
    have outside' := onward.stage.trans outside
    match staged with
    | none => exact conducts_done (given_none outside')
    | some (.error reason) => exact conducts_done (given_cold reason outside')
    | some (.ok file) =>
      refine Program.conducts_bind (readBoundParkedSource_conducts judged) ?_
      intro source log'' ⟨onward',bound⟩
      refine conducts_done ⟨onward'.stage.trans outside',?_,?_⟩
      · rintro _ ⟨⟩
        rfl
      · rintro _ ⟨⟩ _
        exact ⟨judged,file,rfl,passed.onward (onward.trans onward'),(copies file rfl).onward onward',
          fun found named => bound found named⟩

end Staging
section Promoting

variable {config : Config B} {session : Session B} {piVersion : Option PiVersion} {outcome : Outcome B} {lock : Nat}
  {file : File B} {log : Log B}

/-- The promotion of a file still stands under its lock. -/
private def Stands (lock : Nat) (file : File B) (log : Log B) : Prop := stageOf log = .placed lock file

private theorem writeSidecar_conducts {name : Name} {text : String} (placed : stageOf log = .placed lock file)
    (fits : Fits lock file name text log) :
    (writeSidecar lock name text).Conducts (May config) (fun _ => Stands lock file) log := by
  refine conducts_issue (.inr ⟨file,placed,fits⟩) ?_
  intro written
  refine conducts_done ?_
  have same : stageOf (said (.replace lock name text) written :: log) = (stageOf log).advance (.replace lock name text) written := rfl
  rw [Stands,same,placed]
  cases written <;> rfl

private theorem stampVenue_conducts {venue : Option Venue} (placed : stageOf log = .placed lock file)
    (own : file.origin.venue = venue) :
    (stampVenue lock venue).Conducts (May config) (fun _ => Stands lock file) log := by
  cases venue with
  | none => exact conducts_done placed
  | some venue =>
    refine writeSidecar_conducts placed ?_
    show venueText file.origin.venue = some venue.name
    rw [own]
    rfl

private theorem chainValue_conducts (placed : stageOf log = .placed lock file)
    (own : file.origin.depth = if session.resume then session.handed + 1 else 0) :
    (chainValue lock session).Conducts (May config)
      (fun chain log' => Stands lock file log' ∧ Fits lock file .resumeChain chain log') log := by
  unfold chainValue
  split
  next resumes =>
    refine Program.conducts_bind (readResumeChain_conducts (mayRead_promotion placed)) ?_
    intro chain log' ⟨quiet,read⟩
    rw [if_pos resumes] at own
    exact conducts_done ⟨quiet.stage.trans placed,.inr ⟨chain,session.handed,rfl,own,read⟩⟩
  next fresh =>
    rw [if_neg fresh] at own
    exact conducts_done ⟨placed,.inl ⟨rfl,own⟩⟩

private theorem stands_issue (command : Command B) (answer : command.Answer) (stands : Stands lock file log)
    (still : (Stage.placed lock file).advance command answer = .placed lock file) :
    Stands lock file (said command answer :: log) := by
  have same : stageOf (said command answer :: log) = (stageOf log).advance command answer := rfl
  rw [Stands,same,stands,still]

private theorem writeContextSidecar_conducts (placed : stageOf log = .placed lock file) :
    (writeContextSidecar lock session outcome.context).Conducts (May config) (fun _ => Stands lock file) log := by
  unfold writeContextSidecar
  split
  · refine conducts_issue ⟨rfl,file,placed⟩ ?_
    intro answer
    exact conducts_done (stands_issue _ answer placed rfl)
  split
  · exact conducts_done placed
  · exact writeSidecar_conducts placed trivial

private theorem writeParkedSidecar_conducts {handed : Nat} (placed : stageOf log = .placed lock file)
    (own : file.origin.parkedSource = outcome.source) :
    (writeParkedSidecar lock handed outcome).Conducts (May config) (fun _ => Stands lock file) log := by
  unfold writeParkedSidecar
  split
  · refine conducts_issue ⟨file,placed⟩ ?_
    intro identity
    have stands := stands_issue (.inspect (.promotion lock handed)) identity placed rfl
    refine conducts_issue ⟨file,stands,?_⟩ ?_
    · intro source found marked
      unfold parkedMark at marked
      split at marked
      next other other' named =>
        injection marked with first second
        subst first second
        exact ⟨own.trans named,handed,List.mem_cons_self⟩
      · cases marked
    · intro written
      refine conducts_done (stands_issue _ written stands ?_)
      cases written <;> rfl
  · refine conducts_issue ⟨file,placed⟩ ?_
    intro answer
    exact conducts_done (stands_issue _ answer placed rfl)

private theorem sidecars_conduct {stat : Stat} (own : file = ⟨stat,outcome.left,originOf session piVersion outcome⟩)
    (placed : stageOf log = .placed lock file) :
    ((stampVenue lock session.venue).bind fun _ =>
      (writeSidecar lock .piVersion (versionText piVersion)).bind fun _ =>
      (chainValue lock session).bind fun chain =>
      (writeSidecar lock .resumeChain chain).bind fun _ =>
      (writeContextSidecar lock session outcome.context).bind fun _ =>
      (writeParkedSidecar lock session.handed outcome).bind fun _ =>
        (.done true : Call B Bool)).Conducts (May config) (fun _ _ => True) log := by
  refine Program.conducts_bind (stampVenue_conducts placed (by rw [own]; rfl)) ?_
  intro _ log₁ placed₁
  refine Program.conducts_bind (writeSidecar_conducts placed₁ ?_) ?_
  · show versionText piVersion = versionText file.origin.piVersion
    rw [own]
    rfl
  intro _ log₂ placed₂
  refine Program.conducts_bind (chainValue_conducts placed₂ (by rw [own]; rfl)) ?_
  intro chain log₃ ⟨placed₃,fits⟩
  refine Program.conducts_bind (writeSidecar_conducts placed₃ fits) ?_
  intro _ log₄ placed₄
  refine Program.conducts_bind (writeContextSidecar_conducts placed₄) ?_
  intro _ log₅ placed₅
  refine Program.conducts_bind (writeParkedSidecar_conducts placed₅ (by rw [own]; rfl)) ?_
  intro _ log₆ _
  exact conducts_done trivial

private theorem promoteLocked_conducts (taken : stageOf log = .took lock) :
    (promoteLocked lock session piVersion outcome).Conducts (May config) (fun _ _ => True) log := by
  refine conducts_issue (.inl ⟨taken,rfl,rfl⟩) ?_
  intro stamped
  have same : stageOf (said (.replace lock .venue VENUE_PENDING) stamped :: log) =
      (stageOf log).advance (.replace lock .venue VENUE_PENDING) stamped := rfl
  cases stamped with
  | false => exact conducts_done trivial
  | true =>
    rw [taken] at same
    refine conducts_issue same ?_
    intro tmpIdent
    cases tmpIdent with
    | none => exact conducts_done trivial
    | some stat =>
      have placed : stageOf (said (.swap lock outcome.left (originOf session piVersion outcome)) (some stat) ::
          said (.replace lock .venue VENUE_PENDING) true :: log) =
          .placed lock ⟨stat,outcome.left,originOf session piVersion outcome⟩ := by
        show (stageOf (said (.replace lock .venue VENUE_PENDING) true :: log)).place _ _ _ = _
        rw [same]
        rfl
      refine conducts_issue ⟨_,placed⟩ ?_
      intro found
      split
      · exact conducts_done trivial
      · exact sidecars_conduct rfl (stands_issue (.inspect (.promotion lock session.handed)) found placed rfl)

theorem promoteSession_conducts (outside : stageOf log = .outside) :
    (promoteSession config session piVersion outcome).Conducts (May config) (fun _ _ => True) log := by
  unfold promoteSession
  split
  · exact conducts_done trivial
  · refine conducts_issue outside ?_
    intro taken
    cases taken with
    | none => exact conducts_done trivial
    | some lock =>
      refine Program.conducts_bind (promoteLocked_conducts rfl) ?_
      intro promoted log' _
      exact conducts_issue trivial fun _ => conducts_done trivial

theorem runJob_conducts (job : Job) : (runJob config job).Conducts (May config) (fun _ _ => True) [] := by
  refine Program.conducts_bind resolveSession_conducts ?_
  intro result log given
  cases result with
  | none => exact conducts_done trivial
  | some session =>
    refine conducts_issue (given.resumed session rfl) ?_
    intro left
    cases left with
    | none => exact conducts_done trivial
    | some outcome => exact promoteSession_conducts given.outside

end Promoting

end PiDispatch.SessionStore
