import PiDispatch.SessionStoreRuns

/-! The bound on a chain of resumes: the counter beside a transcript against the resumes its conversation has had, in every
interleaving of the jobs of a key. -/
namespace PiDispatch.SessionStore
open Kernel

variable {B : Type} {config : Config B} {store next : Store B} {log : Log B} {command : Command B} {answer : command.Answer}

section Numbers

theorem spelled_repr (number : Nat) : spelled (Nat.repr number) = some number := by
  have back : Nat.ofDigitChars 10 (Nat.repr number).toList 0 = number := by
    rw [show (Nat.repr number).toList = Nat.toDigits 10 number from String.toList_ofList]
    exact Nat.ofDigitChars_toDigits (by decide) (by decide)
  unfold spelled
  dsimp only
  rw [back,if_pos rfl]

theorem chainOf_repr (number : Nat) : chainOf (some (Nat.repr number)) = number := by
  unfold chainOf
  rw [Option.bind_some,spelled_repr]
  rfl

private theorem digit_solid {letter : Char} (digit : letter.isDigit = true) : isBlank letter = false := by
  refine proper_solid ?_
  rw [digit]
  simp

theorem trim_repr (number : Nat) : trim (Nat.repr number) = Nat.repr number := by
  refine trim_solid _ ?_
  intro letter member
  rw [show (Nat.repr number).toList = Nat.toDigits 10 number from String.toList_ofList] at member
  exact digit_solid (Nat.isDigit_of_mem_toDigits (by decide) (by decide) member)

private theorem letters_size (letters : List Char) : (String.ofList letters).utf8ByteSize ≤ 4 * letters.length := by
  induction letters with
  | nil => exact Nat.le_refl _
  | cons letter rest ih =>
    have shape : String.ofList (letter :: rest) = String.singleton letter ++ String.ofList rest := by
      rw [← String.toList_inj]
      simp
    rw [shape,String.utf8ByteSize_append,List.length_cons,String.utf8ByteSize_singleton]
    have most := Char.utf8Size_le_four letter
    omega

/-- A counter that a promotion may have written is no longer than a sidecar may be. -/
theorem repr_size {number : Nat} (safe : number ≤ MAX_SAFE_INTEGER) :
    (Nat.repr number).utf8ByteSize ≠ 0 ∧ (Nat.repr number).utf8ByteSize ≤ SIDECAR_MAX_BYTES := by
  have few : (Nat.toDigits 10 number).length ≤ 16 :=
    Nat.toDigits_length 10 number 16 (by decide) (Nat.lt_of_le_of_lt safe (by decide))
  have most := letters_size (Nat.toDigits 10 number)
  constructor
  · intro none
    have empty : Nat.repr number = "" := String.utf8ByteSize_eq_zero_iff.mp none
    have digits : (Nat.repr number).toList = [] := by rw [empty]; rfl
    rw [show (Nat.repr number).toList = Nat.toDigits 10 number from String.toList_ofList] at digits
    exact Nat.toDigits_ne_nil digits
  · have same : (Nat.repr number).utf8ByteSize = (String.ofList (Nat.toDigits 10 number)).utf8ByteSize := rfl
    unfold SIDECAR_MAX_BYTES
    omega

end Numbers

section Counter

/-- The counter is read by a gate only once the promotion of the transcript in place has written it, and by a promotion
only while it is not below the depth of what the job was handed. -/
def Counting (store : Store B) (command : Command B) (answer : command.Answer) : Prop :=
  Fresh store command answer ∧ match command with
    | .stat .gate .resumeChain | .read .gate .resumeChain => store.transcript.isSome → store.counted = true
    | .stat (.promotion _ handed) .resumeChain | .read (.promotion _ handed) .resumeChain =>
      handed ≤ chainOf (store.texts .resumeChain) ∧ chainOf (store.texts .resumeChain) < MAX_SAFE_INTEGER
    | _ => True

/-- The counter beside a transcript that has been counted. -/
structure Counted (store : Store B) : Prop where
  spelled : ∀ text, store.texts .resumeChain = some text → ∃ number ≤ MAX_SAFE_INTEGER, text = Nat.repr number
  deep : ∀ file, store.transcript = some file → store.counted = true →
    ∃ number, store.texts .resumeChain = some (Nat.repr number) ∧ file.origin.depth ≤ number

/-- What the gates were told of the counter of the transcript in place. -/
def Counts (file : File B) (command : Command B) (answer : command.Answer) : Prop :=
  match command,answer with
  | .stat .gate .resumeChain,found => ∃ size, found = some size ∧ size ≠ 0 ∧ size ≤ SIDECAR_MAX_BYTES
  | .read .gate .resumeChain,found => ∃ number, found = some (Nat.repr number) ∧ file.origin.depth ≤ number
  | _,_ => True

/-- What a promotion was told of the counter, and which transcripts were opened. -/
def Recounted (store : Store B) (command : Command B) (answer : command.Answer) : Prop :=
  match command,answer with
  | .stat (.promotion _ handed) .resumeChain,found =>
    handed = 0 ∨ ∃ size, found = some size ∧ size ≠ 0 ∧ size ≤ SIDECAR_MAX_BYTES
  | .read (.promotion _ handed) .resumeChain,found => found = none ∧ handed = 0 ∨
      ∃ number, found = some (Nat.repr number) ∧ handed ≤ number ∧ number < MAX_SAFE_INTEGER
  | .openTranscript,some file => file ∈ store.placed
  | _,_ => True

private theorem counts_quiet (file : File B) (command : Command B) (answer : command.Answer) (quiet : ¬ Noted command) :
    Counts file command answer := by
  unfold Counts
  split
  · exact absurd trivial quiet
  · exact absurd trivial quiet
  · trivial

private theorem counts_told (counted : Counted store) (rule : Counting store command answer)
    (served : Serves store command answer next) {file : File B} (current : store.transcript = some file) :
    Counts file command answer := by
  have present : store.transcript.isSome := by rw [current]; rfl
  unfold Counts
  split
  · obtain ⟨_,answered,_⟩ := served
    obtain ⟨number,text,_⟩ := counted.deep file current (rule.2 present)
    obtain ⟨number',safe,same⟩ := counted.spelled _ text
    rw [text,same] at answered
    exact ⟨_,answered,repr_size safe⟩
  · obtain ⟨_,answered,_⟩ := served
    obtain ⟨number,text,deep⟩ := counted.deep file current (rule.2 present)
    exact ⟨number,answered.trans text,deep⟩
  · trivial

private theorem recounted_later (replaces : Replaces store next) (command : Command B) (answer : command.Answer)
    (recounted : Recounted store command answer) : Recounted next command answer := by
  unfold Recounted at recounted ⊢
  split
  · exact recounted
  · exact recounted
  · exact replaces.kept _ recounted
  · trivial

private theorem recounted_answered (sound : Sound store) (counted : Counted store) (rule : Counting store command answer)
    (served : Serves store command answer next) : Recounted next command answer := by
  unfold Recounted
  split
  next lock handed found =>
    obtain ⟨_,answered,_⟩ := served
    cases text : store.texts .resumeChain with
    | none =>
      have least := rule.2.1
      rw [text] at least
      exact .inl (Nat.le_zero.mp least)
    | some written =>
      obtain ⟨number,safe,rfl⟩ := counted.spelled written text
      rw [text] at answered
      exact .inr ⟨_,answered,repr_size safe⟩
  next lock handed found =>
    obtain ⟨_,answered,_⟩ := served
    obtain ⟨least,less⟩ := rule.2
    cases text : store.texts .resumeChain with
    | none =>
      rw [text] at least
      exact .inl ⟨answered.trans text,Nat.le_zero.mp least⟩
    | some written =>
      obtain ⟨number,_,rfl⟩ := counted.spelled written text
      rw [text,chainOf_repr] at least less
      exact .inr ⟨number,answered.trans text,least,less⟩
  · obtain ⟨answered,rfl⟩ := served
    exact sound.mem answered.symm
  · trivial

/-- What a promotion read of the counter is not below what its job was handed. -/
private theorem readChain_handed {lock handed chain : Nat} (read : ReadChain (.promotion lock handed) chain log)
    (recounted : ∀ command answer, said command answer ∈ log → Recounted store command answer) :
    handed ≤ chain ∧ chain < MAX_SAFE_INTEGER := by
  obtain ⟨raw,read,rfl⟩ := read
  rcases read with ⟨absent,rfl⟩ | ⟨size,present,bad,rfl⟩ | ⟨text,heard,rfl⟩
  · rcases recounted _ _ absent with rfl | ⟨_,none,_⟩
    · exact ⟨Nat.le_refl _,by decide⟩
    · cases none
  · rcases recounted _ _ present with rfl | ⟨size',same,filled,short⟩
    · exact ⟨Nat.le_refl _,by decide⟩
    · cases same
      rcases bad with empty | long
      · exact absurd empty filled
      · exact absurd short (Nat.not_le.mpr long)
  · rcases recounted _ _ heard with ⟨rfl,rfl⟩ | ⟨number,rfl,least,less⟩
    · exact ⟨Nat.le_refl _,by decide⟩
    · rw [Option.map_some,trim_repr,chainOf_repr]
      exact ⟨least,less⟩

/-- What a gate read of the counter is not below the depth of the transcript it was told of. -/
private theorem readChain_gate {file : File B} {chain : Nat} (read : ReadChain .gate chain log)
    (told : ∀ command answer, said command answer ∈ log → Counts file command answer) : file.origin.depth ≤ chain := by
  obtain ⟨raw,read,rfl⟩ := read
  rcases read with ⟨absent,rfl⟩ | ⟨size,present,bad,rfl⟩ | ⟨text,heard,rfl⟩
  · obtain ⟨_,none,_⟩ := told _ _ absent
    cases none
  · obtain ⟨size',same,filled,short⟩ := told _ _ present
    cases same
    rcases bad with empty | long
    · exact absurd empty filled
    · exact absurd short (Nat.not_le.mpr long)
  · obtain ⟨number,rfl,deep⟩ := told _ _ heard
    rw [Option.map_some,trim_repr,chainOf_repr]
    exact deep

end Counter
section Chains

private theorem counted_same (counted : Counted store) (texts : next.texts .resumeChain = store.texts .resumeChain)
    (transcript : next.transcript = store.transcript) (flag : next.counted = store.counted) : Counted next := by
  refine ⟨?_,?_⟩
  · rw [texts]
    exact counted.spelled
  · rw [texts,transcript,flag]
    exact counted.deep

private theorem counted_put {lock : Nat} {file : File B} {text : String} (current : store.transcript = some file)
    (fits : Fits lock file .resumeChain text log)
    (recounted : ∀ command answer, said command answer ∈ log → Recounted store command answer) :
    Counted (store.put .resumeChain text) := by
  have written : (store.put .resumeChain text).texts .resumeChain = some text :=
    store.put_self .resumeChain text
  have number : ∃ number ≤ MAX_SAFE_INTEGER, text = Nat.repr number ∧ file.origin.depth ≤ number := by
    rcases fits with ⟨rfl,fresh⟩ | ⟨chain,handed,rfl,depth,read⟩
    · exact ⟨0,Nat.zero_le _,rfl,Nat.le_of_eq fresh⟩
    · obtain ⟨least,less⟩ := readChain_handed read recounted
      exact ⟨chain + 1,less,rfl,by omega⟩
  obtain ⟨number,safe,rfl,deep⟩ := number
  refine ⟨?_,?_⟩
  · intro other same
    obtain rfl := Option.some.inj (written.symm.trans same)
    exact ⟨number,safe,rfl⟩
  · intro file' current' _
    have current' : store.transcript = some file' := current'
    obtain rfl := Option.some.inj (current.symm.trans current')
    exact ⟨number,written,deep⟩

private theorem counted_answered (counted : Counted store) (mine : Mine store log) (may : May config log command)
    (recounted : ∀ command answer, said command answer ∈ log → Recounted store command answer)
    (served : Serves store command answer next) : Counted next := by
  cases command with
  | inspect asker => exact served.2.2 ▸ counted
  | stat asker name => exact served.2.2 ▸ counted
  | read asker name => exact served.2.2 ▸ counted
  | readParked => exact served.2 ▸ counted
  | readTranscript => exact served.2 ▸ counted
  | openTranscript => exact served.2 ▸ counted
  | handOver job session =>
    obtain rfl := served
    exact counted
  | takeLock =>
    obtain ⟨_,rfl⟩ | ⟨_,rfl⟩ := served
    · exact counted
    · exact counted_same counted rfl rfl rfl
  | replace lock name text =>
    obtain ⟨holds,⟨_,rfl⟩ | ⟨_,rfl⟩⟩ := served
    · by_cases own : name = .resumeChain
      · subst own
        rcases may with ⟨_,other,_⟩ | ⟨file,placed,fits⟩
        · cases other
        · exact counted_put (mine.placed lock file placed holds) fits recounted
      · refine counted_same counted (store.put_other text (Ne.symm own)) rfl ?_
        show (store.counted || name == .resumeChain) = store.counted
        rw [show (name == Name.resumeChain) = false from decide_eq_false own,Bool.or_false]
    · exact counted
  | unlink lock name =>
    obtain ⟨rfl,_⟩ := may
    obtain ⟨_,rfl | rfl⟩ := served
    · exact counted_same counted (store.remove_other (by decide)) rfl rfl
    · exact counted
  | replaceParked lock mark =>
    obtain ⟨_,⟨_,rfl⟩ | ⟨_,rfl⟩⟩ := served
    · exact counted_same counted rfl rfl rfl
    · exact counted
  | unlinkParked lock =>
    obtain ⟨_,rfl | rfl⟩ := served
    · exact counted_same counted rfl rfl rfl
    · exact counted
  | swap lock bytes origin =>
    obtain ⟨_,⟨_,rfl⟩ | ⟨stat,_,rfl⟩⟩ := served
    · exact counted
    · exact ⟨counted.spelled,fun _ _ none => by cases none⟩
  | releaseLock lock =>
    obtain ⟨_,rfl | rfl⟩ := served
    · exact counted_same counted rfl rfl rfl
    · exact counted

/-- The jobs of a key in any interleaving, each operation within the rule. -/
abbrev Jobs (config : Config B) (rule : Store B → (command : Command B) → command.Answer → Prop) :
    Agency (FileSystem B) (Store B) (Watched (FileSystem B) Bool) :=
  watched (Under rule) fun program => ∃ job, program = runJob config job

private theorem chains_true {world : World (Store B) (Watched (FileSystem B) Bool)}
    (reached : Reachable (Jobs config Counting) Store.empty world) :
    (Held world.store (world.agents.map Watched.heard) ∧ Counted world.store ∧
      Known Recounted world.store (world.agents.map Watched.heard) ∧
      ∀ log ∈ world.agents.map Watched.heard, Truth Counts world.store log) ∧
      ∀ agent ∈ world.agents, agent.program.Conducts (May config) (fun _ _ => True) agent.heard ∧
        Lawful (May config) agent.heard := by
  refine watched_keep (fun store all => Held store all ∧ Counted store ∧ Known Recounted store all ∧
    ∀ log ∈ all, Truth Counts store log) ?_ ?_ ?_ ?_ reached
  · rintro _ ⟨job,rfl⟩
    exact runJob_conducts job
  · intro store all ⟨held,counted,known,truths⟩
    refine ⟨held.enter,counted,known_enter known,?_⟩
    intro log member
    rcases List.mem_append.mp member with old | new
    · exact truths log old
    · rw [List.mem_singleton.mp new]
      exact fun stat none => absurd none List.not_mem_nil
  · intro store next before log after command answer ⟨held,counted,known,truths⟩ may ⟨rule,served⟩
    have replaces := served_replaces rule.1 served
    refine ⟨held.answered may rule.1 served,
      counted_answered counted (held.mine log (by simp)) may (fun _ _ heard => known log (by simp) _ heard) served,
      known_answered known (recounted_later replaces) (recounted_answered held.sound counted rule served),?_⟩
    intro other member
    rcases List.mem_append.mp member with left | right
    · exact (truths other (List.mem_append_left _ left)).later replaces
    rcases List.mem_cons.mp right with rfl | right
    · exact (truths log (by simp)).answered counts_quiet held.sound may rule.1 served
        fun file current _ => counts_told counted rule served current
    · exact (truths other (List.mem_append_right _ (List.mem_cons_of_mem _ right))).later replaces
  · refine ⟨held_empty,⟨?_,?_⟩,fun _ none => absurd none List.not_mem_nil,fun _ none => absurd none List.not_mem_nil⟩
    · intro text none
      cases none
    · intro file none
      cases none

/-- Where no promotion finds the counter below what its job was handed, and no gate reads the counter of an earlier
transcript, the counter beside a transcript is never below its depth, and no conversation is handed over more than
`maxResumeChain` times in a row. -/
theorem chain_bounds {world : World (Store B) (Watched (FileSystem B) Bool)} (bounded : 0 < config.maxResumeChain)
    (reached : Reachable (Jobs config Counting) Store.empty world) :
    (∀ file, world.store.transcript = some file → world.store.counted = true →
      file.origin.depth ≤ chainOf (world.store.texts .resumeChain)) ∧
    ∀ agent ∈ world.agents, ∀ job session left, said (.handOver job session) left ∈ agent.heard → session.resume = true →
      ∃ file ∈ world.store.placed, session.staged = some file ∧ file.origin.depth < config.maxResumeChain := by
  obtain ⟨⟨held,counted,known,truths⟩,conducts⟩ := chains_true reached
  refine ⟨?_,?_⟩
  · intro file current flag
    obtain ⟨number,text,deep⟩ := counted.deep file current flag
    rw [text,chainOf_repr]
    exact deep
  · intro agent member job session left handed resumes
    have listed : agent.heard ∈ world.agents.map Watched.heard := List.mem_map_of_mem member
    obtain ⟨later,earlier,shape⟩ := List.append_of_mem handed
    have lawful := (conducts agent member).2
    rw [shape] at lawful
    obtain ⟨stat,file,staged,passed,copied,_⟩ := (lawful_at lawful resumes).passed
    have inside : ∀ heard ∈ earlier, heard ∈ agent.heard := by
      intro heard before
      rw [shape]
      exact List.mem_append_right _ (List.mem_cons_of_mem _ before)
    obtain ⟨found,placed,same,told⟩ := truths agent.heard listed stat (inside _ passed.found)
    have opened : file ∈ world.store.placed := known agent.heard listed _ (inside _ copied.bytes)
    obtain rfl : found = file := held.sound.same placed opened (same.trans copied.same.symm)
    obtain ⟨chain,less,read⟩ := passed.chain bounded
    have deep := readChain_gate read fun command answer before =>
      told (.inr (inside _ copied.still)) command answer (inside _ before)
    exact ⟨found,placed,staged,Nat.lt_of_le_of_lt deep less⟩

end Chains
section Examples

def twiceConfig : Config Unit := { plainConfig with maxResumeChain := 2 }

/-- So many jobs, and the turns they take. -/
def interleaved (count : Nat) (order : List Nat) : World (Store Unit) (Watched (FileSystem Unit) Bool) :=
  (Jobs twiceConfig Fresh).turns (answering completed fun _ _ => false)
    ⟨.empty,List.replicate count ⟨runJob twiceConfig (jobOf firstPi),[]⟩⟩ order

private theorem entered_jobs {rule : Store Unit → (command : Command Unit) → command.Answer → Prop} (count : Nat) :
    Reachable (Jobs twiceConfig rule) Store.empty
      ⟨.empty,List.replicate count ⟨runJob twiceConfig (jobOf firstPi),[]⟩⟩ := by
  refine reachable_entered _ _ _ ?_
  intro agent member
  rw [List.eq_of_mem_replicate member]
  exact ⟨⟨jobOf firstPi,rfl⟩,rfl⟩

/-- No write fails. -/
def Faultless (store : Store B) (command : Command B) (answer : command.Answer) : Prop :=
  Fresh store command answer ∧ match command,answer with
    | .replace _ _ _,written => written = true
    | .replaceParked _ _,written => written = true
    | .swap _ _ _,stat => stat.isSome
    | _,_ => True

private theorem answering_faultless (store : Store Unit) (command : Command Unit) (free : ready store command = true) :
    Under Faultless store command (answering completed (fun _ _ => false) store command).1
      (answering completed (fun _ _ => false) store command).2 := by
  obtain ⟨fresh,serves⟩ := answering_serves completed (fun _ _ => false) store command free
  refine ⟨⟨fresh,?_⟩,serves⟩
  cases command with
  | replace lock name text => rfl
  | replaceParked lock mark => rfl
  | swap lock bytes origin => rfl
  | _ => trivial

private def countingToo (store : Store Unit) (command : Command Unit) : Bool :=
  ready store command && match command with
    | .stat .gate .resumeChain | .read .gate .resumeChain => store.counted
    | .stat (.promotion _ handed) .resumeChain | .read (.promotion _ handed) .resumeChain =>
      handed ≤ chainOf (store.texts .resumeChain) && chainOf (store.texts .resumeChain) < MAX_SAFE_INTEGER
    | _ => true

private theorem countingToo_serves (store : Store Unit) (command : Command Unit) (checked : countingToo store command = true) :
    Under Counting store command (answering completed (fun _ _ => false) store command).1
      (answering completed (fun _ _ => false) store command).2 := by
  obtain ⟨free,own⟩ := Bool.and_eq_true_iff.mp checked
  obtain ⟨fresh,serves⟩ := answering_serves completed (fun _ _ => false) store command free
  refine ⟨⟨fresh,?_⟩,serves⟩
  split
  · exact fun _ => own
  · exact fun _ => own
  · exact ⟨of_decide_eq_true (Bool.and_eq_true_iff.mp own).1,of_decide_eq_true (Bool.and_eq_true_iff.mp own).2⟩
  · exact ⟨of_decide_eq_true (Bool.and_eq_true_iff.mp own).1,of_decide_eq_true (Bool.and_eq_true_iff.mp own).2⟩
  · trivial

def turnsOf (turns : List (Nat × Nat)) : List Nat := turns.flatMap fun turn => List.replicate turn.2 turn.1

def resumedOnce : World (Store Unit) (Watched (FileSystem Unit) Bool) := interleaved 2 (turnsOf [(0,40),(1,40)])

theorem chain_second : handedTo resumedOnce 1 ≠ none ∧ ∀ agent ∈ resumedOnce.agents, ∀ job session left,
    said (.handOver job session) left ∈ agent.heard → session.resume = true →
    ∃ file ∈ resumedOnce.store.placed, session.staged = some file ∧ file.origin.depth < 2 := by
  have reached : Reachable (Jobs twiceConfig Counting) Store.empty resumedOnce :=
    reachable_passes (Jobs twiceConfig Counting) (answering completed fun _ _ => false) countingToo countingToo_serves _
      (entered_jobs 2) (by decide +kernel)
  refine ⟨?_,(chain_bounds (by decide) reached).2⟩
  have handed : (handedTo resumedOnce 1).isSome := by decide +kernel
  intro none
  rw [none] at handed
  cases handed

/-- A cold start and a resume are promoted after another job was handed a transcript that had been resumed once. -/
def overlapped : World (Store Unit) (Watched (FileSystem Unit) Bool) :=
  interleaved 5 (turnsOf [(0,2),(1,40),(2,40),(3,16),(0,40),(3,40),(4,16)])

theorem overlapped_deep :
    (¬ ∀ (config : Config Unit) (world : World (Store Unit) (Watched (FileSystem Unit) Bool)), 0 < config.maxResumeChain →
      Reachable (Jobs config Faultless) Store.empty world → ∀ file, world.store.transcript = some file →
        world.store.counted = true → file.origin.depth ≤ chainOf (world.store.texts .resumeChain)) ∧
    ¬ ∀ (config : Config Unit) (world : World (Store Unit) (Watched (FileSystem Unit) Bool)), 0 < config.maxResumeChain →
      Reachable (Jobs config Faultless) Store.empty world → ∀ agent ∈ world.agents, ∀ job session left,
        said (.handOver job session) left ∈ agent.heard → session.resume = true →
        ∃ file, session.staged = some file ∧ file.origin.depth < config.maxResumeChain := by
  have reached : Reachable (Jobs twiceConfig Faultless) Store.empty overlapped :=
    reachable_passes (Jobs twiceConfig Faultless) (answering completed fun _ _ => false) ready answering_faultless _
      (entered_jobs 5) (by decide +kernel)
  constructor
  · intro claimed
    have deep : overlapped.store.transcript.any fun file => overlapped.store.counted &&
        decide (chainOf (overlapped.store.texts .resumeChain) < file.origin.depth) := by decide +kernel
    obtain ⟨file,current,both⟩ := (Option.any_eq_true _ _).mp deep
    obtain ⟨flag,less⟩ := Bool.and_eq_true_iff.mp both
    exact absurd (claimed twiceConfig overlapped (by decide) reached file current flag)
      (Nat.not_le.mpr (of_decide_eq_true less))
  · intro claimed
    have thrice : (handedTo overlapped 4).any fun handed => handed.2.resume &&
        handed.2.staged.all fun file => decide (2 ≤ file.origin.depth) := by decide +kernel
    obtain ⟨⟨job,session⟩,found,both⟩ := (Option.any_eq_true _ _).mp thrice
    obtain ⟨resumes,deep⟩ := Bool.and_eq_true_iff.mp both
    obtain ⟨agent,member,left,handed⟩ := handedTo_said found
    obtain ⟨file,staged,less⟩ := claimed twiceConfig overlapped (by decide) reached agent member job session left handed resumes
    have deep : session.staged.all (fun file => decide (2 ≤ file.origin.depth)) = true := deep
    rw [staged] at deep
    exact absurd less (Nat.not_lt.mpr (of_decide_eq_true deep))

end Examples

end PiDispatch.SessionStore
