import PiDispatch.RunProgress

/-! Where the steps of an attempt go. Every call that opens a step is closed by its result, closed by a recovery mark, dropped
as the oldest, or open at the end, and a line that is read again changes nothing unless it closes an open step. -/
namespace PiDispatch.RunProgress
open Kernel Utf16

section Calls
variable {K V : Type} [DecidableEq K] {calls : Dict K V}

private theorem erase_length {key : K} {value : V} (found : calls.get? key = some value) :
    (calls.erase key).entries.length + 1 = calls.entries.length :=
  (Dict.entries_perm_erase calls key value found).length_eq.symm

private theorem erase_length_le (key : K) : (calls.erase key).entries.length ≤ calls.entries.length :=
  List.length_filter_le ..

private theorem set_length {key : K} (value : V) (absent : calls.get? key = none) :
    (calls.set key value).entries.length = calls.entries.length + 1 := by
  have keys := congrArg List.length (Dict.keys_set_absent calls value ((Dict.get?_eq_none_iff calls key).mp absent))
  rw [List.length_append,List.length_singleton] at keys
  unfold Dict.keys at keys
  rw [List.length_map,List.length_map] at keys
  exact keys

private theorem dropFirst_length (calls : Dict K V) : (dropFirst calls).entries.length = calls.entries.length - 1 := by
  unfold dropFirst
  cases shape : calls.entries with
  | nil =>
    have none' : calls.keys.head? = none := by
      unfold Dict.keys
      rw [shape]
      rfl
    rw [none']
    change calls.entries.length = _
    rw [shape]
    rfl
  | cons entry rest =>
    have first : calls.keys.head? = some entry.1 := by
      unfold Dict.keys
      rw [shape]
      rfl
    have found : calls.get? entry.1 = some entry.2 :=
      (Dict.get?_eq_some_iff calls entry.1 entry.2).mpr (by rw [shape]; exact List.mem_cons_self)
    have length := erase_length found
    rw [shape,List.length_cons] at length
    rw [first,List.length_cons]
    change (calls.erase entry.1).entries.length = _
    omega

private theorem dropPast_length (most : Nat) {rounds : Nat} {calls : Dict K V} (enough : calls.entries.length ≤ rounds) :
    (dropPast most rounds calls).entries.length ≤ most := by
  induction rounds generalizing calls with
  | zero =>
    change calls.entries.length ≤ most
    omega
  | succ rounds ih =>
    unfold dropPast
    split
    · have fewer := dropFirst_length calls
      exact ih (by omega)
    · omega

end Calls

section Bounds
variable {state : Progress}

/-- What the reducer keeps is within its caps. -/
structure Bounded (state : Progress) : Prop where
  openSteps : state.openSteps.entries.length ≤ PROGRESS_OPEN_MAX
  recent : state.recent.length ≤ PROGRESS_RECENT_MAX
  phases : state.phases.length ≤ PROGRESS_PHASES_MAX
  priorPhaseCalls : state.priorPhaseCalls.entries.length ≤ PROGRESS_OPEN_MAX

private theorem Bounded.touch (bounded : Bounded state) (now : Nat) : Bounded (state.touch now) :=
  ⟨bounded.openSteps,bounded.recent,bounded.phases,bounded.priorPhaseCalls⟩

private theorem Bounded.pushRecent (bounded : Bounded state) (entry : Recent) : Bounded (state.pushRecent entry) := by
  refine ⟨bounded.openSteps,?_,bounded.phases,bounded.priorPhaseCalls⟩
  change (List.drop _ _).length ≤ PROGRESS_RECENT_MAX
  rw [List.length_drop]
  omega

/-- What a phase report does: the phase of a known name, nothing but a count past the cap, or a new name. -/
private theorem applyPhase_cases (state : Progress) (report : Report) (withNote : Bool) :
    (∃ phase note, state.applyPhase report withNote = { state with phase := phase, note := note }) ∨
      state.applyPhase report withNote = { state with phaseRefused := state.phaseRefused + 1 } ∨
      ∃ phase note, state.phases.length < PROGRESS_PHASES_MAX ∧ state.applyPhase report withNote =
        { state with phases := state.phases ++ [report.name], phase := phase, note := note } := by
  unfold Progress.applyPhase
  cases state.phases.idxOf? report.name with
  | some index => exact .inl ⟨_,_,rfl⟩
  | none =>
    by_cases full : state.phases.length ≥ PROGRESS_PHASES_MAX
    · exact .inr (.inl (if_pos full))
    · exact .inr (.inr ⟨_,_,by omega,if_neg full⟩)

private theorem Bounded.applyPhase (bounded : Bounded state) (report : Report) (withNote : Bool) :
    Bounded (state.applyPhase report withNote) := by
  obtain ⟨openSteps,recent,phases,calls⟩ := bounded
  rcases applyPhase_cases state report withNote with ⟨_,_,own⟩ | own | ⟨_,_,room,own⟩
  all_goals rw [own]
  · exact ⟨openSteps,recent,phases,calls⟩
  · exact ⟨openSteps,recent,phases,calls⟩
  · refine ⟨openSteps,recent,?_,calls⟩
    change (state.phases ++ [report.name]).length ≤ _
    rw [List.length_append,List.length_singleton]
    exact room

end Bounds

section Counts
variable {state next : Progress} {opened marked : Nat}

/-- The steps of a bucket. -/
def toolCount (state : Progress) (tool : String) : Nat := (state.tools.get? tool).getD 0

/-- Where the steps have gone that calls have opened, and marks closed. -/
structure Balanced (state : Progress) (opened marked : Nat) : Prop where
  steps : opened = state.steps + state.evicted + marked + state.openSteps.entries.length
  tools : state.steps = (BUCKETS.map (toolCount state)).sum
  failed : state.failed ≤ state.steps
  buckets : ∀ step ∈ state.openSteps.values, step.bucket ∈ BUCKETS
  going : state.ended = false

/-- A change that counts no step. -/
structure Same (state next : Progress) : Prop where
  steps : next.steps = state.steps
  failed : next.failed = state.failed
  evicted : next.evicted = state.evicted
  tools : next.tools = state.tools
  openSteps : next.openSteps = state.openSteps
  ended : next.ended = state.ended

private theorem Balanced.same (balanced : Balanced state opened marked) (same : Same state next) :
    Balanced next opened marked := by
  obtain ⟨steps,tools,failed,buckets,going⟩ := balanced
  refine ⟨?_,?_,?_,?_,same.ended.trans going⟩
  · rw [same.steps,same.evicted,same.openSteps]
    exact steps
  · unfold toolCount
    rw [same.steps,same.tools]
    exact tools
  · rw [same.failed,same.steps]
    exact failed
  · rw [same.openSteps]
    exact buckets

private theorem Same.trans {last : Progress} (one : Same state next) (two : Same next last) : Same state last :=
  ⟨two.steps.trans one.steps,two.failed.trans one.failed,two.evicted.trans one.evicted,two.tools.trans one.tools,
    two.openSteps.trans one.openSteps,two.ended.trans one.ended⟩

private theorem touch_same (state : Progress) (now : Nat) : Same state (state.touch now) := ⟨rfl,rfl,rfl,rfl,rfl,rfl⟩

private theorem pushRecent_same (state : Progress) (entry : Recent) : Same state (state.pushRecent entry) :=
  ⟨rfl,rfl,rfl,rfl,rfl,rfl⟩

private theorem applyPhase_same (state : Progress) (report : Report) (withNote : Bool) :
    Same state (state.applyPhase report withNote) := by
  rcases applyPhase_cases state report withNote with ⟨_,_,own⟩ | own | ⟨_,_,_,own⟩
  all_goals
    rw [own]
    exact ⟨rfl,rfl,rfl,rfl,rfl,rfl⟩

/-- One more in a list without repetitions. -/
private theorem sum_bumped {α : Type} {list : List α} {count more : α → Nat} {one : α} (distinct : list.Nodup)
    (inside : one ∈ list) (own : more one = count one + 1) (others : ∀ other, other ≠ one → more other = count other) :
    (list.map more).sum = (list.map count).sum + 1 := by
  induction list with
  | nil => cases inside
  | cons first list ih =>
    obtain ⟨fresh,distinct⟩ := List.nodup_cons.mp distinct
    rw [List.map_cons,List.map_cons,List.sum_cons,List.sum_cons]
    rcases List.mem_cons.mp inside with rfl | later
    · have same : list.map more = list.map count :=
        List.map_congr_left fun other among => others other fun equal => fresh (equal ▸ among)
      rw [own,same]
      omega
    · have apart : first ≠ one := fun equal => fresh (equal ▸ later)
      rw [others first apart,ih distinct later]
      omega

end Counts

section Lines
variable {N : Type} {safe? : N → Option Int} {redact : Units → Option Units} {phasesEnabled : Bool}
variable {state : Progress} {opened marked : Nat}

private theorem recordToolOf_bucket (name : Option (JsonValue N)) : recordToolOf name ∈ BUCKETS := by
  unfold recordToolOf BUCKETS
  cases found : PROGRESS_RECORD_TOOLS.find? fun tool => said name tool with
  | none => exact List.mem_append_right _ (List.mem_singleton.mpr rfl)
  | some tool => exact List.mem_append_left _ (List.mem_of_find?_eq_some found)

private theorem priorPart_length {calls : Dict Units Report} (few : calls.entries.length ≤ PROGRESS_OPEN_MAX)
    (part : JsonValue N) : (priorPart safe? redact calls part).entries.length ≤ PROGRESS_OPEN_MAX := by
  unfold priorPart
  split
  · split
    · exact dropPast_length _ le_rfl
    · exact few
  · exact few

private theorem priorParts_length (content : List (JsonValue N)) {calls : Dict Units Report}
    (few : calls.entries.length ≤ PROGRESS_OPEN_MAX) :
    (content.foldl (priorPart safe? redact) calls).entries.length ≤ PROGRESS_OPEN_MAX := by
  induction content generalizing calls with
  | nil => exact few
  | cons part content ih => exact ih (priorPart_length few part)

private theorem consumePrior_kept (state : Progress) (message : JsonValue N) :
    Same state (consumePrior safe? redact phasesEnabled state message) ∧
      (Bounded state → Bounded (consumePrior safe? redact phasesEnabled state message)) := by
  unfold consumePrior
  dsimp only
  split
  · split
    next content _ =>
      split
      · exact ⟨⟨rfl,rfl,rfl,rfl,rfl,rfl⟩,fun bounded =>
          ⟨bounded.openSteps,bounded.recent,bounded.phases,priorParts_length content bounded.priorPhaseCalls⟩⟩
      · exact ⟨⟨rfl,rfl,rfl,rfl,rfl,rfl⟩,fun bounded =>
          ⟨bounded.openSteps,bounded.recent,bounded.phases,bounded.priorPhaseCalls⟩⟩
    · exact ⟨⟨rfl,rfl,rfl,rfl,rfl,rfl⟩,fun bounded =>
        ⟨bounded.openSteps,bounded.recent,bounded.phases,bounded.priorPhaseCalls⟩⟩
  · split
    · have counted : ∀ calls : Dict Units Report, calls.entries.length ≤ state.priorPhaseCalls.entries.length →
          Same state { state with prior := ⟨state.prior.turns,state.prior.steps + 1,true⟩, priorPhaseCalls := calls } ∧
          (Bounded state →
            Bounded { state with prior := ⟨state.prior.turns,state.prior.steps + 1,true⟩, priorPhaseCalls := calls }) :=
        fun calls fewer => ⟨⟨rfl,rfl,rfl,rfl,rfl,rfl⟩,fun bounded =>
          ⟨bounded.openSteps,bounded.recent,bounded.phases,fewer.trans bounded.priorPhaseCalls⟩⟩
      split
      next id _ =>
        split
        next report _ =>
          obtain ⟨same,bounds⟩ := counted (state.priorPhaseCalls.erase id) (erase_length_le id)
          split
          · exact ⟨same.trans (applyPhase_same _ report false),fun bounded => (bounds bounded).applyPhase report false⟩
          · exact ⟨same,bounds⟩
        · exact counted state.priorPhaseCalls le_rfl
      · exact counted state.priorPhaseCalls le_rfl
    · exact ⟨⟨rfl,rfl,rfl,rfl,rfl,rfl⟩,id⟩

/-- The calls of a message that open a step. -/
def acceptedIn (safe? : N → Option Int) (redact : Units → Option Units) (phasesEnabled dead : Bool) (at' : Nat) :
    Progress → List (JsonValue N) → Nat
  | _,[] => 0
  | state,part :: content =>
    (if said (part.field? (spell "type")) "toolCall" && (acceptedId state dead part).isSome then 1 else 0) +
      acceptedIn safe? redact phasesEnabled dead at' (openPart safe? redact phasesEnabled dead at' state part) content

private theorem acceptedId_fresh {dead : Bool} {part : JsonValue N} {id : Units} (own : acceptedId state dead part = some id) :
    state.openSteps.get? id = none := by
  have fits := (Option.filter_eq_some_iff.mp own).2
  exact Option.isNone_iff_eq_none.mp (Bool.and_eq_true_iff.mp fits).2

private theorem values_set {calls : Dict Units Step} {id : Units} {own : Step} {bucket : Step → Prop} (fits : bucket own)
    (others : ∀ step ∈ calls.values, bucket step) : ∀ step ∈ (calls.set id own).values, bucket step := by
  intro step inside
  obtain ⟨key,found⟩ := (Dict.mem_values_iff _ _).mp inside
  rw [Dict.get?_set] at found
  split at found
  · rw [← Option.some_inj.mp found]
    exact fits
  · exact others step ((Dict.mem_values_iff _ _).mpr ⟨key,found⟩)

private theorem values_dropFirst {calls : Dict Units Step} {bucket : Step → Prop}
    (each : ∀ step ∈ calls.values, bucket step) : ∀ step ∈ (dropFirst calls).values, bucket step := by
  unfold dropFirst
  split
  next key _ => exact fun step inside => each step ((Dict.values_erase calls key).subset inside)
  · exact each

private theorem openPart_balanced {dead : Bool} {at' : Nat} (balanced : Balanced state opened marked) (part : JsonValue N) :
    Balanced (openPart safe? redact phasesEnabled dead at' state part)
      (opened + if said (part.field? (spell "type")) "toolCall" && (acceptedId state dead part).isSome then 1 else 0) marked := by
  obtain ⟨steps,tools,failed,buckets,going⟩ := balanced
  unfold openPart
  split
  next call =>
    rw [call,Bool.true_and]
    split
    next id own =>
      have fresh := acceptedId_fresh own
      rw [own,Option.isSome_some,if_pos rfl]
      dsimp only
      generalize (if (phasesEnabled && said (part.field? (spell "name")) REPORT_PROGRESS_TOOL) = true then
        phaseArgsOf safe? redact (part.field? (spell "arguments")) else none) = report
      generalize held : (⟨_,_,at',report⟩ : Step) = step
      have bucket : step.bucket ∈ BUCKETS := held ▸ recordToolOf_bucket _
      have length := set_length step fresh
      have more : ∀ other ∈ (state.openSteps.set id step).values, other.bucket ∈ BUCKETS := values_set bucket buckets
      split
      · have fewer := dropFirst_length (state.openSteps.set id step)
        refine ⟨?_,tools,failed,values_dropFirst more,going⟩
        dsimp only
        omega
      · refine ⟨?_,tools,failed,more,going⟩
        dsimp only
        omega
    next none' =>
      rw [none']
      exact ⟨steps,tools,failed,buckets,going⟩
  next other =>
    rw [Bool.not_eq_true] at other
    rw [other]
    exact ⟨steps,tools,failed,buckets,going⟩

private theorem openPart_bounded {dead : Bool} {at' : Nat} (bounded : Bounded state) (part : JsonValue N) :
    Bounded (openPart safe? redact phasesEnabled dead at' state part) := by
  obtain ⟨openSteps,recent,phases,calls⟩ := bounded
  unfold openPart
  split
  · split
    next id own =>
      have fresh := acceptedId_fresh own
      dsimp only
      generalize (⟨_,_,at',_⟩ : Step) = step
      have length := set_length step fresh
      split
      · have fewer := dropFirst_length (state.openSteps.set id step)
        refine ⟨?_,recent,phases,calls⟩
        dsimp only
        omega
      next few => exact ⟨Nat.le_of_not_lt few,recent,phases,calls⟩
    · exact ⟨openSteps,recent,phases,calls⟩
  · exact ⟨openSteps,recent,phases,calls⟩

private theorem openParts_kept {dead : Bool} {at' : Nat} (content : List (JsonValue N)) (balanced : Balanced state opened marked)
    (bounded : Bounded state) :
    Balanced (content.foldl (openPart safe? redact phasesEnabled dead at') state)
      (opened + acceptedIn safe? redact phasesEnabled dead at' state content) marked ∧
    Bounded (content.foldl (openPart safe? redact phasesEnabled dead at') state) := by
  induction content generalizing state opened with
  | nil => exact ⟨balanced,bounded⟩
  | cons part content ih =>
    rw [List.foldl_cons,acceptedIn,← Nat.add_assoc]
    exact ih (openPart_balanced balanced part) (openPart_bounded bounded part)

private theorem answered_found {message : JsonValue N} {id : Units} {step : Step}
    (own : answered state message = some (id,step)) : state.openSteps.get? id = some step := by
  unfold answered at own
  obtain ⟨_,_,held⟩ := Option.bind_eq_some_iff.mp own
  obtain ⟨_,found,same⟩ := Option.map_eq_some_iff.mp held
  cases same
  exact found

private theorem values_erased {calls : Dict Units Step} {bucket : Step → Prop} (id : Units)
    (each : ∀ step ∈ calls.values, bucket step) : ∀ step ∈ (calls.erase id).values, bucket step :=
  fun step inside => each step ((Dict.values_erase calls id).subset inside)

private theorem kept_pushRecent (kept : Balanced state opened marked ∧ Bounded state) (entry : Recent) :
    Balanced (state.pushRecent entry) opened marked ∧ Bounded (state.pushRecent entry) :=
  ⟨kept.1.same (pushRecent_same state entry),kept.2.pushRecent entry⟩

private theorem kept_applyPhase (kept : Balanced state opened marked ∧ Bounded state) (report : Report) (withNote : Bool) :
    Balanced (state.applyPhase report withNote) opened marked ∧ Bounded (state.applyPhase report withNote) :=
  ⟨kept.1.same (applyPhase_same state report withNote),kept.2.applyPhase report withNote⟩

private theorem kept_touch (kept : Balanced state opened marked ∧ Bounded state) (now : Nat) :
    Balanced (state.touch now) opened marked ∧ Bounded (state.touch now) :=
  ⟨kept.1.same (touch_same state now),kept.2.touch now⟩

private theorem closeStep_kept {message : JsonValue N} {id : Units} {step : Step} {at' : Nat}
    (found : state.openSteps.get? id = some step) (balanced : Balanced state opened marked) (bounded : Bounded state) :
    Balanced (closeStep safe? state id step message at') opened marked ∧
      Bounded (closeStep safe? state id step message at') := by
  obtain ⟨steps,tools,failed,buckets,going⟩ := balanced
  have length := erase_length found
  have bucket := buckets step ((Dict.mem_values_iff _ _).mpr ⟨id,found⟩)
  have within := bounded.openSteps
  have closed : ∀ (toolMs longest : Nat) (isError : Bool),
      Balanced { state with
        openSteps := state.openSteps.erase id
        steps := state.steps + 1
        failed := if isError then state.failed + 1 else state.failed
        toolMs := toolMs
        longestStepMs := longest
        tools := state.tools.set step.bucket ((state.tools.get? step.bucket).getD 0 + 1) } opened marked ∧
      Bounded { state with
        openSteps := state.openSteps.erase id
        steps := state.steps + 1
        failed := if isError then state.failed + 1 else state.failed
        toolMs := toolMs
        longestStepMs := longest
        tools := state.tools.set step.bucket ((state.tools.get? step.bucket).getD 0 + 1) } := by
    intro toolMs longest isError
    refine ⟨⟨?_,?_,?_,values_erased id buckets,going⟩,⟨?_,bounded.recent,bounded.phases,bounded.priorPhaseCalls⟩⟩
    · dsimp only
      omega
    · refine Eq.trans (congrArg (· + 1) tools) (Eq.symm (sum_bumped (by decide) bucket ?_ ?_))
      · unfold toolCount
        rw [Dict.get?_set_self]
        rfl
      · intro other apart
        unfold toolCount
        rw [Dict.get?_set_ne _ _ (Ne.symm apart)]
    · dsimp only
      split
      · omega
      · omega
    · dsimp only
      omega
  unfold closeStep
  dsimp only
  split
  next report _ =>
    split
    · exact kept_applyPhase (kept_pushRecent (closed _ _ _) _) report true
    · exact kept_pushRecent (closed _ _ _) _
  · exact kept_pushRecent (closed _ _ _) _

private theorem closeMarked_kept {message : JsonValue N} {found : Option (Units × Step)} {mark : Mark} {at' : Nat}
    (held : ∀ id step, found = some (id,step) → state.openSteps.get? id = some step)
    (balanced : Balanced state opened marked) (bounded : Bounded state) :
    Balanced (closeMarked redact state found mark message at') opened (marked + if found.isSome then 1 else 0) ∧
      Bounded (closeMarked redact state found mark message at') := by
  obtain ⟨steps,tools,failed,buckets,going⟩ := balanced
  have closed : Balanced { state with openSteps := found.elim state.openSteps fun step => state.openSteps.erase step.1 } opened
      (marked + if found.isSome then 1 else 0) ∧
      Bounded { state with openSteps := found.elim state.openSteps fun step => state.openSteps.erase step.1 } := by
    cases found with
    | none => exact ⟨⟨steps,tools,failed,buckets,going⟩,bounded⟩
    | some entry =>
      have length := erase_length (held entry.1 entry.2 rfl)
      have within := bounded.openSteps
      refine ⟨⟨?_,tools,failed,values_erased entry.1 buckets,going⟩,?_,bounded.recent,bounded.phases,bounded.priorPhaseCalls⟩
      · change opened = state.steps + state.evicted + (marked + 1) + (state.openSteps.erase entry.1).entries.length
        omega
      · change (state.openSteps.erase entry.1).entries.length ≤ _
        omega
  obtain ⟨balanced,⟨few,recent,phases,calls⟩⟩ := closed
  have counted : ∀ interrupted left notStarted : Nat,
      Balanced { state with
        openSteps := found.elim state.openSteps fun step => state.openSteps.erase step.1
        interrupted := interrupted
        recoveryInterrupted := left
        recoveryNotStarted := notStarted } opened (marked + if found.isSome then 1 else 0) ∧
      Bounded { state with
        openSteps := found.elim state.openSteps fun step => state.openSteps.erase step.1
        interrupted := interrupted
        recoveryInterrupted := left
        recoveryNotStarted := notStarted } :=
    fun _ _ _ => ⟨balanced.same ⟨rfl,rfl,rfl,rfl,rfl,rfl⟩,few,recent,phases,calls⟩
  unfold closeMarked
  dsimp only
  cases mark with
  | replayed => exact ⟨balanced.same ⟨rfl,rfl,rfl,rfl,rfl,rfl⟩,few,recent,phases,calls⟩
  | interrupted =>
    exact kept_pushRecent (counted (state.interrupted + 1) (state.recoveryInterrupted + 1) state.recoveryNotStarted) _
  | notStarted =>
    exact kept_pushRecent (counted (state.interrupted + 1) state.recoveryInterrupted (state.recoveryNotStarted + 1)) _

end Lines

section Runs
variable {N : Type} (safe? : N → Option Int) (redact : Units → Option Units) (phasesEnabled : Bool)

/-- The accepted calls of what the tailer hands on. -/
def accepted (state : Progress) : Event N → Nat
  | .reset => 0
  | .line line =>
    match messageOf line.parsed with
    | some message =>
      if !state.ended && !line.flags.prior && said (message.field? (spell "role")) "assistant" && !line.flags.replay then
        acceptedIn safe? redact phasesEnabled (runsNoTools message) (if isCount line.ts then line.ts.toNat else line.now)
          (if isTurn message then { state with turn := state.turn + 1 } else state) ((contentOf message).getD [])
      else 0
    | none => 0

/-- Whether a line is a result of an open step. -/
def closes (state : Progress) : Event N → Bool
  | .reset => false
  | .line line => (messageOf line.parsed).any fun message =>
    !said (message.field? (spell "role")) "assistant" && said (message.field? (spell "role")) "toolResult" &&
      (answered state message).isSome

/-- The open steps that a recovery mark closes. -/
def markClosed (state : Progress) : Event N → Nat
  | .reset => 0
  | .line line =>
    if !state.ended && !line.flags.prior && closes state (.line line) &&
      (messageOf line.parsed).any fun message => (recoveryMarkOf message).isSome then 1 else 0

/-- A figure of each event, summed along a run. -/
def along (figure : Progress → Event N → Nat) : Progress → List (Event N) → Nat
  | _,[] => 0
  | state,event :: events => figure state event + along figure (step safe? redact phasesEnabled state event) events

/-- A line that is read again. -/
def isReplayed : Event N → Bool
  | .line line => line.flags.replay && !line.flags.prior
  | .reset => false

/-- A run in which no line that is read again closes a step still open. -/
def Quiet : Progress → List (Event N) → Prop
  | _,[] => True
  | state,event :: events =>
    (isReplayed event = true → closes state event = false) ∧ Quiet (step safe? redact phasesEnabled state event) events

variable {safe? redact phasesEnabled} {state : Progress} {opened marked : Nat}

private theorem step_kept (event : Event N) (balanced : Balanced state opened marked) (bounded : Bounded state) :
    Balanced (step safe? redact phasesEnabled state event) (opened + accepted safe? redact phasesEnabled state event)
      (marked + markClosed state event) ∧ Bounded (step safe? redact phasesEnabled state event) := by
  cases event with
  | reset => exact ⟨balanced.same ⟨rfl,rfl,rfl,rfl,rfl,rfl⟩,bounded.openSteps,bounded.recent,bounded.phases,bounded.priorPhaseCalls⟩
  | line line =>
    obtain ⟨parsed,ts,⟨prior,replay⟩,now⟩ := line
    have ignored : ∀ next : Progress, next = state → ∀ first second : Nat, first = 0 → second = 0 →
        Balanced next (opened + first) (marked + second) ∧ Bounded next := by
      rintro _ rfl _ _ rfl rfl
      exact ⟨balanced,bounded⟩
    cases own : messageOf parsed with
    | none => exact ignored _ (by simp [step,consume,own]) _ _ (by simp [accepted,own]) (by simp [markClosed,own])
    | some message =>
    cases ended : state.ended with
    | true => exact ignored _ (by simp [step,consume,ended]) _ _ (by simp [accepted,own,ended]) (by simp [markClosed,ended])
    | false =>
    cases prior with
    | true =>
      have next : step safe? redact phasesEnabled state (.line ⟨parsed,ts,⟨true,replay⟩,now⟩) =
          (consumePrior safe? redact phasesEnabled state message).touch now := by simp [step,consume,ended,own]
      have none' : accepted safe? redact phasesEnabled state (.line ⟨parsed,ts,⟨true,replay⟩,now⟩) = 0 := by simp [accepted,own]
      have unmarked : markClosed state (.line ⟨parsed,ts,⟨true,replay⟩,now⟩ : Event N) = 0 := by simp [markClosed]
      obtain ⟨same,bounds⟩ := @consumePrior_kept N safe? redact phasesEnabled state message
      rw [next,none',unmarked]
      exact kept_touch ⟨balanced.same same,bounds bounded⟩ now
    | false =>
    cases assistant : said (message.field? (spell "role")) "assistant" with
    | true =>
      have unmarked : ∀ replay, markClosed state (.line ⟨parsed,ts,⟨false,replay⟩,now⟩ : Event N) = 0 := by
        simp [markClosed,closes,own,assistant]
      cases replay with
      | true => exact ignored _ (by simp [step,consume,own,assistant]) _ _ (by simp [accepted,own]) (unmarked true)
      | false =>
        have next : step safe? redact phasesEnabled state (.line ⟨parsed,ts,⟨false,false⟩,now⟩) =
            (((contentOf message).getD []).foldl (openPart safe? redact phasesEnabled (runsNoTools message)
              (if isCount ts then ts.toNat else now))
              (if isTurn message then { state with turn := state.turn + 1 } else state)).touch now := by
          simp [step,consume,ended,own,assistant]
        have more : accepted safe? redact phasesEnabled state (.line ⟨parsed,ts,⟨false,false⟩,now⟩) =
            acceptedIn safe? redact phasesEnabled (runsNoTools message) (if isCount ts then ts.toNat else now)
              (if isTurn message then { state with turn := state.turn + 1 } else state) ((contentOf message).getD []) := by
          simp [accepted,ended,own,assistant]
        have counted : Same state (if isTurn message then { state with turn := state.turn + 1 } else state) ∧
            Bounded (if isTurn message then { state with turn := state.turn + 1 } else state) := by
          split
          · exact ⟨⟨rfl,rfl,rfl,rfl,rfl,rfl⟩,bounded.openSteps,bounded.recent,bounded.phases,bounded.priorPhaseCalls⟩
          · exact ⟨⟨rfl,rfl,rfl,rfl,rfl,rfl⟩,bounded⟩
        rw [next,more,unmarked]
        exact kept_touch (openParts_kept _ (balanced.same counted.1) counted.2) now
    | false =>
    have none' : accepted safe? redact phasesEnabled state (.line ⟨parsed,ts,⟨false,replay⟩,now⟩) = 0 := by
      simp [accepted,own,assistant]
    rw [none']
    cases result : said (message.field? (spell "role")) "toolResult" with
    | false =>
      exact ignored _ (by simp [step,consume,own,assistant,result]) _ _ rfl
        (by simp [markClosed,closes,own,assistant,result])
    | true =>
    cases marks : recoveryMarkOf message with
    | some mark =>
      have closed : markClosed state (.line ⟨parsed,ts,⟨false,replay⟩,now⟩ : Event N) =
          if (answered state message).isSome then 1 else 0 := by
        simp [markClosed,closes,ended,own,assistant,result,marks]
      by_cases idle : replay = true ∧ (answered state message).isNone = true
      · refine ignored _ (by simp [step,consume,own,assistant,result,marks,idle.1,idle.2]) _ _ rfl ?_
        rw [closed,Option.isNone_iff_eq_none.mp idle.2]
        rfl
      · have next : step safe? redact phasesEnabled state (.line ⟨parsed,ts,⟨false,replay⟩,now⟩) =
            (closeMarked redact state (answered state message) mark message (if isCount ts then ts.toNat else now)).touch now := by
          simp only [step,consume,ended,own,assistant,result,marks]
          exact if_neg idle
        rw [next,closed]
        exact kept_touch (closeMarked_kept (fun _ _ => answered_found) balanced bounded) now
    | none =>
      have unmarked : markClosed state (.line ⟨parsed,ts,⟨false,replay⟩,now⟩ : Event N) = 0 := by
        simp [markClosed,own,marks]
      rw [unmarked]
      cases found : answered state message with
      | some entry =>
        have next : step safe? redact phasesEnabled state (.line ⟨parsed,ts,⟨false,replay⟩,now⟩) =
            (closeStep safe? state entry.1 entry.2 message (if isCount ts then ts.toNat else now)).touch now := by
          simp [step,consume,ended,own,assistant,result,marks,found]
        rw [next]
        exact kept_touch (closeStep_kept (answered_found found) balanced bounded) now
      | none =>
        have next : step safe? redact phasesEnabled state (.line ⟨parsed,ts,⟨false,replay⟩,now⟩) =
            if replay then state else { state with anomalies := state.anomalies + 1 } := by
          simp [step,consume,ended,own,assistant,result,marks,found]
        rw [next]
        split
        · exact ⟨balanced,bounded⟩
        · exact ⟨balanced.same ⟨rfl,rfl,rfl,rfl,rfl,rfl⟩,bounded.openSteps,bounded.recent,bounded.phases,bounded.priorPhaseCalls⟩

private theorem run_kept (events : List (Event N)) (balanced : Balanced state opened marked) (bounded : Bounded state) :
    Balanced (run safe? redact phasesEnabled state events)
      (opened + along safe? redact phasesEnabled (accepted safe? redact phasesEnabled) state events)
      (marked + along safe? redact phasesEnabled markClosed state events) ∧
    Bounded (run safe? redact phasesEnabled state events) := by
  induction events generalizing state opened marked with
  | nil => exact ⟨balanced,bounded⟩
  | cons event events ih =>
    obtain ⟨next,bounds⟩ := @step_kept _ safe? redact phasesEnabled _ _ _ event balanced bounded
    rw [along,along,← Nat.add_assoc,← Nat.add_assoc]
    exact ih next bounds

private theorem start_kept (now : Nat) : Balanced (makeProgress now) 0 0 ∧ Bounded (makeProgress now) := by
  refine ⟨⟨rfl,?_,le_rfl,nofun,rfl⟩,Nat.zero_le _,Nat.zero_le _,Nat.zero_le _,Nat.zero_le _⟩
  exact Eq.symm (List.sum_eq_zero fun count inside => by obtain ⟨_,_,rfl⟩ := List.mem_map.mp inside; rfl)

private theorem replay_ignored {event : Event N} (replayed : isReplayed event = true) (quiet : closes state event = false) :
    step safe? redact phasesEnabled state event = state := by
  cases event with
  | reset => cases replayed
  | line line =>
    obtain ⟨parsed,ts,⟨prior,replay⟩,now⟩ := line
    obtain ⟨again,current⟩ := Bool.and_eq_true_iff.mp replayed
    have now' : prior = false := by simpa using current
    have read : replay = true := again
    subst now' read
    cases ended : state.ended with
    | true => simp [step,consume,ended]
    | false =>
    cases own : messageOf parsed with
    | none => simp [step,consume,own]
    | some message =>
    cases assistant : said (message.field? (spell "role")) "assistant" with
    | true => simp [step,consume,own,assistant]
    | false =>
    cases result : said (message.field? (spell "role")) "toolResult" with
    | false => simp [step,consume,own,assistant,result]
    | true =>
      have unanswered : answered state message = none := by
        simpa [closes,own,assistant,result] using quiet
      cases marks : recoveryMarkOf message with
      | none => simp [step,consume,own,assistant,result,marks,unanswered]
      | some mark => simp [step,consume,own,assistant,result,marks,unanswered]

private theorem replays_dropped {events : List (Event N)} (quiet : Quiet safe? redact phasesEnabled state events) :
    run safe? redact phasesEnabled state events =
      run safe? redact phasesEnabled state (events.filter fun event => !isReplayed event) := by
  induction events generalizing state with
  | nil => rfl
  | cons event events ih =>
    obtain ⟨own,quiet⟩ := quiet
    have later := ih quiet
    change run safe? redact phasesEnabled (step safe? redact phasesEnabled state event) events = _
    cases again : isReplayed event with
    | true =>
      rw [List.filter_cons_of_neg (by rw [again]; decide),later,replay_ignored again (own again)]
    | false =>
      rw [List.filter_cons_of_pos (by rw [again]; rfl),later]
      rfl

end Runs

section Ends
variable {state : Progress} {opened marked : Nat}

private theorem interrupt_kept (now : Nat) (state : Progress) (step : Step) : Same state (interrupt now state step) ∧
    (interrupt now state step).interrupted = state.interrupted + 1 ∧ (Bounded state → Bounded (interrupt now state step)) := by
  unfold interrupt
  dsimp only
  split
  · exact ⟨⟨rfl,rfl,rfl,rfl,rfl,rfl⟩,rfl,fun bounded =>
      ⟨bounded.openSteps,(bounded.pushRecent _).recent,bounded.phases,bounded.priorPhaseCalls⟩⟩
  · exact ⟨⟨rfl,rfl,rfl,rfl,rfl,rfl⟩,rfl,fun bounded =>
      ⟨bounded.openSteps,(bounded.pushRecent _).recent,bounded.phases,bounded.priorPhaseCalls⟩⟩

private theorem interrupts_kept (now : Nat) (steps : List Step) (state : Progress) :
    Same state (steps.foldl (interrupt now) state) ∧
    (steps.foldl (interrupt now) state).interrupted = state.interrupted + steps.length ∧
    (Bounded state → Bounded (steps.foldl (interrupt now) state)) := by
  induction steps generalizing state with
  | nil => exact ⟨⟨rfl,rfl,rfl,rfl,rfl,rfl⟩,rfl,id⟩
  | cons step steps ih =>
    obtain ⟨same,more,bounds⟩ := interrupt_kept now state step
    obtain ⟨same',more',bounds'⟩ := ih (interrupt now state step)
    refine ⟨same.trans same',?_,bounds' ∘ bounds⟩
    rw [List.foldl_cons,more',more,List.length_cons]
    omega

/-- The end interrupts the steps that are open and counts no other. -/
private theorem final_kept (balanced : Balanced state opened marked) (bounded : Bounded state) (result : String) (now : Nat) :
    (finalSnapshot state result now).steps = state.steps ∧ (finalSnapshot state result now).failed = state.failed ∧
    (finalSnapshot state result now).evicted = state.evicted ∧ (finalSnapshot state result now).tools = state.tools ∧
    (finalSnapshot state result now).interrupted = state.interrupted + state.openSteps.entries.length ∧
    Bounded (finalSnapshot state result now) := by
  obtain ⟨same,more,bounds⟩ := interrupts_kept now state.openSteps.values state
  unfold finalSnapshot
  rw [balanced.going,if_neg Bool.false_ne_true]
  refine ⟨same.steps,same.failed,same.evicted,same.tools,?_,Nat.zero_le _,(bounds bounded).recent,(bounds bounded).phases,
    (bounds bounded).priorPhaseCalls⟩
  refine more.trans ?_
  unfold Dict.values
  rw [List.length_map]

private theorem sum_positive {α : Type} (list : List α) (count : α → Nat) :
    (((list.map fun item => (item,count item)).filter fun counted => 0 < counted.2).map Prod.snd).sum =
      (list.map count).sum := by
  induction list with
  | nil => rfl
  | cons item list ih =>
    rw [List.map_cons,List.map_cons,List.filter_cons,List.sum_cons,← ih]
    split
    · rfl
    next zero =>
      have none' : count item = 0 := by
        simpa using zero
      rw [none',Nat.zero_add]

private theorem snapshot_running (state : Progress) : (snapshot state).running.length ≤ PROGRESS_RUNNING_MAX := by
  unfold snapshot
  dsimp only
  split
  · exact Nat.zero_le _
  · rw [List.length_map,List.length_drop]
    omega

end Ends

section Claim
variable {N : Type} (safe? : N → Option Int) (redact : Units → Option Units) (phasesEnabled : Bool)

/-- Each accepted call goes to one count, the tools' counts are the steps, what is kept is within its caps, and lines that
are read again leave no trace unless one of them closes a step still open. -/
theorem steps_counted (start : Nat) (events : List (Event N)) (result : String) (now : Nat) :
    let last := run safe? redact phasesEnabled (makeProgress start) events
    let ended := finalSnapshot last result now
    along safe? redact phasesEnabled (accepted safe? redact phasesEnabled) (makeProgress start) events =
        ended.steps + ended.evicted + along safe? redact phasesEnabled markClosed (makeProgress start) events +
          last.openSteps.entries.length ∧
      ended.interrupted = last.interrupted + last.openSteps.entries.length ∧
      ended.steps = ((summary ended).tools.map Prod.snd).sum ∧ ended.failed ≤ ended.steps ∧
      Bounded last ∧ Bounded ended ∧ (snapshot last).running.length ≤ PROGRESS_RUNNING_MAX ∧
      (Quiet safe? redact phasesEnabled (makeProgress start) events →
        let other := finalSnapshot (run safe? redact phasesEnabled (makeProgress start)
          (events.filter fun event => !isReplayed event)) result now
        snapshot ended = snapshot other ∧ summary ended = summary other) := by
  obtain ⟨start',bounds⟩ := start_kept start
  obtain ⟨balanced,bounded⟩ := @run_kept _ safe? redact phasesEnabled _ _ _ events start' bounds
  obtain ⟨steps,failed,evicted,tools,interrupted,within⟩ := final_kept balanced bounded result now
  have whole := balanced.steps
  rw [Nat.zero_add,Nat.zero_add] at whole
  refine ⟨?_,interrupted,?_,?_,bounded,within,snapshot_running _,?_⟩
  · rw [steps,evicted]
    exact whole
  · have sum := sum_positive BUCKETS (toolCount (finalSnapshot (run safe? redact phasesEnabled (makeProgress start) events) result now))
    refine Eq.trans ?_ sum.symm
    unfold toolCount
    rw [steps,tools]
    exact balanced.tools
  · rw [failed,steps]
    exact balanced.failed
  · intro quiet
    rw [replays_dropped quiet]
    exact ⟨rfl,rfl⟩

private def text (word : String) : JsonValue Nat := .string (spell word)

private def call (replay : Bool) : Event Nat := .line ⟨.object [(spell "type",text "message"),(spell "message",.object
  [(spell "role",text "assistant"),(spell "content",.array
    [.object [(spell "type",text "toolCall"),(spell "id",text "a"),(spell "name",text "read")]])])],1,⟨false,replay⟩,1⟩

private def answer (replay : Bool) : Event Nat := .line ⟨.object [(spell "type",text "message"),(spell "message",.object
  [(spell "role",text "toolResult"),(spell "toolCallId",text "a"),(spell "isError",.bool false)])],2,⟨false,replay⟩,2⟩

/-- A call and its result, read again after a rewrite. -/
theorem steps_counted_again : snapshot (finalSnapshot (run (fun number : Nat => some (number : Int)) some false (makeProgress 0)
      [call false,answer false,.reset,call true,answer true]) "completed" 3) =
    snapshot (finalSnapshot (run (fun number : Nat => some (number : Int)) some false (makeProgress 0)
      [call false,answer false,.reset]) "completed" 3) := by
  have quiet : Quiet (fun number : Nat => some (number : Int)) some false (makeProgress 0)
      [call false,answer false,.reset,call true,answer true] := by
    refine ⟨?_,?_,?_,?_,?_,trivial⟩
    all_goals decide +kernel
  have whole := steps_counted (fun number : Nat => some (number : Int)) some false 0
    [call false,answer false,.reset,call true,answer true] "completed" 3
  exact (whole.2.2.2.2.2.2.2 quiet).1

end Claim

end PiDispatch.RunProgress
