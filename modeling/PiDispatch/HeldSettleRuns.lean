import PiDispatch.HeldSettle

/-! Whatever takes and settles a parked run meets: one job at most, every reply of the first close accounted for, and no word of
a taken reply unless one was taken. -/
namespace PiDispatch.HeldSettle
open Kernel HeldReplies
open LateForge (Job runIdOf)

abbrev Past := List (Act × Call)

def Act.isTake : Act → Bool
  | .take _ _ _ => true
  | _ => false

def Act.now : Act → Instant
  | .take _ now _ | .settle _ now _ => now

def Act.enqueued : Act → Enqueued
  | .take _ _ enqueued | .settle _ _ enqueued => enqueued

def Deed.reply? : Deed → Option Reply
  | .enqueue _ _ reply => some reply
  | .comment _ => none

def Deed.text? : Deed → Option String
  | .enqueue _ _ _ => none
  | .comment text => some text

/-- The replies that jobs were enqueued for. -/
def enqueues (past : Past) : List Reply := past.flatMap fun said => said.2.deeds.filterMap Deed.reply?

def comments (past : Past) : List String := past.flatMap fun said => said.2.deeds.filterMap Deed.text?

/-- The call made the close. -/
def Call.isFirst (call : Call) : Bool := call.closed.any Prod.snd

/-- A take that could not close. -/
def failedTake (said : Act × Call) : Bool := said.1.isTake && said.2.closed.isNone

def Counts.total (counts : Counts) : Nat := counts.resumed + counts.answered + counts.dropped

/-- How many replies the calls say they have accounted for. -/
def accounted (past : Past) : Nat := (past.map fun said => (said.2.counts.map Counts.total).getD 0).sum

def any (_ : Act) (_ : State) : Prop := True

section Starts

variable {config : Config} {job : Job} {now : Instant} {enqueued : Enqueued} {entries : List Reply}

/-- The counts of a start. -/
private theorem start_total : (start config job now enqueued entries).1.total = entries.length := by
  have fewer := List.length_filter_le (isRecent now) entries
  unfold start Counts.total
  dsimp only
  split
  next none' =>
    have none' : (entries.filter (isRecent now)).length = 0 := by simpa using none'
    dsimp only
    omega
  next some' =>
    have some' : 0 < (entries.filter (isRecent now)).length := List.length_pos_iff.mpr fun nil => some' (by rw [nil]; rfl)
    dsimp only
    split <;> omega

private theorem enqueueDeeds_reply (reply : Reply) :
    (enqueueDeeds config job reply).filterMap Deed.reply? = [] ∨
      (enqueueDeeds config job reply).filterMap Deed.reply? = [reply] := by
  unfold enqueueDeeds
  split
  · exact .inl rfl
  · exact .inr rfl

private theorem enqueueDeeds_text (reply : Reply) : (enqueueDeeds config job reply).filterMap Deed.text? = [] := by
  unfold enqueueDeeds
  split <;> rfl

/-- A start enqueues at most the reply it tries. -/
private theorem start_enqueues : (start config job now enqueued entries).2.filterMap Deed.reply? = [] ∨
    ∃ reply, tried job now entries = some reply ∧ (start config job now enqueued entries).2.filterMap Deed.reply? = [reply] := by
  have comments : ∀ (there : Prop) [Decidable there] (text : String),
      (if there then [Deed.comment text] else []).filterMap Deed.reply? = [] := by
    intro there _ text
    split <;> rfl
  unfold start
  dsimp only
  split
  · exact .inl rfl
  · rw [List.filterMap_append,comments,List.append_nil]
    cases found : tried job now entries with
    | none => exact .inl rfl
    | some reply =>
      rcases @enqueueDeeds_reply config job reply with none' | one
      · exact .inl none'
      · exact .inr ⟨reply,rfl,one⟩

private theorem comment_texts (there : Prop) [Decidable there] (text : String) :
    (if there then [Deed.comment text] else []).filterMap Deed.text? = if there then [text] else [] := by
  split <;> rfl

/-- What a start says, and when: one comment exactly where a recent reply is left that was not started. -/
private theorem start_comments : (start config job now enqueued entries).2.filterMap Deed.text? =
    if 0 < (start config job now enqueued entries).1.answered then
      [if (start config job now enqueued entries).1.taken.isSome then HELD_EXTRA_REPLY else HELD_RESUME_FAILED_REPLY]
    else [] := by
  unfold start
  dsimp only
  split
  · rfl
  · have none' : (((tried job now entries).map (enqueueDeeds config job)).getD []).filterMap Deed.text? = [] := by
      cases tried job now entries with
      | none => rfl
      | some reply => exact enqueueDeeds_text reply
    rw [List.filterMap_append,none',List.nil_append,comment_texts]

/-- What a start took. -/
private theorem start_taken {taken : Taken} (took : (start config job now enqueued entries).1.taken = some taken) :
    ∃ reply, tried job now entries = some reply ∧ (start config job now enqueued entries).2.filterMap Deed.reply? = [reply] ∧
      (taken = .here ∧ enqueued = .started ∨
        taken = .other ∧ ∃ survivingJobId, enqueued = .deduplicated survivingJobId ∧ isOwn job survivingJobId = false) := by
  have comments : ∀ (there : Prop) [Decidable there] (text : String),
      (if there then [Deed.comment text] else []).filterMap Deed.reply? = [] := by
    intro there _ text
    split <;> rfl
  unfold start at took ⊢
  dsimp only at took ⊢
  split at took
  · cases took
  next some' =>
    rw [if_neg some',List.filterMap_append,comments,List.append_nil]
    obtain ⟨reply,found,took⟩ := Option.bind_eq_some_iff.mp took
    refine ⟨reply,found,?_⟩
    rw [found]
    unfold attempt at took
    unfold enqueueDeeds
    split at took
    · cases took
    next queue _ route _ =>
      rw [route]
      exact ⟨rfl,.inl ⟨(Option.some.inj took).symm,rfl⟩⟩
    next queue survivingJobId route _ =>
      split at took
      · cases took
      next other =>
        rw [route]
        exact ⟨rfl,.inr ⟨(Option.some.inj took).symm,survivingJobId,rfl,Bool.not_eq_true _ |>.mp other⟩⟩
    · cases took

/-- Where nothing recent is left to answer, the only recent reply was started. -/
private theorem start_rest (none' : (start config job now enqueued entries).1.answered = 0) {reply : Reply}
    (member : reply ∈ entries) (recent : isRecent now reply = true) :
    (start config job now enqueued entries).1.resumed = 1 ∧
      (start config job now enqueued entries).2.filterMap Deed.reply? = [reply] := by
  have inside : reply ∈ entries.filter (isRecent now) := List.mem_filter.mpr ⟨member,recent⟩
  have some' : ¬(entries.filter (isRecent now)).isEmpty = true := by
    intro nil
    rw [List.isEmpty_iff.mp nil] at inside
    cases inside
  have positive := List.length_pos_of_mem inside
  have here : (start config job now enqueued entries).1.taken = some .here ∧
      (start config job now enqueued entries).1.resumed = 1 ∧ (entries.filter (isRecent now)).length = 1 := by
    unfold start at none' ⊢
    dsimp only at none' ⊢
    rw [if_neg some'] at none' ⊢
    dsimp only at none' ⊢
    split at none'
    next here => exact ⟨here,if_pos here,by omega⟩
    · omega
  obtain ⟨own,found,enqueued,_⟩ := start_taken here.1
  refine ⟨here.2.1,?_⟩
  rw [enqueued]
  obtain ⟨only,shape⟩ := List.length_eq_one_iff.mp here.2.2
  have chosen : own ∈ entries.filter (isRecent now) := List.mem_of_find?_eq_some found
  rw [shape] at inside chosen
  rw [List.mem_singleton.mp inside,List.mem_singleton.mp chosen]

private theorem start_dropped :
    (start config job now enqueued entries).1.dropped = (entries.filter fun reply => !isRecent now reply).length := by
  have both := List.length_eq_length_filter_add (l := entries) (isRecent now)
  unfold start
  dsimp only
  split
  · dsimp only
    omega
  · dsimp only
    omega

end Starts

section Calls

variable {config : Config} {job : Job}

/-- What a call did, from the close it made. -/
inductive Made (config : Config) (job : Job) (act : Act) (state : State) : Call → State → Prop
  | lost (next : State) (took : next.took = (act.isTake || state.took)) (open' : next.store.closed = false → state.store.closed = false) :
      Made config job act state ⟨none,none,if act.isTake then [.comment HELD_RESUME_FAILED_REPLY] else []⟩ next
  | idle (next : State) (entries : List Reply) (first : Bool) (took : next.took = (act.isTake || state.took))
      (closed : next.store.closed = true) (made : first = !state.store.closed) (none' : first = false ∨ entries = []) :
      Made config job act state ⟨some .none,some (entries,first),[]⟩ next
  | started (next : State) (entries : List Reply) (took : next.took = (act.isTake || state.took))
      (closed : next.store.closed = true) (open' : state.store.closed = false) (now : act.isTake = true ∨ state.took = false) :
      Made config job act state ⟨some (start config job act.now act.enqueued entries).1,some (entries,true),
        (start config job act.now act.enqueued entries).2⟩ next
  | dropped (next : State) (entries : List Reply) (took : next.took = (act.isTake || state.took))
      (closed : next.store.closed = true) (open' : state.store.closed = false) (after : state.took = true)
      (settles : act.isTake = false) :
      Made config job act state ⟨some ⟨0,0,entries.length,none⟩,some (entries,true),[]⟩ next

private theorem close_cases (closing : Closing) (store : HeldReplies.Store) :
    (∃ entries, closeHeld config closing store = (some (entries,!store.closed),{ store with closed := true, opened := none })) ∨
    (closeHeld config closing store).1 = none ∧ ((closeHeld config closing store).2.closed = false → store.closed = false) := by
  cases closing with
  | answers => exact .inl ⟨_,rfl⟩
  | fails => exact .inr ⟨rfl,fun same => same⟩
  | forgets => exact .inr ⟨rfl,fun closed => nomatch closed⟩

private theorem step_made (waits : LateForge.isTrue (job.data.field? "awaitInput") = true) (named : runIdOf job ≠ "") (act : Act)
    (state : State) : Made config job act state (step config job act state).1 (step config job act state).2 := by
  cases act with
  | take closing now enqueued =>
    unfold step takeHeld
    dsimp only
    rw [if_neg (not_not.mpr waits),if_neg named]
    rcases @close_cases config closing state.store with ⟨entries,closed⟩ | ⟨lost,open'⟩
    · rw [closed]
      dsimp only
      split
      next later => exact .idle _ entries _ rfl rfl rfl (.inl later)
      next first =>
        have open' : state.store.closed = false := by simpa using first
        rw [open']
        exact .started _ entries rfl rfl open' (.inl rfl)
    · split
      next store same =>
        rw [same] at open'
        exact .lost _ rfl open'
      next entries first store same =>
        rw [same] at lost
        cases lost
  | settle closing now enqueued =>
    have final : LateForge.isFinalOutcome job ⟨(some parked).map Result.reason,none⟩ = true := by
      simp [LateForge.isFinalOutcome,parked,LateForge.RECOVERY_ENQUEUED,LateForge.RECOVERY_SUPERSEDED]
    unfold step settleHeld
    dsimp only
    rw [if_neg (not_not.mpr waits),if_neg (not_not.mpr final),if_neg named]
    rcases @close_cases config closing state.store with ⟨entries,closed⟩ | ⟨lost,open'⟩
    · rw [closed]
      dsimp only
      split
      next later => exact .idle _ entries _ rfl rfl rfl (by simpa using later)
      next first =>
        have open' : state.store.closed = false := by
          cases own : state.store.closed with
          | false => rfl
          | true => exact absurd (.inl (by rw [own]; rfl)) first
        rw [open']
        split
        next early => exact .started _ entries rfl rfl open' (.inr (by simpa [isParkedOutcome,parked] using early))
        next late => exact .dropped _ entries rfl rfl open' (by simpa [isParkedOutcome,parked] using late) rfl
    · split
      next store same =>
        rw [same] at open'
        exact .lost _ rfl open'
      next entries first store same =>
        rw [same] at lost
        cases lost

end Calls

section Runs

variable {config : Config} {job : Job} {past : Past} {state : State}

/-- What is so of a call, given those before it. -/
inductive Fact (config : Config) (job : Job) (earlier : Past) : Act × Call → Prop
  | lost (act : Act) : Fact config job earlier (act,⟨none,none,if act.isTake then [.comment HELD_RESUME_FAILED_REPLY] else []⟩)
  | idle (act : Act) (entries : List Reply) (first : Bool) (none' : first = false ∨ entries = []) :
      Fact config job earlier (act,⟨some .none,some (entries,first),[]⟩)
  | started (act : Act) (entries : List Reply)
      (now : act.isTake = true ∨ (earlier.any fun said => said.1.isTake) = false) :
      Fact config job earlier (act,⟨some (start config job act.now act.enqueued entries).1,some (entries,true),
        (start config job act.now act.enqueued entries).2⟩)
  | dropped (act : Act) (entries : List Reply) (settles : act.isTake = false) (after : earlier.any failedTake = true) :
      Fact config job earlier (act,⟨some ⟨0,0,entries.length,none⟩,some (entries,true),[]⟩)

private structure History (config : Config) (job : Job) (past : Past) (state : State) : Prop where
  facts : ∀ earlier said, said :: earlier <:+ past → Fact config job earlier said
  first : (past.filter fun said => said.2.isFirst).length ≤ 1
  opened : state.store.closed = false → ∀ said ∈ past, said.2.closed = none
  took : state.took = past.any fun said => said.1.isTake

private theorem none_first (past : Past) (lost : ∀ said ∈ past, said.2.closed = none) :
    (past.filter fun said => said.2.isFirst) = [] := by
  rw [List.filter_eq_nil_iff]
  intro said member
  unfold Call.isFirst
  rw [lost said member]
  exact Bool.false_ne_true

private theorem taken_lost (history : History config job past state) (took : state.took = true)
    (opened : state.store.closed = false) : past.any failedTake = true := by
  rw [history.took] at took
  obtain ⟨said,member,take⟩ := List.any_eq_true.mp took
  refine List.any_eq_true.mpr ⟨said,member,?_⟩
  unfold failedTake
  rw [take,history.opened opened said member]
  rfl

private theorem step_history (waits : LateForge.isTrue (job.data.field? "awaitInput") = true) (named : runIdOf job ≠ "")
    (history : History config job past state) (act : Act) :
    History config job ((act,(step config job act state).1) :: past) (step config job act state).2 := by
  have made := @step_made config job waits named act state
  generalize (step config job act state).1 = call at made ⊢
  generalize (step config job act state).2 = next at made ⊢
  have facts : Fact config job past (act,call) → ∀ earlier said, said :: earlier <:+ (act,call) :: past →
      Fact config job earlier said := by
    intro own earlier said inside
    rcases List.suffix_cons_iff.mp inside with new | old
    · obtain ⟨rfl,rfl⟩ := List.cons.inj new
      exact own
    · exact history.facts earlier said old
  have took : next.took = (act.isTake || state.took) → next.took = ((act,call) :: past).any fun said => said.1.isTake := by
    intro own
    rw [own,history.took]
    rfl
  have closes : state.store.closed = false → next.store.closed = true →
      (((act,call) :: past).filter fun said => said.2.isFirst).length ≤ 1 ∧
        (next.store.closed = false → ∀ said ∈ (act,call) :: past, said.2.closed = none) := by
    intro opened closed
    refine ⟨?_,fun other => absurd (closed.symm.trans other) fun none => nomatch none⟩
    rw [List.filter_cons,none_first past (history.opened opened)]
    split
    · exact Nat.le_refl 1
    · exact Nat.zero_le 1
  cases made with
  | lost next own opened =>
    refine ⟨facts (.lost act),?_,?_,took own⟩
    · exact history.first
    · intro closed said member
      rcases List.mem_cons.mp member with rfl | old
      · rfl
      · exact history.opened (opened closed) said old
  | idle next entries first own closed made none' =>
    refine ⟨facts (.idle act entries first none'),?_,?_,took own⟩
    swap
    · exact fun other => absurd (closed.symm.trans other) fun none => nomatch none
    cases was : state.store.closed with
    | true =>
      have later : first = false := by rw [made,was]; rfl
      subst later
      exact history.first
    | false => exact (closes was closed).1
  | started next entries own closed opened now =>
    obtain ⟨first,opens⟩ := closes opened closed
    refine ⟨facts (.started act entries ?_),first,opens,took own⟩
    rw [← history.took]
    exact now
  | dropped next entries own closed opened after settles =>
    obtain ⟨first,opens⟩ := closes opened closed
    exact ⟨facts (.dropped act entries settles (taken_lost history after opened)),first,opens,took own⟩

private theorem facts_each (history : History config job past state) : ∀ said ∈ past, ∃ earlier, Fact config job earlier said := by
  intro said member
  obtain ⟨later,earlier,rfl⟩ := List.append_of_mem member
  exact ⟨earlier,history.facts earlier said (List.suffix_append _ _)⟩

/-- A call that is not the first close accounts for nothing and enqueues nothing. -/
private theorem fact_quiet {earlier : Past} {said : Act × Call} (fact : Fact config job earlier said)
    (later : said.2.isFirst = false) : said.2.deeds.filterMap Deed.reply? = [] ∧ (said.2.counts.map Counts.total).getD 0 = 0 ∧
      said.2.deeds.filterMap Deed.text? = if failedTake said then [HELD_RESUME_FAILED_REPLY] else [] := by
  cases fact with
  | lost act =>
    unfold failedTake
    cases act <;> exact ⟨rfl,rfl,rfl⟩
  | idle act entries first none' =>
    unfold failedTake
    cases act <;> exact ⟨rfl,rfl,rfl⟩
  | started act entries now => cases later
  | dropped act entries settles after => cases later

private theorem quiet_all (past : Past) (facts : ∀ said ∈ past, ∃ earlier, Fact config job earlier said)
    (later : ∀ said ∈ past, said.2.isFirst = false) : enqueues past = [] ∧ accounted past = 0 ∧
      comments past = (past.filter failedTake).map fun _ => HELD_RESUME_FAILED_REPLY := by
  induction past with
  | nil => exact ⟨rfl,rfl,rfl⟩
  | cons said past ih =>
    obtain ⟨none',zero,texts⟩ := ih (fun other member => facts other (List.mem_cons_of_mem _ member))
      fun other member => later other (List.mem_cons_of_mem _ member)
    obtain ⟨earlier,fact⟩ := facts said List.mem_cons_self
    obtain ⟨quiet,still,text⟩ := fact_quiet fact (later said List.mem_cons_self)
    refine ⟨?_,?_,?_⟩
    · unfold enqueues at none' ⊢
      rw [List.flatMap_cons,quiet,none']
      rfl
    · unfold accounted at zero ⊢
      rw [List.map_cons,List.sum_cons,still,zero]
    · unfold comments at texts ⊢
      rw [List.flatMap_cons,text,texts,List.filter_cons]
      split <;> rfl

end Runs

section Results

variable {config : Config} {job : Job} {past : Past} {state : State}

/-- The take, where it is made, is the run's first call. -/
def TakenFirst (past : Past) : Prop := ∀ earlier said, said :: earlier <:+ past → said.1.isTake = true → earlier = []

/-- What is so of a parked run's held replies, whatever calls were made for them. -/
structure Answered (config : Config) (job : Job) (past : Past) : Prop where
  once : (enqueues past).length ≤ 1
  earliest : ∀ reply ∈ enqueues past, ∃ said ∈ past, ∃ entries,
    said.2.closed = some (entries,true) ∧ tried job said.1.now entries = some reply
  accounted : ∀ said ∈ past, ∀ entries, said.2.closed = some (entries,true) → accounted past = entries.length
  dropped : ∀ said ∈ past, ∀ entries, said.2.closed = some (entries,true) → ∃ counts, said.2.counts = some counts ∧
    (counts.dropped = (entries.filter fun reply => !isRecent said.1.now reply).length ∨
      past.any failedTake = true ∧ counts.dropped = entries.length)
  honest : HELD_EXTRA_REPLY ∈ comments past → ∃ said ∈ past, ∃ reply, said.2.deeds.filterMap Deed.reply? = [reply] ∧
    (said.1.enqueued = .started ∨
      ∃ survivingJobId, said.1.enqueued = .deduplicated survivingJobId ∧ isOwn job survivingJobId = false)
  covered : TakenFirst past → ∀ said ∈ past, ∀ entries, said.2.closed = some (entries,true) → ∀ reply ∈ entries,
    isRecent said.1.now reply = true →
    (enqueues past = [reply] ∧ ∃ counts, said.2.counts = some counts ∧ counts.resumed = 1) ∨ (comments past).length = 1

private theorem failed_not_extra : HELD_RESUME_FAILED_REPLY ≠ HELD_EXTRA_REPLY := by decide +kernel

/-- The rest of a run, around the call that made the close. -/
private theorem around (history : History config job past state) {later earlier : Past} {said : Act × Call}
    (shape : past = later ++ said :: earlier) (first : said.2.isFirst = true) :
    enqueues past = said.2.deeds.filterMap Deed.reply? ∧ accounted past = (said.2.counts.map Counts.total).getD 0 ∧
      comments past = (later.filter failedTake).map (fun _ => HELD_RESUME_FAILED_REPLY) ++
        said.2.deeds.filterMap Deed.text? ++ (earlier.filter failedTake).map fun _ => HELD_RESUME_FAILED_REPLY := by
  subst shape
  have one := history.first
  rw [List.filter_append,List.filter_cons,if_pos first,List.length_append,List.length_cons] at one
  have before : ∀ other ∈ earlier, other.2.isFirst = false := by
    intro other member
    by_contra own
    have inside := List.length_pos_of_mem (List.mem_filter.mpr ⟨member,Bool.not_eq_false _ |>.mp own⟩ :
      other ∈ earlier.filter fun said => said.2.isFirst)
    omega
  have after : ∀ other ∈ later, other.2.isFirst = false := by
    intro other member
    by_contra own
    have inside := List.length_pos_of_mem (List.mem_filter.mpr ⟨member,Bool.not_eq_false _ |>.mp own⟩ :
      other ∈ later.filter fun said => said.2.isFirst)
    omega
  have facts := facts_each history
  obtain ⟨none',zero,texts⟩ := quiet_all earlier (fun other member => facts other (by simp [member])) before
  obtain ⟨none'',zero',texts'⟩ := quiet_all later (fun other member => facts other (by simp [member])) after
  refine ⟨?_,?_,?_⟩
  · unfold enqueues at none' none'' ⊢
    rw [List.flatMap_append,List.flatMap_cons,none',none'',List.append_nil]
    rfl
  · unfold accounted at zero zero' ⊢
    rw [List.map_append,List.map_cons,List.sum_append,List.sum_cons,zero,zero']
    omega
  · unfold comments at texts texts' ⊢
    rw [List.flatMap_append,List.flatMap_cons,texts,texts',List.append_assoc]

/-- A call that was the first close, with those after it and before it. -/
private theorem first_split (history : History config job past state) {said : Act × Call} (member : said ∈ past) {entries : List Reply}
    (closed : said.2.closed = some (entries,true)) :
    ∃ later earlier, past = later ++ said :: earlier ∧ Fact config job earlier said ∧ said.2.isFirst = true := by
  obtain ⟨later,earlier,rfl⟩ := List.append_of_mem member
  refine ⟨later,earlier,rfl,history.facts earlier said (List.suffix_append _ _),?_⟩
  unfold Call.isFirst
  rw [closed]
  rfl

private theorem fact_first {earlier : Past} {said : Act × Call} (fact : Fact config job earlier said) {entries : List Reply}
    (closed : said.2.closed = some (entries,true)) : ∃ counts, said.2.counts = some counts ∧ counts.total = entries.length ∧
      (counts.dropped = (entries.filter fun reply => !isRecent said.1.now reply).length ∨
        earlier.any failedTake = true ∧ counts.dropped = entries.length) := by
  cases fact with
  | lost act => cases closed
  | idle act own first none' =>
    obtain ⟨rfl,rfl⟩ := Prod.mk.inj (Option.some.inj closed)
    rcases none' with never | rfl
    · cases never
    · exact ⟨_,rfl,rfl,.inl rfl⟩
  | started act own now =>
    obtain ⟨rfl,_⟩ := Prod.mk.inj (Option.some.inj closed)
    exact ⟨_,rfl,start_total,.inl start_dropped⟩
  | dropped act own settles after =>
    obtain ⟨rfl,_⟩ := Prod.mk.inj (Option.some.inj closed)
    exact ⟨_,rfl,Nat.zero_add _ |>.trans rfl,.inr ⟨after,rfl⟩⟩

/-- What a call enqueued was what its start tried. -/
private theorem fact_enqueued {earlier : Past} {said : Act × Call} (fact : Fact config job earlier said) :
    said.2.deeds.filterMap Deed.reply? = [] ∨ ∃ reply entries, said.2.closed = some (entries,true) ∧
      tried job said.1.now entries = some reply ∧ said.2.deeds.filterMap Deed.reply? = [reply] := by
  cases fact with
  | lost act => cases act <;> exact .inl rfl
  | idle act own first none' => exact .inl rfl
  | started act own now =>
    rcases @start_enqueues config job act.now act.enqueued own with
      none' | ⟨reply,found,one⟩
    · exact .inl none'
    · exact .inr ⟨reply,own,rfl,found,one⟩
  | dropped act own settles after => exact .inl rfl

private theorem fact_extra {earlier : Past} {said : Act × Call} (fact : Fact config job earlier said)
    (extra : HELD_EXTRA_REPLY ∈ said.2.deeds.filterMap Deed.text?) : ∃ reply, said.2.deeds.filterMap Deed.reply? = [reply] ∧
      (said.1.enqueued = .started ∨
        ∃ survivingJobId, said.1.enqueued = .deduplicated survivingJobId ∧ isOwn job survivingJobId = false) := by
  cases fact with
  | lost act =>
    have texts : (if act.isTake then [Deed.comment HELD_RESUME_FAILED_REPLY] else []).filterMap Deed.text? =
        if act.isTake then [HELD_RESUME_FAILED_REPLY] else [] := comment_texts _ _
    dsimp only at extra
    rw [texts] at extra
    split at extra
    · exact absurd (List.mem_singleton.mp extra).symm failed_not_extra
    · cases extra
  | idle act own first none' => cases extra
  | started act own now =>
    dsimp only at extra
    rw [start_comments] at extra
    split at extra
    · have same := List.mem_singleton.mp extra
      split at same
      next taken =>
        obtain ⟨kind,took⟩ := Option.isSome_iff_exists.mp taken
        obtain ⟨reply,_,one,which⟩ := start_taken took
        refine ⟨reply,one,?_⟩
        rcases which with ⟨_,started⟩ | ⟨_,other⟩
        · exact .inl started
        · exact .inr other
      · exact absurd same.symm failed_not_extra
    · cases extra
  | dropped act own settles after => cases extra

private theorem takenFirst_part {later earlier : Past} (taken : TakenFirst (later ++ earlier)) : TakenFirst earlier :=
  fun before said inside => taken before said (inside.trans (List.suffix_append _ _))

private theorem takenFirst_later {later earlier : Past} {said : Act × Call} (taken : TakenFirst (later ++ said :: earlier)) :
    later.filter failedTake = [] := by
  rw [List.filter_eq_nil_iff]
  intro other member failed
  obtain ⟨front,back,rfl⟩ := List.append_of_mem member
  have inside : other :: (back ++ said :: earlier) <:+ (front ++ other :: back) ++ said :: earlier := by
    rw [List.append_assoc,List.cons_append]
    exact List.suffix_append _ _
  have nil := taken _ other inside (Bool.and_eq_true_iff.mp failed).1
  exact absurd nil (by simp)

private theorem takenFirst_one (past : Past) (taken : TakenFirst past) : (past.filter failedTake).length ≤ 1 := by
  induction past with
  | nil => exact Nat.zero_le 1
  | cons said past ih =>
    rw [List.filter_cons]
    split
    next failed =>
      have nil := taken past said (List.suffix_refl _) (Bool.and_eq_true_iff.mp failed).1
      rw [nil]
      exact Nat.le_refl 1
    · exact ih fun before other inside => taken before other (inside.trans (List.suffix_cons ..))

private theorem first_covered (history : History config job past state) (taken : TakenFirst past) {said : Act × Call}
    (member : said ∈ past) {entries : List Reply} (closed : said.2.closed = some (entries,true)) {reply : Reply}
    (inside : reply ∈ entries) (recent : isRecent said.1.now reply = true) :
    (enqueues past = [reply] ∧ ∃ counts, said.2.counts = some counts ∧ counts.resumed = 1) ∨ (comments past).length = 1 := by
  obtain ⟨later,earlier,shape,fact,first⟩ := first_split history member closed
  obtain ⟨enqueued,_,texts⟩ := around history shape first
  rw [shape] at taken
  have none' := takenFirst_later taken
  have before := takenFirst_part taken
  rw [enqueued,texts,none',List.map_nil,List.nil_append]
  cases fact with
  | lost act => cases closed
  | idle act own first none' =>
    obtain ⟨rfl,rfl⟩ := Prod.mk.inj (Option.some.inj closed)
    rcases none' with never | rfl
    · cases never
    · cases inside
  | started act own now =>
    obtain ⟨rfl,_⟩ := Prod.mk.inj (Option.some.inj closed)
    have quiet : earlier.filter failedTake = [] := by
      rcases now with take | none'
      · rw [before earlier _ (List.suffix_refl _) take]
        rfl
      · rw [List.filter_eq_nil_iff]
        intro other member failed
        have take := (Bool.and_eq_true_iff.mp failed).1
        exact absurd (List.any_eq_true.mpr ⟨other,member,take⟩) (by rw [none']; decide)
    dsimp only
    rw [quiet,List.map_nil,List.append_nil,start_comments]
    rcases Nat.eq_zero_or_pos (start config job act.now act.enqueued own).1.answered with zero | some'
    · obtain ⟨resumed,one⟩ := start_rest zero inside recent
      exact .inl ⟨one,_,rfl,resumed⟩
    · rw [if_pos some']
      exact .inr rfl
  | dropped act own settles after =>
    right
    have most := takenFirst_one earlier (@takenFirst_part [_] _ before)
    obtain ⟨other,member,failed⟩ := List.any_eq_true.mp after
    have least := List.length_pos_of_mem (List.mem_filter.mpr ⟨member,failed⟩)
    simp only [List.filterMap_nil,List.nil_append,List.length_map]
    omega

/-- Whatever takes and settles are made for a parked run, in any order and with any outcomes: one job at most is enqueued, for the
earliest recent reply to the run's own target, and every reply of the first close is accounted for. Where the take is the
first call, each recent reply is the one that was started or is answered by exactly one comment. -/
theorem held_answered (waits : LateForge.isTrue (job.data.field? "awaitInput") = true) (named : runIdOf job ≠ "")
    (store : HeldReplies.Store) (run : Runs (step config job) any ⟨store,false⟩ past state) : Answered config job past := by
  have history : History config job past state := by
    refine Runs.invariant (History config job) ?_ (fun _ _ act history _ => step_history waits named history act) run
    refine ⟨?_,Nat.zero_le 1,fun _ _ none' => absurd none' List.not_mem_nil,rfl⟩
    intro earlier said inside
    cases List.suffix_nil.mp inside
  have facts := facts_each history
  have one : ∀ reply ∈ enqueues past, ∃ said ∈ past, ∃ entries, said.2.closed = some (entries,true) ∧
      tried job said.1.now entries = some reply ∧ said.2.deeds.filterMap Deed.reply? = [reply] := by
    intro reply member
    obtain ⟨said,inside,own⟩ := List.mem_flatMap.mp member
    obtain ⟨earlier,fact⟩ := facts said inside
    rcases fact_enqueued fact with none' | ⟨other,entries,closed,found,shape⟩
    · rw [none'] at own
      cases own
    · rw [shape] at own
      obtain rfl := List.mem_singleton.mp own
      exact ⟨said,inside,entries,closed,found,shape⟩
  refine ⟨?_,?_,?_,?_,?_,fun taken said member entries closed reply => first_covered history taken member closed⟩
  · cases found : enqueues past with
    | nil => exact Nat.zero_le 1
    | cons reply rest =>
      obtain ⟨said,member,entries,closed,_,shape⟩ := one reply (by rw [found]; exact List.mem_cons_self)
      obtain ⟨later,earlier,split,_,first⟩ := first_split history member closed
      rw [← found,(around history split first).1,shape]
      exact Nat.le_refl 1
  · intro reply member
    obtain ⟨said,inside,entries,closed,found,_⟩ := one reply member
    exact ⟨said,inside,entries,closed,found⟩
  · intro said member entries closed
    obtain ⟨later,earlier,split,fact,first⟩ := first_split history member closed
    obtain ⟨counts,own,total,_⟩ := fact_first fact closed
    rw [(around history split first).2.1,own]
    exact total
  · intro said member entries closed
    obtain ⟨later,earlier,split,fact,first⟩ := first_split history member closed
    obtain ⟨counts,own,_,dropped⟩ := fact_first fact closed
    refine ⟨counts,own,dropped.imp_right ?_⟩
    rintro ⟨failed,all⟩
    obtain ⟨other,inside,take⟩ := List.any_eq_true.mp failed
    exact ⟨List.any_eq_true.mpr ⟨other,by rw [split]; simp [inside],take⟩,all⟩
  · intro extra
    obtain ⟨said,member,own⟩ := List.mem_flatMap.mp extra
    obtain ⟨earlier,fact⟩ := facts said member
    obtain ⟨reply,shape,which⟩ := fact_extra fact own
    exact ⟨said,member,reply,shape,which⟩

end Results

section Samples

def answerText : List Char :=
  "\x7b\"kind\":\"issue\",\"repo\":\"o/r\",\"target\":\x7b\"type\":\"issue\",\"number\":7\x7d\x7d".toList

def answerFields : List (String × Json) :=
  [("kind",.string "issue"),("repo",.string "o/r"),("target",.object [("type",.string "issue"),("number",.number 7)])]

/-- One text and its document. -/
def oneAnswer : Config := ⟨fun text => if text = answerText then some (.object answerFields) else none,⟨none,some "pi-jobs"⟩⟩

def asking : Job := ⟨"job-1",.object (answerFields ++ [("awaitInput",.bool true)]),"pi-jobs",none,none⟩

def reply (last : Char) (instant : Instant) : HeldEntry := ⟨List.replicate 31 '0' ++ [last],instant,.dedup,answerText⟩

/-- Two people have answered. -/
def twoReplies : HeldReplies.Store := ⟨some "host-1",false,[reply '1' 1000000,reply '2' 1000001]⟩

def takenOnce : List Act := [.take .answers 1000002 .started,.settle .answers 1000003 .threw]

theorem held_answered_two : Answered oneAnswer asking (answered (step oneAnswer asking) ⟨twoReplies,false⟩ takenOnce) :=
  held_answered (by decide) (by decide) twoReplies (runs_after (step oneAnswer asking) ⟨twoReplies,false⟩ takenOnce)

/-- A take that could not close, and another one. -/
def takenTwice : List Act := [.take .fails 1000002 .threw,.take .answers 1000003 .started]

/-- A reply is answered twice: nothing could be started, and one reply was taken. -/
theorem taken_twice_contradicts :
    ¬∀ (config : Config) (job : Job) (store : HeldReplies.Store) (past : Past) (state : State),
      LateForge.isTrue (job.data.field? "awaitInput") = true → runIdOf job ≠ "" →
      Runs (step config job) any ⟨store,false⟩ past state →
      ∀ said ∈ past, ∀ entries, said.2.closed = some (entries,true) → ∀ reply ∈ entries, isRecent said.1.now reply = true →
      enqueues past = [reply] ∨ (comments past).length = 1 := by
  intro covered
  have run := runs_after (step oneAnswer asking) ⟨twoReplies,false⟩ takenTwice
  have second : ⟨(reply '2' 1000001).id,1000001,.object answerFields⟩ ∈ entriesOf oneAnswer twoReplies.list := by
    simp [entriesOf,twoReplies,oneAnswer,reply,isObject]
  rcases covered oneAnswer asking twoReplies _ _ (by decide) (by decide) run _ List.mem_cons_self _ rfl _ second (by decide) with
    enqueued | one
  · have ids := congrArg (List.map Reply.id) enqueued
    exact absurd ids (by decide +kernel)
  · exact absurd one (by decide +kernel)

end Samples

end PiDispatch.HeldSettle
