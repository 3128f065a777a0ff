import PiDispatch.InboxRelay

/-! Withdrawing a queued message is a guarantee: in every interleaving of any number of relays' passes with pushes,
acks and withdrawals, under faults of the files, the pipe and the inbox. A message that a runner was ever shown had left
`queued` before, and never comes back to it. -/
namespace PiDispatch.InboxRelay
open Kernel SteerInbox

/-- A message that has left `queued` stays out of it, and a withdrawn one stays withdrawn. -/
private def Later (before after : MessageState) : Prop :=
  (before ≠ .queued → after ≠ .queued) ∧ (before = .withdrawn → after = .withdrawn)

section Fates

private theorem later_self (state : MessageState) : Later state state := ⟨fun left => left,fun own => own⟩

private theorem push_other {inbox : Inbox} {entry : Entry} {id : String} {state : MessageState}
    (found : inbox.state.get? id = some state) (absent : (inbox.state.get? entry.id).isNone) :
    (inbox.push entry).state.get? id = some state := by
  have apart : id ≠ entry.id := by
    rintro rfl
    rw [found] at absent
    cases absent
  exact (Dict.get?_set_ne _ _ apart.symm).trans found

private theorem seed_other {inbox : Inbox} (batch : List Entry) {id : String} {state : MessageState}
    (found : inbox.state.get? id = some state) : (batch.foldl seed inbox).state.get? id = some state := by
  induction batch generalizing inbox with
  | nil => exact found
  | cons entry batch ih =>
    refine ih ?_
    unfold seed
    split
    next absent => exact push_other found absent
    · exact found

private theorem push_fate {inbox : Inbox} (entry : Entry) {id : String} {state : MessageState}
    (found : inbox.state.get? id = some state) : (PUSH_SCRIPT inbox entry).2.state.get? id = some state := by
  unfold PUSH_SCRIPT
  split
  · exact found
  next absent =>
    split
    · exact found
    split
    · exact found
    split
    · exact found
    · exact push_other found (by simpa using absent)

private theorem preseed_fate {inbox : Inbox} (batch : List Entry) {id : String} {state : MessageState}
    (found : inbox.state.get? id = some state) : (PRESEED_SCRIPT inbox batch).2.state.get? id = some state := by
  unfold PRESEED_SCRIPT
  split
  · exact found
  · dsimp only
    split
    · exact found
    · exact seed_other batch found

/-- Writing one message's state: its own next one, and every other's as it was. -/
private theorem set_fate {dict : Dict String MessageState} (other : String) (next : MessageState) {id : String}
    {state : MessageState} (found : dict.get? id = some state) :
    ∃ after, (dict.set other next).get? id = some after ∧ (after = state ∨ id = other ∧ after = next) := by
  rcases eq_or_ne id other with rfl | apart
  · exact ⟨next,by rw [Dict.get?_set,if_pos rfl],.inr ⟨rfl,rfl⟩⟩
  · exact ⟨state,(Dict.get?_set_ne _ _ apart.symm).trans found,.inl rfl⟩

private theorem withdraw_fate {inbox : Inbox} (other : String) {id : String} {state : MessageState}
    (found : inbox.state.get? id = some state) :
    ∃ after, (WITHDRAW_SCRIPT inbox other).2.state.get? id = some after ∧ Later state after := by
  unfold WITHDRAW_SCRIPT
  split
  · exact ⟨state,found,later_self state⟩
  next current stands =>
    dsimp only
    split
    · obtain ⟨after,stored,rfl | ⟨_,rfl⟩⟩ := set_fate other .withdrawn found
      · exact ⟨_,stored,later_self _⟩
      · exact ⟨_,stored,by simp [Later]⟩
    · exact ⟨state,found,later_self state⟩

private theorem close_fate {inbox : Inbox} {id : String} {state : MessageState} (found : inbox.state.get? id = some state) :
    ∃ after, (CLOSE_SCRIPT inbox).2.state.get? id = some after ∧ Later state after := by
  refine ⟨settled id state,?_,?_⟩
  · change (inbox.state.mapValues settled).get? id = _
    rw [Dict.get?_mapValues,found]
    rfl
  · cases state <;> simp [Later,settled,waiting]

/-- A mark leaves every message where it is, but one in a state that it moves. -/
private theorem mark_fate {inbox : Inbox} (other : String) (priors : List MessageState) (next : MessageState) {id : String}
    {state : MessageState} (found : inbox.state.get? id = some state) :
    ∃ after, (MARK_SCRIPT inbox other next priors).2.state.get? id = some after ∧
      (after = state ∨ after = next ∧ id = other ∧ state ∈ priors) := by
  unfold MARK_SCRIPT
  split
  · exact ⟨state,found,.inl rfl⟩
  next current stands =>
    split
    next moved =>
      obtain ⟨after,stored,rfl | ⟨rfl,rfl⟩⟩ := set_fate other next found
      · exact ⟨_,stored,.inl rfl⟩
      · rw [found] at stands
        obtain rfl := Option.some.inj stands
        exact ⟨_,stored,.inr ⟨rfl,rfl,moved⟩⟩
    · exact ⟨state,found,.inl rfl⟩

variable (texts : Texts)

private theorem client_fate {inbox : Inbox} {act : Act} (own : isClient act) {id : String} {state : MessageState}
    (found : inbox.state.get? id = some state) :
    ∃ after, (step texts act inbox).2.state.get? id = some after ∧ Later state after := by
  have same : ∃ after, inbox.state.get? id = some after ∧ Later state after := ⟨state,found,later_self state⟩
  cases act with
  | pushSteer raw now =>
    unfold step
    dsimp only
    split
    · exact same
    · exact ⟨state,push_fate _ found,later_self state⟩
  | preseedInbox raws now =>
    unfold step
    dsimp only
    split
    · exact same
    · exact ⟨state,preseed_fate _ found,later_self state⟩
  | registerLive targetKey host =>
    unfold step
    dsimp only
    split
    · exact same
    split <;> exact same
  | holdLive targetKey host =>
    unfold step
    dsimp only
    split
    · exact same
    split
    · exact same
    · unfold HOLD_SCRIPT
      split <;> exact same
  | withdrawSteer other =>
    unfold step
    dsimp only
    split
    · exact same
    · exact withdraw_fate other found
  | closeInbox targetKey =>
    unfold step
    dsimp only
    split
    · exact same
    · exact close_fate found
  | markState => exact own.elim

private theorem move_fate {inbox : Inbox} (other : String) (move : Move) {id : String} {state : MessageState}
    (found : inbox.state.get? id = some state) :
    ∃ after, (step texts (.markState other move.priors move.next) inbox).2.state.get? id = some after ∧
      (after = state ∨ after = move.next ∧ id = other ∧ state ∈ move.priors) := by
  unfold step
  dsimp only
  split
  · exact ⟨state,found,.inl rfl⟩
  split
  · exact ⟨state,found,.inl rfl⟩
  · exact mark_fate other move.priors move.next found

/-- A mark that is answered has found its message in a state that it moves. -/
private theorem move_marked {inbox : Inbox} {id : String} {move : Move} {prior : Option MessageState}
    (marked : (step texts (.markState id move.priors move.next) inbox).1 = .marked true prior) :
    (∃ state ∈ move.priors, inbox.state.get? id = some state) ∧
      (step texts (.markState id move.priors move.next) inbox).2.state.get? id = some move.next := by
  unfold step at marked ⊢
  dsimp only at marked ⊢
  split at marked
  · cases marked
  split at marked
  · cases marked
  next steer _ =>
    rw [if_neg steer,if_neg ‹_›]
    unfold MARK_SCRIPT at marked ⊢
    split at marked
    · cases marked
    next current stands =>
      split at marked
      next moved =>
        rw [if_pos moved]
        exact ⟨⟨current,moved,stands⟩,by rw [Dict.get?_set,if_pos rfl]⟩
      · cases marked

private theorem move_left (move : Move) : move.next ≠ .queued := by cases move <;> simp [Move.next]

end Fates

/-- The message has left `queued` other than by a withdrawal that found it there. -/
def Handed (store : Store) (id : String) : Prop :=
  (∃ state, store.inbox.state.get? id = some state ∧ state ≠ .queued) ∧ id ∉ store.guaranteed

section Programs
variable (texts : Texts) (handed : String → Prop)

/-- A relay shows what has left `queued`; it knows so from a mark that was answered, or from its own reading. -/
private def relayContract : Contract Relay where
  asks
    | .mark _ (.late prior) => prior ≠ .withdrawn
    | .rename _ id => handed id
    | .pipe id => handed id
    | _ => True
  told command reply := match command, reply with
    | .mark id move, .ok (.marked true _) => move.next = .written → handed id
    | .read, .ok reading => ∀ id, reading.state.get? id = some .written → handed id
    | _, _ => True

private abbrev Safe (program : Call Unit) : Prop := program.Keeps (relayContract handed) fun _ => True

/-- What a pass believes to be written has left `queued`. -/
private def Known (state : Dict String MessageState) : Prop := ∀ id, state.get? id = some .written → handed id

variable {handed}

private theorem ask_safe {command : Command} {next : Except Fault command.Carrier → Call Unit}
    (asks : (relayContract handed).asks command)
    (rest : ∀ reply, (relayContract handed).told command reply → Safe handed (next reply)) :
    Safe handed ((ask command).bind next) := ⟨asks,rest⟩

private theorem reread_safe {attempt : Attempt} {next : Memory → Call Unit} (rest : ∀ memory, Safe handed (next memory)) :
    Safe handed ((reread attempt).bind next) := by
  refine ⟨trivial,fun reply _ => ?_⟩
  cases reply with
  | ok memory => exact rest memory
  | error fault => exact rest _

private theorem note_safe {attempt : Attempt} {what : Note} {rest : Call Unit} (kept : Safe handed rest) :
    Safe handed (note attempt what rest) := ⟨trivial,fun _ _ => kept⟩

private theorem markLate_safe {entry : Entry} {state : MessageState} (waits : state ≠ .withdrawn) :
    Safe handed (markLate entry state) := ask_safe waits fun _ _ => trivial

private theorem markFirst_safe {entry : Entry} {state : MessageState} {shown refused : Call Unit}
    (known : state ≠ .queued → handed entry.id) (first : handed entry.id → Safe handed shown)
    (second : Safe handed refused) : Safe handed (markFirst entry state shown refused) := by
  unfold markFirst
  split
  · refine ask_safe trivial fun reply told => ?_
    split
    · exact first (told rfl)
    · exact second
  next left => exact first (known left)

private theorem writeFrame_safe {attempt : Attempt} {entry : Entry} {state : MessageState}
    (known : state ≠ .queued → handed entry.id) (waits : state ≠ .withdrawn) :
    Safe handed (writeFrame attempt entry state) := by
  refine reread_safe fun memory => ?_
  split
  · trivial
  split
  · exact markLate_safe waits
  split
  · exact markLate_safe waits
  · refine markFirst_safe known (fun own => note_safe (note_safe (reread_safe fun memory => ?_))) trivial
    split
    · trivial
    · refine ask_safe own fun reply _ => ?_
      split
      · trivial
      · exact note_safe trivial

private theorem place_safe {attempt : Attempt} {entry : Entry} {index : Nat} {state : MessageState}
    (known : state ≠ .queued → handed entry.id) (waits : state ≠ .withdrawn) :
    Safe handed (place attempt entry index state) := by
  refine reread_safe fun memory => ?_
  split
  · exact writeFrame_safe known waits
  split
  · exact markLate_safe waits
  · refine ask_safe trivial fun _ _ => ask_safe trivial fun reply _ => ?_
    split
    · trivial
    · refine markFirst_safe known (fun own => ask_safe own fun reply _ => ?_) (ask_safe trivial fun _ _ => trivial)
      split
      · exact ask_safe trivial fun _ _ => trivial
      · exact note_safe trivial

private theorem unlinkId_safe (attempt : Attempt) (id : String) : Safe handed (unlinkId attempt id) := by
  refine reread_safe fun memory => ?_
  split
  · trivial
  · refine note_safe ?_
    split
    · trivial
    · exact ask_safe trivial fun _ _ => trivial

private theorem walk_safe {attempt : Attempt} {state : Dict String MessageState} (known : Known handed state) (index : Nat)
    (entries : List Entry) : Safe handed (walk attempt state index entries) := by
  induction entries generalizing index with
  | nil => trivial
  | cons entry rest ih =>
    refine reread_safe fun memory => ?_
    split
    · trivial
    split
    · exact Program.keeps_bind (unlinkId_safe attempt entry.id) fun _ _ => ih _
    · exact Program.keeps_bind (unlinkId_safe attempt entry.id) fun _ _ => ih _
    · exact Program.keeps_bind (unlinkId_safe attempt entry.id) fun _ _ => ih _
    next own apart delivered late found =>
      split
      · exact ih _
      · refine Program.keeps_bind (place_safe ?_ ?_) fun _ _ => ih _
        · intro left
          refine known entry.id (found.trans ?_)
          cases own <;> simp_all
        · rintro rfl
          exact apart rfl
    · exact ih _

private theorem known_set {state : Dict String MessageState} (known : Known handed state) {id : String}
    {next : MessageState} (own : next = .written → handed id) : Known handed (state.set id next) := by
  intro other found
  rw [Dict.get?_set] at found
  split at found
  next same =>
    subst same
    exact own (Option.some.inj found)
  · exact known other found

private theorem acknowledge_keeps (ids : List String) {state : Dict String MessageState} (known : Known handed state) :
    (acknowledge state ids).Keeps (relayContract handed) fun result => ∀ next ∈ result, Known handed next := by
  induction ids generalizing state with
  | nil =>
    rintro _ ⟨rfl⟩
    exact known
  | cons id rest ih =>
    unfold acknowledge
    split
    · refine ⟨trivial,fun reply _ => ?_⟩
      dsimp only [Program.bind]
      split
      · exact ih (known_set known fun wrong => (nomatch wrong))
      · exact ih known
      · exact fun _ none => absurd none (by simp)
    · exact ih known

private theorem rebaseline_keeps (prior ids : List String) {state : Dict String MessageState} (known : Known handed state) :
    (rebaseline prior state ids).Keeps (relayContract handed) fun result => ∀ next ∈ result, Known handed next := by
  induction ids generalizing state with
  | nil =>
    rintro _ ⟨rfl⟩
    exact known
  | cons id rest ih =>
    unfold rebaseline
    split
    · refine ⟨trivial,fun reply told => ?_⟩
      dsimp only [Program.bind]
      split
      · exact ih (known_set known fun _ => told rfl)
      · exact ih known
      · exact fun _ none => absurd none (by simp)
    · exact ih known

private theorem rebased_safe {attempt : Attempt} {memory : Memory} {state : Dict String MessageState}
    {next : Dict String MessageState → Call Unit} (known : Known handed state)
    (rest : ∀ state, Known handed state → Safe handed (next state)) :
    Safe handed (rebased attempt memory state next) := by
  unfold rebased
  split
  · exact rest state known
  next prior _ =>
    refine Program.keeps_bind (acknowledge_keeps memory.priorAcked known) fun result told => ?_
    cases result with
    | none => trivial
    | some state =>
      refine Program.keeps_bind (rebaseline_keeps prior state.keys (told state rfl)) fun result told => ?_
      cases result with
      | none => trivial
      | some state => exact note_safe (rest state (told state rfl))

private theorem pass_safe (attempt : Attempt) : Safe handed (pass attempt) := by
  refine reread_safe fun memory => ?_
  split
  · trivial
  · refine ask_safe trivial fun _ _ => reread_safe fun memory => ?_
    split
    · trivial
    · refine ask_safe trivial fun reply told => ?_
      split
      · trivial
      next reading =>
        split
        · trivial
        · exact reread_safe fun memory => rebased_safe told fun state known => walk_safe known 0 _

private theorem enters_safe {program : Call Unit} (enters : Enters program) : Safe handed program := by
  cases enters with
  | client act own => exact ask_safe trivial fun _ _ => trivial
  | pass attempt => exact pass_safe attempt
  | delivered attempt id => exact ask_safe trivial fun _ _ => unlinkId_safe attempt id
  | event relay event => exact ask_safe trivial fun _ _ => trivial

end Programs

/-- What holds of every run's store, `handed` being what has left `queued` by its end. -/
private structure Sound (handed : String → Prop) (store : Store) : Prop where
  shown : ∀ id ∈ store.visible, handed id
  withdrawn : ∀ id ∈ store.guaranteed, store.inbox.state.get? id = some .withdrawn

/-- No more has left `queued` than by the end, and no promise is broken by the end. -/
private def Within (handed : String → Prop) (store : Store) : Prop :=
  (∀ id, Handed store id → handed id) ∧ ∀ id ∈ store.guaranteed, ¬handed id

section Steps
variable (texts : Texts)

private theorem promised_queued {act : Act} {inbox : Inbox} {id : String} (promise : id ∈ promised act (step texts act inbox).1) :
    inbox.state.get? id = some .queued ∧ (step texts act inbox).2.state.get? id = some .withdrawn := by
  unfold promised at promise
  split at promise
  next other answered =>
    obtain rfl := List.mem_singleton.mp promise
    unfold step at answered ⊢
    dsimp only at answered ⊢
    split at answered
    · cases answered
    next steer =>
      rw [if_neg steer]
      unfold WITHDRAW_SCRIPT at answered ⊢
      split at answered
      · cases answered
      next current stands =>
        cases answered
        exact ⟨stands,by simp [waiting]⟩
  · cases promise

private theorem delivered_fate {inbox : Inbox} (other : String) {id : String} {state : MessageState}
    (found : inbox.state.get? id = some state) :
    ∃ after, (MARK_SCRIPT inbox other .delivered [.written,.queued,.withdrawn]).2.state.get? id = some after ∧
      (after = state ∨ after = .delivered ∧ id = other) := by
  obtain ⟨after,stored,same | ⟨moved,own,_⟩⟩ := mark_fate other [.written,.queued,.withdrawn] .delivered found
  · exact ⟨after,stored,.inl same⟩
  · exact ⟨after,stored,.inr ⟨moved,own⟩⟩

/-- The inbox after a command, and the promises: a message out of `queued` stays out, unless promised to. -/
private theorem answer_left (store : Store) (command : Command) {id : String} {state : MessageState}
    (found : store.inbox.state.get? id = some state) (left : state ≠ .queued) :
    (∃ after, (answer texts store command).2.inbox.state.get? id = some after ∧ after ≠ .queued) ∧
    (id ∉ store.guaranteed → id ∉ (answer texts store command).2.guaranteed) := by
  have same : (∃ after, store.inbox.state.get? id = some after ∧ after ≠ .queued) ∧
      (id ∉ store.guaranteed → id ∉ store.guaranteed) := ⟨⟨state,found,left⟩,fun fresh => fresh⟩
  cases command with
  | inbox act own =>
    obtain ⟨after,stored,later,-⟩ := client_fate texts own found
    refine ⟨⟨after,stored,later left⟩,?_⟩
    intro fresh member
    rcases List.mem_append.mp member with promise | old
    · obtain ⟨queued,-⟩ := promised_queued texts promise
      rw [found] at queued
      exact left (Option.some.inj queued)
    · exact fresh old
  | mark other move =>
    obtain ⟨after,stored,rfl | ⟨rfl,_,_⟩⟩ := move_fate texts other move found
    · exact ⟨⟨after,stored,left⟩,same.2⟩
    · exact ⟨⟨_,stored,move_left move⟩,same.2⟩
  | delivered other =>
    obtain ⟨after,stored,rfl | ⟨rfl,_⟩⟩ := delivered_fate other found
    · exact ⟨⟨after,stored,left⟩,same.2⟩
    · exact ⟨⟨_,stored,by decide⟩,same.2⟩
  | _ => exact same

private theorem answer_guaranteed (store : Store) (command : Command) :
    ∀ id ∈ store.guaranteed, id ∈ (answer texts store command).2.guaranteed := by
  intro id member
  cases command with
  | inbox act own => exact List.mem_append_right _ member
  | _ => exact member

private theorem within_earlier {handed : String → Prop} {store store' : Store} {command : Command}
    {reply : Except Fault command.Carrier}
    (served : MayFail (answer texts) (unanswered texts) loses Shown store command reply store')
    (within : Within handed store') : Within handed store := by
  obtain ⟨-,⟨-,rfl⟩ | ⟨-,_,-,rfl | rfl⟩⟩ := served
  · refine ⟨?_,fun id member => within.2 id (answer_guaranteed texts store command id member)⟩
    rintro id ⟨⟨state,found,left⟩,fresh⟩
    obtain ⟨stays,quiet⟩ := answer_left texts store command found left
    exact within.1 id ⟨stays,quiet fresh⟩
  · exact within
  · refine ⟨?_,within.2⟩
    rintro id ⟨⟨state,found,left⟩,fresh⟩
    exact within.1 id ⟨(answer_left texts store command found left).1,fresh⟩

/-- What a command keeps, once its promises and what it shows are what the end allows. -/
private theorem answer_sound {handed : String → Prop} {store : Store} {command : Command} (holds : Sound handed store)
    (asks : (relayContract handed).asks command) (allowed : Shown store command)
    (kept : ∀ id ∈ store.guaranteed, ¬handed id) : Sound handed (answer texts store command).2 := by
  cases command with
  | inbox act own =>
    refine ⟨holds.shown,?_⟩
    intro id member
    rcases List.mem_append.mp member with promise | old
    · exact (promised_queued texts promise).2
    · obtain ⟨after,stored,-,stays⟩ := client_fate texts own (holds.withdrawn id old)
      rw [stays rfl] at stored
      exact stored
  | mark other move =>
    refine ⟨holds.shown,?_⟩
    intro id member
    obtain ⟨after,stored,rfl | ⟨-,-,moved⟩⟩ := move_fate texts other move (holds.withdrawn id member)
    · exact stored
    · cases move with
      | late prior => exact absurd (List.mem_singleton.mp moved).symm asks
      | _ => simp [Move.priors] at moved
  | delivered other =>
    refine ⟨holds.shown,?_⟩
    intro id member
    obtain ⟨after,stored,rfl | ⟨-,rfl⟩⟩ := delivered_fate other (holds.withdrawn id member)
    · exact stored
    · exact absurd (holds.shown id allowed) (kept id member)
  | rename file id => exact ⟨fun other shown => (List.mem_cons.mp shown).elim (fun own => own ▸ asks) (holds.shown other),holds.withdrawn⟩
  | pipe id => exact ⟨fun other shown => (List.mem_cons.mp shown).elim (fun own => own ▸ asks) (holds.shown other),holds.withdrawn⟩
  | _ => exact ⟨holds.shown,holds.withdrawn⟩

/-- An answered mark tells that its message is out of `queued`, and was found where no promised one is. -/
private theorem marked_handed {handed : String → Prop} {store : Store} {id : String} {move : Move}
    {prior : Option MessageState} (holds : Sound handed store) (asks : (relayContract handed).asks (.mark id move))
    (within : Within handed (answer texts store (.mark id move)).2)
    (marked : (answer texts store (.mark id move)).1 = .marked true prior) : handed id := by
  obtain ⟨⟨state,moved,stands⟩,stored⟩ := move_marked texts marked
  refine within.1 id ⟨⟨_,stored,move_left move⟩,?_⟩
  intro member
  rw [holds.withdrawn id member] at stands
  cases Option.some.inj stands
  cases move with
  | late prior => exact asks (List.mem_singleton.mp moved).symm
  | _ => simp [Move.priors] at moved

private theorem served_keeps {handed : String → Prop} {store store' : Store} {command : Command}
    {reply : Except Fault command.Carrier} (within : Within handed store') (holds : Sound handed store)
    (asks : (relayContract handed).asks command)
    (served : MayFail (answer texts) (unanswered texts) loses Shown store command reply store') :
    Sound handed store' ∧ (relayContract handed).told command reply := by
  have kept := (within_earlier texts served within).2
  obtain ⟨allowed,⟨rfl,rfl⟩ | ⟨-,fault,rfl,rest⟩⟩ := served
  · refine ⟨answer_sound texts holds asks allowed kept,?_⟩
    cases command with
    | mark id move =>
      generalize same : (answer texts store (.mark id move)).1 = reply
      cases reply with
      | marked own prior =>
        cases own with
        | true => exact fun _ => marked_handed texts holds asks within same
        | false => trivial
      | _ => trivial
    | read =>
      intro id found
      refine within.1 id ⟨⟨_,found,by decide⟩,?_⟩
      intro member
      have stands := holds.withdrawn id member
      have found : store.inbox.state.get? id = some .written := found
      rw [stands] at found
      cases found
    | _ => trivial
  · refine ⟨?_,by cases command <;> trivial⟩
    rcases rest with rfl | rfl
    · exact holds
    · have sound := answer_sound texts holds asks allowed kept
      exact ⟨sound.shown,fun id member => sound.withdrawn id (answer_guaranteed texts store command id member)⟩

end Steps

/-- Withdrawing a queued message is a guarantee: whatever relays, clients, acks and faults interleave, no runner is shown
a message whose withdrawal was answered `queued`, before that answer or after it. -/
theorem withdrawn_never_shown (texts : Texts) (framed : Nat → Bool) {world : World Store (Call Unit)}
    (reached : Reachable (relays texts) (.start framed) world) :
    ∀ id ∈ world.store.guaranteed, id ∉ world.store.visible := by
  have within : Within (Handed world.store) world.store := ⟨fun _ own => own,fun _ member own => own.2 member⟩
  obtain ⟨holds,-⟩ := callers_keep (relayContract (Handed world.store)) (fun _ => True) (Sound (Handed world.store))
    (Within (Handed world.store)) (fun _ _ _ _ served later => within_earlier texts served later)
    (fun _ enters => enters_safe enters)
    (fun _ _ _ _ later kept asks served => served_keeps texts later kept asks served)
    ⟨fun _ none => absurd none List.not_mem_nil,fun _ none => absurd none List.not_mem_nil⟩ reached within
  intro id promise shown
  exact within.2 id promise (holds.shown id shown)

section Samples

abbrev fileRelay : Attempt := ⟨0,"host-1",none,fun _ => true,fun _ _ => none,0⟩

abbrev enteringNow (act : Act) (own : isClient act) : Call Unit := (ask (.inbox act own)).bind fun _ => .done ()

abbrev meeting (event : Event) : Call Unit := (ask (.event 0 event)).bind fun _ => .done ()

/-- A pass has read two queued messages when the first of them is withdrawn. -/
def overtaken : List (Call Unit) :=
  [meeting .started,meeting (.afterBaseline [] []),enteringNow (.pushSteer (message "a" none) 0) trivial,
    enteringNow (.pushSteer (message "b" none) 0) trivial,pass fileRelay,
    enteringNow (.withdrawSteer (message "a" none).id) trivial]

private def checkedShown (store : Store) : Command → Bool
  | .delivered id => id ∈ store.visible
  | .event _ (.afterBaseline _ verified) => verified.all (· ∈ store.visible)
  | _ => true

private theorem checked_shown {store : Store} {command : Command} (passed : checkedShown store command) :
    Shown store command := by
  cases command with
  | delivered id => exact of_decide_eq_true (p := id ∈ store.visible) passed
  | event relay event =>
    cases event with
    | afterBaseline prior verified =>
      intro id member
      exact of_decide_eq_true (List.all_eq_true.mp passed id member)
    | _ => trivial
  | _ => trivial

def overtakenTurns : List Nat := [0,1,4,4,2,3,4,4,4,5] ++ List.replicate 20 4

abbrev overtakenRun : World Store (Call Unit) :=
  (relays plainTexts).turns (answering Fault (answer plainTexts)) ⟨.start fun _ => false,overtaken⟩ overtakenTurns

theorem withdrawn_never_shown_overtaken :
    (overtakenRun.store.guaranteed = [(message "a" none).id] ∧ overtakenRun.store.visible = [(message "b" none).id]) ∧
    ∀ id ∈ overtakenRun.store.guaranteed, id ∉ overtakenRun.store.visible := by
  refine ⟨by decide +kernel,withdrawn_never_shown plainTexts (fun _ => false) ?_⟩
  refine reachable_passes (relays plainTexts) _ checkedShown (fun _ _ passed => mayFail_answering (checked_shown passed))
    overtakenTurns (reachable_entered _ _ overtaken ?_) (by decide +kernel)
  intro agent member
  simp only [overtaken,List.mem_cons,List.not_mem_nil,or_false] at member
  rcases member with rfl | rfl | rfl | rfl | rfl | rfl
  · exact .event 0 _
  · exact .event 0 _
  · exact .client _ _
  · exact .client _ _
  · exact .pass fileRelay
  · exact .client _ _

end Samples

end PiDispatch.InboxRelay
