import PiDispatch.Kernel.Machine
import PiDispatch.SteerInbox

/-! Runs of one inbox: pushes, preseeds, registrations, holds, withdrawals, closes and marks by any number of clients,
each a step of its own. What was accepted is what the close that made it answers, and the caps hold throughout. -/
namespace PiDispatch.SteerInbox
open Kernel SteerFraming

inductive Act
  | pushSteer (raw : RawEntry) (now : Instant)
  | preseedInbox (raws : List RawEntry) (now : Instant)
  | registerLive (targetKey : Option String) (host : String)
  | holdLive (targetKey : Option String) (host : String)
  | withdrawSteer (id : String)
  | closeInbox (targetKey : Option String)
  | markState (id : String) (priors : List MessageState) (next : MessageState)
  deriving DecidableEq

inductive Answer
  | pushed (outcome : Pushed)
  | preseeded (outcome : Preseeded)
  | registered
  | held (held : Bool)
  | prior (state : Option MessageState)
  | closed (closing : Closing)
  | marked (ok : Bool) (prior : Option MessageState)
  | refused (reason : String)
  deriving DecidableEq

def badTarget (targetKey : Option String) : Bool := targetKey.any fun key => !STEER_TARGET_PREFIX.toList.isPrefixOf key.toList

def badHost (host : String) : Bool := host = "" || host.length > HOST_MAX

section Steps
variable (texts : Texts)

/-- The carried messages, each id once; a message needs a hop of at least 1. -/
def carried (now : Instant) (seen : List String) : List RawEntry → Except String (List Entry)
  | [] => .ok []
  | raw :: raws =>
    (check (raw.hop.any fun hop => 1 ≤ hop) "a carried message needs a hop of at least 1").bind fun _ =>
    (normalizeSteerEntry texts raw now).bind fun entry =>
    if entry.id ∈ seen then carried now seen raws
    else (carried now (entry.id :: seen) raws).bind fun rest => .ok (entry :: rest)

def batchOf (raws : List RawEntry) (now : Instant) : Except String (List Entry) :=
  (check (raws ≠ [] ∧ raws.length ≤ STEER_MAX_MESSAGES) "the carried messages are not a list of 1 to 16").bind fun _ =>
  carried texts now [] raws

def step (act : Act) (inbox : Inbox) : Answer × Inbox :=
  match act with
  | .pushSteer raw now =>
    match normalizeSteerEntry texts raw now with
    | .error reason => (.refused reason,inbox)
    | .ok entry => (.pushed (PUSH_SCRIPT inbox entry).1,(PUSH_SCRIPT inbox entry).2)
  | .preseedInbox raws now =>
    match batchOf texts raws now with
    | .error reason => (.refused reason,inbox)
    | .ok batch => (.preseeded (PRESEED_SCRIPT inbox batch).1,(PRESEED_SCRIPT inbox batch).2)
  | .registerLive targetKey host =>
    if badTarget targetKey then (.refused "the target key is not a steer target key",inbox)
    else if badHost host then (.refused "the host name is missing or too long",inbox)
    else (.registered,{ inbox with opened := some host })
  | .holdLive targetKey host =>
    if badTarget targetKey then (.refused "the target key is not a steer target key",inbox)
    else if badHost host then (.refused "the host name is missing or too long",inbox)
    else (.held (HOLD_SCRIPT inbox host).1,(HOLD_SCRIPT inbox host).2)
  | .withdrawSteer id =>
    if ¬isSteerId id.toList then (.refused "the message id is not 32 lowercase hex characters",inbox)
    else (.prior (WITHDRAW_SCRIPT inbox id).1,(WITHDRAW_SCRIPT inbox id).2)
  | .closeInbox targetKey =>
    if badTarget targetKey then (.refused "the target key is not a steer target key",inbox)
    else (.closed (CLOSE_SCRIPT inbox).1,(CLOSE_SCRIPT inbox).2)
  | .markState id priors next =>
    if ¬isSteerId id.toList then (.refused "the message id is not 32 lowercase hex characters",inbox)
    else if priors = [] then (.refused "the from states are not steer states",inbox)
    else (.marked (MARK_SCRIPT inbox id next priors).1.1 (MARK_SCRIPT inbox id next priors).1.2,
      (MARK_SCRIPT inbox id next priors).2)

abbrev Past := List (Act × Answer)

/-- The messages that an answer accepts, those of the given ids being there already. -/
def taken (present : List String) : Act × Answer → List Entry
  | (.pushSteer raw now,.pushed .ok) => (normalizeSteerEntry texts raw now).toOption.toList
  | (.preseedInbox raws now,.preseeded (.ok _)) =>
    ((batchOf texts raws now).toOption.getD []).filter fun entry => entry.id ∉ present
  | _ => []

/-- The accepted messages, in the order of their acceptance. -/
def accepted : Past → List Entry
  | [] => []
  | item :: past => accepted past ++ taken texts ((accepted past).map Entry.id) item

end Steps

/-- The counters agree with the list and the state hash, and the caps hold. -/
structure Counted (inbox : Inbox) : Prop where
  keys : inbox.state.keys = inbox.list.map Entry.id
  count : inbox.count = inbox.list.length
  bytes : inbox.bytes = (inbox.list.map Entry.bytes).sum
  most : inbox.count ≤ STEER_MAX_MESSAGES
  mostBytes : inbox.bytes ≤ STEER_TOTAL_MAX_BYTES

def isClose : Act × Answer → Bool
  | (_,.closed _) => true
  | _ => false

/-- The answer accepts messages. -/
def accepts : Answer → Bool
  | .pushed .ok => true
  | .preseeded (.ok _) => true
  | _ => false

section Scripts

private theorem absent_iff (inbox : Inbox) (id : String) : (inbox.state.get? id).isNone ↔ id ∉ inbox.state.keys := by
  rw [Option.isNone_iff_eq_none,Dict.get?_eq_none_iff]

private theorem present_iff (inbox : Inbox) (id : String) : (inbox.state.get? id).isSome ↔ id ∈ inbox.state.keys :=
  Dict.get?_isSome_iff ..

private theorem fresh_keys (inbox : Inbox) (batch : List Entry) :
    inbox.fresh batch = batch.filter fun entry => entry.id ∉ inbox.state.keys := by
  unfold Inbox.fresh
  refine List.filter_congr fun entry _ => ?_
  rw [Bool.eq_iff_iff,absent_iff,decide_eq_true_iff]

/-- Writing a batch of distinct messages adds the fresh ones, in order, and nothing else. -/
private theorem seed_batch (batch : List Entry) (inbox : Inbox) (distinct : (batch.map Entry.id).Nodup) :
    (batch.foldl seed inbox).list = inbox.list ++ inbox.fresh batch ∧
    (batch.foldl seed inbox).state.keys = inbox.state.keys ++ (inbox.fresh batch).map Entry.id ∧
    (batch.foldl seed inbox).closed = inbox.closed := by
  induction batch generalizing inbox with
  | nil => simp [Inbox.fresh]
  | cons entry batch ih =>
    obtain ⟨alone,distinct⟩ := List.nodup_cons.mp distinct
    obtain ⟨list,keys,closed⟩ := ih (seed inbox entry) distinct
    rw [List.foldl_cons,list,keys,closed]
    simp only [fresh_keys]
    unfold seed
    split
    next absent =>
      have absent := (absent_iff inbox entry.id).mp absent
      have written : (inbox.push entry).state.keys = inbox.state.keys ++ [entry.id] := Dict.keys_set_absent _ _ absent
      have rest : batch.filter (fun other => other.id ∉ (inbox.push entry).state.keys) =
          batch.filter (fun other => other.id ∉ inbox.state.keys) := by
        refine List.filter_congr fun other member => ?_
        have apart : other.id ≠ entry.id := fun same => alone (same ▸ List.mem_map_of_mem member)
        simp [written,apart]
      rw [rest,written,List.filter_cons_of_pos (by simpa using absent)]
      simp [Inbox.push]
    next present =>
      have present : entry.id ∈ inbox.state.keys := by
        rw [absent_iff,not_not] at present
        exact present
      rw [List.filter_cons_of_neg (by simpa using present)]
      exact ⟨rfl,rfl,rfl⟩

variable {texts : Texts}

private theorem carried_distinct {now : Instant} {seen : List String} {raws : List RawEntry} {batch : List Entry}
    (ok : carried texts now seen raws = .ok batch) :
    (batch.map Entry.id).Nodup ∧ ∀ entry ∈ batch, entry.id ∉ seen := by
  induction raws generalizing seen batch with
  | nil =>
    cases ok
    exact ⟨List.nodup_nil,fun _ member => absurd member List.not_mem_nil⟩
  | cons raw raws ih =>
    unfold carried at ok
    obtain ⟨_,_,ok⟩ := passed_bind ok
    obtain ⟨entry,_,ok⟩ := passed_bind ok
    split at ok
    · exact ih ok
    next fresh =>
      obtain ⟨rest,kept,ok⟩ := passed_bind ok
      cases ok
      obtain ⟨distinct,apart⟩ := ih kept
      refine ⟨List.nodup_cons.mpr ⟨?_,distinct⟩,?_⟩
      · intro member
        obtain ⟨other,inside,same⟩ := List.mem_map.mp member
        exact apart other inside (same ▸ List.mem_cons_self)
      · intro other member
        rcases List.mem_cons.mp member with rfl | inside
        · exact fresh
        · exact fun old => apart other inside (List.mem_cons_of_mem _ old)

private theorem batch_distinct {raws : List RawEntry} {now : Instant} {batch : List Entry}
    (ok : batchOf texts raws now = .ok batch) : (batch.map Entry.id).Nodup := by
  obtain ⟨_,_,ok⟩ := passed_bind ok
  exact (carried_distinct ok).1

end Scripts

/-- A step that neither accepts nor closes. -/
private structure Quiet (inbox inbox' : Inbox) (answer : Answer) : Prop where
  closed : inbox'.closed = inbox.closed
  list : inbox'.list = inbox.list
  keys : inbox'.state.keys = inbox.state.keys
  count : inbox'.count = inbox.count
  bytes : inbox'.bytes = inbox.bytes
  accepts : accepts answer = false

/-- A step that accepts messages, which is told how many of a batch. -/
private structure Accepts (texts : Texts) (inbox inbox' : Inbox) (act : Act) (answer : Answer) : Prop where
  opened : inbox.closed = false
  stays : inbox'.closed = false
  list : inbox'.list = inbox.list ++ taken texts inbox.state.keys (act,answer)
  keys : inbox'.state.keys = inbox.state.keys ++ (taken texts inbox.state.keys (act,answer)).map Entry.id
  count : inbox'.count = inbox.count + (taken texts inbox.state.keys (act,answer)).length
  bytes : inbox'.bytes = inbox.bytes + ((taken texts inbox.state.keys (act,answer)).map Entry.bytes).sum
  most : inbox'.count ≤ STEER_MAX_MESSAGES
  mostBytes : inbox'.bytes ≤ STEER_TOTAL_MAX_BYTES
  told : ∀ number, answer = .preseeded (.ok number) → number = (taken texts inbox.state.keys (act,answer)).length
  plain : isClose (act,answer) = false

section Steps
variable {texts : Texts}

private theorem quiet_same (inbox : Inbox) {answer : Answer} (plain : accepts answer = false) : Quiet inbox inbox answer :=
  ⟨rfl,rfl,rfl,rfl,rfl,plain⟩

private theorem push_moves {inbox : Inbox} {raw : RawEntry} {now : Instant} {entry : Entry}
    (normal : normalizeSteerEntry texts raw now = .ok entry) :
    Quiet inbox (PUSH_SCRIPT inbox entry).2 (.pushed (PUSH_SCRIPT inbox entry).1) ∨
    Accepts texts inbox (PUSH_SCRIPT inbox entry).2 (.pushSteer raw now) (.pushed (PUSH_SCRIPT inbox entry).1) := by
  unfold PUSH_SCRIPT
  split
  · exact .inl (quiet_same inbox rfl)
  next absent =>
    split
    · exact .inl (quiet_same inbox rfl)
    next opened =>
      split
      · exact .inl (quiet_same inbox rfl)
      split
      · exact .inl (quiet_same inbox rfl)
      next room =>
        right
        have entries : taken texts inbox.state.keys (.pushSteer raw now,.pushed .ok) = [entry] := by
          simp [taken,normal,Except.toOption]
        have fresh : entry.id ∉ inbox.state.keys := fun member => absent ((present_iff ..).mpr member)
        have opened := (Bool.not_eq_true _).mp opened
        refine ⟨opened,opened,?_,?_,?_,?_,?_,?_,(by rintro _ ⟨⟩),rfl⟩
        · rw [entries]
          rfl
        · rw [entries]
          exact Dict.keys_set_absent _ _ fresh
        · rw [entries]
          rfl
        · rw [entries]
          simp
        · dsimp only
          omega
        · dsimp only
          omega

private theorem preseed_moves {inbox : Inbox} {raws : List RawEntry} {now : Instant} {batch : List Entry}
    (normal : batchOf texts raws now = .ok batch) :
    Quiet inbox (PRESEED_SCRIPT inbox batch).2 (.preseeded (PRESEED_SCRIPT inbox batch).1) ∨
    Accepts texts inbox (PRESEED_SCRIPT inbox batch).2 (.preseedInbox raws now)
      (.preseeded (PRESEED_SCRIPT inbox batch).1) := by
  unfold PRESEED_SCRIPT
  split
  · exact .inl (quiet_same inbox rfl)
  next opened =>
    dsimp only
    split
    · exact .inl (quiet_same inbox rfl)
    next room =>
      right
      have opened := (Bool.not_eq_true _).mp opened
      obtain ⟨list,keys,closed⟩ := seed_batch batch inbox (batch_distinct normal)
      have entries : ∀ number, taken texts inbox.state.keys (.preseedInbox raws now,.preseeded (.ok number)) =
          inbox.fresh batch := by
        intro number
        rw [fresh_keys]
        simp [taken,normal,Except.toOption]
      refine ⟨opened,closed.trans opened,?_,?_,?_,?_,?_,?_,?_,rfl⟩
      · rw [entries]
        exact list
      · rw [entries]
        exact keys
      · rw [entries]
      · rw [entries]
      · dsimp only
        omega
      · dsimp only
        omega
      · intro number told
        rw [entries]
        cases told
        rfl

private theorem set_quiet {inbox : Inbox} {id : String} (next : MessageState) {answer : Answer}
    (present : (inbox.state.get? id).isSome) (plain : accepts answer = false) :
    Quiet inbox { inbox with state := inbox.state.set id next } answer :=
  ⟨rfl,rfl,Dict.keys_set_present _ _ ((present_iff ..).mp present),rfl,rfl,plain⟩

private theorem withdraw_quiet (inbox : Inbox) (id : String) :
    Quiet inbox (WITHDRAW_SCRIPT inbox id).2 (.prior (WITHDRAW_SCRIPT inbox id).1) := by
  unfold WITHDRAW_SCRIPT
  split
  · exact quiet_same inbox rfl
  next current found =>
    dsimp only
    split
    · exact set_quiet .withdrawn (by rw [found]; rfl) rfl
    · exact quiet_same inbox rfl

private theorem mark_quiet (inbox : Inbox) (id : String) (next : MessageState) (priors : List MessageState) :
    Quiet inbox (MARK_SCRIPT inbox id next priors).2
      (.marked (MARK_SCRIPT inbox id next priors).1.1 (MARK_SCRIPT inbox id next priors).1.2) := by
  unfold MARK_SCRIPT
  split
  · exact quiet_same inbox rfl
  next current found =>
    split
    · exact set_quiet next (by rw [found]; rfl) rfl
    · exact quiet_same inbox rfl

private theorem hold_quiet (inbox : Inbox) (host : String) :
    Quiet inbox (HOLD_SCRIPT inbox host).2 (.held (HOLD_SCRIPT inbox host).1) := by
  unfold HOLD_SCRIPT
  split <;> exact ⟨rfl,rfl,rfl,rfl,rfl,rfl⟩

/-- What a step can do: nothing to the messages, accept some, or close. -/
private theorem step_moves (act : Act) (inbox : Inbox) :
    (Quiet inbox (step texts act inbox).2 (step texts act inbox).1 ∧ isClose (act,(step texts act inbox).1) = false) ∨
    Accepts texts inbox (step texts act inbox).2 act (step texts act inbox).1 ∨
    step texts act inbox = (.closed (CLOSE_SCRIPT inbox).1,(CLOSE_SCRIPT inbox).2) := by
  cases act with
  | pushSteer raw now =>
    unfold step
    dsimp only
    split
    · exact .inl ⟨quiet_same inbox rfl,rfl⟩
    next entry normal => exact (push_moves normal).elim (fun quiet => .inl ⟨quiet,rfl⟩) fun more => .inr (.inl more)
  | preseedInbox raws now =>
    unfold step
    dsimp only
    split
    · exact .inl ⟨quiet_same inbox rfl,rfl⟩
    next batch normal => exact (preseed_moves normal).elim (fun quiet => .inl ⟨quiet,rfl⟩) fun more => .inr (.inl more)
  | registerLive targetKey host =>
    unfold step
    dsimp only
    split
    · exact .inl ⟨quiet_same inbox rfl,rfl⟩
    split
    · exact .inl ⟨quiet_same inbox rfl,rfl⟩
    · exact .inl ⟨⟨rfl,rfl,rfl,rfl,rfl,rfl⟩,rfl⟩
  | holdLive targetKey host =>
    unfold step
    dsimp only
    split
    · exact .inl ⟨quiet_same inbox rfl,rfl⟩
    split
    · exact .inl ⟨quiet_same inbox rfl,rfl⟩
    · exact .inl ⟨hold_quiet inbox host,rfl⟩
  | withdrawSteer id =>
    unfold step
    dsimp only
    split
    · exact .inl ⟨quiet_same inbox rfl,rfl⟩
    · exact .inl ⟨withdraw_quiet inbox id,rfl⟩
  | closeInbox targetKey =>
    unfold step
    dsimp only
    split
    · exact .inl ⟨quiet_same inbox rfl,rfl⟩
    · exact .inr (.inr rfl)
  | markState id priors next =>
    unfold step
    dsimp only
    split
    · exact .inl ⟨quiet_same inbox rfl,rfl⟩
    split
    · exact .inl ⟨quiet_same inbox rfl,rfl⟩
    · exact .inl ⟨mark_quiet inbox id next priors,rfl⟩

end Steps

/-- The close that made it: it answers every message accepted before it, each settled, and nothing is accepted after. -/
structure Closes (texts : Texts) (later : Past) (closing : Closing) (earlier : Past) : Prop where
  first : closing.first = true
  before : ∀ item ∈ earlier, isClose item = false
  after : ∀ item ∈ later, accepts item.2 = false ∧ ∀ other, item.2 = .closed other → other.first = false
  entries : closing.entries = accepted texts earlier
  once : (closing.entries.map Entry.id).Nodup
  settled : ∀ entry ∈ closing.entries,
    ∃ state ∈ closing.state.get? entry.id, state = .delivered ∨ state = .withdrawn ∨ state = .late

def ClosedOnce (texts : Texts) (past : Past) : Prop :=
  ∃ later act closing earlier, past = later ++ (act,.closed closing) :: earlier ∧ Closes texts later closing earlier

/-- A preseed's answer counts the messages that it accepted. -/
def Told (texts : Texts) (past : Past) : Prop :=
  ∀ later act number earlier, past = later ++ (act,.preseeded (.ok number)) :: earlier →
    number = (taken texts ((accepted texts earlier).map Entry.id) (act,.preseeded (.ok number))).length

section Law
variable {texts : Texts}

/-- The invariant of every run. -/
private structure Invariant (texts : Texts) (past : Past) (inbox : Inbox) : Prop where
  counted : Counted inbox
  list : inbox.list = accepted texts past
  told : Told texts past
  opened : inbox.closed = false → ∀ item ∈ past, isClose item = false
  closed : inbox.closed = true → ClosedOnce texts past

private theorem taken_none {present : List String} {act : Act} {answer : Answer} (plain : accepts answer = false) :
    taken texts present (act,answer) = [] := by
  unfold taken
  split
  next same =>
    obtain ⟨-,rfl⟩ := Prod.mk.inj same
    cases plain
  next same =>
    obtain ⟨-,rfl⟩ := Prod.mk.inj same
    cases plain
  · rfl

private theorem told_next {past : Past} {act : Act} {answer : Answer} (told : Told texts past)
    (now : ∀ number, answer = .preseeded (.ok number) →
      number = (taken texts ((accepted texts past).map Entry.id) (act,answer)).length) :
    Told texts ((act,answer) :: past) := by
  intro later act' number earlier shape
  cases later with
  | nil =>
    obtain ⟨same,rfl⟩ := List.cons.inj shape
    obtain ⟨rfl,rfl⟩ := Prod.mk.inj same
    exact now number rfl
  | cons latest later => exact told later act' number earlier (List.cons.inj shape).2

private theorem closed_later {past : Past} {act : Act} {answer : Answer} (once : ClosedOnce texts past)
    (plain : accepts answer = false) (second : ∀ other, answer = .closed other → other.first = false) :
    ClosedOnce texts ((act,answer) :: past) := by
  obtain ⟨later,act',closing,earlier,rfl,closes⟩ := once
  refine ⟨(act,answer) :: later,act',closing,earlier,rfl,closes.first,closes.before,?_,closes.entries,closes.once,
    closes.settled⟩
  intro item member
  rcases List.mem_cons.mp member with rfl | old
  · exact ⟨plain,second⟩
  · exact closes.after item old

private theorem quiet_invariant {past : Past} {inbox inbox' : Inbox} {act : Act} {answer : Answer}
    (invariant : Invariant texts past inbox) (quiet : Quiet inbox inbox' answer) (plain : isClose (act,answer) = false) :
    Invariant texts ((act,answer) :: past) inbox' := by
  have counted := invariant.counted
  refine ⟨⟨?_,?_,?_,?_,?_⟩,?_,?_,?_,?_⟩
  · rw [quiet.keys,quiet.list]
    exact counted.keys
  · rw [quiet.count,quiet.list]
    exact counted.count
  · rw [quiet.bytes,quiet.list]
    exact counted.bytes
  · rw [quiet.count]
    exact counted.most
  · rw [quiet.bytes]
    exact counted.mostBytes
  · rw [quiet.list,accepted,taken_none quiet.accepts,List.append_nil]
    exact invariant.list
  · refine told_next invariant.told ?_
    rintro number rfl
    cases quiet.accepts
  · intro opened item member
    rw [quiet.closed] at opened
    rcases List.mem_cons.mp member with rfl | old
    · exact plain
    · exact invariant.opened opened item old
  · intro closed
    rw [quiet.closed] at closed
    refine closed_later (invariant.closed closed) quiet.accepts ?_
    rintro other rfl
    cases plain

private theorem accepts_invariant {past : Past} {inbox inbox' : Inbox} {act : Act} {answer : Answer}
    (invariant : Invariant texts past inbox) (more : Accepts texts inbox inbox' act answer) :
    Invariant texts ((act,answer) :: past) inbox' := by
  have counted := invariant.counted
  have present : inbox.state.keys = (accepted texts past).map Entry.id := by rw [counted.keys,invariant.list]
  refine ⟨⟨?_,?_,?_,more.most,more.mostBytes⟩,?_,?_,?_,?_⟩
  · rw [more.keys,more.list,List.map_append,counted.keys]
  · rw [more.count,more.list,List.length_append,counted.count]
  · rw [more.bytes,more.list,List.map_append,List.sum_append,counted.bytes]
  · rw [more.list,accepted,← present,invariant.list]
  · refine told_next invariant.told ?_
    intro number same
    rw [← present]
    exact more.told number same
  · intro _ item member
    rcases List.mem_cons.mp member with rfl | old
    · exact more.plain
    · exact invariant.opened more.opened item old
  · intro closed
    rw [more.stays] at closed
    cases closed

/-- Every message of the list is settled by the close. -/
private theorem close_settled {inbox : Inbox} (counted : Counted inbox) {entry : Entry} (member : entry ∈ inbox.list) :
    ∃ state ∈ (CLOSE_SCRIPT inbox).1.state.get? entry.id, state = .delivered ∨ state = .withdrawn ∨ state = .late := by
  have stands : entry.id ∈ inbox.state.keys := by
    rw [counted.keys]
    exact List.mem_map_of_mem member
  rw [← Dict.get?_isSome_iff,Option.isSome_iff_exists] at stands
  obtain ⟨state,found⟩ := stands
  refine ⟨settled entry.id state,?_,?_⟩
  · change (inbox.state.mapValues settled).get? entry.id = _
    rw [Dict.get?_mapValues,found]
    rfl
  · cases state <;> simp [settled,waiting]

private theorem close_invariant {past : Past} {inbox : Inbox} (act : Act) (invariant : Invariant texts past inbox) :
    Invariant texts ((act,.closed (CLOSE_SCRIPT inbox).1) :: past) (CLOSE_SCRIPT inbox).2 := by
  have counted := invariant.counted
  refine ⟨⟨?_,counted.count,counted.bytes,counted.most,counted.mostBytes⟩,?_,?_,fun opened => (nomatch opened),fun _ => ?_⟩
  · exact (Dict.keys_mapValues ..).trans counted.keys
  · rw [accepted,taken_none rfl,List.append_nil]
    exact invariant.list
  · exact told_next invariant.told fun number told => (nomatch told)
  · cases flag : inbox.closed with
    | true =>
      refine closed_later (invariant.closed flag) rfl ?_
      rintro other same
      cases same
      exact congrArg not flag
    | false =>
      refine ⟨[],act,_,past,rfl,congrArg not flag,invariant.opened flag,fun _ member => absurd member List.not_mem_nil,
        invariant.list,?_,fun entry member => close_settled counted member⟩
      exact counted.keys ▸ inbox.state.distinct

private theorem step_invariant {past : Past} {inbox : Inbox} (act : Act) (invariant : Invariant texts past inbox) :
    Invariant texts ((act,(step texts act inbox).1) :: past) (step texts act inbox).2 := by
  rcases @step_moves texts act inbox with ⟨quiet,plain⟩ | more | closes
  · exact quiet_invariant invariant quiet plain
  · exact accepts_invariant invariant more
  · rw [closes]
    exact close_invariant act invariant

/-- The list and the state hash grow together, by what is accepted. -/
theorem step_grows (texts : Texts) (act : Act) (inbox : Inbox) :
    (step texts act inbox).2.list = inbox.list ++ taken texts inbox.state.keys (act,(step texts act inbox).1) ∧
    (step texts act inbox).2.state.keys =
      inbox.state.keys ++ (taken texts inbox.state.keys (act,(step texts act inbox).1)).map Entry.id := by
  rcases @step_moves texts act inbox with ⟨quiet,-⟩ | more | closes
  · rw [taken_none quiet.accepts,quiet.list,quiet.keys]
    simp
  · exact ⟨more.list,more.keys⟩
  · rw [closes,taken_none rfl]
    refine ⟨(List.append_nil _).symm,?_⟩
    exact (Dict.keys_mapValues ..).trans (List.append_nil _).symm

theorem step_closed (texts : Texts) (act : Act) (inbox : Inbox) :
    (step texts act inbox).2.closed = (inbox.closed || isClose (act,(step texts act inbox).1)) := by
  rcases @step_moves texts act inbox with ⟨quiet,plain⟩ | more | closes
  · rw [quiet.closed,plain,Bool.or_false]
  · rw [more.stays,more.opened,more.plain]
    rfl
  · rw [closes]
    exact (Bool.or_true _).symm

end Law

def anyAct (_ : Act) (_ : Inbox) : Prop := True

/-- No accepted message is lost: in every run the counters and the caps hold, and once any close has answered, exactly
one made it, with every message accepted. -/
theorem steer_messages_kept (texts : Texts) {past : Past} {inbox : Inbox}
    (run : Runs (step texts) anyAct .empty past inbox) :
    Counted inbox ∧ inbox.list = accepted texts past ∧ Told texts past ∧ (past.any isClose → ClosedOnce texts past) := by
  have invariant : Invariant texts past inbox := by
    refine run.invariant (Invariant texts) ?_ fun _ _ act kept _ => step_invariant act kept
    refine ⟨⟨rfl,rfl,rfl,by decide,by decide⟩,rfl,?_,fun _ _ member => absurd member List.not_mem_nil,
      fun closed => (nomatch closed)⟩
    intro later act number earlier shape
    simp at shape
  refine ⟨invariant.counted,invariant.list,invariant.told,fun answered => ?_⟩
  cases flag : inbox.closed with
  | true => exact invariant.closed flag
  | false =>
    obtain ⟨item,member,close⟩ := List.any_eq_true.mp answered
    rw [invariant.opened flag item member] at close
    cases close

section Samples

def plainTexts : Texts := ⟨id,fun text => text = "",fun _ => true,fun entry => entry.bytes ≤ 16000⟩

def message (letter : String) (hop : Option Int) : RawEntry where
  id := "0000000000000000000000000000000" ++ letter
  mode := "steer"
  source := "cli"
  author := .operator "ops"
  text := some "look at the failing test first"
  at' := some 1000
  deliveryId := none
  hop := hop

/-- A carried message waits, the run begins, a message is pushed and one withdrawn, and the run settles twice. -/
def settledTwice : List Act :=
  [.preseedInbox [message "a" (some 1)] 0,.registerLive none "host-1",.pushSteer (message "b" none) 0,
    .pushSteer (message "a" none) 0,.withdrawSteer (message "a" none).id,
    .markState (message "b" none).id [.queued] .written,.closeInbox none,.pushSteer (message "c" none) 0,.closeInbox none]

theorem steer_messages_kept_settled_twice :
    Counted (after (step plainTexts) .empty settledTwice) ∧
    ClosedOnce plainTexts (answered (step plainTexts) .empty settledTwice) := by
  have run : Runs (step plainTexts) anyAct .empty (answered (step plainTexts) .empty settledTwice)
      (after (step plainTexts) .empty settledTwice) := runs_after (step plainTexts) .empty settledTwice
  obtain ⟨counted,-,-,once⟩ := steer_messages_kept plainTexts run
  exact ⟨counted,once (by decide +kernel)⟩

end Samples

end PiDispatch.SteerInbox
