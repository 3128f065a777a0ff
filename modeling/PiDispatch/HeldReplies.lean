import PiDispatch.Clock
import PiDispatch.SteerFraming
import PiDispatch.Kernel.Machine
import PiDispatch.Kernel.Window

/-! Replies held for a run that is parking: the hold and the close, each one script, and the registration that opens
the run. An entry stands in the list as its JSON line; a fallback job stands as the text of its object. -/
namespace PiDispatch.HeldReplies
open Kernel SteerFraming

def HELD_MAX_ENTRIES : Nat := 20
def HELD_ENTRY_MAX_BYTES : Nat := 1024 * 1024
def AWAIT_TARGET_PREFIX : String := "run:await:target:"
def HOST_MAX : Nat := 255

inductive Route
  | dedup
  | preLabel
  deriving DecidableEq

def Route.text : Route → String
  | .dedup => "dedup"
  | .preLabel => "pre-label"

def HELD_ROUTES : List Route := [.dedup,.preLabel]

/-- An entry as the list stores it. -/
structure HeldEntry where
  id : List Char
  at' : Instant
  route : Route
  fallback : List Char
  deriving DecidableEq

def idOpening : List Char := ['{','"','i','d','"',':','"']

def idPrefix (id : List Char) : List Char := idOpening ++ (id ++ ['"'])

/-- The entry's JSON, its fields in their fixed order. -/
def HeldEntry.line (entry : HeldEntry) : List Char :=
  idPrefix entry.id ++ ",\"at\":".toList ++ (toString entry.at').toList ++ ",\"route\":\"".toList ++
    entry.route.text.toList ++ "\",\"fallback\":".toList ++ entry.fallback ++ ['}']

/-- The length in UTF-8. -/
def byteLength (text : List Char) : Nat := (text.map Char.utf8Size).sum

/-- What a receiver hands over; the time may be left out. -/
structure RawEntry where
  id : List Char
  at' : Option Instant
  route : String
  fallback : List Char
  deriving DecidableEq

def normalizeHeldEntry (raw : RawEntry) (now : Instant) : Except String HeldEntry :=
  if ¬isSteerId raw.id then .error "the held reply id is not 32 lowercase hex characters"
  else match HELD_ROUTES.find? fun route => route.text = raw.route with
    | none => .error "the route is not one of dedup, pre-label"
    | some route =>
      let entry : HeldEntry := ⟨raw.id,raw.at'.getD now,route,raw.fallback⟩
      let bytes := byteLength entry.line
      if bytes > HELD_ENTRY_MAX_BYTES then
        .error ("the held reply is " ++ toString bytes ++ " bytes, above the " ++ toString HELD_ENTRY_MAX_BYTES ++
          "-byte limit")
      else .ok entry

/-- One run's keys: the host that has it open, whether it is closed, and the list. -/
structure Store where
  opened : Option String
  closed : Bool
  list : List HeldEntry

def Store.empty : Store := ⟨none,false,[]⟩

inductive Outcome
  | ok
  | dup
  | closed
  | gone
  deriving DecidableEq

/-- `closed` first, then `gone`, then an id that is listed; at the cap the oldest entry goes. -/
def HOLD_SCRIPT (store : Store) (entry : HeldEntry) : Outcome × Store :=
  if store.closed then (.closed,store)
  else if store.opened.isNone then (.gone,store)
  else if store.list.any fun held => (idPrefix entry.id).isPrefixOf held.line then (.dup,store)
  else (.ok,{ store with list := lastOf HELD_MAX_ENTRIES (store.list ++ [entry]) })

/-- The list, and whether this call made the close. -/
def CLOSE_SCRIPT (store : Store) : (List HeldEntry × Bool) × Store :=
  ((store.list,!store.closed),{ store with closed := true, opened := none })

def isAwaitTarget (key : String) : Bool :=
  AWAIT_TARGET_PREFIX.toList.isPrefixOf key.toList &&
    isSteerId (key.toList.drop AWAIT_TARGET_PREFIX.length)

inductive Act
  | registerAwaitLive (targetKey : Option String) (host : String)
  | holdReply (raw : RawEntry) (now : Instant)
  | closeHeld (targetKey : Option String)
  deriving DecidableEq

inductive Answer
  | registered
  | held (outcome : Outcome)
  | closed (entries : List HeldEntry) (first : Bool)
  | refused (reason : String)
  deriving DecidableEq

def step (act : Act) (store : Store) : Answer × Store :=
  match act with
  | .registerAwaitLive none _ => (.registered,store)
  | .registerAwaitLive (some targetKey) host =>
    if ¬isAwaitTarget targetKey then (.refused "the target key is not an await target key",store)
    else if host = "" ∨ host.length > HOST_MAX then (.refused "the host name is missing or too long",store)
    else (.registered,{ store with opened := some host })
  | .holdReply raw now =>
    match normalizeHeldEntry raw now with
    | .error reason => (.refused reason,store)
    | .ok entry => (.held (HOLD_SCRIPT store entry).1,(HOLD_SCRIPT store entry).2)
  | .closeHeld targetKey =>
    if targetKey.any fun key => !isAwaitTarget key then (.refused "the target key is not an await target key",store)
    else (.closed (CLOSE_SCRIPT store).1.1 (CLOSE_SCRIPT store).1.2,(CLOSE_SCRIPT store).2)

def any (_ : Act) (_ : Store) : Prop := True

abbrev Past := List (Act × Answer)

/-- The entry a hold handed over, where it was accepted. -/
def acceptedOf : Act × Answer → Option HeldEntry
  | (.holdReply raw now,.held .ok) => (normalizeHeldEntry raw now).toOption
  | _ => none

/-- The accepted entries, in the order of their acceptance. -/
def accepted (past : Past) : List HeldEntry := (past.filterMap acceptedOf).reverse

def firstClose : Act × Answer → Bool
  | (_,.closed _ true) => true
  | _ => false

def isClose : Act × Answer → Bool
  | (_,.closed _ _) => true
  | _ => false

theorem accepted_append (later earlier : Past) : accepted (later ++ earlier) = accepted earlier ++ accepted later := by
  simp [accepted,List.filterMap_append]

theorem accepted_cons (entry : Act × Answer) (past : Past) :
    accepted (entry :: past) = accepted past ++ (acceptedOf entry).toList := by
  cases found : acceptedOf entry <;> simp [accepted,found]

section Lines

private theorem isSteerId_length {id : List Char} (steer : isSteerId id) : id.length = 32 := by
  simp only [isSteerId,Bool.and_eq_true,decide_eq_true_eq] at steer
  exact steer.1

private theorem normalize_id {raw : RawEntry} {now : Instant} {entry : HeldEntry}
    (ok : normalizeHeldEntry raw now = .ok entry) : entry.id = raw.id ∧ isSteerId entry.id := by
  unfold normalizeHeldEntry at ok
  split at ok
  · cases ok
  next steer =>
    split at ok
    · cases ok
    · dsimp only at ok
      split at ok
      · cases ok
      · cases ok
        exact ⟨rfl,not_not.mp steer⟩

/-- A line begins with an id's prefix exactly when it is that id's entry. -/
theorem idPrefix_line {id : List Char} {entry : HeldEntry} (steer : isSteerId id) (own : isSteerId entry.id) :
    (idPrefix id).isPrefixOf entry.line = true ↔ entry.id = id := by
  rw [List.isPrefixOf_iff_prefix]
  have lengths : (idPrefix id).length = (idPrefix entry.id).length := by
    simp [idPrefix,isSteerId_length steer,isSteerId_length own]
  have head : idPrefix entry.id <+: entry.line := by
    unfold HeldEntry.line
    simp only [List.append_assoc]
    exact List.prefix_append _ _
  constructor
  · intro found
    have same := List.prefix_of_prefix_length_le found head lengths.le
    have equal := same.eq_of_length lengths
    exact (List.append_cancel_right (List.append_cancel_left equal)).symm
  · rintro rfl
    exact head

end Lines

section Past

/-- An accepted entry comes from the hold that was answered `ok`, and those after it from later ones. -/
private theorem accepted_split {past : Past} {before after : List HeldEntry} {entry : HeldEntry}
    (shape : accepted past = before ++ entry :: after) :
    ∃ between raw now older, past = between ++ (.holdReply raw now,.held .ok) :: older ∧
      normalizeHeldEntry raw now = .ok entry ∧ accepted between = after := by
  induction past generalizing after with
  | nil => simp [accepted] at shape
  | cons latest past ih =>
    rw [accepted_cons] at shape
    cases found : acceptedOf latest with
    | none =>
      rw [found,Option.toList_none,List.append_nil] at shape
      obtain ⟨between,raw,now,older,rfl,normal,rest⟩ := ih shape
      refine ⟨latest :: between,raw,now,older,rfl,normal,?_⟩
      rw [accepted_cons,found,rest]
      simp
    | some own =>
      rw [found,Option.toList_some] at shape
      rcases List.eq_nil_or_concat after with rfl | ⟨rest,last,rfl⟩
      · obtain ⟨-,equal⟩ := List.append_inj' shape rfl
        obtain rfl := List.singleton_injective equal
        obtain ⟨act,answer⟩ := latest
        unfold acceptedOf at found
        split at found
        next raw now same =>
          obtain ⟨rfl,rfl⟩ := Prod.mk.inj same
          refine ⟨[],raw,now,past,rfl,?_,rfl⟩
          cases normal : normalizeHeldEntry raw now with
          | error reason => rw [normal] at found; cases found
          | ok entry => rw [normal] at found; cases found; rfl
        · cases found
      · rw [List.concat_eq_append,← List.cons_append,← List.append_assoc] at shape
        obtain ⟨earlier,equal⟩ := List.append_inj' shape rfl
        obtain rfl := List.singleton_injective equal
        obtain ⟨between,raw,now,older,rfl,normal,same⟩ := ih earlier
        refine ⟨latest :: between,raw,now,older,rfl,normal,?_⟩
        rw [accepted_cons,found,same]
        simp

/-- A hold is answered with an outcome only for an entry that is well formed. -/
private def Genuine (past : Past) : Prop :=
  ∀ raw now outcome, (Act.holdReply raw now,Answer.held outcome) ∈ past → ∃ entry, normalizeHeldEntry raw now = .ok entry

private theorem step_genuine (past : Past) (store : Store) (act : Act) (genuine : Genuine past) :
    Genuine ((act,(step act store).1) :: past) := by
  intro raw now outcome member
  rcases List.mem_cons.mp member with same | before
  · obtain ⟨rfl,answer⟩ := Prod.mk.inj same
    cases normal : normalizeHeldEntry raw now with
    | error reason => simp [step,normal] at answer
    | ok entry => exact ⟨entry,rfl⟩
  · exact genuine raw now outcome before

/-- A `dup` repeats an accepted hold of its id that the list still has. -/
private def Repeats (past : Past) : Prop :=
  ∀ since raw now before, past = since ++ (.holdReply raw now,.held .dup) :: before →
    ∃ between earlier then' older, before = between ++ (.holdReply earlier then',.held .ok) :: older ∧
      earlier.id = raw.id ∧ (accepted between).length < HELD_MAX_ENTRIES

/-- What an open run's list is: the last entries accepted, no id twice. -/
private structure Faithful (past : Past) (entries : List HeldEntry) : Prop where
  last : entries = lastOf HELD_MAX_ENTRIES (accepted past)
  unique : (entries.map HeldEntry.id).Nodup
  steer : ∀ entry ∈ entries, isSteerId entry.id
  genuine : Genuine past
  repeats : Repeats past

end Past

/-- The list names the id. -/
def Listed (entries : List HeldEntry) (id : List Char) : Prop := ∃ entry ∈ entries, entry.id = id

/-- What the close returns of the holds before it. An entry is missing only where the cap's worth of entries was
accepted after it; a `dup` shares the fate of the entry it repeats. -/
structure Kept (earlier : Past) (entries : List HeldEntry) : Prop where
  order : entries <:+ accepted earlier
  unique : (entries.map HeldEntry.id).Nodup
  room : entries.length ≤ HELD_MAX_ENTRIES
  ok : ∀ since raw now before, earlier = since ++ (.holdReply raw now,.held .ok) :: before →
    Listed entries raw.id ∨ HELD_MAX_ENTRIES ≤ (accepted since).length
  dup : ∀ since raw now before, earlier = since ++ (.holdReply raw now,.held .dup) :: before →
    ∃ between first then' older, before = between ++ (.holdReply first then',.held .ok) :: older ∧
      first.id = raw.id ∧ (accepted between).length < HELD_MAX_ENTRIES ∧
      (Listed entries raw.id ∨ HELD_MAX_ENTRIES ≤ (accepted (since ++ between)).length)

/-- Nothing is held after the close, and no other call made it. -/
def Settled (later : Past) : Prop :=
  ∀ entry ∈ later, firstClose entry = false ∧ entry.2 ≠ .held .ok ∧ entry.2 ≠ .held .dup

/-- The one close that made it, and what stands before and after it. -/
def ClosedOnce (past : Past) : Prop :=
  ∃ later act entries earlier, past = later ++ (act,.closed entries true) :: earlier ∧
    Settled later ∧ (∀ entry ∈ earlier, isClose entry = false) ∧ Kept earlier entries

section Law

private theorem ok_listed {earlier : Past} {entries : List HeldEntry} (faithful : Faithful earlier entries)
    {since before : Past} {raw : RawEntry} {now : Instant}
    (shape : earlier = since ++ (.holdReply raw now,.held .ok) :: before) :
    Listed entries raw.id ∨ HELD_MAX_ENTRIES ≤ (accepted since).length := by
  have member : (Act.holdReply raw now,Answer.held .ok) ∈ earlier := by rw [shape]; simp
  obtain ⟨entry,normal⟩ := faithful.genuine raw now .ok member
  rcases Nat.lt_or_ge (accepted since).length HELD_MAX_ENTRIES with few | many
  · left
    refine ⟨entry,?_,(normalize_id normal).1⟩
    have found : acceptedOf (.holdReply raw now,.held .ok) = some entry := by simp [acceptedOf,normal,Except.toOption]
    rw [faithful.last,shape,accepted_append,accepted_cons,found,Option.toList_some,List.append_assoc,
      List.singleton_append]
    exact lastOf_mem entry few
  · exact .inr many

private theorem faithful_kept {earlier : Past} {entries : List HeldEntry} (faithful : Faithful earlier entries) :
    Kept earlier entries := by
  refine ⟨?_,faithful.unique,?_,fun _ _ _ _ shape => ok_listed faithful shape,?_⟩
  · rw [faithful.last]
    exact lastOf_suffix _ _
  · rw [faithful.last]
    exact lastOf_length _ _
  · intro since raw now before shape
    obtain ⟨between,first,then',older,split,same,few⟩ := faithful.repeats since raw now before shape
    refine ⟨between,first,then',older,split,same,few,?_⟩
    have whole : earlier = (since ++ (.holdReply raw now,.held .dup) :: between) ++
        (.holdReply first then',.held .ok) :: older := by
      rw [shape,split]
      simp
    have none : acceptedOf (.holdReply raw now,.held .dup) = none := rfl
    have count : accepted (since ++ (.holdReply raw now,.held .dup) :: between) = accepted (since ++ between) := by
      rw [accepted_append,accepted_cons,none,accepted_append]
      simp
    rw [← same,← count]
    exact ok_listed faithful whole

/-- An act that accepts nothing and answers no `dup` leaves the list faithful. -/
private theorem faithful_idle {past : Past} {entries : List HeldEntry} {act : Act} {answer : Answer}
    (faithful : Faithful past entries) (genuine : Genuine ((act,answer) :: past))
    (none : acceptedOf (act,answer) = none) (plain : answer ≠ .held .dup) :
    Faithful ((act,answer) :: past) entries := by
  refine ⟨?_,faithful.unique,faithful.steer,genuine,?_⟩
  · rw [accepted_cons,none,Option.toList_none,List.append_nil]
    exact faithful.last
  · intro since raw now before shape
    cases since with
    | nil =>
      obtain ⟨same,-⟩ := List.cons.inj shape
      exact absurd (congrArg Prod.snd same) plain
    | cons latest since => exact faithful.repeats since raw now before (List.cons.inj shape).2

private theorem faithful_dup {past : Past} {entries : List HeldEntry} {raw : RawEntry} {now : Instant}
    (faithful : Faithful past entries) (genuine : Genuine ((.holdReply raw now,.held .dup) :: past))
    (listed : Listed entries raw.id) : Faithful ((.holdReply raw now,.held .dup) :: past) entries := by
  refine ⟨?_,faithful.unique,faithful.steer,genuine,?_⟩
  · rw [accepted_cons]
    simpa [acceptedOf] using faithful.last
  · intro since raw' now' before shape
    cases since with
    | cons latest since => exact faithful.repeats since raw' now' before (List.cons.inj shape).2
    | nil =>
      obtain ⟨same,rfl⟩ := List.cons.inj shape
      obtain ⟨entry,member,own⟩ := listed
      rw [faithful.last] at member
      obtain ⟨older,later,split,few⟩ := mem_lastOf member
      obtain ⟨between,first,then',rest,rfl,normal,count⟩ := accepted_split split
      refine ⟨between,first,then',rest,rfl,?_,by rw [count]; exact few⟩
      cases same
      rw [← own,(normalize_id normal).1]

private theorem faithful_ok {past : Past} {entries : List HeldEntry} {raw : RawEntry} {now : Instant}
    {entry : HeldEntry} (faithful : Faithful past entries)
    (genuine : Genuine ((.holdReply raw now,.held .ok) :: past)) (normal : normalizeHeldEntry raw now = .ok entry)
    (absent : ¬Listed entries entry.id) :
    Faithful ((.holdReply raw now,.held .ok) :: past) (lastOf HELD_MAX_ENTRIES (entries ++ [entry])) := by
  have suffix := lastOf_suffix HELD_MAX_ENTRIES (entries ++ [entry])
  refine ⟨?_,?_,?_,genuine,?_⟩
  · have found : acceptedOf (.holdReply raw now,.held .ok) = some entry := by simp [acceptedOf,normal,Except.toOption]
    rw [accepted_cons,found,Option.toList_some,faithful.last,lastOf_push]
  · refine (suffix.map HeldEntry.id).sublist.nodup ?_
    rw [List.map_append,List.nodup_append]
    refine ⟨faithful.unique,by simp,?_⟩
    intro id member id' single same
    rw [List.map_singleton,List.mem_singleton] at single
    obtain ⟨held,held_member,own⟩ := List.mem_map.mp member
    exact absent ⟨held,held_member,own.trans (same.trans single)⟩
  · intro held member
    rcases List.mem_append.mp (suffix.subset member) with before | single
    · exact faithful.steer held before
    · rw [List.mem_singleton.mp single]
      exact (normalize_id normal).2
  · intro since raw' now' before shape
    cases since with
    | nil => exact absurd (congrArg Prod.snd (List.cons.inj shape).1) (by simp)
    | cons latest since => exact faithful.repeats since raw' now' before (List.cons.inj shape).2

/-- The script's test of a line's beginning is the test for the id. -/
private theorem listed_any {entries : List HeldEntry} {id : List Char} (steer : isSteerId id)
    (own : ∀ entry ∈ entries, isSteerId entry.id) :
    (entries.any fun held => (idPrefix id).isPrefixOf held.line) = true ↔ Listed entries id := by
  rw [List.any_eq_true]
  constructor
  · rintro ⟨entry,member,found⟩
    exact ⟨entry,member,(idPrefix_line steer (own entry member)).mp found⟩
  · rintro ⟨entry,member,found⟩
    exact ⟨entry,member,(idPrefix_line steer (own entry member)).mpr found⟩

/-- The invariant of every run. -/
private structure Invariant (past : Past) (store : Store) : Prop where
  room : store.list.length ≤ HELD_MAX_ENTRIES
  open' : store.closed = false → (∀ entry ∈ past, isClose entry = false) ∧ Faithful past store.list
  closed : store.closed = true → ClosedOnce past

private theorem closed_once_later {past : Past} {latest : Act × Answer} (once : ClosedOnce past)
    (first : firstClose latest = false) (ok : latest.2 ≠ .held .ok) (dup : latest.2 ≠ .held .dup) :
    ClosedOnce (latest :: past) := by
  obtain ⟨later,act,entries,earlier,rfl,settled,early,kept⟩ := once
  refine ⟨latest :: later,act,entries,earlier,rfl,?_,early,kept⟩
  intro entry member
  rcases List.mem_cons.mp member with rfl | old
  · exact ⟨first,ok,dup⟩
  · exact settled entry old

/-- A step that leaves `closed` and the list alone and answers neither `ok`, `dup` nor a close. -/
private theorem invariant_idle {past : Past} {store store' : Store} {act : Act} {answer : Answer}
    (invariant : Invariant past store) (genuine : store.closed = false → Genuine ((act,answer) :: past))
    (flag : store'.closed = store.closed) (list : store'.list = store.list)
    (plain : isClose (act,answer) = false) (ok : answer ≠ .held .ok) (dup : answer ≠ .held .dup) :
    Invariant ((act,answer) :: past) store' := by
  have none : acceptedOf (act,answer) = none := by
    unfold acceptedOf
    split
    next same => exact absurd (congrArg Prod.snd same) ok
    · rfl
  refine ⟨by rw [list]; exact invariant.room,?_,?_⟩
  · intro opened
    rw [flag] at opened
    obtain ⟨early,faithful⟩ := invariant.open' opened
    rw [list]
    refine ⟨?_,faithful_idle faithful (genuine opened) none dup⟩
    intro entry member
    rcases List.mem_cons.mp member with rfl | old
    · exact plain
    · exact early entry old
  · intro closed
    rw [flag] at closed
    refine closed_once_later (invariant.closed closed) ?_ ok dup
    cases answer with
    | closed => cases plain
    | _ => rfl

private theorem hold_invariant {past : Past} {store : Store} {raw : RawEntry} {now : Instant} {entry : HeldEntry}
    (invariant : Invariant past store) (normal : normalizeHeldEntry raw now = .ok entry)
    (genuine : store.closed = false → Genuine ((.holdReply raw now,.held (HOLD_SCRIPT store entry).1) :: past)) :
    Invariant ((.holdReply raw now,.held (HOLD_SCRIPT store entry).1) :: past) (HOLD_SCRIPT store entry).2 := by
  have early : store.closed = false → ∀ outcome, ∀ item ∈ (Act.holdReply raw now,Answer.held outcome) :: past,
      isClose item = false := by
    intro opened outcome item member
    rcases List.mem_cons.mp member with rfl | old
    · rfl
    · exact (invariant.open' opened).1 item old
  unfold HOLD_SCRIPT at genuine ⊢
  split
  next closed =>
    exact invariant_idle invariant (fun opened => absurd (closed.symm.trans opened) (by simp)) rfl rfl rfl (by simp)
      (by simp)
  next opened =>
    have opened := (Bool.not_eq_true _).mp opened
    have genuine := genuine opened
    obtain ⟨-,faithful⟩ := invariant.open' opened
    rw [if_neg (by simp [opened])] at genuine
    split
    next gone =>
      rw [if_pos gone] at genuine
      exact invariant_idle invariant (fun _ => genuine) rfl rfl rfl (by simp) (by simp)
    next stays =>
      rw [if_neg stays] at genuine
      have test := listed_any (normalize_id normal).2 faithful.steer
      split
      next found =>
        rw [if_pos found] at genuine
        have listed := test.mp found
        rw [(normalize_id normal).1] at listed
        refine ⟨invariant.room,fun _ => ⟨early opened _,faithful_dup faithful genuine listed⟩,?_⟩
        exact fun closed => absurd (closed.symm.trans opened) (by simp)
      next absent =>
        rw [if_neg absent] at genuine
        refine ⟨lastOf_length _ _,fun _ => ⟨early opened _,?_⟩,?_⟩
        · exact faithful_ok faithful genuine normal fun listed => absent (test.mpr listed)
        · exact fun closed => absurd (closed.symm.trans opened) (by simp)

private theorem close_invariant {past : Past} {store : Store} (act : Act) (invariant : Invariant past store) :
    Invariant ((act,.closed (CLOSE_SCRIPT store).1.1 (CLOSE_SCRIPT store).1.2) :: past) (CLOSE_SCRIPT store).2 := by
  refine ⟨invariant.room,fun opened => (nomatch opened),fun _ => ?_⟩
  unfold CLOSE_SCRIPT
  dsimp only
  cases flag : store.closed with
  | true => exact closed_once_later (invariant.closed flag) rfl (by simp) (by simp)
  | false =>
    obtain ⟨early,faithful⟩ := invariant.open' flag
    exact ⟨[],act,store.list,past,rfl,fun _ member => absurd member (by simp),early,faithful_kept faithful⟩

private theorem step_invariant {past : Past} {store : Store} (act : Act) (invariant : Invariant past store) :
    Invariant ((act,(step act store).1) :: past) (step act store).2 := by
  have genuine : store.closed = false → Genuine ((act,(step act store).1) :: past) := fun opened =>
    step_genuine past store act (invariant.open' opened).2.genuine
  cases act with
  | registerAwaitLive targetKey host =>
    cases targetKey with
    | none => exact invariant_idle invariant genuine rfl rfl rfl (by simp [step]) (by simp [step])
    | some targetKey =>
      unfold step at genuine ⊢
      dsimp only at genuine ⊢
      split
      next wrong =>
        rw [if_pos wrong] at genuine
        exact invariant_idle invariant genuine rfl rfl rfl (by simp) (by simp)
      next right =>
        rw [if_neg right] at genuine
        split
        next long =>
          rw [if_pos long] at genuine
          exact invariant_idle invariant genuine rfl rfl rfl (by simp) (by simp)
        next short =>
          rw [if_neg short] at genuine
          exact invariant_idle invariant genuine rfl rfl rfl (by simp) (by simp)
  | holdReply raw now =>
    unfold step at genuine ⊢
    dsimp only at genuine ⊢
    cases normal : normalizeHeldEntry raw now with
    | error reason =>
      rw [normal] at genuine
      exact invariant_idle invariant genuine rfl rfl rfl (by simp) (by simp)
    | ok entry =>
      rw [normal] at genuine
      exact hold_invariant invariant normal genuine
  | closeHeld targetKey =>
    unfold step at genuine ⊢
    dsimp only at genuine ⊢
    split
    next wrong =>
      rw [if_pos wrong] at genuine
      exact invariant_idle invariant genuine rfl rfl rfl (by simp) (by simp)
    · exact close_invariant _ invariant

end Law

/-- In every run of holds, closes and registrations: the list keeps within its cap, and once any close has answered,
exactly one made the close, with what was held before it kept. -/
theorem held_replies_kept {past : Past} {store : Store} (run : Runs step any .empty past store) :
    store.list.length ≤ HELD_MAX_ENTRIES ∧ (past.any isClose → ClosedOnce past) := by
  have invariant : Invariant past store := by
    refine run.invariant Invariant ?_ fun _ _ act kept _ => step_invariant act kept
    refine ⟨by simp [Store.empty],fun _ => ⟨fun _ member => absurd member (by simp),?_⟩,fun closed => (nomatch closed)⟩
    exact ⟨rfl,by simp [Store.empty],fun _ member => absurd member (by simp [Store.empty]),
      fun _ _ _ member => absurd member (by simp),fun since _ _ _ shape => absurd shape (by simp)⟩
  refine ⟨invariant.room,fun answered => ?_⟩
  cases flag : store.closed with
  | true => exact invariant.closed flag
  | false =>
    obtain ⟨early,-⟩ := invariant.open' flag
    obtain ⟨entry,member,close⟩ := List.any_eq_true.mp answered
    rw [early entry member] at close
    cases close

section Samples

private def digits : List Char := ['0','1','2','3','4','5','6','7','8','9','a','b','c','d','e','f']

/-- The reply of the given number, up to 255. -/
def reply (number : Nat) : RawEntry where
  id := List.replicate 30 '0' ++ [digits.getD (number / 16) '0',digits.getD (number % 16) '0']
  at' := some 1000
  route := "dedup"
  fallback := ['{','}']

def holds (numbers : List Nat) : List Act := numbers.map fun number => .holdReply (reply number) 0

def awaitTarget : String := "run:await:target:00000000000000000000000000000000"

/-- The list fills, its oldest reply comes in again, and one more reply takes the oldest one's place. -/
def repeatedOldest : List Act :=
  .registerAwaitLive (some awaitTarget) "host-1" :: holds (List.range 20) ++ holds [0,20] ++ [.closeHeld (some awaitTarget)]

theorem held_replies_kept_oldest_repeated :
    (after step .empty repeatedOldest).list.length ≤ HELD_MAX_ENTRIES ∧
      ClosedOnce (answered step .empty repeatedOldest) := by
  have run : Runs step any .empty (answered step .empty repeatedOldest) (after step .empty repeatedOldest) :=
    runs_after step .empty repeatedOldest
  obtain ⟨room,once⟩ := held_replies_kept run
  exact ⟨room,once (by decide +kernel)⟩

private def closingEntries : List HeldEntry := (after step .empty repeatedOldest).list

/-- A reply answered `dup` is missing from the close, one reply having been accepted after it. -/
theorem repeated_oldest_reply_lost :
    ¬∀ (past : Past) (store : Store), Runs step any .empty past store →
      ∀ later act entries since raw now outcome before,
        past = later ++ (act,.closed entries true) :: since ++ (.holdReply raw now,.held outcome) :: before →
        outcome = .ok ∨ outcome = .dup → (accepted since).length < HELD_MAX_ENTRIES → Listed entries raw.id := by
  intro law
  have run : Runs step any .empty (answered step .empty repeatedOldest) (after step .empty repeatedOldest) :=
    runs_after step .empty repeatedOldest
  have shape : answered step .empty repeatedOldest =
      [] ++ (.closeHeld (some awaitTarget),.closed closingEntries true) :: [(.holdReply (reply 20) 0,.held .ok)] ++
        (.holdReply (reply 0) 0,.held .dup) :: (answered step .empty repeatedOldest).drop 3 := by decide +kernel
  have listed := law _ _ run _ _ _ _ _ _ _ _ shape (.inr rfl) (by decide +kernel)
  have missing : (closingEntries.any fun entry => entry.id = (reply 0).id) = false := by decide +kernel
  obtain ⟨entry,member,own⟩ := listed
  have found : (closingEntries.any fun entry => entry.id = (reply 0).id) = true :=
    List.any_eq_true.mpr ⟨entry,member,decide_eq_true own⟩
  rw [missing] at found
  cases found

end Samples

end PiDispatch.HeldReplies
