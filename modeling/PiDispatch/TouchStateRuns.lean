import Mathlib.Data.String.Basic
import PiDispatch.TouchState

/-! What a read vouches for: every event that was stored since tracking began lies in the index, or below a score that the
epoch remembers. -/
namespace PiDispatch.TouchState
open Kernel

section Clean

variable {digest : Digest} {value : Touch} {event : Event}

private theorem kindOf_cases {kind : Kind} (named : kindOf value = some kind) :
    kind = .stop ∨ (∃ cause ∈ TOUCH_CAUSES, kind = .touch cause) ∨ ∃ reason ∈ WAIT_END_REASONS, kind = .waitEnd reason := by
  unfold kindOf at named
  split at named
  · split at named
    · cases named
    split at named
    next reason _ =>
      split at named
      next listed => exact .inr (.inr ⟨reason,listed,(Option.some.inj named).symm⟩)
      · cases named
    · cases named
  split at named
  · exact .inl (Option.some.inj named).symm
  split at named
  next cause _ =>
    split at named
    next listed => exact .inr (.inl ⟨cause,listed,(Option.some.inj named).symm⟩)
    · cases named
  · cases named

private theorem kind_type (kind : Kind) : kind.type ∈ TOUCH_TYPES := by
  cases kind with
  | stop => exact List.mem_cons_self
  | touch cause => exact List.mem_cons_of_mem _ List.mem_cons_self
  | waitEnd reason => exact List.mem_cons_of_mem _ (List.mem_cons_of_mem _ List.mem_cons_self)

private theorem kindOf_again {kind : Kind} (named : kindOf value = some kind) (other : Touch)
    (type : other.type = some kind.type) (cause : other.cause = kind.cause) (reason : other.reason = kind.reason) :
    kindOf other = some kind := by
  unfold kindOf
  rw [type,cause,reason]
  rcases kindOf_cases named with rfl | ⟨cause,listed,rfl⟩ | ⟨reason,listed,rfl⟩
  · simp [Kind.type]
  · simp [Kind.type,Kind.cause,listed]
  · simp [Kind.type,Kind.cause,Kind.reason,listed]

private theorem touchId_hash (kind : Kind) : isHash (touchId digest kind value) = true := by
  unfold touchId
  split
  next id found => exact (Option.filter_eq_some_iff.mp found).2
  · exact digest.proper _

private theorem touchId_named {kind : Kind} {id : String} (named : value.id.filter isHash = some id) :
    touchId digest kind value = id := by
  unfold touchId
  rw [named]

/-- An event is cleaned from its own text again. -/
theorem cleanTouch_again (cleaned : cleanTouch digest value = some event) : cleanTouch digest event.spoken = some event := by
  unfold cleanTouch at cleaned ⊢
  split at cleaned
  · cases cleaned
  next plain =>
    split at cleaned
    · cases cleaned
    split at cleaned
    · cases cleaned
    next kind named =>
      split at cleaned
      next fit =>
        obtain rfl := Option.some.inj cleaned
        have same : touchId digest kind (Event.spoken ⟨touchId digest kind value,kind,value.runId,value.instant,value.scopeId,
            value.project,value.target,value.answerSource,value.draftRunId,value.endedAt,value.parkedAt,value.receivedAt⟩) =
            touchId digest kind value := by
          have kept : (some (touchId digest kind value)).filter isHash = some (touchId digest kind value) := by
            rw [Option.filter_some,if_pos (touchId_hash kind)]
          exact touchId_named kept
        have type : ¬ ((some kind.type).any fun type => decide (type ∉ TOUCH_TYPES)) = true := by
          rw [Option.any_some,decide_eq_true_eq]
          exact not_not_intro (kind_type kind)
        refine (if_neg plain).trans ((if_neg type).trans ?_)
        rw [kindOf_again named (Event.spoken _) rfl rfl rfl]
        dsimp only
        rw [same]
        exact if_pos fit
      · cases cleaned

end Clean
section Ranks

private theorem ranks_trans (first second third : String × Int) (one : Touches.ranksBefore first second = true)
    (two : Touches.ranksBefore second third = true) : Touches.ranksBefore first third = true := by
  simp only [Touches.ranksBefore,Bool.or_eq_true,Bool.and_eq_true,decide_eq_true_eq] at one two ⊢
  rcases one with less | ⟨same,before⟩
  · rcases two with less' | ⟨same',_⟩
    · exact .inl (Int.lt_trans less less')
    · exact .inl (same' ▸ less)
  · rcases two with less' | ⟨same',before'⟩
    · exact .inl (same ▸ less')
    · exact .inr ⟨same.trans same',le_trans before before'⟩

private theorem ranks_total (first second : String × Int) : (Touches.ranksBefore first second || Touches.ranksBefore second first) = true := by
  simp only [Touches.ranksBefore,Bool.or_eq_true,Bool.and_eq_true,decide_eq_true_eq]
  rcases lt_trichotomy first.2 second.2 with less | same | more
  · exact .inl (.inl less)
  · rcases le_total first.1 second.1 with before | after
    · exact .inl (.inr ⟨same,before⟩)
    · exact .inr (.inr ⟨same.symm,after⟩)
  · exact .inr (.inl more)

/-- What is evicted ranks no higher than what is evicted last. -/
theorem overflow_last (touches : Touches) {last entry : String × Int} (found : touches.overflow.getLast? = some last)
    (member : entry ∈ touches.overflow) : entry.2 ≤ last.2 := by
  have ordered : touches.overflow.Pairwise fun first second => Touches.ranksBefore first second = true :=
    (List.pairwise_mergeSort ranks_trans ranks_total touches.index.entries).sublist (List.take_sublist _ _)
  obtain ⟨before,shape⟩ := List.getLast?_eq_some_iff.mp found
  rw [shape] at member ordered
  rcases List.mem_append.mp member with earlier | own
  · have ranked := (List.pairwise_append.mp ordered).2.2 entry earlier last (List.mem_singleton_self last)
    simp only [Touches.ranksBefore,Bool.or_eq_true,Bool.and_eq_true,decide_eq_true_eq] at ranked
    rcases ranked with less | ⟨same,_⟩
    · exact Int.le_of_lt less
    · exact Int.le_of_eq same
  · obtain rfl := List.mem_singleton.mp own
    exact Int.le_refl _

theorem overflow_mem (touches : Touches) {entry : String × Int} (member : entry ∈ touches.overflow) :
    entry ∈ touches.index.entries := List.mem_mergeSort.mp (List.mem_of_mem_take member)

end Ranks

section Stored

variable {digest : Digest} {touches : Touches}

def horizonOf (epoch : Option Epoch) : Int := (epoch.bind Epoch.horizon).getD 0

/-- The event lies below what the epoch remembers of the events let go of: it was aged out, or evicted. -/
def Below (epoch : Option Epoch) (evicted : Option Int) (event : Event) : Prop :=
  event.instant < horizonOf epoch ∨ ∃ score, evicted = some score ∧ event.instant ≤ score

/-- What the four keys keep, whatever is lost of them. -/
structure Sound (digest : Digest) (touches : Touches) : Prop where
  clean : ∀ event ∈ touches.ever, cleanTouch digest event.spoken = some event
  body : ∀ event ∈ touches.ever, touches.bodies event.id = none ∨ touches.bodies event.id = some event
  kept : ∀ event ∈ touches.stored, event ∈ touches.ever
  marked : ∀ epoch, touches.epoch = some epoch → touches.stored ≠ [] → epoch.indexed = true
  covered : touches.epoch.isSome → touches.index.entries ≠ [] → ∀ event ∈ touches.stored,
    (∃ score, touches.index.get? event.id = some score ∧ event.instant ≤ score) ∨ Below touches.epoch touches.evicted event
  begun : ∀ id ∈ touches.begun, id ∈ touches.pending.keys

theorem sound_empty : Sound digest .empty := by
  refine ⟨?_,?_,?_,?_,?_,?_⟩
  · exact fun _ none => absurd none List.not_mem_nil
  · exact fun _ none => absurd none List.not_mem_nil
  · exact fun _ none => absurd none List.not_mem_nil
  · intro epoch none
    cases none
  · intro none
    cases none
  · exact fun _ none => absurd none List.not_mem_nil

private theorem sound_restart (sound : Sound digest touches) (since : Int) : Sound digest (touches.restart since) := by
  refine ⟨sound.clean,sound.body,?_,?_,?_,sound.begun⟩
  · exact fun _ none => absurd none List.not_mem_nil
  · intro epoch _ some'
    exact absurd rfl some'
  · exact fun _ _ _ none => absurd none List.not_mem_nil

private theorem sound_initialized (sound : Sound digest touches) (now : Int) : Sound digest (touches.initialized now) := by
  unfold Touches.initialized
  split
  · exact sound_restart sound now
  · exact sound

/-- The epoch that a write goes on with vouches for an index that is there. -/
private theorem opened_sound (sound : Sound digest touches) (since : Int) :
    Sound digest (touches.opened since) ∧ (touches.opened since).epoch.isSome ∧
      ((touches.opened since).index.entries = [] → (touches.opened since).stored = []) := by
  unfold Touches.opened
  split
  · exact ⟨sound_restart sound since,rfl,fun _ => rfl⟩
  next epoch tracked =>
    split
    · exact ⟨sound_restart sound since,rfl,fun _ => rfl⟩
    next whole =>
      refine ⟨sound,by rw [tracked]; rfl,?_⟩
      intro empty
      by_contra some'
      exact whole ⟨empty,sound.marked epoch tracked some'⟩

/-- A write that gives its event no earlier place than an event of its name was stored for, and where the text of that name
is gone, stores the very event that it was. -/
structure Agrees (touches opened : Touches) (event : Event) : Prop where
  later : ∀ other ∈ opened.stored, other.id = event.id → other.instant ≤ event.instant
  same : touches.bodies event.id = none → ∀ other ∈ touches.ever, other.id = event.id → other = event

private theorem placed_covered (sound : Sound digest touches) (vouched : touches.epoch.isSome)
    (empty : touches.index.entries = [] → touches.stored = []) {event : Event} (agrees : Agrees touches touches event)
    {other : Event} (member : other ∈ touches.stored) :
    (∃ score, (touches.index.set event.id event.instant).get? other.id = some score ∧ other.instant ≤ score) ∨
      Below touches.epoch touches.evicted other := by
  have there : touches.index.entries ≠ [] := by
    intro none
    rw [empty none] at member
    exact absurd member List.not_mem_nil
  by_cases own : event.id = other.id
  · refine .inl ⟨event.instant,?_,agrees.later other member own.symm⟩
    rw [own,Dict.get?_set_self]
  · rcases sound.covered vouched there other member with ⟨score,found,least⟩ | below
    · exact .inl ⟨score,by rw [Dict.get?_set_ne _ _ own,found],least⟩
    · exact .inr below

private theorem below_same {epoch epoch' : Option Epoch} {evicted : Option Int} {event : Event}
    (same : horizonOf epoch' = horizonOf epoch) (below : Below epoch evicted event) : Below epoch' evicted event := by
  unfold Below
  rw [same]
  exact below

private theorem indexed_horizon (epoch : Option Epoch) :
    horizonOf (epoch.map fun epoch => { epoch with indexed := true }) = horizonOf epoch := by
  cases epoch <;> rfl

private theorem indexed_marked {epoch : Option Epoch} {found : Epoch}
    (tracked : (epoch.map fun epoch => { epoch with indexed := true }) = some found) : found.indexed = true := by
  obtain ⟨before,_,rfl⟩ := Option.map_eq_some_iff.mp tracked
  rfl

private theorem place_sound (sound : Sound digest touches) (vouched : touches.epoch.isSome)
    (empty : touches.index.entries = [] → touches.stored = []) {event : Event} (agrees : Agrees touches touches event)
    (clean : cleanTouch digest event.spoken = some event) : Sound digest (touches.place event) := by
  have indexed := indexed_horizon touches.epoch
  unfold Touches.place
  dsimp only
  split
  next gone =>
    refine ⟨?_,?_,?_,?_,?_,sound.begun⟩
    · intro other member
      rcases List.mem_cons.mp member with rfl | old
      · exact clean
      · exact sound.clean other old
    · intro other member
      have own : other.id = event.id → other = event := by
        intro same
        rcases List.mem_cons.mp member with rfl | old
        · rfl
        · exact agrees.same gone other old same
      by_cases same : other.id = event.id
      · obtain rfl := own same
        exact .inr (Function.update_self ..)
      · dsimp only
        rw [Function.update_of_ne same]
        rcases List.mem_cons.mp member with rfl | old
        · exact absurd rfl same
        · exact sound.body other old
    · intro other member
      rcases List.mem_cons.mp member with rfl | old
      · exact List.mem_cons_self
      · exact List.mem_cons_of_mem _ (sound.kept other old)
    · intro epoch tracked _
      exact indexed_marked tracked
    · intro _ _ other member
      rcases List.mem_cons.mp member with rfl | old
      · exact .inl ⟨_,Dict.get?_set_self ..,Int.le_refl _⟩
      · rcases placed_covered sound vouched empty agrees old with found | below
        · exact .inl found
        · exact .inr (below_same indexed below)
  next =>
    refine ⟨sound.clean,sound.body,sound.kept,?_,?_,sound.begun⟩
    · intro epoch tracked _
      exact indexed_marked tracked
    · intro _ _ other member
      rcases placed_covered sound vouched empty agrees member with found | below
      · exact .inl found
      · exact .inr (below_same indexed below)

end Stored
section Writes

variable {digest : Digest} {touches : Touches}

private theorem raise_horizon (touches : Touches) (score : Int) (tracked : touches.epoch.isSome) :
    horizonOf (touches.raise score) = max (horizonOf touches.epoch) score := by
  obtain ⟨epoch,found⟩ := Option.isSome_iff_exists.mp tracked
  unfold Touches.raise
  rw [found]
  rfl

private theorem raise_marked (touches : Touches) (score : Int) {found : Epoch} (tracked : touches.raise score = some found) :
    ∃ epoch, touches.epoch = some epoch ∧ found.indexed = epoch.indexed := by
  obtain ⟨epoch,own,rfl⟩ := Option.map_eq_some_iff.mp tracked
  exact ⟨epoch,own,rfl⟩

private theorem below_raised (touches : Touches) (score : Int) {evicted evicted' : Option Int} {event : Event}
    (tracked : touches.epoch.isSome) (more : ∀ least, evicted = some least → ∃ most, evicted' = some most ∧ least ≤ most)
    (below : Below touches.epoch evicted event) : Below (touches.raise score) evicted' event := by
  rcases below with aged | ⟨least,own,under⟩
  · refine .inl ?_
    rw [raise_horizon touches score tracked]
    exact Int.lt_of_lt_of_le aged (Int.le_max_left _ _)
  · obtain ⟨most,own',further⟩ := more least own
    exact .inr ⟨most,own',Int.le_trans under further⟩

private theorem filter_nonempty {dict : Dict String Int} {keep : String → Int → Bool}
    (some' : (dict.filter keep).entries ≠ []) : dict.entries ≠ [] := by
  intro none
  apply some'
  unfold Dict.filter
  dsimp only
  rw [none]
  rfl

private theorem age_sound (sound : Sound digest touches) (oldest : Int) (tracked : touches.epoch.isSome) :
    Sound digest (touches.age oldest) ∧ (touches.age oldest).epoch.isSome := by
  unfold Touches.age
  split
  next =>
    refine ⟨⟨sound.clean,sound.body,sound.kept,?_,?_,sound.begun⟩,?_⟩
    · intro found raised some'
      obtain ⟨epoch,own,same⟩ := raise_marked touches oldest raised
      exact same.trans (sound.marked epoch own some')
    · intro _ there event member
      rcases sound.covered tracked (filter_nonempty there) event member with ⟨score,found,least⟩ | below
      · by_cases young : oldest ≤ score
        · refine .inl ⟨score,?_,least⟩
          rw [Dict.get?_filter,found,Option.filter_some,if_pos (decide_eq_true young)]
        · refine .inr (.inl ?_)
          show event.instant < horizonOf (touches.raise oldest)
          rw [raise_horizon touches oldest tracked]
          omega
      · exact .inr (below_raised touches oldest tracked (fun least own => ⟨least,own,Int.le_refl _⟩) below)
    · show (touches.raise oldest).isSome = true
      unfold Touches.raise
      rw [Option.isSome_map]
      exact tracked
  next => exact ⟨sound,tracked⟩

/-- Entries are taken off the index, none of a higher score than the one that is remembered. -/
private theorem cut_sound (sound : Sound digest touches) (tracked : touches.epoch.isSome) (remains : String → Int → Bool)
    (name : String) (top : Int) (gone : ∀ id score, touches.index.get? id = some score → remains id score = false → score ≤ top) :
    Sound digest (touches.cut remains (some (name,top))) := by
  refine ⟨sound.clean,sound.body,sound.kept,?_,?_,sound.begun⟩
  · intro epoch raised some'
    obtain ⟨epoch',own,same⟩ := raise_marked touches top raised
    exact same.trans (sound.marked epoch' own some')
  · intro _ there event member
    rcases sound.covered tracked (filter_nonempty there) event member with ⟨score,listed,least⟩ | below
    · cases stays : remains event.id score with
      | false => exact .inr (.inr ⟨_,rfl,Int.le_trans least (Int.le_trans (gone event.id score listed stays) (Int.le_max_right _ _))⟩)
      | true =>
        refine .inl ⟨score,?_,least⟩
        show (touches.index.filter remains).get? event.id = some score
        rw [Dict.get?_filter,listed,Option.filter_some,if_pos stays]
    · refine .inr (below_raised touches top tracked ?_ below)
      intro least own
      exact ⟨_,rfl,by rw [own]; exact Int.le_max_left _ _⟩

private theorem remains_top (touches : Touches) {last : String × Int} (found : touches.overflow.getLast? = some last)
    (id : String) (score : Int) (listed : touches.index.get? id = some score) (gone : touches.remains id score = false) :
    score ≤ last.2 := by
  have member : id ∈ touches.overflow.map Prod.fst := by
    by_contra stays
    rw [(touches.remains_iff id score).mpr stays] at gone
    cases gone
  obtain ⟨entry,inside,rfl⟩ := List.mem_map.mp member
  have own : touches.index.get? entry.1 = some entry.2 := Dict.get?_of_mem _ (overflow_mem touches inside)
  obtain rfl := Option.some.inj (listed.symm.trans own)
  exact overflow_last touches found inside

private theorem evict_sound (sound : Sound digest touches) (tracked : touches.epoch.isSome) : Sound digest touches.evict := by
  have top := @remains_top touches
  have shape : touches.evict = touches.cut touches.remains touches.overflow.getLast? := rfl
  rw [shape]
  generalize touches.overflow.getLast? = found at top
  cases found with
  | none => exact sound
  | some last => exact cut_sound sound tracked touches.remains last.1 last.2 (top rfl)

private theorem settle_sound (sound : Sound digest touches) (id : String) : Sound digest (touches.settle id) := by
  refine ⟨sound.clean,sound.body,sound.kept,sound.marked,sound.covered,?_⟩
  intro other member
  obtain ⟨old,apart⟩ := List.mem_filter.mp member
  show other ∈ (touches.pending.erase id).keys
  rw [Dict.keys_erase]
  exact List.mem_filter.mpr ⟨sound.begun other old,apart⟩

private theorem opened_same (touches : Touches) (since : Int) :
    (touches.opened since).bodies = touches.bodies ∧ (touches.opened since).ever = touches.ever := by
  unfold Touches.opened
  split
  · exact ⟨rfl,rfl⟩
  split
  · exact ⟨rfl,rfl⟩
  · exact ⟨rfl,rfl⟩

private theorem write_sound (sound : Sound digest touches) (since oldest : Int) {event : Event}
    (agrees : Agrees touches (touches.opened since) event) (clean : cleanTouch digest event.spoken = some event) :
    Sound digest (touches.write since oldest event) := by
  obtain ⟨opened,tracked,empty⟩ := opened_sound sound since
  obtain ⟨bodies,ever⟩ := opened_same touches since
  have agrees : Agrees (touches.opened since) (touches.opened since) event :=
    ⟨agrees.later,by rw [bodies,ever]; exact agrees.same⟩
  have placed := place_sound opened tracked empty agrees clean
  have tracked' : ((touches.opened since).place event).epoch.isSome := by
    have mapped : ((touches.opened since).epoch.map fun epoch => { epoch with indexed := true }).isSome = true := by
      rw [Option.isSome_map]
      exact tracked
    unfold Touches.place
    dsimp only
    split
    · exact mapped
    · exact mapped
  obtain ⟨aged,tracked''⟩ := age_sound placed oldest tracked'
  exact settle_sound (evict_sound aged tracked'') event.id

end Writes
section Reads

variable {digest : Digest} {touches : Touches} {reading : Reading}

/-- What a read under way has of the events that were stored when it began. -/
structure Follows (touches : Touches) (reading : Reading) : Prop where
  kept : ∀ event ∈ reading.stored, event ∈ touches.ever
  covered : reading.epoch.isSome → reading.indexMissing = false → ∀ event ∈ reading.stored,
    event.id ∈ reading.todo ∨ reading.missingAt ≠ 0 ∨ event ∈ reading.events ∨ Below reading.epoch reading.evicted event
  begun : reading.held = 0 → reading.begun = []

private theorem snapshot_follows (sound : Sound digest touches) : Follows touches touches.snapshot := by
  refine ⟨sound.kept,?_,?_⟩
  · intro tracked there event member
    have whole : touches.index.entries ≠ [] := by
      obtain ⟨epoch,own⟩ := Option.isSome_iff_exists.mp tracked
      have own : touches.epoch = some epoch := own
      have indexed := sound.marked epoch own (List.ne_nil_of_mem member)
      have there : (touches.epoch.any Epoch.indexed && !decide (touches.index.entries ≠ [])) = false := there
      rw [own,Option.any_some,indexed,Bool.true_and,Bool.not_eq_false',decide_eq_true_eq] at there
      exact there
    rcases sound.covered tracked whole event member with ⟨score,found,_⟩ | below
    · refine .inl (List.mem_map.mpr ⟨(event.id,score),List.mem_mergeSort.mpr ?_,rfl⟩)
      exact (Dict.get?_eq_some_iff _ _ _).mp found
    · exact .inr (.inr (.inr below))
  · intro none
    have empty : touches.pending.entries = [] := List.length_eq_zero_iff.mp none
    apply List.eq_nil_iff_forall_not_mem.mpr
    intro id member
    have held := sound.begun id member
    unfold Dict.keys at held
    rw [empty] at held
    exact absurd held List.not_mem_nil

/-- The read goes on, and loses nothing that it had. -/
structure Grows (reading reading' : Reading) : Prop where
  frame : { reading' with todo := [], events := [], missingAt := 0 } = { reading with todo := [], events := [], missingAt := 0 }
  missing : reading.missingAt ≠ 0 → reading'.missingAt ≠ 0
  events : ∀ event ∈ reading.events, event ∈ reading'.events

private theorem grows_refl (reading : Reading) : Grows reading reading := ⟨rfl,id,fun _ member => member⟩

private theorem Grows.trans {reading' reading'' : Reading} (first : Grows reading reading') (second : Grows reading' reading'') :
    Grows reading reading'' :=
  ⟨second.frame.trans first.frame,fun missing => second.missing (first.missing missing),
    fun event member => second.events event (first.events event member)⟩

private theorem take_grows {now : Int} (some' : now ≠ 0) (reading : Reading) (body : Option Event) :
    Grows reading (reading.take digest now body) := by
  unfold Reading.take
  split
  · exact ⟨rfl,id,fun event member => List.mem_append_left _ member⟩
  · exact ⟨rfl,fun _ => some',fun _ member => member⟩

private theorem take_shows {now : Int} (some' : now ≠ 0) (reading : Reading) {body : Option Event} {event : Event}
    (own : body = none ∨ body = some event) (clean : cleanTouch digest event.spoken = some event) :
    (reading.take digest now body).missingAt ≠ 0 ∨ event ∈ (reading.take digest now body).events := by
  rcases own with rfl | rfl
  · exact .inl some'
  · unfold Reading.take
    rw [Option.bind_some,clean]
    exact .inr (List.mem_append_right _ (List.mem_singleton_self event))

private theorem takes_grow {bodies : String → Option Event} {now : Int} (some' : now ≠ 0) (ids : List String)
    (reading : Reading) : Grows reading (ids.foldl (fun reading id => reading.take digest now (bodies id)) reading) := by
  induction ids generalizing reading with
  | nil => exact grows_refl reading
  | cons id ids ih => exact (take_grows some' reading (bodies id)).trans (ih _)

private theorem takes_show {bodies : String → Option Event} {now : Int} (some' : now ≠ 0) (ids : List String)
    (reading : Reading) {event : Event} (listed : event.id ∈ ids) (own : bodies event.id = none ∨ bodies event.id = some event)
    (clean : cleanTouch digest event.spoken = some event) :
    (ids.foldl (fun reading id => reading.take digest now (bodies id)) reading).missingAt ≠ 0 ∨
      event ∈ (ids.foldl (fun reading id => reading.take digest now (bodies id)) reading).events := by
  induction ids generalizing reading with
  | nil => exact absurd listed List.not_mem_nil
  | cons id ids ih =>
    rcases List.mem_cons.mp listed with rfl | later
    · have grown := @takes_grow digest bodies now some' ids (reading.take digest now (bodies event.id))
      rcases take_shows some' reading own clean with missing | shown
      · exact .inl (grown.missing missing)
      · exact .inr (grown.events event shown)
    · exact ih _ later

private theorem fetch_follows (sound : Sound digest touches) {now : Int} (some' : now ≠ 0) (follows : Follows touches reading) :
    Follows touches (reading.fetch digest touches.bodies now) := by
  have grown := @takes_grow digest touches.bodies now some' (reading.todo.take READ_BATCH) reading
  have shown := fun event => @takes_show digest touches.bodies now some' (reading.todo.take READ_BATCH) reading event
  unfold Reading.fetch
  generalize (reading.todo.take READ_BATCH).foldl (fun reading id => reading.take digest now (touches.bodies id)) reading =
    fetched at grown shown
  obtain ⟨epoch,-,held,present,-,-,stored,evicted,begun⟩ := Reading.mk.inj grown.frame
  refine ⟨?_,?_,?_⟩
  · intro event member
    exact follows.kept event (stored ▸ member)
  · intro tracked there event member
    have tracked : reading.epoch.isSome := epoch ▸ tracked
    have there : reading.indexMissing = false := by
      have there : (fetched.epoch.any Epoch.indexed && !fetched.present) = false := there
      rw [epoch,present] at there
      exact there
    have member : event ∈ reading.stored := stored ▸ member
    rcases follows.covered tracked there event member with todo | missing | found | below
    · rw [← List.take_append_drop READ_BATCH reading.todo] at todo
      rcases List.mem_append.mp todo with now | later
      · have written := follows.kept event member
        rcases shown event now (sound.body event written) (sound.clean event written) with missing | found
        · exact .inr (.inl missing)
        · exact .inr (.inr (.inl found))
      · exact .inl later
    · exact .inr (.inl (grown.missing missing))
    · exact .inr (.inr (.inl (grown.events event found)))
    · refine .inr (.inr (.inr ?_))
      show Below fetched.epoch fetched.evicted event
      rw [epoch,evicted]
      exact below
  · intro none
    show fetched.begun = []
    rw [begun]
    exact follows.begun (held ▸ none)

end Reads
section Vouches

variable {config : Config} {touches : Touches} {reading : Reading}

/-- When a read is answered, tracking had begun, ageing had reached or retention ends past the score. -/
def Past (config : Config) (now : Int) (reading : Reading) (score : Int) : Prop :=
  score < reading.started.getD now ∨ score < reading.horizon ∨ score < now - config.ttl

/-- A write gives an event's name no earlier place and no other text than it had, a read is answered when every score
evicted since tracking began is past, no action under way expires, and no clock stands at 0 when a text is missing. -/
def Honest (config : Config) (act : Act) (touches : Touches) : Prop :=
  match act with
  | .write value since _ => ∀ event, cleanTouch config.digest value = some event → Agrees touches (touches.opened since) event
  | .fetch _ now => now ≠ 0
  | .answer reading now => ∀ found, touches.reads[reading]? = some found → ∀ score, found.evicted = some score →
      Past config now found score
  | .losePending => touches.pending.entries = []
  | _ => True

private structure Inside (digest : Digest) (touches : Touches) : Prop where
  sound : Sound digest touches
  reads : ∀ reading ∈ touches.reads, Follows touches reading

private theorem follows_ever {next : Touches} {reading : Reading} (follows : Follows touches reading)
    (ever : ∀ event ∈ touches.ever, event ∈ next.ever) : Follows next reading :=
  ⟨fun event member => ever event (follows.kept event member),follows.covered,follows.begun⟩

private theorem inside_next {next : Touches} (inside : Inside config.digest touches) (sound : Sound config.digest next)
    (ever : ∀ event ∈ touches.ever, event ∈ next.ever) (reads : next.reads = touches.reads) : Inside config.digest next := by
  refine ⟨sound,?_⟩
  intro reading member
  exact follows_ever (inside.reads reading (reads ▸ member)) ever

private theorem write_same (touches : Touches) (since oldest : Int) (event : Event) :
    (touches.write since oldest event).reads = touches.reads ∧
      ∀ other ∈ touches.ever, other ∈ (touches.write since oldest event).ever := by
  have opened : (touches.opened since).reads = touches.reads ∧ (touches.opened since).ever = touches.ever := by
    unfold Touches.opened
    split
    · exact ⟨rfl,rfl⟩
    split
    · exact ⟨rfl,rfl⟩
    · exact ⟨rfl,rfl⟩
  have placed : ∀ touches : Touches, (touches.place event).reads = touches.reads ∧
      ∀ other ∈ touches.ever, other ∈ (touches.place event).ever := by
    intro touches
    unfold Touches.place
    dsimp only
    split
    · exact ⟨rfl,fun _ member => List.mem_cons_of_mem _ member⟩
    · exact ⟨rfl,fun _ member => member⟩
  have aged : ∀ touches : Touches, (touches.age oldest).reads = touches.reads ∧ (touches.age oldest).ever = touches.ever := by
    intro touches
    unfold Touches.age
    split
    · exact ⟨rfl,rfl⟩
    · exact ⟨rfl,rfl⟩
  have cut : ∀ (touches : Touches) (remains : String → Int → Bool) (last : Option (String × Int)),
      (touches.cut remains last).reads = touches.reads ∧ (touches.cut remains last).ever = touches.ever := by
    intro touches remains last
    cases last with
    | none => exact ⟨rfl,rfl⟩
    | some last => exact ⟨rfl,rfl⟩
  have evicted : ∀ touches : Touches, touches.evict.reads = touches.reads ∧ touches.evict.ever = touches.ever :=
    fun touches => cut touches touches.remains touches.overflow.getLast?
  have settled : ∀ touches : Touches, (touches.settle event.id).reads = touches.reads ∧
      (touches.settle event.id).ever = touches.ever := fun _ => ⟨rfl,rfl⟩
  unfold Touches.write
  refine ⟨?_,?_⟩
  · rw [(settled _).1,(evicted _).1,(aged _).1,(placed _).1,opened.1]
  · intro other member
    rw [(settled _).2,(evicted _).2,(aged _).2]
    exact (placed _).2 other (opened.2.symm ▸ member)

private theorem begins_sound (sound : Sound config.digest touches) (event : Event) :
    Sound config.digest (touches.begin' event) := by
  refine ⟨sound.clean,sound.body,sound.kept,sound.marked,sound.covered,?_⟩
  intro id member
  apply (Dict.get?_isSome_iff _ _).mp
  show ((touches.pending.set event.id event.instant).get? id).isSome = true
  rw [Dict.get?_set]
  split
  · rfl
  next apart =>
    rcases List.mem_cons.mp member with rfl | old
    · exact absurd rfl apart
    · exact (Dict.get?_isSome_iff _ _).mpr (sound.begun id old)

private theorem step_inside (inside : Inside config.digest touches) {act : Act} (honest : Honest config act touches) :
    Inside config.digest (step config act touches).2 := by
  have sound := inside.sound
  cases act with
  | initializes now =>
    refine inside_next inside (sound_initialized sound now) ?_ ?_
    all_goals
      unfold step Touches.initialized
      dsimp only
      split
    · exact fun _ member => member
    · exact fun _ member => member
    · rfl
    · rfl
  | begins value =>
    unfold step
    dsimp only
    cases cleanTouch config.digest value with
    | none => exact inside
    | some event => exact inside_next inside (begins_sound sound event) (fun _ member => member) rfl
  | abort value =>
    unfold step
    dsimp only
    cases cleanTouch config.digest value with
    | none => exact inside
    | some event => exact inside_next inside (settle_sound sound event.id) (fun _ member => member) rfl
  | write value since agedAt =>
    unfold step
    dsimp only
    cases cleaned : cleanTouch config.digest value with
    | none => exact inside
    | some event =>
      obtain ⟨reads,ever⟩ := write_same touches since (agedAt - config.ttl) event
      exact inside_next inside (write_sound sound since _ (honest event cleaned) (cleanTouch_again cleaned)) ever reads
  | read =>
    refine ⟨⟨sound.clean,sound.body,sound.kept,sound.marked,sound.covered,sound.begun⟩,?_⟩
    intro reading member
    rcases List.mem_append.mp member with old | new
    · exact follows_ever (inside.reads reading old) fun _ member => member
    · rw [List.mem_singleton.mp new]
      exact follows_ever (snapshot_follows sound) fun _ member => member
  | fetch index now =>
    refine ⟨⟨sound.clean,sound.body,sound.kept,sound.marked,sound.covered,sound.begun⟩,?_⟩
    intro reading member
    obtain ⟨place,found⟩ := List.mem_iff_getElem?.mp member
    have found : (touches.reads.modify index (Reading.fetch config.digest touches.bodies now))[place]? = some reading := found
    rw [List.getElem?_modify] at found
    obtain ⟨before,own,rfl⟩ := Option.map_eq_some_iff.mp found
    have follows := inside.reads before (List.mem_of_getElem? own)
    split
    · exact follows_ever (fetch_follows sound honest follows) fun _ member => member
    · exact follows_ever follows fun _ member => member
  | answer index now =>
    unfold step
    dsimp only
    split
    · exact inside
    · exact inside
  | loseEpoch =>
    refine inside_next inside ⟨sound.clean,sound.body,sound.kept,?_,?_,sound.begun⟩ (fun _ member => member) rfl
    · intro epoch none
      cases none
    · intro none
      cases none
  | loseIndex =>
    refine inside_next inside ⟨sound.clean,sound.body,sound.kept,sound.marked,?_,sound.begun⟩ (fun _ member => member) rfl
    intro _ some'
    exact absurd rfl some'
  | loseEvent id =>
    refine inside_next inside ⟨sound.clean,?_,sound.kept,sound.marked,sound.covered,sound.begun⟩ (fun _ member => member) rfl
    intro event member
    by_cases same : event.id = id
    · exact .inl (by rw [← same]; exact Function.update_self ..)
    · show Function.update touches.bodies id none event.id = none ∨ Function.update touches.bodies id none event.id = some event
      rw [Function.update_of_ne same]
      exact sound.body event member
  | losePending =>
    refine inside_next inside ⟨sound.clean,sound.body,sound.kept,sound.marked,sound.covered,?_⟩ (fun _ member => member) rfl
    intro id member
    have held := sound.begun id member
    unfold Dict.keys at held
    rw [show touches.pending.entries = [] from honest] at held
    exact absurd held List.not_mem_nil

private theorem foldl_max (values : List Int) (least : Int) : least ≤ values.foldl max least := by
  induction values generalizing least with
  | nil => exact Int.le_refl _
  | cons value values ih => exact Int.le_trans (Int.le_max_left _ _) (ih _)

private theorem foldl_max_mem {values : List Int} {value : Int} (member : value ∈ values) (least : Int) :
    value ≤ values.foldl max least := by
  induction values generalizing least with
  | nil => cases member
  | cons first values ih =>
    rcases List.mem_cons.mp member with rfl | later
    · exact Int.le_trans (Int.le_max_right _ _) (foldl_max values _)
    · exact ih later _

private theorem coverage_horizon (ttl now : Int) (reading : Reading) :
    reading.horizon ≤ (reading.coverage ttl now).fromMs := foldl_max_mem List.mem_cons_self _

private theorem coverage_past {now score : Int} (past : Past config now reading score) :
    score < (reading.coverage config.ttl now).fromMs := by
  rcases past with began | aged | retained
  · exact Int.lt_of_lt_of_le began (foldl_max _ _)
  · exact Int.lt_of_lt_of_le aged (coverage_horizon _ _ _)
  · exact Int.lt_of_lt_of_le retained (foldl_max_mem (List.mem_cons_of_mem _ List.mem_cons_self) _)

/-- What a read answered that found nothing wrong: it vouches for every event stored since tracking began. -/
private theorem answer_whole (follows : Follows touches reading) (over' : reading.todo = []) {now : Int}
    (whole : (reading.coverage config.ttl now).isPartial = false)
    (past : ∀ score, reading.evicted = some score → Past config now reading score) :
    (∀ event ∈ reading.stored, (reading.coverage config.ttl now).fromMs ≤ event.instant → event ∈ reading.events) ∧
      reading.begun = [] := by
  have none : (reading.coverage config.ttl now).reasons = [] := by
    by_contra some'
    rw [Coverage.isPartial,decide_eq_true some'] at whole
    cases whole
  obtain ⟨⟨⟨started,lost⟩,held⟩,missing⟩ : ((reading.started ≠ Option.none ∧ reading.indexMissing = false) ∧ ¬ 0 < reading.held) ∧
      reading.missingAt = 0 := by
    unfold Reading.coverage at none
    dsimp only at none
    obtain ⟨none,fourth⟩ := List.append_eq_nil_iff.mp none
    obtain ⟨none,third⟩ := List.append_eq_nil_iff.mp none
    obtain ⟨first,second⟩ := List.append_eq_nil_iff.mp none
    refine ⟨⟨⟨?_,?_⟩,?_⟩,?_⟩
    · intro absent
      rw [if_pos absent] at first
      cases first
    · by_contra there
      rw [if_pos (eq_true_of_ne_false there)] at second
      cases second
    · intro some'
      rw [if_pos some'] at third
      cases third
    · by_contra some'
      rw [if_pos some'] at fourth
      cases fourth
  have tracked : reading.epoch.isSome := by
    cases epoch : reading.epoch with
    | none =>
      refine absurd ?_ started
      unfold Reading.started
      rw [epoch]
      rfl
    | some epoch => rfl
  refine ⟨?_,follows.begun (Nat.eq_zero_of_not_pos held)⟩
  intro event member late
  have horizon : horizonOf reading.epoch ≤ (reading.coverage config.ttl now).fromMs := coverage_horizon config.ttl now reading
  rcases follows.covered tracked lost event member with todo | missed | found | aged | ⟨score,evicted,under⟩
  · rw [over'] at todo
    exact absurd todo List.not_mem_nil
  · exact absurd missing missed
  · exact found
  · exact absurd (Int.lt_of_lt_of_le aged (Int.le_trans horizon late)) (Int.lt_irrefl _)
  · have beyond := coverage_past (past score evicted)
    omega

/-- In every run of honest steps, a read that answers with nothing wrong holds every event from its coverage on that some
write stored after tracking last began, and no action had begun and was not resolved, as they were at its snapshot. -/
theorem coverage_vouches {config : Config} {past : List (Act × Option (Reading × Coverage))} {touches : Touches}
    (run : Runs (step config) (Honest config) Touches.empty past touches) :
    ∀ said ∈ past, ∀ reading coverage, said.2 = some (reading,coverage) → coverage.isPartial = false →
      (∀ event ∈ reading.stored, coverage.fromMs ≤ event.instant → event ∈ reading.events) ∧ reading.begun = [] := by
  suffices both : Inside config.digest touches ∧ ∀ said ∈ past, ∀ reading coverage, said.2 = some (reading,coverage) →
      coverage.isPartial = false →
      (∀ event ∈ reading.stored, coverage.fromMs ≤ event.instant → event ∈ reading.events) ∧ reading.begun = [] from both.2
  refine Runs.invariant (fun past touches => Inside config.digest touches ∧ ∀ said ∈ past, ∀ reading coverage,
    said.2 = some (reading,coverage) → coverage.isPartial = false →
    (∀ event ∈ reading.stored, coverage.fromMs ≤ event.instant → event ∈ reading.events) ∧ reading.begun = []) ?_ ?_ run
  · refine ⟨⟨sound_empty,?_⟩,?_⟩
    · exact fun _ none => absurd none List.not_mem_nil
    · exact fun _ none => absurd none List.not_mem_nil
  · intro past touches act ⟨inside,answers⟩ honest
    refine ⟨step_inside inside honest,?_⟩
    intro said member reading coverage found whole
    rcases List.mem_cons.mp member with rfl | old
    · cases act with
      | answer index now =>
        have found : (step config (.answer index now) touches).1 = some (reading,coverage) := found
        unfold step at found
        dsimp only at found
        split at found
        next under own =>
          split at found
          next over' =>
            obtain ⟨rfl,rfl⟩ := Prod.mk.inj (Option.some.inj found)
            exact answer_whole (inside.reads _ (List.mem_of_getElem? own)) over' whole (honest _ own)
          · cases found
        · cases found
      | _ => cases found
    · exact answers said old reading coverage found whole

end Vouches
def sameDigest : Digest := ⟨fun _ => "0000000000000000000000000000000000000000000000000000000000000000",fun _ => by decide⟩

def daily : Config := ⟨sameDigest,86400000⟩

/-- A steering touch of one run. -/
def steered (id : String) (instant : Int) : Touch :=
  ⟨some "touch",some id,"run-1",some "steer",none,instant,none,none,none,none,none,none,none,none,none⟩

def firstId : String := "1111111111111111111111111111111111111111111111111111111111111111"
def secondId : String := "2222222222222222222222222222222222222222222222222222222222222222"

def steeredActs : List Act :=
  [.initializes 1000,.begins (steered firstId 2000),.write (steered firstId 2000) 2001 2002,.read,.fetch 0 3000,.answer 0 3000]

def steeredEvent : Event := ⟨firstId,.touch "steer","run-1",2000,none,none,none,none,none,none,none,none⟩

def steeredReading : Reading := ⟨some ⟨1000,true,none⟩,[],0,true,[steeredEvent],0,[steeredEvent],none,[]⟩

private theorem begun_only :
    (after (step daily) .empty (steeredActs.take 2)).stored = [] ∧ (after (step daily) .empty (steeredActs.take 2)).ever = [] ∧
      ((after (step daily) .empty (steeredActs.take 2)).opened 2001).stored = [] := by
  decide +kernel

private theorem steered_honest : Guarded (step daily) (Honest daily) .empty steeredActs := by
  obtain ⟨_,never,fresh⟩ := begun_only
  refine ⟨trivial,trivial,?_,trivial,?_,?_,trivial⟩
  · intro event cleaned
    refine ⟨?_,?_⟩
    · intro other member
      exact absurd (fresh ▸ member) List.not_mem_nil
    · intro none other member
      exact absurd (never ▸ member) List.not_mem_nil
  · show (3000 : Int) ≠ 0
    omega
  · intro found own score evicted
    have own : some steeredReading = some found := by
      rw [← own]
      decide +kernel
    obtain rfl := Option.some.inj own
    cases evicted

theorem steered_vouched :
    (∀ event ∈ steeredReading.stored, (⟨1000,[]⟩ : Coverage).fromMs ≤ event.instant → event ∈ steeredReading.events) ∧
      steeredReading.begun = [] := by
  have run := runs_guarded _ _ _ steeredActs steered_honest
  have answer : (Act.answer 0 3000,some (steeredReading,⟨1000,[]⟩)) ∈ answered (step daily) .empty steeredActs := by
    decide +kernel
  exact coverage_vouches run _ answer _ _ rfl rfl

/-- A touch whose place is moved below what retention keeps, by a second write of it. -/
def movedActs : List Act :=
  [.initializes 0,.write (steered firstId 1000000000) 1000000000 1000000000,
    .write (steered secondId 1000000000) 1000000000 1000000000,.write (steered firstId 0) 1000000000 1000000000,.read,
    .fetch 0 1000000000,.answer 0 1000000000]

def firstEvent : Event := ⟨firstId,.touch "steer","run-1",1000000000,none,none,none,none,none,none,none,none⟩
def secondEvent : Event := { firstEvent with id := secondId }

def movedReading : Reading :=
  ⟨some ⟨0,true,some 913600000⟩,[],0,true,[secondEvent],0,[secondEvent,firstEvent],none,[]⟩

theorem moved_unvouched : ¬ ∀ past touches, Runs (step daily) (fun _ _ => True) Touches.empty past touches →
    ∀ said ∈ past, ∀ reading coverage, said.2 = some (reading,coverage) → coverage.isPartial = false →
      (∀ event ∈ reading.stored, coverage.fromMs ≤ event.instant → event ∈ reading.events) ∧ reading.begun = [] := by
  intro vouched
  have answer : (Act.answer 0 1000000000,some (movedReading,⟨913600000,[]⟩)) ∈ answered (step daily) .empty movedActs := by
    decide +kernel
  have found := (vouched _ _ (runs_after _ _ movedActs) _ answer _ _ rfl rfl).1 firstEvent (List.mem_cons_of_mem _ List.mem_cons_self)
    (by decide)
  exact absurd found (by decide)

end PiDispatch.TouchState
