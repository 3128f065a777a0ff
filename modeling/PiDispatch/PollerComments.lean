import PiDispatch.Kernel.Machine
import Mathlib.Data.List.Sort

/-! The comment feed of a polled repository: what the server lists of it, what a cycle hands on, and that every comment made
after the feed was armed is handed on, as long as no page leaves out a comment older than what the page ends with. -/
namespace PiDispatch.PollerComments
open Kernel

/-- A comment, its instants in whole seconds. -/
structure Comment where
  id : Nat
  createdAt : Nat
  updatedAt : Nat
  body : String
  deriving DecidableEq

def PER_PAGE : Nat := 100

/-- An instant in milliseconds, as the cursor has it. -/
def isoSeconds (ms : Nat) : Nat := ms / 1000

/-- The server's clock and comments, the feed's keys, and what was handed on. A validator stands for the body it came
with. -/
structure State where
  now : Nat
  comments : List Comment
  nextId : Nat
  cursor : Option Nat
  etag : Option (List Comment)
  armedAt : Option Nat
  handed : List Comment
  deriving DecidableEq

def State.start : State := ⟨0,[],0,none,none,none,[]⟩

/-- What the server may answer for the comments updated since an instant: the least lately updated of them, a page. -/
def Answers (since : Nat) (comments page : List Comment) : Prop :=
  ∃ rest, (page ++ rest).Perm (comments.filter fun comment => since ≤ comment.updatedAt) ∧
    (page ++ rest).Pairwise (fun comment later => comment.updatedAt ≤ later.updatedAt) ∧
    page.length = min PER_PAGE (page ++ rest).length

/-- The cursor behind a page. -/
def advanced (cursor : Nat) (page : List Comment) : Nat :=
  page.foldl (fun advanced comment => if advanced < comment.updatedAt then comment.updatedAt else advanced) cursor

inductive Report
  | none
  | armed
  | notModified
  | read (handed : List Comment)
  deriving DecidableEq

def pollComments (page : List Comment) (state : State) : Report × State :=
  match state.cursor with
  | none => (.armed,{ state with cursor := some (isoSeconds state.now), armedAt := some (isoSeconds state.now) })
  | some cursor =>
    if state.etag = some page then (.notModified,state)
    else
      let fresh := page.filter fun comment => cursor < comment.createdAt
      (.read fresh,
        { state with etag := some page, cursor := some (advanced cursor page), handed := state.handed ++ fresh })

inductive Act
  | tick (ms : Nat)
  | create (body : String)
  | edit (id : Nat) (body : String)
  | delete (id : Nat)
  | cycle (page : List Comment)

def edited (now id : Nat) (body : String) (comment : Comment) : Comment :=
  if comment.id = id then { comment with updatedAt := now, body := body } else comment

def step (act : Act) (state : State) : Report × State :=
  match act with
  | .tick ms => (.none,{ state with now := state.now + ms })
  | .create body =>
    (.none,{ state with
      comments := state.comments ++ [⟨state.nextId,isoSeconds state.now,isoSeconds state.now,body⟩]
      nextId := state.nextId + 1 })
  | .edit id body => (.none,{ state with comments := state.comments.map (edited (isoSeconds state.now) id body) })
  | .delete id => (.none,{ state with comments := state.comments.filter fun comment => comment.id ≠ id })
  | .cycle page => pollComments page state

/-- The server lists the comments in order, and no comment is made in the second that the cursor holds. -/
def Serves (act : Act) (state : State) : Prop :=
  match act with
  | .create _ => state.cursor ≠ some (isoSeconds state.now)
  | .cycle page => ∀ cursor ∈ state.cursor, Answers cursor state.comments page ∧
      ∀ comment ∈ state.comments, comment ∉ page → comment.createdAt ≠ advanced cursor page
  | _ => True

/-- A page leaves no new comment out that is older than an update on it. -/
def InOrder (act : Act) (state : State) : Prop :=
  match act with
  | .cycle page => ∀ cursor ∈ state.cursor, ∀ comment ∈ state.comments, comment ∉ page → cursor < comment.createdAt →
      ∀ other ∈ page, other.updatedAt < comment.createdAt
  | _ => True

/-- What was handed on was made after the feed was armed. -/
def NoneReplayed (state : State) : Prop := ∀ arm ∈ state.armedAt, ∀ comment ∈ state.handed, arm < comment.createdAt

/-- Every comment there is that was made after the feed was armed was handed on. -/
def AllHanded (state : State) : Prop :=
  ∀ arm ∈ state.armedAt, ∀ comment ∈ state.comments, arm < comment.createdAt → ∃ other ∈ state.handed, other.id = comment.id

/-- The last cycle read all that was left. -/
def CaughtUp (past : List (Act × Report)) : Prop :=
  ∃ page report earlier, past = (.cycle page,report) :: earlier ∧ report ≠ .armed ∧ page.length < PER_PAGE

section Steps

variable {cursor : Nat} {page : List Comment} {state : State}

private theorem advanced_le_iff (bound : Nat) :
    advanced cursor page ≤ bound ↔ cursor ≤ bound ∧ ∀ comment ∈ page, comment.updatedAt ≤ bound := by
  unfold advanced
  induction page generalizing cursor with
  | nil => simp
  | cons comment page ih =>
    rw [List.foldl_cons,ih,List.forall_mem_cons]
    split
    next later =>
      constructor
      · rintro ⟨own,rest⟩
        exact ⟨by omega,own,rest⟩
      · rintro ⟨_,own,rest⟩
        exact ⟨own,rest⟩
    next sooner =>
      constructor
      · rintro ⟨own,rest⟩
        exact ⟨own,by omega,rest⟩
      · rintro ⟨own,_,rest⟩
        exact ⟨own,rest⟩

/-- What the feed's keys say of the comments. -/
private structure Followed (state : State) : Prop where
  unarmed : state.cursor = none → state.armedAt = none ∧ state.etag = none ∧ state.handed = []
  reached : ∀ arm ∈ state.armedAt, ∀ cursor ∈ state.cursor, arm ≤ cursor
  clock : ∀ cursor ∈ state.cursor, cursor ≤ isoSeconds state.now
  updated : ∀ comment ∈ state.comments, comment.createdAt ≤ comment.updatedAt ∧ comment.updatedAt ≤ isoSeconds state.now
  known : ∀ comment ∈ state.comments, comment.id < state.nextId
  given : ∀ comment ∈ state.handed, comment.id < state.nextId
  replays : NoneReplayed state
  ahead : ∀ arm ∈ state.armedAt, ∀ cursor ∈ state.cursor, ∀ comment ∈ state.comments, arm < comment.createdAt →
    (∀ other ∈ state.handed, other.id ≠ comment.id) → cursor < comment.createdAt
  read : ∀ body ∈ state.etag, ∀ arm ∈ state.armedAt, ∀ comment ∈ body, arm < comment.createdAt →
    ∃ other ∈ state.handed, other.id = comment.id

private theorem answers_mem (answers : Answers cursor state.comments page) : ∀ comment ∈ page, comment ∈ state.comments := by
  obtain ⟨rest,same,_⟩ := answers
  intro comment inside
  exact (List.mem_filter.mp (same.mem_iff.mp (List.mem_append_left rest inside))).1

/-- A page that is not full holds all there is. -/
private theorem answers_all (answers : Answers cursor state.comments page) (short : page.length < PER_PAGE) :
    ∀ comment ∈ state.comments, cursor ≤ comment.updatedAt → comment ∈ page := by
  obtain ⟨rest,same,_,length⟩ := answers
  intro comment inside since
  have none' : rest = [] := by
    rw [List.length_append] at length
    exact List.length_eq_zero_iff.mp (by omega)
  rw [none',List.append_nil] at same
  exact same.mem_iff.mpr (List.mem_filter.mpr ⟨inside,by simpa using since⟩)

private theorem start_followed : Followed .start := by
  constructor
  all_goals simp [State.start,NoneReplayed]

private theorem seconds_mono {now ms : Nat} : isoSeconds now ≤ isoSeconds (now + ms) :=
  Nat.div_le_div_right (Nat.le_add_right now ms)

private theorem tick_followed (followed : Followed state) (ms : Nat) : Followed { state with now := state.now + ms } where
  unarmed := followed.unarmed
  reached := followed.reached
  clock := fun cursor own => (followed.clock cursor own).trans seconds_mono
  updated := fun comment inside => (followed.updated comment inside).imp_right fun own => own.trans seconds_mono
  known := followed.known
  given := followed.given
  replays := followed.replays
  ahead := followed.ahead
  read := followed.read

private theorem create_followed (followed : Followed state) (body : String)
    (apart : state.cursor ≠ some (isoSeconds state.now)) : Followed (step (.create body) state).2 := by
  have split {comment : Comment} (inside : comment ∈ (step (.create body) state).2.comments) :
      comment ∈ state.comments ∨ comment = ⟨state.nextId,isoSeconds state.now,isoSeconds state.now,body⟩ := by
    simpa [step] using inside
  refine ⟨followed.unarmed,followed.reached,followed.clock,?_,?_,?_,followed.replays,?_,followed.read⟩
  · intro comment inside
    rcases split inside with old | rfl
    · exact followed.updated comment old
    · exact ⟨Nat.le_refl _,Nat.le_refl _⟩
  · intro comment inside
    rcases split inside with old | rfl
    · exact Nat.lt_succ_of_lt (followed.known comment old)
    · exact Nat.lt_succ_self _
  · exact fun comment inside => Nat.lt_succ_of_lt (followed.given comment inside)
  · intro arm armed cursor own comment inside after unhanded
    rcases split inside with old | rfl
    · exact followed.ahead arm armed cursor own comment old after unhanded
    · have own : state.cursor = some cursor := own
      have most := followed.clock cursor own
      have other : cursor ≠ isoSeconds state.now := fun same => apart (same ▸ own)
      exact Nat.lt_of_le_of_ne most other

private theorem edit_followed (followed : Followed state) (id : Nat) (body : String) :
    Followed (step (.edit id body) state).2 := by
  have same {comment : Comment} (inside : comment ∈ (step (.edit id body) state).2.comments) :
      ∃ old ∈ state.comments, old.id = comment.id ∧ old.createdAt = comment.createdAt ∧
        old.updatedAt ≤ comment.updatedAt ∧ comment.updatedAt ≤ isoSeconds state.now := by
    obtain ⟨old,there,rfl⟩ := List.mem_map.mp inside
    have bounds := followed.updated old there
    unfold edited
    split
    · exact ⟨old,there,rfl,rfl,bounds.2,Nat.le_refl _⟩
    · exact ⟨old,there,rfl,rfl,Nat.le_refl _,bounds.2⟩
  refine ⟨followed.unarmed,followed.reached,followed.clock,?_,?_,followed.given,followed.replays,?_,followed.read⟩
  · intro comment inside
    obtain ⟨old,inside,_,created,updated,most⟩ := same inside
    have bounds := followed.updated old inside
    rw [← created]
    exact ⟨bounds.1.trans updated,most⟩
  · intro comment inside
    obtain ⟨old,inside,id,_⟩ := same inside
    rw [← id]
    exact followed.known old inside
  · intro arm armed cursor own comment inside after unhanded
    obtain ⟨old,inside,id,created,_⟩ := same inside
    rw [← created] at after ⊢
    rw [← id] at unhanded
    exact followed.ahead arm armed cursor own old inside after unhanded

private theorem delete_followed (followed : Followed state) (id : Nat) : Followed (step (.delete id) state).2 := by
  have old {comment : Comment} (inside : comment ∈ (step (.delete id) state).2.comments) : comment ∈ state.comments :=
    (List.mem_filter.mp inside).1
  refine ⟨followed.unarmed,followed.reached,followed.clock,?_,?_,followed.given,followed.replays,?_,followed.read⟩
  · exact fun comment inside => followed.updated comment (old inside)
  · exact fun comment inside => followed.known comment (old inside)
  · exact fun arm armed cursor own comment inside => followed.ahead arm armed cursor own comment (old inside)

/-- A new comment on the page is handed on, an older one was. -/
private theorem page_handed (followed : Followed state) {arm : Nat} (armed : arm ∈ state.armedAt) (own : state.cursor = some cursor)
    (inside : ∀ comment ∈ page, comment ∈ state.comments) {comment : Comment} (listed : comment ∈ page)
    (late : arm < comment.createdAt) :
    ∃ other ∈ state.handed ++ page.filter (fun comment => cursor < comment.createdAt), other.id = comment.id := by
  by_cases fresh : cursor < comment.createdAt
  · exact ⟨comment,List.mem_append_right _ (List.mem_filter.mpr ⟨listed,by simpa using fresh⟩),rfl⟩
  · by_contra unhanded
    refine fresh (followed.ahead arm armed cursor own comment (inside comment listed) late fun other given same => ?_)
    exact unhanded ⟨other,List.mem_append_left _ given,same⟩

private theorem read_followed (followed : Followed state) (own : state.cursor = some cursor)
    (inside : ∀ comment ∈ page, comment ∈ state.comments) (ordered : InOrder (.cycle page) state) :
    Followed { state with
      etag := some page
      cursor := some (advanced cursor page)
      handed := state.handed ++ page.filter fun comment => cursor < comment.createdAt } := by
  have least : cursor ≤ advanced cursor page := ((advanced_le_iff _).mp (Nat.le_refl _)).1
  refine ⟨fun none' => (nomatch none'),?_,?_,followed.updated,followed.known,?_,?_,?_,?_⟩
  · intro arm armed cursor' same
    cases same
    exact (followed.reached arm armed cursor own).trans least
  · intro cursor' same
    cases same
    exact (advanced_le_iff _).mpr ⟨followed.clock cursor own,fun comment listed =>
      (followed.updated comment (inside comment listed)).2⟩
  · intro comment given
    rcases List.mem_append.mp given with old | new
    · exact followed.given comment old
    · exact followed.known comment (inside comment (List.mem_filter.mp new).1)
  · intro arm armed comment given
    rcases List.mem_append.mp given with old | new
    · exact followed.replays arm armed comment old
    · have late : cursor < comment.createdAt := by simpa using (List.mem_filter.mp new).2
      exact (followed.reached arm armed cursor own).trans_lt late
  · intro arm armed cursor' same comment there late unhanded
    cases same
    have out : comment ∉ page := by
      intro listed
      obtain ⟨other,given,same⟩ := page_handed followed armed own inside listed late
      exact unhanded other given same
    have fresh := followed.ahead arm armed cursor own comment there late fun other given =>
      unhanded other (List.mem_append_left _ given)
    have sooner := ordered cursor own comment there out fresh
    have most : advanced cursor page ≤ comment.createdAt - 1 :=
      (advanced_le_iff _).mpr ⟨by omega,fun other listed => by have := sooner other listed; omega⟩
    omega
  · intro body same arm armed comment listed late
    cases same
    exact page_handed followed armed own inside listed late

private theorem cycle_followed (followed : Followed state) (serves : Serves (.cycle page) state)
    (ordered : InOrder (.cycle page) state) : Followed (pollComments page state).2 := by
  unfold pollComments
  split
  next unarmed =>
    obtain ⟨none',unread,unhanded⟩ := followed.unarmed unarmed
    refine ⟨fun same => (nomatch same),?_,?_,followed.updated,followed.known,followed.given,?_,?_,?_⟩
    · intro arm armed cursor own
      cases armed
      cases own
      exact Nat.le_refl _
    · intro cursor own
      cases own
      exact Nat.le_refl _
    · intro arm _ comment given
      rw [unhanded] at given
      cases given
    · intro arm armed _ _ comment there late
      cases armed
      have bounds := followed.updated comment there
      omega
    · intro body own
      rw [unread] at own
      cases own
  next cursor own =>
    split
    · exact followed
    · exact read_followed followed own (answers_mem (serves cursor own).1) ordered

private theorem step_followed (followed : Followed state) (act : Act) (serves : Serves act state) (ordered : InOrder act state) :
    Followed (step act state).2 := by
  cases act with
  | tick ms => exact tick_followed followed ms
  | create body => exact create_followed followed body serves
  | edit id body => exact edit_followed followed id body
  | delete id => exact delete_followed followed id
  | cycle page => exact cycle_followed followed serves ordered

/-- Behind a page that is not full nothing is left. -/
private theorem caught_up (followed : Followed state) (serves : Serves (.cycle page) state)
    (armed : (pollComments page state).1 ≠ .armed) (short : page.length < PER_PAGE) : AllHanded (pollComments page state).2 := by
  unfold pollComments at armed ⊢
  split at armed
  · exact absurd rfl armed
  next cursor own =>
    obtain ⟨answers,_⟩ := serves cursor own
    have inside := answers_mem answers
    have left {arm : Nat} (armed : arm ∈ state.armedAt) {comment : Comment} (there : comment ∈ state.comments)
        (late : arm < comment.createdAt) (out : comment ∉ page) : ∃ other ∈ state.handed, other.id = comment.id := by
      by_contra unhanded
      refine out (answers_all answers short comment there ?_)
      have fresh := followed.ahead arm armed cursor own comment there late fun other given same => unhanded ⟨other,given,same⟩
      exact fresh.le.trans (followed.updated comment there).1
    split
    next same =>
      intro arm armed comment there late
      by_cases listed : comment ∈ page
      · exact followed.read page same arm armed comment listed late
      · exact left armed there late listed
    · intro arm armed comment there late
      by_cases listed : comment ∈ page
      · exact page_handed followed armed own inside listed late
      · obtain ⟨other,given,same⟩ := left armed there late listed
        exact ⟨other,List.mem_append_left _ given,same⟩

end Steps

/-- In every run whose pages leave out no new comment older than an update on them, no old comment is handed on, and none
that was made after the feed was armed is left once a page was not full. -/
theorem comments_handed {past : List (Act × Report)} {state : State}
    (run : Runs step (fun act state => Serves act state ∧ InOrder act state) .start past state) :
    NoneReplayed state ∧ (CaughtUp past → AllHanded state) := by
  have followed : ∀ past state, Runs step (fun act state => Serves act state ∧ InOrder act state) .start past state →
      Followed state := fun _ _ run =>
    Runs.invariant (fun _ state => Followed state) start_followed
      (fun _ _ act followed ok => step_followed followed act ok.1 ok.2) run
  refine ⟨(followed past state run).replays,?_⟩
  rintro ⟨page,report,earlier,same,armed,short⟩
  cases run with
  | start => cases same
  | next run act ok =>
    cases same
    exact caught_up (followed _ _ run) ok.1 armed short

section Samples

/-- The page of a server that sorts by the instant alone. -/
def pageOf (since : Nat) (comments : List Comment) : List Comment :=
  ((comments.filter fun comment => since ≤ comment.updatedAt).insertionSort
    fun comment later => comment.updatedAt ≤ later.updatedAt).take PER_PAGE

private theorem answers_pageOf (since : Nat) (comments : List Comment) : Answers since comments (pageOf since comments) := by
  let sorted := (comments.filter fun comment => since ≤ comment.updatedAt).insertionSort
    fun comment later => comment.updatedAt ≤ later.updatedAt
  have total : Std.Total fun comment later : Comment => comment.updatedAt ≤ later.updatedAt := ⟨fun _ _ => Nat.le_total _ _⟩
  have trans : IsTrans Comment fun comment later => comment.updatedAt ≤ later.updatedAt := ⟨fun _ _ _ => Nat.le_trans⟩
  refine ⟨sorted.drop PER_PAGE,?_,?_,?_⟩
  · unfold pageOf
    rw [List.take_append_drop]
    exact List.perm_insertionSort _ _
  · unfold pageOf
    rw [List.take_append_drop]
    exact List.pairwise_insertionSort _ _
  · unfold pageOf
    rw [List.take_append_drop,List.length_take]

def cycling (state : State) : Act := .cycle (pageOf (state.cursor.getD 0) state.comments)

private def served (act : Act) (state : State) : Bool :=
  match act with
  | .create _ => state.cursor ≠ some (isoSeconds state.now)
  | .cycle page => state.cursor.all fun cursor => page = pageOf cursor state.comments &&
      state.comments.all fun comment => comment ∈ page || comment.createdAt ≠ advanced cursor page
  | _ => true

private def ordered (act : Act) (state : State) : Bool :=
  match act with
  | .cycle page => state.cursor.all fun cursor => state.comments.all fun comment =>
      comment ∈ page || comment.createdAt ≤ cursor || page.all fun other => other.updatedAt < comment.createdAt
  | _ => true

private theorem served_serves {act : Act} {state : State} (ok : served act state = true) : Serves act state := by
  cases act with
  | create body => simpa [served,Serves] using ok
  | cycle page =>
    intro cursor own
    have own : state.cursor = some cursor := own
    simp only [served,own,Option.all_some,Bool.and_eq_true,decide_eq_true_eq,List.all_eq_true,Bool.or_eq_true] at ok
    refine ⟨ok.1 ▸ answers_pageOf cursor state.comments,fun comment inside out => ?_⟩
    exact (ok.2 comment inside).resolve_left out
  | _ => trivial

private theorem ordered_inOrder {act : Act} {state : State} (ok : ordered act state = true) : InOrder act state := by
  cases act with
  | cycle page =>
    intro cursor own comment inside out fresh other listed
    have own : state.cursor = some cursor := own
    simp only [ordered,own,Option.all_some,List.all_eq_true,Bool.or_eq_true,decide_eq_true_eq] at ok
    rcases ok comment inside with (there | old) | late
    · exact absurd there out
    · omega
    · exact late other listed
  | _ => trivial

def played (state : State) (script : List (State → Act)) : State :=
  script.foldl (fun state act => (step (act state) state).2) state

private def plays (check : Act → State → Bool) : State → List (State → Act) → Bool
  | _,[] => true
  | state,act :: rest => check (act state) state && plays check (step (act state) state).2 rest

private theorem played_runs {allowed : Act → State → Prop} {check : Act → State → Bool}
    (sound : ∀ act state, check act state = true → allowed act state) (script : List (State → Act)) {past : List (Act × Report)}
    {state : State} (run : Runs step allowed .start past state) (ok : plays check state script = true) :
    ∃ past, Runs step allowed .start past (played state script) := by
  induction script generalizing past state with
  | nil => exact ⟨past,run⟩
  | cons act rest ih =>
    rw [plays,Bool.and_eq_true] at ok
    exact ih (.next run (act state) (sound _ _ ok.1)) ok.2

theorem comments_handed_of_one :
    AllHanded (step (cycling (played .start [cycling,fun _ => .tick 1000,fun _ => .create "go"]))
      (played .start [cycling,fun _ => .tick 1000,fun _ => .create "go"])).2 := by
  obtain ⟨past,run⟩ := played_runs (fun act state (ok : (served act state && ordered act state) = true) =>
    (⟨served_serves (Bool.and_eq_true_iff.mp ok).1,ordered_inOrder (Bool.and_eq_true_iff.mp ok).2⟩ :
      Serves act state ∧ InOrder act state))
    [cycling,fun _ => .tick 1000,fun _ => .create "go"] .start (by decide)
  have last := Runs.next run (cycling (played .start [cycling,fun _ => .tick 1000,fun _ => .create "go"]))
    ⟨served_serves (by decide),ordered_inOrder (by decide)⟩
  exact (comments_handed last).2 ⟨_,_,past,rfl,by decide,by decide⟩

/-- A hundred comments behind the first of them, which is edited before a cycle reads any. -/
def lateEdit : List (State → Act) :=
  cycling :: (List.range 101).flatMap (fun _ => [fun _ => .tick 1000,fun _ => .create "go"]) ++
    [fun _ => .tick 1000,fun _ => .edit 0 "gone",cycling]

/-- The edited comment is on the second page, and older than what the first ends with. -/
theorem edited_comment_left :
    ¬∀ past state, Runs step Serves .start past state → NoneReplayed state ∧ (CaughtUp past → AllHanded state) := by
  intro handed
  obtain ⟨past,run⟩ := played_runs (fun act state (ok : served act state = true) => served_serves ok) lateEdit .start (by decide +kernel)
  have last := Runs.next run (cycling (played .start lateEdit)) (served_serves (by decide +kernel))
  have all := (handed _ _ last).2 ⟨_,_,past,rfl,by decide +kernel,by decide +kernel⟩
  obtain ⟨other,given,same⟩ := all 0 (by decide +kernel) ⟨0,1,102,"gone"⟩ (by decide +kernel) (by decide)
  have none' : ((step (cycling (played .start lateEdit)) (played .start lateEdit)).2.handed.all
    fun other => other.id ≠ 0) = true := by decide +kernel
  have apart := List.all_eq_true.mp none' other given
  simp [same] at apart

end Samples

end PiDispatch.PollerComments
