import PiDispatch.PollerPullsRuns

/-! The reviews of a polled repository: each that is submitted after the feed was armed is gated once a sweep has ended, if
its pull request stayed open, and none from before; as long as none is submitted in the middle of a sweep, every sweep sees
all there is, and the arming one the newest review there is. -/
namespace PiDispatch.PollerPulls
open Kernel

/-- What the server can do, whatever it lists. -/
def Possible (act : Act) (state : State) : Prop :=
  match act with
  | .fetch => True
  | act => Serves act state

/-- No review comes while a sweep goes on, the sweep leaves none out, and the first one sees the newest there is. -/
def Calm (act : Act) (state : State) : Prop :=
  match act with
  | .submits _ => state.phase = .idle
  | .fetch => (∀ pull ∈ state.pulls, pull.reviews.length ≤ PER_PAGE) ∧
      (state.phase = .idle → state.openList.length ≤ MAX_REVIEW_PRS ∧
        (state.reviewsCursor = none → ∀ pull ∈ state.pulls, ∀ id ∈ pull.reviews, ∃ other ∈ state.pulls, other.isOpen = true ∧
          ∃ later ∈ other.reviews, id ≤ later))
  | _ => True

/-- Every review of an open pull request was gated, that came since it was opened and since the feed was armed. -/
def Heard (state : State) : Prop :=
  ∀ pull ∈ state.pulls, pull.isOpen = true → ∀ id ∈ pull.reviews, pull.openedAt ≤ id → state.reviewsFrom ≤ id →
    id ∈ state.reviewed

section Invariant

variable {state next : State} {numbers : List Nat} {maxId : Nat} {gap : Bool}

/-- What holds of the reviews wherever a cycle stands. -/
private structure Base (state : State) : Prop where
  distinct : (state.pulls.map fun pull => pull.number).Nodup
  known : ∀ pull ∈ state.pulls, pull.number < state.nextNumber
  heads : ∀ pull ∈ state.pulls, pull.head ≠ CLOSED_MARKER
  ids : ∀ pull ∈ state.pulls, ∀ id ∈ pull.reviews, id < state.nextReview
  first : 0 < state.nextReview
  unread : state.prsArmed = false → state.prs = .empty ∧ state.etagPulls = none
  snapshot : ∀ body ∈ state.etagPulls, ∀ number, number ∈ body.map Listed.number ↔
    ∃ sha, state.prs.get? number = some sha ∧ sha ≠ CLOSED_MARKER
  before : ∀ cursor ∈ state.reviewsCursor, cursor < state.sweptAt
  swept : state.sweptAt ≤ state.nextReview
  armed : state.reviewsFrom ≤ state.sweptAt
  unarmed : state.reviewsCursor = none → state.reviewed = []
  old : ∀ cursor ∈ state.reviewsCursor, ∀ pull ∈ state.pulls, ∀ id ∈ pull.reviews, id < state.reviewsFrom → id ≤ cursor
  after : ∀ id ∈ state.reviewed, state.reviewsFrom ≤ id
  done : state.reviewsCursor.isSome = true → ∀ pull ∈ state.pulls, pull.isOpen = true → ∀ id ∈ pull.reviews,
    pull.openedAt ≤ id → state.reviewsFrom ≤ id → id < state.sweptAt → id ∈ state.reviewed
  bodies : ∀ number body, state.etagReviews.get? number = some body → ∀ id ∈ body, id < state.nextReview

/-- What holds of a sweep that has these pull requests left. -/
private structure Sweep (state : State) (numbers : List Nat) (maxId : Nat) : Prop where
  apart : numbers.Nodup
  most : maxId < state.nextReview
  least : ∀ cursor ∈ state.reviewsCursor, cursor ≤ maxId
  heard : state.reviewsCursor.isSome = true → ∀ pull ∈ state.pulls, pull.isOpen = true → pull.number ∈ numbers ∨
    ∀ id ∈ pull.reviews, pull.openedAt ≤ id → state.reviewsFrom ≤ id → id ∈ state.reviewed
  learned : state.reviewsCursor = none → ∀ pull ∈ state.pulls, ∀ id ∈ pull.reviews, id ≤ maxId ∨
    ∃ other ∈ state.pulls, other.number ∈ numbers ∧ ∃ later ∈ other.reviews, id ≤ later
  stale : ∀ number ∈ numbers, ∀ body, state.etagReviews.get? number = some body → ∀ id ∈ body, id < state.sweptAt

/-- Where a cycle stands. -/
private structure Stands (state : State) : Prop where
  base : Base state
  stale : state.phase = .idle → ∀ number body, state.etagReviews.get? number = some body → ∀ id ∈ body, id < state.sweptAt
  sweeps : ∀ numbers maxId gap, state.phase = .sweeping numbers maxId gap → gap = false ∧ Sweep state numbers maxId
  unlisted : ∀ listed page, state.phase ≠ .listing listed page

private theorem start_stands : Stands .start := by
  refine ⟨?_,fun _ _ _ found => (nomatch found),fun _ _ _ own => (nomatch own),fun _ _ own => (nomatch own)⟩
  constructor <;> simp [State.start]

/-- Behind the last pull request all are heard. -/
private theorem sweepOn_stands (base : Base state) (sweep : Sweep state numbers maxId) :
    Stands (sweepOn numbers maxId false state).2 ∧
      ((sweepOn numbers maxId false state).1 = some false → Heard (sweepOn numbers maxId false state).2) := by
  unfold sweepOn
  split
  next ends =>
    have none' : numbers = [] := by simpa using ends
    rw [none'] at sweep
    have all : ∀ pull ∈ state.pulls, pull.isOpen = true → ∀ id ∈ pull.reviews, pull.openedAt ≤ id →
        (if state.reviewsCursor.isNone then state.nextReview else state.reviewsFrom) ≤ id → id ∈ state.reviewed := by
      intro pull inside isOpen id own since from'
      cases armed : state.reviewsCursor with
      | none =>
        rw [armed] at from'
        have less := base.ids pull inside id own
        have from' : state.nextReview ≤ id := from'
        omega
      | some cursor =>
        rw [armed] at from'
        rcases sweep.heard (by rw [armed]; rfl) pull inside isOpen with none' | heard
        · cases none'
        · exact heard id own since from'
    refine ⟨⟨?_,fun _ number body found id own => base.bodies number body found id own,fun _ _ _ own => (nomatch own),
      fun _ _ own => (nomatch own)⟩,fun _ => all⟩
    refine ⟨base.distinct,base.known,base.heads,base.ids,base.first,base.unread,base.snapshot,?_,Nat.le_refl _,?_,
      fun none' => (nomatch none'),?_,?_,fun _ pull inside isOpen id own since from' _ => all pull inside isOpen id own since from',
      base.bodies⟩
    · intro cursor own
      cases own
      exact sweep.most
    · dsimp only
      split
      · exact Nat.le_refl _
      · exact base.armed.trans base.swept
    · intro cursor same pull inside id own late
      cases same
      cases armed : state.reviewsCursor with
      | none =>
        rcases sweep.learned armed pull inside id own with learned | ⟨_,_,none',_⟩
        · exact learned
        · cases none'
      | some cursor =>
        rw [armed] at late
        exact (base.old cursor armed pull inside id own late).trans (sweep.least cursor armed)
    · intro id own
      cases armed : state.reviewsCursor with
      | none =>
        have own : id ∈ state.reviewed := own
        rw [base.unarmed armed] at own
        cases own
      | some cursor => exact base.after id own
  next more =>
    refine ⟨⟨⟨base.distinct,base.known,base.heads,base.ids,base.first,base.unread,base.snapshot,base.before,base.swept,base.armed,
      base.unarmed,base.old,base.after,base.done,base.bodies⟩,fun own => (nomatch own),?_,fun _ _ own => (nomatch own)⟩,
      fun own => (nomatch own)⟩
    intro numbers' maxId' gap own
    cases own
    exact ⟨rfl,⟨sweep.apart,sweep.most,sweep.least,sweep.heard,sweep.learned,sweep.stale⟩⟩

private theorem foldl_max_le {fresh : List Nat} {start bound : Nat} :
    fresh.foldl max start ≤ bound ↔ start ≤ bound ∧ ∀ id ∈ fresh, id ≤ bound := by
  induction fresh generalizing start with
  | nil => simp
  | cons id fresh ih => rw [List.foldl_cons,ih,List.forall_mem_cons,Nat.max_le,and_assoc]

/-- The first page has them all. -/
private theorem reviewsOf_all (base : Base state) (few : ∀ pull ∈ state.pulls, pull.reviews.length ≤ PER_PAGE) {pull : Pull}
    (inside : pull ∈ state.pulls) : state.reviewsOf pull.number = pull.reviews := by
  have found : state.pulls.find? (fun other => other.number = pull.number) = some pull := by
    cases found : state.pulls.find? (fun other => other.number = pull.number) with
    | none => exact absurd (List.find?_eq_none.mp found pull inside) (by simp)
    | some other =>
      have same : other.number = pull.number := by simpa using List.find?_some found
      exact congrArg some (List.inj_on_of_nodup_map base.distinct (List.mem_of_find?_eq_some found) inside same)
  unfold State.reviewsOf
  rw [found]
  exact List.take_of_length_le (few pull inside)

private theorem mem_reviewsOf {number id : Nat} (own : id ∈ state.reviewsOf number) :
    ∃ pull ∈ state.pulls, pull.number = number ∧ id ∈ pull.reviews := by
  have own := List.mem_of_mem_take own
  cases found : state.pulls.find? (fun pull => pull.number = number) with
  | none =>
    rw [found] at own
    cases own
  | some pull =>
    rw [found] at own
    exact ⟨pull,List.mem_of_find?_eq_some found,by simpa using List.find?_some found,own⟩

private theorem sweepFetch_stands {number : Nat} {rest : List Nat} (base : Base state) (sweep : Sweep state (number :: rest) maxId)
    (few : ∀ pull ∈ state.pulls, pull.reviews.length ≤ PER_PAGE) :
    Stands (sweepFetch number rest maxId false state).2 ∧
      ((sweepFetch number rest maxId false state).1 = some false → Heard (sweepFetch number rest maxId false state).2) := by
  obtain ⟨out,apart⟩ := List.nodup_cons.mp sweep.apart
  unfold sweepFetch
  dsimp only
  split
  next unchanged =>
    refine sweepOn_stands base ⟨apart,sweep.most,sweep.least,?_,?_,fun other listed => sweep.stale other (List.mem_cons_of_mem _ listed)⟩
    · intro armed pull inside isOpen
      rcases sweep.heard armed pull inside isOpen with listed | heard
      · rcases List.mem_cons.mp listed with same | later
        · refine .inr fun id own since from' => base.done armed pull inside isOpen id own since from' ?_
          refine sweep.stale number List.mem_cons_self _ unchanged.2 id ?_
          rw [← same,reviewsOf_all base few inside]
          exact own
        · exact .inl later
      · exact .inr heard
    · intro unarmed
      rw [unarmed] at unchanged
      exact absurd unchanged.1 (by decide)
  next changed =>
    have fresh : ∀ id ∈ (state.reviewsOf number).filter (fun id => state.reviewsCursor.getD 0 < id),
        (∃ pull ∈ state.pulls, id ∈ pull.reviews) ∧ state.reviewsCursor.getD 0 < id := by
      intro id inside
      obtain ⟨own,late⟩ := List.mem_filter.mp inside
      obtain ⟨pull,there,_,own⟩ := mem_reviewsOf own
      exact ⟨⟨pull,there,own⟩,by simpa using late⟩
    have most : ((state.reviewsOf number).filter fun id => state.reviewsCursor.getD 0 < id).foldl max maxId ≤ state.nextReview - 1 := by
      refine foldl_max_le.mpr ⟨Nat.le_sub_one_of_lt sweep.most,fun id inside => ?_⟩
      obtain ⟨⟨pull,there,own⟩,_⟩ := fresh id inside
      exact Nat.le_sub_one_of_lt (base.ids pull there id own)
    have least := (foldl_max_le.mp (Nat.le_refl (((state.reviewsOf number).filter fun id =>
      state.reviewsCursor.getD 0 < id).foldl max maxId)))
    refine sweepOn_stands ?_ ?_
    · refine ⟨base.distinct,base.known,base.heads,base.ids,base.first,base.unread,base.snapshot,base.before,base.swept,base.armed,
        ?_,base.old,?_,?_,?_⟩
      · intro unarmed
        have unarmed : state.reviewsCursor = none := unarmed
        simp [unarmed,base.unarmed unarmed]
      · intro id inside
        rcases List.mem_append.mp inside with old | new
        · exact base.after id old
        · cases armed : state.reviewsCursor with
          | none =>
            rw [armed] at new
            cases new
          | some cursor =>
            rw [armed] at new
            obtain ⟨⟨pull,there,own⟩,late⟩ := fresh id (by rw [armed]; exact new)
            rw [armed,Option.getD_some] at late
            by_contra early
            have below := base.old cursor armed pull there id own (Nat.lt_of_not_le early)
            omega
      · exact fun armed pull inside isOpen id own since from' early =>
          List.mem_append_left _ (base.done armed pull inside isOpen id own since from' early)
      · intro other body found id own
        dsimp only at found
        rw [Dict.get?_set] at found
        split at found
        · cases found
          obtain ⟨pull,there,_,own⟩ := mem_reviewsOf own
          exact base.ids pull there id own
        · exact base.bodies other body found id own
    · refine ⟨apart,?_,?_,?_,?_,?_⟩
      · have first := base.first
        change _ < state.nextReview
        omega
      · exact fun cursor own => (sweep.least cursor own).trans least.1
      · intro armed pull inside isOpen
        rcases sweep.heard armed pull inside isOpen with listed | heard
        · rcases List.mem_cons.mp listed with same | later
          · refine .inr fun id own since from' => ?_
            obtain ⟨cursor,armed'⟩ := Option.isSome_iff_exists.mp armed
            have armed' : state.reviewsCursor = some cursor := armed'
            by_cases late : cursor < id
            · refine List.mem_append_right _ ?_
              rw [armed',Option.isSome_some,if_pos rfl,List.mem_filter,← same,reviewsOf_all base few inside]
              exact ⟨own,by simpa using late⟩
            · refine List.mem_append_left _ (base.done armed pull inside isOpen id own since from' ?_)
              have less := base.before cursor armed'
              omega
          · exact .inl later
        · exact .inr fun id own since from' => List.mem_append_left _ (heard id own since from')
      · intro unarmed pull inside id own
        have unarmed : state.reviewsCursor = none := unarmed
        rcases sweep.learned unarmed pull inside id own with learned | ⟨other,there,listed,later,newer,less⟩
        · exact .inl (learned.trans least.1)
        · rcases List.mem_cons.mp listed with same | rest
          · refine .inl (less.trans ?_)
            by_cases some' : 0 < later
            · refine least.2 later ?_
              rw [unarmed,List.mem_filter,← same,reviewsOf_all base few there]
              exact ⟨newer,by simpa using some'⟩
            · omega
          · exact .inr ⟨other,there,rest,later,newer,less⟩
      · intro other listed body found
        have apart : number ≠ other := fun same => out (same ▸ listed)
        have found : (state.etagReviews.set number (state.reviewsOf number)).get? other = some body := found
        rw [Dict.get?_set_ne _ _ apart] at found
        exact sweep.stale other (List.mem_cons_of_mem _ listed) body found

/-- A sweep of all that is open starts with every one of them to be heard. -/
private theorem pollReviews_stands {listed : Option (List Listed)} (base : Base state)
    (stale : ∀ number body, state.etagReviews.get? number = some body → ∀ id ∈ body, id < state.sweptAt)
    (apart : (sweepSet listed state.prs).Nodup) (few : (sweepSet listed state.prs).length ≤ MAX_REVIEW_PRS)
    (all : ∀ pull ∈ state.pulls, pull.isOpen = true → pull.number ∈ sweepSet listed state.prs)
    (learned : state.reviewsCursor = none → ∀ pull ∈ state.pulls, ∀ id ∈ pull.reviews, ∃ other ∈ state.pulls,
      other.isOpen = true ∧ ∃ later ∈ other.reviews, id ≤ later) :
    Stands (pollReviews listed state).2 ∧ ((pollReviews listed state).1 = some false → Heard (pollReviews listed state).2) := by
  unfold pollReviews
  dsimp only
  rw [List.take_of_length_le few,decide_eq_false (Nat.not_lt_of_le few)]
  refine sweepOn_stands base ⟨apart,?_,?_,fun _ pull inside isOpen => .inl (all pull inside isOpen),?_,fun number _ => stale number⟩
  · cases armed : state.reviewsCursor with
    | none => exact base.first
    | some cursor => exact (base.before cursor armed).trans_le base.swept
  · intro cursor armed
    rw [armed]
    exact Nat.le_refl _
  · intro unarmed pull inside id own
    obtain ⟨other,there,isOpen,later⟩ := learned unarmed pull inside id own
    exact .inr ⟨other,there,all other there isOpen,later⟩

private theorem openNumbers_distinct (base : Base state) : (state.openList.map Listed.number).Nodup := by
  unfold State.openList
  rw [List.map_map]
  exact base.distinct.sublist (List.filter_sublist.map _)

private theorem open_number {pull : Pull} (inside : pull ∈ state.pulls) (isOpen : pull.isOpen = true) :
    pull.number ∈ state.openList.map Listed.number :=
  List.mem_map.mpr ⟨pull.toListed,mem_openList.mpr ⟨pull,inside,isOpen,rfl⟩,rfl⟩

private theorem listed_unmarked (base : Base state) {number : Nat} {pr : Listed}
    (found : state.openList.find? (fun pr => pr.number = number) = some pr) : pr.head ≠ CLOSED_MARKER := by
  obtain ⟨pull,inside,_,rfl⟩ := mem_openList.mp (List.mem_of_find?_eq_some found)
  exact base.heads pull inside

/-- The list is short, and its first page all of it. -/
private theorem short_page (few : state.openList.length ≤ MAX_REVIEW_PRS) : state.openPage 1 = state.openList := by
  rw [openPage_first]
  refine List.take_of_length_le ?_
  unfold MAX_REVIEW_PRS at few
  unfold PER_PAGE
  omega

/-- The snapshot of a list has its numbers as the open ones. -/
private theorem snapshot_numbers (base : Base state) {prs : Dict Nat String}
    (has : ∀ number, prs.get? number = match state.openList.find? fun pr => pr.number = number with
      | some pr => some pr.head
      | none => (state.prs.get? number).map fun _ => CLOSED_MARKER) (number : Nat) :
    number ∈ state.openList.map Listed.number ↔ ∃ sha, prs.get? number = some sha ∧ sha ≠ CLOSED_MARKER := by
  constructor
  · intro listed
    obtain ⟨pr,there,rfl⟩ := List.mem_map.mp listed
    have found := find_listed (openNumbers_distinct base) there
    refine ⟨pr.head,?_,listed_unmarked base found⟩
    rw [has,found]
  · rintro ⟨sha,recorded,marked⟩
    rw [has] at recorded
    split at recorded
    next pr found =>
      have own : pr.number = number := by simpa using List.find?_some found
      rw [← own]
      exact List.mem_map_of_mem (List.mem_of_find?_eq_some found)
    · obtain ⟨_,_,same⟩ := Option.map_eq_some_iff.mp recorded
      exact absurd same.symm marked

private theorem listRead_stands (base : Base state) (few : state.openList.length ≤ MAX_REVIEW_PRS)
    (stale : ∀ number body, state.etagReviews.get? number = some body → ∀ id ∈ body, id < state.sweptAt)
    (learned : state.reviewsCursor = none → ∀ pull ∈ state.pulls, ∀ id ∈ pull.reviews, ∃ other ∈ state.pulls,
      other.isOpen = true ∧ ∃ later ∈ other.reviews, id ≤ later) :
    Stands (listRead state.openList { state with etagPulls := some state.openList }).2 ∧
      ((listRead state.openList { state with etagPulls := some state.openList }).1.swept = some false →
        Heard (listRead state.openList { state with etagPulls := some state.openList }).2) := by
  have kept {armed : Bool} {prs : Dict Nat String} {gated : List Gate} {atArming : List Nat} (on : armed = true)
      (has : ∀ number, prs.get? number = match state.openList.find? fun pr => pr.number = number with
        | some pr => some pr.head
        | none => (state.prs.get? number).map fun _ => CLOSED_MARKER) :
      Base { state.saw state.openList with
        etagPulls := some state.openList
        prsArmed := armed
        prs := prs
        gated := gated
        atArming := atArming } := by
    refine ⟨base.distinct,base.known,base.heads,base.ids,base.first,fun unarmed => absurd (on.symm.trans unarmed) (by decide),?_,
      base.before,base.swept,base.armed,base.unarmed,base.old,base.after,base.done,base.bodies⟩
    intro body own
    cases own
    exact snapshot_numbers base has
  have short (prs : Dict Nat String) : (sweepSet (some state.openList) prs).length ≤ MAX_REVIEW_PRS := by
    rw [sweepSet,List.length_map]
    exact few
  unfold listRead
  split
  next armed =>
    refine pollReviews_stands ?_ stale (openNumbers_distinct base) (short _) (fun _ => open_number) learned
    exact kept armed fun _ => snapshot_get (openNumbers_distinct base)
  next unarmed =>
    refine pollReviews_stands ?_ stale (openNumbers_distinct base) (short _) (fun _ => open_number) learned
    refine kept rfl fun number => ?_
    rw [(base.unread (by simpa using unarmed)).1,armed_get (openNumbers_distinct base)]
    cases state.openList.find? fun pr => pr.number = number <;> rfl

/-- Where the list was not read, the snapshot has its numbers. -/
private theorem unchanged_stands (base : Base state) (few : state.openList.length ≤ MAX_REVIEW_PRS)
    (stale : ∀ number body, state.etagReviews.get? number = some body → ∀ id ∈ body, id < state.sweptAt)
    (learned : state.reviewsCursor = none → ∀ pull ∈ state.pulls, ∀ id ∈ pull.reviews, ∃ other ∈ state.pulls,
      other.isOpen = true ∧ ∃ later ∈ other.reviews, id ≤ later) (same : state.etagPulls = some state.openList) :
    Stands (pollReviews none state).2 ∧ ((pollReviews none state).1 = some false → Heard (pollReviews none state).2) := by
  have apart : (sweepSet none state.prs).Nodup := by
    refine (List.perm_insertionSort _ _).nodup_iff.mpr ?_
    exact state.prs.distinct.sublist (List.filter_sublist.map _)
  have numbers : (sweepSet none state.prs).Perm (state.openList.map Listed.number) := by
    refine (List.perm_ext_iff_of_nodup apart (openNumbers_distinct base)).mpr fun number => ?_
    rw [base.snapshot _ same number,sweepSet,List.mem_insertionSort,List.mem_map]
    constructor
    · rintro ⟨entry,inside,rfl⟩
      obtain ⟨there,marked⟩ := List.mem_filter.mp inside
      exact ⟨entry.2,(Dict.get?_eq_some_iff _ _ _).mpr there,by simpa using marked⟩
    · rintro ⟨sha,recorded,marked⟩
      exact ⟨(number,sha),List.mem_filter.mpr ⟨(Dict.get?_eq_some_iff _ _ _).mp recorded,by simpa using marked⟩,rfl⟩
  refine pollReviews_stands base stale apart ?_ (fun pull inside isOpen => numbers.mem_iff.mpr (open_number inside isOpen)) learned
  rw [numbers.length_eq,List.length_map]
  exact few

private theorem fetch_stands (stands : Stands state) (calm : Calm .fetch state) :
    Stands (fetch state).2 ∧ ((fetch state).1.swept = some false → Heard (fetch state).2) := by
  unfold fetch
  split
  next idle =>
    obtain ⟨few,learned⟩ := calm.2 idle
    dsimp only
    rw [short_page few]
    split
    next same => exact unchanged_stands stands.base few (stands.stale idle) learned same.2
    next changed =>
      unfold pageRead
      rw [if_neg]
      · exact listRead_stands stands.base few (stands.stale idle) learned
      · unfold MAX_REVIEW_PRS at few
        unfold PER_PAGE
        omega
  next listed page own => exact absurd own (stands.unlisted listed page)
  next maxId gap own =>
    obtain ⟨rfl,sweep⟩ := stands.sweeps [] maxId gap own
    exact sweepOn_stands stands.base sweep
  next number rest maxId gap own =>
    obtain ⟨rfl,sweep⟩ := stands.sweeps (number :: rest) maxId gap own
    exact sweepFetch_stands stands.base sweep calm.1

/-- An update that leaves the reviews, and opens a pull request only after all of them. -/
private theorem touch_stands {number : Nat} {change : Pull → Pull} {shut pushed : List Nat} (stands : Stands state)
    (keeps : ∀ pull, (change pull).number = pull.number) (reviews : ∀ pull, (change pull).reviews = pull.reviews)
    (heads : ∀ pull ∈ state.pulls, (change pull).head ≠ CLOSED_MARKER)
    (opened : ∀ pull, (change pull).isOpen = true →
      pull.isOpen = true ∧ (change pull).openedAt = pull.openedAt ∨ (change pull).openedAt = state.nextReview) :
    Stands { state.touch number change with shut := shut, pushed := pushed } := by
  obtain ⟨base,stale,sweeps,unlisted⟩ := stands
  have was {pull : Pull} (inside : pull ∈ (state.touch number change).pulls) :
      ∃ old ∈ state.pulls, pull.number = old.number ∧ pull.reviews = old.reviews ∧ pull.head ≠ CLOSED_MARKER ∧
        (pull.isOpen = true → old.isOpen = true ∧ pull.openedAt = old.openedAt ∨ pull.openedAt = state.nextReview) := by
    rcases mem_touch.mp inside with ⟨old,_⟩ | ⟨old,there,_,rfl⟩
    · exact ⟨pull,old,rfl,rfl,base.heads pull old,fun isOpen => .inl ⟨isOpen,rfl⟩⟩
    · exact ⟨old,there,keeps old,reviews old,heads old there,opened old⟩
  have heard {pull : Pull} (inside : pull ∈ (state.touch number change).pulls) (isOpen : pull.isOpen = true) :
      ∃ old ∈ state.pulls, pull.number = old.number ∧ pull.reviews = old.reviews ∧
        (old.isOpen = true ∧ pull.openedAt = old.openedAt ∨ ∀ id ∈ pull.reviews, ¬pull.openedAt ≤ id) := by
    obtain ⟨old,there,same,alike,_,since⟩ := was inside
    refine ⟨old,there,same,alike,?_⟩
    rcases since isOpen with before | now
    · exact .inl before
    · refine .inr fun id own => ?_
      rw [alike] at own
      rw [now]
      exact Nat.not_le_of_lt (base.ids old there id own)
  refine ⟨⟨(touch_numbers keeps).nodup_iff.mpr base.distinct,?_,?_,?_,base.first,base.unread,base.snapshot,base.before,base.swept,
    base.armed,base.unarmed,?_,base.after,?_,base.bodies⟩,stale,?_,unlisted⟩
  · intro pull inside
    obtain ⟨old,there,same,_⟩ := was inside
    rw [same]
    exact base.known old there
  · intro pull inside
    obtain ⟨_,_,_,_,head,_⟩ := was inside
    exact head
  · intro pull inside
    obtain ⟨old,there,_,alike,_⟩ := was inside
    rw [alike]
    exact base.ids old there
  · intro cursor armed pull inside
    obtain ⟨old,there,_,alike,_⟩ := was inside
    rw [alike]
    exact base.old cursor armed old there
  · intro armed pull inside isOpen
    obtain ⟨old,there,_,alike,⟨before,since⟩ | never⟩ := heard inside isOpen
    · rw [alike,since]
      exact base.done armed old there before
    · exact fun id own late => absurd late (never id own)
  · intro numbers maxId gap own
    obtain ⟨complete,sweep⟩ := sweeps numbers maxId gap own
    refine ⟨complete,sweep.apart,sweep.most,sweep.least,?_,?_,sweep.stale⟩
    · intro armed pull inside isOpen
      obtain ⟨old,there,same,alike,⟨before,since⟩ | never⟩ := heard inside isOpen
      · rw [same,alike,since]
        exact sweep.heard armed old there before
      · exact .inr fun id own late => absurd late (never id own)
    · intro unarmed pull inside id own
      obtain ⟨old,there,_,alike,_⟩ := was inside
      rw [alike] at own
      rcases sweep.learned unarmed old there id own with learned | ⟨other,among,left,later,newer,less⟩
      · exact .inl learned
      · by_cases same : other.number = number
        · refine .inr ⟨_,mem_touch.mpr (.inr ⟨other,among,same,rfl⟩),?_,later,?_,less⟩
          · change (change other).number ∈ numbers
            rw [keeps]
            exact left
          · change later ∈ (change other).reviews
            rw [reviews]
            exact newer
        · exact .inr ⟨other,mem_touch.mpr (.inl ⟨among,same⟩),left,later,newer,less⟩

private theorem opens_stands {head : String} (stands : Stands state) (proper : head ≠ CLOSED_MARKER) :
    Stands (step (.opens head) state).2 := by
  obtain ⟨base,stale,sweeps,unlisted⟩ := stands
  have was {pull : Pull} (inside : pull ∈ (step (.opens head) state).2.pulls) :
      pull ∈ state.pulls ∨ pull = ⟨⟨state.nextNumber,head,state.clock⟩,true,[],state.nextReview⟩ := by
    simpa [step] using inside
  refine ⟨⟨?_,?_,?_,?_,base.first,base.unread,base.snapshot,base.before,base.swept,base.armed,base.unarmed,?_,base.after,?_,
    base.bodies⟩,stale,?_,unlisted⟩
  · change ((state.pulls ++ [_]).map fun pull : Pull => pull.number).Nodup
    rw [List.map_append,List.nodup_append]
    refine ⟨base.distinct,List.nodup_singleton _,?_⟩
    intro number inside other new same
    obtain ⟨pull,there,own⟩ := List.mem_map.mp inside
    have less := base.known pull there
    rw [List.mem_singleton.mp new] at same
    exact absurd (own.trans same) (Nat.ne_of_lt less)
  · intro pull inside
    rcases was inside with old | rfl
    · exact Nat.lt_succ_of_lt (base.known pull old)
    · exact Nat.lt_succ_self _
  · intro pull inside
    rcases was inside with old | rfl
    · exact base.heads pull old
    · exact proper
  · intro pull inside
    rcases was inside with old | rfl
    · exact base.ids pull old
    · exact fun id own => absurd own List.not_mem_nil
  · intro cursor armed pull inside
    rcases was inside with old | rfl
    · exact base.old cursor armed pull old
    · exact fun id own => absurd own List.not_mem_nil
  · intro armed pull inside isOpen
    rcases was inside with old | rfl
    · exact base.done armed pull old isOpen
    · exact fun id own => absurd own List.not_mem_nil
  · intro numbers maxId gap own
    obtain ⟨complete,sweep⟩ := sweeps numbers maxId gap own
    refine ⟨complete,sweep.apart,sweep.most,sweep.least,?_,?_,sweep.stale⟩
    · intro armed pull inside isOpen
      rcases was inside with old | rfl
      · exact sweep.heard armed pull old isOpen
      · exact .inr fun id own => absurd own List.not_mem_nil
    · intro unarmed pull inside id own
      rcases was inside with old | rfl
      · rcases sweep.learned unarmed pull old id own with learned | ⟨other,among,left⟩
        · exact .inl learned
        · exact .inr ⟨other,List.mem_append_left _ among,left⟩
      · cases own

private theorem submits_stands {number : Nat} (stands : Stands state) (idle : state.phase = .idle) :
    Stands (step (.submits number) state).2 := by
  obtain ⟨base,stale,sweeps,unlisted⟩ := stands
  have was {pull : Pull} (inside : pull ∈ (step (.submits number) state).2.pulls) :
      ∃ old ∈ state.pulls, pull.toListed = old.toListed ∧ pull.isOpen = old.isOpen ∧ pull.openedAt = old.openedAt ∧
        ∀ id ∈ pull.reviews, id ∈ old.reviews ∨ id = state.nextReview := by
    obtain ⟨old,there,rfl⟩ := List.mem_map.mp inside
    refine ⟨old,there,?_⟩
    split
    · exact ⟨rfl,rfl,rfl,fun id own => by simpa using own⟩
    · exact ⟨rfl,rfl,rfl,fun id own => .inl own⟩
  have numbers : ((step (.submits number) state).2.pulls.map fun pull => pull.number) =
      state.pulls.map fun pull => pull.number := by
    change (state.pulls.map _).map _ = _
    rw [List.map_map]
    refine List.map_congr_left fun pull _ => ?_
    dsimp only [Function.comp_apply]
    split <;> rfl
  have newest := base.armed.trans base.swept
  refine ⟨⟨?_,?_,?_,?_,Nat.succ_pos _,base.unread,base.snapshot,base.before,base.swept.trans (Nat.le_succ _),base.armed,base.unarmed,
    ?_,base.after,?_,fun other body found id own => Nat.lt_succ_of_lt (base.bodies other body found id own)⟩,stale,?_,unlisted⟩
  · rw [numbers]
    exact base.distinct
  · intro pull inside
    obtain ⟨old,there,same,_⟩ := was inside
    rw [same]
    exact base.known old there
  · intro pull inside
    obtain ⟨old,there,same,_⟩ := was inside
    rw [same]
    exact base.heads old there
  · intro pull inside id own
    obtain ⟨old,there,_,_,_,among⟩ := was inside
    rcases among id own with before | rfl
    · exact Nat.lt_succ_of_lt (base.ids old there id before)
    · exact Nat.lt_succ_self _
  · intro cursor armed pull inside id own early
    obtain ⟨old,there,_,_,_,among⟩ := was inside
    rcases among id own with before | rfl
    · exact base.old cursor armed old there id before early
    · exact absurd early (Nat.not_lt_of_le newest)
  · intro armed pull inside isOpen id own since from' early
    obtain ⟨old,there,_,alike,at',among⟩ := was inside
    rcases among id own with before | rfl
    · exact base.done armed old there (alike ▸ isOpen) id before (at' ▸ since) from' early
    · exact absurd early (Nat.not_lt_of_le base.swept)
  · intro numbers maxId gap own
    exact absurd (idle.symm.trans own) fun same => (nomatch same)

private theorem step_stands (act : Act) (stands : Stands state) (possible : Possible act state) (calm : Calm act state) :
    Stands (step act state).2 ∧ ((step act state).1.swept = some false → Heard (step act state).2) := by
  have base := stands.base
  cases act with
  | opens head => exact ⟨opens_stands stands possible,fun own => (nomatch own)⟩
  | closes number =>
    refine ⟨touch_stands stands (fun _ => rfl) (fun _ => rfl) base.heads ?_,fun own => (nomatch own)⟩
    exact fun _ isOpen => (nomatch isOpen)
  | reopens number =>
    refine ⟨@touch_stands state number
      (fun pull => { pull with isOpen := true, openedAt := if pull.isOpen then pull.openedAt else state.nextReview })
      state.shut state.pushed stands (fun _ => rfl) (fun _ => rfl) base.heads ?_,fun own => (nomatch own)⟩
    intro pull _
    dsimp only
    split
    next before => exact .inl ⟨before,rfl⟩
    · exact .inr rfl
  | pushes number head =>
    exact ⟨@touch_stands state number (fun pull => { pull with head := head }) state.shut (number :: state.pushed) stands
      (fun _ => rfl) (fun _ => rfl) (fun _ _ => possible.1) (fun _ isOpen => .inl ⟨isOpen,rfl⟩),fun own => (nomatch own)⟩
  | updates number =>
    exact ⟨@touch_stands state number id state.shut state.pushed stands (fun _ => rfl) (fun _ => rfl) base.heads
      (fun _ isOpen => .inl ⟨isOpen,rfl⟩),fun own => (nomatch own)⟩
  | submits number => exact ⟨submits_stands stands calm,fun own => (nomatch own)⟩
  | fetch => exact fetch_stands stands calm

end Invariant

/-- No review from before the arming is gated, and where a sweep that leaves none out has ended, each since is. -/
def Attentive (past : List (Act × Report)) (state : State) : Prop :=
  (∀ id ∈ state.reviewed, state.reviewsFrom ≤ id) ∧
    ∀ last ∈ past.head?, last.2.swept = some false → Heard state

theorem reviews_heard {past : List (Act × Report)} {state : State}
    (run : Runs step (fun act state => Possible act state ∧ Calm act state) .start past state) : Attentive past state := by
  have holds : Stands state ∧ ∀ last ∈ past.head?, last.2.swept = some false → Heard state := by
    refine Runs.invariant (fun past state => Stands state ∧ ∀ last ∈ past.head?, last.2.swept = some false → Heard state) ?_ ?_ run
    · exact ⟨start_stands,fun _ none' => (nomatch none')⟩
    · intro past state act holds ok
      obtain ⟨stands,heard⟩ := step_stands act holds.1 ok.1 ok.2
      refine ⟨stands,fun last own => ?_⟩
      cases own
      exact heard
  exact ⟨holds.1.base.after,holds.2⟩

section Samples

private instance (act : Act) (state : State) : Decidable (Possible act state) :=
  match act with
  | .fetch => isTrue trivial
  | .opens head => inferInstanceAs (Decidable (Serves (.opens head) state))
  | .closes number => inferInstanceAs (Decidable (Serves (.closes number) state))
  | .pushes number head => inferInstanceAs (Decidable (Serves (.pushes number head) state))
  | .reopens _ | .updates _ | .submits _ => isTrue trivial

private instance (act : Act) (state : State) : Decidable (Calm act state) :=
  match act with
  | .submits _ => inferInstanceAs (Decidable (state.phase = .idle))
  | .fetch => inferInstanceAs (Decidable ((∀ pull ∈ state.pulls, pull.reviews.length ≤ PER_PAGE) ∧
      (state.phase = .idle → state.openList.length ≤ MAX_REVIEW_PRS ∧
        (state.reviewsCursor = none → ∀ pull ∈ state.pulls, ∀ id ∈ pull.reviews, ∃ other ∈ state.pulls, other.isOpen = true ∧
          ∃ later ∈ other.reviews, id ≤ later))))
  | .opens _ | .closes _ | .reopens _ | .pushes .. | .updates _ => isTrue trivial

/-- A review from before the arming, and one from after it. -/
def twoReviews : List Act := [.opens "a",.submits 0,.fetch,.fetch,.submits 0,.fetch,.fetch]

theorem reviews_heard_of_two :
    Attentive (answered step .start twoReviews) (after step .start twoReviews) ∧ (after step .start twoReviews).reviewed = [2] :=
  ⟨reviews_heard (runs_guarded _ _ _ twoReviews (by decide)),by decide⟩

/-- A sweep reads the first of two pull requests, each gets a review, and it reads the other. -/
def overtaken : List Act :=
  [.opens "a",.opens "b",.fetch,.fetch,.fetch,.fetch,.fetch,.submits 0,.submits 1,.fetch,.fetch,.fetch,.fetch]

/-- The first review stays behind the cursor. -/
theorem overtaken_unheard : ¬∀ past state, Runs step Possible .start past state → Attentive past state := by
  intro attentive
  have run := runs_guarded step Possible .start overtaken (by decide)
  have heard := (attentive _ _ run).2 (.fetch,⟨[],some false⟩) (by decide) rfl
  have known : (⟨⟨0,"a",0⟩,true,[1],1⟩ : Pull) ∈ (after step .start overtaken).pulls := by decide
  exact absurd (heard _ known rfl 1 (by decide) (by decide) (by decide)) (by decide)

end Samples

end PiDispatch.PollerPulls
