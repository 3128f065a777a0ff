import PiDispatch.PollerEvents

/-! The events feed moves forward: its cursor never goes back, what is new is handled oldest first, and none of it is left
behind that a handler was called for and threw, whatever fails and however the feed grows while it is read. -/
namespace PiDispatch.PollerEvents
open Kernel

/-- The server counts its ids up. -/
def Serves (act : Act) (state : State) : Prop :=
  match act with
  | .occurs entry => ∀ id ∈ entry.id, state.newest < id ∧ id < MAX_SAFE_INTEGER
  | _ => True

/-- No entry leaves the feed while its pages are read, or once a cycle left some out. -/
def Steady (act : Act) (state : State) : Prop :=
  match act with
  | .removes _ => state.gapped = false ∧ ∀ events page, state.phase ≠ .paging events page
  | _ => True

/-- The entries that a handler is for. -/
def Wanted (setting : Setting) (entry : Entry) : Prop :=
  entry.kind = .labeled ∨ entry.kind = .closed ∧ hasCloseTriggers setting = true

/-- The cursor goes forward, over no entry that is due and was neither handled nor given up, the entries are handled in
order, and closes enqueued for an answer. -/
structure InOrder (setting : Setting) (due : Entry → Prop) (state : State) : Prop where
  forward : ∀ act cursor, state.cursor = some cursor → ∃ later, (step setting act state).2.cursor = some later ∧ cursor ≤ later
  ordered : state.calls.Pairwise (· ≤ ·)
  passed : ∀ cursor ∈ state.cursor, ∀ entry ∈ state.feed, ∀ id ∈ entry.id, due entry → state.armedAt < id → id ≤ cursor →
    id ∈ state.handled ∨ id ∈ state.gaveUp ∧ CLOSE_GATE_MAX_ATTEMPTS ≤ state.lookups.count (id,none) ∨
      ∃ leap ∈ state.leaps, leap.1 < id ∧ id ≤ leap.2
  closes : ∀ id ∈ state.closes, ∃ answer, (id,some answer) ∈ state.lookups

section Gate

variable {setting : Setting} {state : State} {id : Nat} {luck : Luck}

/-- What the counters, the closes given up and the closes enqueued say of the lookups. -/
private structure Counted (state : State) : Prop where
  counters : ∀ id attempts, state.attempts.get? id = some attempts → attempts ≤ state.lookups.count (id,none)
  gaveUp : ∀ id ∈ state.gaveUp, CLOSE_GATE_MAX_ATTEMPTS ≤ state.lookups.count (id,none)
  closes : ∀ id ∈ state.closes, (id,some true) ∈ state.lookups

/-- What a call leaves. -/
private structure Left (state next : State) : Prop where
  feed : next.feed = state.feed
  newest : next.newest = state.newest
  cursor : next.cursor = state.cursor
  armedAt : next.armedAt = state.armedAt
  gapped : next.gapped = state.gapped
  leaps : next.leaps = state.leaps
  calls : next.calls = state.calls
  handled : next.handled = state.handled
  gaveUp : next.gaveUp = state.gaveUp

private theorem left_same : Left state state := ⟨rfl,rfl,rfl,rfl,rfl,rfl,rfl,rfl,rfl⟩

private theorem counted_asked (answer : Option Bool) (counted : Counted state) :
    Counted { state with lookups := state.lookups ++ [(id,answer)] } := by
  have more (other : Nat) : state.lookups.count (other,none) ≤ (state.lookups ++ [(id,answer)]).count (other,none) :=
    (List.sublist_append_left _ _).count_le _
  exact ⟨fun other attempts own => (counted.counters other attempts own).trans (more other),
    fun other own => (counted.gaveUp other own).trans (more other),
    fun other own => List.mem_append_left _ (counted.closes other own)⟩

private theorem filter_authorized {close : Close} {closerAuthorized : Option Bool} {rule : CloseRule}
    (passed : filter setting close closerAuthorized = .ok rule) : closerAuthorized = some true := by
  unfold filter at passed
  split at passed
  · cases passed
  split at passed
  · cases passed
  split at passed
  · cases passed
  unfold routeClose at passed
  split at passed
  · cases passed
  split at passed
  · cases passed
  next allowed => exact not_not.mp allowed

private theorem filtered_kept {close : Close} {closerAuthorized : Option Bool} (counted : Counted state)
    (asked : closerAuthorized = some true → (id,some true) ∈ state.lookups) :
    Counted (filtered setting id close closerAuthorized luck state).2 ∧
      Left state (filtered setting id close closerAuthorized luck state).2 ∧
      (filtered setting id close closerAuthorized luck state).1 ≠ .gaveUp := by
  unfold filtered
  split
  · exact ⟨counted,left_same,fun same => (nomatch same)⟩
  next passed =>
    refine ⟨⟨counted.counters,counted.gaveUp,fun other own => ?_⟩,⟨rfl,rfl,rfl,rfl,rfl,rfl,rfl,rfl,rfl⟩,?_⟩
    · rcases List.mem_append.mp own with before | now
      · exact counted.closes other before
      · rw [List.mem_singleton.mp now]
        exact asked (filter_authorized passed)
    · unfold Luck.rest
      split <;> exact fun same => (nomatch same)

/-- The gate gives up only after the attempts were made. -/
private theorem gate_kept {close : Close} (counted : Counted state) :
    Counted (gate setting id close luck state).2 ∧ Left state (gate setting id close luck state).2 ∧
      ((gate setting id close luck state).1 = .gaveUp →
        CLOSE_GATE_MAX_ATTEMPTS ≤ (gate setting id close luck state).2.lookups.count (id,none)) := by
  unfold gate
  split
  · split
    · exact ⟨counted,left_same,fun same => by cases same⟩
    · have asked := @counted_asked state id none counted
      have more : (state.attempts.get? id).getD 0 + 1 ≤ (state.lookups ++ [(id,none)]).count (id,none) := by
        rw [List.count_append,List.count_singleton_self]
        refine Nat.add_le_add_right ?_ 1
        cases own : state.attempts.get? id with
        | none => exact Nat.zero_le _
        | some attempts => exact counted.counters id attempts own
      have set : Counted { state with
          lookups := state.lookups ++ [(id,none)]
          attempts := state.attempts.set id ((state.attempts.get? id).getD 0 + 1) } := by
        refine ⟨fun other attempts own => ?_,asked.gaveUp,asked.closes⟩
        dsimp only at own
        rw [Dict.get?_set] at own
        split at own
        next same =>
          rw [← same,← Option.some.inj own]
          exact more
        · exact asked.counters other attempts own
      dsimp only
      split
      · exact ⟨asked,⟨rfl,rfl,rfl,rfl,rfl,rfl,rfl,rfl,rfl⟩,fun same => by cases same⟩
      · exact ⟨set,⟨rfl,rfl,rfl,rfl,rfl,rfl,rfl,rfl,rfl⟩,fun same => by cases same⟩
      · refine ⟨set,⟨rfl,rfl,rfl,rfl,rfl,rfl,rfl,rfl,rfl⟩,?_⟩
        split
        · exact fun same => by cases same
        next enough => exact fun _ => (Nat.le_of_not_lt enough).trans more
    next authorized _ =>
      have heard : some authorized = some true → (id,some true) ∈ state.lookups ++ [(id,some authorized)] := by
        intro same
        rw [same]
        exact List.mem_append_right _ (List.mem_singleton_self _)
      obtain ⟨kept,left,apart⟩ := @filtered_kept setting _ id luck close (some authorized)
        (@counted_asked state id (some authorized) counted) heard
      exact ⟨kept,⟨left.feed,left.newest,left.cursor,left.armedAt,left.gapped,left.leaps,left.calls,left.handled,left.gaveUp⟩,
        fun same => absurd same apart⟩
  · obtain ⟨kept,left,apart⟩ := @filtered_kept setting state id luck close none counted fun same => by cases same
    exact ⟨kept,left,fun same => absurd same apart⟩

private theorem handler_kept {entry : Entry} {handler : State → Verdict × State}
    (own : handlerOf setting id entry luck = some handler) (counted : Counted state) :
    Counted (handler state).2 ∧ Left state (handler state).2 ∧
      ((handler state).1 = .gaveUp → CLOSE_GATE_MAX_ATTEMPTS ≤ (handler state).2.lookups.count (id,none)) := by
  unfold handlerOf at own
  split at own
  next issue _ _ =>
    cases own
    unfold handleLabeledEvent
    split
    · exact ⟨counted,left_same,fun same => (nomatch same)⟩
    · refine ⟨counted,left_same,?_⟩
      unfold Luck.rest
      split <;> exact fun same => (nomatch same)
  next issue _ _ =>
    split at own
    · cases own
      unfold handleClosedEvent
      split
      · split
        · exact ⟨counted,left_same,fun same => (nomatch same)⟩
        · exact gate_kept counted
      · exact gate_kept counted
    · cases own
  · cases own

private theorem handlerOf_wanted {entry : Entry} (wanted : Wanted setting entry) (whole : entry.issue.isSome = true) :
    handlerOf setting id entry luck ≠ none := by
  obtain ⟨issue,own⟩ := Option.isSome_iff_exists.mp whole
  unfold handlerOf
  rw [own]
  rcases wanted with labeled | ⟨closed,armed⟩
  · rw [labeled]
    exact fun same => (nomatch same)
  · rw [closed]
    dsimp only
    rw [if_pos armed]
    exact fun same => (nomatch same)

/-- What a call leaves, and what it notes. -/
private structure Called (setting : Setting) (id : Nat) (entry : Entry) (verdict : Verdict) (state next : State) : Prop where
  feed : next.feed = state.feed
  newest : next.newest = state.newest
  cursor : next.cursor = state.cursor
  armedAt : next.armedAt = state.armedAt
  gapped : next.gapped = state.gapped
  leaps : next.leaps = state.leaps
  calls : ∀ call, call ∈ next.calls → call ∈ state.calls ∨ call = id
  ordered : state.calls.Pairwise (· ≤ ·) → (∀ call ∈ state.calls, call ≤ id) → next.calls.Pairwise (· ≤ ·)
  handled : ∀ other ∈ state.handled, other ∈ next.handled
  gaveUp : ∀ other ∈ state.gaveUp, other ∈ next.gaveUp
  served : verdict ≠ .threw → Wanted setting entry → entry.issue.isSome = true → id ∈ next.handled ∨ id ∈ next.gaveUp

private theorem called_kept (entry : Entry) (counted : Counted state) :
    Counted (called setting id entry luck state).2 ∧
      Called setting id entry (called setting id entry luck state).1 state (called setting id entry luck state).2 := by
  unfold called
  split
  next none' =>
    refine ⟨counted,rfl,rfl,rfl,rfl,rfl,rfl,fun _ own => .inl own,fun ordered _ => ordered,fun _ own => own,fun _ own => own,?_⟩
    exact fun _ wanted whole => absurd none' (handlerOf_wanted wanted whole)
  next handler own =>
    have begun : Counted { state with calls := state.calls ++ [id] } := ⟨counted.counters,counted.gaveUp,counted.closes⟩
    obtain ⟨kept,left,bound⟩ := handler_kept own begun
    have calls : ∀ call, call ∈ (handler { state with calls := state.calls ++ [id] }).2.calls → call ∈ state.calls ∨ call = id := by
      rw [left.calls]
      intro call inside
      simpa using inside
    have ordered : state.calls.Pairwise (· ≤ ·) → (∀ call ∈ state.calls, call ≤ id) →
        (handler { state with calls := state.calls ++ [id] }).2.calls.Pairwise (· ≤ ·) := by
      intro before last
      rw [left.calls]
      refine List.pairwise_append.mpr ⟨before,List.pairwise_singleton _ _,fun call inside other same => ?_⟩
      rw [List.mem_singleton.mp same]
      exact last call inside
    have handled : ∀ other ∈ state.handled, other ∈ (handler { state with calls := state.calls ++ [id] }).2.handled := by
      rw [left.handled]
      exact fun _ inside => inside
    have gaveUp : ∀ other ∈ state.gaveUp, other ∈ (handler { state with calls := state.calls ++ [id] }).2.gaveUp := by
      rw [left.gaveUp]
      exact fun _ inside => inside
    dsimp only
    generalize handler { state with calls := state.calls ++ [id] } = outcome at *
    obtain ⟨verdict,next⟩ := outcome
    cases verdict with
    | returned =>
      exact ⟨⟨kept.counters,kept.gaveUp,kept.closes⟩,left.feed,left.newest,left.cursor,left.armedAt,left.gapped,left.leaps,calls,
        ordered,fun other inside => List.mem_append_left _ (handled other inside),gaveUp,
        fun _ _ _ => .inl (List.mem_append_right _ (List.mem_singleton_self _))⟩
    | gaveUp =>
      refine ⟨⟨kept.counters,fun other inside => ?_,kept.closes⟩,left.feed,left.newest,left.cursor,left.armedAt,left.gapped,
        left.leaps,calls,ordered,handled,fun other inside => List.mem_append_left _ (gaveUp other inside),
        fun _ _ _ => .inr (List.mem_append_right _ (List.mem_singleton_self _))⟩
      rcases List.mem_append.mp inside with before | now
      · exact kept.gaveUp other before
      · rw [List.mem_singleton.mp now]
        exact bound rfl
    | threw =>
      exact ⟨kept,left.feed,left.newest,left.cursor,left.armedAt,left.gapped,left.leaps,calls,ordered,handled,gaveUp,
        fun threw => absurd rfl threw⟩

end Gate

section Invariant

variable {setting : Setting} {state next : State} {cursor : Nat}

/-- What holds wherever a cycle stands. -/
private structure Kept (setting : Setting) (state : State) : Prop where
  counted : Counted state
  sorted : state.feed.Pairwise fun newer older => ∀ id ∈ newer.id, ∀ other ∈ older.id, other < id
  known : ∀ entry ∈ state.feed, ∀ id ∈ entry.id, id ≤ state.newest
  safe : state.newest < MAX_SAFE_INTEGER
  reached : ∀ cursor ∈ state.cursor, cursor ≤ state.newest
  unarmed : state.cursor = none → state.calls = []
  ordered : state.calls.Pairwise (· ≤ ·)
  callsKnown : ∀ call ∈ state.calls, call ≤ state.newest
  above : ∀ cursor ∈ state.cursor, ∀ entry ∈ state.feed, ∀ id ∈ entry.id, cursor < id → (∀ call ∈ state.calls, call ≤ id) ∨
    state.gapped = true ∧ entry ∈ state.feed.drop (PER_PAGE * MAX_EVENT_PAGES)
  passed : ∀ cursor ∈ state.cursor, ∀ entry ∈ state.feed, ∀ id ∈ entry.id, Wanted setting entry → entry.issue.isSome = true →
    state.armedAt < id → id ≤ cursor → id ∈ state.handled ∨ id ∈ state.gaveUp ∨ ∃ leap ∈ state.leaps, leap.1 < id ∧ id ≤ leap.2

/-- What was read of the pages before this one: what is not among it is above all of it, or deeper in the feed. -/
private structure Read (state : State) (events : List Entry) (page cursor : Nat) : Prop where
  known : ∀ entry ∈ events, ∀ id ∈ entry.id, id ≤ state.newest
  alike : ∀ entry ∈ events, ∀ other ∈ state.feed, ∀ id ∈ entry.id, id ∈ other.id → other = entry
  whole : ∀ entry ∈ state.feed, ∀ id ∈ entry.id, cursor < id → entry ∈ events ∨
    (∀ other ∈ events, ∀ own ∈ other.id, own < id) ∨ entry ∈ state.feed.drop (PER_PAGE * (page - 1))
  above : ∀ entry ∈ events, ∀ id ∈ entry.id, cursor < id → ∀ call ∈ state.calls, call ≤ id

/-- What is left to handle: what of the feed is not among it is above all of it, or was left out behind a gap. -/
private structure Fresh (state : State) (fresh : List (Nat × Entry)) (gap : Bool) (cursor : Nat) : Prop where
  sorted : fresh.Pairwise fun first second => first.1 ≤ second.1
  known : ∀ item ∈ fresh, item.1 ≤ state.newest
  late : ∀ item ∈ fresh, cursor ≤ item.1
  alike : ∀ item ∈ fresh, ∀ other ∈ state.feed, item.1 ∈ other.id → other = item.2
  whole : ∀ entry ∈ state.feed, ∀ id ∈ entry.id, cursor < id → (id,entry) ∈ fresh ∨ (∀ item ∈ fresh, item.1 < id) ∨
    gap = true ∧ entry ∈ state.feed.drop (PER_PAGE * MAX_EVENT_PAGES)
  above : ∀ item ∈ fresh, ∀ call ∈ state.calls, call ≤ item.1
  noted : gap = true → state.gapped = true

/-- Where a cycle stands. -/
private structure Stands (setting : Setting) (state : State) : Prop where
  kept : Kept setting state
  paging : ∀ events page, state.phase = .paging events page → page ≤ MAX_EVENT_PAGES ∧ 1 ≤ page ∧
    ∃ cursor, state.cursor = some cursor ∧ Read state events page cursor
  handling : ∀ fresh gap, state.phase = .handling fresh gap → ∃ cursor, state.cursor = some cursor ∧ Fresh state fresh gap cursor

private theorem start_stands : Stands setting .start := by
  refine ⟨⟨⟨?_,?_,?_⟩,?_,?_,?_,?_,?_,?_,?_,?_,?_⟩,?_,?_⟩ <;> simp [State.start,MAX_SAFE_INTEGER]

private theorem feed_apart (kept : Kept setting state) {depth : Nat} {newer older : Entry} (front : newer ∈ state.feed.take depth)
    (back : older ∈ state.feed.drop depth) {id other : Nat} (own : id ∈ newer.id) (its : other ∈ older.id) : other < id :=
  kept.sorted.rel_of_mem_take_of_mem_drop front back id own other its

private theorem feed_alike (kept : Kept setting state) {entry other : Entry} (inside : entry ∈ state.feed) (there : other ∈ state.feed)
    {id : Nat} (own : id ∈ entry.id) (same : id ∈ other.id) : other = entry := by
  by_contra apart
  have disjoint : state.feed.Pairwise fun one two : Entry => ∀ id ∈ one.id, id ∉ two.id :=
    kept.sorted.imp fun less id own its => absurd (less id own id its) (Nat.lt_irrefl _)
  have symm : Std.Symm fun one two : Entry => ∀ id ∈ one.id, id ∉ two.id := ⟨fun _ _ none' id own its => none' id its own⟩
  exact disjoint.forall there inside apart id same own

private theorem deeper (page : Nat) (least : 1 ≤ page) :
    state.feed.drop (PER_PAGE * (page - 1)) = state.pageOf page ++ state.feed.drop (PER_PAGE * page) := by
  unfold State.pageOf
  have size : PER_PAGE * page = PER_PAGE * (page - 1) + PER_PAGE := by
    obtain ⟨before,rfl⟩ : ∃ before, page = before + 1 := ⟨page - 1,by omega⟩
    rw [Nat.add_sub_cancel,Nat.mul_succ]
  rw [size,← List.drop_drop,List.take_append_drop]

private theorem page_front {page : Nat} (least : 1 ≤ page) {entry : Entry} (inside : entry ∈ state.pageOf page) :
    entry ∈ state.feed.take (PER_PAGE * page) := by
  have size : PER_PAGE * page = PER_PAGE * (page - 1) + PER_PAGE := by
    obtain ⟨before,rfl⟩ : ∃ before, page = before + 1 := ⟨page - 1,by omega⟩
    rw [Nat.add_sub_cancel,Nat.mul_succ]
  rw [size,List.take_add]
  exact List.mem_append_right _ inside

private theorem page_read {events : List Entry} {page : Nat} (kept : Kept setting state) (least : 1 ≤ page)
    (most : page ≤ MAX_EVENT_PAGES) (armed : state.cursor = some cursor) (read : Read state events page cursor) :
    Read state (events ++ state.pageOf page) (page + 1) cursor := by
  have inside {entry : Entry} (own : entry ∈ state.pageOf page) : entry ∈ state.feed :=
    List.mem_of_mem_take (page_front least own)
  refine ⟨?_,?_,?_,?_⟩
  · intro entry own
    rcases List.mem_append.mp own with before | now
    · exact read.known entry before
    · exact kept.known entry (inside now)
  · intro entry own other there id its same
    rcases List.mem_append.mp own with before | now
    · exact read.alike entry before other there id its same
    · exact feed_alike kept (inside now) there its same
  · intro entry there id own late
    rw [Nat.add_sub_cancel]
    have split (deep : entry ∈ state.feed.drop (PER_PAGE * (page - 1))) : entry ∈ events ++ state.pageOf page ∨
        entry ∈ state.feed.drop (PER_PAGE * page) := by
      rw [deeper page least] at deep
      rcases List.mem_append.mp deep with now | later
      · exact .inl (List.mem_append_right _ now)
      · exact .inr later
    rcases read.whole entry there id own late with before | newer | deep
    · exact .inl (List.mem_append_left _ before)
    · have there' := there
      rw [← List.take_append_drop (PER_PAGE * (page - 1)) state.feed] at there'
      rcases List.mem_append.mp there' with front | deep
      · refine .inr (.inl fun other among its found => ?_)
        rcases List.mem_append.mp among with before | now
        · exact newer other before its found
        · refine feed_apart kept front ?_ own found
          rw [deeper page least]
          exact List.mem_append_left _ now
      · rcases split deep with now | later
        · exact .inl now
        · exact .inr (.inr later)
    · rcases split deep with now | later
      · exact .inl now
      · exact .inr (.inr later)
  · intro entry own id its late
    rcases List.mem_append.mp own with before | now
    · exact read.above entry before id its late
    · rcases kept.above cursor armed entry (inside now) id its late with above | ⟨_,deep⟩
      · exact above
      · have front := List.take_subset_take_left state.feed (Nat.mul_le_mul_left PER_PAGE most) (page_front least now)
        exact absurd (feed_apart kept front deep its its) (Nat.lt_irrefl _)

private theorem mem_freshOf {events : List Entry} {item : Nat × Entry} :
    item ∈ freshOf events cursor ↔ item.2 ∈ events ∧ item.1 ∈ item.2.id ∧ cursor < item.1 := by
  unfold freshOf
  rw [List.mem_insertionSort,List.mem_filterMap]
  constructor
  · rintro ⟨entry,inside,found⟩
    split at found
    next id own =>
      split at found
      next late =>
        cases found
        exact ⟨inside,own,late⟩
      · cases found
    · cases found
  · rintro ⟨inside,own,late⟩
    refine ⟨item.2,inside,?_⟩
    have own : item.2.id = some item.1 := own
    rw [own]
    exact if_pos late

private theorem freshOf_sorted (events : List Entry) (cursor : Nat) :
    (freshOf events cursor).Pairwise fun first second => first.1 ≤ second.1 := by
  have total : Std.Total fun first second : Nat × Entry => first.1 ≤ second.1 := ⟨fun first second => Nat.le_total _ _⟩
  have trans : IsTrans (Nat × Entry) fun first second => first.1 ≤ second.1 := ⟨fun _ _ _ => Nat.le_trans⟩
  exact List.pairwise_insertionSort _ _

/-- The pages are read down to the cursor, to the feed's end, or to a gap. -/
private theorem eventsRead_stands {events : List Entry} {page : Nat} {gap : Bool} (kept : Kept setting state)
    (armed : state.cursor = some cursor) (read : Read state events page cursor)
    (rest : ∀ entry ∈ state.feed.drop (PER_PAGE * (page - 1)), ∀ id ∈ entry.id, cursor < id →
      gap = true ∧ entry ∈ state.feed.drop (PER_PAGE * MAX_EVENT_PAGES)) :
    Stands setting (eventsRead events gap cursor state) := by
  refine ⟨⟨⟨kept.counted.counters,kept.counted.gaveUp,kept.counted.closes⟩,kept.sorted,kept.known,kept.safe,kept.reached,
    kept.unarmed,kept.ordered,kept.callsKnown,?_,kept.passed⟩,?_,?_⟩
  · intro cursor armed entry inside id own late
    rcases kept.above cursor armed entry inside id own late with above | ⟨gapped,deep⟩
    · exact .inl above
    · exact .inr ⟨(by rw [eventsRead]; dsimp only; rw [gapped]; rfl),deep⟩
  · intro other page own
    have own : handlingOf (freshOf events cursor) gap = .paging other page := own
    unfold handlingOf at own
    split at own <;> cases own
  · intro fresh gap' own
    have own : handlingOf (freshOf events cursor) gap = .handling fresh gap' := own
    unfold handlingOf at own
    split at own
    · cases own
    cases own
    refine ⟨cursor,armed,freshOf_sorted events cursor,?_,?_,?_,?_,?_,?_⟩
    · intro item inside
      obtain ⟨there,own,_⟩ := mem_freshOf.mp inside
      exact read.known item.2 there item.1 own
    · exact fun item inside => Nat.le_of_lt (mem_freshOf.mp inside).2.2
    · intro item inside other there same
      obtain ⟨among,own,_⟩ := mem_freshOf.mp inside
      exact read.alike item.2 among other there item.1 own same
    · intro entry inside id own late
      rcases read.whole entry inside id own late with among | newer | deep
      · exact .inl (mem_freshOf.mpr ⟨among,own,late⟩)
      · refine .inr (.inl fun item there => ?_)
        obtain ⟨among,its,_⟩ := mem_freshOf.mp there
        exact newer item.2 among item.1 its
      · exact .inr (.inr (rest entry deep id own late))
    · intro item inside
      obtain ⟨among,own,late⟩ := mem_freshOf.mp inside
      exact read.above item.2 among item.1 own late
    · intro same
      rw [eventsRead]
      dsimp only
      rw [same,Bool.or_true]

private theorem page_empty {page : Nat} (empty : state.pageOf page = []) : state.feed.drop (PER_PAGE * (page - 1)) = [] := by
  unfold State.pageOf at empty
  have size := congrArg List.length empty
  rw [List.length_take,List.length_nil] at size
  refine List.eq_nil_of_length_eq_zero ?_
  unfold PER_PAGE at size ⊢
  omega

/-- A page that is not empty: on to the next one, or no further. -/
private theorem pageRead_stands {events : List Entry} {page : Nat} (kept : Kept setting state) (armed : state.cursor = some cursor)
    (least : 1 ≤ page) (most : page ≤ MAX_EVENT_PAGES) (read : Read state events page cursor)
    (ends : events ++ state.pageOf page = [] ∨ state.pageOf page ≠ []) :
    Stands setting (pageRead (events ++ state.pageOf page) (page + 1) cursor state) := by
  have now := page_read kept least most armed read
  unfold pageRead
  split
  next more =>
    split
    next further =>
      refine ⟨⟨⟨kept.counted.counters,kept.counted.gaveUp,kept.counted.closes⟩,kept.sorted,kept.known,kept.safe,kept.reached,
        kept.unarmed,kept.ordered,kept.callsKnown,kept.above,kept.passed⟩,?_,fun _ _ own => (nomatch own)⟩
      intro other next own
      cases own
      exact ⟨further,by omega,cursor,armed,now.known,now.alike,now.whole,now.above⟩
    next last =>
      have same : page = MAX_EVENT_PAGES := by omega
      refine eventsRead_stands kept armed now fun entry deep _ _ _ => ⟨rfl,?_⟩
      rw [Nat.add_sub_cancel,same] at deep
      exact deep
  next stop =>
    refine eventsRead_stands kept armed now fun entry deep id own late => ?_
    rw [Nat.add_sub_cancel] at deep
    exfalso
    rcases ends with none' | some'
    · have empty := (List.append_eq_nil_iff.mp none').2
      have whole := @deeper state page least
      rw [page_empty empty,empty,List.nil_append] at whole
      rw [← whole] at deep
      cases deep
    · have found : (events ++ state.pageOf page).getLast? = some ((state.pageOf page).getLast some') := by
        rw [List.getLast?_append_of_ne_nil _ some',List.getLast?_eq_some_getLast some']
      have below : lastId (events ++ state.pageOf page) ≤ cursor := by
        by_contra more
        exact stop ⟨fun none' => some' (List.append_eq_nil_iff.mp none').2,Nat.lt_of_not_le more⟩
      unfold lastId at below
      rw [found,Option.bind_some] at below
      cases its : ((state.pageOf page).getLast some').id with
      | none =>
        rw [its] at below
        have reached := kept.reached cursor armed
        have safe := kept.safe
        have below : MAX_SAFE_INTEGER ≤ cursor := below
        omega
      | some last =>
        rw [its] at below
        have below : last ≤ cursor := below
        have older := feed_apart kept (page_front least (List.getLast_mem some')) deep its own
        omega

private theorem Kept.revalidated (kept : Kept setting state) (etag : Option (List Entry)) :
    Kept setting { state with etagEvents := etag } :=
  ⟨⟨kept.counted.counters,kept.counted.gaveUp,kept.counted.closes⟩,kept.sorted,kept.known,kept.safe,kept.reached,kept.unarmed,
    kept.ordered,kept.callsKnown,kept.above,kept.passed⟩

private theorem Kept.rested (kept : Kept setting state) : Stands setting { state with phase := .idle } :=
  ⟨⟨⟨kept.counted.counters,kept.counted.gaveUp,kept.counted.closes⟩,kept.sorted,kept.known,kept.safe,kept.reached,kept.unarmed,
    kept.ordered,kept.callsKnown,kept.above,kept.passed⟩,fun _ _ own => (nomatch own),fun _ _ own => (nomatch own)⟩

private theorem idle_stands (kept : Kept setting state) (idle : state.phase = .idle) : Stands setting state := by
  refine ⟨kept,fun _ _ own => ?_,fun _ _ own => ?_⟩ <;>
  · rw [idle] at own
    cases own

private theorem maxIdOf_le {events : List Entry} {bound : Nat} (known : ∀ entry ∈ events, ∀ id ∈ entry.id, id ≤ bound) :
    maxIdOf events ≤ bound := by
  have fold (events : List Entry) (most : Nat) (first : most ≤ bound) (known : ∀ entry ∈ events, ∀ id ∈ entry.id, id ≤ bound) :
      events.foldl (fun most entry => max most (entry.id.getD 0)) most ≤ bound := by
    induction events generalizing most with
    | nil => exact first
    | cons entry events ih =>
      refine ih _ (Nat.max_le.mpr ⟨first,?_⟩) fun other inside => known other (List.mem_cons_of_mem _ inside)
      cases own : entry.id with
      | none => exact Nat.zero_le _
      | some id => exact known entry List.mem_cons_self id own
  exact fold events 0 (Nat.zero_le _) known

/-- Arming takes the cursor to what the first page has, and hands nothing on. -/
private theorem armed_stands (kept : Kept setting state) (unarmed : state.cursor = none) (idle : state.phase = .idle) :
    Stands setting { state with
      etagEvents := some (state.pageOf 1)
      cursor := some (maxIdOf (state.pageOf 1))
      armedAt := maxIdOf (state.pageOf 1) } := by
  refine idle_stands ⟨⟨kept.counted.counters,kept.counted.gaveUp,kept.counted.closes⟩,kept.sorted,kept.known,kept.safe,?_,
    fun none' => (nomatch none'),kept.ordered,kept.callsKnown,?_,?_⟩ idle
  · intro cursor own
    cases own
    exact maxIdOf_le fun entry inside => kept.known entry (List.mem_of_mem_take (page_front (Nat.le_refl 1) inside))
  · intro cursor _ entry _ id _ _
    refine .inl ?_
    dsimp only
    rw [kept.unarmed unarmed]
    exact fun _ none' => (nomatch none')
  · intro cursor own entry _ id _ _ _ after' before
    cases own
    exact absurd after' (Nat.not_lt_of_le before)

private theorem fetch_stands (got : Got) (arming : Sent) (stands : Stands setting state) :
    Stands setting (fetch got arming state) := by
  unfold fetch
  split
  next idle unarmed =>
    dsimp only
    split
    · exact stands
    · exact idle_stands (stands.kept.revalidated _) idle
    · exact idle_stands (stands.kept.revalidated _) idle
    · exact armed_stands stands.kept unarmed idle
  next cursor idle armed =>
    dsimp only
    split
    · exact stands
    · split
      · exact stands
      · exact idle_stands (stands.kept.revalidated _) idle
    · split
      · exact stands
      · have first : Read { state with etagEvents := some (state.pageOf 1) } [] 1 cursor := by
          refine ⟨fun _ none' => (nomatch none'),fun _ none' => (nomatch none'),fun entry inside _ _ _ => .inr (.inr ?_),
            fun _ none' => (nomatch none')⟩
          exact inside
        refine pageRead_stands (stands.kept.revalidated (some (state.pageOf 1))) armed (Nat.le_refl 1) (by decide) first ?_
        exact (Classical.em _).imp_right id
  next events page cursor own armed =>
    obtain ⟨most,least,other,same,read⟩ := stands.paging events page own
    cases armed.symm.trans same
    dsimp only
    split
    · exact stands.kept.rested
    · exact stands.kept.rested
    · split
      next ends =>
        refine eventsRead_stands stands.kept armed read fun entry deep => ?_
        rw [page_empty (by simpa using ends)] at deep
        cases deep
      next more => exact pageRead_stands stands.kept armed least most read (.inr (by simpa using more))
  · exact stands

variable {id : Nat} {entry : Entry} {rest : List (Nat × Entry)} {gap : Bool} {verdict : Verdict}

/-- Behind a call the cursor stands where it stood. -/
private theorem called_stays (kept : Kept setting state) (counted : Counted next) (armed : state.cursor = some cursor)
    (fresh : Fresh state ((id,entry) :: rest) gap cursor) (left : Called setting id entry verdict state next) :
    Kept setting next := by
  have here : id ≤ state.newest := fresh.known (id,entry) List.mem_cons_self
  refine ⟨counted,?_,?_,?_,?_,?_,?_,?_,?_,?_⟩
  · rw [left.feed]
    exact kept.sorted
  · rw [left.feed,left.newest]
    exact kept.known
  · rw [left.newest]
    exact kept.safe
  · rw [left.cursor,left.newest]
    exact kept.reached
  · rw [left.cursor,armed]
    exact fun none' => (nomatch none')
  · exact left.ordered kept.ordered (fresh.above (id,entry) List.mem_cons_self)
  · rw [left.newest]
    intro call inside
    rcases left.calls call inside with before | same
    · exact kept.callsKnown call before
    · rw [same]
      exact here
  · rw [left.cursor,left.feed,left.gapped,armed]
    intro cursor' same other there other' own late
    cases same
    rcases kept.above cursor armed other there other' own late with above | behind
    · have least : id ≤ other' ∨ state.gapped = true ∧ other ∈ state.feed.drop (PER_PAGE * MAX_EVENT_PAGES) := by
        rcases fresh.whole other there other' own late with among | newer | ⟨gap,deep⟩
        · rcases List.mem_cons.mp among with same | later
          · cases same
            exact .inl (Nat.le_refl _)
          · exact .inl ((List.pairwise_cons.mp fresh.sorted).1 _ later)
        · exact .inl (Nat.le_of_lt (newer (id,entry) List.mem_cons_self))
        · exact .inr ⟨fresh.noted gap,deep⟩
      refine least.imp_left fun least call inside => ?_
      rcases left.calls call inside with before | same
      · exact above call before
      · rw [same]
        exact least
    · exact .inr behind
  · rw [left.cursor,left.feed,left.armedAt,left.leaps]
    intro cursor armed other there other' own wanted whole since until'
    rcases kept.passed cursor armed other there other' own wanted whole since until' with handled | gaveUp | leap
    · exact .inl (left.handled other' handled)
    · exact .inr (.inl (left.gaveUp other' gaveUp))
    · exact .inr (.inr leap)

/-- The cursor goes on over what was called for. -/
private theorem moved_kept (kept : Kept setting state) (counted : Counted next) (armed : state.cursor = some cursor)
    (fresh : Fresh state ((id,entry) :: rest) gap cursor) (left : Called setting id entry verdict state next)
    (returned : verdict ≠ .threw) : Kept setting (next.moveTo id gap) := by
  have stays := called_stays kept counted armed fresh left
  have late : cursor ≤ id := fresh.late (id,entry) List.mem_cons_self
  refine ⟨⟨counted.counters,counted.gaveUp,counted.closes⟩,stays.sorted,stays.known,stays.safe,?_,fun none' => (nomatch none'),
    stays.ordered,stays.callsKnown,?_,?_⟩
  · intro cursor own
    cases own
    change id ≤ next.newest
    rw [left.newest]
    exact fresh.known (id,entry) List.mem_cons_self
  · intro cursor' own other there other' its later
    cases own
    exact stays.above cursor (left.cursor.trans armed) other there other' its (late.trans_lt later)
  · intro cursor' own other there other' its wanted whole since until'
    cases own
    have leaps : ∀ leap ∈ next.leaps, leap ∈ (next.moveTo id gap).leaps := by
      intro leap inside
      unfold State.moveTo
      dsimp only
      split
      · exact List.mem_append_left _ inside
      · exact inside
    by_cases before : other' ≤ cursor
    · rcases stays.passed cursor (left.cursor.trans armed) other there other' its wanted whole since before with
        handled | gaveUp | ⟨leap,inside,own⟩
      · exact .inl handled
      · exact .inr (.inl gaveUp)
      · exact .inr (.inr ⟨leap,leaps leap inside,own⟩)
    · have there' : other ∈ state.feed := left.feed ▸ there
      rcases fresh.whole other there' other' its (Nat.lt_of_not_le before) with among | newer | ⟨rfl,_⟩
      · have least : id ≤ other' := by
          rcases List.mem_cons.mp among with same | later
          · cases same
            exact Nat.le_refl _
          · exact (List.pairwise_cons.mp fresh.sorted).1 _ later
        have same : other' = id := Nat.le_antisymm until' least
        subst same
        have alike : other = entry := fresh.alike (other',entry) List.mem_cons_self other there' its
        subst alike
        rcases left.served returned wanted whole with handled | gaveUp
        · exact .inl handled
        · exact .inr (.inl gaveUp)
      · exact absurd until' (Nat.not_le_of_lt (newer (id,entry) List.mem_cons_self))
      · refine .inr (.inr ⟨(cursor,id),?_,Nat.lt_of_not_le before,until'⟩)
        unfold State.moveTo
        dsimp only
        rw [if_pos rfl,left.cursor,armed]
        exact List.mem_append_right _ (List.mem_singleton_self _)

private theorem moved_fresh (fresh : Fresh state ((id,entry) :: rest) gap cursor)
    (left : Called setting id entry verdict state next) : Fresh (next.moveTo id gap) rest gap id := by
  obtain ⟨least,sorted⟩ := List.pairwise_cons.mp fresh.sorted
  have late : cursor ≤ id := fresh.late (id,entry) List.mem_cons_self
  refine ⟨sorted,?_,least,?_,?_,?_,?_⟩
  · intro item inside
    change item.1 ≤ next.newest
    rw [left.newest]
    exact fresh.known item (List.mem_cons_of_mem _ inside)
  · intro item inside other there
    exact fresh.alike item (List.mem_cons_of_mem _ inside) other (left.feed ▸ there)
  · change ∀ other ∈ next.feed, _
    intro other there other' own later
    rcases fresh.whole other (left.feed ▸ there) other' own (late.trans_lt later) with among | newer | ⟨gap,deep⟩
    · rcases List.mem_cons.mp among with same | among
      · cases same
        exact absurd later (Nat.lt_irrefl _)
      · exact .inl among
    · exact .inr (.inl fun item inside => newer item (List.mem_cons_of_mem _ inside))
    · refine .inr (.inr ⟨gap,?_⟩)
      change other ∈ next.feed.drop _
      rw [left.feed]
      exact deep
  · intro item inside call called
    rcases left.calls call called with before | same
    · exact fresh.above item (List.mem_cons_of_mem _ inside) call before
    · rw [same]
      exact least item inside
  · intro own
    change next.gapped = true
    rw [left.gapped]
    exact fresh.noted own

private theorem handling_stands (kept : Kept setting state) (armed : state.cursor = some cursor)
    (fresh : Fresh state rest gap cursor) : Stands setting { state with phase := handlingOf rest gap } := by
  refine ⟨⟨⟨kept.counted.counters,kept.counted.gaveUp,kept.counted.closes⟩,kept.sorted,kept.known,kept.safe,kept.reached,
    kept.unarmed,kept.ordered,kept.callsKnown,kept.above,kept.passed⟩,?_,?_⟩
  · intro events page own
    have own : handlingOf rest gap = .paging events page := own
    unfold handlingOf at own
    split at own <;> cases own
  · intro rest' gap' own
    have own : handlingOf rest gap = .handling rest' gap' := own
    unfold handlingOf at own
    split at own
    · cases own
    cases own
    exact ⟨cursor,armed,fresh.sorted,fresh.known,fresh.late,fresh.alike,fresh.whole,fresh.above,fresh.noted⟩

private theorem handle_stands (luck : Luck) (stands : Stands setting state) : Stands setting (handle setting luck state) := by
  unfold handle
  split
  next id entry rest gap own =>
    obtain ⟨cursor,armed,fresh⟩ := stands.handling _ _ own
    obtain ⟨counted,left⟩ := @called_kept setting state id luck entry stands.kept.counted
    have stays := called_stays stands.kept counted armed fresh left
    dsimp only
    generalize called setting id entry luck state = outcome at *
    obtain ⟨verdict,next⟩ := outcome
    dsimp only at *
    split
    · exact stays.rested
    · exact stays.rested
    next returned _ => exact (moved_kept stands.kept counted armed fresh left returned).rested
    next returned _ =>
      exact handling_stands (moved_kept stands.kept counted armed fresh left returned) rfl (moved_fresh fresh left)
  · exact stands

private theorem mem_drop_cons {entry first : Entry} {feed : List Entry} {depth : Nat} (deep : entry ∈ feed.drop depth) :
    entry ∈ (first :: feed).drop depth := by
  cases depth with
  | zero => exact List.mem_cons_of_mem _ deep
  | succ depth =>
    rw [List.drop_succ_cons]
    exact List.drop_subset_drop_left feed (Nat.le_succ depth) deep

private theorem occurs_stands {entry : Entry} (stands : Stands setting state) (serves : Serves (.occurs entry) state) :
    Stands setting (step setting (.occurs entry) state).2 := by
  obtain ⟨kept,paging,handling⟩ := stands
  have newest : state.newest ≤ max state.newest (entry.id.getD 0) := Nat.le_max_left _ _
  refine ⟨⟨⟨kept.counted.counters,kept.counted.gaveUp,kept.counted.closes⟩,?_,?_,?_,?_,kept.unarmed,kept.ordered,?_,?_,?_⟩,?_,?_⟩
  · refine List.pairwise_cons.mpr ⟨fun older inside id own other its => ?_,kept.sorted⟩
    exact (kept.known older inside other its).trans_lt (serves id own).1
  · intro other inside id own
    rcases List.mem_cons.mp inside with rfl | before
    · refine le_trans ?_ (Nat.le_max_right _ _)
      have own : other.id = some id := own
      rw [own]
      exact Nat.le_refl _
    · exact (kept.known other before id own).trans newest
  · refine Nat.max_lt.mpr ⟨kept.safe,?_⟩
    cases own : entry.id with
    | none => exact Nat.zero_lt_of_lt kept.safe
    | some id => exact (serves id own).2
  · exact fun cursor armed => (kept.reached cursor armed).trans newest
  · exact fun call called => (kept.callsKnown call called).trans newest
  · intro cursor armed other inside id own late
    rcases List.mem_cons.mp inside with rfl | before
    · exact .inl fun call called => (kept.callsKnown call called).trans (Nat.le_of_lt (serves id own).1)
    · exact (kept.above cursor armed other before id own late).imp_right fun behind => ⟨behind.1,mem_drop_cons behind.2⟩
  · intro cursor armed other inside id own wanted whole since until'
    rcases List.mem_cons.mp inside with rfl | before
    · exact absurd ((kept.reached cursor armed).trans_lt (serves id own).1) (Nat.not_lt_of_le until')
    · exact kept.passed cursor armed other before id own wanted whole since until'
  · intro events page own
    obtain ⟨most,least,cursor,armed,read⟩ := paging events page own
    refine ⟨most,least,cursor,armed,fun other inside id its => (read.known other inside id its).trans newest,?_,?_,read.above⟩
    · intro other inside one there id its same
      rcases List.mem_cons.mp there with rfl | before
      · exact absurd (serves id same).1 (Nat.not_lt_of_le (read.known other inside id its))
      · exact read.alike other inside one before id its same
    · intro other inside id its late
      rcases List.mem_cons.mp inside with rfl | before
      · exact .inr (.inl fun one among found own => (read.known one among found own).trans_lt (serves id its).1)
      · exact (read.whole other before id its late).imp_right fun rest => rest.imp_right mem_drop_cons
  · intro fresh gap own
    obtain ⟨cursor,armed,left⟩ := handling fresh gap own
    refine ⟨cursor,armed,left.sorted,fun item inside => (left.known item inside).trans newest,left.late,?_,?_,left.above,left.noted⟩
    · intro item inside one there same
      rcases List.mem_cons.mp there with rfl | before
      · exact absurd (serves item.1 same).1 (Nat.not_lt_of_le (left.known item inside))
      · exact left.alike item inside one before same
    · intro other inside id its late
      rcases List.mem_cons.mp inside with rfl | before
      · exact .inr (.inl fun item among => (left.known item among).trans_lt (serves id its).1)
      · refine (left.whole other before id its late).imp_right fun rest => rest.imp_right fun behind => ?_
        exact ⟨behind.1,mem_drop_cons behind.2⟩

private theorem removes_stands {entry : Entry} (stands : Stands setting state) (steady : Steady (.removes entry) state) :
    Stands setting (step setting (.removes entry) state).2 := by
  obtain ⟨kept,paging,handling⟩ := stands
  have inside {other : Entry} (there : other ∈ (step setting (.removes entry) state).2.feed) : other ∈ state.feed :=
    (List.mem_filter.mp there).1
  have whole : state.gapped ≠ true := by simp [steady.1]
  refine ⟨⟨⟨kept.counted.counters,kept.counted.gaveUp,kept.counted.closes⟩,kept.sorted.sublist List.filter_sublist,
    fun other there => kept.known other (inside there),kept.safe,kept.reached,kept.unarmed,kept.ordered,kept.callsKnown,?_,?_⟩,?_,?_⟩
  · intro cursor armed other there id own late
    exact .inl ((kept.above cursor armed other (inside there) id own late).resolve_right fun behind => whole behind.1)
  · exact fun cursor armed other there => kept.passed cursor armed other (inside there)
  · exact fun events page own => absurd own (steady.2 events page)
  · intro fresh gap own
    obtain ⟨cursor,armed,left⟩ := handling fresh gap own
    refine ⟨cursor,armed,left.sorted,left.known,left.late,fun item among other there => left.alike item among other (inside there),
      ?_,left.above,left.noted⟩
    intro other there id its late
    rcases left.whole other (inside there) id its late with among | newer | ⟨gap,_⟩
    · exact .inl among
    · exact .inr (.inl newer)
    · exact absurd (left.noted gap) whole

private theorem forgets_stands (id : Nat) (stands : Stands setting state) : Stands setting (step setting (.forgets id) state).2 := by
  obtain ⟨kept,paging,handling⟩ := stands
  refine ⟨⟨⟨fun other attempts own => ?_,kept.counted.gaveUp,kept.counted.closes⟩,kept.sorted,kept.known,kept.safe,kept.reached,
    kept.unarmed,kept.ordered,kept.callsKnown,kept.above,kept.passed⟩,?_,?_⟩
  · have own : (state.attempts.erase id).get? other = some attempts := own
    rw [Dict.get?_erase] at own
    split at own
    · cases own
    · exact kept.counted.counters other attempts own
  · intro events page own
    obtain ⟨most,least,cursor,armed,read⟩ := paging events page own
    exact ⟨most,least,cursor,armed,read.known,read.alike,read.whole,read.above⟩
  · intro fresh gap own
    obtain ⟨cursor,armed,left⟩ := handling fresh gap own
    exact ⟨cursor,armed,left.sorted,left.known,left.late,left.alike,left.whole,left.above,left.noted⟩

private theorem step_stands (act : Act) (stands : Stands setting state) (serves : Serves act state) (steady : Steady act state) :
    Stands setting (step setting act state).2 := by
  cases act with
  | occurs entry => exact occurs_stands stands serves
  | removes entry => exact removes_stands stands steady
  | forgets id => exact forgets_stands id stands
  | fetch got arming => exact fetch_stands got arming stands
  | handle luck => exact handle_stands luck stands

/-- No step takes the cursor back. -/
private theorem step_forward (stands : Stands setting state) (act : Act) (armed : state.cursor = some cursor) :
    ∃ later, (step setting act state).2.cursor = some later ∧ cursor ≤ later := by
  have read (events : List Entry) (gap : Bool) (cursor : Nat) (state : State) :
      (eventsRead events gap cursor state).cursor = state.cursor := rfl
  have page (events : List Entry) (page cursor : Nat) (state : State) :
      (pageRead events page cursor state).cursor = state.cursor := by
    unfold pageRead
    split
    · split <;> rfl
    · rfl
  cases act with
  | occurs | removes | forgets => exact ⟨cursor,armed,Nat.le_refl _⟩
  | fetch got arming =>
    refine ⟨cursor,?_,Nat.le_refl _⟩
    change (fetch got arming state).cursor = _
    rw [← armed]
    unfold fetch
    split
    next unarmed => rw [armed] at unarmed; cases unarmed
    · dsimp only
      split
      · rfl
      · split <;> rfl
      · split
        · rfl
        · exact page ..
    · dsimp only
      split
      · rfl
      · rfl
      · split
        · rfl
        · exact page ..
    · rfl
  | handle luck =>
    change ∃ later, (handle setting luck state).cursor = some later ∧ cursor ≤ later
    unfold handle
    split
    next id entry rest gap own =>
      obtain ⟨cursor',same,fresh⟩ := stands.handling _ _ own
      cases armed.symm.trans same
      obtain ⟨_,left⟩ := @called_kept setting state id luck entry stands.kept.counted
      have late : cursor ≤ id := fresh.late (id,entry) List.mem_cons_self
      dsimp only
      split
      · exact ⟨cursor,left.cursor.trans armed,Nat.le_refl _⟩
      · exact ⟨cursor,left.cursor.trans armed,Nat.le_refl _⟩
      · exact ⟨id,rfl,late⟩
      · exact ⟨id,rfl,late⟩
    · exact ⟨cursor,armed,Nat.le_refl _⟩

end Invariant

theorem events_in_order {setting : Setting} {past : List (Act × Unit)} {state : State}
    (run : Runs (step setting) (fun act state => Serves act state ∧ Steady act state) .start past state) :
    InOrder setting (fun entry => Wanted setting entry ∧ entry.issue.isSome = true) state := by
  have stands : Stands setting state := by
    refine Runs.invariant (fun _ state => Stands setting state) start_stands ?_ run
    exact fun _ state act stands ok => step_stands act stands ok.1 ok.2
  have kept := stands.kept
  refine ⟨fun act cursor armed => step_forward stands act armed,kept.ordered,?_,fun id own => ⟨true,kept.counted.closes id own⟩⟩
  intro cursor armed entry inside id own due since until'
  rcases kept.passed cursor armed entry inside id own due.1 due.2 since until' with handled | gaveUp | leap
  · exact .inl handled
  · exact .inr (.inl ⟨gaveUp,kept.counted.gaveUp id gaveUp⟩)
  · exact .inr (.inr leap)

section Samples

private instance (act : Act) (state : State) : Decidable (Serves act state) :=
  match act with
  | .occurs entry => inferInstanceAs (Decidable (∀ id ∈ entry.id, state.newest < id ∧ id < MAX_SAFE_INTEGER))
  | .removes _ | .forgets _ | .fetch .. | .handle _ => isTrue trivial

private theorem idle_apart (events : List Entry) (page : Nat) : Phase.idle ≠ .paging events page := Phase.noConfusion

private theorem handling_apart (fresh : List (Nat × Entry)) (gap : Bool) (events : List Entry) (page : Nat) :
    Phase.handling fresh gap ≠ .paging events page := Phase.noConfusion

private instance (state : State) : Decidable (∀ events page, state.phase ≠ .paging events page) :=
  match state.phase with
  | .paging events page => isFalse fun apart => apart events page rfl
  | .idle => isTrue idle_apart
  | .handling fresh gap => isTrue (handling_apart fresh gap)

private instance (act : Act) (state : State) : Decidable (Steady act state) :=
  match act with
  | .removes _ => inferInstanceAs (Decidable (state.gapped = false ∧ ∀ events page, state.phase ≠ .paging events page))
  | .occurs _ | .forgets _ | .fetch .. | .handle _ => isTrue trivial

/-- Any close of an issue starts a job. -/
def closing : Setting := ⟨[⟨[CLOSE_ACTION],none⟩],[],7⟩

def lucky : Luck := ⟨some (some 1),some (some true),.done,true,.done⟩

/-- A label and a close behind the arming; the first lookup is indeterminate. -/
def labeledClosed : List Act :=
  [.fetch .read .done,.occurs ⟨some 1,.labeled,some 3,some ⟨some 4,false⟩⟩,.occurs ⟨some 2,.closed,some 3,some ⟨some 4,false⟩⟩,
    .fetch .read .done,.fetch .read .done,.handle lucky,.handle { lucky with lookup := some none },
    .occurs ⟨some 5,.other,none,none⟩,.fetch .read .done,.fetch .read .done,.handle lucky,.handle lucky]

theorem events_in_order_of_two :
    InOrder closing (fun entry => Wanted closing entry ∧ entry.issue.isSome = true) (after (step closing) .start labeledClosed) ∧
      (after (step closing) .start labeledClosed).handled = [1,2] :=
  ⟨events_in_order (runs_guarded _ _ _ labeledClosed (by decide)),by decide⟩

/-- A label whose entry has no issue. -/
def issueless : List Act := [.fetch .read .done,.occurs ⟨some 1,.labeled,some 3,none⟩,.fetch .read .done,.fetch .read .done,.handle lucky]

def labeledAs (id : Nat) : Entry := ⟨some id,.labeled,some 3,some ⟨some 4,false⟩⟩

/-- A hundred and one labels, the last of which is gone when the second page is read. -/
def slipped : List Act :=
  .fetch .read .done :: (List.range 101).map (fun count => .occurs (labeledAs (count + 1))) ++
    [.fetch .read .done,.removes (labeledAs 101),.fetch .read .done,.handle lucky]

/-- The cursor passes over an entry without an issue, and over one that moved to a page already read. -/
theorem issueless_passed :
    (¬∀ setting past state, Runs (step setting) Serves .start past state → InOrder setting (Wanted setting) state) ∧
      ¬∀ setting past state, Runs (step setting) Serves .start past state →
        InOrder setting (fun entry => Wanted setting entry ∧ entry.issue.isSome = true) state := by
  constructor
  · intro inOrder
    have run := runs_guarded (step closing) Serves .start issueless (by decide)
    exact absurd ((inOrder _ _ _ run).passed 1 (by decide) ⟨some 1,.labeled,some 3,none⟩ (by decide) 1 rfl (.inl rfl)
      (by decide) (by decide)) (by decide)
  · intro inOrder
    have run := runs_guarded (step closing) Serves .start slipped (by decide +kernel)
    exact absurd ((inOrder _ _ _ run).passed 2 (by decide +kernel) (labeledAs 1) (by decide +kernel) 1 rfl ⟨.inl rfl,rfl⟩
      (by decide +kernel) (by decide)) (by decide +kernel)

end Samples

end PiDispatch.PollerEvents
