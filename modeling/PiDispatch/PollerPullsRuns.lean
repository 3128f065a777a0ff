import PiDispatch.PollerPulls

/-! What the diff of the open list gates: each pull request as opened once at most and never if it was open when the feed
was armed, and the others only for what was really pushed to or closed, as long as the list stands still while it is read. -/
namespace PiDispatch.PollerPulls
open Kernel

/-- What the server can do, and a list that the pages can hold. -/
def Serves (act : Act) (state : State) : Prop :=
  match act with
  | .opens head => head ≠ CLOSED_MARKER
  | .closes number => ∃ pull ∈ state.pulls, pull.number = number ∧ pull.isOpen = true
  | .pushes number head => head ≠ CLOSED_MARKER ∧ ∃ pull ∈ state.pulls, pull.number = number ∧ pull.head ≠ head
  | .fetch => state.openList.length ≤ PER_PAGE * MAX_PR_PAGES
  | _ => True

/-- The list stands still while its pages are read. -/
def Steady (act : Act) (state : State) : Prop :=
  match act with
  | .fetch | .submits _ => True
  | _ => ∀ listed page, state.phase ≠ .listing listed page

section Snapshot

variable {known prs : Dict Nat String} {listed : List Listed} {number : Nat}

private theorem set_listed (keep : Listed → Bool) (distinct : (listed.map Listed.number).Nodup) :
    (listed.foldl (fun prs pr => if keep pr then prs.set pr.number pr.head else prs) prs).get? number =
      match listed.find? fun pr => pr.number = number with
      | some pr => if keep pr then some pr.head else prs.get? number
      | none => prs.get? number := by
  induction listed generalizing prs with
  | nil => rfl
  | cons pr listed ih =>
    rw [List.map_cons,List.nodup_cons] at distinct
    rw [List.foldl_cons,ih distinct.2,List.find?_cons]
    by_cases same : pr.number = number
    · have none' : listed.find? (fun pr => pr.number = number) = none := by
        rw [List.find?_eq_none]
        intro other inside own
        refine distinct.1 ?_
        rw [same,← of_decide_eq_true own]
        exact List.mem_map_of_mem inside
      rw [none']
      simp only [same,decide_true]
      split
      · rw [Dict.get?_set,if_pos rfl]
      · rfl
    · simp only [same,decide_false]
      cases found : listed.find? (fun pr => pr.number = number) with
      | none =>
        dsimp only
        split
        · exact Dict.get?_set_ne _ _ same
        · rfl
      | some other =>
        dsimp only
        split
        · rfl
        split
        · exact Dict.get?_set_ne _ _ same
        · rfl

private theorem set_marked (entries : List (Nat × String)) :
    (entries.foldl (fun prs entry => prs.set entry.1 CLOSED_MARKER) prs).get? number =
      if number ∈ entries.map Prod.fst then some CLOSED_MARKER else prs.get? number := by
  induction entries generalizing prs with
  | nil => rfl
  | cons entry entries ih =>
    rw [List.foldl_cons,ih,List.map_cons]
    by_cases later : number ∈ entries.map Prod.fst
    · rw [if_pos later,if_pos (List.mem_cons_of_mem _ later)]
    · rw [if_neg later,Dict.get?_set]
      by_cases same : entry.1 = number
      · rw [if_pos same,if_pos (by simp [same])]
      · rw [if_neg same,if_neg (by simp [later,Ne.symm same])]

theorem find_listed (distinct : (listed.map Listed.number).Nodup) {pr : Listed} (inside : pr ∈ listed) :
    listed.find? (fun other => other.number = pr.number) = some pr := by
  induction listed with
  | nil => cases inside
  | cons first listed ih =>
    rw [List.map_cons,List.nodup_cons] at distinct
    rcases List.mem_cons.mp inside with rfl | later
    · rw [List.find?_cons_of_pos (by simp)]
    · have apart : first.number ≠ pr.number := fun same => distinct.1 (same ▸ List.mem_map_of_mem later)
      rw [List.find?_cons_of_neg (by simpa using apart)]
      exact ih distinct.2 later

/-- The snapshot has the head of what is listed, and all else of what it had as closed. -/
theorem snapshot_get (distinct : (listed.map Listed.number).Nodup) :
    (snapshotOf known listed).get? number =
      match listed.find? fun pr => pr.number = number with
      | some pr => some pr.head
      | none => (known.get? number).map fun _ => CLOSED_MARKER := by
  unfold snapshotOf
  dsimp only
  rw [set_marked,set_listed _ distinct]
  cases found : listed.find? fun pr => pr.number = number with
  | some pr =>
    have own : pr.number = number := by simpa using List.find?_some found
    have inside : number ∈ listed.map Listed.number := own ▸ List.mem_map_of_mem (List.mem_of_find?_eq_some found)
    rw [if_neg]
    · dsimp only
      split
      · rfl
      next silent =>
        have silent : actionOf known pr = none := by simpa using silent
        unfold actionOf at silent
        rw [own] at silent
        split at silent
        · cases silent
        next prev recorded =>
          split at silent
          · cases silent
          split at silent
          · cases silent
          next same => rw [recorded,not_not.mp same]
    · intro marked
      obtain ⟨entry,there,same⟩ := List.mem_map.mp marked
      have out := (List.mem_filter.mp there).2
      simp only [decide_eq_true_eq] at out
      exact out.1 (same ▸ inside)
  | none =>
    have out : number ∉ listed.map Listed.number := by
      intro inside
      obtain ⟨pr,there,same⟩ := List.mem_map.mp inside
      exact absurd (List.find?_eq_none.mp found pr there) (by simpa using same)
    cases recorded : known.get? number with
    | none =>
      rw [if_neg]
      · rfl
      · intro marked
        obtain ⟨entry,there,same⟩ := List.mem_map.mp marked
        have held := known.get?_of_mem (List.mem_filter.mp there).1
        rw [same,recorded] at held
        cases held
    | some prev =>
      by_cases closed : prev = CLOSED_MARKER
      · split
        · rfl
        · dsimp only
          rw [closed]
          rfl
      · rw [if_pos]
        · rfl
        · refine List.mem_map.mpr ⟨(number,prev),List.mem_filter.mpr ⟨(Dict.get?_eq_some_iff _ _ _).mp recorded,?_⟩,rfl⟩
          simp only [decide_eq_true_eq]
          exact ⟨out,closed⟩

theorem armed_get (distinct : (listed.map Listed.number).Nodup) :
    (listed.foldl (fun prs pr => prs.set pr.number pr.head) (.empty : Dict Nat String)).get? number =
      (listed.find? fun pr => pr.number = number).map Listed.head := by
  have all := @set_listed (.empty : Dict Nat String) listed number (fun _ => true) distinct
  simp only [if_true] at all
  rw [all]
  cases listed.find? fun pr => pr.number = number <;> rfl

end Snapshot

section Touching

variable {state : State} {number : Nat} {change : Pull → Pull} {pull : Pull}

/-- What an update of a pull request leaves: all others as they were, and that one changed. -/
theorem mem_touch :
    pull ∈ (state.touch number change).pulls ↔ pull ∈ state.pulls ∧ pull.number ≠ number ∨
      ∃ old ∈ state.pulls, old.number = number ∧ pull = { change old with updated := state.clock } := by
  unfold State.touch
  simp only [List.mem_append,List.mem_filter,List.mem_map,decide_eq_true_eq]
  constructor
  · rintro (own | ⟨old,⟨inside,same⟩,rfl⟩)
    · exact .inl own
    · exact .inr ⟨old,inside,same,rfl⟩
  · rintro (own | ⟨old,inside,same,rfl⟩)
    · exact .inl own
    · exact .inr ⟨old,⟨inside,same⟩,rfl⟩

theorem touch_numbers (keeps : ∀ pull, (change pull).number = pull.number) :
    ((state.touch number change).pulls.map fun pull => pull.number).Perm (state.pulls.map fun pull => pull.number) := by
  have moved : ((state.pulls.filter fun pull => pull.number = number).map fun pull => { change pull with updated := state.clock }).map
      (fun pull => pull.number) = (state.pulls.filter fun pull => pull.number = number).map fun pull => pull.number := by
    rw [List.map_map]
    exact List.map_congr_left fun pull _ => keeps pull
  unfold State.touch
  dsimp only
  rw [List.map_append,moved,← List.map_append]
  refine List.Perm.map _ ?_
  have both := List.filter_append_perm (fun pull : Pull => decide (pull.number ≠ number)) state.pulls
  refine List.Perm.trans ?_ both
  refine List.Perm.append_left _ (List.Perm.of_eq ?_)
  exact List.filter_congr fun pull _ => by simp

end Touching

section Invariant

variable {state next : State}

/-- What the snapshot and the log of the gates say of the pull requests. -/
private structure Real (state : State) : Prop where
  distinct : (state.pulls.map fun pull => pull.number).Nodup
  known : ∀ pull ∈ state.pulls, pull.number < state.nextNumber
  heads : ∀ pull ∈ state.pulls, pull.head ≠ CLOSED_MARKER
  fresh : state.prsArmed = false → state.prs = .empty ∧ state.gated = [] ∧ state.atArming = []
  opened : ∀ number, (number ∈ state.atArming ∨ ∃ gate ∈ state.gated, gate.action = .opened ∧ gate.number = number) →
    state.prs.get? number ≠ none
  once : ∀ number, state.gated.countP (fun gate => gate.action = .opened ∧ gate.number = number) ≤ 1
  unopened : ∀ gate ∈ state.gated, gate.action = .opened → gate.number ∉ state.atArming
  recorded : ∀ number sha, state.prs.get? number = some sha → sha ≠ CLOSED_MARKER → number ∉ state.pushed →
    ∀ pull ∈ state.pulls, pull.number = number → pull.head = sha
  stays : ∀ number sha, state.prs.get? number = some sha → sha ≠ CLOSED_MARKER → number ∉ state.shut →
    ∃ pull ∈ state.pulls, pull.number = number ∧ pull.isOpen = true
  gone : ∀ number, state.prs.get? number = some CLOSED_MARKER → number ∈ state.shut
  held : ∀ number, state.prs.get? number ≠ none → number < state.nextNumber

/-- Among the pages, what was read is the list's front. -/
private def Paged (state : State) : Prop :=
  ∀ listed page, state.phase = .listing listed page → 2 ≤ page ∧ page ≤ MAX_PR_PAGES ∧
    listed = state.openList.take (PER_PAGE * (page - 1))

private theorem start_real : Real .start := by
  constructor <;> simp [State.start]

/-- The sweep for reviews leaves the rest alone. -/
private theorem Real.same (real : Real state) (pulls : next.pulls = state.pulls) (number : next.nextNumber = state.nextNumber)
    (armed : next.prsArmed = state.prsArmed) (prs : next.prs = state.prs) (gated : next.gated = state.gated)
    (atArming : next.atArming = state.atArming) (shut : next.shut = state.shut) (pushed : next.pushed = state.pushed) :
    Real next := by
  obtain ⟨distinct,known,heads,fresh,opened,once,unopened,recorded,stays,gone,held⟩ := real
  constructor
  all_goals simp only [pulls,number,armed,prs,gated,atArming,shut,pushed]
  all_goals assumption

private theorem touch_real {number : Nat} {change : Pull → Pull} (real : Real state)
    (keeps : ∀ pull, (change pull).number = pull.number) (heads : ∀ pull ∈ state.pulls, (change pull).head ≠ CLOSED_MARKER)
    (next : State) (pulls : next.pulls = (state.touch number change).pulls) (same : next.nextNumber = state.nextNumber)
    (armed : next.prsArmed = state.prsArmed) (prs : next.prs = state.prs) (gated : next.gated = state.gated)
    (atArming : next.atArming = state.atArming) (shut : ∀ other ∈ state.shut, other ∈ next.shut)
    (pushed : ∀ other ∈ state.pushed, other ∈ next.pushed)
    (head : number ∈ next.pushed ∨ ∀ pull, (change pull).head = pull.head)
    (stays : number ∈ next.shut ∨ ∀ pull, pull.isOpen = true → (change pull).isOpen = true) : Real next := by
  constructor
  · rw [pulls]
    exact (touch_numbers keeps).nodup_iff.mpr real.distinct
  · rw [pulls,same]
    intro pull inside
    rcases mem_touch.mp inside with ⟨old,_⟩ | ⟨old,there,_,rfl⟩
    · exact real.known pull old
    · change (change old).number < _
      rw [keeps]
      exact real.known old there
  · rw [pulls]
    intro pull inside
    rcases mem_touch.mp inside with ⟨old,_⟩ | ⟨old,there,_,rfl⟩
    · exact real.heads pull old
    · exact heads old there
  · rw [armed,prs,gated,atArming]
    exact real.fresh
  · rw [prs,gated,atArming]
    exact real.opened
  · rw [gated]
    exact real.once
  · rw [gated,atArming]
    exact real.unopened
  · rw [prs,pulls]
    intro other sha recorded marked unpushed pull inside own
    have before := real.recorded other sha recorded marked fun was => unpushed (pushed other was)
    rcases mem_touch.mp inside with ⟨old,_⟩ | ⟨old,there,at',rfl⟩
    · exact before pull old own
    · have own : (change old).number = other := own
      rw [keeps,at'] at own
      rcases head with was | kept
      · exact absurd (own ▸ was) unpushed
      · change (change old).head = sha
        rw [kept]
        exact before old there (at'.trans own)
  · rw [prs,pulls]
    intro other sha recorded marked open'
    obtain ⟨pull,inside,own,isOpen⟩ := real.stays other sha recorded marked fun was => open' (shut other was)
    by_cases at' : pull.number = number
    · refine ⟨_,mem_touch.mpr (.inr ⟨pull,inside,at',rfl⟩),(keeps pull).trans own,?_⟩
      rcases stays with was | kept
      · exact absurd (own ▸ at' ▸ was) open'
      · exact kept pull isOpen
    · exact ⟨pull,mem_touch.mpr (.inl ⟨inside,at'⟩),own,isOpen⟩
  · rw [prs]
    exact fun other marked => shut other (real.gone other marked)
  · rw [prs,same]
    exact real.held

private theorem opens_real {head : String} (real : Real state) (proper : head ≠ CLOSED_MARKER) :
    Real (step (.opens head) state).2 := by
  have unseen : state.prs.get? state.nextNumber = none := by
    by_contra seen
    exact absurd (real.held _ seen) (Nat.lt_irrefl _)
  have split {pull : Pull} (inside : pull ∈ (step (.opens head) state).2.pulls) :
      pull ∈ state.pulls ∨ pull = ⟨⟨state.nextNumber,head,state.clock⟩,true,[],state.nextReview⟩ := by
    simpa [step] using inside
  refine ⟨?_,?_,?_,real.fresh,real.opened,real.once,real.unopened,?_,?_,real.gone,?_⟩
  · change ((state.pulls ++ [_]).map fun pull : Pull => pull.number).Nodup
    rw [List.map_append,List.nodup_append]
    refine ⟨real.distinct,List.nodup_singleton _,?_⟩
    intro number inside other new same
    obtain ⟨pull,there,own⟩ := List.mem_map.mp inside
    have less := real.known pull there
    rw [List.mem_singleton.mp new] at same
    exact absurd (own.trans same) (Nat.ne_of_lt less)
  · intro pull inside
    rcases split inside with old | rfl
    · exact Nat.lt_succ_of_lt (real.known pull old)
    · exact Nat.lt_succ_self _
  · intro pull inside
    rcases split inside with old | rfl
    · exact real.heads pull old
    · exact proper
  · intro number sha recorded marked unpushed pull inside own
    rcases split inside with old | rfl
    · exact real.recorded number sha recorded marked unpushed pull old own
    · have recorded : state.prs.get? number = some sha := recorded
      rw [← own,unseen] at recorded
      cases recorded
  · intro number sha recorded marked open'
    obtain ⟨pull,inside,own⟩ := real.stays number sha recorded marked open'
    exact ⟨pull,List.mem_append_left _ inside,own⟩
  · exact fun number seen => Nat.lt_succ_of_lt (real.held number seen)

theorem submits_listed (number : Nat) : (step (.submits number) state).2.openList = state.openList := by
  have plain (pulls : List Pull) (change : Pull → Pull)
      (kept : ∀ pull, (change pull).toListed = pull.toListed ∧ (change pull).isOpen = pull.isOpen) :
      ((pulls.map change).filter Pull.isOpen).map Pull.toListed = (pulls.filter Pull.isOpen).map Pull.toListed := by
    induction pulls with
    | nil => rfl
    | cons pull pulls ih =>
      rw [List.map_cons,List.filter_cons,List.filter_cons,(kept pull).2]
      split
      · rw [List.map_cons,List.map_cons,ih,(kept pull).1]
      · exact ih
  unfold State.openList
  refine plain _ _ fun pull => ?_
  split <;> exact ⟨rfl,rfl⟩

private theorem submits_real (real : Real state) (number : Nat) : Real (step (.submits number) state).2 := by
  have same {pull : Pull} (inside : pull ∈ (step (.submits number) state).2.pulls) :
      ∃ old ∈ state.pulls, pull.toListed = old.toListed := by
    obtain ⟨old,there,rfl⟩ := List.mem_map.mp inside
    refine ⟨old,there,?_⟩
    split <;> rfl
  have numbers : ((step (.submits number) state).2.pulls.map fun pull => pull.number) =
      state.pulls.map fun pull => pull.number := by
    change (state.pulls.map _).map _ = _
    rw [List.map_map]
    refine List.map_congr_left fun pull _ => ?_
    dsimp only [Function.comp_apply]
    split <;> rfl
  refine ⟨?_,?_,?_,real.fresh,real.opened,real.once,real.unopened,?_,?_,real.gone,real.held⟩
  · rw [numbers]
    exact real.distinct
  · intro pull inside
    obtain ⟨old,there,own⟩ := same inside
    rw [own]
    exact real.known old there
  · intro pull inside
    obtain ⟨old,there,own⟩ := same inside
    rw [own]
    exact real.heads old there
  · intro other sha recorded marked unpushed pull inside own
    obtain ⟨old,there,alike⟩ := same inside
    rw [alike] at own ⊢
    exact real.recorded other sha recorded marked unpushed old there own
  · intro other sha recorded marked open'
    obtain ⟨pull,inside,own,isOpen⟩ := real.stays other sha recorded marked open'
    refine ⟨_,List.mem_map_of_mem inside,?_⟩
    split <;> exact ⟨own,isOpen⟩

end Invariant

section Diff

variable {state : State}

private theorem openList_distinct (real : Real state) : (state.openList.map Listed.number).Nodup := by
  unfold State.openList
  rw [List.map_map]
  exact (real.distinct.sublist (List.filter_sublist.map _))

theorem mem_openList {pr : Listed} : pr ∈ state.openList ↔ ∃ pull ∈ state.pulls, pull.isOpen = true ∧ pull.toListed = pr := by
  unfold State.openList
  rw [List.mem_map]
  constructor
  · rintro ⟨pull,inside,rfl⟩
    exact ⟨pull,(List.mem_filter.mp inside).1,(List.mem_filter.mp inside).2,rfl⟩
  · rintro ⟨pull,inside,isOpen,rfl⟩
    exact ⟨pull,List.mem_filter.mpr ⟨inside,isOpen⟩,rfl⟩

/-- A gate is a listed pull request's, for what the snapshot has of it. -/
private theorem mem_gatesOf {known : Dict Nat String} {listed : List Listed} {gate : Gate} :
    gate ∈ gatesOf known listed ↔ ∃ pr ∈ listed, actionOf known pr = some gate.action ∧ gate.number = pr.number ∧ gate.sha = pr.head := by
  unfold gatesOf
  rw [List.mem_filterMap]
  constructor
  · rintro ⟨pr,inside,found⟩
    obtain ⟨action,own,rfl⟩ := Option.map_eq_some_iff.mp found
    exact ⟨pr,inside,own,rfl,rfl⟩
  · rintro ⟨pr,inside,own,number,sha⟩
    refine ⟨pr,inside,?_⟩
    rw [own,Option.map_some,← number,← sha]

private theorem gatesOf_once {known : Dict Nat String} {listed : List Listed} (distinct : (listed.map Listed.number).Nodup) (number : Nat) :
    (gatesOf known listed).countP (fun gate => gate.action = .opened ∧ gate.number = number) ≤ 1 := by
  unfold gatesOf
  induction listed with
  | nil => exact Nat.zero_le _
  | cons pr listed ih =>
    rw [List.map_cons,List.nodup_cons] at distinct
    rw [List.filterMap_cons]
    split
    · exact ih distinct.2
    next gate own =>
      rw [List.countP_cons]
      split
      next same =>
        have here : pr.number = number := by
          obtain ⟨action,_,rfl⟩ := Option.map_eq_some_iff.mp own
          simpa using (of_decide_eq_true same).2
        have none' : ((listed.filterMap fun pr => (actionOf known pr).map fun action => (⟨action,pr.number,pr.head⟩ : Gate)).countP
            fun gate => gate.action = .opened ∧ gate.number = number) = 0 := by
          rw [List.countP_eq_zero]
          intro other inside matched
          obtain ⟨later,there,_,same,_⟩ := mem_gatesOf.mp inside
          refine distinct.1 ?_
          rw [here,← (of_decide_eq_true matched).2,same]
          exact List.mem_map_of_mem there
        rw [none']
      · exact ih distinct.2

/-- What a gate of the diff is for. -/
private theorem gate_real (real : Real state) {gate : Gate} (inside : gate ∈ gatesOf state.prs state.openList) :
    match gate.action with
    | .opened => state.prs.get? gate.number = none
    | .synchronize => (∃ old ≠ gate.sha, state.prs.get? gate.number = some old) ∧ gate.number ∈ state.pushed
    | .reopened => state.prs.get? gate.number ≠ none ∧ gate.number ∈ state.shut := by
  obtain ⟨pr,listed,own,number,sha⟩ := mem_gatesOf.mp inside
  obtain ⟨pull,there,_,rfl⟩ := mem_openList.mp listed
  unfold actionOf at own
  rw [number,sha]
  split at own
  next unseen =>
    rw [← Option.some.inj own]
    exact unseen
  next prev recorded =>
    split at own
    next marked =>
      rw [← Option.some.inj own]
      refine ⟨by simp [recorded],real.gone _ ?_⟩
      rw [recorded,marked]
    next unmarked =>
      split at own
      next changed =>
        rw [← Option.some.inj own]
        refine ⟨⟨prev,changed,recorded⟩,?_⟩
        by_contra unpushed
        exact changed (real.recorded _ prev recorded unmarked unpushed pull there rfl).symm
      · cases own

private theorem pull_unique (real : Real state) {pull other : Pull} (inside : pull ∈ state.pulls) (there : other ∈ state.pulls)
    (same : pull.number = other.number) : pull = other :=
  List.inj_on_of_nodup_map real.distinct inside there same

/-- What is open is found on the list, with its head. -/
private theorem find_open (real : Real state) {pull : Pull} (inside : pull ∈ state.pulls) (isOpen : pull.isOpen = true) :
    state.openList.find? (fun pr => pr.number = pull.number) = some pull.toListed :=
  find_listed (openList_distinct real) (mem_openList.mpr ⟨pull,inside,isOpen,rfl⟩)

private theorem found_open {number : Nat} {pr : Listed} (found : state.openList.find? (fun pr => pr.number = number) = some pr) :
    ∃ pull ∈ state.pulls, pull.isOpen = true ∧ pull.number = number ∧ pull.head = pr.head := by
  obtain ⟨pull,inside,isOpen,rfl⟩ := mem_openList.mp (List.mem_of_find?_eq_some found)
  exact ⟨pull,inside,isOpen,by simpa using List.find?_some found,rfl⟩

/-- A snapshot that has the open pull requests' heads, and nothing else but what it marks as closed. -/
private theorem snapshot_real (real : Real state) {next : State} (pulls : next.pulls = state.pulls)
    (number : next.nextNumber = state.nextNumber)
    (shut : ∀ number, number ∈ next.shut ↔ number ∈ state.shut ∧ number ∉ state.openList.map Listed.number)
    (has : ∀ number, next.prs.get? number = match state.openList.find? fun pr => pr.number = number with
      | some pr => some pr.head
      | none => (state.prs.get? number).map fun _ => CLOSED_MARKER)
    (fresh : next.prsArmed = false → next.prs = .empty ∧ next.gated = [] ∧ next.atArming = [])
    (opened : ∀ number, (number ∈ next.atArming ∨ ∃ gate ∈ next.gated, gate.action = .opened ∧ gate.number = number) →
      next.prs.get? number ≠ none)
    (once : ∀ number, next.gated.countP (fun gate => gate.action = .opened ∧ gate.number = number) ≤ 1)
    (unopened : ∀ gate ∈ next.gated, gate.action = .opened → gate.number ∉ next.atArming) : Real next := by
  refine ⟨by rw [pulls]; exact real.distinct,by rw [pulls,number]; exact real.known,by rw [pulls]; exact real.heads,fresh,opened,
    once,unopened,?_,?_,?_,?_⟩
  · intro number sha recorded marked _ pull inside own
    rw [pulls] at inside
    rw [has] at recorded
    split at recorded
    next pr found =>
      obtain ⟨other,there,_,same,head⟩ := found_open found
      rw [pull_unique real inside there (own.trans same.symm),head]
      exact Option.some.inj recorded
    · obtain ⟨_,_,same⟩ := Option.map_eq_some_iff.mp recorded
      exact absurd same.symm marked
  · intro number sha recorded marked _
    rw [pulls]
    rw [has] at recorded
    split at recorded
    next pr found =>
      obtain ⟨other,there,isOpen,same,_⟩ := found_open found
      exact ⟨other,there,same,isOpen⟩
    · obtain ⟨_,_,same⟩ := Option.map_eq_some_iff.mp recorded
      exact absurd same.symm marked
  · intro number recorded
    rw [has] at recorded
    split at recorded
    next pr found =>
      obtain ⟨other,there,_,_,head⟩ := found_open found
      exact absurd (head.trans (Option.some.inj recorded)) (real.heads other there)
    next none' =>
      have out : number ∉ state.openList.map Listed.number := by
        intro inside
        obtain ⟨pr,there,same⟩ := List.mem_map.mp inside
        exact absurd (List.find?_eq_none.mp none' pr there) (by simpa using same)
      obtain ⟨prev,was,_⟩ := Option.map_eq_some_iff.mp recorded
      refine (shut number).mpr ⟨?_,out⟩
      by_cases marked : prev = CLOSED_MARKER
      · rw [marked] at was
        exact real.gone number was
      · by_contra open'
        obtain ⟨pull,inside,own,isOpen⟩ := real.stays number prev was marked open'
        rw [← own,find_open real inside isOpen] at none'
        cases none'
  · intro other seen
    rw [number]
    rw [has] at seen
    split at seen
    next pr found =>
      obtain ⟨pull,there,_,same,_⟩ := found_open found
      rw [← same]
      exact real.known pull there
    · refine real.held other fun none' => seen ?_
      rw [none']
      rfl

private theorem snapshot_some (real : Real state) {number : Nat} (seen : state.prs.get? number ≠ none ∨
    number ∈ state.openList.map Listed.number) : (snapshotOf state.prs state.openList).get? number ≠ none := by
  rw [snapshot_get (openList_distinct real)]
  split
  · simp
  next none' =>
    rcases seen with was | listed
    · simpa using was
    · obtain ⟨pr,there,same⟩ := List.mem_map.mp listed
      exact absurd (List.find?_eq_none.mp none' pr there) (by simpa using same)

private theorem gated_once (real : Real state) (number : Nat) :
    (state.gated ++ gatesOf state.prs state.openList).countP (fun gate => gate.action = .opened ∧ gate.number = number) ≤ 1 := by
  have before := real.once number
  have now := @gatesOf_once state.prs state.openList (openList_distinct real) number
  rw [List.countP_append]
  by_cases any : (state.gated.countP fun gate => gate.action = .opened ∧ gate.number = number) = 0
  · omega
  · obtain ⟨gate,inside,own⟩ := List.countP_pos_iff.mp (Nat.pos_of_ne_zero any)
    have seen := real.opened number (.inr ⟨gate,inside,of_decide_eq_true own⟩)
    have none' : ((gatesOf state.prs state.openList).countP fun gate => gate.action = .opened ∧ gate.number = number) = 0 := by
      rw [List.countP_eq_zero]
      intro later inside matched
      obtain ⟨action,same⟩ := of_decide_eq_true matched
      have unseen := gate_real real inside
      rw [action] at unseen
      exact seen (same ▸ unseen)
    omega

private theorem listRead_real (real : Real state) :
    ∃ next, Real next ∧ (listRead state.openList state).2 = (pollReviews (some state.openList) next).2 := by
  have shut (number : Nat) : number ∈ (state.saw state.openList).shut ↔
      number ∈ state.shut ∧ number ∉ state.openList.map Listed.number := by
    unfold State.saw
    rw [List.mem_filter,decide_eq_true_eq]
  unfold listRead
  split
  next armed =>
    refine ⟨_,?_,rfl⟩
    refine snapshot_real real rfl rfl shut (fun _ => snapshot_get (openList_distinct real))
      (fun unarmed => absurd (armed.symm.trans unarmed) (by decide)) ?_ (gated_once real) ?_
    · rintro number (arming | ⟨gate,inside,own⟩)
      · exact snapshot_some real (.inl (real.opened number (.inl arming)))
      · rcases List.mem_append.mp inside with old | new
        · exact snapshot_some real (.inl (real.opened number (.inr ⟨gate,old,own⟩)))
        · obtain ⟨pr,listed,_,same,_⟩ := mem_gatesOf.mp new
          refine snapshot_some real (.inr ?_)
          rw [← own.2,same]
          exact List.mem_map_of_mem listed
    · intro gate inside action
      rcases List.mem_append.mp inside with old | new
      · exact real.unopened gate old action
      · have unseen := gate_real real new
        rw [action] at unseen
        exact fun arming => real.opened gate.number (.inl arming) unseen
  next unarmed =>
    obtain ⟨empty,ungated,_⟩ := real.fresh (by simpa using unarmed)
    refine ⟨_,?_,rfl⟩
    refine snapshot_real real rfl rfl shut ?_ (fun unarmed => (nomatch unarmed)) ?_ ?_ ?_
    · intro number
      change (state.openList.foldl _ state.prs).get? number = _
      rw [empty,armed_get (openList_distinct real)]
      cases state.openList.find? fun pr => pr.number = number <;> rfl
    · rintro number (arming | ⟨gate,inside,_⟩)
      · change (state.openList.foldl _ state.prs).get? number ≠ none
        rw [empty,armed_get (openList_distinct real)]
        obtain ⟨pr,there,same⟩ := List.mem_map.mp arming
        rw [← same,find_listed (openList_distinct real) there]
        exact fun none' => (nomatch none')
      · have inside : gate ∈ state.gated := inside
        rw [ungated] at inside
        cases inside
    · intro number
      change (state.gated.countP _) ≤ 1
      rw [ungated]
      exact Nat.zero_le _
    · intro gate inside
      have inside : gate ∈ state.gated := inside
      rw [ungated] at inside
      cases inside

end Diff

section Fetching

variable {state : State}

private theorem sweepOn_kept (numbers : List Nat) (maxId : Nat) (gap : Bool) (state : State) :
    ∃ phase cursor mark swept, (sweepOn numbers maxId gap state).2 = { state with
      phase := phase, reviewsCursor := cursor, reviewsFrom := mark, sweptAt := swept } ∧
      ∀ listed page, phase ≠ .listing listed page := by
  unfold sweepOn
  split
  · exact ⟨_,_,_,_,rfl,fun _ _ same => (nomatch same)⟩
  · exact ⟨_,state.reviewsCursor,state.reviewsFrom,state.sweptAt,rfl,fun _ _ same => (nomatch same)⟩

private theorem sweepOn_real {numbers : List Nat} {maxId : Nat} {gap : Bool} (real : Real state) :
    Real (sweepOn numbers maxId gap state).2 ∧ Paged (sweepOn numbers maxId gap state).2 := by
  obtain ⟨phase,_,_,_,same,apart⟩ := sweepOn_kept numbers maxId gap state
  rw [same]
  exact ⟨real.same rfl rfl rfl rfl rfl rfl rfl rfl,fun listed page own => absurd own (apart listed page)⟩

private theorem sweepFetch_real {number : Nat} {rest : List Nat} {maxId : Nat} {gap : Bool} (real : Real state) :
    Real (sweepFetch number rest maxId gap state).2 ∧ Paged (sweepFetch number rest maxId gap state).2 := by
  unfold sweepFetch
  dsimp only
  split
  · exact sweepOn_real real
  · exact sweepOn_real (real.same rfl rfl rfl rfl rfl rfl rfl rfl)

/-- What the pages hold together, and what a page that is not full says. -/
private theorem page_whole {page : Nat} (least : 1 ≤ page) :
    state.openList.take (PER_PAGE * (page - 1)) ++ state.openPage page = state.openList.take (PER_PAGE * page) := by
  unfold State.openPage
  have size : PER_PAGE * page = PER_PAGE * (page - 1) + PER_PAGE := by
    obtain ⟨before,rfl⟩ : ∃ before, page = before + 1 := ⟨page - 1,by omega⟩
    rw [Nat.add_sub_cancel,Nat.mul_succ]
  rw [size,List.take_add]

private theorem page_last {page : Nat} (least : 1 ≤ page) (fits : state.openList.length ≤ PER_PAGE * MAX_PR_PAGES)
    (ends : (state.openPage page).length ≠ PER_PAGE ∨ MAX_PR_PAGES ≤ page) :
    state.openList.take (PER_PAGE * page) = state.openList := by
  refine List.take_of_length_le ?_
  unfold State.openPage at ends
  rw [List.length_take,List.length_drop] at ends
  unfold PER_PAGE MAX_PR_PAGES at *
  omega

private theorem pageRead_real {page : Nat} (real : Real state) (least : 1 ≤ page)
    (fits : state.openList.length ≤ PER_PAGE * MAX_PR_PAGES) :
    Real (pageRead (state.openList.take (PER_PAGE * page)) (state.openPage page) (page + 1) state).2 ∧
      Paged (pageRead (state.openList.take (PER_PAGE * page)) (state.openPage page) (page + 1) state).2 := by
  unfold pageRead
  split
  next more =>
    refine ⟨real.same rfl rfl rfl rfl rfl rfl rfl rfl,?_⟩
    intro listed next same
    cases same
    exact ⟨by omega,more.2,rfl⟩
  next ends =>
    rw [page_last least fits (by omega)]
    obtain ⟨next,holds,same⟩ := listRead_real real
    rw [same]
    exact sweepOn_real holds

theorem openPage_first : state.openPage 1 = state.openList.take (PER_PAGE * 1) := by
  rw [← page_whole (Nat.le_refl 1)]
  rfl

private theorem fetch_real (real : Real state) (paged : Paged state) (fits : Serves .fetch state) :
    Real (fetch state).2 ∧ Paged (fetch state).2 := by
  unfold fetch
  split
  · dsimp only
    split
    · exact sweepOn_real real
    · have first : Real { state with etagPulls := some (state.openPage 1) } := real.same rfl rfl rfl rfl rfl rfl rfl rfl
      have read := pageRead_real first (Nat.le_refl 1) fits
      rw [← openPage_first] at read
      exact read
  next listed page own =>
    obtain ⟨least,_,same⟩ := paged listed page own
    have read := pageRead_real real (Nat.le_of_succ_le least) fits
    rw [same,page_whole (Nat.le_of_succ_le least)]
    exact read
  · exact sweepOn_real real
  · exact sweepFetch_real real

private theorem pageRead_gates {page : Nat} {gate : Gate} (least : 1 ≤ page)
    (fits : state.openList.length ≤ PER_PAGE * MAX_PR_PAGES)
    (inside : gate ∈ (pageRead (state.openList.take (PER_PAGE * page)) (state.openPage page) (page + 1) state).1.gates) :
    gate ∈ gatesOf state.prs state.openList := by
  unfold pageRead at inside
  split at inside
  · cases inside
  next ends =>
    rw [page_last least fits (by omega)] at inside
    unfold listRead at inside
    split at inside
    · exact inside
    · cases inside

/-- The gates of a fetch are those of the whole list. -/
private theorem fetch_gates {gate : Gate} (paged : Paged state) (fits : Serves .fetch state)
    (inside : gate ∈ (fetch state).1.gates) : gate ∈ gatesOf state.prs state.openList := by
  unfold fetch at inside
  split at inside
  · dsimp only at inside
    split at inside
    · cases inside
    · refine @pageRead_gates { state with etagPulls := some (state.openPage 1) } 1 gate (Nat.le_refl 1) fits ?_
      rw [← @openPage_first { state with etagPulls := some (state.openPage 1) }]
      exact inside
  next listed page own =>
    obtain ⟨least,_,same⟩ := paged listed page own
    rw [same,page_whole (Nat.le_of_succ_le least)] at inside
    exact pageRead_gates (Nat.le_of_succ_le least) fits inside
  · cases inside
  · cases inside

end Fetching

section Running

variable {state : State}

private theorem step_real (act : Act) (real : Real state) (paged : Paged state) (serves : Serves act state)
    (steady : Steady act state) : Real (step act state).2 ∧ Paged (step act state).2 := by
  have still {next : State} (steady : ∀ listed page, state.phase ≠ .listing listed page) (same : next.phase = state.phase) :
      Paged next := fun listed page own => absurd (same.symm.trans own) (steady listed page)
  cases act with
  | opens head => exact ⟨opens_real real serves,still steady rfl⟩
  | closes number =>
    refine ⟨@touch_real state number (fun pull => { pull with isOpen := false }) real (fun _ => rfl) real.heads _ rfl rfl rfl rfl
      rfl rfl ?_ (fun _ was => was) (.inr fun _ => rfl) ?_,still steady rfl⟩
    · exact fun _ was => List.mem_cons_of_mem _ was
    · exact .inl List.mem_cons_self
  | reopens number =>
    exact ⟨@touch_real state number
      (fun pull => { pull with isOpen := true, openedAt := if pull.isOpen then pull.openedAt else state.nextReview }) real
      (fun _ => rfl) real.heads _ rfl rfl rfl rfl rfl rfl (fun _ was => was) (fun _ was => was) (.inr fun _ => rfl)
      (.inr fun _ _ => rfl),still steady rfl⟩
  | pushes number head =>
    exact ⟨@touch_real state number (fun pull => { pull with head := head }) real (fun _ => rfl) (fun _ _ => serves.1) _ rfl rfl rfl rfl rfl rfl (fun _ was => was)
      (fun _ was => List.mem_cons_of_mem _ was) (.inl List.mem_cons_self) (.inr fun _ isOpen => isOpen),still steady rfl⟩
  | updates number =>
    exact ⟨@touch_real state number id real (fun _ => rfl) real.heads _ rfl rfl rfl rfl rfl rfl (fun _ was => was)
      (fun _ was => was) (.inr fun _ => rfl) (.inr fun _ isOpen => isOpen),still steady rfl⟩
  | submits number =>
    refine ⟨submits_real real number,fun listed page own => ?_⟩
    rw [submits_listed]
    exact paged listed page own
  | fetch => exact fetch_real real paged serves

end Running

/-- What a gate is for: a pull request that no cycle has seen, one that was pushed to since a cycle last saw it open, with
another head than it had there, or one that was closed since. -/
def Founded (state : State) (gate : Gate) : Prop :=
  match gate.action with
  | .opened => state.prs.get? gate.number = none
  | .synchronize => (∃ old ≠ gate.sha, state.prs.get? gate.number = some old) ∧ gate.number ∈ state.pushed
  | .reopened => state.prs.get? gate.number ≠ none ∧ gate.number ∈ state.shut

/-- No action is made up: none is opened twice or after it was open at the arming, and every gate is founded. -/
def Truthful (state : State) : Prop :=
  (∀ number, state.gated.countP (fun gate => gate.action = .opened ∧ gate.number = number) ≤ 1) ∧
    (∀ gate ∈ state.gated, gate.action = .opened → gate.number ∉ state.atArming) ∧
    (Serves .fetch state → ∀ gate ∈ (step .fetch state).1.gates, Founded state gate)

theorem actions_truthful {past : List (Act × Report)} {state : State}
    (run : Runs step (fun act state => Serves act state ∧ Steady act state) .start past state) : Truthful state := by
  have holds : Real state ∧ Paged state := by
    refine Runs.invariant (fun _ state => Real state ∧ Paged state) ?_ ?_ run
    · exact ⟨start_real,fun _ _ own => (nomatch own)⟩
    · exact fun _ state act holds ok => step_real act holds.1 holds.2 ok.1 ok.2
  refine ⟨holds.1.once,holds.1.unopened,fun fits gate inside => ?_⟩
  have founded := gate_real holds.1 (fetch_gates holds.2 fits inside)
  unfold Founded
  exact founded

section Samples

instance (act : Act) (state : State) : Decidable (Serves act state) :=
  match act with
  | .opens head => inferInstanceAs (Decidable (head ≠ CLOSED_MARKER))
  | .closes number => inferInstanceAs (Decidable (∃ pull ∈ state.pulls, pull.number = number ∧ pull.isOpen = true))
  | .pushes number head =>
    inferInstanceAs (Decidable (head ≠ CLOSED_MARKER ∧ ∃ pull ∈ state.pulls, pull.number = number ∧ pull.head ≠ head))
  | .fetch => inferInstanceAs (Decidable (state.openList.length ≤ PER_PAGE * MAX_PR_PAGES))
  | .reopens _ | .updates _ | .submits _ => isTrue trivial

private theorem idle_unlisted (listed : List Listed) (page : Nat) : Phase.idle ≠ .listing listed page := Phase.noConfusion

private theorem sweeping_unlisted (numbers : List Nat) (maxId : Nat) (gap : Bool) (listed : List Listed) (page : Nat) :
    Phase.sweeping numbers maxId gap ≠ .listing listed page := Phase.noConfusion

private instance (state : State) : Decidable (∀ listed page, state.phase ≠ .listing listed page) :=
  match state.phase with
  | .listing listed page => isFalse fun apart => apart listed page rfl
  | .idle => isTrue idle_unlisted
  | .sweeping numbers maxId gap => isTrue (sweeping_unlisted numbers maxId gap)

private instance (act : Act) (state : State) : Decidable (Steady act state) :=
  match act with
  | .fetch | .submits _ => isTrue trivial
  | .opens _ | .closes _ | .reopens _ | .pushes .. | .updates _ =>
    inferInstanceAs (Decidable (∀ listed page, state.phase ≠ .listing listed page))

/-- A pull request is opened and pushed to after the feed was armed. -/
def onePush : List Act := [.fetch,.opens "a",.fetch,.fetch,.pushes 0 "b"]

theorem actions_truthful_of_push : Truthful (after step .start onePush) :=
  actions_truthful (runs_guarded _ _ _ onePush (by decide))

/-- A hundred and one open pull requests, and an update between the two pages of a cycle. -/
def shifted : List Act :=
  List.replicate 101 (.opens "a") ++ List.replicate 52 .fetch ++ [.updates 0,.fetch,.updates 1] ++ List.replicate 52 .fetch

/-- The one that moved up to the page already read is taken for closed, and is reopened in the next cycle. -/
theorem shifted_reopened : ¬∀ past state, Runs step Serves .start past state → Truthful state := by
  intro truthful
  have run := runs_guarded step Serves .start shifted (by decide +kernel)
  obtain ⟨_,_,founded⟩ := truthful _ _ run
  have gate := founded (by decide +kernel) ⟨.reopened,0,"a"⟩ (by decide +kernel)
  exact absurd gate.2 (by decide +kernel)

end Samples

end PiDispatch.PollerPulls
