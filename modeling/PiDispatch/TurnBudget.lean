import PiDispatch.Kernel.Machine
import Mathlib.Data.List.DropRight
import Mathlib.Data.List.Infix

/-! The runner's cap on turns: which turn starts it counts and which it lets go as a retry of a turn that made no
progress, that the run is aborted at every turn past the cap, and how many retries go uncounted. -/
namespace PiDispatch.TurnBudget
open Kernel

structure Message where
  role : String
  stopReason : Option String
  deriving DecidableEq

/-- An event of the root session, with what the listener reads of it. -/
inductive Event
  | toolExecutionStart
  | messageEnd (message : Option Message)
  | autoRetryStart
  | autoRetryEnd
  | agentSettled
  | turnStart
  | other (type : String)
  deriving DecidableEq

/-- What the listener calls. -/
inductive Effect
  | onAbort (turns : Nat)
  | abort
  deriving DecidableEq

structure State where
  turns : Nat
  retryTurns : Nat
  aborted : Bool
  retryPending : Bool
  turnProgressed : Bool
  deriving DecidableEq

def attached : State := ⟨0,0,false,false,false⟩

def attachTurnBudget (maxTurns : Int) : Except String State :=
  if maxTurns < 1 then .error s!"invalid PI_MAX_TURNS: {maxTurns}" else .ok attached

/-- A completed reply, which a provider's error is not. -/
def isCompleted : Event → Bool
  | .messageEnd (some message) => message.role = "assistant" && message.stopReason ≠ some "error"
  | _ => false

/-- A turn start's turn, counted or let go. -/
def State.opened (state : State) : State :=
  if state.retryPending then { state with turnProgressed := false, retryPending := false, retryTurns := state.retryTurns + 1 }
  else { state with turnProgressed := false, turns := state.turns + 1 }

section Listener

variable (maxTurns : Int) (hasOnAbort : Bool)

def listener (event : Event) (state : State) : List Effect × State :=
  match event with
  | .toolExecutionStart => ([],{ state with turnProgressed := true })
  | .messageEnd message => ([],if isCompleted (.messageEnd message) then { state with turnProgressed := true } else state)
  | .autoRetryStart => ([],{ state with retryPending := !state.turnProgressed })
  | .autoRetryEnd | .agentSettled => ([],{ state with retryPending := false })
  | .turnStart =>
    let state := state.opened
    if (state.turns : Int) > maxTurns then
      ((if !state.aborted && hasOnAbort then [.onAbort state.turns] else []) ++ [.abort],{ state with aborted := true })
    else ([],state)
  | .other _ => ([],state)

/-- What the listener has called, latest event first. -/
def called (start : State) (events : List Event) : List Effect :=
  (answered (listener maxTurns hasOnAbort) start events).flatMap Prod.snd

end Listener

/-- What says that a turn came to something. -/
def isProgress (event : Event) : Bool := event = .toolExecutionStart || isCompleted event

/-- A reply that ended in an error. -/
def isFailure : Event → Bool
  | .messageEnd (some message) => message.role = "assistant" && message.stopReason = some "error"
  | _ => false

/-- What takes an announced retry back. -/
def isDisarming (event : Event) : Bool := event = .autoRetryEnd || event = .agentSettled || event = .turnStart

/-- The events after the last turn start, or all of them before the first. -/
def Since (before between : List Event) : Prop :=
  ∃ earlier, before = earlier ++ between ∧ (earlier = [] ∨ ∃ prior, earlier = prior ++ [.turnStart]) ∧
    .turnStart ∉ between

/-- A retry is announced, of a turn that had made no progress, and not taken back. -/
def Retried (before : List Event) : Prop :=
  ∃ until' between since, before = until' ++ .autoRetryStart :: since ∧ Since until' between ∧
    (∀ event ∈ between, isProgress event = false) ∧ ∀ event ∈ since, isDisarming event = false

/-- The session retries a turn that failed, so many times at most until a reply is completed. -/
structure RetryRule (retries : Nat) (events : List Event) : Prop where
  few : ∀ window, window <:+: events → (∀ event ∈ window, isCompleted event = false) →
    window.countP (· = .autoRetryStart) ≤ retries
  failed : ∀ before later, events = before ++ .autoRetryStart :: later →
    ∃ prior since, before = prior ++ .turnStart :: since ∧ ∃ event ∈ since, isFailure event

/-- No reply is completed between a retry's announcement and the turn it opens. -/
def RepliesInTurns (events : List Event) : Prop :=
  ∀ before between reply later, events = before ++ .autoRetryStart :: between ++ reply :: later →
    isCompleted reply → .turnStart ∈ between

def isOnAbort : Effect → Bool
  | .onAbort _ => true
  | .abort => false

private theorem attached_start {maxTurns : Int} {start : State} (ok : attachTurnBudget maxTurns = .ok start) :
    1 ≤ maxTurns ∧ start = attached := by
  unfold attachTurnBudget at ok
  split at ok
  · cases ok
  next least =>
    cases ok
    exact ⟨by omega,rfl⟩

section Counting

variable {maxTurns : Int} {hasOnAbort : Bool} {state : State}

private theorem opened_counted (state : State) :
    state.opened.turns + state.opened.retryTurns = state.turns + state.retryTurns + 1 := by
  unfold State.opened
  split
  · exact (Nat.add_assoc _ _ _).symm
  · dsimp only
    omega

private theorem listener_opened : ∃ aborted, (listener maxTurns hasOnAbort .turnStart state).2 = { state.opened with aborted := aborted } := by
  unfold listener
  dsimp only
  split
  · exact ⟨true,rfl⟩
  · exact ⟨state.opened.aborted,rfl⟩

/-- Only a turn start is counted. -/
private theorem listener_kept {event : Event} (other : event ≠ .turnStart) :
    (listener maxTurns hasOnAbort event state).1 = [] ∧
      (listener maxTurns hasOnAbort event state).2.turns = state.turns ∧
      (listener maxTurns hasOnAbort event state).2.retryTurns = state.retryTurns ∧
      (listener maxTurns hasOnAbort event state).2.aborted = state.aborted := by
  cases event with
  | turnStart => exact absurd rfl other
  | messageEnd message =>
    unfold listener
    dsimp only
    split <;> exact ⟨rfl,rfl,rfl,rfl⟩
  | _ => exact ⟨rfl,rfl,rfl,rfl⟩

private theorem starts_counted (events : List Event) :
    (after (listener maxTurns hasOnAbort) attached events).turns +
      (after (listener maxTurns hasOnAbort) attached events).retryTurns = events.countP (· = .turnStart) := by
  induction events using List.reverseRecOn with
  | nil => rfl
  | append_singleton events event ih =>
    rw [after_concat,List.countP_append,← ih,List.countP_singleton]
    by_cases start : event = .turnStart
    · obtain ⟨aborted,same⟩ := @listener_opened maxTurns hasOnAbort (after (listener maxTurns hasOnAbort) attached events)
      rw [start,same]
      exact opened_counted _
    · obtain ⟨_,turns,retryTurns,_⟩ := @listener_kept maxTurns hasOnAbort (after (listener maxTurns hasOnAbort) attached events)
        event start
      rw [turns,retryTurns,if_neg (by simpa using start)]
      rfl

end Counting

section Exemption

variable {maxTurns : Int} {hasOnAbort : Bool} {state : State} {before between : List Event} {event : Event}

private theorem since_concat (since : Since before between) (other : event ≠ .turnStart) :
    Since (before ++ [event]) (between ++ [event]) := by
  obtain ⟨earlier,rfl,ends,none'⟩ := since
  refine ⟨earlier,List.append_assoc _ _ _,ends,?_⟩
  rw [List.mem_append,List.mem_singleton,not_or]
  exact ⟨none',other.symm⟩

private theorem since_opened : Since (before ++ [.turnStart]) [] :=
  ⟨before ++ [.turnStart],(List.append_nil _).symm,.inr ⟨before,rfl⟩,List.not_mem_nil⟩

private theorem retried_concat (retried : Retried before) (keeps : isDisarming event = false) :
    Retried (before ++ [event]) := by
  obtain ⟨until',between,since,rfl,start,quiet,armed⟩ := retried
  refine ⟨until',between,since ++ [event],by simp,start,quiet,?_⟩
  intro other inside
  rcases List.mem_append.mp inside with old | new
  · exact armed other old
  · rw [List.mem_singleton.mp new]
    exact keeps

/-- What the two flags say of the events so far. -/
private structure Armed (before : List Event) (state : State) : Prop where
  pending : state.retryPending = true → Retried before
  quiet : state.turnProgressed = false → ∃ between, Since before between ∧ ∀ event ∈ between, isProgress event = false

private theorem quiet_concat (armed : Armed before state) (quiet : state.turnProgressed = false)
    (other : event ≠ .turnStart) (idle : isProgress event = false) :
    ∃ between, Since (before ++ [event]) between ∧ ∀ event ∈ between, isProgress event = false := by
  obtain ⟨between,since,none'⟩ := armed.quiet quiet
  refine ⟨between ++ [event],since_concat since other,?_⟩
  intro later inside
  rcases List.mem_append.mp inside with old | new
  · exact none' later old
  · rw [List.mem_singleton.mp new]
    exact idle

private theorem listener_armed (armed : Armed before state) (event : Event) :
    Armed (before ++ [event]) (listener maxTurns hasOnAbort event state).2 := by
  cases event with
  | toolExecutionStart =>
    exact ⟨fun pending => retried_concat (armed.pending pending) rfl,fun quiet => (nomatch quiet)⟩
  | messageEnd message =>
    unfold listener
    dsimp only
    split
    · exact ⟨fun pending => retried_concat (armed.pending pending) rfl,fun quiet => (nomatch quiet)⟩
    next open' =>
      refine ⟨fun pending => retried_concat (armed.pending pending) rfl,fun quiet => ?_⟩
      exact quiet_concat armed quiet (by simp) (by simpa [isProgress] using open')
  | autoRetryStart =>
    refine ⟨fun pending => ?_,fun quiet => quiet_concat armed quiet (by simp) rfl⟩
    have idle : state.turnProgressed = false := by simpa [listener] using pending
    obtain ⟨between,since,none'⟩ := armed.quiet idle
    exact ⟨before,between,[],rfl,since,none',fun _ inside => absurd inside List.not_mem_nil⟩
  | autoRetryEnd | agentSettled =>
    exact ⟨fun pending => (nomatch pending),fun quiet => quiet_concat armed quiet (by simp) rfl⟩
  | turnStart =>
    obtain ⟨aborted,same⟩ := @listener_opened maxTurns hasOnAbort state
    rw [same]
    refine ⟨fun pending => ?_,fun _ => ⟨[],since_opened,fun _ inside => absurd inside List.not_mem_nil⟩⟩
    unfold State.opened at pending
    split at pending
    · cases pending
    next idle => exact absurd pending idle
  | other =>
    exact ⟨fun pending => retried_concat (armed.pending pending) rfl,fun quiet => quiet_concat armed quiet (by simp) rfl⟩

private theorem events_armed (events : List Event) : Armed events (after (listener maxTurns hasOnAbort) attached events) := by
  induction events using List.reverseRecOn with
  | nil => exact ⟨fun pending => (nomatch pending),fun _ =>
      ⟨[],⟨[],rfl,.inl rfl,List.not_mem_nil⟩,fun _ inside => absurd inside List.not_mem_nil⟩⟩
  | append_singleton events event ih =>
    rw [after_concat]
    exact listener_armed ih event

/-- A turn start that is let go opens a retry. -/
private theorem exempt_pending
    (exempt : (listener maxTurns hasOnAbort .turnStart state).2.retryTurns ≠ state.retryTurns) : state.retryPending = true := by
  obtain ⟨aborted,same⟩ := @listener_opened maxTurns hasOnAbort state
  rw [same] at exempt
  unfold State.opened at exempt
  split at exempt
  next pending => exact pending
  · exact absurd rfl exempt

end Exemption

section Stopping

variable {maxTurns : Int} {hasOnAbort : Bool} {state : State}

private theorem listener_aborts :
    .abort ∈ (listener maxTurns hasOnAbort .turnStart state).1 ↔
      maxTurns < (listener maxTurns hasOnAbort .turnStart state).2.turns := by
  unfold listener
  dsimp only
  split
  next past => exact ⟨fun _ => past,fun _ => List.mem_append_right _ (List.mem_singleton.mpr rfl)⟩
  next within => exact ⟨fun inside => absurd inside List.not_mem_nil,fun past => absurd past within⟩

private theorem called_concat (start : State) (events : List Event) (event : Event) :
    called maxTurns hasOnAbort start (events ++ [event]) =
      (listener maxTurns hasOnAbort event (after (listener maxTurns hasOnAbort) start events)).1 ++
        called maxTurns hasOnAbort start events := by
  unfold called
  rw [answered_concat,List.flatMap_cons]

private theorem opened_turns : state.turns ≤ state.opened.turns := by
  unfold State.opened
  split
  · exact Nat.le_refl _
  · exact Nat.le_succ _

private theorem opened_aborted : state.opened.aborted = state.aborted := by
  unfold State.opened
  split <;> rfl

/-- The log line has been written if the run was aborted, once. -/
private structure Stopped (maxTurns : Int) (hasOnAbort : Bool) (state : State) (called : List Effect) : Prop where
  aborted : state.aborted = true ↔ maxTurns < state.turns
  reported : called.countP isOnAbort = if hasOnAbort = true ∧ maxTurns < state.turns then 1 else 0

private theorem opened_stopped {past : List Effect} (stopped : Stopped maxTurns hasOnAbort state past) :
    Stopped maxTurns hasOnAbort (listener maxTurns hasOnAbort .turnStart state).2
      ((listener maxTurns hasOnAbort .turnStart state).1 ++ past) := by
  have more : (state.turns : Int) ≤ state.opened.turns := Int.ofNat_le.mpr opened_turns
  unfold listener
  dsimp only
  split
  next over' =>
    have over' : maxTurns < state.opened.turns := over'
    refine ⟨⟨fun _ => over',fun _ => rfl⟩,?_⟩
    rw [List.countP_append,List.countP_append,stopped.reported,opened_aborted]
    cases was : state.aborted with
    | true =>
      have before := stopped.aborted.mp was
      simp [before,over',isOnAbort]
    | false =>
      have before : ¬maxTurns < state.turns := fun past => absurd (stopped.aborted.mpr past) (by simp [was])
      cases hasOnAbort <;> simp [before,over',isOnAbort]
  next within =>
    have within : ¬maxTurns < state.opened.turns := within
    have before : ¬maxTurns < state.turns := by omega
    refine ⟨?_,?_⟩
    · rw [opened_aborted,stopped.aborted]
      exact ⟨fun past => absurd past before,fun past => absurd past within⟩
    · rw [List.nil_append,stopped.reported,if_neg (fun both => before both.2),if_neg (fun both => within both.2)]

private theorem events_stopped (least : 1 ≤ maxTurns) (events : List Event) :
    Stopped maxTurns hasOnAbort (after (listener maxTurns hasOnAbort) attached events)
      (called maxTurns hasOnAbort attached events) := by
  induction events using List.reverseRecOn with
  | nil =>
    have within : ¬maxTurns < ((attached.turns : Nat) : Int) := by
      change ¬maxTurns < 0
      omega
    exact ⟨⟨fun aborted => (nomatch aborted),fun past => absurd past within⟩,(if_neg fun both => within both.2).symm⟩
  | append_singleton events event ih =>
    rw [after_concat,called_concat]
    by_cases start : event = .turnStart
    · rw [start]
      exact opened_stopped ih
    · obtain ⟨nothing,turns,_,aborted⟩ := @listener_kept maxTurns hasOnAbort (after (listener maxTurns hasOnAbort) attached events)
        event start
      constructor
      · rw [aborted,turns]
        exact ih.aborted
      · rw [nothing,turns]
        exact ih.reported

end Stopping

section Bound

variable {maxTurns : Int} {hasOnAbort : Bool} {state : State} {retries : Nat} {events more : List Event} {event : Event}

private theorem RetryRule.before (rule : RetryRule retries (events ++ more)) : RetryRule retries events := by
  constructor
  · intro window inside
    exact rule.few window (inside.trans (List.prefix_append events more).isInfix)
  · rintro before later rfl
    exact rule.failed before (later ++ more) (by simp)

private theorem replies_before (replies : RepliesInTurns (events ++ more)) : RepliesInTurns events := by
  rintro before between reply later rfl
  exact replies before between reply (later ++ more) (by simp)

/-- The retries announced since a reply was last completed. -/
private def announced (events : List Event) : Nat :=
  (events.rtakeWhile fun event => !isCompleted event).countP (· = .autoRetryStart)

private theorem announced_few (rule : RetryRule retries events) : announced events ≤ retries := by
  refine rule.few _ (List.rtakeWhile_suffix _ _).isInfix ?_
  intro event inside
  have own := List.mem_rtakeWhile_imp inside
  simpa using own

private theorem announced_concat (open' : isCompleted event = false) :
    announced (events ++ [event]) = announced events + if event = .autoRetryStart then 1 else 0 := by
  unfold announced
  rw [List.rtakeWhile_concat_pos _ _ _ (by simp [open']),List.countP_append,List.countP_singleton]
  simp

private theorem announced_completed (completed : isCompleted event = true) : announced (events ++ [event]) = 0 := by
  unfold announced
  rw [List.rtakeWhile_concat_neg _ _ _ (by simp [completed])]
  rfl

/-- How far the counts have come since a reply was last completed, when they stood at `turns` and `retried`. -/
private structure Streak (retries : Nat) (events : List Event) (state : State) (turns retried : Nat) : Prop where
  settled : retried ≤ turns * retries
  charged : state.retryTurns + (if state.retryPending then 1 else 0) ≤ retried + announced events
  begun : retried < state.retryTurns ∨ state.retryPending = true → turns < state.turns
  quiet : state.turnProgressed = false → .turnStart ∈ events → turns < state.turns
  least : turns ≤ state.turns

private theorem Streak.bounded {turns retried : Nat} (streak : Streak retries events state turns retried)
    (rule : RetryRule retries events) : state.retryTurns ≤ state.turns * retries := by
  have few := announced_few rule
  have charged := streak.charged
  have settled := streak.settled
  by_cases grown : retried < state.retryTurns
  · have one := Nat.mul_le_mul_right retries (Nat.succ_le_of_lt (streak.begun (.inl grown)))
    rw [Nat.succ_mul] at one
    omega
  · have same := Nat.mul_le_mul_right retries streak.least
    omega

/-- What leaves the counts alone, and arms no retry, leaves the streak. -/
private theorem Streak.kept {turns retried : Nat} (streak : Streak retries events state turns retried) {next : State}
    (open' : isCompleted event = false) (other : event ≠ .turnStart) (same : next.turns = state.turns)
    (same' : next.retryTurns = state.retryTurns) (armed : next.retryPending = true → state.retryPending = true)
    (quiet : next.turnProgressed = false → state.turnProgressed = false) :
    Streak retries (events ++ [event]) next turns retried := by
  have charged := streak.charged
  refine ⟨streak.settled,?_,?_,?_,?_⟩
  · rw [announced_concat open',same']
    have less : (if next.retryPending then 1 else 0) ≤ if state.retryPending then 1 else 0 := by
      split
      next pending => rw [if_pos (armed pending)]
      · exact Nat.zero_le _
    omega
  · rw [same,same']
    exact fun begun => streak.begun (begun.imp_right armed)
  · intro idle started
    rw [same]
    refine streak.quiet (quiet idle) ?_
    rcases List.mem_append.mp started with old | new
    · exact old
    · exact absurd (List.mem_singleton.mp new).symm other
  · rw [same]
    exact streak.least

private theorem listener_streak {turns retried : Nat} (rule : RetryRule retries (events ++ [event]))
    (replies : RepliesInTurns (events ++ [event])) (armed : Armed events state)
    (streak : Streak retries events state turns retried) :
    ∃ turns retried, Streak retries (events ++ [event]) (listener maxTurns hasOnAbort event state).2 turns retried := by
  cases event with
  | toolExecutionStart => exact ⟨turns,retried,streak.kept rfl (by simp) rfl rfl id fun idle => (nomatch idle)⟩
  | messageEnd message =>
    unfold listener
    dsimp only
    split
    next completed =>
      have calm : state.retryPending = false := by
        by_contra pending
        obtain ⟨until',_,since,same,_,_,none'⟩ := armed.pending (by simpa using pending)
        have inside := replies until' since (.messageEnd message) [] (by rw [same]) completed
        exact absurd (none' _ inside) (by decide)
      refine ⟨state.turns,state.retryTurns,streak.bounded rule.before,?_,?_,fun idle => (nomatch idle),Nat.le_refl _⟩
      · rw [announced_completed completed,calm]
        exact Nat.le_refl _
      · rintro (less | pending)
        · exact absurd less (Nat.lt_irrefl _)
        · rw [calm] at pending
          cases pending
    next open' => exact ⟨turns,retried,streak.kept (by simpa using open') (by simp) rfl rfl id id⟩
  | autoRetryStart =>
    obtain ⟨prior,since,same,_⟩ := rule.failed events [] rfl
    have started : .turnStart ∈ events := by
      rw [same]
      simp
    have charged := streak.charged
    refine ⟨turns,retried,streak.settled,?_,?_,fun idle _ => streak.quiet idle started,streak.least⟩
    · rw [announced_concat rfl,if_pos rfl]
      have most : (if (listener maxTurns hasOnAbort .autoRetryStart state).2.retryPending then 1 else 0) ≤ 1 := by
        split <;> omega
      change state.retryTurns + _ ≤ _
      omega
    · rintro (less | pending)
      · exact streak.begun (.inl less)
      · exact streak.quiet (by simpa [listener] using pending) started
  | autoRetryEnd | agentSettled => exact ⟨turns,retried,streak.kept rfl (by simp) rfl rfl (fun pending => (nomatch pending)) id⟩
  | turnStart =>
    obtain ⟨aborted,same⟩ := @listener_opened maxTurns hasOnAbort state
    have charged := streak.charged
    have least := streak.least
    rw [same]
    refine ⟨turns,retried,?_⟩
    unfold State.opened
    split
    next pending =>
      have begun := streak.begun (.inr pending)
      rw [if_pos pending] at charged
      refine ⟨streak.settled,?_,fun _ => begun,fun _ _ => begun,least⟩
      rw [announced_concat rfl]
      exact charged.trans (Nat.add_le_add_left (Nat.le_add_right _ _) _)
    next idle =>
      have grown : turns < state.turns + 1 := by omega
      refine ⟨streak.settled,?_,fun _ => grown,fun _ _ => grown,grown.le⟩
      rw [announced_concat rfl]
      exact charged.trans (Nat.add_le_add_left (Nat.le_add_right _ _) _)
  | other => exact ⟨turns,retried,streak.kept rfl (by simp) rfl rfl id id⟩

private theorem events_streak (rule : RetryRule retries events) (replies : RepliesInTurns events) :
    ∃ turns retried, Streak retries events (after (listener maxTurns hasOnAbort) attached events) turns retried := by
  induction events using List.reverseRecOn with
  | nil =>
    refine ⟨0,0,Nat.zero_le _,Nat.le_refl _,?_,fun _ inside => absurd inside List.not_mem_nil,Nat.le_refl _⟩
    rintro (less | pending)
    · exact absurd less (Nat.lt_irrefl _)
    · cases pending
  | append_singleton events event ih =>
    obtain ⟨turns,retried,streak⟩ := ih rule.before (replies_before replies)
    rw [after_concat]
    exact listener_streak rule replies (events_armed events) streak

end Bound

/-- Each turn start is counted or let go, only a retry is let go, every turn start past the cap aborts, and a session that
retries failed turns so many times each has no more retries than that for each turn of the cap. -/
theorem turns_capped {maxTurns : Int} {start : State} (attaches : attachTurnBudget maxTurns = .ok start) (hasOnAbort : Bool)
    (events : List Event) :
    let reached := after (listener maxTurns hasOnAbort) start
    (reached events).turns + (reached events).retryTurns = events.countP (· = .turnStart) ∧
      (∀ before, before ++ [.turnStart] <+: events →
        ((reached (before ++ [.turnStart])).retryTurns ≠ (reached before).retryTurns → Retried before) ∧
        (.abort ∈ (listener maxTurns hasOnAbort .turnStart (reached before)).1 ↔
          maxTurns < (reached (before ++ [.turnStart])).turns)) ∧
      (called maxTurns hasOnAbort start events).countP isOnAbort =
        (if hasOnAbort = true ∧ maxTurns < (reached events).turns then 1 else 0) ∧
      ∀ retries, RetryRule retries events → RepliesInTurns events → ∀ before, before <+: events →
        (reached before).turns ≤ maxTurns → ((reached before).retryTurns : Int) ≤ maxTurns * retries := by
  obtain ⟨least,rfl⟩ := attached_start attaches
  refine ⟨starts_counted events,?_,(events_stopped least events).reported,?_⟩
  · intro before _
    rw [after_concat]
    exact ⟨fun exempt => (events_armed before).pending (exempt_pending exempt),listener_aborts⟩
  · rintro retries rule replies before ⟨more,rfl⟩ within
    obtain ⟨turns,retried,streak⟩ := @events_streak maxTurns hasOnAbort retries before rule.before (replies_before replies)
    have few := streak.bounded rule.before
    calc ((after (listener maxTurns hasOnAbort) attached before).retryTurns : Int)
        ≤ ((after (listener maxTurns hasOnAbort) attached before).turns * retries : Nat) := Int.ofNat_le.mpr few
      _ = ((after (listener maxTurns hasOnAbort) attached before).turns : Int) * retries := Int.natCast_mul _ _
      _ ≤ maxTurns * retries := Int.mul_le_mul_of_nonneg_right within (Int.natCast_nonneg _)

section Samples

def failed : Event := .messageEnd (some ⟨"assistant",some "error"⟩)

def answered' : Event := .messageEnd (some ⟨"assistant",some "stop"⟩)

theorem turns_capped_at_one :
    (after (listener 1 true) attached [.turnStart,failed,.autoRetryStart,.turnStart,.turnStart]).turns +
      (after (listener 1 true) attached [.turnStart,failed,.autoRetryStart,.turnStart,.turnStart]).retryTurns = 3 :=
  (turns_capped (rfl : attachTurnBudget 1 = .ok attached) true [.turnStart,failed,.autoRetryStart,.turnStart,.turnStart]).1

/-- Replies that are completed between a retry's announcement and its turn. -/
def lateReplies : List Event :=
  [.turnStart,failed,.autoRetryStart,answered',.turnStart,failed,.autoRetryStart,answered',.turnStart]

private theorem lateReplies_rule : RetryRule 1 lateReplies := by
  constructor
  · intro window inside open'
    obtain ⟨tail,front,back⟩ := List.infix_iff_prefix_suffix.mp inside
    have each : ∀ tail ∈ lateReplies.tails, ∀ window ∈ tail.inits, (∀ event ∈ window, isCompleted event = false) →
        window.countP (· = .autoRetryStart) ≤ 1 := by decide
    exact each tail ((List.mem_tails _ _).mpr back) window ((List.mem_inits _ _).mpr front) open'
  · intro before later same
    match before with
    | [] => exact absurd (List.cons.inj same).1 (by decide)
    | [_] => exact absurd (List.cons.inj (List.cons.inj same).2).1 (by decide)
    | first :: second :: rest =>
      obtain ⟨first',same⟩ := List.cons.inj same
      obtain ⟨second',_⟩ := List.cons.inj same
      exact ⟨[],second :: rest,by rw [← first']; rfl,second,List.mem_cons_self,by rw [← second']; rfl⟩

/-- A retry announced before any turn start lets the first one go, and replies that are completed before the turns that
their retries open let any number go. -/
theorem late_replies_let_go :
    ((after (listener 1 true) attached [.autoRetryStart,.turnStart]).retryTurns = 1 ∧ .turnStart ∉ [Event.autoRetryStart]) ∧
      RetryRule 1 lateReplies ∧ (after (listener 1 true) attached lateReplies).turns ≤ 1 ∧
      1 * 1 < (after (listener 1 true) attached lateReplies).retryTurns :=
  ⟨⟨rfl,by decide⟩,lateReplies_rule,by decide,by decide⟩

end Samples

end PiDispatch.TurnBudget
