import PiDispatch.CostGuard
import PiDispatch.Kernel.Machine

/-! A job's dollar cap over runs: calls that the two wrappers judge, nested in one another's dispatch, their payload
hooks at any later moment and their answers in any order. What is in flight is what the open tickets hold, each ticket
is charged once, and no call goes through beyond the cap. -/
namespace PiDispatch.UsageMeter
open Kernel Payload CostGuard

/-- The sum of the bounds of the tickets that have not settled. -/
def unsettled (tickets : List Ticket) : Int :=
  ((tickets.filter fun ticket => !ticket.settled).map fun ticket => (ticket.bound : Int)).sum

def CostGuard.Settled (guard : CostGuard) (place : Nat) : Prop :=
  ∃ ticket, guard.tickets[place]? = some ticket ∧ ticket.settled = true

/-- The charges made on a ticket. -/
def CostGuard.chargesOf (guard : CostGuard) (place : Nat) : List Charge :=
  guard.charges.filter fun charge => charge.ticket = place

/-- Whether a charge must cover its bound: for want of a price, for a failure after content, or for broken usage. -/
def Charge.Floored (charge : Charge) : Prop :=
  priced charge.message = none ∨ ∃ message, charge.message = some message ∧
    ((message.failed = true ∧ started message = true) ∨
      (message.failed = false ∧ unreportedUsage message charge.model.api = true))

variable {Context Options : Type}

/-- The sum that the cap bounds. -/
def CostPolicy.Fits (policy : CostPolicy Context Options) (external : Option (Option Rat)) (guard : CostGuard) : Prop :=
  ∃ outside, externalMicros external = some outside ∧
    ((guard.spent + guard.inflight : Int) : Rat) + outside ≤ policy.capMicros

/-- A call whose dispatch has returned, with the ticket that its answer settles. -/
structure Returned where
  call : Nat
  answer : Answer
  caught : Option Nat

/-- A job's guard, its meter's stop, the calls it prepared, those whose dispatch has not returned, the innermost first,
and those that have returned. -/
structure Job (Context Options : Type) where
  guard : CostGuard
  stopped : Option Stop
  prepared : List (Ask Context Options)
  frames : List Nat
  returned : List Returned

inductive Move (Context Options : Type)
  | call (ask : Ask Context Options) (pinned : Option (Option Pinned))
  | returns (answer : Answer)
  | payload (place : Nat) (payload next : Value)
  | settles (entry : Returned) (settlement : Settlement)
  | stops (reason : Stop)
  | unjudged (count : Nat)
  | snapshot

inductive Reply
  | through
  | refused
  | done
  deriving DecidableEq

variable (policy : CostPolicy Context Options) (external : Option (Option Rat))

/-- One step of a job, as `judge`, the wrappers around it and the prepared hooks take it. -/
def Job.step (move : Move Context Options) (job : Job Context Options) : Reply × Job Context Options :=
  match move with
  | .call ask pinned =>
    if job.stopped.isSome = true then (.refused,job)
    else match admitCall policy job.guard external ask pinned with
      | (guard,some reason) => (.refused,{ job with guard := guard, stopped := some reason })
      | (guard,none) => (.through,{ job with
          guard := guard
          prepared := job.prepared ++ [ask]
          frames := job.prepared.length :: job.frames })
  | .returns answer =>
    match job.frames with
    | [] => (.done,job)
    | place :: frames =>
      let (guard,caught) := job.guard.bind answer
      (.done,{ job with guard := guard, frames := frames, returned := ⟨place,answer,caught⟩ :: job.returned })
  | .payload place payload next =>
    match job.prepared[place]? with
    | none => (.done,job)
    | some ask => match job.guard.onPayload policy external place ask payload next with
      | (guard,some _) => (.through,{ job with guard := guard })
      | (guard,none) => (.refused,{ job with guard := guard, stopped := job.stopped.or (some .costCap) })
  | .settles entry settlement =>
    let returned :=
      if job.guard.opens entry.call entry.answer settlement = true then
        { entry with answer := .stream } :: job.returned
      else job.returned
    (.done,{ job with
      returned := returned
      guard := match entry.caught with
        | some place => job.guard.answered place entry.answer settlement
        | none => job.guard })
  | .stops reason => (.done,{ job with stopped := job.stopped.or (some reason) })
  | .unjudged count => (.done,{ job with guard := { job.guard with unjudged := job.guard.unjudged + count } })
  | .snapshot => (.done,{ job with guard := job.guard.flushPending })

/-- Only an answer that was given settles. -/
def Move.Allowed (move : Move Context Options) (job : Job Context Options) : Prop :=
  match move with
  | .settles entry _ => entry ∈ job.returned
  | _ => True

def Job.initial : Job Context Options := ⟨.initial,none,[],[],[]⟩

/-! What one operation of the guard does. -/

/-- The counters of a guard agree with its tickets and its charges. -/
structure CostGuard.Sound (policy : CostPolicy Context Options) (guard : CostGuard) : Prop where
  inflight : guard.inflight = unsettled guard.tickets
  spent : guard.spent = (guard.charges.map fun charge => (charge.charged : Int)).sum
  once : ∀ place, (guard.chargesOf place).length =
    if (guard.tickets[place]?).map Ticket.settled = some true then 1 else 0
  made : ∀ charge ∈ guard.charges, (∃ stream,
    guard.tickets[charge.ticket]? = some ⟨charge.bound,charge.model,stream,true⟩) ∧
    (charge.Floored → charge.bound ≤ charge.charged)
  capped : guard.boundExceeded = 0 → guard.spent + guard.inflight ≤ policy.capMicros

/-- Nothing that has settled opens again, and nothing spent comes back. -/
structure Onward (guard next : CostGuard) : Prop where
  settled : ∀ place, guard.Settled place → next.Settled place
  spent : guard.spent ≤ next.spent
  tickets : guard.tickets.length ≤ next.tickets.length

private theorem unsettled_set (tickets : List Ticket) (place : Nat) (ticket put : Ticket)
    (held : tickets[place]? = some ticket) :
    unsettled (tickets.set place put) = unsettled tickets - (if ticket.settled = true then 0 else (ticket.bound : Int)) +
      (if put.settled = true then 0 else (put.bound : Int)) := by
  induction tickets generalizing place with
  | nil => cases held
  | cons first rest ih =>
    cases place with
    | zero =>
      cases held
      unfold unsettled
      cases same : ticket.settled <;> cases next : put.settled <;> simp [same,next] <;> omega
    | succ place =>
      have later := ih place held
      unfold unsettled at later ⊢
      cases same : first.settled <;> simp only [List.set_cons_succ,List.filter_cons,same] <;> simp at later ⊢ <;> omega

private theorem unsettled_append (tickets : List Ticket) (bound : Nat) (model : Model) (stream : Bool) :
    unsettled (tickets ++ [⟨bound,model,stream,false⟩]) = unsettled tickets + bound := by
  unfold unsettled
  simp

private theorem charge_floor {model : Model} {bound : Nat} {message : Message} {usage : Usage} {cost : UsageCost}
    {price : Rat}
    (floored : (message.failed = true ∧ started message = true) ∨
      (message.failed = false ∧ unreportedUsage message model.api = true)) :
    bound ≤ charge model bound message usage cost price := by
  have lifted : ¬(message.failed = true ∧ started message = false) := by
    rcases floored with ⟨_,content⟩ | ⟨fine,_⟩
    · simp [content]
    · simp [fine]
  have broken : message.failed = true ∨ unreportedUsage message model.api = true := by
    rcases floored with ⟨failed,_⟩ | ⟨_,broken⟩
    · exact .inl failed
    · exact .inr broken
  unfold charge
  dsimp only
  rw [if_neg lifted,if_pos broken]
  split <;> omega

private theorem priced_message {message : Option Message} {answer : Message} {usage : Usage} {cost : UsageCost}
    {price : Rat} (known : priced message = some (answer,usage,cost,price)) : message = some answer := by
  unfold priced at known
  cases message with
  | none => cases known
  | some held =>
    simp only [Option.bind_eq_bind,Option.bind_some,Option.bind_eq_some_iff,Option.pure_def,Option.some.injEq,
      Prod.mk.injEq] at known
    obtain ⟨_,_,_,_,_,_,same,_⟩ := known
    rw [same]

/-- A settle of an open ticket: it leaves what is in flight and is charged, and nothing else changes but counters. -/
structure Settles (guard next : CostGuard) (place : Nat) (ticket : Ticket) (message : Option Message) (charged : Nat) :
    Prop where
  tickets : next.tickets = guard.tickets.set place { ticket with settled := true }
  inflight : next.inflight = guard.inflight - ticket.bound
  spent : next.spent = guard.spent + charged
  charges : next.charges = ⟨place,ticket.model,ticket.bound,message,charged⟩ :: guard.charges
  pending : next.pending = guard.pending
  floored : Charge.Floored ⟨place,ticket.model,ticket.bound,message,charged⟩ → ticket.bound ≤ charged
  exceeded : next.boundExceeded = guard.boundExceeded + if ticket.bound < charged then 1 else 0

private theorem settle_open {guard : CostGuard} {place : Nat} {ticket : Ticket} (message : Option Message)
    (held : guard.tickets[place]? = some ticket) (unsettled : ticket.settled = false) :
    ∃ charged, Settles guard (guard.settle place message) place ticket message charged := by
  unfold settle
  simp only [held,unsettled,Bool.false_eq_true,if_false]
  split
  next unknown =>
    refine ⟨ticket.bound,rfl,rfl,rfl,rfl,rfl,fun _ => Nat.le_refl _,?_⟩
    simp
  next answer usage cost price known =>
    refine ⟨charge ticket.model ticket.bound answer usage cost price,rfl,rfl,rfl,rfl,rfl,?_,rfl⟩
    rintro (unknown | ⟨message',same,floored⟩)
    · dsimp only at unknown
      rw [unknown] at known
      cases known
    · have own := priced_message known
      dsimp only at same floored
      rw [own] at same
      cases same
      exact charge_floor floored

private theorem settle_closed {guard : CostGuard} {place : Nat} (message : Option Message)
    (closed : ∀ ticket, guard.tickets[place]? = some ticket → ticket.settled = true) :
    guard.settle place message = guard := by
  unfold settle
  split
  next => rfl
  next ticket held => rw [if_pos (closed ticket held)]

private theorem set_settled {tickets : List Ticket} {place : Nat} {ticket : Ticket} (held : tickets[place]? = some ticket)
    (other : Nat) : ((tickets.set place { ticket with settled := true })[other]?).map Ticket.settled =
      if other = place then some true else (tickets[other]?).map Ticket.settled := by
  rw [List.getElem?_set]
  have inside : place < tickets.length := (List.getElem?_eq_some_iff.mp held).1
  by_cases same : place = other
  · subst same
    simp [inside]
  · rw [if_neg same,if_neg (Ne.symm same)]

private theorem settles_sound {guard next : CostGuard} {place : Nat} {ticket : Ticket} {message : Option Message}
    {charged : Nat} (sound : guard.Sound policy) (held : guard.tickets[place]? = some ticket)
    (unsettled' : ticket.settled = false) (step : Settles guard next place ticket message charged) :
    next.Sound policy where
  inflight := by
    rw [step.inflight,step.tickets,unsettled_set _ _ _ _ held,sound.inflight]
    simp [unsettled']
  spent := by
    rw [step.spent,step.charges,sound.spent]
    simp only [List.map_cons,List.sum_cons]
    omega
  once other := by
    have before := sound.once other
    unfold chargesOf at before ⊢
    rw [step.charges,step.tickets,set_settled held,List.filter_cons]
    dsimp only
    by_cases same : other = place
    · subst same
      rw [held] at before
      simp only [Option.map_some,unsettled'] at before
      simpa using before
    · rw [if_neg same,if_neg (by simpa using Ne.symm same)]
      exact before
  made charge inside := by
    rw [step.charges] at inside
    rw [step.tickets]
    have within : place < guard.tickets.length := (List.getElem?_eq_some_iff.mp held).1
    rcases List.mem_cons.mp inside with rfl | inside
    · refine ⟨⟨ticket.stream,?_⟩,step.floored⟩
      rw [List.getElem?_set,if_pos rfl,if_pos within]
    · obtain ⟨⟨stream,found⟩,floored⟩ := sound.made charge inside
      refine ⟨⟨stream,?_⟩,floored⟩
      have other : place ≠ charge.ticket := by
        intro same
        rw [← same,held] at found
        cases found
        cases unsettled'
      rw [List.getElem?_set,if_neg other]
      exact found
  capped none' := by
    rw [step.exceeded] at none'
    rw [step.spent,step.inflight]
    have before := sound.capped (by omega)
    have kept : charged ≤ ticket.bound := by
      by_contra more
      rw [if_pos (by omega)] at none'
      omega
    omega

private theorem settle_sound {guard : CostGuard} (sound : guard.Sound policy) (place : Nat) (message : Option Message) :
    (guard.settle place message).Sound policy := by
  by_cases closed : ∀ ticket, guard.tickets[place]? = some ticket → ticket.settled = true
  · rw [settle_closed message closed]
    exact sound
  · push Not at closed
    obtain ⟨ticket,held,unsettled⟩ := closed
    have unsettled : ticket.settled = false := by simpa using unsettled
    obtain ⟨charged,step⟩ := settle_open message held unsettled
    exact settles_sound policy sound held unsettled step

theorem Onward.rfl (guard : CostGuard) : Onward guard guard := ⟨fun _ => id,le_refl _,Nat.le_refl _⟩

theorem Onward.trans {guard next last : CostGuard} (first : Onward guard next) (second : Onward next last) :
    Onward guard last where
  settled place own := second.settled place (first.settled place own)
  spent := le_trans first.spent second.spent
  tickets := Nat.le_trans first.tickets second.tickets

theorem settle_onward (guard : CostGuard) (place : Nat) (message : Option Message) :
    Onward guard (guard.settle place message) := by
  by_cases closed : ∀ ticket, guard.tickets[place]? = some ticket → ticket.settled = true
  · rw [settle_closed message closed]
    exact .rfl guard
  · push Not at closed
    obtain ⟨ticket,held,unsettled⟩ := closed
    have unsettled : ticket.settled = false := by simpa using unsettled
    obtain ⟨charged,step⟩ := settle_open message held unsettled
    refine ⟨?_,?_,?_⟩
    · rintro other ⟨found,there,own⟩
      unfold CostGuard.Settled
      rw [step.tickets]
      have same := set_settled held other
      rw [there,Option.map_some,own,ite_self] at same
      obtain ⟨ticket',at',settled'⟩ := Option.map_eq_some_iff.mp same
      exact ⟨ticket',at',settled'⟩
    · rw [step.spent]
      omega
    · rw [step.tickets,List.length_set]

private theorem settle_settled {guard : CostGuard} {place : Nat} (message : Option Message)
    (inside : place < guard.tickets.length) : (guard.settle place message).Settled place := by
  have held : guard.tickets[place]? = some guard.tickets[place] := List.getElem?_eq_getElem inside
  by_cases settled : guard.tickets[place].settled = true
  · exact (settle_onward guard place message).settled place ⟨_,held,settled⟩
  · have unsettled : guard.tickets[place].settled = false := by simpa using settled
    obtain ⟨charged,step⟩ := settle_open message held unsettled
    refine ⟨{ guard.tickets[place] with settled := true },?_,rfl⟩
    rw [step.tickets,List.getElem?_set,if_pos rfl,if_pos inside]

private theorem settle_tickets (guard : CostGuard) (place : Nat) (message : Option Message) :
    (guard.settle place message).tickets.length = guard.tickets.length ∧
      (guard.settle place message).pending = guard.pending := by
  by_cases closed : ∀ ticket, guard.tickets[place]? = some ticket → ticket.settled = true
  · rw [settle_closed message closed]
    exact ⟨rfl,rfl⟩
  · push Not at closed
    obtain ⟨ticket,held,unsettled⟩ := closed
    have unsettled : ticket.settled = false := by simpa using unsettled
    obtain ⟨charged,step⟩ := settle_open message held unsettled
    rw [step.tickets,step.pending,List.length_set]
    exact ⟨rfl,rfl⟩

/-- A change of the counters that no invariant speaks of. -/
private theorem sound_of_same {guard next : CostGuard} (sound : guard.Sound policy)
    (tickets : next.tickets = guard.tickets) (inflight : next.inflight = guard.inflight) (spent : next.spent = guard.spent)
    (charges : next.charges = guard.charges) (exceeded : next.boundExceeded = guard.boundExceeded) :
    next.Sound policy := by
  have made := sound.made
  have once := sound.once
  unfold chargesOf at once
  refine ⟨?_,?_,?_,?_,?_⟩
  · rw [inflight,tickets,sound.inflight]
  · rw [spent,charges,sound.spent]
  · unfold chargesOf
    rw [charges,tickets]
    exact once
  · rw [charges,tickets]
    exact made
  · rw [exceeded,spent,inflight]
    exact sound.capped

private theorem onward_of_same {guard next : CostGuard} (tickets : next.tickets = guard.tickets)
    (spent : next.spent = guard.spent) : Onward guard next := by
  refine ⟨fun place own => ?_,spent.ge,?_⟩
  · unfold CostGuard.Settled
    rw [tickets]
    exact own
  · rw [tickets]

theorem flushPending_sound {guard : CostGuard} (sound : guard.Sound policy) : guard.flushPending.Sound policy := by
  unfold flushPending
  split
  next => exact sound
  next place held =>
    have cleared : CostGuard.Sound policy { guard with pending := none } :=
      sound_of_same policy sound rfl rfl rfl rfl rfl
    exact settle_sound policy cleared place none

theorem flushPending_onward (guard : CostGuard) : Onward guard guard.flushPending := by
  unfold flushPending
  split
  next => exact .rfl guard
  next place held =>
    have cleared : Onward guard { guard with pending := none } := onward_of_same rfl rfl
    exact cleared.trans (settle_onward _ _ _)

theorem flushPending_flushed {guard : CostGuard} (within : ∀ place, guard.pending = some place → place < guard.tickets.length) :
    guard.flushPending.pending = none ∧ guard.flushPending.tickets.length = guard.tickets.length ∧
      ∀ place, guard.pending = some place → guard.flushPending.Settled place := by
  unfold flushPending
  split
  next empty =>
    refine ⟨empty,rfl,fun place own => ?_⟩
    rw [empty] at own
    cases own
  next place held =>
    obtain ⟨length,pending⟩ := settle_tickets { guard with pending := none } place none
    refine ⟨pending,length,fun other own => ?_⟩
    rw [held] at own
    cases own
    exact settle_settled none (within place held)

theorem admitCall_refused {guard next : CostGuard} {ask : Ask Context Options} {pinned : Option (Option Pinned)}
    {reason : Stop} (refused : admitCall policy guard external ask pinned = (next,some reason)) :
    next.tickets = guard.flushPending.tickets ∧ next.inflight = guard.flushPending.inflight ∧
      next.spent = guard.flushPending.spent ∧ next.charges = guard.flushPending.charges ∧
      next.boundExceeded = guard.flushPending.boundExceeded ∧ next.pending = guard.flushPending.pending := by
  unfold admitCall at refused
  dsimp only at refused
  split at refused
  · cases refused
    exact ⟨rfl,rfl,rfl,rfl,rfl,rfl⟩
  · split at refused
    · cases refused
      exact ⟨rfl,rfl,rfl,rfl,rfl,rfl⟩
    · split at refused
      · cases refused
        exact ⟨rfl,rfl,rfl,rfl,rfl,rfl⟩
      · cases refused

/-- A call is let through on a bound that fits under the cap with all that is spent and in flight. -/
theorem admitCall_through {guard next : CostGuard} {ask : Ask Context Options} {pinned : Option (Option Pinned)}
    (through : admitCall policy guard external ask pinned = (next,none)) :
    ∃ bound outside, boundOf policy ask pinned = some bound ∧ externalMicros external = some outside ∧
      next = guard.flushPending.hold ask bound ∧
      ((guard.flushPending.spent + guard.flushPending.inflight + bound : Int) : Rat) + outside ≤ policy.capMicros := by
  unfold admitCall at through
  dsimp only at through
  split at through
  · cases through
  · next bound found =>
    split at through
    · cases through
    · next outside known =>
      split at through
      · cases through
      · next fits =>
        cases through
        exact ⟨bound,outside,found,known,rfl,not_lt.mp fits⟩

theorem externalMicros_nonneg {external : Option (Option Rat)} {outside : Rat}
    (known : externalMicros external = some outside) : 0 ≤ outside := by
  unfold externalMicros at known
  split at known
  · cases known
    exact le_refl _
  · cases known
  · split at known
    next positive =>
      cases known
      exact positive
    next => cases known

private theorem under_cap {sum : Int} {outside : Rat} {cap : Nat} (positive : 0 ≤ outside)
    (fits : (sum : Rat) + outside ≤ cap) : sum ≤ cap := by
  have below : (sum : Rat) ≤ ((cap : Int) : Rat) := by
    push_cast
    linarith
  exact_mod_cast below

private theorem hold_sound {guard : CostGuard} (sound : guard.Sound policy) (ask : Ask Context Options) (bound : Nat)
    (fits : guard.spent + guard.inflight + bound ≤ policy.capMicros) : (guard.hold ask bound).Sound policy where
  inflight := by
    unfold hold
    dsimp only
    rw [unsettled_append,sound.inflight]
  spent := sound.spent
  once place := by
    have before := sound.once place
    unfold hold
    unfold chargesOf at before ⊢
    dsimp only
    rw [before]
    rcases Nat.lt_trichotomy place guard.tickets.length with inside | same | beyond
    · rw [List.getElem?_append_left inside]
    · subst same
      simp
    · have past : (guard.tickets ++ [(⟨bound,ask.model,ask.method ∉ RUNTIME_RESULT_METHODS,false⟩ : Ticket)]).length ≤ place := by
        rw [List.length_append,List.length_singleton]
        omega
      rw [List.getElem?_eq_none (le_of_lt beyond),List.getElem?_eq_none past]
  made charge inside := by
    obtain ⟨⟨stream,found⟩,floored⟩ := sound.made charge inside
    refine ⟨⟨stream,?_⟩,floored⟩
    unfold hold
    dsimp only
    rw [List.getElem?_append_left (List.getElem?_eq_some_iff.mp found).1]
    exact found
  capped _ := by
    unfold hold
    dsimp only
    omega

private theorem hold_onward (guard : CostGuard) (ask : Ask Context Options) (bound : Nat) :
    Onward guard (guard.hold ask bound) where
  settled place own := by
    obtain ⟨ticket,held,settled⟩ := own
    refine ⟨ticket,?_,settled⟩
    unfold hold
    dsimp only
    rw [List.getElem?_append_left (List.getElem?_eq_some_iff.mp held).1]
    exact held
  spent := le_refl _
  tickets := by
    unfold hold
    simp

theorem initial_sound : CostGuard.initial.Sound policy := by
  refine ⟨rfl,rfl,fun place => ?_,?_,fun _ => ?_⟩ <;> simp [CostGuard.initial,chargesOf]

theorem unjudged_sound {guard : CostGuard} (sound : guard.Sound policy) (count : Nat) :
    CostGuard.Sound policy { guard with unjudged := guard.unjudged + count } :=
  sound_of_same policy sound rfl rfl rfl rfl rfl

theorem admitCall_sound {guard next : CostGuard} (sound : guard.Sound policy) {ask : Ask Context Options}
    {pinned : Option (Option Pinned)} {verdict : Option Stop}
    (judged : admitCall policy guard external ask pinned = (next,verdict)) : next.Sound policy := by
  have flushed := flushPending_sound policy sound
  cases verdict with
  | some reason =>
    obtain ⟨tickets,inflight,spent,charges,exceeded,_⟩ := admitCall_refused policy external judged
    exact sound_of_same policy flushed tickets inflight spent charges exceeded
  | none =>
    obtain ⟨bound,outside,_,known,rfl,fits⟩ := admitCall_through policy external judged
    exact hold_sound policy flushed ask bound (under_cap (externalMicros_nonneg known) fits)

theorem bind_sound {guard : CostGuard} (sound : guard.Sound policy) (answer : Answer) :
    (guard.bind answer).1.Sound policy := by
  unfold CostGuard.bind
  split
  next => exact sound
  next place held =>
    dsimp only
    split
    · exact sound_of_same policy sound rfl rfl rfl rfl rfl
    · exact sound_of_same policy sound rfl rfl rfl rfl rfl
    · exact settle_sound policy (sound_of_same policy sound (by rfl) (by rfl) (by rfl) (by rfl) (by rfl)) place none

theorem bind_onward (guard : CostGuard) (answer : Answer) : Onward guard (guard.bind answer).1 := by
  unfold CostGuard.bind
  split
  next => exact .rfl guard
  next place held =>
    dsimp only
    split
    · exact onward_of_same rfl rfl
    · exact onward_of_same rfl rfl
    · dsimp only
      refine Onward.trans ?_ (settle_onward _ _ _)
      exact onward_of_same rfl rfl

/-- What a dispatch's answer will settle is the slot's ticket, unless it is settled at once. -/
theorem bind_caught {guard : CostGuard} {place : Nat} (held : guard.pending = some place)
    (inside : place < guard.tickets.length) (answer : Answer) :
    ((guard.bind answer).2 = some place ∧ answer ≠ .neither ∨
      (guard.bind answer).2 = none ∧ (guard.bind answer).1.Settled place) ∧ (guard.bind answer).1.pending = none := by
  unfold CostGuard.bind
  rw [held]
  dsimp only
  cases answer with
  | stream => exact ⟨.inl ⟨rfl,nofun⟩,rfl⟩
  | promise => exact ⟨.inl ⟨rfl,nofun⟩,rfl⟩
  | neither =>
    refine ⟨.inr ⟨rfl,settle_settled none ?_⟩,?_⟩
    · exact inside
    · exact (settle_tickets _ _ _).2

theorem answered_sound {guard : CostGuard} (sound : guard.Sound policy) (place : Nat) (answer : Answer)
    (settlement : Settlement) : (guard.answered place answer settlement).Sound policy := by
  unfold CostGuard.answered
  split
  · exact sound
  · exact settle_sound policy sound _ _
  · split
    · exact settle_sound policy sound _ _
    · split
      · exact sound
      · exact settle_sound policy sound _ _
  · exact settle_sound policy sound _ _

theorem answered_onward (guard : CostGuard) (place : Nat) (answer : Answer) (settlement : Settlement) :
    Onward guard (guard.answered place answer settlement) ∧
      (guard.answered place answer settlement).tickets.length = guard.tickets.length ∧
      (guard.answered place answer settlement).pending = guard.pending := by
  unfold CostGuard.answered
  have settles (message : Option Message) := And.intro (settle_onward guard place message) (settle_tickets guard place message)
  split
  · exact ⟨.rfl guard,rfl,rfl⟩
  · exact settles _
  · split
    · exact settles _
    · split
      · exact ⟨.rfl guard,rfl,rfl⟩
      · exact settles _
  · exact settles _

/-- Once the answer has settled, so has its ticket. -/
theorem answered_settled {guard : CostGuard} {place : Nat} (inside : place < guard.tickets.length) {answer : Answer}
    {settlement : Settlement} (some' : answer ≠ .neither) (closed : guard.opens place answer settlement = false) :
    (guard.answered place answer settlement).Settled place := by
  unfold CostGuard.answered
  split
  · exact absurd rfl some'
  · exact settle_settled _ inside
  · split
    · exact settle_settled _ inside
    · next stream =>
      split
      next result =>
        unfold opens at closed
        simp [result] at closed
        exact absurd closed stream
      next => exact settle_settled _ inside
  · exact settle_settled _ inside

private theorem refuse_sound {guard : CostGuard} (sound : guard.Sound policy) (why : String) :
    (guard.refuse why).Sound policy := by
  unfold refuse
  exact sound_of_same policy sound rfl rfl rfl rfl rfl

/-- A payload is sent on a bound that fits under the cap, which its open ticket has from then on. -/
theorem onPayload_sent {guard next : CostGuard} {place : Nat} {ask : Ask Context Options} {payload given sent : Value}
    (through : guard.onPayload policy external place ask payload given = (next,some sent)) :
    ∃ ticket bound outside, guard.tickets[place]? = some ticket ∧ ticket.settled = false ∧
      ticket.bound ≤ bound ∧ externalMicros external = some outside ∧
      next = { guard with
        inflight := guard.inflight + (bound - ticket.bound : Int)
        tickets := guard.tickets.set place { ticket with bound := bound } } ∧
      ((next.spent + next.inflight : Int) : Rat) + outside ≤ policy.capMicros := by
  unfold onPayload at through
  split at through
  · cases through
  · next ticket held =>
    dsimp only at through
    split at through
    · cases through
    · next body final found =>
      split at through
      · next bound outside _ known =>
        split at through
        · cases through
        · next fits =>
          push Not at fits
          cases through
          refine ⟨ticket,max ticket.bound bound,outside,held,by simpa using fits.1,Nat.le_max_left _ _,known,?_,?_⟩
          · push_cast
            rfl
          · dsimp only
            have same : guard.spent + (guard.inflight + ((max ticket.bound bound : Nat) - ticket.bound : Int)) =
                guard.spent + guard.inflight - ticket.bound + (max ticket.bound bound : Nat) := by omega
            push_cast at fits same ⊢
            have within := fits.2
            linarith
      · cases through

theorem onPayload_refused {guard next : CostGuard} {place : Nat} {ask : Ask Context Options} {payload given : Value}
    (refused : guard.onPayload policy external place ask payload given = (next,none)) :
    next = guard ∨ next = guard.refuse "final-payload" := by
  unfold onPayload at refused
  split at refused
  · cases refused
    exact .inl rfl
  · dsimp only at refused
    split at refused
    · cases refused
      exact .inr rfl
    · split at refused
      · split at refused
        · cases refused
          exact .inr rfl
        · cases refused
      · cases refused
        exact .inr rfl

private theorem enlarged_sound {guard : CostGuard} (sound : guard.Sound policy) {place bound : Nat} {ticket : Ticket}
    (held : guard.tickets[place]? = some ticket) (open' : ticket.settled = false)
    (fits : guard.spent + (guard.inflight + (bound - ticket.bound : Int)) ≤ policy.capMicros) :
    CostGuard.Sound policy { guard with
      inflight := guard.inflight + (bound - ticket.bound : Int)
      tickets := guard.tickets.set place { ticket with bound := bound } } where
  inflight := by
    dsimp only
    rw [unsettled_set _ _ _ _ held,sound.inflight]
    simp [open']
    omega
  spent := sound.spent
  once other := by
    have before := sound.once other
    unfold chargesOf at before ⊢
    dsimp only
    rw [before,List.getElem?_set]
    by_cases same : place = other
    · subst same
      have inside : place < guard.tickets.length := (List.getElem?_eq_some_iff.mp held).1
      rw [if_pos rfl,if_pos inside,held]
      rfl
    · rw [if_neg same]
  made charge inside := by
    obtain ⟨⟨stream,found⟩,floored⟩ := sound.made charge inside
    refine ⟨⟨stream,?_⟩,floored⟩
    dsimp only
    have other : place ≠ charge.ticket := by
      intro same
      rw [← same,held] at found
      cases found
      cases open'
    rw [List.getElem?_set,if_neg other]
    exact found
  capped _ := fits

theorem onPayload_sound {guard next : CostGuard} (sound : guard.Sound policy) {place : Nat} {ask : Ask Context Options}
    {payload given : Value} {sent : Option Value}
    (judged : guard.onPayload policy external place ask payload given = (next,sent)) : next.Sound policy := by
  cases sent with
  | some sent =>
    obtain ⟨ticket,bound,outside,held,open',_,known,rfl,fits⟩ := onPayload_sent policy external judged
    exact enlarged_sound policy sound held open' (under_cap (externalMicros_nonneg known) fits)
  | none =>
    rcases onPayload_refused policy external judged with rfl | rfl
    · exact sound
    · exact refuse_sound policy sound _

private theorem enlarged_settled {guard : CostGuard} {place bound : Nat} {ticket : Ticket} {inflight : Int}
    (held : guard.tickets[place]? = some ticket) (open' : ticket.settled = false) :
    Onward guard { guard with
      inflight := inflight
      tickets := guard.tickets.set place { ticket with bound := bound } } where
  settled other own := by
    obtain ⟨found,there,settled⟩ := own
    refine ⟨found,?_,settled⟩
    dsimp only
    have other : place ≠ other := by
      intro same
      rw [← same,held] at there
      cases there
      rw [open'] at settled
      cases settled
    rw [List.getElem?_set,if_neg other]
    exact there
  spent := le_refl _
  tickets := by simp

/-! Runs. -/

/-- The slot is that of the innermost call in dispatch; the others there have settled, and so has each that returned
without an answer to settle it. -/
structure Job.Sound (policy : CostPolicy Context Options) (job : Job Context Options) : Prop where
  guard : job.guard.Sound policy
  prepared : job.prepared.length = job.guard.tickets.length
  pending : ∀ place, job.guard.pending = some place → ∃ rest, job.frames = place :: rest
  frames : ∀ place ∈ job.frames, place < job.guard.tickets.length ∧
    (job.guard.Settled place ∨ job.guard.pending = some place)
  nested : job.frames.Nodup
  returned : ∀ entry ∈ job.returned, entry.call < job.guard.tickets.length ∧
    (job.guard.Settled entry.call ∨ entry.caught = some entry.call ∧ entry.answer ≠ .neither)

private theorem Job.Sound.within {job : Job Context Options} (sound : job.Sound policy) (place : Nat)
    (held : job.guard.pending = some place) : place < job.guard.tickets.length := by
  obtain ⟨rest,same⟩ := sound.pending place held
  have first : place ∈ job.frames := by
    rw [same]
    exact List.mem_cons_self
  exact (sound.frames place first).1

/-- A guard that goes onward with its slot as it was keeps the job's frames and answers. -/
private theorem Job.Sound.onward {job : Job Context Options} (sound : job.Sound policy) {next : CostGuard}
    (kept : next.Sound policy) (onward : Onward job.guard next) (length : next.tickets.length = job.guard.tickets.length)
    (slot : next.pending = job.guard.pending) (stopped : Option Stop) :
    Job.Sound policy { job with guard := next, stopped := stopped } where
  guard := kept
  prepared := sound.prepared.trans length.symm
  pending := by
    dsimp only
    rw [slot]
    exact sound.pending
  frames place inside := by
    obtain ⟨within,settled⟩ := sound.frames place inside
    dsimp only
    rw [slot,length]
    exact ⟨within,settled.imp_left (onward.settled place)⟩
  nested := sound.nested
  returned entry inside := by
    obtain ⟨within,settled⟩ := sound.returned entry inside
    dsimp only
    rw [length]
    exact ⟨within,settled.imp_left (onward.settled entry.call)⟩

/-- After a flush every call in dispatch has settled. -/
private theorem Job.Sound.flushed {job : Job Context Options} (sound : job.Sound policy) :
    ∀ place ∈ job.frames, job.guard.flushPending.Settled place := by
  intro place inside
  obtain ⟨_,settled | held⟩ := sound.frames place inside
  · exact (flushPending_onward job.guard).settled place settled
  · exact (flushPending_flushed sound.within).2.2 place held

private theorem flush_sound {job : Job Context Options} (sound : job.Sound policy) {next : CostGuard}
    (kept : next.Sound policy) (onward : Onward job.guard.flushPending next)
    (length : next.tickets.length = job.guard.tickets.length) (slot : next.pending = none) (stopped : Option Stop) :
    Job.Sound policy { job with guard := next, stopped := stopped } where
  guard := kept
  prepared := sound.prepared.trans length.symm
  pending place held := by
    dsimp only at held
    rw [slot] at held
    cases held
  frames place inside := by
    dsimp only
    rw [length]
    exact ⟨(sound.frames place inside).1,.inl (onward.settled place (sound.flushed policy place inside))⟩
  nested := sound.nested
  returned entry inside := by
    obtain ⟨within,settled⟩ := sound.returned entry inside
    dsimp only
    rw [length]
    exact ⟨within,settled.imp_left ((flushPending_onward job.guard).trans onward |>.settled entry.call)⟩

private theorem call_sound {job : Job Context Options} (sound : job.Sound policy) (ask : Ask Context Options)
    (pinned : Option (Option Pinned)) : (Job.step policy external (.call ask pinned) job).2.Sound policy := by
  unfold Job.step
  dsimp only
  have flushed := flushPending_flushed sound.within
  split
  · exact sound
  · split
    next guard reason refused =>
      obtain ⟨tickets,_,spent,_,_,slot⟩ := admitCall_refused policy external refused
      have kept : guard.Sound policy := admitCall_sound policy external sound.guard refused
      refine flush_sound policy sound kept (onward_of_same tickets spent) ?_ (slot.trans flushed.1) _
      rw [tickets]
      exact flushed.2.1
    next guard through =>
      obtain ⟨bound,outside,_,known,rfl,fits⟩ := admitCall_through policy external through
      have kept : (job.guard.flushPending.hold ask bound).Sound policy := admitCall_sound policy external sound.guard through
      have onward : Onward job.guard (job.guard.flushPending.hold ask bound) :=
        (flushPending_onward job.guard).trans (hold_onward _ ask bound)
      have length : (job.guard.flushPending.hold ask bound).tickets.length = job.guard.tickets.length + 1 := by
        unfold hold
        simp [flushed.2.1]
      have slot : (job.guard.flushPending.hold ask bound).pending = some job.prepared.length := by
        unfold hold
        dsimp only
        rw [flushed.2.1,sound.prepared]
      refine ⟨kept,?_,?_,?_,?_,?_⟩
      · dsimp only
        rw [List.length_append,length,sound.prepared]
        rfl
      · intro place held
        dsimp only at held
        rw [slot] at held
        cases held
        exact ⟨_,rfl⟩
      · intro place inside
        dsimp only
        rw [length,slot]
        rcases List.mem_cons.mp inside with rfl | inside
        · refine ⟨?_,.inr rfl⟩
          rw [sound.prepared]
          omega
        · have before := (sound.frames place inside).1
          refine ⟨by omega,.inl ?_⟩
          exact (hold_onward _ ask bound).settled place (sound.flushed policy place inside)
      · refine List.nodup_cons.mpr ⟨fun inside => ?_,sound.nested⟩
        have before := (sound.frames _ inside).1
        rw [sound.prepared] at before
        omega
      · intro entry inside
        obtain ⟨within,settled⟩ := sound.returned entry inside
        dsimp only
        rw [length]
        exact ⟨by omega,settled.imp_left (onward.settled entry.call)⟩

private theorem bind_length (guard : CostGuard) (answer : Answer) :
    (guard.bind answer).1.tickets.length = guard.tickets.length ∧ (guard.bind answer).1.pending = none := by
  unfold CostGuard.bind
  split
  next empty => exact ⟨rfl,empty⟩
  next place held =>
    cases answer with
    | stream => exact ⟨rfl,rfl⟩
    | promise => exact ⟨rfl,rfl⟩
    | neither => exact settle_tickets _ place none

private theorem bind_empty {guard : CostGuard} (empty : guard.pending = none) (answer : Answer) :
    guard.bind answer = (guard,none) := by
  unfold CostGuard.bind
  rw [empty]

/-- The innermost dispatch returns: its ticket is what its answer settles, or has settled. -/
private theorem bind_own {job : Job Context Options} (sound : job.Sound policy) {place : Nat} {frames : List Nat}
    (innermost : job.frames = place :: frames) (answer : Answer) :
    (job.guard.bind answer).1.Settled place ∨ (job.guard.bind answer).2 = some place ∧ answer ≠ .neither := by
  have first : place ∈ job.frames := by
    rw [innermost]
    exact List.mem_cons_self
  obtain ⟨within,settled⟩ := sound.frames place first
  cases held : job.guard.pending with
  | none =>
    rw [bind_empty held]
    exact .inl (settled.resolve_right (by simp [held]))
  | some slot =>
    obtain ⟨rest,same⟩ := sound.pending slot held
    rw [innermost] at same
    cases same
    rcases (bind_caught held within answer).1 with caught | ⟨_,settled⟩
    · exact .inr caught
    · exact .inl settled

private theorem returns_sound {job : Job Context Options} (sound : job.Sound policy) (answer : Answer) :
    (Job.step policy external (.returns answer) job).2.Sound policy := by
  unfold Job.step
  dsimp only
  split
  next => exact sound
  next place frames innermost =>
    have onward := bind_onward job.guard answer
    obtain ⟨length,slot⟩ := bind_length job.guard answer
    refine ⟨bind_sound policy sound.guard answer,sound.prepared.trans length.symm,?_,?_,?_,?_⟩
    · intro other held
      rw [slot] at held
      cases held
    · intro other inside
      obtain ⟨within,settled⟩ := sound.frames other (by simp [innermost,inside])
      dsimp only
      rw [length]
      refine ⟨within,.inl ?_⟩
      rcases settled with settled | held
      · exact onward.settled other settled
      · obtain ⟨rest,same⟩ := sound.pending other held
        rw [innermost] at same
        cases same
        have nested := sound.nested
        rw [innermost] at nested
        exact absurd inside (List.nodup_cons.mp nested).1
    · have nested := sound.nested
      rw [innermost] at nested
      exact (List.nodup_cons.mp nested).2
    · intro entry inside
      dsimp only
      rw [length]
      rcases List.mem_cons.mp inside with rfl | inside
      · exact ⟨(sound.frames place (by simp [innermost])).1,bind_own policy sound innermost answer⟩
      · obtain ⟨within,settled⟩ := sound.returned entry inside
        exact ⟨within,settled.imp_left (onward.settled entry.call)⟩

private theorem payload_sound {job : Job Context Options} (sound : job.Sound policy) (place : Nat) (payload next : Value) :
    (Job.step policy external (.payload place payload next) job).2.Sound policy := by
  unfold Job.step
  dsimp only
  split
  next => exact sound
  next ask prepared =>
    split
    next guard sent through =>
      have kept := onPayload_sound policy external sound.guard through
      obtain ⟨ticket,bound,outside,held,open',_,_,rfl,_⟩ := onPayload_sent policy external through
      exact sound.onward policy kept (enlarged_settled held open') (by simp) rfl job.stopped
    next guard refused =>
      have kept := onPayload_sound policy external sound.guard refused
      rcases onPayload_refused policy external refused with same | same
      · subst same
        exact sound.onward policy kept (.rfl _) rfl rfl _
      · subst same
        exact sound.onward policy kept (onward_of_same rfl rfl) rfl rfl _

private theorem settles_keeps {job : Job Context Options} (sound : job.Sound policy) (entry : Returned)
    (settlement : Settlement) (given : entry ∈ job.returned) :
    (Job.step policy external (.settles entry settlement) job).2.Sound policy := by
  have next : ∃ guard : CostGuard, (match entry.caught with
      | some place => job.guard.answered place entry.answer settlement
      | none => job.guard) = guard ∧ guard.Sound policy ∧ Onward job.guard guard ∧
        guard.tickets.length = job.guard.tickets.length ∧ guard.pending = job.guard.pending := by
    split
    next place _ =>
      exact ⟨_,rfl,answered_sound policy sound.guard place entry.answer settlement,answered_onward _ _ _ _⟩
    next => exact ⟨_,rfl,sound.guard,.rfl _,rfl,rfl⟩
  obtain ⟨guard,same,kept,onward,length,slot⟩ := next
  unfold Job.step
  dsimp only
  rw [same]
  have later := sound.onward policy kept onward length slot job.stopped
  refine ⟨later.guard,later.prepared,later.pending,later.frames,later.nested,?_⟩
  intro other inside
  dsimp only at inside
  split at inside
  next opens =>
    rcases List.mem_cons.mp inside with rfl | inside
    · obtain ⟨within,settled⟩ := later.returned entry given
      refine ⟨within,settled.imp_right fun caught => ⟨caught.1,nofun⟩⟩
    · exact later.returned other inside
  next => exact later.returned other inside

private theorem step_sound {job : Job Context Options} (sound : job.Sound policy) (move : Move Context Options)
    (allowed : move.Allowed job) : (Job.step policy external move job).2.Sound policy := by
  cases move with
  | call ask pinned => exact call_sound policy external sound ask pinned
  | returns answer => exact returns_sound policy external sound answer
  | payload place payload next => exact payload_sound policy external sound place payload next
  | settles entry settlement => exact settles_keeps policy external sound entry settlement allowed
  | stops reason => exact sound.onward policy sound.guard (.rfl _) rfl rfl _
  | unjudged count =>
    exact sound.onward policy (unjudged_sound policy sound.guard count) (onward_of_same rfl rfl) rfl rfl job.stopped
  | snapshot =>
    obtain ⟨slot,length,_⟩ := flushPending_flushed sound.within
    have kept := flushPending_sound policy sound.guard
    have same := Onward.rfl job.guard.flushPending
    have later := flush_sound policy sound kept same length slot job.stopped
    exact later

private theorem start_sound : (Job.initial : Job Context Options).Sound policy := by
  refine ⟨initial_sound policy,rfl,?_,?_,List.nodup_nil,?_⟩ <;> simp [Job.initial,CostGuard.initial]

private theorem runs_sound {past : List (Move Context Options × Reply)} {job : Job Context Options}
    (run : Runs (Job.step policy external) Move.Allowed Job.initial past job) : job.Sound policy := by
  refine Runs.invariant (fun _ job => job.Sound policy) (start_sound policy) ?_ run
  intro _ job move sound allowed
  exact step_sound policy external sound move allowed

/-! What a step may let through, and what it charges. -/

private theorem step_spent {job : Job Context Options} (move : Move Context Options) :
    job.guard.spent ≤ (Job.step policy external move job).2.guard.spent := by
  unfold Job.step
  cases move with
  | call ask pinned =>
    dsimp only
    split
    · exact le_refl _
    · split
      next guard reason refused =>
        have same := (admitCall_refused policy external refused).2.2.1
        dsimp only
        rw [same]
        exact (flushPending_onward job.guard).spent
      next guard through =>
        obtain ⟨bound,_,_,_,rfl,_⟩ := admitCall_through policy external through
        exact (flushPending_onward job.guard).spent
  | returns answer =>
    dsimp only
    split
    · exact le_refl _
    · exact (bind_onward job.guard answer).spent
  | payload place payload next =>
    dsimp only
    split
    · exact le_refl _
    · split
      next guard sent through =>
        obtain ⟨_,_,_,_,_,_,_,rfl,_⟩ := onPayload_sent policy external through
        exact le_refl _
      next guard refused =>
        rcases onPayload_refused policy external refused with rfl | rfl <;> exact le_refl _
  | settles entry settlement =>
    dsimp only
    split
    · exact (answered_onward _ _ _ _).1.spent
    · exact le_refl _
  | stops reason => exact le_refl _
  | unjudged count => exact le_refl _
  | snapshot => exact (flushPending_onward job.guard).spent

private theorem step_through {job : Job Context Options} {move : Move Context Options}
    (through : (Job.step policy external move job).1 = .through) :
    policy.Fits external (Job.step policy external move job).2.guard := by
  unfold Job.step at through ⊢
  cases move with
  | call ask pinned =>
    dsimp only at through ⊢
    split at through
    · cases through
    next going =>
      rw [if_neg going]
      split at through
      · cases through
      · next guard admitted =>
        obtain ⟨bound,outside,_,known,rfl,fits⟩ := admitCall_through policy external admitted
        refine ⟨outside,known,?_⟩
        unfold hold
        dsimp only
        rw [← add_assoc]
        exact fits
  | payload place payload next =>
    dsimp only at through ⊢
    split at through
    · cases through
    next ask prepared =>
      split at through
      · next guard sent sending =>
        obtain ⟨_,_,outside,_,_,_,known,_,fits⟩ := onPayload_sent policy external sending
        exact ⟨outside,known,fits⟩
      · cases through
  | returns answer =>
    dsimp only at through
    split at through <;> cases through
  | settles | stops | unjudged | snapshot => cases through

/-- A ticket that has settled was charged once. -/
private theorem charged_once {guard : CostGuard} (sound : guard.Sound policy) {place : Nat} (settled : guard.Settled place) :
    (guard.chargesOf place).length = 1 := by
  obtain ⟨ticket,held,own⟩ := settled
  rw [sound.once place,held,Option.map_some,own,if_pos rfl]

private theorem settles_settled {job : Job Context Options} (sound : job.Sound policy) (entry : Returned)
    (settlement : Settlement) (given : entry ∈ job.returned)
    (closed : job.guard.opens entry.call entry.answer settlement = false) :
    (Job.step policy external (.settles entry settlement) job).2.guard.Settled entry.call := by
  unfold Job.step
  dsimp only
  obtain ⟨within,settled | ⟨caught,some'⟩⟩ := sound.returned entry given
  · split
    · exact (answered_onward _ _ _ _).1.settled entry.call settled
    · exact settled
  · rw [caught]
    exact answered_settled within some' closed

/-- What a job's guard has counted, and what its next step may do. -/
structure Job.Accounted (policy : CostPolicy Context Options) (external : Option (Option Rat))
    (job : Job Context Options) : Prop where
  inflight : job.guard.inflight = unsettled job.guard.tickets
  spent : job.guard.spent = (job.guard.charges.map fun charge => (charge.charged : Int)).sum
  once : ∀ place, (job.guard.chargesOf place).length ≤ 1
  current : ∀ charge ∈ job.guard.charges, ∃ stream,
    job.guard.tickets[charge.ticket]? = some ⟨charge.bound,charge.model,stream,true⟩
  floors : ∀ charge ∈ job.guard.charges, charge.Floored → charge.bound ≤ charge.charged
  capped : job.guard.boundExceeded = 0 → job.guard.spent + job.guard.inflight ≤ policy.capMicros
  grows : ∀ move : Move Context Options, job.guard.spent ≤ (Job.step policy external move job).2.guard.spent
  through : ∀ move : Move Context Options, (Job.step policy external move job).1 = .through →
    policy.Fits external (Job.step policy external move job).2.guard
  settles : ∀ entry settlement, entry ∈ job.returned → job.guard.opens entry.call entry.answer settlement = false →
    ((Job.step policy external (.settles entry settlement) job).2.guard.chargesOf entry.call).length = 1
  unanswered : ∀ place rest, job.frames = place :: rest →
    ((Job.step policy external (.returns .neither) job).2.guard.chargesOf place).length = 1

/-- In every run of a job: what is in flight is the sum of the current bounds of the calls that have not settled; each
call is charged once at most, and once when its answer settles; a charge covers the bound wherever the price is not to
be trusted; and a call or a payload goes through only under the cap. -/
theorem cap_holds {past : List (Move Context Options × Reply)} {job : Job Context Options}
    (run : Runs (Job.step policy external) Move.Allowed Job.initial past job) : job.Accounted policy external := by
  have sound := runs_sound policy external run
  refine ⟨sound.guard.inflight,sound.guard.spent,?_,?_,?_,sound.guard.capped,step_spent policy external,?_,?_,?_⟩
  · intro place
    rw [sound.guard.once place]
    split <;> omega
  · exact fun charge inside => (sound.guard.made charge inside).1
  · exact fun charge inside => (sound.guard.made charge inside).2
  · exact fun move => step_through policy external
  · intro entry settlement given closed
    have later := step_sound policy external sound (.settles entry settlement) given
    exact charged_once policy later.guard (settles_settled policy external sound entry settlement given closed)
  · intro place rest innermost
    have later := returns_sound policy external sound .neither
    refine charged_once policy later.guard ?_
    rcases bind_own policy sound innermost .neither with settled | ⟨_,some'⟩
    · unfold Job.step
      rw [innermost]
      exact settled
    · exact absurd rfl some'

/-! A call whose dispatch forwards to another one, and answers that settle in the other order. -/

def plainModel : Model := ⟨"groq","small","openai-completions",some "api.groq.com",.null,.null,false⟩

def fourMicros : CostPolicy Unit Unit := ⟨10,fun _ => some 4,fun _ => false⟩

def forwarding : List (Move Unit Unit) :=
  [.call ⟨.streamSimple,plainModel,(),(),none⟩ none,.call ⟨.stream,plainModel,(),(),none⟩ none,.returns .stream,
    .returns .promise,.settles ⟨0,.promise,none⟩ (.fulfilled true none),.settles ⟨1,.stream,some 1⟩ .rejected]

private theorem four_held (guard : CostGuard) (ask : Ask Unit Unit) (method : ask.method = .streamSimple ∨ ask.method = .stream)
    (readable : ask.model.unreadable = false) (fits : guard.flushPending.spent + guard.flushPending.inflight + 4 ≤ 10) :
    admitCall fourMicros guard none ask none = (guard.flushPending.hold ask 4,none) := by
  have bound : boundOf fourMicros ask none = some 4 := by
    unfold boundOf
    rcases method with same | same <;> simp [fourMicros,readable,same]
  have below : ¬((fourMicros.capMicros : Rat) <
      ((guard.flushPending.spent + guard.flushPending.inflight + (4 : Nat) : Int) : Rat) + 0) := by
    have within : ((guard.flushPending.spent + guard.flushPending.inflight + 4 : Int) : Rat) ≤ ((10 : Int) : Rat) := by
      exact_mod_cast fits
    unfold fourMicros
    push_cast at within ⊢
    linarith
  unfold admitCall
  rw [bound]
  dsimp only [externalMicros]
  rw [if_neg below]

theorem cap_holds_forwarding :
    (after (Job.step fourMicros none) Job.initial forwarding).Accounted fourMicros none := by
  refine cap_holds fourMicros none (runs_guarded _ _ _ forwarding ?_)
  have first := four_held CostGuard.initial ⟨.streamSimple,plainModel,(),(),none⟩ (.inl rfl) rfl (by decide)
  have second := four_held (CostGuard.initial.flushPending.hold ⟨.streamSimple,plainModel,(),(),none⟩ 4)
    ⟨.stream,plainModel,(),(),none⟩ (.inr rfl) rfl (by decide)
  simp only [Guarded,forwarding,Move.Allowed,Job.step,Job.initial,Option.isSome_none,Bool.false_eq_true,if_false,
    first,second]
  exact ⟨trivial,trivial,trivial,trivial,.head _,.tail _ (.tail _ (.head _)),trivial⟩

end PiDispatch.UsageMeter
