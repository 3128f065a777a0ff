import PiDispatch.RunnerInbox

/-! Any order of the inbox's events: each message is handed over once, from the front of its queue, with none in flight, while
the agent runs or is about to settle. -/
namespace PiDispatch.RunnerInbox
open Kernel Octets JsonText Utf16
open SteerInbox (Source)

section Course

/-- The messages of a mode that are held: queued, and neither dropped nor handed over since. -/
def heldIn (mode : SteerInbox.Mode) : List Deed → List Held
  | [] => []
  | .queued held :: before => if held.mode = mode then heldIn mode before ++ [held] else heldIn mode before
  | .dropped held :: before => (heldIn mode before).erase held
  | .handed held _ :: before => (heldIn mode before).erase held
  | _ :: before => heldIn mode before

def handedIds : List Deed → List Units
  | [] => []
  | .handed held _ :: before => held.id :: handedIds before
  | _ :: before => handedIds before

/-- A message is in flight from its handing over to a message's end that bears its id. -/
def inFlightOf : List Deed → Option Units
  | [] => none
  | .handed held _ :: _ => some held.id
  | .event (.messageEnd (some id)) _ _ :: before => if inFlightOf before = some id then none else inFlightOf before
  | _ :: before => inFlightOf before

/-- The agent has started and not ended since. -/
def runningIn : List Deed → Bool
  | [] => false
  | .event .agentStart _ _ :: _ => true
  | .event .agentEnd _ _ :: _ => false
  | _ :: before => runningIn before

def shutIn : List Deed → Bool
  | [] => false
  | .shut :: _ => true
  | _ :: before => shutIn before

/-- The event that is under way, and what it found of the agent. -/
def current : List Deed → Option (Event × Bool × Bool)
  | [] => none
  | .event event busy parked :: _ => some (event,busy,parked)
  | _ :: before => current before

/-- Newest first. -/
def queuedIds : List Deed → List Units
  | [] => []
  | .queued held :: before => held.id :: queuedIds before
  | _ :: before => queuedIds before

/-- The names queued since the event began, newest first. -/
def freshNames : List Deed → List Text
  | [] => []
  | .event _ _ _ :: _ => []
  | .queued held :: before => held.name :: freshNames before
  | _ :: before => freshNames before

/-- A message may be handed over after the deeds before: it is the first held of its mode, a follow-up only where no steer is
held, none is in flight, it was never handed over nor shown as such, and the agent is busy with a run and not parked. -/
structure Fits (config : Config) (given : List Units) (held : Held) (message : Message) (before : List Deed) : Prop where
  told : message = ⟨held.id,held.mode,held.source,held.content,config.inboxAck held.id⟩
  first : (heldIn held.mode before).head? = some held
  steers : held.mode = .followUp → heldIn .steer before = []
  free : inFlightOf before = none
  once : held.id ∉ handedIds before
  unseen : held.id ∉ given
  open' : shutIn before = false
  runs : ∃ event, current before = some (event,true,false) ∧ (runningIn before = true ∨ event = .beforeSettle)

def ids (queues : List Held) : List Units := queues.map Held.id

/-- What holds of an inbox between any two of its statements; `given` are the ids it must never hand over. -/
structure Sound (config : Config) (given : List Units) (log : List Deed) (seen : List Units) (arrived steers followUps : List Held)
    (active closed : Bool) (inFlight : Option Held) : Prop where
  fits : ∀ after held message before, log = after ++ .handed held message :: before → Fits config given held message before
  first : heldIn .steer log = steers
  second : heldIn .followUp log = followUps
  slot : inFlightOf log = inFlight.map Held.id
  running : active = true → runningIn log = true
  over' : shutIn log = closed
  own : (handedIds log ++ ids (steers ++ followUps ++ arrived)).Nodup
  known : ∀ id ∈ handedIds log ++ ids (steers ++ followUps ++ arrived), id ∈ seen ∧ id ∉ given
  given' : ∀ id ∈ given, id ∈ seen
  names : config.framed = false → ∀ after before, log = after ++ before →
    (freshNames before).Pairwise fun newer older => ¬newer < older

abbrev Good (config : Config) (given : List Units) (inbox : Inbox) : Prop :=
  Sound config given inbox.log inbox.seen inbox.arrived inbox.steers inbox.followUps inbox.active inbox.closed inbox.inFlight

end Course

section Deeds

variable {config : Config} {given : List Units} {inbox : Inbox}

theorem heldIn_mode {mode : SteerInbox.Mode} {held : Held} {log : List Deed} (member : held ∈ heldIn mode log) : held.mode = mode := by
  induction log with
  | nil => cases member
  | cons deed before ih =>
    cases deed with
    | queued other =>
      unfold heldIn at member
      split at member
      next own =>
        rcases List.mem_append.mp member with old | new
        · exact ih old
        · rw [List.mem_singleton.mp new]
          exact own
      · exact ih member
    | dropped other => exact ih (List.mem_of_mem_erase member)
    | handed other message => exact ih (List.mem_of_mem_erase member)
    | event | delivered | shut => exact ih member

private theorem append_cons {deed last : Deed} {log after before : List Deed} (split : deed :: log = after ++ last :: before) :
    (after = [] ∧ deed = last ∧ log = before) ∨ ∃ rest, after = deed :: rest ∧ log = rest ++ last :: before := by
  cases after with
  | nil =>
    cases split
    exact .inl ⟨rfl,rfl,rfl⟩
  | cons first rest =>
    cases split
    exact .inr ⟨rest,rfl,rfl⟩

private theorem fits_cons {deed : Deed} {log : List Deed} (own : ∀ held message, deed ≠ .handed held message)
    (fits : ∀ after held message before, log = after ++ .handed held message :: before → Fits config given held message before) :
    ∀ after held message before, deed :: log = after ++ .handed held message :: before → Fits config given held message before := by
  intro after held message before split
  rcases append_cons split with ⟨-,same,-⟩ | ⟨rest,-,split⟩
  · exact absurd same (own held message)
  · exact fits rest held message before split

private theorem names_cons {deed : Deed} {log : List Deed}
    (own : (freshNames (deed :: log)).Pairwise fun newer older => ¬newer < older)
    (names : ∀ after before, log = after ++ before → (freshNames before).Pairwise fun newer older => ¬newer < older) :
    ∀ after before, deed :: log = after ++ before → (freshNames before).Pairwise fun newer older => ¬newer < older := by
  intro after before split
  cases after with
  | nil =>
    have same : deed :: log = before := split
    rw [← same]
    exact own
  | cons first rest => exact names rest before (List.cons.inj split).2

/-- A message that is no longer waited for goes from its queue. -/
private theorem dropped_good (held : Held) (good : Good config given inbox) : Good config given (note (.dropped held) { inbox with
    steers := inbox.steers.erase held, followUps := inbox.followUps.erase held }) := by
  have fewer : (ids (inbox.steers.erase held ++ inbox.followUps.erase held ++ inbox.arrived)).Sublist
      (ids (inbox.steers ++ inbox.followUps ++ inbox.arrived)) :=
    ((List.erase_sublist.append List.erase_sublist).append (List.Sublist.refl _)).map _
  exact { good with
    fits := fits_cons (fun _ _ same => by cases same) good.fits
    first := congrArg (·.erase held) good.first
    second := congrArg (·.erase held) good.second
    own := good.own.sublist ((List.Sublist.refl _).append fewer)
    known := fun id member => good.known id (((List.Sublist.refl _).append fewer).subset member)
    names := fun files => names_cons (good.names files [] inbox.log rfl) (good.names files) }

private theorem drop_good (gone : List Held) (good : Good config given inbox) : Good config given (drop gone { inbox with
    steers := inbox.steers.diff gone, followUps := inbox.followUps.diff gone }) := by
  induction gone generalizing inbox with
  | nil => exact good
  | cons held rest ih =>
    have next := ih (dropped_good held good)
    unfold drop note at next
    unfold drop
    rw [List.map_cons,List.reverse_cons,List.append_assoc,List.diff_cons,List.diff_cons]
    exact next

/-- A message that has arrived, or that a file has just given, goes behind its queue. -/
private theorem queued_good (held : Held) (rest : List Held) (fresh : inbox.arrived = held :: rest)
    (name : config.framed = false → ∀ older ∈ freshNames inbox.log, ¬held.name < older) (good : Good config given inbox) :
    Good config given (enqueue held { inbox with arrived := rest }) := by
  have names : config.framed = false → ∀ after before, Deed.queued held :: inbox.log = after ++ before →
      (freshNames before).Pairwise fun newer older => ¬newer < older :=
    fun files => names_cons (List.pairwise_cons.mpr ⟨name files,good.names files [] inbox.log rfl⟩) (good.names files)
  have fits := @fits_cons config given (.queued held) inbox.log (fun _ _ same => by cases same) good.fits
  have own := good.own
  have known := good.known
  rw [fresh] at own known
  unfold enqueue
  cases mode : held.mode with
  | steer =>
    have same : (handedIds inbox.log ++ ids (inbox.steers ++ inbox.followUps ++ held :: rest)).Perm
        (handedIds inbox.log ++ ids (inbox.steers ++ [held] ++ inbox.followUps ++ rest)) := by
      refine (List.Perm.refl _).append (List.Perm.map _ ?_)
      simp only [List.append_assoc]
      exact (List.Perm.refl _).append List.perm_middle
    exact { good with
      fits := fits
      first := by
        show (if held.mode = .steer then _ else _) = _
        rw [if_pos mode,good.first]
        rfl
      second := by
        show (if held.mode = .followUp then _ else _) = _
        rw [if_neg (by rw [mode]; exact fun same => by cases same)]
        exact good.second
      own := same.nodup_iff.mp own
      known := fun id member => known id (same.mem_iff.mpr member)
      names := names }
  | followUp =>
    have same : (handedIds inbox.log ++ ids (inbox.steers ++ inbox.followUps ++ held :: rest)).Perm
        (handedIds inbox.log ++ ids (inbox.steers ++ (inbox.followUps ++ [held]) ++ rest)) := by
      refine (List.Perm.refl _).append (List.Perm.map _ ?_)
      simp only [List.append_assoc]
      exact List.Perm.refl _
    exact { good with
      fits := fits
      first := by
        show (if held.mode = .steer then _ else _) = _
        rw [if_neg (by rw [mode]; exact fun same => by cases same)]
        exact good.first
      second := by
        show (if held.mode = .followUp then _ else _) = _
        rw [if_pos mode,good.second]
        rfl
      own := same.nodup_iff.mp own
      known := fun id member => known id (same.mem_iff.mpr member)
      names := names }

/-- The front of a queue goes to the agent. -/
private theorem handed_good {held : Held} {steers followUps : List Held} {event : Event}
    (front : (heldIn held.mode inbox.log).head? = some held)
    (steersFirst : held.mode = .followUp → heldIn .steer inbox.log = [])
    (first : (heldIn .steer inbox.log).erase held = steers) (second : (heldIn .followUp inbox.log).erase held = followUps)
    (same : (inbox.steers ++ inbox.followUps).Perm (held :: (steers ++ followUps)))
    (free : inbox.inFlight = none) (standing : inbox.closed = false)
    (now : current inbox.log = some (event,true,false)) (runs : inbox.active = true ∨ event = .beforeSettle)
    (good : Good config given inbox) :
    Good config given (hand config held { inbox with steers := steers, followUps := followUps }) := by
  have moved : (handedIds inbox.log ++ ids (inbox.steers ++ inbox.followUps ++ inbox.arrived)).Perm
      (held.id :: handedIds inbox.log ++ ids (steers ++ followUps ++ inbox.arrived)) := by
    refine List.Perm.trans ((List.Perm.refl _).append (List.Perm.map _ (same.append_right _))) ?_
    exact List.perm_middle
  have own := moved.nodup_iff.mp good.own
  have known := fun id member => good.known id (moved.mem_iff.mpr member)
  exact { good with
    fits := by
      intro after other told before split
      rcases append_cons split with ⟨-,equal,rfl⟩ | ⟨rest,-,split⟩
      · cases equal
        refine ⟨rfl,front,steersFirst,?_,?_,?_,?_,event,now,?_⟩
        · rw [good.slot,free]
          rfl
        · exact fun member => (List.nodup_cons.mp own).1 (List.mem_append_left _ member)
        · exact (known held.id (List.mem_cons_self ..)).2
        · rw [good.over']
          exact standing
        · exact runs.imp good.running id
      · exact good.fits rest other told before split
    first := first
    second := second
    slot := rfl
    own := own
    known := known
    names := fun files => names_cons (good.names files [] inbox.log rfl) (good.names files) }

end Deeds

section Scans

variable {config : Config} {given : List Units} {inbox : Inbox}

private theorem parsed_id {numbers : Numbers} {text : Text} {idFromName : Option Units} {name : Text} {held : Held}
    (parsed : parseInboxEntry numbers text idFromName name = .ok held) :
    idFromName = some held.id ∧ isId held.id = true ∧ held.name = name := by
  unfold parseInboxEntry at parsed
  split at parsed
  · cases parsed
  · dsimp only at parsed
    split at parsed
    · cases parsed
    split at parsed
    · cases parsed
    split at parsed
    · cases parsed
    next id found =>
      have valid := (Option.filter_eq_some_iff.mp found).2
      rw [Bool.and_eq_true,decide_eq_true_eq] at valid
      split at parsed
      · cases parsed
      split at parsed
      · cases parsed
      split at parsed
      · cases parsed
      · cases parsed
        exact ⟨valid.2,valid.1,rfl⟩
  · cases parsed

/-- A new id may be held, once it is seen. -/
private theorem arrived_good {held : Held} {seen : List Units} (unseen : held.id ∉ inbox.seen)
    (wider : ∀ id, id ∈ inbox.seen → id ∈ seen) (own : held.id ∈ seen) (good : Good config given inbox) :
    Good config given { inbox with seen := seen, arrived := inbox.arrived ++ [held] } := by
  have same : (handedIds inbox.log ++ ids (inbox.steers ++ inbox.followUps ++ (inbox.arrived ++ [held]))).Perm
      (held.id :: (handedIds inbox.log ++ ids (inbox.steers ++ inbox.followUps ++ inbox.arrived))) := by
    unfold ids
    rw [← List.append_assoc,List.map_append,← List.append_assoc]
    exact List.perm_append_singleton ..
  exact { good with
    own := same.nodup_iff.mpr (List.nodup_cons.mpr ⟨fun member => unseen (good.known _ member).1,good.own⟩)
    known := fun id member => by
      rcases List.mem_cons.mp (same.mem_iff.mp member) with rfl | old
      · exact ⟨own,fun bad => unseen (good.given' _ bad)⟩
      · exact ⟨wider id (good.known id old).1,(good.known id old).2⟩
    given' := fun id member => wider id (good.given' id member) }

private theorem seen_good {seen : List Units} (wider : ∀ id, id ∈ inbox.seen → id ∈ seen) (good : Good config given inbox) :
    Good config given { inbox with seen := seen } :=
  { good with
    known := fun id member => ⟨wider id (good.known id member).1,(good.known id member).2⟩
    given' := fun id member => wider id (good.given' id member) }

private theorem judgeFrame_good (frame : Frame) (good : Good config given inbox) :
    Good config given (judgeFrame config frame inbox) ∧ (judgeFrame config frame inbox).log = inbox.log := by
  unfold judgeFrame
  split
  · exact ⟨good,rfl⟩
  next unseen =>
    unfold onFrame
    dsimp only
    cases valid : frame.id.filter isId with
    | none =>
      dsimp only
      split
      · exact ⟨good,rfl⟩
      split
      · exact ⟨good,rfl⟩
      next held parsed =>
        obtain ⟨own,isId',-⟩ := parsed_id parsed
        rw [own,Option.filter_some,if_pos isId'] at valid
        cases valid
    | some id =>
      have wider : ∀ other, other ∈ inbox.seen → other ∈ id :: inbox.seen := fun _ member => List.mem_cons_of_mem _ member
      have seen := seen_good wider good
      dsimp only
      split
      · exact ⟨seen,rfl⟩
      split
      · exact ⟨seen,rfl⟩
      next held parsed =>
        obtain ⟨own,-,-⟩ := parsed_id parsed
        have same : held.id = id := by
          have found := (Option.filter_eq_some_iff.mp valid).1
          rw [own] at found
          exact Option.some.inj found
        have fresh : held.id ∉ inbox.seen := by
          intro member
          rw [own] at unseen
          exact unseen (by simpa using member)
        exact ⟨arrived_good fresh wider (same ▸ List.mem_cons_self ..) good,rfl⟩

private theorem readAvailable_good (around : Surroundings) (good : Good config given inbox) :
    Good config given (readAvailable config around inbox) ∧ (readAvailable config around inbox).log = inbox.log := by
  have judged : Good config given (around.frames.foldl (fun inbox frame => judgeFrame config frame inbox) inbox) ∧
      (around.frames.foldl (fun inbox frame => judgeFrame config frame inbox) inbox).log = inbox.log := by
    refine List.foldlRecOn (motive := fun next : Inbox => Good config given next ∧ next.log = inbox.log) around.frames
      (fun inbox frame => judgeFrame config frame inbox) ⟨good,rfl⟩ fun before kept frame _ => ?_
    obtain ⟨one,log⟩ := judgeFrame_good frame kept.1
    exact ⟨one,log.trans kept.2⟩
  unfold readAvailable
  split
  · exact ⟨good,rfl⟩
  · dsimp only
    split
    · exact judged
    · exact judged

private theorem enqueue_arrived (held : Held) (arrived : List Held) :
    (enqueue held inbox).arrived = inbox.arrived ∧
      enqueue held { inbox with arrived := arrived } = { enqueue held inbox with arrived := arrived } := by
  unfold enqueue
  cases held.mode <;> exact ⟨rfl,rfl⟩

/-- Every frame that has arrived is queued. -/
private theorem takeIn_good (framed : config.framed = true) (arrived : List Held)
    (good : Good config given { inbox with arrived := arrived }) (empty : inbox.arrived = []) :
    Good config given (arrived.foldl (fun inbox held => enqueue held inbox) inbox) := by
  induction arrived generalizing inbox with
  | nil =>
    have same : { inbox with arrived := [] } = inbox := by rw [← empty]
    rw [← same]
    exact good
  | cons held rest ih =>
    have one := queued_good held rest rfl (fun files => by rw [framed] at files; cases files) good
    obtain ⟨kept,moves⟩ := @enqueue_arrived inbox held rest
    refine ih ?_ (kept.trans empty)
    rw [← moves]
    exact one

/-- One name of the directory, where the names queued so far do not come after it. -/
private theorem scanName_good (around : Surroundings) (name : Text) (after : ∀ older ∈ freshNames inbox.log, ¬name < older)
    (empty : inbox.arrived = []) (good : Good config given inbox) :
    Good config given (scanName config around name inbox) ∧ (scanName config around name inbox).arrived = [] ∧
      (freshNames (scanName config around name inbox).log = freshNames inbox.log ∨
        freshNames (scanName config around name inbox).log = name :: freshNames inbox.log) := by
  unfold scanName
  split
  · exact ⟨good,empty,.inl rfl⟩
  next id _ =>
    split
    · exact ⟨good,empty,.inl rfl⟩
    next new =>
      split
      · exact ⟨good,empty,.inl rfl⟩
      next size text _ =>
        split
        · exact ⟨good,empty,.inl rfl⟩
        split
        · exact ⟨good,empty,.inl rfl⟩
        next held parsed =>
          obtain ⟨own,-,named⟩ := parsed_id parsed
          have same : id = held.id := Option.some.inj own
          have fresh : held.id ∉ inbox.seen := fun member => new (.inl (same ▸ member))
          have wider : ∀ other, other ∈ inbox.seen → other ∈ id :: inbox.seen := fun _ member => List.mem_cons_of_mem _ member
          have arrived := arrived_good fresh wider (same ▸ List.mem_cons_self ..) good
          have queued := queued_good held [] (by rw [empty]; rfl) (fun _ => named ▸ after) arrived
          have equal : { { inbox with seen := id :: inbox.seen, arrived := inbox.arrived ++ [held] } with arrived := [] } =
              { inbox with seen := id :: inbox.seen } := by rw [← empty]
          rw [equal] at queued
          refine ⟨queued,(@enqueue_arrived { inbox with seen := id :: inbox.seen } held []).1.trans empty,.inr ?_⟩
          unfold enqueue
          rw [← named]
          cases held.mode <;> rfl

private theorem sorted_pairwise (names : List Text) : (sorted names).Pairwise fun one other => ¬other < one := by
  have total : Std.Total fun one other : Text => ¬other < one := ⟨fun one other => List.le_total one other⟩
  have trans : IsTrans Text fun one other => ¬other < one := ⟨fun _ _ _ one other => List.le_trans one other⟩
  exact List.pairwise_insertionSort _ _

theorem scan_good (around : Surroundings) (begun : freshNames inbox.log = []) (empty : config.framed = false → inbox.arrived = [])
    (good : Good config given inbox) : Good config given (scan config around inbox) := by
  unfold scan
  split
  next framed =>
    exact takeIn_good framed _ (readAvailable_good around good).1 rfl
  next files =>
    have files : config.framed = false := by simpa using files
    split
    · exact good
    next names _ =>
      have each : ∀ (names : List Text) (inbox : Inbox), Good config given inbox → inbox.arrived = [] →
          (names.Pairwise fun one other => ¬other < one) → (∀ older ∈ freshNames inbox.log, ∀ name ∈ names, ¬name < older) →
          Good config given (names.foldl (fun inbox name => scanName config around name inbox) inbox) := by
        intro names
        induction names with
        | nil => exact fun _ good _ _ _ => good
        | cons name rest ih =>
          intro inbox good empty order after
          obtain ⟨first,order⟩ := List.pairwise_cons.mp order
          obtain ⟨one,none',fresh⟩ := scanName_good around name
            (fun older member => after older member name (List.mem_cons_self ..)) empty good
          refine ih _ one none' order fun older member last inside => ?_
          rcases fresh with same | same
          · rw [same] at member
            exact after older member last (List.mem_cons_of_mem _ inside)
          · rw [same] at member
            rcases List.mem_cons.mp member with rfl | old
            · exact first last inside
            · exact after older old last (List.mem_cons_of_mem _ inside)
      refine each _ inbox good (empty files) (sorted_pairwise names) fun older member => ?_
      rw [begun] at member
      cases member

private theorem scanName_arrived (around : Surroundings) (name : Text) : (scanName config around name inbox).arrived = inbox.arrived := by
  unfold scanName
  split
  · rfl
  split
  · rfl
  split
  · rfl
  split
  · rfl
  split
  · rfl
  next held _ => exact (enqueue_arrived held []).1

private theorem scan_arrived (around : Surroundings) (files : config.framed = false) :
    (scan config around inbox).arrived = inbox.arrived := by
  unfold scan
  rw [files,if_neg Bool.false_ne_true]
  split
  · rfl
  next names _ =>
    exact List.foldlRecOn (motive := fun next : Inbox => next.arrived = inbox.arrived) (sorted names)
      (fun inbox name => scanName config around name inbox) rfl fun before kept name _ => (scanName_arrived around name).trans kept

/-- What an inbox is to the agent; a scan leaves it. -/
def conduct (inbox : Inbox) : Bool × Bool × Option Held × Option (Event × Bool × Bool) :=
  (inbox.attached,inbox.active,inbox.inFlight,current inbox.log)

/-- What has been queued, oldest first, and then what has arrived and is not queued. -/
def taken (inbox : Inbox) : List Units := (queuedIds inbox.log).reverse ++ ids inbox.arrived

private theorem enqueue_conduct (held : Held) : conduct (enqueue held inbox) = conduct inbox ∧
    queuedIds (enqueue held inbox).log = held.id :: queuedIds inbox.log := by
  unfold enqueue
  cases held.mode <;> exact ⟨rfl,rfl⟩

private theorem judgeFrame_conduct (frame : Frame) : conduct (judgeFrame config frame inbox) = conduct inbox ∧
    (taken (judgeFrame config frame inbox)).Sublist (taken inbox ++ frame.id.toList) := by
  unfold judgeFrame
  split
  · exact ⟨rfl,List.sublist_append_left _ _⟩
  unfold onFrame
  dsimp only
  cases frame.id.filter isId with
  | none =>
    dsimp only
    split
    · exact ⟨rfl,List.sublist_append_left _ _⟩
    split
    · exact ⟨rfl,List.sublist_append_left _ _⟩
    next held parsed =>
      have own := (parsed_id parsed).1
      refine ⟨rfl,?_⟩
      rw [own]
      unfold taken ids
      rw [List.map_append,← List.append_assoc]
      exact List.Sublist.refl _
  | some id =>
    dsimp only
    split
    · exact ⟨rfl,List.sublist_append_left _ _⟩
    split
    · exact ⟨rfl,List.sublist_append_left _ _⟩
    next held parsed =>
      have own := (parsed_id parsed).1
      refine ⟨rfl,?_⟩
      rw [own]
      unfold taken ids
      rw [List.map_append,← List.append_assoc]
      exact List.Sublist.refl _

private theorem readAvailable_conduct (around : Surroundings) : conduct (readAvailable config around inbox) = conduct inbox ∧
    (taken (readAvailable config around inbox)).Sublist (taken inbox ++ around.frames.filterMap Frame.id) := by
  have judged : ∀ (frames : List Frame) (inbox : Inbox),
      conduct (frames.foldl (fun inbox frame => judgeFrame config frame inbox) inbox) = conduct inbox ∧
      (taken (frames.foldl (fun inbox frame => judgeFrame config frame inbox) inbox)).Sublist
        (taken inbox ++ frames.filterMap Frame.id) := by
    intro frames
    induction frames with
    | nil => exact fun inbox => ⟨rfl,List.sublist_append_left _ _⟩
    | cons frame rest ih =>
      intro inbox
      obtain ⟨same,order⟩ := @judgeFrame_conduct config inbox frame
      obtain ⟨kept,later⟩ := ih (judgeFrame config frame inbox)
      refine ⟨kept.trans same,later.trans ?_⟩
      have split : (frame :: rest).filterMap Frame.id = frame.id.toList ++ rest.filterMap Frame.id := by
        rw [List.filterMap_cons]
        cases frame.id <;> rfl
      rw [split,← List.append_assoc]
      exact order.append_right _
  unfold readAvailable
  split
  · exact ⟨rfl,List.sublist_append_left _ _⟩
  · dsimp only
    split
    · exact judged around.frames inbox
    · exact judged around.frames inbox

private theorem takeIn_conduct (arrived : List Held) :
    conduct (arrived.foldl (fun inbox held => enqueue held inbox) inbox) = conduct inbox ∧
      (queuedIds (arrived.foldl (fun inbox held => enqueue held inbox) inbox).log).reverse =
        (queuedIds inbox.log).reverse ++ ids arrived ∧
      (arrived.foldl (fun inbox held => enqueue held inbox) inbox).arrived = inbox.arrived := by
  induction arrived generalizing inbox with
  | nil => exact ⟨rfl,(List.append_nil _).symm,rfl⟩
  | cons held rest ih =>
    obtain ⟨same,queued⟩ := @enqueue_conduct inbox held
    obtain ⟨kept,order,arrived⟩ := @ih (enqueue held inbox)
    refine ⟨kept.trans same,order.trans ?_,arrived.trans (enqueue_arrived held []).1⟩
    rw [queued,List.reverse_cons,List.append_assoc]
    rfl

theorem scan_conduct (around : Surroundings) : conduct (scan config around inbox) = conduct inbox := by
  unfold scan
  split
  · exact (takeIn_conduct _).1.trans (readAvailable_conduct around).1
  split
  · rfl
  next names _ =>
    refine List.foldlRecOn (motive := fun next : Inbox => conduct next = conduct inbox) (sorted names)
      (fun inbox name => scanName config around name inbox) rfl fun before kept name _ => Eq.trans ?_ kept
    unfold scanName
    split
    · rfl
    split
    · rfl
    split
    · rfl
    split
    · rfl
    split
    · rfl
    next held _ => exact (enqueue_conduct held).1

/-- Frames are queued in the order in which they come. -/
theorem scan_order (around : Surroundings) (framed : config.framed = true) :
    (taken (scan config around inbox)).Sublist (taken inbox ++ around.frames.filterMap Frame.id) := by
  unfold scan
  rw [if_pos framed]
  obtain ⟨-,order,empty⟩ := @takeIn_conduct { readAvailable config around inbox with arrived := [] }
    (readAvailable config around inbox).arrived
  have read := (@readAvailable_conduct config inbox around).2
  unfold taken at read ⊢
  dsimp only
  rw [order,empty]
  simpa [ids] using read

end Scans

section Pumps

variable {config : Config} {given : List Units} {inbox : Inbox} {around : Surroundings}

private theorem drop_current (gone : List Held) (inbox : Inbox) : current (drop gone inbox).log = current inbox.log := by
  unfold drop
  dsimp only
  generalize inbox.log = log
  induction gone generalizing log with
  | nil => rfl
  | cons held rest ih =>
    rw [List.map_cons,List.reverse_cons,List.append_assoc]
    exact ih (.dropped held :: log)

private theorem diff_front (gone rest : List Held) : (gone ++ rest).diff gone = rest := by
  induction gone with
  | nil => rfl
  | cons held gone ih =>
    rw [List.cons_append,List.diff_cons,List.erase_cons_head]
    exact ih

private theorem diff_apart {queue gone : List Held} (apart : ∀ held ∈ gone, held ∉ queue) : queue.diff gone = queue := by
  induction gone with
  | nil => rfl
  | cons held gone ih =>
    rw [List.diff_cons,List.erase_of_not_mem (apart held (List.mem_cons_self ..))]
    exact ih fun other member => apart other (List.mem_cons_of_mem _ member)

private theorem steer_mode (good : Good config given inbox) {held : Held} (member : held ∈ inbox.steers) : held.mode = .steer :=
  heldIn_mode (good.first ▸ member)

private theorem followUp_mode (good : Good config given inbox) {held : Held} (member : held ∈ inbox.followUps) :
    held.mode = .followUp := heldIn_mode (good.second ▸ member)

/-- The queues have no message in common. -/
private theorem queues_apart (good : Good config given inbox) {held : Held} (member : held ∈ inbox.steers) :
    held ∉ inbox.followUps := fun also => by
  have modes := (steer_mode good member).symm.trans (followUp_mode good also)
  cases modes

private theorem queues_nodup (good : Good config given inbox) : inbox.steers.Nodup ∧ inbox.followUps.Nodup := by
  have both := (List.nodup_append.mp good.own).2.1.of_map Held.id
  have queues := (List.nodup_append.mp both).1
  exact ⟨(List.nodup_append.mp queues).1,(List.nodup_append.mp queues).2.1⟩

private theorem shiftSteers_good (good : Good config given inbox) : Good config given (shiftSteers config around inbox) := by
  have dropped := drop_good (inbox.steers.takeWhile fun held => ¬stillWaiting config around held) good
  have apart : ∀ held ∈ inbox.steers.takeWhile fun held => ¬stillWaiting config around held, held ∉ inbox.followUps :=
    fun held member => queues_apart good ((List.takeWhile_sublist _).subset member)
  have front : inbox.steers.diff (inbox.steers.takeWhile fun held => ¬stillWaiting config around held) =
      inbox.steers.dropWhile fun held => ¬stillWaiting config around held := by
    have split := diff_front (inbox.steers.takeWhile fun held => ¬stillWaiting config around held)
      (inbox.steers.dropWhile fun held => ¬stillWaiting config around held)
    rwa [List.takeWhile_append_dropWhile] at split
  rw [front,diff_apart apart] at dropped
  exact dropped

private theorem shiftFollowUps_good (good : Good config given inbox) :
    Good config given (shiftFollowUps config around inbox) := by
  have dropped := drop_good (inbox.followUps.takeWhile fun held => ¬stillWaiting config around held) good
  have apart : ∀ held ∈ inbox.followUps.takeWhile fun held => ¬stillWaiting config around held, held ∉ inbox.steers :=
    fun held member also => queues_apart good also ((List.takeWhile_sublist _).subset member)
  have front : inbox.followUps.diff (inbox.followUps.takeWhile fun held => ¬stillWaiting config around held) =
      inbox.followUps.dropWhile fun held => ¬stillWaiting config around held := by
    have split := diff_front (inbox.followUps.takeWhile fun held => ¬stillWaiting config around held)
      (inbox.followUps.dropWhile fun held => ¬stillWaiting config around held)
    rwa [List.takeWhile_append_dropWhile] at split
  rw [front,diff_apart apart] at dropped
  exact dropped

private theorem diff_filter {queue : List Held} (distinct : queue.Nodup) (waits : Held → Bool) :
    queue.diff (queue.filter fun held => ¬waits held) = queue.filter waits := by
  rw [List.Nodup.diff_eq_filter distinct]
  refine List.filter_congr fun held member => ?_
  cases waiting : waits held <;> simp [waiting,member]

private theorem pruneWithdrawn_good (good : Good config given inbox) :
    Good config given (pruneWithdrawn config around inbox) := by
  have first := drop_good (inbox.steers.filter fun held => ¬stillWaiting config around held) good
  rw [diff_filter (queues_nodup good).1,
    diff_apart fun held member => queues_apart good (List.mem_of_mem_filter member)] at first
  have second := drop_good (inbox.followUps.filter fun held => ¬stillWaiting config around held) first
  have apart : ∀ held ∈ inbox.followUps.filter fun held => ¬stillWaiting config around held,
      held ∉ inbox.steers.filter (stillWaiting config around) :=
    fun held member also => queues_apart good (List.mem_of_mem_filter also) (List.mem_of_mem_filter member)
  have queue : inbox.followUps.diff (inbox.followUps.filter fun held => ¬stillWaiting config around held) =
      inbox.followUps.filter (stillWaiting config around) := diff_filter (queues_nodup good).2 _
  have steers : (inbox.steers.filter (stillWaiting config around)).diff
      (inbox.followUps.filter fun held => ¬stillWaiting config around held) =
      inbox.steers.filter (stillWaiting config around) := diff_apart apart
  unfold drop at second
  dsimp only at second
  rw [queue,steers] at second
  exact second

/-- Nothing is handed over but to a busy agent that is not parked, from the front of a queue. -/
private theorem pump_good {atBoundary : Bool} {event : Event} (now : current inbox.log = some (event,around.busy,around.parked))
    (boundary : atBoundary = true → event = .beforeSettle) (good : Good config given inbox) :
    Good config given (pump config around atBoundary inbox).2 := by
  unfold pump
  split
  · exact good
  next may =>
    simp only [not_or,Bool.not_eq_true,not_and,not_not] at may
    obtain ⟨-,standing,runs,busy,free⟩ := may
    have free : inbox.inFlight = none := by simpa using free
    have runs : inbox.active = true ∨ event = .beforeSettle := by
      cases active : inbox.active with
      | true => exact .inl rfl
      | false => exact .inr (boundary (by simpa [active] using runs))
    split
    · exact good
    split
    · exact pruneWithdrawn_good good
    next parked =>
      have parked : around.parked = false := by simpa using parked
      have busy : around.busy = true := by simpa using busy
      rw [busy,parked] at now
      have shifted := @shiftSteers_good config given inbox around good
      have now : current (shiftSteers config around inbox).log = some (event,true,false) := (drop_current _ _).trans now
      dsimp only
      split
      next next rest found =>
        have member : next ∈ (shiftSteers config around inbox).steers := found ▸ List.mem_cons_self ..
        have mode := steer_mode shifted member
        refine @handed_good config given (shiftSteers config around inbox) next rest
          (shiftSteers config around inbox).followUps event ?_ ?_ ?_ ?_ ?_ free standing now runs shifted
        · rw [mode,shifted.first,found]
          rfl
        · intro other
          rw [mode] at other
          cases other
        · rw [shifted.first,found,List.erase_cons_head]
        · rw [shifted.second,List.erase_of_not_mem (queues_apart shifted member)]
        · rw [found]
          exact List.Perm.refl _
      next none' =>
        split
        · exact shifted
        have again := @shiftFollowUps_good config given _ around shifted
        have now : current (shiftFollowUps config around (shiftSteers config around inbox)).log = some (event,true,false) :=
          (drop_current _ _).trans now
        have steers : (shiftFollowUps config around (shiftSteers config around inbox)).steers = [] := none'
        split
        next next rest found =>
          have member : next ∈ (shiftFollowUps config around (shiftSteers config around inbox)).followUps :=
            found ▸ List.mem_cons_self ..
          have mode := followUp_mode again member
          refine @handed_good config given (shiftFollowUps config around (shiftSteers config around inbox)) next
            (shiftFollowUps config around (shiftSteers config around inbox)).steers rest event ?_ ?_ ?_ ?_ ?_ free standing now
            runs again
          · rw [mode,again.second,found]
            rfl
          · exact fun _ => again.first.trans steers
          · rw [again.first,steers]
            rfl
          · rw [again.second,found,List.erase_cons_head]
          · rw [steers,found]
            exact List.Perm.refl _
        · exact again

end Pumps
section Events

variable {config : Config} {given frames : List Units} {inbox : Inbox} {around : Surroundings}

/-- What holds of an inbox between two events; `frames` are the ids of the frames that have come. -/
structure Whole (config : Config) (given frames : List Units) (inbox : Inbox) : Prop where
  good : Good config given inbox
  files : config.framed = false → inbox.arrived = []
  idle : inbox.attached = false → inbox.active = false ∧ inbox.inFlight = none
  order : config.framed = true → (taken inbox).Sublist frames

private theorem drop_queued (gone : List Held) (inbox : Inbox) : queuedIds (drop gone inbox).log = queuedIds inbox.log := by
  unfold drop
  dsimp only
  generalize inbox.log = log
  induction gone generalizing log with
  | nil => rfl
  | cons held rest ih =>
    rw [List.map_cons,List.reverse_cons,List.append_assoc]
    exact ih (.dropped held :: log)

private theorem prune_queued (inbox : Inbox) :
    queuedIds (pruneWithdrawn config around inbox).log = queuedIds inbox.log :=
  (drop_queued _ _).trans (drop_queued _ _)

private theorem pump_rest (atBoundary : Bool) (inbox : Inbox) :
    (pump config around atBoundary inbox).2.attached = inbox.attached ∧
      (pump config around atBoundary inbox).2.arrived = inbox.arrived ∧
      queuedIds (pump config around atBoundary inbox).2.log = queuedIds inbox.log := by
  unfold pump
  split
  · exact ⟨rfl,rfl,rfl⟩
  split
  · exact ⟨rfl,rfl,rfl⟩
  split
  · exact ⟨rfl,rfl,prune_queued inbox⟩
  dsimp only
  split
  · exact ⟨rfl,rfl,drop_queued _ _⟩
  split
  · exact ⟨rfl,rfl,drop_queued _ _⟩
  split
  · exact ⟨rfl,rfl,(drop_queued _ _).trans (drop_queued _ _)⟩
  · exact ⟨rfl,rfl,(drop_queued _ _).trans (drop_queued _ _)⟩

/-- Nothing is handed over before the inbox is attached. -/
private theorem pump_detached (atBoundary : Bool) (apart : inbox.attached = false) :
    (pump config around atBoundary inbox).2 = inbox := by
  unfold pump
  rw [if_pos (.inl (by rw [apart]; exact Bool.false_ne_true))]

theorem pump_whole (event : Event) (atBoundary : Bool) (now : current inbox.log = some (event,around.busy,around.parked))
    (boundary : atBoundary = true → event = .beforeSettle) (whole : Whole config given frames inbox) :
    Whole config given frames (pump config around atBoundary inbox).2 := by
  obtain ⟨attached,arrived,queued⟩ := @pump_rest config around atBoundary inbox
  refine ⟨pump_good now boundary whole.good,fun files => arrived.trans (whole.files files),?_,?_⟩
  · intro apart
    rw [attached] at apart
    rw [pump_detached atBoundary apart]
    exact whole.idle apart
  · intro framed
    unfold taken
    rw [arrived,queued]
    exact whole.order framed

theorem scan_whole (around : Surroundings) (begun : freshNames inbox.log = []) (whole : Whole config given frames inbox) :
    Whole config given (frames ++ around.frames.filterMap Frame.id) (scan config around inbox) := by
  have same := @scan_conduct config inbox around
  have attached : (scan config around inbox).attached = inbox.attached := congrArg (·.1) same
  have active : (scan config around inbox).active = inbox.active := congrArg (·.2.1) same
  have slot : (scan config around inbox).inFlight = inbox.inFlight := congrArg (·.2.2.1) same
  refine ⟨scan_good around begun whole.files whole.good,?_,?_,?_⟩
  · exact fun files => (scan_arrived around files).trans (whole.files files)
  · rw [attached,active,slot]
    exact whole.idle
  · exact fun framed => (scan_order around framed).trans ((whole.order framed).append_right _)

private theorem scan_now (inbox : Inbox) : current (scan config around inbox).log = current inbox.log :=
  congrArg (·.2.2.2) (scan_conduct around)

theorem prune_whole (around : Surroundings) (whole : Whole config given frames inbox) :
    Whole config given frames (pruneWithdrawn config around inbox) := by
  refine ⟨pruneWithdrawn_good whole.good,whole.files,whole.idle,?_⟩
  intro framed
  unfold taken
  rw [prune_queued]
  exact whole.order framed

theorem shut_whole (whole : Whole config given frames inbox) : Whole config given frames (shut inbox) := by
  have good := whole.good
  exact {
    good := { good with
      fits := fits_cons (fun _ _ same => by cases same) good.fits
      running := fun active => by cases active
      over' := rfl
      names := fun files => names_cons (good.names files [] inbox.log rfl) (good.names files) }
    files := whole.files
    idle := fun apart => ⟨rfl,(whole.idle apart).2⟩
    order := whole.order }

/-- An event begins. It may start or end the agent's run, and end the flight of the message whose end it is. -/
theorem event_whole (event : Event) (busy parked active : Bool) (slot : Option Held)
    (running : active = true → event = .agentStart ∨ inbox.active = true ∧ event ≠ .agentEnd)
    (landed : inFlightOf (.event event busy parked :: inbox.log) = slot.map Held.id)
    (idle : inbox.attached = false → active = false ∧ slot = none) (whole : Whole config given frames inbox) :
    Whole config given frames (note (.event event busy parked) { inbox with active := active, inFlight := slot }) := by
  have good := whole.good
  exact {
    good := { good with
      fits := fits_cons (fun _ _ same => by cases same) good.fits
      slot := landed
      running := by
        intro now
        rcases running now with rfl | ⟨before,other⟩
        · rfl
        · show runningIn (.event event busy parked :: inbox.log) = true
          cases event with
          | agentStart => rfl
          | agentEnd => exact absurd rfl other
          | _ => exact good.running before
      names := fun files => names_cons List.Pairwise.nil (good.names files) }
    files := whole.files
    idle := idle
    order := whole.order }

/-- An event that neither ends the run nor a flight. -/
theorem quiet_whole (event : Event) (busy parked : Bool) (other : event ≠ .agentEnd) (quiet : ∀ mine, event ≠ .messageEnd mine)
    (whole : Whole config given frames inbox) : Whole config given frames (note (.event event busy parked) inbox) := by
  refine event_whole event busy parked inbox.active inbox.inFlight (fun active => .inr ⟨active,other⟩) ?_ whole.idle whole
  rw [← whole.good.slot]
  cases event with
  | messageEnd mine => exact absurd rfl (quiet mine)
  | _ => rfl

private theorem wider_whole {later : List Units} (whole : Whole config given frames inbox) :
    Whole config given (frames ++ later) inbox :=
  ⟨whole.good,whole.files,whole.idle,fun framed => (whole.order framed).trans (List.sublist_append_left _ _)⟩

private theorem poll_whole (event : Event) (begun : freshNames inbox.log = [])
    (now : current inbox.log = some (event,around.busy,around.parked)) (whole : Whole config given frames inbox) :
    Whole config given (frames ++ around.frames.filterMap Frame.id) (poll config around inbox) :=
  pump_whole event false ((scan_now inbox).trans now) (fun boundary => by cases boundary) (scan_whole around begun whole)

/-- The message in flight has ended, and the next steer may go. -/
private theorem deliver_whole (mine : Option Units) (attached : inbox.attached = true) (whole : Whole config given frames inbox) :
    Whole config given frames
      (deliver config mine around (note (.event (.messageEnd mine) around.busy around.parked) inbox)) := by
  have slot := whole.good.slot
  have stays : (∀ held, inbox.inFlight = some held → mine ≠ some held.id) →
      Whole config given frames (note (.event (.messageEnd mine) around.busy around.parked) inbox) := by
    intro other
    refine event_whole (.messageEnd mine) around.busy around.parked inbox.active inbox.inFlight
      (fun active => .inr ⟨active,fun same => by cases same⟩) ?_ whole.idle whole
    cases mine with
    | none => exact slot
    | some id =>
      show (if inFlightOf inbox.log = some id then none else inFlightOf inbox.log) = _
      rw [slot]
      refine if_neg fun same => ?_
      obtain ⟨held,found,own⟩ := Option.map_eq_some_iff.mp same
      exact other held found (congrArg some own.symm)
  unfold deliver
  split
  next free =>
    refine stays fun held found => ?_
    rw [show inbox.inFlight = none from free] at found
    cases found
  next held found =>
    have found : inbox.inFlight = some held := found
    split
    next other =>
      refine stays fun again also => ?_
      rw [found] at also
      rw [← Option.some.inj also]
      exact other
    next own =>
      have own : mine = some held.id := not_not.mp own
      have landed : inFlightOf (.event (.messageEnd mine) around.busy around.parked :: inbox.log) =
          (none : Option Held).map Held.id := by
        rw [own]
        show (if inFlightOf inbox.log = some held.id then none else inFlightOf inbox.log) = none
        rw [slot,found]
        exact if_pos rfl
      have ended := event_whole (.messageEnd mine) around.busy around.parked inbox.active none
        (fun active => .inr ⟨active,fun same => by cases same⟩) landed
        (fun apart => by rw [attached] at apart; cases apart) whole
      have good := ended.good
      have told : Whole config given frames (note (.delivered held.id)
          (note (.event (.messageEnd mine) around.busy around.parked) { inbox with inFlight := none })) := {
        good := { good with
          fits := fits_cons (fun _ _ same => by cases same) good.fits
          names := fun files => names_cons
            (good.names files [] (.event (.messageEnd mine) around.busy around.parked :: inbox.log) rfl) (good.names files) }
        files := ended.files
        idle := ended.idle
        order := ended.order }
      exact pump_whole (.messageEnd mine) false rfl (fun boundary => by cases boundary)
        ⟨told.good,told.files,told.idle,told.order⟩

private theorem listen_whole (whole : Whole config given frames inbox) :
    Whole config given (frames ++ around.frames.filterMap Frame.id) (listen config around inbox) := by
  unfold listen
  split
  · exact wider_whole whole
  next may =>
    simp only [not_or,not_not] at may
    have framed : config.framed = true := may.1
    have reading : Whole config given frames { inbox with reading := true } :=
      ⟨whole.good,whole.files,whole.idle,whole.order⟩
    have same := (@readAvailable_conduct config { inbox with reading := true } around).1
    refine ⟨(readAvailable_good around reading.good).1,?_,?_,?_⟩
    · intro files
      rw [framed] at files
      cases files
    · rw [show (readAvailable config around { inbox with reading := true }).attached = inbox.attached from congrArg (·.1) same,
        show (readAvailable config around { inbox with reading := true }).active = inbox.active from congrArg (·.2.1) same,
        show (readAvailable config around { inbox with reading := true }).inFlight = inbox.inFlight from congrArg (·.2.2.1) same]
      exact whole.idle
    · exact fun framed => (readAvailable_conduct around).2.trans ((whole.order framed).append_right _)

/-- One event, whichever it is and whatever it meets. -/
theorem handle_whole (next : Event × Surroundings) (whole : Whole config given frames inbox) :
    Whole config given (frames ++ next.2.frames.filterMap Frame.id) (handle config inbox next) := by
  obtain ⟨event,around⟩ := next
  unfold handle happen
  dsimp only
  cases event with
  | attach =>
    have begun := quiet_whole .attach around.busy around.parked (fun same => by cases same)
      (fun _ same => by cases same) whole
    exact wider_whole ⟨begun.good,begun.files,fun apart => (by cases apart),begun.order⟩
  | listen =>
    exact listen_whole (quiet_whole .listen _ _ (fun same => by cases same) (fun _ same => by cases same) whole)
  | timer =>
    exact poll_whole .timer rfl rfl
      (quiet_whole .timer _ _ (fun same => by cases same) (fun _ same => by cases same) whole)
  | close =>
    have begun := shut_whole (quiet_whole .close around.busy around.parked (fun same => by cases same)
      (fun _ same => by cases same) whole)
    have last := prune_whole around (scan_whole around rfl begun)
    exact ⟨last.good,last.files,last.idle,last.order⟩
  | agentStart =>
    dsimp only
    have begun := quiet_whole .agentStart around.busy around.parked (fun same => by cases same)
      (fun _ same => by cases same) whole
    split
    · exact wider_whole begun
    next may =>
      simp only [not_or,not_not] at may
      have attached : inbox.attached = true := may.1
      have started := event_whole .agentStart around.busy around.parked true inbox.inFlight (fun _ => .inl rfl) whole.good.slot
        (fun apart => by rw [attached] at apart; cases apart) whole
      split
      · exact pump_whole .agentStart false (scan_now _) (fun boundary => by cases boundary) (scan_whole around rfl started)
      · exact wider_whole (pump_whole .agentStart false rfl (fun boundary => by cases boundary) started)
  | turnEnd =>
    dsimp only
    have begun := quiet_whole .turnEnd around.busy around.parked (fun same => by cases same)
      (fun _ same => by cases same) whole
    split
    · exact wider_whole begun
    · exact poll_whole .turnEnd rfl rfl begun
  | agentEnd =>
    dsimp only
    split
    next apart =>
      have idle := whole.idle (Bool.not_eq_true _ ▸ apart)
      exact wider_whole (event_whole .agentEnd around.busy around.parked inbox.active inbox.inFlight
        (fun active => by rw [idle.1] at active; cases active) whole.good.slot whole.idle whole)
    · exact wider_whole (event_whole .agentEnd around.busy around.parked false inbox.inFlight
        (fun active => by cases active) whole.good.slot (fun apart => ⟨rfl,(whole.idle apart).2⟩) whole)
  | messageEnd mine =>
    dsimp only
    split
    next apart =>
      have free := (whole.idle (Bool.not_eq_true _ ▸ apart)).2
      have landed : inFlightOf (.event (.messageEnd mine) around.busy around.parked :: inbox.log) =
          inbox.inFlight.map Held.id := by
        have slot := whole.good.slot
        rw [free] at slot ⊢
        cases mine with
        | none => exact slot
        | some id =>
          show (if inFlightOf inbox.log = some id then none else inFlightOf inbox.log) = none
          rw [slot]
          exact if_neg fun same => by cases same
      exact wider_whole (event_whole (.messageEnd mine) around.busy around.parked inbox.active inbox.inFlight
        (fun active => .inr ⟨active,fun same => by cases same⟩) landed whole.idle whole)
    next attached =>
      exact wider_whole (deliver_whole mine (not_not.mp attached) whole)
  | beforeSettle =>
    dsimp only
    have begun := quiet_whole .beforeSettle around.busy around.parked (fun same => by cases same)
      (fun _ same => by cases same) whole
    split
    · exact wider_whole begun
    · have last := @pump_whole config _ _ _ around .beforeSettle true (scan_now _) (fun _ => rfl) (scan_whole around rfl begun)
      split
      · exact last
      · exact shut_whole last
  | settled =>
    dsimp only
    have begun := quiet_whole .settled around.busy around.parked (fun same => by cases same)
      (fun _ same => by cases same) whole
    split
    · exact wider_whole begun
    · exact wider_whole (shut_whole begun)

end Events
section Runs

variable {config : Config} {given frames : List Units} {inbox : Inbox}

/-- The messages a transcript shows are marked, and those held are let go. -/
private theorem seed_whole (transcript : List Shown) (begun : inbox.log = []) (whole : Whole config given frames inbox) :
    Whole config (shownIds config transcript ++ given) frames (seed config transcript inbox) := by
  have good := whole.good
  have steers : inbox.steers = [] := by
    have first := good.first
    rw [begun] at first
    exact first.symm
  have followUps : inbox.followUps = [] := by
    have second := good.second
    rw [begun] at second
    exact second.symm
  have kept : ∀ queue : List Held, (queue.filter fun held => held.id ∉ shownIds config transcript).Sublist queue :=
    fun queue => List.filter_sublist
  have fewer : (ids (inbox.steers.filter (fun held => held.id ∉ shownIds config transcript) ++
        inbox.followUps.filter (fun held => held.id ∉ shownIds config transcript) ++
        inbox.arrived.filter fun held => held.id ∉ shownIds config transcript)).Sublist
      (ids (inbox.steers ++ inbox.followUps ++ inbox.arrived)) :=
    (((kept _).append (kept _)).append (kept _)).map _
  refine ⟨{ good with fits := ?_, first := ?_, second := ?_, own := ?_, known := ?_, given' := ?_, names := good.names },?_,
    whole.idle,?_⟩
  · intro after held message before split
    rw [show inbox.log = after ++ .handed held message :: before from split] at begun
    exact absurd begun (by simp)
  · show heldIn .steer inbox.log = inbox.steers.filter _
    rw [begun,steers]
    rfl
  · show heldIn .followUp inbox.log = inbox.followUps.filter _
    rw [begun,followUps]
    rfl
  · exact good.own.sublist ((List.Sublist.refl _).append fewer)
  · intro id member
    have old := good.known id (((List.Sublist.refl _).append fewer).subset member)
    refine ⟨List.mem_append_right _ old.1,fun inside => ?_⟩
    rcases List.mem_append.mp inside with shown | before
    · rcases List.mem_append.mp member with handed | queued
      · rw [show (seed config transcript inbox).log = [] from begun] at handed
        cases handed
      · obtain ⟨held,among,rfl⟩ := List.mem_map.mp queued
        have waits : ∀ queue : List Held, held ∈ queue.filter (fun held => held.id ∉ shownIds config transcript) → False :=
          fun queue inside => of_decide_eq_true (List.mem_filter.mp inside).2 shown
        rcases List.mem_append.mp among with both | arrived
        · rcases List.mem_append.mp both with steer | followUp
          · exact waits _ steer
          · exact waits _ followUp
        · exact waits _ arrived
    · exact old.2 before
  · intro id member
    rcases List.mem_append.mp member with shown | before
    · exact List.mem_append_left _ shown
    · exact List.mem_append_right _ (good.given' id before)
  · intro files
    show inbox.arrived.filter _ = []
    rw [whole.files files]
    rfl
  · intro framed
    exact ((List.Sublist.refl _).append ((kept _).map _)).trans (whole.order framed)

private theorem createInbox_whole (config : Config) (early : Surroundings) (transcript : List Shown) :
    Whole config (shownIds config transcript ++ config.seenIds) (early.frames.filterMap Frame.id)
      (createInbox config early transcript) := by
  have first : Whole config config.seenIds [] (fresh config) := by
    refine ⟨⟨?_,rfl,rfl,rfl,fun active => (by cases active),rfl,List.nodup_nil,?_,fun id member => member,?_⟩,fun _ => rfl,
      fun _ => ⟨rfl,rfl⟩,fun _ => List.Sublist.refl _⟩
    · intro after held message before split
      exact absurd (show [] = after ++ .handed held message :: before from split) (by simp)
    · intro id member
      cases member
    · intro _ after before split
      rw [(List.append_eq_nil_iff.mp (show [] = after ++ before from split).symm).2]
      exact List.Pairwise.nil
  have reading : Good config config.seenIds { fresh config with reading := true } := first.good
  have quiet : (listen config early (fresh config)).log = [] := by
    unfold listen
    split
    · rfl
    · exact (readAvailable_good early reading).2
  exact seed_whole transcript quiet (listen_whole first)

private theorem run_whole (events : List (Event × Surroundings)) (whole : Whole config given frames inbox) :
    Whole config given (frames ++ (events.flatMap fun next => next.2.frames).filterMap Frame.id)
      (events.foldl (handle config) inbox) := by
  induction events generalizing inbox frames with
  | nil =>
    rw [List.flatMap_nil,List.filterMap_nil,List.append_nil]
    exact whole
  | cons next rest ih =>
    rw [List.flatMap_cons,List.filterMap_append,← List.append_assoc]
    exact ih (handle_whole next whole)

/-- Whatever happens to an inbox, each message is handed over when it fits. Files are queued by scan and within a scan by name,
frames in the order in which they come. -/
theorem inbox_kept (config : Config) (early : Surroundings) (transcript : List Shown) (events : List (Event × Surroundings)) :
    let inbox := events.foldl (handle config) (createInbox config early transcript)
    (∀ after held message before, inbox.log = after ++ .handed held message :: before →
      Fits config (shownIds config transcript ++ config.seenIds) held message before) ∧
    (config.framed = false → ∀ after before, inbox.log = after ++ before →
      (freshNames before).Pairwise fun newer older => ¬newer < older) ∧
    (config.framed = true →
      (queuedIds inbox.log).reverse.Sublist ((early.frames ++ events.flatMap fun next => next.2.frames).filterMap Frame.id)) := by
  have whole := run_whole events (createInbox_whole config early transcript)
  refine ⟨whole.good.fits,whole.good.names,fun framed => ?_⟩
  rw [List.filterMap_append]
  exact (List.sublist_append_left _ _).trans (whole.order framed)

end Runs

section Late

def files : Config := ⟨wholeNumbers,false,[],id⟩

def paper (last : Char) : Text := (String.join ["\x7b\"v\":1,\"id\":\"",String.ofList (List.replicate 31 '0' ++ [last]),
  "\",\"mode\":\"steer\",\"source\":\"cli\",\"content\":\"go\"\x7d"]).toList

def steerFile (last : Char) : Text := "00000".toList ++ [last,'-'] ++ List.replicate 31 '0' ++ [last] ++ ".json".toList

/-- The files of these numbers are there, and the agent is busy. -/
def filed (numbers : List Char) : Surroundings :=
  ⟨true,false,some (numbers.map steerFile),fun name => match name[5]? with
    | some last => .file 100 (paper last)
    | none => .gone,fun name => name ∈ numbers.map steerFile,[],false⟩

private theorem late_handed : (match ([(.attach,filed []),(.timer,filed ['5']),(.timer,filed ['5','3']),
    (.agentStart,filed ['5','3'])].foldl (handle files) (createInbox files (filed []) [])).log with
    | .handed held _ :: before => (heldIn held.mode before).any fun other => other.name < held.name
    | _ => false) = true := by decide +kernel

/-- A lower name that a later scan is the first to read goes behind the higher one that is held already. -/
theorem late_name : ∃ after held message before other,
    ([(.attach,filed []),(.timer,filed ['5']),(.timer,filed ['5','3']),(.agentStart,filed ['5','3'])].foldl (handle files)
      (createInbox files (filed []) [])).log = after ++ .handed held message :: before ∧
    other ∈ heldIn held.mode before ∧ other.name < held.name := by
  have last := late_handed
  split at last
  next held message before run =>
    obtain ⟨other,member,lower⟩ := List.any_eq_true.mp last
    exact ⟨[],held,message,before,other,run,member,of_decide_eq_true lower⟩
  · cases last

end Late

end PiDispatch.RunnerInbox
