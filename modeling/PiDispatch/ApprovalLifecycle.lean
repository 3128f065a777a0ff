import PiDispatch.ApprovalState

/-! The life of an approval request: what a move can do to one, what every store keeps, and what holds over every run
of publishes and moves, whoever sends them and whatever their clocks say. -/
namespace PiDispatch.Approval
open Kernel

/-- A request that a due index holds. -/
def Indexed (record : Record) : Prop :=
  record.identity.expiresAt.isSome ∧
    (record.state = .pending ∨ record.state = .decided ∧ ∃ decision ∈ record.decision, decision.actor.kind = .system)

/-- What the phases of a request carry, and when a person's decision was dated. -/
structure Lifecycle (record : Record) : Prop where
  undecided : record.decision = none ↔ record.state = .pending
  unclaimed : record.jobId = none ↔ record.state = .pending ∨ record.state = .decided
  timely : ∀ decision ∈ record.decision, decision.actor.kind ≠ .system →
    ∀ deadline ∈ record.identity.expiresAt, decision.at' < deadline

/-- What a request keeps from then on. -/
structure Follows (record next : Record) : Prop where
  identity : next.identity = record.identity
  decision : ∀ decision ∈ record.decision, next.decision = some decision
  jobId : ∀ jobId ∈ record.jobId, next.jobId = some jobId
  finished : record.state = .finished → next = record

theorem follows_refl (record : Record) : Follows record record :=
  ⟨rfl,fun _ same => same,fun _ same => same,fun _ => rfl⟩

theorem follows_trans {record next last : Record} (first : Follows record next) (second : Follows next last) :
    Follows record last where
  identity := second.identity.trans first.identity
  decision := fun decision same => second.decision decision (first.decision decision same)
  jobId := fun jobId same => second.jobId jobId (first.jobId jobId same)
  finished := fun done => by
    have same := first.finished done
    rw [second.finished (by rw [same]; exact done),same]

/-- What a move that writes does. -/
structure Moved (record next : Record) (unindexed released : Bool) : Prop where
  follows : Follows record next
  lifecycle : Lifecycle next
  open' : record.state ≠ .finished
  freed : released = true ↔ next.state = .finished
  dropped : unindexed = true → ¬Indexed next
  kept : unindexed = false → (Indexed next ↔ Indexed record)

private theorem expired_iff (record : Record) (now : Instant) :
    record.expired now = true ↔ ∃ deadline ∈ record.identity.expiresAt, deadline ≤ now := by
  unfold Record.expired
  simp [Option.any_eq_true]

private theorem decided_moved {record : Record} (lifecycle : Lifecycle record) (pending : record.state = .pending)
    {decision : Decision} (timely : decision.actor.kind ≠ .system →
      ∀ deadline ∈ record.identity.expiresAt, decision.at' < deadline) :
    Moved record { record with decision := some decision, state := .decided } (decision.actor.kind ≠ .system) false := by
  have none' : record.decision = none := lifecycle.undecided.mpr pending
  have free : record.jobId = none := lifecycle.unclaimed.mpr (.inl pending)
  refine ⟨⟨rfl,?_,fun _ same => same,?_⟩,⟨by simp,by simp [free],?_⟩,?_,by simp,?_,?_⟩
  · intro decision same
    rw [none'] at same
    cases same
  · intro done
    rw [pending] at done
    cases done
  · intro own same
    obtain rfl := Option.some.inj same
    exact timely
  · rw [pending]
    exact fun same => nomatch same
  · intro human indexed
    rcases indexed.2 with same | ⟨_,own,same,system⟩
    · cases same
    · obtain rfl := Option.some.inj same
      exact of_decide_eq_true human system
  · intro system
    have system : decision.actor.kind = .system := not_not.mp (of_decide_eq_false system)
    constructor
    · exact fun indexed => ⟨indexed.1,.inl pending⟩
    · exact fun indexed => ⟨indexed.1,.inr ⟨rfl,decision,rfl,system⟩⟩

/-- Every move that writes, whatever the operation. -/
theorem transition_moved {record next : Record} {now : Instant} {op : Op} {unindexed released : Bool}
    (lifecycle : Lifecycle record) (writes : transition record now op = .ok (.writes next unindexed released)) :
    Moved record next unindexed released := by
  have declined : record.state = .pending →
      Moved record { record with decision := some (expiryDecline record now), state := .decided } false false :=
    fun pending => decided_moved lifecycle pending fun human => absurd rfl human
  cases op with
  | decide reply =>
    dsimp only [transition] at writes
    split at writes
    · split at writes <;> cases writes
    next open' =>
      have pending := not_not.mp open'
      split at writes
      · cases writes
        exact declined pending
      next early =>
        cases writes
        refine decided_moved lifecycle pending fun _ deadline same => ?_
        have ahead : ¬∃ deadline ∈ record.identity.expiresAt, deadline ≤ now := fun late =>
          early ((expired_iff record now).mpr late)
        exact lt_of_not_ge fun late => ahead ⟨deadline,same,late⟩
  | expire =>
    dsimp only [transition] at writes
    split at writes
    · split at writes <;> cases writes
    next open' =>
      split at writes
      · cases writes
        exact declined (not_not.mp open')
      · cases writes
  | claim jobId =>
    dsimp only [transition] at writes
    split at writes
    · cases writes
    split at writes
    · cases writes
    next open' =>
      have decided := not_not.mp open'
      cases writes
      have free : record.jobId = none := lifecycle.unclaimed.mpr (.inr decided)
      refine ⟨⟨rfl,fun _ same => same,?_,?_⟩,⟨?_,by simp,lifecycle.timely⟩,?_,by simp,?_,by simp⟩
      · intro jobId same
        rw [free] at same
        cases same
      · intro done
        rw [decided] at done
        cases done
      · simp [lifecycle.undecided,decided]
      · rw [decided]
        exact fun same => nomatch same
      · rintro _ ⟨_,same | ⟨same,_⟩⟩ <;> cases same
  | finish jobId =>
    dsimp only [transition] at writes
    split at writes
    · cases writes
    next own =>
      obtain ⟨claimed,named⟩ := not_or.mp own
      have claimed := not_not.mp claimed
      cases writes
      refine ⟨⟨rfl,fun _ same => same,fun _ same => same,?_⟩,⟨?_,?_,lifecycle.timely⟩,?_,by simp,?_,by simp⟩
      · intro done
        rw [claimed] at done
        cases done
      · simp [lifecycle.undecided,claimed]
      · simp [lifecycle.unclaimed,claimed]
      · rw [claimed]
        exact fun same => nomatch same
      · rintro _ ⟨_,same | ⟨same,_⟩⟩ <;> cases same
  | cancel jobId =>
    dsimp only [transition] at writes
    split at writes
    · cases writes
    next own =>
      split at writes
      · cases writes
      next open' =>
        cases writes
        refine ⟨⟨rfl,?_,?_,fun done => absurd done open'⟩,⟨by simp,by simp,?_⟩,open',by simp,?_,by simp⟩
        · intro decision same
          have same : record.decision = some decision := same
          simp [same]
        · intro jobId same
          have same : record.jobId = some jobId := same
          have claimed : record.state = .claimed := by
            have taken : ¬(record.state = .pending ∨ record.state = .decided) := fun early => by
              rw [lifecycle.unclaimed.mpr early] at same
              cases same
            cases state : record.state with
            | pending | decided => simp [state] at taken
            | claimed => rfl
            | finished => exact absurd state open'
          by_contra other
          exact own ⟨claimed,fun named => other (by rw [same] at named; exact named.symm ▸ rfl)⟩
        · intro decision same human deadline due
          cases known : record.decision with
          | none =>
            simp only [known,Option.getD_none] at same
            obtain rfl := Option.some.inj same
            exact absurd rfl human
          | some own =>
            simp only [known,Option.getD_some] at same
            obtain rfl := Option.some.inj same
            exact lifecycle.timely own known human deadline due
        · rintro _ ⟨_,same | ⟨same,_⟩⟩ <;> cases same

section Stores

variable (names : Names)

/-- The four kinds of keys agree. -/
structure Consistent (store : Store) : Prop where
  keyed : ∀ id record, store.requests id = some record → record.identity.requestId = id
  lifecycle : ∀ id record, store.requests id = some record → Lifecycle record
  target : ∀ id record, store.requests id = some record →
    (store.targets (names.approvalTargetKey record.identity) = some id ↔ record.state ≠ .finished)
  named : ∀ key id, store.targets key = some id →
    ∃ record, store.requests id = some record ∧ names.approvalTargetKey record.identity = key
  due : ∀ id record, store.requests id = some record → ((store.due id).isSome ↔ Indexed record)
  hostDue : ∀ id record, store.requests id = some record →
    ((store.hostDue (names.approvalDueKey record.identity.host) id).isSome ↔ Indexed record)
  fresh : ∀ id, store.requests id = none → store.due id = none ∧ ∀ index, store.hostDue index id = none
  seen : ∀ id request, (id,request) ∈ store.seen → ∃ record, store.requests id = some record ∧ record.identity = request

variable {names}

private theorem consistent_empty : Consistent names Store.empty where
  keyed := fun _ _ none => nomatch none
  lifecycle := fun _ _ none => nomatch none
  target := fun _ _ none => nomatch none
  named := fun _ _ none => nomatch none
  due := fun _ _ none => nomatch none
  hostDue := fun _ _ none => nomatch none
  fresh := fun _ _ => ⟨rfl,fun _ => rfl⟩
  seen := fun _ _ member => absurd member List.not_mem_nil

private theorem zadd_self (index : String → Option Instant) (deadline : Option Instant) (id : String)
    (absent : index id = none) : (zadd index deadline id id).isSome ↔ deadline.isSome := by
  cases deadline <;> simp [zadd,absent]

private theorem zadd_other (index : String → Option Instant) (deadline : Option Instant) {id other : String}
    (apart : other ≠ id) : zadd index deadline id other = index other := by
  cases deadline <;> simp [zadd,apart]

private theorem zrem_other (index : String → Option Instant) {id other : String} (apart : other ≠ id) :
    zrem index id other = index other := by simp [zrem,apart]

private theorem host_other (hostDue : String → String → Option Instant) (index : String)
    (changed : String → Option Instant) {other : String} (same : changed other = hostDue index other) (key : String) :
    Function.update hostDue index changed key other = hostDue key other := by
  by_cases own : key = index
  · rw [own,Function.update_self,same]
  · rw [Function.update_of_ne own]

private theorem write_due (store : Store) (id target index : String) (next : Record) (unindexed released : Bool)
    {other : String} (apart : other ≠ next.identity.requestId) :
    (store.write id target index next unindexed released).due other = store.due other ∧
      ∀ key, (store.write id target index next unindexed released).hostDue key other = store.hostDue key other := by
  unfold Store.write
  cases unindexed with
  | false => exact ⟨rfl,fun _ => rfl⟩
  | true => exact ⟨zrem_other _ apart,host_other _ _ _ (zrem_other _ apart)⟩

/-- A move's write keeps the keys in agreement. -/
private theorem write_consistent {store : Store} {id : String} {record next : Record} {unindexed released : Bool}
    (consistent : Consistent names store) (stored : store.requests id = some record)
    (moved : Moved record next unindexed released) :
    Consistent names (store.write id (names.approvalTargetKey record.identity)
      (names.approvalDueKey record.identity.host) next unindexed released) := by
  have own : next.identity.requestId = id := by rw [moved.follows.identity]; exact consistent.keyed id record stored
  have self : ∀ target index, (store.write id target index next unindexed released).requests id = some next :=
    fun _ _ => Function.update_self ..
  have others : ∀ target index other, other ≠ id →
      (store.write id target index next unindexed released).requests other = store.requests other :=
    fun _ _ _ apart => Function.update_of_ne apart ..
  have names' : store.targets (names.approvalTargetKey record.identity) = some id :=
    (consistent.target id record stored).mpr moved.open'
  refine ⟨?_,?_,?_,?_,?_,?_,?_,?_⟩
  · intro other found same
    by_cases apart : other = id
    · subst apart
      rw [self] at same
      cases same
      exact own
    · rw [others _ _ _ apart] at same
      exact consistent.keyed other found same
  · intro other found same
    by_cases apart : other = id
    · subst apart
      rw [self] at same
      cases same
      exact moved.lifecycle
    · rw [others _ _ _ apart] at same
      exact consistent.lifecycle other found same
  · intro other found same
    by_cases apart : other = id
    · subst apart
      rw [self] at same
      cases same
      rw [moved.follows.identity]
      cases released with
      | true => simp [Store.write,moved.freed.mp rfl]
      | false =>
        have open' : next.state ≠ .finished := fun done => absurd (moved.freed.mpr done) (by simp)
        simp [Store.write,names',open']
    · rw [others _ _ _ apart] at same
      rw [← consistent.target other found same]
      cases released with
      | false => rfl
      | true =>
        by_cases shared : names.approvalTargetKey found.identity = names.approvalTargetKey record.identity
        · rw [shared,names']
          simp [Store.write,Ne.symm apart]
        · simp [Store.write,shared]
  · intro key other same
    have before : store.targets key = some other := by
      cases released with
      | false => exact same
      | true =>
        by_cases shared : key = names.approvalTargetKey record.identity
        · simp [Store.write,shared] at same
        · simpa [Store.write,shared] using same
    obtain ⟨found,known,keyed⟩ := consistent.named key other before
    by_cases apart : other = id
    · subst apart
      rw [stored] at known
      cases known
      exact ⟨next,self _ _,by rw [moved.follows.identity]; exact keyed⟩
    · exact ⟨found,by rw [others _ _ _ apart]; exact known,keyed⟩
  · intro other found same
    by_cases apart : other = id
    · subst apart
      rw [self] at same
      cases same
      cases unindexed with
      | true => simp [Store.write,zrem,own,moved.dropped rfl]
      | false => exact (consistent.due other record stored).trans (moved.kept rfl).symm
    · rw [others _ _ _ apart] at same
      rw [(write_due store id _ _ next unindexed released (own ▸ apart)).1]
      exact consistent.due other found same
  · intro other found same
    by_cases apart : other = id
    · subst apart
      rw [self] at same
      cases same
      rw [moved.follows.identity]
      cases unindexed with
      | true => simp [Store.write,zrem,own,moved.dropped rfl]
      | false => exact (consistent.hostDue other record stored).trans (moved.kept rfl).symm
    · rw [others _ _ _ apart] at same
      rw [(write_due store id _ _ next unindexed released (own ▸ apart)).2]
      exact consistent.hostDue other found same
  · intro other same
    have apart : other ≠ id := by
      rintro rfl
      rw [self] at same
      cases same
    rw [others _ _ _ apart] at same
    obtain ⟨due,hostDue⟩ := write_due store id (names.approvalTargetKey record.identity)
      (names.approvalDueKey record.identity.host) next unindexed released (own ▸ apart)
    obtain ⟨absent,everywhere⟩ := consistent.fresh other same
    exact ⟨due.trans absent,fun index => (hostDue index).trans (everywhere index)⟩
  · intro other request member
    obtain ⟨found,known,same⟩ := consistent.seen other request member
    by_cases apart : other = id
    · subst apart
      rw [stored] at known
      cases known
      exact ⟨next,self _ _,moved.follows.identity.trans same⟩
    · exact ⟨found,by rw [others _ _ _ apart]; exact known,same⟩

/-- A fresh publish on a free target keeps the keys in agreement. -/
private theorem publish_consistent {store : Store} {request : Request} (consistent : Consistent names store)
    (fresh : store.requests request.requestId = none)
    (free : store.targets (names.approvalTargetKey request) = none) :
    Consistent names (PUBLISH names store request).2 := by
  obtain ⟨absent,everywhere⟩ := consistent.fresh request.requestId fresh
  have known : ∀ id record, store.requests id = some record → id ≠ request.requestId := by
    rintro id record stored rfl
    rw [fresh] at stored
    cases stored
  have shape : PUBLISH names store request = (.ok ⟨request,.pending,none,none⟩,
      { store with
        requests := Function.update store.requests request.requestId (some ⟨request,.pending,none,none⟩)
        targets := Function.update store.targets (names.approvalTargetKey request) (some request.requestId)
        due := zadd store.due request.expiresAt request.requestId
        hostDue := Function.update store.hostDue (names.approvalDueKey request.host)
          (zadd (store.hostDue (names.approvalDueKey request.host)) request.expiresAt request.requestId) }) := by
    simp [PUBLISH,fresh,free]
  rw [shape]
  have indexed : Indexed ⟨request,.pending,none,none⟩ ↔ request.expiresAt.isSome := by simp [Indexed]
  refine ⟨?_,?_,?_,?_,?_,?_,?_,?_⟩ <;> dsimp only
  · intro id record stored
    by_cases own : id = request.requestId
    · rw [own,Function.update_self] at stored
      cases stored
      exact own.symm
    · rw [Function.update_of_ne own] at stored
      exact consistent.keyed id record stored
  · intro id record stored
    by_cases own : id = request.requestId
    · rw [own,Function.update_self] at stored
      cases stored
      exact ⟨by simp,by simp,fun _ none => nomatch none⟩
    · rw [Function.update_of_ne own] at stored
      exact consistent.lifecycle id record stored
  · intro id record stored
    by_cases own : id = request.requestId
    · rw [own,Function.update_self] at stored
      cases stored
      simp [own]
    · rw [Function.update_of_ne own] at stored
      rw [← consistent.target id record stored]
      by_cases shared : names.approvalTargetKey record.identity = names.approvalTargetKey request
      · simp [shared,free,Ne.symm own]
      · rw [Function.update_of_ne shared]
  · intro key id named
    by_cases own : key = names.approvalTargetKey request
    · rw [own,Function.update_self] at named
      cases named
      exact ⟨_,Function.update_self ..,own.symm⟩
    · rw [Function.update_of_ne own] at named
      obtain ⟨record,stored,keyed⟩ := consistent.named key id named
      exact ⟨record,by rw [Function.update_of_ne (known id record stored)]; exact stored,keyed⟩
  · intro id record stored
    by_cases own : id = request.requestId
    · rw [own,Function.update_self] at stored
      cases stored
      rw [own,zadd_self _ _ _ absent,indexed]
    · rw [Function.update_of_ne own] at stored
      rw [zadd_other _ _ own]
      exact consistent.due id record stored
  · intro id record stored
    by_cases own : id = request.requestId
    · rw [own,Function.update_self] at stored
      cases stored
      rw [own,Function.update_self,zadd_self _ _ _ (everywhere _),indexed]
    · rw [Function.update_of_ne own] at stored
      rw [host_other _ _ _ (zadd_other _ _ own)]
      exact consistent.hostDue id record stored
  · intro id none'
    by_cases own : id = request.requestId
    · rw [own,Function.update_self] at none'
      cases none'
    · rw [Function.update_of_ne own] at none'
      obtain ⟨due,hostDue⟩ := consistent.fresh id none'
      refine ⟨(zadd_other _ _ own).trans due,fun index => ?_⟩
      rw [host_other _ _ _ (zadd_other _ _ own)]
      exact hostDue index
  · intro id seen member
    obtain ⟨record,stored,same⟩ := consistent.seen id seen member
    exact ⟨record,by rw [Function.update_of_ne (known id record stored)]; exact stored,same⟩

/-- The script of a move whose call read the request: it writes a move of the stored request, or changes nothing. -/
private theorem move_cases {store : Store} (consistent : Consistent names store) {id : String} {request : Request}
    (seen : (id,request) ∈ store.seen) (op : Op) (now : Instant) :
    ∃ record, store.requests id = some record ∧ record.identity = request ∧
      ((∃ next unindexed released, transition record now op = .ok (.writes next unindexed released) ∧
          Moved record next unindexed released ∧
          MOVE store id (names.approvalTargetKey request) (names.approvalDueKey request.host) op now =
            (.ok next,store.write id (names.approvalTargetKey request) (names.approvalDueKey request.host) next
              unindexed released)) ∨
        (MOVE store id (names.approvalTargetKey request) (names.approvalDueKey request.host) op now).2 = store ∧
        ∀ answered, (MOVE store id (names.approvalTargetKey request) (names.approvalDueKey request.host) op now).1 =
          .ok answered → answered = record ∧ (op.finishedBy record ∨ transition record now op = .ok .stays)) := by
  obtain ⟨record,stored,identity⟩ := consistent.seen id request seen
  refine ⟨record,stored,identity,?_⟩
  unfold MOVE
  rw [stored]
  dsimp only
  split
  next finished => exact .inr ⟨rfl,fun answered same => ⟨(Except.ok.inj same).symm,.inl finished⟩⟩
  split
  · exact .inr ⟨rfl,fun answered same => nomatch same⟩
  cases moves : transition record now op with
  | error refusal => exact .inr ⟨rfl,fun answered same => nomatch same⟩
  | ok change =>
    cases change with
    | stays => exact .inr ⟨rfl,fun answered same => ⟨(Except.ok.inj same).symm,.inr rfl⟩⟩
    | writes next unindexed released =>
      exact .inl ⟨next,unindexed,released,rfl,transition_moved (consistent.lifecycle id record stored) moves,rfl⟩

private theorem publish_cases (store : Store) (request : Request) :
    (∃ prior, store.requests request.requestId = some prior ∧ (PUBLISH names store request).2 = store ∧
        ∀ answered, (PUBLISH names store request).1 = .ok answered → prior.identity = request) ∨
      (PUBLISH names store request).2 = store ∧ (∀ answered, (PUBLISH names store request).1 ≠ .ok answered) ∨
      store.requests request.requestId = none ∧ store.targets (names.approvalTargetKey request) = none := by
  unfold PUBLISH
  dsimp only
  cases stored : store.requests request.requestId with
  | some prior =>
    refine .inl ⟨prior,rfl,?_⟩
    dsimp only
    split
    · exact ⟨rfl,fun answered same => nomatch same⟩
    next same => exact ⟨rfl,fun _ _ => not_not.mp same⟩
  | none =>
    dsimp only
    split
    · exact .inr (.inl ⟨rfl,fun answered same => nomatch same⟩)
    next free => exact .inr (.inr ⟨rfl,by simpa using free⟩)

private theorem published (store : Store) (request : Request) (fresh : store.requests request.requestId = none)
    (free : store.targets (names.approvalTargetKey request) = none) :
    (PUBLISH names store request).2.requests =
      Function.update store.requests request.requestId (some ⟨request,.pending,none,none⟩) := by
  simp [PUBLISH,fresh,free]

/-- One step keeps the keys in agreement and every request on its way. -/
private theorem step_kept {store : Store} (consistent : Consistent names store) (act : Act) (ok : allowed act store) :
    Consistent names (step names act store).2 ∧ ∀ id record, store.requests id = some record →
      ∃ next, (step names act store).2.requests id = some next ∧ Follows record next := by
  have still : ∀ {after : Store}, after = store → Consistent names after ∧ ∀ id record, store.requests id = some record →
      ∃ next, after.requests id = some next ∧ Follows record next := by
    rintro after rfl
    exact ⟨consistent,fun id record stored => ⟨record,stored,follows_refl record⟩⟩
  cases act with
  | publish request =>
    rcases @publish_cases names store request with ⟨_,_,same,_⟩ | ⟨same,_⟩ | ⟨fresh,free⟩
    · exact still same
    · exact still same
    refine ⟨publish_consistent consistent fresh free,?_⟩
    intro id record stored
    have apart : id ≠ request.requestId := by
      rintro rfl
      rw [fresh] at stored
      cases stored
    refine ⟨record,?_,follows_refl record⟩
    change (PUBLISH names store request).2.requests id = _
    rw [published store request fresh free,Function.update_of_ne apart]
    exact stored
  | read id =>
    unfold step
    dsimp only
    split
    · exact still rfl
    next record stored =>
      refine ⟨⟨consistent.keyed,consistent.lifecycle,consistent.target,consistent.named,consistent.due,
        consistent.hostDue,consistent.fresh,?_⟩,fun id record stored => ⟨record,stored,follows_refl record⟩⟩
      intro other request member
      rcases List.mem_cons.mp member with same | old
      · cases same
        exact ⟨record,stored,rfl⟩
      · exact consistent.seen other request old
  | move id request op now =>
    obtain ⟨record,stored,rfl,writes | ⟨same,_⟩⟩ := move_cases consistent ok op now
    · obtain ⟨next,unindexed,released,_,moved,shape⟩ := writes
      have after : (step names (.move id record.identity op now) store).2 = store.write id
          (names.approvalTargetKey record.identity) (names.approvalDueKey record.identity.host) next unindexed released :=
        congrArg Prod.snd shape
      rw [after]
      refine ⟨write_consistent consistent stored moved,?_⟩
      intro other found known
      by_cases own : other = id
      · subst own
        rw [stored] at known
        cases known
        exact ⟨next,Function.update_self ..,moved.follows⟩
      · exact ⟨found,(Function.update_of_ne own ..).trans known,follows_refl found⟩
    · exact still same

/-- What a request shows of a move that was answered ok on it. -/
def Done (record : Record) : Op → Prop
  | .decide reply => ∃ decision ∈ record.decision,
      decision.decisionId = reply.decisionId ∨ decision.actor = ⟨.system,"expiry"⟩
  | .expire => ∃ decision ∈ record.decision, decision.actor.kind = .system
  | .claim jobId => record.jobId = some jobId
  | .finish jobId | .cancel jobId => record.state = .finished ∧ record.jobId = some jobId

private theorem done_follows {record next : Record} (follows : Follows record next) {op : Op} (done : Done record op) :
    Done next op := by
  cases op with
  | decide reply =>
    obtain ⟨decision,known,same⟩ := done
    exact ⟨decision,follows.decision decision known,same⟩
  | expire =>
    obtain ⟨decision,known,same⟩ := done
    exact ⟨decision,follows.decision decision known,same⟩
  | claim jobId => exact follows.jobId jobId done
  | finish jobId =>
    rw [follows.finished done.1]
    exact done
  | cancel jobId =>
    rw [follows.finished done.1]
    exact done

private theorem stays_done {record : Record} {now : Instant} {op : Op} (stays : transition record now op = .ok .stays) :
    Done record op := by
  cases op with
  | decide reply =>
    dsimp only [transition] at stays
    split at stays
    · split at stays
      next same =>
        obtain ⟨decision,known,same⟩ := (Option.any_eq_true _ _).mp same
        exact ⟨decision,known,.inl (of_decide_eq_true same)⟩
      · cases stays
    · split at stays <;> cases stays
  | expire =>
    dsimp only [transition] at stays
    split at stays
    · split at stays
      next same =>
        obtain ⟨decision,known,same⟩ := (Option.any_eq_true _ _).mp same
        exact ⟨decision,known,of_decide_eq_true same⟩
      · cases stays
    · split at stays <;> cases stays
  | claim jobId =>
    dsimp only [transition] at stays
    split at stays
    next own => exact own.2
    · split at stays <;> cases stays
  | finish jobId =>
    dsimp only [transition] at stays
    split at stays <;> cases stays
  | cancel jobId =>
    dsimp only [transition] at stays
    split at stays
    · cases stays
    · split at stays <;> cases stays

private theorem writes_done {record next : Record} {now : Instant} {op : Op} {unindexed released : Bool}
    (writes : transition record now op = .ok (.writes next unindexed released)) : Done next op := by
  cases op with
  | decide reply =>
    dsimp only [transition] at writes
    split at writes
    · split at writes <;> cases writes
    split at writes
    · cases writes
      exact ⟨_,rfl,.inr rfl⟩
    · cases writes
      exact ⟨_,rfl,.inl rfl⟩
  | expire =>
    dsimp only [transition] at writes
    split at writes
    · split at writes <;> cases writes
    split at writes
    · cases writes
      exact ⟨_,rfl,rfl⟩
    · cases writes
  | claim jobId =>
    dsimp only [transition] at writes
    split at writes
    · cases writes
    split at writes
    · cases writes
    · cases writes
      rfl
  | finish jobId =>
    dsimp only [transition] at writes
    split at writes
    · cases writes
    next own =>
      cases writes
      exact ⟨rfl,not_not.mp (not_or.mp own).2⟩
  | cancel jobId =>
    dsimp only [transition] at writes
    split at writes
    · cases writes
    split at writes
    · cases writes
    · cases writes
      exact ⟨rfl,rfl⟩

private theorem finishedBy_done {record : Record} {op : Op} (finished : op.finishedBy record) : Done record op := by
  cases op with
  | finish jobId => simpa [Op.finishedBy,Done] using finished
  | cancel jobId => simpa [Op.finishedBy,Done] using finished
  | decide reply => cases finished
  | expire => cases finished
  | claim jobId => cases finished

/-- What the store shows of an act that was answered ok. -/
def Shows (store : Store) : Act → Prop
  | .publish request => ∃ record, store.requests request.requestId = some record ∧ record.identity = request
  | .read _ => True
  | .move id request op _ => ∃ record, store.requests id = some record ∧ record.identity = request ∧ Done record op

private theorem shows_kept {store after : Store} (kept : ∀ id record, store.requests id = some record →
      ∃ next, after.requests id = some next ∧ Follows record next) {act : Act} (shows' : Shows store act) :
    Shows after act := by
  cases act with
  | publish request =>
    obtain ⟨record,stored,same⟩ := shows'
    obtain ⟨next,found,follows⟩ := kept _ record stored
    exact ⟨next,found,follows.identity.trans same⟩
  | read id => trivial
  | move id request op now =>
    obtain ⟨record,stored,same,done⟩ := shows'
    obtain ⟨next,found,follows⟩ := kept _ record stored
    exact ⟨next,found,follows.identity.trans same,done_follows follows done⟩

private theorem step_shows {store : Store} (consistent : Consistent names store) (act : Act) (ok : allowed act store)
    {answered : Record} (answer : (step names act store).1 = .ok answered) : Shows (step names act store).2 act := by
  cases act with
  | publish request =>
    rcases @publish_cases names store request with ⟨prior,stored,same,own⟩ | ⟨_,refused⟩ | ⟨fresh,free⟩
    · refine ⟨prior,?_,own answered answer⟩
      change (PUBLISH names store request).2.requests _ = _
      rw [same]
      exact stored
    · exact absurd answer (refused answered)
    · refine ⟨⟨request,.pending,none,none⟩,?_,rfl⟩
      change (PUBLISH names store request).2.requests _ = _
      rw [published store request fresh free]
      exact Function.update_self ..
  | read id => trivial
  | move id request op now =>
    obtain ⟨record,stored,same,writes | ⟨still,told⟩⟩ := move_cases consistent ok op now
    · obtain ⟨next,unindexed,released,wrote,moved,shape⟩ := writes
      refine ⟨next,?_,moved.follows.identity.trans same,writes_done wrote⟩
      change (MOVE store id _ _ op now).2.requests id = _
      rw [shape]
      exact Function.update_self ..
    · obtain ⟨rfl,how⟩ := told answered answer
      refine ⟨answered,?_,same,how.elim finishedBy_done stays_done⟩
      change (MOVE store id _ _ op now).2.requests id = _
      rw [still]
      exact stored

/-- The script on keys in agreement: its target check is that the request has not finished. -/
private theorem move_open {store : Store} (consistent : Consistent names store) {id : String} {record : Record}
    (stored : store.requests id = some record) (op : Op) (now : Instant) :
    step names (.move id record.identity op now) store =
      if op.finishedBy record then (.ok record,store)
      else if record.state = .finished then (.error .requestStale,store)
      else match transition record now op with
        | .error refusal => (.error refusal,store)
        | .ok .stays => (.ok record,store)
        | .ok (.writes next unindexed released) => (.ok next,store.write id (names.approvalTargetKey record.identity)
            (names.approvalDueKey record.identity.host) next unindexed released) := by
  have named : store.targets (names.approvalTargetKey record.identity) ≠ some record.identity.requestId ↔
      record.state = .finished := by
    rw [consistent.keyed id record stored,Ne,consistent.target id record stored,not_not]
  unfold step MOVE
  simp only [stored,named] <;> rfl

/-- The same operation on the same request, whatever its clock; a reply's marker is its decision id. -/
inductive SameMarker : Act → Act → Prop
  | publish (request : Request) : SameMarker (.publish request) (.publish request)
  | decide (id : String) (request : Request) (reply again : Reply) (now later : Instant)
      (same : again.decisionId = reply.decisionId) :
      SameMarker (.move id request (.decide reply) now) (.move id request (.decide again) later)
  | move (id : String) (request : Request) (op : Op) (now later : Instant) (marked : ∀ reply, op ≠ .decide reply) :
      SameMarker (.move id request op now) (.move id request op later)

/-- Where a repeat is refused: the request has finished since, or its deadline decided it in the reply's place. -/
def Excused (store : Store) : Act → Prop
  | .move id _ op _ => ∃ record, store.requests id = some record ∧ match op with
    | .decide reply => record.state = .finished ∨
        ∃ decision ∈ record.decision, decision.actor = ⟨.system,"expiry"⟩ ∧ decision.decisionId ≠ reply.decisionId
    | .expire | .claim _ => record.state = .finished
    | .finish _ | .cancel _ => False
  | _ => False

private theorem decided_open {record : Record} (lifecycle : Lifecycle record) {decision : Decision}
    (known : decision ∈ record.decision) : record.state ≠ .pending := by
  intro pending
  rw [lifecycle.undecided.mpr pending] at known
  cases known

private theorem repeat_finished {store : Store} (consistent : Consistent names store) {id : String} {record : Record}
    (stored : store.requests id = some record) {op : Op} {now : Instant} (finished : op.finishedBy record) :
    step names (.move id record.identity op now) store = (.ok record,store) := by
  rw [move_open consistent stored,if_pos finished]

private theorem repeat_stale {store : Store} (consistent : Consistent names store) {id : String} {record : Record}
    (stored : store.requests id = some record) {op : Op} {now : Instant} (other : ¬op.finishedBy record)
    (finished : record.state = .finished) :
    step names (.move id record.identity op now) store = (.error .requestStale,store) := by
  rw [move_open consistent stored,if_neg other,if_pos finished]

private theorem repeat_answer {store : Store} (consistent : Consistent names store) {id : String} {record : Record}
    (stored : store.requests id = some record) {op : Op} {now : Instant} (other : ¬op.finishedBy record)
    (open' : record.state ≠ .finished) {good : Prop} [Decidable good] {refusal : Refusal}
    (told : transition record now op = if good then .ok .stays else .error refusal) :
    step names (.move id record.identity op now) store =
      (if good then .ok record else .error refusal,store) := by
  rw [move_open consistent stored,if_neg other,if_neg open',told]
  by_cases holds : good <;> simp [holds]

/-- A repeated move changes nothing and is answered ok unless it is excused. -/
private theorem repeat_move {store : Store} (consistent : Consistent names store) {id : String} {record : Record}
    (stored : store.requests id = some record) {op again : Op} (done : Done record op) (now : Instant)
    (same : again = op ∧ (∀ reply, op ≠ .decide reply) ∨ ∃ reply other, op = .decide reply ∧ again = .decide other ∧
      other.decisionId = reply.decisionId) :
    (step names (.move id record.identity again now) store).2 = store ∧
      ((∃ answered, (step names (.move id record.identity again now) store).1 = .ok answered) ↔
        ¬Excused store (.move id record.identity again now)) := by
  have lifecycle := consistent.lifecycle id record stored
  have unique : ∀ other, store.requests id = some other → other = record := fun other known =>
    Option.some.inj (known.symm.trans stored)
  have answer : ∀ (good : Prop) [Decidable good] (refusal : Refusal),
      step names (.move id record.identity again now) store = (if good then .ok record else .error refusal,store) →
      (good ↔ ¬Excused store (.move id record.identity again now)) →
      (step names (.move id record.identity again now) store).2 = store ∧
      ((∃ answered, (step names (.move id record.identity again now) store).1 = .ok answered) ↔
        ¬Excused store (.move id record.identity again now)) := by
    intro good _ refusal shape means
    rw [shape,← means]
    refine ⟨rfl,?_⟩
    by_cases holds : good <;> simp [holds]
  have stale : (¬again.finishedBy record) → record.state = .finished →
      Excused store (.move id record.identity again now) →
      (step names (.move id record.identity again now) store).2 = store ∧
      ((∃ answered, (step names (.move id record.identity again now) store).1 = .ok answered) ↔
        ¬Excused store (.move id record.identity again now)) := by
    intro other finished excused
    rw [repeat_stale consistent stored other finished]
    exact ⟨rfl,(by rintro ⟨_,⟨⟩⟩),fun free => absurd excused free⟩
  rcases same with ⟨rfl,marked⟩ | ⟨reply,other,rfl,rfl,same⟩
  · cases again with
    | decide reply => exact absurd rfl (marked reply)
    | expire =>
      obtain ⟨decision,known,system⟩ := done
      by_cases finished : record.state = .finished
      · exact stale (by simp [Op.finishedBy]) finished ⟨record,stored,finished⟩
      refine answer True .alreadyDecided
        (repeat_answer consistent stored (by simp [Op.finishedBy]) finished ?_) ?_
      · have any : record.decision.any (fun decision => decision.actor.kind = .system) = true :=
          (Option.any_eq_true _ _).mpr ⟨decision,known,decide_eq_true system⟩
        simp [transition,decided_open lifecycle known,any]
      · simp only [true_iff]
        rintro ⟨own,found,over'⟩
        rw [unique own found] at over'
        exact finished over'
    | claim jobId =>
      by_cases finished : record.state = .finished
      · exact stale (by simp [Op.finishedBy]) finished ⟨record,stored,finished⟩
      have claimed : record.state = .claimed := by
        have taken : ¬(record.state = .pending ∨ record.state = .decided) := fun early => by
          have free := lifecycle.unclaimed.mpr early
          rw [show record.jobId = some jobId from done] at free
          cases free
        cases state : record.state with
        | pending | decided => simp [state] at taken
        | claimed => rfl
        | finished => exact absurd state finished
      refine answer True .notDecided
        (repeat_answer consistent stored (by simp [Op.finishedBy]) finished ?_) ?_
      · simp [transition,claimed,show record.jobId = some jobId from done]
      · simp only [true_iff]
        rintro ⟨own,found,over'⟩
        rw [unique own found] at over'
        exact finished over'
    | finish jobId =>
      have finished : Op.finishedBy (.finish jobId) record := by simpa [Op.finishedBy,Done] using done
      rw [repeat_finished consistent stored finished]
      exact ⟨rfl,(by rintro _ ⟨_,_,excused⟩; exact excused),fun _ => ⟨record,rfl⟩⟩
    | cancel jobId =>
      have finished : Op.finishedBy (.cancel jobId) record := by simpa [Op.finishedBy,Done] using done
      rw [repeat_finished consistent stored finished]
      exact ⟨rfl,(by rintro _ ⟨_,_,excused⟩; exact excused),fun _ => ⟨record,rfl⟩⟩
  · obtain ⟨decision,known,marked⟩ := done
    by_cases finished : record.state = .finished
    · exact stale (by simp [Op.finishedBy]) finished ⟨record,stored,.inl finished⟩
    have told : transition record now (.decide other) =
        if decision.decisionId = other.decisionId then .ok .stays else .error .alreadyDecided := by
      have known : record.decision = some decision := known
      simp [transition,decided_open lifecycle known,known]
    refine answer _ _ (repeat_answer consistent stored (by simp [Op.finishedBy]) finished told) ?_
    constructor
    · rintro named ⟨own,found,over' | ⟨late,expiry,_,apart⟩⟩
      · rw [unique own found] at over'
        exact finished over'
      · rw [unique own found] at expiry
        rw [Option.some.inj (expiry.symm.trans known)] at apart
        exact apart named
    · intro free
      by_contra apart
      refine free ⟨record,stored,.inr ⟨decision,known,?_,apart⟩⟩
      rcases marked with same' | expiry
      · exact absurd (same'.trans same.symm) apart
      · exact expiry

/-- Where every request stands, and what repeats of what was answered ok come to. -/
structure ApprovalLaw (names : Names) (past : List (Act × Except Refusal Record)) (store : Store) : Prop where
  pointed : ∀ key id, store.targets key = some id →
    ∃ record, store.requests id = some record ∧ names.approvalTargetKey record.identity = key
  target : ∀ id record, store.requests id = some record →
    (store.targets (names.approvalTargetKey record.identity) = some id ↔ record.state ≠ .finished)
  timely : ∀ id record, store.requests id = some record → ∀ decision ∈ record.decision,
    decision.actor.kind ≠ .system → ∀ deadline ∈ record.identity.expiresAt, decision.at' < deadline
  due : ∀ id record, store.requests id = some record → ((store.due id).isSome ↔ Indexed record) ∧
    ((store.hostDue (names.approvalDueKey record.identity.host) id).isSome ↔ Indexed record)
  claimedOnce : ∀ id request request' jobId jobId' now now' answered answered',
    (.move id request (.claim jobId) now,.ok answered) ∈ past →
    (.move id request' (.claim jobId') now',.ok answered') ∈ past → jobId = jobId'
  repeats : ∀ act again answered, (act,.ok answered) ∈ past → SameMarker act again → allowed again store →
    (step names again store).2 = store ∧
      ((∃ answered, (step names again store).1 = .ok answered) ↔ ¬Excused store again)

private theorem run_consistent {start : Store} (consistent : Consistent names start) {past : List (Act × Except Refusal Record)}
    {store : Store} (run : Runs (step names) allowed start past store) :
    Consistent names store ∧ (∀ id record, start.requests id = some record →
      ∃ next, store.requests id = some next ∧ Follows record next) ∧
    ∀ entry ∈ past, ∀ answered, entry.2 = .ok answered → Shows store entry.1 := by
  refine Runs.invariant (fun past store => Consistent names store ∧ (∀ id record, start.requests id = some record →
      ∃ next, store.requests id = some next ∧ Follows record next) ∧
    ∀ entry ∈ past, ∀ answered, entry.2 = .ok answered → Shows store entry.1) ?_ ?_ run
  · exact ⟨consistent,fun id record stored => ⟨record,stored,follows_refl record⟩,
      fun _ member => absurd member List.not_mem_nil⟩
  intro past store act ⟨holds,follows,shown⟩ ok
  obtain ⟨after,kept⟩ := step_kept holds act ok
  refine ⟨after,?_,?_⟩
  · intro id record stored
    obtain ⟨next,found,first⟩ := follows id record stored
    obtain ⟨last,reached,second⟩ := kept id next found
    exact ⟨last,reached,follows_trans first second⟩
  · intro entry member answered same
    rcases List.mem_cons.mp member with rfl | old
    · exact step_shows holds act ok same
    · exact shows_kept kept (shown entry old answered same)

private theorem claims_agree {store : Store} {id : String} {request request' : Request} {jobId jobId' : String}
    {now now' : Instant} (first : Shows store (.move id request (.claim jobId) now))
    (second : Shows store (.move id request' (.claim jobId') now')) : jobId = jobId' := by
  obtain ⟨record,stored,_,named⟩ := first
  obtain ⟨other,found,_,named'⟩ := second
  rw [stored] at found
  cases found
  exact Option.some.inj (named.symm.trans named')

private theorem repeat_again {store : Store} (consistent : Consistent names store) {act again : Act}
    (shown : Shows store act) (same : SameMarker act again) :
    (step names again store).2 = store ∧
      ((∃ answered, (step names again store).1 = .ok answered) ↔ ¬Excused store again) := by
  cases same with
  | publish request =>
    obtain ⟨record,stored,rfl⟩ := shown
    have shape : step names (.publish record.identity) store = (.ok record,store) := by simp [step,PUBLISH,stored]
    rw [shape]
    exact ⟨rfl,fun _ excused => excused,fun _ => ⟨record,rfl⟩⟩
  | decide id request reply other now later same =>
    obtain ⟨record,stored,rfl,done⟩ := shown
    exact repeat_move consistent stored done later (.inr ⟨reply,other,rfl,rfl,same⟩)
  | move id request op now later marked =>
    obtain ⟨record,stored,rfl,done⟩ := shown
    exact repeat_move consistent stored done later (.inl ⟨rfl,marked⟩)

section Samples

def sampleNames : Names where
  approvalTargetKey := fun _ => "run:approval:target:6d1dc7b0186e0690a330fac12274a6b7fae2f022c9d295d53221cbb804520ac0"
  approvalDueKey := fun _ => "run:approval:due:4a1796ac493525ff45c4e74eef19d7a30d2bfff7e693ef67e2a7e8efe62a98ef"

def sampleRequest : Request where
  requestId := "request-1"
  runId := "run-1"
  kind := "github"
  repo := "acme/web"
  targetType := .issue
  targetNumber := 7
  action := "budget-raise"
  toolCallId := "call-1"
  configDigest := "abc"
  sessionKey := "session-1"
  host := "host-1"
  createdAt := 1793188800000
  expiresAt := some 1793188801000
  sessionDigest := none
  hostQueue := none
  resumeJob := none

def sampleReply : Reply := ⟨"reply-1",.approved,⟨.forge,"123"⟩,by decide,"Proceed"⟩

/-- Published, approved in time and claimed. -/
def claimedActs : List Act :=
  [.publish sampleRequest,.read "request-1",.move "request-1" sampleRequest (.decide sampleReply) 1793188800500,
    .move "request-1" sampleRequest (.claim "resume-1") 1793188800600]

/-- Published, and approved at the deadline. -/
def lateActs : List Act :=
  [.publish sampleRequest,.read "request-1",.move "request-1" sampleRequest (.decide sampleReply) 1793188801000]

private theorem claimed_guarded : Guarded (step sampleNames) allowed .empty claimedActs :=
  ⟨trivial,trivial,List.mem_cons_self,List.mem_cons_self,trivial⟩

private theorem late_guarded : Guarded (step sampleNames) allowed .empty lateActs :=
  ⟨trivial,trivial,List.mem_cons_self,trivial⟩

end Samples

end Stores

end PiDispatch.Approval
