import PiDispatch.Allocation

/-! What the split's writers keep, whoever they are and however they interleave: what is stored is a valid split of
the envelope whose digest it carries, and every plan's write is bounded against the state its writer read. -/
namespace PiDispatch.Allocation
open Kernel Priorities

/-- No two of the held envelopes share a digest. -/
def Distinct (digest : Envelope → String) (held : Envelope → Prop) : Prop :=
  ∀ envelope other, held envelope → held other → digest envelope = digest other → envelope = other

/-- A valid split of a held envelope, under that envelope's digest. -/
structure Sound (digest : Envelope → String) (held : Envelope → Prop) (state : State) : Prop where
  split : ∃ envelope, held envelope ∧ state.envelopeDigest = digest envelope ∧ Fits envelope state.vector
  amounts : Held state

/-- A plan's write against a state: no entry moved more than the step, and no plan applied too recently. -/
def Bounded (envelope : Envelope) (before next : State) : Prop :=
  next.vector.allocations.keys = envelopeEntries envelope ∧
  (∃ pct ∈ envelope.delegation.maxStepPct,
    (∀ id ∈ envelopeEntries envelope, |amountOf next.vector id - amountOf before.vector id| ≤ stepOf envelope pct) ∧
    |next.vector.unallocated - before.vector.unallocated| ≤ stepOf envelope pct) ∧
  ¬tooSoon envelope.delegation before.lastPlanAt next.appliedAt

def Judged (digest : Envelope → String) (held : Envelope → Prop) (before next : State) : Prop :=
  ∀ kind, next.writer = .plan kind →
    ∃ envelope, held envelope ∧ next.envelopeDigest = digest envelope ∧ Bounded envelope before next

section Results

variable {ε α β : Type} {result : Except ε α}

private theorem map_ok {change : α → β} {value : β} (ok : result.map change = .ok value) :
    ∃ own, result = .ok own ∧ change own = value := by
  cases result with
  | error thrown => cases ok
  | ok own => exact ⟨own,rfl,Except.ok.inj ok⟩

private theorem map_error {change : α → β} {thrown : ε} (threw : result.map change = .error thrown) :
    result = .error thrown := by
  cases result with
  | error own => exact congrArg Except.error (Except.error.inj threw)
  | ok value => cases threw

private theorem bind_ok {next : α → Except ε β} {value : β} (ok : result.bind next = .ok value) :
    ∃ own, result = .ok own ∧ next own = .ok value := by
  cases result with
  | error thrown => cases ok
  | ok own => exact ⟨own,rfl,ok⟩

private theorem bind_error {next : α → Except ε β} {thrown : ε} (threw : result.bind next = .error thrown) :
    result = .error thrown ∨ ∃ own, result = .ok own ∧ next own = .error thrown := by
  cases result with
  | error own => exact .inl (congrArg Except.error (Except.error.inj threw))
  | ok own => exact .inr ⟨own,rfl,threw⟩

end Results

section Writers

variable {digest : Envelope → String} {held : Envelope → Prop}

private theorem envelopeNumbers_thrown {envelope : Envelope} {thrown : TypeError}
    (threw : envelopeNumbers envelope = .error thrown) : thrown = .envelope := by
  unfold envelopeNumbers at threw
  dsimp only at threw
  split at threw
  · exact (Except.error.inj threw).symm
  split at threw
  · exact (Except.error.inj threw).symm
  split at threw
  · exact (Except.error.inj threw).symm
  · cases threw

private theorem rebase_thrown {envelope : Envelope} {vector : Vector} :
    rebase vector envelope ≠ .error .current := by
  intro threw
  unfold rebase at threw
  split at threw
  next thrown numbers =>
    obtain rfl := Except.error.inj threw
    cases envelopeNumbers_thrown numbers
  split at threw <;> cases threw

private theorem repoShares_thrown {allocations : Dict String Int} {repos : Repos} :
    repoShares allocations repos ≠ .error .current := by
  intro threw
  unfold repoShares at threw
  dsimp only at threw
  split at threw <;> cases threw

private theorem neutralState_thrown {envelope : Envelope} (formed : envelope.WellFormed) (text : String)
    (now : Instant) (writer : StateWriter) (last : Option Instant) :
    neutralState envelope text now writer last ≠ .error .current := by
  intro threw
  exact allocate_current formed (fun _ none => absurd none (by simp)) (map_error threw)

private theorem held_of_fits {envelope : Envelope} (formed : envelope.WellFormed) {state : State}
    (fits : Fits envelope state.vector) (shares : Shares envelope.totalMicros state.repos) : Held state := by
  obtain ⟨amounts,left,most⟩ := fits_bounded formed fits
  refine ⟨?_,?_,micros_of_total formed left most,?_⟩
  · intro amount member
    exact micros_of_total formed (amounts amount member).1 (amounts amount member).2
  · rw [fits.keys]
    exact (sortTexts_perm _).mem_iff.mpr formed.other
  · intro repo member amount inside
    exact micros_of_total formed (shares repo member amount inside).1 (shares repo member amount inside).2

private theorem shares_empty (total : Int) : Shares total .empty := fun _ member => absurd member List.not_mem_nil

theorem neutralState_sound {envelope : Envelope} (formed : envelope.WellFormed) (holds : held envelope) {now : Instant}
    {writer : StateWriter} {last : Option Instant} {state : State}
    (ok : neutralState envelope (digest envelope) now writer last = .ok state) :
    Sound digest held state ∧ state.envelopeDigest = digest envelope ∧ state.writer = writer := by
  obtain ⟨neutral,made,rfl⟩ := map_ok ok
  have fits := neutralAllocation_fits formed made
  exact ⟨⟨⟨envelope,holds,rfl,fits⟩,held_of_fits formed fits (shares_empty _)⟩,rfl,rfl⟩

theorem rebased_sound {envelope : Envelope} (formed : envelope.WellFormed) (holds : held envelope) {now : Instant}
    {state next : State} (ok : rebased state envelope (digest envelope) now = .ok next) :
    Sound digest held next ∧ next.envelopeDigest = digest envelope ∧ next.writer = .envelopeChange := by
  unfold rebased at ok
  split at ok
  · exact neutralState_sound formed holds ok
  obtain ⟨vector,projected,ok⟩ := bind_ok ok
  obtain ⟨repos,shared,rfl⟩ := map_ok ok
  have fits := rebase_fits formed projected
  have shares := repoShares_shares (total_nonneg formed) (fits_bounded formed fits).1 shared
  exact ⟨⟨⟨envelope,holds,rfl,fits⟩,held_of_fits formed fits shares⟩,rfl,rfl⟩

private theorem rebased_thrown {envelope : Envelope} (formed : envelope.WellFormed) (text : String) (now : Instant)
    (state : State) : rebased state envelope text now ≠ .error .current := by
  intro threw
  unfold rebased at threw
  split at threw
  · exact neutralState_thrown formed _ _ _ _ threw
  rcases bind_error threw with projected | ⟨vector,_,threw⟩
  · exact rebase_thrown projected
  · exact repoShares_thrown (map_error threw)

theorem revertState_sound {host : Host} (formed : host.envelope.WellFormed) (holds : held host.envelope)
    (own : host.digest = digest host.envelope) {state next : State} {target : Target}
    (ok : revertState host state target = .ok next) : Sound digest held next ∧ next.writer = .operatorRevert := by
  unfold revertState at ok
  split at ok
  · obtain ⟨neutral,made,rfl⟩ := map_ok ok
    rw [own] at made
    obtain ⟨sound,_,writer⟩ := neutralState_sound formed holds made
    exact ⟨⟨sound.split,sound.amounts.1,sound.amounts.2,sound.amounts.3,sound.amounts.4⟩,writer⟩
  · obtain ⟨result,made,rfl⟩ := map_ok ok
    obtain ⟨fits,shares⟩ := (allocate_fits formed made).1 fun _ none => absurd none (by simp)
    exact ⟨⟨⟨host.envelope,holds,own,fits⟩,held_of_fits formed fits shares⟩,rfl⟩

private theorem revertState_thrown {host : Host} (formed : host.envelope.WellFormed) (state : State) (target : Target) :
    revertState host state target ≠ .error .current := by
  intro threw
  unfold revertState at threw
  split at threw
  · exact neutralState_thrown formed _ _ _ _ (map_error threw)
  · exact allocate_current formed (fun _ none => absurd none (by simp)) (map_error threw)

theorem planState_sound {host : Host} (formed : host.envelope.WellFormed) (holds : held host.envelope)
    (own : host.digest = digest host.envelope) {state : State} (fits : Fits host.envelope state.vector)
    (sender : Sender) (kind : PlanWriter) (plan : Plan) (waited : ¬tooSoon host.envelope.delegation state.lastPlanAt host.now)
    {result : Priorities.Allocation} {repos : Repos}
    (ok : allocate host.envelope (intWeights plan.weights) (some state.vector) repos = .ok result) :
    Sound digest held (planState host sender kind plan result) ∧
      Judged digest held state (planState host sender kind plan result) := by
  obtain ⟨whole,steps⟩ := allocate_fits formed ok
  obtain ⟨split,shares⟩ := whole fun vector same => Option.some.inj same ▸ fits
  refine ⟨⟨⟨host.envelope,holds,own,split⟩,held_of_fits formed split shares⟩,?_⟩
  intro _ _
  exact ⟨host.envelope,holds,own,split.keys,steps state.vector rfl,waited⟩

end Writers

section Programs

variable (digest : Envelope → String) (held : Envelope → Prop) (history : List Write)

def Answered (planId : String) : Prop :=
  ∃ write ∈ history, write.next.planId = some planId ∧ ∃ kind, write.next.writer = .plan kind

/-- What the callers ask the store for, told what a store of sound splits tells. -/
def splitContract : Contract Alloc where
  asks
    | .seed body _ => Sound digest held body ∧ ∀ kind, body.writer ≠ .plan kind
    | .compareAndSet current next => Sound digest held next ∧ Judged digest held current next
    | _ => True
  told
    | .getPlan,.ok (some stored) => ∃ state, stored = .json state.json ∧ Sound digest held state
    | .compareAndSet current next,.ok true => ∃ write ∈ history, write.current = some current ∧ write.next = next
    | _,_ => True

def Calm (thrown : Thrown) : Prop := thrown ≠ .type .current

variable {digest held history}

private theorem keeps_returning {α : Type} {good : α → Prop} {value : α} (holds : good value) :
    (returning value).Keeps (splitContract digest held history) (Program.Ends good Calm) := holds

private theorem keeps_ask (command : Command) (asks : (splitContract digest held history).asks command) :
    (ask command).Keeps (splitContract digest held history)
      (Program.Ends (fun reply => (splitContract digest held history).told command (.ok reply)) Calm) := by
  refine ⟨asks,?_⟩
  intro answer told
  cases answer with
  | error fault => exact fun same => nomatch same
  | ok reply => exact told

private theorem keeps_compute {α : Type} {good : α → Prop} {result : Except TypeError α}
    (calm : result ≠ .error .current) (ok : ∀ value, result = .ok value → good value) :
    (compute result).Keeps (splitContract digest held history) (Program.Ends good Calm) := by
  cases result with
  | error thrown =>
    intro same
    exact calm (by injection same with same; rw [same])
  | ok value => exact ok value rfl

private theorem keeps_record (outcome : AuditOutcome) :
    (record outcome).Keeps (splitContract digest held history) (Program.Ends (fun _ => True) Calm) :=
  keeps_ask (.append outcome) trivial

private theorem keeps_recordSystem (outcome : AuditOutcome) :
    (recordSystem outcome).Keeps (splitContract digest held history) (Program.Ends (fun _ => True) Calm) :=
  ⟨trivial,fun _ _ => trivial⟩

private theorem parse_sound {state : State} (sound : Sound digest held state) :
    parseState (some (.json state.json)) = .state state := parseState_json state sound.amounts

/-- A host whose digest is its envelope's. -/
structure Own (digest : Envelope → String) (held : Envelope → Prop) (host : Host) : Prop where
  holds : held host.envelope
  formed : host.envelope.WellFormed
  digest : host.digest = digest host.envelope

variable {host : Host}

private theorem keeps_seedState (own : Own digest held host) (corrupt : Option Stored) :
    (seedState host.envelope host.digest host.now corrupt).Keeps (splitContract digest held history)
      (Program.Ends (fun found => ∃ state, found = some state ∧ Sound digest held state) Calm) := by
  have made : ∀ seed, neutralState host.envelope host.digest host.now .default none = .ok seed →
      Sound digest held seed ∧ seed.writer = .default := by
    intro seed made
    rw [own.digest] at made
    obtain ⟨sound,_,writer⟩ := neutralState_sound own.formed own.holds made
    exact ⟨sound,writer⟩
  refine Program.keeps_andThen (keeps_compute (neutralState_thrown own.formed _ _ _ _) made) ?_
  intro seed ⟨sound,writer⟩
  have asks : (splitContract digest held history).asks (.seed seed corrupt) :=
    ⟨sound,fun kind plan => by rw [writer] at plan; cases plan⟩
  refine Program.keeps_andThen (keeps_ask _ asks) ?_
  intro won _
  split
  · exact Program.keeps_andThen (keeps_recordSystem _) fun _ _ => keeps_returning ⟨seed,rfl,sound⟩
  refine Program.keeps_andThen (keeps_ask .getPlan trivial) ?_
  intro text told
  apply keeps_returning
  cases text with
  | none => exact ⟨seed,rfl,sound⟩
  | some stored =>
    obtain ⟨state,rfl,valid⟩ := told
    rw [parse_sound valid]
    exact ⟨state,rfl,valid⟩

private theorem keeps_ensure (own : Own digest held host) :
    (ensure host.envelope host.digest host.now).Keeps (splitContract digest held history)
      (Program.Ends (fun found => ∃ state, found = some state ∧ Sound digest held state) Calm) := by
  refine Program.keeps_andThen (keeps_ask .getPlan trivial) ?_
  intro text told
  cases text with
  | none => exact keeps_seedState own none
  | some stored =>
    obtain ⟨state,rfl,valid⟩ := told
    rw [parse_sound valid]
    exact keeps_returning ⟨state,rfl,valid⟩

private theorem keeps_expectedDigest (text : String) :
    (expectedDigest text).Keeps (splitContract digest held history) (Program.Ends (fun _ => True) Calm) := by
  refine Program.keeps_andThen (keeps_ask .getExpected trivial) ?_
  intro expected _
  split
  · exact keeps_returning trivial
  · exact Program.keeps_andThen (keeps_ask (.setExpected text) trivial) fun _ _ => keeps_ask .getExpected trivial

/-- A reconciled host's state is sound, and it is of the host's own envelope unless the host may not enforce it. -/
def Settled (digest : Envelope → String) (held : Envelope → Prop) (host : Host) (reconciled : Reconciled) : Prop :=
  ∃ state, reconciled.state = some state ∧ Sound digest held state ∧
    (reconciled.mismatch = false → state.envelopeDigest = host.digest)

private theorem keeps_change (state : State) {next : Except TypeError State} {outcome : AuditOutcome} {again : Call Reconciled}
    (calm : next ≠ .error .current)
    (made : ∀ value, next = .ok value → Sound digest held value ∧ value.envelopeDigest = host.digest ∧
      ∀ kind, value.writer ≠ .plan kind)
    (rest : again.Keeps (splitContract digest held history) (Program.Ends (Settled digest held host) Calm)) :
    ((compute next).andThen fun next => (cas state next).andThen fun won =>
      if won then (recordSystem outcome).andThen fun _ => returning ⟨some next,false⟩ else again).Keeps
        (splitContract digest held history) (Program.Ends (Settled digest held host) Calm) := by
  refine Program.keeps_andThen (keeps_compute calm made) ?_
  intro next ⟨sound,own,writer⟩
  have asks : (splitContract digest held history).asks (.compareAndSet state next) :=
    ⟨sound,fun kind plan => absurd plan (writer kind)⟩
  refine Program.keeps_andThen (keeps_ask _ asks) ?_
  intro won _
  split
  · exact Program.keeps_andThen (keeps_recordSystem _) fun _ _ => keeps_returning ⟨next,rfl,sound,fun _ => own⟩
  · exact rest

private theorem keeps_round (own : Own digest held host) {again : Call Reconciled}
    (rest : again.Keeps (splitContract digest held history) (Program.Ends (Settled digest held host) Calm)) :
    (reconcileRound host again).Keeps (splitContract digest held history)
      (Program.Ends (Settled digest held host) Calm) := by
  have neutral : ∀ (writer : StateWriter) (last : Option Instant) (value : State), (∀ kind, writer ≠ .plan kind) →
      neutralState host.envelope host.digest host.now writer last = .ok value →
      Sound digest held value ∧ value.envelopeDigest = host.digest ∧ ∀ kind, value.writer ≠ .plan kind := by
    intro writer last value system made
    rw [own.digest] at made ⊢
    obtain ⟨sound,carries,wrote⟩ := neutralState_sound own.formed own.holds made
    exact ⟨sound,carries,wrote ▸ system⟩
  refine Program.keeps_andThen (keeps_ensure own) ?_
  rintro found ⟨state,rfl,sound⟩
  dsimp only
  split
  · refine Program.keeps_andThen (keeps_expectedDigest _) ?_
    intro expected _
    split
    · have reporting : (if host.reported then returning () else record .envelopeChangedExternally).Keeps
          (splitContract digest held history) (Program.Ends (fun _ => True) Calm) := by
        split
        · exact keeps_returning trivial
        · exact keeps_record _
      exact Program.keeps_andThen reporting fun _ _ => keeps_returning ⟨state,rfl,sound,fun same => nomatch same⟩
    · refine keeps_change state (rebased_thrown own.formed _ _ _) ?_ rest
      intro value made
      rw [own.digest] at made ⊢
      obtain ⟨sound,carries,wrote⟩ := rebased_sound own.formed own.holds made
      exact ⟨sound,carries,fun kind plan => by rw [wrote] at plan; cases plan⟩
  next same =>
    refine Program.keeps_andThen (keeps_expectedDigest _) ?_
    intro expected _
    split
    · exact keeps_change state (neutralState_thrown own.formed _ _ _ _)
        (fun value => neutral _ _ value fun kind plan => nomatch plan) rest
    split
    · exact keeps_change state (neutralState_thrown own.formed _ _ _ _)
        (fun value => neutral _ _ value fun kind plan => nomatch plan) rest
    · exact keeps_returning ⟨state,rfl,sound,fun _ => not_not.mp same⟩

private theorem keeps_rounds (own : Own digest held host) (rounds : Nat) :
    (reconcileRounds host rounds).Keeps (splitContract digest held history)
      (Program.Ends (Settled digest held host) Calm) := by
  induction rounds with
  | zero =>
    refine Program.keeps_andThen (keeps_ensure own) ?_
    rintro found ⟨state,rfl,sound⟩
    exact keeps_returning ⟨state,rfl,sound,fun same => not_not.mp (of_decide_eq_false same)⟩
  | succ rounds ih => exact keeps_round own ih

/-- An applied plan's write is in the history. -/
def Landed (history : List Write) : Outcome → Prop
  | .applied planId _ => Answered history planId
  | _ => True

private theorem keeps_refused (reason : Refusal) :
    (refused reason).Keeps (splitContract digest held history) (Program.Ends (Landed history) Calm) := by
  refine Program.keeps_andThen (keeps_record _) fun _ _ => keeps_returning ?_
  split <;> trivial

private theorem keeps_locked {mine : String} {busy body : Call Outcome}
    (refusing : busy.Keeps (splitContract digest held history) (Program.Ends (Landed history) Calm))
    (inside : body.Keeps (splitContract digest held history) (Program.Ends (Landed history) Calm)) :
    (locked mine busy body).Keeps (splitContract digest held history) (Program.Ends (Landed history) Calm) := by
  refine Program.keeps_andThen (keeps_ask (.takeLock mine) trivial) ?_
  intro taken _
  split
  · exact Program.keeps_bind inside fun _ ended => ⟨trivial,fun _ _ => ended⟩
  · exact refusing

private theorem keeps_writing {current next : State} {row : AuditOutcome} {outcome : Outcome}
    (sound : Sound digest held next) (judged : Judged digest held current next)
    (landed : ∀ write ∈ history, write.next = next → Landed history outcome) :
    (writing current next row outcome).Keeps (splitContract digest held history)
      (Program.Ends (Landed history) Calm) := by
  have asks : (splitContract digest held history).asks (.compareAndSet current next) := ⟨sound,judged⟩
  refine Program.keeps_andThen (keeps_record _) fun _ _ => ?_
  refine Program.keeps_andThen (keeps_ask _ asks) ?_
  intro won told
  cases won with
  | true =>
    obtain ⟨write,member,_,wrote⟩ := told
    exact keeps_returning (landed write member wrote)
  | false => exact Program.keeps_andThen (keeps_record _) fun _ _ => keeps_returning trivial

private theorem fits_own (distinct : Distinct digest held) (own : Own digest held host) {state : State} (sound : Sound digest held state)
    (same : state.envelopeDigest = host.digest) : Fits host.envelope state.vector := by
  obtain ⟨envelope,holds,carries,fits⟩ := sound.split
  rw [distinct host.envelope envelope own.holds holds (by rw [← own.digest,← same,carries])]
  exact fits

private theorem planRefusal_none {delegation : Delegation} {kind : Option PlanWriter} {plan : Plan} {complete : Bool}
    {planId : Option String} {last : Option Instant} {now : Instant}
    (passed : planRefusal delegation kind plan complete planId last now = none) : ¬tooSoon delegation last now := by
  unfold planRefusal at passed
  split at passed
  · cases passed
  split at passed
  · cases passed
  split at passed
  · cases passed
  split at passed
  · cases passed
  next waited => exact waited

private theorem keeps_applyJudged (distinct : Distinct digest held) (own : Own digest held host) (sender : Sender) (mine : String)
    (plan : Plan) (complete : Bool) :
    (applyJudged host sender mine plan complete).Keeps (splitContract digest held history)
      (Program.Ends (Landed history) Calm) := by
  unfold applyJudged
  split
  · exact keeps_refused _
  refine Program.keeps_andThen (keeps_rounds own 4) ?_
  rintro ⟨found,mismatch⟩ ⟨state,rfl,sound,same⟩
  dsimp only
  split
  · exact keeps_refused _
  next matched =>
    have fits := fits_own distinct own sound (same (Bool.eq_false_iff.mpr matched))
    split
    · exact keeps_refused _
    next passed =>
      refine keeps_locked (keeps_refused _) ?_
      refine Program.keeps_andThen (keeps_compute
        (allocate_current own.formed fun vector same => Option.some.inj same ▸ fits) fun result made => made) ?_
      intro result made
      split
      · exact keeps_refused _
      next kind _ =>
        obtain ⟨whole,step⟩ := planState_sound own.formed own.holds own.digest fits sender kind plan
          (planRefusal_none passed) made
        refine keeps_writing whole step ?_
        intro write member wrote
        exact ⟨write,member,by rw [wrote]; rfl,kind,by rw [wrote]; rfl⟩

private theorem keeps_applyPlan (distinct : Distinct digest held) (own : Own digest held host) (sender : Sender) (mine : String)
    (parsed : ParsedPlan) :
    (applyPlan host sender mine parsed).Keeps (splitContract digest held history)
      (Program.Ends (Landed history) Calm) := by
  cases parsed with
  | invalid => exact keeps_refused _
  | incomplete plan => exact keeps_applyJudged distinct own sender mine plan false
  | ok plan => exact keeps_applyJudged distinct own sender mine plan true

private theorem keeps_revert (own : Own digest held host) (mine : String) (target : Target) :
    (revert host mine target).Keeps (splitContract digest held history) (Program.Ends (Landed history) Calm) := by
  unfold revert
  split
  · exact keeps_refused _
  split
  · exact keeps_refused _
  refine Program.keeps_andThen (keeps_rounds own 4) ?_
  rintro ⟨found,mismatch⟩ ⟨state,rfl,sound,same⟩
  dsimp only
  split
  · exact keeps_refused _
  refine keeps_locked (keeps_refused _) ?_
  refine Program.keeps_andThen (keeps_compute (revertState_thrown own.formed state target)
    fun next made => revertState_sound own.formed own.holds own.digest made) ?_
  intro next ⟨whole,writer⟩
  refine keeps_writing whole (fun kind plan => by rw [writer] at plan; cases plan) ?_
  intro _ _ _
  trivial

end Programs

section Runs

inductive Result
  | reconciled (reconciled : Reconciled)
  | outcome (outcome : Outcome)
  | lapsed

/-- A command that is allowed works, or its answer is lost, with its effect or without. -/
def Serves (allowed : Fleet → Command → Prop) (fleet : Fleet) (command : Command)
    (reply : Except Fault command.Carrier) (next : Fleet) : Prop :=
  allowed fleet command ∧
  (reply = .ok (answer fleet command).1 ∧ next = (answer fleet command).2 ∨
    ∃ fault, reply = .error fault ∧ (next = fleet ∨ next = (answer fleet command).2))

/-- The calls of any hosts, and the ends of the lock's lives. -/
inductive Enters (digest : Envelope → String) (held : Envelope → Prop) : Call Result → Prop
  | reconcile (host : Host) (own : Own digest held host) :
      Enters digest held ((reconcile host).andThen fun reconciled => returning (.reconciled reconciled))
  | applyPlan (host : Host) (own : Own digest held host) (sender : Sender) (mine : String) (parsed : ParsedPlan) :
      Enters digest held ((applyPlan host sender mine parsed).andThen fun outcome => returning (.outcome outcome))
  | revert (host : Host) (own : Own digest held host) (mine : String) (target : Target) :
      Enters digest held ((revert host mine target).andThen fun outcome => returning (.outcome outcome))
  | lapse : Enters digest held ((ask .lapse).andThen fun _ => returning .lapsed)

def fleetAgency (digest : Envelope → String) (held : Envelope → Prop) (allowed : Fleet → Command → Prop) :
    Agency Alloc Fleet (Call Result) := callers (Serves allowed) (Enters digest held)

variable {digest : Envelope → String} {held : Envelope → Prop}

def anyCommand (_ : Fleet) (_ : Command) : Prop := True

/-- What is stored is a valid split of the envelope whose digest it carries, and no call has thrown on it. -/
def SplitValid (digest : Envelope → String) (held : Envelope → Prop) (world : World Fleet (Call Result)) : Prop :=
  (world.store.plan = none ∨ ∃ state envelope, parseState world.store.plan = .state state ∧ held envelope ∧
    state.envelopeDigest = digest envelope ∧ Fits envelope state.vector ∧ Held state) ∧
  ∀ agent ∈ world.agents, agent ≠ .done (.error (.type .current))

/-- A plan's write is bounded against the state that it replaced. -/
def Measured (envelope : Envelope) (write : Write) : Prop :=
  (∃ kind, write.next.writer = .plan kind) →
    ∃ before, parseState write.replaced = .state before ∧ Bounded envelope before write.next

/-- An applied plan has its write, and every write of it is bounded. -/
def StepBounded (envelope : Envelope) (world : World Fleet (Call Result)) : Prop :=
  ∀ planId clamped, .done (.ok (.outcome (.applied planId clamped))) ∈ world.agents →
    Answered world.store.writes planId ∧
    ∀ write ∈ world.store.writes, write.next.planId = some planId → Measured envelope write

/-- Where a plan's compare-and-set finds the ids it read, it finds the vector and the last plan's instant it read. -/
def Careful (fleet : Fleet) : Command → Prop
  | .compareAndSet current next => (∃ kind, next.writer = .plan kind) →
      (∃ stored ∈ fleet.plan, matchesRead stored current) →
      ∃ found, parseState fleet.plan = .state found ∧ found.vector = current.vector ∧
        found.lastPlanAt = current.lastPlanAt
  | _ => True

/-- A store of sound splits whose writes all meet a claim. -/
structure Kept (digest : Envelope → String) (held : Envelope → Prop) (claim : Write → Prop) (fleet : Fleet) : Prop where
  plan : ∀ stored ∈ fleet.plan, ∃ state, stored = .json state.json ∧ Sound digest held state
  writes : ∀ write ∈ fleet.writes, claim write

private theorem land_kept {claim : Write → Prop} {fleet : Fleet} {current : Option State} {next : State}
    (kept : Kept digest held claim fleet) (sound : Sound digest held next) (claimed : claim ⟨fleet.plan,current,next⟩) :
    Kept digest held claim (fleet.land current next) := by
  refine ⟨?_,?_⟩
  · intro stored same
    obtain rfl := Option.some.inj same
    exact ⟨next,rfl,sound⟩
  · intro write member
    rcases List.mem_cons.mp member with rfl | old
    · exact claimed
    · exact kept.writes write old

private theorem writes_grow (fleet : Fleet) (command : Command) : fleet.writes <:+ (answer fleet command).2.writes := by
  have landed : ∀ current next, fleet.writes <:+ (fleet.land current next).writes := fun _ _ => List.suffix_cons _ _
  cases command with
  | getPlan | getExpected | setExpected | append | lapse => exact List.suffix_rfl
  | seed body replacing =>
    cases replacing <;> unfold answer SEED_SCRIPT <;> dsimp only <;> split <;> first | exact landed _ _ | exact List.suffix_rfl
  | compareAndSet current next =>
    unfold answer CAS_SCRIPT
    dsimp only
    split
    · exact landed _ _
    · exact List.suffix_rfl
  | takeLock mine =>
    unfold answer
    dsimp only
    split <;> exact List.suffix_rfl
  | releaseLock mine =>
    unfold answer
    dsimp only
    split <;> exact List.suffix_rfl

private theorem answer_kept {claim : Write → Prop} {history : List Write} {fleet : Fleet} {command : Command}
    (kept : Kept digest held claim fleet) (asks : (splitContract digest held history).asks command)
    (seeded : ∀ body, (∀ kind, body.writer ≠ .plan kind) → claim ⟨fleet.plan,none,body⟩)
    (landed : ∀ current next, command = .compareAndSet current next → (CAS_SCRIPT fleet current next).1 = true →
      Judged digest held current next → claim ⟨fleet.plan,some current,next⟩) :
    Kept digest held claim (answer fleet command).2 := by
  cases command with
  | getPlan | getExpected | append => exact kept
  | setExpected | lapse => exact ⟨kept.plan,kept.writes⟩
  | seed body replacing =>
    have landing := land_kept kept asks.1 (seeded body asks.2)
    cases replacing <;> unfold answer SEED_SCRIPT <;> dsimp only <;> split <;>
      first | exact ⟨landing.plan,landing.writes⟩ | exact kept
  | compareAndSet current next =>
    have claimed := landed current next rfl
    unfold answer
    unfold CAS_SCRIPT at claimed ⊢
    dsimp only
    split
    next found =>
      rw [if_pos found] at claimed
      exact land_kept kept asks.1 (claimed rfl asks.2)
    · exact kept
  | takeLock mine =>
    unfold answer
    dsimp only
    split <;> exact ⟨kept.plan,kept.writes⟩
  | releaseLock mine =>
    unfold answer
    dsimp only
    split <;> exact ⟨kept.plan,kept.writes⟩

private theorem serves_told {claim : Write → Prop} {history : List Write} {fleet next : Fleet} {command : Command}
    {reply : Except Fault command.Carrier} {allowed : Fleet → Command → Prop} (kept : Kept digest held claim fleet)
    (served : Serves allowed fleet command reply next) (ends : next.writes <:+ history) :
    (splitContract digest held history).told command reply := by
  rcases served.2 with ⟨rfl,rfl⟩ | ⟨fault,rfl,_⟩
  · cases command with
    | getPlan =>
      cases stored : fleet.plan with
      | none =>
        have same : (answer fleet .getPlan).1 = none := stored
        rw [same]
        trivial
      | some text =>
        have same : (answer fleet .getPlan).1 = some text := stored
        rw [same]
        exact kept.plan text stored
    | compareAndSet current body =>
      cases won : (answer fleet (.compareAndSet current body)).1 with
      | false => trivial
      | true =>
        refine ⟨⟨fleet.plan,some current,body⟩,ends.subset ?_,rfl,rfl⟩
        unfold answer CAS_SCRIPT at won ⊢
        dsimp only at won ⊢
        split at won
        next found =>
          rw [if_pos found]
          exact List.mem_cons_self
        · cases won
    | seed | getExpected | setExpected | takeLock | releaseLock | append | lapse => trivial
  · cases command <;> trivial

private theorem serves_kept {claim : Write → Prop} {history : List Write} {fleet next : Fleet} {command : Command}
    {reply : Except Fault command.Carrier} {allowed : Fleet → Command → Prop} (kept : Kept digest held claim fleet)
    (asks : (splitContract digest held history).asks command)
    (seeded : ∀ body, (∀ kind, body.writer ≠ .plan kind) → claim ⟨fleet.plan,none,body⟩)
    (landed : ∀ current next, command = .compareAndSet current next → (CAS_SCRIPT fleet current next).1 = true →
      Judged digest held current next → claim ⟨fleet.plan,some current,next⟩)
    (served : Serves allowed fleet command reply next) : Kept digest held claim next := by
  have after := answer_kept kept asks seeded landed
  rcases served.2 with ⟨_,rfl⟩ | ⟨_,_,rfl | rfl⟩
  · exact after
  · exact kept
  · exact after

def EndsWell (history : List Write) : Result → Prop
  | .outcome outcome => Landed history outcome
  | _ => True

private theorem enters_keeps (distinct : Distinct digest held) (history : List Write) {program : Call Result}
    (entered : Enters digest held program) :
    program.Keeps (splitContract digest held history) (Program.Ends (EndsWell history) Calm) := by
  cases entered with
  | reconcile host own => exact Program.keeps_andThen (keeps_rounds own 4) fun _ _ => keeps_returning trivial
  | applyPlan host own sender mine parsed =>
    exact Program.keeps_andThen (keeps_applyPlan distinct own sender mine parsed) fun _ landed => keeps_returning landed
  | revert host own mine target =>
    exact Program.keeps_andThen (keeps_revert own mine target) fun _ landed => keeps_returning landed
  | lapse => exact Program.keeps_andThen (keeps_ask .lapse trivial) fun _ _ => keeps_returning trivial

private theorem fleet_keeps (distinct : Distinct digest held) {allowed : Fleet → Command → Prop} (claim : Write → Prop)
    (seeded : ∀ fleet body, (∀ kind, body.writer ≠ .plan kind) → claim ⟨Fleet.plan fleet,none,body⟩)
    (landed : ∀ fleet current next, allowed fleet (.compareAndSet current next) →
      (CAS_SCRIPT fleet current next).1 = true → Judged digest held current next → claim ⟨fleet.plan,some current,next⟩)
    {world : World Fleet (Call Result)} (reached : Reachable (fleetAgency digest held allowed) .empty world) :
    Kept digest held claim world.store ∧ ∀ program ∈ world.agents,
      program.Keeps (splitContract digest held world.store.writes) (Program.Ends (EndsWell world.store.writes) Calm) := by
  refine callers_keep (splitContract digest held world.store.writes) _ (Kept digest held claim)
    (fun fleet => fleet.writes <:+ world.store.writes) ?_ (fun program entered => enters_keeps distinct _ entered) ?_
    ⟨fun _ none => absurd none (by simp [Fleet.empty]),fun _ member => absurd member List.not_mem_nil⟩ reached List.suffix_rfl
  · intro fleet command reply next served ends
    have grown := writes_grow fleet command
    rcases served.2 with ⟨_,rfl⟩ | ⟨_,_,rfl | rfl⟩
    · exact grown.trans ends
    · exact ends
    · exact grown.trans ends
  · intro fleet command reply next ends kept asks served
    refine ⟨serves_kept kept asks (seeded fleet) ?_ served,serves_told kept served ends⟩
    rintro current body rfl won judged
    exact landed fleet current body served.1 won judged

/-- A plan's step is bounded against what it replaces, in every run whose plans' compare-and-sets find what was read. -/
theorem plan_step_bounded (digest : Envelope → String) (envelope : Envelope) {world : World Fleet (Call Result)}
    (reached : Reachable (fleetAgency digest (fun held => held = envelope) Careful) .empty world) :
    StepBounded envelope world := by
  have distinct : Distinct digest fun held => held = envelope := by
    rintro _ _ rfl rfl _
    rfl
  have landed : ∀ fleet current next, Careful fleet (.compareAndSet current next) →
      (CAS_SCRIPT fleet current next).1 = true → Judged digest (fun held => held = envelope) current next →
      Measured envelope ⟨fleet.plan,some current,next⟩ := by
    intro fleet current next careful won judged ⟨kind,plan⟩
    have found : ∃ stored ∈ fleet.plan, matchesRead stored current := by
      unfold CAS_SCRIPT at won
      split at won
      next found =>
        obtain ⟨stored,same,found⟩ := (Option.any_eq_true _ _).mp found
        exact ⟨stored,same,found⟩
      · cases won
    obtain ⟨before,parsed,vector,last⟩ := careful ⟨kind,plan⟩ found
    obtain ⟨_,rfl,_,keys,step,waited⟩ := judged kind plan
    exact ⟨before,parsed,keys,by rw [vector]; exact step,by rw [last]; exact waited⟩
  obtain ⟨kept,programs⟩ := fleet_keeps distinct (Measured envelope)
    (fun _ body system ⟨kind,plan⟩ => absurd plan (system kind)) landed reached
  intro planId clamped member
  exact ⟨programs _ member,fun write inside _ => kept.writes write inside⟩

section Samples

def sampleDelegation : Delegation := ⟨true,[.operatorSession],some 10,some 24,some 14⟩

def sampleEnvelope : Envelope where
  window := .day
  totalMicros := 10000000
  floors := .ofList [("_other",0),("alpha",0)]
  defaultWeights := .ofList [("_other",some 1),("alpha",some 1)]
  delegation := sampleDelegation

def sampleDigest (_ : Envelope) : String := "c02c85c2f6a638b2"

def sampleHost (now : Instant) : Host := ⟨sampleEnvelope,"c02c85c2f6a638b2",false,now⟩

def samplePlan : Plan where
  id := "722b0f87dc9ee953"
  basis := none
  weights := .ofList [("_other",0),("alpha",1000)]
  repoWeights := .empty
  reasons := .empty
  validUntil := 1784073600000

def neutralRow : Target := ⟨false,none,some (.ofList [("_other",some 1),("alpha",some 1)]),.empty⟩

def planCall : Call Result :=
  (applyPlan (sampleHost 1782864000000) ⟨some .operatorSession,none,none⟩ "a#1" (.ok samplePlan)).andThen fun outcome =>
    returning (.outcome outcome)

def revertCall : Call Result :=
  (revert (sampleHost 1782864000500) "b#1" neutralRow).andThen fun outcome => returning (.outcome outcome)

def works (fleet : Fleet) (command : Alloc.Command) : Alloc.Answer command × Fleet :=
  (.ok (answer fleet command).1,(answer fleet command).2)

abbrev sampleAgency (allowed : Fleet → Command → Prop) : Agency Alloc Fleet (Call Result) :=
  fleetAgency sampleDigest (fun held => held = sampleEnvelope) allowed

def turns (world : World Fleet (Call Result)) (order : List Nat) : World Fleet (Call Result) :=
  order.foldl (fun world index => (sampleAgency anyCommand).turn works index world) world

private def sameFound (fleet : Fleet) : Command → Bool
  | .compareAndSet current _ => match parseState fleet.plan with
    | .state found => found.vector = current.vector ∧ found.lastPlanAt = current.lastPlanAt
    | _ => false
  | _ => true

private def sameTurns (world : World Fleet (Call Result)) : List Nat → Bool
  | [] => true
  | index :: order => (match world.agents[index]? with
      | some (.issue command _) => sameFound world.store command
      | _ => true) && sameTurns ((sampleAgency anyCommand).turn works index world) order

private theorem careful_sameFound {fleet : Fleet} {command : Command} (same : sameFound fleet command) :
    Careful fleet command := by
  cases command with
  | compareAndSet current next =>
    intro _ _
    unfold sameFound at same
    dsimp only at same
    split at same
    next found parsed => exact ⟨found,parsed,(of_decide_eq_true same).1,(of_decide_eq_true same).2⟩
    · cases same
  | _ => trivial

private theorem turns_reached {world : World Fleet (Call Result)}
    (reached : Reachable (sampleAgency anyCommand) .empty world) (order : List Nat) :
    Reachable (sampleAgency anyCommand) .empty (turns world order) := by
  induction order generalizing world with
  | nil => exact reached
  | cons index order ih =>
    have served : ∀ fleet command, Serves anyCommand fleet command (works fleet command).1 (works fleet command).2 :=
      fun fleet command => ⟨trivial,.inl ⟨rfl,rfl⟩⟩
    exact ih (reachable_turn (sampleAgency anyCommand) works served index reached)

private theorem turns_careful {world : World Fleet (Call Result)}
    (reached : Reachable (sampleAgency Careful) .empty world) {order : List Nat} (same : sameTurns world order) :
    Reachable (sampleAgency Careful) .empty (turns world order) := by
  induction order generalizing world with
  | nil => exact reached
  | cons index order ih =>
    obtain ⟨here,rest⟩ := Bool.and_eq_true_iff.mp same
    refine ih (reachable_turn_of (sampleAgency Careful) works index ?_ reached) rest
    intro agent found call waiting
    cases agent with
    | done value => cases waiting
    | issue command resume =>
      cases waiting
      have found : world.agents[index]? = some (.issue command resume) := found
      rw [found] at here
      exact ⟨careful_sameFound here,.inl ⟨rfl,rfl⟩⟩

private theorem sample_formed : sampleEnvelope.WellFormed where
  ids := by decide
  other := by decide
  floors := by decide
  sum := by decide
  total := by decide
  step := fun _ => ⟨10,rfl,by decide⟩
  interval := fun _ => ⟨24,rfl,by decide⟩
  life := fun _ => ⟨14,rfl,by decide⟩

private theorem own_sample (now : Instant) : Own sampleDigest (fun held => held = sampleEnvelope) (sampleHost now) :=
  ⟨rfl,sample_formed,rfl⟩

private theorem plan_enters (allowed : Fleet → Command → Prop) :
    Reachable (sampleAgency allowed) .empty ⟨Fleet.empty,[planCall]⟩ :=
  reachable_enter (sampleAgency allowed) planCall (.applyPlan _ (own_sample _) _ _ _) .refl

/-- A plan applied alone: it seeds the neutral split and steps from it. -/
def appliedAlone : World Fleet (Call Result) := turns ⟨Fleet.empty,[planCall]⟩ (List.replicate 8 0)

/-- A plan that has read the neutral split, then a revert to neutral, then the plan's own write. -/
def revertedBetween : World Fleet (Call Result) :=
  turns ⟨Fleet.empty,[planCall,revertCall]⟩ (List.replicate 4 0 ++ List.replicate 6 1 ++ List.replicate 4 0)

def plansApplied (world : World Fleet (Call Result)) : Bool :=
  match world.agents.head? with
  | some (.done (.ok (.outcome (.applied "722b0f87dc9ee953" true)))) => true
  | _ => false

/-- The plan's write replaced a state whose last plan was too recent. -/
def tooSoonWrite (world : World Fleet (Call Result)) : Bool :=
  match world.store.writes.head? with
  | some write => write.next.planId = some "722b0f87dc9ee953" && write.next.writer = .plan .operatorSession &&
      match parseState write.replaced with
      | .state before => tooSoon sampleEnvelope.delegation before.lastPlanAt write.next.appliedAt
      | _ => false
  | none => false

private theorem applied_member {world : World Fleet (Call Result)} (applied : plansApplied world) :
    .done (.ok (.outcome (.applied "722b0f87dc9ee953" true))) ∈ world.agents := by
  unfold plansApplied at applied
  split at applied
  next first => exact List.mem_of_mem_head? first
  · cases applied

theorem plan_step_bounded_one_plan : plansApplied appliedAlone ∧ StepBounded sampleEnvelope appliedAlone :=
  ⟨by decide +kernel,plan_step_bounded sampleDigest sampleEnvelope (turns_careful (plan_enters Careful) (by decide +kernel))⟩

private theorem between_reached : Reachable (sampleAgency anyCommand) .empty revertedBetween := by
  have both := reachable_enter (sampleAgency anyCommand) revertCall (.revert _ (own_sample _) _ _) (plan_enters anyCommand)
  exact turns_reached both _

theorem revert_between_read_and_write :
    ¬∀ (digest : Envelope → String) (envelope : Envelope) (world : World Fleet (Call Result)),
      envelope.WellFormed → envelope.delegation.enabled →
      Reachable (fleetAgency digest (fun held => held = envelope) anyCommand) .empty world →
      StepBounded envelope world := by
  intro bounded
  have applied : plansApplied revertedBetween := by decide +kernel
  have soon : tooSoonWrite revertedBetween := by decide +kernel
  obtain ⟨_,measured⟩ := bounded sampleDigest sampleEnvelope revertedBetween sample_formed rfl between_reached
    _ _ (applied_member applied)
  unfold tooSoonWrite at soon
  split at soon
  next write first =>
    obtain ⟨⟨named,plan⟩,soon⟩ := (by simpa only [Bool.and_eq_true,decide_eq_true_eq] using soon)
    obtain ⟨before,parsed,_,_,waited⟩ := measured write (List.mem_of_mem_head? first) named ⟨_,plan⟩
    rw [parsed] at soon
    exact waited (of_decide_eq_true soon)
  · cases soon

end Samples

end Runs

end PiDispatch.Allocation
