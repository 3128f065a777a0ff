import PiDispatch.QuestionGroups

/-! Whatever requests run beside each other, a run that has a group keeps its record as it is, the group is one of the run's
scope, and a group is made only by one who has seen all the others. -/
namespace PiDispatch.QuestionGroups
open Kernel Program Relation

variable {config : Config}

/-- What a store keeps of an earlier one: each run's scope, each record with a group, and, where a scope's revision is
what it was, its groups. -/
structure Keeps (store next : Store) : Prop where
  metas : ∀ token value, store.metas token = some value →
    ∃ now, next.metas token = some now ∧ now.scopeId = value.scopeId ∧ (value.groupId.isSome → now = value)
  groups : ∀ scopeId, (store.groups scopeId).revision ≤ (next.groups scopeId).revision ∧
    ((store.groups scopeId).revision = (next.groups scopeId).revision → next.groups scopeId = store.groups scopeId) ∧
    ∀ id ∈ (store.groups scopeId).entries.keys, id ∈ (next.groups scopeId).entries.keys

theorem Keeps.rfl (store : Store) : Keeps store store :=
  ⟨fun _ value found => ⟨value,found,Eq.refl _,fun _ => Eq.refl _⟩,fun _ => ⟨Nat.le_refl _,fun _ => Eq.refl _,fun _ member => member⟩⟩

theorem Keeps.of_same {store next : Store} (same : next = store) : Keeps store next := same ▸ Keeps.rfl store

theorem Keeps.trans {first second third : Store} (one : Keeps first second) (two : Keeps second third) : Keeps first third := by
  refine ⟨?_,?_⟩
  · intro token value found
    obtain ⟨now,found',scope,same⟩ := one.metas token value found
    obtain ⟨later,found'',scope',same'⟩ := two.metas token now found'
    refine ⟨later,found'',scope'.trans scope,?_⟩
    intro grouped
    have own := same grouped
    exact (same' (own ▸ grouped)).trans own
  · intro scopeId
    obtain ⟨up,whole,kept⟩ := one.groups scopeId
    obtain ⟨up',whole',kept'⟩ := two.groups scopeId
    refine ⟨Nat.le_trans up up',?_,fun id member => kept' id (kept id member)⟩
    intro same
    rw [whole' (by omega),whole (by omega)]

/-- A record that takes the place of none, or of one without a group, of the same scope. -/
private theorem setMeta_keeps {store : Store} {token : String} {value : QuestionMeta}
    (fits : ∀ old, store.metas token = some old → old.groupId = none ∧ value.scopeId = old.scopeId) :
    ∀ other old, store.metas other = some old →
      ∃ now, (store.setMeta token value).metas other = some now ∧ now.scopeId = old.scopeId ∧ (old.groupId.isSome → now = old) := by
  intro other old found
  unfold Store.setMeta
  by_cases same : other = token
  · subst same
    obtain ⟨free,scope⟩ := fits old found
    refine ⟨value,Function.update_self ..,scope,?_⟩
    intro grouped
    rw [free] at grouped
    cases grouped
  · exact ⟨old,(Function.update_of_ne same ..).trans found,rfl,fun _ => rfl⟩

private theorem same_groups {store next : Store} (groups : next.groups = store.groups) (scopeId : String) :
    (store.groups scopeId).revision ≤ (next.groups scopeId).revision ∧
    ((store.groups scopeId).revision = (next.groups scopeId).revision → next.groups scopeId = store.groups scopeId) ∧
    ∀ id ∈ (store.groups scopeId).entries.keys, id ∈ (next.groups scopeId).entries.keys := by
  rw [groups]
  exact ⟨Nat.le_refl _,fun _ => rfl,fun _ member => member⟩

private theorem none_fits {store : Store} {token : String} {value : QuestionMeta} (free : ¬(store.metas token).isSome = true) :
    ∀ old, store.metas token = some old → old.groupId = none ∧ value.scopeId = old.scopeId := by
  intro old found
  rw [found] at free
  exact absurd rfl free

/-- What one assignment does. -/
theorem assign_cases (store : Store) (scopeId token digest : String) (revision : Nat) (fresh : Bool) (id : String)
    (candidate : Candidate) :
    ((store.assign config scopeId token digest revision fresh id candidate).2 = store ∧
      (store.assign config scopeId token digest revision fresh id candidate).1 ≠ .assigned ∧
      ((store.assign config scopeId token digest revision fresh id candidate).1 = .existing →
        ∃ value group, store.metas token = some value ∧ value.groupId = some group)) ∨
    ∃ value, store.metas token = some value ∧ value.groupId = none ∧ (store.groups scopeId).revision = revision ∧
      (store.assign config scopeId token digest revision fresh id candidate).1 = .assigned ∧
      (store.assign config scopeId token digest revision fresh id candidate).2.metas = (store.setMeta token
        { Store.recode config value with groupId := some id, status := .assigned }).metas ∧
      (((store.assign config scopeId token digest revision fresh id candidate).2.groups = Function.update store.groups scopeId
          ⟨revision + 1,(store.groups scopeId).entries.set id candidate⟩) ∨
        (store.assign config scopeId token digest revision fresh id candidate).2.groups = store.groups ∧
          id ∈ (store.groups scopeId).entries.keys) := by
  unfold Store.assign
  split
  · exact .inl ⟨rfl,by simp,by simp⟩
  next value found =>
    split
    next grouped =>
      obtain ⟨group,own⟩ := Option.isSome_iff_exists.mp grouped
      exact .inl ⟨rfl,by simp,fun _ => ⟨value,group,found,own⟩⟩
    next free =>
      split
      · exact .inl ⟨rfl,by simp,by simp⟩
      · split
        · exact .inl ⟨rfl,by simp,by simp⟩
        next current =>
          have free : value.groupId = none := Option.not_isSome_iff_eq_none.mp free
          have current : (store.groups scopeId).revision = revision := not_not.mp current
          dsimp only
          split
          · exact .inr ⟨value,found,free,current,rfl,rfl,.inl rfl⟩
          · split
            · exact .inl ⟨rfl,by simp,by simp⟩
            next there =>
              refine .inr ⟨value,found,free,current,rfl,rfl,.inr ⟨rfl,?_⟩⟩
              apply (Dict.get?_isSome_iff _ _).mp
              exact Option.isSome_iff_ne_none.mpr fun none => there (Option.isNone_iff_eq_none.mpr none)

private theorem mem_keys_set (groups : Dict String Candidate) (id : String) (candidate : Candidate) {other : String}
    (member : other ∈ groups.keys) : other ∈ (groups.set id candidate).keys := by
  by_cases present : id ∈ groups.keys
  · rw [Dict.keys_set_present groups candidate present]
    exact member
  · rw [Dict.keys_set_absent groups candidate present]
    exact List.mem_append_left _ member

/-- A capture adds a record where there is none, or does nothing. -/
private theorem capture_cases (store : Store) (token : String) (source : Source) (value : QuestionMeta) (instant : Nat) :
    (store.capture token source value instant).2 = store ∨ store.metas token = none ∧
      (store.capture token source value instant).2.metas = (store.setMeta token value).metas ∧
      (store.capture token source value instant).2.groups = store.groups := by
  unfold Store.capture
  split
  · exact .inl rfl
  next free => exact .inr ⟨Option.not_isSome_iff_eq_none.mp free,rfl,rfl⟩

theorem answer_keeps (store : Store) (command : Command) : Keeps store (Store.answer config store command).2 := by
  cases command with
  | getMeta token => exact .rfl store
  | getSource token => exact .rfl store
  | hgetall scopeId => exact .rfl store
  | rank token instant => exact ⟨(Keeps.rfl store).metas,(Keeps.rfl store).groups⟩
  | setMeta token value =>
    unfold Store.answer
    dsimp only
    split
    · exact .rfl store
    next free => exact ⟨setMeta_keeps (none_fits free),same_groups rfl⟩
  | capture token source value instant =>
    rcases capture_cases store token source value instant with same | ⟨free,metas,groups⟩
    · exact .of_same same
    · refine ⟨?_,same_groups groups⟩
      rw [show (Store.answer config store (.capture token source value instant)).2.metas =
        (store.setMeta token value).metas from metas]
      exact setMeta_keeps fun old found => absurd (free.symm.trans found) fun none => nomatch none
  | setStatus token status =>
    unfold Store.answer Store.setStatus
    dsimp only
    split
    · exact .rfl store
    next value found =>
      split
      · exact .rfl store
      next free =>
        refine ⟨setMeta_keeps ?_,same_groups rfl⟩
        intro old own
        obtain rfl := Option.some.inj (found.symm.trans own)
        exact ⟨Option.not_isSome_iff_eq_none.mp free,rfl⟩
  | assign scopeId token digest revision fresh id candidate =>
    rcases @assign_cases config store scopeId token digest revision fresh id candidate with
      ⟨same,_,_⟩ | ⟨value,found,free,current,_,metas,groups⟩
    · exact .of_same same
    · refine ⟨?_,?_⟩
      · rw [show (Store.answer config store (.assign scopeId token digest revision fresh id candidate)).2.metas = _ from metas]
        refine setMeta_keeps ?_
        intro old own
        obtain rfl := Option.some.inj (found.symm.trans own)
        exact ⟨free,rfl⟩
      · rcases groups with made | ⟨same,_⟩
        · intro other
          rw [show (Store.answer config store (.assign scopeId token digest revision fresh id candidate)).2.groups = _ from made]
          by_cases own : other = scopeId
          · subst own
            rw [Function.update_self]
            refine ⟨?_,?_,?_⟩
            · dsimp only
              omega
            · dsimp only
              intro same
              omega
            · intro kept member
              exact mem_keys_set _ _ _ member
          · rw [Function.update_of_ne own]
            exact ⟨Nat.le_refl _,fun _ => rfl,fun _ member => member⟩
        · exact same_groups same

/-- Every group that a run has is one of its scope, and such a run is assigned. -/
def Sound (store : Store) : Prop := ∀ token value group, store.metas token = some value → value.groupId = some group →
  value.status = .assigned ∧ group ∈ (store.groups value.scopeId).entries.keys

/-- What an answer says that stays so. -/
def fact (store : Store) : (command : Command) → Except Unit command.Answer → Prop
  | .getMeta token,.ok (some value) => ∃ now, store.metas token = some now ∧ now.scopeId = value.scopeId
  | .hgetall scopeId,.ok groups => groups.revision ≤ (store.groups scopeId).revision ∧
      (groups.revision = (store.groups scopeId).revision → store.groups scopeId = groups)
  | .assign _ token _ _ _ id _,.ok verdict => verdict = .assigned ∨ verdict = .existing →
      ∃ now, store.metas token = some now ∧ now.groupId = some id
  | _,_ => True

/-- A record is written without a group, and a run is assigned in the scope that was read for it. -/
def may (heard : Heard Redis) : Command → Prop
  | .setMeta _ value => value.groupId = none
  | .capture _ _ value _ => value.groupId = none
  | .assign scopeId token _ _ _ _ _ => ∃ value, ⟨.getMeta token,.ok (some value)⟩ ∈ heard ∧ value.scopeId = scopeId
  | _ => True

/-- What was heard by the time a request is over. -/
def post (config : Config) (done : Request × Result) (heard : Heard Redis) : Prop :=
  match done with
  | (.assign runId digest revision groupId,.assigned (some told)) => told.status = .assigned ∨ told.status = .existing →
      ∃ scopeId id candidate, told.groupId = some id ∧
        ⟨.assign scopeId (config.token runId) digest revision groupId.isNone id candidate,.ok told.status⟩ ∈ heard
  | (.privateInput runId,.input (some (.ready value revision _ candidates))) =>
      ⟨.getMeta (config.token runId),.ok (some value)⟩ ∈ heard ∧
      ∃ groups, ⟨.hgetall value.scopeId,.ok groups⟩ ∈ heard ∧ groups.revision = revision ∧
        ∀ id, id ∈ groups.entries.keys ↔ id ∈ candidates.map fun candidate => candidate.1.id
  | _ => True

/-- No assignment meets a run that has another group than the one it brings. -/
def Steady (store : Store) : Command → Prop
  | .assign _ token _ _ _ id _ => ∀ value group, store.metas token = some value → value.groupId = some group → group = id
  | _ => True

theorem fact_lasts {store next : Store} (keeps : Keeps store next) (command : Command) (told : Except Unit command.Answer)
    (known : fact store command told) : fact next command told := by
  cases told with
  | error _ => cases command <;> exact trivial
  | ok answer =>
    cases command with
    | getMeta token =>
      cases answer with
      | none => exact trivial
      | some value =>
        obtain ⟨old,found,scope⟩ := known
        obtain ⟨now,found',scope',_⟩ := keeps.metas token old found
        exact ⟨now,found',scope'.trans scope⟩
    | hgetall scopeId =>
      obtain ⟨up,whole⟩ := known
      obtain ⟨up',whole',_⟩ := keeps.groups scopeId
      refine ⟨Nat.le_trans up up',?_⟩
      intro same
      rw [whole' (by omega),whole (by omega)]
    | assign scopeId token digest revision fresh id candidate =>
      intro taken
      obtain ⟨old,found,own⟩ := known taken
      obtain ⟨now,found',_,same⟩ := keeps.metas token old found
      obtain rfl := same (by rw [own]; rfl)
      exact ⟨now,found',own⟩
    | _ => exact trivial

private theorem sound_update {store next : Store} (sound : Sound store) {token : String} {value : QuestionMeta}
    (metas : next.metas = (store.setMeta token value).metas)
    (kept : ∀ scopeId, ∀ id ∈ (store.groups scopeId).entries.keys, id ∈ (next.groups scopeId).entries.keys)
    (fits : ∀ group, value.groupId = some group →
      value.status = .assigned ∧ group ∈ (next.groups value.scopeId).entries.keys) : Sound next := by
  intro other now group found own
  rw [metas] at found
  unfold Store.setMeta at found
  by_cases same : other = token
  · subst same
    dsimp only at found
    rw [Function.update_self] at found
    obtain rfl := Option.some.inj found
    exact fits group own
  · dsimp only at found
    rw [Function.update_of_ne same] at found
    obtain ⟨assigned,member⟩ := sound other now group found own
    exact ⟨assigned,kept _ _ member⟩

/-- What a command may not do, for the groups to stay sound. -/
private def Fits (store : Store) : Command → Prop
  | .setMeta _ value => value.groupId = none
  | .capture _ _ value _ => value.groupId = none
  | .assign scopeId token _ _ _ _ _ => ∀ old, store.metas token = some old → old.scopeId = scopeId
  | _ => True

private theorem answer_sound {store : Store} (sound : Sound store) {command : Command} (fits : Fits store command) :
    Sound (Store.answer config store command).2 := by
  have kept : ∀ scopeId, ∀ id ∈ (store.groups scopeId).entries.keys,
      id ∈ ((Store.answer config store command).2.groups scopeId).entries.keys :=
    fun scopeId => ((@answer_keeps config store command).groups scopeId).2.2
  cases command with
  | getMeta token => exact sound
  | getSource token => exact sound
  | hgetall scopeId => exact sound
  | rank token instant => exact sound
  | setMeta token value =>
    have free : value.groupId = none := fits
    unfold Store.answer
    dsimp only
    split
    · exact sound
    · refine sound_update sound rfl (fun _ _ member => member) ?_
      intro group own
      rw [free] at own
      cases own
  | capture token source value instant =>
    have free : value.groupId = none := fits
    rcases capture_cases store token source value instant with same | ⟨_,metas,groups⟩
    · exact same.symm ▸ sound
    · refine sound_update sound metas kept ?_
      intro group own
      rw [free] at own
      cases own
  | setStatus token status =>
    unfold Store.answer Store.setStatus
    dsimp only
    split
    · exact sound
    next value found =>
      split
      · exact sound
      next free =>
        refine sound_update sound rfl (fun _ _ member => member) ?_
        intro group own
        have own : value.groupId = some group := own
        rw [own] at free
        exact absurd rfl free
  | assign scopeId token digest revision fresh id candidate =>
    rcases @assign_cases config store scopeId token digest revision fresh id candidate with
      ⟨same,_,_⟩ | ⟨value,found,free,current,_,metas,groups⟩
    · exact same.symm ▸ sound
    · refine sound_update sound metas kept ?_
      intro group own
      obtain rfl := Option.some.inj own
      have scope : value.scopeId = scopeId := fits value found
      refine ⟨rfl,?_⟩
      show id ∈ ((store.assign config scopeId token digest revision fresh id candidate).2.groups value.scopeId).entries.keys
      rcases groups with made | ⟨same,there⟩
      · rw [made,scope,Function.update_self]
        exact (Dict.get?_isSome_iff _ _).mp (by rw [Dict.get?_set_self]; rfl)
      · rw [same,scope]
        exact there

/-- What a command answers is so when it has been served. -/
private theorem answer_fact {store : Store} {command : Command} (steady : Steady store command) :
    fact (Store.answer config store command).2 command (.ok (Store.answer config store command).1) := by
  cases command with
  | getMeta token =>
    unfold Store.answer
    dsimp only
    cases found : store.metas token with
    | none => exact trivial
    | some value => exact ⟨value,found,rfl⟩
  | hgetall scopeId => exact ⟨Nat.le_refl _,fun _ => rfl⟩
  | assign scopeId token digest revision fresh id candidate =>
    intro taken
    rcases @assign_cases config store scopeId token digest revision fresh id candidate with
      ⟨same,never,grouped⟩ | ⟨value,found,free,current,_,metas,groups⟩
    · rcases taken with assigned | existing
      · exact absurd assigned never
      · obtain ⟨value,group,found,own⟩ := grouped existing
        obtain rfl : group = id := steady value group found own
        exact ⟨value,(congrArg (Store.metas · token) same).trans found,own⟩
    · exact ⟨{ Store.recode config value with groupId := some id, status := .assigned },
        (congrArg (fun metas => metas token) metas).trans (Function.update_self ..),rfl⟩
  | _ => exact trivial

section Conduct

private theorem ask_conducts {α : Type} {command : Command} {resume : command.Answer → Call (Option α)}
    {done : Option α → Heard Redis → Prop} {heard : Heard Redis} (allowed : may heard command)
    (fails : ∀ heard, done none heard)
    (rest : ∀ answer, (resume answer).Conducts may done (⟨command,.ok answer⟩ :: heard)) :
    (ask command resume).Conducts may done heard := by
  refine ⟨allowed,?_⟩
  intro reply
  cases reply with
  | ok answer => exact rest answer
  | error _ => exact fails _

/-- What a record that was read was answered. -/
private def Kept (config : Config) (runId : String) (value : Option (Option QuestionMeta)) (heard : Heard Redis) : Prop :=
  ∀ found, value = some (some found) → ⟨.getMeta (config.token runId),.ok (some found)⟩ ∈ heard

private theorem readMeta_conducts (runId : String) :
    (readMeta config runId).Conducts may (Kept config runId) [] := by
  unfold readMeta
  split
  · refine ask_conducts trivial (fun _ _ none => nomatch none) ?_
    intro answer found filtered
    have filtered : answer.filter validMeta = some found := Option.some.inj filtered
    rw [(Option.filter_eq_some_iff.mp filtered).1]
    exact List.mem_cons_self
  · intro found none
    cases none

private theorem capture_conducts (question : Question) :
    (capture config question).Conducts may (fun _ _ => True) [] := by
  unfold capture
  split
  · exact trivial
  · refine @Program.conducts_bind _ _ _ _ (fun _ _ => True) _ _ _ _ ?_ (fun _ _ _ => trivial)
    dsimp only
    split
    · refine ask_conducts rfl (fun _ => trivial) ?_
      exact fun _ => ask_conducts trivial (fun _ => trivial) fun _ => trivial
    · refine ask_conducts rfl (fun _ => trivial) ?_
      exact fun _ => ask_conducts trivial (fun _ => trivial) fun _ => trivial
    · exact ask_conducts rfl (fun _ => trivial) fun _ => trivial

/-- An input was made of the groups that were read for it. -/
private def Given (config : Config) (runId : String) (input : Option Input) (heard : Heard Redis) : Prop :=
  post config (.privateInput runId,.input input) heard

private theorem candidates_conducts {runId excerpt : String} {value : QuestionMeta} {groups : Groups} :
    ∀ (rest : List (String × Candidate)) (found : List (Candidate × String)) {heard : Heard Redis},
    ⟨.getMeta (config.token runId),.ok (some value)⟩ ∈ heard → ⟨.hgetall value.scopeId,.ok groups⟩ ∈ heard →
    (∀ id, id ∈ groups.entries.keys ↔ id ∈ found.map (fun candidate => candidate.1.id) ∨ id ∈ rest.map Prod.fst) →
    (candidates config value groups.revision excerpt rest found).Conducts may (Given config runId) heard
  | [],found,heard,read,listed,shared => by
    unfold candidates
    split
    · exact trivial
    · refine ⟨read,groups,listed,rfl,?_⟩
      intro id
      have sorted := List.mergeSort_perm found fun first second => decide (first.1.id ≤ second.1.id)
      rw [(sorted.map fun candidate => candidate.1.id).mem_iff,shared id]
      simp
  | (id,candidate) :: rest,found,heard,read,listed,shared => by
    unfold candidates
    split
    · exact trivial
    next fine =>
      refine ask_conducts trivial (fun _ => trivial) ?_
      intro raw
      split
      · exact trivial
      next exemplar _ =>
        split
        · exact trivial
        · refine candidates_conducts rest _ (List.mem_cons_of_mem _ read) (List.mem_cons_of_mem _ listed) ?_
          have own : candidate.id = id := by
            by_contra apart
            exact fine (.inr (.inl apart))
          intro other
          rw [shared other,List.map_append,List.mem_append,List.map_cons,List.mem_cons]
          simp only [List.map_cons,List.map_nil,List.mem_singleton,own]
          tauto

private theorem privateInput_conducts (runId : String) :
    (privateInput config runId).Conducts may (Given config runId) [] := by
  refine conducts_bind (readMeta_conducts runId) ?_
  intro value heard kept
  split
  · exact trivial
  · exact trivial
  next value =>
    split
    · exact trivial
    · refine ask_conducts trivial (fun _ => trivial) ?_
      intro raw
      split
      · exact trivial
      · split
        · exact trivial
        · refine ask_conducts trivial (fun _ => trivial) ?_
          intro groups
          refine candidates_conducts _ [] (List.mem_cons_of_mem _ (List.mem_cons_of_mem _ (kept value rfl)))
            List.mem_cons_self ?_
          intro id
          simp [Dict.keys]

private theorem assign_conducts (runId digest : String) (revision : Nat) (groupId : Option String) :
    (assign config runId digest revision groupId).Conducts may
      (fun told => post config (.assign runId digest revision groupId,.assigned told)) [] := by
  refine conducts_bind (readMeta_conducts runId) ?_
  intro value heard kept
  split
  · exact trivial
  · intro taken
    simp at taken
  next value =>
    split
    · intro taken
      simp at taken
    · refine ask_conducts ⟨value,kept value rfl,rfl⟩ (fun _ => trivial) ?_
      intro verdict taken
      have taken : verdict = .assigned ∨ verdict = .existing := taken
      exact ⟨_,_,_,if_pos taken,List.mem_cons_self⟩

/-- Every request conducts itself. -/
private theorem request_conducts (request : Request) : (request.call config).Conducts may (post config) [] := by
  cases request with
  | capture question =>
    exact conducts_bind (capture_conducts question) fun _ _ _ => trivial
  | privateInput runId =>
    exact conducts_bind (privateInput_conducts runId) fun _ _ given => given
  | assign runId digest revision groupId =>
    exact conducts_bind (assign_conducts runId digest revision groupId) fun _ _ given => given
  | setStatus runId status =>
    refine @Program.conducts_bind _ _ _ _ (fun _ _ => True) _ _ _ _ ?_ fun _ _ _ => trivial
    unfold setStatus
    split
    · exact ask_conducts trivial (fun _ => trivial) fun _ => trivial
    · exact trivial

end Conduct

/-- What holds of groups wherever requests have come: a group stays as it was given and is one of its scope, an answer that
names a group names the run's own, and one who assigns by what was read for it has seen every group there is. -/
structure Agrees (config : Config) (allowed : Store → Command → Prop) (world : World Store (Watched Redis (Request × Result))) :
    Prop where
  stays : ∀ token value group, world.store.metas token = some value → value.groupId = some group →
    value.status = .assigned ∧ group ∈ (world.store.groups value.scopeId).entries.keys ∧
    ∀ later, ReflTransGen (Step (requests config allowed)) world later → later.store.metas token = some value
  named : ∀ agent ∈ world.agents, ∀ runId digest revision groupId told,
    agent.program = .done (.assign runId digest revision groupId,.assigned (some told)) →
    told.status = .assigned ∨ told.status = .existing →
    ∃ value id, world.store.metas (config.token runId) = some value ∧ value.groupId = some id ∧ told.groupId = some id
  seen : ∀ reader ∈ world.agents, ∀ runId value revision excerpt candidates,
    reader.program = .done (.privateInput runId,.input (some (.ready value revision excerpt candidates))) →
    ∀ caller ∈ world.agents, ∀ scopeId digest fresh id candidate resume,
    caller.pending = some ⟨.assign scopeId (config.token runId) digest revision fresh id candidate,resume⟩ →
    (world.store.assign config scopeId (config.token runId) digest revision fresh id candidate).1 = .assigned →
    scopeId = value.scopeId ∧ ∀ group, group ∈ (world.store.groups scopeId).entries.keys ↔
      group ∈ candidates.map fun candidate => candidate.1.id

private theorem served_keeps {allowed : Store → Command → Prop} {store next : Store} {command : Command}
    {reply : Except Unit command.Answer} (served : serves config allowed store command reply next) : Keeps store next := by
  obtain ⟨_,⟨_,rfl⟩ | ⟨_,_,_,rfl | rfl⟩⟩ := served
  · exact answer_keeps store command
  · exact .rfl _
  · exact answer_keeps store command

theorem steps_keep {allowed : Store → Command → Prop} {world later : World Store (Watched Redis (Request × Result))}
    (steps : ReflTransGen (Step (requests config allowed)) world later) : Keeps world.store later.store := by
  induction steps with
  | refl => exact .rfl _
  | tail _ step ih =>
    cases step with
    | enter => exact ih
    | move => exact ih
    | issue store store' before agent after command resume answer waiting served => exact ih.trans (served_keeps served)

private theorem served_sound {store next : Store} {heard : Heard Redis} {command : Command} {reply : Except Unit command.Answer}
    (sound : Sound store) (known : ∀ said ∈ heard, fact store said.1 said.2) (allowed : may heard command)
    (served : serves config Steady store command reply next) : Sound next ∧ fact next command reply := by
  have fits : Fits store command := by
    cases command with
    | assign scopeId token digest revision fresh id candidate =>
      obtain ⟨value,read,scope⟩ := allowed
      obtain ⟨now,found,same⟩ := known _ read
      intro old own
      obtain rfl := Option.some.inj (found.symm.trans own)
      exact same.trans scope
    | _ => exact allowed
  obtain ⟨steady,⟨rfl,rfl⟩ | ⟨_,fault,rfl,rfl | rfl⟩⟩ := served
  · exact ⟨answer_sound sound fits,answer_fact steady⟩
  · exact ⟨sound,by cases command <;> exact trivial⟩
  · exact ⟨answer_sound sound fits,by cases command <;> exact trivial⟩

private def Standing (store : Store) (all : List (Heard Redis)) : Prop := Sound store ∧ Known fact store all

private theorem standing_initial : Standing .empty [] :=
  ⟨fun _ _ _ none => (nomatch none),fun _ none => absurd none List.not_mem_nil⟩

/-- In every run of requests in which no assignment meets a run that has another group than the one it brings, groups agree. -/
theorem groups_agree {world : World Store (Watched Redis (Request × Result))}
    (reached : Reachable (requests config Steady) .empty world) : Agrees config Steady world := by
  obtain ⟨⟨sound,known⟩,conducts⟩ := watched_keep Standing
    (fun _ ⟨request,made⟩ => made ▸ request_conducts request)
    (fun _ _ ⟨sound,known⟩ => ⟨sound,known_enter known⟩)
    (fun store store' before heard after command answer ⟨sound,known⟩ allowed served => by
      obtain ⟨sound',fresh⟩ := served_sound sound (fun said => known heard (by simp) said) allowed served
      exact ⟨sound',known_answered known (fun asked told => fact_lasts (served_keeps served) asked told) fresh⟩)
    standing_initial reached
  have knows : ∀ agent ∈ world.agents, ∀ said ∈ agent.heard, fact world.store said.1 said.2 :=
    fun agent member => known agent.heard (List.mem_map_of_mem member)
  refine ⟨?_,?_,?_⟩
  · intro token value group found own
    obtain ⟨assigned,member⟩ := sound token value group found own
    refine ⟨assigned,member,?_⟩
    intro later steps
    obtain ⟨now,found',_,same⟩ := (steps_keep steps).metas token value found
    rw [found',same (by rw [own]; rfl)]
  · intro agent member runId digest revision groupId told over' taken
    have given := (conducts agent member).1
    rw [over'] at given
    obtain ⟨scopeId,id,candidate,own,heard⟩ := given taken
    obtain ⟨now,found,group⟩ := knows agent member _ heard taken
    exact ⟨now,id,found,group,own⟩
  · intro reader member runId value revision excerpt candidates over' caller calling scopeId digest fresh id candidate resume
      waiting assigned
    have given := (conducts reader member).1
    rw [over'] at given
    obtain ⟨read,groups,listed,rfl,shared⟩ := given
    obtain ⟨now,found,same⟩ := knows reader member _ read
    obtain ⟨next,shape,_⟩ := pending_shape waiting
    have allowed := (conducts caller calling).1
    rw [shape] at allowed
    obtain ⟨⟨value',read',scope'⟩,_⟩ := allowed
    obtain ⟨now',found',same'⟩ := knows caller calling _ read'
    obtain rfl := Option.some.inj (found.symm.trans found')
    have scope : scopeId = value.scopeId := scope'.symm.trans (same'.symm.trans same)
    subst scope
    refine ⟨rfl,?_⟩
    obtain ⟨_,whole⟩ := knows reader member _ listed
    rcases @assign_cases config world.store value.scopeId (config.token runId) digest groups.revision fresh id
      candidate with ⟨_,never,_⟩ | ⟨_,_,_,current,_⟩
    · exact absurd assigned never
    · rw [whole current.symm]
      exact shared

section Samples

def scope : String := String.ofList (List.replicate 64 'a')

/-- A hash that tells longer texts apart by their lengths. -/
def twoRuns : Config where
  sha text := if text.length ≤ 6 then text else String.ofList (List.replicate 64 (Nat.digitChar (text.length % 16)))
  numbers := wholeNumbers
  recoded := id

def asked (runId text : String) : Question :=
  ⟨runId,scope,none,none,1000,some text,some some,none,none,false⟩

/-- The second run is put in the first one's group. -/
def grouping : List Request :=
  [.capture (asked "run-1" "Which port?"),.capture (asked "run-10" "What port?"),
    .assign "run-1" (twoRuns.sha "Which port?") 0 none,.privateInput "run-10",
    .assign "run-10" (twoRuns.sha "What port?") 1 (some (ownGroup twoRuns scope "run-1"))]

/-- And beside it in one of its own. -/
def twice : List Request := grouping ++ [.assign "run-10" (twoRuns.sha "What port?") 1 none]

def ran (requested : List Request) (order : List Nat) : World Store (Watched Redis (Request × Result)) :=
  (requests twoRuns fun _ _ => True).turns (answering Unit (Store.answer twoRuns))
    ⟨.empty,requested.map fun request => ⟨request.call twoRuns,[]⟩⟩ order

private def steady (store : Store) : Command → Bool
  | .assign _ token _ _ _ id _ => (store.metas token).all fun value => value.groupId.all fun group => group = id
  | _ => true

private theorem steady_checked {store : Store} {command : Command} (passed : steady store command) : Steady store command := by
  cases command with
  | assign scopeId token digest revision fresh id candidate =>
    intro value group found own
    unfold steady at passed
    simpa [found,own] using passed
  | _ => exact trivial

private theorem entered (allowed : Store → Command → Prop) (requested : List Request) :
    Reachable (requests twoRuns allowed) .empty ⟨.empty,requested.map fun request => ⟨request.call twoRuns,[]⟩⟩ := by
  refine reachable_entered _ _ _ ?_
  intro agent member
  obtain ⟨request,_,rfl⟩ := List.mem_map.mp member
  exact ⟨⟨request,rfl⟩,rfl⟩

private theorem served {allowed : Store → Command → Prop} {store : Store} {command : Command} (ok : allowed store command) :
    (requests twoRuns allowed).serves store command (answering Unit (Store.answer twoRuns) store command).1
      (answering Unit (Store.answer twoRuns) store command).2 := ⟨ok,.inl ⟨rfl,rfl⟩⟩

theorem groups_agree_grouping : Agrees twoRuns Steady (ran grouping [0,1,2,2,3,3,3,3,4,4]) := by
  refine groups_agree ?_
  exact reachable_passes (requests twoRuns Steady) (answering Unit (Store.answer twoRuns)) steady
    (fun _ _ passed => served (steady_checked passed)) [0,1,2,2,3,3,3,3,4,4] (entered Steady grouping) (by decide +kernel)

/-- What an assignment that is over was asked and told. -/
private def told (agent : Watched Redis (Request × Result)) : Option (String × String × Nat × Option String × Assigned) :=
  match agent.program with
  | .done (.assign runId digest revision groupId,.assigned (some told)) => some (runId,digest,revision,groupId,told)
  | _ => none

private theorem told_program {agent : Watched Redis (Request × Result)} {runId digest : String} {revision : Nat}
    {groupId : Option String} {answer : Assigned} (over' : told agent = some (runId,digest,revision,groupId,answer)) :
    agent.program = .done (.assign runId digest revision groupId,.assigned (some answer)) := by
  unfold told at over'
  split at over'
  next shape =>
    cases over'
    exact shape
  · cases over'

/-- An assignment answers that there is a group already, and names another one than the run's. -/
theorem existing_misnamed :
    ¬∀ (config : Config) (world : World Store (Watched Redis (Request × Result))),
      Reachable (requests config fun _ _ => True) .empty world →
      ∀ agent ∈ world.agents, ∀ runId digest revision groupId answer,
      agent.program = .done (.assign runId digest revision groupId,.assigned (some answer)) →
      answer.status = .assigned ∨ answer.status = .existing →
      ∃ value, world.store.metas (config.token runId) = some value ∧ value.groupId = answer.groupId := by
  intro named
  have reached : Reachable (requests twoRuns fun _ _ => True) .empty (ran twice [0,1,2,2,3,3,3,3,4,4,5,5]) :=
    reachable_turns (requests twoRuns fun _ _ => True) (answering Unit (Store.answer twoRuns))
      (fun _ _ => served trivial) [0,1,2,2,3,3,3,3,4,4,5,5] (entered _ twice)
  obtain ⟨over',other⟩ : ((ran twice [0,1,2,2,3,3,3,3,4,4,5,5]).agents[5]?.bind told) = some ("run-10",
      twoRuns.sha "What port?",1,none,⟨.existing,some (ownGroup twoRuns scope "run-10")⟩) ∧
      ((ran twice [0,1,2,2,3,3,3,3,4,4,5,5]).store.metas (twoRuns.token "run-10")).bind QuestionMeta.groupId ≠
        some (ownGroup twoRuns scope "run-10") := by decide +kernel
  obtain ⟨agent,found,over'⟩ := Option.bind_eq_some_iff.mp over'
  obtain ⟨value,stored,own⟩ := named twoRuns _ reached agent (List.mem_of_getElem? found) _ _ _ _ _ (told_program over')
    (.inr rfl)
  apply other
  rw [stored]
  exact own

end Samples

end PiDispatch.QuestionGroups
