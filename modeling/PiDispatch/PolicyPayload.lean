import PiDispatch.CostGuard
import PiDispatch.PayloadLaws

/-! What the policy guard hands pi to send: the model guard's payload hook around the caller's, and the cost guard's
around both. The body sent is the one the hooks left, wherever it is carried whole. -/
namespace PiDispatch.UsageMeter
open Payload

/-- The list of allowed pairs, the operator's deployments at the start, and how a value reads in a template. -/
structure ModelPolicy where
  allowed : List String
  startDeployments : List (String × String)
  text : Value → String

/-- The caller's hook, given pi's payload: what it returns, and the payload as it may have changed it in place; none
where it throws. -/
abbrev Hook := Value → Option (Value × Value)

def pairKey (provider model : String) : String := provider ++ "\x00" ++ model

def AZURE_API : String := "azure-openai-responses"

def AZURE_PROVIDER : String := "azure"

namespace ModelPolicy

def named (policy : ModelPolicy) (value : Value) : String :=
  match value with
  | .string id => id
  | value => policy.text value

def deployment (policy : ModelPolicy) (id : String) : String :=
  ((policy.startDeployments.find? fun pair => pair.1 = id).map Prod.snd).getD id

/-- On azure the payload's model must be the deployment the operator's own map names. -/
def deployed (policy : ModelPolicy) (model : Model) (before : Option Members) : Bool :=
  (model.api ≠ AZURE_API && model.provider ≠ AZURE_PROVIDER) || match before with
    | some before => identical ((Members.get? before "model").getD .undefined) (.string (policy.deployment model.id))
    | none => false

/-- The fallbacks that pi put on the request are on the list. -/
def fallbacksListed (policy : ModelPolicy) (model : Model) (before : Option Members) : Bool :=
  match before with
  | none => true
  | some before => !before.present "fallbacks" || match before.get? "fallbacks" with
    | some (.array _ fallbacks) =>
      fallbacks.all fun fallback => pairKey model.provider (policy.named (fallback.get "model")) ∈ policy.allowed
    | _ => false

end ModelPolicy

def callHook (hook : Option Hook) (payload : Value) : Option (Value × Value) :=
  match hook with
  | some hook => hook payload
  | none => some (.undefined,payload)

/-- The payload as the hook left it: what it returned, or pi's own as changed in place. -/
def leftBy (left : Value × Value) : Value := if left.1.defined = true then left.1 else left.2

/-- The model guard's payload hook: what it returns, beside the payload as the caller's may have changed it in place. -/
def ModelPolicy.onPayload (policy : ModelPolicy) (model : Model) (hook : Option Hook) (payload : Value) :
    Option (Value × Value) := do
  let before := if payload.isPlain = true then some (snapshotPayload payload).members else none
  if policy.deployed model before = true ∧ policy.fallbacksListed model before = true then
    let left ← callHook hook payload
    let before ← before
    let sent ← payloadAfterHook before (leftBy left)
    pure (sent,left.2)
  else none

variable {Context Options : Type}

/-- The cost guard at the moment its hook judges a ticket's body. -/
structure CapCheck (Context Options : Type) where
  policy : CostPolicy Context Options
  guard : CostGuard
  external : Option (Option Rat)
  place : Nat
  ask : Ask Context Options

/-- The policies in force on a call. -/
inductive Policies (Context Options : Type)
  | list (policy : ModelPolicy)
  | cap (check : CapCheck Context Options)
  | both (policy : ModelPolicy) (check : CapCheck Context Options)

/-- What the prepared hook hands pi: none where a hook or a check throws. -/
def Policies.onPayload (policies : Policies Context Options) (model : Model) (hook : Option Hook) (payload : Value) :
    Option Value :=
  match policies with
  | .list policy => (policy.onPayload model hook payload).map Prod.fst
  | .cap check => do
    let left ← callHook hook payload
    (check.guard.onPayload check.policy check.external check.place check.ask left.2 left.1).2
  | .both policy check => do
    let left ← policy.onPayload model hook payload
    (check.guard.onPayload check.policy check.external check.place check.ask left.2 left.1).2

/-! What a hook's result is sent as, key by key. -/

/-- What stands for a result in the payload that is sent: its own defined keys, edited ones as they are and the others
as `Kept` says. -/
structure Rebuilt (editable : List String) (Kept : String → Value → Prop) (sent result : Members) : Prop where
  distinct : (Members.keys sent).Nodup
  covers : ∀ key ∈ Members.definedKeys result, key ∈ Members.keys sent
  each : ∀ key value, (key,value) ∈ sent → value.defined = true ∧
    (key ∈ editable ∧ (key,value) ∈ result ∨ key ∉ editable ∧ Kept key value)

private theorem editedKeys_some {editable : List String} {before result edited : Members}
    (some' : editedKeys editable before result = some edited) :
    edited = (result.filter fun member => member.2.defined && member.1 ∈ editable) ∧
      ∀ key ∈ Members.definedKeys result, key ∈ editable ∨ ∃ value, Members.get? before key = some value ∧ value.defined = true := by
  unfold editedKeys at some'
  split at some'
  next all =>
    refine ⟨(Option.some.inj some').symm,fun key inside => ?_⟩
    have own := List.all_eq_true.mp all key inside
    rw [Bool.or_eq_true] at own
    refine own.imp (fun named => by simpa using named) fun present => ?_
    unfold Members.present at present
    split at present
    next value found => exact ⟨value,found,present⟩
    next => cases present
  next => cases some'

theorem keptKeys_some {editable : List String} {kept : String → Value → Option Value} {before others : Members}
    (some' : keptKeys editable kept before = some others) :
    List.Forall₂ (fun member other : String × Value => other.1 = member.1 ∧ kept member.1 member.2 = some other.2)
      (before.filter fun member => member.2.defined && member.1 ∉ editable) others := by
  unfold keptKeys at some'
  generalize before.filter (fun member => member.2.defined && member.1 ∉ editable) = list at some' ⊢
  induction list generalizing others with
  | nil =>
    cases some'
    exact .nil
  | cons member list ih =>
    rw [List.mapM_cons] at some'
    simp only [Option.bind_eq_bind,Option.pure_def,Option.bind_eq_some_iff,Option.map_eq_some_iff] at some'
    obtain ⟨_,⟨value,own,rfl⟩,rest,later,same⟩ := some'
    cases same
    exact .cons ⟨rfl,own⟩ (ih later)

private theorem forall₂_keys {members others : Members} {kept : String → Value → Option Value}
    (paired : List.Forall₂ (fun member other : String × Value => other.1 = member.1 ∧ kept member.1 member.2 = some other.2)
      members others) : Members.keys others = Members.keys members ∧
      ∀ key value, (key,value) ∈ others → ∃ held, (key,held) ∈ members ∧ kept key held = some value := by
  induction paired with
  | nil => exact ⟨rfl,nofun⟩
  | cons first rest ih =>
    obtain ⟨keys,each⟩ := ih
    unfold Members.keys at keys ⊢
    refine ⟨by rw [List.map_cons,List.map_cons,first.1,keys],fun key value inside => ?_⟩
    rcases List.mem_cons.mp inside with rfl | inside
    · rename_i member _ _
      obtain ⟨named,own⟩ := first
      dsimp only at named own
      subst named
      exact ⟨member.2,List.mem_cons_self,own⟩
    · obtain ⟨held,there,own⟩ := each key value inside
      exact ⟨held,List.mem_cons_of_mem _ there,own⟩

private theorem rebuilt_of {editable : List String} {kept : String → Value → Option Value} {before result edited others : Members}
    (known : (Members.keys before).Nodup) (distinct : (Members.keys result).Nodup)
    (some' : editedKeys editable before result = some edited) (others' : keptKeys editable kept before = some others)
    (defined : ∀ key held value, held.defined = true → kept key held = some value → value.defined = true) :
    Rebuilt editable (fun key value => ∃ held, (key,held) ∈ before ∧ held.defined = true ∧ kept key held = some value)
      (edited ++ others) result := by
  obtain ⟨rfl,covered⟩ := editedKeys_some some'
  have paired := keptKeys_some others'
  obtain ⟨keys,each⟩ := forall₂_keys paired
  have split' : ∀ key held, (key,held) ∈ before.filter (fun member => member.2.defined && member.1 ∉ editable) ↔
      (key,held) ∈ before ∧ held.defined = true ∧ key ∉ editable := by
    intro key held
    simp
  refine ⟨?_,?_,?_⟩
  · unfold Members.keys at keys known distinct ⊢
    rw [List.map_append,keys]
    refine List.nodup_append'.mpr ⟨?_,?_,?_⟩
    · exact distinct.sublist (List.filter_sublist.map _)
    · exact known.sublist (List.filter_sublist.map _)
    · intro key left right
      obtain ⟨⟨_,_⟩,first,rfl⟩ := List.mem_map.mp left
      obtain ⟨⟨_,_⟩,second,same⟩ := List.mem_map.mp right
      dsimp only at same
      subst same
      have one := (List.mem_filter.mp first).2
      have two := (split' _ _).mp second
      simp at one
      exact two.2.2 one.2
  · intro key inside
    unfold Members.keys at keys ⊢
    rw [List.map_append,List.mem_append,keys]
    obtain ⟨value,there,own⟩ := mem_definedKeys.mp inside
    by_cases named : key ∈ editable
    · exact .inl (List.mem_map.mpr ⟨(key,value),List.mem_filter.mpr ⟨there,by simp [own,named]⟩,rfl⟩)
    · obtain ⟨held,found,known⟩ := (covered key inside).resolve_left named
      exact .inr (List.mem_map.mpr ⟨(key,held),(split' key held).mpr ⟨get?_mem found,known,named⟩,rfl⟩)
  · intro key value inside
    rcases List.mem_append.mp inside with inside | inside
    · obtain ⟨there,own⟩ := List.mem_filter.mp inside
      simp at own
      exact ⟨own.1,.inl ⟨own.2,there⟩⟩
    · obtain ⟨held,there,own⟩ := each key value inside
      obtain ⟨there,known,other⟩ := (split' key held).mp there
      exact ⟨defined key held value known own,.inr ⟨other,held,there,known,own⟩⟩

/-- A setting of `config` is the snapshot's own, and the same as the result's. -/
theorem keptSetting_some {result : Members} {key : String} {held value : Value}
    (kept : keptSetting result key held = some value) : value = held ∧
      ∃ other, Members.get? result key = some other ∧ other.defined = true ∧ samePayloadValue held other 0 = true := by
  unfold keptSetting at kept
  split at kept
  next other found =>
    split at kept
    next same =>
      rw [Bool.and_eq_true] at same
      exact ⟨(Option.some.inj kept).symm,other,found,same⟩
    next => cases kept
  next => cases kept

/-- A kept key is the snapshot's own and the same as the result's, or its `config` rebuilt from both. -/
theorem keptKey_some {result : Members} {key : String} {held value : Value}
    (kept : keptKey result key held = some value) :
    ∃ other, Members.get? result key = some other ∧ other.defined = true ∧
      ((key = "config" ∧ held.isPlain = true ∧ other.isPlain = true) ∧
          configAfterHook held.members other.members = some value ∨
        ¬(key = "config" ∧ held.isPlain = true ∧ other.isPlain = true) ∧ value = held ∧
          samePayloadValue held other 0 = true) := by
  unfold keptKey at kept
  split at kept
  next other found =>
    split at kept
    next defined =>
      refine ⟨other,found,defined,?_⟩
      split at kept
      next config => exact .inl ⟨config,kept⟩
      next config =>
        split at kept
        next same => exact .inr ⟨config,(Option.some.inj kept).symm,same⟩
        next => cases kept
    next => cases kept
  next => cases kept

theorem config_rebuilt {before result : Members} {value : Value} (known : (Members.keys before).Nodup)
    (distinct : (Members.keys result).Nodup) (some' : configAfterHook before result = some value) :
    ∃ edited kept, value = .object none (edited ++ kept) ∧ editedKeys PAYLOAD_EDITABLE.config before result = some edited ∧
      keptKeys PAYLOAD_EDITABLE.config (keptSetting result) before = some kept ∧
      Rebuilt PAYLOAD_EDITABLE.config (fun key value => (key,value) ∈ before ∧
        ∃ other, Members.get? result key = some other ∧ other.defined = true ∧ samePayloadValue value other 0 = true)
        (edited ++ kept) result := by
  unfold configAfterHook at some'
  simp only [Option.bind_eq_bind,Option.pure_def,Option.bind_eq_some_iff] at some'
  obtain ⟨edited,first,kept,second,same⟩ := some'
  cases same
  refine ⟨edited,kept,rfl,first,second,?_⟩
  have rebuilt := rebuilt_of known distinct first second ?_
  · refine ⟨rebuilt.distinct,rebuilt.covers,fun key value inside => ?_⟩
    obtain ⟨defined,one | ⟨other,held,there,_,own⟩⟩ := rebuilt.each key value inside
    · exact ⟨defined,.inl one⟩
    · obtain ⟨rfl,matched⟩ := keptSetting_some own
      exact ⟨defined,.inr ⟨other,there,matched⟩⟩
  · intro key held value defined own
    rw [(keptSetting_some own).1]
    exact defined

/-- What stands for a kept key of the result in what is sent. -/
inductive Kept (before result : Members) (key : String) (value : Value) : Prop
  | whole (held other : Value) (inside : (key,held) ∈ before) (found : Members.get? result key = some other)
      (simple : ¬(key = "config" ∧ held.isPlain = true ∧ other.isPlain = true)) (own : value = held)
      (same : samePayloadValue held other 0 = true)
  | config (made other : Option Nat) (settings others : Members) (inside : ("config",.object made settings) ∈ before)
      (found : Members.get? result "config" = some (.object other others)) (named : key = "config")
      (rebuilt : configAfterHook settings others = some value)

private theorem configAfterHook_defined {before result : Members} {value : Value}
    (some' : configAfterHook before result = some value) : value.defined = true := by
  unfold configAfterHook at some'
  simp only [Option.bind_eq_bind,Option.pure_def,Option.bind_eq_some_iff] at some'
  obtain ⟨_,_,_,_,same⟩ := some'
  cases same
  rfl

private theorem looked_up (members : Members) (find : String → Option Value) :
    Members.keys (members.filterMap fun member => (find member.1).map fun value => (member.1,value)) =
      (members.filter fun member => (find member.1).isSome).map Prod.fst := by
  unfold Members.keys
  induction members with
  | nil => rfl
  | cons member members ih =>
    rw [List.filterMap_cons,List.filter_cons]
    cases find member.1 with
    | none => exact ih
    | some value =>
      simp only [Option.map_some,Option.isSome_some,if_true,List.map_cons]
      rw [ih]

private theorem mem_looked_up {members : Members} {find : String → Option Value} {key : String} {value : Value}
    (inside : (key,value) ∈ members.filterMap fun member => (find member.1).map fun value => (member.1,value)) :
    find key = some value := by
  obtain ⟨member,_,same⟩ := List.mem_filterMap.mp inside
  obtain ⟨_,found,equal⟩ := Option.map_eq_some_iff.mp same
  cases equal
  exact found

/-- What the model guard sends after a hook: an object with the result's defined keys in their order, each as it is
rebuilt. -/
theorem after_hook {before members : Members} {made : Option Nat} {sent : Value} (known : (Members.keys before).Nodup)
    (distinct : (Members.keys members).Nodup) (some' : payloadAfterHook before (.object made members) = some sent) :
    ∃ list, sent = .object none list ∧ Members.keys list = Members.definedKeys members ∧
      Rebuilt PAYLOAD_EDITABLE.top (Kept before members) list members := by
  unfold payloadAfterHook at some'
  simp only [Option.bind_eq_bind,Option.pure_def,Option.bind_eq_some_iff] at some'
  obtain ⟨edited,first,kept,second,same⟩ := some'
  cases same
  have rebuilt := rebuilt_of known distinct first second ?_
  · have whole : ∀ key value, (key,value) ∈ edited ++ kept → value.defined = true ∧
        (key ∈ PAYLOAD_EDITABLE.top ∧ (key,value) ∈ members ∨ key ∉ PAYLOAD_EDITABLE.top ∧ Kept before members key value) := by
      intro key value inside
      obtain ⟨defined,one | ⟨other,held,there,_,own⟩⟩ := rebuilt.each key value inside
      · exact ⟨defined,.inl one⟩
      · refine ⟨defined,.inr ⟨other,?_⟩⟩
        obtain ⟨there',found,_,⟨⟨rfl,plain,plain'⟩,config⟩ | ⟨simple,same,equal⟩⟩ := keptKey_some own
        · cases held <;> cases plain
          cases there' <;> cases plain'
          exact .config _ _ _ _ there found rfl config
        · exact .whole held there' there found simple same equal
    have defined : ∀ member ∈ members,
        (Members.get? (edited ++ kept) member.1).isSome = member.2.defined := by
      rintro ⟨key,value⟩ inside
      dsimp only
      cases own : value.defined with
      | true =>
        obtain ⟨⟨_,held⟩,there,rfl⟩ := List.mem_map.mp (rebuilt.covers key (mem_definedKeys.mpr ⟨value,inside,own⟩))
        rw [get?_of_mem rebuilt.distinct there]
        rfl
      | false =>
        cases found : Members.get? (edited ++ kept) key with
        | none => rfl
        | some held =>
          obtain ⟨known',⟨_,there⟩ | ⟨_,kept'⟩⟩ := whole key held (get?_mem found)
          · have same := get?_of_mem distinct there
            rw [get?_of_mem distinct inside] at same
            cases same
            rw [own] at known'
            cases known'
          · have other : ∃ other, Members.get? members key = some other ∧ other.defined = true := by
              cases kept' with
              | whole held' other _ at' _ same equal =>
                subst same
                exact ⟨other,at',(same_defined equal).symm.trans known'⟩
              | config _ _ _ _ _ at' named _ =>
                subst named
                exact ⟨_,at',rfl⟩
            obtain ⟨other,at',known''⟩ := other
            rw [get?_of_mem distinct inside] at at'
            cases at'
            rw [own] at known''
            cases known''
    refine ⟨_,rfl,?_,?_⟩
    · rw [looked_up]
      unfold Members.definedKeys
      rw [List.filter_congr defined]
    · have keys := looked_up members (Members.get? (edited ++ kept))
      rw [List.filter_congr defined] at keys
      refine ⟨?_,?_,?_⟩
      · rw [keys]
        exact definedKeys_nodup distinct
      · intro key inside
        rw [keys]
        exact inside
      · exact fun key value inside => whole key value (get?_mem (mem_looked_up inside))
  · intro key held value defined own
    obtain ⟨other,_,_,⟨_,config⟩ | ⟨_,rfl,_⟩⟩ := keptKey_some own
    · exact configAfterHook_defined config
    · exact defined

/-! Where what is sent is what the hook left. -/

/-- The setting of a kept `config` lies as deep as the equality looks. -/
def SettingsWithin (settings others : Members) : Prop :=
  ∀ key held, (key,held) ∈ settings → held.defined = true → key ∉ PAYLOAD_EDITABLE.config →
    ∀ other, Members.get? others key = some other → other.defined = true → Within (snapshotPayload held) other 2

/-- What is not editable lies as deep as the equality looks. -/
def Listed (payload result : Value) : Prop :=
  ∀ key held, (key,held) ∈ payload.members → held.defined = true → key ∉ PAYLOAD_EDITABLE.top →
    ∀ other, Members.get? result.members key = some other → other.defined = true →
      if key = "config" ∧ held.isPlain = true ∧ other.isPlain = true then SettingsWithin held.members other.members
      else Within (snapshotPayload held) other 1

/-- The editable settings of `config` stand before its other ones. -/
def ConfigFirst (payload : Value) : Prop :=
  ∀ made settings, ("config",.object made settings) ∈ payload.members → Members.definedKeys settings =
    (Members.definedKeys settings).filter (· ∈ PAYLOAD_EDITABLE.config) ++
      (Members.definedKeys settings).filter (· ∉ PAYLOAD_EDITABLE.config)

private theorem snapshot_plain (value : Value) : (snapshotPayload value).isPlain = value.isPlain := by
  cases value <;> rfl

private theorem snapshot_members (value : Value) (plain : value.isPlain = true) :
    ∃ made members, value = .object made members ∧ snapshotPayload value = .object none (snapshotMembers members) := by
  cases value with
  | object made members => exact ⟨made,members,rfl,rfl⟩
  | _ => cases plain

private theorem all_defined {list : Members} (each : ∀ key value, (key,value) ∈ list → value.defined = true) :
    Members.definedKeys list = Members.keys list := by
  unfold Members.definedKeys Members.keys
  rw [List.filter_eq_self.mpr fun member inside => each member.1 member.2 inside]

/-- An object of a result's own defined keys is the same as the result where each of its members is. -/
private theorem same_rebuilt {list members : Members} {made : Option Nat} (distinct : (Members.keys list).Nodup)
    (apart : (Members.keys members).Nodup) (defined : ∀ key value, (key,value) ∈ list → value.defined = true)
    (covers : ∀ key ∈ Members.definedKeys members, key ∈ Members.keys list)
    (inside : ∀ key ∈ Members.keys list, key ∈ Members.definedKeys members) (depth : Nat) :
    samePayloadValue (.object none list) (.object made members) depth = true ↔
      depth ≤ 64 ∧ ∀ member ∈ list, Matched members (depth + 1) member := by
  rw [same_object]
  refine and_congr_right fun _ => ?_
  have more := (List.subperm_of_subset distinct inside).length_le
  have less := (List.subperm_of_subset (definedKeys_nodup apart) covers).length_le
  constructor
  · rintro ⟨_,_,same,_,matched⟩ ⟨key,value⟩ there
    cases same
    exact matched _ there (defined key value there)
  · intro matched
    refine ⟨made,members,rfl,?_,fun member there _ => matched member there⟩
    rw [all_defined defined]
    omega

private theorem Rebuilt.keys {editable : List String} {Kept : String → Value → Prop} {sent result : Members}
    (rebuilt : Rebuilt editable Kept sent result)
    (found : ∀ key value, Kept key value → ∃ other, Members.get? result key = some other ∧ other.defined = true) :
    ∀ key ∈ Members.keys sent, key ∈ Members.definedKeys result := by
  intro key inside
  obtain ⟨⟨_,value⟩,there,rfl⟩ := List.mem_map.mp inside
  obtain ⟨defined,⟨_,own⟩ | ⟨_,kept⟩⟩ := rebuilt.each _ _ there
  · exact mem_definedKeys.mpr ⟨value,own,defined⟩
  · obtain ⟨other,at',known⟩ := found _ _ kept
    exact mem_definedKeys.mpr ⟨other,get?_mem at',known⟩

private theorem matched_own {members : Members} {made : Nat} (proper : Proper (.object (some made) members)) {key : String}
    {value : Value} (inside : (key,value) ∈ members) (defined : value.defined = true) (depth : Nat) :
    Matched members depth (key,value) := by
  cases proper with
  | object _ _ distinct each => exact ⟨value,get?_of_mem distinct inside,defined,same_self (each _ inside) depth⟩

private theorem matched_at {members : Members} {key : String} {value other : Value}
    (found : Members.get? members key = some other) (defined : other.defined = true) (depth : Nat) :
    Matched members depth (key,value) ↔ samePayloadValue value other depth = true := by
  constructor
  · rintro ⟨held,at',_,same⟩
    rw [found] at at'
    cases at'
    exact same
  · exact fun same => ⟨other,found,defined,same⟩

/-- A rebuilt `config` is the same as the result's where the settings it keeps lie deep enough for the equality. -/
private theorem same_config {settings others : Members} {made other : Nat} {value : Value}
    (proper : Proper (.object (some made) settings)) (proper' : Proper (.object (some other) others))
    (some' : configAfterHook (snapshotMembers settings) others = some value) :
    samePayloadValue value (.object (some other) others) 1 = true ↔ SettingsWithin settings others := by
  have distinct : (Members.keys settings).Nodup := by
    cases proper
    assumption
  have apart : (Members.keys others).Nodup := by
    cases proper'
    assumption
  have known := distinct.sublist (snapshot_keys settings)
  obtain ⟨edited,kept,rfl,_,_,rebuilt⟩ := config_rebuilt known apart some'
  have inside := rebuilt.keys fun key value kept => by
    obtain ⟨_,other,found,defined,_⟩ := kept
    exact ⟨other,found,defined⟩
  rw [same_rebuilt rebuilt.distinct apart (fun key value there => (rebuilt.each key value there).1) rebuilt.covers inside]
  constructor
  · rintro ⟨_,matched⟩ key held there defined other' value found known
    have covered := rebuilt.covers key (mem_definedKeys.mpr ⟨value,get?_mem found,known⟩)
    obtain ⟨⟨_,copy⟩,at',rfl⟩ := List.mem_map.mp covered
    obtain ⟨_,⟨named,_⟩ | ⟨_,from',value',found',_,same⟩⟩ := rebuilt.each _ _ at'
    · exact absurd named other'
    · obtain ⟨held',there',_,equal⟩ := mem_snapshotMembers.mp from'
      dsimp only at there' equal found' found
      have one := get?_of_mem distinct there
      rw [get?_of_mem distinct there'] at one
      cases one
      rw [found] at found'
      cases found'
      have deep := (matched_at found known 2).mp (matched _ at')
      rw [equal] at same deep
      exact (same_deeper held same).mp deep
  · intro within
    refine ⟨by omega,?_⟩
    rintro ⟨key,copy⟩ there
    obtain ⟨defined,⟨_,own⟩ | ⟨named,from',other',found,known',same⟩⟩ := rebuilt.each _ _ there
    · exact matched_own proper' own defined 2
    · obtain ⟨held,there',_,equal⟩ := mem_snapshotMembers.mp from'
      dsimp only at there' equal found
      rw [matched_at found known' 2]
      subst equal
      rw [snapshot_defined] at defined
      exact (same_deeper held same).mpr (within key held there' defined named other' found known')

theorem proper_members {made : Option Nat} {members : Members} (proper : Proper (.object made members)) :
    (∃ own, made = some own) ∧ (Members.keys members).Nodup ∧ ∀ member ∈ members, Proper member.2 := by
  cases proper with
  | object own _ distinct each => exact ⟨⟨own,rfl⟩,distinct,each⟩

section Sent
variable {made other : Option Nat} {given members list : Members}
  (proper : Proper (.object made given)) (proper' : Proper (.object other members))
  (keys : Members.keys list = Members.definedKeys members)
  (rebuilt : Rebuilt PAYLOAD_EDITABLE.top (Kept (snapshotMembers given) members) list members)
include proper proper'

/-- A `config` that is kept is rebuilt from the two that the payload and the result hold. -/
private theorem config_kept {m m' : Option Nat} {settings others : Members}
    (inside : ("config",.object m settings) ∈ snapshotMembers given)
    (found : Members.get? members "config" = some (.object m' others)) :
    ∃ own own' held, m' = some own' ∧ settings = snapshotMembers held ∧ ("config",.object (some own) held) ∈ given ∧
      Proper (.object (some own) held) ∧ Proper (.object (some own') others) := by
  obtain ⟨_,_,each⟩ := proper_members proper
  obtain ⟨_,_,each'⟩ := proper_members proper'
  obtain ⟨held,there,_,equal⟩ := mem_snapshotMembers.mp inside
  dsimp only at there equal
  have plain : held.isPlain = true := by
    rw [← snapshot_plain,← equal]
    rfl
  obtain ⟨_,settings',rfl,copied⟩ := snapshot_members held plain
  rw [copied] at equal
  cases equal
  obtain ⟨⟨own,rfl⟩,_,_⟩ := proper_members (each _ there)
  obtain ⟨⟨own',rfl⟩,_,_⟩ := proper_members (each' _ (get?_mem found))
  exact ⟨own,own',settings',rfl,rfl,there,each _ there,each' _ (get?_mem found)⟩

include keys rebuilt

/-- With a list alone: the body that is sent is the result where what is kept lies deep enough for the equality. -/
private theorem same_listed : samePayloadValue (.object none list) (.object other members) 0 = true ↔
    Listed (.object made given) (.object other members) := by
  obtain ⟨_,distinct,each⟩ := proper_members proper
  obtain ⟨⟨own,rfl⟩,apart,each'⟩ := proper_members proper'
  have inside : ∀ key ∈ Members.keys list, key ∈ Members.definedKeys members := fun key there => keys ▸ there
  rw [same_rebuilt rebuilt.distinct apart (fun key value there => (rebuilt.each key value there).1) rebuilt.covers inside]
  constructor
  · rintro ⟨_,matched⟩ key held there defined free value found known
    have covered := rebuilt.covers key (mem_definedKeys.mpr ⟨value,get?_mem found,known⟩)
    obtain ⟨⟨_,copy⟩,at',rfl⟩ := List.mem_map.mp covered
    have deep := (matched_at found known 1).mp (matched _ at')
    obtain ⟨_,⟨named,_⟩ | ⟨_,kept⟩⟩ := rebuilt.each _ _ at'
    · exact absurd named free
    · dsimp only [Value.members] at there found deep kept ⊢
      cases kept with
      | whole held' other' from' found' simple own' same =>
        subst own'
        obtain ⟨source,there',_,equal⟩ := mem_snapshotMembers.mp from'
        dsimp only at there' equal
        have one := get?_of_mem distinct there
        rw [get?_of_mem distinct there'] at one
        cases one
        rw [found] at found'
        cases found'
        subst equal
        rw [snapshot_plain] at simple
        rw [if_neg simple]
        exact (same_deeper held same).mp deep
      | config m m' settings others from' found' named some' =>
        rw [named] at there found
        obtain ⟨_,_,settings',rfl,rfl,there',first,second⟩ := config_kept proper proper' from' found'
        have one := get?_of_mem distinct there
        rw [get?_of_mem distinct there'] at one
        cases one
        rw [found] at found'
        cases found'
        rw [if_pos ⟨named,rfl,rfl⟩]
        exact (same_config first second some').mp deep
  · intro listed
    refine ⟨by omega,?_⟩
    rintro ⟨key,copy⟩ at'
    obtain ⟨defined,⟨_,there⟩ | ⟨free,kept⟩⟩ := rebuilt.each _ _ at'
    · exact matched_own proper' there defined 1
    · cases kept with
      | whole held' other' from' found simple own' same =>
        subst own'
        obtain ⟨held,there,_,equal⟩ := mem_snapshotMembers.mp from'
        dsimp only at there equal
        subst equal
        rw [snapshot_defined] at defined
        rw [snapshot_plain] at simple
        have known : other'.defined = true := by
          rw [← same_defined same,snapshot_defined]
          exact defined
        have within := listed key held there defined free other' found known
        rw [if_neg simple] at within
        exact (matched_at found known 1).mpr ((same_deeper held same).mpr within)
      | config m m' settings others from' found named some' =>
        subst named
        obtain ⟨_,_,settings',rfl,rfl,there,first,second⟩ := config_kept proper proper' from' found
        have within := listed "config" _ there rfl free _ found rfl
        rw [if_pos ⟨rfl,rfl,rfl⟩] at within
        exact (matched_at found rfl 1).mpr ((same_config first second some').mpr within)

/-- Under a cap too: the clone of the body is the result where JSON carries the result. -/
private theorem stands_listed : Stands (.object none list) (.object other members) := by
  obtain ⟨_,distinct,each⟩ := proper_members proper
  obtain ⟨_,apart,each'⟩ := proper_members proper'
  refine stands_object rebuilt.distinct apart ?_ ?_
  · rintro ⟨key,copy⟩ at' defined
    obtain ⟨_,⟨_,there⟩ | ⟨_,kept⟩⟩ := rebuilt.each _ _ at'
    · exact ⟨copy,get?_of_mem apart there,defined,stands_self (each' _ there) defined⟩
    · cases kept with
      | whole held' other' from' found _ own' same =>
        subst own'
        obtain ⟨held,there,_,equal⟩ := mem_snapshotMembers.mp from'
        dsimp only at there equal defined
        subst equal
        rw [snapshot_defined] at defined
        have known : other'.defined = true := by
          rw [← same_defined same,snapshot_defined]
          exact defined
        exact ⟨other',found,known,stands_snapshot (each _ there) (each' _ (get?_mem found)) same defined⟩
      | config m m' settings others from' found named some' =>
        subst named
        refine ⟨_,found,rfl,?_⟩
        obtain ⟨_,_,settings',rfl,rfl,there,first,second⟩ := config_kept proper proper' from' found
        obtain ⟨_,distinct',inner⟩ := proper_members first
        obtain ⟨_,apart',inner'⟩ := proper_members second
        obtain ⟨edited,kept,rfl,_,_,nested⟩ := config_rebuilt (distinct'.sublist (snapshot_keys settings')) apart' some'
        refine stands_object nested.distinct apart' ?_ ?_
        · rintro ⟨key,copy⟩ at'' defined'
          obtain ⟨_,⟨_,own⟩ | ⟨_,from'',other'',found'',known,same⟩⟩ := nested.each _ _ at''
          · exact ⟨copy,get?_of_mem apart' own,defined',stands_self (inner' _ own) defined'⟩
          · obtain ⟨held,there',_,equal⟩ := mem_snapshotMembers.mp from''
            dsimp only at there' equal same defined'
            subst equal
            rw [snapshot_defined] at defined'
            exact ⟨other'',found'',known,stands_snapshot (inner _ there') (inner' _ (get?_mem found'')) same defined'⟩
        · intro key inside
          have covered := nested.covers key inside
          obtain ⟨⟨_,copy⟩,at'',rfl⟩ := List.mem_map.mp covered
          exact mem_definedKeys.mpr ⟨copy,at'',(nested.each _ _ at'').1⟩
  · intro key inside
    obtain ⟨⟨_,copy⟩,at',rfl⟩ := List.mem_map.mp (rebuilt.covers key inside)
    exact mem_definedKeys.mpr ⟨copy,at',(rebuilt.each _ _ at').1⟩

end Sent

/-! The order of keys, where nothing was edited. -/

private theorem filtered_keys (members : Members) (select : String → Bool) :
    Members.keys (members.filter fun member => member.2.defined && select member.1) =
      (Members.definedKeys members).filter select := by
  unfold Members.keys Members.definedKeys
  induction members with
  | nil => rfl
  | cons member members ih =>
    rw [List.filter_cons,List.filter_cons]
    cases member.2.defined with
    | false => exact ih
    | true =>
      cases known : select member.1 <;> simp [known,ih]

/-- A rebuilt `config` has its editable settings first. -/
private theorem config_keys {settings : Members} {value : Value} (distinct : (Members.keys settings).Nodup)
    (some' : configAfterHook (snapshotMembers settings) settings = some value) :
    ∃ list, value = .object none list ∧ Members.keys list =
        (Members.definedKeys settings).filter (· ∈ PAYLOAD_EDITABLE.config) ++
          (Members.definedKeys settings).filter (· ∉ PAYLOAD_EDITABLE.config) ∧
      Members.definedKeys list = Members.keys list ∧ ∀ key copy, (key,copy) ∈ list →
        (key,copy) ∈ settings ∨ ∃ held, (key,held) ∈ settings ∧ copy = snapshotPayload held ∧
          samePayloadValue (snapshotPayload held) held 0 = true := by
  have known := distinct.sublist (snapshot_keys settings)
  obtain ⟨edited,kept,rfl,first,second,rebuilt⟩ := config_rebuilt known distinct some'
  obtain ⟨rfl,covered⟩ := editedKeys_some first
  have named : ∀ value, ("__proto__",value) ∈ settings → value.defined = false := by
    intro value inside
    cases own : value.defined with
    | false => rfl
    | true =>
      rcases covered _ (mem_definedKeys.mpr ⟨value,inside,own⟩) with editable | ⟨_,found,_⟩
      · exact absurd editable (by decide)
      · obtain ⟨_,_,other,_⟩ := mem_snapshotMembers.mp (get?_mem found)
        exact absurd rfl other
  have others := (forall₂_keys (keptKeys_some second)).1
  have left := filtered_keys settings fun key => decide (key ∈ PAYLOAD_EDITABLE.config)
  have right := filtered_keys (snapshotMembers settings) fun key => decide (key ∉ PAYLOAD_EDITABLE.config)
  rw [definedKeys_snapshot named] at right
  refine ⟨_,rfl,?_,all_defined fun key value there => (rebuilt.each key value there).1,fun key copy there => ?_⟩
  · unfold Members.keys at others left right ⊢
    rw [List.map_append,left,others,right]
  · obtain ⟨_,⟨_,own⟩ | ⟨_,from',other,found,_,same⟩⟩ := rebuilt.each key copy there
    · exact .inl own
    · obtain ⟨held,inside,_,equal⟩ := mem_snapshotMembers.mp from'
      dsimp only at inside equal
      rw [get?_of_mem distinct inside] at found
      cases found
      subst equal
      exact .inr ⟨_,inside,rfl,same⟩

private theorem order_object {made other : Option Nat} {list members : Members} :
    SameOrder (.object made list) (.object other members) ↔ Members.definedKeys list = Members.definedKeys members ∧
      ∀ member ∈ list, member.2.defined = true → ∀ value, Members.get? members member.1 = some value →
        SameOrder member.2 value := by
  constructor
  · rintro (⟨_,_,plain⟩ | _ | ⟨_,_,_,_,keys,each⟩)
    · cases plain
    · exact ⟨keys,each⟩
  · exact fun ⟨keys,each⟩ => .object _ _ _ _ keys each

section Unedited
variable {made : Nat} {members list : Members} (proper : Proper (.object (some made) members))
  (keys : Members.keys list = Members.definedKeys members)
  (rebuilt : Rebuilt PAYLOAD_EDITABLE.top (Kept (snapshotMembers members) members) list members)
include proper keys rebuilt

/-- What is sent of an unedited payload keeps the order of its keys but for that of its `config`, whatever is made of the
values on the way, as long as that keeps their own order. -/
private theorem order_unedited {sent : Members} {made' : Option Nat} (copy : Value → Option Value)
    (length : Members.definedKeys sent = Members.definedKeys list)
    (each : ∀ key value, (key,value) ∈ sent → value.defined = true ∧ ∃ held, (key,held) ∈ list ∧ copy held = some value)
    (plain : ∀ key held value, (key,held) ∈ members → held.defined = true → copy held = some value → SameOrder value held)
    (snapshot : ∀ key held value, (key,held) ∈ members → samePayloadValue (snapshotPayload held) held 0 = true →
      held.defined = true → copy (snapshotPayload held) = some value → SameOrder value held)
    (config : ∀ settings own value kept, ("config",.object (some own) settings) ∈ members → ("config",value) ∈ sent →
      configAfterHook (snapshotMembers settings) settings = some kept → copy kept = some value →
      (SameOrder value (.object (some own) settings) ↔ Members.definedKeys settings =
        (Members.definedKeys settings).filter (· ∈ PAYLOAD_EDITABLE.config) ++
          (Members.definedKeys settings).filter (· ∉ PAYLOAD_EDITABLE.config))) :
    SameOrder (.object made' sent) (.object (some made) members) ↔ ConfigFirst (.object (some made) members) := by
  obtain ⟨_,distinct,proper'⟩ := proper_members proper
  have defined := all_defined fun key value there => (rebuilt.each key value there).1
  have free : "config" ∉ PAYLOAD_EDITABLE.top := by decide
  rw [order_object,length,defined,keys]
  constructor
  · rintro ⟨_,all⟩ m settings inside
    dsimp only [Value.members] at inside
    obtain ⟨⟨own,rfl⟩,_,_⟩ := proper_members (proper' _ inside)
    have covered := rebuilt.covers "config" (mem_definedKeys.mpr ⟨_,inside,rfl⟩)
    rw [← defined,← length] at covered
    obtain ⟨value,at',known⟩ := mem_definedKeys.mp covered
    obtain ⟨_,held,there,copied⟩ := each _ _ at'
    obtain ⟨_,⟨editable,_⟩ | ⟨_,kept⟩⟩ := rebuilt.each _ _ there
    · exact absurd editable free
    · cases kept with
      | whole held' other inside' found simple _ _ =>
        obtain ⟨source,there',_,equal⟩ := mem_snapshotMembers.mp inside'
        dsimp only at there' equal
        have one := get?_of_mem distinct inside
        rw [get?_of_mem distinct there'] at one
        cases one
        rw [get?_of_mem distinct inside] at found
        cases found
        subst equal
        exact absurd ⟨rfl,rfl,rfl⟩ simple
      | config _ _ _ _ inside' found named some' =>
        obtain ⟨own',own'',settings',rfl,rfl,there',first,second⟩ := config_kept proper proper inside' found
        rw [get?_of_mem distinct inside] at found
        cases found
        have one := get?_of_mem distinct inside
        rw [get?_of_mem distinct there'] at one
        cases one
        exact (config _ _ value held inside at' some' copied).mp (all _ at' known _ (get?_of_mem distinct inside))
  · refine fun first => ⟨rfl,?_⟩
    rintro ⟨key,value⟩ at' known other found
    obtain ⟨_,held,there,copied⟩ := each _ _ at'
    dsimp only at found ⊢
    obtain ⟨defined',⟨_,own⟩ | ⟨_,kept⟩⟩ := rebuilt.each _ _ there
    · rw [get?_of_mem distinct own] at found
      cases found
      exact plain key _ value own defined' copied
    · cases kept with
      | whole held' other' inside' found' simple own' same =>
        subst own'
        obtain ⟨source,there',_,equal⟩ := mem_snapshotMembers.mp inside'
        dsimp only at there' equal
        subst equal
        rw [found] at found'
        rw [get?_of_mem distinct there'] at found
        cases found
        cases found'
        rw [snapshot_defined] at defined'
        exact snapshot key _ value there' same defined' copied
      | config _ _ _ _ inside' found' named some' =>
        subst named
        obtain ⟨own',own'',settings',rfl,rfl,there',first',second⟩ := config_kept proper proper inside' found'
        rw [found] at found'
        rw [get?_of_mem distinct there'] at found
        cases found
        cases found'
        exact (config _ _ value held there' at' some' copied).mpr (first _ _ there')

/-- With a list alone. -/
private theorem order_listed : SameOrder (.object none list) (.object (some made) members) ↔
    ConfigFirst (.object (some made) members) := by
  obtain ⟨_,distinct,proper'⟩ := proper_members proper
  refine order_unedited proper keys rebuilt some rfl ?_ ?_ ?_ ?_
  · exact fun key value there => ⟨(rebuilt.each key value there).1,value,there,rfl⟩
  · rintro key held value inside _ same
    cases same
    exact order_self (proper' _ inside)
  · rintro key held value inside same _ equal
    cases equal
    exact order_snapshot (proper' _ inside) same
  · rintro settings own value kept inside _ some' equal
    cases equal
    obtain ⟨_,distinct',inner⟩ := proper_members (proper' _ inside)
    obtain ⟨list',rfl,keys',defined,each⟩ := config_keys distinct' some'
    rw [order_object,defined,keys']
    constructor
    · exact fun all => all.1.symm
    · refine fun first => ⟨first.symm,?_⟩
      rintro ⟨key,copy⟩ there _ other found
      dsimp only at found ⊢
      rcases each key copy there with own | ⟨held,inside',rfl,same⟩
      · rw [get?_of_mem distinct' own] at found
        cases found
        exact order_self (inner _ own)
      · rw [get?_of_mem distinct' inside'] at found
        cases found
        exact order_snapshot (inner _ inside') same

/-- Under a cap too, where JSON carries the payload. -/
private theorem order_both {sent : Value} (some' : cloned (.object none list) = some sent)
    (carried : Carried (.object (some made) members) 0) :
    SameOrder sent (.object (some made) members) ↔ ConfigFirst (.object (some made) members) := by
  obtain ⟨_,distinct,proper'⟩ := proper_members proper
  have stands := stands_listed proper proper keys rebuilt
  have same := (stands sent 0 some').mpr carried
  obtain ⟨_,each⟩ := carried_object.mp carried
  unfold cloned at some'
  obtain ⟨copies,written',rfl⟩ := Option.map_eq_some_iff.mp some'
  obtain ⟨rfl,_⟩ := clonedMembers_some written'
  obtain ⟨_,_,_,equal,count,matched⟩ := same_object.mp same
  cases equal
  have defined := all_defined fun key value there => (rebuilt.each key value there).1
  have cut := written_keys list
  rw [definedKeys_written] at count
  have all := cut.eq_of_length (by rw [count,defined,keys])
  refine order_unedited proper keys rebuilt cloned (by rw [definedKeys_written,all]) ?_ ?_ ?_ ?_
  · intro key value there
    obtain ⟨known,held,inside,own⟩ := mem_written.mp there
    exact ⟨known,held,inside,own⟩
  · intro key held value inside known own
    exact order_clone (proper' _ inside) (each _ inside known) own
  · intro key held value inside equal known own
    rw [cloned_snapshot held (proper' _ inside) equal] at own
    exact order_clone (proper' _ inside) (each _ inside known) own
  · rintro settings own value kept inside there config own'
    obtain ⟨_,distinct',inner⟩ := proper_members (proper' _ inside)
    obtain ⟨_,each'⟩ := carried_object.mp (each _ inside rfl)
    obtain ⟨list',rfl,keys',defined',from'⟩ := config_keys distinct' config
    obtain ⟨_,found,_,same'⟩ := matched _ there (mem_written.mp there).1
    dsimp only at found same'
    rw [get?_of_mem distinct inside] at found
    cases found
    unfold cloned at own'
    obtain ⟨copies,written'',rfl⟩ := Option.map_eq_some_iff.mp own'
    obtain ⟨rfl,_⟩ := clonedMembers_some written''
    obtain ⟨_,_,_,equal',count',_⟩ := same_object.mp same'
    cases equal'
    have cut' := written_keys list'
    rw [definedKeys_written] at count'
    have full : (Members.keys list').length = (Members.definedKeys settings).length := by
      rw [keys',List.length_append]
      have parts := List.length_eq_length_filter_add (l := Members.definedKeys settings)
        (fun key => decide (key ∈ PAYLOAD_EDITABLE.config))
      simpa using parts.symm
    have all' := cut'.eq_of_length (by rw [count',defined',full])
    rw [order_object,definedKeys_written,all',defined',keys']
    constructor
    · exact fun whole => whole.1.symm
    · refine fun first => ⟨first.symm,?_⟩
      rintro ⟨key,copy⟩ at' _ other found
      obtain ⟨_,held,there',copied⟩ := mem_written.mp at'
      dsimp only at found ⊢
      rcases from' key held there' with own | ⟨held',inside',rfl,equal'⟩
      · rw [get?_of_mem distinct' own] at found
        cases found
        cases known : other.defined with
        | true => exact order_clone (inner _ own) (each' _ own known) copied
        | false =>
          cases undefined_of known
          cases copied
          exact .leaf _ _ rfl
      · rw [get?_of_mem distinct' inside'] at found
        cases found
        rw [cloned_snapshot _ (inner _ inside') equal'] at copied
        cases known : other.defined with
        | true => exact order_clone (inner _ inside') (each' _ inside' known) copied
        | false =>
          cases undefined_of known
          cases copied
          exact .leaf _ _ rfl

end Unedited

private theorem modelSent {policy : ModelPolicy} {model : Model} {hook : Option Hook} {payload : Value} {left answer : Value × Value}
    (called : callHook hook payload = some left) (handed : policy.onPayload model hook payload = some answer) :
    answer.2 = left.2 ∧ ∃ made given, payload = .object made given ∧
      payloadAfterHook (snapshotMembers given) (leftBy left) = some answer.1 := by
  unfold ModelPolicy.onPayload at handed
  dsimp only at handed
  rw [Option.ite_none_right_eq_some] at handed
  obtain ⟨_,handed⟩ := handed
  rw [called] at handed
  simp only [Option.bind_eq_bind,Option.pure_def,Option.bind_some,Option.bind_eq_some_iff] at handed
  obtain ⟨before,plain,sent,hooked,same⟩ := handed
  cases same
  rw [Option.ite_none_right_eq_some] at plain
  obtain ⟨object,copy⟩ := plain
  obtain ⟨made,given,rfl,copied⟩ := snapshot_members payload object
  rw [copied] at copy
  cases copy
  exact ⟨rfl,made,given,rfl,hooked⟩

private theorem costSent {check : CapCheck Context Options} {payload next sent : Value}
    (handed : (check.guard.onPayload check.policy check.external check.place check.ask payload next).2 = some sent) :
    cloned (leftBy (next,payload)) = some sent ∧ sent.defined = true := by
  have body : ∃ final, finalBody check.ask payload next = some (sent,final) := by
    unfold CostGuard.onPayload at handed
    split at handed
    · cases handed
    · dsimp only at handed
      split at handed
      · cases handed
      · next body final found =>
        split at handed
        · split at handed
          · cases handed
          · cases handed
            exact ⟨final,found⟩
        · cases handed
  obtain ⟨final,found⟩ := body
  unfold finalBody at found
  simp only [Option.bind_eq_bind,Option.bind_eq_some_iff] at found
  obtain ⟨copy,cloned',caps,_,found⟩ := found
  rw [Option.ite_none_right_eq_some] at found
  obtain ⟨⟨plain,_⟩,same⟩ := found
  cases same
  unfold jsonClone at cloned'
  split at cloned'
  · cases cloned'
  · refine ⟨cloned',?_⟩
    cases sent <;> first | rfl | cases plain

def Policies.lists (policies : Policies Context Options) : Bool :=
  match policies with
  | .cap _ => false
  | _ => true

def Policies.caps (policies : Policies Context Options) : Bool :=
  match policies with
  | .list _ => false
  | _ => true

/-- What the hooks left can be sent as it is: a cap sends what JSON carries, and a list alone what it keeps no deeper
than the equality looks. -/
def Policies.Carries (policies : Policies Context Options) (payload left : Value) : Prop :=
  if policies.caps = true then Carried left 0 else Listed payload left

theorem object_left {before : Members} {left sent : Value} (hooked : payloadAfterHook before left = some sent) :
    ∃ made members, left = .object made members := by
  unfold payloadAfterHook at hooked
  split at hooked
  next made members => exact ⟨made,members,rfl⟩
  next => cases hooked

def groqModel : Model := ⟨"groq","small","openai-completions",some "api.groq.com",.null,.null,false⟩

def anyModel : ModelPolicy := ⟨[],[],fun _ => ""⟩

def tenMicros : CapCheck Unit Unit :=
  ⟨⟨10,fun _ => some 4,fun _ => false⟩,CostGuard.initial.hold ⟨.stream,groqModel,(),(),none⟩ 4,none,0,
    ⟨.stream,groqModel,(),(),none⟩⟩

def imagePayload : Value := .object (some 0) [("messages",.array (some 1) [.view (some 2) "Uint8Array" [7]
  (.object none [("0",.number (.finite 7))])])]

def imageSent : Value := .object none [("messages",.array none [.object none [("0",.number (.finite 7))]])]

def toolsPayload : Value := .object (some 0) [("config",.object (some 1) [("tools",.array (some 2) []),
  ("temperature",.number (.finite 1))])]

def toolsSent : Value := .object none [("config",.object none [("temperature",.number (.finite 1)),("tools",.array none [])])]

private theorem image_sent : (Policies.cap tenMicros).onPayload groqModel none imagePayload = some imageSent := by
  have body : finalBody tenMicros.ask imagePayload .undefined =
      some (imageSent,{ tenMicros.ask with finalPayload := some ⟨imageSent,none,false,.undefined⟩ }) := by rfl
  have fits : ¬(false = true ∨ (tenMicros.policy.capMicros : Rat) <
      ((tenMicros.guard.spent + tenMicros.guard.inflight - (4 : Nat) + (max 4 4 : Nat) : Int) : Rat) + 0) := by
    have spent : tenMicros.guard.spent = 0 := rfl
    have inflight : tenMicros.guard.inflight = 4 := rfl
    have cap : tenMicros.policy.capMicros = 10 := rfl
    rw [spent,inflight,cap]
    norm_num
  simp only [Policies.onPayload,callHook,Option.bind_eq_bind,Option.bind_some,CostGuard.onPayload]
  have held : tenMicros.guard.tickets[tenMicros.place]? = some ⟨4,groqModel,true,false⟩ := by rfl
  rw [held,body]
  dsimp only
  have bound : tenMicros.policy.bound { tenMicros.ask with finalPayload := some ⟨imageSent,none,false,.undefined⟩ } = some 4 := by rfl
  have outside : CostGuard.externalMicros tenMicros.external = some 0 := by rfl
  rw [bound,outside]
  dsimp only
  rw [if_neg fits]

def plainPayload : Value := .object (some 0) [("model",.string "small"),("messages",.array (some 1) []),("stop",.undefined)]

def plainSent : Value := .object none [("model",.string "small"),("messages",.array (some 1) [])]

private theorem plain_proper : Proper plainPayload := by
  refine .object _ _ (by decide) fun member inside => ?_
  simp only [List.mem_cons,List.not_mem_nil,or_false] at inside
  rcases inside with rfl | rfl | rfl
  · exact .string _
  · exact .array _ _ nofun
  · exact .undefined

end PiDispatch.UsageMeter
