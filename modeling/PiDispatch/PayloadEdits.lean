import PiDispatch.PolicyPayload

/-! What a payload hook can change of the body that is sent. The snapshot that the hook's result is compared with was
taken before it ran, so an edit in place is a result like any other; only what the snapshot keeps by reference is the
hook's to change without being seen. -/
namespace PiDispatch.Payload

/-- What a key is on the wire: nothing where it is not there or not defined. -/
def Members.shown (members : Members) (key : String) : Option Value := (members.get? key).filter Value.defined

/-- What the values that are kept by reference write, each by its identity. -/
abbrev Inside := Nat → Bool × Value

mutual

/-- A value with what it keeps by reference as it is at some moment. -/
def refreshed (inside : Inside) : Value → Value
  | .reference made _ _ => .reference made (inside made).1 (inside made).2
  | .view made kind bytes wrote => .view made kind bytes (match made with
    | some own => if kind = "DataView" then (inside own).2 else wrote
    | none => wrote)
  | .array made items => .array made (refreshedItems inside items)
  | .object made members => .object made (refreshedMembers inside members)
  | value => value

def refreshedItems (inside : Inside) : List Value → List Value
  | [] => []
  | item :: items => refreshed inside item :: refreshedItems inside items

def refreshedMembers (inside : Inside) : List (String × Value) → Members
  | [] => []
  | member :: members => refreshedMember inside member :: refreshedMembers inside members

def refreshedMember (inside : Inside) : String × Value → String × Value
  | (key,value) => (key,refreshed inside value)

end

/-- What the wire carries of a value at that moment. -/
def wire (inside : Inside) (value : Value) : Option Value := cloned (refreshed inside value)

/-- A value whose snapshot shares no memory with it and leaves out no key: no view is a buffer, whose slice is the same
memory, and no key is the one that a copy takes as its prototype. -/
inductive Copied : Value → Prop
  | undefined : Copied .undefined
  | null : Copied .null
  | bool (value) : Copied (.bool value)
  | number (value) : Copied (.number value)
  | string (text) : Copied (.string text)
  | view (made kind bytes wrote) (apart : kind ≠ "Buffer") : Copied (.view made kind bytes wrote)
  | reference (made writes wrote) : Copied (.reference made writes wrote)
  | array (made items) (each : ∀ item ∈ items, Copied item) : Copied (.array made items)
  | object (made members) (named : ∀ member : String × Value, member ∈ members → member.1 ≠ "__proto__")
      (each : ∀ member : String × Value, member ∈ members → Copied member.2) : Copied (.object made members)

/-- One value in two places, as the wire sees it: plain objects by their defined keys, arrays and views by content, what
is kept by reference by its identity. -/
inductive Alike : Value → Value → Prop
  | undefined : Alike .undefined .undefined
  | null : Alike .null .null
  | bool (value) : Alike (.bool value) (.bool value)
  | number (value) : Alike (.number value) (.number value)
  | string (text) : Alike (.string text) (.string text)
  | view (made other kind bytes wrote wrote') : Alike (.view made kind bytes wrote) (.view other kind bytes wrote')
  | dataView (made kind bytes bytes' wrote wrote') :
      Alike (.view (some made) "DataView" bytes wrote) (.view (some made) kind bytes' wrote')
  | reference (made writes writes' wrote wrote') : Alike (.reference made writes wrote) (.reference made writes' wrote')
  | array (made other items others) (length : items.length = others.length)
      (each : ∀ pair : Value × Value, pair ∈ items.zip others → Alike pair.1 pair.2) :
      Alike (.array made items) (.array other others)
  | object (made other members others) (keys : ∀ key, (Members.shown members key).isSome = (Members.shown others key).isSome)
      (each : ∀ key value now, Members.shown members key = some value → Members.shown others key = some now →
        Alike value now) : Alike (.object made members) (.object other others)

theorem shown_eq_some {members : Members} (distinct : (Members.keys members).Nodup) {key : String} {value : Value} :
    members.shown key = some value ↔ (key,value) ∈ members ∧ value.defined = true := by
  unfold Members.shown
  rw [Option.filter_eq_some_iff]
  constructor
  · rintro ⟨found,defined⟩
    exact ⟨get?_mem found,defined⟩
  · rintro ⟨inside,defined⟩
    exact ⟨get?_of_mem distinct inside,defined⟩

theorem shown_isSome {members : Members} (distinct : (Members.keys members).Nodup) {key : String} :
    (members.shown key).isSome ↔ key ∈ Members.definedKeys members := by
  rw [mem_definedKeys,Option.isSome_iff_exists]
  simp only [shown_eq_some distinct]

/-- A snapshot's members are the copies of the members. -/
theorem shown_snapshot {members : Members} (distinct : (Members.keys members).Nodup)
    (named : ∀ member ∈ members, member.1 ≠ "__proto__") (key : String) :
    Members.shown (snapshotMembers members) key = (members.shown key).map snapshotPayload := by
  have distinct' := distinct.sublist (snapshot_keys members)
  apply Option.ext
  intro value
  rw [shown_eq_some distinct',mem_snapshotMembers,Option.map_eq_some_iff]
  constructor
  · rintro ⟨⟨held,inside,_,same⟩,defined⟩
    dsimp only at same
    rw [same,snapshot_defined] at defined
    exact ⟨held,(shown_eq_some distinct).mpr ⟨inside,defined⟩,same.symm⟩
  · rintro ⟨held,found,rfl⟩
    obtain ⟨inside,defined⟩ := (shown_eq_some distinct).mp found
    rw [snapshot_defined]
    exact ⟨⟨held,inside,named (key,held) inside,rfl⟩,defined⟩

/-! A snapshot writes what it is a copy of. -/

private theorem items_wire {inside : Inside} {items : List Value}
    (each : ∀ item ∈ items, wire inside (snapshotPayload item) = wire inside item) :
    clonedItems (refreshedItems inside (snapshotItems items)) = clonedItems (refreshedItems inside items) := by
  induction items with
  | nil => rfl
  | cons item items ih =>
    obtain ⟨first,rest⟩ := List.forall_mem_cons.mp each
    unfold wire at first
    simp only [snapshotItems,refreshedItems,clonedItems,first,ih rest]

private theorem members_wire {inside : Inside} {members : List (String × Value)}
    (named : ∀ member ∈ members, member.1 ≠ "__proto__")
    (each : ∀ member ∈ members, wire inside (snapshotPayload member.2) = wire inside member.2) :
    clonedMembers (refreshedMembers inside (snapshotMembers members)) = clonedMembers (refreshedMembers inside members) := by
  induction members with
  | nil => rfl
  | cons member members ih =>
    obtain ⟨key,value⟩ := member
    obtain ⟨first,rest⟩ := List.forall_mem_cons.mp each
    obtain ⟨own,others⟩ := List.forall_mem_cons.mp named
    unfold wire at first
    unfold snapshotMembers
    rw [if_neg own]
    simp only [snapshotMember,refreshedMembers,refreshedMember,clonedMembers,clonedMember,first,ih others rest]

theorem wire_snapshot {value : Value} (copied : Copied value) (inside : Inside) :
    wire inside (snapshotPayload value) = wire inside value := by
  induction value using Value.walk with
  | undefined | null | bool | number | string | reference => rfl
  | view made kind bytes wrote _ =>
    unfold wire snapshotPayload refreshed cloned
    cases made with
    | none => simp only [ite_self]
    | some own =>
      by_cases data : kind = "DataView"
      · simp only [if_pos data]
      · simp only [if_neg data]
  | array made items ih =>
    cases copied with
    | array _ _ each =>
      unfold wire snapshotPayload refreshed cloned
      rw [items_wire fun item there => ih item there (each item there)]
  | object made members ih =>
    cases copied with
    | object _ _ named each =>
      unfold wire snapshotPayload refreshed cloned
      rw [members_wire named fun member there => ih member there (each member there)]

/-! What the comparison lets through is alike. -/

theorem same_alike {value : Value} (copied : Copied value) : ∀ {other : Value} {depth : Nat}, Proper value → Proper other →
    samePayloadValue (snapshotPayload value) other depth = true → Alike value other := by
  induction value using Value.walk with
  | undefined | null | bool | number | string =>
    intro other depth _ _ same
    cases other <;> simp [snapshotPayload,samePayloadValue,identical] at same
    all_goals
      try subst same
      constructor
  | view made kind bytes wrote _ =>
    intro other depth proper _ same
    cases proper with
    | view own =>
      unfold snapshotPayload samePayloadValue at same
      rw [Bool.or_eq_true,Bool.and_eq_true] at same
      rcases same with own' | ⟨_,equal⟩
      · split at own'
        next data =>
          subst data
          cases other with
          | view made' kind' bytes' wrote' =>
            cases made' with
            | none => simp [identical] at own'
            | some other =>
              simp [identical] at own'
              subst own'
              exact .dataView _ _ _ _ _ _
          | _ => simp [identical] at own'
        next => cases other <;> simp [identical] at own'
      · cases other <;> simp at equal
        obtain ⟨rfl,rfl⟩ := equal
        exact .view _ _ _ _ _ _
  | reference made writes wrote _ =>
    intro other depth _ _ same
    cases other <;> simp [snapshotPayload,samePayloadValue,identical] at same
    subst same
    exact .reference _ _ _ _ _
  | array made items ih =>
    intro other depth proper proper' same
    unfold snapshotPayload at same
    obtain ⟨_,made',others,rfl,each⟩ := same_array.mp same
    rw [snapshotItems_map,List.forall₂_map_left_iff,List.forall₂_iff_zip] at each
    cases proper with
    | array _ _ own =>
      cases proper' with
      | array _ _ own' =>
        cases copied with
        | array _ _ copies =>
          refine .array _ _ _ _ each.1 ?_
          rintro ⟨item,other⟩ paired
          obtain ⟨left,right⟩ := List.of_mem_zip paired
          exact ih item left (copies item left) (own item left) (own' other right) (each.2 paired)
  | object made members ih =>
    intro other depth proper proper' same
    unfold snapshotPayload at same
    obtain ⟨_,made',others,rfl,length,matched⟩ := same_object.mp same
    cases proper with
    | object _ _ distinct own =>
      cases proper' with
      | object _ _ apart own' =>
        cases copied with
        | object _ _ named copies =>
          have distinct' := distinct.sublist (snapshot_keys members)
          have back := matched_back distinct' length matched
          have through : ∀ key value, Members.shown members key = some value →
              ∃ now, Members.shown others key = some now ∧ samePayloadValue (snapshotPayload value) now (depth + 1) = true := by
            intro key value found
            obtain ⟨there,defined⟩ := (shown_eq_some distinct).mp found
            have copy : (key,snapshotPayload value) ∈ snapshotMembers members :=
              mem_snapshotMembers.mpr ⟨value,there,named (key,value) there,rfl⟩
            obtain ⟨now,found',defined',equal⟩ := matched _ copy ((snapshot_defined value).trans defined)
            exact ⟨now,(shown_eq_some apart).mpr ⟨get?_mem found',defined'⟩,equal⟩
          refine .object _ _ _ _ ?_ ?_
          · intro key
            rw [Bool.eq_iff_iff]
            constructor
            · intro here
              obtain ⟨value,found⟩ := Option.isSome_iff_exists.mp here
              obtain ⟨now,found',_⟩ := through key value found
              rw [found']
              rfl
            · intro there
              have inside := back key ((shown_isSome apart).mp there)
              rw [← shown_isSome distinct',shown_snapshot distinct named,Option.isSome_map] at inside
              exact inside
          · intro key value now found found'
            obtain ⟨now',same',equal⟩ := through key value found
            rw [found'] at same'
            cases same'
            obtain ⟨there,_⟩ := (shown_eq_some distinct).mp found
            obtain ⟨there',_⟩ := (shown_eq_some apart).mp found'
            exact ih (key,value) there (copies _ there) (own _ there) (own' _ there') equal

end PiDispatch.Payload

namespace PiDispatch.UsageMeter
open Payload

/-- The settings of a payload, or none. -/
def configOf (members : Members) : Members := ((members.shown "config").getD .undefined).members

def ConfigPlain (members : Members) : Prop := ∃ made settings, members.shown "config" = some (.object made settings)

/-- A payload whose snapshot shares no memory with it and leaves out no key, beside what is editable. -/
structure Copyable (payload : Members) : Prop where
  named : ∀ member ∈ payload, member.1 ≠ "__proto__"
  others : ∀ key value, (key,value) ∈ payload → key ∉ PAYLOAD_EDITABLE.top → (key = "config" → ¬ConfigPlain payload) →
    Copied value
  config : ∀ made settings, ("config",.object made settings) ∈ payload → (∀ member ∈ settings, member.1 ≠ "__proto__") ∧
    ∀ key value, (key,value) ∈ settings → key ∉ PAYLOAD_EDITABLE.config → Copied value

/-- Beside its editable keys, what is sent is on the wire what pi built. -/
structure Unrouted (inside : Inside) (sent payload : Members) : Prop where
  others : ∀ key ∉ PAYLOAD_EDITABLE.top, (key = "config" → ¬ConfigPlain payload) →
    (sent.shown key).map (wire inside) = (payload.shown key).map (wire inside)
  config : ConfigPlain payload → ConfigPlain sent ∧ ∀ key ∉ PAYLOAD_EDITABLE.config,
    ((configOf sent).shown key).map (wire inside) = ((configOf payload).shown key).map (wire inside)

/-- Beside the editable keys, a hook's result is what pi built. -/
structure Unedited (payload result : Members) : Prop where
  others : ∀ key ∉ PAYLOAD_EDITABLE.top, (key = "config" → ¬ConfigPlain payload) →
    Option.Rel Alike (payload.shown key) (result.shown key)
  config : ConfigPlain payload → ConfigPlain result ∧ ∀ key ∉ PAYLOAD_EDITABLE.config,
    Option.Rel Alike ((configOf payload).shown key) ((configOf result).shown key)

/-- Two results that say the same under the editable keys. -/
structure EditsAgree (payload result other : Members) : Prop where
  top : ∀ key ∈ PAYLOAD_EDITABLE.top, result.shown key = other.shown key
  config : ConfigPlain payload → ∀ key ∈ PAYLOAD_EDITABLE.config, (configOf result).shown key = (configOf other).shown key

/-- Two payloads with the same members, and the same settings where these are plain. -/
structure SentAlike (payload sent other : Members) : Prop where
  others : ∀ key, (key = "config" → ¬ConfigPlain payload) → sent.shown key = other.shown key
  config : ConfigPlain payload → ConfigPlain sent ∧ ConfigPlain other ∧ ∀ key, (configOf sent).shown key = (configOf other).shown key

/-! Each key of what is sent. -/

private theorem keptKeys_each {editable : List String} {kept : String → Value → Option Value} {before others : Members}
    (some' : keptKeys editable kept before = some others) {key : String} {held : Value} (inside : (key,held) ∈ before)
    (defined : held.defined = true) (fixed : key ∉ editable) : ∃ value, kept key held = some value := by
  have paired := keptKeys_some some'
  have there : (key,held) ∈ before.filter fun member => member.2.defined && member.1 ∉ editable :=
    List.mem_filter.mpr ⟨inside,by simp [defined,fixed]⟩
  generalize before.filter (fun member => member.2.defined && member.1 ∉ editable) = list at paired there
  clear some'
  induction paired with
  | nil => cases there
  | cons first rest ih =>
    rcases List.mem_cons.mp there with same | later
    · subst same
      exact ⟨_,first.2⟩
    · exact ih later

section Rebuilt
variable {editable : List String} {Kept : String → Value → Prop} {sent result : Members}

private theorem edited_shown (rebuilt : Rebuilt editable Kept sent result) (distinct : (Members.keys result).Nodup) {key : String}
    (named : key ∈ editable) : Members.shown sent key = Members.shown result key := by
  apply Option.ext
  intro value
  rw [shown_eq_some rebuilt.distinct,shown_eq_some distinct]
  constructor
  · rintro ⟨inside,defined⟩
    rcases (rebuilt.each key value inside).2 with ⟨_,own⟩ | ⟨fixed,_⟩
    · exact ⟨own,defined⟩
    · exact absurd named fixed
  · rintro ⟨inside,defined⟩
    obtain ⟨⟨_,other⟩,there,rfl⟩ := List.mem_map.mp (rebuilt.covers key (mem_definedKeys.mpr ⟨value,inside,defined⟩))
    rcases (rebuilt.each _ other there).2 with ⟨_,own⟩ | ⟨fixed,_⟩
    · have same := get?_of_mem distinct own
      rw [get?_of_mem distinct inside] at same
      cases same
      exact ⟨there,defined⟩
    · exact absurd named fixed

/-- A key that is not editable is shown as the snapshot has it, where the snapshot's own value is what is kept. -/
private theorem kept_shown {before : Members} (rebuilt : Rebuilt editable Kept sent result)
    (known : (Members.keys before).Nodup) {key : String} (fixed : key ∉ editable)
    (own : ∀ value, Kept key value → (key,value) ∈ before)
    (found : ∀ held, (key,held) ∈ before → held.defined = true → ∃ other, Members.get? result key = some other ∧ other.defined = true) :
    Members.shown sent key = Members.shown before key := by
  apply Option.ext
  intro value
  rw [shown_eq_some rebuilt.distinct,shown_eq_some known]
  constructor
  · rintro ⟨inside,defined⟩
    rcases (rebuilt.each key value inside).2 with ⟨named,_⟩ | ⟨_,kept⟩
    · exact absurd named fixed
    · exact ⟨own value kept,defined⟩
  · rintro ⟨inside,defined⟩
    obtain ⟨other,at',known'⟩ := found value inside defined
    obtain ⟨⟨_,held⟩,there,named⟩ := List.mem_map.mp (rebuilt.covers key (mem_definedKeys.mpr ⟨other,get?_mem at',known'⟩))
    dsimp only at named
    subst named
    rcases (rebuilt.each _ held there).2 with ⟨named,_⟩ | ⟨_,kept⟩
    · exact absurd named fixed
    · have same := get?_of_mem known (own held kept)
      rw [get?_of_mem known inside] at same
      cases same
      exact ⟨there,defined⟩

/-- What is kept of a payload is alike the result's own there. -/
private theorem kept_alike {payload : Members} (rebuilt : Rebuilt editable Kept sent result)
    (known : (Members.keys payload).Nodup) (distinct : (Members.keys result).Nodup)
    {key : String} (each : ∀ value, (key,value) ∈ payload → Copied value ∧ Proper value)
    (each' : ∀ member ∈ result, Proper member.2) (fixed : key ∉ editable) (shown : sent.shown key = (payload.shown key).map snapshotPayload)
    (same : ∀ value, Kept key value → ∃ now, Members.get? result key = some now ∧ samePayloadValue value now 0 = true) :
    Option.Rel Alike (payload.shown key) (result.shown key) := by
  cases here : payload.shown key with
  | none =>
    rw [here,Option.map_none] at shown
    have none' : result.shown key = none := by
      rw [← Option.not_isSome_iff_eq_none]
      intro there
      obtain ⟨⟨_,held⟩,at',named⟩ := List.mem_map.mp (rebuilt.covers key ((shown_isSome distinct).mp there))
      dsimp only at named
      subst named
      rw [(shown_eq_some rebuilt.distinct).mpr ⟨at',(rebuilt.each _ held at').1⟩] at shown
      cases shown
    rw [none']
    exact .none
  | some value =>
    rw [here,Option.map_some] at shown
    obtain ⟨at',defined⟩ := (shown_eq_some rebuilt.distinct).mp shown
    rcases (rebuilt.each _ _ at').2 with ⟨edited,_⟩ | ⟨_,kept⟩
    · exact absurd edited fixed
    · obtain ⟨now,found,equal⟩ := same _ kept
      obtain ⟨there,_⟩ := (shown_eq_some known).mp here
      have defined' : now.defined = true := (same_defined equal).symm.trans defined
      rw [(shown_eq_some distinct).mpr ⟨get?_mem found,defined'⟩]
      exact .some (same_alike (each value there).1 (each value there).2 (each' _ (get?_mem found)) equal)

end Rebuilt

private theorem configOf_object {list : Members} {own : Option Nat} {settings : Members}
    (shown : list.shown "config" = some (.object own settings)) : configOf list = settings := by
  unfold configOf
  rw [shown]
  rfl

section Sent
variable {payload members : Members} {made other : Option Nat} {sent : Value} (proper : Proper (.object made payload))
  (copied : Copyable payload) (proper' : Proper (.object other members))
  (accepted : payloadAfterHook (snapshotMembers payload) (.object other members) = some sent)
include proper proper' accepted

/-- What is sent, and what the hook's result was found to hold of the keys that are not editable. -/
private theorem sent_parts : ∃ list, sent = .object none list ∧
    Rebuilt PAYLOAD_EDITABLE.top (Kept (snapshotMembers payload) members) list members ∧
    ∀ key held, (key,held) ∈ snapshotMembers payload → held.defined = true → key ∉ PAYLOAD_EDITABLE.top →
      ∃ value, keptKey members key held = some value := by
  obtain ⟨_,known,_⟩ := proper_members proper
  obtain ⟨_,distinct,_⟩ := proper_members proper'
  obtain ⟨list,same,_,rebuilt⟩ := after_hook (known.sublist (snapshot_keys payload)) distinct accepted
  refine ⟨list,same,rebuilt,?_⟩
  intro key held inside defined fixed
  unfold payloadAfterHook at accepted
  simp only [Option.bind_eq_bind,Option.bind_eq_some_iff] at accepted
  obtain ⟨_,_,kept,covered,_⟩ := accepted
  exact keptKeys_each covered inside defined fixed

omit proper' accepted in
include copied in
/-- A member of the snapshot is the copy of what the payload shows there. -/
private theorem snapshot_member {key : String} {held : Value} :
    ((key,held) ∈ snapshotMembers payload ∧ held.defined = true) ↔
      ∃ value, payload.shown key = some value ∧ held = snapshotPayload value := by
  obtain ⟨_,known,_⟩ := proper_members proper
  rw [← shown_eq_some (known.sublist (snapshot_keys payload)),shown_snapshot known copied.named,Option.map_eq_some_iff]
  constructor
  · rintro ⟨value,found,same⟩
    exact ⟨value,found,same.symm⟩
  · rintro ⟨value,found,same⟩
    exact ⟨value,found,same.symm⟩

include copied in
private theorem others_sent {list : Members} (same : sent = .object none list) {key : String}
    (fixed : key ∉ PAYLOAD_EDITABLE.top) (free : key = "config" → ¬ConfigPlain payload) :
    list.shown key = (payload.shown key).map snapshotPayload ∧ Option.Rel Alike (payload.shown key) (members.shown key) := by
  obtain ⟨list',same',rebuilt,covered⟩ := sent_parts proper proper' accepted
  rw [same] at same'
  cases same'
  obtain ⟨_,known,own⟩ := proper_members proper
  obtain ⟨_,distinct,own'⟩ := proper_members proper'
  have known' := known.sublist (snapshot_keys payload)
  have simple : ∀ value, Kept (snapshotMembers payload) members key value →
      (key,value) ∈ snapshotMembers payload ∧ ∃ now, Members.get? members key = some now ∧ samePayloadValue value now 0 = true := by
    intro value kept
    cases kept with
    | whole held now inside found _ equal same =>
      subst equal
      exact ⟨inside,now,found,same⟩
    | config made' _ settings others inside found named _ =>
      subst named
      obtain ⟨value,shown,copy⟩ := (snapshot_member proper copied).mp ⟨inside,rfl⟩
      cases value <;> simp [snapshotPayload] at copy
      exact absurd ⟨_,_,shown⟩ (free rfl)
  have found : ∀ held, (key,held) ∈ snapshotMembers payload → held.defined = true →
      ∃ now, Members.get? members key = some now ∧ now.defined = true := by
    intro held inside defined
    obtain ⟨value,kept⟩ := covered key held inside defined fixed
    obtain ⟨now,at',here,_⟩ := keptKey_some kept
    exact ⟨now,at',here⟩
  have shown := kept_shown rebuilt known' fixed (fun value kept => (simple value kept).1) found
  rw [shown_snapshot known copied.named] at shown
  refine ⟨shown,kept_alike rebuilt known distinct ?_ own' fixed shown fun value kept => (simple value kept).2⟩
  exact fun value inside => ⟨copied.others key value inside fixed free,own _ inside⟩

include copied in
/-- Where pi built a plain `config`, so did the hook, and what is sent holds the one rebuilt of both. -/
private theorem config_built {list : Members} (same : sent = .object none list) {settings : Members} {made' : Option Nat}
    (shown : payload.shown "config" = some (.object made' settings)) : ∃ own others value,
      members.shown "config" = some (.object own others) ∧ list.shown "config" = some value ∧
      configAfterHook (snapshotMembers settings) others = some value := by
  obtain ⟨list',same',rebuilt,covered⟩ := sent_parts proper proper' accepted
  rw [same] at same'
  cases same'
  obtain ⟨_,known,_⟩ := proper_members proper
  obtain ⟨_,distinct,_⟩ := proper_members proper'
  have known' := known.sublist (snapshot_keys payload)
  have fixed : "config" ∉ PAYLOAD_EDITABLE.top := by decide
  obtain ⟨inside,_⟩ := (snapshot_member proper copied).mpr ⟨_,shown,rfl⟩
  obtain ⟨_,kept⟩ := covered _ _ inside rfl fixed
  obtain ⟨now,found,here,_⟩ := keptKey_some kept
  have covers := rebuilt.covers "config" (mem_definedKeys.mpr ⟨now,get?_mem found,here⟩)
  obtain ⟨⟨key,value⟩,there,named⟩ := List.mem_map.mp covers
  dsimp only at named
  subst named
  obtain ⟨defined,⟨edited,_⟩ | ⟨_,kept⟩⟩ := rebuilt.each _ _ there
  · exact absurd edited fixed
  · cases kept with
    | whole held now inside' found' simple _ equal =>
      have one := get?_of_mem known' inside
      rw [get?_of_mem known' inside'] at one
      cases one
      obtain ⟨_,_,_,rfl,_⟩ := same_object.mp equal
      exact absurd ⟨rfl,rfl,rfl⟩ simple
    | config m own settings' others inside' found' _ built =>
      have one := get?_of_mem known' inside
      rw [get?_of_mem known' inside'] at one
      cases one
      exact ⟨own,others,value,(shown_eq_some distinct).mpr ⟨get?_mem found',rfl⟩,
        (shown_eq_some rebuilt.distinct).mpr ⟨there,defined⟩,built⟩

include copied in
private theorem config_sent {list : Members} (same : sent = .object none list) (plain : ConfigPlain payload) :
    ConfigPlain list ∧ ConfigPlain members ∧
      (∀ key ∈ PAYLOAD_EDITABLE.config, (configOf list).shown key = (configOf members).shown key) ∧
      ∀ key ∉ PAYLOAD_EDITABLE.config, (configOf list).shown key = ((configOf payload).shown key).map snapshotPayload ∧
        Option.Rel Alike ((configOf payload).shown key) ((configOf members).shown key) := by
  obtain ⟨made',settings,shown⟩ := plain
  obtain ⟨own,others,value,found,there,built⟩ := config_built proper copied proper' accepted same shown
  obtain ⟨_,known,each⟩ := proper_members proper
  obtain ⟨_,distinct,each'⟩ := proper_members proper'
  have inner := each _ ((shown_eq_some known).mp shown).1
  have outer := each' _ ((shown_eq_some distinct).mp found).1
  obtain ⟨named,copies⟩ := copied.config made' settings ((shown_eq_some known).mp shown).1
  obtain ⟨_,known',proper'⟩ := proper_members inner
  obtain ⟨_,apart,proper''⟩ := proper_members outer
  obtain ⟨edited,kept,rfl,_,second,rebuilt⟩ := config_rebuilt (known'.sublist (snapshot_keys settings)) apart built
  rw [configOf_object shown,configOf_object found,configOf_object there]
  refine ⟨⟨_,_,there⟩,⟨_,_,found⟩,fun key named => edited_shown rebuilt apart named,?_⟩
  intro key fixed
  have settled : ∀ held, (key,held) ∈ snapshotMembers settings → held.defined = true →
      ∃ now, Members.get? others key = some now ∧ now.defined = true := by
    intro held inside defined
    obtain ⟨_,kept'⟩ := keptKeys_each second inside defined fixed
    obtain ⟨_,now,at',here,_⟩ := keptSetting_some kept'
    exact ⟨now,at',here⟩
  have own' := kept_shown rebuilt (known'.sublist (snapshot_keys settings)) fixed (fun value kept' => kept'.1) settled
  rw [shown_snapshot known' named] at own'
  refine ⟨own',kept_alike rebuilt known' apart ?_ proper'' fixed own' fun value kept' => ?_⟩
  · exact fun value inside => ⟨copies key value inside fixed,proper' _ inside⟩
  · obtain ⟨_,now,at',_,equal⟩ := kept'
    exact ⟨now,at',equal⟩

end Sent

private theorem object_of {payload : Members} {result sent : Value}
    (accepted : payloadAfterHook (snapshotMembers payload) result = some sent) (proper : Proper result) :
    ∃ other members, result = .object other members ∧ ∃ list, sent = .object none list := by
  obtain ⟨other,members,rfl⟩ := object_left accepted
  unfold payloadAfterHook at accepted
  simp only [Option.bind_eq_bind,Option.pure_def,Option.bind_eq_some_iff] at accepted
  obtain ⟨_,_,_,_,same⟩ := accepted
  cases same
  exact ⟨other,members,rfl,_,rfl⟩

section Hooks
variable {payload : Members} {made : Option Nat} (proper : Proper (.object made payload))
  (copied : Copyable payload) {result : Value} (proper' : Proper result)
include proper copied proper'

private theorem sent_unrouted {sent : Value} (accepted : payloadAfterHook (snapshotMembers payload) result = some sent)
    (inside : Inside) : Unrouted inside sent.members payload := by
  obtain ⟨other,members,rfl,list,rfl⟩ := object_of accepted proper'
  obtain ⟨_,known,each⟩ := proper_members proper
  constructor
  · intro key fixed free
    rw [show (Value.object none list).members = list from rfl,
      (others_sent proper copied proper' accepted rfl fixed free).1,Option.map_map]
    cases shown : payload.shown key with
    | none => rfl
    | some value =>
      have copy := copied.others key value ((shown_eq_some known).mp shown).1 fixed free
      exact congrArg some (wire_snapshot copy inside)
  · intro plain
    obtain ⟨own,_,_,kept⟩ := config_sent proper copied proper' accepted rfl plain
    refine ⟨own,fun key fixed => ?_⟩
    rw [show (Value.object none list).members = list from rfl,(kept key fixed).1,Option.map_map]
    obtain ⟨made',settings,there⟩ := plain
    obtain ⟨_,copies⟩ := copied.config made' settings ((shown_eq_some known).mp there).1
    obtain ⟨_,known',_⟩ := proper_members (each _ ((shown_eq_some known).mp there).1)
    rw [configOf_object there]
    cases shown : Members.shown settings key with
    | none => rfl
    | some value => exact congrArg some (wire_snapshot (copies key value ((shown_eq_some known').mp shown).1 fixed) inside)

private theorem sent_unedited {sent : Value} (accepted : payloadAfterHook (snapshotMembers payload) result = some sent) :
    Unedited payload result.members := by
  obtain ⟨other,members,rfl,list,rfl⟩ := object_of accepted proper'
  constructor
  · intro key fixed free
    exact (others_sent proper copied proper' accepted rfl fixed free).2
  · intro plain
    obtain ⟨_,own,_,kept⟩ := config_sent proper copied proper' accepted rfl plain
    exact ⟨own,fun key fixed => (kept key fixed).2⟩

private theorem sent_alike {sent other sent' : Value} (proper'' : Proper other)
    (accepted : payloadAfterHook (snapshotMembers payload) result = some sent)
    (accepted' : payloadAfterHook (snapshotMembers payload) other = some sent')
    (agree : EditsAgree payload result.members other.members) : SentAlike payload sent.members sent'.members := by
  obtain ⟨own,members,rfl,list,rfl⟩ := object_of accepted proper'
  obtain ⟨own',members',rfl,list',rfl⟩ := object_of accepted' proper''
  constructor
  · intro key free
    by_cases named : key ∈ PAYLOAD_EDITABLE.top
    · obtain ⟨one,same,rebuilt,_⟩ := sent_parts proper proper' accepted
      obtain ⟨two,same',rebuilt',_⟩ := sent_parts proper proper'' accepted'
      cases same
      cases same'
      have left := edited_shown rebuilt (proper_members proper').2.1 named
      have right := edited_shown rebuilt' (proper_members proper'').2.1 named
      exact left.trans ((agree.top key named).trans right.symm)
    · have left := (others_sent proper copied proper' accepted rfl named free).1
      have right := (others_sent proper copied proper'' accepted' rfl named free).1
      exact left.trans right.symm
  · intro plain
    obtain ⟨here,_,edited,kept⟩ := config_sent proper copied proper' accepted rfl plain
    obtain ⟨there,_,edited',kept'⟩ := config_sent proper copied proper'' accepted' rfl plain
    refine ⟨here,there,fun key => ?_⟩
    by_cases named : key ∈ PAYLOAD_EDITABLE.config
    · exact (edited key named).trans ((agree.config plain key named).trans (edited' key named).symm)
    · exact (kept key named).1.trans (kept' key named).1.symm

end Hooks

/-- A payload of google's, with the signal that its caller may abort it by. -/
def signalPayload : Members := [("config",.object (some 1) [("abortSignal",.reference 2 true (.object none [])),
  ("temperature",.number (.finite 1))])]

/-- The same signal, after a hook has given it a property. -/
def signalInside : Inside := fun _ => (true,.object none [("url",.string "x")])

def signalResult : Value := .object (some 0) (refreshedMembers signalInside signalPayload)

def protoPayload : Members := [("tools",.object (some 1) [("__proto__",.bool true)])]

def protoResult : Value := .object (some 2) [("tools",.object (some 3) [])]

private theorem signal_proper : Proper (.object (some 0) signalPayload) ∧ Copyable signalPayload ∧ Proper signalResult := by
  refine ⟨?_,⟨?_,?_,?_⟩,?_⟩
  · refine .object _ _ (by decide) ?_
    intro member inside
    rw [List.mem_singleton.mp inside]
    refine .object _ _ (by decide) ?_
    rw [List.forall_mem_cons,List.forall_mem_singleton]
    exact ⟨.reference _ _ _,.number _⟩
  · intro member inside
    rw [List.mem_singleton.mp inside]
    decide
  · intro key value inside _ free
    cases List.mem_singleton.mp inside
    exact absurd ⟨_,_,rfl⟩ (free rfl)
  · intro made settings inside
    cases List.mem_singleton.mp inside
    constructor
    · rw [List.forall_mem_cons,List.forall_mem_singleton]
      exact ⟨by decide,by decide⟩
    · intro key value there _
      rcases List.mem_cons.mp there with same | there
      · cases same
        exact .reference _ _ _
      · cases List.mem_singleton.mp there
        exact .number _
  · refine .object _ _ (by decide) ?_
    intro member inside
    rw [List.mem_singleton.mp inside]
    refine .object _ _ (by decide) ?_
    change ∀ member ∈ [("abortSignal",Value.reference 2 true (.object none [("url",.string "x")])),
      ("temperature",.number (.finite 1))], Proper member.2
    rw [List.forall_mem_cons,List.forall_mem_singleton]
    exact ⟨.reference _ _ _,.number _⟩

end PiDispatch.UsageMeter
