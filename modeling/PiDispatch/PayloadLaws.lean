import PiDispatch.Payload

/-! Laws of payloads: what the module's equality looks at and how deep, what a snapshot keeps, and which values a JSON
clone carries. -/
namespace PiDispatch.Payload

/-- Induction over values, with the hypothesis for all items and members at once. -/
theorem Value.walk {P : Value → Prop} (undefined : P .undefined) (null : P .null) (bool : ∀ value, P (.bool value))
    (number : ∀ value, P (.number value)) (string : ∀ text, P (.string text))
    (view : ∀ made kind bytes wrote, P wrote → P (.view made kind bytes wrote))
    (reference : ∀ made writes wrote, P wrote → P (.reference made writes wrote))
    (array : ∀ made items, (∀ item ∈ items, P item) → P (.array made items))
    (object : ∀ made members, (∀ member ∈ members, P member.2) → P (.object made members)) (value : Value) : P value :=
  @Value.rec P (fun items => ∀ item ∈ items, P item) (fun members => ∀ member ∈ members, P member.2)
    (fun member => P member.2) undefined null bool number string view reference array object nofun
    (fun _ _ first rest => List.forall_mem_cons.mpr ⟨first,rest⟩) nofun
    (fun _ _ first rest => List.forall_mem_cons.mpr ⟨first,rest⟩) (fun _ _ own => own) value

def Members.keys (members : Members) : List String := members.map Prod.fst

theorem get?_mem {members : Members} {key : String} {value : Value} (found : Members.get? members key = some value) :
    (key,value) ∈ members := by
  unfold Members.get? at found
  obtain ⟨⟨other,held⟩,first,same⟩ := Option.map_eq_some_iff.mp found
  have own := List.find?_some first
  have inside := List.mem_of_find?_eq_some first
  have named : other = key := by simpa using own
  cases named
  cases same
  exact inside

theorem get?_of_mem {members : Members} (distinct : (Members.keys members).Nodup) {key : String} {value : Value}
    (inside : (key,value) ∈ members) : Members.get? members key = some value := by
  induction members with
  | nil => cases inside
  | cons first rest ih =>
    obtain ⟨other,held⟩ := first
    obtain ⟨fresh,distinct⟩ := List.nodup_cons.mp distinct
    unfold Members.get?
    rcases List.mem_cons.mp inside with same | inside
    · cases same
      simp
    · have different : other ≠ key := by
        intro same
        subst same
        exact fresh (List.mem_map.mpr ⟨_,inside,rfl⟩)
      rw [List.find?_cons_of_neg (by simpa using different)]
      exact ih distinct inside

theorem mem_definedKeys {members : Members} {key : String} :
    key ∈ Members.definedKeys members ↔ ∃ value, (key,value) ∈ members ∧ value.defined = true := by
  unfold Members.definedKeys
  simp

theorem definedKeys_nodup {members : Members} (distinct : (Members.keys members).Nodup) :
    (Members.definedKeys members).Nodup := distinct.sublist (List.filter_sublist.map _)

theorem sameItems_iff (items others : List Value) (depth : Nat) :
    sameItems items others depth = true ↔ List.Forall₂ (fun a b => samePayloadValue a b depth = true) items others := by
  induction items generalizing others with
  | nil =>
    cases others with
    | nil => simp [sameItems]
    | cons => simp [sameItems]
  | cons item items ih =>
    cases others with
    | nil => simp [sameItems]
    | cons other others => simp [sameItems,ih]

/-- A member is found on the other side, defined and the same. -/
def Matched (others : Members) (depth : Nat) (member : String × Value) : Prop :=
  ∃ other, Members.get? others member.1 = some other ∧ other.defined = true ∧
    samePayloadValue member.2 other depth = true

theorem sameMembers_iff (members : List (String × Value)) (others : Members) (depth : Nat) :
    sameMembers members others depth = true ↔
      ∀ member ∈ members, member.2.defined = true → Matched others depth member := by
  induction members with
  | nil => simp [sameMembers]
  | cons member members ih =>
    obtain ⟨key,value⟩ := member
    have first : sameMember (key,value) others depth = true ↔ (value.defined = true → Matched others depth (key,value)) := by
      unfold sameMember Matched
      dsimp only
      cases value.defined <;> cases Members.get? others key <;> simp
    unfold sameMembers
    rw [Bool.and_eq_true,first,ih,List.forall_mem_cons]

theorem same_array {items : List Value} {b : Value} {depth : Nat} :
    samePayloadValue (.array none items) b depth = true ↔ depth ≤ 64 ∧ ∃ made others, b = .array made others ∧
      List.Forall₂ (fun a b => samePayloadValue a b (depth + 1) = true) items others := by
  cases b <;> simp [samePayloadValue,identical,sameItems_iff]

theorem same_object {members : Members} {b : Value} {depth : Nat} :
    samePayloadValue (.object none members) b depth = true ↔ depth ≤ 64 ∧ ∃ made others, b = .object made others ∧
      (Members.definedKeys members).length = (Members.definedKeys others).length ∧
      ∀ member ∈ members, member.2.defined = true → Matched others (depth + 1) member := by
  cases b <;> simp [samePayloadValue,identical,sameMembers_iff]

theorem snapshotItems_map (items : List Value) : snapshotItems items = items.map snapshotPayload := by
  induction items with
  | nil => rfl
  | cons item items ih => simp [snapshotItems,ih]

theorem mem_snapshotMembers {members : List (String × Value)} {member : String × Value} :
    member ∈ snapshotMembers members ↔
      ∃ value, (member.1,value) ∈ members ∧ member.1 ≠ "__proto__" ∧ member.2 = snapshotPayload value := by
  induction members with
  | nil => simp [snapshotMembers]
  | cons first rest ih =>
    obtain ⟨key,value⟩ := first
    obtain ⟨other,held⟩ := member
    unfold snapshotMembers
    dsimp only at ih ⊢
    by_cases proto : key = "__proto__"
    · rw [if_pos proto,ih]
      simp only [List.mem_cons,Prod.mk.injEq]
      constructor
      · rintro ⟨value',inside,named,same⟩
        exact ⟨value',.inr inside,named,same⟩
      · rintro ⟨value',⟨rfl,rfl⟩ | inside,named,same⟩
        · exact absurd proto named
        · exact ⟨value',inside,named,same⟩
    · rw [if_neg proto,List.mem_cons,ih]
      unfold snapshotMember
      simp only [List.mem_cons,Prod.mk.injEq]
      constructor
      · rintro (⟨rfl,rfl⟩ | ⟨value',inside,named,same⟩)
        · exact ⟨value,.inl ⟨rfl,rfl⟩,proto,rfl⟩
        · exact ⟨value',.inr inside,named,same⟩
      · rintro ⟨value',⟨rfl,rfl⟩ | inside,named,same⟩
        · exact .inl ⟨rfl,same⟩
        · exact .inr ⟨value',inside,named,same⟩

theorem clonedItems_some {items copies : List Value} (written : clonedItems items = some copies) :
    List.Forall₂ (fun item copy => ∃ held, cloned item = some held ∧
      copy = if held.defined = true then held else .null) items copies := by
  induction items generalizing copies with
  | nil =>
    cases written
    exact .nil
  | cons item items ih =>
    unfold clonedItems at written
    split at written
    next rest first later =>
      cases written
      exact .cons ⟨_,first,rfl⟩ (ih later)
    next held rest some' own later =>
      cases written
      refine .cons ⟨held,own,?_⟩ (ih later)
      have defined : held.defined = true := by
        cases held with
        | undefined => exact absurd rfl some'
        | _ => rfl
      rw [if_pos defined]
    next => cases written

/-- The members of a clone: those that are written as anything. -/
def written (members : Members) : Members :=
  members.filterMap fun member => match cloned member.2 with
    | some value => if value.defined = true then some (member.1,value) else none
    | none => none

theorem clonedMembers_some {members copies : Members} (some' : clonedMembers members = some copies) :
    copies = written members ∧ ∀ member ∈ members, (cloned member.2).isSome = true := by
  induction members generalizing copies with
  | nil =>
    cases some'
    exact ⟨rfl,nofun⟩
  | cons member members ih =>
    obtain ⟨key,value⟩ := member
    unfold clonedMembers clonedMember at some'
    cases first : cloned value with
    | none =>
      rw [first] at some'
      cases some'
    | some held =>
      cases later : clonedMembers members with
      | none =>
        rw [first,later] at some'
        cases held <;> cases some'
      | some rest =>
        obtain ⟨same,each⟩ := ih later
        rw [first,later] at some'
        refine ⟨?_,List.forall_mem_cons.mpr ⟨by rw [first]; rfl,each⟩⟩
        unfold written
        rw [List.filterMap_cons]
        dsimp only
        rw [first]
        unfold written at same
        rw [← same]
        cases held <;> cases some' <;> rfl

/-- A value as a program holds it: every object has its identity, and its keys are distinct. -/
inductive Proper : Value → Prop
  | undefined : Proper .undefined
  | null : Proper .null
  | bool (value) : Proper (.bool value)
  | number (value) : Proper (.number value)
  | string (text) : Proper (.string text)
  | view (made kind bytes wrote) : Proper (.view (some made) kind bytes wrote)
  | reference (made writes wrote) : Proper (.reference made writes wrote)
  | array (made items) (each : ∀ item ∈ items, Proper item) : Proper (.array (some made) items)
  | object (made members) (distinct : (Members.keys members).Nodup)
      (each : ∀ member : String × Value, member ∈ members → Proper member.2) : Proper (.object (some made) members)

/-- A value that JSON carries, at a depth of the payload, as deep as the equality looks. -/
inductive Carried : Value → Nat → Prop
  | null (depth) : Carried .null depth
  | bool (value depth) : Carried (.bool value) depth
  | finite (value depth) : Carried (.number (.finite value)) depth
  | string (text depth) : Carried (.string text) depth
  | array (made items depth) (within : depth ≤ 64) (each : ∀ item ∈ items, Carried item (depth + 1)) :
      Carried (.array made items) depth
  | object (made members depth) (within : depth ≤ 64)
      (each : ∀ member : String × Value, member ∈ members → member.2.defined = true → Carried member.2 (depth + 1)) :
      Carried (.object made members) depth

/-- What a copy holds lies as deep as the equality looks, or is the other's own. -/
inductive Within : Value → Value → Nat → Prop
  | own (a b depth) (same : identical a b = true) : Within a b depth
  | view (made kind bytes wrote b depth) (within : depth ≤ 64) : Within (.view made kind bytes wrote) b depth
  | array (made other items others depth) (within : depth ≤ 64)
      (each : ∀ pair : Value × Value, pair ∈ items.zip others → Within pair.1 pair.2 (depth + 1)) :
      Within (.array made items) (.array other others) depth
  | object (made other members others depth) (within : depth ≤ 64)
      (each : ∀ member : String × Value, member ∈ members → member.2.defined = true →
        ∀ value, Members.get? others member.1 = some value → Within member.2 value (depth + 1)) :
      Within (.object made members) (.object other others) depth

def Value.leaf : Value → Bool
  | .array _ _ | .object _ _ => false
  | _ => true

/-- The keys that are defined stand in one order, at every depth. -/
inductive SameOrder : Value → Value → Prop
  | leaf (a b) (plain : a.leaf = true) : SameOrder a b
  | array (made other items others) (each : ∀ pair : Value × Value, pair ∈ items.zip others → SameOrder pair.1 pair.2) :
      SameOrder (.array made items) (.array other others)
  | object (made other members others) (keys : Members.definedKeys members = Members.definedKeys others)
      (each : ∀ member : String × Value, member ∈ members → member.2.defined = true →
        ∀ value, Members.get? others member.1 = some value → SameOrder member.2 value) :
      SameOrder (.object made members) (.object other others)

theorem same_defined {a b : Value} {depth : Nat} (same : samePayloadValue a b depth = true) : a.defined = b.defined := by
  cases a <;> cases b <;> simp_all [samePayloadValue,identical,Value.defined]

theorem same_self {value : Value} (proper : Proper value) (depth : Nat) : samePayloadValue value value depth = true := by
  cases proper <;> simp [samePayloadValue,identical]

private theorem carried_array {made : Option Nat} {items : List Value} {depth : Nat} :
    Carried (.array made items) depth ↔ depth ≤ 64 ∧ ∀ item ∈ items, Carried item (depth + 1) := by
  constructor
  · rintro (_ | _ | _ | _ | ⟨_,_,_,within,each⟩)
    exact ⟨within,each⟩
  · exact fun ⟨within,each⟩ => .array made items depth within each

theorem carried_object {made : Option Nat} {members : Members} {depth : Nat} :
    Carried (.object made members) depth ↔
      depth ≤ 64 ∧ ∀ member ∈ members, member.2.defined = true → Carried member.2 (depth + 1) := by
  constructor
  · rintro (_ | _ | _ | _ | _ | ⟨_,_,_,within,each⟩)
    exact ⟨within,each⟩
  · exact fun ⟨within,each⟩ => .object made members depth within each

/-- No clone is a view or a reference. -/
private theorem cloned_plain (value : Value) : ∀ {copy : Value}, cloned value = some copy →
    (∀ made kind bytes wrote, copy ≠ .view made kind bytes wrote) ∧ ∀ made writes wrote, copy ≠ .reference made writes wrote := by
  induction value using Value.walk with
  | undefined | null | bool | string =>
    intro copy same
    cases same
    exact ⟨nofun,nofun⟩
  | number value =>
    intro copy same
    cases same
    cases value <;> exact ⟨nofun,nofun⟩
  | view made kind bytes wrote ih => exact ih
  | reference made writes wrote ih =>
    intro copy same
    unfold cloned at same
    split at same
    · exact ih same
    · cases same
  | array made items _ =>
    intro copy same
    unfold cloned at same
    obtain ⟨_,_,rfl⟩ := Option.map_eq_some_iff.mp same
    exact ⟨nofun,nofun⟩
  | object made members _ =>
    intro copy same
    unfold cloned at same
    obtain ⟨_,_,rfl⟩ := Option.map_eq_some_iff.mp same
    exact ⟨nofun,nofun⟩

/-- The clone of the one is the same as the other exactly where JSON carries the other. -/
def Stands (value other : Value) : Prop :=
  ∀ copy depth, cloned value = some copy → (samePayloadValue copy other depth = true ↔ Carried other depth)

private theorem stands_opaque (value : Value) {other : Value} (kept : (∃ made kind bytes wrote, other = .view made kind bytes wrote) ∨
    ∃ made writes wrote, other = .reference made writes wrote) : Stands value other := by
  intro copy depth same
  obtain ⟨view,reference⟩ := cloned_plain value same
  rcases kept with ⟨made,kind,bytes,wrote,rfl⟩ | ⟨made,writes,wrote,rfl⟩
  · have differs : samePayloadValue copy (.view made kind bytes wrote) depth = false := by
      cases copy <;> simp [samePayloadValue,identical]
      exact absurd rfl (view _ _ _ _)
    rw [differs]
    exact ⟨nofun,nofun⟩
  · have differs : samePayloadValue copy (.reference made writes wrote) depth = false := by
      cases copy <;> simp [samePayloadValue,identical]
      exact absurd rfl (reference _ _ _)
    rw [differs]
    exact ⟨nofun,nofun⟩

/-- Where the clone of a member is not written, or as null in an array, the other is not carried either. -/
private theorem unwritten {value other : Value} (stands : Stands value other) (held : cloned value = some .undefined)
    (defined : other.defined = true) (depth : Nat) : ¬Carried other depth := by
  intro carried
  have same := (stands .undefined depth held).mpr carried
  have both := same_defined same
  rw [defined] at both
  cases both

private theorem stands_array {made other : Option Nat} {items others : List Value}
    (each : List.Forall₂ (fun a b => a.defined = b.defined ∧ (a.defined = true → Stands a b)) items others) :
    Stands (.array made items) (.array other others) := by
  intro copy depth same
  unfold cloned at same
  obtain ⟨copies,written,rfl⟩ := Option.map_eq_some_iff.mp same
  have copied := clonedItems_some written
  rw [same_array,carried_array]
  refine and_congr_right fun _ => ?_
  have each' : ∀ copies, List.Forall₂ (fun item copy => ∃ held, cloned item = some held ∧
      copy = if held.defined = true then held else .null) items copies →
      (List.Forall₂ (fun a b => samePayloadValue a b (depth + 1) = true) copies others ↔
        ∀ item ∈ others, Carried item (depth + 1)) := by
    clear written same copied
    induction each with
    | nil =>
      intro copies copied
      cases copied
      simp
    | cons first rest ih =>
      intro copies copied
      cases copied with
      | cons copy copied =>
        obtain ⟨held,own,rfl⟩ := copy
        rw [List.forall₂_cons,List.forall_mem_cons,ih _ copied]
        refine and_congr_left fun _ => ?_
        rename_i a b _ _ _ _
        obtain ⟨both,stands⟩ := first
        cases defined : a.defined with
        | false =>
          rw [defined] at both
          have nothing : b = .undefined := by
            cases b <;> first | rfl | cases both
          have none' : a = .undefined := by
            cases a <;> first | rfl | cases defined
          subst nothing none'
          cases own
          constructor
          · exact fun different => nomatch different
          · exact nofun
        | true =>
          rw [defined] at both
          cases written : held.defined with
          | true =>
            rw [if_pos rfl]
            exact stands defined held _ own
          | false =>
            have nothing : held = .undefined := by
              cases held <;> first | rfl | cases written
            subst nothing
            rw [if_neg nofun]
            have missing := unwritten (stands defined) own both.symm (depth + 1)
            constructor
            · intro same
              have null : b = .null := by
                cases b <;> first | rfl | cases same
              subst null
              exact absurd (.null _) missing
            · exact fun carried => absurd carried missing
  have result := each' copies copied
  constructor
  · rintro ⟨made',others',same,all⟩
    cases same
    exact result.mp all
  · exact fun all => ⟨other,others,rfl,result.mpr all⟩

theorem mem_written {members : Members} {key : String} {copy : Value} :
    (key,copy) ∈ written members ↔ copy.defined = true ∧ ∃ value, (key,value) ∈ members ∧ cloned value = some copy := by
  unfold written
  rw [List.mem_filterMap]
  constructor
  · rintro ⟨⟨other,value⟩,inside,same⟩
    dsimp only at same
    split at same
    · split at same
      · cases same
        exact ⟨by assumption,value,inside,by assumption⟩
      · cases same
    · cases same
  · rintro ⟨defined,value,inside,own⟩
    refine ⟨(key,value),inside,?_⟩
    dsimp only
    rw [own]
    exact if_pos defined

theorem undefined_of {value : Value} (not' : value.defined = false) : value = .undefined := by
  cases value <;> first | rfl | cases not'

theorem written_keys (members : Members) :
    (Members.keys (written members)).Sublist (Members.definedKeys members) := by
  induction members with
  | nil => exact .slnil
  | cons member members ih =>
    obtain ⟨key,value⟩ := member
    unfold Members.definedKeys Members.keys written at ih ⊢
    rw [List.filterMap_cons,List.filter_cons]
    dsimp only
    cases known : value.defined with
    | false =>
      cases undefined_of known
      exact ih
    | true =>
      rw [if_pos rfl]
      cases cloned value with
      | none => exact ih.cons _
      | some copy =>
        dsimp only
        split
        · exact ih.cons _
        · next same =>
          split at same
          · cases same
            exact ih.cons_cons _
          · cases same

theorem definedKeys_written (members : Members) : Members.definedKeys (written members) = Members.keys (written members) := by
  unfold Members.definedKeys Members.keys
  rw [List.filter_eq_self.mpr fun member inside => (mem_written.mp inside).1]

theorem same_keys {left right : List String} (distinct : left.Nodup) (inside : ∀ key ∈ left, key ∈ right)
    (length : right.length ≤ left.length) : ∀ key ∈ right, key ∈ left := by
  intro key there
  exact ((List.subperm_of_subset distinct inside).perm_of_length_le length).mem_iff.mpr there

theorem stands_object {made other : Option Nat} {members others : Members}
    (distinct : (Members.keys members).Nodup) (apart : (Members.keys others).Nodup)
    (found : ∀ member ∈ members, member.2.defined = true → ∃ value, Members.get? others member.1 = some value ∧
      value.defined = true ∧ Stands member.2 value)
    (back : ∀ key ∈ Members.definedKeys others, key ∈ Members.definedKeys members) :
    Stands (.object made members) (.object other others) := by
  intro copy depth same
  unfold cloned at same
  obtain ⟨copies,some',rfl⟩ := Option.map_eq_some_iff.mp same
  obtain ⟨rfl,each⟩ := clonedMembers_some some'
  have forth : ∀ key ∈ Members.definedKeys members, key ∈ Members.definedKeys others := by
    intro key inside
    obtain ⟨value,there,defined⟩ := mem_definedKeys.mp inside
    obtain ⟨value',found',defined',_⟩ := found _ there defined
    exact mem_definedKeys.mpr ⟨value',get?_mem found',defined'⟩
  have kept := (List.subperm_of_subset (definedKeys_nodup distinct) forth).length_le
  have lost := (List.subperm_of_subset (definedKeys_nodup apart) back).length_le
  have cut := written_keys members
  rw [same_object,carried_object]
  refine and_congr_right fun _ => ?_
  constructor
  · rintro ⟨_,_,same,length,matched⟩ ⟨key,value⟩ inside defined
    cases same
    rw [definedKeys_written] at length
    have all := cut.eq_of_length (by omega)
    have own : key ∈ Members.keys (written members) := by
      rw [all]
      exact back key (mem_definedKeys.mpr ⟨value,inside,defined⟩)
    obtain ⟨⟨_,copy⟩,there,rfl⟩ := List.mem_map.mp own
    obtain ⟨defined',held,within,own⟩ := mem_written.mp there
    obtain ⟨value',at',_,equal⟩ := matched _ there defined'
    dsimp only at within at' equal ⊢ inside
    rw [get?_of_mem apart inside] at at'
    cases at'
    have known : held.defined = true := by
      cases not' : held.defined with
      | true => rfl
      | false =>
        cases undefined_of not'
        cases own
        cases defined'
    obtain ⟨_,at'',_,stands⟩ := found _ within known
    dsimp only at at'' stands
    rw [get?_of_mem apart inside] at at''
    cases at''
    exact (stands copy _ own).mp equal
  · intro carried
    have goes : ∀ member ∈ members, member.2.defined = true → ∃ copy, cloned member.2 = some copy ∧
        copy.defined = true ∧ Matched others (depth + 1) (member.1,copy) := by
      rintro ⟨key,value⟩ inside defined
      obtain ⟨value',at',defined',stands⟩ := found _ inside defined
      obtain ⟨copy,own⟩ := Option.isSome_iff_exists.mp (each _ inside)
      have equal := (stands copy _ own).mpr (carried _ (get?_mem at') defined')
      exact ⟨copy,own,(same_defined equal).trans defined',value',at',defined',equal⟩
    refine ⟨other,others,rfl,?_,?_⟩
    · have full : ∀ key ∈ Members.definedKeys members, key ∈ Members.keys (written members) := by
        intro key inside
        obtain ⟨value,there,defined⟩ := mem_definedKeys.mp inside
        obtain ⟨copy,own,defined',_⟩ := goes _ there defined
        exact List.mem_map.mpr ⟨(key,copy),mem_written.mpr ⟨defined',value,there,own⟩,rfl⟩
      have more := (List.subperm_of_subset (definedKeys_nodup distinct) full).length_le
      have less := cut.length_le
      rw [definedKeys_written]
      omega
    · rintro ⟨key,copy⟩ inside _
      obtain ⟨defined,value,there,own⟩ := mem_written.mp inside
      have known : value.defined = true := by
        cases not' : value.defined with
        | true => rfl
        | false =>
          cases undefined_of not'
          cases own
          cases defined
      obtain ⟨copy',own',_,matched⟩ := goes _ there known
      dsimp only at own'
      rw [own] at own'
      cases own'
      exact matched

/-- A value's own clone is the same as the value exactly where JSON carries it. -/
theorem stands_self {value : Value} (proper : Proper value) (defined : value.defined = true) : Stands value value := by
  induction value using Value.walk with
  | undefined => cases defined
  | null =>
    intro copy depth same
    cases same
    exact ⟨fun _ => .null depth,fun _ => rfl⟩
  | bool value =>
    intro copy depth same
    cases same
    exact ⟨fun _ => .bool value depth,fun _ => by simp [samePayloadValue,identical]⟩
  | string text =>
    intro copy depth same
    cases same
    exact ⟨fun _ => .string text depth,fun _ => by simp [samePayloadValue,identical]⟩
  | number value =>
    intro copy depth same
    cases same
    cases value with
    | finite value => exact ⟨fun _ => .finite value depth,fun _ => by simp [samePayloadValue,identical,jsonNumber]⟩
    | negativeZero | infinite | nan =>
      constructor
      · intro different
        simp [samePayloadValue,identical,jsonNumber] at different
      · exact nofun
  | view made kind bytes wrote _ => exact stands_opaque _ (.inl ⟨_,_,_,_,rfl⟩)
  | reference made writes wrote _ => exact stands_opaque _ (.inr ⟨_,_,_,rfl⟩)
  | array made items ih =>
    cases proper with
    | array _ _ each =>
      refine stands_array ?_
      rw [List.forall₂_same]
      exact fun item inside => ⟨rfl,ih item inside (each item inside)⟩
  | object made members ih =>
    cases proper with
    | object _ _ distinct each =>
      refine stands_object distinct distinct ?_ fun _ => id
      exact fun member inside known =>
        ⟨member.2,get?_of_mem distinct inside,known,ih member inside (each member inside) known⟩

theorem snapshot_keys (members : Members) :
    (Members.keys (snapshotMembers members)).Sublist (Members.keys members) := by
  induction members with
  | nil => exact .slnil
  | cons member members ih =>
    obtain ⟨key,value⟩ := member
    unfold snapshotMembers
    split
    · exact ih.cons _
    · exact ih.cons_cons _

theorem snapshot_defined (value : Value) : (snapshotPayload value).defined = value.defined := by
  cases value <;> rfl

private theorem snapshot_definedKeys (members : Members) :
    (Members.definedKeys (snapshotMembers members)).Sublist (Members.definedKeys members) := by
  induction members with
  | nil => exact .slnil
  | cons member members ih =>
    obtain ⟨key,value⟩ := member
    unfold snapshotMembers
    unfold Members.definedKeys at ih ⊢
    rw [List.filter_cons]
    dsimp only
    split
    · split
      · exact ih.cons _
      · exact ih
    · unfold snapshotMember
      rw [List.filter_cons]
      dsimp only
      rw [snapshot_defined]
      split
      · exact ih.cons_cons _
      · exact ih

/-- Of two objects with as many defined keys, where each of the one's is matched, none of the other's is missed. -/
theorem matched_back {members others : Members} {depth : Nat} (distinct : (Members.keys members).Nodup)
    (length : (Members.definedKeys members).length = (Members.definedKeys others).length)
    (matched : ∀ member ∈ members, member.2.defined = true → Matched others depth member) :
    ∀ key ∈ Members.definedKeys others, key ∈ Members.definedKeys members := by
  refine same_keys (definedKeys_nodup distinct) ?_ length.ge
  intro key inside
  obtain ⟨value,there,defined⟩ := mem_definedKeys.mp inside
  obtain ⟨other,found,defined',_⟩ := matched _ there defined
  exact mem_definedKeys.mpr ⟨other,get?_mem found,defined'⟩

private def atom : Value → Bool
  | .undefined | .null | .bool _ | .number _ | .string _ => true
  | _ => false

private theorem same_atom {value other : Value} {depth : Nat} (plain : atom value = true)
    (same : samePayloadValue value other depth = true) : other = value := by
  cases value <;> cases other <;> simp_all [samePayloadValue,identical,atom]

/-- The clone of a snapshot that is the same as a value is that value's, as far as JSON carries it. -/
theorem stands_snapshot {value : Value} (proper : Proper value) : ∀ {other : Value} {depth : Nat}, Proper other →
    samePayloadValue (snapshotPayload value) other depth = true → value.defined = true →
    Stands (snapshotPayload value) other := by
  induction value using Value.walk with
  | undefined | null | bool | number | string =>
    intro other depth _ same defined
    rw [same_atom rfl same]
    exact stands_self proper defined
  | view made kind bytes wrote _ =>
    intro other depth _ same _
    refine stands_opaque _ (.inl ?_)
    unfold snapshotPayload at same
    cases other <;> simp_all [samePayloadValue,identical]
  | reference made writes wrote _ =>
    intro other depth _ same _
    refine stands_opaque _ (.inr ?_)
    unfold snapshotPayload at same
    cases other <;> simp_all [samePayloadValue,identical]
  | array made items ih =>
    intro other depth proper' same _
    unfold snapshotPayload at same ⊢
    obtain ⟨_,made',others,rfl,each⟩ := same_array.mp same
    cases proper with
    | array _ _ own =>
      cases proper' with
      | array _ _ own' =>
        refine stands_array ?_
        rw [snapshotItems_map,List.forall₂_map_left_iff,List.forall₂_iff_zip] at each ⊢
        refine ⟨each.1,fun {a b} paired => ?_⟩
        obtain ⟨left,right⟩ := List.of_mem_zip paired
        have same := each.2 paired
        refine ⟨same_defined same,fun defined => ?_⟩
        rw [snapshot_defined] at defined
        exact ih a left (own a left) (own' b right) same defined
  | object made members ih =>
    intro other depth proper' same _
    unfold snapshotPayload at same ⊢
    obtain ⟨_,made',others,rfl,length,matched⟩ := same_object.mp same
    cases proper with
    | object _ _ distinct own =>
      cases proper' with
      | object _ _ apart own' =>
        have distinct' := distinct.sublist (snapshot_keys members)
        refine stands_object distinct' apart ?_ (matched_back distinct' length matched)
        rintro ⟨key,copy⟩ inside defined
        obtain ⟨value,there,_,same⟩ := mem_snapshotMembers.mp inside
        obtain ⟨other,found,defined',equal⟩ := matched _ inside defined
        dsimp only at there same equal found defined ⊢
        subst same
        rw [snapshot_defined] at defined
        exact ⟨other,found,defined',ih _ there (own _ there) (own' _ (get?_mem found)) equal defined⟩

/-- A snapshot that is the same as a value at one depth is the same at another one where it lies within that depth. -/
theorem same_deeper (value : Value) : ∀ {other : Value} {depth deeper : Nat},
    samePayloadValue (snapshotPayload value) other depth = true →
    (samePayloadValue (snapshotPayload value) other deeper = true ↔ Within (snapshotPayload value) other deeper) := by
  induction value using Value.walk with
  | undefined | null | bool | number | string =>
    intro other depth deeper same
    have equal := same_atom rfl same
    subst equal
    constructor
    · exact fun _ => .own _ _ _ (by simp [snapshotPayload,identical])
    · exact fun _ => by simp [snapshotPayload,samePayloadValue,identical]
  | reference made writes wrote _ =>
    intro other depth deeper same
    simp only [snapshotPayload,samePayloadValue] at same ⊢
    exact ⟨fun same => .own _ _ _ same,fun _ => same⟩
  | view made kind bytes wrote _ =>
    intro other depth deeper same
    simp only [snapshotPayload,samePayloadValue,Bool.or_eq_true,Bool.and_eq_true,decide_eq_true_eq] at same ⊢
    constructor
    · rintro (own | ⟨within,_⟩)
      · exact .own _ _ _ own
      · exact .view _ _ _ _ _ _ within
    · rintro (⟨_,_,_,own⟩ | ⟨_,_,_,_,_,_,within⟩)
      · exact .inl own
      · exact same.imp_right fun equal => ⟨within,equal.2⟩
  | array made items ih =>
    intro other depth deeper same
    unfold snapshotPayload at same ⊢
    obtain ⟨_,made',others,rfl,each⟩ := same_array.mp same
    rw [List.forall₂_iff_zip,snapshotItems_map] at each
    rw [same_array]
    constructor
    · rintro ⟨within,_,_,equal,all⟩
      cases equal
      rw [List.forall₂_iff_zip,snapshotItems_map] at all
      refine .array _ _ _ _ _ within fun pair paired => ?_
      rw [snapshotItems_map] at paired
      obtain ⟨left,_⟩ := List.of_mem_zip paired
      obtain ⟨item,inside,copy⟩ := List.mem_map.mp left
      have before := each.2 paired
      have after := all.2 paired
      rw [← copy] at before after ⊢
      exact (ih item inside before).mp after
    · rintro (⟨_,_,_,own⟩ | _ | ⟨_,_,_,_,_,within,all⟩)
      · cases own
      · refine ⟨within,_,_,rfl,?_⟩
        rw [List.forall₂_iff_zip,snapshotItems_map]
        refine ⟨each.1,fun {a b} paired => ?_⟩
        obtain ⟨left,_⟩ := List.of_mem_zip paired
        obtain ⟨item,inside,copy⟩ := List.mem_map.mp left
        rw [snapshotItems_map] at all
        have before := each.2 paired
        have after := all _ paired
        dsimp only at after
        rw [← copy] at before after ⊢
        exact (ih item inside before).mpr after
  | object made members ih =>
    intro other depth deeper same
    unfold snapshotPayload at same ⊢
    obtain ⟨_,made',others,rfl,length,matched⟩ := same_object.mp same
    rw [same_object]
    constructor
    · rintro ⟨within,_,_,equal,_,all⟩
      cases equal
      refine .object _ _ _ _ _ within fun member inside defined value found => ?_
      obtain ⟨held,there,_,copy⟩ := mem_snapshotMembers.mp inside
      obtain ⟨other,at',_,before⟩ := matched _ inside defined
      obtain ⟨other',at'',_,after⟩ := all _ inside defined
      rw [found] at at' at''
      cases at'
      cases at''
      rw [copy] at before after ⊢
      exact (ih _ there before).mp after
    · rintro (⟨_,_,_,own⟩ | _ | _ | ⟨_,_,_,_,_,within,all⟩)
      · cases own
      · refine ⟨within,_,_,rfl,length,fun member inside defined => ?_⟩
        obtain ⟨held,there,_,copy⟩ := mem_snapshotMembers.mp inside
        obtain ⟨other,found,defined',before⟩ := matched _ inside defined
        have after := all _ inside defined _ found
        refine ⟨other,found,defined',?_⟩
        rw [copy] at before after ⊢
        exact (ih _ there before).mpr after

/-! The order of keys. -/

private theorem zip_map (items : List Value) (copy : Value → Value) {pair : Value × Value}
    (paired : pair ∈ (items.map copy).zip items) : ∃ item ∈ items, pair = (copy item,item) := by
  induction items with
  | nil => cases paired
  | cons item items ih =>
    rcases List.mem_cons.mp paired with same | paired
    · exact ⟨item,List.mem_cons_self,same⟩
    · obtain ⟨other,inside,same⟩ := ih paired
      exact ⟨other,List.mem_cons_of_mem _ inside,same⟩

private theorem zip_swapped {left right : List Value} {pair : Value × Value} (paired : pair ∈ left.zip right) :
    (pair.2,pair.1) ∈ right.zip left := by
  induction left generalizing right with
  | nil => cases paired
  | cons first left ih =>
    cases right with
    | nil => cases paired
    | cons other right =>
      rcases List.mem_cons.mp paired with same | paired
      · rw [same]
        exact List.mem_cons_self
      · exact List.mem_cons_of_mem _ (ih paired)

theorem order_self {value : Value} (proper : Proper value) : SameOrder value value := by
  induction value using Value.walk with
  | undefined | null | bool | number | string | view | reference => exact .leaf _ _ rfl
  | array made items ih =>
    cases proper with
    | array _ _ each =>
      refine .array _ _ _ _ fun pair paired => ?_
      have self := @zip_map items id pair (by rwa [List.map_id])
      obtain ⟨item,inside,rfl⟩ := self
      exact ih item inside (each item inside)
  | object made members ih =>
    cases proper with
    | object _ _ distinct each =>
      refine .object _ _ _ _ rfl fun member inside _ value found => ?_
      rw [get?_of_mem distinct inside] at found
      cases found
      exact ih member inside (each member inside)

/-- A snapshot that is the same as what it was taken of has its keys in the same order. -/
theorem order_snapshot {value : Value} (proper : Proper value) : ∀ {depth : Nat},
    samePayloadValue (snapshotPayload value) value depth = true → SameOrder (snapshotPayload value) value := by
  induction value using Value.walk with
  | undefined | null | bool | number | string | view | reference => exact fun _ => .leaf _ _ rfl
  | array made items ih =>
    intro depth same
    unfold snapshotPayload at same ⊢
    obtain ⟨_,made',others,equal,each⟩ := same_array.mp same
    cases equal
    cases proper with
    | array _ _ own =>
      rw [List.forall₂_iff_zip,snapshotItems_map] at each
      rw [snapshotItems_map]
      refine .array _ _ _ _ fun pair paired => ?_
      obtain ⟨item,inside,rfl⟩ := zip_map items snapshotPayload paired
      exact ih item inside (own item inside) (each.2 paired)
  | object made members ih =>
    intro depth same
    unfold snapshotPayload at same ⊢
    obtain ⟨_,made',others,equal,length,matched⟩ := same_object.mp same
    cases equal
    cases proper with
    | object _ _ distinct own =>
      refine .object _ _ _ _ ((snapshot_definedKeys members).eq_of_length length) ?_
      intro member inside defined value found
      obtain ⟨held,there,_,copy⟩ := mem_snapshotMembers.mp inside
      obtain ⟨other,at',_,same⟩ := matched _ inside defined
      rw [get?_of_mem distinct there] at at' found
      cases at'
      cases found
      rw [copy] at same ⊢
      exact ih _ there (own _ there) same

/-- The clone of a value that JSON carries has its keys in the same order. -/
theorem order_clone {value : Value} (proper : Proper value) : ∀ {copy : Value} {depth : Nat}, Carried value depth →
    cloned value = some copy → SameOrder copy value := by
  induction value using Value.walk with
  | undefined | null | bool | string =>
    intro copy depth _ same
    cases same
    exact .leaf _ _ rfl
  | number value =>
    intro copy depth _ same
    cases same
    cases value <;> exact .leaf _ _ rfl
  | view | reference =>
    intro copy depth carried
    cases carried
  | array made items ih =>
    intro copy depth carried same
    unfold cloned at same
    obtain ⟨copies,written',rfl⟩ := Option.map_eq_some_iff.mp same
    obtain ⟨_,each⟩ := carried_array.mp carried
    have copied := clonedItems_some written'
    rw [List.forall₂_iff_zip] at copied
    cases proper with
    | array _ _ own =>
      refine .array _ _ _ _ fun pair paired => ?_
      have swapped := zip_swapped paired
      obtain ⟨held,from',same⟩ := copied.2 swapped
      obtain ⟨inside,_⟩ := List.of_mem_zip swapped
      rw [same]
      split
      · exact ih _ inside (own _ inside) (each _ inside) from'
      · exact .leaf _ _ rfl
  | object made members ih =>
    intro copy depth carried same
    unfold cloned at same
    obtain ⟨copies,some',rfl⟩ := Option.map_eq_some_iff.mp same
    obtain ⟨rfl,all⟩ := clonedMembers_some some'
    obtain ⟨_,each⟩ := carried_object.mp carried
    cases proper with
    | object _ _ distinct own =>
      refine .object _ _ _ _ ?_ ?_
      · rw [definedKeys_written]
        refine (written_keys members).eq_of_length_le ?_
        refine (List.subperm_of_subset (definedKeys_nodup distinct) fun key inside => ?_).length_le
        obtain ⟨value,there,defined⟩ := mem_definedKeys.mp inside
        obtain ⟨copy,from'⟩ := Option.isSome_iff_exists.mp (all _ there)
        refine List.mem_map.mpr ⟨(key,copy),mem_written.mpr ⟨?_,value,there,from'⟩,rfl⟩
        have stands := stands_self (own _ there) defined copy (depth + 1) from'
        exact (same_defined (stands.mpr (each _ there defined))).trans defined
      · rintro ⟨key,copy⟩ inside _ value found
        obtain ⟨_,held,there,from'⟩ := mem_written.mp inside
        dsimp only at found ⊢
        rw [get?_of_mem distinct there] at found
        cases found
        cases known : value.defined with
        | true => exact ih _ there (own _ there) (each _ there known) from'
        | false =>
          cases undefined_of known
          cases from'
          exact .leaf _ _ rfl

private theorem clonedItems_copied {items : List Value} {copy : Value → Value}
    (each : ∀ item ∈ items, cloned (copy item) = cloned item) : clonedItems (items.map copy) = clonedItems items := by
  induction items with
  | nil => rfl
  | cons item items ih =>
    obtain ⟨first,rest⟩ := List.forall_mem_cons.mp each
    simp only [List.map_cons,clonedItems,first,ih rest]

private theorem clonedMembers_copied {members : List (String × Value)}
    (named : ∀ value, ("__proto__",value) ∈ members → value.defined = false)
    (each : ∀ member ∈ members, member.2.defined = true → cloned (snapshotPayload member.2) = cloned member.2) :
    clonedMembers (snapshotMembers members) = clonedMembers members := by
  induction members with
  | nil => rfl
  | cons member members ih =>
    obtain ⟨key,value⟩ := member
    obtain ⟨first,rest⟩ := List.forall_mem_cons.mp each
    have later := ih (fun value inside => named value (List.mem_cons_of_mem _ inside)) rest
    have same : cloned (snapshotPayload value) = cloned value := by
      cases known : value.defined with
      | true => exact first known
      | false =>
        cases undefined_of known
        rfl
    unfold snapshotMembers
    dsimp only
    split
    next proto =>
      cases proto
      cases undefined_of (named value List.mem_cons_self)
      rw [later]
      simp only [clonedMembers,clonedMember,cloned,Option.map_some]
      cases clonedMembers members <;> rfl
    next => simp only [clonedMembers,clonedMember,snapshotMember,same,later]

theorem definedKeys_snapshot {members : List (String × Value)} (named : ∀ value, ("__proto__",value) ∈ members → value.defined = false) :
    Members.definedKeys (snapshotMembers members) = Members.definedKeys members := by
  induction members with
  | nil => rfl
  | cons member members ih =>
    obtain ⟨key,value⟩ := member
    have later := ih fun value inside => named value (List.mem_cons_of_mem _ inside)
    unfold Members.definedKeys at later ⊢
    unfold snapshotMembers
    dsimp only
    split
    next proto =>
      cases proto
      rw [later,List.filter_cons,named value List.mem_cons_self]
      rfl
    next =>
      unfold snapshotMember
      rw [List.filter_cons,List.filter_cons]
      dsimp only
      rw [snapshot_defined]
      split
      · rw [List.map_cons,List.map_cons,later]
      · exact later

private theorem proto_undefined {members : List (String × Value)}
    (all : Members.definedKeys (snapshotMembers members) = Members.definedKeys members) :
    ∀ value, ("__proto__",value) ∈ members → value.defined = false := by
  intro value inside
  cases known : value.defined with
  | false => rfl
  | true =>
    have own := mem_definedKeys.mpr ⟨value,inside,known⟩
    rw [← all] at own
    obtain ⟨_,there,_⟩ := mem_definedKeys.mp own
    obtain ⟨_,_,other,_⟩ := mem_snapshotMembers.mp there
    exact absurd rfl other

/-- A snapshot that is the same as what it was taken of has the same clone. -/
theorem cloned_snapshot (value : Value) : ∀ {depth : Nat}, Proper value →
    samePayloadValue (snapshotPayload value) value depth = true → cloned (snapshotPayload value) = cloned value := by
  induction value using Value.walk with
  | undefined | null | bool | number | string | reference => exact fun _ _ => rfl
  | view made kind bytes wrote _ => exact fun _ _ => by simp [snapshotPayload,cloned]
  | array made items ih =>
    intro depth proper same
    unfold snapshotPayload at same ⊢
    obtain ⟨_,made',others,equal,each⟩ := same_array.mp same
    cases equal
    cases proper with
    | array _ _ own =>
      rw [snapshotItems_map,List.forall₂_map_left_iff,List.forall₂_same] at each
      unfold cloned
      rw [snapshotItems_map,clonedItems_copied fun item inside => ih item inside (own item inside) (each item inside)]
  | object made members ih =>
    intro depth proper same
    unfold snapshotPayload at same ⊢
    obtain ⟨_,made',others,equal,length,matched⟩ := same_object.mp same
    cases equal
    cases proper with
    | object _ _ distinct own =>
      have named := proto_undefined ((snapshot_definedKeys members).eq_of_length length)
      unfold cloned
      rw [clonedMembers_copied named]
      rintro ⟨key,value⟩ inside defined
      have other : key ≠ "__proto__" := by
        rintro rfl
        have not' := named value inside
        dsimp only at defined
        rw [defined] at not'
        cases not'
      have copy : (key,snapshotPayload value) ∈ snapshotMembers members :=
        mem_snapshotMembers.mpr ⟨value,inside,other,rfl⟩
      obtain ⟨_,found,_,same⟩ := matched _ copy ((snapshot_defined value).trans defined)
      rw [get?_of_mem distinct inside] at found
      cases found
      exact ih _ inside (own _ inside) same

end PiDispatch.Payload
