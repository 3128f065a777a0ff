import Mathlib.Data.List.Nodup
import Mathlib.Data.List.Perm.Basic

/-! Finite dictionaries in insertion order: a key keeps its place when it is written again and a new key
goes last, the order that a walk over the dictionary then sees. -/
namespace PiDispatch.Kernel

variable {K V : Type}

/-- At most one entry stands for a key. -/
structure Dict (K V : Type) where
  entries : List (K × V)
  distinct : (entries.map Prod.fst).Nodup
  deriving DecidableEq

namespace Dict

def empty : Dict K V := ⟨[],List.nodup_nil⟩

def keys (dict : Dict K V) : List K := dict.entries.map Prod.fst

def values (dict : Dict K V) : List V := dict.entries.map Prod.snd

def filter (keep : K → V → Bool) (dict : Dict K V) : Dict K V where
  entries := dict.entries.filter fun entry => keep entry.1 entry.2
  distinct := dict.distinct.sublist (List.filter_sublist.map _)

def mapValues (change : K → V → V) (dict : Dict K V) : Dict K V where
  entries := dict.entries.map fun entry => (entry.1,change entry.1 entry.2)
  distinct := by simpa [List.map_map,Function.comp_def] using dict.distinct

def map {W : Type} (change : V → W) (dict : Dict K V) : Dict K W where
  entries := dict.entries.map fun entry => (entry.1,change entry.2)
  distinct := by simpa [List.map_map,Function.comp_def] using dict.distinct

variable [DecidableEq K]

def get? (dict : Dict K V) (key : K) : Option V :=
  (dict.entries.find? fun entry => entry.1 = key).map Prod.snd

private def place (key : K) (value : V) : List (K × V) → List (K × V)
  | [] => [(key,value)]
  | entry :: rest => if entry.1 = key then (key,value) :: rest else entry :: place key value rest

private theorem place_keys (key : K) (value : V) (entries : List (K × V)) :
    (place key value entries).map Prod.fst =
      if key ∈ entries.map Prod.fst then entries.map Prod.fst else entries.map Prod.fst ++ [key] := by
  induction entries with
  | nil => simp [place]
  | cons entry rest ih =>
    by_cases same : entry.1 = key
    · simp [place,same]
    · have other : key ≠ entry.1 := fun equal => same equal.symm
      simp only [place,same,if_false,List.map_cons,ih,List.mem_cons,other,false_or]
      split <;> simp

def set (dict : Dict K V) (key : K) (value : V) : Dict K V where
  entries := place key value dict.entries
  distinct := by
    rw [place_keys]
    split
    · exact dict.distinct
    · next fresh =>
      refine List.nodup_append.mpr ⟨dict.distinct,List.nodup_singleton key,?_⟩
      intro other member last lastMember equal
      rw [List.mem_singleton.mp lastMember] at equal
      exact fresh (equal ▸ member)

theorem keys_set_present (dict : Dict K V) {key : K} (value : V) (present : key ∈ dict.keys) :
    (dict.set key value).keys = dict.keys := (place_keys ..).trans (if_pos present)

theorem keys_set_absent (dict : Dict K V) {key : K} (value : V) (absent : key ∉ dict.keys) :
    (dict.set key value).keys = dict.keys ++ [key] := (place_keys ..).trans (if_neg absent)

omit [DecidableEq K] in
theorem keys_mapValues (dict : Dict K V) (change : K → V → V) : (dict.mapValues change).keys = dict.keys := by
  unfold keys mapValues
  rw [List.map_map]
  rfl

def erase (dict : Dict K V) (key : K) : Dict K V := dict.filter fun other _ => other ≠ key

theorem keys_erase (dict : Dict K V) (key : K) : (dict.erase key).keys = dict.keys.filter fun other => other ≠ key := by
  unfold keys erase filter
  rw [List.filter_map]
  rfl

theorem get?_eq_some_iff (dict : Dict K V) (key : K) (value : V) :
    dict.get? key = some value ↔ (key,value) ∈ dict.entries := by
  obtain ⟨entries,distinct⟩ := dict
  simp only [get?]
  induction entries with
  | nil => simp
  | cons entry rest ih =>
    obtain ⟨fresh,distinct⟩ := List.nodup_cons.mp distinct
    by_cases same : entry.1 = key
    · subst same
      have absent : (entry.1,value) ∉ rest := fun member =>
        fresh (List.mem_map.mpr ⟨(entry.1,value),member,rfl⟩)
      simp [absent,Prod.ext_iff,eq_comm]
    · have other : (key,value) ≠ entry := fun equal => same (equal ▸ rfl)
      simp [same,other,ih distinct]

theorem get?_isSome_iff (dict : Dict K V) (key : K) : (dict.get? key).isSome ↔ key ∈ dict.keys := by
  simp only [Option.isSome_iff_exists,get?_eq_some_iff,keys,List.mem_map]
  constructor
  · rintro ⟨value,member⟩
    exact ⟨_,member,rfl⟩
  · rintro ⟨⟨_,value⟩,member,rfl⟩
    exact ⟨value,member⟩

theorem get?_eq_none_iff (dict : Dict K V) (key : K) : dict.get? key = none ↔ key ∉ dict.keys := by
  rw [← get?_isSome_iff]
  simp

@[simp] theorem get?_empty (key : K) : (empty : Dict K V).get? key = none := rfl

private theorem find_place (key other : K) (value : V) (entries : List (K × V)) :
    ((place key value entries).find? fun entry => entry.1 = other).map Prod.snd =
      if key = other then some value else (entries.find? fun entry => entry.1 = other).map Prod.snd := by
  induction entries with
  | nil => by_cases same : key = other <;> simp [place,same]
  | cons entry rest ih =>
    by_cases here : entry.1 = key
    · subst here
      by_cases same : entry.1 = other <;> simp [place,same]
    · by_cases found : entry.1 = other
      · subst found
        have apart : key ≠ entry.1 := fun equal => here equal.symm
        simp [place,here,apart]
      · simp [place,here,found,ih]

theorem get?_set (dict : Dict K V) (key other : K) (value : V) :
    (dict.set key value).get? other = if key = other then some value else dict.get? other :=
  find_place key other value dict.entries

@[simp] theorem get?_set_self (dict : Dict K V) (key : K) (value : V) :
    (dict.set key value).get? key = some value := by simp [get?_set]

theorem get?_set_ne (dict : Dict K V) {key other : K} (value : V) (apart : key ≠ other) :
    (dict.set key value).get? other = dict.get? other := by simp [get?_set,apart]

theorem get?_filter (dict : Dict K V) (keep : K → V → Bool) (key : K) :
    (dict.filter keep).get? key = (dict.get? key).filter (keep key) := by
  refine Option.ext fun value => ?_
  rw [get?_eq_some_iff,Option.filter_eq_some_iff,get?_eq_some_iff]
  simp [filter]

theorem get?_erase (dict : Dict K V) (key other : K) :
    (dict.erase key).get? other = if key = other then none else dict.get? other := by
  rw [erase,get?_filter]
  by_cases same : key = other
  · subst same
    cases dict.get? key <;> simp
  · have apart : ¬other = key := fun equal => same equal.symm
    cases dict.get? other <;> simp [same,apart]

@[simp] theorem get?_erase_self (dict : Dict K V) (key : K) : (dict.erase key).get? key = none := by
  simp [get?_erase]

theorem get?_erase_ne (dict : Dict K V) {key other : K} (apart : key ≠ other) :
    (dict.erase key).get? other = dict.get? other := by simp [get?_erase,apart]

theorem get?_mapValues (dict : Dict K V) (change : K → V → V) (key : K) :
    (dict.mapValues change).get? key = (dict.get? key).map (change key) := by
  refine Option.ext fun value => ?_
  rw [get?_eq_some_iff,Option.map_eq_some_iff]
  simp only [get?_eq_some_iff,mapValues,List.mem_map,Prod.mk.injEq]
  constructor
  · rintro ⟨⟨other,old⟩,member,rfl,rfl⟩
    exact ⟨old,member,rfl⟩
  · rintro ⟨old,member,rfl⟩
    exact ⟨(key,old),member,rfl,rfl⟩

theorem mem_values_iff (dict : Dict K V) (value : V) :
    value ∈ dict.values ↔ ∃ key, dict.get? key = some value := by
  simp [values,get?_eq_some_iff]

/-- Taking a key's entry out first and last says what a write or an erasure does to any sum over values. -/
theorem entries_perm_erase (dict : Dict K V) (key : K) (value : V) (found : dict.get? key = some value) :
    dict.entries.Perm ((key,value) :: (dict.erase key).entries) := by
  obtain ⟨entries,distinct⟩ := dict
  rw [get?_eq_some_iff] at found
  simp only [erase,filter] at found ⊢
  induction entries with
  | nil => simp at found
  | cons entry rest ih =>
    obtain ⟨fresh,distinct⟩ := List.nodup_cons.mp distinct
    by_cases same : entry.1 = key
    · have here : entry = (key,value) := by
        rcases List.mem_cons.mp found with here | there
        · exact here.symm
        · exact absurd (List.mem_map_of_mem there) (by rw [same] at fresh; exact fresh)
      have kept : rest.filter (fun other => other.1 ≠ key) = rest := by
        refine List.filter_eq_self.mpr fun other member => ?_
        have apart : other.1 ≠ key := fun equal => fresh (by rw [same,← equal]; exact List.mem_map_of_mem member)
        simpa using apart
      rw [here,List.filter_cons_of_neg (by simp),kept]
    · have there : (key,value) ∈ rest := by
        rcases List.mem_cons.mp found with here | there
        · exact absurd (here ▸ rfl) same
        · exact there
      have keep : (entry :: rest).filter (fun other => other.1 ≠ key) =
          entry :: rest.filter (fun other => other.1 ≠ key) := by simp [same]
      rw [keep]
      exact ((ih distinct there).cons entry).trans (List.Perm.swap ..)

theorem entries_perm_set (dict : Dict K V) (key : K) (value : V) :
    (dict.set key value).entries.Perm ((key,value) :: (dict.erase key).entries) := by
  have same : (dict.set key value).erase key = dict.erase key := by
    obtain ⟨entries,distinct⟩ := dict
    simp only [erase,filter,set,Dict.mk.injEq]
    clear distinct
    induction entries with
    | nil => simp [place]
    | cons entry rest ih => by_cases here : entry.1 = key <;> simp_all [place]
  rw [← same]
  exact entries_perm_erase _ key value (get?_set_self dict key value)

theorem erase_of_absent (dict : Dict K V) (key : K) (absent : dict.get? key = none) :
    (dict.erase key).entries = dict.entries := by
  refine List.filter_eq_self.mpr fun entry member => ?_
  have apart : entry.1 ≠ key := fun equal =>
    (get?_eq_none_iff dict key).mp absent (equal ▸ List.mem_map_of_mem member)
  simpa using apart

theorem values_erase (dict : Dict K V) (key : K) : (dict.erase key).values.Sublist dict.values :=
  List.filter_sublist.map _

theorem values_perm_erase (dict : Dict K V) (key : K) (value : V) (found : dict.get? key = some value) :
    dict.values.Perm (value :: (dict.erase key).values) :=
  (entries_perm_erase dict key value found).map Prod.snd

theorem values_perm_set (dict : Dict K V) (key : K) (value : V) :
    (dict.set key value).values.Perm (value :: (dict.erase key).values) :=
  (entries_perm_set dict key value).map Prod.snd

theorem values_perm_fresh (dict : Dict K V) (key : K) (value : V) (absent : dict.get? key = none) :
    (dict.set key value).values.Perm (value :: dict.values) := by
  have same := values_perm_set dict key value
  rwa [values,values,erase_of_absent dict key absent] at same

/-- Members written one after another: a later one replaces an earlier one of its key. -/
def ofList (members : List (K × V)) : Dict K V := members.foldl (fun dict member => dict.set member.1 member.2) empty

private theorem place_absent (key : K) (value : V) (entries : List (K × V)) (absent : key ∉ entries.map Prod.fst) :
    place key value entries = entries ++ [(key,value)] := by
  induction entries with
  | nil => rfl
  | cons entry rest ih =>
    simp only [List.map_cons,List.mem_cons,not_or] at absent
    have apart : entry.1 ≠ key := fun equal => absent.1 equal.symm
    simp [place,apart,ih absent.2]

private theorem ofList_onto (members : List (K × V)) (dict : Dict K V)
    (distinct : (dict.entries.map Prod.fst ++ members.map Prod.fst).Nodup) :
    (members.foldl (fun dict member => dict.set member.1 member.2) dict).entries = dict.entries ++ members := by
  induction members generalizing dict with
  | nil => simp
  | cons member rest ih =>
    have absent : member.1 ∉ dict.entries.map Prod.fst := fun present =>
      (List.nodup_append.mp distinct).2.2 _ present _ List.mem_cons_self rfl
    have written : (dict.set member.1 member.2).entries = dict.entries ++ [member] := place_absent _ _ _ absent
    rw [List.foldl_cons,ih,written]
    · simp
    · rw [written]
      simpa using distinct

theorem ofList_entries (members : List (K × V)) (distinct : (members.map Prod.fst).Nodup) :
    (ofList members).entries = members := by
  rw [ofList,ofList_onto _ _ (by simpa [empty] using distinct)]
  rfl

theorem ofList_self (dict : Dict K V) : ofList dict.entries = dict := by
  have same := ofList_entries dict.entries dict.distinct
  obtain ⟨entries,distinct⟩ := dict
  dsimp only at same ⊢
  generalize ofList entries = made at same ⊢
  cases made
  simpa using same

theorem get?_of_mem (dict : Dict K V) {entry : K × V} (member : entry ∈ dict.entries) :
    dict.get? entry.1 = some entry.2 := (get?_eq_some_iff ..).mpr member

theorem values_eq_map (dict : Dict K V) (fallback : V) :
    dict.values = dict.keys.map fun key => (dict.get? key).getD fallback := by
  unfold values keys
  rw [List.map_map]
  refine List.map_congr_left fun entry member => ?_
  simp [get?_of_mem dict member]

end Dict

end PiDispatch.Kernel
