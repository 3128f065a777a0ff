import Mathlib.Data.List.Basic

/-! A ring of cells that holds the newest of the items put into it. -/
namespace PiDispatch.Kernel

structure RingBuffer (α : Type) where
  cells : List (Option α)
  held : Nat

namespace RingBuffer
variable {α : Type}

def new (size : Nat) : RingBuffer α := ⟨List.replicate size none,0⟩

def keep (ring : RingBuffer α) (item : α) : RingBuffer α :=
  ⟨ring.cells.set (ring.held % ring.cells.length) (some item),ring.held + 1⟩

/-- What the ring holds, the newest first. -/
def newest (ring : RingBuffer α) : List α :=
  (List.range (min ring.held ring.cells.length)).filterMap fun k =>
    (ring.cells[(ring.held - (k + 1)) % ring.cells.length]?).join

/-- The cells hold the last of the items, each at its number. -/
structure Holds (size : Nat) (items : List α) (ring : RingBuffer α) : Prop where
  length : ring.cells.length = size
  held : ring.held = items.length
  cells : ∀ number item, items[number]? = some item → items.length ≤ number + size →
    ring.cells[number % size]? = some (some item)

theorem holds_new (size : Nat) : Holds size [] (new size : RingBuffer α) :=
  ⟨List.length_replicate,rfl,fun _ _ none => nomatch none⟩

private theorem apart {number held size : Nat} (earlier : number < held) (near : held < number + size) :
    number % size ≠ held % size := by
  intro same
  obtain ⟨times,rfl⟩ := Nat.exists_eq_add_of_lt earlier
  have divides : size ∣ times + 1 := by
    have split : (number + times + 1 - number) % size = 0 := Nat.sub_mod_eq_zero_of_mod_eq same.symm
    rw [show number + times + 1 - number = times + 1 by omega] at split
    exact Nat.dvd_of_mod_eq_zero split
  have most := Nat.le_of_dvd (Nat.succ_pos _) divides
  omega

theorem holds_keep {size : Nat} (some' : 0 < size) {items : List α} {ring : RingBuffer α} (holds : Holds size items ring) (item : α) :
    Holds size (items ++ [item]) (ring.keep item) := by
  unfold keep
  refine ⟨(List.length_set ..).trans holds.length,?_,?_⟩
  · rw [List.length_append,holds.held]
    rfl
  · intro number other found near
    rw [List.length_append,List.length_singleton] at near
    dsimp only
    rw [holds.length,holds.held]
    rcases Nat.lt_or_ge number items.length with earlier | last
    · rw [List.getElem?_append_left earlier] at found
      rw [List.getElem?_set_ne (Ne.symm (apart earlier (by omega)))]
      exact holds.cells number other found (by omega)
    · rw [List.getElem?_append_right last] at found
      have single : number - items.length = 0 := by
        by_contra more
        rw [List.getElem?_eq_none (by rw [List.length_singleton]; omega)] at found
        cases found
      rw [single] at found
      obtain rfl : number = items.length := by omega
      cases found
      rw [List.getElem?_set_self (by rw [holds.length]; exact Nat.mod_lt _ some')]

theorem newest_holds {size : Nat} {items : List α} {ring : RingBuffer α} (holds : Holds size items ring) :
    ring.newest = items.reverse.take size := by
  unfold newest
  rw [holds.length,holds.held]
  have each : ∀ k ∈ List.range (min items.length size),
      (ring.cells[(items.length - (k + 1)) % size]?).join = items[items.length - (k + 1)]? := by
    intro k member
    have small := List.mem_range.mp member
    obtain ⟨item,found⟩ : ∃ item, items[items.length - (k + 1)]? = some item :=
      ⟨_,List.getElem?_eq_getElem (by omega)⟩
    rw [holds.cells _ item found (by omega),found]
    rfl
  have counted : ∀ count ≤ items.length,
      (List.range count).filterMap (fun k => items[items.length - (k + 1)]?) = items.reverse.take count := by
    intro count
    induction count with
    | zero => exact fun _ => rfl
    | succ count ih =>
      intro most
      rw [List.range_succ,List.filterMap_append,ih (by omega),List.take_add_one,List.getElem?_reverse (by omega)]
      rw [show items.length - 1 - count = items.length - (count + 1) by omega]
      rw [List.filterMap_cons]
      cases items[items.length - (count + 1)]? <;> rfl
  rw [List.filterMap_congr each,counted _ (Nat.min_le_left _ _)]
  rcases Nat.le_total items.length size with less | more
  · rw [Nat.min_eq_left less,List.take_of_length_le (Nat.le_of_eq List.length_reverse),
      List.take_of_length_le (by rw [List.length_reverse]; exact less)]
  · rw [Nat.min_eq_right more]

theorem newest_foldl {size : Nat} (some' : 0 < size) (items : List α) :
    (items.foldl keep (new size)).newest = items.reverse.take size ∧ (items.foldl keep (new size)).held = items.length := by
  have general : ∀ (later earlier : List α) (ring : RingBuffer α), Holds size earlier ring →
      Holds size (earlier ++ later) (later.foldl keep ring) := by
    intro later
    induction later with
    | nil =>
      intro earlier ring holds
      rwa [List.append_nil]
    | cons item later ih =>
      intro earlier ring holds
      have next := ih (earlier ++ [item]) (ring.keep item) (holds_keep some' holds item)
      rwa [List.append_assoc] at next
  have holds := general items [] _ (holds_new size)
  exact ⟨newest_holds holds,holds.held⟩

end RingBuffer

end PiDispatch.Kernel
