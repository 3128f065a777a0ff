import Mathlib.Data.List.Basic

/-! The last entries of a growing list: what a queue holds that drops its oldest entry to make room. -/
namespace PiDispatch.Kernel

variable {α : Type}

def lastOf (most : Nat) (entries : List α) : List α := entries.drop (entries.length - most)

theorem lastOf_length (most : Nat) (entries : List α) : (lastOf most entries).length ≤ most := by
  simp only [lastOf,List.length_drop]
  omega

theorem lastOf_suffix (most : Nat) (entries : List α) : lastOf most entries <:+ entries := List.drop_suffix ..

/-- Taking one more entry in and cutting down again. -/
theorem lastOf_push (most : Nat) (entries : List α) (entry : α) :
    lastOf most (lastOf most entries ++ [entry]) = lastOf most (entries ++ [entry]) := by
  unfold lastOf
  have short : entries.length - most ≤ entries.length := Nat.sub_le ..
  have joined : entries.drop (entries.length - most) ++ [entry] = (entries ++ [entry]).drop (entries.length - most) := by
    rw [List.drop_append_of_le_length short]
  rw [joined,List.drop_drop]
  simp only [List.length_drop,List.length_append,List.length_singleton]
  congr 1
  omega

/-- An entry stays until as many have come after it as there is room for. -/
theorem lastOf_mem {most : Nat} {before later : List α} (entry : α) (few : later.length < most) :
    entry ∈ lastOf most (before ++ entry :: later) := by
  have shape : lastOf most (before ++ entry :: later) =
      before.drop (before.length + (later.length + 1) - most) ++ entry :: later := by
    unfold lastOf
    rw [List.length_append,List.length_cons,List.drop_append_of_le_length (by omega)]
  rw [shape]
  simp

theorem mem_lastOf {most : Nat} {entries : List α} {entry : α} (member : entry ∈ lastOf most entries) :
    ∃ before later, entries = before ++ entry :: later ∧ later.length < most := by
  obtain ⟨left,right,shape⟩ := List.append_of_mem member
  have whole : entries = (entries.take (entries.length - most) ++ left) ++ entry :: right := by
    rw [List.append_assoc,← shape,lastOf,List.take_append_drop]
  refine ⟨_,right,whole,?_⟩
  have bound := lastOf_length most entries
  rw [shape,List.length_append,List.length_cons] at bound
  omega

end PiDispatch.Kernel
