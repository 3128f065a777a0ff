import Mathlib.Data.List.Basic

/-! Patterns over a text as a backtracking matcher reads them: classes of items repeated greedily, checks that take nothing,
and marks of the places that a match is cut at. -/
namespace PiDispatch.Kernel.Pattern
variable {α : Type}

inductive Item (α : Type)
  | several (admits : α → Bool) (least : Nat) (most : Option Nat)
  | check (holds : List α → List α → Bool)
  | mark

/-- How many items a class takes: the most first, then fewer. -/
def counts (admits : α → Bool) (least : Nat) (most : Option Nat) (after : List α) : List Nat :=
  let run := (after.takeWhile admits).length
  ((List.range (min run (most.getD run) + 1)).reverse).filter fun count => least ≤ count

/-- The marks of the first match, and where it ends; `place` is how far the match has come. What is before a place is
last first. -/
def matchAt : List (Item α) → List α → List α → Nat → Option (List Nat)
  | [],_,_,place => some [place]
  | .mark :: items,before,after,place => (matchAt items before after place).map fun marks => place :: marks
  | .check holds :: items,before,after,place => if holds before after then matchAt items before after place else none
  | .several admits least most :: items,before,after,place =>
    (counts admits least most after).findSome? fun count =>
      matchAt items ((after.take count).reverse ++ before) (after.drop count) (place + count)

def one (admits : α → Bool) : Item α := .several admits 1 (some 1)

/-- The marks of a match ascend, up to its end. -/
theorem matchAt_sorted {items : List (Item α)} {before after : List α} {place : Nat} {marks : List Nat}
    (found : matchAt items before after place = some marks) : (∀ mark ∈ marks, place ≤ mark) ∧ marks.Pairwise (· ≤ ·) := by
  induction items generalizing before after place marks with
  | nil =>
    cases found
    exact ⟨fun mark inside => Nat.le_of_eq (List.mem_singleton.mp inside).symm,List.pairwise_singleton _ _⟩
  | cons item items ih =>
    cases item with
    | several admits least most =>
      rw [matchAt] at found
      obtain ⟨count,_,own⟩ := List.exists_of_findSome?_eq_some found
      obtain ⟨above,sorted⟩ := ih own
      exact ⟨fun mark inside => Nat.le_trans (Nat.le_add_right _ _) (above mark inside),sorted⟩
    | check holds =>
      rw [matchAt] at found
      split at found
      · exact ih found
      · cases found
    | mark =>
      rw [matchAt] at found
      obtain ⟨later,own,rfl⟩ := Option.map_eq_some_iff.mp found
      obtain ⟨above,sorted⟩ := ih own
      refine ⟨fun mark inside => ?_,List.pairwise_cons.mpr ⟨above,sorted⟩⟩
      rcases List.mem_cons.mp inside with rfl | rest
      · exact Nat.le_refl _
      · exact above mark rest

end PiDispatch.Kernel.Pattern
