import Mathlib.Algebra.Order.BigOperators.Group.List
import PiDispatch.Kernel.Dict

/-! Sums over the values of a dictionary: one that holds at least as much under each key of another sums to at least as
much. -/
namespace PiDispatch.Kernel.Dict

variable {K V M : Type} [DecidableEq K]

/-- Each key of the first dictionary stands in the second, with a value that is related to its own. -/
def Raises (related : V → V → Prop) (dict later : Dict K V) : Prop :=
  ∀ key value, dict.get? key = some value → ∃ now, later.get? key = some now ∧ related value now

theorem Raises.rest {related : V → V → Prop} {dict later : Dict K V} (raises : Raises related dict later) (key : K) :
    Raises related (dict.erase key) (later.erase key) := by
  intro other value held
  rw [get?_erase] at held
  split at held
  · cases held
  next apart =>
    obtain ⟨now,held',up⟩ := raises other value held
    exact ⟨now,by rw [get?_erase_ne _ apart,held'],up⟩

theorem Raises.sum [AddCommMonoid M] [PartialOrder M] [IsOrderedAddMonoid M] {related : V → V → Prop} {dict later : Dict K V}
    (raises : Raises related dict later) (figure : V → M) (up : ∀ value now, related value now → figure value ≤ figure now)
    (positive : ∀ now ∈ later.values, 0 ≤ figure now) : (dict.values.map figure).sum ≤ (later.values.map figure).sum := by
  induction size : dict.entries.length generalizing dict later with
  | zero =>
    have none : dict.values = [] := by
      unfold values
      rw [List.eq_nil_of_length_eq_zero size]
      rfl
    rw [none]
    refine List.sum_nonneg ?_
    intro amount inside
    obtain ⟨now,member,rfl⟩ := List.mem_map.mp inside
    exact positive now member
  | succ count ih =>
    obtain ⟨entry,rest,shape⟩ := List.exists_cons_of_length_eq_add_one size
    have held : dict.get? entry.1 = some entry.2 := get?_of_mem dict (by rw [shape]; exact List.mem_cons_self)
    obtain ⟨now,held',own⟩ := raises entry.1 entry.2 held
    have left := values_perm_erase dict entry.1 entry.2 held
    have right := values_perm_erase later entry.1 now held'
    rw [(left.map figure).sum_eq,(right.map figure).sum_eq,List.map_cons,List.map_cons,List.sum_cons,List.sum_cons]
    refine add_le_add (up _ _ own) (ih (raises.rest entry.1) ?_ ?_)
    · exact fun other inside => positive other ((values_erase later entry.1).subset inside)
    · have same := (entries_perm_erase dict entry.1 entry.2 held).length_eq
      rw [size,List.length_cons] at same
      omega

end PiDispatch.Kernel.Dict
