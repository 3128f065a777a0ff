import Mathlib.Data.List.Sort
import Mathlib.Order.Defs.LinearOrder

/-! The order of strings that the language's own comparison and sort follow: by UTF-16 units. -/
namespace PiDispatch.Kernel

def utf16 (text : String) : List Nat :=
  text.toList.flatMap fun letter =>
    if letter.toNat < 65536 then [letter.toNat]
    else [55296 + (letter.toNat - 65536) / 1024,56320 + (letter.toNat - 65536) % 1024]

def unitsNotAfter : List Nat → List Nat → Bool
  | [], _ => true
  | _ :: _, [] => false
  | left :: lefts, right :: rights => left < right ∨ (left = right ∧ unitsNotAfter lefts rights)

/-- `left ≤ right`. -/
def notAfter (left right : String) : Bool := unitsNotAfter (utf16 left) (utf16 right)

def sortTexts (texts : List String) : List String := texts.insertionSort fun left right => notAfter left right

private theorem units_total (left right : List Nat) :
    unitsNotAfter left right = true ∨ unitsNotAfter right left = true := by
  induction left generalizing right with
  | nil => exact .inl rfl
  | cons left lefts ih =>
    cases right with
    | nil => exact .inr rfl
    | cons right rights =>
      simp only [unitsNotAfter,decide_eq_true_eq]
      rcases lt_trichotomy left right with less | same | more
      · exact .inl (.inl less)
      · exact (ih rights).imp (fun rest => .inr ⟨same,rest⟩) fun rest => .inr ⟨same.symm,rest⟩
      · exact .inr (.inl more)

private theorem units_trans (left middle right : List Nat) (first : unitsNotAfter left middle = true)
    (second : unitsNotAfter middle right = true) : unitsNotAfter left right = true := by
  induction left generalizing middle right with
  | nil => rfl
  | cons left lefts ih =>
    cases middle with
    | nil => cases first
    | cons middle middles =>
      cases right with
      | nil => cases second
      | cons right rights =>
        simp only [unitsNotAfter,decide_eq_true_eq] at first second ⊢
        rcases first with less | ⟨rfl,rest⟩
        · exact .inl (second.elim less.trans fun same => same.1 ▸ less)
        · exact second.imp_right fun ⟨same,rest'⟩ => ⟨same,ih middles rights rest rest'⟩

theorem notAfter_total (left right : String) : notAfter left right = true ∨ notAfter right left = true :=
  units_total _ _

theorem notAfter_trans {left middle right : String} (first : notAfter left middle = true)
    (second : notAfter middle right = true) : notAfter left right = true := units_trans _ _ _ first second

private theorem units_antisymm {left right : List Nat} (first : unitsNotAfter left right = true)
    (second : unitsNotAfter right left = true) : left = right := by
  induction left generalizing right with
  | nil =>
    cases right with
    | nil => rfl
    | cons right rights => cases second
  | cons left lefts ih =>
    cases right with
    | nil => cases first
    | cons right rights =>
      simp only [unitsNotAfter,decide_eq_true_eq] at first second
      rcases first with less | ⟨rfl,rest⟩
      · rcases second with more | ⟨same,_⟩ <;> omega
      · rcases second with more | ⟨_,rest'⟩
        · omega
        · rw [ih rest rest']

private def utf16Letter (letter : Char) : List Nat :=
  if letter.toNat < 65536 then [letter.toNat]
  else [55296 + (letter.toNat - 65536) / 1024,56320 + (letter.toNat - 65536) % 1024]

private theorem utf16Letter_split {first second : Char} {left right : List Nat}
    (same : utf16Letter first ++ left = utf16Letter second ++ right) : first = second ∧ left = right := by
  have valid : first.toNat < 0xD800 ∨ 0xDFFF < first.toNat ∧ first.toNat < 0x110000 := first.valid
  have valid' : second.toNat < 0xD800 ∨ 0xDFFF < second.toNat ∧ second.toNat < 0x110000 := second.valid
  have letters : first.toNat = second.toNat → first = second := fun equal => by
    rw [← Char.ofNat_toNat first,equal,Char.ofNat_toNat]
  unfold utf16Letter at same
  split at same <;> split at same
  · injection same with head tail
    exact ⟨letters head,tail⟩
  · injection same with head tail
    omega
  · injection same with head tail
    omega
  · injection same with head tail
    injection tail with low tail
    exact ⟨letters (by omega),tail⟩

theorem utf16_injective {left right : String} (same : utf16 left = utf16 right) : left = right := by
  have letters : ∀ left right : List Char, left.flatMap utf16Letter = right.flatMap utf16Letter → left = right := by
    have some' : ∀ letter, utf16Letter letter ≠ [] := by
      intro letter
      unfold utf16Letter
      split <;> exact List.cons_ne_nil _ _
    intro left
    induction left with
    | nil =>
      intro right equal
      cases right with
      | nil => rfl
      | cons letter right => exact absurd (List.append_eq_nil_iff.mp equal.symm).1 (some' letter)
    | cons letter left ih =>
      intro right equal
      cases right with
      | nil => exact absurd (List.append_eq_nil_iff.mp equal).1 (some' letter)
      | cons other right =>
        rw [List.flatMap_cons,List.flatMap_cons] at equal
        obtain ⟨rfl,rest⟩ := utf16Letter_split equal
        rw [ih right rest]
  exact String.toList_injective (letters left.toList right.toList same)

theorem notAfter_antisymm {left right : String} (first : notAfter left right = true) (second : notAfter right left = true) :
    left = right := utf16_injective (units_antisymm first second)

theorem sortTexts_perm (texts : List String) : (sortTexts texts).Perm texts := List.perm_insertionSort _ texts

theorem sortTexts_sorted (texts : List String) :
    (sortTexts texts).Pairwise fun left right => notAfter left right = true := by
  have total : Std.Total fun left right => notAfter left right = true := ⟨notAfter_total⟩
  have trans : IsTrans String fun left right => notAfter left right = true := ⟨fun _ _ _ => notAfter_trans⟩
  exact List.pairwise_insertionSort _ texts

/-- Sorting what is sorted changes nothing. -/
theorem sortTexts_again (texts : List String) : sortTexts (sortTexts texts) = sortTexts texts :=
  (sortTexts_sorted texts).insertionSort_eq

/-- Texts in order are determined by which they are. -/
theorem sorted_unique {left right : List String} (perm : left.Perm right)
    (sorted : left.Pairwise fun left right => notAfter left right = true)
    (sorted' : right.Pairwise fun left right => notAfter left right = true) : left = right :=
  perm.eq_of_pairwise (fun _ _ _ _ => notAfter_antisymm) sorted sorted'

theorem sortTexts_filter (keep : String → Bool) (texts : List String) :
    sortTexts (texts.filter keep) = (sortTexts texts).filter keep :=
  sorted_unique ((sortTexts_perm _).trans ((sortTexts_perm texts).symm.filter keep)) (sortTexts_sorted _)
    ((sortTexts_sorted texts).filter keep)

/-- One text more: it goes between the texts before it and the texts after it. -/
theorem sortTexts_snoc (texts : List String) (text : String) : ∃ before after, sortTexts texts = before ++ after ∧
    sortTexts (texts ++ [text]) = before ++ text :: after ∧ (∀ other ∈ before, notAfter other text = true) ∧
      ∀ other ∈ after, notAfter text other = true := by
  have sorted := sortTexts_sorted (texts ++ [text])
  have member : text ∈ sortTexts (texts ++ [text]) := (sortTexts_perm _).symm.subset (by simp)
  obtain ⟨before,after,shape⟩ := List.append_of_mem member
  rw [shape] at sorted
  obtain ⟨first,second,across⟩ := List.pairwise_append.mp sorted
  refine ⟨before,after,?_,shape,fun other inside => across other inside text List.mem_cons_self,
    fun other inside => (List.pairwise_cons.mp second).1 other inside⟩
  refine sorted_unique ?_ (sortTexts_sorted texts) ?_
  · have all : (text :: texts).Perm (text :: (before ++ after)) := by
      refine List.Perm.trans ?_ (List.perm_middle)
      rw [← shape]
      exact ((List.perm_append_singleton text texts).symm).trans (sortTexts_perm _).symm
    exact (sortTexts_perm texts).trans (List.perm_cons text |>.mp all)
  · exact List.pairwise_append.mpr ⟨first,(List.pairwise_cons.mp second).2,
      fun other inside last late => across other inside last (List.mem_cons_of_mem _ late)⟩

end PiDispatch.Kernel
