import Mathlib

/-! The words and the shapes that a steer message is held to: its id, its author's fields, and the sizes of its file. -/
namespace PiDispatch.SteerFraming

def isHex (letter : Char) : Bool := letter.isDigit || ('a' ≤ letter && letter ≤ 'f')

/-- `STEER_ID_RE`. -/
def isSteerId (id : List Char) : Bool := id.length = 32 && id.all isHex

def isAnyHex (letter : Char) : Bool := isHex letter || ('A' ≤ letter && letter ≤ 'F')

private def groups : List Nat → List Char → Bool
  | [],_ => false
  | [width],letters => letters.length = width && letters.all isAnyHex
  | width :: rest,letters => (letters.take width).length = width && (letters.take width).all isAnyHex &&
      (letters.drop width).head? = some '-' && groups rest (letters.drop (width + 1))

/-- `FORGE_USER_RE`: a numeric user id, a GUID, or `azid-` and sixteen hex digits. -/
def isForgeUser (id : List Char) : Bool :=
  (match id with
    | [] => false
    | first :: rest => first.isDigit && first ≠ '0' && rest.length ≤ 14 && rest.all Char.isDigit) ||
  groups [8,4,4,4,12] id ||
  (['a','z','i','d','-'].isPrefixOf id && (id.drop 5).length = 16 && (id.drop 5).all isHex)

/-- `ASSOCIATION_RE`. -/
def isAssociation (text : List Char) : Bool :=
  match text with
  | [] => false
  | first :: rest => first.isUpper && rest.length ≤ 39 && rest.all fun letter => letter.isUpper || letter = '_'

def isTokenLetter (letter : Char) : Bool :=
  letter.isLower || letter.isDigit || letter = '.' || letter = '_' || letter = '-'

/-- `TOKEN_NAME_RE`. -/
def isTokenName (text : List Char) : Bool :=
  match text with
  | [] => false
  | first :: rest => (first.isLower || first.isDigit) && rest.length ≤ 31 && rest.all isTokenLetter

section Letters

private theorem anyHex_letter {letter : Char} (hex : isAnyHex letter = true) : letter.isAlphanum = true := by
  simp only [isAnyHex,isHex,Char.isAlphanum,Char.isAlpha,Char.isUpper,Char.isLower,Bool.or_eq_true,Bool.and_eq_true,
    decide_eq_true_eq,Char.le_def,UInt32.le_iff_toNat_le] at hex ⊢
  have a : 'a'.val.toNat = 97 := rfl
  have f : 'f'.val.toNat = 102 := rfl
  have z : 'z'.val.toNat = 122 := rfl
  have A : 'A'.val.toNat = 65 := rfl
  have F : 'F'.val.toNat = 70 := rfl
  have Z : 'Z'.val.toNat = 90 := rfl
  rcases hex with (digit | lower) | upper
  · exact .inr digit
  · exact .inl (.inr (by omega))
  · exact .inl (.inl (by omega))

private theorem groups_letters {widths : List Nat} {id : List Char} (read : groups widths id = true) :
    ∀ letter ∈ id, letter.isAlphanum ∨ letter = '-' := by
  induction widths,id using groups.induct with
  | case1 => cases read
  | case2 id width =>
    intro letter inside
    rw [groups,Bool.and_eq_true] at read
    exact .inl (anyHex_letter (List.all_eq_true.mp read.2 letter inside))
  | case3 width rest id more ih =>
    intro letter inside
    rw [groups] at read
    · simp only [Bool.and_eq_true,decide_eq_true_eq] at read
      obtain ⟨⟨⟨_,lead⟩,dash⟩,tail⟩ := read
      rw [← List.take_append_drop width id] at inside
      rcases List.mem_append.mp inside with own | later
      · exact .inl (anyHex_letter (List.all_eq_true.mp lead letter own))
      · obtain ⟨items,shape⟩ := List.head?_eq_some_iff.mp dash
        rw [shape] at later
        rcases List.mem_cons.mp later with rfl | later
        · exact .inr rfl
        · refine ih tail letter ?_
          rw [← List.drop_drop,shape]
          exact later
    · exact more

/-- A user id is letters, digits and dashes. -/
theorem forgeUser_letters {id : List Char} (user : isForgeUser id = true) :
    ∀ letter ∈ id, letter.isAlphanum ∨ letter = '-' := by
  unfold isForgeUser at user
  rw [Bool.or_eq_true,Bool.or_eq_true] at user
  rcases user with (number | guid) | digest
  · intro letter inside
    split at number
    · cases number
    next first rest =>
      simp only [Bool.and_eq_true] at number
      rcases List.mem_cons.mp inside with rfl | later
      · exact .inl (Bool.or_eq_true_iff.mpr (.inr number.1.1.1))
      · exact .inl (Bool.or_eq_true_iff.mpr (.inr (List.all_eq_true.mp number.2 letter later)))
  · exact groups_letters guid
  · intro letter inside
    simp only [Bool.and_eq_true] at digest
    obtain ⟨rest,rfl⟩ := List.isPrefixOf_iff_prefix.mp digest.1.1
    rcases List.mem_append.mp inside with own | later
    · simp only [List.mem_cons,List.not_mem_nil,or_false] at own
      rcases own with rfl | rfl | rfl | rfl | rfl
      all_goals decide
    · refine .inl (anyHex_letter (Bool.or_eq_true_iff.mpr (.inl ?_)))
      exact List.all_eq_true.mp digest.2 letter later

private theorem groups_dash {widths : List Nat} {id : List Char} (several : 2 ≤ widths.length) (read : groups widths id = true) :
    '-' ∈ id := by
  rw [groups.eq_def] at read
  split at read
  · cases read
  · exact absurd several (by simp)
  · simp only [Bool.and_eq_true,decide_eq_true_eq] at read
    exact List.mem_of_mem_drop (List.mem_of_mem_head? read.1.2)

/-- A user id of digits only is a number without a leading zero, of fifteen digits at most. -/
theorem forgeUser_number {id : List Char} (user : isForgeUser id = true) (digits : ∀ letter ∈ id, letter.isDigit = true) :
    ∃ first rest, id = first :: rest ∧ first ≠ '0' ∧ rest.length ≤ 14 := by
  unfold isForgeUser at user
  rw [Bool.or_eq_true,Bool.or_eq_true] at user
  rcases user with (number | guid) | digest
  · split at number
    · cases number
    next first rest =>
      simp only [Bool.and_eq_true,decide_eq_true_eq] at number
      exact ⟨first,rest,rfl,number.1.1.2,number.1.2⟩
  · have dash := digits '-' (groups_dash (by decide) guid)
    cases dash
  · simp only [Bool.and_eq_true] at digest
    obtain ⟨rest,rfl⟩ := List.isPrefixOf_iff_prefix.mp digest.1.1
    have letter := digits 'a' List.mem_cons_self
    cases letter

end Letters

end PiDispatch.SteerFraming
