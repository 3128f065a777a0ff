import PiDispatch.Kernel.Utf16

/-! Strings and the lists of their code points. A list in which no two lone units could pair up is a string's, and such
lists are put together of others: of their own parts and of what is written for each of their points. -/
namespace PiDispatch.Kernel.Utf16

/-- A lone unit is a surrogate. -/
def Point.Proper : Point → Prop
  | .scalar _ => True
  | .lone unit => (isHigh unit || isLow unit) = true

/-- Two points that stay two when they are written next to each other. -/
def Apart : Point → Point → Prop
  | .lone high,.lone low => (isHigh high && isLow low) = false
  | _,_ => True

/-- The points of a string. -/
structure Formed (list : List Point) : Prop where
  proper : ∀ point ∈ list, point.Proper
  apart : list.IsChain Apart

section Pieces
variable {unit low : UInt16} {rest : Units}

private theorem single_proper (unit : UInt16) : (single unit).Proper := by
  unfold single
  split
  next surrogate => exact surrogate
  · trivial

private theorem single_lone {own : UInt16} (same : single unit = .lone own) : own = unit := by
  unfold single at same
  split at same
  · cases same
    rfl
  · cases same

private theorem points_first {other : UInt16} (first : .lone other ∈ (points (low :: rest)).head?) : other = low := by
  cases rest with
  | nil => exact single_lone (Option.mem_some.mp first)
  | cons more rest =>
    rw [points] at first
    split at first
    · cases Option.mem_some.mp first
    · exact single_lone (Option.mem_some.mp first)

/-- A unit that does not pair with the next one. -/
theorem points_apart (apart : ∀ low ∈ rest.head?, (isHigh unit && isLow low) = false) :
    points (unit :: rest) = single unit :: points rest := by
  cases rest with
  | nil => rfl
  | cons low rest =>
    rw [points,apart low rfl]
    rfl

/-- A part that starts with no second half. -/
theorem points_append (first : Units) {second : Units} (free : ∀ low ∈ second.head?, isLow low = false) :
    points (first ++ second) = points first ++ points second := by
  induction first using points.induct with
  | case1 => rfl
  | case2 unit =>
    refine points_apart ?_
    intro low inside
    rw [free low inside]
    exact Bool.and_false _
  | case3 high low rest pair ih =>
    rw [List.cons_append,List.cons_append,points,points,if_pos pair,if_pos pair,ih]
    rfl
  | case4 high low rest apart ih =>
    rw [List.cons_append,List.cons_append,points,points,if_neg apart,if_neg apart,← List.cons_append,ih]
    rfl

end Pieces

theorem formed_points (text : Units) : Formed (points text) := by
  induction text using points.induct with
  | case1 => exact ⟨fun _ none => absurd none List.not_mem_nil,.nil⟩
  | case2 unit =>
    refine ⟨?_,.singleton _⟩
    intro point inside
    rw [List.mem_singleton.mp inside]
    exact single_proper unit
  | case3 high low rest pair ih =>
    rw [points,if_pos pair]
    refine ⟨List.forall_mem_cons.mpr ⟨trivial,ih.proper⟩,?_⟩
    exact List.isChain_cons.mpr ⟨fun _ _ => trivial,ih.apart⟩
  | case4 high low rest apart ih =>
    rw [points,if_neg apart]
    refine ⟨List.forall_mem_cons.mpr ⟨single_proper high,ih.proper⟩,?_⟩
    refine List.isChain_cons.mpr ⟨?_,ih.apart⟩
    intro next first
    cases own : single high with
    | scalar => trivial
    | lone unit =>
      cases next with
      | scalar => trivial
      | lone other =>
        rw [single_lone own,points_first first]
        exact Bool.eq_false_iff.mpr apart

private theorem unitsOf_low {letter : Char} {low : UInt16} (first : low ∈ (unitsOf letter).head?) : isLow low = false := by
  have valid : letter.toNat < 0xD800 ∨ 0xDFFF < letter.toNat ∧ letter.toNat < 0x110000 := letter.valid
  unfold unitsOf at first
  split at first
  all_goals
    cases Option.mem_some.mp first
    unfold isLow
    rw [UInt16.toNat_ofNat_of_lt' (by change _ < 65536; omega)]
    simp only [Bool.and_eq_false_iff,decide_eq_false_iff_not]
    omega

theorem units_ne_nil (point : Point) : point.units ≠ [] := by
  cases point with
  | lone unit => exact List.cons_ne_nil _ _
  | scalar letter =>
    change unitsOf letter ≠ []
    unfold unitsOf
    split <;> exact List.cons_ne_nil _ _

/-- Nothing of the points is lost in a string that is written of them. -/
theorem points_units {list : List Point} (formed : Formed list) : points (list.flatMap Point.units) = list := by
  obtain ⟨proper,apart⟩ := formed
  induction list with
  | nil => rfl
  | cons point list ih =>
    obtain ⟨own,proper⟩ := List.forall_mem_cons.mp proper
    obtain ⟨next,apart⟩ := List.isChain_cons.mp apart
    have rest := ih proper apart
    rw [List.flatMap_cons]
    cases point with
    | scalar letter =>
      change points (unitsOf letter ++ _) = _
      rw [points_unitsOf,rest]
    | lone unit =>
      have whole : single unit = .lone unit := if_pos own
      change points (unit :: list.flatMap Point.units) = _
      rw [points_apart,rest,whole]
      intro low first
      cases list with
      | nil => cases first
      | cons other list =>
        rw [List.flatMap_cons,List.head?_append_of_ne_nil _ (units_ne_nil other)] at first
        cases other with
        | scalar letter =>
          rw [unitsOf_low first]
          exact Bool.and_false _
        | lone unit =>
          cases Option.mem_some.mp first
          exact next _ rfl

section Parts
variable {list part : List Point}

theorem Formed.inside (formed : Formed list) (within : part <:+: list) : Formed part :=
  ⟨fun point inside => formed.proper point (within.subset inside), List.IsChain.infix formed.apart within⟩

private theorem scalars_apart (characters : ∀ point ∈ list, ∃ letter, point = .scalar letter) : list.IsChain Apart := by
  induction list with
  | nil => exact .nil
  | cons point list ih =>
    obtain ⟨⟨letter,rfl⟩,others⟩ := List.forall_mem_cons.mp characters
    exact List.isChain_cons.mpr ⟨fun _ _ => trivial,ih others⟩

/-- Where a lone unit is written as itself and a character as some characters, what is written is a string. -/
theorem Formed.written {write : Point → List Point} (some' : ∀ point, write point ≠ [])
    (lone : ∀ unit, write (.lone unit) = [.lone unit])
    (scalar : ∀ letter, ∀ point ∈ write (.scalar letter), ∃ own, point = .scalar own) (formed : Formed list) :
    Formed (list.flatMap write) := by
  obtain ⟨proper,apart⟩ := formed
  induction list with
  | nil => exact ⟨nofun,.nil⟩
  | cons point list ih =>
    obtain ⟨own,others⟩ := List.forall_mem_cons.mp proper
    obtain ⟨next,apart⟩ := List.isChain_cons.mp apart
    obtain ⟨written,chain⟩ := ih others apart
    rw [List.flatMap_cons]
    cases point with
    | lone unit =>
      rw [lone,List.singleton_append]
      refine ⟨List.forall_mem_cons.mpr ⟨own,written⟩,List.isChain_cons.mpr ⟨?_,chain⟩⟩
      intro first inside
      cases list with
      | nil => cases inside
      | cons other list =>
        rw [List.flatMap_cons,List.head?_append_of_ne_nil _ (some' other)] at inside
        cases other with
        | lone low =>
          rw [lone] at inside
          cases Option.mem_some.mp inside
          exact next _ rfl
        | scalar letter =>
          obtain ⟨character,rfl⟩ := scalar letter first (List.mem_of_mem_head? inside)
          trivial
    | scalar letter =>
      have characters := scalar letter
      refine ⟨?_,List.isChain_append.mpr ⟨?_,chain,?_⟩⟩
      · intro point inside
        rcases List.mem_append.mp inside with here | later
        · obtain ⟨character,rfl⟩ := characters point here
          trivial
        · exact written point later
      · exact scalars_apart characters
      · intro last inside first _
        obtain ⟨character,rfl⟩ := characters last (List.mem_of_mem_getLast? inside)
        trivial

end Parts

end PiDispatch.Kernel.Utf16
