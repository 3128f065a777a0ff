import Mathlib.Data.List.Basic

/-! Sequences cut at a separator, as a reader cuts them that gets its input in chunks and carries what no separator has
ended yet. -/
namespace PiDispatch.Kernel.Lines
variable {α : Type} [DecidableEq α]

/-- The pieces that end, and what is carried on. -/
def cut (separator : α) : List α → List α → List (List α) × List α
  | carry,[] => ([],carry)
  | carry,item :: rest =>
    if item = separator then (carry :: (cut separator [] rest).1,(cut separator [] rest).2)
    else cut separator (carry ++ [item]) rest

/-- Chunk by chunk. -/
def cutChunks (separator : α) : List α → List (List α) → List (List α) × List α
  | carry,[] => ([],carry)
  | carry,chunk :: chunks =>
    let here := cut separator carry chunk
    let later := cutChunks separator here.2 chunks
    (here.1 ++ later.1,later.2)

/-- `split`: the last piece is what no separator ends. -/
def split (separator : α) (items : List α) : List (List α) :=
  (cut separator [] items).1 ++ [(cut separator [] items).2]

variable {separator : α}

theorem cut_append (carry first second : List α) : cut separator carry (first ++ second) =
    ((cut separator carry first).1 ++ (cut separator (cut separator carry first).2 second).1,
      (cut separator (cut separator carry first).2 second).2) := by
  induction first generalizing carry with
  | nil => rfl
  | cons item first ih =>
    rw [List.cons_append,cut,cut]
    split
    · rw [ih]
      rfl
    · exact ih _

/-- How the input is chunked changes nothing. -/
theorem cutChunks_flatten (carry : List α) (chunks : List (List α)) :
    cutChunks separator carry chunks = cut separator carry chunks.flatten := by
  induction chunks generalizing carry with
  | nil => rfl
  | cons chunk chunks ih =>
    rw [cutChunks,List.flatten_cons,cut_append]
    rw [ih]

theorem cut_unbroken {items : List α} (free : separator ∉ items) (carry : List α) :
    cut separator carry items = ([],carry ++ items) := by
  induction items generalizing carry with
  | nil => rw [cut,List.append_nil]
  | cons item items ih =>
    rw [List.mem_cons,not_or] at free
    rw [cut,if_neg (fun same => free.1 same.symm),ih free.2,List.append_assoc,List.singleton_append]

theorem cut_ended {items : List α} (free : separator ∉ items) (rest : List α) :
    cut separator [] (items ++ separator :: rest) = (items :: (cut separator [] rest).1,(cut separator [] rest).2) := by
  rw [cut_append,cut_unbroken free,List.nil_append,List.nil_append,cut,if_pos rfl]

/-- Whole pieces and a fragment are cut into themselves. -/
theorem cut_pieces {pieces : List (List α)} (free : ∀ piece ∈ pieces, separator ∉ piece) {fragment : List α}
    (free' : separator ∉ fragment) :
    cut separator [] ((pieces.flatMap fun piece => piece ++ [separator]) ++ fragment) = (pieces,fragment) := by
  induction pieces with
  | nil => exact cut_unbroken free' []
  | cons piece pieces ih =>
    rw [List.flatMap_cons,List.append_assoc,List.append_assoc,List.singleton_append,cut_ended (free piece List.mem_cons_self),
      ih fun other inside => free other (List.mem_cons_of_mem _ inside)]

theorem split_unbroken {items : List α} (free : separator ∉ items) : split separator items = [items] := by
  unfold split
  rw [cut_unbroken free]
  rfl

/-- What is split on both sides of a separator is split by itself. -/
theorem split_append (first second : List α) :
    split separator (first ++ separator :: second) = split separator first ++ split separator second := by
  unfold split
  rw [cut_append,cut,if_pos rfl,List.append_assoc,List.append_assoc]
  rfl

/-- Nothing but separators is lost. -/
theorem split_flatten (items : List α) : (split separator items).flatten = items.filter fun item => item ≠ separator := by
  have general : ∀ carry, (cut separator carry items).1.flatten ++ (cut separator carry items).2 =
      carry ++ items.filter fun item => item ≠ separator := by
    induction items with
    | nil => intro carry; simp [cut]
    | cons item items ih =>
      intro carry
      rw [cut]
      split
      next same => simp [same,List.append_assoc,ih []]
      next apart => simp [apart,ih]
  have own := general []
  unfold split
  rw [List.flatten_append,List.flatten_singleton]
  exact own

/-- An item that is no separator is in a piece. -/
theorem split_kept {items : List α} {item : α} (inside : item ∈ items) (apart : item ≠ separator) :
    ((split separator items).filter fun piece => piece ≠ []) ≠ [] := by
  have member : item ∈ (split separator items).flatten := by
    rw [split_flatten]
    exact List.mem_filter.mpr ⟨inside,decide_eq_true apart⟩
  obtain ⟨piece,among,own⟩ := List.mem_flatten.mp member
  exact List.ne_nil_of_mem (List.mem_filter.mpr ⟨among,decide_eq_true (List.ne_nil_of_mem own)⟩)

/-- No piece that ends has a separator within. -/
theorem cut_free {items carry : List α} (free : separator ∉ carry) :
    ∀ piece ∈ (cut separator carry items).1, separator ∉ piece := by
  induction items generalizing carry with
  | nil => exact fun _ none' => (nomatch none')
  | cons item items ih =>
    intro piece among
    rw [cut] at among
    split at among
    · rcases List.mem_cons.mp among with rfl | later
      · exact free
      · exact ih List.not_mem_nil piece later
    next apart =>
      refine ih ?_ piece among
      rw [List.mem_append,List.mem_singleton,not_or]
      exact ⟨free,fun same => apart same.symm⟩

/-- A piece stands in the whole. -/
theorem split_infix {items piece : List α} (among : piece ∈ split separator items) : piece <:+: items := by
  have general : ∀ carry, (∀ piece ∈ (cut separator carry items).1, piece <:+: carry ++ items) ∧
      (cut separator carry items).2 <:+: carry ++ items := by
    clear among
    induction items with
    | nil =>
      intro carry
      rw [cut,List.append_nil]
      exact ⟨fun _ none' => (nomatch none'),List.infix_refl _⟩
    | cons item items ih =>
      intro carry
      rw [cut]
      split
      · obtain ⟨pieces,last⟩ := ih []
        have later : [] ++ items <:+: carry ++ item :: items := ⟨carry ++ [item],[],by simp⟩
        refine ⟨fun piece among => ?_,last.trans later⟩
        rcases List.mem_cons.mp among with rfl | rest
        · exact ⟨[],item :: items,rfl⟩
        · exact (pieces piece rest).trans later
      · have own := ih (carry ++ [item])
        rw [List.append_assoc,List.singleton_append] at own
        exact own
  obtain ⟨pieces,last⟩ := general []
  rcases List.mem_append.mp among with inner | final
  · exact pieces piece inner
  · rw [List.mem_singleton.mp final]
    exact last

end PiDispatch.Kernel.Lines
