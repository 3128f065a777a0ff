import Mathlib.Data.List.Infix

/-! A text rewritten from left to right, each match replaced, and what a text keeps where parts of it are replaced by one
mark: a word that has nothing in common with the mark is in the result only where it was. -/
namespace PiDispatch.Kernel.Rewrite
variable {α : Type}

/-- `replace` with a global pattern. The pattern sees what is before a position, last first, and what is after it; it
gives the length of its match there and what replaces it. After an empty match one item is kept. -/
def replaceAll (pattern : List α → List α → Option (Nat × List α)) : List α → List α → List α
  | before,[] => match pattern before [] with
    | some (_,new) => new
    | none => []
  | before,item :: rest => match pattern before (item :: rest) with
    | none => item :: replaceAll pattern (item :: before) rest
    | some (0,new) => new ++ item :: replaceAll pattern (item :: before) rest
    | some (length + 1,new) =>
      new ++ replaceAll pattern ((item :: rest.take length).reverse ++ before) (rest.drop length)
termination_by _ text => text.length

/-- The second text is the first with parts of it replaced by the mark. -/
inductive Redacts (mark : List α) : List α → List α → Prop
  | nil : Redacts mark [] []
  | keep (item : α) {text out : List α} (rest : Redacts mark text out) : Redacts mark (item :: text) (item :: out)
  | cut (gone : List α) {text out : List α} (rest : Redacts mark text out) : Redacts mark (gone ++ text) (mark ++ out)

section Redacts
variable {mark : List α}

theorem Redacts.refl (text : List α) : Redacts mark text text := by
  induction text with
  | nil => exact .nil
  | cons item text ih => exact .keep item ih

theorem Redacts.append {first out second rest : List α} (one : Redacts mark first out) (two : Redacts mark second rest) :
    Redacts mark (first ++ second) (out ++ rest) := by
  induction one with
  | nil => exact two
  | keep item _ ih => exact .keep item ih
  | cut gone _ ih =>
    rw [List.append_assoc,List.append_assoc]
    exact .cut gone ih

theorem Redacts.whole (gone : List α) : Redacts mark gone mark := by
  have own := Redacts.cut gone (@Redacts.nil α mark)
  rw [List.append_nil,List.append_nil] at own
  exact own

/-- A pass whose every match is redacted redacts the text. -/
theorem replaceAll_redacts {pattern : List α → List α → Option (Nat × List α)}
    (each : ∀ before after length new, pattern before after = some (length,new) → Redacts mark (after.take length) new)
    (before text : List α) : Redacts mark text (replaceAll pattern before text) := by
  induction before,text using replaceAll.induct pattern with
  | case1 before length new found =>
    rw [replaceAll,found]
    have own := each before [] length new found
    rw [List.take_nil] at own
    exact own
  | case2 before found =>
    rw [replaceAll,found]
    exact .nil
  | case3 before item rest found ih =>
    rw [replaceAll,found]
    exact .keep item ih
  | case4 before item rest new found ih =>
    rw [replaceAll,found]
    exact (each before (item :: rest) 0 new found).append (.keep item ih)
  | case5 before item rest length new found ih =>
    rw [replaceAll,found]
    have own := (each before (item :: rest) (length + 1) new found).append ih
    rw [List.take_succ_cons,List.cons_append,List.take_append_drop] at own
    exact own

variable {word : List α}

private theorem apart_begins (some' : word ≠ []) (apart : ∀ item ∈ word, item ∉ mark) {rest : List α}
    (marked : mark ≠ []) : ¬word <+: mark ++ rest := by
  rintro ⟨tail,shape⟩
  obtain ⟨first,letters,rfl⟩ := List.exists_cons_of_ne_nil some'
  obtain ⟨own,marks,rfl⟩ := List.exists_cons_of_ne_nil marked
  rw [List.cons_append,List.cons_append] at shape
  refine apart first List.mem_cons_self ?_
  rw [(List.cons.inj shape).1]
  exact List.mem_cons_self

/-- A word apart from the mark begins a redacted text only where it begins the text. -/
theorem Redacts.prefix_back (apart : ∀ item ∈ word, item ∉ mark) (marked : mark ≠ []) {text out : List α}
    (redacts : Redacts mark text out) (begins : word <+: out) : word <+: text := by
  induction redacts generalizing word with
  | nil => exact begins
  | keep item _ ih =>
    cases word with
    | nil => exact List.nil_prefix
    | cons first letters =>
      obtain ⟨rfl,later⟩ := List.cons_prefix_cons.mp begins
      exact List.cons_prefix_cons.mpr ⟨rfl,ih (fun item inside => apart item (List.mem_cons_of_mem _ inside)) later⟩
  | cut gone _ _ =>
    cases word with
    | nil => exact List.nil_prefix
    | cons first letters => exact absurd begins (apart_begins (List.cons_ne_nil _ _) apart marked)

private theorem infix_marked (some' : word ≠ []) (apart : ∀ item ∈ word, item ∉ mark) {rest : List α}
    (inside : word <:+: mark ++ rest) : word <:+: rest := by
  induction mark with
  | nil => exact inside
  | cons item mark ih =>
    rw [List.cons_append,List.infix_cons_iff] at inside
    rcases inside with begins | later
    · exact absurd begins (apart_begins some' apart (List.cons_ne_nil item mark))
    · exact ih (fun own among member => apart own among (List.mem_cons_of_mem _ member)) later

/-- A word apart from the mark is in a redacted text only where it is in the text. -/
theorem Redacts.infix_back (some' : word ≠ []) (apart : ∀ item ∈ word, item ∉ mark) (marked : mark ≠ []) {text out : List α}
    (redacts : Redacts mark text out) (inside : word <:+: out) : word <:+: text := by
  induction redacts with
  | nil => exact inside
  | keep item rest ih =>
    rcases List.infix_cons_iff.mp inside with begins | later
    · exact ((Redacts.keep item rest).prefix_back apart marked begins).isInfix
    · exact (ih later).trans (List.infix_cons_iff.mpr (.inr (List.infix_refl _)))
  | cut gone _ ih => exact (ih (infix_marked some' apart inside)).trans (List.suffix_append gone _).isInfix

end Redacts

section Words
variable [DecidableEq α]

/-- A pattern of words, the first that matches taken. -/
def wordPattern (mark : List α) (words : List (List α)) (_before after : List α) : Option (Nat × List α) :=
  (words.find? fun word => word.isPrefixOf after).map fun word => (word.length,mark)

variable {mark : List α} {words : List (List α)} {word : List α}

private theorem wordPattern_some {before after : List α} {length : Nat} {new : List α}
    (found : wordPattern mark words before after = some (length,new)) :
    ∃ word ∈ words, word <+: after ∧ length = word.length ∧ new = mark := by
  obtain ⟨word,first,same⟩ := Option.map_eq_some_iff.mp found
  cases same
  have begins : word.isPrefixOf after = true := by
    have own := List.find?_some first
    exact own
  exact ⟨word,List.mem_of_find?_eq_some first,List.isPrefixOf_iff_prefix.mp begins,rfl,rfl⟩

theorem wordPattern_redacts (before after : List α) (length : Nat) (new : List α)
    (found : wordPattern mark words before after = some (length,new)) : Redacts mark (after.take length) new := by
  obtain ⟨_,_,_,_,rfl⟩ := wordPattern_some found
  exact Redacts.whole _

private theorem wordPattern_found (among : word ∈ words) {before after : List α} (begins : word <+: after) :
    ∃ length, wordPattern mark words before after = some (length,mark) := by
  unfold wordPattern
  cases found : words.find? fun word => word.isPrefixOf after with
  | none => exact absurd (List.isPrefixOf_iff_prefix.mpr begins) (List.find?_eq_none.mp found word among)
  | some first => exact ⟨first.length,rfl⟩

/-- Where a pattern of words has been replaced, none of them begins. -/
private theorem replaceAll_prefix (among : word ∈ words) (some' : word ≠ []) (apart : ∀ item ∈ word, item ∉ mark)
    (marked : mark ≠ []) (before text : List α) : ¬word <+: replaceAll (wordPattern mark words) before text := by
  intro begins
  have front := (replaceAll_redacts wordPattern_redacts before text).prefix_back apart marked begins
  cases text with
  | nil => exact some' (List.prefix_nil.mp front)
  | cons item rest =>
    obtain ⟨length,found⟩ := @wordPattern_found α _ mark words word among before (item :: rest) front
    rw [replaceAll,found] at begins
    cases length with
    | zero => exact apart_begins some' apart marked begins
    | succ length => exact apart_begins some' apart marked begins

/-- A text whose every match of a pattern of words has been replaced by a mark that a word is apart from has no such word. -/
theorem replaceAll_free (filled : ∀ word ∈ words, word ≠ []) (among : word ∈ words) (apart : ∀ item ∈ word, item ∉ mark)
    (marked : mark ≠ []) (before text : List α) : ¬word <:+: replaceAll (wordPattern mark words) before text := by
  have some' := filled word among
  have front := replaceAll_prefix among some' apart marked
  induction before,text using replaceAll.induct (wordPattern mark words) with
  | case1 before length new found =>
    obtain ⟨other,own,begins,_,_⟩ := wordPattern_some found
    exact absurd (List.prefix_nil.mp begins) (filled other own)
  | case2 before found =>
    rw [replaceAll,found]
    exact fun inside => some' (List.infix_nil.mp inside)
  | case3 before item rest found ih =>
    intro inside
    have here := front before (item :: rest)
    rw [replaceAll,found] at here inside
    rcases List.infix_cons_iff.mp inside with begins | later
    · exact here begins
    · exact ih later
  | case4 before item rest new found ih =>
    obtain ⟨other,own,_,empty,_⟩ := wordPattern_some found
    exact absurd (List.length_eq_zero_iff.mp empty.symm) (filled other own)
  | case5 before item rest length new found ih =>
    intro inside
    obtain ⟨_,_,_,_,rfl⟩ := wordPattern_some found
    rw [replaceAll,found] at inside
    exact ih (infix_marked some' apart inside)

/-- A pattern of words that a text has none of leaves it as it is. -/
theorem replaceAll_same (before text : List α) (none' : ∀ word ∈ words, ¬word <:+: text) :
    replaceAll (wordPattern mark words) before text = text := by
  induction before,text using replaceAll.induct (wordPattern mark words) with
  | case1 before length new found =>
    obtain ⟨word,among,begins,_,_⟩ := wordPattern_some found
    exact absurd begins.isInfix (none' word among)
  | case2 before found => rw [replaceAll,found]
  | case3 before item rest found ih =>
    rw [replaceAll,found]
    refine congrArg (List.cons item) (ih fun word among inside => none' word among ?_)
    exact List.infix_cons_iff.mpr (.inr inside)
  | case4 before item rest new found ih =>
    obtain ⟨word,among,begins,_,_⟩ := wordPattern_some found
    exact absurd begins.isInfix (none' word among)
  | case5 before item rest length new found ih =>
    obtain ⟨word,among,begins,_,_⟩ := wordPattern_some found
    exact absurd begins.isInfix (none' word among)

end Words

end PiDispatch.Kernel.Rewrite
