import PiDispatch.RedactSecrets

/-! No secret is left whole: rule 1 leaves none of a value's spellings, and what comes after it only puts marks in. -/
namespace PiDispatch.RedactSecrets
open Kernel Octets JsonText Pattern Rewrite

section Passes

/-- A pass puts marks in, and keeps what it does not replace. -/
def Marks (pass : Pass) : Prop := ∀ before after length new, pass before after = some (length,new) →
  Redacts REDACTED (after.take length) new

private theorem marked_from {after : Units} {mark stop : Nat} (within : mark ≤ stop) :
    Redacts REDACTED (after.take stop) (after.take mark ++ REDACTED) := by
  have split : after.take stop = after.take mark ++ (after.take stop).drop mark := by
    have own := List.take_append_drop mark (after.take stop)
    rw [List.take_take,Nat.min_eq_left within] at own
    exact own.symm
  rw [split]
  exact (Redacts.refl _).append (Redacts.whole _)

private theorem credentialPass_marks (pattern : List (Item UInt16)) : Marks (credentialPass pattern) := by
  intro before after length new found
  unfold credentialPass at found
  split at found
  next mark stop matched =>
    cases found
    have within : mark ≤ length := by
      obtain ⟨_,sorted⟩ := matchAt_sorted matched
      exact List.rel_of_pairwise_cons sorted (List.mem_singleton.mpr rfl)
    have own := @marked_from after mark length within
    split
    next same =>
      rw [same]
      exact own
    · exact own
  · cases found

private theorem userinfoPass_marks : Marks userinfoPass := by
  intro before after length new found
  unfold userinfoPass at found
  split at found
  next mark last stop matched =>
    cases found
    obtain ⟨_,sorted⟩ := matchAt_sorted matched
    have early : mark ≤ last := List.rel_of_pairwise_cons sorted List.mem_cons_self
    have late : last ≤ length := List.rel_of_pairwise_cons (List.pairwise_cons.mp sorted).2 (List.mem_singleton.mpr rfl)
    have split : after.take length = after.take last ++ (after.take length).drop last := by
      have own := List.take_append_drop last (after.take length)
      rw [List.take_take,Nat.min_eq_left late] at own
      exact own.symm
    have whole := (@marked_from after mark last early).append (Redacts.refl ((after.take length).drop last))
    rw [← split] at whole
    exact whole
  · cases found

private theorem shapePass_marks (pattern : List (Item UInt16)) : Marks (shapePass pattern) := by
  intro before after length new found
  obtain ⟨marks,_,same⟩ := Option.map_eq_some_iff.mp found
  cases same
  exact Redacts.whole _

private theorem extraPass_marks (pattern : Units → Units → Option Nat) : Marks (extraPass pattern) := by
  intro before after length new found
  obtain ⟨marks,_,same⟩ := Option.map_eq_some_iff.mp found
  cases same
  exact Redacts.whole _

theorem passes_marks (redactor : Redactor) : ∀ pass ∈ redactor.passes, Marks pass := by
  intro pass inside
  unfold Redactor.passes at inside
  rcases List.mem_append.mp inside with front | extra
  · rcases List.mem_append.mp front with named | shape
    · simp only [List.mem_cons,List.not_mem_nil,or_false] at named
      rcases named with rfl | rfl | rfl | rfl
      · exact credentialPass_marks _
      · exact credentialPass_marks _
      · exact credentialPass_marks _
      · exact userinfoPass_marks
    · obtain ⟨pattern,_,rfl⟩ := List.mem_map.mp shape
      exact shapePass_marks pattern
  · obtain ⟨pattern,_,rfl⟩ := List.mem_map.mp extra
    exact extraPass_marks pattern

variable {word : Units}

/-- What comes after rule 1 brings no word back that is apart from the mark. -/
private theorem passes_free (some' : word ≠ []) (apart : ∀ unit ∈ word, unit ∉ REDACTED) {passes : List Pass}
    (marks : ∀ pass ∈ passes, Marks pass) {text : Units}
    (inside : word <:+: passes.foldl (fun out pass => replaceAll pass [] out) text) : word <:+: text := by
  induction passes generalizing text with
  | nil => exact inside
  | cons pass passes ih =>
    have back := ih (fun other among => marks other (List.mem_cons_of_mem _ among)) inside
    have redacts := replaceAll_redacts (marks pass List.mem_cons_self) [] text
    exact redacts.infix_back some' apart (by decide) back

end Passes

section Forms

private theorem dedupe_mem (forms : List Units) (form : Units) : form ∈ dedupe forms ↔ form ∈ forms := by
  have general : ∀ held : List Units, form ∈ forms.foldl (fun held form => if form ∈ held then held else held ++ [form]) held ↔
      form ∈ held ∨ form ∈ forms := by
    induction forms with
    | nil => intro held; simp
    | cons first forms ih =>
      intro held
      rw [List.foldl_cons,ih,List.mem_cons]
      split
      next known =>
        constructor
        · rintro (own | later)
          · exact .inl own
          · exact .inr (.inr later)
        · rintro (own | rfl | later)
          · exact .inl own
          · exact .inl known
          · exact .inr later
      · rw [List.mem_append,List.mem_singleton,or_assoc]
  have own := general []
  rw [dedupe,own]
  simp

private theorem spelled_all {own : List Units} {spellings : List (List Units)} (all : own.mapM spellingsOf = some spellings)
    (form : Units) : (∃ list ∈ spellings, form ∈ list) ↔
      ∃ value ∈ own, ∃ list, spellingsOf value = some list ∧ form ∈ list := by
  induction own generalizing spellings with
  | nil =>
    cases all
    simp
  | cons value own ih =>
    rw [List.mapM_cons] at all
    obtain ⟨first,spelled,rest⟩ := Option.bind_eq_some_iff.mp all
    obtain ⟨later,others,same⟩ := Option.bind_eq_some_iff.mp rest
    cases same
    have back := ih others
    constructor
    · rintro ⟨list,among,inside⟩
      rcases List.mem_cons.mp among with rfl | among
      · exact ⟨value,List.mem_cons_self,list,spelled,inside⟩
      · obtain ⟨other,own',lists⟩ := back.mp ⟨list,among,inside⟩
        exact ⟨other,List.mem_cons_of_mem _ own',lists⟩
    · rintro ⟨other,among,list,own',inside⟩
      rcases List.mem_cons.mp among with rfl | among
      · rw [spelled] at own'
        cases own'
        exact ⟨first,List.mem_cons_self,inside⟩
      · obtain ⟨list',among',inside'⟩ := back.mpr ⟨other,among,list,own',inside⟩
        exact ⟨list',List.mem_cons_of_mem _ among',inside'⟩

private theorem spelled_each {own : List Units} {spellings : List (List Units)} (all : own.mapM spellingsOf = some spellings) :
    ∀ value ∈ own, ∃ list, spellingsOf value = some list := by
  induction own generalizing spellings with
  | nil => exact fun _ none' => (nomatch none')
  | cons first own ih =>
    rw [List.mapM_cons] at all
    obtain ⟨list,spelled,rest⟩ := Option.bind_eq_some_iff.mp all
    obtain ⟨later,others,_⟩ := Option.bind_eq_some_iff.mp rest
    intro value inside
    rcases List.mem_cons.mp inside with rfl | among
    · exact ⟨list,spelled⟩
    · exact ih others value among

private theorem made_forms {values : List (Option Units)} {extraPatterns : List (Units → Units → Option Nat)}
    {redactor : Redactor} (made : makeRedactor values extraPatterns = some redactor) (form : Units) :
    form ∈ redactor.sorted ↔ ∃ value ∈ longValues values, ∃ spellings, spellingsOf value = some spellings ∧ form ∈ spellings := by
  obtain ⟨spellings,all,rfl⟩ := Option.map_eq_some_iff.mp made
  rw [List.mem_mergeSort,dedupe_mem,List.mem_flatten]
  exact spelled_all all form

private theorem ofText_some {text : Text} (some' : text ≠ []) : Utf16.ofText text ≠ [] := by
  obtain ⟨letter,rest,rfl⟩ := List.exists_cons_of_ne_nil some'
  intro none'
  have own := (List.append_eq_nil_iff.mp none').1
  unfold Utf16.unitsOf at own
  split at own
  · cases own
  · cases own

private theorem points_some {value : Units} (some' : value ≠ []) : Utf16.points value ≠ [] := by
  intro none'
  have back := Utf16.units_points value
  rw [none'] at back
  exact some' back.symm

private theorem quotedPoint_some (point : Utf16.Point) : quotedPoint point ≠ [] := by
  cases point with
  | lone unit => exact List.cons_ne_nil _ _
  | scalar letter =>
    unfold quotedPoint
    dsimp only
    iterate 8 (split; exact List.cons_ne_nil _ _)
    exact List.cons_ne_nil _ _

private theorem encoded_some {points : List Utf16.Point} (some' : points ≠ []) {url : Text}
    (encoded : encodeURIComponent points = some url) : url ≠ [] := by
  obtain ⟨point,rest,rfl⟩ := List.exists_cons_of_ne_nil some'
  cases point with
  | lone unit => cases encoded
  | scalar letter =>
    obtain ⟨later,_,rfl⟩ := Option.map_eq_some_iff.mp encoded
    intro none'
    have own := (List.append_eq_nil_iff.mp none').1
    split at own
    · cases own
    · have size := String.length_utf8EncodeChar letter
      have positive := Char.utf8Size_pos letter
      cases shape : String.utf8EncodeChar letter with
      | nil =>
        rw [shape,List.length_nil] at size
        omega
      | cons byte bytes =>
        rw [shape] at own
        cases own

private theorem lowerEscapes_some {text : Text} (some' : text ≠ []) : lowerEscapes text ≠ [] := by
  rw [lowerEscapes.eq_def]
  split
  · split
    · exact List.cons_ne_nil _ _
    · exact List.cons_ne_nil _ _
  · exact List.cons_ne_nil _ _
  · exact some'

private theorem spellings_some {value : Units} {spellings : List Units} (long : MIN_SECRET_LENGTH ≤ value.length)
    (spelled : spellingsOf value = some spellings) : ∀ spelling ∈ spellings, spelling ≠ [] := by
  have some' : value ≠ [] := fun none' => by
    rw [none'] at long
    cases long
  obtain ⟨url,encoded,rfl⟩ := Option.map_eq_some_iff.mp spelled
  have points := points_some some'
  have encoded := encoded_some points encoded
  intro spelling inside
  simp only [List.mem_cons,List.not_mem_nil,or_false] at inside
  rcases inside with rfl | rfl | rfl | rfl
  · exact some'
  · obtain ⟨point,rest,shape⟩ := List.exists_cons_of_ne_nil points
    refine ofText_some fun none' => ?_
    rw [shape,List.flatMap_cons] at none'
    exact quotedPoint_some point (List.append_eq_nil_iff.mp none').1
  · exact ofText_some encoded
  · exact ofText_some (lowerEscapes_some encoded)

end Forms

/-- No secret survives whole: of every value above the floor the redacted text has none of its spellings, where none has a
unit in common with the mark; and rule 1 finds nothing more, in its own result or in the whole. -/
theorem secrets_redacted {values : List (Option Units)} {extraPatterns : List (Units → Units → Option Nat)}
    {redactor : Redactor} (made : makeRedactor values extraPatterns = some redactor)
    (apart : ∀ value ∈ longValues values, ∀ spellings, spellingsOf value = some spellings →
      ∀ spelling ∈ spellings, ∀ unit ∈ spelling, unit ∉ REDACTED) (text : Units) :
    (∀ value ∈ longValues values, ∃ spellings, spellingsOf value = some spellings ∧
      ∀ spelling ∈ spellings, ¬spelling <:+: redactor.redact text) ∧
    redactor.literal (redactor.literal text) = redactor.literal text ∧
    redactor.literal (redactor.redact text) = redactor.redact text := by
  have filled : ∀ form ∈ redactor.sorted, form ≠ [] := by
    intro form inside
    obtain ⟨value,among,spellings,spelled,own⟩ := (made_forms made form).mp inside
    exact spellings_some (of_decide_eq_true (List.mem_filter.mp among).2) spelled form own
  have apart' : ∀ form ∈ redactor.sorted, ∀ unit ∈ form, unit ∉ REDACTED := by
    intro form inside
    obtain ⟨value,among,spellings,spelled,own⟩ := (made_forms made form).mp inside
    exact apart value among spellings spelled form own
  have free : ∀ text, ∀ form ∈ redactor.sorted, ¬form <:+: redactor.literal text := by
    intro text form among
    unfold Redactor.literal
    split
    next none' =>
      rw [none'] at among
      cases among
    · exact replaceAll_free filled among (apart' form among) (by decide) [] text
  have gone : ∀ form ∈ redactor.sorted, ¬form <:+: redactor.redact text := fun form among inside =>
    free text form among (passes_free (filled form among) (apart' form among) (passes_marks redactor) inside)
  have same : ∀ text, (∀ form ∈ redactor.sorted, ¬form <:+: text) → redactor.literal text = text := by
    intro text none'
    unfold Redactor.literal
    split
    · rfl
    · exact replaceAll_same [] text none'
  refine ⟨fun value among => ?_,same _ (free text),same _ gone⟩
  obtain ⟨spellings,all,_⟩ := Option.map_eq_some_iff.mp made
  obtain ⟨list,spelled⟩ := spelled_each all value among
  exact ⟨list,spelled,fun spelling own => gone spelling ((made_forms made spelling).mpr ⟨value,among,list,spelled,own⟩)⟩

/-- A text with a value in it, as it is and percent-encoded in lower case, keeps neither. -/
theorem secrets_redacted_two : ∃ redactor, makeRedactor [some (Utf16.spell "HUSH-HUSH+1")] [] = some redactor ∧
    ¬Utf16.spell "HUSH-HUSH%2b1" <:+: redactor.redact (Utf16.spell "x HUSH-HUSH%2b1 y HUSH-HUSH+1") := by
  have spelled : spellingsOf (Utf16.spell "HUSH-HUSH+1") = some [Utf16.spell "HUSH-HUSH+1",Utf16.spell "HUSH-HUSH+1",
      Utf16.spell "HUSH-HUSH%2B1",Utf16.spell "HUSH-HUSH%2b1"] := by decide +kernel
  have long : longValues [some (Utf16.spell "HUSH-HUSH+1")] = [Utf16.spell "HUSH-HUSH+1"] := by decide +kernel
  have apart : ∀ spelling ∈ [Utf16.spell "HUSH-HUSH+1",Utf16.spell "HUSH-HUSH+1",Utf16.spell "HUSH-HUSH%2B1",
      Utf16.spell "HUSH-HUSH%2b1"], ∀ unit ∈ spelling, unit ∉ REDACTED := by
    have each : ([Utf16.spell "HUSH-HUSH+1",Utf16.spell "HUSH-HUSH+1",Utf16.spell "HUSH-HUSH%2B1",
        Utf16.spell "HUSH-HUSH%2b1"].all fun spelling => spelling.all fun unit => !REDACTED.elem unit) = true := by decide +kernel
    intro spelling among unit inside
    have own := List.all_eq_true.mp (List.all_eq_true.mp each spelling among) unit inside
    intro among'
    rw [List.elem_iff.mpr among'] at own
    cases own
  obtain ⟨redactor,made⟩ : ∃ redactor, makeRedactor [some (Utf16.spell "HUSH-HUSH+1")] [] = some redactor := by
    unfold makeRedactor
    rw [long,List.mapM_cons,spelled]
    exact ⟨_,rfl⟩
  obtain ⟨gone,_,_⟩ := secrets_redacted made (fun value among spellings own => by
    rw [long,List.mem_singleton] at among
    rw [among,spelled] at own
    cases own
    exact apart) (Utf16.spell "x HUSH-HUSH%2b1 y HUSH-HUSH+1")
  obtain ⟨spellings,own,each⟩ := gone (Utf16.spell "HUSH-HUSH+1") (by rw [long]; exact List.mem_singleton.mpr rfl)
  rw [spelled] at own
  cases own
  exact ⟨redactor,made,each _ (by simp)⟩

end PiDispatch.RedactSecrets
