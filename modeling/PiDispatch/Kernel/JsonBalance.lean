import PiDispatch.Kernel.JsonRoundTrip

/-! How deep a place in a JSON text lies in arrays and objects. What is read as a document ends as deep as it begins, and
no part of an object's text does that ends before its last brace. -/
namespace PiDispatch.Kernel.JsonText
open Octets Utf16

inductive Mode
  | outside
  | inside
  | escaping
  deriving DecidableEq

/-- Where a reader stands: how deep, and whether within a string. -/
structure Standing where
  depth : Int
  mode : Mode
  deriving DecidableEq

def Standing.next (standing : Standing) (letter : Char) : Standing :=
  match standing.mode with
  | .escaping => ⟨standing.depth,.inside⟩
  | .inside => if letter = '\\' then ⟨standing.depth,.escaping⟩ else if letter = '"' then ⟨standing.depth,.outside⟩ else standing
  | .outside =>
    if letter = '"' then ⟨standing.depth,.inside⟩
    else if letter = '{' ∨ letter = '[' then ⟨standing.depth + 1,.outside⟩
    else if letter = '}' ∨ letter = ']' then ⟨standing.depth - 1,.outside⟩
    else standing

def Standing.along (standing : Standing) (text : Text) : Standing := text.foldl Standing.next standing

theorem along_append (standing : Standing) (first second : Text) :
    standing.along (first ++ second) = (standing.along first).along second := List.foldl_append

/-- A letter that changes no depth. -/
def isPlain (letter : Char) : Prop := letter ≠ '"' ∧ letter ≠ '{' ∧ letter ≠ '[' ∧ letter ≠ '}' ∧ letter ≠ ']'

instance (letter : Char) : Decidable (isPlain letter) := inferInstanceAs (Decidable (_ ∧ _))

theorem each_letter {text : Text} {holds : Char → Prop} [DecidablePred holds]
    (each : text.all (fun letter => decide (holds letter)) = true) : ∀ letter ∈ text, holds letter :=
  fun letter inside => of_decide_eq_true (List.all_eq_true.mp each letter inside)

theorem along_plain {text : Text} (plain : ∀ letter ∈ text, isPlain letter) (depth : Int) :
    Standing.along ⟨depth,.outside⟩ text = ⟨depth,.outside⟩ := by
  induction text with
  | nil => rfl
  | cons letter text ih =>
    obtain ⟨quote,brace,bracket,close,last⟩ := plain letter List.mem_cons_self
    have own : Standing.next ⟨depth,.outside⟩ letter = ⟨depth,.outside⟩ := by
      simp [Standing.next,quote,brace,bracket,close,last]
    change (Standing.next ⟨depth,.outside⟩ letter).along text = _
    rw [own]
    exact ih fun other member => plain other (List.mem_cons_of_mem _ member)

section Reading

private theorem digit_plain {letter : Char} (digit : letter.isDigit) : isPlain letter := by
  refine ⟨?_,?_,?_,?_,?_⟩
  all_goals
    rintro rfl
    cases digit

/-- A token that is read off the text's front, plain throughout. -/
private def Off (text : Text) (token : Text × Text) : Prop := text = token.1 ++ token.2 ∧ ∀ letter ∈ token.1, isPlain letter

private theorem digits_off {lead rest : Text} {token : Text × Text} (read : digitsAfter lead rest = some token)
    (plain : ∀ letter ∈ lead, isPlain letter) : Off (lead ++ rest) token := by
  unfold digitsAfter at read
  split at read
  · cases read
  · cases read
    refine ⟨by simp,?_⟩
    intro letter member
    rcases List.mem_append.mp member with own | digit
    · exact plain letter own
    · exact digit_plain (List.mem_takeWhile_imp digit)

private theorem integer_off {text : Text} {token : Text × Text} (read : integerPart text = some token) : Off text token := by
  cases text with
  | nil => cases read
  | cons letter rest =>
    unfold integerPart at read
    dsimp only at read
    split at read
    next zero =>
      cases read
      subst zero
      exact ⟨rfl,fun letter member => digit_plain (List.mem_singleton.mp member ▸ rfl)⟩
    split at read
    next digit =>
      cases read
      refine ⟨by simp,?_⟩
      intro other member
      rcases List.mem_cons.mp member with rfl | more
      · exact digit_plain digit
      · exact digit_plain (List.mem_takeWhile_imp more)
    · cases read

private theorem fraction_off {text : Text} {token : Text × Text} (read : fraction text = some token) : Off text token := by
  unfold fraction at read
  split at read
  · exact digits_off read fun letter member => by rw [List.mem_singleton.mp member]; decide
  · cases read
    exact ⟨rfl,fun _ none => absurd none List.not_mem_nil⟩

private theorem exponent_off {text : Text} {token : Text × Text} (read : exponent text = some token) : Off text token := by
  cases text with
  | nil =>
    cases read
    exact ⟨rfl,fun _ none => absurd none List.not_mem_nil⟩
  | cons letter rest =>
    unfold exponent at read
    dsimp only at read
    split at read
    next mark =>
      have plain : isPlain letter := by rcases mark with rfl | rfl <;> decide
      split at read
      · refine digits_off read fun other member => ?_
        rcases List.mem_pair.mp member with rfl | rfl
        · exact plain
        · decide
      · refine digits_off read fun other member => ?_
        rcases List.mem_pair.mp member with rfl | rfl
        · exact plain
        · decide
      · exact digits_off read fun other member => List.mem_singleton.mp member ▸ plain
    · cases read
      exact ⟨rfl,fun _ none => absurd none List.not_mem_nil⟩

private theorem number_off {text : Text} {token : Text × Text} (read : numberToken text = some token) : Off text token := by
  have whole : ∀ {text : Text} {token : Text × Text}, unsigned text = some token → Off text token := by
    intro text token read
    obtain ⟨first,one,rest⟩ := Option.bind_eq_some_iff.mp read
    obtain ⟨second,two,rest⟩ := Option.bind_eq_some_iff.mp rest
    obtain ⟨third,three,rest⟩ := Option.bind_eq_some_iff.mp rest
    cases rest
    obtain ⟨shape,plain⟩ := integer_off one
    obtain ⟨shape',plain'⟩ := fraction_off two
    obtain ⟨shape'',plain''⟩ := exponent_off three
    refine ⟨by rw [shape,shape',shape'']; simp,?_⟩
    intro letter member
    rcases List.mem_append.mp member with early | late
    · rcases List.mem_append.mp early with early | late
      · exact plain letter early
      · exact plain' letter late
    · exact plain'' letter late
  unfold numberToken at read
  split at read
  · obtain ⟨own,inner,same⟩ := Option.map_eq_some_iff.mp read
    obtain ⟨shape,plain⟩ := whole inner
    cases same
    refine ⟨by rw [shape]; rfl,?_⟩
    intro letter member
    rcases List.mem_cons.mp member with rfl | rest
    · decide
    · exact plain letter rest
  · exact whole read

private theorem hex_within {letter : Char} {number : Nat} (hex : hexValue letter = some number) (depth : Int) :
    Standing.next ⟨depth,.inside⟩ letter = ⟨depth,.inside⟩ := by
  have slash : letter ≠ '\\' := by
    rintro rfl
    cases hex
  have quote : letter ≠ '"' := by
    rintro rfl
    cases hex
  simp [Standing.next,slash,quote]

/-- A string's body is read to the quote that ends it. -/
private theorem string_off {text : Text} {read : Units × Text} (found : stringBody text = some read) :
    ∃ body, text = body ++ read.2 ∧ ∀ depth, Standing.along ⟨depth,.inside⟩ body = ⟨depth,.outside⟩ := by
  induction text using stringBody.induct generalizing read with
  | case1 => cases found
  | case2 first second third fourth rest ih =>
    rw [stringBody] at found
    obtain ⟨unit,hex,found⟩ := Option.bind_eq_some_iff.mp found
    obtain ⟨inner,own,same⟩ := Option.map_eq_some_iff.mp found
    obtain ⟨body,shape,ends⟩ := ih own
    cases same
    refine ⟨'\\' :: 'u' :: first :: second :: third :: fourth :: body,by rw [shape]; rfl,?_⟩
    intro depth
    unfold hexUnit at hex
    split at hex
    next one two three four =>
      change (((((Standing.mk depth .inside).next first).next second).next third).next fourth).along body = _
      rw [hex_within one,hex_within two,hex_within three,hex_within four]
      exact ends depth
    · cases hex
  | case3 letter rest apart ih =>
    rw [stringBody] at found
    · obtain ⟨unit,_,found⟩ := Option.bind_eq_some_iff.mp found
      obtain ⟨inner,own,same⟩ := Option.map_eq_some_iff.mp found
      obtain ⟨body,shape,ends⟩ := ih own
      cases same
      exact ⟨'\\' :: letter :: body,by rw [shape]; rfl,ends⟩
    · exact apart
  | case4 rest apart apart' =>
    rw [stringBody,if_pos rfl] at found
    · cases found
      exact ⟨['"'],rfl,fun depth => rfl⟩
    · exact apart
    · exact apart'
  | case5 letter rest apart apart' quote low =>
    rw [stringBody,if_neg quote,if_pos low] at found
    · cases found
    · exact apart
    · exact apart'
  | case6 letter rest apart apart' quote plain ih =>
    rw [stringBody,if_neg quote,if_neg plain] at found
    · obtain ⟨inner,own,same⟩ := Option.map_eq_some_iff.mp found
      obtain ⟨body,shape,ends⟩ := ih own
      cases same
      refine ⟨letter :: body,by rw [shape]; rfl,?_⟩
      intro depth
      have slash : letter ≠ '\\' := fun slash => plain (.inl slash)
      have stays : Standing.next ⟨depth,.inside⟩ letter = ⟨depth,.inside⟩ := by simp [Standing.next,slash,quote]
      change (Standing.next ⟨depth,.inside⟩ letter).along body = _
      rw [stays]
      exact ends depth
    · exact apart
    · exact apart'

/-- What was read of the text changes the depth by so much. -/
private def Moves (change : Int) (text rest : Text) : Prop :=
  ∃ body, text = body ++ rest ∧ ∀ depth, Standing.along ⟨depth,.outside⟩ body = ⟨depth + change,.outside⟩

private theorem Moves.trans {first second : Int} {text middle rest : Text} (one : Moves first text middle)
    (two : Moves second middle rest) : Moves (first + second) text rest := by
  obtain ⟨body,rfl,moved⟩ := one
  obtain ⟨other,rfl,moved'⟩ := two
  refine ⟨body ++ other,(List.append_assoc _ _ _).symm,?_⟩
  intro depth
  rw [along_append,moved,moved',add_assoc]

private theorem moves_letter {letter : Char} {change : Int} (rest : Text)
    (moved : ∀ depth, Standing.next ⟨depth,.outside⟩ letter = ⟨depth + change,.outside⟩) : Moves change (letter :: rest) rest :=
  ⟨[letter],rfl,moved⟩

private theorem moves_off {text : Text} {token : Text × Text} (off : Off text token) : Moves 0 text token.2 :=
  ⟨token.1,off.1,fun depth => by rw [along_plain off.2,add_zero]⟩

private theorem moves_plain {letter : Char} (plain : isPlain letter) (rest : Text) : Moves 0 (letter :: rest) rest :=
  ⟨[letter],rfl,fun depth => by rw [along_plain fun other member => List.mem_singleton.mp member ▸ plain,add_zero]⟩

private theorem moves_skip (text : Text) : Moves 0 text (skip text) := by
  induction text with
  | nil => exact ⟨[],rfl,fun depth => by rw [add_zero]; rfl⟩
  | cons letter text ih =>
    rw [skip]
    split
    next space =>
      have plain : isPlain letter := by
        unfold isSpace at space
        simp only [Bool.or_eq_true,decide_eq_true_eq] at space
        rcases space with ((rfl | rfl) | rfl) | rfl <;> decide
      exact (moves_plain plain text).trans ih
    · exact ⟨[],rfl,fun depth => by rw [add_zero]; rfl⟩

private theorem moves_string {rest : Text} {read : Units × Text} (found : stringBody rest = some read) :
    Moves 0 ('"' :: rest) read.2 := by
  obtain ⟨body,shape,ends⟩ := string_off found
  refine ⟨'"' :: body,by rw [shape]; rfl,?_⟩
  intro depth
  rw [add_zero]
  exact ends depth

private theorem moves_word {word text rest : Text} (plain : ∀ letter ∈ word, isPlain letter)
    (found : after? word text = some rest) : Moves 0 text rest := by
  unfold after? at found
  split at found
  next leads =>
    obtain ⟨tail,shape⟩ := List.isPrefixOf_iff_prefix.mp leads
    cases found
    rw [← shape,List.drop_left]
    exact ⟨word,rfl,fun depth => by rw [along_plain plain,add_zero]⟩
  · cases found

private theorem opens_brace (depth : Int) : Standing.next ⟨depth,.outside⟩ '{' = ⟨depth + 1,.outside⟩ := rfl
private theorem opens_bracket (depth : Int) : Standing.next ⟨depth,.outside⟩ '[' = ⟨depth + 1,.outside⟩ := rfl
private theorem closes_brace (depth : Int) : Standing.next ⟨depth,.outside⟩ '}' = ⟨depth + -1,.outside⟩ := rfl
private theorem closes_bracket (depth : Int) : Standing.next ⟨depth,.outside⟩ ']' = ⟨depth + -1,.outside⟩ := rfl
private theorem next_comma (depth : Int) : Standing.next ⟨depth,.outside⟩ ',' = ⟨depth + 0,.outside⟩ := by
  rw [add_zero]
  rfl
private theorem next_colon (depth : Int) : Standing.next ⟨depth,.outside⟩ ':' = ⟨depth + 0,.outside⟩ := by
  rw [add_zero]
  rfl

variable (numbers : Numbers)

/-- What the three scans leave of a text: a document ends where it began, the rest of a list or an object one level up. -/
private def Balanced (fuel : Nat) : Prop :=
  (∀ text read, value numbers fuel text = some read → Moves 0 text read.2) ∧
  (∀ text read, items numbers fuel text = some read → Moves (-1) text read.2) ∧
  ∀ text read, members numbers fuel text = some read → Moves (-1) text read.2

private theorem value_balanced {fuel : Nat} (balanced : Balanced numbers fuel) {text : Text}
    {read : JsonValue numbers.Value × Text} (found : value numbers (fuel + 1) text = some read) : Moves 0 text read.2 := by
  have led := moves_skip text
  rw [value] at found
  split at found
  · cases found
  next letter rest skipped =>
    rw [skipped] at led
    rw [← zero_add (0 : Int)]
    refine led.trans ?_
    split at found
    next quote =>
      subst quote
      obtain ⟨own,inner,same⟩ := Option.map_eq_some_iff.mp found
      cases same
      exact moves_string inner
    split at found
    next bracket =>
      subst bracket
      have open' := moves_letter rest opens_bracket
      have space := moves_skip rest
      rw [show (0 : Int) = 1 + (0 + -1) by decide]
      refine open'.trans ?_
      split at found
      next closed =>
        cases found
        rw [closed] at space
        exact space.trans (moves_letter _ closes_bracket)
      · obtain ⟨own,inner,same⟩ := Option.map_eq_some_iff.mp found
        cases same
        exact space.trans (balanced.2.1 _ _ inner)
    split at found
    next brace =>
      subst brace
      have open' := moves_letter rest opens_brace
      have space := moves_skip rest
      rw [show (0 : Int) = 1 + (0 + -1) by decide]
      refine open'.trans ?_
      split at found
      next closed =>
        cases found
        rw [closed] at space
        exact space.trans (moves_letter _ closes_brace)
      · obtain ⟨own,inner,same⟩ := Option.map_eq_some_iff.mp found
        cases same
        exact space.trans (balanced.2.2 _ _ inner)
    split at found
    next word =>
      subst word
      obtain ⟨own,inner,same⟩ := Option.map_eq_some_iff.mp found
      cases same
      rw [← zero_add (0 : Int)]
      exact (moves_plain (by decide) rest).trans (moves_word (each_letter (by decide)) inner)
    split at found
    next word =>
      subst word
      obtain ⟨own,inner,same⟩ := Option.map_eq_some_iff.mp found
      cases same
      rw [← zero_add (0 : Int)]
      exact (moves_plain (by decide) rest).trans (moves_word (each_letter (by decide)) inner)
    split at found
    next word =>
      subst word
      obtain ⟨own,inner,same⟩ := Option.map_eq_some_iff.mp found
      cases same
      rw [← zero_add (0 : Int)]
      exact (moves_plain (by decide) rest).trans (moves_word (each_letter (by decide)) inner)
    · obtain ⟨own,inner,same⟩ := Option.map_eq_some_iff.mp found
      cases same
      exact moves_off (number_off inner)

private theorem items_balanced {fuel : Nat} (balanced : Balanced numbers fuel) {text : Text}
    {read : List (JsonValue numbers.Value) × Text} (found : items numbers (fuel + 1) text = some read) :
    Moves (-1) text read.2 := by
  rw [items] at found
  obtain ⟨item,first,found⟩ := Option.bind_eq_some_iff.mp found
  have own := balanced.1 _ _ first
  have space := moves_skip item.2
  split at found
  next rest comma =>
    obtain ⟨later,inner,same⟩ := Option.map_eq_some_iff.mp found
    cases same
    rw [comma] at space
    have more := balanced.2.1 _ _ inner
    exact own.trans (space.trans ((moves_letter _ next_comma).trans more))
  next rest closed =>
    cases found
    rw [closed] at space
    exact own.trans (space.trans (moves_letter _ closes_bracket))
  · cases found

private theorem members_balanced {fuel : Nat} (balanced : Balanced numbers fuel) {text : Text}
    {read : List (Units × JsonValue numbers.Value) × Text} (found : members numbers (fuel + 1) text = some read) :
    Moves (-1) text read.2 := by
  rw [members] at found
  have led := moves_skip text
  split at found
  next rest quote =>
    rw [quote] at led
    obtain ⟨key,text,found⟩ := Option.bind_eq_some_iff.mp found
    have name := moves_string text
    have space := moves_skip key.2
    split at found
    next after colon =>
      rw [colon] at space
      obtain ⟨item,first,found⟩ := Option.bind_eq_some_iff.mp found
      have own := balanced.1 _ _ first
      have space' := moves_skip item.2
      have front := led.trans (name.trans (space.trans ((moves_letter _ next_colon).trans own)))
      split at found
      next rest comma =>
        obtain ⟨later,inner,same⟩ := Option.map_eq_some_iff.mp found
        cases same
        rw [comma] at space'
        have more := balanced.2.2 _ _ inner
        exact front.trans (space'.trans ((moves_letter _ next_comma).trans more))
      next rest closed =>
        cases found
        rw [closed] at space'
        exact front.trans (space'.trans (moves_letter _ closes_brace))
      · cases found
    · cases found
  · cases found

private theorem balanced_scan (fuel : Nat) : Balanced numbers fuel := by
  induction fuel with
  | zero =>
    refine ⟨?_,?_,?_⟩
    · intro text read found
      cases found
    · intro text read found
      cases found
    · intro text read found
      cases found
  | succ fuel ih =>
    exact ⟨fun _ _ => value_balanced numbers ih,fun _ _ => items_balanced numbers ih,fun _ _ => members_balanced numbers ih⟩

/-- A text that is read as a document ends as deep as it begins. -/
theorem parse_balanced {text : Text} {document : JsonValue numbers.Value} (read : parse numbers text = some document)
    (depth : Int) : Standing.along ⟨depth,.outside⟩ text = ⟨depth,.outside⟩ := by
  obtain ⟨own,found,rest⟩ := Option.bind_eq_some_iff.mp read
  split at rest
  next nothing =>
    have space := moves_skip own.2
    rw [nothing] at space
    obtain ⟨body,shape,moved⟩ := ((balanced_scan numbers _).1 _ _ found).trans space
    rw [shape,List.append_nil,moved,add_zero,add_zero]
  · cases rest

end Reading

section Writing
variable {numbers : Numbers}

/-- A text no part of which ends above its start, and which ends where it starts. -/
private def Level (text : Text) : Prop :=
  (∀ depth, Standing.along ⟨depth,.outside⟩ text = ⟨depth,.outside⟩) ∧
    ∀ depth count, depth ≤ (Standing.along ⟨depth,.outside⟩ (text.take count)).depth

private theorem Level.append {first second : Text} (one : Level first) (two : Level second) : Level (first ++ second) := by
  constructor
  · intro depth
    rw [along_append,one.1,two.1]
  · intro depth count
    rw [List.take_append,along_append]
    rcases Nat.le_total count first.length with short | long
    · rw [Nat.sub_eq_zero_of_le short,List.take_zero]
      exact one.2 depth count
    · rw [List.take_of_length_le long,one.1]
      exact two.2 depth _

private theorem level_plain {text : Text} (plain : ∀ letter ∈ text, isPlain letter) : Level text := by
  refine ⟨along_plain plain,fun depth count => ?_⟩
  rw [along_plain fun letter member => plain letter (List.mem_of_mem_take member)]

/-- A part of a string: nothing in it changes the depth. -/
private def Within (text : Text) : Prop :=
  (∀ depth, Standing.along ⟨depth,.inside⟩ text = ⟨depth,.inside⟩) ∧
    ∀ depth count, (Standing.along ⟨depth,.inside⟩ (text.take count)).depth = depth

private theorem Within.append {first second : Text} (one : Within first) (two : Within second) : Within (first ++ second) := by
  constructor
  · intro depth
    rw [along_append,one.1,two.1]
  · intro depth count
    rw [List.take_append,along_append]
    rcases Nat.le_total count first.length with short | long
    · rw [Nat.sub_eq_zero_of_le short,List.take_zero]
      exact one.2 depth count
    · rw [List.take_of_length_le long,one.1]
      exact two.2 depth _

private theorem within_letter {letter : Char} (quote : letter ≠ '"') (slash : letter ≠ '\\') : Within [letter] := by
  have own : ∀ depth, Standing.next ⟨depth,.inside⟩ letter = ⟨depth,.inside⟩ := fun depth => by
    simp [Standing.next,quote,slash]
  refine ⟨own,fun depth count => ?_⟩
  cases count with
  | zero => rfl
  | succ count =>
    rw [List.take_of_length_le (Nat.succ_le_succ (Nat.zero_le count))]
    exact congrArg Standing.depth (own depth)

private theorem within_escape (letter : Char) : Within ['\\',letter] := by
  refine ⟨fun depth => rfl,fun depth count => ?_⟩
  match count with
  | 0 | 1 => rfl
  | count + 2 =>
    rw [List.take_of_length_le (Nat.le_add_left 2 count)]
    rfl

private theorem within_all {text : Text} (quote : '"' ∉ text) (slash : '\\' ∉ text) : Within text := by
  induction text with
  | nil => exact ⟨fun depth => rfl,fun depth count => by rw [List.take_nil]; rfl⟩
  | cons letter text ih =>
    rw [List.mem_cons,not_or] at quote slash
    exact (within_letter (Ne.symm quote.1) (Ne.symm slash.1)).append (ih quote.2 slash.2)

private theorem digitChar_apart : ∀ digit < 16, Nat.digitChar digit ≠ '"' ∧ Nat.digitChar digit ≠ '\\' := by decide

private theorem within_escaped {number : Nat} (unit : number < 65536) : Within (escaped number) := by
  refine (within_escape 'u').append (within_all ?_ ?_)
  · simp only [List.mem_cons,List.not_mem_nil,or_false,not_or]
    exact ⟨(digitChar_apart _ (by omega)).1.symm,(digitChar_apart _ (by omega)).1.symm,(digitChar_apart _ (by omega)).1.symm,
      (digitChar_apart _ (by omega)).1.symm⟩
  · simp only [List.mem_cons,List.not_mem_nil,or_false,not_or]
    exact ⟨(digitChar_apart _ (by omega)).2.symm,(digitChar_apart _ (by omega)).2.symm,(digitChar_apart _ (by omega)).2.symm,
      (digitChar_apart _ (by omega)).2.symm⟩

private theorem within_point (point : Point) : Within (quotedPoint point) := by
  cases point with
  | lone unit => exact within_escaped unit.toNat_lt
  | scalar letter =>
    unfold quotedPoint
    dsimp only
    split
    · exact within_escape _
    split
    · exact within_escape _
    split
    · exact within_escape _
    split
    · exact within_escape _
    split
    · exact within_escape _
    split
    · exact within_escape _
    split
    · exact within_escape _
    split
    next low => exact within_escaped (by omega)
    next quote slash _ _ _ _ _ _ => exact within_letter quote slash

private theorem level_quoted (text : Units) : Level (quoted text) := by
  have body : Within ((points text).flatMap quotedPoint) := by
    induction points text with
    | nil => exact within_all List.not_mem_nil List.not_mem_nil
    | cons point rest ih =>
      rw [List.flatMap_cons]
      exact (within_point point).append ih
  constructor
  · intro depth
    change Standing.along ⟨depth,.inside⟩ (_ ++ ['"']) = _
    rw [along_append,body.1]
    rfl
  · intro depth count
    cases count with
    | zero => exact le_rfl
    | succ count =>
      change depth ≤ (Standing.along ⟨depth,.inside⟩ ((_ ++ ['"']).take count)).depth
      rw [List.take_append,along_append]
      rcases Nat.le_total count ((points text).flatMap quotedPoint).length with short | long
      · rw [Nat.sub_eq_zero_of_le short,List.take_zero]
        exact (body.2 depth count).ge
      · rw [List.take_of_length_le long,body.1]
        cases count - ((points text).flatMap quotedPoint).length with
        | zero => exact le_refl depth
        | succ more =>
          rw [List.take_of_length_le (Nat.succ_le_succ (Nat.zero_le more))]
          exact le_refl depth

/-- Between its brackets a text lies one level deeper. -/
private theorem level_enclosed {first last : Char} {text : Text} (opens : first = '{' ∧ last = '}' ∨ first = '[' ∧ last = ']')
    (level : Level text) : Level (first :: (text ++ [last])) ∧
      ∀ depth count, 0 < count → count < (first :: (text ++ [last])).length →
        depth < (Standing.along ⟨depth,.outside⟩ ((first :: (text ++ [last])).take count)).depth := by
  have start : ∀ depth, Standing.next ⟨depth,.outside⟩ first = ⟨depth + 1,.outside⟩ := by
    rcases opens with ⟨rfl,_⟩ | ⟨rfl,_⟩ <;> exact fun depth => rfl
  have stop : ∀ depth, Standing.next ⟨depth + 1,.outside⟩ last = ⟨depth,.outside⟩ := by
    rcases opens with ⟨_,rfl⟩ | ⟨_,rfl⟩ <;> exact fun depth => congrArg (Standing.mk · .outside) (add_sub_cancel_right depth 1)
  have whole : ∀ depth, Standing.along ⟨depth,.outside⟩ (first :: (text ++ [last])) = ⟨depth,.outside⟩ := by
    intro depth
    change (Standing.next ⟨depth,.outside⟩ first).along (text ++ [last]) = _
    rw [start,along_append,level.1]
    exact stop depth
  have deeper : ∀ depth count, 0 < count → count < (first :: (text ++ [last])).length →
      depth < (Standing.along ⟨depth,.outside⟩ ((first :: (text ++ [last])).take count)).depth := by
    intro depth count positive less
    obtain ⟨count,rfl⟩ : ∃ before, count = before + 1 := ⟨count - 1,by omega⟩
    have short : count ≤ text.length := by
      simp only [List.length_cons,List.length_append,List.length_nil] at less
      omega
    rw [List.take_succ_cons,List.take_append_of_le_length short]
    change depth < ((Standing.next ⟨depth,.outside⟩ first).along (text.take count)).depth
    rw [start]
    have inner := level.2 (depth + 1) count
    omega
  refine ⟨⟨whole,?_⟩,deeper⟩
  intro depth count
  rcases Nat.eq_zero_or_pos count with rfl | positive
  · exact le_rfl
  rcases Nat.lt_or_ge count (first :: (text ++ [last])).length with less | all
  · exact (deeper depth count positive less).le
  · rw [List.take_of_length_le all,whole]

private theorem decimal_plain (number : Nat) : ∀ letter ∈ decimal number, isPlain letter := by
  intro letter member
  exact digit_plain (Nat.isDigit_of_mem_toDigits (by decide) (by decide) member)

private theorem level_letter {letter : Char} (plain : isPlain letter) : Level [letter] :=
  level_plain fun _ member => List.mem_singleton.mp member ▸ plain

private theorem items_level {list : List (JsonValue numbers.Value)} (each : ∀ item ∈ list, Level (stringify numbers item)) :
    Level (stringifyItems numbers list) := by
  induction list with
  | nil =>
    rw [stringifyItems]
    exact level_plain fun _ none => absurd none List.not_mem_nil
  | cons item list ih =>
    have own := each item List.mem_cons_self
    cases list with
    | nil => rwa [stringifyItems]
    | cons next list =>
      have later := ih fun item inside => each item (List.mem_cons_of_mem _ inside)
      rw [stringifyItems]
      · exact own.append ((level_letter (show isPlain ',' by decide)).append later)
      · exact List.cons_ne_nil _ _

private theorem members_level {list : List (Units × JsonValue numbers.Value)}
    (each : ∀ member ∈ list, Level (stringify numbers member.2)) : Level (stringifyMembers numbers list) := by
  induction list with
  | nil =>
    rw [stringifyMembers]
    exact level_plain fun _ none => absurd none List.not_mem_nil
  | cons member list ih =>
    have own : Level (stringifyMember numbers member) := by
      obtain ⟨key,item⟩ := member
      rw [stringifyMember]
      exact (level_quoted key).append ((level_letter (show isPlain ':' by decide)).append (each _ List.mem_cons_self))
    cases list with
    | nil => rwa [stringifyMembers]
    | cons next list =>
      have later := ih fun member inside => each member (List.mem_cons_of_mem _ inside)
      rw [stringifyMembers]
      · exact own.append ((level_letter (show isPlain ',' by decide)).append later)
      · exact List.cons_ne_nil _ _

private theorem written_level {item : JsonValue numbers.Value} (written : Written numbers item) :
    Level (stringify numbers item) := by
  induction written with
  | null =>
    rw [stringify]
    exact level_plain (each_letter (by decide))
  | bool value =>
    cases value <;> (rw [stringify]; exact level_plain (each_letter (by decide)))
  | string text =>
    rw [stringify]
    exact level_quoted text
  | number number written =>
    rw [stringify,written]
    exact level_plain (decimal_plain number)
  | array items each ih =>
    rw [stringify]
    exact (level_enclosed (.inr ⟨rfl,rfl⟩) (items_level ih)).1
  | object members each plain distinct ih =>
    rw [stringify]
    exact (level_enclosed (.inl ⟨rfl,rfl⟩) (members_level ih)).1

/-- A replacement for what is broken off changes no depth. -/
private theorem broken_depth (standing : Standing) {broken : Text} (plain : ∀ letter ∈ broken, isPlain letter ∧ letter ≠ '\\') :
    (standing.along broken).depth = standing.depth := by
  induction broken generalizing standing with
  | nil => rfl
  | cons letter broken ih =>
    obtain ⟨⟨quote,brace,bracket,close,last⟩,slash⟩ := plain letter List.mem_cons_self
    have own : (standing.next letter).depth = standing.depth := by
      unfold Standing.next
      split <;> simp [quote,brace,bracket,close,last,slash]
    change ((standing.next letter).along broken).depth = _
    rw [ih _ fun other member => plain other (List.mem_cons_of_mem _ member),own]

/-- An object's text, cut short anywhere, is no document, whatever letters are put for the part that broke off. -/
theorem parse_torn {members : List (Units × JsonValue numbers.Value)} (written : ∀ member ∈ members, Written numbers member.2)
    {count : Nat} (some' : 0 < count) (torn : count < (stringify numbers (.object members)).length) {broken : Text}
    (plain : ∀ letter ∈ broken, isPlain letter ∧ letter ≠ '\\') :
    parse numbers ((stringify numbers (.object members)).take count ++ broken) = none := by
  have shape : stringify numbers (.object members) = '{' :: (stringifyMembers numbers members ++ ['}']) := by rw [stringify]
  rw [shape] at torn ⊢
  have deeper := (level_enclosed (.inl ⟨rfl,rfl⟩) (members_level fun member inside => written_level (written member inside))).2
    0 count some' torn
  by_contra document
  obtain ⟨document,read⟩ := Option.ne_none_iff_exists'.mp document
  have ends := parse_balanced numbers read 0
  rw [along_append] at ends
  have level := congrArg Standing.depth ends
  rw [broken_depth _ plain] at level
  dsimp only at level
  omega

end Writing

section Letters
variable {numbers : Numbers}

private theorem escaped_printed {number : Nat} (unit : number < 65536) : ∀ letter ∈ escaped number, 0x20 ≤ letter.toNat := by
  have digits : ∀ digit < 16, 0x20 ≤ (Nat.digitChar digit).toNat := by decide
  intro letter member
  simp only [escaped,List.mem_cons,List.not_mem_nil,or_false] at member
  rcases member with rfl | rfl | rfl | rfl | rfl | rfl
  · decide
  · decide
  all_goals exact digits _ (by omega)

private theorem point_printed (point : Point) : ∀ letter ∈ quotedPoint point, 0x20 ≤ letter.toNat := by
  cases point with
  | lone unit => exact escaped_printed unit.toNat_lt
  | scalar letter =>
    unfold quotedPoint
    dsimp only
    split
    · exact each_letter (by decide)
    split
    · exact each_letter (by decide)
    split
    · exact each_letter (by decide)
    split
    · exact each_letter (by decide)
    split
    · exact each_letter (by decide)
    split
    · exact each_letter (by decide)
    split
    · exact each_letter (by decide)
    split
    next low => exact escaped_printed (by omega)
    next printed =>
      intro other member
      rw [List.mem_singleton.mp member]
      omega

private theorem quoted_printed (text : Units) : ∀ letter ∈ quoted text, 0x20 ≤ letter.toNat := by
  intro letter member
  rcases List.mem_cons.mp member with rfl | rest
  · decide
  rcases List.mem_append.mp rest with body | last
  · obtain ⟨point,_,own⟩ := List.mem_flatMap.mp body
    exact point_printed point letter own
  · rw [List.mem_singleton.mp last]
    decide

private theorem items_printed {list : List (JsonValue numbers.Value)}
    (each : ∀ item ∈ list, ∀ letter ∈ stringify numbers item, 0x20 ≤ letter.toNat) :
    ∀ letter ∈ stringifyItems numbers list, 0x20 ≤ letter.toNat := by
  induction list with
  | nil =>
    intro letter member
    rw [stringifyItems] at member
    cases member
  | cons item list ih =>
    have own := each item List.mem_cons_self
    cases list with
    | nil => rwa [stringifyItems]
    | cons next list =>
      have later := ih fun item inside => each item (List.mem_cons_of_mem _ inside)
      intro letter member
      rw [stringifyItems] at member
      · rcases List.mem_append.mp member with first | rest
        · exact own letter first
        rcases List.mem_cons.mp rest with rfl | rest
        · decide
        · exact later letter rest
      · exact List.cons_ne_nil _ _

private theorem members_printed {list : List (Units × JsonValue numbers.Value)}
    (each : ∀ member ∈ list, ∀ letter ∈ stringify numbers member.2, 0x20 ≤ letter.toNat) :
    ∀ letter ∈ stringifyMembers numbers list, 0x20 ≤ letter.toNat := by
  induction list with
  | nil =>
    intro letter member
    rw [stringifyMembers] at member
    cases member
  | cons first list ih =>
    have own : ∀ letter ∈ stringifyMember numbers first, 0x20 ≤ letter.toNat := by
      obtain ⟨key,item⟩ := first
      intro letter member
      rw [stringifyMember] at member
      rcases List.mem_append.mp member with name | rest
      · exact quoted_printed key letter name
      rcases List.mem_cons.mp rest with rfl | rest
      · decide
      · exact each _ List.mem_cons_self letter rest
    cases list with
    | nil => rwa [stringifyMembers]
    | cons next list =>
      have later := ih fun member inside => each member (List.mem_cons_of_mem _ inside)
      intro letter member
      rw [stringifyMembers] at member
      · rcases List.mem_append.mp member with here | rest
        · exact own letter here
        rcases List.mem_cons.mp rest with rfl | rest
        · decide
        · exact later letter rest
      · exact List.cons_ne_nil _ _

/-- A document's text has no control letters, and so no line ends. -/
theorem written_printed {item : JsonValue numbers.Value} (written : Written numbers item) :
    ∀ letter ∈ stringify numbers item, 0x20 ≤ letter.toNat := by
  induction written with
  | null =>
    rw [stringify]
    exact each_letter (by decide)
  | bool value =>
    cases value <;> (rw [stringify]; exact each_letter (by decide))
  | string text =>
    rw [stringify]
    exact quoted_printed text
  | number number written =>
    rw [stringify,written]
    intro letter member
    have digit : letter.isDigit := Nat.isDigit_of_mem_toDigits (by decide) (by decide) member
    have range := UInt32.le_iff_toNat_le.mp (of_decide_eq_true (Bool.and_eq_true_iff.mp digit).1)
    exact le_trans (by decide) range
  | array items each ih =>
    rw [stringify]
    intro letter member
    rcases List.mem_cons.mp member with rfl | rest
    · decide
    rcases List.mem_append.mp rest with inner | last
    · exact items_printed ih letter inner
    · rw [List.mem_singleton.mp last]
      decide
  | object members each plain distinct ih =>
    rw [stringify]
    intro letter member
    rcases List.mem_cons.mp member with rfl | rest
    · decide
    rcases List.mem_append.mp rest with inner | last
    · exact members_printed ih letter inner
    · rw [List.mem_singleton.mp last]
      decide

theorem utf8_append (first second : Text) : utf8 (first ++ second) = utf8 first ++ utf8 second := List.flatMap_append

theorem utf8_ascii {text : Text} (ascii : ∀ letter ∈ text, letter.toNat < 0x80) : (utf8 text).length = text.length := by
  induction text with
  | nil => rfl
  | cons letter text ih =>
    have own : (String.utf8EncodeChar letter).length = 1 := by
      unfold String.utf8EncodeChar
      dsimp only
      have small := ascii letter List.mem_cons_self
      rw [if_pos (show letter.val.toNat ≤ 0x7f from Nat.le_of_lt_succ small)]
      rfl
    rw [utf8,List.flatMap_cons,List.length_append,own,List.length_cons]
    change 1 + (utf8 text).length = _
    rw [ih fun other member => ascii other (List.mem_cons_of_mem _ member)]
    omega

private theorem escaped_bytes {number : Nat} (unit : number < 65536) : (utf8 (escaped number)).length = 6 := by
  have digits : ∀ digit < 16, (Nat.digitChar digit).toNat < 0x80 := by decide
  refine utf8_ascii ?_
  intro letter member
  simp only [escaped,List.mem_cons,List.not_mem_nil,or_false] at member
  rcases member with rfl | rfl | rfl | rfl | rfl | rfl
  · decide
  · decide
  all_goals exact digits _ (by omega)

private theorem point_bytes (point : Point) : (utf8 (quotedPoint point)).length ≤ 6 := by
  cases point with
  | lone unit => exact (escaped_bytes unit.toNat_lt).le
  | scalar letter =>
    unfold quotedPoint
    dsimp only
    split
    · decide
    split
    · decide
    split
    · decide
    split
    · decide
    split
    · decide
    split
    · decide
    split
    · decide
    split
    next low => exact (escaped_bytes (by omega)).le
    · have four : (String.utf8EncodeChar letter).length ≤ 4 := by
        rw [String.length_utf8EncodeChar]
        exact Char.utf8Size_le_four letter
      simp only [utf8,List.flatMap_cons,List.flatMap_nil,List.append_nil]
      omega

/-- A string's bytes: six at most for each of its code points, and the quotes. -/
theorem quoted_bytes (text : Units) : (utf8 (quoted text)).length ≤ 6 * (points text).length + 2 := by
  have body : (utf8 ((points text).flatMap quotedPoint)).length ≤ 6 * (points text).length := by
    induction points text with
    | nil => exact Nat.zero_le _
    | cons point rest ih =>
      have own := point_bytes point
      rw [List.flatMap_cons,utf8_append,List.length_append,List.length_cons]
      omega
  have quote : (utf8 ['"']).length = 1 := by decide
  have shape : quoted text = ['"'] ++ ((points text).flatMap quotedPoint ++ ['"']) := rfl
  rw [shape,utf8_append,utf8_append,List.length_append,List.length_append,quote]
  omega

/-- The bytes of an object that has members: a comma or a brace for each of them, and one brace more. -/
theorem object_bytes_exact {members : List (Units × JsonValue numbers.Value)} (some' : members ≠ []) :
    (utf8 (stringify numbers (.object members))).length =
      (members.map fun member => (utf8 (stringifyMember numbers member)).length + 1).sum + 1 := by
  have comma : (utf8 [',']).length = 1 := by decide
  have opening : (utf8 ['{']).length = 1 := by decide
  have closing : (utf8 ['}']).length = 1 := by decide
  have inner : (utf8 (stringifyMembers numbers members)).length + 1 =
      (members.map fun member => (utf8 (stringifyMember numbers member)).length + 1).sum := by
    induction members with
    | nil => exact absurd rfl some'
    | cons member members ih =>
      rw [List.map_cons,List.sum_cons]
      cases members with
      | nil => rw [stringifyMembers,List.map_nil,List.sum_nil,Nat.add_zero]
      | cons next members =>
        have shape : stringifyMembers numbers (member :: next :: members) =
            stringifyMember numbers member ++ ([','] ++ stringifyMembers numbers (next :: members)) := by
          rw [stringifyMembers]
          · rfl
          · exact List.cons_ne_nil _ _
        have rest := ih (List.cons_ne_nil _ _)
        rw [shape,utf8_append,utf8_append,List.length_append,List.length_append,comma]
        omega
  have shape : stringify numbers (.object members) = ['{'] ++ (stringifyMembers numbers members ++ ['}']) := by
    rw [stringify]
    rfl
  rw [shape,utf8_append,utf8_append,List.length_append,List.length_append,opening,closing]
  omega

/-- An object's bytes: a comma or a brace for each of its members, and one brace more. -/
theorem object_bytes (members : List (Units × JsonValue numbers.Value)) :
    (utf8 (stringify numbers (.object members))).length ≤
      (members.map fun member => (utf8 (stringifyMember numbers member)).length + 1).sum + 2 := by
  cases members with
  | nil =>
    rw [stringify,stringifyMembers,List.map_nil]
    decide
  | cons member members =>
    rw [object_bytes_exact (List.cons_ne_nil member members)]
    omega

/-- An array's bytes: a comma or a bracket for each of its items, and one bracket more. -/
theorem array_bytes (list : List (JsonValue numbers.Value)) : (utf8 (stringify numbers (.array list))).length ≤
    (list.map fun item => (utf8 (stringify numbers item)).length + 1).sum + 2 := by
  have comma : (utf8 [',']).length = 1 := by decide
  have opening : (utf8 ['[']).length = 1 := by decide
  have closing : (utf8 [']']).length = 1 := by decide
  have inner : (utf8 (stringifyItems numbers list)).length ≤
      (list.map fun item => (utf8 (stringify numbers item)).length + 1).sum := by
    induction list with
    | nil =>
      rw [stringifyItems]
      exact Nat.zero_le _
    | cons item list ih =>
      rw [List.map_cons,List.sum_cons]
      cases list with
      | nil =>
        rw [stringifyItems]
        omega
      | cons next list =>
        have shape : stringifyItems numbers (item :: next :: list) =
            stringify numbers item ++ ([','] ++ stringifyItems numbers (next :: list)) := by
          rw [stringifyItems]
          · rfl
          · exact List.cons_ne_nil _ _
        rw [shape,utf8_append,utf8_append,List.length_append,List.length_append,comma]
        omega
  have shape : stringify numbers (.array list) = ['['] ++ (stringifyItems numbers list ++ [']']) := by
    rw [stringify]
    rfl
  rw [shape,utf8_append,utf8_append,List.length_append,List.length_append,opening,closing]
  omega

/-- A member's bytes: its key, a colon and its value. -/
theorem member_bytes (key : Units) (value : JsonValue numbers.Value) : (utf8 (stringifyMember numbers (key,value))).length =
    (utf8 (quoted key)).length + 1 + (utf8 (stringify numbers value)).length := by
  have colon : (utf8 [':']).length = 1 := by decide
  have shape : stringifyMember numbers (key,value) = quoted key ++ ([':'] ++ stringify numbers value) := by
    rw [stringifyMember]
    rfl
  rw [shape,utf8_append,utf8_append,List.length_append,List.length_append,colon,Nat.add_assoc]

/-- A string of plain letters is quoted as it is. -/
theorem quoted_plain {text : Text} (plain : ∀ letter ∈ text, 0x20 ≤ letter.toNat ∧ letter ≠ '"' ∧ letter ≠ '\\') :
    quoted (ofText text) = '"' :: (text ++ ['"']) := by
  unfold quoted
  rw [points_ofText]
  congr 2
  induction text with
  | nil => rfl
  | cons letter text ih =>
    obtain ⟨printed,quote,slash⟩ := plain letter List.mem_cons_self
    have apart : ∀ other : Char, other.toNat < 0x20 → letter ≠ other := by
      rintro other low rfl
      omega
    rw [List.map_cons,List.flatMap_cons,ih fun other inside => plain other (List.mem_cons_of_mem _ inside)]
    unfold quotedPoint
    dsimp only
    rw [if_neg quote,if_neg slash,if_neg (apart _ (by decide)),if_neg (apart _ (by decide)),if_neg (apart _ (by decide)),
      if_neg (apart _ (by decide)),if_neg (apart _ (by decide)),if_neg (by omega)]
    rfl

theorem quoted_plain_bytes {text : Text}
    (plain : ∀ letter ∈ text, 0x20 ≤ letter.toNat ∧ letter ≠ '"' ∧ letter ≠ '\\' ∧ letter.toNat < 0x80) :
    (utf8 (quoted (ofText text))).length = text.length + 2 := by
  rw [quoted_plain fun letter inside => ⟨(plain letter inside).1,(plain letter inside).2.1,(plain letter inside).2.2.1⟩,
    utf8_ascii]
  · simp
  · intro letter inside
    rcases List.mem_cons.mp inside with rfl | rest
    · decide
    · rcases List.mem_append.mp rest with own | last
      · exact (plain letter own).2.2.2
      · rw [List.mem_singleton.mp last]
        decide

end Letters

end PiDispatch.Kernel.JsonText
