import PiDispatch.Kernel.JsonText

/-! What `JSON.stringify` writes of a document whose numbers are safe integers, `JSON.parse` reads back. -/
namespace PiDispatch.Kernel.JsonText
open Octets Utf16

section Strings

private theorem hexUnit_escaped {number : Nat} (unit : number < 65536) :
    hexUnit (Nat.digitChar (number / 4096)) (Nat.digitChar (number / 256 % 16)) (Nat.digitChar (number / 16 % 16))
      (Nat.digitChar (number % 16)) = some (UInt16.ofNat number) := by
  unfold hexUnit
  rw [hexValue_digitChar _ (by omega),hexValue_digitChar _ (by omega),hexValue_digitChar _ (by omega),
    hexValue_digitChar _ (by omega)]
  dsimp only
  congr 2
  omega

private theorem stringBody_escaped {number : Nat} (unit : number < 65536) (rest : Text) :
    stringBody (escaped number ++ rest) = before [UInt16.ofNat number] (stringBody rest) := by
  simp only [escaped,List.cons_append,List.nil_append]
  rw [stringBody,hexUnit_escaped unit]
  rfl

private theorem stringBody_plain {letter : Char} (rest : Text) (quote : letter ≠ '"') (slash : letter ≠ '\\')
    (printed : ¬letter.toNat < 0x20) : stringBody (letter :: rest) = before (unitsOf letter) (stringBody rest) := by
  rw [stringBody.eq_def]
  split
  next none => cases none
  next same =>
    injection same with same _
    exact absurd same slash
  next same =>
    injection same with same _
    exact absurd same slash
  next same =>
    injection same with head tail
    subst head tail
    rw [if_neg quote,if_neg (by simp [slash,printed])]

private theorem unitsOf_low {letter : Char} (low : letter.toNat < 0x20) : unitsOf letter = [UInt16.ofNat letter.toNat] := by
  unfold unitsOf
  rw [if_pos (by omega)]

private theorem stringBody_point (point : Point) (rest : Text) :
    stringBody (quotedPoint point ++ rest) = before point.units (stringBody rest) := by
  cases point with
  | lone unit =>
    have below := unit.toNat_lt
    unfold quotedPoint
    dsimp only
    rw [stringBody_escaped (by omega)]
    congr 2
    apply UInt16.toNat_inj.mp
    simp
  | scalar letter =>
    unfold quotedPoint
    dsimp only
    split
    next same => subst same; rfl
    split
    next same => subst same; rfl
    split
    next same => subst same; rfl
    split
    next same => subst same; rfl
    split
    next same => subst same; rfl
    split
    next same => subst same; rfl
    split
    next same => subst same; rfl
    split
    next low =>
      rw [stringBody_escaped (by omega)]
      exact congrArg (before · _) (unitsOf_low low).symm
    next quote slash _ _ _ _ _ printed => exact stringBody_plain rest quote slash printed

private theorem stringBody_points (list : List Point) (rest : Text) :
    stringBody (list.flatMap quotedPoint ++ '"' :: rest) = some (list.flatMap Point.units,rest) := by
  induction list with
  | nil => rfl
  | cons point list ih =>
    rw [List.flatMap_cons,List.append_assoc,stringBody_point,ih]
    rfl

theorem stringBody_quoted (text : Units) (rest : Text) :
    stringBody ((points text).flatMap quotedPoint ++ '"' :: rest) = some (text,rest) := by
  rw [stringBody_points,units_points]

end Strings

section Digits

/-- What may stand after a value. -/
def Ends (rest : Text) : Prop := rest = [] ∨ ∃ letter tail, rest = letter :: tail ∧ (letter = ',' ∨ letter = '}' ∨ letter = ']')

theorem decimal_shape (number : Nat) :
    ∃ first more, decimal number = first :: more ∧ first.isDigit ∧ (∀ letter ∈ more, letter.isDigit) ∧
      (first = '0' → more = []) := by
  induction number using Nat.strongRecOn with
  | ind number ih =>
    unfold decimal at ih ⊢
    rw [Nat.toDigits_eq_if (by decide)]
    split
    next small =>
      refine ⟨Nat.digitChar number,[],rfl,?_,fun _ none => absurd none List.not_mem_nil,fun _ => rfl⟩
      rw [Nat.isDigit_digitChar]
      exact decide_eq_true small
    next large =>
      obtain ⟨first,more,shape,digit,digits,lead⟩ := ih (number / 10) (by omega)
      refine ⟨first,more ++ [Nat.digitChar (number % 10)],by rw [shape]; rfl,digit,?_,?_⟩
      · intro letter member
        rcases List.mem_append.mp member with old | new
        · exact digits letter old
        · rw [List.mem_singleton.mp new,Nat.isDigit_digitChar]
          exact decide_eq_true (Nat.mod_lt _ (by decide))
      · intro zero
        have none := lead zero
        subst zero none
        have positive : Nat.digitChar 0 = '0' := rfl
        have same := Nat.ofDigitChars_toDigits (b := 10) (n := number / 10) (by decide) (by decide)
        rw [shape] at same
        have value : Nat.ofDigitChars 10 ['0'] 0 = 0 := by decide
        omega

private theorem ends_digit {rest : Text} (ends : Ends rest) :
    rest.takeWhile Char.isDigit = [] ∧ rest.dropWhile Char.isDigit = rest := by
  rcases ends with rfl | ⟨letter,tail,rfl,rfl | rfl | rfl⟩ <;> exact ⟨rfl,rfl⟩

private theorem span_digits {digits : Text} (all : ∀ letter ∈ digits, letter.isDigit) {rest : Text} (ends : Ends rest) :
    (digits ++ rest).takeWhile Char.isDigit = digits ∧ (digits ++ rest).dropWhile Char.isDigit = rest := by
  obtain ⟨none,own⟩ := ends_digit ends
  rw [List.takeWhile_append_of_pos all,List.dropWhile_append_of_pos all,none,own,List.append_nil]
  exact ⟨rfl,rfl⟩

private theorem fraction_ends {rest : Text} (ends : Ends rest) : fraction rest = some ([],rest) := by
  rcases ends with rfl | ⟨letter,tail,rfl,rfl | rfl | rfl⟩ <;> rfl

private theorem exponent_ends {rest : Text} (ends : Ends rest) : exponent rest = some ([],rest) := by
  rcases ends with rfl | ⟨letter,tail,rfl,rfl | rfl | rfl⟩ <;> rfl

private theorem unsigned_decimal (number : Nat) {rest : Text} (ends : Ends rest) :
    unsigned (decimal number ++ rest) = some (decimal number,rest) := by
  obtain ⟨first,more,shape,digit,digits,lead⟩ := decimal_shape number
  have whole : integerPart (decimal number ++ rest) = some (decimal number,rest) := by
    rw [shape]
    unfold integerPart
    dsimp only [List.cons_append]
    split
    next zero =>
      have none := lead zero
      subst zero none
      rfl
    · rw [(span_digits digits ends).1,(span_digits digits ends).2]
  unfold unsigned
  rw [whole]
  simp only [Option.bind_some,fraction_ends ends,exponent_ends ends,List.append_nil]

private theorem numberToken_decimal (number : Nat) {rest : Text} (ends : Ends rest) :
    numberToken (decimal number ++ rest) = some (decimal number,rest) := by
  obtain ⟨first,more,shape,digit,-⟩ := decimal_shape number
  have token := unsigned_decimal number ends
  rw [shape] at token ⊢
  unfold numberToken
  split
  next same =>
    injection same with same _
    subst same
    cases digit
  · exact token

end Digits

section Documents
variable (numbers : Numbers)

/-- Whole numbers that are written in decimal and read back, and keys that are distinct and no array indices. -/
inductive Written : JsonValue numbers.Value → Prop
  | null : Written .null
  | bool (value : Bool) : Written (.bool value)
  | string (text : Units) : Written (.string text)
  | number (number : Nat) (written : numbers.write (numbers.ofNat number) = decimal number)
      (back : numbers.read (decimal number) = numbers.ofNat number) : Written (.number (numbers.ofNat number))
  | array (items : List (JsonValue numbers.Value)) (each : ∀ item ∈ items, Written item) : Written (.array items)
  | object (members : List (Units × JsonValue numbers.Value)) (each : ∀ member ∈ members, Written member.2)
      (plain : ∀ member ∈ members, JsonValue.index? member.1 = none) (distinct : (members.map Prod.fst).Nodup) :
      Written (.object members)

/-- A number whose text is one token, beginning with a digit, that stands for it. -/
structure Token (value : numbers.Value) : Prop where
  opens : ∃ first more, numbers.write value = first :: more ∧ first.isDigit
  whole : ∀ rest, Ends rest → numberToken (numbers.write value ++ rest) = some (numbers.write value,rest)
  back : numbers.read (numbers.write value) = value

/-- A document of such numbers, its keys distinct and no array indices. -/
inductive Legible : JsonValue numbers.Value → Prop
  | null : Legible .null
  | bool (value : Bool) : Legible (.bool value)
  | string (text : Units) : Legible (.string text)
  | number (value : numbers.Value) (token : Token numbers value) : Legible (.number value)
  | array (items : List (JsonValue numbers.Value)) (each : ∀ item ∈ items, Legible item) : Legible (.array items)
  | object (members : List (Units × JsonValue numbers.Value)) (each : ∀ member ∈ members, Legible member.2)
      (plain : ∀ member ∈ members, JsonValue.index? member.1 = none) (distinct : (members.map Prod.fst).Nodup) :
      Legible (.object members)

theorem token_decimal {number : Nat} (written : numbers.write (numbers.ofNat number) = decimal number)
    (back : numbers.read (decimal number) = numbers.ofNat number) : Token numbers (numbers.ofNat number) where
  opens := by
    obtain ⟨first,more,shape,digit,-⟩ := decimal_shape number
    exact ⟨first,more,by rw [written,shape],digit⟩
  whole rest ends := by rw [written,numberToken_decimal number ends]
  back := by rw [written,back]

private theorem written_legible {item : JsonValue numbers.Value} (written : Written numbers item) : Legible numbers item := by
  induction written with
  | null => exact .null
  | bool value => exact .bool value
  | string text => exact .string text
  | number number written back => exact .number _ (token_decimal numbers written back)
  | array items _ ih => exact .array items ih
  | object members _ plain distinct ih => exact .object members ih plain distinct

/-- A string, or a safe integer. -/
inductive Atom : JsonValue numbers.Value → Prop
  | string (text : Units) : Atom (.string text)
  | number (number : Nat) (safe : number ≤ maxSafeInteger) : Atom (.number (numbers.ofNat number))

private theorem skip_kept {letter : Char} (rest : Text) (printed : isSpace letter = false) :
    skip (letter :: rest) = letter :: rest := by
  rw [skip,printed]
  rfl

private theorem digit_kind {letter : Char} (digit : letter.isDigit) : isSpace letter = false ∧ letter ≠ '"' ∧ letter ≠ '[' ∧
    letter ≠ '{' ∧ letter ≠ 'n' ∧ letter ≠ 't' ∧ letter ≠ 'f' ∧ letter ≠ ']' := by
  refine ⟨?_,?_,?_,?_,?_,?_,?_,?_⟩
  · unfold isSpace
    by_contra space
    simp only [Bool.not_eq_false,Bool.or_eq_true,decide_eq_true_eq] at space
    rcases space with ((rfl | rfl) | rfl) | rfl <;> cases digit
  all_goals
    rintro rfl
    cases digit

/-- How a value's text begins. -/
private theorem legible_opens {item : JsonValue numbers.Value} (legible : Legible numbers item) :
    ∃ first more, stringify numbers item = first :: more ∧ isSpace first = false ∧ first ≠ ']' := by
  cases legible with
  | null => exact ⟨'n',_,by rw [stringify]; rfl,by decide,by decide⟩
  | bool value =>
    cases value with
    | true => exact ⟨'t',_,by rw [stringify]; rfl,by decide,by decide⟩
    | false => exact ⟨'f',_,by rw [stringify]; rfl,by decide,by decide⟩
  | string text => exact ⟨'"',_,by rw [stringify]; rfl,by decide,by decide⟩
  | number value token =>
    obtain ⟨first,more,shape,digit⟩ := token.opens
    obtain ⟨space,_,_,_,_,_,_,bracket⟩ := digit_kind digit
    exact ⟨first,more,by rw [stringify,shape],space,bracket⟩
  | array items => exact ⟨'[',_,by rw [stringify],by decide,by decide⟩
  | object members => exact ⟨'{',_,by rw [stringify],by decide,by decide⟩

/-- A value's text, read with enough fuel and before what may follow it. -/
private def Read (item : JsonValue numbers.Value) : Prop := ∀ fuel rest, 2 * (stringify numbers item).length < fuel →
  Ends rest → value numbers fuel (stringify numbers item ++ rest) = some (item,rest)

variable {numbers}

private theorem ends_next (rest : Text) : Ends (',' :: rest) := .inr ⟨',',rest,rfl,.inl rfl⟩

private theorem ends_brace (rest : Text) : Ends ('}' :: rest) := .inr ⟨'}',rest,rfl,.inr (.inl rfl)⟩

private theorem ends_bracket (rest : Text) : Ends (']' :: rest) := .inr ⟨']',rest,rfl,.inr (.inr rfl)⟩

private theorem string_read (text : Units) : Read numbers (.string text) := by
  intro fuel rest enough ends
  obtain ⟨fuel,rfl⟩ : ∃ before, fuel = before + 1 := ⟨fuel - 1,by omega⟩
  rw [stringify,quoted,value,List.cons_append,skip_kept _ (by decide)]
  dsimp only
  rw [if_pos rfl,List.append_assoc]
  simp only [List.cons_append,List.nil_append,stringBody_quoted]
  rfl

private theorem number_read {number : numbers.Value} (token : Token numbers number) : Read numbers (.number number) := by
  intro fuel rest enough ends
  obtain ⟨fuel,rfl⟩ : ∃ before, fuel = before + 1 := ⟨fuel - 1,by omega⟩
  obtain ⟨first,more,shape,digit⟩ := token.opens
  obtain ⟨space,quote,bracket,brace,n,t,f,_⟩ := digit_kind digit
  have whole := token.whole rest ends
  have back := token.back
  rw [stringify,value]
  rw [shape] at whole back ⊢
  rw [List.cons_append,skip_kept _ space]
  dsimp only
  rw [if_neg quote,if_neg bracket,if_neg brace,if_neg n,if_neg t,if_neg f]
  rw [List.cons_append] at whole
  rw [whole]
  exact congrArg (fun value => some (JsonValue.number value,rest)) back

private theorem word_read {item : JsonValue numbers.Value} (word : item = .null ∨ item = .bool true ∨ item = .bool false) :
    Read numbers item := by
  intro fuel rest enough ends
  obtain ⟨fuel,rfl⟩ : ∃ before, fuel = before + 1 := ⟨fuel - 1,by omega⟩
  rcases word with rfl | rfl | rfl
  · rw [stringify,value,show "null".toList ++ rest = 'n' :: 'u' :: 'l' :: 'l' :: rest from rfl,skip_kept _ (by decide)]
    rfl
  · rw [stringify,value,show "true".toList ++ rest = 't' :: 'r' :: 'u' :: 'e' :: rest from rfl,skip_kept _ (by decide)]
    rfl
  · rw [stringify,value,show "false".toList ++ rest = 'f' :: 'a' :: 'l' :: 's' :: 'e' :: rest from rfl,
      skip_kept _ (by decide)]
    rfl

private theorem items_read {list : List (JsonValue numbers.Value)} (some' : list ≠ [])
    (each : ∀ item ∈ list, Read numbers item) (fuel : Nat) (rest : Text)
    (enough : 2 * (stringifyItems numbers list).length + 1 < fuel) :
    items numbers fuel (stringifyItems numbers list ++ ']' :: rest) = some (list,rest) := by
  induction list generalizing fuel with
  | nil => exact absurd rfl some'
  | cons item list ih =>
    obtain ⟨fuel,rfl⟩ : ∃ before, fuel = before + 1 := ⟨fuel - 1,by omega⟩
    have own := each item List.mem_cons_self
    cases list with
    | nil =>
      rw [stringifyItems] at enough ⊢
      rw [items,own fuel _ (by omega) (ends_bracket rest)]
      simp only [Option.bind_some,skip_kept _ (show isSpace ']' = false by decide)]
    | cons next list =>
      have shape : stringifyItems numbers (item :: next :: list) =
          stringify numbers item ++ ',' :: stringifyItems numbers (next :: list) := by
        rw [stringifyItems]
        exact List.cons_ne_nil _ _
      rw [shape,List.length_append,List.length_cons] at enough
      have later := ih (List.cons_ne_nil _ _) (fun item inside => each item (List.mem_cons_of_mem _ inside)) fuel (by omega)
      rw [shape,List.append_assoc,items,List.cons_append,own fuel _ (by omega) (ends_next _)]
      simp only [Option.bind_some,skip_kept _ (show isSpace ',' = false by decide)]
      rw [later]
      rfl

private theorem quoted_append (text : Units) (rest : Text) :
    quoted text ++ rest = '"' :: ((points text).flatMap quotedPoint ++ '"' :: rest) := by
  simp [quoted]

private theorem members_read {list : List (Units × JsonValue numbers.Value)} (some' : list ≠ [])
    (each : ∀ member ∈ list, Read numbers member.2) (fuel : Nat) (rest : Text)
    (enough : 2 * (stringifyMembers numbers list).length < fuel) :
    members numbers fuel (stringifyMembers numbers list ++ '}' :: rest) = some (list,rest) := by
  induction list generalizing fuel with
  | nil => exact absurd rfl some'
  | cons member list ih =>
    obtain ⟨key,item⟩ := member
    obtain ⟨fuel,rfl⟩ : ∃ before, fuel = before + 1 := ⟨fuel - 1,by omega⟩
    have own : Read numbers item := each (key,item) List.mem_cons_self
    have long : 2 * (stringify numbers item).length + 4 ≤ 2 * (stringifyMember numbers (key,item)).length := by
      simp only [stringifyMember,quoted,List.length_append,List.length_cons]
      omega
    cases list with
    | nil =>
      rw [stringifyMembers] at enough ⊢
      have read := own fuel ('}' :: rest) (by omega) (ends_brace rest)
      rw [stringifyMember,List.append_assoc,List.cons_append,quoted_append,members,skip_kept _ (by decide)]
      simp only [stringBody_quoted,Option.bind_some,skip_kept _ (show isSpace ':' = false by decide)]
      rw [read]
      simp only [Option.bind_some,skip_kept _ (show isSpace '}' = false by decide)]
    | cons next list =>
      have shape : stringifyMembers numbers ((key,item) :: next :: list) =
          stringifyMember numbers (key,item) ++ ',' :: stringifyMembers numbers (next :: list) := by
        rw [stringifyMembers]
        exact List.cons_ne_nil _ _
      rw [shape,List.length_append,List.length_cons] at enough
      have later := ih (List.cons_ne_nil _ _) (fun member inside => each member (List.mem_cons_of_mem _ inside)) fuel (by omega)
      have read := own fuel (',' :: (stringifyMembers numbers (next :: list) ++ '}' :: rest)) (by omega) (ends_next _)
      rw [shape,stringifyMember,List.append_assoc,List.append_assoc,List.cons_append,quoted_append,members,
        skip_kept _ (by decide)]
      simp only [stringBody_quoted,Option.bind_some,skip_kept _ (show isSpace ':' = false by decide),List.cons_append]
      rw [read]
      simp only [Option.bind_some,skip_kept _ (show isSpace ',' = false by decide)]
      rw [later]
      rfl

variable (numbers)

private theorem put_absent {held : List (Units × JsonValue numbers.Value)} {key : Units} (item : JsonValue numbers.Value)
    (plain : JsonValue.index? key = none) (absent : key ∉ held.map Prod.fst) :
    JsonValue.put key item held = held ++ [(key,item)] := by
  induction held with
  | nil => rfl
  | cons first held ih =>
    obtain ⟨other,own⟩ := first
    rw [List.map_cons,List.mem_cons,not_or] at absent
    rw [JsonValue.put,if_neg (fun same => absent.1 same.symm),plain]
    exact congrArg (List.cons _) (ih absent.2)

private theorem put_all (list held : List (Units × JsonValue numbers.Value))
    (plain : ∀ member ∈ list, JsonValue.index? member.1 = none)
    (distinct : ((held ++ list).map Prod.fst).Nodup) :
    list.foldl (fun held member => JsonValue.put member.1 member.2 held) held = held ++ list := by
  induction list generalizing held with
  | nil => exact (List.append_nil _).symm
  | cons member list ih =>
    have absent : member.1 ∉ held.map Prod.fst := by
      rw [List.map_append,List.map_cons] at distinct
      intro inside
      exact (List.nodup_append.mp distinct).2.2 _ inside _ List.mem_cons_self rfl
    rw [List.foldl_cons,put_absent numbers member.2 (plain member List.mem_cons_self) absent,
      ih _ (fun other inside => plain other (List.mem_cons_of_mem _ inside)) (by simpa using distinct)]
    simp

variable {numbers}

private theorem array_read {list : List (JsonValue numbers.Value)} (legible : ∀ item ∈ list, Legible numbers item)
    (each : ∀ item ∈ list, Read numbers item) : Read numbers (.array list) := by
  intro fuel rest enough ends
  obtain ⟨fuel,rfl⟩ : ∃ before, fuel = before + 1 := ⟨fuel - 1,by omega⟩
  rw [stringify] at enough ⊢
  simp only [List.length_cons,List.length_append,List.length_nil] at enough
  rw [value,List.cons_append,skip_kept _ (by decide)]
  dsimp only
  rw [if_neg (by decide),if_pos rfl,List.append_assoc,List.singleton_append]
  cases list with
  | nil =>
    rw [stringifyItems,List.nil_append,skip_kept _ (by decide)]
    rfl
  | cons item list =>
    have read := items_read (List.cons_ne_nil item list) each fuel rest (by omega)
    obtain ⟨first,more,opens,space,apart⟩ := legible_opens numbers (legible item List.mem_cons_self)
    have shape : ∃ tail, stringifyItems numbers (item :: list) ++ ']' :: rest = first :: tail := by
      cases list with
      | nil => exact ⟨_,by rw [stringifyItems,opens]; rfl⟩
      | cons next list =>
        refine ⟨more ++ ',' :: (stringifyItems numbers (next :: list) ++ ']' :: rest),?_⟩
        rw [stringifyItems,opens]
        · simp
        · exact List.cons_ne_nil _ _
    obtain ⟨tail,shape⟩ := shape
    rw [shape] at read ⊢
    rw [skip_kept _ space]
    split
    next closed =>
      injection closed with same _
      exact absurd same apart
    · rw [read]
      rfl

private theorem object_read {list : List (Units × JsonValue numbers.Value)} (each : ∀ member ∈ list, Read numbers member.2)
    (plain : ∀ member ∈ list, JsonValue.index? member.1 = none) (distinct : (list.map Prod.fst).Nodup) :
    Read numbers (.object list) := by
  intro fuel rest enough ends
  obtain ⟨fuel,rfl⟩ : ∃ before, fuel = before + 1 := ⟨fuel - 1,by omega⟩
  rw [stringify] at enough ⊢
  simp only [List.length_cons,List.length_append,List.length_nil] at enough
  rw [value,List.cons_append,skip_kept _ (by decide)]
  dsimp only
  rw [if_neg (by decide),if_neg (by decide),if_pos rfl,List.append_assoc,List.singleton_append]
  cases list with
  | nil =>
    rw [stringifyMembers,List.nil_append,skip_kept _ (by decide)]
    rfl
  | cons member list =>
    have read := members_read (List.cons_ne_nil member list) each fuel rest (by omega)
    have shape : ∃ tail, stringifyMembers numbers (member :: list) ++ '}' :: rest = '"' :: tail := by
      obtain ⟨key,item⟩ := member
      cases list with
      | nil => exact ⟨_,by simp [stringifyMembers,stringifyMember,quoted]; rfl⟩
      | cons next list => exact ⟨_,by simp [stringifyMembers,stringifyMember,quoted]; rfl⟩
    obtain ⟨tail,shape⟩ := shape
    rw [shape] at read ⊢
    rw [skip_kept _ (by decide)]
    change Option.map (fun read => (JsonValue.object (JsonValue.ofMembers read.1),read.2))
      (members numbers fuel ('"' :: tail)) = _
    rw [read]
    have same := put_all numbers (member :: list) [] plain distinct
    exact congrArg (fun list => some (JsonValue.object list,rest)) same

private theorem legible_read {item : JsonValue numbers.Value} (legible : Legible numbers item) : Read numbers item := by
  induction legible with
  | null => exact word_read (.inl rfl)
  | bool value => cases value <;> exact word_read (by simp)
  | string text => exact string_read text
  | number value token => exact number_read token
  | array items each ih => exact array_read each ih
  | object members each plain distinct ih => exact object_read ih plain distinct

theorem parse_legible {item : JsonValue numbers.Value} (legible : Legible numbers item) :
    parse numbers (stringify numbers item) = some item := by
  have read := legible_read legible (2 * (stringify numbers item).length + 2) [] (by omega) (.inl rfl)
  unfold parse
  rw [List.append_nil] at read
  rw [read]
  rfl

/-- A written document is read back from its text. -/
theorem parse_written {item : JsonValue numbers.Value} (written : Written numbers item) :
    parse numbers (stringify numbers item) = some item := parse_legible (written_legible numbers written)

variable (numbers)

/-- An object of atoms, its keys distinct and no array indices, is read back from its text. -/
theorem parse_stringify {list : List (Units × JsonValue numbers.Value)} (atoms : ∀ member ∈ list, Atom numbers member.2)
    (plain : ∀ member ∈ list, JsonValue.index? member.1 = none) (distinct : (list.map Prod.fst).Nodup) :
    parse numbers (stringify numbers (.object list)) = some (.object list) := by
  refine parse_written (.object list ?_ plain distinct)
  intro member inside
  cases found : member.2 with
  | string text => exact .string text
  | number value =>
    have atom := atoms member inside
    rw [found] at atom
    cases atom with
    | number number safe => exact .number number (numbers.write_ofNat number safe) (numbers.read_decimal number safe)
  | null | bool | array | object =>
    have atom := atoms member inside
    rw [found] at atom
    cases atom

end Documents

end PiDispatch.Kernel.JsonText
