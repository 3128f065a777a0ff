import PiDispatch.JsonDuplicates

/-! What the scan finds, beside the document that the text is read as: the scan of what is read of a text finds the first
repeated member of it, and where there is none it stands after it as it stood before. -/
namespace PiDispatch.JsonDuplicates
open Kernel Kernel.JsonDocument

section Strings

private theorem parseHex_four {a b c d : UInt16} {read : UInt16} (found : hexUnit a b c d = some read) :
    UInt16.ofNat (parseHex [a,b,c,d]) = read := by
  unfold hexUnit at found
  split at found
  next w x y z first second third fourth =>
    have whole : parseHex [a,b,c,d] = w * 4096 + x * 256 + y * 16 + z := by
      unfold parseHex
      simp only [List.takeWhile_cons,first,second,third,fourth,Option.isSome_some,if_true,List.takeWhile_nil,
        List.foldl_cons,List.foldl_nil,Option.getD_some]
      omega
    rw [whole]
    exact Option.some.inj found
  · cases found

private theorem simple_escapes {esc read : UInt16} (found : escapeOf esc = some read) :
    (SIMPLE_ESCAPES.lookup esc).getD esc = read := by
  unfold escapeOf at found
  have each : ∀ pair ∈ SIMPLE_ESCAPES, (SIMPLE_ESCAPES.lookup pair.1).getD pair.1 = pair.2 :=
    List.all_iff_forall_prop.mp (by decide +kernel)
  have here (letter : Char) (held : UInt16) (listed : (unit letter,held) ∈ SIMPLE_ESCAPES) (same : esc = unit letter)
      (own : some held = some read) : (SIMPLE_ESCAPES.lookup esc).getD esc = read := by
    rw [same,← Option.some.inj own]
    exact each _ listed
  split at found
  next same => exact here _ _ (by decide) same found
  split at found
  next same => exact here _ _ (by decide) same found
  split at found
  next same => exact here _ _ (by decide) same found
  split at found
  next same => exact here _ _ (by decide) same found
  split at found
  next same => exact here _ _ (by decide) same found
  split at found
  next same => exact here _ _ (by decide) same found
  split at found
  next same => exact here _ _ (by decide) same found
  split at found
  next same => exact here _ _ (by decide) same found
  · cases found

private theorem hex_plain {digit : UInt16} {number : Nat} (hex : hexDigit digit = some number) :
    digit ≠ unit '"' ∧ digit ≠ unit '\\' := by
  refine ⟨?_,?_⟩
  · rintro rfl
    cases hex
  · rintro rfl
    cases hex

private theorem skipString_plain {ch : UInt16} (plain : ch ≠ unit '"' ∧ ch ≠ unit '\\') (rest : Units) :
    skipString (ch :: rest) = skipString rest := by
  rw [skipString.eq_def]
  dsimp only
  rw [if_neg plain.1,if_neg plain.2]

private theorem skipString_escape (esc : UInt16) (rest : Units) :
    skipString (unit '\\' :: esc :: rest) = skipString rest := by
  rw [skipString.eq_def]
  dsimp only
  rw [if_neg (by decide),if_pos rfl]

private theorem readString_plain {ch : UInt16} (plain : ch ≠ unit '"' ∧ ch ≠ unit '\\') (rest : Units) :
    readString (ch :: rest) = (ch :: (readString rest).1,(readString rest).2) := by
  rw [readString.eq_def]
  dsimp only
  rw [if_neg plain.1,if_neg plain.2]

private theorem readString_hex (a b c d : UInt16) (rest : Units) :
    readString (unit '\\' :: unit 'u' :: a :: b :: c :: d :: rest) =
      (UInt16.ofNat (parseHex [a,b,c,d]) :: (readString rest).1,(readString rest).2) := by
  rw [readString.eq_def]
  dsimp only
  rw [if_neg (by decide),if_pos rfl,if_pos rfl]

private theorem readString_escape {esc : UInt16} (plain : esc ≠ unit 'u') (rest : Units) :
    readString (unit '\\' :: esc :: rest) =
      (((SIMPLE_ESCAPES.lookup esc).getD esc) :: (readString rest).1,(readString rest).2) := by
  rw [readString.eq_def]
  dsimp only
  rw [if_neg (by decide),if_pos rfl,if_neg plain]

private theorem hexUnit_digits {a b c d read : UInt16} (found : hexUnit a b c d = some read) :
    ∀ digit ∈ [a,b,c,d], digit ≠ unit '"' ∧ digit ≠ unit '\\' := by
  unfold hexUnit at found
  split at found
  next first second third fourth =>
    intro digit member
    simp only [List.mem_cons,List.not_mem_nil,or_false] at member
    rcases member with rfl | rfl | rfl | rfl
    · exact hex_plain first
    · exact hex_plain second
    · exact hex_plain third
    · exact hex_plain fourth
  · cases found

/-- A string of the grammar is read as what it stands for, and skipped to its end. -/
private theorem string_read {text : Units} {read : Units × Units} (found : stringBody text = some read) :
    readString text = read ∧ skipString text = read.2 := by
  induction text using stringBody.induct generalizing read with
  | case1 => cases found
  | case2 rest =>
    rw [stringBody.eq_def] at found
    cases found
    rw [readString.eq_def,skipString.eq_def]
    exact ⟨rfl,rfl⟩
  | case3 =>
    rw [stringBody.eq_def] at found
    cases found
  | case4 a b c d rest _ ih =>
    rw [stringBody.eq_def] at found
    dsimp only at found
    rw [if_neg (by decide),if_pos rfl,if_pos rfl] at found
    obtain ⟨own,hex,found⟩ := Option.bind_eq_some_iff.mp found
    obtain ⟨later,inner,rfl⟩ := Option.map_eq_some_iff.mp found
    obtain ⟨decoded,skipped⟩ := ih inner
    have plain := hexUnit_digits hex
    rw [readString_hex,parseHex_four hex,decoded,skipString_escape,skipString_plain (plain a (by simp)),
      skipString_plain (plain b (by simp)),skipString_plain (plain c (by simp)),skipString_plain (plain d (by simp)),skipped]
    exact ⟨rfl,rfl⟩
  | case5 rest short =>
    rw [stringBody.eq_def] at found
    dsimp only at found
    rw [if_neg (by decide),if_pos rfl,if_pos rfl] at found
    split at found
    next a b c d rest' => exact absurd rfl (short a b c d rest')
    · cases found
  | case6 escape rest plain _ ih =>
    rw [stringBody.eq_def] at found
    dsimp only at found
    rw [if_neg (by decide),if_pos rfl,if_neg plain] at found
    obtain ⟨own,simple,found⟩ := Option.bind_eq_some_iff.mp found
    obtain ⟨later,inner,rfl⟩ := Option.map_eq_some_iff.mp found
    obtain ⟨decoded,skipped⟩ := ih inner
    rw [readString_escape plain,simple_escapes simple,decoded,skipString_escape,skipped]
    exact ⟨rfl,rfl⟩
  | case7 first rest quote slash control =>
    rw [stringBody.eq_def] at found
    dsimp only at found
    rw [if_neg quote,if_neg slash,if_pos control] at found
    cases found
  | case8 first rest quote slash printed ih =>
    rw [stringBody.eq_def] at found
    dsimp only at found
    rw [if_neg quote,if_neg slash,if_neg printed] at found
    obtain ⟨later,inner,rfl⟩ := Option.map_eq_some_iff.mp found
    obtain ⟨decoded,skipped⟩ := ih inner
    rw [readString_plain ⟨quote,slash⟩,decoded,skipString_plain ⟨quote,slash⟩,skipped]
    exact ⟨rfl,rfl⟩

end Strings

section Tokens

/-- A token that is read off the text's front, nothing in it structural. -/
private def Bare (text : Units) (token : Units × Units) : Prop :=
  text = token.1 ++ token.2 ∧ ∀ ch ∈ token.1, ch ∉ STRUCTURAL

private theorem digit_bare {digit : UInt16} (own : isDigit digit) : digit ∉ STRUCTURAL := by
  intro member
  have each : ∀ ch ∈ STRUCTURAL, isDigit ch = false := List.all_iff_forall_prop.mp (by decide +kernel)
  rw [each digit member] at own
  cases own

private theorem digits_bare {lead rest : Units} {token : Units × Units} (found : digitsAfter lead rest = some token)
    (bare : ∀ ch ∈ lead, ch ∉ STRUCTURAL) : Bare (lead ++ rest) token := by
  unfold digitsAfter at found
  split at found
  · cases found
  · cases found
    refine ⟨by rw [List.append_assoc,List.takeWhile_append_dropWhile],?_⟩
    intro ch member
    rcases List.mem_append.mp member with first | later
    · exact bare ch first
    · exact digit_bare (List.mem_takeWhile_imp later)

private theorem integer_bare {text : Units} {token : Units × Units} (found : integerPart text = some token) :
    Bare text token := by
  cases text with
  | nil => cases found
  | cons first rest =>
    unfold integerPart at found
    dsimp only at found
    split at found
    next zero =>
      cases found
      refine ⟨rfl,?_⟩
      intro ch member
      rw [List.mem_singleton.mp member,zero]
      decide
    split at found
    next digit =>
      cases found
      refine ⟨congrArg (List.cons first) (List.takeWhile_append_dropWhile).symm,?_⟩
      intro ch member
      rcases List.mem_cons.mp member with rfl | later
      · exact digit_bare digit
      · exact digit_bare (List.mem_takeWhile_imp later)
    · cases found

private theorem fraction_bare {text : Units} {token : Units × Units} (found : fraction text = some token) :
    Bare text token := by
  cases text with
  | nil =>
    cases found
    exact ⟨rfl,fun _ none => nomatch none⟩
  | cons first rest =>
    unfold fraction at found
    dsimp only at found
    split at found
    next point =>
      refine digits_bare found ?_
      intro ch member
      rw [List.mem_singleton.mp member,point]
      decide
    · cases found
      exact ⟨rfl,fun _ none => nomatch none⟩

private theorem exponent_bare {text : Units} {token : Units × Units} (found : exponent text = some token) :
    Bare text token := by
  cases text with
  | nil =>
    cases found
    exact ⟨rfl,fun _ none => nomatch none⟩
  | cons first rest =>
    unfold exponent at found
    dsimp only at found
    split at found
    next power =>
      have bare : first ∉ STRUCTURAL := by rcases power with rfl | rfl <;> decide
      cases rest with
      | nil => cases found
      | cons sign digits =>
        dsimp only at found
        split at found
        next signed =>
          have bare' : sign ∉ STRUCTURAL := by rcases signed with rfl | rfl <;> decide
          refine digits_bare found ?_
          intro ch member
          rcases List.mem_cons.mp member with rfl | later
          · exact bare
          · exact List.mem_singleton.mp later ▸ bare'
        · refine digits_bare found ?_
          intro ch member
          exact List.mem_singleton.mp member ▸ bare
    · cases found
      exact ⟨rfl,fun _ none => nomatch none⟩

private theorem unsigned_bare {text : Units} {token : Units × Units} (found : unsigned text = some token) :
    Bare text token := by
  obtain ⟨whole,first,found⟩ := Option.bind_eq_some_iff.mp found
  obtain ⟨part,second,found⟩ := Option.bind_eq_some_iff.mp found
  obtain ⟨power,third,found⟩ := Option.bind_eq_some_iff.mp found
  cases found
  obtain ⟨shape,bare⟩ := integer_bare first
  obtain ⟨shape',bare'⟩ := fraction_bare second
  obtain ⟨shape'',bare''⟩ := exponent_bare third
  refine ⟨by rw [shape,shape',shape'',List.append_assoc,List.append_assoc],?_⟩
  intro ch member
  rcases List.mem_append.mp member with front | last
  · rcases List.mem_append.mp front with front | middle
    · exact bare ch front
    · exact bare' ch middle
  · exact bare'' ch last

private theorem number_bare {text : Units} {token : Units × Units} (found : numberToken text = some token) :
    Bare text token := by
  cases text with
  | nil => cases found
  | cons first rest =>
    unfold numberToken at found
    dsimp only at found
    split at found
    next minus =>
      obtain ⟨own,inner,rfl⟩ := Option.map_eq_some_iff.mp found
      obtain ⟨shape,bare⟩ := unsigned_bare inner
      refine ⟨congrArg (List.cons first) shape,?_⟩
      intro ch member
      rcases List.mem_cons.mp member with rfl | later
      · rw [minus]
        decide
      · exact bare ch later
    · exact unsigned_bare found

private theorem word_bare {first : UInt16} {word text rest : Units} (bare : ∀ ch ∈ first :: word, ch ∉ STRUCTURAL)
    (found : after? word text = some rest) : Bare (first :: text) (first :: word,rest) := by
  unfold after? at found
  split at found
  next leads =>
    obtain ⟨tail,shape⟩ := List.isPrefixOf_iff_prefix.mp leads
    cases found
    rw [← shape,List.drop_left]
    exact ⟨rfl,bare⟩
  · cases found

end Tokens

section Rounds

private theorem skip_length (text : Units) : (skip text).length ≤ text.length := by
  induction text with
  | nil => exact le_refl _
  | cons first rest ih =>
    rw [skip]
    split
    · exact ih.trans (Nat.le_succ _)
    · exact le_refl _

private theorem skip_again (text : Units) : skip (skip text) = skip text := by
  induction text with
  | nil => rfl
  | cons first rest ih =>
    rw [skip]
    split
    · exact ih
    next printed => rw [skip,if_neg printed]

private theorem skipString_length (text : Units) : (skipString text).length ≤ text.length := by
  induction text using skipString.induct with
  | case1 => exact le_refl _
  | case2 rest =>
    rw [skipString.eq_def]
    exact Nat.le_succ _
  | case3 =>
    rw [skipString.eq_def]
    exact Nat.zero_le _
  | case4 esc rest _ ih =>
    rw [skipString_escape,List.length_cons,List.length_cons]
    omega
  | case5 ch rest quote slash ih =>
    rw [skipString_plain ⟨quote,slash⟩,List.length_cons]
    omega

private theorem readString_length (text : Units) : (readString text).2.length ≤ text.length := by
  induction text using readString.induct with
  | case1 => exact le_refl _
  | case2 rest =>
    rw [readString.eq_def]
    exact Nat.le_succ _
  | case3 =>
    rw [readString.eq_def]
    exact Nat.zero_le _
  | case4 a b c d rest _ ih =>
    rw [readString_hex]
    simp only [List.length_cons]
    omega
  | case5 rest short =>
    rw [readString.eq_def]
    dsimp only
    rw [if_neg (by decide),if_pos rfl,if_pos rfl]
    split
    next a b c d rest' => exact absurd rfl (short a b c d rest')
    · exact Nat.zero_le _
  | case6 esc rest plain _ ih =>
    rw [readString_escape plain]
    simp only [List.length_cons]
    omega
  | case7 ch rest quote slash ih =>
    rw [readString_plain ⟨quote,slash⟩]
    simp only [List.length_cons]
    omega

/-- One round of the scan, `again` for the rounds after it. -/
private def round (again : State → Units → Option Duplicate) (state : State) (text : Units) : Option Duplicate :=
  match skip text with
  | [] => none
  | ch :: rest =>
    if ch = unit '{' then again ⟨⟨some [],false⟩ :: state.stack,state.path,true⟩ rest
    else if ch = unit '[' then again ⟨⟨none,false⟩ :: state.stack,.index 0 :: state.path,false⟩ rest
    else if ch = unit '}' ∨ ch = unit ']' then again (closed state) rest
    else if ch = unit ',' then again (afterComma state) rest
    else if ch = unit ':' then again state rest
    else if ch = unit '"' then
      match keysHere state with
      | some keys =>
        let key := readString rest
        if key.1 ∈ keys then some ⟨key.1,dotted state.path key.1⟩ else again (named state keys key.1) key.2
      | none => again state (skipString rest)
    else again state (rest.dropWhile fun ch => ch ∉ STRUCTURAL)

private theorem round_congr {again other : State → Units → Option Duplicate} {text : Units}
    (same : ∀ state rest, rest.length < text.length → again state rest = other state rest) (state : State) :
    round again state text = round other state text := by
  have most := skip_length text
  unfold round
  split
  · rfl
  next ch rest skipped =>
    rw [skipped,List.length_cons] at most
    have shorter : ∀ state, again state rest = other state rest := fun state => same state rest most
    simp only [shorter]
    split
    · rfl
    split
    · rfl
    split
    · rfl
    split
    · rfl
    split
    · rfl
    split
    · split
      · split
        · rfl
        · exact same _ _ (lt_of_le_of_lt (readString_length rest) most)
      · exact same _ _ (lt_of_le_of_lt (skipString_length rest) most)
    · exact same _ _ (lt_of_le_of_lt (List.dropWhile_sublist _).length_le most)

private theorem scan_enough {fuel more : Nat} {text : Units} (enough : text.length ≤ fuel) (enough' : text.length ≤ more)
    (state : State) : scan fuel state text = scan more state text := by
  induction fuel generalizing more text state with
  | zero =>
    cases List.length_eq_zero_iff.mp (Nat.le_zero.mp enough)
    cases more <;> rfl
  | succ fuel ih =>
    cases more with
    | zero =>
      cases List.length_eq_zero_iff.mp (Nat.le_zero.mp enough')
      rfl
    | succ more =>
      change round (scan fuel) state text = round (scan more) state text
      refine round_congr ?_ state
      intro state rest shorter
      exact ih (by omega) (by omega) state

/-- The scan with as many rounds as it takes. -/
private def run (state : State) (text : Units) : Option Duplicate := scan text.length state text

private theorem run_round (state : State) (text : Units) : run state text = round run state text := by
  unfold run
  cases text with
  | nil => rfl
  | cons first rest =>
    change round (scan rest.length) state (first :: rest) = _
    refine round_congr ?_ state
    intro state other shorter
    rw [List.length_cons] at shorter
    exact scan_enough (by omega) (le_refl _) state

private theorem run_skip (state : State) (text : Units) : run state (skip text) = run state text := by
  rw [run_round,run_round]
  unfold round
  rw [skip_again]

end Rounds

section Steps

variable {state : State} {rest : Units}

private theorem run_brace : run state (unit '{' :: rest) = run ⟨⟨some [],false⟩ :: state.stack,state.path,true⟩ rest := by
  rw [run_round]
  rfl

private theorem run_bracket :
    run state (unit '[' :: rest) = run ⟨⟨none,false⟩ :: state.stack,.index 0 :: state.path,false⟩ rest := by
  rw [run_round]
  rfl

private theorem run_closed {ch : UInt16} (closes : ch = unit '}' ∨ ch = unit ']') :
    run state (ch :: rest) = run (closed state) rest := by
  rw [run_round]
  rcases closes with rfl | rfl <;> rfl

private theorem run_comma : run state (unit ',' :: rest) = run (afterComma state) rest := by
  rw [run_round]
  rfl

private theorem run_colon : run state (unit ':' :: rest) = run state rest := by
  rw [run_round]
  rfl

private theorem run_text (value : state.expectKey = false) : run state (unit '"' :: rest) = run state (skipString rest) := by
  have none' : keysHere state = none := by
    unfold keysHere
    rw [value,if_neg Bool.false_ne_true]
  rw [run_round]
  change (match keysHere state with
    | some keys =>
      let key := readString rest
      if key.1 ∈ keys then some ⟨key.1,dotted state.path key.1⟩ else run (named state keys key.1) key.2
    | none => run state (skipString rest) : Option Duplicate) = _
  rw [none']

private theorem run_key (stack : List Frame) (path : List Segment) (keys : List Units) (last : Bool) :
    run ⟨⟨some keys,last⟩ :: stack,path,true⟩ (unit '"' :: rest) =
      if (readString rest).1 ∈ keys then some ⟨(readString rest).1,dotted path (readString rest).1⟩
      else run ⟨⟨some ((readString rest).1 :: keys),true⟩ :: stack,.key (readString rest).1 :: path,false⟩
        (readString rest).2 := by
  rw [run_round]
  rfl

/-- A bare unit starts a run of them, which one round passes over. -/
private theorem run_bare {ch : UInt16} (bare : ch ∉ STRUCTURAL) :
    run state (ch :: rest) = run state (rest.dropWhile fun ch => ch ∉ STRUCTURAL) := by
  have apart (letter : Char) (listed : unit letter ∈ STRUCTURAL) : ch ≠ unit letter := by
    rintro rfl
    exact bare listed
  have printed : ¬isSpace ch = true := by
    unfold isSpace
    simp only [Bool.or_eq_true,decide_eq_true_eq,not_or]
    exact ⟨⟨⟨apart _ (by decide),apart _ (by decide)⟩,apart _ (by decide)⟩,apart _ (by decide)⟩
  have ends : ¬(ch = unit '}' ∨ ch = unit ']') := not_or.mpr ⟨apart _ (by decide),apart _ (by decide)⟩
  rw [run_round]
  unfold round
  rw [skip,if_neg printed]
  dsimp only
  rw [if_neg (apart '{' (by decide)),if_neg (apart '[' (by decide)),if_neg ends,if_neg (apart ',' (by decide)),
    if_neg (apart ':' (by decide)),if_neg (apart '"' (by decide))]

private theorem run_bares (text : Units) : run state (text.dropWhile fun ch => ch ∉ STRUCTURAL) = run state text := by
  cases text with
  | nil => rfl
  | cons ch rest =>
    rw [List.dropWhile_cons]
    split
    next bare => exact (run_bare (of_decide_eq_true bare)).symm
    · rfl

private theorem run_token {text : Units} {token : Units × Units} (bare : Bare text token) :
    run state text = run state token.2 := by
  obtain ⟨token,left⟩ := token
  obtain ⟨rfl,each⟩ := bare
  dsimp only at each ⊢
  induction token with
  | nil => rfl
  | cons ch token ih =>
    rw [List.cons_append,run_bare (each ch List.mem_cons_self),run_bares]
    exact ih fun other member => each other (List.mem_cons_of_mem _ member)

end Steps

section Scans

/-- What the scan of a value, of the rest of a list or of the rest of an object comes to. -/
private structure Scans (fuel : Nat) : Prop where
  value : ∀ text read state, value fuel text = some read → state.expectKey = false →
    run state text = (repeats state.path read.1).head?.or (run state read.2)
  items : ∀ text read stack path index, items fuel text = some read →
    run ⟨⟨none,false⟩ :: stack,.index index :: path,false⟩ text =
      (repeatsItems path index read.1).head?.or (run ⟨stack,path,false⟩ read.2)
  members : ∀ text read stack path keys, members fuel text = some read →
    run ⟨⟨some keys,false⟩ :: stack,path,true⟩ text =
      (repeatsMembers path keys read.1).head?.or (run ⟨stack,path,false⟩ read.2)

private theorem value_scans {fuel : Nat} (scans : Scans fuel) {text : Units} {read : Document × Units} {state : State}
    (found : JsonDocument.value (fuel + 1) text = some read) (plain : state.expectKey = false) :
    run state text = (repeats state.path read.1).head?.or (run state read.2) := by
  obtain ⟨stack,path,key⟩ := state
  obtain rfl : key = false := plain
  rw [← run_skip]
  rw [JsonDocument.value] at found
  split at found
  · cases found
  next first rest skipped =>
    rw [skipped]
    split at found
    next quote =>
      obtain ⟨own,inner,rfl⟩ := Option.map_eq_some_iff.mp found
      rw [quote,run_text rfl,(string_read inner).2,repeats]
      · rfl
      all_goals simp
    split at found
    next bracket =>
      rw [bracket,run_bracket,← run_skip _ rest]
      split at found
      · cases found
      next next' tail inner =>
        split at found
        next closes =>
          cases found
          rw [inner,run_closed (.inr closes),repeats,repeatsItems]
          rfl
        · obtain ⟨own,list,rfl⟩ := Option.map_eq_some_iff.mp found
          rw [run_skip,repeats]
          exact scans.items _ _ _ _ _ list
    split at found
    next brace =>
      rw [brace,run_brace,← run_skip _ rest]
      split at found
      · cases found
      next next' tail inner =>
        split at found
        next closes =>
          cases found
          rw [inner,run_closed (.inl closes),repeats,repeatsMembers]
          rfl
        · obtain ⟨own,list,rfl⟩ := Option.map_eq_some_iff.mp found
          rw [run_skip,repeats]
          exact scans.members _ _ _ _ _ list
    split at found
    next word =>
      obtain ⟨own,inner,rfl⟩ := Option.map_eq_some_iff.mp found
      rw [run_token (word_bare (by rw [word]; exact List.all_iff_forall_prop.mp (by decide +kernel)) inner),repeats]
      · rfl
      all_goals simp
    split at found
    next word =>
      obtain ⟨own,inner,rfl⟩ := Option.map_eq_some_iff.mp found
      rw [run_token (word_bare (by rw [word]; exact List.all_iff_forall_prop.mp (by decide +kernel)) inner),repeats]
      · rfl
      all_goals simp
    split at found
    next word =>
      obtain ⟨own,inner,rfl⟩ := Option.map_eq_some_iff.mp found
      rw [run_token (word_bare (by rw [word]; exact List.all_iff_forall_prop.mp (by decide +kernel)) inner),repeats]
      · rfl
      all_goals simp
    · obtain ⟨own,inner,rfl⟩ := Option.map_eq_some_iff.mp found
      rw [run_token (number_bare inner),repeats]
      · rfl
      all_goals simp

private theorem items_scans {fuel : Nat} (scans : Scans fuel) {text : Units} {read : List Document × Units}
    {stack : List Frame} {path : List Segment} {index : Nat} (found : JsonDocument.items (fuel + 1) text = some read) :
    run ⟨⟨none,false⟩ :: stack,.index index :: path,false⟩ text =
      (repeatsItems path index read.1).head?.or (run ⟨stack,path,false⟩ read.2) := by
  rw [JsonDocument.items] at found
  obtain ⟨item,first,found⟩ := Option.bind_eq_some_iff.mp found
  rw [scans.value _ _ _ first rfl,← run_skip _ item.2]
  split at found
  · cases found
  next next' rest skipped =>
    rw [skipped]
    split at found
    next comma =>
      obtain ⟨later,inner,rfl⟩ := Option.map_eq_some_iff.mp found
      have more := scans.items _ _ stack path (index + 1) inner
      rw [comma,run_comma]
      change _ = (repeatsItems path index (item.1 :: later.1)).head?.or _
      rw [repeatsItems,List.head?_append,Option.or_assoc,← more]
      rfl
    split at found
    next closes =>
      cases found
      rw [run_closed (.inr closes),repeatsItems,repeatsItems,List.append_nil]
      rfl
    · cases found

private theorem members_scans {fuel : Nat} (scans : Scans fuel) {text : Units} {read : List (Units × Document) × Units}
    {stack : List Frame} {path : List Segment} {keys : List Units} (found : JsonDocument.members (fuel + 1) text = some read) :
    run ⟨⟨some keys,false⟩ :: stack,path,true⟩ text =
      (repeatsMembers path keys read.1).head?.or (run ⟨stack,path,false⟩ read.2) := by
  rw [← run_skip]
  rw [JsonDocument.members] at found
  split at found
  · cases found
  next quote rest skipped =>
    rw [skipped]
    split at found
    next opens =>
      obtain ⟨key,named',found⟩ := Option.bind_eq_some_iff.mp found
      rw [opens,run_key,(string_read named').1]
      split at found
      · cases found
      next colon after skipped' =>
        split at found
        next isColon =>
          obtain ⟨item,own,found⟩ := Option.bind_eq_some_iff.mp found
          have value' : run ⟨⟨some (key.1 :: keys),true⟩ :: stack,.key key.1 :: path,false⟩ key.2 =
              (repeats (.key key.1 :: path) item.1).head?.or
                (run ⟨⟨some (key.1 :: keys),true⟩ :: stack,.key key.1 :: path,false⟩ (skip item.2)) := by
            rw [← run_skip _ key.2,skipped',isColon,run_colon,run_skip _ item.2]
            exact scans.value _ _ _ own rfl
          suffices rest' : ∀ later : List (Units × Document), read.1 = (key.1,item.1) :: later →
              run ⟨⟨some (key.1 :: keys),true⟩ :: stack,.key key.1 :: path,false⟩ (skip item.2) =
                (repeatsMembers path (key.1 :: keys) later).head?.or (run ⟨stack,path,false⟩ read.2) →
              (if key.1 ∈ keys then some ⟨key.1,dotted path key.1⟩
                else run ⟨⟨some (key.1 :: keys),true⟩ :: stack,.key key.1 :: path,false⟩ key.2) =
                (repeatsMembers path keys read.1).head?.or (run ⟨stack,path,false⟩ read.2) by
            split at found
            · cases found
            next next' tail skipped'' =>
              split at found
              next comma =>
                obtain ⟨later,inner,rfl⟩ := Option.map_eq_some_iff.mp found
                refine rest' later.1 rfl ?_
                rw [skipped'',comma,run_comma]
                exact scans.members _ _ stack path (key.1 :: keys) inner
              split at found
              next closes =>
                cases found
                refine rest' [] rfl ?_
                rw [skipped'',run_closed (.inl closes),repeatsMembers]
                rfl
              · cases found
          intro later shape after'
          rw [shape,repeatsMembers]
          split
          · rfl
          · rw [List.nil_append,List.head?_append,Option.or_assoc,← after',value']
        · cases found
    · cases found

private theorem scans (fuel : Nat) : Scans fuel := by
  induction fuel with
  | zero =>
    refine ⟨?_,?_,?_⟩
    · intro text read state found
      cases found
    · intro text read stack path index found
      cases found
    · intro text read stack path keys found
      cases found
  | succ fuel ih =>
    exact ⟨fun _ _ _ => value_scans ih,fun _ _ _ _ _ => items_scans ih,fun _ _ _ _ _ => members_scans ih⟩

end Scans

section Documents

private theorem members_apart {path : List Segment} {earlier : List Units} {members : List (Units × Document)} :
    repeatsMembers path earlier members = [] ↔
      (∀ key ∈ members.map Prod.fst, key ∉ earlier) ∧ (members.map Prod.fst).Nodup ∧
        ∀ member ∈ members, repeats (.key member.1 :: path) member.2 = [] := by
  induction members generalizing earlier with
  | nil => simp [repeatsMembers]
  | cons member members ih =>
    obtain ⟨key,item⟩ := member
    rw [repeatsMembers,List.append_eq_nil_iff,List.append_eq_nil_iff,ih,List.map_cons,List.nodup_cons,
      List.forall_mem_cons,List.forall_mem_cons]
    constructor
    · rintro ⟨first,own,new,apart,rest⟩
      have fresh : key ∉ earlier := by
        intro member
        rw [if_pos member] at first
        cases first
      refine ⟨⟨fresh,?_⟩,⟨?_,apart⟩,own,rest⟩
      · intro other member old
        exact new other member (List.mem_cons_of_mem _ old)
      · intro member
        exact new key member List.mem_cons_self
    · rintro ⟨⟨fresh,new⟩,⟨once,apart⟩,own,rest⟩
      refine ⟨if_neg fresh,own,?_,apart,rest⟩
      intro other member old
      rcases List.mem_cons.mp old with rfl | old
      · exact once member
      · exact new other member old

private theorem items_apart {path : List Segment} {index : Nat} {items : List Document} :
    (∀ path, ∀ item ∈ items, repeats path item = [] ↔ Distinct item) →
      (repeatsItems path index items = [] ↔ DistinctItems items) := by
  intro each
  induction items generalizing index with
  | nil => exact ⟨fun _ => trivial,fun _ => rfl⟩
  | cons item items ih =>
    rw [repeatsItems,DistinctItems,List.append_eq_nil_iff,each _ item List.mem_cons_self,
      ih fun path other member => each path other (List.mem_cons_of_mem _ member)]

private theorem distinct_members {members : List (Units × Document)} :
    DistinctMembers members ↔ ∀ member ∈ members, Distinct member.2 := by
  induction members with
  | nil => simp [DistinctMembers]
  | cons member members ih =>
    obtain ⟨key,item⟩ := member
    rw [DistinctMembers,ih,List.forall_mem_cons]

private theorem member_small {members : List (Units × Document)} {member : Units × Document} (inside : member ∈ members) :
    sizeOf member.2 < sizeOf members := by
  have small := List.sizeOf_lt_of_mem inside
  obtain ⟨key,item⟩ := member
  simp only [Prod.mk.sizeOf_spec] at small
  dsimp only
  omega

private theorem repeats_distinct : (document : Document) → (path : List Segment) → (repeats path document = [] ↔ Distinct document)
  | .array items,path => by
    rw [repeats,Distinct]
    exact items_apart fun path item member => repeats_distinct item path
  | .object members,path => by
    rw [repeats,Distinct,members_apart,distinct_members]
    constructor
    · rintro ⟨_,apart,each⟩
      exact ⟨apart,fun member inside => (repeats_distinct member.2 _).mp (each member inside)⟩
    · rintro ⟨apart,each⟩
      exact ⟨fun _ _ => List.not_mem_nil,apart,fun member inside => (repeats_distinct member.2 _).mpr (each member inside)⟩
  | .null,_ => by simp [repeats,Distinct]
  | .bool _,_ => by simp [repeats,Distinct]
  | .number _,_ => by simp [repeats,Distinct]
  | .string _,_ => by simp [repeats,Distinct]
  termination_by document => sizeOf document
  decreasing_by
    · have small := List.sizeOf_lt_of_mem member
      simp only [Document.array.sizeOf_spec]
      omega
    · have small := member_small inside
      simp only [Document.object.sizeOf_spec]
      omega
    · have small := member_small inside
      simp only [Document.object.sizeOf_spec]
      omega

end Documents

/-- For a text that is read as a document: nothing is found exactly where no object has two members of one key, and else
the first member, in the order of the text, that repeats an earlier one of its object. -/
theorem duplicates_exact {text : Units} {document : Document} (accepted : parse text = some document) :
    (findDuplicateKey text = none ↔ Distinct document) ∧ findDuplicateKey text = (repeats [] document).head? := by
  obtain ⟨read,found,rest⟩ := Option.bind_eq_some_iff.mp accepted
  split at rest
  next done =>
    obtain rfl := Option.some.inj rest
    have whole : findDuplicateKey text = (repeats [] read.1).head? := by
      have scanned := (scans _).value _ _ ⟨[],[],false⟩ found rfl
      rw [← run_skip _ read.2,done] at scanned
      exact scanned.trans (Option.or_none)
    refine ⟨?_,whole⟩
    rw [whole,List.head?_eq_none_iff]
    exact repeats_distinct read.1 []
  · cases rest

/-- A key spelled out in one member and escaped in another, in an object within a list. -/
def hidden : Units := "\x7b\"run\":[7,\x7b\"a\":null,\"\\u0061\":\x7b\x7d\x7d]\x7d".toList.map unit

theorem duplicates_exact_hidden : ∃ document, parse hidden = some document ∧
    findDuplicateKey hidden = (repeats [] document).head? ∧ (findDuplicateKey hidden).isSome := by
  have accepted : (parse hidden).isSome := by decide +kernel
  obtain ⟨document,read⟩ := Option.isSome_iff_exists.mp accepted
  exact ⟨document,read,(duplicates_exact read).2,by decide +kernel⟩

end PiDispatch.JsonDuplicates
