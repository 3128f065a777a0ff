import PiDispatch.TranscriptText

/-! Clipping after escaping, of a head and of the whole text. The head has as many code points in common with the text as
two for each one that is shown, and a clip gives up what it has of a piece that it could not keep. -/
namespace PiDispatch.LiveTranscript
open Kernel Kernel.Utf16 PiDispatch.ConsoleAudit

section Heads
variable {count : Nat} {text part first : Units}

/-- A part that has the first points of a text in common with it, all of them or as many as were asked for. -/
private def Shares (count : Nat) (text part : Units) : Prop :=
  ∃ common, common <+: points text ∧ common <+: points part ∧ (part = text ∨ count ≤ common.length)

private theorem shares_more {heads : List Point} (whole : points (first ++ text) = heads ++ points text)
    (cut : points (first ++ part) = heads ++ points part) (shares : Shares count text part) :
    Shares (count + heads.length) (first ++ text) (first ++ part) := by
  obtain ⟨common,own,other,enough⟩ := shares
  refine ⟨heads ++ common,?_,?_,?_⟩
  · rw [whole]
    exact (List.prefix_append_right_inj heads).mpr own
  · rw [cut]
    exact (List.prefix_append_right_inj heads).mpr other
  · rcases enough with rfl | enough
    · exact .inl rfl
    · rw [List.length_append]
      exact .inr (by omega)

private theorem shares_fewer {less : Nat} (fewer : less ≤ count) (shares : Shares count text part) : Shares less text part := by
  obtain ⟨common,own,other,enough⟩ := shares
  exact ⟨common,own,other,enough.imp_right fewer.trans⟩

private theorem shares_whole (text : Units) : Shares count text text :=
  ⟨points text,List.prefix_refl _,List.prefix_refl _,.inl rfl⟩

private theorem walk_first {left : Nat} {unit : UInt16} (inside : unit ∈ (walk left text).head?) : unit ∈ text.head? := by
  cases left with
  | zero => cases inside
  | succ left =>
    cases text with
    | nil => cases inside
    | cons own rest =>
      unfold walk at inside
      split at inside
      · cases rest with
        | nil => exact inside
        | cons next rest => exact inside
      · exact inside

private theorem walk_single {left : Nat} {unit : UInt16} (solid : isHigh unit = false) (rest : Units) :
    walk (left + 1) (unit :: rest) = unit :: walk left rest := by
  rw [walk.eq_def]
  exact if_neg (Bool.eq_false_iff.mp solid)

private theorem low_not_high {unit : UInt16} (low : isLow unit = true) : isHigh unit = false := by
  unfold isLow at low
  unfold isHigh
  simp only [Bool.and_eq_true,decide_eq_true_eq] at low
  simp only [Bool.and_eq_false_iff,decide_eq_false_iff_not]
  omega

/-- The walk takes a half of a pair only where it has taken as many points before. -/
private theorem walk_shares (left : Nat) (text : Units) : Shares left text (walk left text) := by
  induction left using Nat.strong_induction_on generalizing text with
  | _ left ih =>
    rcases left with _ | left
    · exact ⟨[],List.nil_prefix,List.nil_prefix,.inr le_rfl⟩
    rcases text with _ | ⟨unit,rest⟩
    · exact shares_whole []
    unfold walk
    split
    next high =>
      rcases rest with _ | ⟨next,rest⟩
      · exact shares_whole [unit]
      have before := ih left (Nat.lt_succ_self left)
      change Shares (left + 1) (unit :: next :: rest) (unit :: next :: walk left rest)
      by_cases low : isLow next = true
      · have pair : ∀ rest, points (unit :: next :: rest) = [.scalar (paired unit next)] ++ points rest := by
          intro rest
          rw [points,if_pos (Bool.and_eq_true_iff.mpr ⟨high,low⟩)]
          rfl
        exact @shares_more _ _ _ [unit,next] _ (pair rest) (pair _) (before rest)
      have alone : ∀ rest, points (unit :: next :: rest) = single unit :: points (next :: rest) := by
        intro rest
        rw [points,if_neg (fun both => low (Bool.and_eq_true_iff.mp both).2)]
      by_cases apart : ∀ second ∈ rest.head?, (isHigh next && isLow second) = false
      · have two : ∀ part : Units, (∀ second ∈ part.head?, second ∈ rest.head?) →
            points (unit :: next :: part) = [single unit,single next] ++ points part := by
          intro part starts
          rw [alone,points_apart fun second inside => apart second (starts second inside)]
          rfl
        have more := @shares_more _ _ _ [unit,next] _ (two rest fun _ inside => inside) (two _ fun _ => walk_first) (before rest)
        exact shares_fewer (Nat.le_succ _) more
      · push Not at apart
        obtain ⟨second,starts,both⟩ := apart
        obtain ⟨more,rfl⟩ : ∃ more, rest = second :: more := by
          cases rest with
          | nil => cases starts
          | cons own more => exact ⟨more,by rw [Option.mem_some.mp starts]⟩
        have together := Bool.eq_true_of_not_eq_false both
        rcases left with _ | left
        · refine ⟨[single unit],?_,?_,.inr le_rfl⟩
          · rw [alone]
            exact ⟨_,rfl⟩
          · rw [alone]
            exact ⟨_,rfl⟩
        · have solid := low_not_high (Bool.and_eq_true_iff.mp together).2
          have three : ∀ rest, points (unit :: next :: second :: rest) =
              [single unit,.scalar (paired next second)] ++ points rest := by
            intro rest
            rw [alone,points,if_pos together]
            rfl
          rw [walk_single solid]
          exact @shares_more _ _ _ [unit,next,second] _ (three more) (three _) (ih left (by omega) more)
    next solid =>
      have one : ∀ rest, points (unit :: rest) = [single unit] ++ points rest :=
        points_plain (Bool.eq_false_iff.mpr solid)
      exact @shares_more _ _ _ [unit] _ (one rest) (one _) (ih left (Nat.lt_succ_self left) rest)

private theorem headOf_shares (text : Units) (count : Nat) : Shares count text (headOf text count) := by
  unfold headOf
  split
  · exact shares_whole text
  · exact walk_shares count text

end Heads

section Halves
variable {text half first rest : Units}

private theorem half_form (own : isHalf text = true) : ∃ rest, text = 92 :: rest ∧ 92 ∉ rest ∧ 125 ∉ rest := by
  unfold isHalf at own
  split at own
  · exact ⟨[],by rw [of_decide_eq_true own],List.not_mem_nil,List.not_mem_nil⟩
  · simp only [Bool.and_eq_true,decide_eq_true_eq] at own
    obtain ⟨rfl,rfl⟩ := own
    exact ⟨_,rfl,by decide,by decide⟩
  next digits _ =>
    simp only [Bool.and_eq_true,decide_eq_true_eq] at own
    obtain ⟨⟨⟨⟨rfl,rfl⟩,rfl⟩,_⟩,hex⟩ := own
    have each := List.all_eq_true.mp hex
    refine ⟨_,rfl,?_,?_⟩
    all_goals
      intro inside
      rcases List.mem_cons.mp inside with same | inside
      · cases same
      rcases List.mem_cons.mp inside with same | inside
      · cases same
      · cases each _ inside
  · cases own

private theorem not_half (closed : 125 ∈ text) : isHalf text = false := by
  rw [← Bool.not_eq_true]
  intro own
  obtain ⟨rest,rfl,_,free⟩ := half_form own
  rcases List.mem_cons.mp closed with same | inside
  · cases same
  · exact free inside

private theorem stripped_append (keeps : ∀ tail, tail ≠ [] → tail <:+ first → isHalf (tail ++ rest) = false) :
    stripped (first ++ rest) = first ++ stripped rest := by
  induction first with
  | nil => rfl
  | cons unit first ih =>
    have own := keeps (unit :: first) (List.cons_ne_nil _ _) (List.suffix_refl _)
    rw [List.cons_append] at own ⊢
    rw [stripped,own,ih fun tail some' within => keeps tail some' (within.trans (List.suffix_cons unit first))]
    rfl

/-- A half is taken away, and nothing before it. -/
private theorem stripped_half (own : isHalf half = true) : stripped (first ++ half) = first := by
  obtain ⟨rest,rfl,_,_⟩ := half_form own
  rw [stripped_append,stripped,if_pos own,List.append_nil]
  intro tail some' _
  rw [← Bool.not_eq_true]
  intro longer
  obtain ⟨more,same,free,_⟩ := half_form longer
  cases tail with
  | nil => exact some' rfl
  | cons unit tail =>
    rw [List.cons_append] at same
    apply free
    rw [← (List.cons_eq_cons.mp same).2]
    exact List.mem_append_right _ List.mem_cons_self

end Halves

section Escapes
variable {letter : Char}

private theorem toDigits_inside {number : Nat} {digit : Char} (inside : digit ∈ Nat.toDigits 16 number) :
    ∃ value, value < 16 ∧ digit = Nat.digitChar value := by
  induction number using Nat.strong_induction_on with
  | _ number ih =>
    rw [Nat.toDigits_eq_if (by decide)] at inside
    split at inside
    next small => exact ⟨number,small,List.mem_singleton.mp inside⟩
    · rcases List.mem_append.mp inside with before | last
      · exact ih _ (by omega) before
      · exact ⟨number % 16,Nat.mod_lt _ (by decide),List.mem_singleton.mp last⟩

private theorem hexDigits_inside {digit : Char} (inside : digit ∈ hexDigits letter) :
    unitsOf digit = [UInt16.ofNat digit.toNat] ∧ isUpperHex (UInt16.ofNat digit.toNat) = true := by
  have each : ∀ value < 16, unitsOf (Nat.digitChar value).toUpper = [UInt16.ofNat (Nat.digitChar value).toUpper.toNat] ∧
      isUpperHex (UInt16.ofNat (Nat.digitChar value).toUpper.toNat) = true := by decide
  rcases List.mem_append.mp inside with zero | digits
  · rw [(List.mem_replicate.mp zero).2]
    exact each 0 (by decide)
  · obtain ⟨own,among,rfl⟩ := List.mem_map.mp digits
    obtain ⟨value,small,rfl⟩ := toDigits_inside among
    exact each value small

private theorem hexDigits_length (letter : Char) : (hexDigits letter).length ≤ 6 := by
  have valid : letter.toNat < 0xD800 ∨ 0xDFFF < letter.toNat ∧ letter.toNat < 0x110000 := letter.valid
  have few : (Nat.toDigits 16 letter.toNat).length ≤ 6 :=
    (Nat.length_toDigits_le_iff (by decide) (by decide)).mpr (by omega)
  unfold hexDigits
  rw [List.length_append,List.length_replicate,List.length_map]
  omega

private theorem hex_units {digits : List Char} (each : ∀ digit ∈ digits,
    unitsOf digit = [UInt16.ofNat digit.toNat] ∧ isUpperHex (UInt16.ofNat digit.toNat) = true) :
    (ofText digits).length = digits.length ∧ (ofText digits).all isUpperHex = true := by
  induction digits with
  | nil => exact ⟨rfl,rfl⟩
  | cons digit digits ih =>
    obtain ⟨⟨own,hex⟩,others⟩ := List.forall_mem_cons.mp each
    obtain ⟨length,all⟩ := ih others
    have whole : ofText (digit :: digits) = UInt16.ofNat digit.toNat :: ofText digits := by
      change unitsOf digit ++ ofText digits = _
      rw [own]
      rfl
    rw [whole,List.length_cons,List.length_cons,length,List.all_cons,hex,all]
    exact ⟨rfl,rfl⟩

/-- What a cut leaves of an escape is what `clip` looks for. -/
private theorem half_escape {part : List Char} (some' : part ≠ []) (within : part <+: escaped letter)
    (apart : part ≠ escaped letter) : isHalf (ofText part) = true := by
  have spelled : escaped letter = '\\' :: 'u' :: '\x7b' :: (hexDigits letter ++ ['\x7d']) := rfl
  rw [spelled] at within apart
  obtain ⟨first,part,rfl⟩ := List.exists_cons_of_ne_nil some'
  obtain ⟨rfl,later⟩ := List.cons_prefix_cons.mp within
  rcases part with _ | ⟨second,part⟩
  · rfl
  obtain ⟨rfl,last⟩ := List.cons_prefix_cons.mp later
  rcases part with _ | ⟨brace,digits⟩
  · rfl
  obtain ⟨rfl,ending⟩ := List.cons_prefix_cons.mp last
  have inside : digits <+: hexDigits letter := by
    rcases List.prefix_concat_iff.mp ending with same | inside
    · rw [same] at apart
      exact absurd rfl apart
    · exact inside
  obtain ⟨length,hex⟩ := hex_units fun digit among => hexDigits_inside (inside.subset among)
  have few := hexDigits_length letter
  have fewer := inside.length_le
  have short : decide ((ofText digits).length ≤ 6) = true := decide_eq_true (by omega)
  change (decide ((ofText digits).length ≤ 6) && (ofText digits).all isUpperHex) = true
  rw [hex,short]
  rfl

end Escapes

section Pieces
variable {list : List Point} {rest : Units}

private theorem point_units (point : Point) :
    (∃ unit, point.units = [unit]) ∨ ∃ high low : UInt16, point.units = [high,low] ∧ high ≠ 92 ∧ low ≠ 92 := by
  cases point with
  | lone unit => exact .inl ⟨unit,rfl⟩
  | scalar letter =>
    change (∃ unit, unitsOf letter = [unit]) ∨ ∃ high low : UInt16, unitsOf letter = [high,low] ∧ high ≠ 92 ∧ low ≠ 92
    have valid : letter.toNat < 0xD800 ∨ 0xDFFF < letter.toNat ∧ letter.toNat < 0x110000 := letter.valid
    unfold unitsOf
    split
    · exact .inl ⟨_,rfl⟩
    · refine .inr ⟨_,_,rfl,?_,?_⟩
      all_goals
        intro same
        have number := congrArg UInt16.toNat same
        rw [UInt16.toNat_ofNat_of_lt' (by change _ < 65536; omega)] at number
        change _ = 92 at number
        omega

private theorem stripped_point (point : Point) : stripped (point.units ++ rest) = [] ∨
    stripped (point.units ++ rest) = point.units ++ stripped rest := by
  rcases point_units point with ⟨unit,own⟩ | ⟨high,low,own,first,second⟩
  · rw [own,List.singleton_append,stripped]
    split
    · exact .inl rfl
    · exact .inr rfl
  · have plain : ∀ {unit : UInt16} {rest : Units}, unit ≠ 92 → isHalf (unit :: rest) = false := by
      intro unit rest apart
      rw [← Bool.not_eq_true]
      intro half
      obtain ⟨_,same,_⟩ := half_form half
      exact apart (List.cons_eq_cons.mp same).1
    refine .inr ?_
    rw [own,List.cons_append,List.cons_append,List.nil_append,stripped,plain first,stripped,plain second]
    rfl

private theorem stripped_escape (letter : Char) :
    stripped (ofText (escaped letter) ++ rest) = ofText (escaped letter) ++ stripped rest := by
  apply stripped_append
  intro tail some' within
  apply not_half
  obtain ⟨before,whole⟩ := within
  have closed : ofText (escaped letter) = ofText (['\\','u','\x7b'] ++ hexDigits letter) ++ [125] := by
    unfold ofText escaped
    rw [List.flatMap_append,List.flatMap_append,List.flatMap_append,List.append_assoc]
    rfl
  refine List.mem_append_left _ ?_
  have last := congrArg List.getLast? whole
  rw [closed,List.getLast?_append_of_ne_nil _ some',List.getLast?_concat] at last
  exact List.mem_of_mem_getLast? last

/-- What is taken away at the end is whole pieces of a text that ends with a whole one. -/
private theorem stripped_pieces (list : List Point) : ∃ count, stripped ((list.map shown).flatten.flatMap Point.units) =
    ((list.map shown).take count).flatten.flatMap Point.units := by
  induction list with
  | nil => exact ⟨0,rfl⟩
  | cons point list ih =>
    obtain ⟨count,own⟩ := ih
    rw [List.map_cons,List.flatten_cons,List.flatMap_append]
    have more : stripped ((shown point).flatMap Point.units ++ (list.map shown).flatten.flatMap Point.units) =
        (shown point).flatMap Point.units ++ stripped ((list.map shown).flatten.flatMap Point.units) →
        ∃ count, stripped ((shown point).flatMap Point.units ++ (list.map shown).flatten.flatMap Point.units) =
          ((shown point :: list.map shown).take count).flatten.flatMap Point.units := by
      intro kept
      refine ⟨count + 1,?_⟩
      rw [kept,own,List.take_succ_cons,List.flatten_cons,List.flatMap_append]
    cases point with
    | lone unit =>
      change ∃ count, stripped (Point.units (.lone unit) ++ _) = _
      rcases stripped_point (.lone unit) with none' | kept
      · exact ⟨0,none'⟩
      · exact more kept
    | scalar letter =>
      rcases scalar_shown letter with alone | escape
      · rw [alone,List.flatMap_singleton] at more ⊢
        rcases stripped_point (.scalar letter) with none' | kept
        · exact ⟨0,none'⟩
        · exact more kept
      · have spelled : (shown (.scalar letter)).flatMap Point.units = ofText (escaped letter) := by
          rw [escape,List.flatMap_map]
          rfl
        apply more
        rw [spelled]
        exact stripped_escape letter

private theorem taken_pieces {α : Type} (pieces : List (List α)) (max : Nat) : ∃ count part,
    pieces.flatten.take max = (pieces.take count).flatten ++ part ∧
      (part = [] ∨ ∃ piece ∈ pieces, part <+: piece ∧ part ≠ piece) := by
  induction pieces generalizing max with
  | nil => exact ⟨0,[],List.take_nil,.inl rfl⟩
  | cons piece pieces ih =>
    rw [List.flatten_cons]
    by_cases within : piece.length ≤ max
    · obtain ⟨count,part,same,kind⟩ := ih (max - piece.length)
      refine ⟨count + 1,part,?_,?_⟩
      · rw [List.take_append,List.take_of_length_le within,same,List.take_succ_cons,List.flatten_cons,List.append_assoc]
      · exact kind.imp_right fun ⟨other,inside,cut⟩ => ⟨other,List.mem_cons_of_mem _ inside,cut⟩
    · refine ⟨0,piece.take max,?_,.inr ⟨piece,List.mem_cons_self,List.take_prefix _ _,?_⟩⟩
      · rw [List.take_append_of_le_length (by omega)]
        rfl
      · intro same
        have length := congrArg List.length same
        rw [List.length_take] at length
        omega

/-- What a cut leaves of a piece. -/
private theorem part_half {point : Point} {part : List Point} (some' : part ≠ []) (within : part <+: shown point)
    (apart : part ≠ shown point) : isHalf (part.flatMap Point.units) = true := by
  have single : ∀ own, shown point = [own] → False := by
    intro own alone
    rw [alone] at within apart
    rcases List.prefix_cons_iff.mp within with none' | ⟨rest,rfl,inside⟩
    · exact some' none'
    · rw [List.prefix_nil.mp inside] at apart
      exact apart rfl
  cases point with
  | lone unit => exact (single _ rfl).elim
  | scalar letter =>
    rcases scalar_shown letter with alone | escape
    · exact (single _ alone).elim
    · rw [escape] at within apart
      obtain ⟨letters,inside,rfl⟩ := List.prefix_map_iff.mp within
      have spelled : (letters.map Point.scalar).flatMap Point.units = ofText letters := by
        rw [List.flatMap_map]
        rfl
      rw [spelled]
      refine half_escape ?_ inside ?_
      · rintro rfl
        exact some' rfl
      · rintro rfl
        exact apart rfl

private theorem clip_pieces (text : Units) (max : Nat) : ∃ count,
    (clip (escapeText text) max).1 = ((pieces text).take count).flatten.flatMap Point.units := by
  unfold clip
  split
  · refine ⟨(pieces text).length,?_⟩
    rw [List.take_length]
    exact escapeText_pieces text
  · rw [points_escapeText]
    obtain ⟨count,part,same,kind⟩ := taken_pieces (pieces text) max
    change ∃ count, stripped (((pieces text).flatten.take max).flatMap Point.units) = _
    rw [same,List.flatMap_append]
    by_cases none' : part = []
    · have taken : (pieces text).take count = ((broken (points text)).take count).map shown := List.map_take.symm
      obtain ⟨less,own⟩ := stripped_pieces ((broken (points text)).take count)
      rw [none',List.flatMap_nil,List.append_nil,taken,own,← taken,List.take_take]
      exact ⟨min less count,rfl⟩
    · obtain ⟨piece,inside,within,apart⟩ := kind.resolve_left none'
      obtain ⟨point,_,rfl⟩ := List.mem_map.mp inside
      exact ⟨count,stripped_half (part_half none' within apart)⟩

end Pieces

section Heads
variable {text part : Units} {max : Nat}

private theorem broken_prefix (first second : List Point) : broken first <+: broken (first ++ second) := by
  induction first using broken.induct with
  | case1 => exact List.nil_prefix
  | case2 point =>
    cases second with
    | nil => exact List.prefix_refl _
    | cons next second =>
      rw [List.singleton_append]
      unfold broken
      split
      · exact ⟨_,rfl⟩
      · exact ⟨_,rfl⟩
  | case3 point next rest break' skipped kept =>
    rw [List.cons_append,List.cons_append,broken,broken,if_pos break',if_pos break']
    refine (List.prefix_cons_inj _).mpr ?_
    split
    · exact skipped
    · exact kept
  | case4 point next rest apart ih =>
    rw [List.cons_append,List.cons_append,broken,broken,if_neg apart,if_neg apart]
    exact (List.prefix_cons_inj _).mpr ih

/-- Two points make at most one break. -/
private theorem broken_length (list : List Point) : list.length ≤ 2 * (broken list).length := by
  induction list using broken.induct with
  | case1 => exact le_rfl
  | case2 point =>
    change 1 ≤ 2 * 1
    omega
  | case3 point next rest break' skipped kept =>
    rw [broken,if_pos break',List.length_cons,List.length_cons,List.length_cons]
    rw [List.length_cons] at kept
    split
    · omega
    · omega
  | case4 point next rest apart ih =>
    rw [broken,if_neg apart]
    simp only [List.length_cons] at ih ⊢
    omega

private theorem shown_length (list : List Point) : list.length ≤ (list.map shown).flatten.length := by
  induction list with
  | nil => exact le_rfl
  | cons point list ih =>
    have some' := List.length_pos_iff.mpr (shown_ne_nil point)
    rw [List.map_cons,List.flatten_cons,List.length_append,List.length_cons]
    omega

private theorem pieces_prefix {common : List Point} (within : common <+: points text) :
    ((broken common).map shown).flatten <+: points (escapeText text) := by
  obtain ⟨rest,whole⟩ := within
  rw [points_escapeText,pieces,← whole]
  obtain ⟨more,same⟩ := broken_prefix common rest
  rw [← same,List.map_append,List.flatten_append]
  exact ⟨_,rfl⟩

private theorem clip_shares (shares : Shares (2 * max + 2) text part) :
    clip (escapeText part) max = clip (escapeText text) max := by
  obtain ⟨common,whole,cut,enough⟩ := shares
  rcases enough with rfl | enough
  · rfl
  have breaks := broken_length common
  have some' := shown_length (broken common)
  have whole := pieces_prefix whole
  have cut := pieces_prefix cut
  have longer := whole.length_le
  have long := cut.length_le
  have taken : (points (escapeText part)).take max = (points (escapeText text)).take max := by
    obtain ⟨rest,own⟩ := whole
    obtain ⟨more,other⟩ := cut
    rw [← own,← other,List.take_append_of_le_length (by omega),List.take_append_of_le_length (by omega)]
  unfold clip
  rw [if_neg (by omega),if_neg (by omega),taken]

/-- A head shows what the whole text shows, and a clip ends with a whole piece of what is written. -/
theorem clip_head (text : Units) (max : Nat) :
    clip (escapeText (headOf text (2 * max + 2))) max = clip (escapeText text) max ∧
      escapeText text = (pieces text).flatten.flatMap Point.units ∧
      ∃ count, (clip (escapeText text) max).1 = ((pieces text).take count).flatten.flatMap Point.units :=
  ⟨clip_shares (headOf_shares text _),escapeText_pieces text,clip_pieces text max⟩

end Heads

end PiDispatch.LiveTranscript
