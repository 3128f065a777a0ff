import PiDispatch.Kernel.Blank
import PiDispatch.Kernel.Fence
import PiDispatch.Kernel.JsonText

/-! What a person types at the deployment, as a job may carry it: the scrub of an answer, the scrub of a steer message
on top of it, and the fence that a text is quoted in. -/
namespace PiDispatch.SteerText
open Kernel Octets

def ANSWER_TEXT_MAX_BYTES : Nat := 8 * 1024

/-- `\r\n` and a lone `\r` become `\n`. -/
def lineEnds : Text → Text
  | [] => []
  | ['\r'] => ['\n']
  | '\r' :: '\n' :: rest => '\n' :: lineEnds rest
  | '\r' :: rest => '\n' :: lineEnds rest
  | letter :: rest => letter :: lineEnds rest

def isSeparator (letter : Char) : Bool := letter = '\u2028' || letter = '\u2029'

/-- A control character other than the newline, or a bidirectional format character. -/
def isControl (letter : Char) : Bool :=
  letter.toNat ≤ 0x09 || (0x0B ≤ letter.toNat && letter.toNat ≤ 0x1F) || (0x7F ≤ letter.toNat && letter.toNat ≤ 0x9F) ||
    letter.toNat = 0x061C || letter.toNat = 0x200E || letter.toNat = 0x200F ||
    (0x202A ≤ letter.toNat && letter.toNat ≤ 0x202E) || (0x2066 ≤ letter.toNat && letter.toNat ≤ 0x2069)

def scrubAnswerText (text : Text) : Text :=
  let lines := (lineEnds text).map fun letter => if isSeparator letter then '\n' else letter
  let spaced := lines.map fun letter => if letter = '\t' then ' ' else letter
  spaced.filter fun letter => !isControl letter

inductive Unfit
  | empty
  | large (bytes : Nat)
  deriving DecidableEq

def boundAnswerText (raw : Text) : Except Unfit Text :=
  let text := scrubAnswerText raw
  if trimLetters text = [] then .error .empty
  else if (utf8 text).length > ANSWER_TEXT_MAX_BYTES then .error (.large (utf8 text).length)
  else .ok text

/-- `STEER_INVISIBLE_RE`. -/
def isInvisible (letter : Char) : Bool :=
  (0xE0000 ≤ letter.toNat && letter.toNat ≤ 0xE007F) || (0x200B ≤ letter.toNat && letter.toNat ≤ 0x200D) ||
    (0x2060 ≤ letter.toNat && letter.toNat ≤ 0x2064) || letter.toNat = 0x180E || letter.toNat = 0xFEFF

/-- `BACKTICK_LOOKALIKE_RE`. -/
def isLookalike (letter : Char) : Bool := letter = '\uFF40' || letter = '\u02CB' || letter = '\u1FEF'

def scrubSteerText (raw : Text) : Text :=
  ((scrubAnswerText raw).filter fun letter => !isInvisible letter).map fun letter =>
    if isLookalike letter then '`' else letter

def fenceBlock (content : Text) : Text :=
  let fence := List.replicate (max 3 (Fence.longest '`' content + 1)) '`'
  fence ++ "text\n".toList ++ content ++ '\n' :: fence

section Scrub

/-- A letter that the answer's scrub leaves. -/
def isAnswerLetter (letter : Char) : Bool := !isControl letter && !isSeparator letter

/-- A letter that the steer scrub leaves. -/
def isSteerLetter (letter : Char) : Bool := isAnswerLetter letter && !isInvisible letter && !isLookalike letter

private theorem answer_plain {letter : Char} (left : isAnswerLetter letter = true) :
    letter ≠ '\r' ∧ letter ≠ '\t' ∧ isSeparator letter = false ∧ isControl letter = false := by
  obtain ⟨control,separator⟩ := Bool.and_eq_true_iff.mp left
  rw [Bool.not_eq_true'] at control separator
  refine ⟨?_,?_,separator,control⟩
  · rintro rfl
    cases control
  · rintro rfl
    cases control

private theorem lineEnds_plain {text : Text} (free : '\r' ∉ text) : lineEnds text = text := by
  induction text with
  | nil => rfl
  | cons letter text ih =>
    rw [List.mem_cons,not_or] at free
    rw [lineEnds.eq_def]
    split
    next same => cases same
    next same => exact absurd (List.cons.inj same).1.symm free.1
    next same => exact absurd (List.cons.inj same).1.symm free.1
    next same => exact absurd (List.cons.inj same).1.symm free.1
    next same =>
      obtain ⟨rfl,rfl⟩ := List.cons.inj same
      rw [ih free.2]

/-- The answer's scrub leaves a text of letters that it leaves. -/
theorem answer_fixed {text : Text} (left : ∀ letter ∈ text, isAnswerLetter letter = true) : scrubAnswerText text = text := by
  have free : '\r' ∉ text := fun inside => (answer_plain (left _ inside)).1 rfl
  have lines : text.map (fun letter => if isSeparator letter then '\n' else letter) = text := by
    refine (List.map_congr_left fun letter inside => ?_).trans (List.map_id text)
    rw [(answer_plain (left letter inside)).2.2.1]
    rfl
  have spaced : text.map (fun letter => if letter = '\t' then ' ' else letter) = text := by
    refine (List.map_congr_left fun letter inside => ?_).trans (List.map_id text)
    exact if_neg (answer_plain (left letter inside)).2.1
  unfold scrubAnswerText
  dsimp only
  rw [lineEnds_plain free,lines,spaced]
  refine List.filter_eq_self.mpr fun letter inside => ?_
  rw [(answer_plain (left letter inside)).2.2.2]
  rfl

theorem answer_left (text : Text) : ∀ letter ∈ scrubAnswerText text, isAnswerLetter letter = true := by
  intro letter inside
  obtain ⟨kept,control⟩ := List.mem_filter.mp inside
  obtain ⟨lined,among,rfl⟩ := List.mem_map.mp kept
  obtain ⟨first,_,rfl⟩ := List.mem_map.mp among
  refine Bool.and_eq_true_iff.mpr ⟨control,?_⟩
  cases apart : isSeparator first with
  | true => rfl
  | false =>
    simp only [Bool.false_eq_true,if_false]
    split
    · rfl
    · rw [apart]
      rfl

theorem steer_fixed {text : Text} (left : ∀ letter ∈ text, isSteerLetter letter = true) : scrubSteerText text = text := by
  have each : ∀ letter ∈ text, isAnswerLetter letter = true ∧ isInvisible letter = false ∧ isLookalike letter = false := by
    intro letter inside
    obtain ⟨rest,lookalike⟩ := Bool.and_eq_true_iff.mp (left letter inside)
    obtain ⟨answer,invisible⟩ := Bool.and_eq_true_iff.mp rest
    rw [Bool.not_eq_true'] at invisible lookalike
    exact ⟨answer,invisible,lookalike⟩
  have seen : text.filter (fun letter => !isInvisible letter) = text := by
    refine List.filter_eq_self.mpr fun letter inside => ?_
    rw [(each letter inside).2.1]
    rfl
  unfold scrubSteerText
  rw [answer_fixed fun letter inside => (each letter inside).1,seen]
  refine (List.map_congr_left fun letter inside => ?_).trans (List.map_id text)
  rw [(each letter inside).2.2]
  rfl

theorem steer_left (text : Text) : ∀ letter ∈ scrubSteerText text, isSteerLetter letter = true := by
  intro letter inside
  obtain ⟨first,kept,rfl⟩ := List.mem_map.mp inside
  obtain ⟨scrubbed,invisible⟩ := List.mem_filter.mp kept
  have answer := answer_left text first scrubbed
  cases lookalike : isLookalike first with
  | true => rfl
  | false =>
    rw [if_neg (by exact Bool.false_ne_true)]
    unfold isSteerLetter
    rw [answer,invisible,lookalike]
    rfl

/-- The second of two steer scrubs does nothing, and neither does the answer's scrub after one. -/
theorem scrub_twice (text : Text) : scrubSteerText (scrubSteerText text) = scrubSteerText text ∧
    scrubAnswerText (scrubSteerText text) = scrubSteerText text := by
  refine ⟨steer_fixed (steer_left text),answer_fixed fun letter inside => ?_⟩
  have left := steer_left text letter inside
  exact (Bool.and_eq_true_iff.mp (Bool.and_eq_true_iff.mp left).1).1

end Scrub

section Fenced

/-- A quoted text can be told from what quotes it: nothing before the fence is a backtick, and of the lines after the
fence only the last is one that closes it. -/
structure Fenced (content text : Text) (lead : Text) (width : Nat) : Prop where
  shape : content = lead ++ List.replicate width '`' ++ "text\n".toList ++ text ++ '\n' :: List.replicate width '`'
  first : '`' ∉ lead
  wide : 3 ≤ width
  lines : Lines.split '\n' ("text\n".toList ++ text ++ '\n' :: List.replicate width '`') =
    "text".toList :: (Lines.split '\n' text ++ [List.replicate width '`'])
  info : ¬Fence.Closes '`' width "text".toList
  inner : ∀ line ∈ Lines.split '\n' text, ¬Fence.Closes '`' width line
  last : Fence.Closes '`' width (List.replicate width '`')

theorem fenced_block {lead : Text} (plain : '`' ∉ lead) (text : Text) :
    Fenced (lead ++ fenceBlock text) text lead (max 3 (Fence.longest '`' text + 1)) := by
  generalize wide : max 3 (Fence.longest '`' text + 1) = width
  have closing : '\n' ∉ List.replicate width '`' := by
    intro inside
    exact absurd (List.eq_of_mem_replicate inside) (by decide)
  refine ⟨?_,plain,by omega,?_,?_,fun line among => ?_,?_⟩
  · unfold fenceBlock
    dsimp only
    rw [wide]
    simp only [List.append_assoc]
  · have info : "text\n".toList ++ text ++ '\n' :: List.replicate width '`' =
        "text".toList ++ '\n' :: (text ++ '\n' :: List.replicate width '`') := by simp
    rw [info,Lines.split_append,Lines.split_append,Lines.split_unbroken closing,Lines.split_unbroken (by decide)]
    rfl
  · rintro ⟨_,marks⟩
    exact absurd (marks 't' (by decide)) (by decide)
  · exact Fence.open_line (by omega) among
  · rw [Fence.Closes,List.length_replicate]
    exact ⟨Nat.le_refl _,fun item inside => List.eq_of_mem_replicate inside⟩

end Fenced

end PiDispatch.SteerText
