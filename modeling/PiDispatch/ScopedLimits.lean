import PiDispatch.DollarBudget

/-! The dollar key prefixes of limit rows. A row's prefix carries sixteen hex digits of a hash, taken here
as a parameter; all that the key rules rest on is their number. -/
namespace PiDispatch.ScopedLimits
open DollarBudget Budget

def SCOPE_DOLLAR_KEY_PREFIX : String := DOLLAR_KEY_PREFIX ++ ":s"
def MODEL_DOLLAR_KEY_PREFIX : String := DOLLAR_KEY_PREFIX ++ ":mdl"

def scopeDollarKeyPrefix (hash16 : String → String) (scope : String) : String :=
  SCOPE_DOLLAR_KEY_PREFIX ++ (":" ++ hash16 scope)

def modelDollarKeyPrefix (hash16 : String → String) (ref : String) : String :=
  MODEL_DOLLAR_KEY_PREFIX ++ (":" ++ hash16 ref.toLower)

/-- The prefixes that the worker's ledgers carry. -/
inductive WorkerPrefix (hash16 : String → String) : String → Prop
  | deployment : WorkerPrefix hash16 DOLLAR_KEY_PREFIX
  | scope (scope : String) : WorkerPrefix hash16 (scopeDollarKeyPrefix hash16 scope)
  | model (ref : String) : WorkerPrefix hash16 (modelDollarKeyPrefix hash16 ref)

def suffixLength : WindowName → Nat
  | .day => 11
  | .week => 13
  | .month => 10

def windowSuffix (now : Instant) : WindowName → List Char
  | .day => ":".toList ++ (Clock.slice 10 (Clock.isoDate (Clock.civil (Clock.dayNumber now)))).toList
  | .week => ":w:".toList ++
      (Clock.slice 10 (Clock.isoDate (Clock.civil (Clock.monday (Clock.dayNumber now))))).toList
  | .month => ":m:".toList ++ (Clock.slice 7 (Clock.isoDate (Clock.civil (Clock.dayNumber now)))).toList

theorem windowKey_toList (now : Instant) (keyPrefix : String) (name : WindowName) :
    (windowKey now keyPrefix name).toList = keyPrefix.toList ++ windowSuffix now name := by
  cases name <;> simp [windowKey,dayKey,weekKey,monthKey,windowSuffix]

theorem windowSuffix_length (now : Instant) (name : WindowName) :
    (windowSuffix now name).length = suffixLength name := by
  have dates := fun day => Clock.slice_length 10 (Clock.isoDate day) (Clock.isoDate_length day)
  have months := fun day => Clock.slice_length 7 (Clock.isoDate day) (le_trans (by decide) (Clock.isoDate_length day))
  cases name <;> simp only [windowSuffix,suffixLength,List.length_append,dates,months] <;> rfl

section Prefixes
variable {hash16 : String → String} (hashes : ∀ text, (hash16 text).toList.length = 16)
include hashes

/-- The length of a prefix tells its kind; the twelfth character tells a row's kind. -/
private theorem prefix_shape {keyPrefix : String} (shaped : WorkerPrefix hash16 keyPrefix) :
    keyPrefix.toList.length = 10 ∨
      (keyPrefix.toList.length = 29 ∧ keyPrefix.toList.take 12 = "budget:usd:s".toList) ∨
      (keyPrefix.toList.length = 31 ∧ keyPrefix.toList.take 12 = "budget:usd:m".toList) := by
  cases shaped with
  | deployment => exact .inl (by decide)
  | scope scope =>
    have shape : (scopeDollarKeyPrefix hash16 scope).toList = "budget:usd:s:".toList ++ (hash16 scope).toList := by
      simp [scopeDollarKeyPrefix,SCOPE_DOLLAR_KEY_PREFIX,DOLLAR_KEY_PREFIX]
    refine .inr (.inl ⟨?_,?_⟩)
    · rw [shape,List.length_append,hashes]
      rfl
    · rw [shape,List.take_append_of_le_length (by decide)]
      decide
  | model ref =>
    have shape : (modelDollarKeyPrefix hash16 ref).toList = "budget:usd:mdl:".toList ++ (hash16 ref.toLower).toList := by
      simp [modelDollarKeyPrefix,MODEL_DOLLAR_KEY_PREFIX,DOLLAR_KEY_PREFIX]
    refine .inr (.inr ⟨?_,?_⟩)
    · rw [shape,List.length_append,hashes]
      rfl
    · rw [shape,List.take_append_of_le_length (by decide)]
      decide

theorem prefix_length {keyPrefix : String} (shaped : WorkerPrefix hash16 keyPrefix) :
    10 ≤ keyPrefix.toList.length ∧ keyPrefix.toList.length ≤ 31 := by
  rcases prefix_shape hashes shaped with length | ⟨length,_⟩ | ⟨length,_⟩ <;> omega

omit hashes in
theorem prefix_under_dollar {keyPrefix : String} (shaped : WorkerPrefix hash16 keyPrefix) :
    keyPrefix = DOLLAR_KEY_PREFIX ∨ (DOLLAR_KEY_PREFIX ++ ":").toList <+: keyPrefix.toList := by
  cases shaped with
  | deployment => exact .inl rfl
  | scope scope =>
    refine .inr ⟨"s:".toList ++ (hash16 scope).toList,?_⟩
    simp [scopeDollarKeyPrefix,SCOPE_DOLLAR_KEY_PREFIX]
  | model ref =>
    refine .inr ⟨"mdl:".toList ++ (hash16 ref.toLower).toList,?_⟩
    simp [modelDollarKeyPrefix,MODEL_DOLLAR_KEY_PREFIX]

/-- No two windows of the worker's ledgers share a key. -/
theorem windowKey_injective (now : Instant) {left right : String} {first second : WindowName}
    (leftShaped : WorkerPrefix hash16 left) (rightShaped : WorkerPrefix hash16 right)
    (same : windowKey now left first = windowKey now right second) : left = right ∧ first = second := by
  have chars : left.toList ++ windowSuffix now first = right.toList ++ windowSuffix now second := by
    rw [← windowKey_toList,← windowKey_toList,same]
  have lengths : left.toList.length + suffixLength first = right.toList.length + suffixLength second := by
    have total := congrArg List.length chars
    simpa [windowSuffix_length] using total
  have name : first = second := by
    rcases prefix_shape hashes leftShaped with leftLength | ⟨leftLength,leftKind⟩ | ⟨leftLength,leftKind⟩ <;>
      rcases prefix_shape hashes rightShaped with rightLength | ⟨rightLength,rightKind⟩ | ⟨rightLength,rightKind⟩ <;>
      rw [leftLength,rightLength] at lengths
    case inr.inl.inr.inr | inr.inr.inr.inl =>
      have head := congrArg (List.take 12) chars
      rw [List.take_append_of_le_length (by omega),List.take_append_of_le_length (by omega),leftKind,rightKind] at head
      exact absurd head (by decide)
    all_goals cases first <;> cases second <;> simp [suffixLength] at lengths ⊢
  subst name
  exact ⟨String.toList_injective (List.append_cancel_right chars),rfl⟩

end Prefixes

end PiDispatch.ScopedLimits
