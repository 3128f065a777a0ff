import PiDispatch.ExitUsageRuns

/-! The usage block between the two packages: the JSON that stands in the runner's exit line, and the worker's rebuild of it,
which takes the block whole or not at all. -/
namespace PiDispatch.UsageMeter
open Kernel JsonText Utf16

/-- The language's numbers as JSON has them: a finite one stands as a token that is read back, and a count stays whole. -/
structure Doubles extends Figures where
  kept : ∀ amount, 0 ≤ amount → ∀ figure, finite? (ofRat amount) = some figure →
    0 ≤ figure ∧ Token toNumbers (ofRat amount)
  whole : ∀ number : Nat, ∀ figure, finite? (ofRat number) = some figure → figure.isInt = true

section Write
variable (doubles : Doubles)

/-- A number that is not finite is written as null. -/
def written (amount : Rat) : JsonValue doubles.Value :=
  match doubles.finite? (doubles.ofRat amount) with
  | some _ => .number (doubles.ofRat amount)
  | none => .null

def USAGE_ROW_NUMERIC_KEYS : List String :=
  ["calls","input","output","cacheRead","cacheWrite","cacheWrite1h","reasoning","total","cost","unpriced","providerBilled"]

def NamedRow.members (named : NamedRow) : List (String × JsonValue doubles.Value) :=
  [("provider",.string (spell named.provider)),("model",.string (spell named.model))] ++
    (USAGE_ROW_NUMERIC_KEYS.zip named.row.sums).map fun member => (member.1,written doubles member.2)

def NamedRow.json (named : NamedRow) : JsonValue doubles.Value :=
  .object ((named.members doubles).map fun member => (spell member.1,member.2))

def UsageBlock.json (block : UsageBlock) : JsonValue doubles.Value :=
  .object [(spell "v",written doubles block.v),(spell "piAi",idJson doubles.toFigures block.piAi),
    (spell "truncated",written doubles block.truncated),
    (spell "models",.array (block.models.map fun named => named.json doubles))]

end Write

/-! The worker's side; `lower` is `toLowerCase`. -/

/-- `/^\d+\.\d+\.\d+$/`. -/
def dottedTriple (text : List Char) : Bool :=
  match text.splitOn '.' with
  | [major,minor,patch] => [major,minor,patch].all fun part => !part.isEmpty && part.all Char.isDigit
  | _ => false

structure RecordRow (N : Type) where
  provider : String
  model : String
  nums : List N

structure RecordUsage (N : Type) where
  v : N
  piAi : Option String
  truncated : Option N
  models : List (RecordRow N)

section Rebuild
variable (doubles : Doubles) (lower : String → String)

/-- A counter of a row: absent it is 0, and anything else than a number that is finite and not negative is refused. -/
def rowNumber (value : Option (JsonValue doubles.Value)) : Option doubles.Value :=
  match value with
  | none => some (doubles.ofNat 0)
  | some (.number value) => match doubles.finite? value with
    | some figure => if figure < 0 then none else some value
    | none => none
  | some _ => none

def rowId (value : Option (JsonValue doubles.Value)) : Option String :=
  match value with
  | some (.string units) => some (lower (wording units))
  | _ => none

def rebuildRow (row : JsonValue doubles.Value) : Option (RecordRow doubles.Value) :=
  if isPlain doubles.toFigures row = false then none
  else do
    let provider ← rowId doubles lower (row.field? (spell "provider"))
    let model ← rowId doubles lower (row.field? (spell "model"))
    if usageId provider.toList = false ∨ usageId model.toList = false then none
    else do
      let nums ← USAGE_ROW_NUMERIC_KEYS.mapM fun key => rowNumber doubles (row.field? (spell key))
      pure ⟨provider,model,nums⟩

/-- `Number.isInteger`, and not below `least`. -/
def isInteger (least : Rat) (value : JsonValue doubles.Value) : Option doubles.Value :=
  match value with
  | .number value => match doubles.finite? value with
    | some figure => if figure.isInt = true ∧ least ≤ figure then some value else none
    | none => none
  | _ => none

/-- The stamp of the rates: nothing, or three numbers between dots. -/
def rebuildPiAi (value : Option (JsonValue doubles.Value)) : Option (Option String) :=
  match value with
  | none | some .null => some none
  | some (.string units) => if dottedTriple (wording units).toList = true then some (some (wording units)) else none
  | some _ => none

def rebuildTruncated (value : Option (JsonValue doubles.Value)) : Option (Option doubles.Value) :=
  match value with
  | none => some none
  | some value => (isInteger doubles 0 value).map some

/-- One row at least, and nine at most. -/
def rebuildModels (value : Option (JsonValue doubles.Value)) : Option (List (RecordRow doubles.Value)) :=
  match value with
  | some (.array items) =>
    if items.length < 1 ∨ 9 < items.length then none else items.mapM (rebuildRow doubles lower)
  | _ => none

/-- The rebuild of the block: null on any violation. -/
def rebuildUsage (given : JsonValue doubles.Value) : Option (RecordUsage doubles.Value) :=
  if isPlain doubles.toFigures given = false then none
  else do
    let v ← (given.field? (spell "v")).bind (isInteger doubles 1)
    let piAi ← rebuildPiAi doubles (given.field? (spell "piAi"))
    let truncated ← rebuildTruncated doubles (given.field? (spell "truncated"))
    let models ← rebuildModels doubles lower (given.field? (spell "models"))
    pure ⟨v,piAi,truncated,models⟩

/-- What the worker makes of a block: its JSON, parsed and rebuilt. -/
def recordUsage (block : UsageBlock) : Option (RecordUsage doubles.Value) :=
  (parse doubles.toNumbers (stringify doubles.toNumbers (block.json doubles))).bind (rebuildUsage doubles lower)

end Rebuild

/-! What is written, and what is made of it. -/

section Laws
variable {doubles : Doubles} {lower : String → String}

/-- An amount that the language has as a finite number. -/
def Finite (doubles : Doubles) (amount : Rat) : Prop := (doubles.finite? (doubles.ofRat amount)).isSome = true

instance (amount : Rat) : Decidable (Finite doubles amount) := inferInstanceAs (Decidable (_ = true))

private theorem written_legible {amount : Rat} (positive : 0 ≤ amount) :
    Legible doubles.toNumbers (written doubles amount) := by
  unfold written
  split
  next figure finite => exact .number _ (doubles.kept amount positive figure finite).2
  next => exact .null

private theorem read_written {read : JsonValue doubles.Value → Option doubles.Value} (amount : Rat) (null : read .null = none)
    (number : ∀ figure, doubles.finite? (doubles.ofRat amount) = some figure →
      read (.number (doubles.ofRat amount)) = some (doubles.ofRat amount)) :
    read (written doubles amount) = if Finite doubles amount then some (doubles.ofRat amount) else none := by
  unfold written
  split
  next figure finite => exact (number figure finite).trans (if_pos (Option.isSome_of_eq_some finite)).symm
  next finite => exact null.trans (if_neg (Option.not_isSome_iff_eq_none.mpr finite)).symm

private theorem rowNumber_written {amount : Rat} (positive : 0 ≤ amount) :
    rowNumber doubles (some (written doubles amount)) = if Finite doubles amount then some (doubles.ofRat amount) else none := by
  apply @read_written doubles (fun value => rowNumber doubles (some value)) amount rfl
  intro figure finite
  unfold rowNumber
  dsimp only
  rw [finite]
  exact if_neg (not_lt.mpr (doubles.kept amount positive figure finite).1)

private theorem isInteger_written {least : Rat} {number : Nat}
    (fits : ∀ figure, doubles.finite? (doubles.ofRat number) = some figure → least ≤ figure) :
    isInteger doubles least (written doubles number) = if Finite doubles number then some (doubles.ofRat number) else none := by
  apply @read_written doubles (isInteger doubles least) number rfl
  intro figure finite
  unfold isInteger
  dsimp only
  rw [finite]
  exact if_pos ⟨doubles.whole number figure finite,fits figure finite⟩

private theorem version_written : isInteger doubles 1 (written doubles (1 : Nat)) = some (doubles.ofRat (1 : Nat)) := by
  have one := doubles.finite_ofRat _ (doubles.exact_nat 1 (by decide))
  refine (isInteger_written fun figure finite => ?_).trans (if_pos (Option.isSome_of_eq_some one))
  rw [one] at finite
  cases finite
  norm_num

private theorem guarded_bind {α β : Type} {good : Prop} [Decidable good] (value : α) (next : α → Option β) :
    (if good then some value else none).bind next = if good then next value else none := by
  split <;> rfl

private theorem mapM_guarded {α β : Type} {read : α → Option β} {good : α → Prop} [DecidablePred good] {given : α → β}
    {items : List α} (each : ∀ item ∈ items, read item = if good item then some (given item) else none) :
    items.mapM read = if ∀ item ∈ items, good item then some (items.map given) else none := by
  induction items with
  | nil => exact (if_pos (List.forall_mem_nil good)).symm
  | cons item items ih =>
    obtain ⟨own,others⟩ := List.forall_mem_cons.mp each
    rw [List.mapM_cons,own,ih others]
    simp only [Option.bind_eq_bind,Option.pure_def,guarded_bind,← ite_and,List.forall_mem_cons,List.map_cons]

/-- What the worker keeps of a row. -/
def NamedRow.record (doubles : Doubles) (lower : String → String) (named : NamedRow) : RecordRow doubles.Value :=
  ⟨lower named.provider,lower named.model,named.row.sums.map doubles.ofRat⟩

/-- A row whose ids, in lower case, the worker's pattern admits. -/
def NamedRow.Spelled (lower : String → String) (named : NamedRow) : Prop :=
  usageId (lower named.provider).toList = true ∧ usageId (lower named.model).toList = true

instance (named : NamedRow) : Decidable (named.Spelled lower) := inferInstanceAs (Decidable (_ ∧ _))

def Row.Finite (doubles : Doubles) (row : Row) : Prop := ∀ amount ∈ row.sums, UsageMeter.Finite doubles amount

instance (row : Row) : Decidable (row.Finite doubles) := inferInstanceAs (Decidable (∀ _ ∈ _, _))

private theorem sums_positive {row : Row} (positive : row.Positive) : ∀ amount ∈ row.sums, 0 ≤ amount := by
  unfold Row.sums
  simp only [List.forall_mem_cons]
  exact ⟨Nat.cast_nonneg _,positive.input,positive.output,positive.cacheRead,positive.cacheWrite,positive.cacheWrite1h,
    positive.reasoning,positive.total,positive.cost,Nat.cast_nonneg _,Nat.cast_nonneg _,nofun⟩

private theorem row_fields (named : NamedRow) :
    (named.json doubles).field? (spell "provider") = some (.string (spell named.provider)) ∧
    (named.json doubles).field? (spell "model") = some (.string (spell named.model)) ∧
    USAGE_ROW_NUMERIC_KEYS.map (fun key => (named.json doubles).field? (spell key)) =
      named.row.sums.map fun amount => some (written doubles amount) := by
  refine ⟨?_,?_,?_⟩
  · simp [NamedRow.json,NamedRow.members,JsonValue.field?]
  · simp [NamedRow.json,NamedRow.members,JsonValue.field?,spell_inj]
  · simp [NamedRow.json,NamedRow.members,JsonValue.field?,spell_inj,USAGE_ROW_NUMERIC_KEYS,Row.sums]

private theorem rebuildRow_json {named : NamedRow} (positive : named.row.Positive) :
    rebuildRow doubles lower (named.json doubles) =
      if named.Spelled lower ∧ named.row.Finite doubles then some (named.record doubles lower) else none := by
  obtain ⟨provider,model,numbers⟩ := @row_fields doubles named
  have nums : USAGE_ROW_NUMERIC_KEYS.mapM (fun key => rowNumber doubles ((named.json doubles).field? (spell key))) =
      if named.row.Finite doubles then some (named.row.sums.map doubles.ofRat) else none := by
    have each : ∀ amount ∈ named.row.sums, rowNumber doubles (some (written doubles amount)) =
        if Finite doubles amount then some (doubles.ofRat amount) else none :=
      fun amount inside => rowNumber_written (sums_positive positive amount inside)
    have all := mapM_guarded each
    change USAGE_ROW_NUMERIC_KEYS.mapM (rowNumber doubles ∘ fun key => (named.json doubles).field? (spell key)) = _
    rw [← List.mapM_map,numbers,List.mapM_map]
    exact all
  unfold rebuildRow
  rw [if_neg (by simp [NamedRow.json,isPlain]),provider,model,nums]
  unfold rowId
  dsimp only [Option.bind_eq_bind,Option.bind_some]
  rw [wording_spell,wording_spell,guarded_bind]
  unfold NamedRow.Spelled
  by_cases provider : usageId (lower named.provider).toList = true
  · by_cases model : usageId (lower named.model).toList = true
    · simp [provider,model,NamedRow.record]
    · simp [model]
  · simp [provider]

private theorem row_keys : ∀ name ∈ ["provider","model"] ++ USAGE_ROW_NUMERIC_KEYS ++ ["v","piAi","truncated","models"],
    JsonValue.index? (spell name) = none := by decide

private theorem named_legible {named : NamedRow} (positive : named.row.Positive) :
    Legible doubles.toNumbers (named.json doubles) := by
  have names : (named.members doubles).map Prod.fst = ["provider","model"] ++ USAGE_ROW_NUMERIC_KEYS := rfl
  refine @object_legible doubles.toFigures _ ?_ ?_ ?_
  · intro member inside
    rcases List.mem_append.mp inside with id | number
    · simp only [List.mem_cons,List.not_mem_nil,or_false] at id
      rcases id with rfl | rfl
      · exact .string _
      · exact .string _
    · obtain ⟨own,held,rfl⟩ := List.mem_map.mp number
      exact written_legible (sums_positive positive own.2 (List.of_mem_zip held).2)
  · rw [names]
    exact fun name inside => row_keys name (List.mem_append_left _ inside)
  · rw [names]
    decide

/-- What the worker's rebuild asks of a block. -/
def UsageBlock.Admissible (doubles : Doubles) (lower : String → String) (block : UsageBlock) : Prop :=
  (∀ version ∈ block.piAi, dottedTriple version.toList = true) ∧ Finite doubles block.truncated ∧ block.models ≠ [] ∧
    ∀ named ∈ block.models, named.Spelled lower ∧ named.row.Finite doubles

instance (block : UsageBlock) : Decidable (block.Admissible doubles lower) := inferInstanceAs (Decidable (_ ∧ _))

def UsageBlock.record (doubles : Doubles) (lower : String → String) (block : UsageBlock) : RecordUsage doubles.Value :=
  ⟨doubles.ofRat block.v,block.piAi,some (doubles.ofRat block.truncated),block.models.map fun named => named.record doubles lower⟩

section Block
variable {block : UsageBlock} (version : block.v = 1) (few : block.models.length ≤ 9)
  (positive : ∀ named ∈ block.models, named.row.Positive)
include positive

private theorem block_legible : Legible doubles.toNumbers (block.json doubles) := by
  refine @object_legible doubles.toFigures [("v",written doubles block.v),("piAi",idJson doubles.toFigures block.piAi),
    ("truncated",written doubles block.truncated),("models",.array (block.models.map fun named => named.json doubles))] ?_ ?_ ?_
  · simp only [List.forall_mem_cons]
    refine ⟨written_legible (Nat.cast_nonneg _),?_,written_legible (Nat.cast_nonneg _),.array _ ?_,nofun⟩
    · cases block.piAi with
      | none => exact .null
      | some version => exact .string _
    · intro item inside
      obtain ⟨named,member,rfl⟩ := List.mem_map.mp inside
      exact named_legible (positive named member)
  · exact fun name inside => row_keys name (List.mem_append_right _ inside)
  · change ["v","piAi","truncated","models"].Nodup
    decide

include version few

/-- The worker takes a block whole, or not at all. -/
theorem block_recorded : recordUsage doubles lower block =
    if block.Admissible doubles lower then some (block.record doubles lower) else none := by
  have v : (block.json doubles).field? (spell "v") = some (written doubles block.v) := by
    simp [UsageBlock.json,JsonValue.field?]
  have piAi : (block.json doubles).field? (spell "piAi") = some (idJson doubles.toFigures block.piAi) := by
    simp [UsageBlock.json,JsonValue.field?,spell_inj]
  have truncated : (block.json doubles).field? (spell "truncated") = some (written doubles block.truncated) := by
    simp [UsageBlock.json,JsonValue.field?,spell_inj]
  have models : (block.json doubles).field? (spell "models") =
      some (.array (block.models.map fun named => named.json doubles)) := by
    simp [UsageBlock.json,JsonValue.field?,spell_inj]
  have rows : (block.models.map fun named => named.json doubles).mapM (rebuildRow doubles lower) =
      if ∀ named ∈ block.models, named.Spelled lower ∧ named.row.Finite doubles then
        some (block.models.map fun named => named.record doubles lower) else none := by
    rw [List.mapM_map]
    exact mapM_guarded fun named inside => rebuildRow_json (positive named inside)
  have stamp : rebuildPiAi doubles (some (idJson doubles.toFigures block.piAi)) =
      if ∀ version ∈ block.piAi, dottedTriple version.toList = true then some block.piAi else none := by
    cases block.piAi with
    | none => exact (if_pos (by simp)).symm
    | some version =>
      unfold rebuildPiAi idJson
      dsimp only
      rw [wording_spell]
      by_cases dotted : dottedTriple version.toList = true
      · rw [if_pos dotted,if_pos (by simpa using dotted)]
      · rw [if_neg dotted,if_neg (by simpa using dotted)]
  have read : recordUsage doubles lower block = rebuildUsage doubles lower (block.json doubles) := by
    unfold recordUsage
    rw [parse_legible (block_legible positive)]
    rfl
  rw [read]
  unfold rebuildUsage
  rw [if_neg (by simp [UsageBlock.json,isPlain]),v,piAi,truncated,models,stamp,version]
  unfold rebuildTruncated rebuildModels
  dsimp only [Option.bind_eq_bind,Option.bind_some]
  rw [version_written,isInteger_written fun figure finite => (doubles.kept _ (Nat.cast_nonneg _) figure finite).1,
    List.length_map,rows]
  have size : (block.models.length < 1 ∨ 9 < block.models.length) ↔ ¬block.models ≠ [] := by
    rw [not_not,← List.length_eq_zero_iff]
    omega
  simp only [size,ite_not,Option.bind_some,Option.map_eq_bind,guarded_bind,Function.comp_apply,Option.pure_def,← ite_and]
  unfold UsageBlock.Admissible UsageBlock.record
  rw [version]
  exact if_congr Iff.rfl rfl rfl

end Block

end Laws

/-! The blocks of runs. -/

namespace RunMeter
variable {run : RunMeter}

/-- No figure is below zero, in the run's own rows or its children's. -/
private structure Positive (run : RunMeter) : Prop where
  whole : run.meter.Whole
  held : ∀ row ∈ run.held.rows, row.row.Positive

private theorem raiseRow_grows (held given : Row) : held.Within (raiseRow held given) :=
  ⟨le_max_left _ _,le_max_left _ _,le_max_left _ _,le_max_left _ _,le_max_left _ _,le_max_left _ _,le_max_left _ _,
    le_max_left _ _,le_max_left _ _,le_max_left _ _,le_max_left _ _⟩

private theorem setRow_positive {rows : List LedgerRow} (positive : ∀ row ∈ rows, row.row.Positive) (given : LedgerRow) :
    ∀ row ∈ setRow rows given, row.row.Positive := by
  intro row inside
  unfold setRow at inside
  dsimp only at inside
  split at inside
  · obtain ⟨held,member,rfl⟩ := List.mem_map.mp inside
    split
    · exact (positive held member).trans (raiseRow_grows _ _)
    · exact positive held member
  · rcases List.mem_append.mp inside with held | fresh
    · exact positive row held
    · rw [List.mem_singleton.mp fresh]
      exact raiseRow_grows _ _

private theorem positive_kept (positive : run.Positive) (root : Option String) (act : MeterAct) :
    (run.step root act).Positive := by
  obtain ⟨whole,held⟩ := positive
  cases act with
  | observe seen =>
    unfold step
    dsimp only
    split
    · exact ⟨whole,held⟩
    · exact ⟨Meter.observe_whole whole seen,held⟩
  | settle ctx settled =>
    unfold step
    dsimp only
    split
    · exact ⟨whole,held⟩
    next pending => exact ⟨Meter.settle_whole whole (Nat.pos_of_ne_zero pending) root ctx settled,held⟩
  | setChildren fold =>
    refine ⟨whole,?_⟩
    change ∀ row ∈ fold.rows.foldl setRow ((run.children.map Children.rows).getD []), row.row.Positive
    rw [run.held_getD Children.rows [] rfl]
    refine List.foldlRecOn (motive := fun rows => ∀ row ∈ rows, row.row.Positive) fold.rows setRow held ?_
    exact fun rows positive given _ => setRow_positive positive given
  | setPiAiVersion version =>
    unfold step setPiAiVersion
    dsimp only
    split <;> exact ⟨whole,held⟩

private theorem positive_after (root : Option String) (acts : List MeterAct) :
    (acts.foldl (step root) .initial).Positive := by
  refine List.foldlRecOn (motive := Positive) acts (step root) ⟨Meter.initial_whole,List.forall_mem_nil _⟩ ?_
  exact fun run positive act _ => positive_kept positive root act

private theorem merged_positive (positive : run.Positive) : Among (AddSubmonoid.nonneg Row) run.merged :=
  merged_among ⟨positive.whole.other,fun entry inside => (positive.whole.named entry inside).2.1⟩ positive.held

/-- A block has no rows while no call has settled. -/
private theorem block_empty {block : UsageBlock} (told : run.usageSnapshot = some block) :
    block.models = [] ↔ run.merged.1 = [] ∧ run.merged.2.calls = 0 := by
  have length := run.named_perm.length_eq
  rw [List.length_map] at length
  have empty : run.named = [] ↔ run.merged.1 = [] := by
    rw [← List.length_eq_zero_iff,length,List.length_eq_zero_iff]
  cases usageSnapshot_told told
  rw [List.append_eq_nil_iff,List.take_eq_nil_iff,or_iff_right (by decide),empty]
  refine and_congr_right fun none => ?_
  have rest : run.overflow = run.merged.2 := by
    unfold overflow
    rw [empty.mpr none]
    rfl
  rw [rest]
  simp

/-- Whole numbers, and the letters of ASCII. -/
private def wholes : Doubles where
  toFigures := naturals
  kept amount _ figure finite := by
    change naturalOf (decimal amount.num.toNat) = some figure at finite
    unfold naturalOf at finite
    dsimp only at finite
    split at finite
    · cases finite
      exact ⟨Nat.cast_nonneg _,@token_decimal decimals amount.num.toNat rfl rfl⟩
    · cases finite
  whole number figure finite := by
    change naturalOf (decimal (number : Rat).num.toNat) = some figure at finite
    unfold naturalOf at finite
    dsimp only at finite
    split at finite
    · cases finite
      rfl
    · cases finite

private def latin (id : String) : String := String.ofList (id.toList.map Char.toLower)

private def pendingRun : List MeterAct := [.observe (some 0)]

end RunMeter

end PiDispatch.UsageMeter
