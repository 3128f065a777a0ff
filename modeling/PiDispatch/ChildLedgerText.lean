import PiDispatch.Kernel.JsonBalance
import PiDispatch.LedgerRows

/-! A proper ledger whose figures the language keeps exactly: its text is no larger than the parent reads, and the parent
reads the same ledger back from it. -/
namespace PiDispatch.UsageMeter
open Kernel JsonText Utf16

structure Ledger.Proper (ledger : Ledger) : Prop where
  unresolved : ledger.totals.unresolved ≤ ledger.totals.calls
  calls : (sumRows ledger.rows).calls = ledger.totals.calls - ledger.totals.unresolved
  unpriced : (sumRows ledger.rows).unpriced = ledger.totals.unpriced
  input : (sumRows ledger.rows).input = ledger.totals.input
  output : (sumRows ledger.rows).output = ledger.totals.output
  total : (sumRows ledger.rows).total = ledger.totals.total
  cost : (sumRows ledger.rows).cost = ledger.totals.cost
  rows : ∀ row ∈ ledger.rows, row.Recordable ∧ row.row.Positive
  keys : (ledger.rows.map LedgerRow.key).Nodup
  few : ledger.rows.length ≤ CHILD_LEDGER_ROWS
  spent : 0 ≤ ledger.spentMicros
  inflight : 0 ≤ ledger.inflightMicros ∧ ledger.inflightMicros ≤ maxSafeInteger

def Row.sums (row : Row) : List Rat :=
  [(row.calls : Nat),row.input,row.output,row.cacheRead,row.cacheWrite,row.cacheWrite1h,row.reasoning,row.total,row.cost,
    (row.unpriced : Nat),(row.providerBilled : Nat)]

/-- Everything that a ledger sums, but for the cost guard's micro-dollars. -/
def Ledger.sums (ledger : Ledger) : List Rat :=
  [ledger.totals.input,ledger.totals.output,ledger.totals.total,ledger.totals.cost,(ledger.totals.calls : Nat),
    (ledger.totals.unresolved : Nat),(ledger.totals.unpriced : Nat),(ledger.totals.sessions : Nat),
    (ledger.costRefused : Nat),(ledger.modelRefused : Nat),(ledger.boundExceeded : Nat),(ledger.costUnanswered : Nat),
    (ledger.costUnreported : Nat),(ledger.longContext : Nat),(ledger.costUnjudged : Nat)] ++
    ledger.rows.flatMap fun row => row.row.sums

variable (figures : Figures)

/-- A sum that stays at or below the largest safe integer, and that the language keeps exactly. -/
def Carried (sum : Rat) : Prop := figures.Exact sum ∧ sum ≤ maxSafeInteger

def Ledger.Carried (ledger : Ledger) : Prop := ∀ sum ∈ ledger.sums, UsageMeter.Carried figures sum

/-! Numbers and ids. -/

private theorem nat_within {number : Nat} (within : ((number : Nat) : Rat) ≤ maxSafeInteger) : number ≤ maxSafeInteger := by
  exact_mod_cast within

private theorem whole_numeral {number : Nat} (carried : Carried figures (number : Nat)) :
    whole figures (some (numeral figures (number : Nat))) = some number := by
  have within := nat_within carried.2
  unfold whole numeral
  dsimp only
  rw [figures.ofRat_nat number within,figures.safe_ofNat number within]

private theorem amount_numeral {figure : Rat} (carried : Carried figures figure) (positive : 0 ≤ figure) :
    amount figures (some (numeral figures figure)) = some figure := by
  unfold amount numeral
  dsimp only
  rw [figures.finite_ofRat figure carried.1,Option.filter_some,if_pos (by simpa using ⟨positive,carried.2⟩)]

private theorem carried_nat {number : Nat} (within : number ≤ maxSafeInteger) : Carried figures (number : Nat) :=
  ⟨figures.exact_nat number within,by exact_mod_cast within⟩

private theorem whole_nat {number : Nat} (within : number ≤ maxSafeInteger) :
    whole figures (some (numeral figures (number : Nat))) = some number := whole_numeral figures (carried_nat figures within)

private theorem numeral_legible {figure : Rat} (carried : Carried figures figure) (positive : 0 ≤ figure) :
    Legible figures.toNumbers (numeral figures figure) :=
  .number _ (figures.token figure carried.1 positive carried.2)

private theorem numeral_bytes {figure : Rat} (carried : Carried figures figure) (positive : 0 ≤ figure) :
    (Octets.utf8 (stringify figures.toNumbers (numeral figures figure))).length ≤ 24 := by
  unfold numeral
  rw [stringify]
  exact figures.short figure carried.1 positive carried.2

theorem digit_ascii {letter : Char} (digit : letter.isDigit) : letter.toNat < 0x80 := by
  unfold Char.isDigit at digit
  simp only [Bool.and_eq_true,decide_eq_true_eq] at digit
  have high : letter.val.toNat ≤ 57 := digit.2
  change letter.val.toNat < 0x80
  omega

private theorem nat_bytes {number : Nat} (within : number ≤ maxSafeInteger) :
    (Octets.utf8 (stringify figures.toNumbers (numeral figures (number : Nat)))).length ≤ 16 := by
  unfold numeral
  rw [stringify,figures.ofRat_nat number within,figures.write_ofNat number within,utf8_ascii]
  · exact Nat.toDigits_length 10 number 16 (by decide) (lt_of_le_of_lt within (by decide))
  · intro letter inside
    exact digit_ascii (Nat.isDigit_of_mem_toDigits (by decide) (by decide) inside)

private theorem tail_letters (rest : List Char) (own : (match rest with
    | first :: rest => idLetter first && rest.all idTail
    | [] => false) = true) : ∀ letter ∈ rest, idTail letter = true := by
  intro letter inside
  cases rest with
  | nil => cases inside
  | cons first rest =>
    obtain ⟨lead,others⟩ := Bool.and_eq_true_iff.mp own
    rcases List.mem_cons.mp inside with rfl | later
    · unfold idTail
      rw [lead,Bool.true_or]
    · exact List.all_eq_true.mp others letter later

private theorem usage_letters {id : List Char} (usage : usageId id = true) :
    id.length ≤ 64 ∧ ∀ letter ∈ id, idTail letter = true ∨ letter = '~' := by
  unfold usageId at usage
  simp only [Bool.and_eq_true,decide_eq_true_eq] at usage
  obtain ⟨⟨_,long⟩,shape⟩ := usage
  refine ⟨long,?_⟩
  cases id with
  | nil => exact fun letter none => absurd none List.not_mem_nil
  | cons first rest =>
    dsimp only at shape
    intro letter inside
    by_cases marked : first = '~' ∨ first = '@'
    · rw [if_pos marked] at shape
      rcases List.mem_cons.mp inside with rfl | later
      · rcases marked with rfl | rfl
        · exact .inr rfl
        · exact .inl (by decide)
      · exact .inl (tail_letters rest shape letter later)
    · rw [if_neg marked] at shape
      exact .inl (tail_letters (first :: rest) shape letter inside)

private theorem recordable_letters {id : String} (recordable : recordableId id = true) :
    id.toList.length ≤ 64 ∧ ∀ letter ∈ id.toList, 0x20 ≤ letter.toNat ∧ letter ≠ '"' ∧ letter ≠ '\\' ∧ letter.toNat < 0x80 := by
  unfold recordableId at recordable
  simp only [Bool.and_eq_true,List.all_eq_true,decide_eq_true_eq] at recordable
  obtain ⟨⟨_,printed⟩,usage⟩ := recordable
  obtain ⟨long,letters⟩ := usage_letters usage
  rw [List.length_map] at long
  refine ⟨long,fun letter inside => ?_⟩
  obtain ⟨low,high⟩ := printed letter inside
  have least : 0x21 ≤ letter.val.toNat := low
  have most : letter.val.toNat ≤ 0x7e := high
  have lower := letters letter.toLower (List.mem_map_of_mem inside)
  refine ⟨?_,?_,?_,?_⟩
  · change 0x20 ≤ letter.val.toNat
    omega
  · rintro rfl
    exact absurd lower (by decide)
  · rintro rfl
    exact absurd lower (by decide)
  · change letter.val.toNat < 0x80
    omega

theorem wording_spell (id : String) : wording (spell id) = id := by
  unfold wording spell
  rw [points_ofText,List.map_map]
  change String.ofList (id.toList.map fun letter => letter) = id
  rw [List.map_id',String.ofList_toList]

private theorem id_bytes {id : Option String} (recordable : ∀ own ∈ id, recordableId own = true) :
    (Octets.utf8 (stringify figures.toNumbers (idJson figures id))).length ≤ 66 := by
  cases id with
  | none =>
    unfold idJson
    rw [stringify]
    decide
  | some own =>
    obtain ⟨long,letters⟩ := recordable_letters (recordable own rfl)
    unfold idJson
    rw [stringify]
    change (Octets.utf8 (quoted (ofText own.toList))).length ≤ 66
    rw [quoted_plain_bytes letters]
    omega

/-! One row. -/

variable {figures}

private theorem row_carried {row : Row} (carried : ∀ sum ∈ row.sums, Carried figures sum) :
    Carried figures (row.calls : Nat) ∧ Carried figures row.input ∧ Carried figures row.output ∧
      Carried figures row.cacheRead ∧ Carried figures row.cacheWrite ∧ Carried figures row.cacheWrite1h ∧
      Carried figures row.reasoning ∧ Carried figures row.total ∧ Carried figures row.cost ∧
      Carried figures (row.unpriced : Nat) ∧ Carried figures (row.providerBilled : Nat) := by
  unfold Row.sums at carried
  simp only [List.forall_mem_cons] at carried
  exact ⟨carried.1,carried.2.1,carried.2.2.1,carried.2.2.2.1,carried.2.2.2.2.1,carried.2.2.2.2.2.1,carried.2.2.2.2.2.2.1,
    carried.2.2.2.2.2.2.2.1,carried.2.2.2.2.2.2.2.2.1,carried.2.2.2.2.2.2.2.2.2.1,carried.2.2.2.2.2.2.2.2.2.2.1⟩

private theorem idJson_legible (id : Option String) : Legible figures.toNumbers (idJson figures id) := by
  cases id with
  | none => exact .null
  | some id => exact .string _

private theorem nat_legible {number : Nat} (carried : Carried figures (number : Nat)) :
    Legible figures.toNumbers (numeral figures (number : Nat)) :=
  numeral_legible figures carried (Nat.cast_nonneg number)

/-- Keys that are words, and no two the same. -/
theorem object_legible {members : List (String × JsonValue figures.Value)}
    (each : ∀ member ∈ members, Legible figures.toNumbers member.2)
    (plain : ∀ name ∈ members.map Prod.fst, JsonValue.index? (spell name) = none)
    (distinct : (members.map Prod.fst).Nodup) :
    Legible figures.toNumbers (.object (members.map fun member => (spell member.1,member.2))) := by
  refine .object _ ?_ ?_ ?_
  · intro member inside
    obtain ⟨own,held,rfl⟩ := List.mem_map.mp inside
    exact each own held
  · intro member inside
    obtain ⟨own,held,rfl⟩ := List.mem_map.mp inside
    exact plain own.1 (List.mem_map_of_mem held)
  · rw [List.map_map]
    have same : (Prod.fst ∘ fun member : String × JsonValue figures.Value => (spell member.1,member.2)) =
        spell ∘ Prod.fst := rfl
    rw [same,← List.map_map]
    exact distinct.map fun one other same => spell_inj.mp same

private def ROW_KEYS : List String :=
  ["provider","model","calls","input","output","cacheRead","cacheWrite","cacheWrite1h","reasoning","total","cost",
    "unpriced","providerBilled"]

private def TOTAL_KEYS : List String := ["input","output","total","cost","calls","unresolved","unpriced","sessions"]

private def LEDGER_KEYS : List String :=
  ["v","state","metered","totals","rows","spentMicros","inflightMicros","costRefused","modelRefused","boundExceeded",
    "costUnanswered","costUnreported","longContext","costUnjudged"]

private theorem keys_plain : ∀ name ∈ ROW_KEYS ++ TOTAL_KEYS ++ LEDGER_KEYS, JsonValue.index? (spell name) = none := by
  decide

private theorem keys_distinct : ROW_KEYS.Nodup ∧ TOTAL_KEYS.Nodup ∧ LEDGER_KEYS.Nodup := by decide

private theorem row_legible {row : LedgerRow} (carried : ∀ sum ∈ row.row.sums, Carried figures sum)
    (positive : row.row.Positive) : Legible figures.toNumbers (row.json figures) := by
  obtain ⟨calls,input,output,cacheRead,cacheWrite,cacheWrite1h,reasoning,total,cost,unpriced,providerBilled⟩ := row_carried carried
  refine @object_legible figures (ROW_KEYS.zip [idJson figures row.provider,idJson figures row.model,
    numeral figures row.row.calls,numeral figures row.row.input,numeral figures row.row.output,
    numeral figures row.row.cacheRead,numeral figures row.row.cacheWrite,numeral figures row.row.cacheWrite1h,
    numeral figures row.row.reasoning,numeral figures row.row.total,numeral figures row.row.cost,
    numeral figures row.row.unpriced,numeral figures row.row.providerBilled]) ?_ ?_ keys_distinct.1
  · unfold ROW_KEYS
    simp only [List.zip_cons_cons,List.zip_nil_right,List.forall_mem_cons]
    exact ⟨idJson_legible _,idJson_legible _,nat_legible calls,numeral_legible figures input positive.input,
      numeral_legible figures output positive.output,numeral_legible figures cacheRead positive.cacheRead,
      numeral_legible figures cacheWrite positive.cacheWrite,numeral_legible figures cacheWrite1h positive.cacheWrite1h,
      numeral_legible figures reasoning positive.reasoning,numeral_legible figures total positive.total,
      numeral_legible figures cost positive.cost,nat_legible unpriced,nat_legible providerBilled,nofun⟩
  · exact fun name inside => keys_plain name (List.mem_append_left _ (List.mem_append_left _ inside))

/-- What a row is read back as. -/
private theorem row_parsed {row : LedgerRow} (recordable : row.Recordable) (carried : ∀ sum ∈ row.row.sums, Carried figures sum)
    (positive : row.row.Positive) : parseRow figures (row.json figures) = some row := by
  obtain ⟨calls,input,output,cacheRead,cacheWrite,cacheWrite1h,reasoning,total,cost,unpriced,providerBilled⟩ := row_carried carried
  have ids : rowIds figures (row.json figures) = some (row.provider,row.model) := by
    have provider : (row.json figures).field? (spell "provider") = some (idJson figures row.provider) := by
      simp [LedgerRow.json,JsonValue.field?]
    have model : (row.json figures).field? (spell "model") = some (idJson figures row.model) := by
      simp [LedgerRow.json,JsonValue.field?,spell_inj]
    unfold rowIds
    rw [provider,model]
    rcases recordable with ⟨none',none''⟩ | ⟨first,second,some',some'',own,other⟩
    · rw [none',none'']
      rfl
    · rw [some',some'']
      dsimp only [idJson]
      rw [wording_spell,wording_spell,if_pos ⟨own,other⟩]
  unfold parseRow
  rw [if_neg (by simp [LedgerRow.json,isPlain]),ids]
  simp only [LedgerRow.json,JsonValue.field?,List.find?_cons,spell_inj,String.reduceEq,decide_true,decide_false,
    Option.map_some,whole_numeral figures calls,amount_numeral figures input positive.input,
    amount_numeral figures output positive.output,amount_numeral figures cacheRead positive.cacheRead,
    amount_numeral figures cacheWrite positive.cacheWrite,amount_numeral figures cacheWrite1h positive.cacheWrite1h,
    amount_numeral figures reasoning positive.reasoning,amount_numeral figures total positive.total,
    amount_numeral figures cost positive.cost,whole_numeral figures unpriced,whole_numeral figures providerBilled,
    Option.bind_eq_bind,Option.bind_some,Option.pure_def]

private theorem row_key_bytes : ROW_KEYS.map (fun name => (Octets.utf8 (quoted (spell name))).length) =
    [10,7,7,7,8,11,12,14,11,7,6,10,16] := by decide

private theorem total_key_bytes : TOTAL_KEYS.map (fun name => (Octets.utf8 (quoted (spell name))).length) =
    [7,8,7,6,7,12,10,10] := by decide

private theorem ledger_key_bytes : LEDGER_KEYS.map (fun name => (Octets.utf8 (quoted (spell name))).length) =
    [3,7,9,8,6,13,16,13,14,15,16,16,13,14] := by decide

private theorem row_bytes {row : LedgerRow} (recordable : row.Recordable) (carried : ∀ sum ∈ row.row.sums, Carried figures sum)
    (positive : row.row.Positive) : (Octets.utf8 (stringify figures.toNumbers (row.json figures))).length ≤ 526 := by
  obtain ⟨calls,input,output,cacheRead,cacheWrite,cacheWrite1h,reasoning,total,cost,unpriced,providerBilled⟩ := row_carried carried
  have provider : ∀ own ∈ row.provider, recordableId own = true := by
    rcases recordable with ⟨none',_⟩ | ⟨first,second,some',_,own,_⟩
    · rw [none']
      nofun
    · rw [some']
      rintro _ ⟨⟩
      exact own
  have model : ∀ own ∈ row.model, recordableId own = true := by
    rcases recordable with ⟨_,none'⟩ | ⟨first,second,_,some',_,own⟩
    · rw [none']
      nofun
    · rw [some']
      rintro _ ⟨⟩
      exact own
  have keys := row_key_bytes
  unfold ROW_KEYS at keys
  simp only [List.map_cons,List.map_nil,List.cons.injEq] at keys
  obtain ⟨k1,k2,k3,k4,k5,k6,k7,k8,k9,k10,k11,k12,k13,-⟩ := keys
  have v1 := id_bytes figures provider
  have v2 := id_bytes figures model
  have v3 := nat_bytes figures (nat_within calls.2)
  have v4 := numeral_bytes figures input positive.input
  have v5 := numeral_bytes figures output positive.output
  have v6 := numeral_bytes figures cacheRead positive.cacheRead
  have v7 := numeral_bytes figures cacheWrite positive.cacheWrite
  have v8 := numeral_bytes figures cacheWrite1h positive.cacheWrite1h
  have v9 := numeral_bytes figures reasoning positive.reasoning
  have v10 := numeral_bytes figures total positive.total
  have v11 := numeral_bytes figures cost positive.cost
  have v12 := nat_bytes figures (nat_within unpriced.2)
  have v13 := nat_bytes figures (nat_within providerBilled.2)
  unfold LedgerRow.json
  refine le_trans (object_bytes _) ?_
  simp only [List.map_cons,List.map_nil,List.sum_cons,List.sum_nil,member_bytes]
  omega

/-! The whole ledger. -/

private theorem ledger_carried {ledger : Ledger} (carried : ledger.Carried figures) :
    (Carried figures ledger.totals.input ∧ Carried figures ledger.totals.output ∧ Carried figures ledger.totals.total ∧
      Carried figures ledger.totals.cost ∧ Carried figures (ledger.totals.calls : Nat) ∧
      Carried figures (ledger.totals.unresolved : Nat) ∧ Carried figures (ledger.totals.unpriced : Nat) ∧
      Carried figures (ledger.totals.sessions : Nat)) ∧
    (Carried figures (ledger.costRefused : Nat) ∧ Carried figures (ledger.modelRefused : Nat) ∧
      Carried figures (ledger.boundExceeded : Nat) ∧ Carried figures (ledger.costUnanswered : Nat) ∧
      Carried figures (ledger.costUnreported : Nat) ∧ Carried figures (ledger.longContext : Nat) ∧
      Carried figures (ledger.costUnjudged : Nat)) ∧
    ∀ row ∈ ledger.rows, ∀ sum ∈ row.row.sums, Carried figures sum := by
  unfold Ledger.Carried Ledger.sums at carried
  simp only [List.forall_mem_append,List.forall_mem_cons] at carried
  obtain ⟨⟨t1,t2,t3,t4,t5,t6,t7,t8,g1,g2,g3,g4,g5,g6,g7,-⟩,rows⟩ := carried
  refine ⟨⟨t1,t2,t3,t4,t5,t6,t7,t8⟩,⟨g1,g2,g3,g4,g5,g6,g7⟩,?_⟩
  intro row inside sum own
  exact rows sum (List.mem_flatMap.mpr ⟨row,inside,own⟩)

private theorem totals_positive {ledger : Ledger} (proper : ledger.Proper) : 0 ≤ ledger.totals.input ∧
    0 ≤ ledger.totals.output ∧ 0 ≤ ledger.totals.total ∧ 0 ≤ ledger.totals.cost := by
  have positive : (sumRows ledger.rows).Positive := by
    rw [sumRows_folded]
    refine folded_grows emptyRow fun row inside => ?_
    obtain ⟨own,member,rfl⟩ := List.mem_map.mp inside
    exact (proper.rows own member).2
  refine ⟨?_,?_,?_,?_⟩
  · rw [← proper.input]
    exact positive.input
  · rw [← proper.output]
    exact positive.output
  · rw [← proper.total]
    exact positive.total
  · rw [← proper.cost]
    exact positive.cost

private theorem totals_legible {ledger : Ledger} (proper : ledger.Proper) (carried : ledger.Carried figures) :
    Legible figures.toNumbers (ledger.totals.json figures) := by
  obtain ⟨⟨input,output,total,cost,calls,unresolved,unpriced,sessions⟩,-⟩ := ledger_carried carried
  obtain ⟨least1,least2,least3,least4⟩ := totals_positive proper
  refine @object_legible figures (TOTAL_KEYS.zip [numeral figures ledger.totals.input,numeral figures ledger.totals.output,
    numeral figures ledger.totals.total,numeral figures ledger.totals.cost,numeral figures ledger.totals.calls,
    numeral figures ledger.totals.unresolved,numeral figures ledger.totals.unpriced,
    numeral figures ledger.totals.sessions]) ?_ ?_ keys_distinct.2.1
  · unfold TOTAL_KEYS
    simp only [List.zip_cons_cons,List.zip_nil_right,List.forall_mem_cons]
    exact ⟨numeral_legible figures input least1,numeral_legible figures output least2,numeral_legible figures total least3,
      numeral_legible figures cost least4,nat_legible calls,nat_legible unresolved,nat_legible unpriced,nat_legible sessions,
      nofun⟩
  · exact fun name inside => keys_plain name (List.mem_append_left _ (List.mem_append_right _ inside))

private theorem totals_parsed {ledger : Ledger} (proper : ledger.Proper) (carried : ledger.Carried figures) :
    parseTotals figures (ledger.totals.json figures) = some ledger.totals := by
  obtain ⟨⟨input,output,total,cost,calls,unresolved,unpriced,sessions⟩,-⟩ := ledger_carried carried
  obtain ⟨least1,least2,least3,least4⟩ := totals_positive proper
  unfold parseTotals
  rw [if_neg (by simp [LedgerTotals.json,isPlain])]
  simp only [LedgerTotals.json,JsonValue.field?,List.find?_cons,spell_inj,String.reduceEq,decide_true,
    decide_false,Option.map_some,amount_numeral figures input least1,amount_numeral figures output least2,
    amount_numeral figures total least3,amount_numeral figures cost least4,whole_numeral figures calls,
    whole_numeral figures unresolved,whole_numeral figures unpriced,whole_numeral figures sessions,
    Option.bind_eq_bind,Option.bind_some,Option.pure_def]
  rw [if_neg (Nat.not_lt.mpr proper.unresolved)]

private theorem totals_bytes {ledger : Ledger} (proper : ledger.Proper) (carried : ledger.Carried figures) :
    (Octets.utf8 (stringify figures.toNumbers (ledger.totals.json figures))).length ≤ 245 := by
  obtain ⟨⟨input,output,total,cost,calls,unresolved,unpriced,sessions⟩,-⟩ := ledger_carried carried
  obtain ⟨least1,least2,least3,least4⟩ := totals_positive proper
  have keys := total_key_bytes
  unfold TOTAL_KEYS at keys
  simp only [List.map_cons,List.map_nil,List.cons.injEq] at keys
  obtain ⟨k1,k2,k3,k4,k5,k6,k7,k8,-⟩ := keys
  have v1 := numeral_bytes figures input least1
  have v2 := numeral_bytes figures output least2
  have v3 := numeral_bytes figures total least3
  have v4 := numeral_bytes figures cost least4
  have v5 := nat_bytes figures (nat_within calls.2)
  have v6 := nat_bytes figures (nat_within unresolved.2)
  have v7 := nat_bytes figures (nat_within unpriced.2)
  have v8 := nat_bytes figures (nat_within sessions.2)
  unfold LedgerTotals.json
  refine le_trans (object_bytes _) ?_
  simp only [List.map_cons,List.map_nil,List.sum_cons,List.sum_nil,member_bytes]
  omega

private theorem rows_parsed {rows : List LedgerRow} (each : ∀ row ∈ rows, parseRow figures (row.json figures) = some row) :
    (rows.map fun row => row.json figures).mapM (parseRow figures) = some rows := by
  induction rows with
  | nil => rfl
  | cons row rows ih =>
    rw [List.map_cons,List.mapM_cons,each row List.mem_cons_self,ih fun other inside => each other (List.mem_cons_of_mem _ inside)]
    rfl

/-- Rows under keys of their own are not merged. -/
private theorem merge_distinct {held rows : List LedgerRow} (distinct : ((held ++ rows).map LedgerRow.key).Nodup) :
    rows.foldl mergeRow held = held ++ rows := by
  induction rows generalizing held with
  | nil => exact (List.append_nil _).symm
  | cons row rows ih =>
    have apart : (held.any fun other => other.key = row.key) = false := by
      rw [List.map_append,List.map_cons] at distinct
      rw [List.any_eq_false]
      intro other inside same
      exact (List.nodup_append.mp distinct).2.2 _ (List.mem_map_of_mem inside) _ List.mem_cons_self (of_decide_eq_true same)
    rw [List.foldl_cons,mergeRow,if_neg (by rw [apart]; decide),ih (by simpa using distinct)]
    simp

private theorem agrees_self (sum : Rat) : agrees sum sum = true := by
  unfold agrees
  rw [sub_self,abs_zero,decide_eq_true_eq]
  positivity

private theorem proper_partitions {ledger : Ledger} (proper : ledger.Proper) :
    partitions (sumRows ledger.rows) ledger.totals = true := by
  unfold partitions
  rw [proper.input,proper.output,proper.total,proper.cost,agrees_self,agrees_self,agrees_self,agrees_self,
    decide_eq_true ⟨proper.calls,proper.unpriced⟩]
  rfl

private theorem int_nat {number : Int} (positive : 0 ≤ number) (within : number ≤ maxSafeInteger) :
    ∃ own : Nat, number = own ∧ own ≤ maxSafeInteger := ⟨number.toNat,by omega,by omega⟩

private theorem state_parsed (state : LedgerState) :
    stateOf figures (.string (spell state.name)) = some state := by
  unfold stateOf
  cases state <;> simp [LedgerState.name,spell_inj]

private theorem state_bytes (state : LedgerState) :
    (Octets.utf8 (stringify figures.toNumbers (.string (spell state.name)))).length ≤ 10 := by
  rw [stringify]
  cases state <;> decide

private theorem flag_bytes (flag : Bool) : (Octets.utf8 (stringify figures.toNumbers (.bool flag))).length ≤ 5 := by
  cases flag
  · rw [stringify]
    decide
  · rw [stringify]
    decide

private theorem version_carried : Carried figures CHILD_LEDGER_VERSION := carried_nat figures (show 3 ≤ maxSafeInteger by decide)

section Whole
variable {ledger : Ledger} (proper : ledger.Proper) (carried : ledger.Carried figures)
  (safe : ledger.spentMicros ≤ maxSafeInteger)
include proper carried safe

private theorem ledger_legible : Legible figures.toNumbers (ledger.json figures) := by
  obtain ⟨_,⟨g1,g2,g3,g4,g5,g6,g7⟩,rows⟩ := ledger_carried carried
  obtain ⟨spent,same,least⟩ := int_nat proper.spent safe
  obtain ⟨inflight,same',least'⟩ := int_nat proper.inflight.1 proper.inflight.2
  refine @object_legible figures (LEDGER_KEYS.zip [numeral figures CHILD_LEDGER_VERSION,.string (spell ledger.state.name),
    .bool ledger.metered,ledger.totals.json figures,.array (ledger.rows.map fun row => row.json figures),
    numeral figures ledger.spentMicros,numeral figures ledger.inflightMicros,numeral figures ledger.costRefused,
    numeral figures ledger.modelRefused,numeral figures ledger.boundExceeded,numeral figures ledger.costUnanswered,
    numeral figures ledger.costUnreported,numeral figures ledger.longContext,numeral figures ledger.costUnjudged])
    ?_ ?_ keys_distinct.2.2
  · unfold LEDGER_KEYS
    rw [same,same',Int.cast_natCast,Int.cast_natCast]
    simp only [List.zip_cons_cons,List.zip_nil_right,List.forall_mem_cons]
    refine ⟨numeral_legible figures version_carried (by decide),.string _,.bool _,
      totals_legible proper carried,.array _ ?_,nat_legible (carried_nat figures least),
      nat_legible (carried_nat figures least'),nat_legible g1,nat_legible g2,nat_legible g3,nat_legible g4,nat_legible g5,
      nat_legible g6,nat_legible g7,nofun⟩
    intro item inside
    obtain ⟨row,member,rfl⟩ := List.mem_map.mp inside
    exact row_legible (rows row member) (proper.rows row member).2
  · exact fun name inside => keys_plain name (List.mem_append_right _ inside)

omit proper carried safe in
private theorem ledger_fields : ∀ member ∈ LEDGER_KEYS.zip [numeral figures CHILD_LEDGER_VERSION,
    .string (spell ledger.state.name),.bool ledger.metered,ledger.totals.json figures,
    .array (ledger.rows.map fun row => row.json figures),numeral figures ledger.spentMicros,
    numeral figures ledger.inflightMicros,numeral figures ledger.costRefused,numeral figures ledger.modelRefused,
    numeral figures ledger.boundExceeded,numeral figures ledger.costUnanswered,numeral figures ledger.costUnreported,
    numeral figures ledger.longContext,numeral figures ledger.costUnjudged],
    (ledger.json figures).field? (spell member.1) = some member.2 := by
  unfold LEDGER_KEYS
  simp [Ledger.json,JsonValue.field?,spell_inj]

/-- The parent reads the ledger that was written. -/
theorem ledger_parsed : parseChildLedger figures (ledger.text figures) = some ledger := by
  obtain ⟨_,⟨g1,g2,g3,g4,g5,g6,g7⟩,rows⟩ := ledger_carried carried
  obtain ⟨spent,same,least⟩ := int_nat proper.spent safe
  obtain ⟨inflight,same',least'⟩ := int_nat proper.inflight.1 proper.inflight.2
  have read := parse_legible (ledger_legible proper carried safe)
  have version : isVersion figures (some (numeral figures CHILD_LEDGER_VERSION)) = true := by
    unfold isVersion numeral
    exact decide_eq_true (figures.finite_ofRat _ version_carried.1)
  have listed : parseRows figures (.array (ledger.rows.map fun row => row.json figures)) = some ledger.rows := by
    unfold parseRows
    dsimp only
    rw [List.length_map,if_neg (Nat.not_lt.mpr (le_trans proper.few (by decide)))]
    exact rows_parsed fun row inside => row_parsed (proper.rows row inside).1 (rows row inside) (proper.rows row inside).2
  have spentRead : whole figures (some (numeral figures ledger.spentMicros)) = some spent := by
    rw [same,Int.cast_natCast]
    exact whole_nat figures least
  have inflightRead : whole figures (some (numeral figures ledger.inflightMicros)) = some inflight := by
    rw [same',Int.cast_natCast]
    exact whole_nat figures least'
  have fields := @ledger_fields figures ledger
  unfold LEDGER_KEYS at fields
  simp only [List.zip_cons_cons,List.zip_nil_right,List.forall_mem_cons] at fields
  obtain ⟨f1,f2,f3,f4,f5,f6,f7,f8,f9,f10,f11,f12,f13,f14,-⟩ := fields
  unfold parseChildLedger Ledger.text
  refine Option.bind_eq_some_iff.mpr ⟨_,read,?_⟩
  rw [f1,version,if_neg (by simp [Ledger.json,isPlain])]
  refine Option.bind_eq_some_iff.mpr ⟨ledger.state,by rw [f2]; exact @state_parsed figures ledger.state,?_⟩
  refine Option.bind_eq_some_iff.mpr ⟨ledger.metered,by rw [f3]; rfl,?_⟩
  refine Option.bind_eq_some_iff.mpr ⟨ledger.totals,by rw [f4]; exact totals_parsed proper carried,?_⟩
  refine Option.bind_eq_some_iff.mpr ⟨spent,by rw [f6]; exact spentRead,?_⟩
  refine Option.bind_eq_some_iff.mpr ⟨inflight,by rw [f7]; exact inflightRead,?_⟩
  refine Option.bind_eq_some_iff.mpr ⟨_,by rw [f8]; exact whole_numeral figures g1,?_⟩
  refine Option.bind_eq_some_iff.mpr ⟨_,by rw [f9]; exact whole_numeral figures g2,?_⟩
  refine Option.bind_eq_some_iff.mpr ⟨_,by rw [f10]; exact whole_numeral figures g3,?_⟩
  refine Option.bind_eq_some_iff.mpr ⟨_,by rw [f11]; exact whole_numeral figures g4,?_⟩
  refine Option.bind_eq_some_iff.mpr ⟨_,by rw [f12]; exact whole_numeral figures g5,?_⟩
  refine Option.bind_eq_some_iff.mpr ⟨_,by rw [f13]; exact whole_numeral figures g6,?_⟩
  refine Option.bind_eq_some_iff.mpr ⟨_,by rw [f14]; exact whole_numeral figures g7,?_⟩
  refine Option.bind_eq_some_iff.mpr ⟨ledger.rows,by rw [f5]; exact listed,?_⟩
  rw [proper_partitions proper,if_neg (by decide),@merge_distinct [] ledger.rows proper.keys,List.nil_append,← same,← same']
  rfl

/-- A ledger's text is no larger than the parent reads. -/
theorem ledger_bytes : (Octets.utf8 (ledger.text figures)).length ≤ CHILD_LEDGER_MAX_BYTES := by
  obtain ⟨_,⟨g1,g2,g3,g4,g5,g6,g7⟩,rows⟩ := ledger_carried carried
  obtain ⟨spent,same,least⟩ := int_nat proper.spent safe
  obtain ⟨inflight,same',least'⟩ := int_nat proper.inflight.1 proper.inflight.2
  have keys := ledger_key_bytes
  unfold LEDGER_KEYS at keys
  simp only [List.map_cons,List.map_nil,List.cons.injEq] at keys
  obtain ⟨k1,k2,k3,k4,k5,k6,k7,k8,k9,k10,k11,k12,k13,k14,-⟩ := keys
  have v1 := nat_bytes figures (show 3 ≤ maxSafeInteger by decide)
  have v2 := @state_bytes figures ledger.state
  have v3 := @flag_bytes figures ledger.metered
  have v4 := totals_bytes proper carried
  have v5 := nat_bytes figures least
  have v6 := nat_bytes figures least'
  have v7 := nat_bytes figures (nat_within g1.2)
  have v8 := nat_bytes figures (nat_within g2.2)
  have v9 := nat_bytes figures (nat_within g3.2)
  have v10 := nat_bytes figures (nat_within g4.2)
  have v11 := nat_bytes figures (nat_within g5.2)
  have v12 := nat_bytes figures (nat_within g6.2)
  have v13 := nat_bytes figures (nat_within g7.2)
  have lines : (Octets.utf8 (stringify figures.toNumbers (.array (ledger.rows.map fun row => row.json figures)))).length ≤
      63242 := by
    refine le_trans (array_bytes _) ?_
    have all := List.sum_le_card_nsmul ((ledger.rows.map fun row => row.json figures).map fun item =>
      (Octets.utf8 (stringify figures.toNumbers item)).length + 1) 527 (by
        intro size inside
        rw [List.map_map] at inside
        obtain ⟨row,member,rfl⟩ := List.mem_map.mp inside
        have own := row_bytes (proper.rows row member).1 (rows row member) (proper.rows row member).2
        dsimp only [Function.comp_apply]
        omega)
    rw [List.length_map,List.length_map,nsmul_eq_mul,Nat.cast_id] at all
    have few : ledger.rows.length ≤ 120 := proper.few
    omega
  unfold Ledger.text Ledger.json CHILD_LEDGER_MAX_BYTES
  rw [same,same',Int.cast_natCast,Int.cast_natCast]
  refine le_trans (object_bytes _) ?_
  simp only [List.map_cons,List.map_nil,List.sum_cons,List.sum_nil,member_bytes]
  change (Octets.utf8 (stringify figures.toNumbers (numeral figures CHILD_LEDGER_VERSION))).length ≤ 16 at v1
  omega

/-- A file with that text is read as that text. -/
theorem ledger_read : readLedger (.bytes (Octets.utf8 (ledger.text figures))) = .text (ledger.text figures) := by
  have small := ledger_bytes proper carried safe
  unfold readLedger
  dsimp only
  rw [if_neg (Nat.not_lt.mpr small),Octets.decodeUtf8_utf8]
  have opens : ∃ rest, ledger.text figures = '\x7b' :: rest := by
    unfold Ledger.text Ledger.json
    rw [stringify]
    exact ⟨_,rfl⟩
  obtain ⟨rest,shape⟩ := opens
  rw [shape]
  rfl

end Whole

end PiDispatch.UsageMeter
