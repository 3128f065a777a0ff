import Mathlib
import PiDispatch.RunBudgetLedger

/-! What the run ledger is for, without its hash: a slot claimed once, container numbers that count up, and a
hold for each container that is closed once. Every script takes one step of it. -/
namespace PiDispatch.RunBudgetLedger
open Kernel Command DollarBudget

inductive HoldState
  | absent
  | held
  | settled
  | released
  | crashed
  deriving DecidableEq

namespace HoldState

def text : HoldState → Option String
  | absent => none
  | held => some "held"
  | settled => some "settled"
  | released => some "released"
  | crashed => some "settled-crashed"

def closed : HoldState → Bool
  | absent | held => false
  | settled | released | crashed => true

theorem text_injective {left right : HoldState} (same : left.text = right.text) : left = right := by
  cases left <;> cases right <;> simp_all [text]

theorem text_held (state : HoldState) : state.text = some "held" ↔ state = held := by
  cases state <;> simp [text]

end HoldState

structure RunLedger where
  slot : Bool
  seq : Nat
  state : Nat → HoldState
  record : Nat → Option String

def RunLedger.fresh : RunLedger := ⟨false,0,fun _ => .absent,fun _ => none⟩

inductive Event
  | quiet
  | claimed
  | numbered (seq : Nat)
  | recorded (seq : Nat)
  | closed (seq : Nat)
  | crashed (below : Nat)

inductive RunLedger.Step : RunLedger → Event → RunLedger → Prop
  | quiet (ledger) : Step ledger .quiet ledger
  | claimed (ledger : RunLedger) (free : ledger.slot = false) : Step ledger .claimed { ledger with slot := true }
  | numbered (ledger : RunLedger) : Step ledger (.numbered (ledger.seq + 1)) { ledger with seq := ledger.seq + 1 }
  | recorded (ledger : RunLedger) (seq : Nat) (stored : String) (absent : ledger.state seq = .absent) :
      Step ledger (.recorded seq)
        { ledger with state := Function.update ledger.state seq .held, record := Function.update ledger.record seq stored }
  | closed (ledger : RunLedger) (seq : Nat) (next : HoldState) (held : ledger.state seq = .held)
      (final : next.closed) : Step ledger (.closed seq) { ledger with state := Function.update ledger.state seq next }
  | crashed (ledger : RunLedger) (below : Nat) :
      Step ledger (.crashed below)
        { ledger with state := fun seq => if seq < below ∧ ledger.state seq = .held then .crashed else ledger.state seq }

/-- A hold is absent, then held, then closed in one way for good; a record once written stays. -/
theorem RunLedger.step_state {before after : RunLedger} {event : Event} (step : before.Step event after) (seq : Nat) :
    after.state seq = before.state seq ∨ (before.state seq = .absent ∧ after.state seq = .held) ∨
      (before.state seq = .held ∧ (after.state seq).closed) := by
  cases step with
  | quiet | claimed | numbered => exact .inl rfl
  | recorded number stored absent =>
    by_cases same : seq = number
    · subst same
      exact .inr (.inl ⟨absent,Function.update_self ..⟩)
    · exact .inl (Function.update_of_ne same ..)
  | closed number next held final =>
    by_cases same : seq = number
    · subst same
      exact .inr (.inr ⟨held,by simpa using final⟩)
    · exact .inl (Function.update_of_ne same ..)
  | crashed below =>
    by_cases moved : seq < below ∧ before.state seq = .held
    · exact .inr (.inr ⟨moved.2,by simp [moved,HoldState.closed]⟩)
    · exact .inl (if_neg moved)

/-- Recording a hold finds no record there: a container's record is written with its first state. -/
theorem RunLedger.step_record {before after : RunLedger} {event : Event} (step : before.Step event after)
    (paired : ∀ seq, (before.record seq).isSome → before.state seq ≠ .absent) (seq : Nat) (stored : String)
    (written : before.record seq = some stored) : after.record seq = some stored := by
  cases step with
  | recorded number stored' absent =>
    have apart : seq ≠ number := by
      rintro rfl
      exact paired seq (by simp [written]) absent
    rw [← written]
    exact Function.update_of_ne apart ..
  | quiet | claimed | numbered | closed | crashed => exact written

def RunLedger.Paired (ledger : RunLedger) : Prop := ∀ seq, (ledger.record seq).isSome → ledger.state seq ≠ .absent

theorem RunLedger.step_paired {before after : RunLedger} {event : Event} (step : before.Step event after)
    (paired : before.Paired) : after.Paired := by
  intro seq written
  cases step with
  | quiet | claimed | numbered => exact paired seq written
  | recorded number stored absent =>
    by_cases same : seq = number
    · subst same
      simp
    · simp only [Function.update_of_ne same] at written ⊢
      exact paired seq written
  | closed number next held final =>
    by_cases same : seq = number
    · subst same
      simp only [Function.update_self]
      rintro rfl
      cases final
    · simp only [Function.update_of_ne same]
      exact paired seq written
  | crashed below =>
    dsimp only
    split
    · simp
    · exact paired seq written

section Names

theorem stateField_toList (seq : Nat) : (stateField seq).toList = 's' :: Nat.toDigits 10 seq := by
  have shape : stateField seq = "s" ++ Nat.repr seq := rfl
  simp [shape]

theorem recordField_toList (seq : Nat) : (recordField seq).toList = 'h' :: Nat.toDigits 10 seq := by
  have shape : recordField seq = "h" ++ Nat.repr seq := rfl
  simp [shape]

theorem seqOfField_stateField (seq : Nat) : seqOfField (stateField seq) = some seq := by
  have digits : (Nat.toDigits 10 seq).all Char.isDigit := List.all_eq_true.mpr fun digit member =>
    Nat.isDigit_of_mem_toDigits (by decide) (by decide) member
  simp only [seqOfField,stateField_toList]
  rw [if_pos ⟨trivial,Nat.toDigits_ne_nil,digits⟩,Nat.ofDigitChars_ten_toDigits]

theorem stateField_injective {left right : Nat} (same : stateField left = stateField right) : left = right := by
  have numbers := congrArg seqOfField same
  simpa [seqOfField_stateField] using numbers

theorem recordField_injective {left right : Nat} (same : recordField left = recordField right) : left = right := by
  have digits := congrArg String.toList same
  rw [recordField_toList,recordField_toList,List.cons.injEq] at digits
  have numbers := congrArg (fun digits => Nat.ofDigitChars 10 digits 0) digits.2
  simpa [Nat.ofDigitChars_ten_toDigits] using numbers

theorem seqOfField_recordField (seq : Nat) : seqOfField (recordField seq) = none := by
  simp [seqOfField,recordField_toList]

theorem recordField_ne_stateField (left right : Nat) : recordField left ≠ stateField right := by
  intro same
  have numbers := congrArg seqOfField same
  simp [seqOfField_recordField,seqOfField_stateField] at numbers

/-- The names that are no container's state: they never match the pattern of one. -/
theorem stateField_ne_of_no_seq (seq : Nat) {field : String} (none : seqOfField field = none) :
    field ≠ stateField seq := by
  rintro rfl
  simp [seqOfField_stateField] at none

theorem at_unnumbered : seqOfField "at" = none := by decide

theorem slot_unnumbered : seqOfField "slot" = none := by decide

theorem seq_unnumbered : seqOfField "seq" = none := by decide

theorem recordField_ne_of_head (seq : Nat) {field : String} (head : field.toList.head? ≠ some 'h') :
    field ≠ recordField seq := by
  rintro rfl
  simp [recordField_toList] at head

end Names

/-- The hash carries the ledger. -/
structure Reads (fields : Fields) (ledger : RunLedger) : Prop where
  slot : (fields.get? "slot").isSome = ledger.slot
  seq : fields.get? "seq" = if ledger.seq = 0 then none else some (Nat.repr ledger.seq)
  state : ∀ seq : Nat, fields.get? (stateField seq) = (ledger.state seq).text
  record : ∀ seq : Nat, fields.get? (recordField seq) = ledger.record seq
  names : ∀ field seq, (fields.get? field).isSome → seqOfField field = some seq → field = stateField seq

theorem reads_fresh : Reads Dict.empty RunLedger.fresh :=
  ⟨rfl,rfl,fun _ => rfl,fun _ => rfl,fun _ _ found => by simp at found⟩

section Reads
variable {fields : Fields} {ledger : RunLedger}

private theorem names_set (reads : Reads fields ledger) (name value : String)
    (named : ∀ seq, seqOfField name = some seq → name = stateField seq) (field : String) (seq : Nat)
    (found : ((fields.set name value).get? field).isSome) (number : seqOfField field = some seq) :
    field = stateField seq := by
  rw [Dict.get?_set] at found
  split at found
  next same =>
    subst same
    exact named seq number
  next => exact reads.names field seq found number

/-- A field that is no number's state and no record is invisible, unless it is the slot or the counter. -/
private theorem reads_plain (reads : Reads fields ledger) (value : String) :
    Reads (fields.set "at" value) ledger := by
  refine ⟨?_,?_,fun seq => ?_,fun seq => ?_,names_set reads "at" value fun _ found => by rw [at_unnumbered] at found; cases found⟩
  · rw [Dict.get?_set_ne _ _ (by decide)]
    exact reads.slot
  · rw [Dict.get?_set_ne _ _ (by decide)]
    exact reads.seq
  · rw [Dict.get?_set_ne _ _ (stateField_ne_of_no_seq seq at_unnumbered)]
    exact reads.state seq
  · rw [Dict.get?_set_ne _ _ (recordField_ne_of_head seq (by decide))]
    exact reads.record seq

private theorem reads_slot (reads : Reads fields ledger) (value : String) :
    Reads (fields.set "slot" value) { ledger with slot := true } := by
  refine ⟨by simp,?_,fun seq => ?_,fun seq => ?_,names_set reads "slot" value fun _ found => by rw [slot_unnumbered] at found; cases found⟩
  · rw [Dict.get?_set_ne _ _ (by decide)]
    exact reads.seq
  · rw [Dict.get?_set_ne _ _ (stateField_ne_of_no_seq seq slot_unnumbered)]
    exact reads.state seq
  · rw [Dict.get?_set_ne _ _ (recordField_ne_of_head seq (by decide))]
    exact reads.record seq

private theorem reads_seq (reads : Reads fields ledger) (number : Nat) (positive : number ≠ 0) :
    Reads (fields.set "seq" (Nat.repr number)) { ledger with seq := number } := by
  refine ⟨?_,by simp [positive],fun seq => ?_,fun seq => ?_,names_set reads "seq" _ fun _ found => by rw [seq_unnumbered] at found; cases found⟩
  · rw [Dict.get?_set_ne _ _ (by decide)]
    exact reads.slot
  · rw [Dict.get?_set_ne _ _ (stateField_ne_of_no_seq seq seq_unnumbered)]
    exact reads.state seq
  · rw [Dict.get?_set_ne _ _ (recordField_ne_of_head seq (by decide))]
    exact reads.record seq

private theorem reads_record (reads : Reads fields ledger) (number : Nat) (stored : String) :
    Reads (fields.set (recordField number) stored)
      { ledger with record := Function.update ledger.record number stored } := by
  refine ⟨?_,?_,fun seq => ?_,fun seq => ?_,names_set reads (recordField number) stored ?_⟩
  · rw [Dict.get?_set_ne _ _ (recordField_ne_of_head number (by decide)).symm]
    exact reads.slot
  · rw [Dict.get?_set_ne _ _ (recordField_ne_of_head number (by decide)).symm]
    exact reads.seq
  · rw [Dict.get?_set_ne _ _ (recordField_ne_stateField number seq)]
    exact reads.state seq
  · by_cases same : seq = number
    · subst same
      simp
    · rw [Dict.get?_set_ne _ _ (fun equal => same (recordField_injective equal).symm),reads.record seq]
      exact (Function.update_of_ne same ..).symm
  · intro seq found
    rw [seqOfField_recordField] at found
    cases found

private theorem reads_state (reads : Reads fields ledger) (number : Nat) (next : HoldState) (value : String)
    (written : next.text = some value) :
    Reads (fields.set (stateField number) value)
      { ledger with state := Function.update ledger.state number next } := by
  refine ⟨?_,?_,fun seq => ?_,fun seq => ?_,names_set reads (stateField number) value ?_⟩
  · rw [Dict.get?_set_ne _ _ (stateField_ne_of_no_seq number slot_unnumbered).symm]
    exact reads.slot
  · rw [Dict.get?_set_ne _ _ (stateField_ne_of_no_seq number seq_unnumbered).symm]
    exact reads.seq
  · by_cases same : seq = number
    · subst same
      simp [written]
    · rw [Dict.get?_set_ne _ _ (fun equal => same (stateField_injective equal).symm),reads.state seq]
      exact congrArg HoldState.text (Function.update_of_ne same ..).symm
  · rw [Dict.get?_set_ne _ _ (recordField_ne_stateField seq number).symm]
    exact reads.record seq
  · intro seq found
    rw [seqOfField_stateField,Option.some.injEq] at found
    rw [found]

end Reads

/-- A Valkey key carries the ledger. -/
def Carries (store : Store) (key : String) (ledger : RunLedger) : Prop :=
  ∃ fields, fieldsAt store key = some fields ∧ Reads fields ledger

theorem carries_put {key : String} {fields : Fields} {ledger : RunLedger} (store : Store) (reads : Reads fields ledger) :
    Carries (store.put key (.hash fields)) key ledger :=
  ⟨fields,by simp [fieldsAt],reads⟩

section Scripts
variable {store : Store} {key : String} (now : String) {ledger : RunLedger}

theorem claim_step (carried : Carries store key ledger) :
    ∃ event after, ledger.Step event after ∧ Carries (CLAIM_SCRIPT key now store).2 key after ∧
      (((CLAIM_SCRIPT key now store).1 = .ok 1 ∧ event = .claimed) ∨
        ((CLAIM_SCRIPT key now store).1 = .ok 0 ∧ event = .quiet)) := by
  obtain ⟨fields,found,reads⟩ := carried
  simp only [CLAIM_SCRIPT,onHash,found]
  cases slot : fields.get? "slot" with
  | none =>
    have free : ledger.slot = false := by rw [← reads.slot,slot]; rfl
    exact ⟨.claimed,_,.claimed ledger free,carries_put store (reads_plain (reads_slot reads "held") now),.inl ⟨rfl,rfl⟩⟩
  | some holder => exact ⟨.quiet,_,.quiet ledger,carries_put store (reads_plain reads now),.inr ⟨rfl,rfl⟩⟩

theorem record_step (carried : Carries store key ledger) (seq : Nat) (stored : String) :
    ∃ event after, ledger.Step event after ∧ Carries (RECORD_SCRIPT key seq stored now store).2 key after ∧
      (((RECORD_SCRIPT key seq stored now store).1 = .ok 1 ∧ event = .recorded seq) ∨
        ((RECORD_SCRIPT key seq stored now store).1 = .ok 0 ∧ event = .quiet)) := by
  obtain ⟨fields,found,reads⟩ := carried
  have state := reads.state seq
  simp only [RECORD_SCRIPT,found]
  cases present : fields.get? (stateField seq) with
  | none =>
    have absent : ledger.state seq = .absent := by
      rw [present] at state
      exact HoldState.text_injective state.symm
    have written := reads_state (reads_record reads seq stored) seq .held "held" rfl
    exact ⟨.recorded seq,_,.recorded ledger seq stored absent,carries_put store (reads_plain written now),.inl ⟨rfl,rfl⟩⟩
  | some value => exact ⟨.quiet,ledger,.quiet ledger,⟨fields,found,reads⟩,.inr ⟨rfl,rfl⟩⟩

theorem move_step (carried : Carries store key ledger) (seq : Nat) (next : HoldState) (value : String)
    (written : next.text = some value) (final : next.closed) :
    ∃ event after, ledger.Step event after ∧ Carries (MOVE_SCRIPT key seq value now store).2 key after ∧
      (((MOVE_SCRIPT key seq value now store).1 = .ok 1 ∧ event = .closed seq) ∨
        ((MOVE_SCRIPT key seq value now store).1 = .ok 0 ∧ event = .quiet)) := by
  obtain ⟨fields,found,reads⟩ := carried
  simp only [MOVE_SCRIPT,found]
  by_cases held : fields.get? (stateField seq) = some "held"
  · have before : ledger.state seq = .held := (HoldState.text_held _).mp ((reads.state seq).symm.trans held)
    rw [if_neg (not_not.mpr held)]
    exact ⟨.closed seq,_,.closed ledger seq next before final,
      carries_put store (reads_plain (reads_state reads seq next value written) now),.inl ⟨rfl,rfl⟩⟩
  · rw [if_pos held]
    exact ⟨.quiet,ledger,.quiet ledger,⟨fields,found,reads⟩,.inr ⟨rfl,rfl⟩⟩

theorem seq_step (carried : Carries store key ledger) :
    ∃ event after, ledger.Step event after ∧ Carries (SEQ_SCRIPT key now store).2 key after ∧
      (((SEQ_SCRIPT key now store).1 = .ok (ledger.seq + 1 : Nat) ∧ event = .numbered (ledger.seq + 1)) ∨
        ((SEQ_SCRIPT key now store).1 = .error overflow ∧ event = .quiet)) := by
  obtain ⟨fields,found,reads⟩ := carried
  have number : integerField fields "seq" = some (ledger.seq : Int) := by
    rw [integerField,reads.seq]
    by_cases zero : ledger.seq = 0
    · simp [zero]
    · simp [zero]
  simp only [SEQ_SCRIPT,found,number]
  by_cases inRange : inInt64 ((ledger.seq : Int) + 1)
  · rw [if_pos inRange]
    have written := reads_plain (reads_seq reads (ledger.seq + 1) (by omega)) now
    exact ⟨.numbered (ledger.seq + 1),_,.numbered ledger,carries_put store written,.inl ⟨rfl,rfl⟩⟩
  · rw [if_neg inRange]
    exact ⟨.quiet,ledger,.quiet ledger,⟨fields,found,reads⟩,.inr ⟨rfl,rfl⟩⟩

private theorem crashedBelow_eq_some (below : Int) (field state : String) (seq : Nat) :
    crashedBelow below field state = some seq ↔ seqOfField field = some seq ∧ state = "held" ∧ (seq : Int) < below := by
  simp [crashedBelow,Option.filter_eq_some_iff]

private theorem moved_iff {fields : Fields} (reads : Reads fields ledger) (below seq : Nat) :
    seq ∈ fields.entries.filterMap (fun entry => crashedBelow below entry.1 entry.2) ↔
      seq < below ∧ ledger.state seq = .held := by
  simp only [List.mem_filterMap,crashedBelow_eq_some]
  constructor
  · rintro ⟨⟨field,state⟩,member,number,rfl,less⟩
    have found := (Dict.get?_eq_some_iff fields field "held").mpr member
    have name := reads.names field seq (by simp [found]) number
    rw [name,reads.state seq,HoldState.text_held] at found
    exact ⟨by exact_mod_cast less,found⟩
  · rintro ⟨less,held⟩
    have found : fields.get? (stateField seq) = some "held" := by rw [reads.state seq,held]; rfl
    exact ⟨_,(Dict.get?_eq_some_iff _ _ _).mp found,seqOfField_stateField seq,rfl,by exact_mod_cast less⟩

private theorem moved_nodup {fields : Fields} (reads : Reads fields ledger) (below : Int) :
    (fields.entries.filterMap fun entry => crashedBelow below entry.1 entry.2).Nodup := by
  have apart : fields.entries.Pairwise fun left right => left.1 ≠ right.1 := List.pairwise_map.mp fields.distinct
  have present : ∀ entry ∈ fields.entries, (fields.get? entry.1).isSome := fun entry member => by
    rw [(Dict.get?_eq_some_iff fields entry.1 entry.2).mpr member]
    rfl
  rw [List.Nodup,List.pairwise_filterMap]
  refine apart.imp_of_mem fun {left right} leftMember rightMember apart seq leftFound other rightFound same => ?_
  subst same
  have leftName := ((crashedBelow_eq_some below left.1 left.2 seq).mp leftFound).1
  have rightName := ((crashedBelow_eq_some below right.1 right.2 seq).mp rightFound).1
  exact apart ((reads.names _ _ (present left leftMember) leftName).trans
    (reads.names _ _ (present right rightMember) rightName).symm)

private theorem reads_crashed {fields : Fields} (reads : Reads fields ledger) (below : Nat) :
    Reads (fields.mapValues fun field state => if (crashedBelow below field state).isSome then "settled-crashed" else state)
      { ledger with
        state := fun seq => if seq < below ∧ ledger.state seq = .held then .crashed else ledger.state seq } := by
  have plain : ∀ field, seqOfField field = none →
      (fields.mapValues fun field state =>
        if (crashedBelow below field state).isSome then "settled-crashed" else state).get? field = fields.get? field := by
    intro field none
    simp [Dict.get?_mapValues,crashedBelow,none]
  refine ⟨?_,?_,fun seq => ?_,fun seq => ?_,fun field seq found number => ?_⟩
  · rw [plain "slot" slot_unnumbered]
    exact reads.slot
  · rw [plain "seq" seq_unnumbered]
    exact reads.seq
  · rw [Dict.get?_mapValues,reads.state seq]
    by_cases moved : seq < below ∧ ledger.state seq = .held
    · simp [moved,HoldState.text,crashedBelow,seqOfField_stateField]
    · dsimp only
      rw [if_neg moved]
      cases state : ledger.state seq <;>
        simp_all [HoldState.text,crashedBelow,seqOfField_stateField]
  · rw [plain _ (seqOfField_recordField seq)]
    exact reads.record seq
  · rw [Dict.get?_mapValues,Option.isSome_map] at found
    exact reads.names field seq found number

theorem crashed_step (carried : Carries store key ledger) (below : Nat) :
    ∃ event after, ∃ moved : List Nat, ledger.Step event after ∧ Carries (CRASHED_SCRIPT key below now store).2 key after ∧
      (CRASHED_SCRIPT key below now store).1 = .ok (moved.map Int.ofNat) ∧ event = .crashed below ∧ moved.Nodup ∧
      ∀ seq, seq ∈ moved ↔ seq < below ∧ ledger.state seq = .held := by
  obtain ⟨fields,found,reads⟩ := carried
  simp only [CRASHED_SCRIPT,found]
  by_cases nothing : (fields.entries.filterMap fun entry => crashedBelow below entry.1 entry.2) = []
  · rw [if_pos nothing]
    have same : (fun seq => if seq < below ∧ ledger.state seq = .held then HoldState.crashed else ledger.state seq) =
        ledger.state := by
      funext seq
      refine if_neg fun moved => ?_
      have member := (moved_iff reads below seq).mpr moved
      rw [nothing] at member
      cases member
    have still := RunLedger.Step.crashed ledger below
    rw [same] at still
    refine ⟨_,ledger,[],still,⟨fields,found,reads⟩,rfl,rfl,List.nodup_nil,fun seq => ?_⟩
    rw [← moved_iff reads,nothing]
  · rw [if_neg nothing]
    exact ⟨_,_,_,.crashed ledger below,carries_put store (reads_plain (reads_crashed reads below) now),rfl,rfl,
      moved_nodup reads below,fun seq => moved_iff reads below seq⟩

end Scripts

end PiDispatch.RunBudgetLedger
