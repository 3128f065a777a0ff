import PiDispatch.Kernel.Deeds
import PiDispatch.DollarAttempt
import PiDispatch.DollarInterleaving

/-! What the calls of an attempt add to the windows: each reservation, give-back and settlement as deeds at its keys, with
the answers that may have been lost. -/
namespace PiDispatch.DollarBudget
open Kernel Command Counting

/-- The commands that add to a counter, for a caller that has `least` there. -/
inductive Deed : Valkey.Command → String → Int → Int → Prop
  | reserve (key : String) (amount : Int) (positive : 0 ≤ amount) : Deed ⟨.integer,incrby key amount⟩ key amount 0
  | giveBack (key : String) (amount : Int) (positive : 0 ≤ amount) : Deed ⟨.integer,decrby key amount⟩ key (-amount) amount
  | settle (key : String) (delta least : Int) (present : 0 < least) (enough : 0 ≤ least + delta) :
      Deed ⟨.integers,SETTLE_SCRIPT key delta⟩ key delta least

/-- Answered with its effect, or refused without one. -/
private def Added (store : Store) (command : Valkey.Command) (key : String) (delta : Int) : Prop :=
  (∃ fault, command.2 store = (.error fault,store)) ∨
    ∃ value, (command.2 store).1 = .ok value ∧ (command.2 store).2 = store.put key (.integer (counter store key + delta)) ∧
      counter store key + delta < 2 ^ 63

private theorem incrby_added {store : Store} (cells : Counters store) (key : String) (increment : Int) :
    Added store ⟨.integer,incrby key increment⟩ key increment := by
  unfold Added
  dsimp only
  rw [incrby_counters cells]
  split
  next range => exact .inr ⟨_,rfl,rfl,range.2⟩
  · exact .inl ⟨_,rfl⟩

private theorem settle_added {store : Store} (cells : Counters store) {key : String} {delta least : Int} (present : 0 < least)
    (enough : 0 ≤ least + delta) (there : least ≤ counter store key) :
    Added store ⟨.integers,SETTLE_SCRIPT key delta⟩ key delta := by
  have exists' : (store key).isNone = false := by
    rcases cells key with absent | ⟨number,_,found⟩
    · have zero : counter store key = 0 := by simp [counter,absent]
      omega
    · rw [found]
      rfl
  have total : ¬counter store key + delta < 0 := by omega
  have answered : SETTLE_SCRIPT key delta store =
      if inInt64 (counter store key + delta) then
        (.ok [0,counter store key + delta],store.put key (.integer (counter store key + delta)))
      else (.error overflow,store) := by
    unfold SETTLE_SCRIPT
    rw [exists',incrby_counters cells,if_neg Bool.false_ne_true]
    by_cases range : inInt64 (counter store key + delta)
    · rw [if_pos range,if_pos range]
      exact if_neg total
    · rw [if_neg range,if_neg range]
  unfold Added
  dsimp only
  rw [answered]
  split
  next range => exact .inr ⟨_,rfl,rfl,range.2⟩
  · exact .inl ⟨_,rfl⟩

private theorem deed_added {command : Valkey.Command} {key : String} {delta least : Int} (deed : Deed command key delta least)
    {store : Store} (cells : Counters store) (there : least ≤ counter store key) : Added store command key delta := by
  cases deed with
  | reserve => exact incrby_added cells _ _
  | giveBack => exact incrby_added cells _ _
  | settle _ _ _ present enough => exact settle_added cells present enough there

/-- A call's answer may be lost, before its effect or after it; where `careful` says so, never after it. -/
def attemptServes {N : Type} (careful : Purpose → Bool) (store : Store) :
    (command : (Valkey.beside (errands N) Purpose).Command) → (Valkey.beside (errands N) Purpose).Answer command → Store → Prop
  | .inl _,_,store' => store' = store
  | .inr (purpose,command),answer,store' => servedOrFaulted store command answer store' ∧
      (careful purpose → (∃ fault, answer = .error fault) → store' = store)

private theorem counter_added {store : Store} (key : String) (delta : Int) (other : String) :
    counter (store.put key (.integer (counter store key + delta))) other =
      counter store other + if key = other then delta else 0 := by
  rw [counter_put]
  by_cases same : other = key
  · subst same
    simp
  · rw [if_neg same,if_neg (fun equal => same equal.symm),add_zero]

/-- The windows as counters of an attempt's calls. -/
def windows (N : Type) (careful : Purpose → Bool) : Counting (Valkey.beside (errands N) Purpose) Store String where
  serves := attemptServes careful
  sound := Counters
  counter := counter
  idle
    | .inl _ => True
    | .inr (_,command) => ∃ key seconds, command = ⟨.flag,expire key seconds⟩
  adds
    | .inl _ => fun _ _ _ => False
    | .inr (_,command) => Deed command
  may
    | .inl _ => fun _ _ => True
    | .inr (purpose,_) => fun answer took =>
      ((∃ value, answer = .ok value) → took = true) ∧ (careful purpose → (∃ fault, answer = .error fault) → took = false)
  covered command key delta least adds := by
    cases command with
    | inl => exact adds.elim
    | inr marked =>
      obtain ⟨purpose,command⟩ := marked
      cases adds with
      | reserve _ _ positive => exact ⟨le_rfl,by omega⟩
      | giveBack _ _ positive => exact ⟨positive,by omega⟩
      | settle _ _ _ present enough => exact ⟨present.le,enough⟩
  serves_idle store command answer store' idle sound served := by
    cases command with
    | inl =>
      cases served
      exact ⟨sound,fun _ => rfl⟩
    | inr marked =>
      obtain ⟨purpose,command⟩ := marked
      obtain ⟨key,seconds,rfl⟩ := idle
      rcases served.1 with answered | ⟨_,_,same | same⟩
      · cases answered
        exact ⟨sound,fun _ => rfl⟩
      · cases same
        exact ⟨sound,fun _ => rfl⟩
      · cases same
        exact ⟨sound,fun _ => rfl⟩
  serves_adds store command answer store' key delta least adds sound there served := by
    cases command with
    | inl => exact adds.elim
    | inr marked =>
      obtain ⟨purpose,command⟩ := marked
      have added := deed_added adds sound there
      obtain ⟨served,careful'⟩ := served
      have still : store' = store → (∃ fault, answer = .error fault) → Counters store' ∧ ∃ took,
          (((∃ value, answer = .ok value) → took = true) ∧
            (careful purpose → (∃ fault, answer = .error fault) → took = false)) ∧
          ∀ other, counter store' other = counter store other + if took ∧ key = other then delta else 0 := by
        rintro rfl ⟨fault,rfl⟩
        refine ⟨sound,false,⟨?_,fun _ _ => rfl⟩,fun _ => by simp⟩
        rintro ⟨_,none⟩
        cases none
      rcases served with answered | ⟨fault,rfl,same | same⟩
      · rcases added with ⟨fault,refused⟩ | ⟨value,ok,effect,bound⟩
        · have both := answered.symm.trans refused
          exact still (Prod.mk.inj both).2 ⟨fault,(Prod.mk.inj both).1⟩
        · have own : answer = (command.2 store).1 ∧ store' = (command.2 store).2 := by
            rw [show command.2 store = (answer,store') from answered]
            exact ⟨rfl,rfl⟩
          rw [own.2,effect]
          refine ⟨counters_put sound key bound,true,⟨fun _ => rfl,?_⟩,fun other => ?_⟩
          · rintro _ ⟨fault,failed⟩
            rw [own.1,ok] at failed
            cases failed
          · simpa using counter_added key delta other
      · exact still same ⟨fault,rfl⟩
      · by_cases same' : store' = store
        · exact still same' ⟨fault,rfl⟩
        · rcases added with ⟨other,refused⟩ | ⟨value,ok,effect,bound⟩
          · exact absurd (same.trans (congrArg Prod.snd refused)) same'
          · rw [same,effect]
            refine ⟨counters_put sound key bound,true,⟨fun _ => rfl,?_⟩,fun other => ?_⟩
            · exact fun careful failed => absurd (careful' careful failed) same'
            · simpa using counter_added key delta other

section Calls
variable {N α : Type} {careful : Purpose → Bool} {purpose : Nat → Purpose} {post : α → Deeds String → Prop} {deeds : Deeds String}

/-- A call that adds: answered, refused, or lost with its effect where that may be. -/
private theorem spends_call {kind : ReplyKind} {command : Command kind} {resume : Reply kind → Call α} {index : Nat}
    {key : String} {delta least : Int} (deed : Deed ⟨kind,command⟩ key delta least) (enough : least ≤ deeds.at' key)
    (answered : ∀ value, Owns (windows N careful) post ((resume (.ok value)).within (errands N) purpose (index + 1))
      (deeds ++ [(key,delta)]))
    (refused : ∀ fault, Owns (windows N careful) post ((resume (.error fault)).within (errands N) purpose (index + 1)) deeds)
    (lost : careful (purpose index) = false → ∀ fault,
      Owns (windows N careful) post ((resume (.error fault)).within (errands N) purpose (index + 1)) (deeds ++ [(key,delta)])) :
    Owns (windows N careful) post ((call command resume).within (errands N) purpose index) deeds := by
  refine .adds _ _ deeds key delta least deed enough ?_
  intro answer took may
  obtain ⟨effect,careful'⟩ := may
  cases answer with
  | ok value =>
    cases effect ⟨value,rfl⟩
    exact answered value
  | error fault =>
    cases took with
    | false => exact refused fault
    | true =>
      refine lost ?_ fault
      cases sure : careful (purpose index) with
      | false => rfl
      | true => exact absurd (careful' sure ⟨fault,rfl⟩) (by decide)

private theorem spends_expire {key : String} {seconds : Nat} {resume : Reply .flag → Call α} {index : Nat}
    (onward : ∀ answer, Owns (windows N careful) post ((resume answer).within (errands N) purpose (index + 1)) deeds) :
    Owns (windows N careful) post ((call (expire key seconds) resume).within (errands N) purpose index) deeds :=
  .idle _ _ deeds ⟨key,seconds,rfl⟩ onward

private theorem own_first {amount : Int} {key : String} {rest : List String} (positive : 0 ≤ amount)
    (own : ∀ other, amount * (key :: rest).count other ≤ deeds.at' other) : amount ≤ deeds.at' key := by
  have there := own key
  rw [List.count_cons_self] at there
  have more : 0 ≤ amount * (rest.count key : Nat) := mul_nonneg positive (by positivity)
  push_cast at there
  linarith

private theorem own_rest {amount delta : Int} {key : String} {rest : List String} (least : 0 ≤ amount + delta)
    (own : ∀ other, amount * (key :: rest).count other ≤ deeds.at' other) (other : String) :
    amount * rest.count other ≤ (deeds ++ [(key,delta)]).at' other := by
  have there := own other
  rw [Deeds.at_snoc]
  by_cases same : key = other
  · subst same
    rw [List.count_cons_self] at there
    rw [if_pos rfl]
    push_cast at there
    linarith
  · rw [List.count_cons_of_ne same] at there
    rw [if_neg same]
    linarith

private theorem own_later {amount : Int} {key : String} {rest : List String} (positive : 0 ≤ amount)
    (own : ∀ other, amount * (key :: rest).count other ≤ deeds.at' other) (other : String) :
    amount * rest.count other ≤ deeds.at' other := by
  have there := own other
  have fewer : rest.count other ≤ (key :: rest).count other := List.count_le_count_cons
  have less : amount * (rest.count other : Int) ≤ amount * ((key :: rest).count other : Int) :=
    mul_le_mul_of_nonneg_left (by exact_mod_cast fewer) positive
  linarith

theorem giveBack_spends {amount : Int} (positive : 0 ≤ amount) (left : List LedgerWindow) (failed index : Nat)
    (own : ∀ key, amount * (left.map LedgerWindow.key).count key ≤ deeds.at' key) :
    Owns (windows N careful) (fun _ _ => True) ((giveBack amount left failed).within (errands N) purpose index) deeds := by
  induction left generalizing failed index deeds with
  | nil => exact .done _ _ trivial
  | cons window left ih =>
    refine spends_call (.giveBack window.key amount positive) (own_first positive own) ?_ ?_ ?_
    · exact fun _ => ih failed (index + 1) (own_rest (by omega) own)
    · exact fun _ => ih (failed + 1) (index + 1) (own_later positive own)
    · exact fun _ _ => ih (failed + 1) (index + 1) (own_rest (by omega) own)

/-- What stands after the walk over `all` the windows. -/
private def Walked (amount : Int) (all : List LedgerWindow) : Walk → Deeds String → Prop
  | .complete touched,deeds => touched = all ∧ deeds = touched.map fun window => (window.key,amount)
  | .refused _ touched,deeds | .fault _ touched,deeds =>
    ∀ key, amount * (touched.map LedgerWindow.key).count key ≤ deeds.at' key

private theorem touched_own (amount : Int) (touched : List LedgerWindow) (key : String) :
    Deeds.at' (touched.map fun window => (window.key,amount)) key = amount * (touched.map LedgerWindow.key).count key := by
  have same := Deeds.at_each (touched.map LedgerWindow.key) amount key
  rwa [List.map_map] at same

private theorem walk_spends {amount : Int} (positive : 0 ≤ amount) (touched rest : List LedgerWindow) (index : Nat) :
    Owns (windows N careful) (Walked amount (touched ++ rest)) ((walk amount touched rest).within (errands N) purpose index)
      (touched.map fun window => (window.key,amount)) := by
  induction rest generalizing touched index with
  | nil => exact .done _ _ ⟨(List.append_nil touched).symm,rfl⟩
  | cons window rest ih =>
    have zero : ∀ (deeds : Deeds String) key, deeds = touched.map (fun window => (window.key,amount)) → 0 ≤ deeds.at' key := by
      rintro _ key rfl
      rw [touched_own]
      positivity
    have snoc : (touched.map fun window => (window.key,amount)) ++ [(window.key,amount)] =
        (touched ++ [window]).map fun window => (window.key,amount) := by simp
    have all : touched ++ window :: rest = touched ++ [window] ++ rest := by simp
    have onward : ∀ total index, Owns (windows N careful) (Walked amount (touched ++ window :: rest))
        ((if total > window.cap then .done (.refused (overCap window total) (touched ++ [window]))
          else walk amount (touched ++ [window]) rest : Call Walk).within (errands N) purpose index)
        ((touched ++ [window]).map fun window => (window.key,amount)) := by
      intro total index
      split
      · exact .done _ _ fun key => le_of_eq (touched_own amount (touched ++ [window]) key).symm
      · rw [all]
        exact ih (touched ++ [window]) index
    refine spends_call (.reserve window.key amount positive) (zero _ _ rfl) ?_ ?_ ?_
    · intro total
      rw [snoc]
      dsimp only
      split
      · refine spends_expire fun answer => ?_
        cases answer with
        | ok flag => exact onward total _
        | error fault => exact .done _ _ fun key => le_of_eq (touched_own amount (touched ++ [window]) key).symm
      · exact onward total _
    · exact fun _ => .done _ _ fun key => le_of_eq (touched_own amount touched key).symm
    · intro _ _
      refine .done _ _ fun key => ?_
      rw [Deeds.at_snoc,touched_own]
      split
      · linarith
      · linarith

/-- An admitted hold is added whole, at each of its keys. -/
def Reserved (ledgers : List Ledger) (now : Instant) : Except Thrown Reservation → Deeds String → Prop
  | .ok (.admitted hold),deeds => isMicros hold.amountMicros ∧ deeds = hold.keys.map (fun key => (key,hold.amountMicros)) ∧
      (hold = ⟨0,[],none⟩ ∨ 0 < hold.amountMicros ∧ hold = holdOf hold.amountMicros (activeWindows ledgers now))
  | _,_ => True

theorem reserve_spends (ledgers : List Ledger) (amountMicros : Int) (now : Instant) :
    Owns (windows N careful) (Reserved ledgers now) ((reserveDollars ledgers amountMicros now).within (errands N) purpose 0) [] := by
  unfold reserveDollars
  split
  · exact .done _ _ trivial
  next micros =>
    have micros := not_not.mp micros
    split
    · exact .done _ _ ⟨⟨le_rfl,by decide⟩,rfl,.inl rfl⟩
    next positive =>
      have positive : 0 < amountMicros := lt_of_le_of_ne micros.1 (Ne.symm positive)
      refine (walk_spends positive.le [] (activeWindows ledgers now) 0).within_bind ?_
      intro ended deeds index walked
      cases ended with
      | complete touched =>
        obtain ⟨rfl,rfl⟩ := walked
        refine .done _ _ ⟨micros,?_,.inr ⟨positive,rfl⟩⟩
        simp [holdOf]
      | refused refusal touched =>
        exact (giveBack_spends positive.le touched 0 index walked).within_bind fun _ _ _ _ => .done _ _ trivial
      | fault fault touched =>
        exact (giveBack_spends positive.le touched 0 index walked).within_bind fun _ _ _ _ => .done _ _ trivial

/-- The additions of a settlement: none where it settles to the reservation. -/
def adjusted (delta : Int) (keys : List String) : Deeds String := if delta = 0 then [] else keys.map fun key => (key,delta)

theorem adjusted_at (delta : Int) (keys : List String) (key : String) : (adjusted delta keys).at' key = delta * keys.count key := by
  unfold adjusted
  split
  next zero => simp [zero]
  · exact Deeds.at_each keys delta key

/-- A walk over the keys moved the first `moved` of them: the ones it counted, and one more where an answer was lost. -/
structure Moved (careful : Purpose → Bool) (purpose : Nat → Purpose) (keys : List String) (delta : Int) (before : Deeds String)
    (walked : Settlement) (moved : Nat) (after : Deeds String) : Prop where
  shape : after = before ++ adjusted delta (keys.take moved)
  of : walked.of = keys.length
  within : moved ≤ keys.length
  counted : moved = walked.applied ∨ moved = walked.applied + 1 ∧ careful (purpose walked.applied) = false

theorem Moved.whole {keys : List String} {delta : Int} {before after : Deeds String} {walked : Settlement} {moved : Nat}
    (walk : Moved careful purpose keys delta before walked moved after) (answered : walked.applied = walked.of) :
    moved = keys.length := by
  have within := walk.within
  have of := walk.of
  rcases walk.counted with same | ⟨more,_⟩ <;> omega

private theorem settleKeys_spends {reserved delta : Int} (positive : 0 < reserved) (least : 0 ≤ reserved + delta)
    (keys : List String) (of applied index : Nat) (own : ∀ key, reserved * keys.count key ≤ deeds.at' key) :
    Owns (windows N careful) (fun walked after => ∃ moved ≤ keys.length, ∃ counted,
        after = deeds ++ (keys.take moved).map (fun key => (key,delta)) ∧ walked = ⟨applied + counted,of⟩ ∧
        (moved = counted ∨ moved = counted + 1 ∧ careful (purpose (index + counted)) = false))
      ((settleKeys delta of keys applied).within (errands N) purpose index) deeds := by
  induction keys generalizing applied index deeds with
  | nil => exact .done _ _ ⟨0,le_rfl,0,by simp,rfl,.inl rfl⟩
  | cons key keys ih =>
    refine spends_call (.settle key delta reserved positive least) (own_first positive.le own) ?_ ?_ ?_
    · intro value
      refine (ih (applied + 1) (index + 1) (own_rest least own)).weaken ?_
      rintro walked after ⟨moved,within,counted,rfl,rfl,both⟩
      refine ⟨moved + 1,by simpa using within,counted + 1,by simp,by congr 1; omega,?_⟩
      rw [show index + (counted + 1) = index + 1 + counted by omega]
      exact both.imp (fun same => by omega) fun lost => ⟨by omega,lost.2⟩
    · exact fun _ => .done _ _ ⟨0,Nat.zero_le _,0,by simp,rfl,.inl rfl⟩
    · exact fun lost _ => .done _ _ ⟨1,by simp,0,by simp,rfl,.inr ⟨rfl,lost⟩⟩

/-- A settlement moves the hold's keys in order, as far as it gets. -/
theorem settleDollars_spends (hold : Hold) (settledMicros : Int) (positive : hold.keys = [] ∨ 0 < hold.amountMicros)
    (own : ∀ key, hold.amountMicros * hold.keys.count key ≤ deeds.at' key) :
    Owns (windows N careful)
      (fun walked after => ∃ moved, Moved careful purpose hold.keys (settledMicros - hold.amountMicros) deeds walked moved after ∧
        (isMicros settledMicros ∨ moved = 0))
      ((settleDollars hold settledMicros).within (errands N) purpose 0) deeds := by
  unfold settleDollars
  split
  · exact .done _ _ ⟨0,⟨by simp [adjusted],rfl,Nat.zero_le _,.inl rfl⟩,.inr rfl⟩
  next valid =>
    have micros : isMicros settledMicros := not_not.mp fun none => valid (.inl none)
    dsimp only
    split
    next same =>
      refine .done _ _ ⟨hold.keys.length,⟨?_,rfl,le_rfl,.inl rfl⟩,.inl micros⟩
      simp [adjusted,same]
    next apart =>
      rcases positive with none | positive
      · rw [none]
        exact .done _ _ ⟨0,⟨by simp [adjusted],rfl,le_rfl,.inl rfl⟩,.inr rfl⟩
      · have least : 0 ≤ hold.amountMicros + (settledMicros - hold.amountMicros) := by
          have nonneg := micros.1
          omega
        refine (settleKeys_spends positive least hold.keys hold.keys.length 0 0 own).weaken ?_
        rintro walked after ⟨moved,within,counted,rfl,rfl,both⟩
        refine ⟨moved,⟨?_,rfl,within,?_⟩,.inl micros⟩
        · simp [adjusted,apart]
        · simpa using both

end Calls

end PiDispatch.DollarBudget
