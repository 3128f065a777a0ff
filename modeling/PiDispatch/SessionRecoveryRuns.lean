import Mathlib.Data.List.Nodup
import PiDispatch.SessionRecovery

/-! Recoveries that crash and start again: each orphan's label against the one that an uninterrupted recovery gives it. -/
namespace PiDispatch.SessionRecovery

variable {D : Type}

/-! The labels of a recovery, from what each orphan's call is. -/

/-- The labels of some orphans, where a call may be held already, and where the first of them may have been running. -/
def labels (held first : Bool) : List ReplayClass → List Label
  | [] => []
  | .replay :: rest => if held = false then .replayed :: labels false false rest else .notStarted :: labels true false rest
  | .hold :: rest => (if held = false ∧ first = true then .interrupted else .notStarted) :: labels true false rest

theorem labels_length (held first : Bool) (classes : List ReplayClass) : (labels held first classes).length = classes.length := by
  induction classes generalizing held first with
  | nil => rfl
  | cons own rest ih =>
    cases own with
    | replay =>
      unfold labels
      split
      · rw [List.length_cons,ih,List.length_cons]
      · rw [List.length_cons,ih,List.length_cons]
    | hold =>
      unfold labels
      rw [List.length_cons,ih,List.length_cons]

/-- Once a call is held, no call is run any more. -/
theorem labels_held (first : Bool) (classes : List ReplayClass) :
    labels true first classes = List.replicate classes.length .notStarted := by
  induction classes generalizing first with
  | nil => rfl
  | cons own rest ih =>
    cases own with
    | replay =>
      unfold labels
      rw [if_neg (by decide),ih]
      rfl
    | hold =>
      unfold labels
      rw [if_neg (by simp),ih]
      rfl

/-- After some calls that are run again, the first of the others is one that the crash came before. -/
theorem labels_drop (first : Bool) (classes : List ReplayClass) {count : Nat} (some' : 0 < count)
    (replays : ∀ own ∈ classes.take count, own = .replay) :
    (labels false first classes).drop count = labels false false (classes.drop count) := by
  induction classes generalizing first count with
  | nil =>
    rw [List.drop_nil]
    exact List.drop_nil
  | cons own rest ih =>
    cases count with
    | zero => cases some'
    | succ count =>
      have replay : own = .replay := replays own (by rw [List.take_succ_cons]; exact List.mem_cons_self)
      subst replay
      have shape : labels false first (.replay :: rest) = .replayed :: labels false false rest := rfl
      rw [shape,List.drop_succ_cons,List.drop_succ_cons]
      cases count with
      | zero => rfl
      | succ count =>
        refine ih false (Nat.succ_pos _) fun other inside => replays other ?_
        rw [List.take_succ_cons]
        exact List.mem_cons_of_mem _ inside

/-- A recovery may start at this orphan: it is the first, or it and all before it are run again, or none is left. -/
def Clear (classes : List ReplayClass) (answered : Nat) : Prop :=
  answered = 0 ∨ classes.length ≤ answered ∨ ∀ own ∈ classes.take (answered + 1), own = .replay

theorem clear_drop {classes : List ReplayClass} {answered : Nat} (clear : Clear classes answered) :
    labels false true (classes.drop answered) = (labels false true classes).drop answered := by
  rcases clear with rfl | past | replays
  · rw [List.drop_zero,List.drop_zero]
  · rw [List.drop_eq_nil_of_le past,List.drop_eq_nil_of_le (by rw [labels_length]; exact past)]
    rfl
  · rcases Nat.eq_zero_or_pos answered with rfl | some'
    · rw [List.drop_zero,List.drop_zero]
    · rw [labels_drop true classes some' fun own inside =>
        replays own (List.take_subset_take_left classes (Nat.le_succ _) inside)]
      cases rest : classes.drop answered with
      | nil => rfl
      | cons own later =>
        have within : answered < classes.length := by
          by_contra past
          rw [List.drop_eq_nil_of_le (Nat.le_of_not_lt past)] at rest
          cases rest
        have here : classes[answered] = own := by
          have shape := List.drop_eq_getElem_cons within
          rw [rest] at shape
          exact (List.cons.inj shape).1.symm
        have replay : own = .replay := by
          refine replays own ?_
          rw [← here]
          exact List.mem_take_iff_getElem.mpr ⟨answered,by omega,rfl⟩
        rw [replay]
        rfl

/-! The transcripts that recoveries leave. -/

/-- The answers of some messages: which call each is of, and its label. -/
def answered (messages : List (Message D)) : List (String × Option Label) :=
  (messages.filterMap resultOf).map fun result => (result.toolCallId,result.label)

def isResult : Message D → Bool
  | .toolResult _ => true
  | _ => false

theorem answered_append (first second : List (Message D)) : answered (first ++ second) = answered first ++ answered second := by
  unfold answered
  rw [List.filterMap_append,List.map_append]

theorem answered_length {messages : List (Message D)} (results : messages.all isResult = true) :
    (answered messages).length = messages.length := by
  unfold answered
  rw [List.length_map]
  induction messages with
  | nil => rfl
  | cons message rest ih =>
    rw [List.all_cons,Bool.and_eq_true] at results
    cases message with
    | toolResult result =>
      have own : resultOf (.toolResult result : Message D) = some result := rfl
      rw [List.filterMap_cons_some own,List.length_cons,List.length_cons,ih results.2]
    | assistant | system | other => cases results.1

theorem lastUsable_shape {assistant : Message D} (usable : isUsableAssistant assistant = true) {tail : List (Message D)}
    (last : ∀ message ∈ tail, isUsableAssistant message = false) (pre : List (Message D)) :
    lastUsable (pre ++ assistant :: tail) = some (assistant,tail) := by
  have none : ∀ messages : List (Message D), (∀ message ∈ messages, isUsableAssistant message = false) →
      lastUsable messages = none := by
    intro messages
    induction messages with
    | nil => exact fun _ => rfl
    | cons message rest ih =>
      intro each
      unfold lastUsable
      rw [ih fun later inside => each later (List.mem_cons_of_mem _ inside),each message List.mem_cons_self]
      rfl
  induction pre with
  | nil =>
    rw [List.nil_append]
    unfold lastUsable
    rw [none tail last,usable]
    rfl
  | cons message rest ih =>
    rw [List.cons_append]
    unfold lastUsable
    rw [ih]

/-- A transcript whose last batch was cut off after `count` of its answers. -/
structure Crashed (assistant : Message D) (tail : List (Message D)) (count : Nat) : Prop where
  usable : isUsableAssistant assistant = true
  distinct : ((toolCalls assistant).map ToolCall.id).Nodup
  last : ∀ message ∈ tail, isUsableAssistant message = false
  answers : (tail.filterMap resultOf).map ToolResult.toolCallId = ((toolCalls assistant).take count).map ToolCall.id
  still : count < (toolCalls assistant).length → tail.all isTail = true

namespace Crashed
variable {assistant : Message D} {tail : List (Message D)} {count : Nat}

private theorem dropped {calls : List (ToolCall D)} (distinct : (calls.map ToolCall.id).Nodup) (count : Nat) :
    (calls.filter fun call => call.id ∉ (calls.take count).map ToolCall.id) = calls.drop count := by
  induction calls generalizing count with
  | nil => simp
  | cons call rest ih =>
    obtain ⟨once,distinct⟩ := List.nodup_cons.mp distinct
    cases count with
    | zero => simp
    | succ count =>
      have apart : ∀ other ∈ rest, (decide (other.id ∉ call.id :: (rest.take count).map ToolCall.id)) =
          decide (other.id ∉ (rest.take count).map ToolCall.id) := by
        intro other inside
        have ne : other.id ≠ call.id := fun same => once (same ▸ List.mem_map_of_mem inside)
        simp [ne]
      rw [List.take_succ_cons,List.drop_succ_cons,List.map_cons,List.filter_cons_of_neg (by simp),
        List.filter_congr apart,ih distinct count]

theorem orphans (crashed : Crashed assistant tail count) (pre : List (Message D)) :
    (findOrphans (pre ++ assistant :: tail)).2 = (toolCalls assistant).drop count := by
  unfold findOrphans
  rw [lastUsable_shape crashed.usable crashed.last pre]
  dsimp only
  split
  · dsimp only
    rw [crashed.answers]
    exact dropped crashed.distinct count
  next closed =>
    have past : (toolCalls assistant).length ≤ count := by
      by_contra before
      exact closed (crashed.still (Nat.lt_of_not_le before))
    rw [List.drop_eq_nil_of_le past]

/-- More answers, of the calls that come next. -/
theorem grow (crashed : Crashed assistant tail count) {more : List (Message D)} (results : more.all isResult = true)
    (next : (more.filterMap resultOf).map ToolResult.toolCallId =
      (((toolCalls assistant).drop count).take more.length).map ToolCall.id) :
    Crashed assistant (tail ++ more) (count + more.length) := by
  refine ⟨crashed.usable,crashed.distinct,?_,?_,?_⟩
  · intro message inside
    rcases List.mem_append.mp inside with old | new
    · exact crashed.last message old
    · have result := List.all_eq_true.mp results message new
      cases message with
      | toolResult => rfl
      | assistant | system | other => cases result
  · rw [List.filterMap_append,List.map_append,crashed.answers,next,← List.map_append,List.take_add]
  · intro short
    rw [List.all_append,crashed.still (by omega),Bool.true_and,List.all_eq_true]
    intro message inside
    have result := List.all_eq_true.mp results message inside
    cases message with
    | toolResult => rfl
    | assistant | system | other => cases result

end Crashed

/-! What one recovery answers. -/

section Answers
variable (registry : Registry) (outside : Outside D)

/-- The answers that a recovery gives some orphans, if none of their calls throws. -/
def plan (held first : Bool) (calls : List (ToolCall D)) : List (String × Option Label) :=
  (calls.map ToolCall.id).zip ((labels held first (calls.map (replayClass registry))).map some)

theorem plan_length (held first : Bool) (calls : List (ToolCall D)) : (plan registry held first calls).length = calls.length := by
  unfold plan
  rw [List.length_zip,List.length_map,List.length_map,labels_length,List.length_map,Nat.min_self]

private theorem plan_cons (held first : Bool) (call : ToolCall D) (rest : List (ToolCall D)) :
    ∃ label held', plan registry held first (call :: rest) = (call.id,some label) :: plan registry held' false rest ∧
      ((held = false ∧ replayClass registry call = .replay ∧ label = .replayed ∧ held' = false) ∨
        ((held = true ∨ replayClass registry call = .hold) ∧ held' = true ∧
          label = if held = false ∧ first = true then .interrupted else .notStarted)) := by
  unfold plan
  rw [List.map_cons,List.map_cons]
  cases own : replayClass registry call with
  | replay =>
    cases held with
    | false => exact ⟨.replayed,false,rfl,.inl ⟨rfl,rfl,rfl,rfl⟩⟩
    | true => exact ⟨.notStarted,true,rfl,.inr ⟨.inl rfl,rfl,by simp⟩⟩
  | hold => exact ⟨_,true,rfl,.inr ⟨.inr rfl,rfl,rfl⟩⟩

theorem answerOrphans_plan (messages : List (Message D)) (held : Bool) (index : Nat) (counts : Counts)
    (calls : List (ToolCall D)) :
    let answers := answerOrphans registry outside messages held index counts calls
    answers.1.all isResult = true ∧ answered answers.1 <+: plan registry held (decide (index = 0)) calls ∧
      (answers.2.isSome = true → answered answers.1 = plan registry held (decide (index = 0)) calls) := by
  induction calls generalizing messages held index counts with
  | nil => exact ⟨rfl,List.prefix_refl _,fun _ => rfl⟩
  | cons call rest ih =>
    obtain ⟨label,held',shape,cases'⟩ := plan_cons registry held (decide (index = 0)) call rest
    have later : decide (index + 1 = 0) = false := decide_eq_false (Nat.succ_ne_zero index)
    unfold answerOrphans
    rw [shape]
    rcases cases' with ⟨free,replay,rfl,rfl⟩ | ⟨stop,rfl,own⟩
    · rw [if_pos ⟨free,replay⟩]
      subst free
      split
      · exact ⟨rfl,List.nil_prefix,fun none => nomatch none⟩
      next outcome _ =>
        have next := ih (messages ++ [replayedResult outside messages call outcome]) false (index + 1)
          { counts with replayed := counts.replayed + 1 }
        rw [later] at next
        obtain ⟨results,fits,whole⟩ := next
        refine ⟨results,List.cons_prefix_cons.mpr ⟨rfl,fits⟩,fun done => ?_⟩
        exact congrArg _ (whole done)
    · have closed : ¬(held = false ∧ replayClass registry call = .replay) := by
        rintro ⟨free,replay⟩
        rcases stop with held | hold
        · rw [free] at held
          cases held
        · rw [replay] at hold
          cases hold
      rw [if_neg closed]
      have text : ∀ words counts', let answer := textResult outside messages call words label
          let more := answerOrphans registry outside (messages ++ [answer]) true (index + 1) counts' rest
          (answer :: more.1).all isResult = true ∧
            answered (answer :: more.1) <+: (call.id,some label) :: plan registry true false rest ∧
            (more.2.isSome = true → answered (answer :: more.1) = (call.id,some label) :: plan registry true false rest) := by
        intro words counts'
        have next := ih (messages ++ [textResult outside messages call words label]) true (index + 1) counts'
        rw [later] at next
        obtain ⟨results,fits,whole⟩ := next
        refine ⟨results,List.cons_prefix_cons.mpr ⟨rfl,fits⟩,fun done => ?_⟩
        exact congrArg _ (whole done)
      by_cases first : held = false ∧ index = 0
      · rw [if_pos ⟨first.1,decide_eq_true first.2⟩] at own
        rw [if_pos first]
        subst own
        exact text _ _
      · rw [if_neg fun both => first ⟨both.1,of_decide_eq_true both.2⟩] at own
        rw [if_neg first]
        subst own
        exact text _ _

end Answers

/-! A recovery of a crashed transcript, and the ones that follow it. -/

section Chain
variable {registry : Registry} {assistant : Message D} {tail : List (Message D)} {count : Nat}

private theorem plan_ids (held first : Bool) (calls : List (ToolCall D)) :
    (plan registry held first calls).map Prod.fst = calls.map ToolCall.id := by
  unfold plan
  refine List.map_fst_zip (Nat.le_of_eq ?_)
  rw [List.length_map,List.length_map,labels_length,List.length_map]

private theorem answered_ids (messages : List (Message D)) :
    (answered messages).map Prod.fst = (messages.filterMap resultOf).map ToolResult.toolCallId := by
  unfold answered
  rw [List.map_map]
  rfl

private theorem answered_take {messages : List (Message D)} (results : messages.all isResult = true) (many : Nat) :
    (messages.take many).all isResult = true ∧ answered (messages.take many) = (answered messages).take many := by
  induction messages generalizing many with
  | nil =>
    rw [List.take_nil]
    exact ⟨rfl,List.take_nil.symm⟩
  | cons message rest ih =>
    cases many with
    | zero => exact ⟨rfl,rfl⟩
    | succ many =>
      rw [List.all_cons,Bool.and_eq_true] at results
      obtain ⟨own,same⟩ := ih results.2 many
      rw [List.take_succ_cons,List.all_cons,results.1,own]
      cases message with
      | toolResult result => exact ⟨rfl,congrArg _ same⟩
      | assistant | system | other => cases results.1

/-- What a recovery of a crashed transcript appends: answers of the orphans in order, all of them unless a call throws. -/
theorem recover_plan (crashed : Crashed assistant tail count) (pre : List (Message D)) (outside : Outside D) :
    let recovery := recoverSession registry outside (pre ++ assistant :: tail)
    recovery.1.all isResult = true ∧ answered recovery.1 <+: plan registry false true ((toolCalls assistant).drop count) ∧
      (recovery.2 ≠ .thrown → answered recovery.1 = plan registry false true ((toolCalls assistant).drop count)) := by
  unfold recoverSession
  rw [crashed.orphans pre]
  dsimp only
  split
  next none =>
    rw [none]
    exact ⟨rfl,List.prefix_refl _,fun _ => rfl⟩
  · obtain ⟨results,fits,whole⟩ := answerOrphans_plan registry outside (pre ++ assistant :: tail) false 0
      ⟨((toolCalls assistant).drop count).length,0,0,0⟩ ((toolCalls assistant).drop count)
    split
    next answers shape =>
      rw [shape] at results fits
      exact ⟨results,fits,fun going => absurd rfl going⟩
    next answers counts shape =>
      rw [shape] at results fits whole
      exact ⟨results,fits,fun _ => whole rfl⟩

/-- The answers that an attempt leaves, and the transcript that they leave. -/
theorem attempt_plan (crashed : Crashed assistant tail count) (pre : List (Message D)) (attempt : Attempt D) :
    let more := ((recoverSession registry attempt.outside (pre ++ assistant :: tail)).1).take attempt.persisted
    more.all isResult = true ∧ answered more = (plan registry false true ((toolCalls assistant).drop count)).take more.length ∧
      more.length ≤ ((toolCalls assistant).drop count).length ∧ Crashed assistant (tail ++ more) (count + more.length) := by
  obtain ⟨results,fits,_⟩ := @recover_plan D registry assistant tail count crashed pre attempt.outside
  obtain ⟨own,same⟩ := answered_take results attempt.persisted
  have within := (List.take_prefix attempt.persisted _).trans fits
  rw [← same] at within
  have shape := List.prefix_iff_eq_take.mp within
  rw [answered_length own] at shape
  have short := within.length_le
  rw [answered_length own,plan_length] at short
  refine ⟨own,shape,short,crashed.grow own ?_⟩
  rw [← answered_ids,shape,List.map_take,plan_ids,List.map_take]

variable (registry) in
/-- What some attempts and a last recovery append to a transcript. -/
def added (attempts : List (Attempt D)) (outside : Outside D) (messages : List (Message D)) : List (Message D) :=
  match attempts with
  | [] => (recoverSession registry outside messages).1
  | attempt :: rest =>
    let more := ((recoverSession registry attempt.outside messages).1).take attempt.persisted
    more ++ added rest outside (messages ++ more)

theorem finished_added (attempts : List (Attempt D)) (outside : Outside D) (messages : List (Message D)) :
    finished registry outside (attempted registry attempts messages) = messages ++ added registry attempts outside messages := by
  induction attempts generalizing messages with
  | nil => rfl
  | cons attempt rest ih =>
    unfold attempted added
    rw [List.foldl_cons,← List.append_assoc]
    exact ih _

private theorem tail_grown (pre more : List (Message D)) : (pre ++ assistant :: tail) ++ more = pre ++ assistant :: (tail ++ more) := by
  rw [List.append_assoc,List.cons_append]

private theorem attempted_cons (pre : List (Message D)) (attempt : Attempt D) (rest : List (Attempt D)) :
    attempted registry (attempt :: rest) (pre ++ assistant :: tail) = attempted registry rest (pre ++ assistant ::
      (tail ++ ((recoverSession registry attempt.outside (pre ++ assistant :: tail)).1).take attempt.persisted)) := by
  rw [← tail_grown]
  rfl

theorem attempted_crashed (crashed : Crashed assistant tail count) (pre : List (Message D)) (attempts : List (Attempt D)) :
    ∃ more, attempted registry attempts (pre ++ assistant :: tail) = pre ++ assistant :: (tail ++ more) ∧
      more.all isResult = true ∧ more.length ≤ ((toolCalls assistant).drop count).length ∧
      Crashed assistant (tail ++ more) (count + more.length) := by
  induction attempts generalizing tail count with
  | nil =>
    refine ⟨[],?_,rfl,Nat.zero_le _,?_⟩
    · rw [List.append_nil]
      rfl
    · rw [List.append_nil]
      exact crashed
  | cons attempt rest ih =>
    obtain ⟨own,_,short,grown⟩ := @attempt_plan D registry assistant tail count crashed pre attempt
    obtain ⟨more,shape,results,within,crashed'⟩ := ih grown
    rw [attempted_cons]
    generalize ((recoverSession registry attempt.outside (pre ++ assistant :: tail)).1).take attempt.persisted = taken at *
    rw [List.length_drop] at short within ⊢
    refine ⟨taken ++ more,?_,?_,?_,?_⟩
    · rw [shape,List.append_assoc]
    · rw [List.all_append,own,results]
      rfl
    · rw [List.length_append]
      omega
    · rw [List.length_append,← List.append_assoc,← Nat.add_assoc]
      exact crashed'

/-- The first orphan has its answer from a recovery that starts with it. -/
theorem added_head (crashed : Crashed assistant tail count) (pre : List (Message D)) (attempts : List (Attempt D))
    (outside : Outside D)
    (done : (recoverSession registry outside (attempted registry attempts (pre ++ assistant :: tail))).2 ≠ .thrown) :
    (answered (added registry attempts outside (pre ++ assistant :: tail))).head? =
      (plan registry false true ((toolCalls assistant).drop count)).head? := by
  induction attempts generalizing tail count with
  | nil =>
    obtain ⟨_,_,whole⟩ := @recover_plan D registry assistant tail count crashed pre outside
    unfold added
    rw [whole done]
  | cons attempt rest ih =>
    obtain ⟨own,fits,_,grown⟩ := @attempt_plan D registry assistant tail count crashed pre attempt
    rw [attempted_cons] at done
    have head := ih grown done
    unfold added
    dsimp only
    rw [tail_grown,answered_append]
    generalize ((recoverSession registry attempt.outside (pre ++ assistant :: tail)).1).take attempt.persisted = taken at *
    cases taken with
    | nil =>
      rw [List.append_nil,List.length_nil,Nat.add_zero] at head
      rw [List.append_nil]
      exact head
    | cons first more =>
      cases rest' : plan registry false true ((toolCalls assistant).drop count) with
      | nil =>
        rw [rest',List.take_nil] at fits
        have length := answered_length own
        rw [fits] at length
        cases length
      | cons said later =>
        rw [rest',List.length_cons,List.take_succ_cons] at fits
        rw [fits]
        rfl

/-- Which orphans the answers are of, in which order. -/
theorem added_ids (crashed : Crashed assistant tail count) (pre : List (Message D)) (attempts : List (Attempt D))
    (outside : Outside D)
    (done : (recoverSession registry outside (attempted registry attempts (pre ++ assistant :: tail))).2 ≠ .thrown) :
    (added registry attempts outside (pre ++ assistant :: tail)).all isResult = true ∧
      (answered (added registry attempts outside (pre ++ assistant :: tail))).map Prod.fst =
        ((toolCalls assistant).drop count).map ToolCall.id := by
  induction attempts generalizing tail count with
  | nil =>
    obtain ⟨results,_,whole⟩ := @recover_plan D registry assistant tail count crashed pre outside
    unfold added
    rw [whole done,plan_ids]
    exact ⟨results,rfl⟩
  | cons attempt rest ih =>
    obtain ⟨own,fits,_,grown⟩ := @attempt_plan D registry assistant tail count crashed pre attempt
    rw [attempted_cons] at done
    obtain ⟨results,ids⟩ := ih grown done
    unfold added
    dsimp only
    rw [tail_grown,answered_append,List.all_append,own,results,List.map_append,ids,fits,List.map_take,plan_ids,← List.map_take,
      ← List.map_append,← List.drop_drop,List.take_append_drop]
    exact ⟨rfl,rfl⟩

/-- The classes of a batch's orphans. -/
def classesOf (registry : Registry) (calls : List (ToolCall D)) : List ReplayClass := calls.map (replayClass registry)

private theorem plan_drop {calls : List (ToolCall D)} {many : Nat} (clear : Clear (classesOf registry calls) many) :
    plan registry false true (calls.drop many) = (plan registry false true calls).drop many := by
  unfold plan
  have same := clear_drop clear
  unfold classesOf at same
  rw [List.map_drop,List.map_drop,same,List.map_drop]
  exact List.drop_zipWith.symm

/-- Where every recovery started at an orphan that it may start at, the answers are those of one recovery. -/
theorem added_clear {calls : List (ToolCall D)} {before : Nat} (crashed : Crashed assistant tail count)
    (left : (toolCalls assistant).drop count = calls.drop before) (within : before ≤ calls.length) (pre : List (Message D))
    (attempts : List (Attempt D)) (outside : Outside D)
    (done : (recoverSession registry outside (attempted registry attempts (pre ++ assistant :: tail))).2 ≠ .thrown)
    (clear : ∀ first, first <+: attempts → Clear (classesOf registry calls)
      (before + ((attempted registry first (pre ++ assistant :: tail)).length - (pre ++ assistant :: tail).length))) :
    answered (added registry attempts outside (pre ++ assistant :: tail)) = (plan registry false true calls).drop before := by
  have here := clear [] List.nil_prefix
  have same : attempted registry [] (pre ++ assistant :: tail) = pre ++ assistant :: tail := rfl
  rw [same,Nat.sub_self,Nat.add_zero] at here
  induction attempts generalizing tail count before with
  | nil =>
    obtain ⟨_,_,whole⟩ := @recover_plan D registry assistant tail count crashed pre outside
    unfold added
    rw [whole done,left,plan_drop here]
  | cons attempt rest ih =>
    obtain ⟨own,fits,short,grown⟩ := @attempt_plan D registry assistant tail count crashed pre attempt
    rw [attempted_cons] at done
    have later : ∀ first, first <+: rest → Clear (classesOf registry calls) (before + ((attempted registry first (pre ++ assistant ::
        (tail ++ ((recoverSession registry attempt.outside (pre ++ assistant :: tail)).1).take attempt.persisted))).length -
          (pre ++ assistant :: tail).length)) := by
      intro first fits
      have own := clear (attempt :: first) (List.cons_prefix_cons.mpr ⟨rfl,fits⟩)
      rw [attempted_cons] at own
      exact own
    unfold added
    dsimp only
    rw [tail_grown,answered_append]
    generalize ((recoverSession registry attempt.outside (pre ++ assistant :: tail)).1).take attempt.persisted = taken at *
    rw [left,List.length_drop] at short
    have grow : ∀ first, (attempted registry first (pre ++ assistant :: (tail ++ taken))).length - (pre ++ assistant :: tail).length =
        taken.length + ((attempted registry first (pre ++ assistant :: (tail ++ taken))).length -
          (pre ++ assistant :: (tail ++ taken)).length) := by
      intro first
      obtain ⟨more,shape,_,_,_⟩ := @attempted_crashed D registry assistant (tail ++ taken) _ grown pre first
      rw [shape]
      simp only [List.length_append,List.length_cons]
      omega
    have next := @ih (tail ++ taken) (count + taken.length) (before + taken.length) grown
      (by rw [← List.drop_drop,left,List.drop_drop]) (by omega) done (by
        intro first fits
        have own := later first fits
        rw [grow,← Nat.add_assoc] at own
        exact own)
    have point := later [] List.nil_prefix
    rw [grow] at point
    have still : attempted registry [] (pre ++ assistant :: (tail ++ taken)) = pre ++ assistant :: (tail ++ taken) := rfl
    rw [still,Nat.sub_self,Nat.add_zero] at point
    rw [next point still,fits,left,plan_drop here,← List.drop_drop,List.take_append_drop]

end Chain

/-! Where a recovery may start. -/

theorem labels_at (first : Bool) (classes : List ReplayClass) {many : Nat} {own : ReplayClass} {rest : List ReplayClass}
    (shape : classes.drop many = own :: rest) : ∃ label later, (labels false first classes).drop many = label :: later ∧
      (label = .replayed → ∀ other ∈ classes.take (many + 1), other = .replay) ∧
      (first = false ∨ 0 < many → label ≠ .interrupted) := by
  induction classes generalizing first many with
  | nil =>
    rw [List.drop_nil] at shape
    cases shape
  | cons lead tail ih =>
    cases lead with
    | replay =>
      have head : labels false first (.replay :: tail) = .replayed :: labels false false tail := rfl
      rw [head]
      cases many with
      | zero =>
        refine ⟨_,_,rfl,fun _ other inside => ?_,fun _ => nofun⟩
        rw [List.take_succ_cons,List.take_zero,List.mem_singleton] at inside
        exact inside
      | succ many =>
        obtain ⟨label,later,found,replays,still⟩ := ih false shape
        refine ⟨label,later,found,fun replayed => ?_,fun _ => still (.inl rfl)⟩
        rw [List.take_succ_cons]
        exact List.forall_mem_cons.mpr ⟨rfl,replays replayed⟩
    | hold =>
      have head : labels false first (.hold :: tail) =
          (if false = false ∧ first = true then .interrupted else .notStarted) :: labels true false tail := rfl
      rw [head]
      cases many with
      | zero =>
        refine ⟨_,_,rfl,?_,?_⟩
        · split
          · exact nofun
          · exact nofun
        · rintro (other | none)
          · rw [if_neg fun both => by rw [other] at both; cases both.2]
            exact nofun
          · exact absurd none (Nat.lt_irrefl 0)
      | succ many =>
        rw [List.drop_succ_cons] at shape ⊢
        have within : many < tail.length := by
          by_contra past
          rw [List.drop_eq_nil_of_le (Nat.le_of_not_lt past)] at shape
          cases shape
        rw [labels_held,List.drop_replicate]
        obtain ⟨more,size⟩ := Nat.exists_eq_add_of_lt within
        refine ⟨.notStarted,List.replicate more .notStarted,?_,nofun,fun _ => nofun⟩
        rw [← List.replicate_succ]
        congr 1
        omega

section Chain
variable {registry : Registry} {assistant : Message D} {tail : List (Message D)} {count : Nat}

private theorem plan_at {calls : List (ToolCall D)} {many : Nat} (within : many < calls.length) (some' : 0 < many)
    (same : ((plan registry false true calls).drop many).head? = (plan registry false true (calls.drop many)).head?) :
    ∀ own ∈ (classesOf registry calls).take (many + 1), own = .replay := by
  obtain ⟨call,rest,shape⟩ := List.exists_cons_of_ne_nil (List.ne_nil_of_length_pos (l := calls.drop many)
    (by rw [List.length_drop]; omega))
  have classes : (classesOf registry calls).drop many = replayClass registry call :: rest.map (replayClass registry) := by
    unfold classesOf
    rw [← List.map_drop,shape]
    rfl
  obtain ⟨label,later,found,replays,still⟩ := labels_at true (classesOf registry calls) classes
  obtain ⟨label',held',shape',cases'⟩ := plan_cons registry false true call rest
  have left : (plan registry false true calls).drop many = (call.id,some label) :: (rest.map ToolCall.id).zip (later.map some) := by
    unfold plan
    have names : (calls.map ToolCall.id).drop many = call.id :: rest.map ToolCall.id := by
      rw [← List.map_drop,shape]
      rfl
    have marks : ((labels false true (calls.map (replayClass registry))).map some).drop many = some label :: later.map some := by
      rw [← List.map_drop]
      exact congrArg (List.map some) found
    rw [List.zip,List.drop_zipWith,names,marks]
    rfl
  rw [left,shape,shape',List.head?_cons,List.head?_cons,Option.some.injEq,Prod.mk.injEq,Option.some.injEq] at same
  rcases cases' with ⟨_,_,replayed,_⟩ | ⟨_,_,own⟩
  · exact replays (same.2.trans replayed)
  · rw [if_pos ⟨rfl,rfl⟩] at own
    exact absurd (same.2.trans own) (still (.inr some'))

/-- A label that is the one recovery's own comes from recoveries that all started where they may. -/
theorem clear_added {calls : List (ToolCall D)} (crashed : Crashed assistant tail count)
    (left : (toolCalls assistant).drop count = calls) (pre : List (Message D)) (attempts : List (Attempt D)) (outside : Outside D)
    (done : (recoverSession registry outside (attempted registry attempts (pre ++ assistant :: tail))).2 ≠ .thrown)
    (same : answered (added registry attempts outside (pre ++ assistant :: tail)) = plan registry false true calls)
    {first : List (Attempt D)} (fits : first <+: attempts) : Clear (classesOf registry calls)
      ((attempted registry first (pre ++ assistant :: tail)).length - (pre ++ assistant :: tail).length) := by
  obtain ⟨rest,rfl⟩ := fits
  obtain ⟨more,shape,results,within,crashed'⟩ := @attempted_crashed D registry assistant tail count crashed pre first
  have size : (attempted registry first (pre ++ assistant :: tail)).length - (pre ++ assistant :: tail).length = more.length := by
    rw [shape]
    simp only [List.length_append,List.length_cons]
    omega
  have two : attempted registry (first ++ rest) (pre ++ assistant :: tail) =
      attempted registry rest (pre ++ assistant :: (tail ++ more)) := by
    rw [← shape]
    exact List.foldl_append
  have split : added registry (first ++ rest) outside (pre ++ assistant :: tail) =
      more ++ added registry rest outside (pre ++ assistant :: (tail ++ more)) := by
    have all := @finished_added D registry (first ++ rest) outside (pre ++ assistant :: tail)
    have rest' := @finished_added D registry rest outside (pre ++ assistant :: (tail ++ more))
    rw [two,rest',← @tail_grown D assistant tail,List.append_assoc _ more] at all
    have own := (List.append_cancel_left all).symm
    rw [tail_grown] at own
    exact own
  rw [two] at done
  have head := added_head crashed' pre rest outside done
  rw [left] at within
  rw [size]
  rcases Nat.eq_zero_or_pos more.length with none | some'
  · exact .inl none
  · rcases Nat.lt_or_ge more.length calls.length with short | all
    · refine .inr (.inr (plan_at short some' ?_))
      rw [split,answered_append] at same
      rw [← same,← answered_length results,List.drop_left,head,answered_length results,← left,List.drop_drop]
    · refine .inr (.inl ?_)
      unfold classesOf
      rw [List.length_map]
      exact all

end Chain

/-! What a transcript answers. -/

/-- The labels of the answers to a call after the last usable assistant message. -/
def answersTo (messages : List (Message D)) (id : String) : List (Option Label) :=
  match lastUsable messages with
  | some (_,tail) => ((answered tail).filter fun answer => answer.1 = id).map Prod.snd
  | none => []

/-- What the claim of recovery asks of a finished transcript, beside the one that an uninterrupted recovery leaves. -/
structure Agrees (assistant : Message D) (orphans : List (ToolCall D)) (whole final : List (Message D)) : Prop where
  once : ∀ call ∈ toolCalls assistant, (answersTo final call.id).length = 1
  labels : ∀ call ∈ orphans, answersTo final call.id = answersTo whole call.id
  stops : orphans.Pairwise fun earlier later =>
    answersTo final earlier.id ≠ [some .replayed] → answersTo final later.id ≠ [some .replayed]
  interrupted : ∀ call ∈ orphans, answersTo final call.id = [some .interrupted] → orphans.head? = some call

private theorem single {answers : List (String × Option Label)} (distinct : (answers.map Prod.fst).Nodup)
    {answer : String × Option Label} (inside : answer ∈ answers) :
    (answers.filter fun other => other.1 = answer.1).map Prod.snd = [answer.2] := by
  induction answers with
  | nil => cases inside
  | cons first rest ih =>
    obtain ⟨once,distinct⟩ := List.nodup_cons.mp distinct
    rcases List.mem_cons.mp inside with rfl | later
    · have none : rest.filter (fun other => other.1 = answer.1) = [] := by
        rw [List.filter_eq_nil_iff]
        intro other member same
        exact once (List.mem_map.mpr ⟨other,member,by simpa using same⟩)
      rw [List.filter_cons_of_pos (by simp),none]
      rfl
    · have apart : first.1 ≠ answer.1 := fun same => once (same ▸ List.mem_map_of_mem later)
      rw [List.filter_cons_of_neg (by simpa using apart),ih distinct later]

section Chain
variable {registry : Registry} {assistant : Message D} {tail : List (Message D)} {count : Nat}

/-- The answers after the batch of a finished transcript: one for each of its calls. -/
private theorem answers_whole (crashed : Crashed assistant tail count) (pre : List (Message D)) {more : List (Message D)}
    (results : more.all isResult = true)
    (ids : (answered more).map Prod.fst = ((toolCalls assistant).drop count).map ToolCall.id) :
    (answered (tail ++ more)).map Prod.fst = (toolCalls assistant).map ToolCall.id ∧
      ∀ answer ∈ answered (tail ++ more), answersTo (pre ++ assistant :: (tail ++ more)) answer.1 = [answer.2] := by
  have all : (answered (tail ++ more)).map Prod.fst = (toolCalls assistant).map ToolCall.id := by
    rw [answered_append,List.map_append,ids,answered_ids,crashed.answers,← List.map_append,List.take_append_drop]
  refine ⟨all,fun answer inside => ?_⟩
  have length : more.length = ((toolCalls assistant).drop count).length := by
    have same := congrArg List.length ids
    rw [List.length_map,List.length_map,answered_length results] at same
    exact same
  have grown := crashed.grow results (by rw [← answered_ids,ids,length,List.take_length])
  unfold answersTo
  rw [lastUsable_shape grown.usable grown.last pre]
  dsimp only
  exact single (by rw [all]; exact crashed.distinct) inside

private theorem plan_answers (crashed : Crashed assistant tail count) (pre : List (Message D)) {more : List (Message D)}
    (results : more.all isResult = true)
    (ids : (answered more).map Prod.fst = ((toolCalls assistant).drop count).map ToolCall.id) {place : Nat}
    {call : ToolCall D} (held : ((toolCalls assistant).drop count)[place]? = some call) :
    ∃ label, (answered more)[place]? = some (call.id,label) ∧
      answersTo (pre ++ assistant :: (tail ++ more)) call.id = [label] := by
  have here := congrArg (fun names : List String => names[place]?) ids
  simp only [List.getElem?_map,held,Option.map_some] at here
  obtain ⟨answer,found,same⟩ := Option.map_eq_some_iff.mp here
  have inside : answer ∈ answered (tail ++ more) := by
    rw [answered_append]
    exact List.mem_append_right _ (List.mem_of_getElem? found)
  have own := (answers_whole crashed pre results ids).2 answer inside
  rw [same] at own
  exact ⟨answer.2,by rw [found,← same],own⟩

/-- The answers of a transcript are told by the labels of its orphans. -/
private theorem answers_same (crashed : Crashed assistant tail count) (pre : List (Message D)) {one other : List (Message D)}
    (results : one.all isResult = true) (results' : other.all isResult = true)
    (ids : (answered one).map Prod.fst = ((toolCalls assistant).drop count).map ToolCall.id)
    (ids' : (answered other).map Prod.fst = ((toolCalls assistant).drop count).map ToolCall.id) :
    (∀ call ∈ (toolCalls assistant).drop count, answersTo (pre ++ assistant :: (tail ++ one)) call.id =
      answersTo (pre ++ assistant :: (tail ++ other)) call.id) ↔ answered one = answered other := by
  constructor
  · intro same
    refine List.ext_getElem? fun place => ?_
    cases held : ((toolCalls assistant).drop count)[place]? with
    | none =>
      have past := List.getElem?_eq_none_iff.mp held
      have length := congrArg List.length ids
      have length' := congrArg List.length ids'
      rw [List.length_map,List.length_map] at length length'
      rw [List.getElem?_eq_none (by omega),List.getElem?_eq_none (by omega)]
    | some call =>
      obtain ⟨label,here,own⟩ := plan_answers crashed pre results ids held
      obtain ⟨label',there,own'⟩ := plan_answers crashed pre results' ids' held
      have equal := same call (List.mem_of_getElem? held)
      rw [own,own',List.cons.injEq] at equal
      rw [here,there,equal.1]
  · intro same call inside
    obtain ⟨place,held⟩ := List.getElem?_of_mem inside
    obtain ⟨label,here,own⟩ := plan_answers crashed pre results ids held
    obtain ⟨label',there,own'⟩ := plan_answers crashed pre results' ids' held
    rw [same,there,Option.some.injEq,Prod.mk.injEq] at here
    rw [own,own',here.2]

/-- Once a call is held, none is run again. -/
private theorem labels_stop (held first : Bool) (classes : List ReplayClass) :
    (labels held first classes).Pairwise fun earlier later => earlier ≠ .replayed → later ≠ .replayed := by
  induction classes generalizing held first with
  | nil => exact .nil
  | cons own rest ih =>
    have quiet : ∀ label : Label, (label :: labels true false rest).Pairwise
        fun earlier later => earlier ≠ .replayed → later ≠ .replayed := by
      intro label
      refine List.pairwise_cons.mpr ⟨?_,ih true false⟩
      intro later inside _
      rw [labels_held] at inside
      rw [List.eq_of_mem_replicate inside]
      exact nofun
    cases own with
    | replay =>
      unfold labels
      split
      · exact List.pairwise_cons.mpr ⟨fun _ _ replayed => absurd rfl replayed,ih false false⟩
      · exact quiet _
    | hold =>
      unfold labels
      exact quiet _

/-- In a crashed run whose batch was recovered by any attempts and a last recovery: the finished transcript says what an
uninterrupted recovery of the first transcript says, if and only if each recovery started with no orphan answered, with all
of them answered, or with an orphan that is run again after only such ones. -/
theorem recovered_iff (crashed : Crashed assistant tail count) (pre : List (Message D)) (attempts : List (Attempt D))
    (outside uninterrupted : Outside D)
    (done : (recoverSession registry outside (attempted registry attempts (pre ++ assistant :: tail))).2 ≠ .thrown)
    (once : (recoverSession registry uninterrupted (pre ++ assistant :: tail)).2 ≠ .thrown) :
    Agrees assistant (findOrphans (pre ++ assistant :: tail)).2
        (finished registry uninterrupted (pre ++ assistant :: tail))
        (finished registry outside (attempted registry attempts (pre ++ assistant :: tail))) ↔
      ∀ first, first <+: attempts → Clear (classesOf registry (findOrphans (pre ++ assistant :: tail)).2)
        ((attempted registry first (pre ++ assistant :: tail)).length - (pre ++ assistant :: tail).length) := by
  obtain ⟨results,ids⟩ := added_ids crashed pre attempts outside done
  obtain ⟨results',_,whole⟩ := @recover_plan D registry assistant tail count crashed pre uninterrupted
  have ids' : (answered (recoverSession registry uninterrupted (pre ++ assistant :: tail)).1).map Prod.fst =
      ((toolCalls assistant).drop count).map ToolCall.id := by rw [whole once,plan_ids]
  have same := answers_same crashed pre results results' ids ids'
  have plain : finished registry uninterrupted (pre ++ assistant :: tail) =
      pre ++ assistant :: (tail ++ (recoverSession registry uninterrupted (pre ++ assistant :: tail)).1) := tail_grown _ _
  rw [finished_added,plain,tail_grown,crashed.orphans pre]
  rw [whole once] at same
  constructor
  · intro agrees first fits
    exact clear_added crashed rfl pre attempts outside done (same.mp agrees.labels) fits
  · intro clear
    have all := @added_clear D registry assistant tail count ((toolCalls assistant).drop count) 0 crashed rfl (Nat.zero_le _)
      pre attempts outside done (by simpa only [Nat.zero_add] using clear)
    rw [List.drop_zero] at all
    have told : ∀ (place : Nat) (call : ToolCall D), ((toolCalls assistant).drop count)[place]? = some call →
        ∃ label, (labels false true (classesOf registry ((toolCalls assistant).drop count)))[place]? = some label ∧
          answersTo (pre ++ assistant :: (tail ++ added registry attempts outside (pre ++ assistant :: tail))) call.id =
            [some label] := by
      intro place call held
      obtain ⟨label,here,own⟩ := plan_answers crashed pre results ids held
      rw [all] at here
      unfold plan at here
      obtain ⟨_,there⟩ := List.getElem?_zip_eq_some.mp here
      rw [List.getElem?_map] at there
      obtain ⟨mark,found,rfl⟩ := Option.map_eq_some_iff.mp there
      exact ⟨mark,found,own⟩
    refine ⟨?_,same.mpr all,?_,?_⟩
    · intro call inside
      obtain ⟨names,each⟩ := answers_whole crashed pre results ids
      have named : call.id ∈ (answered (tail ++ added registry attempts outside (pre ++ assistant :: tail))).map Prod.fst := by
        rw [names]
        exact List.mem_map_of_mem inside
      obtain ⟨answer,member,equal⟩ := List.mem_map.mp named
      rw [← equal,each answer member]
      rfl
    · refine List.pairwise_iff_getElem.mpr ?_
      intro early late within within' before
      obtain ⟨label,here,own⟩ := told early _ (List.getElem?_eq_getElem within)
      obtain ⟨label',there,own'⟩ := told late _ (List.getElem?_eq_getElem within')
      rw [own,own']
      intro held replayed
      obtain ⟨inside,found⟩ := List.getElem?_eq_some_iff.mp here
      obtain ⟨inside',found'⟩ := List.getElem?_eq_some_iff.mp there
      have stop := List.pairwise_iff_getElem.mp (labels_stop false true _) early late inside inside' before
      rw [found,found'] at stop
      refine stop (fun equal => held (by rw [equal])) ?_
      simpa using replayed
    · intro call inside interrupted
      obtain ⟨place,held⟩ := List.getElem?_of_mem inside
      obtain ⟨label,here,own⟩ := told place call held
      cases place with
      | zero =>
        rw [List.head?_eq_getElem?]
        exact held
      | succ place =>
        obtain ⟨within,_⟩ := List.getElem?_eq_some_iff.mp held
        have shape : (classesOf registry ((toolCalls assistant).drop count)).drop (place + 1) ≠ [] := by
          unfold classesOf
          rw [ne_eq,List.drop_eq_nil_iff,List.length_map]
          omega
        obtain ⟨class',rest,shape⟩ := List.exists_cons_of_ne_nil shape
        obtain ⟨mark,later,found,_,still⟩ := labels_at true _ shape
        have equal : mark = label := by
          have first := congrArg (fun marks : List Label => marks[0]?) found
          simp only [List.getElem?_drop,Nat.add_zero,here,List.getElem?_cons_zero,Option.some.injEq] at first
          exact first.symm
        rw [own,← equal] at interrupted
        exact absurd (by simpa using interrupted) (still (.inr (Nat.succ_pos _)))

end Chain

/-! A batch of two reads and a command, which crashes again between its reads; and one whose command comes first. -/

def files : Registry := ⟨[⟨"read",some "builtin",some "builtin:read"⟩],["read","bash"]⟩

def quiet : Outside Unit := ⟨fun _ _ => some ⟨none,none,none,false,none⟩,fun _ => 0⟩

def reads : Message Unit := .assistant "toolUse" (some [.toolCall ⟨"1",some "read",()⟩,.toolCall ⟨"2",some "read",()⟩,
  .toolCall ⟨"3",some "bash",()⟩])

def command : Message Unit := .assistant "toolUse" (some [.toolCall ⟨"1",some "bash",()⟩,.toolCall ⟨"2",some "read",()⟩])

private theorem reads_crashed : Crashed reads [] 0 :=
  ⟨rfl,by decide,fun _ none => absurd none List.not_mem_nil,rfl,fun _ => rfl⟩

theorem reads_agree : Agrees reads (findOrphans ([] ++ [reads])).2 (finished files quiet ([] ++ [reads]))
    (finished files quiet (attempted files [⟨quiet,1⟩] ([] ++ [reads]))) := by
  refine (recovered_iff reads_crashed [] [⟨quiet,1⟩] quiet quiet (by decide) (by decide)).mpr ?_
  intro first fits
  rcases List.prefix_cons_iff.mp fits with rfl | ⟨rest,rfl,none⟩
  · exact .inl rfl
  · rw [List.prefix_nil.mp none]
    exact .inr (.inr (by decide))

/-- After a second crash a call is run again behind one that was held. -/
theorem replayed_after_hold : Crashed command [] 0 ∧
    (recoverSession files quiet (attempted files [⟨quiet,1⟩] [command])).2 ≠ .thrown ∧
    ¬Agrees command (findOrphans [command]).2 (finished files quiet [command])
      (finished files quiet (attempted files [⟨quiet,1⟩] [command])) := by
  refine ⟨⟨rfl,by decide,fun _ none => absurd none List.not_mem_nil,rfl,fun _ => rfl⟩,by decide,fun agrees => ?_⟩
  have same := agrees.labels ⟨"2",some "read",()⟩ (by
    have orphans : (findOrphans [command]).2 = [⟨"1",some "bash",()⟩,⟨"2",some "read",()⟩] := by rfl
    rw [orphans]
    exact List.mem_cons_of_mem _ List.mem_cons_self)
  revert same
  decide

end PiDispatch.SessionRecovery
