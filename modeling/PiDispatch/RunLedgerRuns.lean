import PiDispatch.RunLedgerModel

/-! Any number of workers call the run ledger, each script atomic and any call subject to a Valkey fault. The
answers they were given are all accounted for by the ledger's own steps. -/
namespace PiDispatch.RunBudgetLedger
open Kernel Command DollarBudget

inductive Request
  | claimSlot (runId : String)
  | nextSeq (runId : String)
  | recordHold (runId : String) (seq : Int) (hold : Hold)
  | settle (runId : String) (seq : Int)
  | release (runId : String) (seq : Int)
  | settleCrashed (runId : String) (belowSeq : Int)

namespace Request

def runId : Request → String
  | claimSlot runId | nextSeq runId | recordHold runId _ _ | settle runId _ | release runId _
  | settleCrashed runId _ => runId

def call (now : String) : Request → Call Answer
  | claimSlot runId => RunBudgetLedger.claimSlot runId now
  | nextSeq runId => RunBudgetLedger.nextSeq runId now
  | recordHold runId seq hold => RunBudgetLedger.recordHold runId seq hold now
  | settle runId seq => RunBudgetLedger.settle runId seq now
  | release runId seq => RunBudgetLedger.release runId seq now
  | settleCrashed runId belowSeq => RunBudgetLedger.settleCrashed runId belowSeq now

end Request

/-- A worker's call, under way or answered. -/
structure Worker where
  request : Request
  call : Call Answer

namespace Worker

def pending (worker : Worker) : Option ((command : Valkey.Command) × (Valkey.Answer command → Worker)) :=
  worker.call.pending.map fun waiting => ⟨waiting.1,fun answer => ⟨worker.request,waiting.2 answer⟩⟩

def answer? (worker : Worker) : Option Answer :=
  match worker.call with
  | .done answer => some answer
  | .issue _ _ => none

end Worker

def workers : Agency Valkey Store Worker where
  serves := servedOrFaulted
  pending := Worker.pending
  enters := fun worker => ∃ now, worker.call = worker.request.call now
  moves := fun _ _ => False

/-- The container numbers an answer hands out under a ledger key. -/
def numbersOf (key : String) : Request → Answer → List Int
  | .nextSeq runId, .number seq => if runBudgetKeyFor runId = key then [seq] else []
  | _, _ => []

def claimsOf (key : String) : Request → Answer → Nat
  | .claimSlot runId, .new => if runBudgetKeyFor runId = key then 1 else 0
  | _, _ => 0

/-- How often an answer closes a container's hold. -/
def closingsOf (key : String) (seq : Int) : Request → Answer → Nat
  | .settle runId moved, .moved | .release runId moved, .moved =>
    if runBudgetKeyFor runId = key ∧ moved = seq then 1 else 0
  | .settleCrashed runId _, .settled seqs => if runBudgetKeyFor runId = key then seqs.count seq else 0
  | _, _ => 0

def Worker.tally (count : Request → Answer → Nat) (worker : Worker) : Nat :=
  (worker.answer?.map (count worker.request)).getD 0

def numbers (key : String) (all : List Worker) : List Int :=
  all.flatMap fun worker => (worker.answer?.map (numbersOf key worker.request)).getD []

def claims (key : String) (all : List Worker) : Nat := (all.map fun worker => worker.tally (claimsOf key)).sum

def closings (key : String) (seq : Int) (all : List Worker) : Nat :=
  (all.map fun worker => worker.tally (closingsOf key seq)).sum

/-- The ledger step that an answer reports. A failed call may have taken any step. -/
inductive Explains (ledger : RunLedger) : Request → Answer → Event → Prop
  | claimed (runId) : Explains ledger (.claimSlot runId) .new .claimed
  | carried (runId event) : Explains ledger (.claimSlot runId) .carried event
  | numbered (runId) (seq : Nat) : Explains ledger (.nextSeq runId) (.number seq) (.numbered seq)
  | recorded (runId seq hold answer event) : Explains ledger (.recordHold runId seq hold) answer event
  | settled (runId) (seq : Nat) : Explains ledger (.settle runId seq) .moved (.closed seq)
  | released (runId) (seq : Nat) : Explains ledger (.release runId seq) .moved (.closed seq)
  | notHeld (request event) : Explains ledger request .notHeld event
  | crashed (runId) (below : Nat) (seqs : List Int) (distinct : seqs.Nodup)
      (exactly : ∀ seq : Nat, (seq : Int) ∈ seqs ↔ seq < below ∧ ledger.state seq = .held) :
      Explains ledger (.settleCrashed runId below) (.settled seqs) (.crashed below)
  | failed (request code event) : Explains ledger request (.error code) event

/-- What the answers given so far say, no more than the ledger holds. -/
structure Accounted (key : String) (ledger : RunLedger) (all : List Worker) : Prop where
  numbersDistinct : (numbers key all).Nodup
  numbersBelow : ∀ seq ∈ numbers key all, seq ≤ ledger.seq
  claims : claims key all ≤ ledger.slot.toNat
  closings : ∀ seq : Nat, closings key seq all ≤ (ledger.state seq).closed.toNat

section Accounted
variable {key : String} {ledger next : RunLedger} {event : Event} {before after : List Worker} {worker : Worker}

private theorem step_seq (step : ledger.Step event next) : ledger.seq ≤ next.seq := by
  cases step <;> simp

private theorem step_slot (step : ledger.Step event next) : ledger.slot.toNat ≤ next.slot.toNat := by
  cases step with
  | claimed free => simp [free]
  | quiet | numbered | recorded | closed | crashed => exact le_rfl

private theorem step_closed (step : ledger.Step event next) (seq : Nat) :
    (ledger.state seq).closed.toNat ≤ (next.state seq).closed.toNat := by
  rcases RunLedger.step_state step seq with same | ⟨absent,_⟩ | ⟨held,_⟩
  · rw [same]
  · rw [absent]
    exact Nat.zero_le _
  · rw [held]
    exact Nat.zero_le _

private theorem tally_replace (count : Request → Answer → Nat) (waiting : worker.answer? = none) (answer : Answer) :
    ((before ++ ⟨worker.request,.done answer⟩ :: after).map fun other => other.tally count).sum =
      ((before ++ worker :: after).map fun other => other.tally count).sum + count worker.request answer := by
  have answered : (Worker.mk worker.request (.done answer)).tally count = count worker.request answer := rfl
  have unanswered : worker.tally count = 0 := by simp [Worker.tally,waiting]
  simp only [List.map_append,List.map_cons,List.sum_append,List.sum_cons,answered,unanswered]
  omega

private theorem numbers_replace (waiting : worker.answer? = none) (answer : Answer) :
    (numbers key (before ++ ⟨worker.request,.done answer⟩ :: after)).Perm
      (numbersOf key worker.request answer ++ numbers key (before ++ worker :: after)) := by
  simp only [numbers,List.flatMap_append,List.flatMap_cons,waiting,Option.map_none,Option.getD_none,List.nil_append]
  simp only [Worker.answer?,Option.map_some,Option.getD_some]
  exact List.perm_append_comm_assoc _ _ _

private theorem numbersOf_explained {request : Request} {answer : Answer} (step : ledger.Step event next)
    (explained : runBudgetKeyFor request.runId = key → Explains ledger request answer event) :
    numbersOf key request answer = [] ∨
      numbersOf key request answer = [(ledger.seq + 1 : Int)] ∧ next.seq = ledger.seq + 1 := by
  by_cases own : runBudgetKeyFor request.runId = key
  · cases explained own with
    | numbered runId seq =>
      cases step
      have same : runBudgetKeyFor runId = key := own
      exact .inr ⟨by simp [numbersOf,same],rfl⟩
    | _ => exact .inl (by simp [numbersOf])
  · left
    cases request <;> cases answer <;> simp_all [numbersOf,Request.runId]

private theorem claimsOf_explained {request : Request} {answer : Answer} (step : ledger.Step event next)
    (explained : runBudgetKeyFor request.runId = key → Explains ledger request answer event) :
    claimsOf key request answer = 0 ∨
      claimsOf key request answer = 1 ∧ ledger.slot = false ∧ next.slot = true := by
  by_cases own : runBudgetKeyFor request.runId = key
  · cases explained own with
    | claimed runId =>
      cases step with
      | claimed free =>
        have same : runBudgetKeyFor runId = key := own
        exact .inr ⟨by simp [claimsOf,same],free,rfl⟩
    | _ => exact .inl (by simp [claimsOf])
  · left
    cases request <;> cases answer <;> simp_all [claimsOf,Request.runId]

private theorem closingsOf_explained {request : Request} {answer : Answer} (step : ledger.Step event next)
    (explained : runBudgetKeyFor request.runId = key → Explains ledger request answer event) (seq : Nat) :
    closingsOf key seq request answer = 0 ∨
      closingsOf key seq request answer = 1 ∧ (ledger.state seq).closed = false ∧ (next.state seq).closed = true := by
  have moved : ∀ (runId : String) (number : Nat), event = .closed number →
      (if runBudgetKeyFor runId = key ∧ (number : Int) = seq then 1 else 0) = 0 ∨
        (if runBudgetKeyFor runId = key ∧ (number : Int) = seq then 1 else 0) = 1 ∧
          (ledger.state seq).closed = false ∧ (next.state seq).closed = true := by
    rintro runId number rfl
    by_cases same : runBudgetKeyFor runId = key ∧ (number : Int) = seq
    · obtain rfl := Int.ofNat_inj.mp same.2
      cases step with
      | closed _ _ held final => exact .inr ⟨if_pos same,by rw [held]; rfl,by simpa using final⟩
    · exact .inl (if_neg same)
  by_cases own : runBudgetKeyFor request.runId = key
  · cases explained own with
    | settled runId number => exact moved runId number rfl
    | released runId number => exact moved runId number rfl
    | crashed runId below seqs distinct exactly =>
      have same : runBudgetKeyFor runId = key := own
      have count : closingsOf key seq (.settleCrashed runId below) (.settled seqs) = seqs.count (seq : Int) := by
        simp [closingsOf,same]
      rw [count]
      by_cases member : (seq : Int) ∈ seqs
      · have held := (exactly seq).mp member
        cases step
        exact .inr ⟨List.count_eq_one_of_mem distinct member,by rw [held.2]; rfl,by simp [held,HoldState.closed]⟩
      · exact .inl (List.count_eq_zero_of_not_mem member)
    | notHeld | failed => left; cases request <;> rfl
    | _ => exact .inl rfl
  · left
    cases request <;> cases answer <;> simp_all [closingsOf,Request.runId]

/-- One answered call: what it adds to the account is the step it reports. -/
theorem accounted_step (accounted : Accounted key ledger (before ++ worker :: after)) (waiting : worker.answer? = none)
    (answer : Answer) (step : ledger.Step event next)
    (explained : runBudgetKeyFor worker.request.runId = key → Explains ledger worker.request answer event) :
    Accounted key next (before ++ ⟨worker.request,.done answer⟩ :: after) := by
  have replaced : (numbers key (before ++ ⟨worker.request,.done answer⟩ :: after)).Perm
      (numbersOf key worker.request answer ++ numbers key (before ++ worker :: after)) := numbers_replace waiting answer
  refine ⟨?_,fun seq member => ?_,?_,fun seq => ?_⟩
  · rw [replaced.nodup_iff]
    rcases numbersOf_explained step explained with none | ⟨one,_⟩
    · rw [none]
      exact accounted.numbersDistinct
    · rw [one]
      refine List.nodup_cons.mpr ⟨fun old => ?_,accounted.numbersDistinct⟩
      have bound := accounted.numbersBelow _ old
      omega
  · have grows := step_seq step
    rw [replaced.mem_iff] at member
    rcases numbersOf_explained step explained with none | ⟨one,counted⟩
    · rw [none] at member
      have bound := accounted.numbersBelow seq member
      omega
    · rw [one] at member
      rcases List.mem_cons.mp member with new | old
      · omega
      · have bound := accounted.numbersBelow seq old
        omega
  · have total := accounted.claims
    have grows := step_slot step
    simp only [claims] at total ⊢
    rw [tally_replace _ waiting]
    rcases claimsOf_explained step explained with none | ⟨one,free,taken⟩
    · omega
    · rw [one,taken]
      rw [free] at total
      simpa using total
  · have total := accounted.closings seq
    have grows := step_closed step seq
    simp only [closings] at total ⊢
    rw [tally_replace _ waiting]
    rcases closingsOf_explained step explained seq with none | ⟨one,before,closed⟩
    · omega
    · rw [one,closed]
      rw [before] at total
      simpa using total

end Accounted

section Requests
variable {store store' : Store} {key now : String} {ledger : RunLedger}

/-- A command that writes one hash or nothing. -/
def WritesOnly (target : String) {kind : ReplyKind} (command : Command kind) : Prop :=
  ∀ store, (command store).2 = store ∨ ∃ fields, (command store).2 = store.put target (.hash fields)

private theorem claim_writes : WritesOnly key (CLAIM_SCRIPT key now) := by
  intro store
  unfold CLAIM_SCRIPT onHash
  split
  · exact .inl rfl
  · exact .inr ⟨_,rfl⟩

private theorem record_writes (seq : Int) (stored : String) : WritesOnly key (RECORD_SCRIPT key seq stored now) := by
  intro store
  unfold RECORD_SCRIPT
  split
  · exact .inl rfl
  · split
    · exact .inl rfl
    · exact .inr ⟨_,rfl⟩

private theorem move_writes (seq : Int) (next : String) : WritesOnly key (MOVE_SCRIPT key seq next now) := by
  intro store
  unfold MOVE_SCRIPT
  split
  · exact .inl rfl
  · split
    · exact .inl rfl
    · exact .inr ⟨_,rfl⟩

private theorem seq_writes : WritesOnly key (SEQ_SCRIPT key now) := by
  intro store
  unfold SEQ_SCRIPT
  split
  · exact .inl rfl
  · split
    · exact .inl rfl
    · split
      · exact .inr ⟨_,rfl⟩
      · exact .inl rfl

private theorem crashed_writes (below : Int) : WritesOnly key (CRASHED_SCRIPT key below now) := by
  intro store
  unfold CRASHED_SCRIPT
  split
  · exact .inl rfl
  · dsimp only
    split
    · exact .inl rfl
    · exact .inr ⟨_,rfl⟩

private theorem carries_frame {target : String} {kind : ReplyKind} {command : Command kind}
    (writes : WritesOnly target command) (apart : target ≠ key) (carried : Carries store key ledger) :
    Carries (command store).2 key ledger := by
  rcases writes store with same | ⟨fields,written⟩
  · rwa [same]
  · obtain ⟨own,found,reads⟩ := carried
    refine ⟨own,?_,reads⟩
    rw [written,fieldsAt,Store.put_ne _ _ apart.symm]
    exact found

/-- What one script does to the ledger under `key`, and what its answer says of it. -/
def Serves (key : String) (ledger : RunLedger) (store : Store) (request : Request) {kind : ReplyKind}
    (command : Command kind) (answer : kind.Carrier → Answer) : Prop :=
  ∃ event after, ledger.Step event after ∧ Carries (command store).2 key after ∧
    (runBudgetKeyFor request.runId = key →
      ∀ value, (command store).1 = .ok value → Explains ledger request (answer value) event)

private theorem serves_other {request : Request} {kind : ReplyKind} {command : Command kind}
    {answer : kind.Carrier → Answer} (carried : Carries store key ledger)
    (writes : WritesOnly (runBudgetKeyFor request.runId) command)
    (own : runBudgetKeyFor request.runId = key → Serves key ledger store request command answer) :
    Serves key ledger store request command answer := by
  by_cases same : runBudgetKeyFor request.runId = key
  · exact own same
  · exact ⟨.quiet,ledger,.quiet ledger,carries_frame writes same carried,fun equal => absurd equal same⟩

private theorem attempt_step {request : Request} {kind : ReplyKind} {command : Command kind}
    {answer : kind.Carrier → Answer} (carried : Carries store key ledger)
    (serves : Serves key ledger store request command answer) (reply : Reply kind)
    (answered : servedOrFaulted store ⟨kind,command⟩ reply store') :
    ∃ event after result,
      (match reply with
        | .ok value => Program.done (answer value)
        | .error fault => .done (.error (fault.code.getD "valkey")) : Call Answer) = .done result ∧
      ledger.Step event after ∧ Carries store' key after ∧
      (runBudgetKeyFor request.runId = key → Explains ledger request result event) := by
  obtain ⟨event,after,step,next,explained⟩ := serves
  rcases answered with served | ⟨fault,rfl,lost⟩
  · have effect : command store = (reply,store') := served
    rw [effect] at next explained
    cases reply with
    | ok value => exact ⟨event,after,_,rfl,step,next,fun own => explained own value rfl⟩
    | error fault => exact ⟨event,after,_,rfl,step,next,fun _ => .failed _ _ _⟩
  · rcases lost with rfl | rfl
    · exact ⟨.quiet,ledger,_,rfl,.quiet ledger,carried,fun _ => .failed _ _ _⟩
    · exact ⟨event,after,_,rfl,step,next,fun _ => .failed _ _ _⟩

private theorem seq_natural {seq : Int} (sequence : isSeq seq) : ∃ number : Nat, seq = number :=
  ⟨seq.toNat,by have := sequence.1; omega⟩

private theorem move_serves {request : Request} (seq : Nat) (next : HoldState) (value : String)
    (carried : Carries store key ledger) (written : next.text = some value) (final : next.closed)
    (moved : Explains ledger request .moved (.closed seq)) :
    Serves key ledger store request (MOVE_SCRIPT (runBudgetKeyFor request.runId) seq value now)
      (fun moved => if moved = 1 then .moved else .notHeld) := by
  refine serves_other carried (move_writes seq value) fun own => ?_
  rw [own]
  obtain ⟨event,after,step,next,reply⟩ := move_step now carried seq next value written final
  refine ⟨event,after,step,next,fun _ value answered => ?_⟩
  rcases reply with ⟨one,rfl⟩ | ⟨zero,rfl⟩
  · obtain rfl := Except.ok.inj (one.symm.trans answered)
    exact moved
  · obtain rfl := Except.ok.inj (zero.symm.trans answered)
    exact .notHeld _ _

/-- Every call of the ledger is answered at once or takes one step of it. -/
theorem request_step (request : Request) (carried : Carries store key ledger) (command : Valkey.Command)
    (resume : Valkey.Answer command → Call Answer) (reply : Valkey.Answer command)
    (waiting : (request.call now).pending = some ⟨command,resume⟩)
    (answered : servedOrFaulted store command reply store') :
    ∃ event after result, resume reply = .done result ∧ ledger.Step event after ∧ Carries store' key after ∧
      (runBudgetKeyFor request.runId = key → Explains ledger request result event) := by
  cases request with
  | claimSlot runId =>
    cases waiting
    refine attempt_step carried ?_ reply answered
    refine serves_other carried claim_writes fun own => ?_
    have same : runBudgetKeyFor runId = key := own
    obtain ⟨event,after,step,next,shown⟩ := claim_step now carried
    rw [← same] at shown next ⊢
    refine ⟨event,after,step,next,fun _ value served => ?_⟩
    rcases shown with ⟨one,rfl⟩ | ⟨zero,rfl⟩
    · obtain rfl := Except.ok.inj (one.symm.trans served)
      exact .claimed runId
    · obtain rfl := Except.ok.inj (zero.symm.trans served)
      exact .carried runId _
  | nextSeq runId =>
    cases waiting
    refine attempt_step carried ?_ reply answered
    refine serves_other carried seq_writes fun own => ?_
    have same : runBudgetKeyFor runId = key := own
    obtain ⟨event,after,step,next,shown⟩ := seq_step now carried
    rw [← same] at shown next ⊢
    refine ⟨event,after,step,next,fun _ value served => ?_⟩
    rcases shown with ⟨one,rfl⟩ | ⟨failed,rfl⟩
    · obtain rfl := Except.ok.inj (one.symm.trans served)
      dsimp only
      split
      · exact .numbered runId _
      · exact .failed _ _ _
    · rw [failed] at served
      cases served
  | recordHold runId seq hold =>
    simp only [Request.call,recordHold] at waiting
    split at waiting
    · cases waiting
    next sequence =>
      split at waiting
      · cases waiting
      next stored valid =>
        cases waiting
        obtain ⟨number,rfl⟩ := seq_natural (not_not.mp sequence)
        refine attempt_step carried ?_ reply answered
        refine serves_other carried (record_writes _ _) fun own => ?_
        have same : runBudgetKeyFor runId = key := own
        obtain ⟨event,after,step,next,shown⟩ := record_step now carried number (stringifyHold stored)
        rw [← same] at next ⊢
        exact ⟨event,after,step,next,fun _ _ _ => .recorded _ _ _ _ _⟩
  | settle runId seq =>
    simp only [Request.call,settle,move] at waiting
    split at waiting
    · cases waiting
    next sequence =>
      cases waiting
      obtain ⟨number,rfl⟩ := seq_natural (not_not.mp sequence)
      exact attempt_step carried
        (move_serves number .settled "settled" carried rfl rfl (.settled runId number)) reply answered
  | release runId seq =>
    simp only [Request.call,release,move] at waiting
    split at waiting
    · cases waiting
    next sequence =>
      cases waiting
      obtain ⟨number,rfl⟩ := seq_natural (not_not.mp sequence)
      exact attempt_step carried
        (move_serves number .released "released" carried rfl rfl (.released runId number)) reply answered
  | settleCrashed runId belowSeq =>
    simp only [Request.call,settleCrashed] at waiting
    split at waiting
    · cases waiting
    next sequence =>
      cases waiting
      obtain ⟨below,rfl⟩ := seq_natural (not_not.mp sequence)
      refine attempt_step carried ?_ reply answered
      refine serves_other carried (crashed_writes _) fun own => ?_
      have same : runBudgetKeyFor runId = key := own
      obtain ⟨event,after,moved,step,next,shown,rfl,distinct,exactly⟩ := crashed_step now carried below
      rw [← same] at shown next ⊢
      refine ⟨.crashed below,after,step,next,fun _ value served => ?_⟩
      obtain rfl := Except.ok.inj (shown.symm.trans served)
      refine .crashed runId below _ ?_ fun seq => ?_
      · exact (List.mergeSort_perm _ _).nodup_iff.mpr (distinct.map Int.ofNat_injective)
      · rw [(List.mergeSort_perm _ _).mem_iff,← exactly seq]
        simp

end Requests

/-- The invariant of a world of workers, for one ledger key. -/
structure Ledgered (key : String) (ledger : RunLedger) (world : World Store Worker) : Prop where
  carried : Carries world.store key ledger
  paired : ledger.Paired
  accounted : Accounted key ledger world.agents
  shaped : ∀ worker ∈ world.agents, worker.answer? = none → ∃ now, worker.call = worker.request.call now

private theorem answer_of_pending (worker : Worker) (command : Valkey.Command) (resume : Valkey.Answer command → Worker)
    (waiting : worker.pending = some ⟨command,resume⟩) : worker.answer? = none := by
  obtain ⟨request,call⟩ := worker
  cases call with
  | done answer => cases waiting
  | issue => rfl

private theorem done_of_answer (worker : Worker) (answer : Answer) (answered : worker.answer? = some answer) :
    worker.call = .done answer := by
  obtain ⟨request,call⟩ := worker
  cases call with
  | done value => rw [Option.some.inj answered]
  | issue => cases answered

private theorem immediate_answer (request : Request) (now : String) (answer : Answer)
    (done : request.call now = .done answer) : ∃ code, answer = .error code := by
  cases request with
  | claimSlot | nextSeq => cases done
  | recordHold runId seq hold =>
    simp only [Request.call,recordHold] at done
    split at done
    · cases done
      exact ⟨_,rfl⟩
    · split at done
      · cases done
        exact ⟨_,rfl⟩
      · cases done
  | settle runId seq | release runId seq | settleCrashed runId seq =>
    simp only [Request.call,settle,release,move,settleCrashed] at done
    split at done
    · cases done
      exact ⟨_,rfl⟩
    · cases done

/-- One step of the world is one step of the ledger, and the account goes on. -/
theorem ledgered_step {key : String} {ledger : RunLedger} {world world' : World Store Worker}
    (ledgered : Ledgered key ledger world) (step : Step workers world world') :
    ∃ event after, ledger.Step event after ∧ Ledgered key after world' := by
  cases step with
  | enter store agents worker allowed =>
    obtain ⟨now,fresh⟩ := allowed
    have failed : ∀ answer, worker.answer? = some answer → ∃ code, answer = .error code := fun answer answered =>
      immediate_answer worker.request now answer (fresh ▸ done_of_answer worker answer answered)
    have quiet : ∀ count : Request → Answer → Nat, (∀ code, count worker.request (.error code) = 0) →
        worker.tally count = 0 := by
      intro count none
      unfold Worker.tally
      cases answered : worker.answer? with
      | none => rfl
      | some answer =>
        obtain ⟨code,rfl⟩ := failed answer answered
        exact none code
    have unnumbered : numbers key [worker] = [] := by
      simp only [numbers,List.flatMap_cons,List.flatMap_nil,List.append_nil]
      cases answered : worker.answer? with
      | none => rfl
      | some answer =>
        obtain ⟨code,rfl⟩ := failed answer answered
        simp [numbersOf]
    have same : numbers key (agents ++ [worker]) = numbers key agents := by
      simp only [numbers,List.flatMap_append] at unnumbered ⊢
      rw [unnumbered,List.append_nil]
    obtain ⟨distinct,below,claimed,closed⟩ := ledgered.accounted
    refine ⟨.quiet,ledger,.quiet ledger,ledgered.carried,ledgered.paired,⟨?_,?_,?_,fun seq => ?_⟩,?_⟩
    · rwa [same]
    · rwa [same]
    · have none := quiet (claimsOf key) (fun code => by simp [claimsOf])
      simpa [claims,none] using claimed
    · have none := quiet (closingsOf key seq) (fun code => by cases worker.request <;> rfl)
      simpa [closings,none] using closed seq
    · intro other member unanswered
      rcases List.mem_append.mp member with member | member
      · exact ledgered.shaped other member unanswered
      · rw [List.mem_singleton.mp member]
        exact ⟨now,fresh⟩
  | move store before worker next after allowed => cases allowed
  | issue store store' before worker after command resume reply waiting answered =>
    have unanswered := answer_of_pending worker command resume waiting
    obtain ⟨now,fresh⟩ := ledgered.shaped worker (by simp) unanswered
    obtain ⟨inner,shown,rfl⟩ : ∃ inner, worker.call.pending = some ⟨command,inner⟩ ∧
        resume = fun answer => ⟨worker.request,inner answer⟩ := by
      have waiting : worker.pending = some ⟨command,resume⟩ := waiting
      unfold Worker.pending at waiting
      obtain ⟨⟨command',inner⟩,found,same⟩ := Option.map_eq_some_iff.mp waiting
      cases same
      exact ⟨inner,found,rfl⟩
    rw [fresh] at shown
    obtain ⟨event,ledger',result,done,taken,carried,explained⟩ :=
      request_step worker.request ledgered.carried command inner reply shown answered
    refine ⟨event,ledger',taken,carried,RunLedger.step_paired taken ledgered.paired,?_,?_⟩
    · dsimp only
      rw [done]
      exact accounted_step ledgered.accounted unanswered result taken explained
    · intro other member open'
      rcases List.mem_append.mp member with early | late
      · exact ledgered.shaped other (by simp [early]) open'
      · rcases List.mem_cons.mp late with rfl | late
        · dsimp only at open'
          rw [done] at open'
          cases open'
        · exact ledgered.shaped other (by simp [late]) open'

def holdState (store : Store) (key : String) (seq : Nat) : Option String :=
  (fieldsAt store key).bind fun fields => fields.get? (stateField seq)

def holdRecord (store : Store) (key : String) (seq : Nat) : Option String :=
  (fieldsAt store key).bind fun fields => fields.get? (recordField seq)

def closedStates : List String := ["settled","released","settled-crashed"]

/-- A hold's state stays, or goes from absent to held, or from held to one of the closed states. -/
def HoldMoves (before after : Option String) : Prop :=
  after = before ∨ (before = none ∧ after = some "held") ∨
    (before = some "held" ∧ ∃ state ∈ closedStates, after = some state)

private theorem holdState_carried {store : Store} {key : String} {ledger : RunLedger} (carried : Carries store key ledger)
    (seq : Nat) : holdState store key seq = (ledger.state seq).text := by
  obtain ⟨fields,found,reads⟩ := carried
  simp [holdState,found,reads.state seq]

private theorem holdRecord_carried {store : Store} {key : String} {ledger : RunLedger}
    (carried : Carries store key ledger) (seq : Nat) : holdRecord store key seq = ledger.record seq := by
  obtain ⟨fields,found,reads⟩ := carried
  simp [holdRecord,found,reads.record seq]

private theorem text_closed {state : HoldState} (final : state.closed) : ∃ text ∈ closedStates, state.text = some text := by
  cases state with
  | absent | held => cases final
  | settled | released | crashed => exact ⟨_,by simp [closedStates],rfl⟩

private theorem ledgered_reachable {key : String} {start : Store} (absent : start key = none) {world : World Store Worker}
    (reached : Reachable workers start world) : ∃ ledger, Ledgered key ledger world := by
  induction reached with
  | refl =>
    refine ⟨.fresh,⟨Dict.empty,by simp [fieldsAt,absent],reads_fresh⟩,fun seq written => ?_,
      ⟨List.nodup_nil,fun _ member => (by cases member),le_rfl,fun _ => le_rfl⟩,fun _ member => (by cases member)⟩
    cases written
  | tail _ step ih =>
    obtain ⟨ledger,ledgered⟩ := ih
    obtain ⟨_,after,_,next⟩ := ledgered_step ledgered step
    exact ⟨after,next⟩

private theorem hold_moves {key : String} {ledger : RunLedger} {world world' : World Store Worker}
    (ledgered : Ledgered key ledger world) (step : Step workers world world') (seq : Nat) :
    HoldMoves (holdState world.store key seq) (holdState world'.store key seq) ∧
      ∀ stored, holdRecord world.store key seq = some stored → holdRecord world'.store key seq = some stored := by
  obtain ⟨event,after,taken,next⟩ := ledgered_step ledgered step
  rw [holdState_carried ledgered.carried,holdState_carried next.carried,holdRecord_carried ledgered.carried,
    holdRecord_carried next.carried]
  refine ⟨?_,fun stored written => RunLedger.step_record taken ledgered.paired seq stored written⟩
  rcases RunLedger.step_state taken seq with same | ⟨absent,held⟩ | ⟨held,closed⟩
  · exact .inl (congrArg HoldState.text same)
  · exact .inr (.inl ⟨by rw [absent]; rfl,by rw [held]; rfl⟩)
  · exact .inr (.inr ⟨by rw [held]; rfl,text_closed closed⟩)

private theorem hold_settles {key : String} {ledger : RunLedger} {world later : World Store Worker}
    (ledgered : Ledgered key ledger world) (onward : Relation.ReflTransGen (Step workers) world later) (seq : Nat) :
    (∀ state ∈ closedStates, holdState world.store key seq = some state → holdState later.store key seq = some state) ∧
      ∀ stored, holdRecord world.store key seq = some stored → holdRecord later.store key seq = some stored := by
  have kept : (∃ after, Ledgered key after later) ∧
      (∀ state ∈ closedStates, holdState world.store key seq = some state → holdState later.store key seq = some state) ∧
      ∀ stored, holdRecord world.store key seq = some stored → holdRecord later.store key seq = some stored := by
    induction onward with
    | refl => exact ⟨⟨ledger,ledgered⟩,fun _ _ found => found,fun _ found => found⟩
    | tail _ step ih =>
      obtain ⟨⟨between,here⟩,states,records⟩ := ih
      obtain ⟨event,after,_,next⟩ := ledgered_step here step
      obtain ⟨moves,record⟩ := hold_moves here step seq
      refine ⟨⟨after,next⟩,fun state closed found => ?_,fun stored found => record stored (records stored found)⟩
      have before := states state closed found
      rcases moves with same | ⟨absent,_⟩ | ⟨held,_⟩
      · rw [same,before]
      · rw [before] at absent
        cases absent
      · rw [before] at held
        cases held
        simp [closedStates] at closed
  exact kept.2

/-- In every interleaving of the ledger's calls, faults included: no number is handed out twice, the slot is new
once, a hold moves from absent to held to one closed state and stays there with its record, at most one answer
reports the closing of a number, and `settleCrashed` moves exactly the holds below its bound. -/
theorem durable_hold_closed_once (runId : String) (start : Store) (absent : start (runBudgetKeyFor runId) = none)
    (world : World Store Worker) (reached : Reachable workers start world) :
    (numbers (runBudgetKeyFor runId) world.agents).Nodup ∧
    claims (runBudgetKeyFor runId) world.agents ≤ 1 ∧
    (∀ seq : Nat, closings (runBudgetKeyFor runId) seq world.agents ≤ 1) ∧
    (∀ world', Step workers world world' → ∀ seq,
      HoldMoves (holdState world.store (runBudgetKeyFor runId) seq) (holdState world'.store (runBudgetKeyFor runId) seq) ∧
      ∀ stored, holdRecord world.store (runBudgetKeyFor runId) seq = some stored →
        holdRecord world'.store (runBudgetKeyFor runId) seq = some stored) ∧
    (∀ later, Relation.ReflTransGen (Step workers) world later → ∀ seq,
      (∀ state ∈ closedStates, holdState world.store (runBudgetKeyFor runId) seq = some state →
        holdState later.store (runBudgetKeyFor runId) seq = some state) ∧
      ∀ stored, holdRecord world.store (runBudgetKeyFor runId) seq = some stored →
        holdRecord later.store (runBudgetKeyFor runId) seq = some stored) ∧
    (∀ below now, isSeq below → ∃ seqs store,
      (settleCrashed runId below now).run execute world.store = (.settled seqs,store) ∧ seqs.Nodup ∧
      (∀ entry, entry ∈ seqs ↔ ∃ seq : Nat, entry = seq ∧ entry < below ∧
        holdState world.store (runBudgetKeyFor runId) seq = some "held") ∧
      ∀ seq : Nat, (seq : Int) < below → holdState store (runBudgetKeyFor runId) seq ≠ some "held") := by
  obtain ⟨ledger,ledgered⟩ := ledgered_reachable absent reached
  refine ⟨ledgered.accounted.numbersDistinct,?_,fun seq => ?_,fun world' step seq => hold_moves ledgered step seq,
    fun later onward seq => hold_settles ledgered onward seq,fun below now sequence => ?_⟩
  · exact ledgered.accounted.claims.trans (Bool.toNat_le _)
  · exact (ledgered.accounted.closings seq).trans (Bool.toNat_le _)
  · obtain ⟨number,rfl⟩ := seq_natural sequence
    obtain ⟨_,after,moved,step,carried,reply,rfl,distinct,exactly⟩ := crashed_step now ledgered.carried number
    refine ⟨(moved.map Int.ofNat).mergeSort fun left right => left ≤ right,
      (CRASHED_SCRIPT (runBudgetKeyFor runId) number now world.store).2,?_,?_,fun entry => ?_,fun seq less => ?_⟩
    · rw [settleCrashed,if_neg (not_not.mpr sequence),attempt,run_call,reply]
      rfl
    · exact (List.mergeSort_perm _ _).nodup_iff.mpr (distinct.map Int.ofNat_injective)
    · rw [(List.mergeSort_perm _ _).mem_iff,List.mem_map]
      constructor
      · rintro ⟨seq,member,rfl⟩
        obtain ⟨less,held⟩ := (exactly seq).mp member
        exact ⟨seq,rfl,Int.ofNat_lt.mpr less,by rw [holdState_carried ledgered.carried,held]; rfl⟩
      · rintro ⟨seq,rfl,less,held⟩
        rw [holdState_carried ledgered.carried,HoldState.text_held] at held
        exact ⟨seq,(exactly seq).mpr ⟨Int.ofNat_lt.mp less,held⟩,rfl⟩
    · rw [holdState_carried carried,Ne,HoldState.text_held]
      cases step
      dsimp only
      split
      · simp
      next kept => exact fun held => kept ⟨Int.ofNat_lt.mp less,held⟩

def Request.ask (request : Request) : Worker := ⟨request,request.call "0"⟩

/-- A hold recorded under number 1, then settled by one worker and found closed by another. -/
def settledRun : World Store Worker :=
  let recorded := workers.turn execute 0 ⟨Store.empty,[(Request.recordHold "run" 1 ⟨0,[],none⟩).ask]⟩
  let settled := workers.turn execute 1 ⟨recorded.store,recorded.agents ++ [(Request.settle "run" 1).ask]⟩
  workers.turn execute 2 ⟨settled.store,settled.agents ++ [(Request.release "run" 1).ask]⟩

private theorem settledRun_reached : Reachable workers Store.empty settledRun := by
  have serves : ∀ store command, servedOrFaulted store command (execute store command).1 (execute store command).2 :=
    fun _ _ => .inl rfl
  have asks : ∀ request : Request, workers.enters request.ask := fun _ => ⟨"0",rfl⟩
  have start : Reachable workers Store.empty ⟨Store.empty,[]⟩ := .refl
  have recorded := reachable_turn workers execute serves 0
    (reachable_enter workers _ (asks (.recordHold "run" 1 ⟨0,[],none⟩)) start)
  have settled := reachable_turn workers execute serves 1 (reachable_enter workers _ (asks (.settle "run" 1)) recorded)
  exact reachable_turn workers execute serves 2 (reachable_enter workers _ (asks (.release "run" 1)) settled)

theorem settled_run_closed_once :
    (numbers (runBudgetKeyFor "run") settledRun.agents).Nodup ∧ closings (runBudgetKeyFor "run") 1 settledRun.agents ≤ 1 :=
  have closed := durable_hold_closed_once "run" Store.empty rfl settledRun settledRun_reached
  ⟨closed.1,closed.2.2.1 1⟩

end PiDispatch.RunBudgetLedger
