import PiDispatch.ChildMoves
import PiDispatch.Kernel.Machine

/-! A call of a child process is on disk before it goes out, over runs: nested and throwing dispatches, answers in any
order, writes that fail. The reservation is for one call, so it holds as long as every call admitted before has been
observed. -/
namespace PiDispatch.UsageMeter
open Kernel Payload Relation

variable {Context Options : Type} (cap : Option (CostPolicy Context Options))

namespace Child

/-- A call that comes as far as its pre-dispatch write. -/
def Admits (child : Child Context Options) (call : Call Context Options) : Prop :=
  child.meter.stopReason = none ∧ child.isStopped call.stopFile = none ∧ (policyAdmit cap child.policy call).2 = none

/-- No call is admitted once the process has written its last ledger, and none is let out while one that was admitted
before has not been observed. -/
def Act.Timely (act : Act Context Options) (child : Child Context Options) : Prop :=
  match act with
  | .call asked ok _ => child.Admits cap asked → child.done = false ∧ (ok = true → child.meter.calls = child.admitted)
  | _ => True

/-- What a ledger shows of the calls admitted when it was written, and of those not observed by then. -/
structure Counts (written : Written) : Prop where
  calls : written.admitted ≤ written.ledger.totals.calls
  unresolved : written.admitted ≤ written.observed + written.ledger.totals.unresolved

/-- The file last written, when a call goes out: it counts that call and its bound. -/
def OnDisk (call : Call Context Options) (child : Child Context Options) : Prop :=
  ∃ newest older, child.files = newest :: older ∧ newest.ledger.metered = true ∧
    child.admitted ≤ newest.ledger.totals.calls ∧ ∀ limit, cap = some limit → ∃ bound : Nat,
      CostGuard.boundOf limit call.ask call.pinned = some bound ∧
        (bound : Int) ≤ newest.ledger.spentMicros + newest.ledger.inflightMicros

/-- The files of a child, the call that may go out next, and what is left of a child once a write has failed. -/
structure Ahead (child : Child Context Options) : Prop where
  counts : ∀ written ∈ child.files, written.ledger.metered = true → Counts written
  dispatched : ∀ call ok stopOk, Act.Timely cap (.call call ok stopOk) child →
    (child.step cap (.call call ok stopOk)).1 = .dispatched → OnDisk cap call (child.step cap (.call call ok stopOk)).2
  ended : child.failed = true → ∀ past later, Runs (step cap) (fun _ _ => True) child past later →
    (∀ entry ∈ past, entry.2 ≠ .dispatched) ∧
      ∃ written, later.files = written ++ child.files ∧ ∀ file ∈ written, file.ledger.metered = false

private structure Ready (child : Child Context Options) : Prop where
  metered : child.metered = !child.failed
  policy : child.policy.Kept cap
  floor : child.floor = child.admitted
  counts : ∀ written ∈ child.files, written.ledger.metered = true → Counts written

theorem ledger_metered (child : Child Context Options) (state : LedgerState) :
    (child.ledger state).metered = child.metered := by
  unfold ledger childLedger
  dsimp only [Ledger.reserve]
  split
  next metered => exact metered.symm
  next metered => simpa using metered

private theorem ledger_counts (child : Child Context Options) (state : LedgerState) (metered : child.metered = true)
    (floor : child.floor = child.admitted) : Counts ⟨child.ledger state,child.admitted,child.meter.calls⟩ := by
  unfold ledger childLedger
  rw [if_pos metered]
  dsimp only [Ledger.reserve]
  rw [if_pos metered,floor]
  constructor <;> dsimp only <;> omega

private theorem write_ready {child : Child Context Options} (ready : Ready cap child) (state : LedgerState) (ok : Bool) :
    Ready cap (child.write state ok) := by
  by_cases closed : child.done = true ∨ child.live = false
  · rw [write_closed closed]
    exact ready
  · push Not at closed
    rw [write_open (by simpa using closed.1) (by simpa using closed.2)]
    split
    · refine ⟨ready.metered,ready.policy,ready.floor,?_⟩
      intro written inside metered
      rcases List.mem_cons.mp inside with rfl | inside
      · dsimp only at metered
        rw [ledger_metered] at metered
        exact ledger_counts child state metered ready.floor
      · exact ready.counts written inside metered
    · exact ⟨rfl,ready.policy,ready.floor,ready.counts⟩

private theorem change_ready {child next : Child Context Options} (ready : Ready cap child) (change : Change cap child next) :
    Ready cap next := by
  cases change with
  | stopped | popped | observed | seen | settled => exact ⟨ready.metered,ready.policy,ready.floor,ready.counts⟩
  | policy forward => exact ⟨ready.metered,forward.kept ready.policy,ready.floor,ready.counts⟩
  | written state ok => exact write_ready cap ready state ok
  | failed => exact ⟨rfl,ready.policy,ready.floor,ready.counts⟩

private theorem moves_ready {child next : Child Context Options} (ready : Ready cap child) (moves : Moves cap child next) :
    Ready cap next := by
  induction moves with
  | refl => exact ready
  | tail _ change ih => exact change_ready cap ih change

private theorem isStopped_free {child : Child Context Options} {stopFile : Option Stop}
    (free : child.isStopped stopFile = none) : child.failed = false := by
  unfold isStopped at free
  split at free
  · cases free
  next alive => simpa using alive

private theorem dispatch_free {child next : Child Context Options} {call : Call Context Options} {ok : Bool}
    (dispatch : Dispatch cap child call ok next) : child.isStopped call.stopFile = none := by
  cases dispatch with
  | out _ _ _ free => exact free

private theorem dispatch_ready {child next : Child Context Options} {call : Call Context Options} {ok stopOk : Bool}
    (ready : Ready cap child) (timely : Act.Timely cap (.call call ok stopOk) child) (dispatch : Dispatch cap child call ok next) :
    Ready cap next ∧ OnDisk cap call next := by
  obtain ⟨prepared,frames,going,free,through,written⟩ := dispatch
  rename_i policy
  obtain ⟨fresh,observed⟩ := timely ⟨going,free,by rw [through]⟩
  have alive := isStopped_free free
  have kept := (policyAdmit_forward through).kept ready.policy
  rw [write_open (by exact fresh) rfl] at written ⊢
  cases ok with
  | false => simp at written
  | true =>
    rw [if_pos rfl]
    have metered : (child.reserved policy).metered = true := by
      unfold reserved
      rw [ready.metered,alive]
      rfl
    have floor : (child.reserved policy).floor = (child.reserved policy).admitted := by
      have seen := observed rfl
      have floor := ready.floor
      unfold reserved
      dsimp only
      omega
    have counts := ledger_counts (child.reserved policy) .running metered floor
    refine ⟨⟨ready.metered,kept,floor,?_⟩,_,_,rfl,?_,counts.calls,?_⟩
    · intro written inside own
      rcases List.mem_cons.mp inside with rfl | inside
      · exact counts
      · exact ready.counts written inside own
    · dsimp only
      rw [ledger_metered,metered]
    · intro limit same
      subst same
      obtain ⟨guard,bound,cost,found,covers⟩ := policyAdmit_covers ready.policy through
      refine ⟨bound,found,?_⟩
      unfold ledger childLedger
      rw [if_pos metered]
      unfold reserved
      dsimp only [Ledger.reserve]
      rw [cost]
      exact covers

private theorem step_ready {child : Child Context Options} (ready : Ready cap child) (act : Act Context Options)
    (timely : Act.Timely cap act child) : Ready cap (child.step cap act).2 := by
  rcases @step_moves _ _ cap child act with ⟨moves,_⟩ | ⟨call,ok,stopOk,rfl,dispatch⟩
  · exact moves_ready cap ready moves
  · exact (dispatch_ready cap ready timely dispatch).1

private theorem start_ready (list lazy ok : Bool) : Ready cap (start cap list lazy ok) := by
  refine write_ready cap ⟨rfl,⟨by rw [Option.isSome_map],?_⟩,rfl,?_⟩ .running ok
  · intro limit guard under held
    subst under
    cases held
    exact ⟨initial_sound limit,Int.natCast_nonneg _⟩
  · intro written none
    cases none

/-- A child that stopped for a failed write, some acts later. -/
private structure Ended (child later : Child Context Options) : Prop where
  failed : later.failed = true
  metered : later.metered = false
  files : ∃ written, later.files = written ++ child.files ∧ ∀ file ∈ written, file.ledger.metered = false

private theorem write_ended {child later : Child Context Options} (ended : Ended child later) (state : LedgerState)
    (ok : Bool) : Ended child (later.write state ok) := by
  by_cases closed : later.done = true ∨ later.live = false
  · rw [write_closed closed]
    exact ended
  · push Not at closed
    rw [write_open (by simpa using closed.1) (by simpa using closed.2)]
    split
    · obtain ⟨written,shape,silent⟩ := ended.files
      refine ⟨ended.failed,ended.metered,_ :: written,by rw [shape]; rfl,?_⟩
      intro file inside
      rcases List.mem_cons.mp inside with rfl | inside
      · dsimp only
        rw [ledger_metered,ended.metered]
      · exact silent file inside
    · exact ⟨rfl,rfl,ended.files⟩

private theorem moves_ended {child later next : Child Context Options} (ended : Ended child later)
    (moves : Moves cap later next) : Ended child next := by
  induction moves with
  | refl => exact ended
  | tail _ change ih =>
    cases change with
    | stopped | popped | observed | seen | settled | policy => exact ⟨ih.failed,ih.metered,ih.files⟩
    | written state ok => exact write_ended ih state ok
    | failed => exact ⟨rfl,rfl,ih.files⟩

private theorem step_ended {child later : Child Context Options} (ended : Ended child later) (act : Act Context Options) :
    Ended child (later.step cap act).2 ∧ (later.step cap act).1 ≠ .dispatched := by
  rcases @step_moves _ _ cap later act with ⟨moves,still⟩ | ⟨call,ok,stopOk,rfl,dispatch⟩
  · exact ⟨moves_ended cap ended moves,still⟩
  · have alive := isStopped_free (dispatch_free cap dispatch)
    rw [ended.failed] at alive
    cases alive

private theorem runs_ended {child later : Child Context Options} (failed : child.failed = true)
    (metered : child.metered = false) {past : List (Act Context Options × Reply)}
    (run : Runs (step cap) (fun _ _ => True) child past later) :
    Ended child later ∧ ∀ entry ∈ past, entry.2 ≠ .dispatched := by
  refine Runs.invariant (fun past later => Ended child later ∧ ∀ entry ∈ past, entry.2 ≠ .dispatched) ?_ ?_ run
  · refine ⟨⟨failed,metered,[],rfl,?_⟩,?_⟩
    · exact fun file none => absurd none List.not_mem_nil
    · exact fun entry none => absurd none List.not_mem_nil
  · intro past later act ⟨ended,silent⟩ _
    obtain ⟨next,still⟩ := step_ended cap ended act
    exact ⟨next,List.forall_mem_cons.mpr ⟨still,silent⟩⟩

private theorem ready_ahead {child : Child Context Options} (ready : Ready cap child) : Ahead cap child where
  counts := ready.counts
  dispatched call ok stopOk timely out := by
    rcases @step_moves _ _ cap child (.call call ok stopOk) with ⟨_,still⟩ | ⟨_,_,_,same,dispatch⟩
    · exact absurd out still
    · cases same
      exact (dispatch_ready cap ready timely dispatch).2
  ended failed past later run := by
    have metered : child.metered = false := by
      rw [ready.metered,failed]
      rfl
    obtain ⟨ended,silent⟩ := runs_ended cap failed metered run
    exact ⟨silent,ended.files⟩

/-- In every run of a child whose calls are let out one observed after the other: each file counts the calls admitted
before it, observed or not; a call that goes out is on disk with its bound; and once a write has failed nothing goes
out any more, and no file says that the child is metered. -/
theorem written_ahead {list lazy ok : Bool} {past : List (Act Context Options × Reply)} {child : Child Context Options}
    (run : Runs (step cap) (Act.Timely cap) (start cap list lazy ok) past child) : Ahead cap child := by
  refine ready_ahead cap (Runs.invariant (fun _ child => Ready cap child) (start_ready cap list lazy ok) ?_ run)
  intro past child act ready timely
  exact step_ready cap ready act timely

/-! Two calls: one after the other, and one inside the dispatch of the other. -/

def plainCall : Call Unit Unit :=
  ⟨⟨.streamSimple,⟨"groq","small","openai-completions",none,.null,.null,false⟩,(),(),none⟩,none,none,true,none,none,false⟩

theorem written_ahead_twice : Ahead none (after (step none) (start none false true true)
    [.call plainCall true true,.returns (.stream 0) true,.call plainCall true true,.returns .thrown true]) := by
  refine written_ahead none (runs_guarded _ _ _ _ ?_)
  exact ⟨fun _ => ⟨rfl,fun _ => rfl⟩,trivial,fun _ => ⟨rfl,fun _ => rfl⟩,trivial,trivial⟩

theorem nested_unshown : ¬∀ (past : List (Act Unit Unit × Reply)) (child : Child Unit Unit),
    Runs (step none) (fun _ _ => True) (start none false true true) past child → ∀ call ok stopOk,
      (child.step none (.call call ok stopOk)).1 = .dispatched →
        OnDisk none call (child.step none (.call call ok stopOk)).2 := by
  intro shown
  have run := runs_after (step none) (start none false true true) [.call plainCall true true]
  obtain ⟨newest,older,files,_,counts,_⟩ := shown _ _ run plainCall true true rfl
  have calls : 2 ≤ newest.ledger.totals.calls := counts
  injection files with same _
  rw [← same] at calls
  exact absurd calls (by decide)

end Child

end PiDispatch.UsageMeter
