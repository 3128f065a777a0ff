import PiDispatch.ChildLedgerRead
import PiDispatch.ChildLedgerText
import PiDispatch.ChildMoves
import PiDispatch.Kernel.Machine

/-! An honest child's ledgers over runs: each is proper, and reaches every earlier one, so that its parent, which reads
some of them in the order they were written, never takes the child for one that is malformed or that shrank. -/
namespace PiDispatch.UsageMeter
open Kernel Payload Relation

/-! What one change does to the ledger that a child would write. -/

variable {Context Options : Type} (cap : Option (CostPolicy Context Options))

/-- What holds of a child in every run. -/
structure Child.Honest (child : Child Context Options) : Prop where
  metered : child.metered = !child.failed
  policy : child.policy.Kept cap
  meter : child.meter.Whole
  unresolved : child.meter.unresolved = child.outstanding.length

private theorem counter_grows {one other : Option CostGuard} (grown : Option.Rel CostGuard.Grown one other)
    {count : CostGuard → Nat} (grows : ∀ guard later, CostGuard.Grown guard later → count guard ≤ count later) :
    (one.map count).getD 0 ≤ (other.map count).getD 0 := by
  cases grown with
  | none => exact le_refl _
  | some own => exact grows _ _ own

private theorem spent_grows {one other : Option CostGuard} (grown : Option.Rel CostGuard.Grown one other) :
    (one.map CostGuard.spent).getD 0 ≤ (other.map CostGuard.spent).getD 0 := by
  cases grown with
  | none => exact le_refl _
  | some own => exact own.spent

namespace Child

/-- The ledger of a child that is metered. -/
theorem ledger_shape {child : Child Context Options} (metered : child.metered = true) (state : LedgerState) :
    child.ledger state = (childLedger state true child.meter child.policy).reserve (child.floor - child.meter.calls) := by
  unfold ledger
  rw [metered]
  rfl

/-- More of everything gives a ledger that reaches the one before. -/
private theorem ledger_reached {child next : Child Context Options} (metered : child.metered = true)
    (metered' : next.metered = true) (whole : child.meter.Whole) (whole' : next.meter.Whole)
    (meter : child.meter.Grown next.meter) (cost : Option.Rel CostGuard.Grown child.policy.cost next.policy.cost)
    (list : child.policy.modelRefused.getD 0 ≤ next.policy.modelRefused.getD 0) (floor : child.floor ≤ next.floor)
    (state later : LedgerState) : Reached (child.ledger state) (next.ledger later) := by
  rw [ledger_shape metered,ledger_shape metered']
  unfold childLedger
  rw [if_pos rfl,if_pos rfl]
  have calls := meter.calls
  refine ⟨⟨meter.input,meter.output,meter.total,meter.cost,?_,meter.unpriced,meter.sessions⟩,⟨spent_grows cost,?_,list,
    ?_,?_,meter.unreported,?_,?_⟩,?_⟩
  · dsimp only [Ledger.reserve]
    omega
  · exact counter_grows cost fun _ _ own => own.refused
  · exact counter_grows cost fun _ _ own => own.boundExceeded
  · exact counter_grows cost fun _ _ own => own.unanswered
  · exact counter_grows cost fun _ _ own => own.longContext
  · exact counter_grows cost fun _ _ own => own.unjudged
  · exact fun row inside => Meter.rows_later whole' whole meter inside

private theorem rel_same (cost : Option CostGuard) : Option.Rel CostGuard.Grown cost cost := by
  cases cost with
  | none => exact .none
  | some guard => exact .some (.rfl guard)

private theorem write_honest {child : Child Context Options} (honest : Honest cap child) (state : LedgerState) (ok : Bool) :
    Honest cap (child.write state ok) := by
  by_cases closed : child.done = true ∨ child.live = false
  · rw [write_closed closed]
    exact honest
  · push Not at closed
    rw [write_open (by simpa using closed.1) (by simpa using closed.2)]
    split
    · exact ⟨honest.metered,honest.policy,honest.meter,honest.unresolved⟩
    · exact ⟨rfl,honest.policy,honest.meter,honest.unresolved⟩

private theorem write_same {child : Child Context Options} {state : LedgerState} {ok : Bool}
    (metered : (child.write state ok).metered = true) : child.metered = true ∧
      (child.write state ok).meter = child.meter ∧ (child.write state ok).policy = child.policy ∧
      (child.write state ok).floor = child.floor := by
  by_cases closed : child.done = true ∨ child.live = false
  · rw [write_closed closed] at metered ⊢
    exact ⟨metered,rfl,rfl,rfl⟩
  · push Not at closed
    rw [write_open (by simpa using closed.1) (by simpa using closed.2)] at metered ⊢
    cases ok with
    | true => exact ⟨metered,rfl,rfl,rfl⟩
    | false => cases metered

private theorem unresolved_erased {child : Child Context Options} (honest : Honest cap child) {index : Nat}
    {call : Outstanding} (held : child.outstanding[index]? = some call) : 0 < child.meter.unresolved := by
  have inside := (List.getElem?_eq_some_iff.mp held).1
  rw [honest.unresolved]
  omega

private theorem change_honest {child next : Child Context Options} (honest : Honest cap child) (change : Change cap child next) :
    Honest cap next := by
  have whole := honest.meter
  cases change with
  | stopped reason =>
    exact ⟨honest.metered,honest.policy,⟨whole.calls,whole.input,whole.output,whole.total,whole.cost,whole.unpriced,whole.named,
      whole.distinct,whole.other,whole.idle⟩,honest.unresolved⟩
  | seen id =>
    exact ⟨honest.metered,honest.policy,⟨whole.calls,whole.input,whole.output,whole.total,whole.cost,whole.unpriced,whole.named,
      whole.distinct,whole.other,whole.idle⟩,honest.unresolved⟩
  | policy forward => exact ⟨honest.metered,forward.kept honest.policy,whole,honest.unresolved⟩
  | popped => exact ⟨honest.metered,honest.policy,whole,honest.unresolved⟩
  | observed seen call =>
    refine ⟨honest.metered,honest.policy,Meter.observe_whole whole seen,?_⟩
    have same := honest.unresolved
    change child.meter.unresolved + 1 = (child.outstanding ++ [call]).length
    rw [List.length_append,List.length_singleton]
    omega
  | settled held settled =>
    refine ⟨honest.metered,honest.policy,Meter.settle_whole whole (unresolved_erased cap honest held) _ _ _,?_⟩
    have inside := (List.getElem?_eq_some_iff.mp held).1
    have same := honest.unresolved
    dsimp only
    rw [Meter.settle_unresolved,List.length_eraseIdx,if_pos inside]
    omega
  | written state ok => exact write_honest cap honest state ok
  | failed => exact ⟨rfl,honest.policy,whole,honest.unresolved⟩

/-- A change of a child that stays metered leaves a ledger that reaches the one before. -/
private theorem change_reached {child next : Child Context Options} (honest : Honest cap child)
    (change : Change cap child next) (metered : next.metered = true) :
    child.metered = true ∧ ∀ state later, Reached (child.ledger state) (next.ledger later) := by
  have whole := honest.meter
  have later := (change_honest cap honest change).meter
  have cost := rel_same child.policy.cost
  cases change with
  | stopped reason =>
    have grown := Meter.Grown.rfl child.meter
    exact ⟨metered,ledger_reached metered metered whole later ⟨grown.calls,grown.input,grown.output,grown.total,grown.cost,
      grown.unpriced,grown.unreported,grown.sessions,grown.other,grown.named⟩ cost (le_refl _) (le_refl _)⟩
  | seen id =>
    have grown := Meter.Grown.rfl child.meter
    exact ⟨metered,ledger_reached metered metered whole later ⟨grown.calls,grown.input,grown.output,grown.total,grown.cost,
      grown.unpriced,grown.unreported,grown.sessions,grown.other,grown.named⟩ cost (le_refl _) (le_refl _)⟩
  | policy forward =>
    exact ⟨metered,ledger_reached metered metered whole later (.rfl _) forward.cost forward.listed (le_refl _)⟩
  | popped => exact ⟨metered,ledger_reached metered metered whole later (.rfl _) cost (le_refl _) (le_refl _)⟩
  | observed seen call =>
    exact ⟨metered,ledger_reached metered metered whole later (Meter.observe_grown _ seen) cost (le_refl _) (le_refl _)⟩
  | settled held settled =>
    exact ⟨metered,ledger_reached metered metered whole later (Meter.settle_grown _ _ _ settled) cost (le_refl _) (le_refl _)⟩
  | written state ok =>
    obtain ⟨before,meter,policy,floor⟩ := write_same metered
    refine ⟨before,ledger_reached before metered whole later ?_ ?_ ?_ floor.ge⟩
    · rw [meter]
      exact .rfl _
    · rw [policy]
      exact cost
    · rw [policy]
  | failed => cases metered

variable (safe : ∀ limit, cap = some limit → limit.capMicros ≤ maxSafeInteger)

private theorem empty_proper (state : LedgerState) : (childLedger state false .initial ⟨none,none⟩).Proper := by
  unfold childLedger
  rw [if_neg (by decide)]
  have within : (0 : Int) ≤ maxSafeInteger := Int.natCast_nonneg maxSafeInteger
  exact ⟨Nat.le_refl 0,rfl,rfl,rfl,rfl,rfl,rfl,fun _ none => absurd none List.not_mem_nil,List.nodup_nil,Nat.zero_le _,Int.le_refl 0,Int.le_refl 0,within⟩

include safe in
private theorem guard_within {child : Child Context Options} (honest : Honest cap child) :
    0 ≤ (child.policy.cost.map CostGuard.spent).getD 0 ∧ 0 ≤ (child.policy.cost.map CostGuard.inflight).getD 0 ∧
      (child.policy.cost.map CostGuard.inflight).getD 0 ≤ maxSafeInteger := by
  cases held : child.policy.cost with
  | none => exact ⟨le_refl _,le_refl _,by decide⟩
  | some guard =>
    have some' := honest.policy.capped
    rw [held] at some'
    obtain ⟨limit,under⟩ := Option.isSome_iff_exists.mp some'.symm
    have kept := honest.policy.cost limit guard under held
    have below := safe limit under
    have within := kept.inflight
    refine ⟨kept.sound.spent_nonneg,kept.sound.inflight_nonneg,?_⟩
    change guard.inflight ≤ maxSafeInteger
    omega

include safe in
/-- Whatever an honest child writes is proper. -/
private theorem ledger_proper {child : Child Context Options} (honest : Honest cap child) (state : LedgerState) :
    (child.ledger state).Proper := by
  cases metered : child.metered with
  | false =>
    unfold ledger
    rw [metered]
    exact empty_proper state
  | true =>
    rw [ledger_shape metered]
    obtain ⟨spent,inflight,within⟩ := guard_within cap safe honest
    have whole := honest.meter
    have sum := whole.sum
    have calls := whole.calls
    unfold childLedger
    rw [if_pos rfl]
    refine ⟨?_,?_,?_,?_,?_,?_,?_,whole.recordable,whole.keys,whole.few,spent,inflight,within⟩
    all_goals dsimp only [Ledger.reserve]
    · omega
    · rw [sum]
      omega
    · rw [sum,whole.unpriced]
    · rw [sum,whole.input]
    · rw [sum,whole.output]
    · rw [sum,whole.total]
    · rw [sum,whole.cost]

/-- The files of an honest child: each is proper, and reaches the earlier ones, as the next one will. -/
structure Filed (child : Child Context Options) : Prop where
  honest : Honest cap child
  silent : ∀ written ∈ child.files, written.ledger.metered = false →
    ∃ state, written.ledger = childLedger state false .initial ⟨none,none⟩
  proper : ∀ written ∈ child.files, written.ledger.Proper
  behind : ∀ written ∈ child.files, written.ledger.metered = true → child.metered = true →
    ∀ state, Reached written.ledger (child.ledger state)
  ordered : child.files.Pairwise fun later earlier => later.ledger.metered = true → earlier.ledger.metered = true →
    Reached earlier.ledger later.ledger

private theorem ledger_self {child : Child Context Options} (honest : Honest cap child) (metered : child.metered = true)
    (state later : LedgerState) : Reached (child.ledger state) (child.ledger later) :=
  ledger_reached metered metered honest.meter honest.meter (.rfl _) (rel_same _) (le_refl _) (le_refl _) state later

private theorem ledger_flag (child : Child Context Options) (state : LedgerState) :
    (child.ledger state).metered = child.metered := by
  unfold ledger childLedger
  dsimp only [Ledger.reserve]
  split
  next metered => exact metered.symm
  next metered => simpa using metered

private theorem ledger_silent (child : Child Context Options) (state : LedgerState)
    (silent : (child.ledger state).metered = false) : ∃ state', child.ledger state = childLedger state' false .initial ⟨none,none⟩ := by
  rw [ledger_flag] at silent
  refine ⟨state,?_⟩
  unfold ledger
  rw [silent]
  rfl

include safe in
private theorem write_filed {child : Child Context Options} (filed : Filed cap child) (state : LedgerState) (ok : Bool) :
    Filed cap (child.write state ok) := by
  have kept := write_honest cap filed.honest state ok
  by_cases closed : child.done = true ∨ child.live = false
  · rw [write_closed closed]
    exact filed
  · push Not at closed
    rw [write_open (by simpa using closed.1) (by simpa using closed.2)] at kept ⊢
    cases ok with
    | false => exact ⟨kept,filed.silent,filed.proper,fun _ _ _ none => (Bool.false_ne_true none).elim,filed.ordered⟩
    | true =>
      rw [if_pos rfl] at kept ⊢
      refine ⟨kept,List.forall_mem_cons.mpr ⟨ledger_silent child state,filed.silent⟩,?_,?_,?_⟩
      · exact List.forall_mem_cons.mpr ⟨ledger_proper cap safe filed.honest state,filed.proper⟩
      · intro written inside own metered later
        change Reached written.ledger (child.ledger later)
        rcases List.mem_cons.mp inside with rfl | inside
        · exact ledger_self cap filed.honest metered state later
        · exact filed.behind written inside own metered later
      · refine List.pairwise_cons.mpr ⟨?_,filed.ordered⟩
        intro earlier inside later own
        dsimp only at later ⊢
        rw [ledger_flag] at later
        exact filed.behind earlier inside own later state

include safe in
private theorem change_filed {child next : Child Context Options} (filed : Filed cap child) (change : Change cap child next) :
    Filed cap next := by
  have kept := change_honest cap filed.honest change
  have behind : next.files = child.files → ∀ written ∈ next.files, written.ledger.metered = true → next.metered = true →
      ∀ state, Reached written.ledger (next.ledger state) := by
    intro same written inside own metered state
    rw [same] at inside
    obtain ⟨before,reached⟩ := change_reached cap filed.honest change metered
    exact (filed.behind written inside own before state).trans (reached state state)
  cases change with
  | written state ok => exact write_filed cap safe filed state ok
  | stopped | policy | popped | observed | seen | settled | failed =>
    exact ⟨kept,filed.silent,filed.proper,behind rfl,filed.ordered⟩

include safe in
private theorem moves_filed {child next : Child Context Options} (filed : Filed cap child) (moves : Moves cap child next) :
    Filed cap next := by
  induction moves with
  | refl => exact filed
  | tail _ change ih => exact change_filed cap safe ih change

private theorem framed_filed {child : Child Context Options} (filed : Filed cap child) (prepared : List (Ask Context Options))
    (frames : List Frame) : Filed cap { child with prepared := prepared, frames := frames } := by
  have honest := filed.honest
  exact ⟨⟨honest.metered,honest.policy,honest.meter,honest.unresolved⟩,filed.silent,filed.proper,filed.behind,filed.ordered⟩

include safe in
private theorem dispatch_filed {child next : Child Context Options} {call : Call Context Options} {ok : Bool}
    (filed : Filed cap child) (dispatch : Dispatch cap child call ok next) : Filed cap next := by
  cases dispatch with
  | @out policy prepared frames _ _ through _ =>
    have forward := policyAdmit_forward through
    have honest := filed.honest
    have kept : Honest cap (child.reserved policy) :=
      ⟨honest.metered,forward.kept honest.policy,honest.meter,honest.unresolved⟩
    have reserved : Filed cap (child.reserved policy) := by
      refine ⟨kept,filed.silent,filed.proper,?_,filed.ordered⟩
      intro written inside own metered state
      refine (filed.behind written inside own metered state).trans ?_
      have more := Nat.le_max_left child.floor (child.meter.calls + 1)
      exact @ledger_reached _ _ child (child.reserved policy) metered metered honest.meter honest.meter (.rfl _) forward.cost
        forward.listed more state state
    have out := write_filed cap safe reserved .running ok
    exact framed_filed cap out prepared frames

include safe in
theorem runs_filed {list lazy ok : Bool} {past : List (Act Context Options × Reply)} {child : Child Context Options}
    (run : Runs (step cap) (fun _ _ => True) (start cap list lazy ok) past child) : Filed cap child := by
  refine Runs.invariant (fun _ child => Filed cap child) ?_ ?_ run
  · refine write_filed cap safe ⟨⟨rfl,⟨by rw [Option.isSome_map],?_⟩,Meter.initial_whole,rfl⟩,
      fun _ none => absurd none List.not_mem_nil,fun _ none => absurd none List.not_mem_nil,fun _ none => absurd none List.not_mem_nil,.nil⟩ .running ok
    intro limit guard under held
    subst under
    cases held
    exact ⟨initial_sound limit,Int.natCast_nonneg _⟩
  · intro past child act filed _
    rcases @step_moves _ _ cap child act with ⟨moves,_⟩ | ⟨call,ok,stopOk,rfl,dispatch⟩
    · exact moves_filed cap safe filed moves
    · exact dispatch_filed cap safe filed dispatch

end Child

end PiDispatch.UsageMeter
