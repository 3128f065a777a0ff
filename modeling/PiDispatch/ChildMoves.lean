import PiDispatch.ChildMeter
import PiDispatch.CostGuardForward

/-! What one act can do to a child: some changes, each of one kind, or the dispatch of a call after its pre-dispatch
write. Every invariant of a child is shown for these and no longer for its acts. -/
namespace PiDispatch.UsageMeter
open Payload Relation

variable {Context Options : Type} (cap : Option (CostPolicy Context Options))

structure PolicyGuard.Kept (policy : PolicyGuard) : Prop where
  capped : policy.cost.isSome = cap.isSome
  cost : ∀ limit guard, cap = some limit → policy.cost = some guard → guard.Kept limit

structure PolicyGuard.Forward (policy next : PolicyGuard) : Prop where
  kept : policy.Kept cap → next.Kept cap
  cost : Option.Rel CostGuard.Grown policy.cost next.cost
  listed : policy.modelRefused.getD 0 ≤ next.modelRefused.getD 0

namespace Child

inductive Change (child : Child Context Options) : Child Context Options → Prop
  | stopped (reason : Stop) : Change child { child with meter := { child.meter with stopReason := some reason } }
  | policy {policy : PolicyGuard} (forward : child.policy.Forward cap policy) : Change child { child with policy := policy }
  | popped (frames : List Frame) : Change child { child with frames := frames }
  | observed (seen : Option Nat) (call : Outstanding) : Change child { child with
      meter := child.meter.observe seen
      outstanding := child.outstanding ++ [call] }
  | seen (id : Nat) : Change child { child with meter := { child.meter with observed := id :: child.meter.observed } }
  | settled {index : Nat} {call : Outstanding} (held : child.outstanding[index]? = some call) (settled : Meter.Settled) :
      Change child { child with
        outstanding := child.outstanding.eraseIdx index
        meter := child.meter.settle none call.ctx settled }
  | written (state : LedgerState) (ok : Bool) : Change child (child.write state ok)
  | failed : Change child { child with live := true, failed := true, metered := false }

abbrev Moves : Child Context Options → Child Context Options → Prop := ReflTransGen (Change cap)

/-- The child that an admitted call's pre-dispatch write is made for. -/
def reserved (child : Child Context Options) (policy : PolicyGuard) : Child Context Options :=
  { child with
    policy := policy
    floor := max child.floor (child.meter.calls + 1)
    live := true
    admitted := child.admitted + 1 }

/-- A call goes out: the brake is off, the policy let it through, and the pre-dispatch write did not fail. -/
inductive Dispatch (child : Child Context Options) (call : Call Context Options) (ok : Bool) : Child Context Options → Prop
  | out {policy : PolicyGuard} (prepared : List (Ask Context Options)) (frames : List Frame)
      (going : child.meter.stopReason = none) (free : child.isStopped call.stopFile = none)
      (through : policyAdmit cap child.policy call = (policy,none))
      (written : ((child.reserved policy).write .running ok).failed = false) :
      Dispatch child call ok { (child.reserved policy).write .running ok with prepared := prepared, frames := frames }

end Child

variable {cap}

private theorem rel_rfl (cost : Option CostGuard) : Option.Rel CostGuard.Grown cost cost := by
  cases cost with
  | none => exact .none
  | some guard => exact .some (.rfl guard)

theorem PolicyGuard.Forward.onCost (policy : PolicyGuard) {act : CostGuard → CostGuard} (grown : ∀ guard : CostGuard, guard.Grown (act guard))
    (kept : ∀ (limit : CostPolicy Context Options) guard, guard.Kept limit → (act guard).Kept limit) :
    policy.Forward cap { policy with cost := policy.cost.map act } where
  kept own := by
    refine ⟨by rw [Option.isSome_map,own.capped],?_⟩
    intro limit guard under held
    obtain ⟨before,same,rfl⟩ := Option.map_eq_some_iff.mp held
    exact kept limit before (own.cost limit before under same)
  cost := by
    cases policy.cost with
    | none => exact .none
    | some guard => exact .some (grown guard)
  listed := le_refl _

private theorem replaced {policy : PolicyGuard} {limit : CostPolicy Context Options} {guard next : CostGuard}
    (under : cap = some limit) (held : policy.cost = some guard) (grown : guard.Grown next)
    (kept : guard.Kept limit → next.Kept limit) : policy.Forward cap { policy with cost := some next } where
  kept own := by
    refine ⟨by rw [under]; rfl,?_⟩
    intro other guard' under' held'
    rw [under] at under'
    cases under'
    cases held'
    exact kept (own.cost limit guard under held)
  cost := by
    rw [held]
    exact .some grown
  listed := le_refl _

private theorem listed {policy : PolicyGuard} {refused : Nat} (held : policy.modelRefused = some refused) :
    policy.Forward cap { policy with modelRefused := some (refused + 1) } where
  kept own := ⟨own.capped,own.cost⟩
  cost := rel_rfl _
  listed := by
    rw [held]
    exact Nat.le_succ refused

namespace Child

private theorem costAdmit_forward {policy next : PolicyGuard} {call : Call Context Options} {verdict : Option Stop}
    (judged : policyAdmit.costAdmit cap call policy = (next,verdict)) : policy.Forward cap next := by
  unfold policyAdmit.costAdmit at judged
  split at judged
  next limit guard held =>
    cases judged
    exact replaced rfl held (admitCall_grown limit call.external rfl) fun kept => admitCall_kept limit call.external kept rfl
  next =>
    cases judged
    exact ⟨id,rel_rfl _,le_refl _⟩

theorem policyAdmit_forward {policy next : PolicyGuard} {call : Call Context Options} {verdict : Option Stop}
    (judged : policyAdmit cap policy call = (next,verdict)) : policy.Forward cap next := by
  unfold policyAdmit at judged
  split at judged
  next refused held =>
    split at judged
    · cases judged
      exact listed held
    · exact costAdmit_forward judged
  next => exact costAdmit_forward judged

/-- Under a cap, a call is let through on a bound that the guard's figures cover. -/
theorem policyAdmit_covers {limit : CostPolicy Context Options} {policy next : PolicyGuard} {call : Call Context Options}
    (kept : policy.Kept (some limit)) (through : policyAdmit (some limit) policy call = (next,none)) :
    ∃ guard bound, next.cost = some guard ∧ CostGuard.boundOf limit call.ask call.pinned = some bound ∧
      (bound : Int) ≤ guard.spent + guard.inflight := by
  have costs : policyAdmit.costAdmit (some limit) call policy = (next,none) := by
    unfold policyAdmit at through
    split at through
    · split at through
      · cases through
      · exact through
    · exact through
  obtain ⟨guard,held⟩ := Option.isSome_iff_exists.mp kept.capped
  unfold policyAdmit.costAdmit at costs
  rw [held] at costs
  cases judged : guard.admitCall limit call.external call.ask call.pinned with
  | mk after verdict =>
    dsimp only at costs
    rw [judged] at costs
    cases costs
    obtain ⟨bound,found,covers⟩ := admitCall_covers limit call.external (kept.cost limit guard rfl held).sound judged
    exact ⟨after,bound,rfl,found,covers⟩

end Child

namespace Child

/-- The ledger that a write of a child carries. -/
def ledger (child : Child Context Options) (state : LedgerState) : Ledger :=
  let ledger := childLedger state child.metered child.meter child.policy
  ledger.reserve (if child.metered = true then child.floor - ledger.totals.calls else 0)

theorem write_closed {child : Child Context Options} (closed : child.done = true ∨ child.live = false)
    (state : LedgerState) (ok : Bool) : child.write state ok = child := by
  unfold write
  rw [if_pos closed]

theorem write_open {child : Child Context Options} (fresh : child.done = false) (live : child.live = true)
    (state : LedgerState) (ok : Bool) : child.write state ok = if ok = true then
      { child with
        done := decide (state = LedgerState.done)
        files := ⟨child.ledger state,child.admitted,child.meter.calls⟩ :: child.files }
      else { child with done := decide (state = LedgerState.done), failed := true, metered := false } := by
  unfold write
  rw [if_neg (by simp [fresh,live])]
  dsimp only
  rw [fresh,Bool.false_or]
  rfl

theorem write_failed {child : Child Context Options} {state : LedgerState} {ok : Bool} (before : child.failed = false)
    (failed : (child.write state ok).failed = true) : child.done = false ∧
      child.write state ok = { child with done := decide (state = LedgerState.done), failed := true, metered := false } := by
  by_cases closed : child.done = true ∨ child.live = false
  · rw [write_closed closed,before] at failed
    cases failed
  · push Not at closed
    have fresh : child.done = false := by simpa using closed.1
    rw [write_open fresh (by simpa using closed.2)] at failed ⊢
    cases ok with
    | true =>
      rw [if_pos rfl] at failed
      exact absurd failed (by simp [before])
    | false => exact ⟨fresh,if_neg Bool.false_ne_true⟩

private theorem stop_moves (child : Child Context Options) (reason : Stop) (ok : Bool) :
    Moves cap child (child.stop reason ok) := by
  unfold stop
  split
  · exact .refl
  · exact .tail (.single (.stopped reason)) (.written _ ok)

private theorem judge_moves (child : Child Context Options) (call : Call Context Options) (ok stopOk : Bool) :
    (Moves cap child (child.judge cap call ok stopOk).1 ∧ (child.judge cap call ok stopOk).2 = .braked) ∨
      (Dispatch cap child call ok (child.judge cap call ok stopOk).1 ∧ (child.judge cap call ok stopOk).2 = .dispatched) := by
  unfold judge
  split
  · exact .inl ⟨.refl,rfl⟩
  next going =>
    split
    next => exact .inl ⟨stop_moves child _ stopOk,rfl⟩
    next free =>
      have alive : child.failed = false := by
        by_contra failed
        unfold isStopped at free
        rw [if_pos (by simpa using failed)] at free
        cases free
      unfold guardAdmit
      cases judged : policyAdmit cap child.policy call with
      | mk policy verdict =>
        have forward := policyAdmit_forward judged
        cases verdict with
        | some reason => exact .inl ⟨.trans (.single (.policy forward)) (stop_moves _ _ stopOk),rfl⟩
        | none =>
          dsimp only
          cases failed : ((child.reserved policy).write .running ok).failed with
          | false =>
            unfold reserved at failed
            rw [if_pos failed]
            refine .inr ⟨?_,rfl⟩
            exact Dispatch.out _ _ (by simpa using going) free judged failed
          | true =>
            obtain ⟨fresh,written⟩ := write_failed (by exact alive) failed
            unfold reserved at failed written
            rw [if_neg (by rw [failed]; decide),written]
            refine .inl ⟨.trans (.tail (.single (.policy forward)) .failed) ?_,rfl⟩
            have same : decide (LedgerState.running = LedgerState.done) = child.done := by
              rw [show child.done = false from fresh]
              rfl
            dsimp only
            rw [same,Nat.add_sub_cancel]
            exact stop_moves _ _ stopOk

private theorem countObserved_moves (child : Child Context Options) (frame : Frame) (seen : Option Nat) (pending ok : Bool) :
    Moves cap child (child.countObserved frame seen pending ok) :=
  .tail (.single (.observed seen _)) (.written _ ok)

private theorem observed_moves (child : Child Context Options) (frame : Frame) (given : Given) (ok : Bool) :
    Moves cap child (child.observed frame given ok) := by
  unfold observed
  split
  · exact .refl
  · split
    · split
      · exact countObserved_moves child frame _ _ ok
      · exact .refl
    · split
      · split
        · exact .refl
        · exact countObserved_moves child frame _ _ ok
      · split
        · exact .refl
        · exact countObserved_moves child frame _ _ ok
      · exact .refl

private theorem refusePayload_moves {child : Child Context Options} {policy : PolicyGuard}
    (forward : child.policy.Forward cap policy) (reason : Stop) (ok : Bool) :
    Moves cap child (child.refusePayload policy reason ok) :=
  .trans (.single (.policy forward)) (stop_moves _ reason ok)

private theorem payloadHook_moves (child : Child Context Options) (place : Nat) (payload next : Value) (listed' : Bool)
    (external : Option (Option Rat)) (ok : Bool) :
    Moves cap child (child.payloadHook cap place payload next listed' external ok) := by
  unfold payloadHook
  split
  next refused held => exact refusePayload_moves (listed held) _ ok
  next =>
    split
    next limit guard ask held _ =>
      cases judged : guard.onPayload limit external place ask payload next with
      | mk after sent =>
        have forward : child.policy.Forward (some limit) { child.policy with cost := some after } :=
          replaced rfl held (onPayload_grown limit external judged) fun kept => onPayload_kept limit external kept judged
        cases sent with
        | some sent => exact .single (.policy forward)
        | none => exact refusePayload_moves forward _ ok
    next => exact .refl

private theorem bind_forward (child : Child Context Options) (answer : CostGuard.Answer) :
    child.policy.Forward cap { child.policy with cost := child.policy.cost.map fun guard => (guard.bind answer).1 } := by
  refine .onCost child.policy (fun guard => (bind_grown guard answer).1) fun limit guard kept => ?_
  exact ⟨bind_sound limit kept.sound answer,le_trans (bind_grown guard answer).2 kept.inflight⟩

private theorem answered_forward (child : Child Context Options) (place : Nat) (answer : CostGuard.Answer)
    (settlement : CostGuard.Settlement) :
    child.policy.Forward cap { child.policy with cost := child.policy.cost.map fun guard => guard.answered place answer settlement } := by
  refine .onCost child.policy (fun guard => (answered_grown guard place answer settlement).1) fun limit guard kept => ?_
  exact ⟨answered_sound limit kept.sound place answer settlement,
    le_trans (answered_grown guard place answer settlement).2 kept.inflight⟩

private theorem unjudged_forward (child : Child Context Options) (count : Nat) : child.policy.Forward cap
    { child.policy with cost := child.policy.cost.map fun guard => { guard with unjudged := guard.unjudged + count } } := by
  refine .onCost child.policy (fun guard => ?_) fun limit guard kept => ⟨unjudged_sound limit kept.sound count,kept.inflight⟩
  exact ⟨le_refl _,le_refl _,le_refl _,le_refl _,le_refl _,Nat.le_add_right _ _⟩

/-- An act dispatches its call, or it dispatches nothing and makes some changes. -/
theorem step_moves (child : Child Context Options) (act : Act Context Options) :
    (Moves cap child (child.step cap act).2 ∧ (child.step cap act).1 ≠ .dispatched) ∨
      ∃ call ok stopOk, act = .call call ok stopOk ∧ Dispatch cap child call ok (child.step cap act).2 := by
  unfold step
  cases act with
  | call call ok stopOk =>
    rcases judge_moves child call ok stopOk with ⟨moves,braked⟩ | ⟨dispatch,_⟩
    · refine .inl ⟨moves,?_⟩
      dsimp only
      rw [braked]
      decide
    · exact .inr ⟨call,ok,stopOk,rfl,dispatch⟩
  | returns given ok =>
    refine .inl ?_
    dsimp only
    split
    next => exact ⟨.refl,nofun⟩
    next frame frames shape =>
      refine ⟨?_,nofun⟩
      have bound := @bind_forward _ _ cap child given.answer
      exact .trans (.tail (.single (.popped frames)) (.policy bound)) (observed_moves _ frame given ok)
  | payload place payload next listed' external ok =>
    exact .inl ⟨payloadHook_moves child place payload next listed' external ok,nofun⟩
  | charged place answer settlement => exact .inl ⟨.single (.policy (answered_forward child place answer settlement)),nofun⟩
  | resolves index id =>
    refine .inl ⟨?_,nofun⟩
    dsimp only
    split
    · exact .single (.seen id)
    · exact .refl
  | settles index settled ok =>
    refine .inl ?_
    dsimp only
    split
    next => exact ⟨.refl,nofun⟩
    next call held => exact ⟨.tail (.single (.settled held settled)) (.written _ ok),nofun⟩
  | unjudged count => exact .inl ⟨.single (.policy (unjudged_forward child count)),nofun⟩
  | exits ok => exact .inl ⟨.single (.written _ ok),nofun⟩

end Child

end PiDispatch.UsageMeter
