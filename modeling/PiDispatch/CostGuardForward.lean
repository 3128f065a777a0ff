import PiDispatch.CostGuardRuns

/-! The cost guard goes forward: whatever it is asked, nothing that it has counted goes back, its counters keep agreeing
with its tickets, and what is in flight stays under the cap. -/
namespace PiDispatch.UsageMeter
open Payload CostGuard

structure CostGuard.Grown (guard next : CostGuard) : Prop where
  spent : guard.spent ≤ next.spent
  refused : guard.refused ≤ next.refused
  boundExceeded : guard.boundExceeded ≤ next.boundExceeded
  unanswered : guard.unanswered ≤ next.unanswered
  longContext : guard.longContext ≤ next.longContext
  unjudged : guard.unjudged ≤ next.unjudged

variable {Context Options : Type} (policy : CostPolicy Context Options) (external : Option (Option Rat))

structure CostGuard.Kept (guard : CostGuard) : Prop where
  sound : guard.Sound policy
  inflight : guard.inflight ≤ policy.capMicros

theorem CostGuard.Grown.rfl (guard : CostGuard) : guard.Grown guard :=
  ⟨le_refl _,le_refl _,le_refl _,le_refl _,le_refl _,le_refl _⟩

theorem CostGuard.Grown.trans {guard next last : CostGuard} (first : guard.Grown next) (second : next.Grown last) :
    guard.Grown last :=
  ⟨le_trans first.spent second.spent,le_trans first.refused second.refused,
    le_trans first.boundExceeded second.boundExceeded,le_trans first.unanswered second.unanswered,
    le_trans first.longContext second.longContext,le_trans first.unjudged second.unjudged⟩

variable {policy}

theorem CostGuard.Sound.spent_nonneg {guard : CostGuard} (sound : guard.Sound policy) : 0 ≤ guard.spent := by
  rw [sound.spent]
  apply List.sum_nonneg
  intro charged member
  obtain ⟨charge,_,rfl⟩ := List.mem_map.mp member
  omega

theorem CostGuard.Sound.inflight_nonneg {guard : CostGuard} (sound : guard.Sound policy) : 0 ≤ guard.inflight := by
  rw [sound.inflight]
  unfold unsettled
  apply List.sum_nonneg
  intro bound member
  obtain ⟨ticket,_,rfl⟩ := List.mem_map.mp member
  omega

variable (policy)

private theorem settle_grown (guard : CostGuard) (place : Nat) (message : Option Message) :
    guard.Grown (guard.settle place message) ∧ (guard.settle place message).inflight ≤ guard.inflight := by
  have onward := (settle_onward guard place message).spent
  unfold settle at onward ⊢
  split
  next => exact ⟨.rfl guard,le_refl _⟩
  next ticket held =>
    split
    next => exact ⟨.rfl guard,le_refl _⟩
    next open' =>
      dsimp only
      split
      next unknown =>
        refine ⟨⟨?_,le_refl _,le_refl _,le_refl _,le_refl _,le_refl _⟩,by dsimp only; omega⟩
        dsimp only
        omega
      next known =>
        refine ⟨⟨?_,le_refl _,Nat.le_add_right _ _,Nat.le_add_right _ _,Nat.le_add_right _ _,le_refl _⟩,by dsimp only; omega⟩
        dsimp only
        omega

private theorem flushPending_grown (guard : CostGuard) :
    guard.Grown guard.flushPending ∧ guard.flushPending.inflight ≤ guard.inflight := by
  unfold flushPending
  split
  · exact ⟨.rfl guard,le_refl _⟩
  next place held =>
    obtain ⟨grown,less⟩ := settle_grown { guard with pending := none } place none
    exact ⟨⟨grown.spent,grown.refused,grown.boundExceeded,grown.unanswered,grown.longContext,grown.unjudged⟩,less⟩

private theorem refuse_grown (guard : CostGuard) (why : String) : guard.Grown (guard.refuse why) :=
  ⟨le_refl _,Nat.le_succ _,le_refl _,le_refl _,le_refl _,le_refl _⟩

theorem admitCall_grown {guard next : CostGuard} {ask : Ask Context Options} {pinned : Option (Option Pinned)}
    {verdict : Option Stop} (judged : admitCall policy guard external ask pinned = (next,verdict)) :
    guard.Grown next := by
  have flushed := (flushPending_grown guard).1
  unfold admitCall at judged
  dsimp only at judged
  split at judged
  · cases judged
    exact flushed.trans (refuse_grown _ _)
  · split at judged
    · cases judged
      exact flushed.trans (refuse_grown _ _)
    · split at judged
      · cases judged
        exact flushed.trans (refuse_grown _ _)
      · cases judged
        exact flushed.trans ⟨le_refl _,le_refl _,le_refl _,le_refl _,le_refl _,le_refl _⟩

private theorem capped {sum : Int} {outside : Rat} (known : externalMicros external = some outside)
    (fits : (sum : Rat) + outside ≤ policy.capMicros) : sum ≤ policy.capMicros := by
  have positive := externalMicros_nonneg known
  have below : (sum : Rat) ≤ ((policy.capMicros : Int) : Rat) := by
    push_cast
    linarith
  exact_mod_cast below

theorem admitCall_kept {guard next : CostGuard} (kept : guard.Kept policy) {ask : Ask Context Options}
    {pinned : Option (Option Pinned)} {verdict : Option Stop}
    (judged : admitCall policy guard external ask pinned = (next,verdict)) : next.Kept policy := by
  refine ⟨admitCall_sound policy external kept.sound judged,?_⟩
  have before := kept.inflight
  have less := (flushPending_grown guard).2
  cases verdict with
  | some reason =>
    rw [(admitCall_refused policy external judged).2.1]
    omega
  | none =>
    obtain ⟨bound,outside,_,known,rfl,fits⟩ := admitCall_through policy external judged
    have within := capped policy external known fits
    have spent := (flushPending_sound policy kept.sound).spent_nonneg
    unfold hold
    dsimp only
    omega

/-- What a call is let through on is covered by what is spent and in flight from then on. -/
theorem admitCall_covers {guard next : CostGuard} (sound : guard.Sound policy) {ask : Ask Context Options}
    {pinned : Option (Option Pinned)} (through : admitCall policy guard external ask pinned = (next,none)) :
    ∃ bound : Nat, boundOf policy ask pinned = some bound ∧ (bound : Int) ≤ next.spent + next.inflight := by
  obtain ⟨bound,_,found,_,rfl,_⟩ := admitCall_through policy external through
  have flushed := flushPending_sound policy sound
  have spent := flushed.spent_nonneg
  have inflight := flushed.inflight_nonneg
  refine ⟨bound,found,?_⟩
  unfold hold
  dsimp only
  omega

theorem bind_grown (guard : CostGuard) (answer : Answer) :
    guard.Grown (guard.bind answer).1 ∧ (guard.bind answer).1.inflight ≤ guard.inflight := by
  unfold CostGuard.bind
  split
  next => exact ⟨.rfl guard,le_refl _⟩
  next place held =>
    dsimp only
    split
    · exact ⟨⟨le_refl _,le_refl _,le_refl _,le_refl _,le_refl _,le_refl _⟩,le_refl _⟩
    · exact ⟨⟨le_refl _,le_refl _,le_refl _,le_refl _,le_refl _,le_refl _⟩,le_refl _⟩
    · dsimp only
      obtain ⟨grown,less⟩ := settle_grown { guard with
        pending := none
        unanswered := guard.unanswered + if 0 < ((guard.tickets[place]?).map Ticket.bound).getD 0 then 1 else 0 } place none
      have unanswered := grown.unanswered
      dsimp only at unanswered
      exact ⟨⟨grown.spent,grown.refused,grown.boundExceeded,by omega,grown.longContext,grown.unjudged⟩,less⟩

theorem answered_grown (guard : CostGuard) (place : Nat) (answer : Answer) (settlement : Settlement) :
    guard.Grown (guard.answered place answer settlement) ∧
      (guard.answered place answer settlement).inflight ≤ guard.inflight := by
  unfold CostGuard.answered
  split
  · exact ⟨.rfl guard,le_refl _⟩
  · exact settle_grown _ _ _
  · split
    · exact settle_grown _ _ _
    · split
      · exact ⟨.rfl guard,le_refl _⟩
      · exact settle_grown _ _ _
  · exact settle_grown _ _ _

theorem onPayload_grown {guard next : CostGuard} {place : Nat} {ask : Ask Context Options} {payload given : Value}
    {sent : Option Value} (judged : guard.onPayload policy external place ask payload given = (next,sent)) :
    guard.Grown next := by
  cases sent with
  | some sent =>
    obtain ⟨_,_,_,_,_,_,_,rfl,_⟩ := onPayload_sent policy external judged
    exact ⟨le_refl _,le_refl _,le_refl _,le_refl _,le_refl _,le_refl _⟩
  | none =>
    rcases onPayload_refused policy external judged with rfl | rfl
    · exact .rfl _
    · exact refuse_grown _ _

theorem onPayload_kept {guard next : CostGuard} (kept : guard.Kept policy) {place : Nat} {ask : Ask Context Options}
    {payload given : Value} {sent : Option Value}
    (judged : guard.onPayload policy external place ask payload given = (next,sent)) : next.Kept policy := by
  have sound := onPayload_sound policy external kept.sound judged
  refine ⟨sound,?_⟩
  cases sent with
  | some sent =>
    obtain ⟨_,_,outside,_,_,_,known,_,fits⟩ := onPayload_sent policy external judged
    have within := capped policy external known fits
    have spent := sound.spent_nonneg
    omega
  | none =>
    rcases onPayload_refused policy external judged with rfl | rfl
    · exact kept.inflight
    · exact kept.inflight

end PiDispatch.UsageMeter
