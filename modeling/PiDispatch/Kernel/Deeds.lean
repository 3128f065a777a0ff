import PiDispatch.Kernel.Joint
import Mathlib.Algebra.BigOperators.Group.List.Basic
import Mathlib.Algebra.Order.BigOperators.Group.List
import Mathlib.Tactic.Linarith
import Mathlib.Tactic.Ring

/-! Counters that many agents add to, and what each of them has added. An agent's deeds are the additions of its commands
that took effect, the ones whose answer was lost among them; it takes no more from a counter than it has there. -/
namespace PiDispatch.Kernel

/-- An agent's additions, first to last. -/
abbrev Deeds (K : Type) := List (K × Int)

namespace Deeds
variable {K : Type} [DecidableEq K]

/-- What the deeds come to at a key. -/
def at' (deeds : Deeds K) (key : K) : Int := (deeds.map fun deed => if deed.1 = key then deed.2 else 0).sum

@[simp] theorem at_nil (key : K) : at' ([] : Deeds K) key = 0 := rfl

theorem at_append (first second : Deeds K) (key : K) : at' (first ++ second) key = at' first key + at' second key := by
  simp [at']

theorem at_snoc (deeds : Deeds K) (own key : K) (delta : Int) :
    at' (deeds ++ [(own,delta)]) key = at' deeds key + if own = key then delta else 0 := by
  simp [at']

/-- The same amount at each of some keys. -/
theorem at_each (keys : List K) (delta : Int) (key : K) :
    at' (keys.map fun own => (own,delta)) key = delta * keys.count key := by
  induction keys with
  | nil => simp [at']
  | cons own keys ih =>
    have split : at' ((own :: keys).map fun own => (own,delta)) key =
        (if own = key then delta else 0) + at' (keys.map fun own => (own,delta)) key := by simp [at']
    rw [split,ih,List.count_cons]
    by_cases same : own = key
    · simp only [same,if_true,beq_self_eq_true]
      push_cast
      ring
    · simp [same]

end Deeds

/-- A service of counters. `adds command key delta least`: the command adds `delta` at the key, for a caller with `least`
there; `may` says of an answer whether the addition can have taken effect. -/
structure Counting (σ : Signature) (S K : Type) [DecidableEq K] where
  serves : S → (command : σ.Command) → σ.Answer command → S → Prop
  sound : S → Prop
  counter : S → K → Int
  idle : σ.Command → Prop
  adds : σ.Command → K → Int → Int → Prop
  may : (command : σ.Command) → σ.Answer command → Bool → Prop
  covered : ∀ command key delta least, adds command key delta least → 0 ≤ least ∧ 0 ≤ least + delta
  serves_idle : ∀ store command answer store', idle command → sound store → serves store command answer store' →
    sound store' ∧ ∀ key, counter store' key = counter store key
  serves_adds : ∀ store command answer store' key delta least, adds command key delta least → sound store →
    least ≤ counter store key → serves store command answer store' →
    sound store' ∧ ∃ took, may command answer took ∧
      ∀ other, counter store' other = counter store other + if took ∧ key = other then delta else 0

namespace Counting
variable {σ : Signature} {S K α β : Type} [DecidableEq K] (counting : Counting σ S K)

/-- The deeds after a command that may have taken effect. -/
def grown (deeds : Deeds K) (key : K) (delta : Int) (took : Bool) : Deeds K := if took then deeds ++ [(key,delta)] else deeds

/-- A program that never takes more than its own, with what holds of its deeds when it returns. -/
inductive Owns (post : α → Deeds K → Prop) : Program σ α → Deeds K → Prop
  | done (value : α) (deeds : Deeds K) (holds : post value deeds) : Owns post (.done value) deeds
  | idle (command : σ.Command) (resume : σ.Answer command → Program σ α) (deeds : Deeds K)
      (idle : counting.idle command) (rest : ∀ answer, Owns post (resume answer) deeds) : Owns post (.issue command resume) deeds
  | adds (command : σ.Command) (resume : σ.Answer command → Program σ α) (deeds : Deeds K) (key : K) (delta least : Int)
      (adds : counting.adds command key delta least) (enough : least ≤ deeds.at' key)
      (rest : ∀ answer took, counting.may command answer took → Owns post (resume answer) (grown deeds key delta took)) :
      Owns post (.issue command resume) deeds

variable {counting}

theorem Owns.weaken {post other : α → Deeds K → Prop} {program : Program σ α} {deeds : Deeds K}
    (owns : Owns counting post program deeds) (implies : ∀ value deeds, post value deeds → other value deeds) :
    Owns counting other program deeds := by
  induction owns with
  | done value deeds holds => exact .done value deeds (implies value deeds holds)
  | idle command resume deeds idle rest ih => exact .idle command resume deeds idle ih
  | adds command resume deeds key delta least adds enough rest ih =>
    exact .adds command resume deeds key delta least adds enough ih

theorem Owns.bind {mid : α → Deeds K → Prop} {post : β → Deeds K → Prop} {program : Program σ α} {deeds : Deeds K}
    (owns : Owns counting mid program deeds) (next : α → Program σ β)
    (onward : ∀ value deeds, mid value deeds → Owns counting post (next value) deeds) :
    Owns counting post (program.bind next) deeds := by
  induction owns with
  | done value deeds holds => exact onward value deeds holds
  | idle command resume deeds idle rest ih => exact .idle command _ deeds idle ih
  | adds command resume deeds key delta least adds enough rest ih =>
    exact .adds command _ deeds key delta least adds enough ih

/-- A program within a larger signature, and what follows it there. -/
theorem Owns.within_bind {τ : Signature} {L : Type} {counting : Counting (σ.beside τ L) S K} {mark : Nat → L}
    {mid : α → Deeds K → Prop} {post : β → Deeds K → Prop} {program : Program σ α} {next : α → Program σ β} {index : Nat}
    {deeds : Deeds K} (owns : Owns counting mid (program.within τ mark index) deeds)
    (onward : ∀ value deeds index, mid value deeds → Owns counting post ((next value).within τ mark index) deeds) :
    Owns counting post ((program.bind next).within τ mark index) deeds := by
  induction program generalizing index deeds with
  | done value =>
    cases owns with
    | done _ _ holds => exact onward value deeds index holds
  | issue command resume ih =>
    cases owns with
    | idle _ _ _ idle rest => exact .idle _ _ deeds idle fun answer => ih answer (rest answer)
    | adds _ _ _ key delta least adds enough rest =>
      exact .adds _ _ deeds key delta least adds enough fun answer took may => ih answer (rest answer took may)

theorem owns_done {post : α → Deeds K → Prop} {value : α} {deeds : Deeds K}
    (owns : Owns counting post (.done value) deeds) : post value deeds := by
  cases owns with
  | done _ _ holds => exact holds

section Worlds

variable (counting)

/-- Agents that run one program each. -/
def callers (enters : Program σ α → Prop) : Agency σ S (Program σ α) where
  serves := counting.serves
  pending := Program.pending
  enters := enters
  moves _ _ := False

/-- An agent with its deeds. -/
structure Account (σ : Signature) (K α : Type) where
  program : Program σ α
  deeds : Deeds K

/-- Every counter is the sum of what each agent has there. -/
structure Balanced (post : α → Deeds K → Prop) (store : S) (accounts : List (Account σ K α)) : Prop where
  sound : counting.sound store
  exact : ∀ key, counting.counter store key = (accounts.map fun account => account.deeds.at' key).sum
  owns : ∀ account ∈ accounts, Owns counting post account.program account.deeds
  least : ∀ account ∈ accounts, ∀ key, 0 ≤ account.deeds.at' key

variable {counting} {post : α → Deeds K → Prop} {store store' : S} {before after : List (Account σ K α)}
  {account : Account σ K α}

private theorem balanced_replaced (balanced : Balanced counting post store (before ++ account :: after))
    (sound : counting.sound store') (other : Account σ K α)
    (changed : ∀ key, counting.counter store' key = counting.counter store key + (other.deeds.at' key - account.deeds.at' key))
    (owns : Owns counting post other.program other.deeds) (least : ∀ key, 0 ≤ other.deeds.at' key) :
    Balanced counting post store' (before ++ other :: after) := by
  have inside : ∀ found ∈ before ++ other :: after, found = other ∨ found ∈ before ++ account :: after := by
    intro found member
    rcases List.mem_append.mp member with early | late
    · exact .inr (List.mem_append_left _ early)
    · rcases List.mem_cons.mp late with same | late
      · exact .inl same
      · exact .inr (List.mem_append_right _ (List.mem_cons_of_mem _ late))
  refine ⟨sound,?_,?_,?_⟩
  · intro key
    have total := balanced.exact key
    simp only [List.map_append,List.map_cons,List.sum_append,List.sum_cons] at total ⊢
    rw [changed key,total]
    ring
  · intro found member
    rcases inside found member with rfl | old
    · exact owns
    · exact balanced.owns found old
  · intro found member key
    rcases inside found member with rfl | old
    · exact least key
    · exact balanced.least found old key

/-- What an agent has at a key is in its counter. -/
theorem own_in_counter {accounts : List (Account σ K α)} (balanced : Balanced counting post store accounts)
    {account : Account σ K α} (member : account ∈ accounts) (key : K) :
    account.deeds.at' key ≤ counting.counter store key := by
  rw [balanced.exact key]
  refine List.single_le_sum ?_ _ (List.mem_map_of_mem member)
  intro amount found
  obtain ⟨other,inside,rfl⟩ := List.mem_map.mp found
  exact balanced.least other inside key

private theorem balanced_answered (balanced : Balanced counting post store (before ++ account :: after))
    {command : σ.Command} {resume : σ.Answer command → Program σ α} (waiting : account.program = .issue command resume)
    {answer : σ.Answer command} (served : counting.serves store command answer store') :
    ∃ other : Account σ K α, other.program = resume answer ∧ Balanced counting post store' (before ++ other :: after) := by
  have member : account ∈ before ++ account :: after := by simp
  have own := balanced.owns account member
  rw [waiting] at own
  cases own with
  | idle _ _ _ idle rest =>
    obtain ⟨sound,same⟩ := counting.serves_idle store command answer store' idle balanced.sound served
    refine ⟨⟨resume answer,account.deeds⟩,rfl,balanced_replaced balanced sound _ ?_ (rest answer) (balanced.least account member)⟩
    intro key
    rw [same key]
    ring
  | adds _ _ _ key delta least adds enough rest =>
    have covered := counting.covered command key delta least adds
    have there := le_trans enough (own_in_counter balanced member key)
    obtain ⟨sound,took,may,changed⟩ :=
      counting.serves_adds store command answer store' key delta least adds balanced.sound there served
    have shape : ∀ other, (grown account.deeds key delta took).at' other =
        account.deeds.at' other + if took ∧ key = other then delta else 0 := by
      intro other
      cases took with
      | true => simpa [grown] using Deeds.at_snoc account.deeds key other delta
      | false => simp [grown]
    refine ⟨⟨resume answer,grown account.deeds key delta took⟩,rfl,balanced_replaced balanced sound _ ?_ (rest answer took may) ?_⟩
    · intro other
      rw [changed other,shape other]
      ring
    · intro other
      have least := balanced.least account member other
      rw [shape other]
      by_cases own : took ∧ key = other
      · rw [if_pos own]
        obtain ⟨_,rfl⟩ := own
        linarith
      · rw [if_neg own]
        linarith

/-- In every interleaving each counter is the sum of what the agents have there, and every agent owns what it takes. -/
theorem accounts_balanced {enters : Program σ α → Prop} {start : S} (sound : counting.sound start)
    (empty : ∀ key, counting.counter start key = 0) (own : ∀ program, enters program → Owns counting post program [])
    {world : World S (Program σ α)} (reached : Reachable (callers counting enters) start world) :
    ∃ accounts : List (Account σ K α), world.agents = accounts.map Account.program ∧
      Balanced counting post world.store accounts := by
  refine reachable_points (callers counting enters) Account.program (Balanced counting post) start ?_ ?_ ?_ ?_ world reached
  · exact ⟨sound,empty,fun _ none => absurd none List.not_mem_nil,fun _ none => absurd none List.not_mem_nil⟩
  · intro store accounts program balanced allowed
    refine ⟨⟨program,[]⟩,rfl,balanced.sound,?_,?_,?_⟩
    · intro key
      simpa using balanced.exact key
    · intro account member
      rcases List.mem_append.mp member with old | new
      · exact balanced.owns account old
      · rw [List.mem_singleton.mp new]
        exact own program allowed
    · intro account member key
      rcases List.mem_append.mp member with old | new
      · exact balanced.least account old key
      · rw [List.mem_singleton.mp new]
        exact le_rfl
  · exact fun _ _ _ _ _ _ moved => moved.elim
  · intro store store' before account after command resume answer balanced waiting served
    have shape : account.program = .issue command resume := by
      cases found : account.program with
      | done value =>
        rw [show (callers counting enters).pending account.program = none by rw [found]; rfl] at waiting
        cases waiting
      | issue other next =>
        have pending : (callers counting enters).pending account.program = some ⟨other,next⟩ := by rw [found]; rfl
        rw [pending] at waiting
        cases Option.some.inj waiting
        rfl
    exact balanced_answered balanced shape served

end Worlds

end Counting

end PiDispatch.Kernel
