import PiDispatch.DollarBudget

/-! Any number of callers reserve and settle over shared windows, one Valkey command at a time. A window's
counter is always the sum of what each caller has added to it so far, and what has passed a cap test never
adds up to more than the cap. -/
namespace PiDispatch.DollarBudget
open Kernel Command

/-- One reservation's life: the `reserveDollars` call, then at most one settlement of the hold it returned.
`answered` counts the keys whose settlement has been answered. -/
inductive Caller
  | reserving (call : Call (Except Thrown Reservation))
  | settling (hold : Hold) (settled : Int) (answered : Nat) (call : Call Settlement)

namespace Caller

def pending : Caller → Option ((command : Valkey.Command) × (Valkey.Answer command → Caller))
  | reserving call => call.pending.map fun waiting => ⟨waiting.1,fun answer => reserving (waiting.2 answer)⟩
  | settling hold settled answered call =>
    call.pending.map fun waiting => ⟨waiting.1,fun answer => settling hold settled (answered + 1) (waiting.2 answer)⟩

def returned : Caller → Bool
  | reserving (.done _) | settling _ _ _ (.done _) => true
  | _ => false

/-- What the caller's hold stands for at a key, once per place the key has in the hold: the reservation
until the key is settled, the settled amount from then on. Nothing without an admitted hold. -/
def standing : Caller → String → Int
  | reserving (.done (.ok (.admitted hold))), key => hold.amountMicros * hold.keys.count key
  | reserving _, _ => 0
  | settling hold settled _ (.done _), key => settled * hold.keys.count key
  | settling hold settled answered _, key =>
    settled * (hold.keys.take answered).count key + hold.amountMicros * (hold.keys.drop answered).count key

end Caller

/-- Callers with one cap for each key; a hold is settled once, at most at its reservation. -/
inductive Enters (cap : String → Nat) : Caller → Prop
  | reserve (ledgers : List Ledger) (amountMicros : Int) (now : Instant)
      (agreed : ∀ window ∈ activeWindows ledgers now, window.cap = cap window.key) :
      Enters cap (.reserving (reserveDollars ledgers amountMicros now))

inductive Moves : Caller → Caller → Prop
  | settle (hold : Hold) (settled : Int) (least : 0 ≤ settled) (most : settled ≤ hold.amountMicros) :
      Moves (.reserving (.done (.ok (.admitted hold)))) (.settling hold settled 0 (settleDollars hold settled))
  | release (hold : Hold) :
      Moves (.reserving (.done (.ok (.admitted hold)))) (.settling hold 0 0 (releaseDollars hold))

def callers (cap : String → Nat) : Agency Valkey Store Caller where
  serves := served
  pending := Caller.pending
  enters := Enters cap
  moves := Moves

def counter (store : Store) (key : String) : Int :=
  match store key with
  | some (.integer number) => number
  | _ => 0

/-- How far a caller has come, with what it has added and what it still has to visit. -/
inductive Point
  | walking (amount : Int) (touched rest : List LedgerWindow)
  | expiring (amount : Int) (touched : List LedgerWindow) (window : LedgerWindow) (rest : List LedgerWindow)
      (total : Int)
  | returning (amount : Int) (left : List LedgerWindow) (failed : Nat)
      (outcome : Nat → Except Thrown Reservation)
  | outside (outcome : Except Thrown Reservation)
  | settling (hold : Hold) (settled : Int) (answered : Nat)
  | kept (hold : Hold) (settled : Int)

namespace Point

def judged (amount : Int) (touched : List LedgerWindow) (window : LedgerWindow) (rest : List LedgerWindow)
    (total : Int) : Call Walk :=
  if total > window.cap then .done (.refused (overCap window total) (touched ++ [window]))
  else walk amount (touched ++ [window]) rest

def view : Point → Caller
  | walking amount touched rest => .reserving ((walk amount touched rest).bind (finish amount))
  | expiring amount touched window rest total =>
    .reserving (call (expire window.key window.ttl) fun
      | .error fault => finish amount (.fault fault (touched ++ [window]))
      | .ok _ => (judged amount touched window rest total).bind (finish amount))
  | returning amount left failed outcome =>
    .reserving ((giveBack amount left failed).bind fun stranded => .done (outcome stranded))
  | outside outcome => .reserving (.done outcome)
  | settling hold settled answered =>
    .settling hold settled answered
      (settleKeys (settled - hold.amountMicros) hold.keys.length (hold.keys.drop answered) answered)
  | kept hold settled => .settling hold settled 0 (.done ⟨hold.keys.length,hold.keys.length⟩)

/-- What the caller has added to a key's counter. -/
def present : Point → String → Int
  | walking amount touched _, key => amount * (touched.map LedgerWindow.key).count key
  | expiring amount touched window _ _, key => amount * ((touched ++ [window]).map LedgerWindow.key).count key
  | returning amount left _ _, key => amount * (left.map LedgerWindow.key).count key
  | outside _, _ => 0
  | settling hold settled answered, key =>
    settled * (hold.keys.take answered).count key + hold.amountMicros * (hold.keys.drop answered).count key
  | kept hold settled, key => settled * hold.keys.count key

/-- The part of it that has passed its cap test. -/
def passed : Point → String → Int
  | expiring amount touched window _ total, key =>
    if total > window.cap then amount * (touched.map LedgerWindow.key).count key
    else amount * ((touched ++ [window]).map LedgerWindow.key).count key
  | returning _ _ _ _, _ => 0
  | point, key => point.present key

/-- The keys the caller counts on being there. -/
def touches : Point → List String
  | walking _ touched _ => touched.map LedgerWindow.key
  | expiring _ touched window _ _ => (touched ++ [window]).map LedgerWindow.key
  | returning _ left _ _ => left.map LedgerWindow.key
  | outside _ => []
  | settling hold _ _ => hold.keys
  | kept hold _ => hold.keys

def Agreed (cap : String → Nat) (windows : List LedgerWindow) : Prop :=
  ∀ window ∈ windows, window.cap = cap window.key

def Formed (cap : String → Nat) : Point → Prop
  | walking amount _ rest => 0 < amount ∧ isMicros amount ∧ Agreed cap rest
  | expiring amount _ window rest _ => 0 < amount ∧ isMicros amount ∧ Agreed cap (window :: rest)
  | returning amount _ _ outcome => 0 < amount ∧ ∀ failed hold, outcome failed ≠ .ok (.admitted hold)
  | outside outcome => ∀ hold, outcome = .ok (.admitted hold) → hold = ⟨0,[],none⟩
  | settling hold settled _ => 0 ≤ settled ∧ settled ≤ hold.amountMicros
  | kept hold settled => 0 ≤ settled ∧ settled = hold.amountMicros

variable {cap : String → Nat}

theorem passed_nonneg {point : Point} (formed : point.Formed cap) (key : String) : 0 ≤ point.passed key := by
  cases point with
  | walking amount touched rest => exact mul_nonneg formed.1.le (by positivity)
  | expiring amount touched window rest total =>
    simp only [passed]
    split <;> exact mul_nonneg formed.1.le (by positivity)
  | returning amount left failed outcome => exact le_rfl
  | outside outcome => exact le_rfl
  | settling hold settled answered =>
    have reserved : 0 ≤ hold.amountMicros := formed.1.trans formed.2
    exact add_nonneg (mul_nonneg formed.1 (by positivity)) (mul_nonneg reserved (by positivity))
  | kept hold settled => exact mul_nonneg formed.1 (by positivity)

theorem passed_le_present {point : Point} (formed : point.Formed cap) (key : String) :
    point.passed key ≤ point.present key := by
  cases point with
  | expiring amount touched window rest total =>
    simp only [passed,present]
    split
    · refine mul_le_mul_of_nonneg_left ?_ formed.1.le
      simp
    · exact le_rfl
  | returning amount left failed outcome => exact mul_nonneg formed.1.le (by positivity)
  | walking | outside | settling | kept => exact le_rfl

/-- A hold stands for no more than what has passed; once its call has returned, for all it has added. -/
theorem standing_view {point : Point} (formed : point.Formed cap) (key : String) :
    point.view.standing key ≤ point.passed key ∧
      (point.view.returned → point.view.standing key = point.present key) := by
  have least := passed_nonneg formed key
  cases point with
  | walking amount touched rest =>
    cases rest with
    | nil => exact ⟨le_rfl,fun _ => rfl⟩
    | cons window rest => exact ⟨least,fun finished => (Bool.false_ne_true finished).elim⟩
  | expiring amount touched window rest total =>
    exact ⟨least,fun finished => (Bool.false_ne_true finished).elim⟩
  | returning amount left failed outcome =>
    cases left with
    | nil =>
      have nothing : (Point.returning amount [] failed outcome).view.standing key = 0 := by
        have never := formed.2 failed
        simp only [view,giveBack,Program.bind_done]
        unfold Caller.standing
        split <;> simp_all
      exact ⟨nothing.le,fun _ => by rw [nothing]; simp [present]⟩
    | cons window left => exact ⟨least,fun finished => (Bool.false_ne_true finished).elim⟩
  | outside outcome =>
    have nothing : (Point.outside outcome).view.standing key = 0 := by
      simp only [view]
      unfold Caller.standing
      split
      next _ _ hold same =>
        have empty : hold = ⟨0,[],none⟩ := formed hold (by simpa using same)
        simp [empty]
      all_goals simp_all
    exact ⟨nothing.le,fun _ => nothing⟩
  | settling hold settled answered =>
    simp only [view,passed,present]
    cases remaining : hold.keys.drop answered with
    | nil =>
      have all : hold.keys.take answered = hold.keys := List.take_of_length_le (List.drop_eq_nil_iff.mp remaining)
      simp [settleKeys,Caller.standing,all]
    | cons next rest =>
      simp [settleKeys,call,Caller.standing,Caller.returned,remaining]
  | kept hold settled => exact ⟨le_rfl,fun _ => rfl⟩

end Point

/-- Every key is absent or a counter within its upper limit. -/
def Counters (store : Store) : Prop :=
  ∀ key, store key = none ∨ ∃ number : Int, number < 2 ^ 63 ∧ store key = some (.integer number)

theorem incrby_counters {store : Store} (cells : Counters store) (key : String) (increment : Int) :
    incrby key increment store =
      if inInt64 (counter store key + increment) then
        (.ok (counter store key + increment),store.put key (.integer (counter store key + increment)))
      else (.error overflow,store) := by
  rcases cells key with absent | ⟨number,_,found⟩
  · simp [incrby,counter,absent]
  · simp [incrby,counter,found]

theorem counter_put (store : Store) (key other : String) (number : Int) :
    counter (store.put key (.integer number)) other = if other = key then number else counter store other := by
  by_cases same : other = key
  · subst same
    simp [counter]
  · simp [counter,same,Store.put_ne]

theorem counters_put {store : Store} (cells : Counters store) (key : String) {number : Int}
    (bound : number < 2 ^ 63) : Counters (store.put key (.integer number)) := by
  intro other
  by_cases same : other = key
  · subst same
    exact .inr ⟨number,bound,Store.put_self ..⟩
  · rw [Store.put_ne _ _ same]
    exact cells other

theorem present_put {store : Store} (key other : String) (value : Value) (there : (store other).isSome) :
    (store.put key value other).isSome := by
  by_cases same : other = key
  · subst same
    simp
  · rwa [Store.put_ne _ _ same]

/-- The invariant of every interleaving. -/
structure Accounts (cap : String → Nat) (store : Store) (points : List Point) : Prop where
  cells : Counters store
  exact : ∀ key, counter store key = (points.map fun point => point.present key).sum
  live : ∀ point ∈ points, ∀ key ∈ point.touches, (store key).isSome
  bounded : ∀ key, (points.map fun point => point.passed key).sum ≤ cap key
  formed : ∀ point ∈ points, point.Formed cap

section Accounts
variable {cap : String → Nat} {store store' : Store} {before after : List Point} {point point' : Point}

theorem present_le_counter (accounts : Accounts cap store (before ++ point :: after)) (key : String) :
    point.present key ≤ counter store key := by
  have nonneg : ∀ other ∈ before ++ point :: after, 0 ≤ other.present key := fun other member =>
    (Point.passed_nonneg (accounts.formed other member) key).trans
      (Point.passed_le_present (accounts.formed other member) key)
  have earlier : 0 ≤ (before.map fun other => other.present key).sum := List.sum_nonneg <| by
    simpa using fun other member => nonneg other (by simp [member])
  have later : 0 ≤ (after.map fun other => other.present key).sum := List.sum_nonneg <| by
    simpa using fun other member => nonneg other (by simp [member])
  rw [accounts.exact key]
  simp only [List.map_append,List.map_cons,List.sum_append,List.sum_cons]
  linarith

/-- One caller advances: its counters move by what it added or took, and what newly passes was tested. -/
theorem accounts_advance (accounts : Accounts cap store (before ++ point :: after)) (cells : Counters store')
    (changed : ∀ key, counter store' key = counter store key + (point'.present key - point.present key))
    (persists : ∀ key, (store key).isSome → (store' key).isSome)
    (live : ∀ key ∈ point'.touches, (store' key).isSome)
    (tested : ∀ key, point'.passed key ≤ point.passed key ∨ counter store' key ≤ cap key)
    (formed : point'.Formed cap) : Accounts cap store' (before ++ point' :: after) := by
  have exact : ∀ key, counter store' key = ((before ++ point' :: after).map fun other => other.present key).sum := by
    intro key
    have total := accounts.exact key
    simp only [List.map_append,List.map_cons,List.sum_append,List.sum_cons] at total ⊢
    rw [changed key,total]
    ring
  have allFormed : ∀ other ∈ before ++ point' :: after, other.Formed cap := by
    intro other member
    rcases List.mem_append.mp member with early | late
    · exact accounts.formed other (by simp [early])
    · rcases List.mem_cons.mp late with rfl | late
      · exact formed
      · exact accounts.formed other (by simp [late])
  refine ⟨cells,exact,?_,?_,allFormed⟩
  · intro other member key touched
    rcases List.mem_append.mp member with early | late
    · exact persists key (accounts.live other (by simp [early]) key touched)
    · rcases List.mem_cons.mp late with rfl | late
      · exact live key touched
      · exact persists key (accounts.live other (by simp [late]) key touched)
  · intro key
    rcases tested key with less | within
    · have total := accounts.bounded key
      simp only [List.map_append,List.map_cons,List.sum_append,List.sum_cons] at total ⊢
      linarith
    · refine le_trans ?_ within
      rw [exact key]
      exact List.sum_le_sum fun other member => Point.passed_le_present (allFormed other member) key

/-- The same when the store stays as it is. -/
theorem accounts_turn (accounts : Accounts cap store (before ++ point :: after))
    (present : ∀ key, point'.present key = point.present key)
    (touches : point'.touches ⊆ point.touches) (passed : ∀ key, point'.passed key ≤ point.passed key)
    (formed : point'.Formed cap) : Accounts cap store (before ++ point' :: after) := by
  refine accounts_advance accounts accounts.cells (fun key => by rw [present key]; ring) (fun _ there => there)
    (fun key touched => ?_) (fun key => .inl (passed key)) formed
  exact accounts.live point (by simp) key (touches touched)

private theorem accounts_live (accounts : Accounts cap store (before ++ point :: after)) {key : String}
    (touched : key ∈ point.touches) : (store key).isSome :=
  accounts.live point (by simp) key touched

private theorem count_append (amount : Int) (touched : List LedgerWindow) (window : LedgerWindow) (key : String) :
    amount * (((touched ++ [window]).map LedgerWindow.key).count key : Nat) =
      amount * ((touched.map LedgerWindow.key).count key : Nat) + if key = window.key then amount else 0 := by
  by_cases same : key = window.key
  · subst same
    simp [mul_add]
  · have apart : ¬window.key = key := fun equal => same equal.symm
    simp [same,apart]

/-- After a cap test the walk goes on or turns back, and the counters stay as they are. -/
private theorem judged_turn {amount total : Int} {touched rest : List LedgerWindow} {window : LedgerWindow}
    (accounts : Accounts cap store (before ++ .expiring amount touched window rest total :: after)) :
    ∃ point', point'.view = .reserving ((Point.judged amount touched window rest total).bind (finish amount)) ∧
      Accounts cap store (before ++ point' :: after) := by
  have formed := accounts.formed (.expiring amount touched window rest total) (by simp)
  by_cases excess : total > window.cap
  · refine ⟨.returning amount (touched ++ [window]) 0
      fun stranded => .ok (.refused (overCap window total) stranded),?_,?_⟩
    · simp only [Point.judged,excess,if_true]
      rfl
    · refine accounts_turn accounts (fun key => rfl) (fun key member => member) (fun key => ?_) ⟨formed.1,by simp⟩
      exact Point.passed_nonneg formed key
  · refine ⟨.walking amount (touched ++ [window]) rest,?_,?_⟩
    · simp only [Point.judged,excess,if_false]
      rfl
    · refine accounts_turn accounts (fun key => rfl) (fun key member => member) (fun key => ?_)
        ⟨formed.1,formed.2.1,fun other member => formed.2.2 other (List.mem_cons_of_mem _ member)⟩
      simp only [Point.passed,excess,if_false]
      exact le_rfl

/-- An `INCRBY` of the walk. -/
private theorem walking_step {amount : Int} {touched rest : List LedgerWindow} {window : LedgerWindow}
    {answer : Reply .integer}
    (accounts : Accounts cap store (before ++ .walking amount touched (window :: rest) :: after))
    (added : incrby window.key amount store = (answer,store')) :
    (∃ fault, answer = .error fault ∧ store' = store) ∨
      ∃ total, answer = .ok total ∧
        Accounts cap store' (before ++ .expiring amount touched window rest total :: after) := by
  have formed := accounts.formed (.walking amount touched (window :: rest)) (by simp)
  rw [incrby_counters accounts.cells] at added
  split at added
  next inRange =>
    obtain ⟨rfl,rfl⟩ := Prod.mk.inj added
    refine .inr ⟨_,rfl,accounts_advance accounts (counters_put accounts.cells _ inRange.2) (fun key => ?_)
      (fun key => present_put _ _ _) (fun key touches => ?_) (fun key => ?_)
      ⟨formed.1,formed.2.1,formed.2.2⟩⟩
    · simp only [counter_put,Point.present,count_append]
      split
      next same => rw [same]; ring
      next => ring
    · simp only [Point.touches,List.map_append,List.mem_append,List.map_cons,List.map_nil,List.mem_singleton] at touches
      rcases touches with earlier | rfl
      · exact present_put _ _ _ (accounts_live accounts earlier)
      · simp
    · have agreed : window.cap = cap window.key := formed.2.2 window (by simp)
      by_cases excess : counter store window.key + amount > window.cap
      · left
        simp only [Point.passed,excess,if_true]
        exact le_rfl
      · by_cases same : key = window.key
        · right
          subst same
          simp only [counter_put,if_true]
          omega
        · left
          simp only [Point.passed,excess,if_false,count_append,same,add_zero]
          exact le_rfl
  next =>
    obtain ⟨rfl,rfl⟩ := Prod.mk.inj added
    exact .inl ⟨_,rfl,rfl⟩

/-- A `DECRBY` of a give-back always lands: the caller's own amount is in the counter. -/
private theorem returning_step {amount : Int} {left : List LedgerWindow} {window : LedgerWindow} {failed : Nat}
    {outcome : Nat → Except Thrown Reservation} {answer : Reply .integer}
    (accounts : Accounts cap store (before ++ .returning amount (window :: left) failed outcome :: after))
    (taken : decrby window.key amount store = (answer,store')) :
    ∃ total, answer = .ok total ∧ Accounts cap store' (before ++ .returning amount left failed outcome :: after) := by
  have formed := accounts.formed (.returning amount (window :: left) failed outcome) (by simp)
  have covered := present_le_counter accounts window.key
  have own : amount ≤ (Point.returning amount (window :: left) failed outcome).present window.key := by
    simp only [Point.present,List.map_cons,List.count_cons_self]
    exact le_mul_of_one_le_right formed.1.le (by omega)
  have upper : counter store window.key < 2 ^ 63 := by
    rcases accounts.cells window.key with absent | ⟨number,bound,found⟩
    · simp [counter,absent]
    · simpa [counter,found] using bound
  have positive := formed.1
  have inRange : inInt64 (counter store window.key + -amount) := ⟨by omega,by omega⟩
  rw [decrby,incrby_counters accounts.cells,if_pos inRange] at taken
  obtain ⟨rfl,rfl⟩ := Prod.mk.inj taken
  refine ⟨_,rfl,accounts_advance accounts (counters_put accounts.cells _ inRange.2) (fun key => ?_)
    (fun key => present_put _ _ _) (fun key touches => ?_) (fun key => .inl le_rfl) formed⟩
  · simp only [counter_put,Point.present,List.map_cons]
    by_cases same : key = window.key
    · subst same
      simp [mul_add]
    · have apart : ¬window.key = key := fun equal => same equal.symm
      simp [same,apart]
  · exact present_put _ _ _ (accounts_live accounts (List.mem_cons_of_mem _ touches))

/-- A settlement of one key adds the difference: the key is there, and never falls below zero. -/
private theorem settling_step {hold : Hold} {settled : Int} {answered : Nat} {key : String} {rest : List String}
    {answer : Reply .integers} (remaining : hold.keys.drop answered = key :: rest)
    (accounts : Accounts cap store (before ++ .settling hold settled answered :: after))
    (adjusted : SETTLE_SCRIPT key (settled - hold.amountMicros) store = (answer,store')) :
    ∃ reply, answer = .ok reply ∧ Accounts cap store' (before ++ .settling hold settled (answered + 1) :: after) := by
  have formed := accounts.formed (.settling hold settled answered) (by simp)
  have covered := present_le_counter accounts key
  have here : answered < hold.keys.length := by
    by_contra beyond
    rw [List.drop_of_length_le (by omega)] at remaining
    cases remaining
  have next : hold.keys[answered] = key ∧ hold.keys.drop (answered + 1) = rest := by
    rw [List.drop_eq_getElem_cons here,List.cons.injEq] at remaining
    exact remaining
  have present : ∀ other, (Point.settling hold settled (answered + 1)).present other =
      (Point.settling hold settled answered).present other +
        if other = key then settled - hold.amountMicros else 0 := by
    intro other
    simp only [Point.present,remaining,next.2,List.take_add_one,List.getElem?_eq_getElem here,next.1,
      List.count_append,List.count_cons,Option.toList_some,List.count_nil]
    by_cases same : other = key
    · subst same
      simp
      ring
    · have apart : ¬key = other := fun equal => same equal.symm
      simp [same,apart]
  have reserved : 0 ≤ hold.amountMicros := formed.1.trans formed.2
  have own : hold.amountMicros ≤ (Point.settling hold settled answered).present key := by
    simp only [Point.present,remaining,List.count_cons_self]
    have first : 0 ≤ settled * ((hold.keys.take answered).count key : Nat) := mul_nonneg formed.1 (by positivity)
    have second : hold.amountMicros ≤ hold.amountMicros * ((rest.count key + 1 : Nat) : Int) :=
      le_mul_of_one_le_right reserved (by omega)
    omega
  have upper : counter store key < 2 ^ 63 := by
    rcases accounts.cells key with absent | ⟨number,bound,found⟩
    · simp [counter,absent]
    · simpa [counter,found] using bound
  have least := formed.1
  have most := formed.2
  have inRange : inInt64 (counter store key + (settled - hold.amountMicros)) := ⟨by omega,by omega⟩
  have there : (store key).isNone = false := by
    have member : key ∈ hold.keys := by rw [← next.1]; exact List.getElem_mem here
    simpa [Option.isSome_iff_ne_none] using accounts_live accounts (show key ∈ (Point.settling hold settled answered).touches from member)
  have fits : ¬counter store key + (settled - hold.amountMicros) < 0 := by omega
  simp only [SETTLE_SCRIPT,there,Bool.false_eq_true,if_false,incrby_counters accounts.cells,if_pos inRange,
    if_neg fits] at adjusted
  obtain ⟨rfl,rfl⟩ := Prod.mk.inj adjusted
  refine ⟨_,rfl,accounts_advance accounts (counters_put accounts.cells _ inRange.2) (fun other => ?_)
    (fun other => present_put _ _ _) (fun other touches => ?_) (fun other => .inl ?_) formed⟩
  · rw [counter_put,present other]
    split
    next same => rw [same]; ring
    next => ring
  · exact present_put _ _ _ (accounts_live accounts touches)
  · have less := present other
    simp only [Point.passed] at less ⊢
    rw [less]
    split <;> omega

private theorem accounts_enter {points : List Point} (accounts : Accounts cap store points) (agent : Caller)
    (allowed : Enters cap agent) :
    ∃ point : Point, point.view = agent ∧ Accounts cap store (points ++ [point]) := by
  have append : ∀ point : Point, (∀ key, point.present key = 0) → (∀ key, point.passed key = 0) →
      point.touches = [] → point.Formed cap → Accounts cap store (points ++ [point]) := by
    intro point present passed touches formed
    refine ⟨accounts.cells,fun key => ?_,fun other member key touched => ?_,fun key => ?_,fun other member => ?_⟩
    · simp [accounts.exact key,present key]
    · rcases List.mem_append.mp member with member | member
      · exact accounts.live other member key touched
      · rw [List.mem_singleton.mp member,touches] at touched
        cases touched
    · simpa [passed key] using accounts.bounded key
    · rcases List.mem_append.mp member with member | member
      · exact accounts.formed other member
      · rw [List.mem_singleton.mp member]
        exact formed
  cases allowed with
  | reserve ledgers amountMicros now agreed =>
    by_cases micros : isMicros amountMicros
    · by_cases zero : amountMicros = 0
      · subst zero
        refine ⟨.outside (.ok (.admitted ⟨0,[],none⟩)),?_,
          append _ (fun _ => rfl) (fun _ => rfl) rfl (by simp [Point.Formed])⟩
        simp [Point.view,reserveDollars,micros]
      · have positive : 0 < amountMicros := lt_of_le_of_ne micros.1 (Ne.symm zero)
        refine ⟨.walking amountMicros [] (activeWindows ledgers now),?_,
          append _ (fun _ => by simp [Point.present]) (fun _ => by simp [Point.passed,Point.present]) rfl
            ⟨positive,micros,agreed⟩⟩
        simp [Point.view,reserveDollars,micros,zero]
    · refine ⟨.outside (.error notMicros),?_,append _ (fun _ => rfl) (fun _ => rfl) rfl (by simp [Point.Formed])⟩
      simp [Point.view,reserveDollars,micros]

/-- A caller whose hold was admitted has kept its whole amount in every key of the hold. -/
private theorem admitted_point (formed : point.Formed cap) (hold : Hold)
    (same : point.view = .reserving (.done (.ok (.admitted hold)))) :
    isMicros hold.amountMicros ∧ (∀ key, point.present key = hold.amountMicros * hold.keys.count key) ∧
      (∀ key, point.passed key = point.present key) ∧ point.touches = hold.keys := by
  cases point with
  | walking amount touched rest =>
    cases rest with
    | nil =>
      simp only [Point.view,walk,Program.bind_done,finish,Caller.reserving.injEq,Program.done.injEq,Except.ok.injEq,
        Reservation.admitted.injEq] at same
      subst same
      exact ⟨formed.2.1,fun _ => rfl,fun _ => rfl,rfl⟩
    | cons => simp [Point.view,walk,call,Program.bind] at same
  | expiring => simp [Point.view,call] at same
  | returning amount left failed outcome =>
    cases left with
    | nil =>
      simp only [Point.view,giveBack,Program.bind_done,Caller.reserving.injEq,Program.done.injEq] at same
      exact absurd same (formed.2 failed hold)
    | cons => simp [Point.view,giveBack,call,Program.bind] at same
  | outside outcome =>
    simp only [Point.view,Caller.reserving.injEq,Program.done.injEq] at same
    rw [formed hold same]
    exact ⟨by decide,fun _ => rfl,fun _ => rfl,rfl⟩
  | settling => simp [Point.view] at same
  | kept => simp [Point.view] at same

private theorem settle_turn (accounts : Accounts cap store (before ++ point :: after)) (hold : Hold) (settled : Int)
    (same : point.view = .reserving (.done (.ok (.admitted hold)))) (least : 0 ≤ settled)
    (most : settled ≤ hold.amountMicros) :
    ∃ point', point'.view = .settling hold settled 0 (settleDollars hold settled) ∧
      Accounts cap store (before ++ point' :: after) := by
  obtain ⟨micros,present,passed,touches⟩ := admitted_point (accounts.formed point (by simp)) hold same
  have settledMicros : isMicros settled := ⟨least,most.trans micros.2⟩
  have safe : isSafeInteger hold.amountMicros := ⟨by have := micros.1; simp only [maxSafeInteger]; omega,micros.2⟩
  by_cases whole : settled = hold.amountMicros
  · subst whole
    refine ⟨.kept hold hold.amountMicros,?_,accounts_turn accounts (fun key => ?_)
      (by rw [touches]; exact fun _ member => member) (fun key => ?_) ⟨least,rfl⟩⟩
    · simp [Point.view,settleDollars,micros,safe]
    · rw [present key]
      rfl
    · rw [passed key,present key]
      exact le_rfl
  · have differs : settled - hold.amountMicros ≠ 0 := sub_ne_zero.mpr whole
    refine ⟨.settling hold settled 0,?_,accounts_turn accounts (fun key => ?_)
      (by rw [touches]; exact fun _ member => member) (fun key => ?_) ⟨least,most⟩⟩
    · simp [Point.view,settleDollars,settledMicros,safe,differs]
    · rw [present key]
      simp [Point.present]
    · rw [passed key,present key]
      simp [Point.passed,Point.present]

private theorem accounts_move (accounts : Accounts cap store (before ++ point :: after)) (next : Caller)
    (allowed : Moves point.view next) :
    ∃ point' : Point, point'.view = next ∧ Accounts cap store (before ++ point' :: after) := by
  generalize same : point.view = agent at allowed
  cases allowed with
  | settle hold settled least most => exact settle_turn accounts hold settled same least most
  | release hold =>
    obtain ⟨micros,_⟩ := admitted_point (accounts.formed point (by simp)) hold same
    exact settle_turn accounts hold 0 same le_rfl micros.1

private theorem accounts_issue (accounts : Accounts cap store (before ++ point :: after)) (command : Valkey.Command)
    (resume : Valkey.Answer command → Caller) (answer : Valkey.Answer command)
    (waiting : point.view.pending = some ⟨command,resume⟩) (answered : served store command answer store') :
    ∃ point' : Point, point'.view = resume answer ∧ Accounts cap store' (before ++ point' :: after) := by
  have formed := accounts.formed point (by simp)
  cases point with
  | walking amount touched rest =>
    cases rest with
    | nil => cases waiting
    | cons window rest =>
      cases waiting
      rcases walking_step accounts answered with ⟨fault,rfl,rfl⟩ | ⟨total,rfl,advanced⟩
      · refine ⟨.returning amount touched 0 fun _ => .error (.fault fault),rfl,accounts_turn accounts (fun _ => rfl)
          (fun _ member => member) (fun key => Point.passed_nonneg formed key) ⟨formed.1,by simp⟩⟩
      · by_cases first : total = amount
        · refine ⟨.expiring amount touched window rest total,?_,advanced⟩
          simp only [first,if_true,Point.view,call_bind]
          congr 2
          funext flag
          cases flag <;> rfl
        · obtain ⟨point',same,kept⟩ := judged_turn advanced
          refine ⟨point',?_,kept⟩
          simp only [first,if_false]
          exact same
  | expiring amount touched window rest total =>
    cases waiting
    obtain ⟨rfl,rfl⟩ := Prod.mk.inj answered
    exact judged_turn accounts
  | returning amount left failed outcome =>
    cases left with
    | nil => cases waiting
    | cons window left =>
      cases waiting
      obtain ⟨total,rfl,advanced⟩ := returning_step accounts answered
      exact ⟨_,rfl,advanced⟩
  | outside outcome => cases waiting
  | settling hold settled done =>
    cases remaining : hold.keys.drop done with
    | nil => simp [Point.view,remaining,settleKeys,Caller.pending,Program.pending] at waiting
    | cons key rest =>
      have after : hold.keys.drop (done + 1) = rest := by
        rw [← List.tail_drop,remaining,List.tail_cons]
      simp only [Point.view,remaining,settleKeys] at waiting
      cases waiting
      obtain ⟨reply,rfl,advanced⟩ := settling_step remaining accounts answered
      refine ⟨_,?_,advanced⟩
      simp only [Point.view,after]
  | kept hold settled => cases waiting

end Accounts

theorem reachable_accounts (cap : String → Nat) (world : World Store Caller)
    (reached : Reachable (callers cap) Store.empty world) :
    ∃ points : List Point, world.agents = points.map Point.view ∧ Accounts cap world.store points := by
  refine reachable_points (callers cap) Point.view (Accounts cap) Store.empty ?_ ?_ ?_ ?_ world reached
  · refine ⟨fun key => .inl rfl,fun key => rfl,?_,fun key => ?_,?_⟩ <;> simp
  · exact fun store points agent accounts allowed => accounts_enter accounts agent allowed
  · exact fun store before point after next accounts allowed => accounts_move accounts next allowed
  · exact fun store store' before point after command resume answer accounts waiting answered =>
      accounts_issue accounts command resume answer waiting answered

/-- In every interleaving of reservations, give-backs and settlements over shared windows, what the admitted
holds stand for at a key stays within its cap; with no call in flight the counter is exactly that sum. -/
theorem dollar_caps_hold (cap : String → Nat) (world : World Store Caller)
    (reached : Reachable (callers cap) Store.empty world) :
    (∀ key, (world.agents.map fun caller => caller.standing key).sum ≤ cap key) ∧
      ((∀ caller ∈ world.agents, caller.returned) →
        ∀ key, counter world.store key = (world.agents.map fun caller => caller.standing key).sum) := by
  obtain ⟨points,shape,accounts⟩ := reachable_accounts cap world reached
  rw [shape]
  constructor
  · intro key
    refine le_trans ?_ (accounts.bounded key)
    rw [List.map_map]
    exact List.sum_le_sum fun point member => (Point.standing_view (accounts.formed point member) key).1
  · intro quiet key
    rw [accounts.exact key,List.map_map]
    congr 1
    refine List.map_congr_left fun point member => ?_
    exact ((Point.standing_view (accounts.formed point member) key).2 (quiet _ (List.mem_map_of_mem member))).symm

def tenADay : Ledger := ⟨DOLLAR_KEY_PREFIX,⟨some 10,none,none⟩⟩

def tenADayKey : String := Budget.windowKey 0 DOLLAR_KEY_PREFIX .day

/-- A caller that has reserved four of ten. -/
def fourOfTen : World Store Caller :=
  let agency := callers fun _ => 10
  agency.turn execute 0 (agency.turn execute 0 ⟨Store.empty,[.reserving (reserveDollars [tenADay] 4 0)]⟩)

def fourHold : Hold := ⟨4,[tenADayKey],some [⟨DOLLAR_KEY_PREFIX,[tenADayKey]⟩]⟩

/-- And has settled them to three. -/
def threeOfTen : World Store Caller :=
  (callers fun _ => 10).turn execute 0 (fourOfTen.become 0 (.settling fourHold 3 0 (settleDollars fourHold 3)))

private theorem threeOfTen_reached : Reachable (callers fun _ => 10) Store.empty threeOfTen := by
  have serves : ∀ store command, served store command (execute store command).1 (execute store command).2 :=
    fun _ _ => rfl
  have entered : Reachable (callers fun _ => 10) Store.empty
      ⟨Store.empty,[.reserving (reserveDollars [tenADay] 4 0)]⟩ :=
    reachable_enter (callers fun _ => 10) (.reserving (reserveDollars [tenADay] 4 0))
      (.reserve _ _ _ (by intro window member; exact (List.mem_singleton.mp member) ▸ rfl)) .refl
  have reserved : Reachable (callers fun _ => 10) Store.empty fourOfTen :=
    reachable_turn _ execute serves 0 (reachable_turn _ execute serves 0 entered)
  exact reachable_turn _ execute serves 0
    (reachable_become (callers fun _ => 10) 0 (.reserving (.done (.ok (.admitted fourHold)))) _ rfl
      (Moves.settle fourHold 3 (by decide) (by decide)) reserved)

theorem dollar_caps_hold_three_of_ten :
    (∀ key, (threeOfTen.agents.map fun caller => caller.standing key).sum ≤ 10) ∧
      counter threeOfTen.store tenADayKey = 3 :=
  ⟨(dollar_caps_hold (fun _ => 10) threeOfTen threeOfTen_reached).1,
    (dollar_caps_hold (fun _ => 10) threeOfTen threeOfTen_reached).2
      (fun _ member => (List.mem_singleton.mp member) ▸ rfl) tenADayKey⟩

end PiDispatch.DollarBudget
