import PiDispatch.Valkey
import PiDispatch.Kernel.Contract
import PiDispatch.Kernel.Service
import PiDispatch.Kernel.TextOrder

/-! Fleet leases over numbered keys: acquire, refresh and release, each a command at a time, with keys that may expire
under their handles. A key's value names the host and the job; which call won the key is kept beside it. -/
namespace PiDispatch.FleetLease
open Kernel

def isNameLetter (letter : Char) : Bool := letter.isAlphanum || letter = '.' || letter = '_' || letter = '-'

/-- `WORKER_NAME_RE`. -/
def isWorkerName (name : String) : Bool :=
  match name.toList with
  | [] => false
  | first :: rest => first.isAlphanum && rest.length ≤ 63 && rest.all isNameLetter

/-- The value that a host writes for a job. -/
def holderOf (host id : String) : String := host ++ ("#" ++ id)

/-- A spread for the rotation, in 32-bit arithmetic over the text's UTF-16 units. -/
def hashCode (text : String) : Int := (utf16 text).foldl (fun hash unit => (hash * 31 + unit).bmod (2 ^ 32)) 0

/-- A won key, with the number of the win. -/
structure Handle where
  win : Nat
  key : String
  host : String
  id : String
  deriving DecidableEq

def Handle.holder (handle : Handle) : String := holderOf handle.host handle.id

/-- The keys, each with the handle that its winner got; beside them the handles won, those not yet released, what each
release deleted, and what each refused probe found. -/
structure Slots where
  keys : String → Option (String × Handle)
  won : List Handle
  live : List Handle
  deleted : List (Handle × Handle)
  calls : Nat
  refused : List (Nat × String × Handle)

def Slots.empty : Slots := ⟨fun _ => none,[],[],[],0,[]⟩

inductive Command
  | begins
  | setNx (call : Nat) (key host id : String)
  | get (key : String)
  | pexpire (key : String)
  | releaseIfMine (handle : Handle)
  | expires (key : String)

@[reducible] def Command.Carrier : Command → Type
  | .begins => Nat
  | .setNx _ _ _ _ => Option Handle
  | .get _ => Option String
  | .releaseIfMine _ => Bool
  | _ => Unit

def Slots.win (slots : Slots) (handle : Handle) : Slots :=
  { slots with
    keys := Function.update slots.keys handle.key (some (handle.holder,handle))
    won := handle :: slots.won
    live := handle :: slots.live }

/-- The release of a handle, which is no longer live whatever the key holds. -/
def RELEASE_IF_MINE (slots : Slots) (handle : Handle) : Bool × Slots :=
  let live := slots.live.filter fun other => other.win ≠ handle.win
  match slots.keys handle.key with
  | some (value,winner) =>
    if value = handle.holder then
      (true,{ slots with
        keys := Function.update slots.keys handle.key none
        live := live
        deleted := (handle,winner) :: slots.deleted })
    else (false,{ slots with live := live })
  | none => (false,{ slots with live := live })

def answer (slots : Slots) : (command : Command) → command.Carrier × Slots
  | .begins => (slots.calls,{ slots with calls := slots.calls + 1 })
  | .setNx call key host id => match slots.keys key with
    | some (_,winner) => (none,{ slots with refused := (call,key,winner) :: slots.refused })
    | none => (some ⟨slots.won.length,key,host,id⟩,slots.win ⟨slots.won.length,key,host,id⟩)
  | .get key => ((slots.keys key).map Prod.fst,slots)
  | .pexpire _ => ((),slots)
  | .releaseIfMine handle => RELEASE_IF_MINE slots handle
  | .expires key => ((),{ slots with keys := Function.update slots.keys key none })

abbrev Lease : Signature := ⟨Command,Command.Carrier⟩

abbrev Call (α : Type) := Program Lease α

/-- `unleased` is the answer for no slots at all: nothing is bounded and nothing was issued. -/
inductive Outcome
  | unleased
  | acquired (handle : Handle)
  | full (call : Nat)
  | refreshed (ours : Bool)
  | finished

def probe (call : Nat) (host id : String) : List String → Call Outcome
  | [] => .done (.full call)
  | key :: rest => @Program.issue Lease _ (.setNx call key host id) fun
    | some handle => .done (.acquired handle)
    | none => probe call host id rest

def probeOrder (keyFor : Nat → String) (slots : Nat) (id : String) : List String :=
  (List.range slots).map fun number => keyFor (((hashCode id).natAbs % slots + number) % slots)

def acquire (keyFor : Nat → String) (slots : Nat) (host id : String) : Call Outcome :=
  if slots < 1 then .done .unleased
  else @Program.issue Lease _ .begins fun call => probe call host id (probeOrder keyFor slots id)

def refresh (handle : Handle) : Call Outcome :=
  @Program.issue Lease _ (.get handle.key) fun value =>
    if value ≠ some handle.holder then .done (.refreshed false)
    else @Program.issue Lease _ (.pexpire handle.key) fun _ => .done (.refreshed true)

def release (handle : Handle) : Call Outcome :=
  @Program.issue Lease _ (.releaseIfMine handle) fun _ => .done .finished

/-- The calls of any hosts and jobs, and the keys' expiry. -/
inductive Enters (keyFor : Nat → String) (slots : Nat) : Call Outcome → Prop
  | acquire (host id : String) (named : isWorkerName host) : Enters keyFor slots (acquire keyFor slots host id)
  | refresh (handle : Handle) : Enters keyFor slots (refresh handle)
  | release (handle : Handle) : Enters keyFor slots (release handle)
  | expires (key : String) : Enters keyFor slots (@Program.issue Lease _ (.expires key) fun _ => .done .finished)

/-- Only a handle that an acquire returned is released. -/
def anyRun (slots : Slots) : Command → Prop
  | .releaseIfMine handle => handle ∈ slots.won
  | _ => True

/-- Nothing expires, and no release finds its key won by another acquire of the same host and job. -/
def Steady (slots : Slots) : Command → Prop
  | .releaseIfMine handle => handle ∈ slots.won ∧
      ∀ winner, slots.keys handle.key = some (handle.holder,winner) → winner = handle
  | .expires _ => False
  | _ => True

def leases (keyFor : Nat → String) (slots : Nat) (allowed : Slots → Command → Prop) : Agency Lease Slots (Call Outcome) :=
  callers (fun store command reply next => allowed store command ∧ reply = (answer store command).1 ∧
    next = (answer store command).2) (Enters keyFor slots)

section Holders

private theorem letter_apart {letter : Char} (named : isNameLetter letter) : letter ≠ '#' := by
  rintro rfl
  revert named
  decide

theorem workerName_apart {name : String} (named : isWorkerName name) : '#' ∉ name.toList := by
  unfold isWorkerName at named
  split at named
  · cases named
  next first rest shape =>
    simp only [Bool.and_eq_true,List.all_eq_true] at named
    rw [shape]
    intro member
    rcases List.mem_cons.mp member with head | tail
    · refine @letter_apart first ?_ head.symm
      simp [isNameLetter,named.1.1]
    · exact letter_apart (named.2 _ tail) rfl

private theorem split_at {letter : Char} {left right other rest : List Char} (first : letter ∉ left) (second : letter ∉ other)
    (same : left ++ letter :: right = other ++ letter :: rest) : left = other ∧ right = rest := by
  induction left generalizing other with
  | nil =>
    cases other with
    | nil => exact ⟨rfl,(List.cons.inj same).2⟩
    | cons head tail => exact absurd (List.cons.inj same).1 fun equal => second (equal ▸ List.mem_cons_self)
  | cons head tail ih =>
    cases other with
    | nil => exact absurd (List.cons.inj same).1 fun equal => first (equal ▸ List.mem_cons_self)
    | cons head' tail' =>
      obtain ⟨heads,tails⟩ := List.cons.inj same
      obtain ⟨lefts,rights⟩ := ih (fun member => first (List.mem_cons_of_mem _ member))
        (fun member => second (List.mem_cons_of_mem _ member)) tails
      exact ⟨by rw [heads,lefts],rights⟩

/-- A holder tells its host and its job. -/
theorem holderOf_injective {host host' id id' : String} (named : isWorkerName host) (named' : isWorkerName host')
    (same : holderOf host id = holderOf host' id') : host = host' ∧ id = id' := by
  have letters := congrArg String.toList same
  simp only [holderOf,String.toList_append] at letters
  have hash : "#".toList = ['#'] := by decide
  rw [hash,List.singleton_append,List.singleton_append] at letters
  obtain ⟨hosts,ids⟩ := split_at (workerName_apart named) (workerName_apart named') letters
  exact ⟨String.toList_injective hosts,String.toList_injective ids⟩

end Holders

def slotKeys (keyFor : Nat → String) (slots : Nat) : List String := (List.range slots).map keyFor

section Programs

variable (keyFor : Nat → String) (slots : Nat) (history : List (Nat × String × Handle))

/-- A probe is of one of the slots, by a named host; a refused one is remembered. -/
private def leaseContract : Contract Lease where
  asks
    | .setNx _ key host _ => isWorkerName host ∧ key ∈ slotKeys keyFor slots
    | _ => True
  told command reply := match command, reply with
    | .setNx call key _ _, none => ∃ winner, (call,key,winner) ∈ history
    | _, _ => True

/-- Who is told that all are held has found each of them held. -/
def FullFound : Outcome → Prop
  | .full call => ∀ key ∈ slotKeys keyFor slots, ∃ winner, (call,key,winner) ∈ history
  | _ => True

private theorem probeOrder_covers {slots : Nat} (id : String) (key : String) :
    key ∈ probeOrder keyFor slots id ↔ key ∈ slotKeys keyFor slots := by
  unfold probeOrder slotKeys
  simp only [List.mem_map,List.mem_range]
  constructor
  · rintro ⟨number,inside,rfl⟩
    exact ⟨_,Nat.mod_lt _ (by omega),rfl⟩
  · rintro ⟨number,inside,rfl⟩
    have start : (hashCode id).natAbs % slots < slots := Nat.mod_lt _ (by omega)
    refine ⟨(number + (slots - (hashCode id).natAbs % slots)) % slots,Nat.mod_lt _ (by omega),?_⟩
    rw [Nat.add_mod_mod]
    have turn : (hashCode id).natAbs % slots + (number + (slots - (hashCode id).natAbs % slots)) = number + slots := by omega
    rw [turn,Nat.add_mod_right,Nat.mod_eq_of_lt inside]

private theorem probe_keeps {call : Nat} {host id : String} (named : isWorkerName host) (keys : List String)
    (among : ∀ key ∈ keys, key ∈ slotKeys keyFor slots)
    (rest : ∀ key ∈ slotKeys keyFor slots, key ∈ keys ∨ ∃ winner, (call,key,winner) ∈ history) :
    (probe call host id keys).Keeps (leaseContract keyFor slots history) (FullFound keyFor slots history) := by
  induction keys with
  | nil => exact fun key member => (rest key member).resolve_left List.not_mem_nil
  | cons key keys ih =>
    refine ⟨⟨named,among key List.mem_cons_self⟩,?_⟩
    intro reply told
    cases reply with
    | some handle => trivial
    | none =>
      refine ih (fun other member => among other (List.mem_cons_of_mem _ member)) ?_
      intro other member
      rcases rest other member with inside | found
      · rcases List.mem_cons.mp inside with rfl | later
        · exact .inr told
        · exact .inl later
      · exact .inr found

private theorem enters_keeps {program : Call Outcome} (enters : Enters keyFor slots program) :
    program.Keeps (leaseContract keyFor slots history) (FullFound keyFor slots history) := by
  cases enters with
  | acquire host id named =>
    unfold acquire
    split
    · trivial
    · refine ⟨trivial,fun call _ => probe_keeps keyFor slots history named _ ?_ ?_⟩
      · exact fun key member => (probeOrder_covers keyFor id key).mp member
      · exact fun key member => .inl ((probeOrder_covers keyFor id key).mpr member)
  | refresh handle =>
    refine ⟨trivial,fun value _ => ?_⟩
    dsimp only
    split
    · trivial
    · exact ⟨trivial,fun _ _ => trivial⟩
  | release handle => exact ⟨trivial,fun _ _ => trivial⟩
  | expires key => exact ⟨trivial,fun _ _ => trivial⟩

end Programs

/-- What holds of every run's keys and releases. -/
private structure Sound (store : Slots) : Prop where
  named : ∀ handle ∈ store.won, isWorkerName handle.host
  numbered : store.won.map Handle.win = (List.range store.won.length).reverse
  keys : ∀ key value winner, store.keys key = some (value,winner) → value = winner.holder ∧ winner ∈ store.won
  deleted : ∀ entry ∈ store.deleted, entry.2.host = entry.1.host ∧ entry.2.id = entry.1.id

/-- What holds while nothing expires: a live handle's key is held by that very handle. -/
private structure Held (keyFor : Nat → String) (slots : Nat) (store : Slots) : Prop where
  among : ∀ handle ∈ store.live, handle.key ∈ slotKeys keyFor slots
  holds : ∀ handle ∈ store.live, store.keys handle.key = some (handle.holder,handle)
  apart : (store.live.map Handle.key).Nodup

section Steps

private theorem win_sound {store : Slots} (sound : Sound store) {key host id : String} (named : isWorkerName host) :
    Sound (store.win ⟨store.won.length,key,host,id⟩) := by
  refine ⟨?_,?_,?_,sound.deleted⟩
  · intro handle member
    rcases List.mem_cons.mp member with rfl | old
    · exact named
    · exact sound.named handle old
  · simp only [Slots.win,List.map_cons,List.length_cons,sound.numbered,List.range_succ,List.reverse_append]
    rfl
  · intro other value winner found
    rcases eq_or_ne other key with rfl | apart
    · simp only [Slots.win,Function.update_self,Option.some.injEq,Prod.mk.injEq] at found
      obtain ⟨rfl,rfl⟩ := found
      exact ⟨rfl,List.mem_cons_self⟩
    · simp only [Slots.win,Function.update_of_ne apart] at found
      obtain ⟨own,member⟩ := sound.keys other value winner found
      exact ⟨own,List.mem_cons_of_mem _ member⟩

private theorem release_sound {store : Slots} (sound : Sound store) {handle : Handle} (won : handle ∈ store.won) :
    Sound (RELEASE_IF_MINE store handle).2 := by
  unfold RELEASE_IF_MINE
  dsimp only
  split
  next value winner found =>
    split
    next mine =>
      refine ⟨sound.named,sound.numbered,?_,?_⟩
      · intro key value' winner' stored
        rcases eq_or_ne key handle.key with rfl | apart
        · simp at stored
        · simp only [Function.update_of_ne apart] at stored
          exact sound.keys key value' winner' stored
      · intro entry member
        rcases List.mem_cons.mp member with rfl | old
        · obtain ⟨own,member⟩ := sound.keys _ _ _ found
          exact holderOf_injective (sound.named winner member) (sound.named handle won) (own.symm.trans mine)
        · exact sound.deleted entry old
    · exact ⟨sound.named,sound.numbered,sound.keys,sound.deleted⟩
  · exact ⟨sound.named,sound.numbered,sound.keys,sound.deleted⟩

private theorem win_held {keyFor : Nat → String} {slots : Nat} {store : Slots} (held : Held keyFor slots store)
    {handle : Handle} (member : handle.key ∈ slotKeys keyFor slots) (free : store.keys handle.key = none) :
    Held keyFor slots (store.win handle) := by
  have apart : ∀ other ∈ store.live, other.key ≠ handle.key := by
    intro other live same
    have holds := held.holds other live
    rw [same,free] at holds
    cases holds
  refine ⟨?_,?_,?_⟩
  · intro other live
    rcases List.mem_cons.mp live with rfl | old
    · exact member
    · exact held.among other old
  · intro other live
    rcases List.mem_cons.mp live with rfl | old
    · simp [Slots.win]
    · simp only [Slots.win,Function.update_of_ne (apart other old)]
      exact held.holds other old
  · refine List.nodup_cons.mpr ⟨?_,held.apart⟩
    intro named
    obtain ⟨other,live,same⟩ := List.mem_map.mp named
    exact apart other live same

private theorem release_held {keyFor : Nat → String} {slots : Nat} {store : Slots} (held : Held keyFor slots store)
    {handle : Handle} (own : ∀ winner, store.keys handle.key = some (handle.holder,winner) → winner = handle) :
    Held keyFor slots (RELEASE_IF_MINE store handle).2 := by
  have left : ∀ other ∈ store.live.filter (fun other => other.win ≠ handle.win),
      other ∈ store.live ∧ other.win ≠ handle.win := by
    intro other member
    simpa using List.mem_filter.mp member
  have nodup : ((store.live.filter fun other => other.win ≠ handle.win).map Handle.key).Nodup :=
    held.apart.sublist (List.filter_sublist.map _)
  have kept : Held keyFor slots { store with live := store.live.filter fun other => other.win ≠ handle.win } :=
    ⟨fun other member => held.among other (left other member).1,
      fun other member => held.holds other (left other member).1,nodup⟩
  unfold RELEASE_IF_MINE
  dsimp only
  split
  next value winner found =>
    split
    next mine =>
      refine ⟨kept.among,?_,kept.apart⟩
      intro other member
      have apart : other.key ≠ handle.key := by
        intro same
        have holds := kept.holds other member
        rw [same] at holds
        have stands : some (value,winner) = some (other.holder,other) := found.symm.trans holds
        have self : winner = handle := own winner (by rw [found,mine])
        simp only [Option.some.injEq,Prod.mk.injEq] at stands
        exact (left other member).2 (by rw [← stands.2,self])
      simp only [Function.update_of_ne apart]
      exact kept.holds other member
    · exact kept
  · exact kept

private theorem answer_sound {store : Slots} {command : Command} (sound : Sound store) (allowed : anyRun store command)
    (named : ∀ call key host id, command = .setNx call key host id → isWorkerName host) :
    Sound (answer store command).2 := by
  cases command with
  | begins | get | pexpire => exact ⟨sound.named,sound.numbered,sound.keys,sound.deleted⟩
  | setNx call key host id =>
    dsimp only [answer]
    split
    · exact ⟨sound.named,sound.numbered,sound.keys,sound.deleted⟩
    · exact win_sound sound (named call key host id rfl)
  | releaseIfMine handle => exact release_sound sound allowed
  | expires key =>
    refine ⟨sound.named,sound.numbered,?_,sound.deleted⟩
    intro other value winner found
    rcases eq_or_ne other key with rfl | apart
    · simp [answer] at found
    · simp only [answer,Function.update_of_ne apart] at found
      exact sound.keys other value winner found

private theorem answer_held {keyFor : Nat → String} {slots : Nat} {store : Slots} {command : Command}
    (held : Held keyFor slots store) (allowed : Steady store command)
    (among : ∀ call key host id, command = .setNx call key host id → key ∈ slotKeys keyFor slots) :
    Held keyFor slots (answer store command).2 := by
  cases command with
  | begins | get | pexpire => exact ⟨held.among,held.holds,held.apart⟩
  | setNx call key host id =>
    dsimp only [answer]
    split
    · exact ⟨held.among,held.holds,held.apart⟩
    next free => exact win_held held (among call key host id rfl) free
  | releaseIfMine handle => exact release_held held allowed.2
  | expires key => exact allowed.elim

private theorem steady_any {store : Slots} {command : Command} (steady : Steady store command) : anyRun store command := by
  cases command with
  | releaseIfMine handle => exact steady.1
  | _ => trivial

private theorem answer_refused (store : Slots) (command : Command) :
    ∀ entry ∈ store.refused, entry ∈ (answer store command).2.refused := by
  intro entry member
  cases command with
  | setNx call key host id =>
    dsimp only [answer]
    split
    · exact List.mem_cons_of_mem _ member
    · exact member
  | releaseIfMine handle =>
    dsimp only [answer]
    unfold RELEASE_IF_MINE
    dsimp only
    split
    · split <;> exact member
    · exact member
  | _ => exact member

private theorem refused_found {store : Slots} {call : Nat} {key host id : String}
    (refused : (answer store (.setNx call key host id)).1 = none) :
    ∃ winner, (call,key,winner) ∈ (answer store (.setNx call key host id)).2.refused := by
  dsimp only [answer] at refused ⊢
  split at refused
  next value winner _ => exact ⟨winner,List.mem_cons_self⟩
  · cases refused

end Steps

section Runs
variable {keyFor : Nat → String} {slots : Nat} {allowed : Slots → Command → Prop}

/-- The contract rule for the leases: a store invariant that the allowed commands of such programs keep. -/
private theorem leases_keep (invariant : Slots → Prop) (initial : invariant .empty)
    (kept : ∀ store command, invariant store → allowed store command →
      (∀ call key host id, command = .setNx call key host id → isWorkerName host ∧ key ∈ slotKeys keyFor slots) →
      invariant (answer store command).2)
    {world : World Slots (Call Outcome)} (reached : Reachable (leases keyFor slots allowed) .empty world) :
    invariant world.store ∧ ∀ outcome, .done outcome ∈ world.agents → FullFound keyFor slots world.store.refused outcome := by
  obtain ⟨holds,keep⟩ := callers_keep (leaseContract keyFor slots world.store.refused)
    (FullFound keyFor slots world.store.refused) invariant (fun store => ∀ entry ∈ store.refused, entry ∈ world.store.refused)
    (by
      rintro store command _ _ ⟨_,rfl,rfl⟩ all entry member
      exact all entry (answer_refused store command entry member))
    (fun program enters => enters_keeps keyFor slots _ enters)
    (by
      rintro store command _ _ all holds asks ⟨ok,rfl,rfl⟩
      refine ⟨kept store command holds ok ?_,?_⟩
      · rintro call key host id rfl
        exact asks
      · cases command with
        | setNx call key host id =>
          cases refused : (answer store (.setNx call key host id)).1 with
          | none =>
            obtain ⟨winner,member⟩ := refused_found refused
            exact ⟨winner,all _ member⟩
          | some handle => trivial
        | _ => trivial)
    initial reached (fun entry member => member)
  exact ⟨holds,fun outcome member => keep _ member⟩

end Runs

/-- No release deletes a key that another holder won, each acquire that won has a handle of its own, and who is told
that all slots are held has found each of them held. -/
structure Owned (keyFor : Nat → String) (slots : Nat) (world : World Slots (Call Outcome)) : Prop where
  deleted : ∀ entry ∈ world.store.deleted, entry.2.host = entry.1.host ∧ entry.2.id = entry.1.id
  distinct : (world.store.won.map Handle.win).Nodup
  full : ∀ call, .done (.full call) ∈ world.agents →
    ∀ key ∈ slotKeys keyFor slots, ∃ winner, (call,key,winner) ∈ world.store.refused

/-- No more live handles than slots, each on a key of its own. -/
def Bounded (slots : Nat) (store : Slots) : Prop :=
  store.live.length ≤ slots ∧ (store.live.map Handle.key).Nodup

/-- A lease is a bound, and its release is its holder's alone: in every run, and the bound in every run in which
nothing expires and no release meets another win of its own holder. -/
theorem fleet_lease_bounded (keyFor : Nat → String) (slots : Nat) :
    (∀ world, Reachable (leases keyFor slots anyRun) .empty world → Owned keyFor slots world) ∧
    ∀ world, Reachable (leases keyFor slots Steady) .empty world → Owned keyFor slots world ∧ Bounded slots world.store := by
  have initial : Sound .empty :=
    ⟨fun _ member => absurd member List.not_mem_nil,rfl,fun _ _ _ found => (nomatch found),
      fun _ member => absurd member List.not_mem_nil⟩
  have owned : ∀ world : World Slots (Call Outcome), Sound world.store →
      (∀ outcome, .done outcome ∈ world.agents → FullFound keyFor slots world.store.refused outcome) →
      Owned keyFor slots world := by
    intro world sound full
    refine ⟨sound.deleted,?_,fun call member => full (.full call) member⟩
    rw [sound.numbered]
    exact List.nodup_reverse.mpr List.nodup_range
  constructor
  · intro world reached
    obtain ⟨sound,full⟩ := leases_keep Sound initial
      (fun _ _ sound ok asks => answer_sound sound ok fun call key host id same => (asks call key host id same).1) reached
    exact owned world sound full
  · intro world reached
    obtain ⟨⟨sound,held⟩,full⟩ := leases_keep (fun store => Sound store ∧ Held keyFor slots store)
      ⟨initial,fun _ member => absurd member List.not_mem_nil,fun _ member => absurd member List.not_mem_nil,List.nodup_nil⟩
      (fun _ _ both ok asks =>
        ⟨answer_sound both.1 (steady_any ok) fun call key host id same => (asks call key host id same).1,
          answer_held both.2 ok fun call key host id same => (asks call key host id same).2⟩) reached
    refine ⟨owned world sound full,?_,held.apart⟩
    have inside : world.store.live.map Handle.key ⊆ slotKeys keyFor slots := by
      intro key member
      obtain ⟨handle,live,rfl⟩ := List.mem_map.mp member
      exact held.among handle live
    have count := (List.subperm_of_subset held.apart inside).length_le
    simpa [slotKeys] using count

section Samples

def checkSlotKey (number : Nat) : String := "wait:check:" ++ toString number

/-- One host's job acquires, its claim expires, it acquires again and releases the first handle. -/
def lateRelease : List (Call Outcome) :=
  [acquire checkSlotKey 1 "mini1" "job-a",@Program.issue Lease _ (.expires "wait:check:0") fun _ => .done .finished,
    acquire checkSlotKey 1 "mini1" "job-a",release ⟨0,"wait:check:0","mini1","job-a"⟩]

/-- Two hosts' jobs on one slot, the second after the first's release. -/
def handedOn : List (Call Outcome) :=
  [acquire checkSlotKey 1 "mini1" "job-a",acquire checkSlotKey 1 "mini2" "job-b",
    release ⟨0,"wait:check:0","mini1","job-a"⟩,acquire checkSlotKey 1 "mini2" "job-b"]

def runOf (agents : List (Call Outcome)) (order : List Nat) : World Slots (Call Outcome) :=
  (leases checkSlotKey 1 anyRun).turns answer ⟨.empty,agents⟩ order

private def checkedAny (store : Slots) : Command → Bool
  | .releaseIfMine handle => handle ∈ store.won
  | _ => true

private def checkedSteady (store : Slots) : Command → Bool
  | .releaseIfMine handle => handle ∈ store.won && match store.keys handle.key with
    | some (value,winner) => value ≠ handle.holder || winner = handle
    | none => true
  | .expires _ => false
  | _ => true

private theorem checked_any {store : Slots} {command : Command} (passed : checkedAny store command) :
    anyRun store command := by
  cases command with
  | releaseIfMine handle => exact of_decide_eq_true (p := handle ∈ store.won) passed
  | _ => trivial

private theorem checked_steady {store : Slots} {command : Command} (passed : checkedSteady store command) :
    Steady store command := by
  cases command with
  | releaseIfMine handle =>
    obtain ⟨won,rest⟩ := Bool.and_eq_true_iff.mp passed
    refine ⟨of_decide_eq_true won,?_⟩
    intro winner found
    rw [found] at rest
    simpa using rest
  | expires => cases passed
  | _ => trivial

private theorem samples_enter (allowed : Slots → Command → Prop) (agents : List (Call Outcome))
    (each : ∀ agent ∈ agents, Enters checkSlotKey 1 agent) :
    Reachable (leases checkSlotKey 1 allowed) .empty ⟨Slots.empty,agents⟩ := reachable_entered _ _ agents each

theorem fleet_lease_bounded_handed_on :
    Owned checkSlotKey 1 (runOf handedOn [0,0,1,1,2,3,3]) ∧ Bounded 1 (runOf handedOn [0,0,1,1,2,3,3]).store := by
  refine (fleet_lease_bounded checkSlotKey 1).2 _ ?_
  refine reachable_passes (leases checkSlotKey 1 Steady) answer checkedSteady
    (fun _ _ passed => ⟨checked_steady passed,rfl,rfl⟩) [0,0,1,1,2,3,3] (samples_enter Steady handedOn ?_)
    (by decide +kernel)
  intro agent member
  simp only [handedOn,List.mem_cons,List.not_mem_nil,or_false] at member
  rcases member with rfl | rfl | rfl | rfl
  · exact .acquire _ _ (by decide)
  · exact .acquire _ _ (by decide)
  · exact .release _
  · exact .acquire _ _ (by decide)

/-- The first handle's release deletes what the second acquire won. -/
theorem late_release_deletes_later_claim :
    ¬∀ (keyFor : Nat → String) (slots : Nat) (world : World Slots (Call Outcome)),
      Reachable (leases keyFor slots anyRun) .empty world → ∀ entry ∈ world.store.deleted, entry.1 = entry.2 := by
  intro own
  have reached : Reachable (leases checkSlotKey 1 anyRun) .empty (runOf lateRelease [0,0,1,2,2,3]) := by
    refine reachable_passes (leases checkSlotKey 1 anyRun) answer checkedAny
      (fun _ _ passed => ⟨checked_any passed,rfl,rfl⟩) [0,0,1,2,2,3] (samples_enter anyRun lateRelease ?_)
      (by decide +kernel)
    intro agent member
    simp only [lateRelease,List.mem_cons,List.not_mem_nil,or_false] at member
    rcases member with rfl | rfl | rfl | rfl
    · exact .acquire _ _ (by decide)
    · exact .expires _
    · exact .acquire _ _ (by decide)
    · exact .release _
  have found : ((⟨0,"wait:check:0","mini1","job-a"⟩,⟨1,"wait:check:0","mini1","job-a"⟩) : Handle × Handle) ∈
      (runOf lateRelease [0,0,1,2,2,3]).store.deleted := by decide +kernel
  exact absurd (own checkSlotKey 1 _ reached _ found) (by decide)

end Samples

end PiDispatch.FleetLease
