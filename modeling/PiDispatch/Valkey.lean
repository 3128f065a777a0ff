import PiDispatch.Kernel.Dict
import PiDispatch.Kernel.Json
import PiDispatch.Kernel.Program

/-! The Valkey keyspace and the commands the worker sends it. A command is one atomic function of the
store, a script included; it answers with its typed reply or with an error. Time to live is not kept. -/
namespace PiDispatch
open Kernel

inductive Value
  | integer (number : Int)
  | text (content : String)
  | document (content : Json)
  | hash (fields : Dict String String)
  | list (items : List Json)

abbrev Store := String → Option Value

namespace Store

def empty : Store := fun _ => none

def put (store : Store) (key : String) (value : Value) : Store := Function.update store key (some value)

@[simp] theorem put_self (store : Store) (key : String) (value : Value) :
    store.put key value key = some value := Function.update_self ..

theorem put_ne (store : Store) {key other : String} (value : Value) (apart : other ≠ key) :
    store.put key value other = store other := Function.update_of_ne apart ..

end Store

/-- What a client sees of a failed call: the error's code when it is a string. -/
structure Fault where
  code : Option String
  deriving DecidableEq

inductive ReplyKind
  | unit
  | flag
  | integer
  | integers
  | value
  deriving DecidableEq

@[reducible] def ReplyKind.Carrier : ReplyKind → Type
  | .unit => Unit
  | .flag => Bool
  | .integer => Int
  | .integers => List Int
  | .value => Option Value

abbrev Reply (kind : ReplyKind) := Except Fault kind.Carrier

abbrev Command (kind : ReplyKind) := Store → Reply kind × Store

/-- The signature of programs that talk to Valkey. -/
def Valkey : Signature where
  Command := (kind : ReplyKind) × Command kind
  Answer := fun command => Reply command.1

abbrev Call (α : Type) := Program Valkey α

def call {α : Type} {kind : ReplyKind} (command : Command kind) (resume : Reply kind → Call α) : Call α :=
  @Program.issue Valkey α ⟨kind,command⟩ resume

@[simp] theorem call_bind {α β : Type} {kind : ReplyKind} (command : Command kind)
    (resume : Reply kind → Call α) (next : α → Call β) :
    (call command resume).bind next = call command fun answer => (resume answer).bind next := rfl

/-- A command served as written: its own answer and its own effect. -/
def served (store : Store) (command : Valkey.Command) (answer : Valkey.Answer command) (store' : Store) :
    Prop :=
  command.2 store = (answer,store')

def execute (store : Store) (command : Valkey.Command) : Valkey.Answer command × Store := command.2 store

theorem run_call {α : Type} {kind : ReplyKind} (command : Command kind) (resume : Reply kind → Call α) (store : Store) :
    (call command resume).run execute store = (resume (command store).1).run execute (command store).2 := rfl

/-- A command under faults: an error may replace the answer, before the effect or after it. -/
def servedOrFaulted (store : Store) (command : Valkey.Command) (answer : Valkey.Answer command)
    (store' : Store) : Prop :=
  served store command answer store' ∨
    (∃ fault : Fault, answer = .error fault ∧ (store' = store ∨ store' = (command.2 store).2))

namespace Command

def wrongType : Fault := ⟨some "WRONGTYPE"⟩

def overflow : Fault := ⟨some "ERR"⟩

/-- The 64-bit range of a stored counter. -/
def inInt64 (number : Int) : Prop := -2 ^ 63 ≤ number ∧ number < 2 ^ 63

instance (number : Int) : Decidable (inInt64 number) := inferInstanceAs (Decidable (_ ∧ _))

def incrby (key : String) (increment : Int) : Command .integer := fun store =>
  match store key with
  | none => if inInt64 increment then (.ok increment,store.put key (.integer increment)) else (.error overflow,store)
  | some (.integer number) =>
    if inInt64 (number + increment) then (.ok (number + increment),store.put key (.integer (number + increment)))
    else (.error overflow,store)
  | some _ => (.error wrongType,store)

def decrby (key : String) (decrement : Int) : Command .integer := incrby key (-decrement)

def incr (key : String) : Command .integer := incrby key 1

def decr (key : String) : Command .integer := decrby key 1

/-- Answers whether the key is there to carry a time to live. -/
def expire (key : String) (_seconds : Nat) : Command .flag := fun store => (.ok (store key).isSome,store)

end Command

end PiDispatch
