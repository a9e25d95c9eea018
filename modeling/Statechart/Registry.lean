import Statechart.Interpreter.Basic
import Statechart.Machine.Schema

/-! Registries: machines under their ids. The contexts of registered machines may be of different
types, which are told apart by tags. -/

namespace Statechart

inductive RegistryError where
  | duplicate (id : String)
  | notFound (id : String)
  | contextMismatch (id : String)
  deriving DecidableEq

def RegistryError.message : RegistryError → String
  | .duplicate id => "A machine with id '" ++ id ++ "' is already registered"
  | .notFound id => "No machine with id '" ++ id ++ "' is registered"
  | .contextMismatch id => "Machine '" ++ id ++ "' was registered with a different context type"

structure Registered {κ : Type} (C : κ → Type) where
  tag : κ
  machine : Machine (C tag)

abbrev Registry {κ : Type} (C : κ → Type) := SortedMap String (Registered C)

namespace Registry

variable {κ : Type} {C : κ → Type}

def empty : Registry C := SortedMap.empty

def register (r : Registry C) (tag : κ) (m : Machine (C tag)) : Except RegistryError (Registry C) :=
  if r.contains m.id then .error (.duplicate m.id) else .ok (r.insert m.id ⟨tag, m⟩)

def find (r : Registry C) (id : String) : Except RegistryError (Registered C) :=
  match r.get? id with
  | some e => .ok e
  | none => .error (.notFound id)

def get [DecidableEq κ] (r : Registry C) (tag : κ) (id : String) :
    Except RegistryError (Machine (C tag)) :=
  match r.find id with
  | .error e => .error e
  | .ok e => if h : e.tag = tag then .ok (h ▸ e.machine) else .error (.contextMismatch id)

def schema (r : Registry C) (id : String) : Except RegistryError Schema :=
  (r.find id).map fun e => e.machine.schema

def schemas (r : Registry C) : List Schema := r.values.map fun e => e.machine.schema

def interpret [DecidableEq κ] (r : Registry C) (tag : κ) (id : String) (settings : Settings)
    (hasRuntime : Bool) (date : Timestamp) : Except RegistryError (Interpreter (C tag)) :=
  (r.get tag id).map fun m => .create m settings hasRuntime date

def remove (r : Registry C) (id : String) : Bool × Registry C := (r.contains id, r.erase id)

def ids (r : Registry C) : List String := r.keys

end Registry

end Statechart
