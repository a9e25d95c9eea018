import Statechart.Event
import Statechart.SortedMap

/-! Behaviours: the functions behind the names that a definition uses. A behaviour sees the context
and an event. What it does to the world outside is a value that it answers with. -/

namespace Statechart

structure GuardError where
  message : String
  deriving DecidableEq

structure ActionError where
  message : String
  deriving DecidableEq

abbrev Guard (C : Type) := C → Event → Except GuardError Bool

abbrev DataMapper (C : Type) := C → Event → Except ActionError Value

abbrev Delay (C : Type) := C → Event → Nat

inductive Action (C : Type) where
  | assign (run : C → Event → C × Option ActionError)
  | effect (run : C → Event → Except ActionError Value)
  | raise (event : Event)
  | send (event : Event)
  | log (line : C → Event → Value)

namespace Action

variable {C : Type}

def apply (a : Action C) (context : C) (event : Event) : C × Option ActionError :=
  match a with
  | .assign run => run context event
  | _ => (context, none)

def isAssign : Action C → Bool
  | .assign _ => true
  | _ => false

def text : Action C → String
  | .assign _ => "Assign(..)"
  | .effect _ => "Effect(..)"
  | .raise e => "Raise(" ++ e.type ++ ")"
  | .send e => "Send(" ++ e.type ++ ")"
  | .log _ => "Log(..)"

end Action

structure Activity (C : Type) where
  started : C → Event → Value
  stopped : C → Event → Value

inductive ServiceStep where
  | sleep (millis : Nat)
  | emit (event : Event)

inductive ServiceResult where
  | finished (output : Value)
  | failed (message : String)
  | never

structure ServiceRun where
  note : Value
  steps : List ServiceStep
  result : ServiceResult

abbrev Service (C : Type) := String → C → Event → ServiceRun

structure Behaviors (C : Type) where
  guards : SortedMap String (Guard C) := .empty
  actions : SortedMap String (Action C) := .empty
  services : SortedMap String (Service C) := .empty
  activities : SortedMap String (Activity C) := .empty
  delays : SortedMap String (Delay C) := .empty
  data : SortedMap String (DataMapper C) := .empty

namespace Behaviors

variable {C : Type}

def merge (a b : Behaviors C) : Behaviors C where
  guards := a.guards.union b.guards
  actions := a.actions.union b.actions
  services := a.services.union b.services
  activities := a.activities.union b.activities
  delays := a.delays.union b.delays
  data := a.data.union b.data

def hasGuard (b : Behaviors C) (name : String) : Bool := b.guards.contains name

end Behaviors

end Statechart
