import Statechart.Configuration.Basic
import Statechart.Machine.Basic

/-! Steps: what handling one event gives, as data. Nothing is done to the world outside. -/

namespace Statechart

structure MachineState (C : Type) where
  configuration : Configuration
  context : C
  history : Memory

inductive StepError where
  | guard (state guard : String) (cause : GuardError)
  | action (state action : String) (cause : ActionError)
  | doneData (state : String) (cause : ActionError)
  | unsettled (event : String) (limit : Nat)
  | unknownEvent (machine event : String)
  | unknownState (machine state : String)
  deriving DecidableEq

def StepError.message : StepError → String
  | .guard state name cause =>
    "Guard '" ++ name ++ "' on a transition from '" ++ state ++ "' failed: " ++ cause.message
  | .action state name cause =>
    "Action '" ++ name ++ "' in '" ++ state ++ "' failed: " ++ cause.message
  | .doneData state cause =>
    "Done data of final state '" ++ state ++ "' could not be computed: " ++ cause.message
  | .unsettled event limit =>
    "Event '" ++ event ++ "' did not settle within " ++ toString limit ++ " microsteps"
  | .unknownEvent machine event =>
    "Machine '" ++ machine ++ "' does not accept event '" ++ event ++ "'"
  | .unknownState machine state =>
    "Machine '" ++ machine ++ "' has no state with id '" ++ state ++ "'"

inductive Lifecycle where
  | entered (node : NodeId)
  | exited (node : NodeId)
  deriving DecidableEq

namespace Lifecycle

def enteredNode? : Lifecycle → Option NodeId
  | .entered n => some n
  | .exited _ => none

def exitedNode? : Lifecycle → Option NodeId
  | .exited n => some n
  | .entered _ => none

def dropLast? (p : Lifecycle → Bool) : List Lifecycle → Option (List Lifecycle)
  | [] => none
  | l :: rest => match dropLast? p rest with
    | some rest => some (l :: rest)
    | none => if p l then some rest else none

def recordExit (log : List Lifecycle) (n : NodeId) : List Lifecycle :=
  (dropLast? (· = .entered n) log).getD (log ++ [.exited n])

end Lifecycle

structure Pending (C : Type) where
  name : String
  action : Action C
  source : NodeId
  event : Event

def Pending.text {C : Type} (p : Pending C) : String :=
  p.name ++ " (" ++ p.action.text ++ ") on " ++ p.event.type

structure Step (C : Type) where
  event : Event
  state : MachineState C
  actions : List (Pending C)
  executed : List String
  lifecycle : List Lifecycle
  changed : Bool
  done : Bool
  output : Option Value
  microsteps : Nat

namespace Step

variable {C : Type}

def entered (s : Step C) : List NodeId := s.lifecycle.filterMap Lifecycle.enteredNode?

def exited (s : Step C) : List NodeId := s.lifecycle.filterMap Lifecycle.exitedNode?

def servicesToStart (s : Step C) (m : Machine C) : List (Invocation C) :=
  s.entered.flatMap fun n => (m.partsOf n).invocations

def servicesToStop (s : Step C) (m : Machine C) : List (Invocation C) :=
  s.exited.flatMap fun n => (m.partsOf n).invocations

def timersToSchedule (s : Step C) (m : Machine C) : List (DelayedEvent C) :=
  s.entered.flatMap fun n => (m.partsOf n).delays

def timersToCancel (s : Step C) (m : Machine C) : List (DelayedEvent C) :=
  s.exited.flatMap fun n => (m.partsOf n).delays

end Step

end Statechart
