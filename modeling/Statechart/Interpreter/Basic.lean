import Statechart.Checkpoint.Basic
import Statechart.Interpreter.Settings
import Statechart.Interpreter.Work

/-! Interpreters: a machine that runs, with its queue of events, its work and its listeners. All
that an interpreter does to the world outside is kept as a trace of observations. -/

namespace Statechart

inductive Status where
  | notStarted
  | running
  | stopped
  deriving DecidableEq

inductive InterpreterError where
  | step (cause : StepError)
  | notStarted (machine event : String)
  | stopped (machine : String)
  | noRuntime (machine : String)
  | checkpoint (cause : CheckpointError)
  deriving DecidableEq

def InterpreterError.message : InterpreterError → String
  | .step cause => cause.message
  | .notStarted machine event =>
    "Event '" ++ event ++ "' sent to '" ++ machine ++ "' before it was started"
  | .stopped machine => "Interpreter of '" ++ machine ++ "' has been stopped"
  | .noRuntime machine => "Machine '" ++ machine
    ++ "' uses delayed transitions or services and needs a tokio runtime"
  | .checkpoint cause => cause.message

abbrev Subscription := Nat

inductive Observation (C : Type) where
  | performed (source : NodeId) (action : String) (note : Value)
  | activityStarted (node : NodeId) (name : String) (note : Value)
  | activityStopped (node : NodeId) (name : String) (note : Value)
  | serviceStarted (node : NodeId) (id : String) (note : Value)
  | notified (listener : Subscription) (snapshot : Snapshot C)
  | reported (listener : Subscription) (error : StepError)

structure Interpreter (C : Type) where
  machine : Machine C
  settings : Settings
  status : Status := .notStarted
  state : Option (MachineState C) := none
  snapshot : Option (Snapshot C) := none
  deferred : List Event := []
  queue : List Event := []
  work : Work
  listeners : List Subscription := []
  errorListeners : List Subscription := []
  subscriptions : Nat := 0
  transitions : TransitionLog := .empty
  date : Timestamp
  metadata : CheckpointMetadata := .startingAt date
  trace : List (Observation C) := []

namespace Interpreter

variable {C : Type}

def create (m : Machine C) (settings : Settings) (hasRuntime : Bool) (date : Timestamp) :
    Interpreter C :=
  { machine := m, settings, work := { hasRuntime }, date }

def observe (i : Interpreter C) (l : List (Observation C)) : Interpreter C :=
  { i with trace := i.trace ++ l }

def pendingTimers (i : Interpreter C) : Nat := i.work.timers.length

def runningServices (i : Interpreter C) : Nat := i.work.services.length

def activePaths (i : Interpreter C) : List String :=
  match i.state with
  | none => []
  | some s => i.machine.chart.atomicPaths s.configuration

def notify (i : Interpreter C) (s : Snapshot C) : Interpreter C :=
  i.observe (i.listeners.map (.notified · s))

def report (i : Interpreter C) (e : StepError) : Interpreter C :=
  i.observe (i.errorListeners.map (.reported · e))

def subscribe (i : Interpreter C) : Subscription × Interpreter C :=
  let n := i.subscriptions + 1
  let i := i.observe (i.snapshot.toList.map (.notified n))
  (n, { i with subscriptions := n, listeners := i.listeners ++ [n] })

def subscribeToErrors (i : Interpreter C) : Subscription × Interpreter C :=
  let n := i.subscriptions + 1
  (n, { i with subscriptions := n, errorListeners := i.errorListeners ++ [n] })

def unsubscribe (i : Interpreter C) (n : Subscription) : Bool × Interpreter C :=
  (i.listeners.contains n || i.errorListeners.contains n,
    { i with
      listeners := i.listeners.filter (· ≠ n)
      errorListeners := i.errorListeners.filter (· ≠ n) })

end Interpreter

end Statechart
