import Statechart.Step.Selection

/-! Microsteps: taking a set of transitions. States are exited innermost first, then the actions of
the transitions run, then states are entered outermost first. -/

namespace Statechart

structure Run (C : Type) where
  state : MachineState C
  internal : List Event := []
  pending : List (Pending C) := []
  executed : List String := []
  lifecycle : List Lifecycle := []
  output : Option Value := none
  microsteps : Nat := 0

namespace Run

variable {C : Type}

def start (s : MachineState C) : Run C := { state := s }

def setConfiguration (r : Run C) (s : Configuration) : Run C :=
  { r with state := { r.state with configuration := s } }

def runAction (m : Machine C) (source : NodeId) (event : Event) (r : Run C)
    (a : Named (Action C)) : Except StepError (Run C) :=
  let r := { r with executed := r.executed ++ [a.name] }
  match a.value with
  | .assign run => match run r.state.context event with
    | (context, none) => .ok { r with state := { r.state with context } }
    | (_, some cause) => .error (.action (m.node source).id a.name cause)
  | .raise raised => .ok { r with internal := r.internal ++ [raised] }
  | action => .ok { r with pending := r.pending ++ [⟨a.name, action, source, event⟩] }

def runActions (m : Machine C) (source : NodeId) (event : Event) (r : Run C)
    (l : List (Named (Action C))) : Except StepError (Run C) :=
  l.foldlM (runAction m source event) r

def remembered (c : Chart) (s : Configuration) (parent : NodeId) : HistoryKind → List NodeId
  | .deep => (c.atomicNodes s).filter (c.isDescendant · parent)
  | .shallow => s.elems.filter fun n => (c.node n).parent? = some parent

def recordHistory (c : Chart) (s : Configuration) (exiting : List NodeId) (memory : Memory) :
    Memory :=
  exiting.foldl (fun memory n => (c.node n).children.foldl (fun memory h =>
    match (c.node h).historyKind? with
    | none => memory
    | some kind => memory.insert h (remembered c s n kind)) memory) memory

def exitNode (m : Machine C) (event : Event) (r : Run C) (n : NodeId) :
    Except StepError (Run C) := do
  let r ← r.runActions m n event (m.partsOf n).exit
  return { r.setConfiguration (r.state.configuration.erase n) with
    lifecycle := Lifecycle.recordExit r.lifecycle n }

def exitNodes (m : Machine C) (event : Event) (r : Run C) (l : List NodeId) :
    Except StepError (Run C) :=
  l.foldlM (exitNode m event) r

/-- A final state that is entered completes its parent, and with it perhaps the parallel state
around that. The data of a final child of the root is the output of the machine. -/
def complete (m : Machine C) (event : Event) (r : Run C) (n : NodeId) :
    Except StepError (Run C) :=
  match (m.node n).parent? with
  | none => .ok r
  | some parent => do
    let data ← match (m.partsOf n).doneData with
      | none => Except.ok Value.null
      | some mapper => match mapper r.state.context event with
        | .ok data => .ok data
        | .error cause => .error (.doneData (m.node n).id cause)
    let around := (m.node parent).parent?.filter fun p =>
      (m.node p).isParallel && m.chart.isInFinalState r.state.configuration p
    return { r with
      output := if parent = rootId then some data else r.output
      internal := r.internal ++ .doneState (m.node parent).id data
        :: around.toList.map fun p => .doneState (m.node p).id .null }

def enterNode (m : Machine C) (event : Event) (r : Run C) (n : NodeId) :
    Except StepError (Run C) :=
  if n ∈ r.state.configuration then .ok r
  else do
    let r := { r.setConfiguration (r.state.configuration.insert n) with
      lifecycle := r.lifecycle ++ [Lifecycle.entered n] }
    let r ← r.runActions m n event (m.partsOf n).entry
    if (m.node n).isFinal then r.complete m event n else return r

def enterNodes (m : Machine C) (event : Event) (r : Run C) (l : List NodeId) :
    Except StepError (Run C) :=
  l.foldlM (enterNode m event) r

end Run

namespace Machine

variable {C : Type}

def exitSetOf (m : Machine C) (s : Configuration) (memory : Memory) (l : List TransitionRef) :
    Configuration :=
  l.foldl (fun all r => all.union (m.exitSet s memory r)) .empty

def entrySet (m : Machine C) (memory : Memory) (l : List TransitionRef) : Configuration :=
  l.foldl (fun all r =>
    let entered := (m.transitionAt r).targets.foldl (m.chart.enter memory) all
    (m.targetsOf memory r).foldl
      (fun all t => m.chart.enterAncestors memory all t (m.domain? memory r)) entered) .empty

def microstep (m : Machine C) (l : List TransitionRef) (event : Event) (r : Run C) :
    Except StepError (Run C) := do
  let exiting := m.exitSetOf r.state.configuration r.state.history l
  let history := Run.recordHistory m.chart r.state.configuration exiting.elems r.state.history
  let r := { r with state := { r.state with history }, microsteps := r.microsteps + 1 }
  let r ← r.exitNodes m event exiting.elems.reverse
  let r ← l.foldlM (fun r ref =>
    let t := m.transitionAt ref
    r.runActions m t.source event t.actions) r
  r.enterNodes m event (m.entrySet history l).elems

end Machine

end Statechart
