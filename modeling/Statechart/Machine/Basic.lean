import Statechart.Behavior
import Statechart.Chart.Basic
import Statechart.SortedSet

/-! Machines: a chart whose states carry linked behaviour. -/

namespace Statechart

structure Named (α : Type) where
  name : String
  value : α

structure Transition (C : Type) where
  source : NodeId
  selector : Selector
  targets : List NodeId
  guard : Option (Named (Guard C))
  inState : Option NodeId
  actions : List (Named (Action C))
  internal : Bool
  metadata : Option Value

structure Invocation (C : Type) where
  id : String
  src : String
  service : Service C

inductive DelaySource (C : Type) where
  | fixed (millis : Nat)
  | named (name : String) (delay : Delay C)

def DelaySource.millis {C : Type} (d : DelaySource C) (context : C) (event : Event) : Nat :=
  match d with
  | .fixed n => n
  | .named _ delay => delay context event

structure DelayedEvent (C : Type) where
  key : String
  type : String
  delay : DelaySource C

structure Parts (C : Type) where
  transitions : List (Transition C) := []
  entry : List (Named (Action C)) := []
  exit : List (Named (Action C)) := []
  invocations : List (Invocation C) := []
  activities : List (Named (Activity C)) := []
  delays : List (DelayedEvent C) := []
  doneData : Option (DataMapper C) := none
  metadata : Option Value := none

instance {C : Type} : Inhabited (Parts C) := ⟨{}⟩

structure References where
  guards : SortedSet String
  actions : SortedSet String
  services : SortedSet String
  activities : SortedSet String
  data : SortedSet String
  delays : SortedSet String

structure Machine (C : Type) where
  id : String
  version : Option String
  strict : Bool
  chart : Chart
  parts : List (Parts C)
  explicitIds : List String
  context : C
  references : References

namespace Machine

variable {C : Type}

def node (m : Machine C) (n : NodeId) : StateNode := m.chart.node n

def partsOf (m : Machine C) (n : NodeId) : Parts C := m.parts.getD n {}

def allTransitions (m : Machine C) : List (Transition C) := m.parts.flatMap Parts.transitions

def accepts (m : Machine C) (type : String) : Bool :=
  m.allTransitions.any fun t => t.selector.acceptsType type

def needsRuntime (m : Machine C) : Bool :=
  m.parts.any fun p => !p.delays.isEmpty || !p.invocations.isEmpty

def withContext (m : Machine C) (context : C) : Machine C := { m with context }

end Machine

end Statechart
