import Statechart.Chart.Basic
import Statechart.SortedMap
import Statechart.SortedSet
import Statechart.StateValue

/-! Configurations: the set of active states of a chart, the memory that history states keep of
earlier ones, when a state counts as completed, and the value that shows a configuration. -/

namespace Statechart

abbrev Configuration := SortedSet NodeId

abbrev Memory := SortedMap NodeId (List NodeId)

namespace Chart

def atomicNodes (c : Chart) (s : Configuration) : List NodeId :=
  s.elems.filter fun n => (c.node n).isAtomic

def idsOf (c : Chart) (l : List NodeId) : List String := l.map fun n => (c.node n).id

def atomicPaths (c : Chart) (s : Configuration) : List String :=
  (c.atomicNodes s).map c.descriptor

def finalWithin (c : Chart) (s : Configuration) : Nat → NodeId → Bool
  | 0, _ => false
  | depth + 1, n =>
    if (c.node n).isCompound then
      (c.node n).children.any fun child => child ∈ s && (c.node child).isFinal
    else if (c.node n).isParallel then
      (c.regularChildren n).all fun child =>
        ((c.node child).isFinal && child ∈ s) || c.finalWithin s depth child
    else false

/-- A compound state is in a final state if a final child is active, a parallel one if each region
is final or in a final state. No chain of states is longer than the chart. -/
def isInFinalState (c : Chart) (s : Configuration) (n : NodeId) : Bool := c.finalWithin s c.size n

def valueWithin (c : Chart) (s : Configuration) : Nat → NodeId → StateValue
  | 0, _ => .branch .empty
  | depth + 1, n =>
    let active := (c.regularChildren n).filter (· ∈ s)
    if (c.node n).isParallel then
      .branch (.ofList (active.map fun child =>
        ((c.node child).key,
          if (c.node child).isAtomic then .branch .empty else c.valueWithin s depth child)))
    else match active with
      | [] => .branch .empty
      | child :: _ =>
        if (c.node child).isAtomic then .leaf (c.node child).key
        else .branch (SortedMap.empty.insert (c.node child).key (c.valueWithin s depth child))

def valueOf (c : Chart) (s : Configuration) : StateValue := c.valueWithin s c.size rootId

end Chart

end Statechart
