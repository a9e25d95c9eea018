import Statechart.Configuration.Entry

/-! Resolving: completing any states to a configuration. -/

namespace Statechart.Chart

def withAncestors (c : Chart) (s : Configuration) (n : NodeId) : Configuration :=
  (s.insert n).insertAll (c.node n).ancestors

def complete (c : Chart) (memory : Memory) (s : Configuration) (n : NodeId) : Configuration :=
  if n ∈ s then
    if (c.node n).isCompound then
      match (c.node n).initial with
      | none => s
      | some initial =>
        if (c.node n).children.any (· ∈ s) then s
        else c.enterAncestors memory (c.enter memory s initial) initial (some n)
    else if (c.node n).isParallel then c.fillRegions (c.enter memory) s n
    else s
  else s

def resolve (c : Chart) (nodes : List NodeId) (memory : Memory) : Configuration :=
  let regular := nodes.filter fun n => !(c.node n).isHistory
  let histories := nodes.filter fun n => (c.node n).isHistory
  let given := regular.foldl c.withAncestors (SortedSet.empty.insert rootId)
  let recalled := histories.foldl
    (fun s h => (c.enter memory s h).insertAll (c.node h).ancestors) given
  c.ids.foldl (c.complete memory) recalled

def configurationOf? (c : Chart) (value : StateValue) (memory : Memory) : Option Configuration :=
  ((value.leaves c.delimiter).mapM c.findDescriptor?).map (c.resolve · memory)

end Statechart.Chart
