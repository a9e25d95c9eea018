import Statechart.Configuration.Basic

/-! Which states are entered along with a state: the initial child of a compound state, all regions
of a parallel one, what a history state remembers, and the ancestors up to a given one. -/

namespace Statechart.Chart

def hasDescendant (c : Chart) (s : Configuration) (n : NodeId) : Bool :=
  s.elems.any (c.isDescendant · n)

def historyTargets (c : Chart) (memory : Memory) (h : NodeId) : List NodeId :=
  (memory.get? h).getD (c.node h).historyDefault

def fillRegions (c : Chart) (enter : Configuration → NodeId → Configuration) (s : Configuration)
    (n : NodeId) : Configuration :=
  (c.regularChildren n).foldl
    (fun s child => if c.hasDescendant s child then s else enter s child) s

def ancestorsBelow (c : Chart) (n : NodeId) (stop : Option NodeId) : List NodeId :=
  (c.node n).ancestors.takeWhile fun a => some a ≠ stop

def addAncestors (c : Chart) (enter : Configuration → NodeId → Configuration) (s : Configuration)
    (n : NodeId) (stop : Option NodeId) : Configuration :=
  (c.ancestorsBelow n stop).foldl
    (fun s a =>
      if (c.node a).isParallel then c.fillRegions enter (s.insert a) a else s.insert a) s

def enterWithin (c : Chart) (memory : Memory) : Nat → Configuration → NodeId → Configuration
  | 0, s, _ => s
  | depth + 1, s, n =>
    let enter := c.enterWithin memory depth
    if (c.node n).isHistory then
      let targets := c.historyTargets memory n
      targets.foldl (fun s t => c.addAncestors enter s t (c.node n).parent?) (targets.foldl enter s)
    else if (c.node n).isCompound then
      match (c.node n).initial with
      | none => s.insert n
      | some initial => c.addAncestors enter (enter (s.insert n) initial) initial (some n)
    else if (c.node n).isParallel then c.fillRegions enter (s.insert n) n
    else s.insert n

/-- Entering that ends nests fewer calls than the square of the number of states, since the set
grows between two visits of one state. Entering that does not end is cut off far beyond that. -/
def entryDepth (c : Chart) : Nat := Nat.pow 2 32 * (c.size * c.size) + 1

def enter (c : Chart) (memory : Memory) : Configuration → NodeId → Configuration :=
  c.enterWithin memory c.entryDepth

def enterAncestors (c : Chart) (memory : Memory) (s : Configuration) (n : NodeId)
    (stop : Option NodeId) : Configuration :=
  c.addAncestors (c.enter memory) s n stop

def expandWithin (c : Chart) (memory : Memory) : Nat → NodeId → List NodeId
  | 0, _ => []
  | depth + 1, n =>
    if (c.node n).isHistory then
      (c.historyTargets memory n).flatMap (c.expandWithin memory depth)
    else [n]

def dropRepeats : List NodeId → List NodeId
  | [] => []
  | n :: rest => n :: (dropRepeats rest).filter (· ≠ n)

def effectiveTargets (c : Chart) (memory : Memory) (targets : List NodeId) : List NodeId :=
  dropRepeats (targets.flatMap (c.expandWithin memory c.entryDepth))

end Statechart.Chart
