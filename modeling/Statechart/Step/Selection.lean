import Statechart.Configuration.Entry
import Statechart.Step.Basic

/-! Selection: which transitions an event enables. For each active atomic state the first enabled
candidate is chosen, innermost state first; of two whose exit sets meet, the one with the inner
source stays, else the earlier one. -/

namespace Statechart

structure TransitionRef where
  node : NodeId
  index : Nat
  deriving DecidableEq

namespace Machine

variable {C : Type}

def transitionAt (m : Machine C) (r : TransitionRef) : Transition C :=
  (m.partsOf r.node).transitions.getD r.index
    { source := r.node, selector := .eventless, targets := [], guard := none, inState := none
      actions := [], internal := true, metadata := none }

def targetsOf (m : Machine C) (memory : Memory) (r : TransitionRef) : List NodeId :=
  m.chart.effectiveTargets memory (m.transitionAt r).targets

/-- The innermost state that stays active while the transition is taken; none for a transition
without targets. -/
def domain? (m : Machine C) (memory : Memory) (r : TransitionRef) : Option NodeId :=
  let targets := m.targetsOf memory r
  let t := m.transitionAt r
  let below (a : NodeId) : Bool := targets.all (m.chart.isDescendant · a)
  if targets.isEmpty then none
  else if t.internal && (m.node t.source).isCompound && below t.source then some t.source
  else
    let scopes := (m.node t.source).ancestors.filter fun a => a = rootId || (m.node a).isCompound
    some ((scopes.find? below).getD rootId)

def exitSet (m : Machine C) (s : Configuration) (memory : Memory) (r : TransitionRef) :
    Configuration :=
  match m.domain? memory r with
  | none => .empty
  | some d => s.filter (m.chart.isDescendant · d)

def candidatesWhere (m : Machine C) (n : NodeId) (p : Selector → Bool) : List TransitionRef :=
  (m.partsOf n).transitions.zipIdx.filterMap fun e =>
    if p e.1.selector then some ⟨n, e.2⟩ else none

def candidates (m : Machine C) (n : NodeId) (event : Event) (eventless : Bool) :
    List TransitionRef :=
  if eventless then m.candidatesWhere n (· = .eventless)
  else m.candidatesWhere n (· = .exact event.type) ++ m.candidatesWhere n (· = .wildcard)

def isEnabled (m : Machine C) (s : MachineState C) (event : Event) (r : TransitionRef) :
    Except StepError Bool :=
  let t := m.transitionAt r
  if t.inState.all (· ∈ s.configuration) then
    match t.guard with
    | none => .ok true
    | some g => match g.value s.context event with
      | .ok b => .ok b
      | .error cause => .error (.guard (m.node t.source).id g.name cause)
  else .ok false

def firstEnabled? (m : Machine C) (s : MachineState C) (event : Event) :
    List TransitionRef → Except StepError (Option TransitionRef)
  | [] => .ok none
  | r :: rest => do
    if ← m.isEnabled s event r then return some r else m.firstEnabled? s event rest

def chosenFor? (m : Machine C) (s : MachineState C) (event : Event) (eventless : Bool)
    (n : NodeId) : Except StepError (Option TransitionRef) :=
  m.firstEnabled? s event
    ((n :: (m.node n).ancestors).flatMap fun a => m.candidates a event eventless)

def chosen (m : Machine C) (s : MachineState C) (event : Event) (eventless : Bool) :
    List NodeId → Except StepError (List TransitionRef)
  | [] => .ok []
  | n :: rest => do
    let first ← m.chosenFor? s event eventless n
    let others ← m.chosen s event eventless rest
    return match first with
      | none => others
      | some r => r :: others.filter (· ≠ r)

def keep (m : Machine C) (s : Configuration) (memory : Memory) (kept : List TransitionRef)
    (r : TransitionRef) : List TransitionRef :=
  let exits := m.exitSet s memory r
  let meets (k : TransitionRef) : Bool := (m.exitSet s memory k).elems.any (· ∈ exits)
  let outranks (k : TransitionRef) : Bool :=
    m.chart.isDescendant (m.transitionAt r).source (m.transitionAt k).source
  if (kept.filter meets).all outranks then kept.filter (fun k => !meets k) ++ [r] else kept

def removeConflicts (m : Machine C) (s : Configuration) (memory : Memory)
    (l : List TransitionRef) : List TransitionRef :=
  l.foldl (m.keep s memory) []

def select (m : Machine C) (s : MachineState C) (event : Event) (eventless : Bool) :
    Except StepError (List TransitionRef) := do
  let chosen ← m.chosen s event eventless (m.chart.atomicNodes s.configuration)
  return m.removeConflicts s.configuration s.history chosen

end Machine

end Statechart
