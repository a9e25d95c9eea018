import Statechart.Chart.Basic
import Statechart.Machine.Problem

/-! Laying out the states of a definition as a chart, and what can be wrong with the shape of the
tree. -/

namespace Statechart

structure Naming where
  machine : String
  delimiter : String

structure Placed where
  body : StateBody
  node : StateNode

namespace StateDef

def historyKind? (s : StateDef) : Option HistoryKind := s.history.bind HistoryMark.kind?

def kind (s : StateDef) : NodeKind :=
  match s.type with
  | some .atomic => .atomic
  | some .compound => .compound
  | some .parallel => .parallel
  | some .final => .final
  | some .history => .history (s.historyKind?.getD .shallow)
  | none =>
    if s.states.isEmpty then
      match s.historyKind? with
      | some k => .history k
      | none => .atomic
    else .compound

def childIndices (next : NodeId) : List (String × StateDef) → List (String × NodeId)
  | [] => []
  | (key, s) :: rest => (key, next) :: childIndices (next + s.size) rest

def initialIndex? (index : NodeId) (s : StateDef) : Option NodeId :=
  if s.kind = .compound then
    s.initial.bind (Keyed.get? (childIndices (index + 1) s.states))
  else none

def nodeAt (names : Naming) (index : NodeId) (ancestors : List NodeId) (path : List String)
    (s : StateDef) : StateNode where
  key := path.getLast?.getD names.machine
  id := s.id.getD <|
    if ancestors.isEmpty then names.machine
    else names.machine ++ names.delimiter ++ Text.join names.delimiter path
  path := path
  kind := s.kind
  ancestors := ancestors
  children := (childIndices (index + 1) s.states).map Prod.snd
  subtreeEnd := index + s.size
  initial := s.initialIndex? index
  historyDefault := []

mutual

def place (names : Naming) (index : NodeId) (ancestors : List NodeId) (path : List String) :
    StateDef → List Placed
  | ⟨body, states⟩ =>
    ⟨body, nodeAt names index ancestors path ⟨body, states⟩⟩
      :: placeAll names (index + 1) (index :: ancestors) path states

def placeAll (names : Naming) (index : NodeId) (ancestors : List NodeId) (path : List String) :
    List (String × StateDef) → List Placed
  | [] => []
  | (key, s) :: rest => place names index ancestors (path ++ [key]) s
      ++ placeAll names (index + s.size) ancestors path rest

end

end StateDef

namespace Layout

def duplicateIds (seen : List String) : List Placed → List Problem
  | [] => []
  | p :: rest =>
    (if p.node.id ∈ seen then [.duplicateId p.node.id] else [])
      ++ duplicateIds (p.node.id :: seen) rest

def shapeProblem? (n : StateNode) : Option Problem :=
  match n.kind with
  | .history _ =>
    if n.ancestors.isEmpty then
      some (.invalidHistory n.id "the root cannot be a history state")
    else if n.children.isEmpty then none
    else some (.invalidHistory n.id "history states cannot have child states")
  | .atomic => if n.children.isEmpty then none else some (.leafWithChildren n.id "atomic")
  | .final => if n.children.isEmpty then none else some (.leafWithChildren n.id "final")
  | _ => none

def initialProblem? (p : Placed) : Option Problem :=
  if p.node.isCompound && p.node.initial.isNone then
    match p.body.initial with
    | none => some (.missingInitial p.node.id)
    | some key => some (.invalidInitial p.node.id key)
  else none

def problems (ps : List Placed) : List Problem :=
  duplicateIds [] ps ++ ps.filterMap (fun p => shapeProblem? p.node) ++ ps.filterMap initialProblem?

end Layout

end Statechart
