import Statechart.Definition.Basic
import Statechart.Text.Split

/-! Charts: the tree of states, laid out in preorder. States are known by their index, so comparing
two indices compares document order, and the states below a state are the indices behind it up to
the end of its subtree. In the address of a target or a condition, `#` starts with an id, a leading
delimiter with the source itself, anything else with the parent of the source. -/

namespace Statechart

abbrev NodeId := Nat

def rootId : NodeId := 0

inductive NodeKind where
  | atomic
  | compound
  | parallel
  | final
  | history (kind : HistoryKind)
  deriving DecidableEq

/-- `ancestors` starts with the parent and ends with the root. -/
structure StateNode where
  key : String
  id : String
  path : List String
  kind : NodeKind
  ancestors : List NodeId
  children : List NodeId
  subtreeEnd : Nat
  initial : Option NodeId
  historyDefault : List NodeId

namespace StateNode

def nowhere : StateNode := ⟨"", "", [], .atomic, [], [], 0, none, []⟩

instance : Inhabited StateNode := ⟨nowhere⟩

def parent? (n : StateNode) : Option NodeId := n.ancestors.head?

def isAtomic (n : StateNode) : Bool := n.kind = .atomic || n.kind = .final

def isCompound (n : StateNode) : Bool := n.kind = .compound

def isParallel (n : StateNode) : Bool := n.kind = .parallel

def isFinal (n : StateNode) : Bool := n.kind = .final

def historyKind? (n : StateNode) : Option HistoryKind :=
  match n.kind with
  | .history k => some k
  | _ => none

def isHistory (n : StateNode) : Bool := n.historyKind?.isSome

end StateNode

structure Chart where
  delimiter : String
  nodes : List StateNode

namespace Chart

def size (c : Chart) : Nat := c.nodes.length

def node (c : Chart) (n : NodeId) : StateNode := c.nodes.getD n .nowhere

def ids (c : Chart) : List NodeId := List.range c.size

def isDescendant (c : Chart) (n ancestor : NodeId) : Bool :=
  ancestor < n && n < (c.node ancestor).subtreeEnd

def regularChildren (c : Chart) (n : NodeId) : List NodeId :=
  (c.node n).children.filter fun child => !(c.node child).isHistory

def child? (c : Chart) (n : NodeId) (key : String) : Option NodeId :=
  (c.node n).children.find? fun child => (c.node child).key = key

def descend? (c : Chart) (n : NodeId) (path : String) : Option NodeId :=
  (Text.segments c.delimiter path).foldlM c.child? n

def findDescriptor? (c : Chart) (descriptor : String) : Option NodeId :=
  c.descend? rootId descriptor

def descriptor (c : Chart) (n : NodeId) : String := Text.join c.delimiter (c.node n).path

def lastIndex? (id : String) : List String → Option Nat
  | [] => none
  | x :: rest => match lastIndex? id rest with
    | some i => some (i + 1)
    | none => if x = id then some 0 else none

def find? (c : Chart) (id : String) : Option NodeId := lastIndex? id (c.nodes.map StateNode.id)

/-- The longest start of the reference that is an id counts, if the rest leads on from there;
otherwise shorter ones are tried. -/
def resolveReference? (c : Chart) (reference : String) : Option NodeId :=
  let segments := Text.split c.delimiter reference
  (List.range segments.length).reverse.findSome? fun k => do
    let n ← c.find? (Text.join c.delimiter (segments.take (k + 1)))
    c.descend? n (Text.join c.delimiter (segments.drop (k + 1)))

def resolveTarget? (c : Chart) (source : NodeId) (target : String) : Option NodeId :=
  if target = "" then none
  else
    match Text.stripStart? "#" target, Text.stripStart? c.delimiter target with
    | some reference, _ => c.resolveReference? reference
    | none, some path => c.descend? source path
    | none, none => c.descend? ((c.node source).parent?.getD rootId) target

def resolveIn? (c : Chart) (descriptor : String) : Option NodeId :=
  match Text.stripStart? "#" descriptor with
  | some reference => c.resolveReference? reference
  | none => c.findDescriptor? descriptor

end Chart

end Statechart
