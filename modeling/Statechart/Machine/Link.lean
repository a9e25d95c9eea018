import Statechart.Chart.Layout
import Statechart.Machine.Basic
import Statechart.Text.Digits

/-! Linking: every name in the body of a state is looked up and every address resolved. -/

namespace Statechart

structure Linker (C : Type) where
  chart : Chart
  behaviors : Behaviors C

namespace Linker

variable {C : Type}

def lookUp {α : Type} (m : SortedMap String α) (unknown : String → Problem) :
    List String → Checked (List (Named α))
  | [] => pure []
  | name :: rest => do
    let found ← Checked.require (m.get? name) (unknown name)
    let others ← lookUp m unknown rest
    return (found.map (⟨name, ·⟩)).toList ++ others

def targets (l : Linker C) (source : NodeId) (state : String) :
    List String → Checked (List (Option NodeId))
  | [] => pure []
  | target :: rest => do
    let found ← Checked.require (l.chart.resolveTarget? source target)
      (.unresolvedTarget state target)
    return found :: (← l.targets source state rest)

def optional {α : Type} (find? : String → Option α) (unknown : String → Problem) :
    Option String → Checked (Option (Option α))
  | none => pure (some none)
  | some name => do
    let found ← Checked.require (find? name) (unknown name)
    return found.map some

/-- Transitions without targets, to their own source, or only to states below the source are
internal unless declared otherwise. An internal transition to its own source has no targets. -/
def assemble (l : Linker C) (source : NodeId) (selector : Selector) (t : TransitionDef)
    (targets : List NodeId) (guard : Option (Named (Guard C))) (inState : Option NodeId)
    (actions : List (Named (Action C))) : Transition C :=
  let childRelative := !t.target.isEmpty && t.target.all (Text.startsWith · l.chart.delimiter)
  let selfTargeted := !targets.isEmpty && targets.all (· = source)
  let internal := t.internal.getD (targets.isEmpty || childRelative || selfTargeted)
  { source, selector, guard, inState, actions, internal
    targets := if internal && selfTargeted then [] else targets
    metadata := t.metadata }

def transition (l : Linker C) (source : NodeId) (selector : Selector) (t : TransitionDef) :
    Checked (List (Transition C)) := do
  let state := (l.chart.node source).id
  let targets ← l.targets source state t.target
  let guard ← optional (fun name => (l.behaviors.guards.get? name).map (⟨name, ·⟩))
    (.unknownGuard state) t.guard
  let inState ← optional l.chart.resolveIn? (.unresolvedInState state) t.inState
  let actions ← lookUp l.behaviors.actions (.unknownAction state) t.actions
  return match targets.mapM id, guard, inState with
    | some targets, some guard, some inState =>
      if actions.length = t.actions.length then
        [l.assemble source selector t targets guard inState actions]
      else []
    | _, _, _ => []

def transitions (l : Linker C) (source : NodeId) (selector : Selector) :
    List TransitionDef → Checked (List (Transition C))
  | [] => pure []
  | t :: rest => do
    let first ← l.transition source selector t
    return first ++ (← l.transitions source selector rest)

def onEvents (l : Linker C) (source : NodeId) :
    List (String × List TransitionDef) → Checked (List (Transition C))
  | [] => pure []
  | (key, ts) :: rest => do
    let first ← l.transitions source (.ofKey key) ts
    return first ++ (← l.onEvents source rest)

def delaySource? (l : Linker C) (key : String) : Option (DelaySource C) :=
  match Text.unsigned64? (Text.trim key) with
  | some n => some (.fixed n)
  | none => (l.behaviors.delays.get? key).map (.named key ·)

def afterDelays (l : Linker C) (source : NodeId) :
    List (String × List TransitionDef) → Checked (List (DelayedEvent C) × List (Transition C))
  | [] => pure ([], [])
  | (key, ts) :: rest => do
    let state := (l.chart.node source).id
    let type := Event.afterType key state
    let delay ← Checked.require (l.delaySource? key) (.unknownDelay state key)
    let first ← l.transitions source (.exact type) ts
    let (delays, others) ← l.afterDelays source rest
    return ((delay.map (⟨key, type, ·⟩)).toList ++ delays, first ++ others)

def invokeId (state : String) (position : Nat) (i : InvokeDef) : String :=
  i.id.getD (state ++ ":invocation[" ++ toString position ++ "]")

def invokeIds (state : String) (l : List InvokeDef) : List String :=
  l.zipIdx.map fun e => invokeId state e.2 e.1

def invocations (l : Linker C) (source : NodeId) (used : List String) (position : Nat) :
    List InvokeDef → Checked (List (Invocation C) × List (Transition C))
  | [] => pure ([], [])
  | i :: rest => do
    let state := (l.chart.node source).id
    let id := invokeId state position i
    Checked.reportIf (id ∈ used) (.duplicateId id)
    let service ← Checked.require (l.behaviors.services.get? i.src) (.unknownService state i.src)
    let done ← l.transitions source (.exact (Event.doneInvokeType id)) i.onDone
    let failed ← l.transitions source (.exact (Event.errorInvokeType id)) i.onError
    let (others, otherTransitions) ← l.invocations source (id :: used) (position + 1) rest
    return ((service.map (⟨id, i.src, ·⟩)).toList ++ others, done ++ failed ++ otherTransitions)

/-- Without a declared target, the regions of a parallel parent are entered, else the initial child
of the parent or, if that is a history state itself, its first other child. -/
def historyDefault (l : Linker C) (source : NodeId) (target : Option String) :
    Checked (List NodeId) :=
  let n := l.chart.node source
  match target, n.parent? with
  | some target, _ => do
    let found ← Checked.require (l.chart.resolveTarget? source target)
      (.unresolvedTarget n.id target)
    return found.toList
  | none, none => pure []
  | none, some parent =>
    let regular := l.chart.regularChildren parent
    if (l.chart.node parent).isParallel then pure regular
    else match (l.chart.node parent).initial with
      | some initial =>
        if (l.chart.node initial).isHistory then pure (regular.take 1) else pure [initial]
      | none => pure (regular.take 1)

def state (l : Linker C) (source : NodeId) (used : List String) (b : StateBody) :
    Checked (Parts C × List NodeId) := do
  let id := (l.chart.node source).id
  let on ← l.onEvents source b.on.entries
  let always ← l.transitions source .eventless b.always
  let (delays, after) ← l.afterDelays source b.after.entries
  let done ← l.transitions source (.exact (Event.doneStateType id)) b.onDone
  let (invocations, invoked) ← l.invocations source used 0 b.invoke
  let entry ← lookUp l.behaviors.actions (.unknownAction id) b.entry
  let exit ← lookUp l.behaviors.actions (.unknownAction id) b.exit
  let activities ← lookUp l.behaviors.activities (.unknownActivity id) b.activities
  let doneData ← optional l.behaviors.data.get? (.unknownDataMapper id) b.data
  let default ←
    if (l.chart.node source).isHistory then l.historyDefault source b.target else pure []
  return ({ transitions := on ++ always ++ after ++ done ++ invoked
            entry, exit, invocations, activities, delays
            doneData := doneData.join
            metadata := b.metadata }, default)

def states (l : Linker C) (source : NodeId) (used : List String) :
    List StateBody → Checked (List (Parts C × List NodeId))
  | [] => pure []
  | b :: rest => do
    let first ← l.state source used b
    let ids := invokeIds (l.chart.node source).id b.invoke
    return first :: (← l.states (source + 1) (ids ++ used) rest)

end Linker

end Statechart
