import Statechart.Step.Settle

/-! Snapshots: the state of a machine by ids and descriptors, as it is shown and stored. -/

namespace Statechart

structure Snapshot (C : Type) where
  value : StateValue
  context : C
  event : Event
  configuration : List String
  changed : Bool
  done : Bool
  output : Option Value
  actions : List String
  nextEvents : List String
  metadata : SortedMap String Value
  history : SortedMap String (List String)
  delimiter : String

def idListsToJson (m : SortedMap String (List String)) : Json :=
  .obj (m.entries.map fun e => (e.1, .strs e.2))

def idListsOfJson? (j : Json) : Option (SortedMap String (List String)) :=
  (j.entries? (Json.list? Json.string?)).map SortedMap.ofList

namespace Snapshot

variable {C : Type}

def matchesValue (s : Snapshot C) (v : StateValue) : Bool := s.value.contains v

def matchesDescriptor (s : Snapshot C) (descriptor : String) : Bool :=
  s.matchesValue (.ofDescriptor descriptor s.delimiter)

def can (s : Snapshot C) (type : String) : Bool := s.nextEvents.contains type

def toStrings (s : Snapshot C) : List String := s.value.paths s.delimiter

variable [JsonCoded C]

def toJson (s : Snapshot C) : Json := .objOf
  [("value", some s.value.toJson), ("context", some (JsonCoded.toJson s.context)),
    ("event", some s.event.toJson), ("configuration", some (.strs s.configuration)),
    ("changed", some (.bool s.changed)), ("done", some (.bool s.done)),
    ("output", s.output.map Value.json), ("actions", some (.strs s.actions)),
    ("next_events", some (.strs s.nextEvents)),
    ("meta", some (.obj (s.metadata.entries.map fun e => (e.1, e.2.json)))),
    ("history", some (idListsToJson s.history)), ("delimiter", some (.str s.delimiter))]

open Json (required defaulted nullable string? bool? list? record?)

def shape (C : Type) [JsonCoded C] : Json.Shape := .record
  [("value", .whole), ("context", JsonCoded.shape C), ("event", JsonCoded.shape Event),
    ("configuration", .whole), ("changed", .whole), ("done", .whole), ("output", .whole),
    ("actions", .whole), ("next_events", .whole), ("meta", .whole), ("history", .whole),
    ("delimiter", .whole)]

def ofJson? (j : Json) : Option (Snapshot C) :=
  let names := ["value", "context", "event", "configuration", "changed", "done", "output",
    "actions", "next_events", "meta", "history", "delimiter"]
  match record? (names.map ([·])) j with
  | some [value, context, event, configuration, changed, done, output, actions, nextEvents,
      metadata, history, delimiter] => do
    return {
      value := ← required StateValue.ofJson? value
      context := ← required JsonCoded.ofJson? context
      event := ← required Event.ofJson? event
      configuration := ← required (list? string?) configuration
      changed := ← required bool? changed
      done := ← required bool? done
      output := ← defaulted none (nullable (some ∘ Value.ofJson)) output
      actions := ← required (list? string?) actions
      nextEvents := ← required (list? string?) nextEvents
      metadata := ← required (fun j => (j.entries? (some ∘ Value.ofJson)).map SortedMap.ofList)
        metadata
      history := ← defaulted .empty idListsOfJson? history
      delimiter := ← required string? delimiter }
  | _ => none

instance : JsonCoded (Snapshot C) := ⟨toJson, ofJson?, shape C⟩

end Snapshot

namespace Machine

variable {C : Type}

def nextEvents (m : Machine C) (s : Configuration) : SortedSet String :=
  .ofList ((s.elems.flatMap fun n => (m.partsOf n).transitions).filterMap fun t =>
    match t.selector with
    | .wildcard => some "*"
    | selector => selector.ownType?)

def historyById (m : Machine C) (memory : Memory) : SortedMap String (List String) :=
  .ofList (memory.entries.map fun e => ((m.node e.1).id, m.chart.idsOf e.2))

def metadataOf (m : Machine C) (s : Configuration) : SortedMap String Value :=
  .ofList (s.elems.filterMap fun n => (m.partsOf n).metadata.map ((m.node n).id, ·))

def snapshot (m : Machine C) (s : MachineState C) (event : Event) (changed : Bool)
    (actions : List String) (output : Option Value) : Snapshot C where
  value := m.chart.valueOf s.configuration
  context := s.context
  event := event
  configuration := m.chart.idsOf s.configuration.elems
  changed := changed
  done := m.isDone s.configuration
  output := output
  actions := actions
  nextEvents := (m.nextEvents s.configuration).elems
  metadata := m.metadataOf s.configuration
  history := m.historyById s.history
  delimiter := m.chart.delimiter

def stateOf (m : Machine C) (step : Step C) : Snapshot C :=
  m.snapshot step.state step.event step.changed step.executed step.output

def lookUp (m : Machine C) (id : String) : Except StepError NodeId :=
  match m.chart.find? id with
  | some n => .ok n
  | none => .error (.unknownState m.id id)

def lookUpHistory (m : Machine C) :
    Memory → List (String × List String) → Except StepError Memory
  | memory, [] => .ok memory
  | memory, (id, remembered) :: rest => do
    let n ← m.lookUp id
    m.lookUpHistory (memory.insert n (← remembered.mapM m.lookUp)) rest

def machineState (m : Machine C) (s : Snapshot C) : Except StepError (MachineState C) := do
  let configuration ← s.configuration.mapM m.lookUp
  let history ← m.lookUpHistory .empty s.history.entries
  return ⟨.ofList configuration, s.context, history⟩

def initialState (m : Machine C) : Except StepError (Snapshot C) := m.initialStep.map m.stateOf

def transitionState (m : Machine C) (s : Snapshot C) (event : Event) :
    Except StepError (Snapshot C) := do
  return m.stateOf (← m.step (← m.machineState s) event)

end Machine

end Statechart
