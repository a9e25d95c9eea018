import Statechart.Machine.Basic

/-! The schema of a machine: the names of all that it declares and refers to. -/

namespace Statechart

structure Schema where
  id : String
  version : Option String
  delimiter : String
  states : List String
  ids : List String
  guards : List String
  actions : List String
  services : List String
  activities : List String
  data : List String
  events : List String
  delays : List String

def Schema.toJson (s : Schema) : Json := .obj
  [("id", .str s.id), ("version", (s.version.map Json.str).getD .null),
    ("delimiter", .str s.delimiter), ("states", .strs s.states), ("ids", .strs s.ids),
    ("guards", .strs s.guards), ("actions", .strs s.actions), ("services", .strs s.services),
    ("activities", .strs s.activities), ("data", .strs s.data), ("events", .strs s.events),
    ("delays", .strs s.delays)]

namespace Machine

variable {C : Type}

def eventTypes (m : Machine C) : SortedSet String :=
  .ofList (m.allTransitions.filterMap fun t => t.selector.ownType?)

def statePaths (m : Machine C) : List String := (m.chart.ids.drop 1).map m.chart.descriptor

def schema (m : Machine C) : Schema where
  id := m.id
  version := m.version
  delimiter := m.chart.delimiter
  states := m.statePaths
  ids := m.explicitIds
  guards := m.references.guards.elems
  actions := m.references.actions.elems
  services := m.references.services.elems
  activities := m.references.activities.elems
  data := m.references.data.elems
  events := m.eventTypes.elems
  delays := m.references.delays.elems

end Machine

end Statechart
