import Statechart.Json.Decode
import Statechart.Step.Settle

/-! Settings of an interpreter. -/

namespace Statechart

structure Settings where
  maxMicrosteps : Nat := Machine.defaultLimit
  deferEvents : Bool := true
  recordTransitions : Bool := true
  executeActions : Bool := true
  deriving DecidableEq

namespace Settings

def toJson (s : Settings) : Json := .obj
  [("maxMicrosteps", .int s.maxMicrosteps), ("deferEvents", .bool s.deferEvents),
    ("recordTransitions", .bool s.recordTransitions), ("executeActions", .bool s.executeActions)]

open Json (defaulted bool?)

def fieldNames : List String :=
  ["maxMicrosteps", "deferEvents", "recordTransitions", "executeActions"]

def ofJson? (j : Json) : Option Settings :=
  let standard : Settings := {}
  match j.record? (fieldNames.map ([·])) with
  | some [maxMicrosteps, deferEvents, recordTransitions, executeActions] => do
    return {
      maxMicrosteps := ← defaulted standard.maxMicrosteps (Json.unsigned? 64) maxMicrosteps
      deferEvents := ← defaulted standard.deferEvents bool? deferEvents
      recordTransitions := ← defaulted standard.recordTransitions bool? recordTransitions
      executeActions := ← defaulted standard.executeActions bool? executeActions }
  | _ => none

instance : JsonCoded Settings := ⟨toJson, ofJson?, .ofNames fieldNames⟩

end Settings

end Statechart
