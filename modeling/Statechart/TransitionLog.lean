import Statechart.Timestamp

/-! The transition log: which configurations a machine went through, by the paths of their atomic
states. -/

namespace Statechart

structure TransitionRecord where
  before : List String
  after : List String
  event : String
  timestamp : Timestamp
  microsteps : UInt64
  deriving DecidableEq

namespace TransitionRecord

def toJson (r : TransitionRecord) : Json := .obj
  [("from", .strs r.before), ("to", .strs r.after), ("event", .str r.event),
    ("timestamp", JsonCoded.toJson r.timestamp), ("microsteps", .int r.microsteps.toNat)]

open Json (record? required list? string?)

def fieldNames : List String := ["from", "to", "event", "timestamp", "microsteps"]

def ofJson? (j : Json) : Option TransitionRecord :=
  match record? (fieldNames.map ([·])) j with
  | some [before, after, event, timestamp, microsteps] => do
    return {
      before := ← required (list? string?) before
      after := ← required (list? string?) after
      event := ← required string? event
      timestamp := ← required JsonCoded.ofJson? timestamp
      microsteps := .ofNat (← required (Json.unsigned? 64) microsteps) }
  | _ => none

instance : JsonCoded TransitionRecord := ⟨toJson, ofJson?, .ofNames fieldNames⟩

end TransitionRecord

structure TransitionLog where
  records : List TransitionRecord
  deriving DecidableEq

namespace TransitionLog

def empty : TransitionLog := ⟨[]⟩

def record (log : TransitionLog) (r : TransitionRecord) : TransitionLog := ⟨log.records ++ [r]⟩

def length (log : TransitionLog) : Nat := log.records.length

def isEmpty (log : TransitionLog) : Bool := log.records.isEmpty

def path (log : TransitionLog) : List (List String) :=
  (log.records.head?.map (·.before)).toList ++ log.records.map (·.after)

def duration? (log : TransitionLog) : Option Nat := do
  (← log.records.head?).timestamp.elapsed? (← log.records.getLast?).timestamp

def toJson (log : TransitionLog) : Json :=
  .obj [("records", .arr (log.records.map TransitionRecord.toJson))]

def ofJson? (j : Json) : Option TransitionLog :=
  match j.record? [["records"]] with
  | some [records] =>
    (Json.required (Json.list? TransitionRecord.ofJson?) records).map TransitionLog.mk
  | _ => none

instance : JsonCoded TransitionLog :=
  ⟨toJson, ofJson?, .record [("records", .list (JsonCoded.shape TransitionRecord))]⟩

end TransitionLog

end Statechart
