import Statechart.Json.Printer
import Statechart.Json.Reader
import Statechart.Snapshot
import Statechart.Text.Printable
import Statechart.TransitionLog

/-! Checkpoints: what has to be stored of a running machine so that it can be resumed, their JSON
text, and why one cannot be read, taken or resumed. -/

namespace Statechart

inductive CheckpointFlaw where
  | emptyConfiguration
  | unknownState (id : String)
  | inconsistent (configuration : List String)
  deriving DecidableEq

def CheckpointFlaw.message : CheckpointFlaw → String
  | .emptyConfiguration => "configuration is empty"
  | .unknownState id => "unknown state '" ++ id ++ "'"
  | .inconsistent configuration =>
    "configuration " ++ Text.quoteList configuration ++ " is not a consistent configuration"

inductive CheckpointError where
  | undecodable (detail : String)
  | unsupportedVersion (found supported : UInt32)
  | mismatch (expected found : String)
  | invalid (flaws : List CheckpointFlaw)
  | notStarted
  deriving DecidableEq

def CheckpointError.message : CheckpointError → String
  | .undecodable detail => "Deserialization failed: " ++ detail
  | .unsupportedVersion found supported =>
    "Unsupported checkpoint version " ++ toString found.toNat ++ ", supported: "
      ++ toString supported.toNat
  | .mismatch expected found =>
    "Checkpoint belongs to machine '" ++ found ++ "', expected '" ++ expected ++ "'"
  | .invalid flaws =>
    "Checkpoint validation failed: " ++ "; ".intercalate (flaws.map CheckpointFlaw.message)
  | .notStarted => "Interpreter has not been started, nothing to checkpoint"

structure CheckpointMetadata where
  createdAt : Timestamp
  updatedAt : Timestamp
  eventsProcessed : UInt64
  deriving DecidableEq

namespace CheckpointMetadata

def startingAt (t : Timestamp) : CheckpointMetadata := ⟨t, t, 0⟩

def advance (d : CheckpointMetadata) (t : Timestamp) : CheckpointMetadata :=
  { d with updatedAt := t, eventsProcessed := d.eventsProcessed + 1 }

def toJson (d : CheckpointMetadata) : Json := .obj
  [("created_at", JsonCoded.toJson d.createdAt), ("updated_at", JsonCoded.toJson d.updatedAt),
    ("events_processed", .int d.eventsProcessed.toNat)]

open Json (required)

def fieldNames : List String := ["created_at", "updated_at", "events_processed"]

def ofJson? (j : Json) : Option CheckpointMetadata :=
  match j.record? (fieldNames.map ([·])) with
  | some [createdAt, updatedAt, eventsProcessed] => do
    return {
      createdAt := ← required JsonCoded.ofJson? createdAt
      updatedAt := ← required JsonCoded.ofJson? updatedAt
      eventsProcessed := .ofNat (← required (Json.unsigned? 64) eventsProcessed) }
  | _ => none

instance : JsonCoded CheckpointMetadata := ⟨toJson, ofJson?, .ofNames fieldNames⟩

end CheckpointMetadata

structure Checkpoint (C : Type) where
  version : UInt32
  id : String
  timestamp : Timestamp
  machineId : String
  machineVersion : Option String
  configuration : List String
  context : C
  history : SortedMap String (List String)
  event : String
  transitions : TransitionLog
  metadata : CheckpointMetadata

namespace Checkpoint

def supportedVersion : UInt32 := 1

variable {C : Type}

def checkVersion (c : Checkpoint C) : Except CheckpointError Unit :=
  if c.version = supportedVersion then .ok ()
  else .error (.unsupportedVersion c.version supportedVersion)

variable [JsonCoded C]

def toJson (c : Checkpoint C) : Json := .obj
  [("version", .int c.version.toNat), ("id", .str c.id),
    ("timestamp", JsonCoded.toJson c.timestamp), ("machine_id", .str c.machineId),
    ("machine_version", (c.machineVersion.map Json.str).getD .null),
    ("configuration", .strs c.configuration), ("context", JsonCoded.toJson c.context),
    ("history", idListsToJson c.history), ("event", .str c.event),
    ("transitions", JsonCoded.toJson c.transitions), ("metadata", JsonCoded.toJson c.metadata)]

open Json (required optional list? string? record?)

def shape (C : Type) [JsonCoded C] : Json.Shape := .record
  [("version", .whole), ("id", .whole), ("timestamp", .whole), ("machine_id", .whole),
    ("machine_version", .whole), ("configuration", .whole), ("context", JsonCoded.shape C),
    ("history", .whole), ("event", .whole), ("transitions", JsonCoded.shape TransitionLog),
    ("metadata", JsonCoded.shape CheckpointMetadata)]

def ofJson? (j : Json) : Option (Checkpoint C) :=
  let names := ["version", "id", "timestamp", "machine_id", "machine_version", "configuration",
    "context", "history", "event", "transitions", "metadata"]
  match record? (names.map ([·])) j with
  | some [version, id, timestamp, machineId, machineVersion, configuration, context, history,
      event, transitions, metadata] => do
    return {
      version := .ofNat (← required (Json.unsigned? 32) version)
      id := ← required string? id
      timestamp := ← required JsonCoded.ofJson? timestamp
      machineId := ← required string? machineId
      machineVersion := ← optional string? machineVersion
      configuration := ← required (list? string?) configuration
      context := ← required JsonCoded.ofJson? context
      history := ← required idListsOfJson? history
      event := ← required string? event
      transitions := ← required JsonCoded.ofJson? transitions
      metadata := ← required JsonCoded.ofJson? metadata }
  | _ => none

def render (c : Checkpoint C) : String := c.toJson.pretty

def read (text : String) : Except CheckpointError (Checkpoint C) := do
  match (Json.readAs? (shape C) text).bind ofJson? with
  | none => .error (.undecodable "the text is not a checkpoint")
  | some c => do
    c.checkVersion
    return c

end Checkpoint

end Statechart
