import Statechart.Bytes
import Statechart.Checkpoint.Basic

/-! The compact form of checkpoints: their fields in order, as bytes. Timestamps stand as text. -/

namespace Statechart

instance : BytesCoded Timestamp where
  toBytes t := toBytes t.render
  ofBytes? l := do
    let (text, l) ← ofBytes? l
    return (← Timestamp.read? text, l)

instance : BytesCoded TransitionRecord where
  toBytes r := toBytes r.before ++ toBytes r.after ++ toBytes r.event ++ toBytes r.timestamp
    ++ toBytes r.microsteps
  ofBytes? l := do
    let (before, l) ← ofBytes? l
    let (after, l) ← ofBytes? l
    let (event, l) ← ofBytes? l
    let (timestamp, l) ← ofBytes? l
    let (microsteps, l) ← ofBytes? l
    return (⟨before, after, event, timestamp, microsteps⟩, l)

instance : BytesCoded TransitionLog where
  toBytes log := toBytes log.records
  ofBytes? l := (ofBytes? l).map fun (records, l) => (⟨records⟩, l)

instance : BytesCoded CheckpointMetadata where
  toBytes d := toBytes d.createdAt ++ toBytes d.updatedAt ++ toBytes d.eventsProcessed
  ofBytes? l := do
    let (createdAt, l) ← ofBytes? l
    let (updatedAt, l) ← ofBytes? l
    let (eventsProcessed, l) ← ofBytes? l
    return (⟨createdAt, updatedAt, eventsProcessed⟩, l)

instance {ν : Type} [BytesCoded ν] : BytesCoded (SortedMap String ν) where
  toBytes m := toBytes m.entries
  ofBytes? l := (ofBytes? l).map fun (entries, l) => (.ofList entries, l)

namespace Checkpoint

variable {C : Type} [BytesCoded C]

instance : BytesCoded (Checkpoint C) where
  toBytes c := toBytes c.version ++ toBytes c.id ++ toBytes c.timestamp ++ toBytes c.machineId
    ++ toBytes c.machineVersion ++ toBytes c.configuration ++ toBytes c.context
    ++ toBytes c.history ++ toBytes c.event ++ toBytes c.transitions ++ toBytes c.metadata
  ofBytes? l := do
    let (version, l) ← ofBytes? l
    let (id, l) ← ofBytes? l
    let (timestamp, l) ← ofBytes? l
    let (machineId, l) ← ofBytes? l
    let (machineVersion, l) ← ofBytes? l
    let (configuration, l) ← ofBytes? l
    let (context, l) ← ofBytes? l
    let (history, l) ← ofBytes? l
    let (event, l) ← ofBytes? l
    let (transitions, l) ← ofBytes? l
    let (metadata, l) ← ofBytes? l
    return (⟨version, id, timestamp, machineId, machineVersion, configuration, context, history,
      event, transitions, metadata⟩, l)

def encode (c : Checkpoint C) : Bytes := toBytes c

def decode (l : Bytes) : Except CheckpointError (Checkpoint C) :=
  match ofBytes? l with
  | none => .error (.undecodable "the bytes are not a checkpoint")
  | some (c, _) => do
    c.checkVersion
    return c

end Checkpoint

end Statechart
