import Statechart.Checkpoint.Validate
import Statechart.Interpreter.Commit

/-! Checkpoints of interpreters, and resuming them. Timers, services and activities of active states
are started again, and no entry action is carried out. -/

namespace Statechart

namespace Interpreter

variable {C : Type}

def checkpoint (i : Interpreter C) (id : String) : Except CheckpointError (Checkpoint C) :=
  match i.state, i.snapshot with
  | some s, some snapshot => .ok {
      version := Checkpoint.supportedVersion
      id
      timestamp := i.date
      machineId := i.machine.id
      machineVersion := i.machine.version
      configuration := i.machine.chart.idsOf s.configuration.elems
      context := s.context
      history := snapshot.history
      event := snapshot.event.type
      transitions := i.transitions
      metadata := i.metadata }
  | _, _ => .error .notStarted

def resume (i : Interpreter C) (c : Checkpoint C) (s : MachineState C) : Interpreter C :=
  let event := Event.ofType c.event
  let snapshot := i.machine.snapshot s event false [] none
  let i := { i with
    state := some s
    snapshot := some snapshot
    transitions := c.transitions
    metadata := c.metadata
    status := .running }
  let i := s.configuration.elems.foldl (startWork event) i
  if snapshot.done then i.stop else i

def restore (m : Machine C) (c : Checkpoint C) (settings : Settings) (hasRuntime : Bool)
    (date : Timestamp) : Except InterpreterError (Interpreter C) := do
  (c.validate m).mapError .checkpoint
  if m.needsRuntime && !hasRuntime then throw (.noRuntime m.id)
  let s ← (c.machineState m).mapError .checkpoint
  return (create m settings hasRuntime date).resume c s

end Interpreter

end Statechart
