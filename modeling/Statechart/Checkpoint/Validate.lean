import Statechart.Checkpoint.Basic
import Statechart.Configuration.Resolve

/-! Which checkpoints can be resumed by a machine, and the state they record. -/

namespace Statechart

def machineLabel (id : String) : Option String → String
  | none => id
  | some version => id ++ "@" ++ version

namespace Checkpoint

variable {C : Type}

def checkMachine (c : Checkpoint C) (m : Machine C) : Except CheckpointError Unit :=
  if c.machineId = m.id ∧ c.machineVersion = m.version then .ok ()
  else .error (.mismatch (machineLabel m.id m.version) (machineLabel c.machineId c.machineVersion))

def mentioned (c : Checkpoint C) : List String :=
  c.configuration ++ c.history.entries.flatMap fun e => e.1 :: e.2

def idFlaws (c : Checkpoint C) (m : Machine C) : List CheckpointFlaw :=
  (if c.configuration.isEmpty then [.emptyConfiguration] else [])
    ++ (c.mentioned.filter fun id => (m.chart.find? id).isNone).map .unknownState

def find (m : Machine C) (id : String) : Except CheckpointError NodeId :=
  match m.chart.find? id with
  | some n => .ok n
  | none => .error (.invalid [.unknownState id])

def memory (m : Machine C) :
    Memory → List (String × List String) → Except CheckpointError Memory
  | memory, [] => .ok memory
  | memory, (id, remembered) :: rest => do
    let remembered ← remembered.mapM (find m)
    Checkpoint.memory m (memory.insert (← find m id) remembered) rest

def machineState (c : Checkpoint C) (m : Machine C) : Except CheckpointError (MachineState C) := do
  let configuration ← c.configuration.mapM (find m)
  return ⟨.ofList configuration, c.context, ← memory m .empty c.history.entries⟩

def checkConsistent (c : Checkpoint C) (m : Machine C) : Except CheckpointError Unit := do
  let state ← c.machineState m
  if m.chart.resolve state.configuration.elems .empty = state.configuration then .ok ()
  else .error (.invalid [.inconsistent c.configuration])

def validate (c : Checkpoint C) (m : Machine C) : Except CheckpointError Unit := do
  c.checkVersion
  c.checkMachine m
  match c.idFlaws m with
  | [] => c.checkConsistent m
  | flaws => .error (.invalid flaws)

end Checkpoint

end Statechart
