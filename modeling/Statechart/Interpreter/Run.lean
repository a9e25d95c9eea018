import Statechart.Interpreter.Clock
import Statechart.Interpreter.Commit

/-! Running an interpreter: events are processed one at a time, and all that they send is processed
before a call returns. As events may send each other forever, calls take a bound on the number of
events that they may process and answer `none` beyond it. -/

namespace Statechart

namespace Interpreter

variable {C : Type}

def drain : Nat → Interpreter C → Option (Interpreter C × Option StepError)
  | fuel, i =>
    if i.status = .running then
      match i.queue, fuel with
      | [], _ => some (i, none)
      | _ :: _, 0 => none
      | event :: rest, fuel + 1 => do
        let (i, error) := { i with queue := rest }.process event
        let (i, later) ← drain fuel i
        return (i, error <|> later)
    else some (i, none)

def enqueue (i : Interpreter C) (events : List Event) : Interpreter C :=
  { i with queue := i.queue ++ events }

def enterInitial (i : Interpreter C) : Interpreter C × Option StepError :=
  match i.machine.initialStepFrom i.machine.context i.settings.maxMicrosteps with
  | .error e => (i.report e, some e)
  | .ok step =>
    match { i with status := .running, metadata := .startingAt i.date }.commit step with
    | (i, none) => (i, none)
    | (i, some e) => ({ i with status := .notStarted }.report e, some e)

def snapshotOrStopped (i : Interpreter C) : Except InterpreterError (Snapshot C) :=
  match i.snapshot with
  | some s => .ok s
  | none => .error (.stopped i.machine.id)

def startFresh (fuel : Nat) (i : Interpreter C) :
    Option (Interpreter C × Except InterpreterError (Snapshot C)) :=
  if i.machine.needsRuntime && !i.work.hasRuntime then
    some (i, .error (.noRuntime i.machine.id))
  else match i.enterInitial with
    | (i, some e) => some (i, .error (.step e))
    | (i, none) => do
      let (i, error) ← drain fuel ({ i with deferred := [] }.enqueue i.deferred)
      match error with
      | some e => return (i, .error (.step e))
      | none => return (i, i.snapshotOrStopped)

def start (fuel : Nat) (i : Interpreter C) :
    Option (Interpreter C × Except InterpreterError (Snapshot C)) :=
  match i.status with
  | .running => match i.snapshot with
    | some s => some (i, .ok s)
    | none => startFresh fuel i
  | .stopped => some (i, .error (.stopped i.machine.id))
  | .notStarted => startFresh fuel i

def send (fuel : Nat) (i : Interpreter C) (event : Event) :
    Option (Interpreter C × Option InterpreterError) :=
  match i.status with
  | .notStarted =>
    if i.settings.deferEvents then some ({ i with deferred := i.deferred ++ [event] }, none)
    else some (i, some (.notStarted i.machine.id event.type))
  | .stopped => some (i, none)
  | .running => do
    let (i, error) ← drain fuel (i.enqueue [event])
    return (i, error.map .step)

def post (i : Interpreter C) (m : Message) : Interpreter C := { i with work := i.work.post m }

def deliver (fuel : Nat) (i : Interpreter C) (m : Message) :
    Option (Interpreter C × Option StepError) :=
  drain fuel (i.enqueue [m.event])

structure Deliveries where
  count : Nat
  error : Option StepError

def deliverAll : Nat → Nat → Interpreter C → Option (Interpreter C × Deliveries)
  | fuel, left, i =>
    if i.status = .running then
      match i.work.receive, left with
      | (none, work), _ => some ({ i with work }, ⟨0, none⟩)
      | (some _, _), 0 => none
      | (some m, work), left + 1 => do
        let (i, error) ← deliver fuel { i with work } m
        let (i, later) ← deliverAll fuel left i
        return (i, ⟨later.count + 1, error <|> later.error⟩)
    else some (i, ⟨0, none⟩)

def processMailbox (fuel : Nat) (i : Interpreter C) :
    Option (Interpreter C × Except InterpreterError Nat) := do
  let (i, deliveries) ← deliverAll fuel fuel i
  match deliveries.error with
  | some e => return (i, .error (.step e))
  | none => return (i, .ok deliveries.count)

inductive Next where
  | handled (error : Option InterpreterError)
  | nothing
  | overdue

def runNext (fuel : Nat) (i : Interpreter C) (deadline : Nat) : Option (Interpreter C × Next) :=
  if i.status = .running then
    match i.work.await deadline with
    | (.nothing, work) => some ({ i with work }, .nothing)
    | (.overdue, work) => some ({ i with work }, .overdue)
    | (.message m, work) => do
      let (i, error) ← deliver fuel { i with work } m
      return (i, .handled (error.map .step))
  else some (i, .nothing)

def runMessages (fuel deadline left : Nat) (i : Interpreter C) :
    Option (Interpreter C × Next) := do
  match ← runNext fuel i deadline with
  | (i, .handled none) =>
    match left with
    | 0 => none
    | left + 1 => runMessages fuel deadline left i
  | (i, next) => return (i, next)

def runUntilDone (fuel : Nat) (i : Interpreter C) (deadline : Nat) :
    Option (Interpreter C × Next) :=
  runMessages fuel deadline fuel i

def elapse (i : Interpreter C) (millis : Nat) : Interpreter C :=
  { i with work := i.work.elapse millis }

end Interpreter

end Statechart
