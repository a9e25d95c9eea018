import Statechart.Interpreter.Basic

/-! Committing steps: the actions that a step leaves are carried out, and if none fails the step
becomes the present state and the work of the states that it left and entered is stopped and
started. -/

namespace Statechart

namespace Interpreter

variable {C : Type}

def perform (m : Machine C) (context : C) :
    List (Pending C) → List (Observation C) × Except StepError (List Event)
  | [] => ([], .ok [])
  | p :: rest =>
    match p.action with
    | .effect run => match run context p.event with
      | .error cause => ([], .error (.action (m.node p.source).id p.name cause))
      | .ok note =>
        let (notes, sends) := perform m context rest
        (.performed p.source p.name note :: notes, sends)
    | .log line =>
      let (notes, sends) := perform m context rest
      (.performed p.source p.name (line context p.event) :: notes, sends)
    | .send event =>
      let (notes, sends) := perform m context rest
      (notes, sends.map (event :: ·))
    | _ => perform m context rest

def performStep (i : Interpreter C) (s : Step C) :
    List (Observation C) × Except StepError (List Event) :=
  if i.settings.executeActions then perform i.machine s.state.context s.actions else ([], .ok [])

def stopActivity (i : Interpreter C) (n : NodeId) (name : String) : Interpreter C :=
  let i := i.observe ((i.work.activity? n name).toList.map fun a =>
    .activityStopped a.node a.name a.stopped)
  { i with work := i.work.stopActivity n name }

def startActivity (i : Interpreter C) (n : NodeId) (name : String) (started stopped : Value) :
    Interpreter C :=
  let i := (i.observe [.activityStarted n name started]).stopActivity n name
  { i with work := i.work.startActivity ⟨n, name, stopped⟩ }

def serviceSteps (id : String) (r : ServiceRun) (generation : Nat) : List TaskStep :=
  r.steps.map (fun
    | .sleep millis => .sleep millis
    | .emit event => .post ⟨event, .emission id, generation⟩)
  ++ match r.result with
    | .finished output => [.post ⟨.doneInvoke id output, .completion id, generation⟩]
    | .failed message => [.post ⟨.errorInvoke id message, .completion id, generation⟩]
    | .never => []

def startService (i : Interpreter C) (n : NodeId) (id : String) (r : ServiceRun) :
    Interpreter C :=
  if i.work.hasRuntime then
    { i.observe [.serviceStarted n id r.note] with
      work := i.work.startService id (serviceSteps id r) }
  else i

def startWork (event : Event) (i : Interpreter C) (n : NodeId) : Interpreter C :=
  match i.state with
  | none => i
  | some s =>
    let p := i.machine.partsOf n
    let i := p.delays.foldl (fun i d =>
      { i with work := i.work.startTimer n d.key d.type (d.delay.millis s.context event) }) i
    let i := p.activities.foldl (fun i a =>
      i.startActivity n a.name (a.value.started s.context event)
        (a.value.stopped s.context event)) i
    p.invocations.foldl (fun i v => i.startService n v.id (v.service v.id s.context event)) i

def stopWork (i : Interpreter C) (n : NodeId) : Interpreter C :=
  let p := i.machine.partsOf n
  let i := p.delays.foldl (fun i d => { i with work := i.work.stopTimer n d.key }) i
  let i := p.activities.foldl (fun i a => i.stopActivity n a.name) i
  p.invocations.foldl (fun i v => { i with work := i.work.stopService v.id }) i

def shutdown (i : Interpreter C) : Interpreter C :=
  { i.observe (i.work.activities.reverse.map fun a => .activityStopped a.node a.name a.stopped)
    with work := i.work.shutdown }

def leave (i : Interpreter C) : Interpreter C :=
  match i.state.map i.machine.exitAll with
  | none => i
  | some (.error e) => i.report e
  | some (.ok step) =>
    match i.performStep step with
    | (notes, .error e) => (i.observe notes).report e
    | (notes, .ok _) => i.observe notes

def stop (i : Interpreter C) : Interpreter C :=
  match i.status with
  | .stopped => i
  | .notStarted => { i with status := .stopped, deferred := [] }
  | .running => { { i with status := .stopped }.shutdown.leave with queue := [] }

def recordOf (i : Interpreter C) (s : Step C) : TransitionRecord where
  before := i.activePaths
  after := i.machine.chart.atomicPaths s.state.configuration
  event := s.event.type
  timestamp := i.date
  microsteps := .ofNat s.microsteps

def adopt (i : Interpreter C) (s : Step C) (sends : List Event) : Interpreter C :=
  let transitions :=
    if i.settings.recordTransitions then i.transitions.record (i.recordOf s) else i.transitions
  let i := s.exited.foldl stopWork i
  let i := { i with state := some s.state, queue := i.queue ++ sends }
  let i := s.entered.foldl (startWork s.event) i
  let snapshot := i.machine.stateOf s
  let i := { i with
    transitions
    metadata := i.metadata.advance i.date
    snapshot := some snapshot }
  let i := i.notify snapshot
  if s.done then i.stop else i

def commit (i : Interpreter C) (s : Step C) : Interpreter C × Option StepError :=
  if s.changed then
    match i.performStep s with
    | (notes, .error e) => (i.observe notes, some e)
    | (notes, .ok sends) => ((i.observe notes).adopt s sends, none)
  else ({ i with metadata := i.metadata.advance i.date }, none)

def commitOrReport (i : Interpreter C) (s : Step C) : Interpreter C × Option StepError :=
  match i.commit s with
  | (i, none) => (i, none)
  | (i, some e) => (i.report e, some e)

def process (i : Interpreter C) (event : Event) : Interpreter C × Option StepError :=
  match i.state with
  | none => (i, none)
  | some s =>
    match i.machine.stepWithin s event i.settings.maxMicrosteps with
    | .error e => (i.report e, some e)
    | .ok step => i.commitOrReport step

end Interpreter

end Statechart
