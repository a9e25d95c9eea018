import Statechart.Step.Microstep

/-! Steps from events: the transitions that an event enables are taken as one microstep, then
eventless transitions and raised events are handled until nothing more applies. -/

namespace Statechart

namespace Machine

variable {C : Type}

def isDone (m : Machine C) (s : Configuration) : Bool := m.chart.isInFinalState s rootId

/-- What to take next: eventless transitions, else those of the first queued event that enables
some. The answer holds the event it is taken for and what stays queued. -/
def nextEnabled (m : Machine C) (s : MachineState C) (current : Event) :
    List Event → Except StepError (Option (Event × List TransitionRef × List Event))
  | [] => do
    let eventless ← m.select s current true
    return if eventless.isEmpty then none else some (current, eventless, [])
  | event :: rest => do
    let eventless ← m.select s current true
    if eventless.isEmpty then
      let enabled ← m.select s event false
      if enabled.isEmpty then m.nextEnabled s event rest
      else return some (event, enabled, rest)
    else return some (current, eventless, event :: rest)

/-- Takes microsteps until the machine is done or nothing more is enabled; `left` of the `limit`
may still be taken. -/
def settle (m : Machine C) (limit : Nat) (left : Nat) (current : Event) (r : Run C) :
    Except StepError (Run C) :=
  if m.isDone r.state.configuration then .ok r
  else do
    match ← m.nextEnabled r.state current r.internal with
    | none => return { r with internal := [] }
    | some (event, enabled, queue) =>
      match left with
      | 0 => .error (.unsettled event.type limit)
      | left + 1 => do
        let r ← m.microstep enabled event { r with internal := queue }
        m.settle limit left event r

def finish (m : Machine C) (event : Event) (changed : Bool) (r : Run C) : Step C :=
  let done := m.isDone r.state.configuration
  { event, changed, done
    state := r.state
    actions := r.pending
    executed := r.executed
    lifecycle := r.lifecycle
    output := if done then r.output else none
    microsteps := r.microsteps }

def defaultLimit : Nat := 1000

def initialStepFrom (m : Machine C) (context : C) (limit : Nat) : Except StepError (Step C) := do
  let entered := m.chart.enter .empty .empty rootId
  let r ← (Run.start ⟨.empty, context, .empty⟩).enterNodes m .init entered.elems
  let r ← m.settle limit limit .init r
  return m.finish .init true r

def initialStep (m : Machine C) : Except StepError (Step C) :=
  m.initialStepFrom m.context defaultLimit

def stepWithin (m : Machine C) (s : MachineState C) (event : Event) (limit : Nat) :
    Except StepError (Step C) :=
  if m.strict && !event.isGenerated && !m.accepts event.type then
    .error (.unknownEvent m.id event.type)
  else do
    let enabled ← m.select s event false
    if enabled.isEmpty then return m.finish event false (.start s)
    else match limit with
      | 0 => .error (.unsettled event.type 0)
      | left + 1 => do
        let r ← m.microstep enabled event (.start s)
        let r ← m.settle limit left event r
        return m.finish event true r

def step (m : Machine C) (s : MachineState C) (event : Event) : Except StepError (Step C) :=
  m.stepWithin s event defaultLimit

def exitAll (m : Machine C) (s : MachineState C) : Except StepError (Step C) := do
  let r ← (Run.start s).exitNodes m .stop s.configuration.elems.reverse
  return m.finish .stop true r

end Machine

end Statechart
