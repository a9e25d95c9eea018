import Mathlib.Tactic.Common
import Statechart.Proofs.Interpreter.Course

/-! Interpreters that carry out no actions. They follow the machine itself: the queue, the commits
and the stop at the end add nothing to what its steps lead to. -/

namespace Statechart

namespace Machine

variable {C : Type}

def advance (m : Machine C) (limit : Nat) (s : MachineState C) (event : Event) :
    MachineState C × Option StepError :=
  if m.isDone s.configuration then (s, none)
  else match m.stepWithin s event limit with
    | .ok step => (step.state, none)
    | .error e => (s, some e)

lemma advance_of_done {m : Machine C} {limit : Nat} {s : MachineState C} {event : Event}
    (h : m.isDone s.configuration = true) : m.advance limit s event = (s, none) := by
  rw [advance, if_pos h]

section

variable {m : Machine C} {limit : Nat} {s : MachineState C} {event : Event}
  (hd : m.isDone s.configuration = false)

include hd

lemma advance_of_ok {step : Step C} (h : m.stepWithin s event limit = .ok step) :
    m.advance limit s event = (step.state, none) := by
  rw [advance, if_neg (by simp [hd]), h]

lemma advance_of_error {e : StepError} (h : m.stepWithin s event limit = .error e) :
    m.advance limit s event = (s, some e) := by
  rw [advance, if_neg (by simp [hd]), h]

end

def follow (m : Machine C) (limit : Nat) :
    MachineState C → List Event → List (MachineState C × Option StepError)
  | _, [] => []
  | s, event :: rest =>
    m.advance limit s event :: m.follow limit (m.advance limit s event).1 rest

lemma done_of_initialStepFrom {m : Machine C} {context : C} {limit : Nat} {step : Step C}
    (h : m.initialStepFrom context limit = .ok step) :
    step.changed = true ∧ step.done = m.isDone step.state.configuration := by
  obtain ⟨_, _, _, _, rfl⟩ := initialStepFrom_cases h
  exact ⟨rfl, rfl⟩

lemma done_of_stepWithin {m : Machine C} {s : MachineState C} {event : Event} {limit : Nat}
    {step : Step C} (h : m.stepWithin s event limit = .ok step) :
    (step.changed = false → step.state = s) ∧
      step.done = m.isDone step.state.configuration := by
  rcases stepWithin_cases h with rfl | ⟨_, _, _, _, _, _, _, _, _, rfl⟩
  · exact ⟨fun _ => rfl, rfl⟩
  · exact ⟨fun h => absurd h (by simp [finish]), rfl⟩

def standing (m : Machine C) (s : MachineState C) : Status :=
  if m.isDone s.configuration then .stopped else .running

lemma standing_of_done {m : Machine C} {s : MachineState C} (h : m.isDone s.configuration = true) :
    m.standing s = .stopped := by
  rw [standing, if_pos h]

lemma standing_of_not_done {m : Machine C} {s : MachineState C}
    (h : m.isDone s.configuration = false) : m.standing s = .running := by
  rw [standing, if_neg (by simp [h])]

end Machine

namespace Interpreter

variable {C : Type} {i : Interpreter C} {m : Machine C} {settings : Settings} {s : MachineState C}

def Follows (i : Interpreter C) (m : Machine C) (settings : Settings) (s : MachineState C) : Prop :=
  i.core = ⟨m, settings, m.standing s, some s, []⟩

lemma commit_dry (hx : i.settings.executeActions = false) (step : Step C) :
    i.commit step = if step.changed then (i.adopt step [], none)
      else ({ i with metadata := i.metadata.advance i.date }, none) := by
  have hp : i.performStep step = ([], .ok []) := by rw [performStep, if_neg (by simp [hx])]
  rw [commit, hp]
  simp only [observe, List.append_nil]

lemma follows_adopt {step : Step C} (hm : i.machine = m) (hset : i.settings = settings)
    (hr : i.status = .running) (hq : i.queue = [])
    (hd : step.done = m.isDone step.state.configuration) :
    (i.adopt step []).Follows m settings step.state := by
  rw [Follows, adopt_core step [] hr, core, hm, hset, hq, hd, List.append_nil, ite_self]
  rfl

variable (hx : settings.executeActions = false)

include hx

lemma Follows.process (hi : i.Follows m settings s) (hd : m.isDone s.configuration = false)
    (event : Event) :
    (i.process event).1.Follows m settings (m.advance settings.maxMicrosteps s event).1 ∧
      (i.process event).2 = (m.advance settings.maxMicrosteps s event).2 := by
  obtain ⟨rfl, rfl, hst, hs, hq⟩ := Core.mk.inj hi
  rw [Machine.standing_of_not_done hd] at hst
  cases hstep : i.machine.stepWithin s event i.settings.maxMicrosteps with
  | error e =>
    have hp : i.process event = (i.report e, some e) := by
      simp only [Interpreter.process, hs, hstep]
    rw [hp, Machine.advance_of_error hd hstep]
    exact ⟨hi, rfl⟩
  | ok step =>
    obtain ⟨hkeep, hdone⟩ := Machine.done_of_stepWithin hstep
    have hp : i.process event = i.commitOrReport step := by
      simp only [Interpreter.process, hs, hstep]
    rw [hp, Machine.advance_of_ok hd hstep, commitOrReport, commit_dry hx]
    by_cases hc : step.changed
    · rw [if_pos hc]
      exact ⟨follows_adopt rfl rfl hst hq hdone, rfl⟩
    · rw [if_neg hc, hkeep (by simpa using hc)]
      exact ⟨hi, rfl⟩

lemma Follows.send (hi : i.Follows m settings s) (fuel : Nat) (event : Event) :
    ∃ i', i.send (fuel + 1) event =
        some (i', (m.advance settings.maxMicrosteps s event).2.map .step) ∧
      i'.Follows m settings (m.advance settings.maxMicrosteps s event).1 := by
  obtain ⟨_, _, hst, _, hq⟩ := Core.mk.inj hi
  cases hd : m.isDone s.configuration with
  | true =>
    rw [Machine.standing_of_done hd] at hst
    rw [Machine.advance_of_done hd]
    exact ⟨i, by simp only [Interpreter.send, hst, Option.map_none], hi⟩
  | false =>
    rw [Machine.standing_of_not_done hd] at hst
    have hrest : ({ i.enqueue [event] with queue := [] } : Interpreter C) = i := by
      rw [enqueue, ← hq]
    have hqueue : (i.enqueue [event]).queue = event :: [] := by
      rw [enqueue, hq, List.nil_append]
    obtain ⟨hfollows, herror⟩ := hi.process hx hd event
    obtain ⟨_, _, _, _, hq'⟩ := Core.mk.inj hfollows
    have hdrain : (i.enqueue [event]).drain (fuel + 1) =
        some ((i.process event).1, (m.advance settings.maxMicrosteps s event).2) := by
      rw [drain_succ_of_cons (i := i.enqueue [event]) hst hqueue, hrest, drain_of_nil hq', herror,
        Option.map_some]
      simp
    refine ⟨(i.process event).1, ?_, hfollows⟩
    simp only [Interpreter.send, hst, hdrain, Option.bind_eq_bind, Option.bind_some,
      Option.pure_def]

lemma Follows.course_eq (hi : i.Follows m settings s) (fuel : Nat) (events : List Event) :
    i.course (fuel + 1) events =
      some ((m.follow settings.maxMicrosteps s events).map fun r =>
        (m.standing r.1, some r.1, r.2.map .step)) := by
  induction events generalizing i s with
  | nil => rfl
  | cons event rest ih =>
    obtain ⟨i', hsend, hi'⟩ := hi.send hx fuel event
    obtain ⟨_, _, hst, hs, _⟩ := Core.mk.inj hi'
    simp only [course, hsend, Option.bind_eq_bind, Option.bind_some, ih hi', hst, hs]
    rfl

omit hx

lemma adopt_keeps (step : Step C) (sends : List Event) (hr : i.status = .running) :
    (i.adopt step sends).deferred = i.deferred ∧
      (i.adopt step sends).snapshot = some (i.machine.stateOf step) := by
  have hb := busies_trade i step sends
  have hshown : ((i.trade step sends).display step (i.logged step)).deferred = i.deferred ∧
      ((i.trade step sends).display step (i.logged step)).snapshot =
        some (i.machine.stateOf step) := by
    rw [display, hb]
    exact ⟨rfl, rfl⟩
  have hst : ((i.trade step sends).display step (i.logged step)).status = .running := by
    rw [display, hb]
    exact hr
  rw [adopt_eq]
  split
  · obtain ⟨_, _, hsn, _⟩ := stop_keeps ((i.trade step sends).display step (i.logged step))
    refine ⟨Eq.trans ?_ hshown.1, hsn.trans hshown.2⟩
    obtain ⟨trace, hl⟩ := leave_eq ({ (i.trade step sends).display step (i.logged step) with
      status := .stopped } : Interpreter C).shutdown
    rw [stop, hst, hl]
    rfl
  · exact hshown

lemma start_of_enterInitial {j : Interpreter C} (hst : i.status = .notStarted)
    (hw : i.machine.needsRuntime → i.work.hasRuntime) (h : i.enterInitial = (j, none))
    (hdeferred : j.deferred = []) (hq : j.queue = []) (fuel : Nat) :
    i.start fuel = some (j, j.snapshotOrStopped) := by
  have hruntime : (i.machine.needsRuntime && !i.work.hasRuntime) = false := by
    cases hn : i.machine.needsRuntime with
    | false => rfl
    | true => simp [hw hn]
  have hflush : ({ j with deferred := [] } : Interpreter C).enqueue j.deferred = j := by
    rw [hdeferred, enqueue, List.append_nil, ← hdeferred]
  simp only [start, hst, startFresh, hruntime, Bool.false_eq_true, if_false, h, hflush,
    drain_of_nil hq, Option.bind_eq_bind, Option.bind_some, Option.pure_def]

/-- A new interpreter that carries out no actions is started and then sent events: after the start
and after each event it is where the machine is, and it is stopped exactly if the machine is done.
An event is refused exactly if the machine cannot handle it. -/
theorem dry_run_follows {first : Step C} (hx : i.settings.executeActions = false)
    (hst : i.status = .notStarted) (hdeferred : i.deferred = []) (hq : i.queue = [])
    (hw : i.machine.needsRuntime → i.work.hasRuntime)
    (hfirst : i.machine.initialStepFrom i.machine.context i.settings.maxMicrosteps = .ok first)
    (fuel : Nat) :
    ∃ i', i.start fuel = some (i', .ok (i.machine.stateOf first)) ∧
      i'.status = i.machine.standing first.state ∧ i'.state = some first.state ∧
      ∀ events, i'.course (fuel + 1) events =
        some ((i.machine.follow i.settings.maxMicrosteps first.state events).map fun r =>
          (i.machine.standing r.1, some r.1, r.2.map .step)) := by
  obtain ⟨hchanged, hdone⟩ := Machine.done_of_initialStepFrom hfirst
  let j : Interpreter C := { i with status := .running, metadata := .startingAt i.date }
  have hcommit : j.commit first = (j.adopt first [], none) := by
    rw [commit_dry (i := j) hx, if_pos hchanged]
  have henter : i.enterInitial = (j.adopt first [], none) := by
    simp only [j] at hcommit
    simp only [enterInitial, hfirst, hcommit, j]
  have hfollows : (j.adopt first []).Follows i.machine i.settings first.state :=
    follows_adopt rfl rfl rfl hq hdone
  obtain ⟨_, _, hst', hs, hq'⟩ := Core.mk.inj hfollows
  obtain ⟨hkept, hshown⟩ := adopt_keeps (i := j) first [] rfl
  have hstart := start_of_enterInitial hst hw henter (hkept.trans hdeferred) hq' fuel
  rw [snapshotOrStopped, hshown] at hstart
  exact ⟨j.adopt first [], hstart, hst', hs, hfollows.course_eq hx fuel⟩

def closing : Definition :=
  { Definition.ofRoot {
      initial := some "open"
      states := [
        ("open", { on := .ofList [("CLOSE", [{ target := ["closed"], actions := ["lock"] }])] }),
        ("closed", { type := some .final })] } with
    strict := true }

def closingBehaviors : Behaviors Unit where
  actions := .ofList [("lock", .effect fun _ _ => .error ⟨"jammed"⟩)]

def closingMachine : Machine Unit :=
  Machine.assemble closing () (Machine.link closing closingBehaviors).value

theorem closing_dry_run :
    ∃ i r, (create closingMachine { executeActions := false } false .epoch).start 0 =
        some (i, r) ∧
      (i.course 1 [.ofType "OPEN", .ofType "CLOSE", .ofType "CLOSE"]).map
        (List.map fun r => (r.1, r.2.1.map fun s => s.configuration.elems, r.2.2)) = some [
          (.running, some [0, 1], some (.step (.unknownEvent "machine" "OPEN"))),
          (.stopped, some [0, 2], none), (.stopped, some [0, 2], none)] := by
  have hrun : ((closingMachine.initialStepFrom closingMachine.context
      Machine.defaultLimit).toOption.map fun first =>
        (closingMachine.follow Machine.defaultLimit first.state
          [.ofType "OPEN", .ofType "CLOSE", .ofType "CLOSE"]).map fun r =>
            (closingMachine.standing r.1, some r.1.configuration.elems,
              r.2.map InterpreterError.step)) = some [
        (.running, some [0, 1], some (.step (.unknownEvent "machine" "OPEN"))),
        (.stopped, some [0, 2], none), (.stopped, some [0, 2], none)] := by
    decide +kernel
  cases hfirst : closingMachine.initialStepFrom closingMachine.context Machine.defaultLimit with
  | error e => simp [hfirst, Except.toOption] at hrun
  | ok first =>
    obtain ⟨i, hstart, _, _, hcourse⟩ := dry_run_follows
      (i := create closingMachine { executeActions := false } false .epoch) rfl rfl rfl rfl
      (by decide) hfirst 0
    refine ⟨i, _, hstart, ?_⟩
    rw [hfirst] at hrun
    rw [hcourse, ← hrun, Option.map_some, List.map_map]
    rfl

end Interpreter

end Statechart
