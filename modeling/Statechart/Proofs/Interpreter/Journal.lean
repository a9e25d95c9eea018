import Mathlib.Tactic.Common
import Statechart.Proofs.Interpreter.Calls
import Statechart.Proofs.Interpreter.DryRun

/-! Journals of calls: which events a call keeps for the start, puts on the queue and hands to the
machine, and which steps it adopts, in the order in which this happens. -/

namespace Statechart

def Pending.sent? {C : Type} (p : Pending C) : Option Event :=
  match p.action with
  | .send event => some event
  | _ => none

inductive JournalEntry (C : Type) where
  | deferred (event : Event)
  | queued (event : Event)
  | handled (event : Event) (error : Option StepError)
  | adopted (step : Step C)

section

variable {C : Type}

def deferredIn (l : List (JournalEntry C)) : List Event :=
  l.filterMap fun
    | .deferred event => some event
    | _ => none

def queuedIn (l : List (JournalEntry C)) : List Event :=
  l.filterMap fun
    | .queued event => some event
    | _ => none

def handledIn (l : List (JournalEntry C)) : List Event :=
  l.filterMap fun
    | .handled event _ => some event
    | _ => none

def adoptedIn (l : List (JournalEntry C)) : List (Step C) :=
  l.filterMap fun
    | .adopted step => some step
    | _ => none

def failureIn (l : List (JournalEntry C)) : Option StepError :=
  l.findSome? fun
    | .handled _ error => error
    | _ => none

variable (l l' : List (JournalEntry C)) (events : List Event)

@[simp] lemma deferredIn_append : deferredIn (l ++ l') = deferredIn l ++ deferredIn l' :=
  List.filterMap_append

@[simp] lemma queuedIn_append : queuedIn (l ++ l') = queuedIn l ++ queuedIn l' :=
  List.filterMap_append

@[simp] lemma handledIn_append : handledIn (l ++ l') = handledIn l ++ handledIn l' :=
  List.filterMap_append

@[simp] lemma adoptedIn_append : adoptedIn (l ++ l') = adoptedIn l ++ adoptedIn l' :=
  List.filterMap_append

@[simp] lemma failureIn_append : failureIn (l ++ l') = (failureIn l <|> failureIn l') := by
  rw [failureIn, List.findSome?_append]
  exact Option.or_eq_orElse

@[simp] lemma queuedIn_map_queued :
    queuedIn (events.map .queued : List (JournalEntry C)) = events := by
  simp [queuedIn, List.filterMap_map]

@[simp] lemma handledIn_map_queued :
    handledIn (events.map .queued : List (JournalEntry C)) = [] := by
  simp [handledIn, List.filterMap_map]

@[simp] lemma adoptedIn_map_queued :
    adoptedIn (events.map .queued : List (JournalEntry C)) = [] := by
  simp [adoptedIn, List.filterMap_map]

@[simp] lemma failureIn_map_queued :
    failureIn (events.map .queued : List (JournalEntry C)) = none := by
  simp [failureIn, List.findSome?_map]

end

namespace Interpreter

variable {C : Type}

def withQueue (i : Interpreter C) (queue : List Event) : Interpreter C := { i with queue }

def sendsOf (i : Interpreter C) (step : Step C) : List Event :=
  if i.settings.executeActions then step.actions.filterMap Pending.sent? else []

def committing (i : Interpreter C) (step : Step C) : List (JournalEntry C) :=
  if step.changed && (i.commit step).2.isNone then
    .adopted step :: (i.sendsOf step).map .queued
  else []

def handling (i : Interpreter C) (event : Event) : List (JournalEntry C) :=
  match i.state with
  | none => []
  | some s => .handled event (i.process event).2 ::
    match i.machine.stepWithin s event i.settings.maxMicrosteps with
    | .error _ => []
    | .ok step => i.committing step

def draining : Nat → Interpreter C → List (JournalEntry C)
  | 0, _ => []
  | fuel + 1, i =>
    if i.status = .running then
      match i.queue with
      | [] => []
      | event :: rest => (i.withQueue rest).handling event ++
        draining fuel ((i.withQueue rest).process event).1
    else []

def begun (i : Interpreter C) : Interpreter C :=
  { i with status := .running, metadata := .startingAt i.date }

def entering (i : Interpreter C) : List (JournalEntry C) :=
  match i.machine.initialStepFrom i.machine.context i.settings.maxMicrosteps with
  | .error _ => []
  | .ok step => i.begun.committing step

def startingFresh (fuel : Nat) (i : Interpreter C) : List (JournalEntry C) :=
  if i.machine.needsRuntime && !i.work.hasRuntime then []
  else i.entering ++ match i.enterInitial with
    | (_, some _) => []
    | (j, none) => j.deferred.map .queued ++
      draining fuel ({ j with deferred := [] }.enqueue j.deferred)

def starting (fuel : Nat) (i : Interpreter C) : List (JournalEntry C) :=
  match i.status with
  | .running => match i.snapshot with
    | some _ => []
    | none => i.startingFresh fuel
  | .stopped => []
  | .notStarted => i.startingFresh fuel

def sending (fuel : Nat) (i : Interpreter C) (event : Event) : List (JournalEntry C) :=
  match i.status with
  | .notStarted => if i.settings.deferEvents then [.deferred event] else []
  | .stopped => []
  | .running => .queued event :: draining fuel (i.enqueue [event])

def delivering (fuel : Nat) (i : Interpreter C) (message : Message) : List (JournalEntry C) :=
  .queued message.event :: draining fuel (i.enqueue [message.event])

def deliveringAll (fuel : Nat) : Nat → Interpreter C → List (JournalEntry C)
  | 0, _ => []
  | left + 1, i =>
    if i.status = .running then
      match i.work.receive with
      | (none, _) => []
      | (some message, work) => delivering fuel { i with work } message ++
        match deliver fuel { i with work } message with
        | none => []
        | some (j, _) => deliveringAll fuel left j
    else []

def runningNext (fuel : Nat) (i : Interpreter C) (deadline : Nat) : List (JournalEntry C) :=
  if i.status = .running then
    match i.work.await deadline with
    | (.message message, work) => delivering fuel { i with work } message
    | _ => []
  else []

def runningMessages (fuel deadline : Nat) : Nat → Interpreter C → List (JournalEntry C)
  | 0, i => i.runningNext fuel deadline
  | left + 1, i => i.runningNext fuel deadline ++
    match i.runNext fuel deadline with
    | some (j, .handled none) => runningMessages fuel deadline left j
    | _ => []

end Interpreter

inductive Request where
  | start
  | send (event : Event)
  | processMailbox
  | runNext (deadline : Nat)
  | runUntilDone (deadline : Nat)
  | stop

def Interpreter.Next.error? : Interpreter.Next → Option InterpreterError
  | .handled error => error
  | _ => none

namespace Request

variable {C : Type}

def errorOf {α : Type} : Except InterpreterError α → Option InterpreterError
  | .error e => some e
  | .ok _ => none

def run (fuel : Nat) (i : Interpreter C) :
    Request → Option (Interpreter C × Option InterpreterError)
  | .start => (i.start fuel).map fun r => (r.1, errorOf r.2)
  | .send event => i.send fuel event
  | .processMailbox => (i.processMailbox fuel).map fun r => (r.1, errorOf r.2)
  | .runNext deadline => (i.runNext fuel deadline).map fun r => (r.1, r.2.error?)
  | .runUntilDone deadline => (i.runUntilDone fuel deadline).map fun r => (r.1, r.2.error?)
  | .stop => some (i.stop, none)

def journal (fuel : Nat) (i : Interpreter C) : Request → List (JournalEntry C)
  | .start => i.starting fuel
  | .send event => i.sending fuel event
  | .processMailbox => i.deliveringAll fuel fuel
  | .runNext deadline => i.runningNext fuel deadline
  | .runUntilDone deadline => i.runningMessages fuel deadline fuel
  | .stop => []

def refusal (i : Interpreter C) : Request → Option InterpreterError
  | .start => match i.status with
    | .running => none
    | .stopped => some (.stopped i.machine.id)
    | .notStarted =>
      if i.machine.needsRuntime && !i.work.hasRuntime then some (.noRuntime i.machine.id)
      else i.enterInitial.2.map .step
  | .send event => match i.status, i.settings.deferEvents with
    | .notStarted, false => some (.notStarted i.machine.id event.type)
    | _, _ => none
  | _ => none

end Request

namespace Interpreter

variable {C : Type} {i i' : Interpreter C} {step : Step C} {sends : List Event}

lemma perform_sends {m : Machine C} {context : C} {l : List (Pending C)}
    (h : (perform m context l).2 = .ok sends) : sends = l.filterMap Pending.sent? := by
  induction l generalizing sends with
  | nil => exact (Except.ok.inj h).symm
  | cons p rest ih =>
    rw [perform] at h
    rw [List.filterMap_cons, Pending.sent?]
    split at h <;> rename_i ha
    · split at h
      · exact absurd h (by simp)
      · rw [ha]
        exact ih h
    · rw [ha]
      exact ih h
    · rw [ha]
      cases hr : (perform m context rest).2 with
      | error e =>
        simp only [hr] at h
        exact absurd h (by simp [Except.map])
      | ok l =>
        simp only [hr] at h
        obtain rfl := Except.ok.inj h
        exact congrArg _ (ih hr)
    · rw [ih h]
      cases hp : p.action <;> simp_all

lemma performStep_sends (h : (i.performStep step).2 = .ok sends) : sends = i.sendsOf step := by
  rw [performStep] at h
  rw [sendsOf]
  split at h <;> rename_i hx
  · rw [if_pos hx]
    exact perform_sends h
  · rw [if_neg hx]
    exact (Except.ok.inj h).symm

lemma exists_adopt_eq (step : Step C) (sends : List Event) (hr : i.status = .running) :
    ∃ work trace, i.adopt step sends = { i with
      status := if step.done then .stopped else .running
      state := some step.state
      snapshot := some (i.machine.stateOf step)
      queue := if step.done then [] else i.queue ++ sends
      transitions := i.logged step
      metadata := i.metadata.advance i.date
      work
      trace } := by
  have hb := busies_trade i step sends
  have hst : ((i.trade step sends).display step (i.logged step)).status = .running := by
    rw [display, hb]
    exact hr
  rw [adopt_eq]
  cases step.done with
  | false =>
    refine ⟨(i.trade step sends).work,
      ((i.trade step sends).display step (i.logged step)).trace, ?_⟩
    simp only [Bool.false_eq_true, if_false]
    rw [display, hb]
    simp only [notify, observe, moveTo, hr]
  | true =>
    obtain ⟨trace, hl⟩ := leave_eq ({ (i.trade step sends).display step (i.logged step) with
      status := .stopped } : Interpreter C).shutdown
    refine ⟨(i.trade step sends).work.shutdown, trace, ?_⟩
    simp only [if_true, stop, hst, hl]
    rw [display, hb]
    simp only [notify, observe, moveTo, shutdown]

lemma committing_cases (i : Interpreter C) (step : Step C) :
    (step.changed = false ∧ i.committing step = [] ∧
        i.commit step = ({ i with metadata := i.metadata.advance i.date }, none)) ∨
      (∃ e trace, i.committing step = [] ∧ i.commit step = ({ i with trace }, some e)) ∨
        ∃ notes, step.changed = true ∧ i.performStep step = (notes, .ok (i.sendsOf step)) ∧
          i.committing step = .adopted step :: (i.sendsOf step).map .queued ∧
          i.commit step = ((i.observe notes).adopt step (i.sendsOf step), none) := by
  rw [committing, commit]
  cases hc : step.changed with
  | false => exact .inl ⟨rfl, rfl, rfl⟩
  | true =>
    rcases hp : i.performStep step with ⟨notes, e | sends⟩
    · exact .inr (.inl ⟨e, _, rfl, rfl⟩)
    · obtain rfl : sends = i.sendsOf step := performStep_sends (by rw [hp])
      exact .inr (.inr ⟨notes, rfl, rfl, rfl, rfl⟩)

lemma handling_cases {s : MachineState C} (hs : i.state = some s) (event : Event) :
    (∃ e trace, i.handling event = [.handled event (some e)] ∧
        i.process event = ({ i with trace }, some e)) ∨
      (i.handling event = [.handled event none] ∧
        i.process event = ({ i with metadata := i.metadata.advance i.date }, none)) ∨
      ∃ step notes, i.machine.stepWithin s event i.settings.maxMicrosteps = .ok step ∧
        step.changed = true ∧ i.performStep step = (notes, .ok (i.sendsOf step)) ∧
        i.handling event =
          .handled event none :: .adopted step :: (i.sendsOf step).map .queued ∧
        i.process event = ((i.observe notes).adopt step (i.sendsOf step), none) := by
  cases hstep : i.machine.stepWithin s event i.settings.maxMicrosteps with
  | error e =>
    have hp : i.process event = (i.report e, some e) := by simp only [process, hs, hstep]
    have hj : i.handling event = [.handled event (i.process event).2] := by
      simp only [handling, hs, hstep]
    exact .inl ⟨e, _, by rw [hj, hp], hp⟩
  | ok step =>
    have hp : i.process event = i.commitOrReport step := by simp only [process, hs, hstep]
    have hj : i.handling event = .handled event (i.process event).2 :: i.committing step := by
      simp only [handling, hs, hstep]
    rw [hj, hp, commitOrReport]
    rcases committing_cases i step with
      ⟨_, hj, hc⟩ | ⟨e, trace, hj, hc⟩ | ⟨notes, hchanged, hsends, hj, hc⟩
    · rw [hj, hc]
      exact .inr (.inl ⟨rfl, rfl⟩)
    · rw [hj, hc]
      exact .inl ⟨e, _, rfl, rfl⟩
    · rw [hj, hc]
      exact .inr (.inr ⟨step, notes, rfl, hchanged, hsends, rfl, rfl⟩)

lemma failureIn_handling (i : Interpreter C) (event : Event) :
    failureIn (i.handling event) = (i.process event).2 := by
  cases hs : i.state with
  | none => simp only [handling, process, hs, failureIn, List.findSome?_nil]
  | some s =>
    rcases handling_cases hs event with
      ⟨e, trace, hj, hp⟩ | ⟨hj, hp⟩ | ⟨step, notes, _, _, _, hj, hp⟩
    · rw [hj, hp]
      rfl
    · rw [hj, hp]
      rfl
    · rw [hj, hp]
      exact failureIn_map_queued (i.sendsOf step)

lemma entering_cases (hs : i.status = .notStarted) :
    (∃ e metadata trace, i.entering = [] ∧
        i.enterInitial = ({ i with metadata, trace }, some e)) ∨
      ∃ step notes,
        i.machine.initialStepFrom i.machine.context i.settings.maxMicrosteps = .ok step ∧
        i.performStep step = (notes, .ok (i.sendsOf step)) ∧
        i.entering = .adopted step :: (i.sendsOf step).map .queued ∧
        i.enterInitial = ((i.begun.observe notes).adopt step (i.sendsOf step), none) := by
  cases hstep : i.machine.initialStepFrom i.machine.context i.settings.maxMicrosteps with
  | error e =>
    exact .inl ⟨e, i.metadata, _, by simp only [entering, hstep], by
      simp only [enterInitial, hstep]
      rfl⟩
  | ok step =>
    have hj : i.entering = i.begun.committing step := by simp only [entering, hstep]
    have hchanged := (Machine.done_of_initialStepFrom hstep).1
    have hadopted : ∀ j, i.begun.commit step = (j, none) → i.enterInitial = (j, none) := by
      intro j h
      rw [begun] at h
      simp only [enterInitial, hstep, h]
    have hfailed : ∀ j e, i.begun.commit step = (j, some e) →
        i.enterInitial = (report { j with status := .notStarted } e, some e) := by
      intro j e h
      rw [begun] at h
      simp only [enterInitial, hstep, h]
    rw [hj]
    rcases committing_cases i.begun step with
      ⟨hc, _⟩ | ⟨e, trace, hj, hc⟩ | ⟨notes, _, hsends, hj, hc⟩
    · exact absurd (hc.symm.trans hchanged) (by simp)
    · rw [hj, hfailed _ e hc]
      refine .inl ⟨e, i.begun.metadata, trace ++ i.errorListeners.map (.reported · e), rfl, ?_⟩
      rw [← hs]
      rfl
    · rw [hj, hadopted _ hc]
      exact .inr ⟨step, notes, rfl, hsends, rfl, rfl⟩

end Interpreter

end Statechart
