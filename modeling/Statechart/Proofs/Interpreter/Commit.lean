import Mathlib.Tactic.Common
import Statechart.Interpreter.Run

/-! What comes of an event: a step that is dropped with an error, one that changes nothing, or one
that is adopted, in stages that are named here. -/

namespace Statechart

def Observation.IsPerformed {C : Type} : Observation C → Prop
  | .performed _ _ _ => True
  | _ => False

namespace Interpreter

variable {C : Type}

lemma perform_isPerformed (m : Machine C) (context : C) (l : List (Pending C)) :
    ∀ o ∈ (perform m context l).1, o.IsPerformed := by
  induction l with
  | nil => simp [perform]
  | cons p rest ih =>
    rw [perform]
    split
    · split
      · simp
      · exact List.forall_mem_cons.2 ⟨trivial, ih⟩
    · exact List.forall_mem_cons.2 ⟨trivial, ih⟩
    · exact ih
    · exact ih

variable {i i' : Interpreter C} {step : Step C}

lemma performStep_isPerformed : ∀ o ∈ (i.performStep step).1, o.IsPerformed := by
  rw [performStep]
  split
  · exact perform_isPerformed i.machine step.state.context step.actions
  · simp

def moveTo (i : Interpreter C) (s : MachineState C) (sends : List Event) : Interpreter C :=
  { i with state := some s, queue := i.queue ++ sends }

def trade (i : Interpreter C) (step : Step C) (sends : List Event) : Interpreter C :=
  step.entered.foldl (startWork step.event)
    ((step.exited.foldl stopWork i).moveTo step.state sends)

def display (i : Interpreter C) (step : Step C) (transitions : TransitionLog) : Interpreter C :=
  let snapshot := i.machine.stateOf step
  notify { i with transitions, metadata := i.metadata.advance i.date, snapshot := some snapshot }
    snapshot

def logged (i : Interpreter C) (step : Step C) : TransitionLog :=
  if i.settings.recordTransitions then i.transitions.record (i.recordOf step) else i.transitions

lemma adopt_eq (sends : List Event) :
    i.adopt step sends =
      if step.done then ((i.trade step sends).display step (i.logged step)).stop
      else (i.trade step sends).display step (i.logged step) := rfl

lemma commit_cases (i : Interpreter C) (step : Step C) :
    (step.changed = false ∧
        i.commit step = ({ i with metadata := i.metadata.advance i.date }, none)) ∨
      ∃ notes, (∀ o ∈ notes, o.IsPerformed) ∧
        ((∃ e, i.commit step = (i.observe notes, some e)) ∨
          ∃ sends, i.commit step = ((i.observe notes).adopt step sends, none)) := by
  have hp : ∀ o ∈ (i.performStep step).1, o.IsPerformed := performStep_isPerformed
  rw [commit]
  by_cases hc : step.changed
  · rw [if_pos hc]
    refine .inr ⟨_, hp, ?_⟩
    rcases i.performStep step with ⟨notes, e | sends⟩
    · exact .inl ⟨e, rfl⟩
    · exact .inr ⟨sends, rfl⟩
  · rw [if_neg hc]
    exact .inl ⟨by simpa using hc, rfl⟩

lemma process_cases {s : MachineState C} (hs : i.state = some s) (event : Event) :
    (∃ e notes, (∀ o ∈ notes, o.IsPerformed) ∧
        i.process event = ((i.observe notes).report e, some e)) ∨
      i.process event = ({ i with metadata := i.metadata.advance i.date }, none) ∨
        ∃ step notes sends, i.machine.stepWithin s event i.settings.maxMicrosteps = .ok step ∧
          i.process event = ((i.observe notes).adopt step sends, none) := by
  cases hstep : i.machine.stepWithin s event i.settings.maxMicrosteps with
  | error e =>
    have hp : i.process event = (i.report e, some e) := by simp only [process, hs, hstep]
    exact .inl ⟨e, [], by simp, by simpa [observe] using hp⟩
  | ok step =>
    have hp : i.process event = i.commitOrReport step := by simp only [process, hs, hstep]
    rcases commit_cases i step with ⟨_, hc⟩ | ⟨notes, hnotes, ⟨e, hc⟩ | ⟨sends, hc⟩⟩
    · exact .inr (.inl (by rw [hp, commitOrReport, hc]))
    · exact .inl ⟨e, notes, hnotes, by rw [hp, commitOrReport, hc]⟩
    · exact .inr (.inr ⟨step, notes, sends, rfl, by rw [hp, commitOrReport, hc]⟩)

variable {fuel : Nat} {event : Event} {rest : List Event}

lemma drain_of_not_running (hr : i.status ≠ .running) : i.drain fuel = some (i, none) := by
  rw [drain.eq_def]
  exact if_neg hr

lemma drain_of_nil (hq : i.queue = []) : i.drain fuel = some (i, none) := by
  simp only [drain.eq_def, hq]
  split <;> rfl

lemma drain_zero_of_cons (hr : i.status = .running) (hq : i.queue = event :: rest) :
    i.drain 0 = none := by
  simp only [drain.eq_def, hr, hq, if_true]

lemma drain_succ_of_cons (hr : i.status = .running) (hq : i.queue = event :: rest) :
    i.drain (fuel + 1) =
      (drain fuel (process { i with queue := rest } event).1).map fun r =>
        (r.1, (process { i with queue := rest } event).2 <|> r.2) := by
  rw [drain.eq_def, Option.map_eq_bind]
  simp only [if_pos hr, hq]
  rfl

lemma drain_cases {e : Option StepError} (h : i.drain fuel = some (i', e)) :
    (i' = i ∧ e = none) ∨
      ∃ fuel' event rest e', fuel = fuel' + 1 ∧ i.status = .running ∧ i.queue = event :: rest ∧
        drain fuel' (process { i with queue := rest } event).1 = some (i', e') ∧
        e = ((process { i with queue := rest } event).2 <|> e') := by
  by_cases hr : i.status = .running
  · cases hq : i.queue with
    | nil =>
      rw [drain_of_nil hq, Option.some.injEq, Prod.mk.injEq] at h
      exact .inl ⟨h.1.symm, h.2.symm⟩
    | cons event rest =>
      cases fuel with
      | zero =>
        rw [drain_zero_of_cons hr hq] at h
        exact absurd h (by simp)
      | succ fuel =>
        rw [drain_succ_of_cons hr hq, Option.map_eq_some_iff] at h
        obtain ⟨⟨j, e'⟩, hd, hj⟩ := h
        rw [Prod.mk.injEq] at hj
        obtain ⟨rfl, he⟩ := hj
        exact .inr ⟨fuel, event, rest, e', rfl, hr, rfl, hd, he.symm⟩
  · rw [drain_of_not_running hr, Option.some.injEq, Prod.mk.injEq] at h
    exact .inl ⟨h.1.symm, h.2.symm⟩

lemma drain_induction {P : Interpreter C → Prop} {e : Option StepError}
    (hP : ∀ i event rest, P i → i.status = .running → i.queue = event :: rest →
      P (process { i with queue := rest } event).1)
    (hi : P i) (h : i.drain fuel = some (i', e)) : P i' := by
  induction fuel generalizing i e with
  | zero =>
    rcases drain_cases h with ⟨rfl, _⟩ | ⟨_, _, _, _, hf, _⟩
    · exact hi
    · exact absurd hf (by simp)
  | succ fuel ih =>
    rcases drain_cases h with ⟨rfl, _⟩ | ⟨fuel', event, rest, e', hf, hr, hq, hd, _⟩
    · exact hi
    · obtain rfl := Nat.succ.inj hf
      exact ih (hP i event rest hi hr hq) hd

lemma startFresh_cases {r : Except InterpreterError (Snapshot C)}
    (h : i.startFresh fuel = some (i', r)) :
    ((i.machine.needsRuntime && !i.work.hasRuntime) = true ∧ i' = i ∧
        r = .error (.noRuntime i.machine.id)) ∨
      (i.machine.needsRuntime && !i.work.hasRuntime) = false ∧
        ((∃ e, i.enterInitial = (i', some e) ∧ r = .error (.step e)) ∨
          ∃ j e, i.enterInitial = (j, none) ∧
            ({ j with deferred := [] }.enqueue j.deferred).drain fuel = some (i', e) ∧
            r = e.elim i'.snapshotOrStopped fun e => .error (.step e)) := by
  rw [startFresh] at h
  split at h
  · rename_i hw
    obtain ⟨rfl, rfl⟩ := Prod.mk.inj (Option.some.inj h)
    exact .inl ⟨hw, rfl, rfl⟩
  · rename_i hw
    refine .inr ⟨Bool.eq_false_iff.2 hw, ?_⟩
    rcases he : i.enterInitial with ⟨j, _ | e⟩
    · rw [he] at h
      obtain ⟨⟨k, e⟩, hd, h⟩ := Option.bind_eq_some_iff.1 h
      refine .inr ⟨j, e, rfl, ?_⟩
      cases e with
      | none =>
        obtain ⟨rfl, rfl⟩ := Prod.mk.inj (Option.some.inj h)
        exact ⟨hd, rfl⟩
      | some e =>
        obtain ⟨rfl, rfl⟩ := Prod.mk.inj (Option.some.inj h)
        exact ⟨hd, rfl⟩
    · rw [he] at h
      obtain ⟨rfl, rfl⟩ := Prod.mk.inj (Option.some.inj h)
      exact .inl ⟨e, rfl, rfl⟩

end Interpreter

end Statechart
