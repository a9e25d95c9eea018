import Mathlib.Tactic.Common
import Statechart.Proofs.Interpreter.Commit

/-! Changes of an interpreter that the work of its states does not notice, as they leave the
machine, its state and the work alone. They may as well be made after a step as before it. -/

namespace Statechart.Interpreter

variable {C : Type}

structure Overlay (f : Interpreter C → Interpreter C) : Prop where
  machine : ∀ i, (f i).machine = i.machine
  settings : ∀ i, (f i).settings = i.settings
  state : ∀ i, (f i).state = i.state
  work : ∀ i, (f i).work = i.work
  errorListeners : ∀ i, (f i).errorListeners = i.errorListeners
  observe : ∀ i l, (f i).observe l = f (i.observe l)
  rework : ∀ i work, { f i with work } = f { i with work }

namespace Overlay

variable {f : Interpreter C → Interpreter C} (h : Overlay f) (i : Interpreter C)

include h

lemma report (e : StepError) : (f i).report e = f (i.report e) := by
  rw [Interpreter.report, h.observe, h.errorListeners]
  rfl

lemma performStep (step : Step C) : (f i).performStep step = i.performStep step := by
  rw [Interpreter.performStep, h.machine, h.settings]
  rfl

lemma stopActivity (n : NodeId) (name : String) :
    (f i).stopActivity n name = f (i.stopActivity n name) := by
  rw [Interpreter.stopActivity, h.work, h.observe, h.work, h.rework]
  rfl

lemma startActivity (n : NodeId) (name : String) (started stopped : Value) :
    (f i).startActivity n name started stopped = f (i.startActivity n name started stopped) := by
  rw [Interpreter.startActivity, h.observe, h.stopActivity, h.work, h.rework]
  rfl

lemma startService (n : NodeId) (id : String) (r : ServiceRun) :
    (f i).startService n id r = f (i.startService n id r) := by
  rw [Interpreter.startService, Interpreter.startService, h.work, h.observe]
  split
  · exact h.rework _ _
  · rfl

lemma startWork (event : Event) (n : NodeId) :
    Interpreter.startWork event (f i) n = f (Interpreter.startWork event i n) := by
  rw [Interpreter.startWork, Interpreter.startWork, h.state, h.machine]
  split
  · rfl
  · dsimp only
    rw [List.foldl_hom f, List.foldl_hom f, List.foldl_hom f]
    · exact fun j v => h.startService j n v.id _
    · exact fun j a => h.startActivity j n a.name _ _
    · exact fun j d => by rw [h.work, h.rework]

lemma stopWork (n : NodeId) : (f i).stopWork n = f (i.stopWork n) := by
  rw [Interpreter.stopWork, Interpreter.stopWork, h.machine]
  rw [List.foldl_hom f, List.foldl_hom f, List.foldl_hom f]
  · exact fun j v => by rw [h.work, h.rework]
  · exact fun j a => h.stopActivity j n a.name
  · exact fun j d => by rw [h.work, h.rework]

lemma leave : (f i).leave = f i.leave := by
  rw [Interpreter.leave, Interpreter.leave, h.state, h.machine]
  split
  · rfl
  · exact h.report i _
  · rw [h.performStep]
    split
    · rw [h.observe, h.report]
    · exact h.observe i _

lemma trade {step : Step C} {sends : List Event}
    (hmove : ∀ j, (f j).moveTo step.state sends = f (j.moveTo step.state sends)) :
    (f i).trade step sends = f (i.trade step sends) := by
  have hleft : step.exited.foldl Interpreter.stopWork (f i) =
      f (step.exited.foldl Interpreter.stopWork i) :=
    List.foldl_hom f fun j n => h.stopWork j n
  rw [Interpreter.trade, hleft, hmove]
  exact List.foldl_hom f fun j n => h.startWork j step.event n

lemma commit {step : Step C}
    (hadopt : ∀ j sends, (i.performStep step).2 = .ok sends →
      (f j).adopt step sends = f (j.adopt step sends))
    (hcount : { f i with metadata := (f i).metadata.advance (f i).date } =
      f { i with metadata := i.metadata.advance i.date }) :
    (f i).commit step = (i.commit step).map f id := by
  rw [Interpreter.commit, Interpreter.commit, h.performStep]
  split
  · rcases hp : i.performStep step with ⟨notes, e | sends⟩
    · simp only [h.observe, Prod.map_apply, id]
    · simp only [h.observe, hadopt _ sends (by rw [hp]), Prod.map_apply, id]
  · simp only [hcount, Prod.map_apply, id]

lemma process {event : Event}
    (hcommit : ∀ s step, i.state = some s →
      i.machine.stepWithin s event i.settings.maxMicrosteps = .ok step →
        (f i).commit step = (i.commit step).map f id) :
    (f i).process event = (i.process event).map f id := by
  rw [Interpreter.process, Interpreter.process, h.state]
  cases hs : i.state with
  | none => rfl
  | some s =>
    simp only [h.machine, h.settings]
    cases hstep : i.machine.stepWithin s event i.settings.maxMicrosteps with
    | error e => simp only [h.report, Prod.map_apply, id]
    | ok step =>
      simp only [commitOrReport, hcommit s step hs hstep]
      rcases i.commit step with ⟨j, _ | e⟩
      · rfl
      · simp only [Prod.map_apply, id, h.report]

end Overlay

end Statechart.Interpreter
