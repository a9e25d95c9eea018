import Mathlib.Tactic.Common
import Statechart.Proofs.Interpreter.Overlay

/-! What an interpreter did before, as far as it is only kept in the trace, has no influence on what
it does next. -/

namespace Statechart.Interpreter

variable {C : Type}

def withPast (past : List (Observation C)) (i : Interpreter C) : Interpreter C :=
  { i with trace := past ++ i.trace }

variable (past : List (Observation C)) (i : Interpreter C)

lemma observe_withPast (l : List (Observation C)) :
    (i.withPast past).observe l = (i.observe l).withPast past := by
  simp [observe, withPast]

lemma observe_eq_withPast (l : List (Observation C)) :
    i.observe l = ({ i with trace := [] } : Interpreter C).withPast (i.trace ++ l) := by
  simp [observe, withPast]

lemma overlay_withPast : Overlay (withPast (C := C) past) :=
  ⟨fun _ => rfl, fun _ => rfl, fun _ => rfl, fun _ => rfl, fun _ => rfl, observe_withPast past,
    fun _ _ => rfl⟩

lemma stop_withPast : (i.withPast past).stop = i.stop.withPast past := by
  have hs : (i.withPast past).status = i.status := rfl
  cases h : i.status with
  | stopped => simp only [stop, hs, h]
  | notStarted =>
    simp only [stop, hs, h]
    rfl
  | running =>
    have hshut : ({ i.withPast past with status := .stopped } : Interpreter C).shutdown =
        ({ i with status := .stopped } : Interpreter C).shutdown.withPast past := by
      simp [shutdown, observe, withPast]
    simp only [stop, hs, h, hshut, (overlay_withPast past).leave]
    rfl

lemma display_withPast (step : Step C) (transitions : TransitionLog) :
    (i.withPast past).display step transitions = (i.display step transitions).withPast past := by
  simp [display, notify, observe, withPast]

lemma adopt_withPast (step : Step C) (sends : List Event) :
    (i.withPast past).adopt step sends = (i.adopt step sends).withPast past := by
  have hlog : (i.withPast past).logged step = i.logged step := rfl
  have htrade : (i.withPast past).trade step sends = (i.trade step sends).withPast past :=
    (overlay_withPast past).trade i fun _ => rfl
  simp only [adopt_eq, hlog, htrade, display_withPast, stop_withPast]
  split <;> rfl

lemma process_withPast (event : Event) :
    (i.withPast past).process event = (i.process event).map (withPast past) id :=
  (overlay_withPast past).process i fun _ step _ _ =>
    (overlay_withPast past).commit i (fun j sends _ => adopt_withPast past j step sends) rfl

lemma drain_withPast (fuel : Nat) (i : Interpreter C) :
    (i.withPast past).drain fuel = (i.drain fuel).map (Prod.map (withPast past) id) := by
  have hs (i : Interpreter C) : (i.withPast past).status = i.status := rfl
  have hq (i : Interpreter C) : (i.withPast past).queue = i.queue := rfl
  induction fuel generalizing i with
  | zero =>
    by_cases hr : i.status = .running
    · cases h : i.queue with
      | nil => rw [drain_of_nil h, drain_of_nil ((hq i).trans h)]; rfl
      | cons event rest =>
        rw [drain_zero_of_cons hr h, drain_zero_of_cons ((hs i).trans hr) ((hq i).trans h)]
        rfl
    · rw [drain_of_not_running hr, drain_of_not_running (hs i ▸ hr)]
      rfl
  | succ fuel ih =>
    by_cases hr : i.status = .running
    · cases h : i.queue with
      | nil => rw [drain_of_nil h, drain_of_nil ((hq i).trans h)]; rfl
      | cons event rest =>
        have hp := process_withPast past { i with queue := rest } event
        have hrest : ({ i.withPast past with queue := rest } : Interpreter C) =
            withPast past { i with queue := rest } := rfl
        rw [drain_succ_of_cons hr h, drain_succ_of_cons ((hs i).trans hr) ((hq i).trans h), hrest,
          hp, Prod.map_fst, ih, Option.map_map, Option.map_map]
        rfl
    · rw [drain_of_not_running hr, drain_of_not_running (hs i ▸ hr)]
      rfl

end Statechart.Interpreter
