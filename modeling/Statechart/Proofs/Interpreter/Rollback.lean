import Mathlib.Tactic.Common
import Statechart.Machine.Build
import Statechart.Proofs.Interpreter.Past

/-! Rollback. An event that fails leaves nothing behind but what was observed: the notes of the
actions that were carried out before one failed, and the reports to the error listeners. -/

namespace Statechart.Interpreter

variable {C : Type} {i i' : Interpreter C} {event : Event} {e : StepError}

def failure (i : Interpreter C) (notes : List (Observation C)) (e : StepError) :
    List (Observation C) :=
  notes ++ i.errorListeners.map (.reported · e)

lemma report_observe (i : Interpreter C) (notes : List (Observation C)) (e : StepError) :
    (i.observe notes).report e = i.observe (i.failure notes e) := by
  simp [report, observe, failure, List.append_assoc]

lemma process_failed (h : i.process event = (i', some e)) :
    ∃ notes, (∀ o ∈ notes, o.IsPerformed) ∧ i' = i.observe (i.failure notes e) := by
  cases hs : i.state with
  | none => simp [process, hs] at h
  | some s =>
    rcases process_cases hs event with ⟨e', notes, hnotes, hp⟩ | hp | ⟨_, _, _, _, hp⟩
    · rw [hp, Prod.mk.injEq, Option.some.injEq] at h
      obtain ⟨rfl, rfl⟩ := h
      exact ⟨notes, hnotes, report_observe i notes e'⟩
    · simp [hp] at h
    · simp [hp] at h

lemma drain_of_failed (hr : i.status = .running) (h : i.process event = (i', some e))
    (fuel : Nat) :
    drain (fuel + 1) { i with queue := event :: i.queue } =
      (drain fuel i').map fun r => (r.1, some e) := by
  let j : Interpreter C := { i with queue := event :: i.queue }
  have hj : process { j with queue := i.queue } event = (i', some e) := h
  have hd : j.drain (fuel + 1) = _ := drain_succ_of_cons hr rfl
  rw [hj] at hd
  exact hd

lemma drain_observe (i : Interpreter C) (l : List (Observation C)) (fuel : Nat) :
    (drain fuel (i.observe l)).map (fun r => { r.1 with trace := [] }) =
      (drain fuel i).map fun r => { r.1 with trace := [] } := by
  have hi : i = ({ i with trace := [] } : Interpreter C).withPast i.trace := by
    simp [withPast]
  rw [observe_eq_withPast, drain_withPast]
  conv_rhs => rw [hi, drain_withPast]
  rw [Option.map_map, Option.map_map]
  rfl

/-- An event that fails is rolled back, and what is queued behind it goes on as if the event had not
been there. -/
theorem rollback (hr : i.status = .running) (h : i.process event = (i', some e)) :
    (∃ notes, (∀ o ∈ notes, o.IsPerformed) ∧
        i' = { i with trace := i.trace ++ notes ++ i.errorListeners.map (.reported · e) }) ∧
      ∀ fuel, drain (fuel + 1) { i with queue := event :: i.queue } =
          (drain fuel i').map (fun r => (r.1, some e)) ∧
        (drain fuel i').map (fun r => { r.1 with trace := [] }) =
          (drain fuel i).map fun r => { r.1 with trace := [] } := by
  obtain ⟨notes, hnotes, rfl⟩ := process_failed h
  refine ⟨⟨notes, hnotes, ?_⟩, fun fuel => ⟨drain_of_failed hr h fuel, ?_⟩⟩
  · simp [observe, failure, List.append_assoc]
  · exact drain_observe i (i.failure notes e) fuel

def serving : Definition := .ofRoot
  { initial := some "idle"
    states := [
      ("idle", {
        on := .ofList [("SERVE", [{ target := ["busy"], actions := ["order", "note", "cook"] }])]
        activities := ["wait"] }),
      ("busy", {})] }

def servingBehaviors : Behaviors Unit where
  actions := .ofList [
    ("order", .send (.ofType "ORDER")),
    ("note", .effect fun _ _ => .ok (.str "noted")),
    ("cook", .effect fun _ _ => .error ⟨"burnt"⟩)]
  activities := .ofList [("wait", ⟨fun _ _ => .null, fun _ _ => .null⟩)]

def servingMachine : Machine Unit :=
  Machine.assemble serving () (Machine.link serving servingBehaviors).value

def servingIdle : Interpreter Unit :=
  (create servingMachine {} true .epoch).subscribe.2.subscribeToErrors.2.enterInitial.1

theorem serving_rollback :
    ∃ i, servingIdle.process (.ofType "SERVE") =
        (i, some (.action "machine.idle" "cook" ⟨"burnt"⟩)) ∧
      i.queue = [] ∧ i.work.activities.length = 1 := by
  have hr : servingIdle.status = .running := by decide +kernel
  have hq : servingIdle.queue.isEmpty := by decide +kernel
  have hw : servingIdle.work.activities.length = 1 := by decide +kernel
  have he : (servingIdle.process (.ofType "SERVE")).2 =
      some (.action "machine.idle" "cook" ⟨"burnt"⟩) := by decide +kernel
  have hi := rollback hr (Prod.ext rfl he)
  obtain ⟨⟨notes, _, hi⟩, _⟩ := hi
  refine ⟨_, Prod.ext rfl he, ?_, ?_⟩
  · rw [hi]
    exact List.isEmpty_iff.1 hq
  · rw [hi]
    exact hw

end Statechart.Interpreter
