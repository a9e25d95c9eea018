import Mathlib.Tactic.Common
import Statechart.Machine.Build
import Statechart.Proofs.Checkpoint.Restore
import Statechart.Proofs.Step.Legality

/-! Snapshots in place of states. A machine takes the same steps from the snapshot of a step as from
its state, and what an interpreter shows leads back to the state it is in. -/

namespace Statechart.Machine

variable {C : Type} [JsonCoded C] {d : Definition} {b : Behaviors C} {context : Option C}
  {m : Machine C}

theorem snapshots_lead_back (h : build d b context = .ok m) :
    (∀ step, m.Yields step → m.machineState (m.stateOf step) = .ok step.state ∧
      ∀ event, m.transitionState (m.stateOf step) event =
        (m.step step.state event).map m.stateOf) ∧
    ∀ i, Interpreter.Reaches m i → (i.snapshot = none ↔ i.state = none) ∧
      ∀ x, i.snapshot = some x → ∃ s, i.state = some s ∧ m.machineState x = .ok s := by
  have hm := wellFormed_of_build h
  have hd := closed_of_build h
  have hi := idsDistinct_of_build h
  refine ⟨fun step hstep => ?_, fun i hreach => ?_⟩
  · have hc := hstep.covers hm hd
    exact ⟨machineState_snapshot hi hc _ _ _ _, transitionState_stateOf hi hc⟩
  · obtain ⟨hshows, _⟩ := hreach.shows hm hd
    cases hs : i.state with
    | none =>
      have hsn := hshows.absent hs
      exact ⟨iff_of_true hsn rfl, fun x hx => absurd (hsn.symm.trans hx) (by simp)⟩
    | some s =>
      obtain ⟨hc, event, changed, actions, output, hsn⟩ := hshows.present s hs
      refine ⟨iff_of_false (by simp [hsn]) (by simp), fun x hx => ⟨s, rfl, ?_⟩⟩
      obtain rfl := Option.some.inj (hsn.symm.trans hx)
      exact machineState_snapshot hi hc event changed actions output

theorem pausing_leads_back :
    ∃ step, pausingMachine.Yields step ∧
      pausingMachine.machineState (pausingMachine.stateOf step) = .ok step.state ∧
      (pausingMachine.transitionState (pausingMachine.stateOf step)
          (.ofType "RESUME")).toOption.map Snapshot.configuration =
        some ["machine", "machine.work", "machine.work.both", "machine.work.both.a",
          "machine.work.both.a.a2", "machine.work.both.b"] := by
  have hrun : ((pausingMachine.initialStepFrom () 1).bind fun step =>
      [.ofType "GO", .ofType "PAUSE"].foldlM
        (fun step event => pausingMachine.stepWithin step.state event 1) step).toOption.map
          (fun step => (pausingMachine.step step.state (.ofType "RESUME")).toOption.map
            fun step => (pausingMachine.stateOf step).configuration) =
        some (some ["machine", "machine.work", "machine.work.both", "machine.work.both.a",
          "machine.work.both.a.a2", "machine.work.both.b"]) := by
    decide +kernel
  rw [Option.map_eq_some_iff] at hrun
  obtain ⟨step, hstep, hresume⟩ := hrun
  obtain ⟨first, hfirst, hrest⟩ := bind_eq_ok (eq_ok_of_toOption hstep)
  have hyields : pausingMachine.Yields step := yields_of_foldlM (.initial hfirst) hrest
  obtain ⟨hback, hnext⟩ := (snapshots_lead_back build_pausing).1 step hyields
  refine ⟨step, hyields, hback, ?_⟩
  rw [hnext, ← hresume]
  cases pausingMachine.step step.state (.ofType "RESUME") <;> rfl

end Statechart.Machine
