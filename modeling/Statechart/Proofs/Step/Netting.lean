import Mathlib.Tactic.Common
import Statechart.Proofs.Step.Completion
import Statechart.Proofs.Step.Lifecycle

/-! The record of entries and exits is exact. Whatever is exited and entered on the way, and how
often, nothing is twice in the record that a step ends with, and it holds no more than the
difference between the configurations before and after the step. -/

namespace Statechart

variable {C : Type} {m : Machine C} {event : Event} {r r' r₁ r₂ : Run C} {n x : NodeId}

namespace Lifecycle

variable {before s : Configuration} {log : List Lifecycle}

lemma recordExit_of_mem (hl : log.Nodup) (h : .entered n ∈ log) :
    recordExit log n = log.erase (.entered n) := by
  rcases dropLast?_eq (n := n) log with ⟨hnot, _⟩ | ⟨front, back, rfl, _, hd⟩
  · exact absurd h hnot
  · have hfront : .entered n ∉ front := fun hmem =>
      (List.nodup_append.1 hl).2.2 _ hmem _ List.mem_cons_self rfl
    rw [recordExit, hd, Option.getD_some, List.erase_append_right _ hfront, List.erase_cons_head]

lemma recordExit_of_not_mem (h : .entered n ∉ log) : recordExit log n = log ++ [.exited n] := by
  rcases dropLast?_eq (n := n) log with ⟨_, hd⟩ | ⟨front, back, rfl, _, _⟩
  · rw [recordExit, hd, Option.getD_none]
  · exact absurd (List.mem_append_right _ List.mem_cons_self) h

lemma exited_mem_recordExit (hl : log.Nodup) :
    .exited x ∈ recordExit log n ↔ .exited x ∈ log ∨ x = n ∧ .entered n ∉ log := by
  by_cases h : .entered n ∈ log
  · simp [recordExit_of_mem hl h, hl.mem_erase_iff, h]
  · simp [recordExit_of_not_mem h, h]

lemma pairwise_record {R : Lifecycle → Lifecycle → Prop} {e : Lifecycle} (h : log.Pairwise R)
    (hR : ∀ l ∈ log, R l e) : (log ++ [e]).Pairwise R := by
  apply List.pairwise_append.2
  refine ⟨h, List.pairwise_singleton R e, fun l hl e' he => ?_⟩
  rw [List.mem_singleton.1 he]
  exact hR l hl

lemma pairwise_recordExit {R : Lifecycle → Lifecycle → Prop} (hl : log.Nodup) (h : log.Pairwise R)
    (hR : .entered n ∉ log → ∀ l ∈ log, R l (.exited n)) : (recordExit log n).Pairwise R := by
  by_cases hmem : .entered n ∈ log
  · rw [recordExit_of_mem hl hmem]
    exact h.sublist List.erase_sublist
  · rw [recordExit_of_not_mem hmem]
    exact pairwise_record h (hR hmem)

structure Difference (before after : Configuration) (log : List Lifecycle) : Prop
    extends Nets before after log where
  nodup : log.Nodup
  exits_first : log.Pairwise fun l e => ∀ n, l = .entered n → e ≠ .exited n
  exited : ∀ n, .exited n ∈ log → n ∈ before
  entered : ∀ n, .entered n ∈ log → n ∈ after

namespace Difference

lemma refl (s : Configuration) : Difference s s [] := by
  refine ⟨Nets.refl s, ?_, ?_, ?_, ?_⟩ <;> simp

lemma stayed (h : Difference before s log) (hn : n ∈ s) (hmem : .entered n ∉ log) :
    n ∈ before ∧ .exited n ∉ log :=
  ((h.mem n).1 hn).resolve_right hmem

lemma gone (h : Difference before s log) (hn : n ∈ before) (hs : n ∉ s) : .exited n ∈ log := by
  by_contra hnot
  exact hs ((h.mem n).2 (.inl ⟨hn, hnot⟩))

lemma exit (h : Difference before s log) (hn : n ∈ s) :
    Difference before (s.erase n) (recordExit log n) := by
  have hnets : Nets before (s.erase n) (recordExit log n) := h.toNets.exit
  have hstayed := h.stayed hn
  refine ⟨hnets, ?_, ?_, fun x hx => ?_, fun x hx => (hnets.mem x).2 (.inr hx)⟩
  · apply pairwise_recordExit h.nodup h.nodup
    rintro hmem l hl rfl
    exact (hstayed hmem).2 hl
  · apply pairwise_recordExit h.nodup h.exits_first
    rintro hmem l hl x rfl hx
    obtain rfl := Lifecycle.exited.inj hx
    exact hmem hl
  · rcases (exited_mem_recordExit h.nodup).1 hx with hx | ⟨rfl, hmem⟩
    · exact h.exited x hx
    · exact (hstayed hmem).1

lemma enter (h : Difference before s log) (hn : n ∉ s) :
    Difference before (s.insert n) (log ++ [Lifecycle.entered n]) := by
  have hnets : Nets before (s.insert n) (log ++ [Lifecycle.entered n]) := h.toNets.enter hn
  refine ⟨hnets, ?_, ?_, fun x hx => ?_, fun x hx => (hnets.mem x).2 (.inr hx)⟩
  · apply pairwise_record h.nodup
    rintro l hl rfl
    exact hn (h.entered n hl)
  · apply pairwise_record h.exits_first
    exact fun _ _ _ _ hx => absurd hx (by simp)
  · exact h.exited x (by simpa using hx)

end Difference

end Lifecycle

open Lifecycle

namespace Machine

variable {l : List TransitionRef}

def exiting (m : Machine C) (s : MachineState C) (l : List TransitionRef) : List NodeId :=
  (m.exitSetOf s.configuration s.history l).elems.reverse

def opened (m : Machine C) (l : List TransitionRef) (r : Run C) : Run C :=
  { r with
    state := { r.state with history := m.historyAfter r.state l }
    microsteps := r.microsteps + 1 }

def carryOut (m : Machine C) (event : Event) (r : Run C) (ref : TransitionRef) :
    Except StepError (Run C) :=
  r.runActions m (m.transitionAt ref).source event (m.transitionAt ref).actions

def ExitsAt (m : Machine C) (l : List TransitionRef) (event : Event) (r : Run C) (n : NodeId)
    (r' : Run C) : Prop :=
  Run.Comes (Run.exitNode m event) (m.exiting r.state l) (m.opened l r) n r'

def EntersAt (m : Machine C) (l : List TransitionRef) (event : Event) (r : Run C) (n : NodeId)
    (r' : Run C) : Prop :=
  n ∉ r'.state.configuration ∧ ∃ r₁ r₂,
    (m.opened l r).exitNodes m event (m.exiting r.state l) = .ok r₁ ∧
    l.foldlM (m.carryOut event) r₁ = .ok r₂ ∧
    Run.Comes (Run.enterNode m event) (m.entering r.state l) r₂ n r'

lemma microstep_eq (l : List TransitionRef) (event : Event) (r : Run C) :
    m.microstep l event r = (m.opened l r).exitNodes m event (m.exiting r.state l) >>= fun r₁ =>
      l.foldlM (m.carryOut event) r₁ >>= fun r₂ =>
        r₂.enterNodes m event (m.entering r.state l) := rfl

lemma ExitsAt.active (h : m.ExitsAt l event r n r') : n ∈ r'.state.configuration := by
  have hsorted := (m.exitSetOf r.state.configuration r.state.history l).sorted
  apply Run.Comes.active (List.nodup_reverse.2 (hsorted.imp Nat.ne_of_lt)) h
  intro x hx
  obtain ⟨ref, _, hx⟩ := mem_exitSetOf.1 (List.mem_reverse.1 hx)
  rw [exitSet] at hx
  split at hx
  · exact absurd hx (SortedSet.not_mem_empty x)
  · exact (SortedSet.mem_filter.1 hx).1

lemma microstep_keeps {P : Configuration → List Lifecycle → Prop}
    (h : m.microstep l event r = .ok r') (hr : P r.state.configuration r.lifecycle)
    (hexit : ∀ n r', m.ExitsAt l event r n r' → P r'.state.configuration r'.lifecycle →
      P (r'.state.configuration.erase n) (Lifecycle.recordExit r'.lifecycle n))
    (henter : ∀ n r', m.EntersAt l event r n r' → P r'.state.configuration r'.lifecycle →
      P (r'.state.configuration.insert n) (r'.lifecycle ++ [.entered n])) :
    P r'.state.configuration r'.lifecycle := by
  rw [microstep_eq] at h
  obtain ⟨r₁, h₁, h⟩ := bind_eq_ok h
  obtain ⟨r₂, h₂, h⟩ := bind_eq_ok h
  have hexited : P r₁.state.configuration r₁.lifecycle := Run.exitNodes_keeps h₁ hr hexit
  have hu := Run.unmoved_foldlM (fun _ _ _ => Run.runActions_unmoved) h₂
  rw [← hu.configuration, ← hu.lifecycle] at hexited
  apply Run.enterNodes_keeps h hexited
  exact fun n r' hn hcomes => henter n r' ⟨hn, r₁, r₂, h₁, h₂, hcomes⟩

variable {before : Configuration} {left limit : Nat}

lemma difference_microstep (h : m.microstep l event r = .ok r')
    (hr : Difference before r.state.configuration r.lifecycle) :
    Difference before r'.state.configuration r'.lifecycle := by
  apply microstep_keeps h hr
  · exact fun n r' hexits hr => hr.exit hexits.active
  · exact fun n r' henters hr => hr.enter henters.1

lemma difference_settle (h : m.settle limit left event r = .ok r')
    (hr : Difference before r.state.configuration r.lifecycle) :
    Difference before r'.state.configuration r'.lifecycle := by
  obtain ⟨_, r₁, hr₁, rfl | rfl⟩ := settle_invariant
    (Q := fun _ r => Difference before r.state.configuration r.lifecycle)
    (fun _ r _ _ queue _ hr _ _ h =>
      difference_microstep (r := { r with internal := queue }) h hr) hr h
  · exact hr₁
  · exact hr₁

/-- In the record of a step each state is exited once at most and entered once at most, in this
order if both. What it says to be exited was active before, what it says to be entered is active
afterwards, and together they make up all the difference. -/
theorem lifecycle_difference (m : Machine C) :
    (∀ context limit step, m.initialStepFrom context limit = .ok step →
      Difference .empty step.state.configuration step.lifecycle) ∧
    (∀ s event limit step, m.stepWithin s event limit = .ok step →
      Difference s.configuration step.state.configuration step.lifecycle) ∧
    ∀ s step, m.exitAll s = .ok step →
      Difference s.configuration step.state.configuration step.lifecycle := by
  refine ⟨fun context limit step h => ?_, fun s event limit step h => ?_, fun s step h => ?_⟩
  · obtain ⟨r, r', hr, hr', rfl⟩ := initialStepFrom_cases h
    apply difference_settle hr'
    apply Run.enterNodes_keeps hr (.refl _)
    exact fun n r' hn _ hr => hr.enter hn
  · rcases stepWithin_cases h with rfl | ⟨_, l, r, r', rfl, _, _, hr, hr', rfl⟩
    · exact .refl _
    · exact difference_settle hr' (difference_microstep hr (.refl _))
  · obtain ⟨r, hr, h⟩ := bind_eq_ok h
    obtain rfl := Except.ok.inj h
    have hnodup : s.configuration.elems.reverse.Nodup :=
      List.nodup_reverse.2 (s.configuration.sorted.imp Nat.ne_of_lt)
    apply Run.exitNodes_keeps hr (.refl _)
    exact fun n r' hcomes hr => hr.exit (hcomes.active hnodup fun x hx => List.mem_reverse.1 hx)

def blinking : Definition := .ofRoot
  { initial := some "calm"
    states := [
      ("calm", {
        initial := some "low"
        entry := ["note"]
        exit := ["note"]
        on := .ofList [("BLINK", [{ target := ["lit"] }])]
        states := [("low", { entry := ["note"], exit := ["note"] })] }),
      ("lit", {
        type := some .parallel
        exit := ["note"]
        always := [{ target := ["calm"] }]
        states := [("left", { entry := ["note"] }), ("right", {})] })] }

def blinkingBehaviors : Behaviors Unit where
  actions := .ofList [("note", .send (.ofType "NOTE"))]

def blinkingMachine : Machine Unit := assemble blinking () (link blinking blinkingBehaviors).value

lemma build_blinking : build blinking blinkingBehaviors (some ()) = .ok blinkingMachine := rfl

theorem blinking_difference :
    ∃ start step, blinkingMachine.initialStepFrom () 0 = .ok start ∧
      blinkingMachine.stepWithin start.state (.ofType "BLINK") 2 = .ok step ∧
      step.microsteps = 2 ∧ step.lifecycle = [.exited 2, .exited 1, .entered 1, .entered 2] ∧
      Difference start.state.configuration step.state.configuration step.lifecycle := by
  have hrun : ((blinkingMachine.initialStepFrom () 0).bind fun start =>
      blinkingMachine.stepWithin start.state (.ofType "BLINK") 2).toOption.map
        (fun step => (step.microsteps, step.lifecycle)) =
          some (2, [.exited 2, .exited 1, .entered 1, .entered 2]) := by
    decide +kernel
  obtain ⟨step, hrun, hfields⟩ := Option.map_eq_some_iff.1 hrun
  obtain ⟨start, hstart, hstep⟩ := bind_eq_ok (eq_ok_of_toOption hrun)
  simp only [Prod.mk.injEq] at hfields
  obtain ⟨_, hsteps, _⟩ := lifecycle_difference blinkingMachine
  exact ⟨start, step, hstart, hstep, hfields.1, hfields.2,
    hsteps start.state (.ofType "BLINK") 2 step hstep⟩

end Machine

end Statechart
