import Mathlib.Tactic.Common
import Statechart.Proofs.Step.Lifecycle

/-! What is exited in the course of a step, microstep by microstep. -/

namespace Statechart

variable {C : Type} {m : Machine C}

namespace Machine

def exitsOfSettle (m : Machine C) : Nat → Event → Run C → List NodeId
  | 0, _, _ => []
  | left + 1, current, r =>
    if m.isDone r.state.configuration then []
    else match m.nextEnabled r.state current r.internal with
      | .ok (some (event, enabled, queue)) =>
        (m.exitSetOf r.state.configuration r.state.history enabled).elems ++
          match m.microstep enabled event { r with internal := queue } with
          | .ok r => m.exitsOfSettle left event r
          | .error _ => []
      | _ => []

def exitsOfInitial (m : Machine C) (context : C) (limit : Nat) : List NodeId :=
  match (Run.start ⟨.empty, context, .empty⟩).enterNodes m .init
      (m.chart.enter .empty .empty rootId).elems with
  | .ok r => m.exitsOfSettle limit .init r
  | .error _ => []

def exitsOfStep (m : Machine C) (s : MachineState C) (event : Event) : Nat → List NodeId
  | 0 => []
  | left + 1 => match m.select s event false with
    | .error _ => []
    | .ok enabled =>
      if enabled.isEmpty then []
      else (m.exitSetOf s.configuration s.history enabled).elems ++
        match m.microstep enabled event (.start s) with
        | .ok r => m.exitsOfSettle left event r
        | .error _ => []

end Machine

namespace Lifecycle

variable {before after : Configuration} {log : List Lifecycle} {n x : NodeId}

lemma exited_recordExit (h : Nets before after log) (hx : x ∈ before) :
    .exited x ∈ recordExit log n ↔ .exited x ∈ log ∨ x = n := by
  cases dropLast?_eq (n := n) log with
  | inl h' =>
    rw [recordExit, h'.2, Option.getD_none, List.mem_append, List.mem_singleton,
      Lifecycle.exited.injEq]
  | inr h' =>
    obtain ⟨front, back, rfl, _, hd⟩ := h'
    have hagain : x = n → .exited x ∈ front ++ .entered n :: back :=
      fun he => he ▸ h.again n (by simp) (he ▸ hx)
    rw [recordExit, hd, Option.getD_some]
    simp only [List.mem_append, List.mem_cons, reduceCtorEq, false_or] at hagain ⊢
    exact ⟨.inl, fun ho => ho.elim id hagain⟩

end Lifecycle

namespace Run

variable {event : Event} {r r' : Run C} {before : Configuration} {x : NodeId} {l : List NodeId}

lemma exited_exitNodes (hr : Run.Nets before r) (hx : x ∈ before)
    (h : r.exitNodes m event l = .ok r') :
    .exited x ∈ r'.lifecycle ↔ .exited x ∈ r.lifecycle ∨ x ∈ l := by
  induction l generalizing r with
  | nil =>
    obtain rfl := foldlM_nil_eq_ok h
    simp
  | cons n l ih =>
    obtain ⟨r₁, h₁, h⟩ := foldlM_cons_eq_ok h
    obtain ⟨hconf, _, hlog⟩ := exitNode_moves h₁
    have hr₁ : Run.Nets before r₁ := by
      rw [Run.Nets, hconf, hlog]
      exact hr.exit
    rw [ih hr₁ h, hlog, Lifecycle.exited_recordExit hr hx, List.mem_cons, or_assoc]

lemma exited_enterNodes (h : r.enterNodes m event l = .ok r') :
    .exited x ∈ r'.lifecycle ↔ .exited x ∈ r.lifecycle := by
  induction l generalizing r with
  | nil =>
    obtain rfl := foldlM_nil_eq_ok h
    rfl
  | cons n l ih =>
    obtain ⟨r₁, h₁, h⟩ := foldlM_cons_eq_ok h
    rw [ih h]
    by_cases hn : n ∈ r.state.configuration
    · rw [enterNode_of_mem hn h₁]
    · rw [(enterNode_moves hn h₁).2.2]
      simp

end Run

namespace Machine

variable {event : Event} {r r' : Run C} {before : Configuration} {x : NodeId}

lemma exited_microstep {l : List TransitionRef} (hr : Run.Nets before r) (hx : x ∈ before)
    (h : m.microstep l event r = .ok r') : .exited x ∈ r'.lifecycle ↔
      .exited x ∈ r.lifecycle ∨ x ∈ m.exitSetOf r.state.configuration r.state.history l := by
  obtain ⟨r₁, h₁, h⟩ := bind_eq_ok h
  obtain ⟨r₂, h₂, h⟩ := bind_eq_ok h
  have hu := Run.unmoved_foldlM (fun _ _ _ => Run.runActions_unmoved) h₂
  have hr₀ : Run.Nets before { r with
      state := { r.state with history := m.historyAfter r.state l }
      microsteps := r.microsteps + 1 } := hr
  rw [Run.exited_enterNodes h, hu.lifecycle, Run.exited_exitNodes hr₀ hx h₁, List.mem_reverse]
  rfl

lemma exited_settle {limit left : Nat} {current : Event} (hr : Run.Nets before r)
    (hx : x ∈ before) (h : m.settle limit left current r = .ok r') :
    .exited x ∈ r'.lifecycle ↔
      .exited x ∈ r.lifecycle ∨ x ∈ m.exitsOfSettle left current r := by
  induction left generalizing current r with
  | zero =>
    rw [exitsOfSettle]
    rcases settle_cases h with (rfl | rfl) | ⟨_, _, _, _, _, hl, _⟩
    · simp
    · simp
    · exact absurd hl (Nat.succ_ne_zero _).symm
  | succ left ih =>
    rw [settle] at h
    rw [exitsOfSettle]
    by_cases hd : m.isDone r.state.configuration
    · rw [if_pos hd] at h ⊢
      simp [Except.ok.inj h]
    · rw [if_neg hd] at h ⊢
      obtain ⟨next, hnext, h⟩ := bind_eq_ok h
      cases next with
      | none =>
        simp [hnext, ← Except.ok.inj h]
      | some next =>
        obtain ⟨event, enabled, queue⟩ := next
        obtain ⟨r₁, h₁, h⟩ := bind_eq_ok h
        have hq : Run.Nets before { r with internal := queue } := hr
        rw [ih (microstep_nets hq h₁) h, exited_microstep hq hx h₁]
        simp only [hnext, h₁, List.mem_append, SortedSet.mem_elems, or_assoc]

variable {step : Step C} {s : MachineState C} {limit : Nat}

lemma exited_stepWithin (h : m.stepWithin s event limit = .ok step) (hx : x ∈ s.configuration) :
    .exited x ∈ step.lifecycle ↔ x ∈ m.exitsOfStep s event limit := by
  rw [stepWithin] at h
  split at h
  · exact absurd h (by simp)
  · obtain ⟨enabled, hl, h⟩ := bind_eq_ok h
    by_cases hnil : enabled.isEmpty
    · rw [if_pos hnil] at h
      rw [← Except.ok.inj h]
      cases limit <;> simp [exitsOfStep, hl, hnil, finish, Run.start]
    · rw [if_neg hnil] at h
      cases limit with
      | zero => exact absurd h (by simp)
      | succ left =>
        obtain ⟨r, hr, h⟩ := bind_eq_ok h
        obtain ⟨r', hr', h⟩ := bind_eq_ok h
        have hstart := Run.nets_start s
        have hsettle := exited_settle (microstep_nets hstart hr) hx hr'
        rw [exited_microstep hstart hx hr] at hsettle
        simp only [exitsOfStep, hl, hnil, hr, Bool.false_eq_true, if_false, List.mem_append,
          SortedSet.mem_elems]
        rw [← Except.ok.inj h]
        exact hsettle.trans (or_congr_left (or_iff_right List.not_mem_nil))

end Machine

end Statechart
