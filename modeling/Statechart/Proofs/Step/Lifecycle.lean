import Mathlib.Tactic.Common
import Mathlib.Data.List.Nodup
import Statechart.Proofs.Step.Run

/-! The lifecycle of a step: what was entered and exited, with what was entered and then left taken
back, makes the difference of the configurations before and after the step. -/

namespace Statechart

namespace Lifecycle

structure Nets (before after : Configuration) (log : List Lifecycle) : Prop where
  mem : ∀ x, x ∈ after ↔ (x ∈ before ∧ .exited x ∉ log) ∨ .entered x ∈ log
  again : ∀ x, .entered x ∈ log → x ∈ before → .exited x ∈ log
  once : (log.filterMap enteredNode?).Nodup

variable {before after : Configuration} {log log' : List Lifecycle} {n : NodeId}

lemma mem_enteredNodes : n ∈ log.filterMap enteredNode? ↔ .entered n ∈ log := by
  rw [List.mem_filterMap]
  refine ⟨?_, fun h => ⟨_, h, rfl⟩⟩
  rintro ⟨_ | _, hl, h⟩
  · obtain rfl := Option.some.inj h
    exact hl
  · exact absurd h (by simp [enteredNode?])

lemma mem_exitedNodes : n ∈ log.filterMap exitedNode? ↔ .exited n ∈ log := by
  rw [List.mem_filterMap]
  refine ⟨?_, fun h => ⟨_, h, rfl⟩⟩
  rintro ⟨_ | _, hl, h⟩
  · exact absurd h (by simp [exitedNode?])
  · obtain rfl := Option.some.inj h
    exact hl

lemma Nets.refl (s : Configuration) : Nets s s [] := ⟨by simp, by simp, List.nodup_nil⟩

lemma Nets.enter (h : Nets before after log) (hn : n ∉ after) :
    Nets before (after.insert n) (log ++ [.entered n]) := by
  have hn' := fun hx => hn ((h.mem n).2 hx)
  refine ⟨fun x => ?_, fun x hx hb => ?_, ?_⟩
  · simp [h.mem x, or_assoc, or_comm]
  · rcases List.mem_append.1 hx with hx | hx
    · exact List.mem_append_left _ (h.again x hx hb)
    · obtain rfl := Lifecycle.entered.inj (List.mem_singleton.1 hx)
      by_contra hnot
      exact hn' (.inl ⟨hb, fun he => hnot (List.mem_append_left _ he)⟩)
  · have hfresh : n ∉ log.filterMap enteredNode? := fun he => hn' (.inr (mem_enteredNodes.1 he))
    have hlast : [Lifecycle.entered n].filterMap enteredNode? = [n] := rfl
    rw [List.filterMap_append, hlast, ← List.concat_eq_append]
    exact h.once.concat hfresh

lemma dropLast?_eq (log : List Lifecycle) :
    (.entered n ∉ log ∧ dropLast? (· = .entered n) log = none) ∨
      ∃ front back, log = front ++ .entered n :: back ∧ .entered n ∉ back ∧
        dropLast? (· = .entered n) log = some (front ++ back) := by
  induction log with
  | nil => exact .inl ⟨by simp, rfl⟩
  | cons l log ih =>
    rcases ih with ⟨hn, hd⟩ | ⟨front, back, rfl, hn, hd⟩
    · by_cases hl : l = .entered n
      · exact .inr ⟨[], log, by simp [hl], hn, by simp [dropLast?, hd, hl]⟩
      · exact .inl ⟨by simp [hn, Ne.symm hl], by simp [dropLast?, hd, hl]⟩
    · exact .inr ⟨l :: front, back, rfl, hn, by simp [dropLast?, hd]⟩

lemma Nets.exit (h : Nets before after log) :
    Nets before (after.erase n) (recordExit log n) := by
  rcases dropLast?_eq (n := n) log with ⟨hn, hd⟩ | ⟨front, back, rfl, hback, hd⟩
  · rw [recordExit, hd, Option.getD_none]
    refine ⟨fun x => ?_, fun x hx hb => ?_, ?_⟩
    · rw [SortedSet.mem_erase, h.mem x]
      by_cases hx : x = n
      · subst hx
        simp [hn]
      · simp [hx]
    · simp only [List.mem_append, List.mem_singleton, reduceCtorEq, or_false] at hx
      exact List.mem_append_left _ (h.again x hx hb)
    · have hlast : [Lifecycle.exited n].filterMap enteredNode? = [] := rfl
      rw [List.filterMap_append, hlast, List.append_nil]
      exact h.once
  · rw [recordExit, hd, Option.getD_some]
    have honce := h.once
    have hcons : (Lifecycle.entered n :: back).filterMap enteredNode? =
        n :: back.filterMap enteredNode? := rfl
    rw [List.filterMap_append, hcons, List.nodup_middle,
      ← List.filterMap_append, List.nodup_cons, mem_enteredNodes] at honce
    refine ⟨fun x => ?_, fun x hx hb => ?_, honce.2⟩
    · rw [SortedSet.mem_erase, h.mem x]
      by_cases hx : x = n
      · subst hx
        have hagain := h.again x (by simp)
        simp only [List.mem_append, List.mem_cons, reduceCtorEq, false_or] at hagain honce ⊢
        grind
      · simp [hx]
    · have hagain := h.again x (by simp at hx ⊢; grind) hb
      simpa using hagain

end Lifecycle

variable {C : Type} {m : Machine C} {event : Event} {r r' : Run C} {before : Configuration}

def Run.Nets (before : Configuration) (r : Run C) : Prop :=
  Lifecycle.Nets before r.state.configuration r.lifecycle

namespace Run

lemma nets_start (s : MachineState C) : Run.Nets s.configuration (.start s) := Lifecycle.Nets.refl _

lemma Unmoved.nets (h : Unmoved r r') (hr : Run.Nets before r) : Run.Nets before r' := by
  rw [Run.Nets, h.configuration, h.lifecycle]
  exact hr

lemma exitNodes_nets {l : List NodeId} (hr : Run.Nets before r)
    (h : r.exitNodes m event l = .ok r') : Run.Nets before r' :=
  exitNodes_keeps h hr fun _ _ _ hr => hr.exit

lemma enterNodes_nets {l : List NodeId} (hr : Run.Nets before r)
    (h : r.enterNodes m event l = .ok r') : Run.Nets before r' :=
  enterNodes_keeps h hr fun _ _ hn _ hr => hr.enter hn

end Run

namespace Machine

lemma microstep_nets {l : List TransitionRef} (hr : Run.Nets before r)
    (h : m.microstep l event r = .ok r') : Run.Nets before r' := by
  obtain ⟨r₁, h₁, h⟩ := bind_eq_ok h
  obtain ⟨r₂, h₂, h⟩ := bind_eq_ok h
  have hu := Run.unmoved_foldlM (fun _ _ _ => Run.runActions_unmoved) h₂
  refine Run.enterNodes_nets (hu.nets (Run.exitNodes_nets ?_ h₁)) h
  exact hr

lemma settle_nets {limit left : Nat} (hr : Run.Nets before r)
    (h : m.settle limit left event r = .ok r') : Run.Nets before r' := by
  have hstep : ∀ current r event l queue r', Run.Nets before r →
      m.isDone r.state.configuration = false →
      m.nextEnabled r.state current r.internal = .ok (some (event, l, queue)) →
      m.microstep l event { r with internal := queue } = .ok r' → Run.Nets before r' := by
    intro current r event l queue r' hr _ _ h
    have hr₀ : Run.Nets before { r with internal := queue } := hr
    exact microstep_nets hr₀ h
  obtain ⟨_, r'', hr'', h | h⟩ := settle_invariant (Q := fun _ r => Run.Nets before r) hstep hr h
  · exact h ▸ hr''
  · exact h ▸ hr''

variable {step : Step C} {limit : Nat}

lemma initialStepFrom_nets {context : C} (h : m.initialStepFrom context limit = .ok step) :
    Lifecycle.Nets .empty step.state.configuration step.lifecycle := by
  obtain ⟨r, r', hr, hr', rfl⟩ := initialStepFrom_cases h
  have hstart := Run.nets_start (⟨.empty, context, .empty⟩ : MachineState C)
  exact settle_nets (Run.enterNodes_nets hstart hr) hr'

lemma stepWithin_nets {s : MachineState C} (h : m.stepWithin s event limit = .ok step) :
    Lifecycle.Nets s.configuration step.state.configuration step.lifecycle := by
  rcases stepWithin_cases h with rfl | ⟨left, l, r, r', rfl, _, _, hr, hr', rfl⟩
  · exact Lifecycle.Nets.refl _
  · exact settle_nets (microstep_nets (Run.nets_start s) hr) hr'

end Machine

end Statechart
