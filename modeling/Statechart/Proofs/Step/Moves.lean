import Mathlib.Tactic.Common
import Statechart.Step.Microstep

/-! What the parts of a microstep do to the active states, to the memory and to the record of
entries and exits. Actions touch none of them. -/

namespace Statechart

lemma bind_eq_ok {ε α β : Type} {x : Except ε α} {f : α → Except ε β} {b : β}
    (h : x >>= f = .ok b) : ∃ a, x = .ok a ∧ f a = .ok b := by
  cases x with
  | error e => exact absurd h (by simp [bind, Except.bind])
  | ok a => exact ⟨a, rfl, h⟩

lemma eq_ok_of_toOption {ε α : Type} {x : Except ε α} {a : α} (h : x.toOption = some a) :
    x = .ok a := by
  cases x with
  | error e => simp [Except.toOption] at h
  | ok b => exact congrArg Except.ok (Option.some.inj h)

lemma exists_ok_of_toOption {ε α β : Type} {x : Except ε α} {f : α → β} {b : β}
    (h : x.toOption.map f = some b) : ∃ a, x = .ok a ∧ f a = b := by
  obtain ⟨a, ha, hb⟩ := Option.map_eq_some_iff.1 h
  exact ⟨a, eq_ok_of_toOption ha, hb⟩

lemma foldlM_cons_eq_ok {ε α β : Type} {f : β → α → Except ε β} {a : α} {l : List α} {b b' : β}
    (h : (a :: l).foldlM f b = .ok b') : ∃ b₁, f b a = .ok b₁ ∧ l.foldlM f b₁ = .ok b' := by
  rw [List.foldlM_cons] at h
  exact bind_eq_ok h

lemma foldlM_nil_eq_ok {ε α β : Type} {f : β → α → Except ε β} {b b' : β}
    (h : ([] : List α).foldlM f b = .ok b') : b' = b := by
  simpa [pure, Except.pure, eq_comm] using h

namespace Run

variable {C : Type} {m : Machine C} {event : Event} {r r' r'' : Run C} {n : NodeId}

section

variable {α : Type} {f : Run C → α → Except StepError (Run C)} {l : List α} {a : α}

def Comes (f : Run C → α → Except StepError (Run C)) (l : List α) (r : Run C) (a : α)
    (r' : Run C) : Prop :=
  ∃ before after, l = before ++ a :: after ∧ before.foldlM f r = .ok r'

lemma Comes.mem (h : Comes f l r a r') : a ∈ l := by
  obtain ⟨before, after, rfl, _⟩ := h
  exact List.mem_append_right _ List.mem_cons_self

lemma foldlM_keeps {P : Run C → Prop} (h : l.foldlM f r = .ok r') (hr : P r)
    (hP : ∀ a r₁ r₂, Comes f l r a r₁ → P r₁ → f r₁ a = .ok r₂ → P r₂) : P r' := by
  induction l generalizing r with
  | nil => exact foldlM_nil_eq_ok h ▸ hr
  | cons b l ih =>
    obtain ⟨r₁, h₁, h⟩ := foldlM_cons_eq_ok h
    have hfirst : Comes f (b :: l) r b r := ⟨[], l, rfl, rfl⟩
    apply ih h (hP b r r₁ hfirst hr h₁)
    rintro a r₂ r₃ ⟨before, after, rfl, hbefore⟩
    refine hP a r₂ r₃ ⟨b :: before, after, rfl, ?_⟩
    rw [List.foldlM_cons, h₁]
    exact hbefore

end

structure Unmoved (r r' : Run C) : Prop where
  configuration : r'.state.configuration = r.state.configuration
  history : r'.state.history = r.state.history
  lifecycle : r'.lifecycle = r.lifecycle

lemma Unmoved.refl (r : Run C) : Unmoved r r := ⟨rfl, rfl, rfl⟩

lemma Unmoved.trans (h : Unmoved r r') (h' : Unmoved r' r'') : Unmoved r r'' :=
  ⟨h'.configuration.trans h.configuration, h'.history.trans h.history,
    h'.lifecycle.trans h.lifecycle⟩

lemma unmoved_foldlM {α : Type} {f : Run C → α → Except StepError (Run C)} {l : List α}
    (hf : ∀ r a r', f r a = .ok r' → Unmoved r r') (h : l.foldlM f r = .ok r') : Unmoved r r' :=
  foldlM_keeps (P := Unmoved r) h (.refl r) fun a r₁ r₂ _ hr h => hr.trans (hf r₁ a r₂ h)

lemma runAction_unmoved {a : Named (Action C)} (h : runAction m n event r a = .ok r') :
    Unmoved r r' := by
  rw [runAction] at h
  split at h
  · split at h
    · obtain rfl := Except.ok.inj h
      exact ⟨rfl, rfl, rfl⟩
    · exact absurd h (by simp)
  · obtain rfl := Except.ok.inj h
    exact ⟨rfl, rfl, rfl⟩
  · obtain rfl := Except.ok.inj h
    exact ⟨rfl, rfl, rfl⟩

lemma runActions_unmoved {l : List (Named (Action C))} (h : r.runActions m n event l = .ok r') :
    Unmoved r r' :=
  unmoved_foldlM (fun _ _ _ => runAction_unmoved) h

lemma complete_unmoved (h : r.complete m event n = .ok r') : Unmoved r r' := by
  rw [complete] at h
  split at h
  · obtain rfl := Except.ok.inj h
    exact .refl r
  · dsimp only at h
    split at h
    · obtain rfl := Except.ok.inj h
      exact ⟨rfl, rfl, rfl⟩
    · split at h
      · obtain rfl := Except.ok.inj h
        exact ⟨rfl, rfl, rfl⟩
      · exact absurd h (by simp [bind, Except.bind])

lemma exitNode_moves (h : r.exitNode m event n = .ok r') :
    r'.state.configuration = r.state.configuration.erase n ∧ r'.state.history = r.state.history ∧
      r'.lifecycle = Lifecycle.recordExit r.lifecycle n := by
  obtain ⟨r₁, h₁, h⟩ := bind_eq_ok h
  have hu := runActions_unmoved h₁
  obtain rfl := Except.ok.inj h
  refine ⟨?_, hu.history, ?_⟩
  · rw [← hu.configuration]
    rfl
  · rw [← hu.lifecycle]

lemma enterNode_of_mem (hn : n ∈ r.state.configuration) (h : r.enterNode m event n = .ok r') :
    r' = r := by
  rw [enterNode, if_pos hn] at h
  exact (Except.ok.inj h).symm

lemma enterNode_moves (hn : n ∉ r.state.configuration) (h : r.enterNode m event n = .ok r') :
    r'.state.configuration = r.state.configuration.insert n ∧ r'.state.history = r.state.history ∧
      r'.lifecycle = r.lifecycle ++ [.entered n] := by
  rw [enterNode, if_neg hn] at h
  obtain ⟨r₁, h₁, h⟩ := bind_eq_ok h
  have hu := runActions_unmoved h₁
  have hu' : Unmoved r₁ r' := by
    split at h
    · exact complete_unmoved h
    · obtain rfl := Except.ok.inj h
      exact .refl _
  exact ⟨hu'.configuration.trans hu.configuration, hu'.history.trans hu.history,
    hu'.lifecycle.trans hu.lifecycle⟩

lemma exitNodes_mem {l : List NodeId} (h : r.exitNodes m event l = .ok r') :
    r'.state.history = r.state.history ∧
      ∀ x, x ∈ r'.state.configuration ↔ x ∈ r.state.configuration ∧ x ∉ l := by
  induction l generalizing r with
  | nil =>
    obtain rfl := foldlM_nil_eq_ok h
    exact ⟨rfl, by simp⟩
  | cons n l ih =>
    obtain ⟨r₁, h₁, h⟩ := foldlM_cons_eq_ok h
    obtain ⟨hconf, hhist, _⟩ := exitNode_moves h₁
    obtain ⟨hhist', hmem⟩ := ih h
    refine ⟨hhist'.trans hhist, fun x => ?_⟩
    rw [hmem, hconf, SortedSet.mem_erase, List.mem_cons, not_or, and_assoc]

lemma enterNodes_mem {l : List NodeId} (h : r.enterNodes m event l = .ok r') :
    r'.state.history = r.state.history ∧
      ∀ x, x ∈ r'.state.configuration ↔ x ∈ r.state.configuration ∨ x ∈ l := by
  induction l generalizing r with
  | nil =>
    obtain rfl := foldlM_nil_eq_ok h
    exact ⟨rfl, by simp⟩
  | cons n l ih =>
    obtain ⟨r₁, h₁, h⟩ := foldlM_cons_eq_ok h
    obtain ⟨hhist', hmem⟩ := ih h
    by_cases hn : n ∈ r.state.configuration
    · obtain rfl := enterNode_of_mem hn h₁
      refine ⟨hhist', fun x => ?_⟩
      rw [hmem, List.mem_cons]
      refine ⟨fun hx => hx.imp_right .inr, fun hx => ?_⟩
      rcases hx with hx | rfl | hx
      · exact .inl hx
      · exact .inl hn
      · exact .inr hx
    · obtain ⟨hconf, hhist, _⟩ := enterNode_moves hn h₁
      refine ⟨hhist'.trans hhist, fun x => ?_⟩
      rw [hmem, hconf, SortedSet.mem_insert, List.mem_cons, or_assoc, or_left_comm]

section

variable {nodes : List NodeId} {P : Configuration → List Lifecycle → Prop}

lemma Comes.active (hn : nodes.Nodup) (h : Comes (exitNode m event) nodes r n r')
    (hs : ∀ x ∈ nodes, x ∈ r.state.configuration) : n ∈ r'.state.configuration := by
  have hmem := hs n h.mem
  obtain ⟨before, after, rfl, hr⟩ := h
  apply ((exitNodes_mem hr).2 n).2
  refine ⟨hmem, fun hbefore => ?_⟩
  exact (List.nodup_append.1 hn).2.2 n hbefore n List.mem_cons_self rfl

lemma exitNodes_keeps (h : r.exitNodes m event nodes = .ok r')
    (hr : P r.state.configuration r.lifecycle)
    (hP : ∀ n r', Comes (exitNode m event) nodes r n r' → P r'.state.configuration r'.lifecycle →
      P (r'.state.configuration.erase n) (Lifecycle.recordExit r'.lifecycle n)) :
    P r'.state.configuration r'.lifecycle := by
  refine foldlM_keeps (P := fun r => P r.state.configuration r.lifecycle) h hr ?_
  intro n r₁ r₂ hcomes hr h
  obtain ⟨hconf, _, hlog⟩ := exitNode_moves h
  rw [hconf, hlog]
  exact hP n r₁ hcomes hr

lemma enterNodes_keeps (h : r.enterNodes m event nodes = .ok r')
    (hr : P r.state.configuration r.lifecycle)
    (hP : ∀ n r', n ∉ r'.state.configuration → Comes (enterNode m event) nodes r n r' →
      P r'.state.configuration r'.lifecycle →
        P (r'.state.configuration.insert n) (r'.lifecycle ++ [.entered n])) :
    P r'.state.configuration r'.lifecycle := by
  refine foldlM_keeps (P := fun r => P r.state.configuration r.lifecycle) h hr ?_
  intro n r₁ r₂ hcomes hr h
  by_cases hn : n ∈ r₁.state.configuration
  · rw [enterNode_of_mem hn h]
    exact hr
  · obtain ⟨hconf, _, hlog⟩ := enterNode_moves hn h
    rw [hconf, hlog]
    exact hP n r₁ hn hcomes hr

end

end Run

namespace Machine

variable {C : Type} {m : Machine C} {event : Event} {r r' : Run C} {l : List TransitionRef}

def historyAfter (m : Machine C) (s : MachineState C) (l : List TransitionRef) : Memory :=
  Run.recordHistory m.chart s.configuration (m.exitSetOf s.configuration s.history l).elems
    s.history

lemma mem_exitSetOf {s : Configuration} {memory : Memory} {x : NodeId} :
    x ∈ m.exitSetOf s memory l ↔ ∃ ref ∈ l, x ∈ m.exitSet s memory ref := by
  suffices ∀ all : Configuration,
      x ∈ l.foldl (fun all r => all.union (m.exitSet s memory r)) all ↔
        x ∈ all ∨ ∃ ref ∈ l, x ∈ m.exitSet s memory ref by
    simpa [exitSetOf] using this .empty
  induction l with
  | nil => simp
  | cons ref l ih =>
    intro all
    rw [List.foldl_cons, ih, SortedSet.mem_union]
    simp only [List.mem_cons, exists_eq_or_imp, or_assoc]

lemma microstep_mem (h : m.microstep l event r = .ok r') :
    r'.state.history = m.historyAfter r.state l ∧
      ∀ x, x ∈ r'.state.configuration ↔
        x ∈ r.state.configuration ∧ x ∉ m.exitSetOf r.state.configuration r.state.history l ∨
          x ∈ m.entrySet (m.historyAfter r.state l) l := by
  obtain ⟨r₁, h₁, h⟩ := bind_eq_ok h
  obtain ⟨r₂, h₂, h⟩ := bind_eq_ok h
  obtain ⟨hhist₁, hmem₁⟩ := Run.exitNodes_mem h₁
  have hu := Run.unmoved_foldlM (fun _ _ _ => Run.runActions_unmoved) h₂
  obtain ⟨hhist, hmem⟩ := Run.enterNodes_mem h
  refine ⟨hhist.trans (hu.history.trans hhist₁), fun x => ?_⟩
  rw [hmem, hu.configuration, hmem₁, List.mem_reverse]
  rfl

end Machine

end Statechart
