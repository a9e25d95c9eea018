import Mathlib.Data.List.Pairwise
import Mathlib.Tactic.Common
import Statechart.Proofs.Step.Domain
import Statechart.Proofs.Step.Moves

/-! What selection gives: transitions of states around active atomic states, no two of which exit a
state in common. -/

namespace Statechart

namespace Machine

variable {C : Type} {m : Machine C} {n : NodeId} {r : TransitionRef}

lemma mem_candidatesWhere {p : Selector → Bool} (h : r ∈ m.candidatesWhere n p) :
    r.node = n ∧ m.IsTransition r := by
  obtain ⟨e, he, hr⟩ := List.mem_filterMap.1 h
  split at hr
  · obtain rfl := Option.some.inj hr
    have hget := List.mem_zipIdx_iff_getElem?.1 he
    refine ⟨rfl, ?_⟩
    rw [IsTransition, transitionAt, List.getD_eq_getElem?_getD, hget]
    exact List.mem_of_getElem? hget
  · exact absurd hr (by simp)

lemma mem_candidates {event : Event} {eventless : Bool} (h : r ∈ m.candidates n event eventless) :
    r.node = n ∧ m.IsTransition r := by
  rw [candidates] at h
  split at h
  · exact mem_candidatesWhere h
  · exact (List.mem_append.1 h).elim mem_candidatesWhere mem_candidatesWhere

variable {s : MachineState C} {event : Event} {eventless : Bool}

lemma mem_of_firstEnabled? {l : List TransitionRef}
    (h : m.firstEnabled? s event l = .ok (some r)) : r ∈ l := by
  induction l with
  | nil => exact absurd h (by simp [firstEnabled?])
  | cons r' l ih =>
    obtain ⟨b, _, hb⟩ := bind_eq_ok h
    cases b with
    | true =>
      obtain rfl : r' = r := by simpa [pure, Except.pure] using hb
      exact List.mem_cons_self
    | false => exact List.mem_cons_of_mem _ (ih hb)

def ChosenFor (m : Machine C) (r : TransitionRef) (n : NodeId) : Prop :=
  m.IsTransition r ∧ m.chart.Within n r.node

lemma chosenFor_of_chosenFor? (h : m.chosenFor? s event eventless n = .ok (some r)) :
    m.ChosenFor r n := by
  obtain ⟨a, ha, hr⟩ := List.mem_flatMap.1 (mem_of_firstEnabled? h)
  obtain ⟨rfl, ht⟩ := mem_candidates hr
  exact ⟨ht, (List.mem_cons.1 ha).imp_left Eq.symm⟩

lemma chosenFor_of_chosen {l : List NodeId} {refs : List TransitionRef}
    (h : m.chosen s event eventless l = .ok refs) (hr : r ∈ refs) : ∃ n ∈ l, m.ChosenFor r n := by
  induction l generalizing refs with
  | nil =>
    obtain rfl : [] = refs := by simpa [chosen] using h
    exact absurd hr List.not_mem_nil
  | cons n l ih =>
    obtain ⟨first, hfirst, h⟩ := bind_eq_ok h
    obtain ⟨others, hothers, h⟩ := bind_eq_ok h
    have hrest : r ∈ others → ∃ n' ∈ n :: l, m.ChosenFor r n' := fun hr => by
      obtain ⟨n', hn', hc⟩ := ih hothers hr
      exact ⟨n', List.mem_cons_of_mem _ hn', hc⟩
    cases first with
    | none =>
      obtain rfl : others = refs := by simpa [pure, Except.pure] using h
      exact hrest hr
    | some f =>
      obtain rfl : f :: others.filter (· ≠ f) = refs := by simpa [pure, Except.pure] using h
      rcases List.mem_cons.1 hr with rfl | hr
      · exact ⟨n, List.mem_cons_self, chosenFor_of_chosenFor? hfirst⟩
      · exact hrest (List.mem_filter.1 hr).1

def Apart (m : Machine C) (s : Configuration) (memory : Memory) (r r' : TransitionRef) : Prop :=
  ∀ n ∈ m.exitSet s memory r, n ∉ m.exitSet s memory r'

variable {conf : Configuration} {memory : Memory}

instance : Std.Symm (m.Apart conf memory) := ⟨fun _ _ h n hn hn' => h n hn' hn⟩

lemma keep_subset {kept : List TransitionRef} {r k : TransitionRef}
    (h : k ∈ m.keep conf memory kept r) : k ∈ kept ∨ k = r := by
  simp only [keep] at h
  split at h
  · rcases List.mem_append.1 h with h | h
    · exact .inl (List.mem_filter.1 h).1
    · exact .inr (List.mem_singleton.1 h)
  · exact .inl h

lemma keep_apart {kept : List TransitionRef} (h : kept.Pairwise (m.Apart conf memory)) :
    (m.keep conf memory kept r).Pairwise (m.Apart conf memory) := by
  simp only [keep]
  split
  · refine List.pairwise_append.2 ⟨h.filter _, List.pairwise_singleton _ _, fun k hk r' hr' => ?_⟩
    obtain rfl := List.mem_singleton.1 hr'
    have hmeets := (List.mem_filter.1 hk).2
    simpa [Apart] using hmeets
  · exact h

lemma removeConflicts_subset {l : List TransitionRef}
    (h : r ∈ m.removeConflicts conf memory l) : r ∈ l := by
  suffices ∀ kept, r ∈ l.foldl (m.keep conf memory) kept → r ∈ kept ∨ r ∈ l by
    simpa using this [] h
  clear h
  induction l with
  | nil => exact fun kept hr => .inl hr
  | cons k l ih =>
    intro kept hr
    rcases ih _ hr with hr | hr
    · rcases keep_subset hr with hr | rfl
      · exact .inl hr
      · exact .inr List.mem_cons_self
    · exact .inr (List.mem_cons_of_mem _ hr)

lemma removeConflicts_apart (l : List TransitionRef) :
    (m.removeConflicts conf memory l).Pairwise (m.Apart conf memory) := by
  suffices ∀ kept : List TransitionRef, kept.Pairwise (m.Apart conf memory) →
      (l.foldl (m.keep conf memory) kept).Pairwise (m.Apart conf memory) from
    this [] List.Pairwise.nil
  induction l with
  | nil => exact fun _ h => h
  | cons r l ih => exact fun kept h => ih _ (keep_apart h)

structure Compatible (m : Machine C) (s : Configuration) (memory : Memory)
    (l : List TransitionRef) : Prop where
  chosen : ∀ r ∈ l, ∃ n ∈ s, (m.node n).isAtomic ∧ m.ChosenFor r n
  apart : l.Pairwise (m.Apart s memory)

lemma Compatible.isTransition {conf : Configuration} {memory : Memory} {l : List TransitionRef}
    {r : TransitionRef} (h : m.Compatible conf memory l) (hr : r ∈ l) : m.IsTransition r := by
  obtain ⟨_, _, _, hv, _⟩ := h.chosen r hr
  exact hv

lemma compatible_of_select {l : List TransitionRef} (h : m.select s event eventless = .ok l) :
    m.Compatible s.configuration s.history l := by
  obtain ⟨refs, hrefs, h⟩ := bind_eq_ok h
  obtain rfl : m.removeConflicts s.configuration s.history refs = l := by
    simpa [pure, Except.pure] using h
  refine ⟨fun r hr => ?_, removeConflicts_apart refs⟩
  obtain ⟨n, hn, hc⟩ := chosenFor_of_chosen hrefs (removeConflicts_subset hr)
  obtain ⟨hn, ha⟩ := List.mem_filter.1 hn
  exact ⟨n, hn, ha, hc⟩

end Machine

end Statechart
