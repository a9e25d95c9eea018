import Mathlib.Data.List.Basic
import Mathlib.Data.List.Find
import Mathlib.Tactic.Common
import Statechart.Proofs.Configuration.Entry
import Statechart.Step.Selection

/-! Domains of transitions. The domain is the innermost scope around the source that has all
effective targets below it, and the root if there is none. -/

namespace Statechart

namespace Chart

variable {c : Chart} {memory : Memory} {targets : List NodeId} {x : NodeId}

lemma mem_dropRepeats {l : List NodeId} : x ∈ dropRepeats l ↔ x ∈ l := by
  induction l with
  | nil => simp [dropRepeats]
  | cons n l ih =>
    simp only [dropRepeats, List.mem_cons, List.mem_filter, ih]
    by_cases hx : x = n <;> simp [hx]

lemma expandWithin_eq_tops (hw : c.WellFormed) (hr : c.Recalls memory) {n : NodeId}
    (hn : n < c.size) {k : Nat} : c.expandWithin memory (k + 2) n = c.tops memory n := by
  by_cases hh : (c.node n).isHistory
  · obtain ⟨p, hp⟩ := exists_parent_of_isHistory hw hn hh
    have hregular := fun t ht => ((hr n p hh hp).2 t ht).1
    rw [expandWithin, if_pos hh, tops, if_pos hh]
    conv_rhs => rw [← List.flatMap_singleton' (c.historyTargets memory n)]
    refine List.flatMap_congr fun t ht => ?_
    rw [expandWithin, hregular t ht, if_neg Bool.false_ne_true]
  · rw [expandWithin, if_neg hh, tops, if_neg hh]

lemma mem_effectiveTargets (hw : c.WellFormed) (hr : c.Recalls memory)
    (ht : ∀ t ∈ targets, t < c.size) :
    x ∈ c.effectiveTargets memory targets ↔ ∃ t ∈ targets, x ∈ c.tops memory t := by
  obtain ⟨k, hk⟩ := exists_entryDepth hw.size_pos
  rw [effectiveTargets, mem_dropRepeats, List.mem_flatMap, hk]
  refine exists_congr fun t => and_congr_right fun hmem => ?_
  rw [expandWithin_eq_tops hw hr (ht t hmem)]

end Chart

namespace Machine

variable {C : Type} {m : Machine C} {memory memory' : Memory} {r : TransitionRef}

def scopes (m : Machine C) (r : TransitionRef) : List NodeId :=
  let t := m.transitionAt r
  (if t.internal && (m.node t.source).isCompound then [t.source] else []) ++
    (m.node t.source).ancestors.filter fun a => a = rootId || (m.node a).isCompound

def AllBelow (m : Machine C) (memory : Memory) (r : TransitionRef) (a : NodeId) : Prop :=
  ∀ t ∈ m.targetsOf memory r, m.chart.Below t a

lemma within_of_mem_scopes {a : NodeId} (h : a ∈ m.scopes r) :
    m.chart.Within (m.transitionAt r).source a := by
  simp only [scopes, List.mem_append, List.mem_filter] at h
  rcases h with h | h
  · split at h
    · exact .inl (List.mem_singleton.1 h).symm
    · exact absurd h List.not_mem_nil
  · exact .inr h.1

lemma mem_scopes_of_below {a : NodeId} (h : m.chart.Below (m.transitionAt r).source a)
    (ha : (m.node a).isCompound) : a ∈ m.scopes r := by
  simp only [scopes, List.mem_append, List.mem_filter]
  exact .inr ⟨h, by simp [ha]⟩

lemma scope_or_root {a : NodeId} (h : a ∈ m.scopes r) : a = rootId ∨ (m.node a).isCompound := by
  simp only [scopes, List.mem_append, List.mem_filter] at h
  rcases h with h | h
  · split at h
    · rename_i hc
      rw [List.mem_singleton.1 h]
      exact .inr (Bool.and_eq_true_iff.1 hc).2
    · exact absurd h List.not_mem_nil
  · simpa using h.2

section

variable (ht : m.chart.IsTree)

include ht

lemma scopes_pairwise (r : TransitionRef) : (m.scopes r).Pairwise m.chart.Below := by
  have hp := (Chart.ancestors_pairwise ht (m.transitionAt r).source).filter
    fun a => a = rootId || (m.node a).isCompound
  refine List.pairwise_append.2 ⟨?_, hp, fun a ha b hb => ?_⟩
  · split
    · exact List.pairwise_singleton _ _
    · exact List.Pairwise.nil
  · split at ha
    · rw [List.mem_singleton.1 ha]
      exact (List.mem_filter.1 hb).1
    · exact absurd ha List.not_mem_nil

lemma below_decide (r : TransitionRef) (a : NodeId) :
    ((m.targetsOf memory r).all (m.chart.isDescendant · a)) = true ↔ m.AllBelow memory r a := by
  simp only [List.all_eq_true, AllBelow, ht.isDescendant_iff]

omit ht in
lemma domain?_eq (memory : Memory) (r : TransitionRef) :
    m.domain? memory r =
      if (m.targetsOf memory r).isEmpty then none
      else some (((m.scopes r).find? fun a =>
        (m.targetsOf memory r).all (m.chart.isDescendant · a)).getD rootId) := by
  simp only [domain?, scopes]
  by_cases hi :
      ((m.transitionAt r).internal && (m.node (m.transitionAt r).source).isCompound) = true
  · by_cases hb : ((m.targetsOf memory r).all
      (m.chart.isDescendant · (m.transitionAt r).source)) = true
    · simp [hi, hb]
    · simp [hi, hb]
  · simp [hi]

omit ht in
lemma domain?_eq_none : m.domain? memory r = none ↔ m.targetsOf memory r = [] := by
  rw [domain?_eq]
  simp

lemma domain?_spec {d : NodeId} (h : m.domain? memory r = some d) :
    m.targetsOf memory r ≠ [] ∧ (d ∈ m.scopes r ∧ m.AllBelow memory r d ∨ d = rootId) ∧
      ∀ a ∈ m.scopes r, m.AllBelow memory r a → m.chart.Within d a := by
  rw [domain?_eq] at h
  split at h
  · exact absurd h (by simp)
  · rename_i hne
    refine ⟨by simpa using hne, ?_⟩
    rw [Option.some.injEq] at h
    cases hf : (m.scopes r).find? fun a =>
        (m.targetsOf memory r).all (m.chart.isDescendant · a) with
    | none =>
      rw [hf, Option.getD_none] at h
      refine ⟨.inr h.symm, fun a ha hb => ?_⟩
      exact absurd ((below_decide ht r a).2 hb) (by simpa using List.find?_eq_none.1 hf a ha)
    | some e =>
      rw [hf, Option.getD_some] at h
      subst h
      obtain ⟨hp, l, l', hl, hnot⟩ := List.find?_eq_some_iff_append.1 hf
      refine ⟨.inl ⟨List.mem_of_find?_eq_some hf, (below_decide ht r e).1 hp⟩, fun a ha hb => ?_⟩
      have hpair := scopes_pairwise ht r
      rw [hl] at ha hpair
      rcases List.mem_append.1 ha with ha | ha
      · exact absurd ((below_decide ht r a).2 hb) (by simpa using hnot a ha)
      · rcases List.mem_cons.1 ha with rfl | ha
        · exact .inl rfl
        · exact .inr ((List.pairwise_cons.1 (List.pairwise_append.1 hpair).2.1).1 a ha)

lemma domain_regular {d : NodeId} (h : m.domain? memory r = some d) :
    d = rootId ∨ (m.node d).isCompound := by
  rcases (domain?_spec ht h).2.1 with hd | rfl
  · exact scope_or_root hd.1
  · exact .inl rfl

lemma source_within_domain {d : NodeId} (hs : (m.transitionAt r).source < m.chart.size)
    (h : m.domain? memory r = some d) : m.chart.Within (m.transitionAt r).source d := by
  rcases (domain?_spec ht h).2.1 with hd | rfl
  · exact within_of_mem_scopes hd.1
  · exact Chart.within_root ht hs

lemma below_domain_of_isAtomic {n d : NodeId} (h : m.domain? memory r = some d)
    (ha : (m.node n).isAtomic) (hroot : n ≠ rootId) (hw : m.chart.Within n d) :
    m.chart.Below n d := by
  refine hw.resolve_left ?_
  rintro rfl
  have hc := (domain_regular ht h).resolve_left hroot
  simp only [StateNode.isCompound, decide_eq_true_eq] at hc
  simp [StateNode.isAtomic, hc] at ha

lemma domain?_congr (hnil : m.targetsOf memory r = [] ↔ m.targetsOf memory' r = [])
    (h : ∀ a ∈ m.scopes r, m.AllBelow memory r a ↔ m.AllBelow memory' r a) :
    m.domain? memory r = m.domain? memory' r := by
  rw [domain?_eq, domain?_eq]
  have he : (m.targetsOf memory r).isEmpty = (m.targetsOf memory' r).isEmpty := by
    rw [Bool.eq_iff_iff, List.isEmpty_iff, List.isEmpty_iff, hnil]
  rw [he, List.find?_congr fun a ha => ?_]
  rw [Bool.eq_iff_iff, below_decide ht, below_decide ht, h a ha]

end

lemma mem_exitSet (ht : m.chart.IsTree) {s : Configuration} {x : NodeId} :
    x ∈ m.exitSet s memory r ↔
      x ∈ s ∧ ∃ d, m.domain? memory r = some d ∧ m.chart.Below x d := by
  rw [exitSet]
  cases m.domain? memory r with
  | none => simp
  | some d => simp [ht.isDescendant_iff]

lemma domain?_of_targetsOf_eq (h : m.targetsOf memory r = m.targetsOf memory' r) :
    m.domain? memory r = m.domain? memory' r := by
  rw [domain?_eq, domain?_eq, h]

def IsTransition (m : Machine C) (r : TransitionRef) : Prop :=
  m.transitionAt r ∈ (m.partsOf r.node).transitions

lemma transitionAt_eq (hi : r.index < (m.partsOf r.node).transitions.length) :
    m.transitionAt r = (m.partsOf r.node).transitions[r.index] := by
  rw [transitionAt, List.getD_eq_getElem?_getD, List.getElem?_eq_getElem hi, Option.getD_some]

lemma isTransition_of_lt (hi : r.index < (m.partsOf r.node).transitions.length) :
    m.IsTransition r := by
  rw [IsTransition, transitionAt_eq hi]
  exact List.getElem_mem hi

lemma isTransition_of_targets (h : (m.transitionAt r).targets ≠ []) : m.IsTransition r := by
  by_cases hi : r.index < (m.partsOf r.node).transitions.length
  · exact isTransition_of_lt hi
  · rw [transitionAt, List.getD_eq_getElem?_getD,
      List.getElem?_eq_none (Nat.le_of_not_lt hi)] at h
    exact absurd rfl h

lemma targetsOf_of_regular
    (h : ∀ t ∈ (m.transitionAt r).targets, (m.chart.node t).isHistory = false) (memory : Memory) :
    m.targetsOf memory r = Chart.dropRepeats (m.transitionAt r).targets := by
  have hself : ∀ t ∈ (m.transitionAt r).targets,
      m.chart.expandWithin memory m.chart.entryDepth t = [t] := fun t ht => by
    rw [Chart.entryDepth, Chart.expandWithin, if_neg (by simp [h t ht])]
  rw [targetsOf, Chart.effectiveTargets, List.flatMap_congr hself, List.flatMap_singleton']

section

variable (hm : m.WellFormed) (hr : m.chart.Recalls memory) (hv : m.IsTransition r)

include hm hv

lemma target_lt {t : NodeId} (ht : t ∈ (m.transitionAt r).targets) : t < m.chart.size :=
  (hm.transition r.node _ hv).2.2 t ht

include hr

lemma mem_targetsOf {x : NodeId} :
    x ∈ m.targetsOf memory r ↔ ∃ t ∈ (m.transitionAt r).targets, x ∈ m.chart.tops memory t :=
  Chart.mem_effectiveTargets hm.chart hr fun _ ht => target_lt hm hv ht

lemma targetsOf_eq_nil : m.targetsOf memory r = [] ↔ (m.transitionAt r).targets = [] := by
  refine ⟨fun hnil => List.eq_nil_iff_forall_not_mem.2 fun t ht => ?_, fun hnil => ?_⟩
  · obtain ⟨e, he⟩ := List.exists_mem_of_ne_nil _
      (Chart.tops_ne_nil hm.chart (hr t) (target_lt hm hv ht))
    have hmem := (mem_targetsOf hm hr hv).2 ⟨t, ht, he⟩
    rw [hnil] at hmem
    exact List.not_mem_nil hmem
  · rw [targetsOf, hnil]
    rfl

end

end Machine

end Statechart
