import Mathlib.Tactic.Common
import Statechart.Proofs.Chart.Forks
import Statechart.Proofs.Configuration.Entry
import Statechart.Step.Microstep

/-! The memory of history states. What is remembered of a grounded configuration always leads back
to states below the parent of the history state. -/

namespace Statechart

variable {c : Chart} {s : Configuration} {memory : Memory} {exiting : List NodeId}
  {h p : NodeId} {k : HistoryKind}

namespace StateNode

lemma exists_historyKind? {n : StateNode} (hn : n.isHistory) : ∃ k, n.historyKind? = some k :=
  Option.isSome_iff_exists.1 hn

end StateNode

namespace Run

lemma mem_remembered_deep {x : NodeId} (ht : c.IsTree) :
    x ∈ remembered c s p .deep ↔ x ∈ s ∧ (c.node x).isAtomic ∧ c.Below x p := by
  simp [remembered, Chart.atomicNodes, ht.isDescendant_iff, and_comm]

lemma mem_remembered_shallow {x : NodeId} :
    x ∈ remembered c s p .shallow ↔ x ∈ s ∧ (c.node x).parent? = some p := by
  simp [remembered]

lemma mem_of_mem_remembered (ht : c.IsTree) {x : NodeId} (hx : x ∈ remembered c s p k) :
    x ∈ s ∧ c.Below x p := by
  cases k with
  | deep =>
    obtain ⟨hs, _, hb⟩ := (mem_remembered_deep ht).1 hx
    exact ⟨hs, hb⟩
  | shallow =>
    obtain ⟨hs, hp⟩ := mem_remembered_shallow.1 hx
    exact ⟨hs, Chart.below_parent ht hp⟩

def recordChildren (c : Chart) (s : Configuration) (n : NodeId) (memory : Memory)
    (children : List NodeId) : Memory :=
  children.foldl (fun memory h => match (c.node h).historyKind? with
    | none => memory
    | some kind => memory.insert h (remembered c s n kind)) memory

lemma get?_recordChildren {n : NodeId} {children : List NodeId} (memory : Memory)
    (hk : (c.node h).historyKind? = some k) :
    (recordChildren c s n memory children).get? h =
      if h ∈ children then some (remembered c s n k) else memory.get? h := by
  induction children generalizing memory with
  | nil => simp [recordChildren]
  | cons h' children ih =>
    have hfold : recordChildren c s n memory (h' :: children) = recordChildren c s n
        (match (c.node h').historyKind? with
        | none => memory
        | some kind => memory.insert h' (remembered c s n kind)) children := rfl
    rw [hfold, ih]
    by_cases hmem : h ∈ children
    · simp [hmem]
    · by_cases he : h = h'
      · subst he
        simp [hmem, hk, SortedMap.get?_insert]
      · simp only [hmem, he, List.mem_cons, or_self, if_false]
        cases (c.node h').historyKind? with
        | none => rfl
        | some k' => rw [SortedMap.get?_insert, if_neg he]

lemma get?_recordHistory (ht : c.IsTree) (memory : Memory) (exiting : List NodeId)
    (hk : (c.node h).historyKind? = some k) (hp : (c.node h).parent? = some p) :
    (recordHistory c s exiting memory).get? h =
      if p ∈ exiting then some (remembered c s p k) else memory.get? h := by
  induction exiting generalizing memory with
  | nil => simp [recordHistory]
  | cons n exiting ih =>
    have hfold : recordHistory c s (n :: exiting) memory =
        recordHistory c s exiting (recordChildren c s n memory (c.node n).children) := rfl
    have hchild : h ∈ (c.node n).children ↔ p = n := by
      rw [ht.mem_children, hp, Option.some.injEq]
    rw [hfold, ih, get?_recordChildren _ hk]
    by_cases hmem : p ∈ exiting
    · simp [hmem]
    · by_cases he : p = n
      · subst he
        simp [hchild]
      · simp [hchild, hmem, he]

end Run

namespace Chart

lemma historyTargets_recordHistory (ht : c.IsTree) (hk : (c.node h).historyKind? = some k)
    (hp : (c.node h).parent? = some p) :
    c.historyTargets (Run.recordHistory c s exiting memory) h =
      if p ∈ exiting then Run.remembered c s p k else c.historyTargets memory h := by
  rw [historyTargets, Run.get?_recordHistory ht memory exiting hk hp]
  by_cases hmem : p ∈ exiting
  · rw [if_pos hmem, if_pos hmem, Option.getD_some]
  · rw [if_neg hmem, if_neg hmem, historyTargets]

/-- What makes sure that history states always lead back below their parents: their defaults do, and
around them no state is without regular children. -/
structure Recallable (c : Chart) : Prop where
  default : ∀ h p, (c.node h).isHistory → (c.node h).parent? = some p →
    (c.node h).historyDefault ≠ [] ∧
      ∀ x ∈ (c.node h).historyDefault, (c.node x).isHistory = false ∧ c.Below x p
  filled : ∀ h p, (c.node h).isHistory → (c.node h).parent? = some p → ∀ n, c.Within n p →
    (c.node n).isCompound ∨ (c.node n).isParallel → c.regularChildren n ≠ []

/-- Beyond that, a parallel parent of a history state has two regions. -/
structure Restorable (c : Chart) : Prop extends c.Recallable where
  regions : ∀ h p, (c.node h).isHistory → (c.node h).parent? = some p → (c.node p).isParallel →
    ∃ r ∈ c.regularChildren p, ∃ r' ∈ c.regularChildren p, r ≠ r'

lemma restorable_of_regular (h : ∀ n, (c.node n).isHistory = false) : c.Restorable := by
  refine ⟨⟨fun n p hh => ?_, fun n p hh => ?_⟩, fun n p hh => ?_⟩ <;>
  · rw [h n] at hh
    exact absurd hh Bool.false_ne_true

lemma recallable_of_ids (h : ∀ n ∈ c.ids, ((c.node n).isHistory → ∀ p ∈ (c.node n).parent?,
      (c.node n).historyDefault ≠ [] ∧
        ∀ x ∈ (c.node n).historyDefault, (c.node x).isHistory = false ∧ c.Below x p) ∧
    ((c.node n).isCompound ∨ (c.node n).isParallel → c.regularChildren n ≠ [])) :
    c.Recallable := by
  have hall := forall_node (P := fun n node => (node.isHistory → ∀ p ∈ node.parent?,
      node.historyDefault ≠ [] ∧
        ∀ x ∈ node.historyDefault, (c.node x).isHistory = false ∧ c.Below x p) ∧
    (node.isCompound ∨ node.isParallel → c.regularChildren n ≠ [])) h
    fun _ => ⟨fun hh => absurd hh (by decide), fun hk => absurd hk (by decide)⟩
  exact ⟨fun n p hh hp => (hall n).1 hh p hp, fun _ _ _ _ n _ => (hall n).2⟩

lemma Recallable.recalls_empty (h : c.Recallable) : c.Recalls .empty := h.default

lemma kind_cases (hn : (c.node p).isHistory = false) :
    (c.node p).isAtomic ∨ (c.node p).isCompound ∨ (c.node p).isParallel := by
  cases hk : (c.node p).kind <;>
    simp_all [StateNode.isHistory, StateNode.historyKind?, StateNode.isAtomic,
      StateNode.isCompound, StateNode.isParallel]

section

variable (hw : c.WellFormed)

include hw

lemma Grounded.exists_active_child (hs : c.Grounded s) {n : NodeId} (hf : c.Furnished s n)
    (hk : (c.node n).isCompound ∨ (c.node n).isParallel) (hne : c.regularChildren n ≠ []) :
    ∃ child ∈ (c.node n).children, child ∈ s := by
  rcases hk with hc | hp
  · exact hs.exists_child hw.toIsTree hf hc
  · obtain ⟨r, hr⟩ := List.exists_mem_of_ne_nil _ hne
    exact ⟨r, (mem_regularChildren.1 hr).1, hs.mem_of_touches hw.toIsTree (hf.parallel hp r hr)⟩

lemma Grounded.exists_atomic (hs : c.Grounded s) {n : NodeId} (hn : n ∈ s)
    (hf : ∀ a ∈ s, c.Within a n → c.Furnished s a)
    (hne : ∀ a, c.Within a n → (c.node a).isCompound ∨ (c.node a).isParallel →
      c.regularChildren a ≠ []) : ∃ x ∈ s, (c.node x).isAtomic ∧ c.Within x n := by
  refine exists_atomic_within hw.toIsTree hn (hs.size n hn) fun a ha haw => ?_
  have hself := hf a ha haw
  rcases kind_cases hself.regular with hatomic | hk
  · exact .inl hatomic
  · exact .inr (hs.exists_active_child hw hself hk (hne a haw hk))

section

variable (hr : c.Recallable) (hs : c.Grounded s) (hh : (c.node h).isHistory)
  (hp : (c.node h).parent? = some p)

include hr hs hh hp

lemma Grounded.exists_remembered {child : NodeId} (hc : child ∈ (c.node p).children)
    (hmem : child ∈ s) : ∃ x ∈ Run.remembered c s p k, c.Within x child := by
  have hb := child_below hw.toIsTree hc
  cases k with
  | shallow =>
    refine ⟨child, Run.mem_remembered_shallow.2 ⟨hmem, ?_⟩, within_self child⟩
    exact (hw.mem_children child p).1 hc
  | deep =>
    have hne : child ≠ rootId := by
      rintro rfl
      exact not_below_root hw.toIsTree p hb
    obtain ⟨x, hx, hxa, hxw⟩ := hs.exists_atomic hw hmem (hs.furnished_within hw.toIsTree hne)
      fun a ha => hr.filled h p hh hp a (Below.within (ha.trans_below hw.toIsTree hb))
    exact ⟨x, (Run.mem_remembered_deep hw.toIsTree).2 ⟨hx, hxa, hxw.trans_below hw.toIsTree hb⟩,
      hxw⟩

lemma Grounded.remembered_ne_nil (hf : c.Furnished s p) : Run.remembered c s p k ≠ [] := by
  have hk := isCompound_or_isParallel_of_child hw ((hw.mem_children h p).2 hp)
  obtain ⟨child, hc, hcs⟩ := hs.exists_active_child hw hf hk
    (hr.filled h p hh hp p (within_self p) hk)
  obtain ⟨x, hx, _⟩ := hs.exists_remembered hw hr hh hp (k := k) hc hcs
  exact List.ne_nil_of_mem hx

lemma Grounded.remembered_spread (hf : c.Furnished s p) (hpar : (c.node p).isParallel)
    (hregions : ∃ r ∈ c.regularChildren p, ∃ r' ∈ c.regularChildren p, r ≠ r') {a : NodeId}
    (ha : c.Below a p) :
    ∃ x ∈ Run.remembered c s p k, ¬ c.Below x a := by
  obtain ⟨child, hc, hac⟩ := Chart.exists_child hw.toIsTree ha
  obtain ⟨r, hr₁, hne'⟩ : ∃ r ∈ c.regularChildren p, r ≠ child := by
    obtain ⟨r, hr₁, r', hr₂, hne'⟩ := hregions
    by_cases he : r = child
    · exact ⟨r', hr₂, fun he' => hne' (he.trans he'.symm)⟩
    · exact ⟨r, hr₁, he⟩
  have hrc := (mem_regularChildren.1 hr₁).1
  obtain ⟨x, hx, hxr⟩ := hs.exists_remembered hw hr hh hp (k := k) hrc
    (hs.mem_of_touches hw.toIsTree (hf.parallel hpar r hr₁))
  refine ⟨x, hx, fun hb => hne' ?_⟩
  exact child_unique hw.toIsTree hrc hc hxr (Below.within (hb.trans_within hw.toIsTree hac))

end

lemma Recalls.recordHistory (hm : c.Recalls memory) (hr : c.Recallable) (hs : c.Grounded s)
    (he : ∀ n ∈ exiting, n ∈ s ∧ n ≠ rootId) :
    c.Recalls (Run.recordHistory c s exiting memory) := by
  intro h p hh hp
  obtain ⟨k, hk⟩ := StateNode.exists_historyKind? hh
  rw [historyTargets_recordHistory hw.toIsTree hk hp]
  by_cases hmem : p ∈ exiting
  · rw [if_pos hmem]
    obtain ⟨hps, hroot⟩ := he p hmem
    refine ⟨hs.remembered_ne_nil hw hr hh hp (hs.inner p hps hroot), fun x hx => ?_⟩
    obtain ⟨hxs, hb⟩ := Run.mem_of_mem_remembered hw.toIsTree hx
    refine ⟨(hs.inner x hxs ?_).regular, hb⟩
    rintro rfl
    exact not_below_root hw.toIsTree p hb
  · rw [if_neg hmem]
    exact hm h p hh hp

end

end Chart

end Statechart
