import Statechart.Machine.Build
import Statechart.Proofs.Chart.Layout
import Statechart.Proofs.Machine.Link

/-! What a built machine can be relied on for: its chart is a tree whose compound states have an
initial child and whose other states, parallel ones aside, have no children, and its transitions
belong to their sources and lead to states of the chart. -/

namespace Statechart

namespace Chart

structure WellFormed (c : Chart) : Prop extends c.IsTree where
  size_pos : 0 < c.size
  root_regular : (c.node rootId).isHistory = false
  initial : ∀ n, (c.node n).isCompound → ∃ i ∈ (c.node n).children, (c.node n).initial = some i
  leaf : ∀ n, (c.node n).isCompound = false → (c.node n).isParallel = false →
    (c.node n).children = []

variable {c : Chart} {defaults : List (List NodeId)}

lemma size_withHistoryDefaults (h : defaults.length = c.size) :
    (c.withHistoryDefaults defaults).size = c.size := by
  rw [size, withHistoryDefaults, List.length_zipWith, h]
  exact Nat.min_self _

lemma node_withHistoryDefaults (h : defaults.length = c.size) (n : NodeId) :
    (c.withHistoryDefaults defaults).node n =
      { c.node n with historyDefault := defaults.getD n [] } := by
  simp only [node, withHistoryDefaults, List.getD_eq_getElem?_getD, List.getElem?_zipWith]
  by_cases hn : n < c.size
  · have hn' : n < defaults.length := h ▸ hn
    rw [size] at hn
    simp [hn, hn']
  · have hn' : ¬ n < defaults.length := h ▸ hn
    rw [size] at hn
    rw [List.getElem?_eq_none (Nat.le_of_not_lt hn), List.getElem?_eq_none (Nat.le_of_not_lt hn')]
    rfl

lemma IsTree.withHistoryDefaults (ht : c.IsTree) (h : defaults.length = c.size) :
    (c.withHistoryDefaults defaults).IsTree := by
  refine ⟨?_, fun n hn hne => ?_, fun n a => ?_, fun n p => ?_⟩
  · rw [node_withHistoryDefaults h]
    exact ht.root
  · obtain ⟨p, hp⟩ := ht.parent n (by rwa [size_withHistoryDefaults h] at hn) hne
    exact ⟨p, by rw [node_withHistoryDefaults h, node_withHistoryDefaults h, hp]⟩
  · rw [isDescendant, Below, node_withHistoryDefaults h, node_withHistoryDefaults h]
    exact ht.isDescendant_iff n a
  · rw [node_withHistoryDefaults h, node_withHistoryDefaults h]
    exact ht.mem_children n p

end Chart

namespace Layout

lemma children_eq_nil {n : StateNode} (h : shapeProblem? n = none) (hc : n.isCompound = false)
    (hp : n.isParallel = false) : n.children = [] := by
  rw [shapeProblem?] at h
  cases hk : n.kind with
  | compound => simp [StateNode.isCompound, hk] at hc
  | parallel => simp [StateNode.isParallel, hk] at hp
  | atomic => simpa [hk] using h
  | final => simpa [hk] using h
  | history k =>
    simp only [hk] at h
    split at h
    · exact absurd h (by simp)
    · simpa using h

lemma regular_of_ancestors_nil {n : StateNode} (h : shapeProblem? n = none)
    (hr : n.ancestors = []) : n.isHistory = false := by
  rw [shapeProblem?] at h
  cases hk : n.kind with
  | history k => simp [hk, hr] at h
  | _ => simp [StateNode.isHistory, StateNode.historyKind?, hk]

lemma initial_isSome {p : Placed} (h : initialProblem? p = none) (hc : p.node.isCompound) :
    p.node.initial.isSome := by
  cases hi : p.node.initial with
  | some i => rfl
  | none =>
    rw [initialProblem?] at h
    simp only [hc, hi, Option.isNone_none, Bool.and_self, if_true] at h
    split at h <;> exact absurd h (by simp)

end Layout

namespace Definition

lemma isTree_layout (d : Definition) : d.layout.IsTree :=
  StateDef.isTree_chartOf

lemma size_layout (d : Definition) : d.layout.size = d.placed.length := by
  rw [Chart.size, layout, List.length_map]

lemma node_layout {d : Definition} {n : NodeId} {p : Placed} (h : d.placed[n]? = some p) :
    d.layout.node n = p.node := by
  simp [Chart.node, layout, List.getD_eq_getElem?_getD, h]

end Definition

namespace Machine

variable {C : Type}

section

variable [JsonCoded C] {d : Definition} {b : Behaviors C} {context : Option C} {m : Machine C}

lemma build_eq_ok (h : build d b context = .ok m) :
    ∃ start, m = assemble d start (link d b).value ∧ Layout.problems d.placed = [] ∧
      (link d b).problems = [] := by
  rw [build] at h
  split at h
  · rename_i start linked hc
    have hv : (link d b).value = linked :=
      congrArg Prod.snd (congrArg Checked.value hc)
    have hp : (checkContext d context).problems ++
        (Layout.problems d.placed ++ ((link d b).problems ++ [])) = [] :=
      congrArg Checked.problems hc
    simp only [List.append_eq_nil_iff] at hp
    exact ⟨start, by rw [hv]; exact (Except.ok.inj h).symm, hp.2.1, hp.2.2.1⟩
  · exact absurd h (by simp)

end

variable {d : Definition} {b : Behaviors C} {start : C}

lemma length_link : (link d b).value.length = d.layout.size := by
  rw [link, Linker.length_states, List.length_map, Definition.size_layout]

lemma size_assemble : (assemble d start (link d b).value).chart.size = d.layout.size :=
  Chart.size_withHistoryDefaults (by rw [List.length_map, length_link])

lemma node_assemble (n : NodeId) :
    (assemble d start (link d b).value).chart.node n =
      { d.layout.node n with
        historyDefault := ((link d b).value.map Prod.snd).getD n [] } :=
  Chart.node_withHistoryDefaults (by rw [List.length_map, length_link]) n

lemma link_value {n : NodeId} {p : Placed} (h : d.placed[n]? = some p) :
    ∃ used, (link d b).value[n]? =
      some ((Linker.mk d.layout b).state n used p.body).value := by
  have h' : (d.placed.map Placed.body)[n]? = some p.body := by simp [h]
  obtain ⟨used, hu⟩ := Linker.states_value (l := ⟨d.layout, b⟩) rootId [] h'
  refine ⟨used, ?_⟩
  rw [link, hu, rootId, Nat.zero_add]

lemma partsOf_assemble (d : Definition) (b : Behaviors C) (start : C) (n : NodeId) :
    (∃ p used, d.placed[n]? = some p ∧ (assemble d start (link d b).value).partsOf n =
        ((Linker.mk d.layout b).state n used p.body).value.1) ∨
      (assemble d start (link d b).value).partsOf n = {} := by
  rw [partsOf, assemble, List.getD_eq_getElem?_getD, List.getElem?_map]
  cases hp : d.placed[n]? with
  | some p =>
    obtain ⟨used, hu⟩ := link_value (b := b) hp
    exact .inl ⟨p, used, rfl, by rw [hu, Option.map_some, Option.getD_some]⟩
  | none =>
    refine .inr ?_
    rw [List.getElem?_eq_none, Option.map_none, Option.getD_none]
    rw [length_link, Definition.size_layout]
    exact List.getElem?_eq_none_iff.1 hp

lemma initial_mem_layout {n i : NodeId} (h : (d.layout.node n).initial = some i) :
    i ∈ (d.layout.node n).children := by
  by_cases hn : n < d.layout.size
  · rw [Definition.size_layout] at hn
    have hp := List.getElem?_eq_getElem hn
    rw [Definition.node_layout hp] at h ⊢
    exact StateDef.initial_mem_children (List.getElem_mem hn) h
  · rw [Chart.node_of_size_le (Nat.le_of_not_lt hn)] at h
    exact absurd h (by simp [StateNode.nowhere])

lemma wellFormed_assemble (hp : Layout.problems d.placed = []) :
    (assemble d start (link d b).value).chart.WellFormed := by
  simp only [Layout.problems, List.append_eq_nil_iff, List.filterMap_eq_nil_iff] at hp
  obtain ⟨⟨_, hshape⟩, hinitial⟩ := hp
  have ht : (d.layout.withHistoryDefaults ((link d b).value.map Prod.snd)).IsTree :=
    d.isTree_layout.withHistoryDefaults (by rw [List.length_map, length_link])
  have hplaced : ∀ n : Nat, n < d.layout.size → ∃ p ∈ d.placed, d.layout.node n = p.node := by
    intro n hn
    rw [Definition.size_layout] at hn
    exact ⟨d.placed[n], List.getElem_mem hn,
      Definition.node_layout (List.getElem?_eq_getElem hn)⟩
  have hpos : 0 < d.layout.size := by
    rw [Definition.size_layout, Definition.placed, StateDef.length_place]
    exact StateDef.size_pos _
  have hin : ∀ n, (d.layout.node n).isCompound → n < d.layout.size := by
    intro n hn
    by_contra hge
    rw [Chart.node_of_size_le (Nat.le_of_not_lt hge)] at hn
    exact absurd hn (by decide)
  refine ⟨ht, by rwa [size_assemble], ?_, fun n hn => ?_, fun n hc hn => ?_⟩
  · obtain ⟨p, hp, he⟩ := hplaced rootId hpos
    rw [node_assemble]
    exact Layout.regular_of_ancestors_nil (he ▸ hshape p hp) d.isTree_layout.root
  · rw [node_assemble] at hn ⊢
    obtain ⟨p, hp, he⟩ := hplaced n (hin n hn)
    obtain ⟨i, hi⟩ := Option.isSome_iff_exists.1
      (Layout.initial_isSome (hinitial p hp) (he ▸ hn))
    refine ⟨i, ?_, ?_⟩
    · exact initial_mem_layout (he ▸ hi)
    · exact he ▸ hi
  · rw [node_assemble] at hc hn ⊢
    by_cases hs : n < d.layout.size
    · obtain ⟨p, hp, he⟩ := hplaced n hs
      exact Layout.children_eq_nil (he ▸ hshape p hp) hc hn
    · change (d.layout.node n).children = []
      rw [Chart.node_of_size_le (Nat.le_of_not_lt hs)]
      rfl

lemma regularChildren_assemble (n : NodeId) :
    (assemble d start (link d b).value).chart.regularChildren n = d.layout.regularChildren n := by
  simp only [Chart.regularChildren, node_assemble]
  rfl

lemma historyDefault_assemble {n : NodeId} {p : Placed} (h : d.placed[n]? = some p)
    (hh : (d.layout.node n).isHistory) :
    ((assemble d start (link d b).value).chart.node n).historyDefault =
      ((Linker.mk d.layout b).historyDefault n p.body.target).value := by
  obtain ⟨used, hu⟩ := link_value (b := b) h
  simp only [node_assemble, List.getD_eq_getElem?_getD, List.getElem?_map, hu, Option.map_some,
    Option.getD_some, Linker.state_default, hh, if_true]

structure WellFormed (m : Machine C) : Prop where
  chart : m.chart.WellFormed
  transition : ∀ n, ∀ t ∈ (m.partsOf n).transitions,
    t.source = n ∧ n < m.chart.size ∧ ∀ x ∈ t.targets, x < m.chart.size

lemma mem_allTransitions {m : Machine C} {n : NodeId} {t : Transition C}
    (ht : t ∈ (m.partsOf n).transitions) : t ∈ m.allTransitions := by
  rw [partsOf, List.getD_eq_getElem?_getD] at ht
  cases hn : m.parts[n]? with
  | none =>
    rw [hn] at ht
    exact absurd ht List.not_mem_nil
  | some parts =>
    rw [hn] at ht
    exact List.mem_flatMap.2 ⟨parts, List.mem_of_getElem? hn, ht⟩

section

variable [JsonCoded C] {context : Option C} {m : Machine C}

lemma links_of_build (h : build d b context = .ok m) {n : NodeId} {t : Transition C}
    (ht : t ∈ (m.partsOf n).transitions) : ∃ p config, d.placed[n]? = some p ∧
      config ∈ p.body.allTransitions ∧ (Linker.mk d.layout b).Links n config t := by
  obtain ⟨start, rfl, _, _⟩ := build_eq_ok h
  rcases partsOf_assemble d b start n with ⟨p, used, hp, hparts⟩ | hparts
  · rw [hparts] at ht
    obtain ⟨config, hmem, hlinks⟩ := Linker.state_links ht
    exact ⟨p, config, hp, hmem, hlinks⟩
  · rw [hparts] at ht
    exact absurd ht List.not_mem_nil

lemma wellFormed_of_build (h : build d b context = .ok m) : m.WellFormed := by
  refine ⟨?_, fun n t ht => ?_⟩
  · obtain ⟨start, rfl, hp, _⟩ := build_eq_ok h
    exact wellFormed_assemble hp
  · obtain ⟨p, config, hp, _, hlinks⟩ := links_of_build h ht
    obtain ⟨start, rfl, _, _⟩ := build_eq_ok h
    obtain ⟨hsource, htargets⟩ := hlinks.resolves
    rw [size_assemble]
    have hn : n < d.layout.size := by
      rw [Definition.size_layout]
      exact (List.getElem?_eq_some_iff.1 hp).1
    refine ⟨hsource, hn, fun x hx => ?_⟩
    obtain ⟨target, hx⟩ := htargets x hx
    exact Chart.resolveTarget?_size d.isTree_layout hn hx

lemma exists_placed (h : build d b context = .ok m) {n : NodeId} (hn : n < m.chart.size) :
    ∃ p, d.placed[n]? = some p := by
  obtain ⟨start, rfl, _, _⟩ := build_eq_ok h
  rw [size_assemble, Definition.size_layout] at hn
  exact ⟨d.placed[n], List.getElem?_eq_getElem hn⟩

lemma historyDefault_subset (h : build d b context = .ok m) {n q : NodeId} {p : Placed}
    (hp : d.placed[n]? = some p) (ht : p.body.target = none) (hh : (m.node n).isHistory)
    (hq : (m.node n).parent? = some q) :
    ∀ x ∈ (m.node n).historyDefault, x ∈ m.chart.regularChildren q := by
  obtain ⟨start, rfl, hproblems, _⟩ := build_eq_ok h
  rw [node, node_assemble] at hh hq
  rw [node, historyDefault_assemble hp hh, ht, regularChildren_assemble]
  exact Linker.historyDefault_subset (l := ⟨d.layout, b⟩) hq fun i hi => initial_mem_layout hi

lemma historyDefault_compound (h : build d b context = .ok m) {n q : NodeId} {p : Placed}
    (hp : d.placed[n]? = some p) (ht : p.body.target = none) (hh : (m.node n).isHistory)
    (hq : (m.node n).parent? = some q) (hc : (m.node q).isParallel = false)
    (hne : m.chart.regularChildren q ≠ []) :
    ∃ child ∈ m.chart.regularChildren q, (m.node n).historyDefault = [child] := by
  obtain ⟨start, rfl, hproblems, _⟩ := build_eq_ok h
  rw [node, node_assemble] at hh hq hc
  rw [regularChildren_assemble] at hne ⊢
  rw [node, historyDefault_assemble hp hh, ht]
  exact Linker.historyDefault_compound (l := ⟨d.layout, b⟩) hq (fun i hi => initial_mem_layout hi)
    hc hne

lemma historyDefault_cases (h : build d b context = .ok m) (n : NodeId) :
    (m.node n).historyDefault.length ≤ 1 ∨ ∃ p, (m.node n).parent? = some p ∧
      (m.node p).isParallel ∧ (m.node n).historyDefault = m.chart.regularChildren p := by
  obtain ⟨start, rfl, _, _⟩ := build_eq_ok h
  by_cases hn : n < d.placed.length
  · have hplaced := List.getElem?_eq_getElem hn
    cases hh : (d.layout.node n).isHistory with
    | true =>
      rw [node, historyDefault_assemble hplaced hh]
      simp only [node, regularChildren_assemble, node_assemble]
      exact Linker.historyDefault_cases (l := ⟨d.layout, b⟩) _
    | false =>
      obtain ⟨used, hu⟩ := link_value (b := b) hplaced
      refine .inl ?_
      simp [node, node_assemble, hu, Linker.state_default, hh]
  · rw [node, Chart.node_of_size_le (by
      rw [size_assemble, Definition.size_layout]
      exact Nat.le_of_not_lt hn)]
    exact .inl (Nat.zero_le 1)

lemma children_sorted (h : build d b context = .ok m) (n : NodeId) :
    (m.node n).children.Pairwise (· < ·) := by
  obtain ⟨start, rfl, _, _⟩ := build_eq_ok h
  rw [node, node_assemble]
  change (d.layout.node n).children.Pairwise (· < ·)
  by_cases hn : n < d.placed.length
  · rw [Definition.node_layout (List.getElem?_eq_getElem hn)]
    exact StateDef.children_pairwise (List.getElem_mem hn)
  · rw [Chart.node_of_size_le (by
      rw [Definition.size_layout]
      exact Nat.le_of_not_lt hn)]
    exact List.Pairwise.nil

lemma children_nodup (h : build d b context = .ok m) (n : NodeId) :
    (m.node n).children.Nodup :=
  (children_sorted h n).imp Nat.ne_of_lt

end

end Machine

end Statechart
