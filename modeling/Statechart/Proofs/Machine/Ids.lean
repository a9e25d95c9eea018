import Mathlib.Data.List.Nodup
import Mathlib.Tactic.Common
import Statechart.Proofs.Machine.Build

/-! Ids of built machines. No two states have the same id, so that looking the id of a state up
leads back to the state. -/

namespace Statechart

namespace Chart

variable {c : Chart} {id : String} {n : NodeId}

lemma getElem?_of_lastIndex? {l : List String} {i : Nat} (h : lastIndex? id l = some i) :
    l[i]? = some id := by
  induction l generalizing i with
  | nil => simp [lastIndex?] at h
  | cons x l ih =>
    cases hl : lastIndex? id l with
    | some j =>
      simp only [lastIndex?, hl, Option.some.injEq] at h
      subst h
      simpa using ih hl
    | none =>
      by_cases hx : x = id
      · simp only [lastIndex?, hl, hx, if_true, Option.some.injEq] at h
        subst h
        simp [hx]
      · simp [lastIndex?, hl, hx] at h

lemma exists_lastIndex? {l : List String} (h : id ∈ l) : ∃ i, lastIndex? id l = some i := by
  induction l with
  | nil => exact absurd h List.not_mem_nil
  | cons x l ih =>
    cases hl : lastIndex? id l with
    | some j => exact ⟨j + 1, by simp [lastIndex?, hl]⟩
    | none =>
      have hx : x = id := by
        cases List.mem_cons.1 h with
        | inl h => exact h.symm
        | inr h =>
          obtain ⟨i, hi⟩ := ih h
          simp [hl] at hi
      exact ⟨0, by simp [lastIndex?, hl, hx]⟩

lemma getElem?_nodes (hn : n < c.size) : c.nodes[n]? = some (c.node n) := by
  simp only [node, List.getD_eq_getElem?_getD]
  rw [List.getElem?_eq_getElem hn, Option.getD_some]

lemma node_of_find? (h : c.find? id = some n) : (c.node n).id = id := by
  have hn := find?_size h
  have hid := getElem?_of_lastIndex? h
  rw [List.getElem?_map, getElem?_nodes hn] at hid
  simpa using hid

def IdsDistinct (c : Chart) : Prop :=
  ∀ a b, a < c.size → b < c.size → (c.node a).id = (c.node b).id → a = b

lemma find?_node (h : c.IdsDistinct) (hn : n < c.size) : c.find? (c.node n).id = some n := by
  have hmem : (c.node n).id ∈ c.nodes.map StateNode.id :=
    List.mem_map_of_mem (List.mem_of_getElem? (getElem?_nodes hn))
  obtain ⟨i, hi⟩ := exists_lastIndex? hmem
  have hfind : c.find? (c.node n).id = some i := hi
  rw [hfind, h i n (find?_size hfind) hn (node_of_find? hfind)]

end Chart

namespace Layout

lemma nodup_of_duplicateIds {seen : List String} {ps : List Placed}
    (h : duplicateIds seen ps = []) :
    (ps.map fun p => p.node.id).Nodup ∧ ∀ p ∈ ps, p.node.id ∉ seen := by
  induction ps generalizing seen with
  | nil => simp
  | cons p ps ih =>
    rw [duplicateIds, List.append_eq_nil_iff] at h
    obtain ⟨hnodup, hnew⟩ := ih h.2
    have hp : p.node.id ∉ seen := by
      intro hmem
      simp [hmem] at h
    refine ⟨?_, ?_⟩
    · rw [List.map_cons, List.nodup_cons]
      refine ⟨?_, hnodup⟩
      intro hmem
      obtain ⟨q, hq, he⟩ := List.mem_map.1 hmem
      apply hnew q hq
      simp [he]
    · intro q hq hseen
      cases List.mem_cons.1 hq with
      | inl he => exact hp (he ▸ hseen)
      | inr hq => exact hnew q hq (List.mem_cons_of_mem _ hseen)

end Layout

namespace Machine

variable {C : Type} [JsonCoded C] {d : Definition} {b : Behaviors C} {context : Option C}
  {m : Machine C}

lemma idsDistinct_of_build (h : build d b context = .ok m) : m.chart.IdsDistinct := by
  obtain ⟨start, rfl, hp, _⟩ := build_eq_ok h
  simp only [Layout.problems, List.append_eq_nil_iff] at hp
  have hnodup := (Layout.nodup_of_duplicateIds hp.1.1).1
  intro n n' hn hn' he
  rw [size_assemble, Definition.size_layout] at hn hn'
  rw [node_assemble, node_assemble] at he
  have hid : ∀ k < d.placed.length,
      (d.placed.map fun p => p.node.id)[k]? = some (d.layout.node k).id := by
    intro k hk
    rw [List.getElem?_map, List.getElem?_eq_getElem hk,
      Definition.node_layout (List.getElem?_eq_getElem hk)]
    rfl
  have hlength : n < (d.placed.map fun p => p.node.id).length := by rwa [List.length_map]
  apply (List.getElem?_inj hlength hnodup).1
  rw [hid n hn, hid n' hn']
  exact congrArg some he

end Machine

end Statechart
