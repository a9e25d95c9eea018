import Mathlib.Data.List.Nodup
import Mathlib.Tactic.Common
import Statechart.Proofs.Machine.Places

/-! Keys of built machines. No two children of a state have the same key, so that paths of keys lead
to one state at most, and the path to a state leads there. -/

namespace Statechart

namespace Chart

variable {c : Chart} {n a b child : NodeId} {keys : List String}

def KeysDistinct (c : Chart) : Prop :=
  ∀ n, ((c.node n).children.map fun child => (c.node child).key).Nodup

/-- Paths of keys can be written with the delimiter between the keys and cut apart again. -/
structure Separable (c : Chart) (δ : Char) : Prop where
  delimiter : c.delimiter.toList = [δ]
  keys : ∀ n < c.size, n ≠ rootId → (c.node n).key ≠ "" ∧ δ ∉ (c.node n).key.toList

lemma keysDistinct_chartOf {names : Naming} {delimiter : String} {s : StateDef}
    (h : s.KeysDistinct) : (StateDef.chartOf names delimiter s).KeysDistinct := by
  intro n
  by_cases hn : n < s.size
  · obtain ⟨e, he, rfl, hnode⟩ := StateDef.exists_indexed names delimiter hn
    obtain ⟨path, ⟨body, states⟩, anc, hat, _, hlabelled⟩ :=
      StateDef.declared_indexed rootId [] [] s h e he
    rw [hnode, hlabelled.keys_eq]
    exact (h.at? hat).1
  · rw [node_of_size_le (by rw [StateDef.size_chartOf]; exact Nat.le_of_not_lt hn)]
    exact List.nodup_nil

lemma child?_eq_some (h : c.child? n key = some a) :
    a ∈ (c.node n).children ∧ (c.node a).key = key :=
  ⟨List.mem_of_find?_eq_some h, by simpa using List.find?_some h⟩

lemma child?_key (hk : c.KeysDistinct) (h : child ∈ (c.node n).children) :
    c.child? n (c.node child).key = some child := by
  have hsome : (c.child? n (c.node child).key).isSome :=
    List.find?_isSome.2 ⟨child, h, by simp⟩
  obtain ⟨a, ha⟩ := Option.isSome_iff_exists.1 hsome
  obtain ⟨hmem, hkey⟩ := child?_eq_some ha
  rw [ha, List.inj_on_of_nodup_map (hk n) hmem h hkey]

end Chart

namespace Machine

variable {C : Type} [JsonCoded C] {d : Definition} {b : Behaviors C} {context : Option C}
  {m : Machine C}

lemma keysDistinct_of_build (h : build d b context = .ok m) : m.chart.KeysDistinct := by
  obtain ⟨start, rfl, _, _⟩ := build_eq_ok h
  have hlayout : d.layout.KeysDistinct := Chart.keysDistinct_chartOf d.keysDistinct
  intro n
  simp only [node_assemble]
  exact hlayout n

end Machine

end Statechart
