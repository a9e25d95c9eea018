import Mathlib.Tactic.Common
import Statechart.Proofs.Machine.Keys

/-! Paths of built machines. The path of a state is the path of its parent followed by its own key,
so that it leads from the root to the state, and no other path does. -/

namespace Statechart

namespace StateDef

variable {names : Naming}

def Extended (path : List String) (children : List Nat) (l : List (Placed × Nat)) : Prop :=
  ∀ x ∈ children, ∃ e ∈ l, e.2 = x ∧ e.1.node.path = path ++ [e.1.node.key]

lemma Extended.mono {path : List String} {children : List Nat} {l l' : List (Placed × Nat)}
    (h : Extended path children l) (hl : ∀ e ∈ l, e ∈ l') : Extended path children l' := by
  intro x hx
  obtain ⟨e, he, hpath⟩ := h x hx
  exact ⟨e, hl e he, hpath⟩

lemma extended_childIndices (i : Nat) (anc : List Nat) (path : List String)
    (states : List (String × StateDef)) :
    Extended path ((childIndices i states).map Prod.snd) (indexedAll names i anc path states) := by
  induction states generalizing i with
  | nil => exact fun _ hx => absurd hx List.not_mem_nil
  | cons t rest ih =>
    obtain ⟨key, body, states⟩ := t
    rw [indexedAll_cons]
    intro x hx
    rcases List.mem_cons.1 hx with rfl | hx
    · refine ⟨_, List.mem_append_left _ (indexed_eq .. ▸ List.mem_cons_self), rfl, ?_⟩
      simp [nodeAt]
    · obtain ⟨e, he, hpath⟩ := ih _ x hx
      exact ⟨e, List.mem_append_right _ he, hpath⟩

mutual

lemma extended_indexed (i : Nat) (anc : List Nat) (path : List String) :
    ∀ (s : StateDef), ∀ e ∈ indexed names i anc path s,
      Extended e.1.node.path e.1.node.children (indexed names i anc path s)
  | ⟨body, states⟩, e, h => by
    rw [indexed_eq] at h ⊢
    rcases List.mem_cons.1 h with rfl | h
    · exact (extended_childIndices (i + 1) (i :: anc) path states).mono
        fun _ => List.mem_cons_of_mem _
    · exact (extended_indexedAll (i + 1) (i :: anc) path states e h).mono
        fun _ => List.mem_cons_of_mem _

lemma extended_indexedAll (i : Nat) (anc : List Nat) (path : List String) :
    ∀ (states : List (String × StateDef)), ∀ e ∈ indexedAll names i anc path states,
      Extended e.1.node.path e.1.node.children (indexedAll names i anc path states)
  | [], _, h => absurd h List.not_mem_nil
  | (key, s) :: rest, e, h => by
    rw [indexedAll_cons] at h ⊢
    rcases List.mem_append.1 h with h | h
    · exact (extended_indexed i anc (path ++ [key]) s e h).mono fun _ => List.mem_append_left _
    · exact (extended_indexedAll (i + s.size) anc path rest e h).mono
        fun _ => List.mem_append_right _

end

end StateDef

namespace Chart

variable {c : Chart} {n x : NodeId} {path : List String}

structure Traced (c : Chart) : Prop where
  root : (c.node rootId).path = []
  child : ∀ n, ∀ x ∈ (c.node n).children, (c.node x).path = (c.node n).path ++ [(c.node x).key]

lemma traced_chartOf {names : Naming} {delimiter : String} {s : StateDef} :
    (StateDef.chartOf names delimiter s).Traced := by
  refine ⟨?_, fun n x hx => ?_⟩
  · obtain ⟨body, states⟩ := s
    rfl
  · have hn : n < s.size := by
      by_contra hn
      rw [node_of_size_le (by rw [StateDef.size_chartOf]; exact Nat.le_of_not_lt hn)] at hx
      exact List.not_mem_nil hx
    obtain ⟨e, he, rfl, hnode⟩ := StateDef.exists_indexed names delimiter hn
    rw [hnode] at hx ⊢
    obtain ⟨f, hf, rfl, hpath⟩ := StateDef.extended_indexed rootId [] [] s e he x hx
    rw [StateDef.node_indexed hf, hpath]

lemma within_of_descend (ht : c.IsTree) (h : path.foldlM c.child? n = some x) :
    c.Within x n := by
  induction path generalizing n with
  | nil => exact .inl (Option.some.inj h).symm
  | cons key path ih =>
    rw [List.foldlM_cons] at h
    obtain ⟨child, hchild, h⟩ := Option.bind_eq_some_iff.1 h
    exact .inr ((ih h).trans_below ht (child_below ht (child?_eq_some hchild).1))

lemma path_of_descend (hc : c.Traced) (h : path.foldlM c.child? n = some x) :
    (c.node x).path = (c.node n).path ++ path := by
  induction path generalizing n with
  | nil => rw [Option.some.inj h, List.append_nil]
  | cons key path ih =>
    rw [List.foldlM_cons] at h
    obtain ⟨child, hchild, hrest⟩ := Option.bind_eq_some_iff.1 h
    obtain ⟨hmem, rfl⟩ := child?_eq_some hchild
    rw [ih hrest, hc.child n child hmem, List.append_assoc, List.singleton_append]

lemma descend_path (ht : c.IsTree) (hk : c.KeysDistinct) (hc : c.Traced) (hx : x < c.size) :
    (c.node x).path.foldlM c.child? rootId = some x := by
  induction x using Nat.strongRecOn with
  | ind x ih =>
    by_cases hroot : x = rootId
    · rw [hroot, hc.root]
      rfl
    · obtain ⟨p, hp, _⟩ := exists_parent ht (below_root ht hx hroot)
      have hmem := (ht.mem_children x p).2 hp
      have hlt := parent_lt ht hp
      rw [hc.child p x hmem, List.foldlM_append, ih p hlt (Nat.lt_trans hlt hx)]
      change [(c.node x).key].foldlM c.child? p = some x
      rw [List.foldlM_cons, child?_key hk hmem]
      rfl

lemma eq_of_path_eq (ht : c.IsTree) (hk : c.KeysDistinct) (hc : c.Traced) {y : NodeId}
    (hx : x < c.size) (hy : y < c.size) (h : (c.node x).path = (c.node y).path) : x = y := by
  have hlead := descend_path ht hk hc hx
  rw [h, descend_path ht hk hc hy] at hlead
  exact (Option.some.inj hlead).symm

end Chart

namespace Machine

variable {C : Type} [JsonCoded C] {d : Definition} {b : Behaviors C} {context : Option C}
  {m : Machine C}

lemma traced_of_build (h : build d b context = .ok m) : m.chart.Traced := by
  obtain ⟨start, rfl, _, _⟩ := build_eq_ok h
  have hlayout : d.layout.Traced := Chart.traced_chartOf
  refine ⟨?_, fun n => ?_⟩
  · rw [node_assemble]
    exact hlayout.root
  · simp only [node_assemble]
    exact hlayout.child n

end Machine

end Statechart
