import Mathlib.Tactic.Common
import Statechart.Proofs.Machine.Build

/-! Where the states of a chart come from. The state at an index is the one that the definition
declares under its path, and its children are those declared in it, in the same order. -/

namespace Statechart

namespace Keyed

lemma get?_eq_none_iff {ν : Type} {l : List (String × ν)} {key : String} :
    get? l key = none ↔ key ∉ keys l := by
  induction l with
  | nil => simp [get?]
  | cons e l ih =>
    rw [get?, keys_cons, List.mem_cons, not_or, ← ih]
    split
    · rename_i h
      simp [h]
    · rename_i h
      simp [Ne.symm h]

end Keyed

namespace StateDef

variable {names : Naming}

lemma keys_childIndices (i : Nat) (states : List (String × StateDef)) :
    Keyed.keys (childIndices i states) = Keyed.keys states := by
  induction states generalizing i with
  | nil => rfl
  | cons e rest ih =>
    obtain ⟨key, s⟩ := e
    rw [childIndices, Keyed.keys_cons, Keyed.keys_cons, ih]

lemma key_childIndices {i : Nat} {anc : List Nat} {path : List String}
    {states : List (String × StateDef)} {y : String × Nat} (h : y ∈ childIndices i states) :
    ∃ e ∈ indexedAll names i anc path states, e.2 = y.2 ∧ e.1.node.key = y.1 := by
  induction states generalizing i with
  | nil => exact absurd h List.not_mem_nil
  | cons t rest ih =>
    obtain ⟨key, body, states⟩ := t
    rw [indexedAll_cons]
    rcases List.mem_cons.1 h with rfl | h
    · refine ⟨_, List.mem_append_left _ (indexed_eq .. ▸ List.mem_cons_self), rfl, ?_⟩
      simp [nodeAt]
    · obtain ⟨e, he, hy⟩ := ih h
      exact ⟨e, List.mem_append_right _ he, hy⟩

def Labelled (keys : List String) (children : List Nat) (l : List (Placed × Nat)) : Prop :=
  ∃ entries : List (String × Nat), children = entries.map Prod.snd ∧
    Keyed.keys entries = keys ∧ ∀ y ∈ entries, ∃ e ∈ l, e.2 = y.2 ∧ e.1.node.key = y.1

lemma Labelled.mono {keys : List String} {children : List Nat} {l l' : List (Placed × Nat)}
    (h : Labelled keys children l) (hl : ∀ e ∈ l, e ∈ l') : Labelled keys children l' := by
  obtain ⟨entries, hchildren, hkeys, hentries⟩ := h
  refine ⟨entries, hchildren, hkeys, fun y hy => ?_⟩
  obtain ⟨e, he, hkey⟩ := hentries y hy
  exact ⟨e, hl e he, hkey⟩

lemma Labelled.keys_eq {keys : List String} {children : List Nat} {delimiter : String}
    {s : StateDef} (h : Labelled keys children (indexed names rootId [] [] s)) :
    (children.map fun x => ((chartOf names delimiter s).node x).key) = keys := by
  obtain ⟨entries, rfl, rfl, hentries⟩ := h
  rw [List.map_map, Keyed.keys]
  refine List.map_congr_left fun y hy => ?_
  obtain ⟨e, he, hey, hkey⟩ := hentries y hy
  rw [Function.comp_apply, ← hey, node_indexed he, hkey]

def at? : StateDef → List String → Option StateDef
  | s, [] => some s
  | s, key :: path => (Keyed.get? s.states key).bind fun child => child.at? path

mutual

lemma declared_indexed (i : Nat) (anc : List Nat) (path : List String) :
    ∀ s : StateDef, s.KeysDistinct → ∀ e ∈ indexed names i anc path s, ∃ rest t anc',
      s.at? rest = some t ∧ e.1 = ⟨t.toStateBody, nodeAt names e.2 anc' (path ++ rest) t⟩ ∧
        Labelled (Keyed.keys t.states) e.1.node.children (indexed names i anc path s)
  | ⟨body, states⟩, hk, e, h => by
    rw [indexed_eq] at h ⊢
    rcases List.mem_cons.1 h with rfl | h
    · refine ⟨[], ⟨body, states⟩, anc, rfl, by rw [List.append_nil], ?_⟩
      refine ⟨childIndices (i + 1) states, rfl, keys_childIndices _ _, fun y hy => ?_⟩
      obtain ⟨e, he, hkey⟩ := key_childIndices hy
      exact ⟨e, List.mem_cons_of_mem _ he, hkey⟩
    · obtain ⟨key, rest, t, anc', hat, he, hlabelled⟩ :=
        declared_indexedAll (i + 1) (i :: anc) path states hk.1 hk.2 e h
      exact ⟨key :: rest, t, anc', hat, he, hlabelled.mono fun _ => List.mem_cons_of_mem _⟩

lemma declared_indexedAll (i : Nat) (anc : List Nat) (path : List String) :
    ∀ states : List (String × StateDef), (Keyed.keys states).Nodup → KeysDistinctAll states →
      ∀ e ∈ indexedAll names i anc path states, ∃ key rest t anc',
        ((Keyed.get? states key).bind fun child => child.at? rest) = some t ∧
          e.1 = ⟨t.toStateBody, nodeAt names e.2 anc' (path ++ key :: rest) t⟩ ∧
            Labelled (Keyed.keys t.states) e.1.node.children (indexedAll names i anc path states)
  | [], _, _, e, h => absurd h List.not_mem_nil
  | (key, s) :: states, hn, hk, e, h => by
    rw [Keyed.keys_cons, List.nodup_cons] at hn
    rw [indexedAll_cons] at h ⊢
    rcases List.mem_append.1 h with h | h
    · obtain ⟨rest, t, anc', hat, he, hlabelled⟩ :=
        declared_indexed i anc (path ++ [key]) s hk.1 e h
      rw [List.append_assoc, List.singleton_append] at he
      exact ⟨key, rest, t, anc', by rw [Keyed.get?, if_pos rfl, Option.bind_some, hat], he,
        hlabelled.mono fun _ => List.mem_append_left _⟩
    · obtain ⟨key', rest, t, anc', hat, he, hlabelled⟩ :=
        declared_indexedAll (i + s.size) anc path states hn.2 hk.2 e h
      have hne : key ≠ key' := by
        rintro rfl
        rw [Keyed.get?_eq_none_iff.2 hn.1] at hat
        exact absurd hat (by simp)
      exact ⟨key', rest, t, anc', by rw [Keyed.get?, if_neg hne, hat], he,
        hlabelled.mono fun _ => List.mem_append_right _⟩

end

lemma KeysDistinct.at? {s t : StateDef} {path : List String} (h : s.KeysDistinct)
    (ht : s.at? path = some t) : t.KeysDistinct := by
  induction path generalizing s with
  | nil => exact Option.some.inj ht ▸ h
  | cons key path ih =>
    obtain ⟨body, states⟩ := s
    obtain ⟨child, hchild, hrest⟩ := Option.bind_eq_some_iff.1 ht
    obtain ⟨e, he, rfl⟩ := List.mem_map.1 (get?_mem hchild)
    exact ih (keysDistinctAll_iff.1 h.2 e he) hrest

end StateDef

namespace Definition

variable {d : Definition} {n : NodeId} {s : StateDef} {p : Placed}

def Declares (d : Definition) (n : NodeId) (s : StateDef) : Prop :=
  n < d.layout.size ∧ d.root.at? (d.layout.node n).path = some s

lemma exists_declares (h : d.placed[n]? = some p) : ∃ s anc path, d.Declares n s ∧
    p = ⟨s.toStateBody, StateDef.nodeAt d.naming n anc path s⟩ ∧
      (p.node.children.map fun x => (d.layout.node x).key) = Keyed.keys s.states := by
  have hmem : (p, n) ∈ StateDef.indexed d.naming rootId [] [] d.root :=
    List.mem_zipIdx_iff_getElem?.2 h
  obtain ⟨path, s, anc, hat, he, hlabelled⟩ :=
    StateDef.declared_indexed rootId [] [] d.root d.keysDistinct _ hmem
  refine ⟨s, anc, path, ⟨?_, ?_⟩, he, hlabelled.keys_eq⟩
  · rw [size_layout]
    exact (List.getElem?_eq_some_iff.1 h).1
  · rw [node_layout h, show p = _ from he]
    exact hat

lemma Declares.placed (h : d.Declares n s) : ∃ anc path,
    d.placed[n]? = some ⟨s.toStateBody, StateDef.nodeAt d.naming n anc path s⟩ := by
  have hn := h.1
  rw [size_layout] at hn
  obtain ⟨s', anc, path, hs', he, _⟩ := exists_declares (List.getElem?_eq_getElem hn)
  obtain rfl : s' = s := Option.some.inj (hs'.2.symm.trans h.2)
  exact ⟨anc, path, by rw [List.getElem?_eq_getElem hn, he]⟩

lemma Declares.node (h : d.Declares n s) :
    ∃ anc path, d.layout.node n = StateDef.nodeAt d.naming n anc path s := by
  obtain ⟨anc, path, hp⟩ := h.placed
  exact ⟨anc, path, node_layout hp⟩

lemma Declares.keys_children (h : d.Declares n s) :
    ((d.layout.node n).children.map fun x => (d.layout.node x).key) = Keyed.keys s.states := by
  obtain ⟨anc, path, hp⟩ := h.placed
  obtain ⟨s', _, _, hs', _, hkeys⟩ := exists_declares hp
  obtain rfl : s' = s := Option.some.inj (hs'.2.symm.trans h.2)
  rw [node_layout hp, hkeys]

end Definition

end Statechart
