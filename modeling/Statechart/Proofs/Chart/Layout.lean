import Statechart.Chart.Layout
import Statechart.Proofs.Chart.Tree

/-! The states of a definition are laid out as a tree: ancestors, children and the ends of subtrees
all tell of the same shape. -/

namespace Statechart.StateDef

variable (names : Naming)

mutual

lemma length_place (i : Nat) (anc : List Nat) (path : List String) :
    ∀ s : StateDef, (place names i anc path s).length = s.size
  | ⟨body, states⟩ => by
    rw [place, size, List.length_cons, length_placeAll (i + 1) (i :: anc) path states]
    exact Nat.add_comm _ _

lemma length_placeAll (i : Nat) (anc : List Nat) (path : List String) :
    ∀ states : List (String × StateDef),
      (placeAll names i anc path states).length = sizeAll states
  | [] => rfl
  | (key, s) :: rest => by
    rw [placeAll, sizeAll, List.length_append, length_place i anc (path ++ [key]) s,
      length_placeAll (i + s.size) anc path rest]

end

lemma size_pos (s : StateDef) : 0 < s.size := by
  cases s
  simp only [size]
  omega

lemma mem_childIndices {i : Nat} {states : List (String × StateDef)} {x : String × Nat}
    (h : x ∈ childIndices i states) : i ≤ x.2 ∧ x.2 < i + sizeAll states := by
  induction states generalizing i with
  | nil => exact absurd h List.not_mem_nil
  | cons e rest ih =>
    obtain ⟨key, s⟩ := e
    have hs := size_pos s
    rcases List.mem_cons.1 h with rfl | h
    · simp only [sizeAll]
      omega
    · have := ih h
      simp only [sizeAll]
      omega

lemma childIndices_pairwise (i : Nat) (states : List (String × StateDef)) :
    ((childIndices i states).map Prod.snd).Pairwise (· < ·) := by
  induction states generalizing i with
  | nil => exact List.Pairwise.nil
  | cons e rest ih =>
    obtain ⟨key, s⟩ := e
    refine List.pairwise_cons.2 ⟨fun x hx => ?_, ih (i + s.size)⟩
    obtain ⟨y, hy, rfl⟩ := List.mem_map.1 hx
    exact Nat.lt_of_lt_of_le (Nat.lt_add_of_pos_right (size_pos s)) (mem_childIndices hy).1

def indexed (i : Nat) (anc : List Nat) (path : List String) (s : StateDef) :
    List (Placed × Nat) :=
  (place names i anc path s).zipIdx i

def indexedAll (i : Nat) (anc : List Nat) (path : List String)
    (states : List (String × StateDef)) : List (Placed × Nat) :=
  (placeAll names i anc path states).zipIdx i

lemma indexed_eq (i : Nat) (anc : List Nat) (path : List String) (body : StateBody)
    (states : List (String × StateDef)) :
    indexed names i anc path ⟨body, states⟩ =
      (⟨body, nodeAt names i anc path ⟨body, states⟩⟩, i) ::
        indexedAll names (i + 1) (i :: anc) path states := by
  rw [indexed, place, List.zipIdx_cons, indexedAll]

lemma indexedAll_cons (i : Nat) (anc : List Nat) (path : List String) (key : String)
    (s : StateDef) (rest : List (String × StateDef)) :
    indexedAll names i anc path ((key, s) :: rest) =
      indexed names i anc (path ++ [key]) s ++ indexedAll names (i + s.size) anc path rest := by
  rw [indexedAll, placeAll, List.zipIdx_append, length_place, indexed, indexedAll]

variable {names}

lemma mem_indexed_range {i : Nat} {anc : List Nat} {path : List String} {s : StateDef}
    {e : Placed × Nat} (h : e ∈ indexed names i anc path s) :
    i ≤ e.2 ∧ e.2 < i + s.size := by
  have := List.mem_zipIdx h
  rw [length_place] at this
  exact ⟨this.1, this.2.1⟩

lemma mem_indexedAll_range {i : Nat} {anc : List Nat} {path : List String}
    {states : List (String × StateDef)} {e : Placed × Nat}
    (h : e ∈ indexedAll names i anc path states) : i ≤ e.2 ∧ e.2 < i + sizeAll states := by
  have := List.mem_zipIdx h
  rw [length_placeAll] at this
  exact ⟨this.1, this.2.1⟩

mutual

lemma ancestors_indexed (i : Nat) (anc : List Nat) (path : List String) :
    ∀ (s : StateDef) (e : Placed × Nat), e ∈ indexed names i anc path s →
      ∃ l : List Nat, e.1.node.ancestors = l ++ anc ∧ (∀ a ∈ l, i ≤ a ∧ a < i + s.size) ∧
        (e.2 ≠ i → i ∈ l)
  | ⟨body, states⟩, e, h => by
    rw [indexed_eq, List.mem_cons] at h
    rcases h with rfl | h
    · exact ⟨[], rfl, by simp, fun hne => absurd rfl hne⟩
    · obtain ⟨l, hl, hr⟩ := ancestors_indexedAll (i + 1) (i :: anc) path states e h
      refine ⟨l ++ [i], by simpa using hl, ?_, fun _ => by simp⟩
      intro a ha
      rw [List.mem_append, List.mem_singleton] at ha
      rw [size]
      rcases ha with ha | rfl
      · have := hr a ha
        omega
      · omega

lemma ancestors_indexedAll (i : Nat) (anc : List Nat) (path : List String) :
    ∀ (states : List (String × StateDef)) (e : Placed × Nat),
      e ∈ indexedAll names i anc path states →
      ∃ l : List Nat, e.1.node.ancestors = l ++ anc ∧
        ∀ a ∈ l, i ≤ a ∧ a < i + sizeAll states
  | [], e, h => absurd h List.not_mem_nil
  | (key, s) :: rest, e, h => by
    rw [indexedAll_cons, List.mem_append] at h
    rw [sizeAll]
    rcases h with h | h
    · obtain ⟨l, hl, hr, _⟩ := ancestors_indexed i anc (path ++ [key]) s e h
      refine ⟨l, hl, fun a ha => ?_⟩
      have := hr a ha
      omega
    · obtain ⟨l, hl, hr⟩ := ancestors_indexedAll (i + s.size) anc path rest e h
      refine ⟨l, hl, fun a ha => ?_⟩
      have := hr a ha
      omega

end

mutual

lemma subtreeEnd_indexed (i : Nat) (anc : List Nat) (path : List String) :
    ∀ (s : StateDef) (e : Placed × Nat), e ∈ indexed names i anc path s →
      e.1.node.subtreeEnd ≤ i + s.size ∧
        ∀ x : Nat, x ∈ e.1.node.children → e.2 < x ∧ x < e.1.node.subtreeEnd
  | ⟨body, states⟩, e, h => by
    rw [indexed_eq, List.mem_cons] at h
    rcases h with rfl | h
    · refine ⟨Nat.le_refl _, fun x hx => ?_⟩
      obtain ⟨y, hy, rfl⟩ := List.mem_map.1 hx
      have := mem_childIndices hy
      simp only [nodeAt, size] at this ⊢
      omega
    · have := subtreeEnd_indexedAll (i + 1) (i :: anc) path states e h
      rw [size]
      exact ⟨by omega, this.2⟩

lemma subtreeEnd_indexedAll (i : Nat) (anc : List Nat) (path : List String) :
    ∀ (states : List (String × StateDef)) (e : Placed × Nat),
      e ∈ indexedAll names i anc path states →
      e.1.node.subtreeEnd ≤ i + sizeAll states ∧
        ∀ x : Nat, x ∈ e.1.node.children → e.2 < x ∧ x < e.1.node.subtreeEnd
  | [], e, h => absurd h List.not_mem_nil
  | (key, s) :: rest, e, h => by
    rw [indexedAll_cons, List.mem_append] at h
    rw [sizeAll]
    rcases h with h | h
    · have := subtreeEnd_indexed i anc (path ++ [key]) s e h
      exact ⟨by omega, this.2⟩
    · have := subtreeEnd_indexedAll (i + s.size) anc path rest e h
      exact ⟨by omega, this.2⟩

end

mutual

lemma mem_ancestors_indexed (i : Nat) (anc : List Nat) (path : List String)
    (hanc : ∀ a ∈ anc, a < i) :
    ∀ (s : StateDef) (e f : Placed × Nat), e ∈ indexed names i anc path s →
      f ∈ indexed names i anc path s →
      (f.2 ∈ e.1.node.ancestors ↔ f.2 < e.2 ∧ e.2 < f.1.node.subtreeEnd)
  | ⟨body, states⟩, e, f, he, hf => by
    rw [indexed_eq, List.mem_cons] at he hf
    have hout : ∀ x, i ≤ x → x ∉ anc := fun x hx h => by
      have := hanc x h
      omega
    rcases he with rfl | he
    · have hle : i ≤ f.2 := by
        rcases hf with rfl | hf
        · exact Nat.le_refl _
        · have := mem_indexedAll_range hf
          omega
      refine iff_of_false (hout _ hle) ?_
      intro h
      have h : f.2 < i := h.1
      omega
    · rcases hf with rfl | hf
      · obtain ⟨l, hl, _⟩ := ancestors_indexedAll (i + 1) (i :: anc) path states e he
        have hr := mem_indexedAll_range he
        refine iff_of_true (by simp [hl]) ?_
        simp only [nodeAt, size]
        omega
      · refine mem_ancestors_indexedAll (i + 1) (i :: anc) path ?_ states e f he hf
        intro a ha
        rcases List.mem_cons.1 ha with rfl | ha
        · omega
        · have := hanc a ha
          omega

lemma mem_ancestors_indexedAll (i : Nat) (anc : List Nat) (path : List String)
    (hanc : ∀ a ∈ anc, a < i) :
    ∀ (states : List (String × StateDef)) (e f : Placed × Nat),
      e ∈ indexedAll names i anc path states → f ∈ indexedAll names i anc path states →
      (f.2 ∈ e.1.node.ancestors ↔ f.2 < e.2 ∧ e.2 < f.1.node.subtreeEnd)
  | [], e, _, he, _ => absurd he List.not_mem_nil
  | (key, s) :: rest, e, f, he, hf => by
    rw [indexedAll_cons, List.mem_append] at he hf
    have hanc' : ∀ a ∈ anc, a < i + s.size := fun a ha => Nat.lt_add_right _ (hanc a ha)
    rcases he with he | he <;> rcases hf with hf | hf
    · exact mem_ancestors_indexed i anc (path ++ [key]) hanc s e f he hf
    · obtain ⟨l, hl, hr, _⟩ := ancestors_indexed i anc (path ++ [key]) s e he
      have h1 := mem_indexed_range he
      have h2 := mem_indexedAll_range hf
      refine iff_of_false ?_ (by omega)
      rw [hl, List.mem_append]
      rintro (h | h)
      · have := hr _ h
        omega
      · have := hanc _ h
        omega
    · obtain ⟨l, hl, hr⟩ := ancestors_indexedAll (i + s.size) anc path rest e he
      have h1 := mem_indexedAll_range he
      have h2 := mem_indexed_range hf
      have h3 := (subtreeEnd_indexed i anc (path ++ [key]) s f hf).1
      refine iff_of_false ?_ (by omega)
      rw [hl, List.mem_append]
      rintro (h | h)
      · have := hr _ h
        omega
      · have := hanc _ h
        omega
    · exact mem_ancestors_indexedAll (i + s.size) anc path hanc' rest e f he hf

end

lemma indexed_top (i : Nat) (anc : List Nat) (path : List String) (s : StateDef)
    {e : Placed × Nat} (h : e ∈ indexed names i anc path s) :
    e.1.node.ancestors = anc ↔ e.2 = i := by
  obtain ⟨body, states⟩ := s
  rw [indexed_eq, List.mem_cons] at h
  rcases h with rfl | h
  · exact iff_of_true rfl rfl
  · obtain ⟨l, hl, _⟩ := ancestors_indexedAll (i + 1) (i :: anc) path states e h
    have := mem_indexedAll_range h
    refine iff_of_false ?_ (by omega)
    intro he
    have hlen := congrArg List.length (hl.symm.trans he)
    simp only [List.length_append, List.length_cons] at hlen
    omega

lemma indexedAll_top (i : Nat) (anc : List Nat) (path : List String)
    (states : List (String × StateDef)) {e : Placed × Nat}
    (h : e ∈ indexedAll names i anc path states) :
    e.1.node.ancestors = anc ↔ e.2 ∈ (childIndices i states).map Prod.snd := by
  induction states generalizing i with
  | nil => exact absurd h List.not_mem_nil
  | cons t rest ih =>
    obtain ⟨key, s⟩ := t
    rw [indexedAll_cons, List.mem_append] at h
    rw [childIndices, List.map_cons, List.mem_cons]
    rcases h with h | h
    · rw [indexed_top i anc _ s h]
      have hr := mem_indexed_range h
      refine (or_iff_left fun hm => ?_).symm
      obtain ⟨y, hy, he⟩ := List.mem_map.1 hm
      have := mem_childIndices hy
      omega
    · rw [ih (i + s.size) h]
      have hr := mem_indexedAll_range h
      have hs := size_pos s
      exact (or_iff_right (by omega)).symm

mutual

lemma mem_children_indexed (i : Nat) (anc : List Nat) (path : List String)
    (hanc : ∀ a ∈ anc, a < i) :
    ∀ (s : StateDef) (e f : Placed × Nat), e ∈ indexed names i anc path s →
      f ∈ indexed names i anc path s →
      (e.2 ∈ f.1.node.children ↔ e.1.node.ancestors = f.2 :: f.1.node.ancestors)
  | ⟨body, states⟩, e, f, he, hf => by
    have hsub := (subtreeEnd_indexed i anc path ⟨body, states⟩ f hf).2
    have hmem := mem_ancestors_indexed i anc path hanc ⟨body, states⟩ e f he hf
    have hlt : e.1.node.ancestors = f.2 :: f.1.node.ancestors → f.2 < e.2 := fun h =>
      (hmem.1 (h ▸ List.mem_cons_self)).1
    have hge := mem_indexed_range hf
    rw [indexed_eq, List.mem_cons] at he hf
    rcases he with rfl | he
    · refine iff_of_false (fun h => ?_) (fun h => ?_)
      · have h : f.2 < i := (hsub i h).1
        omega
      · have h : f.2 < i := hlt h
        omega
    · rcases hf with rfl | hf
      · exact (indexedAll_top (i + 1) (i :: anc) path states he).symm
      · refine mem_children_indexedAll (i + 1) (i :: anc) path ?_ states e f he hf
        intro a ha
        rcases List.mem_cons.1 ha with rfl | ha
        · omega
        · have := hanc a ha
          omega

lemma mem_children_indexedAll (i : Nat) (anc : List Nat) (path : List String)
    (hanc : ∀ a ∈ anc, a < i) :
    ∀ (states : List (String × StateDef)) (e f : Placed × Nat),
      e ∈ indexedAll names i anc path states → f ∈ indexedAll names i anc path states →
      (e.2 ∈ f.1.node.children ↔ e.1.node.ancestors = f.2 :: f.1.node.ancestors)
  | [], e, _, he, _ => absurd he List.not_mem_nil
  | (key, s) :: rest, e, f, he, hf => by
    have hmem := mem_ancestors_indexedAll i anc path hanc _ e f he hf
    have hlt : e.1.node.ancestors = f.2 :: f.1.node.ancestors →
        f.2 < e.2 ∧ e.2 < f.1.node.subtreeEnd := fun h => hmem.1 (h ▸ List.mem_cons_self)
    have hsub := (subtreeEnd_indexedAll i anc path _ f hf).2
    rw [indexedAll_cons, List.mem_append] at he hf
    rcases he with he | he <;> rcases hf with hf | hf
    · exact mem_children_indexed i anc (path ++ [key]) hanc s e f he hf
    · have h1 := mem_indexed_range he
      have h2 := mem_indexedAll_range hf
      refine iff_of_false (fun h => ?_) (fun h => ?_)
      · have := hsub e.2 h
        omega
      · have := hlt h
        omega
    · have h1 := mem_indexedAll_range he
      have h2 := (subtreeEnd_indexed i anc (path ++ [key]) s f hf).1
      refine iff_of_false (fun h => ?_) (fun h => ?_)
      · have := hsub e.2 h
        omega
      · have := hlt h
        omega
    · exact mem_children_indexedAll (i + s.size) anc path
        (fun a ha => Nat.lt_add_right _ (hanc a ha)) rest e f he hf

end

mutual

lemma parent_indexed (i : Nat) (anc : List Nat) (path : List String) :
    ∀ (s : StateDef) (e : Placed × Nat), e ∈ indexed names i anc path s → e.2 ≠ i →
      ∃ f ∈ indexed names i anc path s, e.1.node.ancestors = f.2 :: f.1.node.ancestors
  | ⟨body, states⟩, e, h, hne => by
    rw [indexed_eq] at h ⊢
    rcases List.mem_cons.1 h with rfl | h
    · exact absurd rfl hne
    · rcases parent_indexedAll (i + 1) (i :: anc) path states e h with he | ⟨f, hf, he⟩
      · exact ⟨_, List.mem_cons_self, he⟩
      · exact ⟨f, List.mem_cons_of_mem _ hf, he⟩

lemma parent_indexedAll (i : Nat) (anc : List Nat) (path : List String) :
    ∀ (states : List (String × StateDef)) (e : Placed × Nat),
      e ∈ indexedAll names i anc path states →
      e.1.node.ancestors = anc ∨ ∃ f ∈ indexedAll names i anc path states,
        e.1.node.ancestors = f.2 :: f.1.node.ancestors
  | [], e, h => absurd h List.not_mem_nil
  | (key, s) :: rest, e, h => by
    rw [indexedAll_cons] at h ⊢
    rcases List.mem_append.1 h with h | h
    · by_cases he : e.2 = i
      · exact .inl ((indexed_top i anc _ s h).2 he)
      · obtain ⟨f, hf, he⟩ := parent_indexed i anc (path ++ [key]) s e h he
        exact .inr ⟨f, List.mem_append_left _ hf, he⟩
    · rcases parent_indexedAll (i + s.size) anc path rest e h with he | ⟨f, hf, he⟩
      · exact .inl he
      · exact .inr ⟨f, List.mem_append_right _ hf, he⟩

end

mutual

lemma mem_place (i : Nat) (anc : List Nat) (path : List String) :
    ∀ (s : StateDef) (p : Placed), p ∈ place names i anc path s →
      ∃ j l q t, p = ⟨t.toStateBody, nodeAt names j l q t⟩
  | ⟨body, states⟩, p, h => by
    rw [place, List.mem_cons] at h
    rcases h with rfl | h
    · exact ⟨i, anc, path, ⟨body, states⟩, rfl⟩
    · exact mem_placeAll (i + 1) (i :: anc) path states p h

lemma mem_placeAll (i : Nat) (anc : List Nat) (path : List String) :
    ∀ (states : List (String × StateDef)) (p : Placed), p ∈ placeAll names i anc path states →
      ∃ j l q t, p = ⟨t.toStateBody, nodeAt names j l q t⟩
  | [], p, h => absurd h List.not_mem_nil
  | (key, s) :: rest, p, h => by
    rw [placeAll, List.mem_append] at h
    rcases h with h | h
    · exact mem_place i anc (path ++ [key]) s p h
    · exact mem_placeAll (i + s.size) anc path rest p h

end

lemma get?_mem {ν : Type} {l : List (String × ν)} {key : String} {v : ν}
    (h : Keyed.get? l key = some v) : v ∈ l.map Prod.snd := by
  induction l with
  | nil => simp [Keyed.get?] at h
  | cons e l ih =>
    obtain ⟨k, w⟩ := e
    by_cases hk : k = key
    · simp only [Keyed.get?, hk, if_true, Option.some.injEq] at h
      simp [h]
    · simp only [Keyed.get?, hk, if_false] at h
      exact List.mem_cons_of_mem _ (ih h)

lemma initial_mem_children {i : Nat} {anc : List Nat} {path : List String} {s : StateDef}
    {p : Placed} (h : p ∈ place names i anc path s) {initial : Nat}
    (hi : p.node.initial = some initial) :
    initial ∈ p.node.children := by
  obtain ⟨j, l, q, t, rfl⟩ := mem_place i anc path s p h
  simp only [nodeAt, initialIndex?] at hi
  split at hi
  · obtain ⟨key, _, hk⟩ := Option.bind_eq_some_iff.1 hi
    exact get?_mem hk
  · exact absurd hi (by simp)

lemma children_pairwise {i : Nat} {anc : List Nat} {path : List String} {s : StateDef} {p : Placed}
    (h : p ∈ place names i anc path s) : p.node.children.Pairwise (· < ·) := by
  obtain ⟨j, l, q, t, rfl⟩ := mem_place i anc path s p h
  exact childIndices_pairwise (j + 1) t.states

def chartOf (names : Naming) (delimiter : String) (s : StateDef) : Chart :=
  ⟨delimiter, (place names rootId [] [] s).map Placed.node⟩

variable (names) (delimiter : String) (s : StateDef)

lemma size_chartOf : (chartOf names delimiter s).size = s.size := by
  simp [chartOf, Chart.size, length_place]

variable {names delimiter s}

lemma exists_indexed (names : Naming) (delimiter : String) {n : Nat} (hn : n < s.size) :
    ∃ e ∈ indexed names rootId [] [] s, e.2 = n ∧
      (chartOf names delimiter s).node n = e.1.node := by
  have hl : n < (place names rootId [] [] s).length := by rwa [length_place]
  refine ⟨((place names rootId [] [] s)[n], n), ?_, rfl, ?_⟩
  · exact List.mem_zipIdx_iff_getElem?.2 (List.getElem?_eq_getElem hl)
  · simp [Chart.node, chartOf, List.getD_eq_getElem?_getD, hl]

lemma node_indexed {e : Placed × Nat} (h : e ∈ indexed names rootId [] [] s) :
    (chartOf names delimiter s).node e.2 = e.1.node := by
  have := List.mem_zipIdx_iff_getElem?.1 h
  simp [Chart.node, chartOf, List.getD_eq_getElem?_getD, this]

lemma ancestors_nil_of_size_le {n : Nat} (hn : s.size ≤ n) :
    ((chartOf names delimiter s).node n).ancestors = [] := by
  rw [Chart.node_of_size_le (by rwa [size_chartOf])]
  rfl

lemma isDescendant_chartOf (n a : Nat) :
    (chartOf names delimiter s).isDescendant n a = true ↔
      (chartOf names delimiter s).Below n a := by
  simp only [Chart.isDescendant, Bool.and_eq_true, decide_eq_true_eq, Chart.Below]
  by_cases ha : a < s.size
  · obtain ⟨f, hf, rfl, hfn⟩ := exists_indexed names delimiter ha
    by_cases hn : n < s.size
    · obtain ⟨e, he, rfl, hen⟩ := exists_indexed names delimiter hn
      rw [hen, hfn]
      exact (mem_ancestors_indexed rootId [] [] (by simp) s e f he hf).symm
    · have hend := (subtreeEnd_indexed rootId [] [] s f hf).1
      rw [ancestors_nil_of_size_le (by omega), hfn]
      simp only [rootId] at hend
      refine iff_of_false (fun h => ?_) List.not_mem_nil
      have h : n < f.1.node.subtreeEnd := h.2
      omega
  · rw [Chart.node_of_size_le (n := a) (by rw [size_chartOf]; omega)]
    refine iff_of_false (fun h => Nat.not_lt_zero n h.2) (fun h => ?_)
    have hn : n < s.size := by
      by_contra hn
      rw [ancestors_nil_of_size_le (by omega)] at h
      exact List.not_mem_nil h
    obtain ⟨e, he, rfl, hen⟩ := exists_indexed names delimiter hn
    obtain ⟨l, hl, hr, _⟩ := ancestors_indexed rootId [] [] s e he
    rw [hen, hl, List.append_nil] at h
    have := hr a h
    simp only [rootId] at this
    omega

lemma root_chartOf : ((chartOf names delimiter s).node rootId).ancestors = [] := by
  obtain ⟨e, he, h0, hn⟩ := exists_indexed names delimiter (size_pos s)
  rw [show rootId = 0 from rfl, hn]
  exact (indexed_top rootId [] [] s he).2 h0

lemma parent_chartOf (names : Naming) (delimiter : String) {n : Nat} (hn : n < s.size)
    (hne : n ≠ rootId) :
    ∃ p : Nat, p < s.size ∧ ((chartOf names delimiter s).node n).ancestors =
      p :: ((chartOf names delimiter s).node p).ancestors := by
  obtain ⟨e, he, rfl, hnode⟩ := exists_indexed names delimiter hn
  obtain ⟨f, hf, h⟩ := parent_indexed rootId [] [] s e he hne
  refine ⟨f.2, ?_, ?_⟩
  · have := mem_indexed_range hf
    simpa [rootId] using this.2
  · rw [hnode, h, node_indexed hf]

lemma parent_of_child_chartOf {n p : Nat}
    (h : n ∈ ((chartOf names delimiter s).node p).children) :
    ((chartOf names delimiter s).node n).parent? = some p := by
  have hp : p < s.size := by
    by_contra hp
    rw [Chart.node_of_size_le (n := p) (by rw [size_chartOf]; omega)] at h
    exact List.not_mem_nil h
  obtain ⟨f, hf, rfl, hfn⟩ := exists_indexed names delimiter hp
  rw [hfn] at h
  have hsub := subtreeEnd_indexed rootId [] [] s f hf
  have hn := hsub.2 n h
  simp only [rootId] at hsub
  obtain ⟨e, he, rfl, hen⟩ :=
    exists_indexed names delimiter (s := s) (n := n) (by omega)
  have := (mem_children_indexed rootId [] [] (by simp) s e f he hf).1 h
  simp [StateNode.parent?, hen, this]

lemma child_of_parent_chartOf {n p : Nat}
    (h : ((chartOf names delimiter s).node n).parent? = some p) :
    n ∈ ((chartOf names delimiter s).node p).children := by
  have hn : n < s.size := by
    by_contra hn
    rw [StateNode.parent?, ancestors_nil_of_size_le (by omega)] at h
    exact absurd h (by simp)
  have hne : n ≠ rootId := by
    rintro rfl
    rw [StateNode.parent?, root_chartOf] at h
    exact absurd h (by simp)
  obtain ⟨q, hq, hqa⟩ := parent_chartOf names delimiter hn hne
  obtain rfl : q = p := by simpa [StateNode.parent?, hqa] using h
  obtain ⟨e, he, rfl, hen⟩ := exists_indexed names delimiter hn
  obtain ⟨f, hf, rfl, hfn⟩ := exists_indexed names delimiter hq
  rw [hen, hfn] at hqa
  rw [hfn]
  exact (mem_children_indexed rootId [] [] (by simp) s e f he hf).2 hqa

lemma isTree_chartOf : (chartOf names delimiter s).IsTree := by
  refine ⟨root_chartOf, fun n hn hne => ?_, isDescendant_chartOf, fun n p => ?_⟩
  · obtain ⟨p, _, hp⟩ := parent_chartOf names delimiter
      (by rwa [size_chartOf] at hn) hne
    exact ⟨p, hp⟩
  · exact ⟨parent_of_child_chartOf, child_of_parent_chartOf⟩

end Statechart.StateDef
