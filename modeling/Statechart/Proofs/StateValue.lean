import Mathlib.Data.List.Nodup
import Mathlib.Tactic.Common
import Statechart.StateValue

/-! Containment of state values. A value describes paths of keys, each of them once, and it contains
another value if it describes all of its paths. -/

namespace Statechart

variable {path rest : List String}

namespace Keyed

variable {ν : Type} {l : List (String × ν)} {key : String} {value : ν}

lemma isSome_get? : (get? l key).isSome ↔ ∃ value, (key, value) ∈ l := by
  induction l with
  | nil => simp [get?]
  | cons e l ih =>
    obtain ⟨k, v⟩ := e
    rw [get?]
    split
    · rename_i hk
      exact iff_of_true rfl ⟨v, hk ▸ List.mem_cons_self⟩
    · rename_i hk
      simp only [ih, List.mem_cons, Prod.mk.injEq, Ne.symm hk, false_and, false_or]

lemma get?_eq_some_iff (h : (keys l).Nodup) : get? l key = some value ↔ (key, value) ∈ l := by
  induction l with
  | nil => simp [get?]
  | cons e l ih =>
    obtain ⟨k, v⟩ := e
    obtain ⟨hk, hl⟩ := List.nodup_cons.1 h
    rw [get?]
    split
    · rename_i he
      subst he
      have hnone : (k, value) ∉ l := fun hmem => hk (List.mem_map.2 ⟨_, hmem, rfl⟩)
      simp [hnone, eq_comm]
    · rename_i hne
      rw [ih hl, List.mem_cons, Prod.mk.injEq]
      exact (or_iff_right fun he => hne he.1.symm).symm

end Keyed

namespace StateTree

variable {s t u : StateTree}

def entries : StateTree → List (String × StateTree)
  | .leaf key => [(key, .branch [])]
  | .branch entries => entries

mutual

theorem entries_induction {motive : StateTree → Prop}
    (h : ∀ t, (∀ e ∈ t.entries, motive e.2) → motive t) : ∀ t, motive t
  | .leaf _ => by
    refine h _ fun e he => ?_
    obtain rfl := List.mem_singleton.1 he
    exact h _ fun _ he => absurd he List.not_mem_nil
  | .branch l => h _ (entries_inductionAll h l)

theorem entries_inductionAll {motive : StateTree → Prop}
    (h : ∀ t, (∀ e ∈ t.entries, motive e.2) → motive t) :
    ∀ l : List (String × StateTree), ∀ e ∈ l, motive e.2
  | [], _, he => absurd he List.not_mem_nil
  | (_, t) :: l, e, he => by
    rcases List.mem_cons.1 he with rfl | he
    · exact entries_induction h t
    · exact entries_inductionAll h l e he

end

lemma Sorted.nodup (h : t.Sorted) : (Keyed.keys t.entries).Nodup := by
  cases t with
  | leaf key => exact List.nodup_singleton key
  | branch l =>
    refine List.pairwise_map.2 (h.1.imp fun hlt he => ?_)
    exact Std.lt_irrefl (he ▸ hlt)

lemma Sorted.entry (h : t.Sorted) {e : String × StateTree} (he : e ∈ t.entries) : e.2.Sorted := by
  cases t with
  | leaf key =>
    obtain rfl := List.mem_singleton.1 he
    exact ⟨List.Pairwise.nil, trivial⟩
  | branch l => exact sortedAll_iff.1 h.2 e he

lemma mem_keyPathsAll {l : List (String × StateTree)} : path ∈ keyPathsAll l ↔
    ∃ e ∈ l, ∃ rest, path = e.1 :: rest ∧ (rest = [] ∨ rest ∈ e.2.keyPaths) := by
  induction l with
  | nil => simp [keyPathsAll]
  | cons e l ih =>
    rw [keyPathsAll, List.mem_append, List.mem_cons, ih, List.exists_mem_cons_iff]
    refine or_congr_left ⟨?_, ?_⟩
    · rintro (rfl | h)
      · exact ⟨[], rfl, .inl rfl⟩
      · obtain ⟨rest, hrest, rfl⟩ := List.mem_map.1 h
        exact ⟨rest, rfl, .inr hrest⟩
    · rintro ⟨rest, rfl, rfl | hrest⟩
      · exact .inl rfl
      · exact .inr (List.mem_map_of_mem hrest)

lemma mem_keyPaths : path ∈ t.keyPaths ↔
    ∃ e ∈ t.entries, ∃ rest, path = e.1 :: rest ∧ (rest = [] ∨ rest ∈ e.2.keyPaths) := by
  cases t with
  | leaf key => simp [keyPaths, entries, keyPathsAll]
  | branch l => exact mem_keyPathsAll

lemma cons_mem_keyPaths {key : String} : key :: path ∈ t.keyPaths ↔
    ∃ e ∈ t.entries, e.1 = key ∧ (path = [] ∨ path ∈ e.2.keyPaths) := by
  rw [mem_keyPaths]
  simp [eq_comm]

lemma nil_not_mem_keyPaths : [] ∉ t.keyPaths := by
  intro h
  obtain ⟨_, _, _, h, _⟩ := mem_keyPaths.1 h
  exact List.cons_ne_nil _ _ h.symm

lemma mem_keyPaths_of_isPrefix (h : path ∈ t.keyPaths) (hrest : rest <+: path)
    (hne : rest ≠ []) : rest ∈ t.keyPaths := by
  induction rest generalizing t path with
  | nil => exact absurd rfl hne
  | cons key rest ih =>
    obtain ⟨path, rfl⟩ := hrest
    rw [List.cons_append, cons_mem_keyPaths] at h
    obtain ⟨e, he, hkey, hpath⟩ := h
    refine cons_mem_keyPaths.2 ⟨e, he, hkey, ?_⟩
    by_cases hrest : rest = []
    · exact .inl hrest
    · have hmem := hpath.resolve_left (by simp [hrest])
      exact .inr (ih hmem (List.prefix_append rest path) hrest)

lemma nodup_keyPathsAll {l : List (String × StateTree)} (hl : (Keyed.keys l).Nodup)
    (h : ∀ e ∈ l, e.2.keyPaths.Nodup) : (keyPathsAll l).Nodup := by
  induction l with
  | nil => exact List.nodup_nil
  | cons e l ih =>
    obtain ⟨key, t⟩ := e
    obtain ⟨hkey, hl⟩ := List.nodup_cons.1 hl
    rw [keyPathsAll, List.nodup_append']
    refine ⟨List.nodup_cons.2 ⟨fun hnil => ?_, ?_⟩, ih hl fun e he => h e (.tail _ he), ?_⟩
    · obtain ⟨rest, hrest, he⟩ := List.mem_map.1 hnil
      rw [List.cons.injEq] at he
      exact nil_not_mem_keyPaths (he.2 ▸ hrest)
    · exact (h _ List.mem_cons_self).map List.cons_injective
    · intro path hpath hothers
      obtain ⟨e, he, rest, rfl, _⟩ := mem_keyPathsAll.1 hothers
      have hstart : e.1 = key := by
        rcases List.mem_cons.1 hpath with h | h
        · exact (List.cons.inj h).1
        · obtain ⟨_, _, h⟩ := List.mem_map.1 h
          exact (List.cons.inj h).1.symm
      exact hkey (List.mem_map.2 ⟨e, he, hstart⟩)

lemma nodup_keyPaths (h : t.Sorted) : t.keyPaths.Nodup := by
  induction t using entries_induction with
  | h t ih =>
    cases t with
    | leaf key => exact List.nodup_singleton _
    | branch l => exact nodup_keyPathsAll h.nodup fun e he => ih e he (h.entry he)

lemma contains_empty : s.contains (.branch []) := by
  cases s <;> rfl

lemma empty_contains : (branch []).contains t ↔ t = .branch [] := by
  cases t with
  | leaf key => simp [contains, Keyed.get?]
  | branch l =>
    cases l with
    | nil => simp [contains, containsAll]
    | cons e l => simp [contains, containsAll, Keyed.get?]

lemma leaf_contains_branch {a : String} {l : List (String × StateTree)} :
    (leaf a).contains (.branch l) ↔ l = [] ∨ l = [(a, .branch [])] := by
  match l with
  | [] => exact iff_of_true rfl (.inl rfl)
  | [(b, .leaf key)] => exact iff_of_false Bool.false_ne_true (by simp)
  | [(b, .branch [])] => exact beq_iff_eq.trans (by simp [eq_comm])
  | [(b, .branch (e :: l))] => exact iff_of_false Bool.false_ne_true (by simp)
  | (b, .leaf key) :: e' :: l => exact iff_of_false Bool.false_ne_true (by simp)
  | (b, .branch []) :: e' :: l => exact iff_of_false Bool.false_ne_true (by simp)
  | (b, .branch (e :: l')) :: e' :: l => exact iff_of_false Bool.false_ne_true (by simp)

lemma containsAll_iff {l others : List (String × StateTree)} : containsAll l others ↔
    ∀ e ∈ others, ∃ u, Keyed.get? l e.1 = some u ∧ u.contains e.2 := by
  induction others with
  | nil => simp [containsAll]
  | cons e others ih =>
    rw [containsAll, Bool.and_eq_true, ih, List.forall_mem_cons]
    cases Keyed.get? l e.1 <;> simp

lemma contains_iff (hs : s.Sorted) (ht : t.Sorted) :
    s.contains t ↔ ∀ e ∈ t.entries, ∃ u, (e.1, u) ∈ s.entries ∧ u.contains e.2 := by
  cases s with
  | leaf a =>
    cases t with
    | leaf b =>
      change a == b ↔ _
      rw [beq_iff_eq]
      constructor
      · rintro rfl
        simp [entries, contains_empty]
      · intro h
        obtain ⟨u, hu, _⟩ := h (b, .branch []) List.mem_cons_self
        exact (Prod.mk.inj (List.mem_singleton.1 hu)).1.symm
    | branch l =>
      rw [leaf_contains_branch]
      constructor
      · rintro (rfl | rfl) <;> simp [entries, contains_empty]
      · intro h
        have hall : ∀ e ∈ l, e = (a, .branch []) := by
          intro e he
          obtain ⟨u, hu, hcontains⟩ := h e he
          obtain ⟨rfl, rfl⟩ := Prod.mk.inj (List.mem_singleton.1 hu)
          rw [empty_contains] at hcontains
          exact Prod.ext rfl hcontains
        cases l with
        | nil => exact .inl rfl
        | cons e l =>
          have hnil : l = [] := by
            apply List.eq_nil_iff_forall_not_mem.2
            intro e' he'
            have hsame : e'.1 = e.1 := by rw [hall e' (.tail _ he'), hall e List.mem_cons_self]
            exact (List.nodup_cons.1 ht.nodup).1 (List.mem_map.2 ⟨e', he', hsame⟩)
          rw [hnil, hall e List.mem_cons_self]
          exact .inr rfl
  | branch l =>
    cases t with
    | leaf b =>
      rw [contains, Keyed.isSome_get?]
      simp [entries, contains_empty]
    | branch others =>
      rw [contains, containsAll_iff]
      refine forall₂_congr fun e _ => exists_congr fun u => and_congr_left fun _ => ?_
      exact Keyed.get?_eq_some_iff hs.nodup

lemma contains_iff_keyPaths (hs : s.Sorted) (ht : t.Sorted) :
    s.contains t ↔ t.keyPaths ⊆ s.keyPaths := by
  induction t using entries_induction generalizing s with
  | h t ih =>
    rw [contains_iff hs ht]
    constructor
    · intro h path hpath
      obtain ⟨e, he, rest, rfl, hrest⟩ := mem_keyPaths.1 hpath
      obtain ⟨u, hu, hcontains⟩ := h e he
      have hsub := (ih e he (hs.entry hu) (ht.entry he)).1 hcontains
      exact mem_keyPaths.2 ⟨_, hu, rest, rfl, hrest.imp_right fun hrest => hsub hrest⟩
    · intro h e he
      have hkey : [e.1] ∈ t.keyPaths := mem_keyPaths.2 ⟨e, he, [], rfl, .inl rfl⟩
      obtain ⟨d, hd, _, hde, _⟩ := mem_keyPaths.1 (h hkey)
      obtain ⟨key, u⟩ := d
      obtain ⟨rfl, _⟩ := List.cons.inj hde
      refine ⟨u, hd, (ih e he (hs.entry hd) (ht.entry he)).2 fun rest hrest => ?_⟩
      have hpath : e.1 :: rest ∈ t.keyPaths := mem_keyPaths.2 ⟨e, he, rest, rfl, .inr hrest⟩
      obtain ⟨d, hd', rest', hde, hrest'⟩ := mem_keyPaths.1 (h hpath)
      obtain ⟨hkey, rfl⟩ := List.cons.inj hde
      obtain rfl := List.inj_on_of_nodup_map hs.nodup hd hd' hkey
      exact hrest'.resolve_left fun hnil => nil_not_mem_keyPaths (hnil ▸ hrest)

end StateTree

namespace StateValue

variable {v : StateValue} {segments : List String}

lemma entries_ofSegments (key : String) (segments : List String) :
    (ofSegments (key :: segments)).tree.entries = [(key, (ofSegments segments).tree)] := by
  cases segments <;> rfl

lemma mem_keyPaths_ofSegments :
    path ∈ (ofSegments segments).tree.keyPaths ↔ path ≠ [] ∧ path <+: segments := by
  induction segments generalizing path with
  | nil =>
    refine iff_of_false List.not_mem_nil ?_
    rintro ⟨hne, hprefix⟩
    exact hne (List.prefix_nil.1 hprefix)
  | cons key segments ih =>
    cases path with
    | nil => exact iff_of_false StateTree.nil_not_mem_keyPaths fun h => h.1 rfl
    | cons first path =>
      rw [StateTree.cons_mem_keyPaths, entries_ofSegments]
      by_cases hnil : path = [] <;> simp [ih, hnil, eq_comm]

lemma contains_ofSegments :
    v.contains (ofSegments segments) ↔ segments = [] ∨ segments ∈ v.tree.keyPaths := by
  rw [contains, StateTree.contains_iff_keyPaths v.sorted (ofSegments segments).sorted]
  constructor
  · intro h
    refine or_iff_not_imp_left.2 fun hne => h ?_
    exact mem_keyPaths_ofSegments.2 ⟨hne, List.prefix_rfl⟩
  · rintro (rfl | hmem) path hpath
    · obtain ⟨hne, hprefix⟩ := mem_keyPaths_ofSegments.1 hpath
      exact absurd (List.prefix_nil.1 hprefix) hne
    · obtain ⟨hne, hprefix⟩ := mem_keyPaths_ofSegments.1 hpath
      exact StateTree.mem_keyPaths_of_isPrefix hmem hprefix hne

/-- Containing a value is describing all of its paths, hence a preorder. -/
theorem contains_iff_subset_paths :
    (∀ v w : StateValue, v.contains w ↔ w.tree.keyPaths ⊆ v.tree.keyPaths) ∧
      (∀ v : StateValue, v.contains v) ∧
        ∀ u v w : StateValue, u.contains v → v.contains w → u.contains w := by
  have hiff (v w : StateValue) : v.contains w ↔ w.tree.keyPaths ⊆ v.tree.keyPaths :=
    StateTree.contains_iff_keyPaths v.sorted w.sorted
  refine ⟨hiff, fun v => (hiff v v).2 (List.Subset.refl _), fun u v w huv hvw => ?_⟩
  exact (hiff u w).2 (List.Subset.trans ((hiff v w).1 hvw) ((hiff u v).1 huv))

def transfer : StateValue := .branch (.ofList
  [("upload", .leaf "pending"), ("download", .branch (.ofList [("fetching", .branch .empty)]))])

theorem transfer_contains : transfer.contains (.ofSegments ["download", "fetching"]) ∧
    (ofSegments ["download", "fetching"]).contains (.ofSegments ["download"]) ∧
      transfer.contains (.ofSegments ["download"]) := by
  have hfetching : transfer.contains (.ofSegments ["download", "fetching"]) := by decide +kernel
  have hdownload : (ofSegments ["download", "fetching"]).contains (.ofSegments ["download"]) := by
    decide +kernel
  exact ⟨hfetching, hdownload, contains_iff_subset_paths.2.2 _ _ _ hfetching hdownload⟩

end StateValue

end Statechart
