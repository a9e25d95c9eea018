import Mathlib.Data.List.Nodup
import Mathlib.Tactic.Common
import Statechart.Proofs.Configuration.Resolution
import Statechart.Proofs.Machine.Keys
import Statechart.Proofs.SortedMap
import Statechart.Proofs.StateValue
import Statechart.Proofs.Text.Split

/-! State values describe configurations. The paths to the leaves of the value of a legal
configuration lead to active states, and all that is active lies above one of these. -/

namespace Statechart

variable {path : List String}

lemma exists_mapM {α β : Type} {f : α → Option β} {l : List α} (h : ∀ a ∈ l, ∃ b, f a = some b) :
    ∃ bs, l.mapM f = some bs ∧ ∀ b, b ∈ bs ↔ ∃ a ∈ l, f a = some b := by
  induction l with
  | nil => exact ⟨[], rfl, by simp⟩
  | cons a l ih =>
    obtain ⟨b, hb⟩ := h a List.mem_cons_self
    obtain ⟨bs, hbs, hmem⟩ := ih fun a ha => h a (List.mem_cons_of_mem _ ha)
    refine ⟨b :: bs, by rw [List.mapM_cons, hb, hbs]; rfl, fun b' => ?_⟩
    rw [List.mem_cons, hmem, List.exists_mem_cons_iff, hb, Option.some.injEq, eq_comm]

namespace StateTree

lemma mem_leafPathsAll {entries : List (String × StateTree)} :
    path ∈ leafPathsAll entries ↔ ∃ e ∈ entries, ∃ rest ∈ e.2.leafPaths, path = e.1 :: rest := by
  induction entries with
  | nil => simp [leafPathsAll]
  | cons e entries ih =>
    rw [leafPathsAll, List.mem_append, ih]
    simp [eq_comm]

lemma mem_leafPaths {t : StateTree} : path ∈ t.leafPaths ↔ (t.entries = [] ∧ path = []) ∨
    ∃ e ∈ t.entries, ∃ rest ∈ e.2.leafPaths, path = e.1 :: rest := by
  cases t with
  | leaf key => simp [leafPaths, entries]
  | branch l =>
    cases l with
    | nil => simp [leafPaths, entries]
    | cons e l =>
      simp only [leafPaths, entries, mem_leafPathsAll, reduceCtorEq, false_and, false_or]

end StateTree

namespace Chart

variable {c : Chart} {s : Configuration} {n x y child : NodeId} {depth : Nat}

def activeChildren (c : Chart) (s : Configuration) (n : NodeId) : List NodeId :=
  (c.regularChildren n).filter (· ∈ s)

def shown (c : Chart) (s : Configuration) (depth : Nat) (child : NodeId) : StateValue :=
  if (c.node child).isAtomic then .branch .empty else c.valueWithin s depth child

lemma valueWithin_of_isParallel (hp : (c.node n).isParallel) :
    c.valueWithin s (depth + 1) n = .branch (.ofList ((c.activeChildren s n).map fun child =>
      ((c.node child).key, c.shown s depth child))) := by
  rw [valueWithin, if_pos hp]
  rfl

lemma valueWithin_of_nil (hp : (c.node n).isParallel = false) (h : c.activeChildren s n = []) :
    c.valueWithin s (depth + 1) n = .branch .empty := by
  rw [activeChildren] at h
  simp only [valueWithin, hp, h, Bool.false_eq_true, if_false]

lemma entries_of_cons {others : List NodeId} (hp : (c.node n).isParallel = false)
    (h : c.activeChildren s n = child :: others) : (c.valueWithin s (depth + 1) n).tree.entries =
      [((c.node child).key, (c.shown s depth child).tree)] := by
  rw [activeChildren] at h
  simp only [valueWithin, hp, h, Bool.false_eq_true, if_false, shown]
  split <;> rfl

lemma depth_child {n child size depth : Nat} (h : n < child) (hsize : child < size)
    (hdepth : size - n ≤ depth + 1) : size - child ≤ depth ∧ depth ≠ 0 := by
  omega

lemma mem_activeChildren (hs : c.Legal s) :
    child ∈ c.activeChildren s n ↔ child ∈ (c.node n).children ∧ child ∈ s := by
  rw [activeChildren, List.mem_filter, mem_regularChildren, decide_eq_true_eq]
  refine ⟨fun h => ⟨h.1.1, h.2⟩, fun h => ⟨⟨h.1, hs.regular child h.2⟩, h.2⟩⟩

lemma nodup_activeChildren (hk : c.KeysDistinct) :
    ((c.activeChildren s n).map fun child => (c.node child).key).Nodup := by
  have hsub : (c.activeChildren s n).Sublist (c.node n).children :=
    List.filter_sublist.trans List.filter_sublist
  exact (hk n).sublist (hsub.map _)

section

variable (hw : c.WellFormed) (hs : c.Legal s)

include hw

lemma valueWithin_of_isAtomic (ha : (c.node n).isAtomic) :
    c.valueWithin s (depth + 1) n = .branch .empty := by
  have hc : (c.node n).isCompound = false ∧ (c.node n).isParallel = false := by
    cases hkind : (c.node n).kind <;>
      simp_all [StateNode.isAtomic, StateNode.isCompound, StateNode.isParallel]
  have hnone : c.regularChildren n = [] := by rw [regularChildren, hw.leaf n hc.1 hc.2]; rfl
  rw [valueWithin, hnone, if_neg (by simp [hc.2])]
  rfl

include hs

lemma activeChild_unique (hn : n ∈ s) (hp : (c.node n).isParallel = false)
    (hx : x ∈ c.activeChildren s n) (hy : y ∈ c.activeChildren s n) : x = y := by
  rw [mem_activeChildren hs] at hx hy
  have hc := (isCompound_or_isParallel_of_child hw hx.1).resolve_right (by simp [hp])
  exact (hs.compound n hn hc).unique hx hy

omit hs in
lemma shown_eq (hchild : child ∈ c.activeChildren s n) (hdepth : c.size - n ≤ depth + 1) :
    c.shown s depth child = c.valueWithin s depth child := by
  have hb := regularChild_below hw.toIsTree (List.mem_filter.1 hchild).1
  obtain ⟨_, hpos⟩ := depth_child (below_lt hw.toIsTree hb) (below_size hb) hdepth
  obtain ⟨depth, rfl⟩ := Nat.exists_eq_succ_of_ne_zero hpos
  rw [shown]
  split
  · rename_i ha
    exact (valueWithin_of_isAtomic hw ha).symm
  · rfl

lemma mem_entries_valueWithin (hk : c.KeysDistinct) (hn : n ∈ s) (hdepth : c.size - n ≤ depth + 1)
    {e : String × StateTree} : e ∈ (c.valueWithin s (depth + 1) n).tree.entries ↔
      ∃ child ∈ c.activeChildren s n,
        e = ((c.node child).key, (c.valueWithin s depth child).tree) := by
  have hshown : e ∈ (c.valueWithin s (depth + 1) n).tree.entries ↔
      ∃ child ∈ c.activeChildren s n, e = ((c.node child).key, (c.shown s depth child).tree) := by
    cases hp : (c.node n).isParallel with
    | true =>
      have hkeys := nodup_activeChildren (s := s) (n := n) hk
      have hperm := SortedMap.ofList_perm (l := (c.activeChildren s n).map fun child =>
        ((c.node child).key, c.shown s depth child)) (by rwa [List.map_map])
      rw [valueWithin_of_isParallel hp, StateValue.branch, StateTree.entries,
        (hperm.map _).mem_iff, List.map_map, List.mem_map]
      exact exists_congr fun child => and_congr_right fun _ => eq_comm
    | false =>
      cases hactive : c.activeChildren s n with
      | nil =>
        rw [valueWithin_of_nil hp hactive]
        refine iff_of_false List.not_mem_nil ?_
        rintro ⟨child, hchild, _⟩
        exact List.not_mem_nil hchild
      | cons child others =>
        have hone : ∀ x, x ∈ child :: others ↔ x = child := by
          intro x
          refine ⟨fun hx => ?_, fun hx => hx ▸ List.mem_cons_self⟩
          exact activeChild_unique hw hs hn hp (hactive ▸ hx) (hactive ▸ List.mem_cons_self)
        rw [entries_of_cons hp hactive, List.mem_singleton]
        simp only [hone, exists_eq_left]
  rw [hshown]
  refine exists_congr fun child => and_congr_right fun hchild => ?_
  rw [shown_eq hw hchild hdepth]

lemma mem_leafPaths_valueWithin (hk : c.KeysDistinct) (hn : n ∈ s)
    (hdepth : c.size - n ≤ depth + 1) :
    path ∈ (c.valueWithin s (depth + 1) n).tree.leafPaths ↔
      (c.activeChildren s n = [] ∧ path = []) ∨ ∃ child ∈ c.activeChildren s n,
        ∃ rest ∈ (c.valueWithin s depth child).tree.leafPaths,
          path = (c.node child).key :: rest := by
  have hentries := fun e => mem_entries_valueWithin hw hs hk hn hdepth (e := e)
  have hnil : (c.valueWithin s (depth + 1) n).tree.entries = [] ↔ c.activeChildren s n = [] := by
    rw [List.eq_nil_iff_forall_not_mem, List.eq_nil_iff_forall_not_mem]
    simp only [hentries]
    exact ⟨fun h child hchild => h _ ⟨child, hchild, rfl⟩, fun h e ⟨child, hchild, _⟩ => h _ hchild⟩
  rw [StateTree.mem_leafPaths, hnil]
  refine or_congr_right ⟨?_, ?_⟩
  · rintro ⟨e, he, h⟩
    obtain ⟨child, hchild, rfl⟩ := (hentries e).1 he
    exact ⟨child, hchild, h⟩
  · rintro ⟨child, hchild, h⟩
    exact ⟨_, (hentries _).2 ⟨child, hchild, rfl⟩, h⟩

variable (hk : c.KeysDistinct) (hsize : ∀ n ∈ s, n < c.size)

include hk

omit hw hs in
lemma descend_child {rest : List String} (h : child ∈ (c.node n).children) :
    ((c.node child).key :: rest).foldlM c.child? n = rest.foldlM c.child? child := by
  rw [List.foldlM_cons, child?_key hk h]
  rfl

include hsize

lemma exists_end (hn : n ∈ s) (hdepth : c.size - n ≤ depth)
    (h : path ∈ (c.valueWithin s depth n).tree.leafPaths) :
    ∃ x ∈ s, path.foldlM c.child? n = some x := by
  induction depth generalizing n path with
  | zero => exact absurd (hsize n hn) (Nat.not_lt_of_le (Nat.sub_eq_zero_iff_le.1
      (Nat.le_zero.1 hdepth)))
  | succ depth ih =>
    rcases (mem_leafPaths_valueWithin hw hs hk hn hdepth).1 h with
      ⟨_, rfl⟩ | ⟨child, hchild, rest, hrest, rfl⟩
    · exact ⟨n, hn, rfl⟩
    · obtain ⟨hmem, hcs⟩ := (mem_activeChildren hs).1 hchild
      have hlt := below_lt hw.toIsTree (child_below hw.toIsTree hmem)
      rw [descend_child hk hmem]
      exact ih hcs (depth_child hlt (hsize child hcs) hdepth).1 hrest

lemma exists_leaf_below (hn : n ∈ s) (hdepth : c.size - n ≤ depth) (hy : y ∈ s)
    (hyn : c.Within y n) : ∃ path ∈ (c.valueWithin s depth n).tree.leafPaths,
      ∃ x, path.foldlM c.child? n = some x ∧ c.Within x y := by
  have ht := hw.toIsTree
  induction depth generalizing n y with
  | zero => exact absurd (hsize n hn) (Nat.not_lt_of_le (Nat.sub_eq_zero_iff_le.1
      (Nat.le_zero.1 hdepth)))
  | succ depth ih =>
    have hgo : ∀ child ∈ (c.node n).children, child ∈ s → ∀ z ∈ s, c.Within z child →
        c.Within z y → ∃ path ∈ (c.valueWithin s (depth + 1) n).tree.leafPaths,
          ∃ x, path.foldlM c.child? n = some x ∧ c.Within x y := by
      intro child hmem hcs z hz hzc hzy
      have hlt := below_lt ht (child_below ht hmem)
      obtain ⟨rest, hrest, x, hx, hxz⟩ :=
        ih hcs (depth_child hlt (hsize child hcs) hdepth).1 hz hzc
      refine ⟨(c.node child).key :: rest, ?_, x, ?_, hxz.trans ht hzy⟩
      · have hactive := (mem_activeChildren hs).2 ⟨hmem, hcs⟩
        exact (mem_leafPaths_valueWithin hw hs hk hn hdepth).2
          (.inr ⟨child, hactive, rest, hrest, rfl⟩)
      · rw [descend_child hk hmem, hx]
    rcases hyn with rfl | hyn
    · cases hactive : c.activeChildren s y with
      | nil =>
        refine ⟨[], ?_, y, rfl, within_self y⟩
        exact (mem_leafPaths_valueWithin hw hs hk hn hdepth).2 (.inl ⟨hactive, rfl⟩)
      | cons child others =>
        obtain ⟨hmem, hcs⟩ := (mem_activeChildren hs).1 (hactive ▸ List.mem_cons_self)
        exact hgo child hmem hcs child hcs (within_self child) (child_below ht hmem).within
    · obtain ⟨child, hmem, hyc⟩ := exists_child ht hyn
      exact hgo child hmem (mem_of_within ht hs.parent hy hyc) y hy hyc (within_self y)

end

section

variable {δ : Char}

lemma key_of_descend (ht : c.IsTree) (h : path.foldlM c.child? n = some x) :
    ∀ key ∈ path, ∃ child < c.size, child ≠ rootId ∧ (c.node child).key = key := by
  induction path generalizing n with
  | nil => exact fun _ hkey => absurd hkey List.not_mem_nil
  | cons first rest ih =>
    rw [List.foldlM_cons] at h
    obtain ⟨child, hchild, hrest⟩ := Option.bind_eq_some_iff.1 h
    obtain ⟨hmem, rfl⟩ := child?_eq_some hchild
    have hb := child_below ht hmem
    intro key hkey
    rcases List.mem_cons.1 hkey with rfl | hkey
    · refine ⟨child, below_size hb, ?_, rfl⟩
      rintro rfl
      exact not_below_root ht n hb
    · exact ih hrest key hkey

lemma findDescriptor?_join (ht : c.IsTree) (hδ : c.Separable δ) (hne : path ≠ [])
    (h : path.foldlM c.child? rootId = some x) :
    c.findDescriptor? (Text.join c.delimiter path) = some x := by
  rw [findDescriptor?, descend?, Text.segments_join hδ.delimiter hne fun key hkey => ?_]
  · exact h
  · obtain ⟨child, hlt, hroot, rfl⟩ := key_of_descend ht h key hkey
    exact hδ.keys child hlt hroot

lemma exists_ends (hw : c.WellFormed) (hk : c.KeysDistinct) (hδ : c.Separable δ) (hs : c.Legal s)
    (hsize : ∀ n ∈ s, n < c.size) :
    ∃ ends, ((c.valueOf s).leaves c.delimiter).mapM c.findDescriptor? = some ends ∧
      (∀ x ∈ ends, x ∈ s) ∧ ∀ y ∈ s, y ≠ rootId → ∃ x ∈ ends, c.Within x y := by
  have ht := hw.toIsTree
  have hdepth : c.size - rootId ≤ c.size := Nat.sub_le _ _
  have hfound : ∀ path ∈ (c.valueOf s).tree.leafPaths, ∃ x ∈ s,
      path.foldlM c.child? rootId = some x :=
    fun path hpath => exists_end hw hs hk hsize hs.root hdepth hpath
  have hleaves : ∀ leaf ∈ (c.valueOf s).leaves c.delimiter,
      ∃ x ∈ s, c.findDescriptor? leaf = some x := by
    intro leaf hleaf
    obtain ⟨path, hpath, rfl⟩ := List.mem_map.1 hleaf
    obtain ⟨hpath, hne⟩ := List.mem_filter.1 hpath
    obtain ⟨x, hx, hlead⟩ := hfound path hpath
    exact ⟨x, hx, findDescriptor?_join ht hδ (by simpa using hne) hlead⟩
  obtain ⟨ends, hends, hmem⟩ := exists_mapM fun leaf hleaf =>
    (hleaves leaf hleaf).imp fun _ h => h.2
  refine ⟨ends, hends, fun x hx => ?_, fun y hy hne => ?_⟩
  · obtain ⟨leaf, hleaf, hx⟩ := (hmem x).1 hx
    obtain ⟨x', hx', hfind⟩ := hleaves leaf hleaf
    rw [hx, Option.some.injEq] at hfind
    exact hfind ▸ hx'
  · obtain ⟨path, hpath, x, hlead, hxy⟩ :=
      exists_leaf_below hw hs hk hsize hs.root hdepth hy (within_root ht (hsize y hy))
    have hpne : path ≠ [] := by
      rintro rfl
      obtain rfl := Option.some.inj hlead
      exact hne (hxy.resolve_right (not_below_root ht y)).symm
    refine ⟨x, (hmem x).2 ⟨Text.join c.delimiter path, ?_, ?_⟩, hxy⟩
    · exact List.mem_map_of_mem (List.mem_filter.2 ⟨hpath, by simpa using hpne⟩)
    · exact findDescriptor?_join ht hδ hpne hlead

lemma resolve_of_ends (hw : c.WellFormed) (h : c.Full s) {ends : List NodeId}
    (hends : ∀ x ∈ ends, x ∈ s) (hall : ∀ y ∈ s, y ≠ rootId → ∃ x ∈ ends, c.Within x y)
    (memory : Memory) : c.resolve ends memory = s := by
  have hregular : ∀ x ∈ s, (c.node x).isHistory = false := fun x hx => (h.furnished x hx).regular
  have hgiven : c.given (.ofList ends) = s := by
    apply SortedSet.ext
    intro x
    rw [mem_given_ofList fun n hn => ⟨h.size n (hends n hn), hregular n (hends n hn)⟩]
    constructor
    · rintro (rfl | ⟨n, hn, hx⟩)
      · exact h.root
      · exact h.grounded.mem_of_within hw.toIsTree (hends n hn) hx
    · exact fun hx => (eq_or_ne x rootId).imp_right (hall x hx)
  calc c.resolve ends memory
      = c.ids.foldl (c.complete memory) (c.given (.ofList ends)) :=
        resolve_eq_foldl (fun x hx => hregular x (hends x hx)) memory
    _ = c.ids.foldl (c.complete memory) (c.given s) := by rw [hgiven, h.given_eq_self hw]
    _ = c.resolve s.elems memory := (resolve_of_regular hregular memory).symm
    _ = s := h.resolve_eq_self hw memory

end

end Chart

namespace Machine

variable {C : Type} [JsonCoded C] {d : Definition} {b : Behaviors C} {context : Option C}
  {m : Machine C} {δ : Char} {s : Configuration}

/-- Read with any memory, the value of a legal configuration gives the configuration back. -/
theorem value_restores (h : build d b context = .ok m) (hδ : m.chart.Separable δ)
    (hs : m.chart.Legal s) (hsize : ∀ n ∈ s, n < m.chart.size) (memory : Memory) :
    m.chart.configurationOf? (m.chart.valueOf s) memory = some s := by
  have hw := (wellFormed_of_build h).chart
  obtain ⟨ends, hends, hmem, hall⟩ :=
    Chart.exists_ends hw (keysDistinct_of_build h) hδ hs hsize
  have hfull : m.chart.Full s := (Chart.full_iff_consistent hw.toIsTree hsize).2 hs.consistent
  rw [Chart.configurationOf?, hends, Option.map_some,
    Chart.resolve_of_ends hw hfull hmem hall memory]

def panel : Definition := .ofRoot
  { initial := some "panel"
    states := [
      ("panel", {
        type := some .parallel
        states := [
          ("gauge", {
            initial := some "low"
            states := [("low", {}), ("high", {})] }),
          ("lamp", {}),
          ("radio", {
            initial := some "fm"
            states := [
              ("fm", {}),
              ("tuning", { type := some .parallel }),
              ("last", { history := some (.kind .deep) })] })] })] }

def panelMachine : Machine Unit := assemble panel () (link panel {}).value

lemma build_panel : build panel {} (some ()) = .ok panelMachine := rfl

lemma panel_separable : panelMachine.chart.Separable '.' := by
  refine ⟨by decide, ?_⟩
  decide

theorem panel_restored :
    panelMachine.chart.Legal (.ofList [0, 1, 2, 4, 5, 6, 8]) ∧
      ((panelMachine.chart.valueOf (.ofList [0, 1, 2, 4, 5, 6, 8])).leaves
        panelMachine.chart.delimiter) = ["panel.gauge.high", "panel.lamp", "panel.radio.tuning"] ∧
      panelMachine.chart.configurationOf?
        (panelMachine.chart.valueOf (.ofList [0, 1, 2, 4, 5, 6, 8])) (.ofList [(9, [7])]) =
          some (.ofList [0, 1, 2, 4, 5, 6, 8]) := by
  have hlegal : panelMachine.chart.Legal (.ofList [0, 1, 2, 4, 5, 6, 8]) := by decide +kernel
  refine ⟨hlegal, by decide +kernel, ?_⟩
  exact value_restores build_panel panel_separable hlegal (by decide) (.ofList [(9, [7])])

end Machine

end Statechart
