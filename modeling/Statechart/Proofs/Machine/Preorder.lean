import Mathlib.Tactic.Common
import Statechart.Proofs.Machine.Declared
import Statechart.Proofs.Machine.Ids
import Statechart.Proofs.Machine.Paths

/-! Built charts as preorders. What a state stores about others, be it parents, children, keys,
paths, ids or the end of its subtree, tells of the one tree that is declared. -/

namespace Statechart

namespace Chart

structure LaidOut (c : Chart) (s : StateDef) : Prop where
  nonempty : 0 < c.size
  parentless : ∀ n < c.size, (c.node n).parent? = none ↔ n = rootId
  children : ∀ n x, x ∈ (c.node n).children ↔ x < c.size ∧ (c.node x).parent? = some n
  sorted : ∀ n, (n :: (c.node n).children).Pairwise (· < ·)
  declared : ∀ n < c.size, ∃ t, s.at? (c.node n).path = some t ∧
    ((c.node n).children.map fun x => (c.node x).key) = Keyed.keys t.states
  keys : ∀ n, ((c.node n).children.map fun x => (c.node x).key).Nodup
  root_path : (c.node rootId).path = []
  path : ∀ x p, (c.node x).parent? = some p → (c.node x).path = (c.node p).path ++ [(c.node x).key]
  descendant : ∀ x y, c.isDescendant x y = true ↔
    Relation.TransGen (fun n p => (c.node n).parent? = some p) x y
  ids : ∀ n < c.size, ∀ x < c.size, (c.node n).id = (c.node x).id → n = x
  find : ∀ n < c.size, c.find? (c.node n).id = some n
  initial : ∀ n, (c.node n).isCompound → ∃ i ∈ (c.node n).children, (c.node n).initial = some i
  leaf : ∀ n, (c.node n).isHistory ∨ (c.node n).isAtomic → (c.node n).children = []

variable {c : Chart} {n x : NodeId}

lemma parent?_eq_none_iff (ht : c.IsTree) (hn : n < c.size) :
    (c.node n).parent? = none ↔ n = rootId := by
  refine ⟨fun h => by_contra fun hne => ?_, ?_⟩
  · obtain ⟨p, hp, _⟩ := exists_parent ht (below_root ht hn hne)
    exact absurd (h.symm.trans hp) (by simp)
  · rintro rfl
    rw [StateNode.parent?, ht.root, List.head?_nil]

lemma mem_children_iff (ht : c.IsTree) :
    x ∈ (c.node n).children ↔ x < c.size ∧ (c.node x).parent? = some n := by
  rw [ht.mem_children]
  exact ⟨fun h => ⟨below_size (below_parent ht h), h⟩, And.right⟩

lemma WellFormed.children_eq_nil (hw : c.WellFormed)
    (h : (c.node n).isHistory ∨ (c.node n).isAtomic) : (c.node n).children = [] := by
  have hkind : (c.node n).isCompound = false ∧ (c.node n).isParallel = false := by
    cases hk : (c.node n).kind <;>
      simp [StateNode.isHistory, StateNode.historyKind?, StateNode.isAtomic,
        StateNode.isCompound, StateNode.isParallel, hk] at h ⊢
  exact hw.leaf n hkind.1 hkind.2

end Chart

namespace Machine

variable {C : Type} [JsonCoded C] {d : Definition} {b : Behaviors C} {context : Option C}
  {m : Machine C} {n : NodeId} {t : Transition C}

lemma keys_children (h : build d b context = .ok m) {s : StateDef} (hs : d.Declares n s) :
    ((m.node n).children.map fun x => (m.node x).key) = Keyed.keys s.states := by
  obtain ⟨start, rfl, _, _⟩ := build_eq_ok h
  simp only [node, node_assemble]
  exact hs.keys_children

lemma inState_lt (h : build d b context = .ok m) (ht : t ∈ (m.partsOf n).transitions) :
    ∀ x ∈ t.inState, x < m.chart.size := by
  intro x hx
  have hc := (wellFormed_of_build h).chart
  obtain ⟨i, hi, rfl⟩ := List.getElem_of_mem ht
  obtain ⟨s, e, _, _, hkeeps⟩ := keeps_getElem h hi
  have hin := hkeeps.inState
  rw [Option.mem_def.1 hx, Option.map_some] at hin
  obtain ⟨descriptor, _, hresolve⟩ := Option.map_eq_some_iff.1 hin
  exact Chart.resolveIn?_size hc.toIsTree hc.size_pos hresolve

/-- The chart of a built machine is the declared tree in document order, and its transitions stand
with their sources and refer to states of the chart only. -/
theorem laidOut_of_build (h : build d b context = .ok m) :
    m.chart.LaidOut d.root ∧ ∀ n, ∀ t ∈ (m.partsOf n).transitions,
      t.source = n ∧ n < m.chart.size ∧ (∀ x ∈ t.targets, x < m.chart.size) ∧
        ∀ x ∈ t.inState, x < m.chart.size := by
  have hm := wellFormed_of_build h
  have ht := hm.chart.toIsTree
  have hids := idsDistinct_of_build h
  have htraced := traced_of_build h
  refine ⟨?_, fun n t hmem => ?_⟩
  · exact
      { nonempty := hm.chart.size_pos
        parentless := fun _ => Chart.parent?_eq_none_iff ht
        children := fun _ _ => Chart.mem_children_iff ht
        sorted := fun n => List.pairwise_cons.2
          ⟨fun _ hx => Chart.below_lt ht (Chart.child_below ht hx), children_sorted h n⟩
        declared := fun n hn => by
          obtain ⟨s, hs⟩ := exists_declares h hn
          exact ⟨s, at?_of_declares h hs, keys_children h hs⟩
        keys := keysDistinct_of_build h
        root_path := htraced.root
        path := fun x p hp => htraced.child p x ((ht.mem_children x p).2 hp)
        descendant := fun x y =>
          (ht.isDescendant_iff x y).trans (Chart.below_iff_transGen ht)
        ids := fun n hn x hx => hids n x hn hx
        find := fun _ => Chart.find?_node hids
        initial := hm.chart.initial
        leaf := fun _ => hm.chart.children_eq_nil }
  · obtain ⟨hsource, hn, htargets⟩ := hm.transition n t hmem
    exact ⟨hsource, hn, htargets, inState_lt h hmem⟩

def gallery : Definition := .ofRoot
  { initial := some "open"
    states := [
      ("open", {
        type := some .parallel
        on := .ofList [("CLOSE", [{ target := ["shut"], inState := some "open.light.off" }])]
        states := [
          ("light", {
            initial := some "off"
            states := [
              ("on", {}),
              ("off", { on := .ofList [("SWITCH", [{ target := ["on"] }])] }),
              ("last", { history := some (.kind .shallow) })] }),
          ("guests", { id := some "guests" })] }),
      ("shut", { type := some .final })] }

def galleryMachine : Machine Unit := assemble gallery () (link gallery {}).value

lemma build_gallery : build gallery {} (some ()) = .ok galleryMachine := rfl

theorem gallery_laidOut :
    build gallery {} (some ()) = .ok galleryMachine ∧ galleryMachine.chart.LaidOut gallery.root ∧
      galleryMachine.chart.ids.map (fun n => (galleryMachine.node n).children) =
        [[1, 7], [2, 6], [3, 4, 5], [], [], [], [], []] ∧
      (galleryMachine.partsOf 1).transitions.map (fun t => (t.targets, t.inState)) =
        [([7], some 4)] :=
  ⟨build_gallery, (laidOut_of_build build_gallery).1, by decide, by decide⟩

end Machine

end Statechart
