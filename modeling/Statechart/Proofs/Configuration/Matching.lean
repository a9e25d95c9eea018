import Mathlib.Tactic.Common
import Statechart.Proofs.Configuration.Value
import Statechart.Proofs.Machine.Paths
import Statechart.Snapshot

/-! Snapshots tell exactly what is active. The paths in the value of a legal configuration are those
that lead to active states, so that a descriptor matches if it names an active state. -/

namespace Statechart

namespace Chart

variable {c : Chart} {s : Configuration} {n : NodeId} {path : List String} {depth : Nat}

section

variable (hw : c.WellFormed) (hs : c.Legal s) (hk : c.KeysDistinct)

include hw hs hk

lemma mem_keyPaths_valueWithin (hn : n ∈ s) (hdepth : c.size - n ≤ depth + 1) :
    path ∈ (c.valueWithin s (depth + 1) n).tree.keyPaths ↔ ∃ child ∈ (c.node n).children,
      child ∈ s ∧ ∃ rest, path = (c.node child).key :: rest ∧
        (rest = [] ∨ rest ∈ (c.valueWithin s depth child).tree.keyPaths) := by
  have hentries := fun e => mem_entries_valueWithin hw hs hk hn hdepth (e := e)
  rw [StateTree.mem_keyPaths]
  constructor
  · rintro ⟨e, he, h⟩
    obtain ⟨child, hchild, rfl⟩ := (hentries e).1 he
    obtain ⟨hmem, hcs⟩ := (mem_activeChildren hs).1 hchild
    exact ⟨child, hmem, hcs, h⟩
  · rintro ⟨child, hmem, hcs, h⟩
    exact ⟨_, (hentries _).2 ⟨child, (mem_activeChildren hs).2 ⟨hmem, hcs⟩, rfl⟩, h⟩

variable (hsize : ∀ n ∈ s, n < c.size)

include hsize

lemma mem_keyPaths_iff (hn : n ∈ s) (hdepth : c.size - n ≤ depth) :
    path ∈ (c.valueWithin s depth n).tree.keyPaths ↔
      path ≠ [] ∧ ∃ x ∈ s, path.foldlM c.child? n = some x := by
  have ht := hw.toIsTree
  induction depth generalizing n path with
  | zero =>
    have hlt := hsize n hn
    exact absurd (Nat.sub_eq_zero_iff_le.1 (Nat.le_zero.1 hdepth)) (Nat.not_le_of_lt hlt)
  | succ depth ih =>
    rw [mem_keyPaths_valueWithin hw hs hk hn hdepth]
    constructor
    · rintro ⟨child, hmem, hcs, rest, rfl, hrest⟩
      have hlt := below_lt ht (child_below ht hmem)
      have hdepth := (depth_child hlt (hsize child hcs) hdepth).1
      rw [descend_child hk hmem]
      refine ⟨List.cons_ne_nil _ _, ?_⟩
      rcases hrest with rfl | hrest
      · exact ⟨child, hcs, rfl⟩
      · exact ((ih hcs hdepth).1 hrest).2
    · rintro ⟨hne, x, hx, hlead⟩
      obtain ⟨key, rest, rfl⟩ := List.exists_cons_of_ne_nil hne
      rw [List.foldlM_cons] at hlead
      obtain ⟨child, hchild, hrest⟩ := Option.bind_eq_some_iff.1 hlead
      obtain ⟨hmem, rfl⟩ := child?_eq_some hchild
      have hcs := mem_of_within ht hs.parent hx (within_of_descend ht hrest)
      have hlt := below_lt ht (child_below ht hmem)
      have hdepth := (depth_child hlt (hsize child hcs) hdepth).1
      refine ⟨child, hmem, hcs, rest, rfl, or_iff_not_imp_left.2 fun hne => ?_⟩
      exact (ih hcs hdepth).2 ⟨hne, x, hx, hrest⟩

lemma mem_keyPaths_valueOf : path ∈ (c.valueOf s).tree.keyPaths ↔
    path ≠ [] ∧ ∃ x ∈ s, path.foldlM c.child? rootId = some x :=
  mem_keyPaths_iff hw hs hk hsize hs.root (Nat.sub_le _ _)

lemma contains_ofDescriptor (descriptor : String) :
    (c.valueOf s).contains (.ofDescriptor descriptor c.delimiter) ↔
      ∃ n, c.findDescriptor? descriptor = some n ∧ n ∈ s := by
  rw [StateValue.ofDescriptor, StateValue.contains_ofSegments,
    mem_keyPaths_valueOf hw hs hk hsize, findDescriptor?, descend?]
  constructor
  · rintro (hnil | ⟨_, x, hx, hlead⟩)
    · exact ⟨rootId, by rw [hnil]; rfl, hs.root⟩
    · exact ⟨x, hlead, hx⟩
  · rintro ⟨x, hlead, hx⟩
    exact or_iff_not_imp_left.2 fun hne => ⟨hne, x, hx, hlead⟩

lemma keyPaths_perm (hc : c.Traced) : (c.valueOf s).tree.keyPaths.Perm
    ((s.elems.filter (· ≠ rootId)).map fun n => (c.node n).path) := by
  have ht := hw.toIsTree
  have hnodup : s.elems.Nodup := s.sorted.imp Nat.ne_of_lt
  rw [List.perm_ext_iff_of_nodup (StateTree.nodup_keyPaths (c.valueOf s).sorted)]
  · intro path
    simp only [mem_keyPaths_valueOf hw hs hk hsize, List.mem_map, List.mem_filter,
      SortedSet.mem_elems, decide_eq_true_eq]
    constructor
    · rintro ⟨hne, x, hx, hlead⟩
      have hpath := path_of_descend hc hlead
      rw [hc.root, List.nil_append] at hpath
      refine ⟨x, ⟨hx, ?_⟩, hpath⟩
      rintro rfl
      exact hne (hpath.symm.trans hc.root)
    · rintro ⟨x, ⟨hx, hroot⟩, rfl⟩
      have hlead := descend_path ht hk hc (hsize x hx)
      refine ⟨fun hnil => hroot ?_, x, hx, hlead⟩
      rw [hnil] at hlead
      exact (Option.some.inj hlead).symm
  · refine (hnodup.filter _).map_on fun x hx y hy hpath => ?_
    have hx := hsize x (List.mem_filter.1 hx).1
    have hy := hsize y (List.mem_filter.1 hy).1
    exact eq_of_path_eq ht hk hc hx hy hpath

end

end Chart

namespace Machine

section

variable {C : Type} [JsonCoded C] {d : Definition} {b : Behaviors C} {context : Option C}
  {m : Machine C} {s : MachineState C}

/-- A snapshot matches a descriptor if it names an active state, and lists the active states. -/
theorem matches_iff_active (h : build d b context = .ok m) (hs : m.chart.Legal s.configuration)
    (hsize : ∀ n ∈ s.configuration, n < m.chart.size) (event : Event) (changed : Bool)
    (actions : List String) (output : Option Value) :
    (∀ descriptor, (m.snapshot s event changed actions output).matchesDescriptor descriptor ↔
        ∃ n, m.chart.findDescriptor? descriptor = some n ∧ n ∈ s.configuration) ∧
      (m.snapshot s event changed actions output).toStrings.Perm
        ((s.configuration.elems.filter (· ≠ rootId)).map m.chart.descriptor) := by
  have hw := (wellFormed_of_build h).chart
  have hk := keysDistinct_of_build h
  refine ⟨Chart.contains_ofDescriptor hw hs hk hsize, ?_⟩
  have hperm := Chart.keyPaths_perm hw hs hk hsize (traced_of_build h)
  have hjoined := hperm.map (Text.join m.chart.delimiter)
  rwa [List.map_map] at hjoined

end

def cockpit : Definition :=
  { Definition.ofRoot {
      type := some .parallel
      states := [
        ("gear", {
          initial := some "up"
          states := [("up", {}), ("", { initial := some "up", states := [("up", {})] })] }),
        ("lamp::red", {}),
        ("panel", {
          initial := some "radio"
          states := [
            ("radio", { type := some .parallel }),
            ("last", { history := some (.kind .deep) })] })] } with
    delimiter := some "::" }

def cockpitMachine : Machine Unit := assemble cockpit () (link cockpit {}).value

lemma build_cockpit : build cockpit {} (some ()) = .ok cockpitMachine := rfl

def cockpitSnapshot : Snapshot Unit :=
  cockpitMachine.snapshot ⟨.ofList [0, 1, 3, 4, 5, 6, 7], (), .empty⟩ .init true [] none

theorem cockpit_matches : cockpitMachine.chart.Legal (.ofList [0, 1, 3, 4, 5, 6, 7]) ∧
    cockpitSnapshot.matchesDescriptor "" ∧ cockpitSnapshot.matchesDescriptor "::panel::::radio" ∧
      ¬ cockpitSnapshot.matchesDescriptor "gear::up" ∧
      ¬ cockpitSnapshot.matchesDescriptor "lamp::red" ∧
      ¬ cockpitSnapshot.matchesDescriptor "panel::last" ∧
      cockpitSnapshot.toStrings.Perm
        ["gear", "gear::", "gear::::up", "lamp::red", "panel", "panel::radio"] := by
  have hlegal : cockpitMachine.chart.Legal (.ofList [0, 1, 3, 4, 5, 6, 7]) := by decide +kernel
  obtain ⟨hmatches, hperm⟩ := matches_iff_active (s := ⟨.ofList [0, 1, 3, 4, 5, 6, 7], (), .empty⟩)
    build_cockpit hlegal (by decide) .init true [] none
  have hnot : ∀ descriptor, (∀ n ∈ cockpitMachine.chart.findDescriptor? descriptor,
      n ∉ [0, 1, 3, 4, 5, 6, 7]) → ¬ cockpitSnapshot.matchesDescriptor descriptor := by
    intro descriptor h hmatch
    obtain ⟨n, hn, hs⟩ := (hmatches descriptor).1 hmatch
    exact h n hn (SortedSet.mem_ofList.1 hs)
  have hlisted : ((SortedSet.ofList [0, 1, 3, 4, 5, 6, 7]).elems.filter (· ≠ rootId)).map
      cockpitMachine.chart.descriptor =
        ["gear", "gear::", "gear::::up", "lamp::red", "panel", "panel::radio"] := by decide +kernel
  refine ⟨hlegal, ?_, ?_, hnot _ ?_, hnot _ ?_, hnot _ ?_, hlisted ▸ hperm⟩
  · exact (hmatches _).2 ⟨0, by decide +kernel, by decide⟩
  · exact (hmatches _).2 ⟨7, by decide +kernel, by decide⟩
  · decide +kernel
  · decide +kernel
  · decide +kernel

end Machine

end Statechart
