import Mathlib.Tactic.Common
import Statechart.Proofs.Checkpoint.Validate
import Statechart.Proofs.Step.Extent

/-! Reading snapshots back. As no two states have the same id, the state a snapshot was taken of can
be rebuilt from the ids in it, and a machine goes on from a snapshot as from the state. -/

namespace Statechart

namespace Chart

variable {c : Chart} {l : List NodeId}

lemma filterMap_idsOf (h : c.IdsDistinct) (hl : c.Covers l) :
    (c.idsOf l).filterMap c.find? = l := by
  induction l with
  | nil => rfl
  | cons n l ih =>
    have hn := find?_node h (hl n List.mem_cons_self)
    have hrest := ih fun n' hn' => hl n' (List.mem_cons_of_mem _ hn')
    rw [idsOf] at hrest ⊢
    rw [List.map_cons, List.filterMap_cons_some hn, hrest]

lemma nodup_idsOf (h : c.IdsDistinct) (hl : c.Covers l) (hn : l.Nodup) : (c.idsOf l).Nodup := by
  apply hn.map_on
  exact fun a ha b hb he => h a b (hl a ha) (hl b hb) he

end Chart

namespace Machine

open Checkpoint (Known)

variable {C : Type} {m : Machine C} {memory : Memory} {s : MachineState C} {l : List NodeId}

section

variable (hi : m.chart.IdsDistinct)

include hi

lemma known_idsOf (hl : m.chart.Covers l) : Known m (m.chart.idsOf l) := by
  intro id hid
  obtain ⟨n, hn, rfl⟩ := List.mem_map.1 hid
  rw [Chart.find?_node hi (hl n hn)]
  rfl

lemma ofList_idsOf {conf : Configuration} (hc : m.chart.Covers conf.elems) :
    .ofList ((m.chart.idsOf conf.elems).filterMap m.chart.find?) = conf := by
  rw [Chart.filterMap_idsOf hi hc]
  apply SortedSet.ext
  exact fun n => SortedSet.mem_ofList

variable (hc : m.chart.CoversMemory memory)

include hc

lemma historyById_perm : (m.historyById memory).entries.Perm
    (memory.entries.map fun e => ((m.node e.1).id, m.chart.idsOf e.2)) := by
  apply SortedMap.ofList_perm
  have hkeys := Chart.nodup_idsOf (l := memory.entries.map Prod.fst) hi ?_ memory.nodup_keys
  · rw [Chart.idsOf, List.map_map] at hkeys
    rw [List.map_map]
    exact hkeys
  · intro n hn
    obtain ⟨e, he, rfl⟩ := List.mem_map.1 hn
    exact (hc e he).1

lemma known_historyById {e : String × List String} (he : e ∈ (m.historyById memory).entries) :
    Known m (e.1 :: e.2) := by
  have hmem := (historyById_perm hi hc).mem_iff.1 he
  obtain ⟨e', he', rfl⟩ := List.mem_map.1 hmem
  obtain ⟨hn, hl⟩ := hc e' he'
  exact known_idsOf (l := e'.1 :: e'.2) hi (List.forall_mem_cons.2 ⟨hn, hl⟩)

lemma recall_historyById :
    (m.historyById memory).entries.foldl (fun memory e =>
      memory.insert ((m.chart.find? e.1).getD rootId) (e.2.filterMap m.chart.find?)) .empty =
        memory := by
  let found := fun e : String × List String =>
    ((m.chart.find? e.1).getD rootId, e.2.filterMap m.chart.find?)
  have hback : (memory.entries.map fun e => ((m.node e.1).id, m.chart.idsOf e.2)).map found =
      memory.entries := by
    rw [List.map_map]
    conv_rhs => rw [← List.map_id memory.entries]
    apply List.map_congr_left
    intro e he
    obtain ⟨hn, hl⟩ := hc e he
    simp [found, Machine.node, Chart.find?_node hi hn, Chart.filterMap_idsOf hi hl]
  have hperm := (historyById_perm hi hc).map found
  rw [hback] at hperm
  have hfold : (m.historyById memory).entries.foldl (fun memory e =>
      memory.insert ((m.chart.find? e.1).getD rootId) (e.2.filterMap m.chart.find?)) .empty =
        SortedMap.ofList ((m.historyById memory).entries.map found) := by
    rw [SortedMap.ofList, List.foldl_map]
  apply SortedMap.eq_of_perm
  rw [hfold]
  refine (SortedMap.ofList_perm ?_).trans hperm
  rw [(hperm.map Prod.fst).nodup_iff]
  exact memory.nodup_keys

end

lemma lookUp_eq_ok {id : String} {n : NodeId} (h : m.chart.find? id = some n) :
    m.lookUp id = .ok n := by
  rw [lookUp, h]

lemma mapM_lookUp {ids : List String} (h : Known m ids) :
    ids.mapM m.lookUp = .ok (ids.filterMap m.chart.find?) :=
  Checkpoint.mapM_of_known (fun _ _ => lookUp_eq_ok) h

lemma lookUpHistory_eq_ok {entries : List (String × List String)}
    (h : ∀ e ∈ entries, Known m (e.1 :: e.2)) :
    m.lookUpHistory memory entries = .ok (entries.foldl (fun memory e =>
      memory.insert ((m.chart.find? e.1).getD rootId) (e.2.filterMap m.chart.find?)) memory) := by
  induction entries generalizing memory with
  | nil => rfl
  | cons e entries ih =>
    have he := h e List.mem_cons_self
    obtain ⟨n, hn⟩ := Option.isSome_iff_exists.1 (he e.1 List.mem_cons_self)
    rw [lookUpHistory, mapM_lookUp fun id hid => he id (List.mem_cons_of_mem _ hid),
      lookUp_eq_ok hn, List.foldl_cons, hn, Option.getD_some]
    exact ih fun e' he' => h e' (List.mem_cons_of_mem _ he')

lemma machineState_snapshot (hi : m.chart.IdsDistinct) (hc : m.Covers s) (event : Event)
    (changed : Bool) (actions : List String) (output : Option Value) :
    m.machineState (m.snapshot s event changed actions output) = .ok s := by
  have hconf : (m.chart.idsOf s.configuration.elems).mapM m.lookUp =
      .ok ((m.chart.idsOf s.configuration.elems).filterMap m.chart.find?) :=
    mapM_lookUp (known_idsOf hi hc.configuration)
  have hhist : m.lookUpHistory .empty (m.historyById s.history).entries = .ok s.history := by
    rw [lookUpHistory_eq_ok fun e he => known_historyById hi hc.history he,
      recall_historyById hi hc.history]
  simp only [machineState, snapshot, hconf, hhist]
  exact congrArg Except.ok (congrArg (MachineState.mk · s.context s.history)
    (ofList_idsOf hi hc.configuration))

lemma transitionState_stateOf (hi : m.chart.IdsDistinct) {step : Step C} (hc : m.Covers step.state)
    (event : Event) :
    m.transitionState (m.stateOf step) event = (m.step step.state event).map m.stateOf := by
  rw [transitionState, stateOf, machineState_snapshot hi hc]
  cases hstep : m.step step.state event <;> simp [hstep, bind, Except.bind, Except.map, pure,
    Except.pure]

inductive Yields (m : Machine C) : Step C → Prop
  | initial {context : C} {limit : Nat} {step : Step C}
      (h : m.initialStepFrom context limit = .ok step) : m.Yields step
  | next {step step' : Step C} {context : C} {event : Event} {limit : Nat}
      (hs : m.Yields step) (h : m.stepWithin { step.state with context } event limit = .ok step') :
      m.Yields step'

lemma Yields.covers (hm : m.WellFormed) (hd : m.chart.Closed) {step : Step C}
    (h : m.Yields step) : m.Covers step.state := by
  induction h with
  | initial h => exact covers_initialStepFrom hm hd h
  | @next step step' context _ _ _ h ih =>
    have hc : m.Covers { step.state with context } := ⟨ih.configuration, ih.history⟩
    exact hc.stepWithin hm hd h

lemma yields_of_foldlM {limit : Nat} {events : List Event} {step step' : Step C}
    (hs : m.Yields step)
    (h : events.foldlM (fun step event => m.stepWithin step.state event limit) step = .ok step') :
    m.Yields step' := by
  induction events generalizing step with
  | nil => exact foldlM_nil_eq_ok h ▸ hs
  | cons event events ih =>
    obtain ⟨step₁, h₁, h⟩ := foldlM_cons_eq_ok h
    exact ih (hs.next h₁) h

end Machine

end Statechart
