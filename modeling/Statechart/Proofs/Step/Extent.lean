import Mathlib.Tactic.Common
import Statechart.Proofs.Configuration.Entry
import Statechart.Proofs.SortedMap
import Statechart.Proofs.Step.Memory
import Statechart.Proofs.Step.Run

/-! States that are there. Entering, remembering and recalling lead to states of the chart only, and
so do the steps of a built machine. -/

namespace Statechart

namespace Chart

variable {c : Chart} {s : Configuration} {memory : Memory} {n h : NodeId} {l : List NodeId}

def Covers (c : Chart) (l : List NodeId) : Prop := ∀ n ∈ l, n < c.size

def CoversMemory (c : Chart) (memory : Memory) : Prop :=
  ∀ e ∈ memory.entries, e.1 < c.size ∧ c.Covers e.2

def Closed (c : Chart) : Prop := ∀ n, c.Covers (c.node n).historyDefault

lemma coversMemory_empty : c.CoversMemory .empty := fun _ he => absurd he List.not_mem_nil

lemma CoversMemory.insert (hm : c.CoversMemory memory) (hh : h < c.size) (hl : c.Covers l) :
    c.CoversMemory (memory.insert h l) := by
  intro e he
  cases SortedEntries.mem_insert he with
  | inl he => exact he ▸ ⟨hh, hl⟩
  | inr he => exact hm e he

lemma covers_historyTargets (hd : c.Closed) (hm : c.CoversMemory memory) (h : NodeId) :
    c.Covers (c.historyTargets memory h) := by
  rw [historyTargets]
  cases hget : memory.get? h with
  | none => exact hd h
  | some l => exact (hm _ (SortedMap.mem_of_get? hget)).2

lemma covers_insert (hs : c.Covers s.elems) (hn : n < c.size) : c.Covers (s.insert n).elems := by
  intro x hx
  cases SortedSet.mem_insert.1 hx with
  | inl he => exact he ▸ hn
  | inr hx => exact hs x hx

lemma covers_foldl {α : Type} {f : Configuration → α → Configuration} {l : List α}
    (hf : ∀ a ∈ l, ∀ s : Configuration, c.Covers s.elems → c.Covers (f s a).elems)
    (hs : c.Covers s.elems) : c.Covers (l.foldl f s).elems := by
  induction l generalizing s with
  | nil => exact hs
  | cons a l ih =>
    apply ih
    · exact fun b hb => hf b (List.mem_cons_of_mem _ hb)
    · exact hf a List.mem_cons_self s hs

section

variable (hw : c.WellFormed) {enter : Configuration → NodeId → Configuration}
  (henter : ∀ (s : Configuration) (n : NodeId), c.Covers s.elems → n < c.size →
    c.Covers (enter s n).elems)

include hw henter

lemma covers_fillRegions (n : NodeId) (hs : c.Covers s.elems) :
    c.Covers (c.fillRegions enter s n).elems := by
  apply covers_foldl ?_ hs
  intro r hr s' hs'
  split
  · exact hs'
  · apply henter s' r hs'
    exact below_size (regularChild_below hw.toIsTree hr)

lemma covers_addAncestors (n : NodeId) (stop : Option NodeId) (hs : c.Covers s.elems) :
    c.Covers (c.addAncestors enter s n stop).elems := by
  apply covers_foldl ?_ hs
  intro a ha s' hs'
  have hb := below_of_mem_ancestorsBelow ha
  have hlt : a < c.size := Nat.lt_trans (below_lt hw.toIsTree hb) (below_size hb)
  split
  · exact covers_fillRegions hw henter a (covers_insert hs' hlt)
  · exact covers_insert hs' hlt

end

section

variable (hw : c.WellFormed) (hd : c.Closed) (hm : c.CoversMemory memory)

include hw hd hm

lemma covers_enterWithin (depth : Nat) (hs : c.Covers s.elems) (hn : n < c.size) :
    c.Covers (c.enterWithin memory depth s n).elems := by
  induction depth generalizing s n with
  | zero => exact hs
  | succ depth ih =>
    have henter : ∀ (s : Configuration) (n : NodeId), c.Covers s.elems → n < c.size →
        c.Covers (c.enterWithin memory depth s n).elems := fun _ _ hs hn => ih hs hn
    have hins := covers_insert hs hn
    rw [enterWithin]
    split
    · have htargets := covers_historyTargets hd hm n
      apply covers_foldl
      · exact fun t _ s' hs' => covers_addAncestors hw henter t _ hs'
      · exact covers_foldl (fun t ht s' hs' => henter s' t hs' (htargets t ht)) hs
    · split
      · rename_i hc
        obtain ⟨i, hi, hinit⟩ := hw.initial n hc
        rw [hinit]
        apply covers_addAncestors hw henter i
        exact henter _ i hins (below_size (child_below hw.toIsTree hi))
      · split
        · exact covers_fillRegions hw henter n hins
        · exact hins

lemma covers_enter (hs : c.Covers s.elems) (hn : n < c.size) :
    c.Covers (c.enter memory s n).elems := covers_enterWithin hw hd hm _ hs hn

lemma covers_enterAncestors (n : NodeId) (stop : Option NodeId) (hs : c.Covers s.elems) :
    c.Covers (c.enterAncestors memory s n stop).elems :=
  covers_addAncestors hw (fun _ _ hs hn => covers_enter hw hd hm hs hn) n stop hs

end

lemma covers_remembered (p : NodeId) (kind : HistoryKind) (hs : c.Covers s.elems) :
    c.Covers (Run.remembered c s p kind) := by
  cases kind with
  | deep => exact fun n hn => hs n (List.mem_filter.1 (List.mem_filter.1 hn).1).1
  | shallow => exact fun n hn => hs n (List.mem_filter.1 hn).1

lemma coversMemory_recordChildren (hs : c.Covers s.elems) (n : NodeId) {children : List NodeId}
    (hc : c.Covers children) (hm : c.CoversMemory memory) :
    c.CoversMemory (Run.recordChildren c s n memory children) := by
  induction children generalizing memory with
  | nil => exact hm
  | cons h children ih =>
    apply ih fun h' hh' => hc h' (List.mem_cons_of_mem _ hh')
    dsimp only
    split
    · exact hm
    · exact hm.insert (hc h List.mem_cons_self) (covers_remembered n _ hs)

lemma coversMemory_recordHistory (ht : c.IsTree) (hs : c.Covers s.elems) (exiting : List NodeId)
    (hm : c.CoversMemory memory) : c.CoversMemory (Run.recordHistory c s exiting memory) := by
  induction exiting generalizing memory with
  | nil => exact hm
  | cons n exiting ih =>
    apply ih
    apply coversMemory_recordChildren hs n ?_ hm
    exact fun h hh => below_size (child_below ht hh)

end Chart

namespace Linker

variable {C : Type} {l : Linker C} {source : NodeId}

lemma covers_historyDefault (ht : l.chart.IsTree) (hs : source < l.chart.size)
    (hi : ∀ n i, (l.chart.node n).initial = some i → i ∈ (l.chart.node n).children)
    (target : Option String) : l.chart.Covers (l.historyDefault source target).value := by
  intro x hx
  cases target with
  | some target =>
    simp only [historyDefault, Checked.bind_value, Checked.pure_value, Option.mem_toList] at hx
    exact Chart.resolveTarget?_size ht hs hx
  | none =>
    cases hp : (l.chart.node source).parent? with
    | none =>
      simp only [historyDefault, hp] at hx
      exact absurd hx List.not_mem_nil
    | some p =>
      have hr := historyDefault_subset hp (hi p) x hx
      exact Chart.below_size (Chart.regularChild_below ht hr)

end Linker

namespace Machine

variable {C : Type} {m : Machine C}

lemma closed_of_build [JsonCoded C] {d : Definition} {b : Behaviors C} {context : Option C}
    (h : build d b context = .ok m) : m.chart.Closed := by
  intro n
  by_cases hn : n < m.chart.size
  · obtain ⟨p, hp⟩ := exists_placed h hn
    obtain ⟨start, rfl, _, _⟩ := build_eq_ok h
    obtain ⟨used, hu⟩ := link_value (b := b) hp
    rw [size_assemble] at hn
    have hcovers := Linker.covers_historyDefault (l := ⟨d.layout, b⟩) d.isTree_layout hn
      (fun n i hi => initial_mem_layout hi) p.body.target
    intro x hx
    simp only [node_assemble, List.getD_eq_getElem?_getD, List.getElem?_map, hu, Option.map_some,
      Option.getD_some, Linker.state_default] at hx
    rw [size_assemble]
    split at hx
    · exact hcovers x hx
    · exact absurd hx List.not_mem_nil
  · rw [Chart.node_of_size_le (Nat.le_of_not_lt hn)]
    exact fun x hx => absurd hx List.not_mem_nil

structure Covers (m : Machine C) (s : MachineState C) : Prop where
  configuration : m.chart.Covers s.configuration.elems
  history : m.chart.CoversMemory s.history

variable {s : MachineState C} {memory : Memory} {l : List TransitionRef} {event : Event}
  {step : Step C} {limit : Nat} (hm : m.WellFormed) (hd : m.chart.Closed)

include hm hd

lemma covers_entrySet (hmem : m.chart.CoversMemory memory) (hl : ∀ r ∈ l, m.IsTransition r) :
    m.chart.Covers (m.entrySet memory l).elems := by
  apply Chart.covers_foldl
  · intro r hr s hs
    apply Chart.covers_foldl
    · exact fun t _ s' hs' => Chart.covers_enterAncestors hm.chart hd hmem t _ hs'
    · apply Chart.covers_foldl ?_ hs
      exact fun t ht s' hs' => Chart.covers_enter hm.chart hd hmem hs' (target_lt hm (hl r hr) ht)
  · exact fun n hn => absurd hn List.not_mem_nil

lemma Covers.microstep {r r' : Run C} (h : m.Covers r.state)
    (hc : m.Compatible r.state.configuration r.state.history l)
    (hr : m.microstep l event r = .ok r') : m.Covers r'.state := by
  obtain ⟨hhist, hmem⟩ := microstep_mem hr
  have hafter : m.chart.CoversMemory (m.historyAfter r.state l) :=
    Chart.coversMemory_recordHistory hm.chart.toIsTree h.configuration _ h.history
  have hentry := covers_entrySet hm hd (l := l) hafter fun ref href => by
    obtain ⟨_, _, _, hchosen⟩ := hc.chosen ref href
    exact hchosen.1
  refine ⟨fun x hx => ?_, hhist ▸ hafter⟩
  cases (hmem x).1 hx with
  | inl hx => exact h.configuration x hx.1
  | inr hx => exact hentry x hx

lemma Covers.settle {left : Nat} {current : Event} {r r' : Run C} (h : m.Covers r.state)
    (hr : m.settle limit left current r = .ok r') : m.Covers r'.state := by
  obtain ⟨_, r'', hr'', he | he⟩ := settle_invariant (Q := fun _ r => m.Covers r.state)
    (fun _ r _ _ queue _ h _ hnext hmicro =>
      h.microstep (r := { r with internal := queue }) hm hd (nextEnabled_compatible hnext) hmicro)
    h hr
  · exact he ▸ hr''
  · exact he ▸ hr''

lemma covers_initialStepFrom {context : C} (h : m.initialStepFrom context limit = .ok step) :
    m.Covers step.state := by
  obtain ⟨r, r', hr, hr', rfl⟩ := initialStepFrom_cases h
  have hempty : m.chart.Covers (SortedSet.empty : Configuration).elems :=
    fun n hn => absurd hn List.not_mem_nil
  have henter := Chart.covers_enter hm.chart hd Chart.coversMemory_empty hempty hm.chart.size_pos
  obtain ⟨hhist, hmem⟩ := Run.enterNodes_mem hr
  have hstart : m.Covers r.state := by
    refine ⟨fun x hx => ?_, hhist ▸ Chart.coversMemory_empty⟩
    cases (hmem x).1 hx with
    | inl hx => exact absurd hx (SortedSet.not_mem_empty x)
    | inr hx => exact henter x hx
  exact hstart.settle hm hd hr'

lemma Covers.stepWithin (h : m.Covers s) (hs : m.stepWithin s event limit = .ok step) :
    m.Covers step.state := by
  rcases stepWithin_cases hs with rfl | ⟨left, l, r, r', _, hl, _, hr, hr', rfl⟩
  · exact h
  · have hfirst := Covers.microstep hm hd (r := .start s) h (compatible_of_select hl) hr
    exact hfirst.settle hm hd hr'

end Machine

end Statechart
