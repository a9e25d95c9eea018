import Mathlib.Tactic.Common
import Statechart.Proofs.Configuration.Resolution
import Statechart.Proofs.Step.Start

/-! Entering and resolving agree. Starting a machine, or entering a state from the root, completes
the same states as resolving does, only in another order. -/

namespace Statechart

namespace Chart

variable {c : Chart} {memory : Memory} {t x : NodeId}

section

variable (hw : c.WellFormed) (hp : c.Plain)

include hw hp

lemma completion_start : c.Completion [] (c.enter .empty .empty rootId) ∧
    c.Exclusive (c.enter .empty .empty rootId) := by
  have henters : c.EntersCoherently .empty (c.enter .empty) rootId :=
    hp.enters hw hw.size_pos hw.root_regular
  have hcoherent := henters.coherent .empty (coherent_empty c) fun e _ => admits_empty c e
  refine ⟨⟨Enters.full hw henters.toEnters, by simp, fun x hx => .inr ?_⟩, hcoherent.exclusive⟩
  rcases enterWithin_standard hw hp c.entryDepth hw.root_regular .empty x hx with hx | rfl | hx
  · exact absurd hx (SortedSet.not_mem_empty x)
  · exact standard_root hw
  · exact hx

def enteredFromRoot (c : Chart) (memory : Memory) (t : NodeId) : Configuration :=
  (c.enterAncestors memory (c.enter memory .empty t) t (some rootId)).insert rootId

variable (ht : t < c.size) (hreg : (c.node t).isHistory = false)

include ht hreg

lemma enteredFromRoot_adds (memory : Memory) :
    c.Adds (fun q => q = rootId) (fun _ => True) .empty
        (c.enterAncestors memory (c.enter memory .empty t) t (some rootId)) ∧
      t ∈ c.enterAncestors memory (c.enter memory .empty t) t (some rootId) := by
  have htops : ∀ e ∈ [t], ∃ t' ∈ [t], e ∈ c.tops memory t' := fun e he =>
    ⟨t, List.mem_singleton_self t, by simp [List.mem_singleton.1 he, tops_regular hreg]⟩
  have henters : ∀ t' ∈ [t], c.Enters memory (c.enter memory) t' := fun t' ht' => by
    rw [List.mem_singleton.1 ht']
    exact (hp.enters hw ht hreg).toEnters
  have hstop : ∀ t' ∈ [t], ∀ q, (c.node t').parent? = some q →
      (∃ e ∈ [t], q ∈ c.ancestorsBelow e (some rootId)) ∨ q = rootId := fun t' ht' q hq => by
    rw [List.mem_singleton.1 ht'] at hq
    refine (parent_mem_ancestorsBelow (some rootId) hw.toIsTree hq).imp
      (fun hq => ⟨t, List.mem_singleton_self t, hq⟩) fun hq => (Option.some.inj hq).symm
  obtain ⟨hadds, hmem⟩ := enterAll_adds hw henters htops hstop rfl
    (fun a _ _ r hr => (hp.enters_region hw hr).toEnters) .empty
  exact ⟨hadds.mono (fun _ _ => trivial) fun q hq => .inr hq, hmem t (List.mem_singleton_self t)⟩

lemma enteredFromRoot_coherent (memory : Memory) :
    c.Coherent (c.enteredFromRoot memory t) := by
  have hcoherent : c.Coherent
      (c.enterAncestors memory (c.enter memory .empty t) t (some rootId)) := by
    have henters : c.EntersCoherently memory (c.enter memory) t := hp.enters hw ht hreg
    refine addAncestors_coherent hw (fun a _ _ r hr => hp.enters_region hw hr)
      (henters.coherent .empty (coherent_empty c) fun e _ => admits_empty c e) ?_
    exact henters.tops .empty t (by simp [tops_regular hreg])
  refine hcoherent.insert_of_forall hw.toIsTree hw.size_pos fun x hx => ?_
  exact not_clash_of_within hw.toIsTree (within_root hw.toIsTree (hcoherent.size x hx))

lemma completion_enteredFromRoot (hroot : t = rootId ∨ (c.node rootId).isParallel = false)
    (memory : Memory) : c.Completion [t] (c.enteredFromRoot memory t) := by
  have htree := hw.toIsTree
  obtain ⟨hadds, hmem⟩ := enteredFromRoot_adds hw hp ht hreg memory
  have hsubset : ∀ x ∈ c.enterAncestors memory (c.enter memory .empty t) t (some rootId),
      x ∈ c.enteredFromRoot memory t := fun x hx => SortedSet.mem_insert.2 (.inr hx)
  have hrootmem : rootId ∈ c.enteredFromRoot memory t := SortedSet.mem_insert.2 (.inl rfl)
  have hhangs := fun x hx =>
    ((hadds.new x hx).resolve_left (SortedSet.not_mem_empty x)).2
  have hfurnished : c.Furnished (c.enteredFromRoot memory t) rootId := by
    by_cases htr : t = rootId
    · exact (hhangs rootId (htr ▸ hmem)).toFurnished.mono hsubset
    · have hpar := hroot.resolve_left htr
      exact ⟨hw.root_regular, fun _ => ⟨t, hsubset t hmem, below_root htree ht htr⟩,
        fun h => absurd h (by simp [hpar])⟩
  refine ⟨⟨hrootmem, (enteredFromRoot_coherent hw hp ht hreg memory).size, fun x hx q hq => ?_,
    fun x hx => ?_⟩, fun n hn => List.mem_singleton.1 hn ▸ hsubset t hmem, fun x hx => ?_⟩
  · rcases SortedSet.mem_insert.1 hx with rfl | hx
    · exact absurd (below_parent htree hq) (not_below_root htree q)
    · exact ((hhangs x hx).parent q hq).elim (hsubset q) fun he => he ▸ hrootmem
  · rcases SortedSet.mem_insert.1 hx with rfl | hx
    · exact hfurnished
    · exact (hhangs x hx).toFurnished.mono hsubset
  · have hregions : ∀ a ∈ c.ancestorsBelow t (some rootId), (c.node a).isParallel →
        ∀ r ∈ c.regularChildren a, ∀ s, ∀ x ∈ c.enter memory s r, x ∈ s ∨ x = r ∨ c.Standard x :=
      fun a _ _ r hr s => enterWithin_standard hw hp _ (mem_regularChildren.1 hr).2 s
    rcases SortedSet.mem_insert.1 hx with rfl | hx
    · exact .inr (standard_root hw)
    · rcases addAncestors_standard hw hregions x hx with hx | hx | hx
      · rcases enterWithin_standard hw hp _ hreg .empty x hx with hx | rfl | hx
        · exact absurd hx (SortedSet.not_mem_empty x)
        · exact .inl ⟨x, List.mem_singleton_self x, within_self x⟩
        · exact .inr hx
      · exact .inl ⟨t, List.mem_singleton_self t, (below_of_mem_ancestorsBelow hx).within⟩
      · exact .inr hx

end

end Chart

namespace Machine

variable {C : Type} {m : Machine C}

section

variable {s : MachineState C} {ref : TransitionRef} {t : NodeId}

lemma targetsOf_singleton (htargets : (m.transitionAt ref).targets = [t])
    (hreg : (m.chart.node t).isHistory = false) (memory : Memory) :
    m.targetsOf memory ref = [t] := by
  rw [targetsOf_of_regular (by simpa [htargets] using hreg), htargets]
  rfl

lemma configuration_from_root (ht : m.chart.IsTree) {event : Event} {r r' : Run C}
    (hroot : rootId ∈ r.state.configuration)
    (hsize : ∀ n ∈ r.state.configuration, n < m.chart.size)
    (htargets : (m.transitionAt ref).targets = [t]) (hreg : (m.chart.node t).isHistory = false)
    (hd : m.domain? r.state.history ref = some rootId)
    (h : m.microstep [ref] event r = .ok r') :
    r'.state.configuration = m.chart.enteredFromRoot (m.historyAfter r.state [ref]) t := by
  have htargetsOf := targetsOf_singleton htargets hreg
  have hd' : m.domain? (m.historyAfter r.state [ref]) ref = some rootId :=
    (domain?_of_targetsOf_eq ((htargetsOf _).trans (htargetsOf _).symm)).trans hd
  have hentry : m.entrySet (m.historyAfter r.state [ref]) [ref] =
      m.chart.enterAncestors (m.historyAfter r.state [ref])
        (m.chart.enter (m.historyAfter r.state [ref]) .empty t) t (some rootId) := by
    simp only [entrySet, List.foldl_cons, List.foldl_nil, htargets, htargetsOf, hd']
  have hexit : ∀ x, x ∈ m.exitSetOf r.state.configuration r.state.history [ref] ↔
      x ∈ r.state.configuration ∧ m.chart.Below x rootId := by
    intro x
    simp [mem_exitSetOf, mem_exitSet ht, hd]
  apply SortedSet.ext
  intro x
  rw [(microstep_mem h).2, hexit, hentry, Chart.enteredFromRoot, SortedSet.mem_insert]
  refine or_congr_left ⟨fun ⟨hx, hnot⟩ => ?_, ?_⟩
  · exact (Chart.within_root ht (hsize x hx)).resolve_right fun hb => hnot ⟨hx, hb⟩
  · rintro rfl
    exact ⟨hroot, fun hb => Chart.not_below_root ht rootId hb.2⟩

end

variable [JsonCoded C] {d : Definition} {b : Behaviors C} {context : Option C}

/-- Where no compound state starts with a history state, a machine starts with what no states
resolve to, and a microstep that leaves all but the root for one state ends with what that state
resolves to. -/
theorem entered_as_resolved (h : build d b context = .ok m) (hp : m.chart.Plain) :
    (∀ memory, m.chart.enter .empty .empty rootId = m.chart.resolve [] memory ∧
      ∀ value r, (Run.start ⟨.empty, value, .empty⟩).enterNodes m .init
        (m.chart.enter .empty .empty rootId).elems = .ok r →
          r.state.configuration = m.chart.resolve [] memory) ∧
    ((m.chart.node rootId).isParallel = false →
      ∀ t ref event (r r' : Run C), (m.chart.node t).isHistory = false →
        m.chart.Legal r.state.configuration →
        (∀ n ∈ r.state.configuration, n < m.chart.size) →
        (m.transitionAt ref).targets = [t] → m.domain? r.state.history ref = some rootId →
        m.microstep [ref] event r = .ok r' →
          ∀ memory, r'.state.configuration = m.chart.resolve [t] memory) := by
  have hm := wellFormed_of_build h
  have hw := hm.chart
  refine ⟨fun memory => ?_, fun hroot t ref event r r' hreg hs hsize htargets hd hr memory => ?_⟩
  · obtain ⟨hstart, hexclusive⟩ := Chart.completion_start hw hp
    have hnone : ∀ n ∈ ([] : List NodeId),
        n < m.chart.size ∧ (m.chart.node n).isHistory = false := by simp
    have he : m.chart.enter .empty .empty rootId = m.chart.resolve [] memory :=
      hstart.unique hw (Chart.completion_resolve hnone hw hp memory) hexclusive
        (Chart.exclusive_resolve hnone hw hp
          (Chart.exclusive_of_subsingleton hw (by simp)) memory)
    exact ⟨he, fun value r hr => (configuration_start hr).trans he⟩
  · have ht : t < m.chart.size :=
      target_lt hm (isTransition_of_targets (by simp [htargets]))
        (htargets ▸ List.mem_singleton_self t)
    have hone : ∀ n ∈ [t], n < m.chart.size ∧ (m.chart.node n).isHistory = false := by
      simp [ht, hreg]
    rw [configuration_from_root hw.toIsTree hs.root hsize htargets hreg hd hr]
    refine (Chart.completion_enteredFromRoot hw hp ht hreg (.inr hroot) _).unique hw
      (Chart.completion_resolve hone hw hp memory)
      (Chart.enteredFromRoot_coherent hw hp ht hreg _).exclusive
      (Chart.exclusive_resolve hone hw hp (Chart.exclusive_of_subsingleton hw ?_) memory)
    simp

def lightingRun : Run Unit := .start ⟨.ofList [0, 1], (), .empty⟩

theorem lighting_entered :
    lightingMachine.chart.enter .empty .empty rootId = lightingMachine.chart.resolve [] .empty ∧
      ∃ r', lightingMachine.microstep [⟨1, 0⟩] (.ofType "SWITCH") lightingRun = .ok r' ∧
        r'.state.configuration = lightingMachine.chart.resolve [5] .empty ∧
        r'.state.configuration = .ofList [0, 2, 3, 5, 6, 7] := by
  obtain ⟨hstart, hstep⟩ := entered_as_resolved build_lighting lighting_plain
  refine ⟨(hstart .empty).1, ?_⟩
  have hrun : (lightingMachine.microstep [⟨1, 0⟩] (.ofType "SWITCH") lightingRun).toOption.map
      (fun r => r.state.configuration) = some (.ofList [0, 2, 3, 5, 6, 7]) := by decide +kernel
  obtain ⟨r', hr, hconf⟩ := Option.map_eq_some_iff.1 hrun
  have hr := eq_ok_of_toOption hr
  refine ⟨r', hr, ?_, hconf⟩
  exact hstep (by decide) 5 ⟨1, 0⟩ (.ofType "SWITCH") lightingRun r' (by decide) (by decide)
    (by decide) (by decide) (by decide) hr .empty

end Machine

end Statechart
