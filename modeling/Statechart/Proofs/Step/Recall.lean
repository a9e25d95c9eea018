import Mathlib.Tactic.Common
import Statechart.Proofs.Step.Legality

/-! What history states remember, and what entering a deep one brings back. -/

namespace Statechart

namespace Chart

variable {c : Chart} {s s' : Configuration} {memory : Memory}
  {enter : Configuration → NodeId → Configuration} {n p x : NodeId} {stop : Option NodeId}
  {kind : HistoryKind} {refs : List NodeId} {depth : Nat}

structure Recollects (c : Chart) (s : Configuration) (p : NodeId) (kind : HistoryKind)
    (refs : List NodeId) : Prop where
  sorted : refs.Pairwise (· < ·)
  mem_iff : ∀ n, n ∈ refs ↔ n ∈ s ∧ match kind with
    | .deep => (c.node n).isAtomic ∧ c.Below n p
    | .shallow => (c.node n).parent? = some p

lemma recollects_remembered (ht : c.IsTree) (s : Configuration) (p : NodeId) (kind : HistoryKind) :
    c.Recollects s p kind (Run.remembered c s p kind) := by
  cases kind with
  | deep => exact ⟨(s.sorted.filter _).filter _, fun n => Run.mem_remembered_deep ht⟩
  | shallow => exact ⟨s.sorted.filter _, fun n => Run.mem_remembered_shallow⟩

lemma enterWithin_of_isAtomic (h : (c.node n).isAtomic) (s : Configuration) :
    c.enterWithin memory (depth + 1) s n = s.insert n := by
  have hk : (c.node n).isHistory = false ∧ (c.node n).isCompound = false ∧
      (c.node n).isParallel = false := by
    cases hk : (c.node n).kind <;>
      simp_all [StateNode.isAtomic, StateNode.isHistory, StateNode.historyKind?,
        StateNode.isCompound, StateNode.isParallel]
  simp [enterWithin, hk]

lemma foldl_enterWithin_of_isAtomic (h : ∀ n ∈ refs, (c.node n).isAtomic) (s : Configuration) :
    refs.foldl (c.enterWithin memory (depth + 1)) s = s.insertAll refs := by
  induction refs generalizing s with
  | nil => rfl
  | cons n refs ih =>
    rw [List.foldl_cons, enterWithin_of_isAtomic (h n List.mem_cons_self),
      ih fun n hn => h n (List.mem_cons_of_mem _ hn)]
    rfl

lemma addAncestors_eq_insertAll (h : ∀ a ∈ c.ancestorsBelow n stop, (c.node a).isParallel →
      ∀ s', (∀ x ∈ s, x ∈ s') → c.fillRegions enter s' a = s') :
    c.addAncestors enter s n stop = s.insertAll (c.ancestorsBelow n stop) := by
  rw [addAncestors]
  generalize c.ancestorsBelow n stop = l at h
  induction l generalizing s with
  | nil => rfl
  | cons a l ih =>
    have hs : ∀ x ∈ s, x ∈ s.insert a := fun x hx => SortedSet.mem_insert.2 (.inr hx)
    have ha : (if (c.node a).isParallel then c.fillRegions enter (s.insert a) a else s.insert a) =
        s.insert a := by
      split
      · rename_i hp
        exact h a List.mem_cons_self hp _ hs
      · rfl
    rw [List.foldl_cons, ha]
    apply ih
    intro a' ha' hp s' hs'
    exact h a' (List.mem_cons_of_mem _ ha') hp s' fun x hx => hs' x (hs x hx)

lemma mem_foldl_addAncestors (h : ∀ t ∈ refs, ∀ a ∈ c.ancestorsBelow t stop,
      (c.node a).isParallel → ∀ s', (∀ x ∈ s, x ∈ s') → c.fillRegions enter s' a = s') :
    x ∈ refs.foldl (fun s t => c.addAncestors enter s t stop) s ↔
      x ∈ s ∨ ∃ t ∈ refs, x ∈ c.ancestorsBelow t stop := by
  induction refs generalizing s with
  | nil => simp
  | cons t refs ih =>
    rw [List.foldl_cons, addAncestors_eq_insertAll (h t List.mem_cons_self), ih,
      SortedSet.mem_insertAll, List.exists_mem_cons_iff, or_assoc]
    intro t' ht' a ha hp s' hs'
    exact h t' (List.mem_cons_of_mem _ ht') a ha hp s' fun x hx =>
      hs' x (SortedSet.mem_insertAll.2 (.inl hx))

section

variable (ht : c.IsTree) (hs : c.Legal s)
  (hfilled : ∀ n, (c.node n).isParallel → c.regularChildren n ≠ [])

include ht hs hfilled

lemma Legal.exists_atomic (hn : n ∈ s) (hlt : n < c.size) :
    ∃ x ∈ s, (c.node x).isAtomic ∧ c.Within x n := by
  refine exists_atomic_within ht hn hlt fun a ha _ => ?_
  rcases kind_cases (hs.regular a ha) with hatomic | hc | hp
  · exact .inl hatomic
  · obtain ⟨child, ⟨hchild, hmem⟩, _⟩ := hs.compound a ha hc
    exact .inr ⟨child, hchild, hmem⟩
  · obtain ⟨region, hregion⟩ := List.exists_mem_of_ne_nil _ (hfilled a hp)
    exact .inr ⟨region, (mem_regularChildren.1 hregion).1, hs.parallel a ha hp region hregion⟩

lemma Legal.fillRegions_eq_self (hn : n ∈ s) (hp : (c.node n).isParallel)
    (hs' : ∀ x ∈ s, (c.node x).isAtomic → c.Below x n → x ∈ s') :
    c.fillRegions (c.enterWithin memory (depth + 1)) s' n = s' := by
  apply Chart.fillRegions_eq_self
  intro r hr
  have hb := regularChild_below ht hr
  obtain ⟨x, hx, hxa, hxr⟩ := hs.exists_atomic ht hfilled (hs.parallel n hn hp r hr) (below_size hb)
  have hmem := hs' x hx hxa (hxr.trans_below ht hb)
  rcases hxr with rfl | hxr
  · right
    rw [enterWithin_of_isAtomic hxa, SortedSet.insert_of_mem hmem]
  · exact .inl (List.any_eq_true.2 ⟨x, hmem, (ht.isDescendant_iff x r).2 hxr⟩)

lemma Legal.enter_recollected (hh : (c.node n).isHistory) (hp : (c.node n).parent? = some p)
    (hrefs : c.Recollects s p .deep refs) (hget : memory.get? n = some refs) :
    c.enter memory .empty n = s.filter (c.isDescendant · p) := by
  have htargets : c.historyTargets memory n = refs := by
    rw [historyTargets, hget, Option.getD_some]
  have hatomic : ∀ t ∈ refs, (c.node t).isAtomic := fun t htr => ((hrefs.mem_iff t).1 htr).2.1
  obtain ⟨depth, hdepth⟩ := exists_entryDepth (below_size (below_parent ht hp))
  rw [enter, hdepth, enterWithin, if_pos hh]
  simp only [htargets, hp, foldl_enterWithin_of_isAtomic hatomic]
  refine SortedSet.ext fun x => ?_
  rw [mem_foldl_addAncestors, SortedSet.mem_insertAll, SortedSet.mem_filter, ht.isDescendant_iff]
  · constructor
    · rintro ((hx | hx) | ⟨t, htr, hx⟩)
      · exact absurd hx (SortedSet.not_mem_empty x)
      · obtain ⟨hxs, _, hb⟩ := (hrefs.mem_iff x).1 hx
        exact ⟨hxs, hb⟩
      · obtain ⟨hts, _, hb⟩ := (hrefs.mem_iff t).1 htr
        exact ⟨mem_of_within ht hs.parent hts (below_of_mem_ancestorsBelow hx).within,
          below_of_mem_ancestorsBelow_some ht hb hx⟩
    · rintro ⟨hxs, hb⟩
      -- on the way up from an atomic state that is remembered
      obtain ⟨t, hts, hta, htx⟩ := hs.exists_atomic ht hfilled hxs (below_size hb)
      have htr := (hrefs.mem_iff t).2 ⟨hts, hta, htx.trans_below ht hb⟩
      rcases htx with rfl | htx
      · exact .inl (.inr htr)
      · refine .inr ⟨t, htr, (mem_ancestorsBelow_or_within ht p htx).resolve_right fun hpx => ?_⟩
        exact not_below_self ht _ (hb.trans_within ht hpx)
  · intro t htr a ha hpar s' hs'
    obtain ⟨hts, _, hb⟩ := (hrefs.mem_iff t).1 htr
    have hap := below_of_mem_ancestorsBelow_some ht hb ha
    apply hs.fillRegions_eq_self ht hfilled
      (mem_of_within ht hs.parent hts (below_of_mem_ancestorsBelow ha).within) hpar
    intro x hx hxa hxb
    exact hs' x (SortedSet.mem_insertAll.2
      (.inr ((hrefs.mem_iff x).2 ⟨hx, hxa, hxb.trans ht hap⟩)))

end

end Chart

namespace Machine

variable {C : Type} {m : Machine C} [JsonCoded C] {d : Definition} {b : Behaviors C}
  {context : Option C}

/-- History states of exited states remember what was active, the others what they did before. A
deep one brings back all that was active below its parent. -/
theorem history_exact (h : build d b context = .ok m)
    (hfilled : ∀ n, (m.chart.node n).isParallel → m.chart.regularChildren n ≠ [])
    {l : List TransitionRef} {event : Event} {r r' : Run C}
    (hs : m.chart.Legal r.state.configuration) (hr : m.microstep l event r = .ok r') :
    ∀ n kind p, (m.chart.node n).historyKind? = some kind → (m.chart.node n).parent? = some p →
      if p ∈ m.exitSetOf r.state.configuration r.state.history l then
        ∃ refs, r'.state.history.get? n = some refs ∧
          m.chart.Recollects r.state.configuration p kind refs ∧
          (kind = .deep → m.chart.enter r'.state.history .empty n =
            r.state.configuration.filter (m.chart.isDescendant · p))
      else r'.state.history.get? n = r.state.history.get? n := by
  intro n kind p hk hp
  have ht := (wellFormed_of_build h).chart.toIsTree
  have hget := Run.get?_recordHistory (s := r.state.configuration) ht r.state.history
    (m.exitSetOf r.state.configuration r.state.history l).elems hk hp
  rw [← historyAfter, ← (microstep_mem hr).1] at hget
  split
  · rename_i hexit
    rw [if_pos (SortedSet.mem_elems.2 hexit)] at hget
    have hrefs := Chart.recollects_remembered ht r.state.configuration p kind
    refine ⟨_, hget, hrefs, ?_⟩
    rintro rfl
    exact hs.enter_recollected ht hfilled (by simp [StateNode.isHistory, hk]) hp hrefs hget
  · rename_i hstays
    rwa [if_neg (mt SortedSet.mem_elems.1 hstays)] at hget

def pausingRun : Run Unit := .start ⟨.ofList [0, 1, 2, 3, 5, 6], (), .empty⟩

theorem pausing_restores :
    ∃ r', pausingMachine.microstep [⟨1, 0⟩] (.ofType "PAUSE") pausingRun = .ok r' ∧
      pausingMachine.chart.Recollects (.ofList [0, 1, 2, 3, 5, 6]) 1 .deep [5, 6] ∧
      pausingMachine.chart.enter r'.state.history .empty 7 = .ofList [2, 3, 5, 6] := by
  have hfilled := Chart.forall_node (c := pausingMachine.chart)
    (P := fun n node => node.isParallel → pausingMachine.chart.regularChildren n ≠ []) (by decide)
    fun _ h => absurd h (by decide)
  have hlegal : pausingMachine.chart.Legal pausingRun.state.configuration := by decide
  have hrun : (pausingMachine.microstep [⟨1, 0⟩] (.ofType "PAUSE") pausingRun).toOption.map
      (fun r => r.state.history.get? 7) = some (some [5, 6]) := by decide +kernel
  obtain ⟨r', hr, hmemory⟩ := Option.map_eq_some_iff.1 hrun
  have hr := eq_ok_of_toOption hr
  have hexact := history_exact build_pausing hfilled hlegal hr 7 .deep 1 (by decide) (by decide)
  rw [if_pos (by decide)] at hexact
  obtain ⟨refs, hget, hrefs, henter⟩ := hexact
  obtain rfl : [5, 6] = refs := Option.some.inj (hmemory.symm.trans hget)
  exact ⟨r', hr, hrefs, (henter rfl).trans (by decide)⟩

end Machine

end Statechart
