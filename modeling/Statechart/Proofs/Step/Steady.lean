import Mathlib.Tactic.Common
import Statechart.Proofs.Step.Legality

/-! One domain for each transition. Over whole runs the domain that is exited is the one that is
entered, and no state is active without its parent, as long as no targets collapse. -/

namespace Statechart

def Chart.ParentClosed (c : Chart) (s : Configuration) : Prop :=
  ∀ n ∈ s, ∀ p, (c.node n).parent? = some p → p ∈ s

instance (c : Chart) (s : Configuration) : Decidable (c.ParentClosed s) :=
  inferInstanceAs (Decidable (∀ n ∈ s, ∀ p, (c.node n).parent? = some p → p ∈ s))

namespace Machine

variable {C : Type} {m : Machine C} {s : MachineState C} {l : List TransitionRef}
  {conf : Configuration}

def Steady (m : Machine C) (s : MachineState C) (l : List TransitionRef) : Prop :=
  ∀ r ∈ l, m.domain? (m.historyAfter s l) r = m.domain? s.history r

instance : Decidable (m.Steady s l) :=
  inferInstanceAs (Decidable (∀ r ∈ l, m.domain? (m.historyAfter s l) r = m.domain? s.history r))

lemma not_mem_exitSetOf_of_isAtomic (hw : m.chart.WellFormed)
    (ha : (m.chart.node rootId).isAtomic) (hs : ∀ x ∈ s.configuration, x < m.chart.size)
    (x : NodeId) : x ∉ m.exitSetOf s.configuration s.history l := by
  intro hx
  have hlt := hs x (exitSetOf_subset hw.toIsTree hx)
  exact exitSetOf_ne_root hw.toIsTree hx (Chart.eq_root_of_isAtomic hw ha hlt)

section

variable (hm : m.WellFormed) (hr : m.chart.Recallable)

include hm hr

lemma steady_iff (hs : m.chart.Grounded s.configuration) (hrecalls : m.chart.Recalls s.history)
    (hc : m.Compatible s.configuration s.history l) :
    m.Steady s l ↔ ∀ r ∈ l, ¬ m.Collapses s l r := by
  cases ha : (m.chart.node rootId).isAtomic with
  | true =>
    have hnone := not_mem_exitSetOf_of_isAtomic (l := l) hm.chart ha hs.size
    refine iff_of_true (fun r _ => ?_) fun r _ ⟨p, hp, _⟩ => hnone p hp.1
    have hnil := List.eq_nil_iff_forall_not_mem.2 hnone
    rw [historyAfter, hnil]
    rfl
  | false =>
    have hp : m.Ready s l := ⟨hm, hr, ha, hs, hrecalls, hc⟩
    exact forall₂_congr fun r hmem => hp.domain?_stable_iff hmem

def Rooted (m : Machine C) (conf : Configuration) (memory : Memory) : Prop :=
  m.chart.Grounded conf ∧ m.chart.Recalls memory

lemma rooted_start : m.Rooted (m.chart.enter .empty .empty rootId) .empty :=
  ⟨(Chart.full_start hm.chart hr.recalls_empty).grounded, hr.recalls_empty⟩

lemma Rooted.step (h : m.Rooted s.configuration s.history)
    (hc : m.Compatible s.configuration s.history l) (hl : m.Leads s l conf)
    (hsteady : m.Steady s l) : m.Rooted conf (m.historyAfter s l) :=
  ⟨grounded_of_steady hm hr h.1 h.2 hc hl hsteady, recalls_step hm hr h.1 h.2⟩

end

lemma exists_takes (context : C) (limit : Nat) (event : Event)
    (p : MachineState C → List TransitionRef → Bool)
    (h : ((m.initialStepFrom context limit).bind fun step =>
      (m.select step.state event false).bind fun l =>
        (m.microstep l event (.start step.state)).map fun _ =>
          !l.isEmpty && p step.state l).toOption = some true) :
    ∃ s l, m.Takes s l ∧ p s l := by
  obtain ⟨step, hstep, h⟩ := bind_eq_ok (eq_ok_of_toOption h)
  obtain ⟨l, hl, h⟩ := bind_eq_ok h
  cases hr : m.microstep l event (.start step.state) with
  | error e => exact absurd h (by simp [hr, Except.map])
  | ok r =>
    simp only [hr, Except.map, Except.ok.injEq, Bool.and_eq_true, Bool.not_eq_true',
      List.isEmpty_eq_false_iff] at h
    exact ⟨step.state, l, .first (.start hstep) hl h.1 hr, h.2⟩

section

variable [JsonCoded C] {d : Definition} {b : Behaviors C} {context : Option C}

/-- All microsteps exit and enter the same domains, and no state is ever active without its parent,
exactly if no targets collapse. -/
theorem steady_iff_not_collapses (h : build d b context = .ok m) (hr : m.chart.Recallable) :
    ((∀ s l, m.Takes s l → m.Steady s l) ∧
        (∀ s, m.Reaches s → m.chart.ParentClosed s.configuration) ∧
        ∀ event r, m.Visits event r → m.chart.ParentClosed r.state.configuration) ↔
      ∀ s l, m.Takes s l → ∀ r ∈ l, ¬ m.Collapses s l r := by
  have hm := wellFormed_of_build h
  have hstart := rooted_start hm hr
  constructor
  · rintro ⟨hsteady, _⟩ s l ht
    have hrooted : m.Rooted s.configuration s.history := takes_induction hstart
      (fun s l conf hs hc ht hl => hs.step hm hr hc hl (hsteady s l ht)) ht
    obtain ⟨hc, _⟩ := ht.exists_visits
    exact (steady_iff hm hr hrooted.1 hrooted.2 hc).1 (hsteady s l ht)
  · intro hnot
    have hsteady : ∀ s l, m.Rooted s.configuration s.history →
        m.Compatible s.configuration s.history l → m.Takes s l → m.Steady s l :=
      fun s l hs hc ht => (steady_iff hm hr hs.1 hs.2 hc).2 (hnot s l ht)
    have hstep : ∀ s l conf, m.Rooted s.configuration s.history →
        m.Compatible s.configuration s.history l → m.Takes s l → m.Leads s l conf →
          m.Rooted conf (m.historyAfter s l) :=
      fun s l conf hs hc ht hl => hs.step hm hr hc hl (hsteady s l hs hc ht)
    refine ⟨fun s l ht => ?_, fun s hs => ?_, fun event r hv => ?_⟩
    · exact hsteady s l (takes_induction hstart hstep ht) ht.exists_visits.1 ht
    · exact (reaches_induction hstart hstep hs).1.parent
    · exact (visits_induction hstart hstep hv).1.parent

def folding : Definition := .ofRoot
  { initial := some "outer"
    states := [
      ("outer", {
        type := some .parallel
        states := [
          ("part", {
            initial := some "x"
            states := [
              ("x", { on := .ofList [("AGAIN", [{ target := ["#machine.outer.last"] }])] }),
              ("y", {})] }),
          ("last", { history := some (.kind .deep) })] })] }

def foldingMachine : Machine Unit := assemble folding () (link folding {}).value

lemma build_folding : build folding {} (some ()) = .ok foldingMachine := rfl

lemma folding_orphans :
    ∃ s, foldingMachine.Reaches s ∧ ¬ foldingMachine.chart.ParentClosed s.configuration := by
  obtain ⟨s, hs, he⟩ : ∃ s, foldingMachine.Reaches s ∧ s.configuration.elems = [0, 2, 3] :=
    exists_of_run () 1 [.ofType "AGAIN"] (by decide +kernel)
  refine ⟨s, hs, fun hclosed => ?_⟩
  have hmem := fun n => SortedSet.mem_elems (s := s.configuration) (a := n)
  simp only [he] at hmem
  exact absurd ((hmem 1).2 (hclosed 2 ((hmem 2).1 (by decide)) 1 (by decide))) (by decide)

theorem folding_collapses :
    ∃ s l, foldingMachine.Takes s l ∧ ∃ r ∈ l, foldingMachine.Collapses s l r := by
  by_contra hnone
  obtain ⟨s, hs, horphan⟩ := folding_orphans
  have hr : foldingMachine.chart.Recallable := Chart.recallable_of_ids (by decide)
  exact horphan (((steady_iff_not_collapses build_folding hr).2
    fun s l ht r hr hc => hnone ⟨s, l, ht, r, hr, hc⟩).2.1 s hs)

theorem folding_unsteady :
    build folding {} (some ()) = .ok foldingMachine ∧
      (∃ s l, foldingMachine.Takes s l ∧ ¬ foldingMachine.Steady s l) ∧
      ∃ s, foldingMachine.Reaches s ∧ ¬ foldingMachine.chart.ParentClosed s.configuration := by
  obtain ⟨s, l, ht, hnot⟩ := exists_takes (m := foldingMachine) () 1 (.ofType "AGAIN")
    (fun s l => !decide (foldingMachine.Steady s l)) (by decide +kernel)
  exact ⟨build_folding, ⟨s, l, ht, by simpa using hnot⟩, folding_orphans⟩

end

end Machine

end Statechart
