import Mathlib.Tactic.Common
import Statechart.Proofs.Step.Legality

/-! Transitions with several targets. Building takes any targets; compound states keep to one active
child as long as the targets of each transition stand beside each other. -/

namespace Statechart

namespace Machine

variable {C : Type} {m : Machine C} {s : MachineState C} {l : List TransitionRef}
  {conf : Configuration}

structure Parted (m : Machine C) (conf : Configuration) (memory : Memory) : Prop where
  grounded : m.chart.Grounded conf
  coherent : m.chart.Coherent conf
  recalls : m.chart.Recalls memory
  guided : m.chart.Guided memory

lemma parted_start (hm : m.WellFormed) (hr : m.chart.Restorable)
    (hg : m.chart.Guided .empty) : m.Parted (m.chart.enter .empty .empty rootId) .empty := by
  have hc := hm.chart
  refine ⟨(Chart.full_start hc hr.recalls_empty).grounded, ?_, hr.recalls_empty, hg⟩
  exact (Chart.enter_coherently hc hr.recalls_empty hg hc.size_pos).coherent .empty
    (Chart.coherent_empty _) fun e _ => Chart.admits_empty _ e

lemma Parted.step (hm : m.WellFormed) (hr : m.chart.Restorable)
    (hj : ∀ t ∈ m.allTransitions, m.chart.Joint t.targets)
    (h : m.Parted s.configuration s.history) (hc : m.Compatible s.configuration s.history l)
    (hl : m.Leads s l conf) : m.Parted conf (m.historyAfter s l) := by
  have hgrounded := grounded_step hm hr h.grounded h.recalls hc hl
  have hguided : m.chart.Guided (m.historyAfter s l) :=
    h.guided.recordHistory hm.chart hr.toRecallable h.grounded h.coherent _
  have hjoint : ∀ r ∈ l, m.chart.Joint (m.transitionAt r).targets :=
    fun r hmem => hj _ (mem_allTransitions (hc.isTransition hmem))
  exact ⟨hgrounded, coherent_step hm hr h.grounded h.recalls hc hl hgrounded.size hjoint hguided
    h.coherent, recalls_step hm hr.toRecallable h.grounded h.recalls, hguided⟩

section

variable [JsonCoded C] {d : Definition} {b : Behaviors C} {context : Option C}

lemma spread_default (h : build d b context = .ok m) (n : NodeId) :
    (m.chart.node n).historyDefault.Pairwise m.chart.Beside := by
  rcases historyDefault_cases h n with hle | ⟨p, _, hp, he⟩
  · exact Chart.pairwise_of_length_le hle
  · change (m.node n).historyDefault.Pairwise m.chart.Beside
    rw [he]
    exact Chart.children_beside hp ((children_nodup h p).filter _) fun x hx =>
      (Chart.mem_regularChildren.1 hx).1

/-- Runs of machines whose transitions have targets in different regions, if history states lead
back below their parents and no parallel state is between a default and the parent. -/
theorem exclusive_of_joint (h : build d b context = .ok m) (hr : m.chart.Restorable)
    (hdirect : ∀ n p, (m.chart.node n).isHistory → (m.chart.node n).parent? = some p →
      ∀ x ∈ (m.chart.node n).historyDefault, ∀ a, m.chart.Below x a → m.chart.Below a p →
        (m.chart.node a).isParallel = false)
    (hj : ∀ t ∈ m.allTransitions, m.chart.Joint t.targets) :
    (∀ s, m.Reaches s → m.chart.Exclusive s.configuration) ∧
      ∀ event r, m.Visits event r → m.chart.Exclusive r.state.configuration := by
  have hm := wellFormed_of_build h
  have hguided : m.chart.Guided .empty := by
    refine ⟨fun n _ _ _ => spread_default h n, fun n p hh hp x hx a hxa hap hpar => ?_⟩
    exact absurd ((hdirect n p hh hp x hx a hxa hap).symm.trans hpar) Bool.false_ne_true
  have hstart := parted_start hm hr hguided
  have hstep : ∀ s l conf, m.Parted s.configuration s.history →
      m.Compatible s.configuration s.history l → m.Takes s l → m.Leads s l conf →
        m.Parted conf (m.historyAfter s l) :=
    fun s l conf hs hc _ hl => hs.step hm hr hj hc hl
  exact ⟨fun s hs => (reaches_induction hstart hstep hs).coherent.exclusive,
    fun event r hv => (visits_induction hstart hstep hv).coherent.exclusive⟩

def forking : Definition := .ofRoot
  { initial := some "idle"
    states := [
      ("idle", {
        on := .ofList [("GO", [{ target := ["both.left.y", "both.right.y"] }]),
          ("BACK", [{ target := ["both.last"] }])] }),
      ("both", {
        type := some .parallel
        on := .ofList [("PAUSE", [{ target := ["idle"] }])]
        states := [
          ("left", { initial := some "x", states := [("x", {}), ("y", {})] }),
          ("right", { initial := some "x", states := [("x", {}), ("y", {})] }),
          ("last", { history := some (.kind .deep) })] })] }

def forkingMachine : Machine Unit := assemble forking () (link forking {}).value

lemma build_forking : build forking {} (some ()) = .ok forkingMachine := rfl

lemma forking_reaches :
    ∃ s, forkingMachine.Reaches s ∧ s.configuration.elems = [0, 2, 3, 5, 6, 8] :=
  exists_of_run () 1 [.ofType "GO", .ofType "PAUSE", .ofType "BACK"] (by decide +kernel)

lemma forking_restorable : forkingMachine.chart.Restorable := by
  have hregions := Chart.forall_node (c := forkingMachine.chart)
    (P := fun _ node => node.isHistory → ∀ p ∈ node.parent?,
      ∃ r ∈ forkingMachine.chart.regularChildren p,
        ∃ r' ∈ forkingMachine.chart.regularChildren p, r ≠ r')
    (by decide) fun _ h => absurd h (by decide)
  exact ⟨Chart.recallable_of_ids (by decide), fun n p hh hp _ => hregions n hh p hp⟩

theorem forking_exclusive :
    ∃ s, forkingMachine.Reaches s ∧ s.configuration.elems = [0, 2, 3, 5, 6, 8] ∧
      forkingMachine.chart.Exclusive s.configuration := by
  obtain ⟨s, hs, he⟩ := forking_reaches
  refine ⟨s, hs, he, (exclusive_of_joint build_forking forking_restorable ?_ ?_).1 s hs⟩
  · have hdirect := Chart.forall_node (c := forkingMachine.chart)
      (P := fun _ node => node.isHistory → ∀ p ∈ node.parent?, ∀ x ∈ node.historyDefault,
        ∀ a ∈ (forkingMachine.chart.node x).ancestors, forkingMachine.chart.Below a p →
          (forkingMachine.chart.node a).isParallel = false)
      (by decide) fun _ h => absurd h (by decide)
    exact fun n p hh hp => hdirect n hh p hp
  · have hforks : ∀ t ∈ forkingMachine.allTransitions, t.targets.Pairwise fun x y =>
        ∃ n ∈ (forkingMachine.chart.node x).ancestors, (forkingMachine.chart.node n).isParallel ∧
          forkingMachine.chart.Forks n (forkingMachine.chart.anchor x)
            (forkingMachine.chart.anchor y) := by decide
    exact fun t ht => (hforks t ht).imp fun ⟨n, _, hp, hf⟩ => ⟨n, hp, hf⟩

def splitting : Definition := .ofRoot
  { initial := some "idle"
    states := [
      ("idle", { on := .ofList [("GO", [{ target := ["a", "b"] }])] }),
      ("a", {}),
      ("b", {})] }

def splittingMachine : Machine Unit := assemble splitting () (link splitting {}).value

lemma build_splitting : build splitting {} (some ()) = .ok splittingMachine := rfl

lemma splitting_reaches :
    ∃ s, splittingMachine.Reaches s ∧ s.configuration.elems = [0, 2, 3] :=
  exists_of_run () 1 [.ofType "GO"] (by decide +kernel)

theorem splitting_activates_both :
    ¬ ∀ (d : Definition) (b : Behaviors Unit) (context : Option Unit) (m : Machine Unit),
      build d b context = .ok m → ∀ s, m.Reaches s → ∀ n, (m.chart.node n).isCompound →
        ∀ x ∈ (m.chart.node n).children, ∀ y ∈ (m.chart.node n).children,
          x ∈ s.configuration → y ∈ s.configuration → x = y := by
  intro h
  obtain ⟨s, hs, he⟩ := splitting_reaches
  have hmem := fun n => SortedSet.mem_elems (s := s.configuration) (a := n)
  simp only [he] at hmem
  have heq := h splitting {} (some ()) splittingMachine build_splitting s hs rootId (by decide)
    2 (by decide) 3 (by decide) ((hmem 2).1 (by decide)) ((hmem 3).1 (by decide))
  exact absurd heq (by decide)

end

end Machine

end Statechart
