import Mathlib.Tactic.Common
import Statechart.Proofs.Step.Run

/-! Legality over whole runs. Configurations stay full as long as no microstep uproots, and legal if
moreover transitions have one target at most and history states belong to compound states. -/

namespace Statechart

namespace Chart

variable {c : Chart}

section

variable (hw : c.WellFormed)

include hw

lemma eq_root_of_isAtomic (ha : (c.node rootId).isAtomic) {n : NodeId} (hn : n < c.size) :
    n = rootId := by
  by_contra hne
  exact not_below_of_isAtomic hw ha (below_root hw.toIsTree hn hne)

lemma full_of_isAtomic (ha : (c.node rootId).isAtomic) {s : Configuration} (hroot : rootId ∈ s)
    (hs : ∀ x ∈ s, x < c.size) : c.Full s := by
  have heq := fun x (hx : x ∈ s) => eq_root_of_isAtomic hw ha (hs x hx)
  have hk : (c.node rootId).isCompound = false ∧ (c.node rootId).isParallel = false := by
    cases hk : (c.node rootId).kind <;>
      simp_all [StateNode.isAtomic, StateNode.isCompound, StateNode.isParallel]
  refine ⟨hroot, hs, fun x hx p hp => ?_, fun x hx => ?_⟩
  · rw [heq x hx] at hp
    exact absurd (below_parent hw.toIsTree hp) (not_below_root hw.toIsTree p)
  · rw [heq x hx]
    exact ⟨hw.root_regular, by simp [hk], by simp [hk]⟩

lemma exclusive_of_isAtomic (ha : (c.node rootId).isAtomic) (s : Configuration) :
    c.Exclusive s := by
  intro n hc
  obtain ⟨i, hi, _⟩ := hw.initial n hc
  have hb := child_below hw.toIsTree hi
  rw [eq_root_of_isAtomic hw ha (below_size hb)] at hb
  exact absurd hb (not_below_root hw.toIsTree n)

lemma Enters.full (he : c.Enters .empty (c.enter .empty) rootId) :
    c.Full (c.enter .empty .empty rootId) := by
  obtain ⟨hadds, hroot⟩ := he.of_regular hw hw.size_pos hw.root_regular .empty
  have hnew := fun x (hx : x ∈ c.enter .empty .empty rootId) =>
    (hadds.new x hx).resolve_left (SortedSet.not_mem_empty x)
  refine ⟨hroot, fun x hx => ?_, fun x hx p hp => ?_, fun x hx => (hnew x hx).2.toFurnished⟩
  · rcases (hnew x hx).1 with rfl | hb
    · exact hw.size_pos
    · exact below_size hb
  · refine ((hnew x hx).2.parent p hp).resolve_right fun hroot => ?_
    exact not_below_root hw.toIsTree p (below_parent hw.toIsTree hroot)

lemma full_start (hr : c.Recalls .empty) : c.Full (c.enter .empty .empty rootId) :=
  (enter_enters hw hr hw.size_pos).full hw

lemma exclusive_start (hr : c.Recalls .empty) (hf : c.Faithful .empty) (hfilled : c.Filled) :
    c.Exclusive (c.enter .empty .empty rootId) :=
  ((enter_coherently hw hr (hf.guided hw hfilled) hw.size_pos).coherent .empty (coherent_empty c)
    fun e _ => admits_empty c e).exclusive

end

end Chart

namespace Machine

variable {C : Type} {m : Machine C} {s : MachineState C} {l : List TransitionRef}
  {conf : Configuration}

section

variable (hm : m.WellFormed)

include hm

section

variable (hr : m.chart.Recallable) (hs : m.chart.Grounded s.configuration)
  (hrecalls : m.chart.Recalls s.history) (hc : m.Compatible s.configuration s.history l)
  (hl : m.Leads s l conf)

include hr hs hrecalls

lemma recalls_step : m.chart.Recalls (m.historyAfter s l) :=
  hrecalls.recordHistory hm.chart hr hs fun _ hx =>
    ⟨exitSetOf_subset hm.chart.toIsTree hx, exitSetOf_ne_root hm.chart.toIsTree hx⟩

include hc hl

lemma full_of_branchless (ha : (m.chart.node rootId).isAtomic) : m.chart.Full conf := by
  refine Chart.full_of_isAtomic hm.chart ha ((hl rootId).2 (.inl ⟨hs.root, fun hx =>
    exitSetOf_ne_root hm.chart.toIsTree hx rfl⟩)) fun x hx => ?_
  rcases (hl x).1 hx with ⟨hx, _⟩ | hx
  · exact hs.size x hx
  · exact entrySet_lt hm (recalls_step hm hr hs hrecalls) (fun _ hmem => hc.isTransition hmem) hx

lemma grounded_of_steady
    (hsteady : ∀ r ∈ l, m.domain? (m.historyAfter s l) r = m.domain? s.history r) :
    m.chart.Grounded conf := by
  cases ha : (m.chart.node rootId).isAtomic with
  | true => exact (full_of_branchless hm hr hs hrecalls hc hl ha).grounded
  | false =>
    have hp : m.Poised s l := ⟨⟨hm, hr, ha, hs, hrecalls, hc⟩, hsteady⟩
    exact hp.grounded_after hl

end

variable (hr : m.chart.Restorable)

include hr

section

variable (hs : m.chart.Grounded s.configuration) (hrecalls : m.chart.Recalls s.history)
  (hc : m.Compatible s.configuration s.history l) (hl : m.Leads s l conf)

include hs hrecalls hc

lemma poised_of_restorable (ha : (m.chart.node rootId).isAtomic = false) : m.Poised s l :=
  Ready.poised ⟨hm, hr.toRecallable, ha, hs, hrecalls, hc⟩ hr

include hl

lemma grounded_step : m.chart.Grounded conf := by
  cases ha : (m.chart.node rootId).isAtomic with
  | true => exact (full_of_branchless hm hr.toRecallable hs hrecalls hc hl ha).grounded
  | false => exact (poised_of_restorable hm hr hs hrecalls hc ha).grounded_after hl

lemma coherent_step (hsize : ∀ x ∈ conf, x < m.chart.size)
    (hj : ∀ r ∈ l, m.chart.Joint (m.transitionAt r).targets)
    (hg : m.chart.Guided (m.historyAfter s l)) (hcoh : m.chart.Coherent s.configuration) :
    m.chart.Coherent conf := by
  cases ha : (m.chart.node rootId).isAtomic with
  | true => exact (Chart.exclusive_of_isAtomic hm.chart ha conf).coherent hsize
  | false =>
    have hp := poised_of_restorable hm hr hs hrecalls hc ha
    exact hp.coherent_after hcoh hg hl hsize hj

end

variable (hfull : m.chart.Full s.configuration) (hrecalls : m.chart.Recalls s.history)
  (hc : m.Compatible s.configuration s.history l) (hl : m.Leads s l conf)

include hfull hrecalls hc hl

lemma full_step :
    (¬ m.Uproots s l → m.chart.Full conf) ∧ (m.Uproots s l → ¬ m.chart.RegionsActive conf) := by
  cases ha : (m.chart.node rootId).isAtomic with
  | true =>
    refine ⟨fun _ => full_of_branchless hm hr.toRecallable hfull.grounded hrecalls hc hl ha,
      fun hu => ?_⟩
    have hpar := hu.1
    simp only [StateNode.isParallel, decide_eq_true_eq] at hpar
    simp [StateNode.isAtomic, hpar] at ha
  | false =>
    have hp := poised_of_restorable hm hr hfull.grounded hrecalls hc ha
    exact ⟨hp.full_after hl hfull, hp.not_regionsActive_after hl⟩

lemma exclusive_step (hone : ∀ r ∈ l, (m.transitionAt r).targets.length ≤ 1)
    (hf : m.chart.Faithful (m.historyAfter s l)) (hfilled : m.chart.Filled) (hu : ¬ m.Uproots s l)
    (hs : m.chart.Exclusive s.configuration) : m.chart.Exclusive conf := by
  have hfull' := (full_step hm hr hfull hrecalls hc hl).1 hu
  exact (coherent_step hm hr hfull.grounded hrecalls hc hl hfull'.size
    (fun r hmem => Chart.pairwise_of_length_le (hone r hmem)) (hf.guided hm.chart hfilled)
    (hs.coherent hfull.size)).exclusive

end

def Sound (m : Machine C) (conf : Configuration) (memory : Memory) : Prop :=
  m.chart.Full conf ∧ m.chart.Recalls memory

lemma sound_start (hm : m.WellFormed) (hr : m.chart.Restorable) :
    m.Sound (m.chart.enter .empty .empty rootId) .empty :=
  ⟨Chart.full_start hm.chart hr.recalls_empty, hr.recalls_empty⟩

lemma Sound.step (hm : m.WellFormed) (hr : m.chart.Restorable)
    (h : m.Sound s.configuration s.history) (hc : m.Compatible s.configuration s.history l)
    (hl : m.Leads s l conf) (hu : ¬ m.Uproots s l) : m.Sound conf (m.historyAfter s l) :=
  ⟨(full_step hm hr h.1 h.2 hc hl).1 hu, recalls_step hm hr.toRecallable h.1.grounded h.2⟩

lemma reaches_of_foldlM {limit : Nat} {events : List Event} {step step' : Step C}
    (hs : m.Reaches step.state)
    (h : events.foldlM (fun step event => m.stepWithin step.state event limit) step = .ok step') :
    m.Reaches step'.state := by
  induction events generalizing step with
  | nil => exact foldlM_nil_eq_ok h ▸ hs
  | cons event events ih =>
    obtain ⟨step₁, h₁, h⟩ := foldlM_cons_eq_ok h
    have hs₁ : m.Reaches step₁.state := hs.step h₁
    exact ih hs₁ h

lemma exists_of_run (context : C) (limit : Nat) (events : List Event) {conf : List NodeId}
    (h : ((m.initialStepFrom context limit).bind fun step =>
      events.foldlM (fun step event => m.stepWithin step.state event limit) step).toOption.map
        (fun step => step.state.configuration.elems) = some conf) :
    ∃ s, m.Reaches s ∧ s.configuration.elems = conf := by
  obtain ⟨step, h, hconf⟩ := Option.map_eq_some_iff.1 h
  obtain ⟨first, hfirst, hrest⟩ := bind_eq_ok (eq_ok_of_toOption h)
  exact ⟨step.state, reaches_of_foldlM (.start hfirst) hrest, hconf⟩

section

variable [JsonCoded C] {d : Definition} {b : Behaviors C} {context : Option C}

/-- All regions of active parallel states are active in all runs exactly if no microstep uproots. -/
theorem regionsActive_iff_not_uproots (h : build d b context = .ok m) (hr : m.chart.Restorable) :
    ((∀ s, m.Reaches s → m.chart.RegionsActive s.configuration) ∧
        ∀ event r, m.Visits event r → m.chart.RegionsActive r.state.configuration) ↔
      ∀ s l, m.Takes s l → ¬ m.Uproots s l := by
  have hm := wellFormed_of_build h
  constructor
  · rintro ⟨_, hvisits⟩
    -- up to the first microstep that uproots all is sound, and the visit after it shows the loss
    have hu : ∀ s l, m.Sound s.configuration s.history → m.Takes s l → ¬ m.Uproots s l := by
      intro s l hs ht hu
      obtain ⟨hc, event, r, hv, hl⟩ := ht.exists_visits
      exact (full_step hm hr hs.1 hs.2 hc hl).2 hu (hvisits event r hv)
    intro s l ht
    exact hu s l (takes_induction (sound_start hm hr)
      (fun s l conf hs hc ht hl => hs.step hm hr hc hl (hu s l hs ht)) ht) ht
  · intro hu
    have hstep : ∀ s l conf, m.Sound s.configuration s.history →
        m.Compatible s.configuration s.history l → m.Takes s l → m.Leads s l conf →
          m.Sound conf (m.historyAfter s l) :=
      fun s l conf hs hc ht hl => hs.step hm hr hc hl (hu s l ht)
    refine ⟨fun s hs => ?_, fun event r hv => ?_⟩
    · exact (reaches_induction (sound_start hm hr) hstep hs).1.regionsActive hm.chart.toIsTree
    · exact (visits_induction (sound_start hm hr) hstep hv).1.regionsActive hm.chart.toIsTree

def crossing : Definition := .ofRoot
  { type := some .parallel
    states := [
      ("left", { initial := some "x", states := [("x", {}), ("y", {})] }),
      ("right", { on := .ofList [("GO", [{ target := ["left.y"] }])] })] }

def crossingMachine : Machine Unit := assemble crossing () (link crossing {}).value

lemma build_crossing : build crossing {} (some ()) = .ok crossingMachine := rfl

lemma crossing_reaches : ∃ s, crossingMachine.Reaches s ∧
    ¬ crossingMachine.chart.RegionsActive s.configuration := by
  obtain ⟨s, hs, he⟩ : ∃ s, crossingMachine.Reaches s ∧ s.configuration.elems = [0, 1, 3] :=
    exists_of_run () 1 [.ofType "GO"] (by decide +kernel)
  refine ⟨s, hs, fun hall => ?_⟩
  have hmem := fun n => SortedSet.mem_elems (s := s.configuration) (a := n)
  simp only [he] at hmem
  have hright := (hmem 4).2 (hall rootId ((hmem rootId).1 (by decide)) (by decide) 4 (by decide))
  exact absurd hright (by decide)

theorem crossing_loses_region :
    ¬ ∀ (d : Definition) (b : Behaviors Unit) (context : Option Unit) (m : Machine Unit),
      build d b context = .ok m → ∀ s, m.Reaches s → m.chart.RegionsActive s.configuration := by
  intro h
  obtain ⟨s, hs, hlost⟩ := crossing_reaches
  exact hlost (h crossing {} (some ()) crossingMachine build_crossing s hs)

theorem crossing_uproots :
    ∃ s l, crossingMachine.Takes s l ∧ crossingMachine.Uproots s l := by
  by_contra hnone
  have hr : crossingMachine.chart.Restorable := Chart.restorable_of_regular
    (Chart.forall_node (P := fun _ n => n.isHistory = false) (by decide) fun _ => rfl)
  obtain ⟨s, hs, hlost⟩ := crossing_reaches
  exact hlost (((regionsActive_iff_not_uproots build_crossing hr).2
    fun s l ht hu => hnone ⟨s, l, ht, hu⟩).1 s hs)

lemma restorable_of_build (h : build d b context = .ok m) (hfilled : m.chart.Filled)
    (hcompound : ∀ n p, (m.chart.node n).isHistory → (m.chart.node n).parent? = some p →
      (m.chart.node p).isCompound)
    (hdefault : ∀ n p, d.placed[n]? = some p → (m.chart.node n).isHistory →
      p.body.target = none) :
    m.chart.Restorable ∧ m.chart.Faithful .empty := by
  have hm := wellFormed_of_build h
  have hparallel : ∀ n p, (m.chart.node n).isHistory → (m.chart.node n).parent? = some p →
      (m.chart.node p).isParallel = false := by
    intro n p hh hp
    have hc := hcompound n p hh hp
    simp only [StateNode.isCompound, decide_eq_true_eq] at hc
    simp [StateNode.isParallel, hc]
  have hchild : ∀ n p, (m.chart.node n).isHistory → (m.chart.node n).parent? = some p →
      ∃ child ∈ m.chart.regularChildren p, (m.chart.node n).historyDefault = [child] := by
    intro n p hh hp
    have hn := Chart.below_size (Chart.below_parent hm.chart.toIsTree hp)
    obtain ⟨placed, hplaced⟩ := exists_placed h hn
    exact historyDefault_compound h hplaced (hdefault n placed hplaced hh) hh hp
      (hparallel n p hh hp) (hfilled p (.inl (hcompound n p hh hp)))
  refine ⟨⟨⟨fun n p hh hp => ?_, fun _ _ _ _ n _ => hfilled n⟩, fun n p hh hp hpar => ?_⟩,
    fun n p hh hp => .inl (hchild n p hh hp)⟩
  · obtain ⟨child, hmem, hdef⟩ := hchild n p hh hp
    obtain ⟨hc, hreg⟩ := Chart.mem_regularChildren.1 hmem
    rw [hdef]
    refine ⟨List.cons_ne_nil _ _, fun x hx => ?_⟩
    obtain rfl := List.mem_singleton.1 hx
    exact ⟨hreg, Chart.child_below hm.chart.toIsTree hc⟩
  · rw [hparallel n p hh hp] at hpar
    exact absurd hpar Bool.false_ne_true

/-- Runs of machines with a root that is not parallel, transitions with one target at most, and
history states that belong to compound states and have no target of their own. -/
theorem legal_of_build (h : build d b context = .ok m)
    (hroot : (m.chart.node rootId).isParallel = false)
    (hone : ∀ t ∈ m.allTransitions, t.targets.length ≤ 1) (hfilled : m.chart.Filled)
    (hcompound : ∀ n p, (m.chart.node n).isHistory → (m.chart.node n).parent? = some p →
      (m.chart.node p).isCompound)
    (hdefault : ∀ n p, d.placed[n]? = some p → (m.chart.node n).isHistory →
      p.body.target = none) :
    (∀ s, m.Reaches s → m.chart.Legal s.configuration) ∧
      ∀ event r, m.Visits event r → m.chart.Legal r.state.configuration := by
  have hm := wellFormed_of_build h
  have ht := hm.chart.toIsTree
  obtain ⟨hr, hf⟩ := restorable_of_build h hfilled hcompound hdefault
  let P : Configuration → Memory → Prop := fun conf memory =>
    m.Sound conf memory ∧ m.chart.Exclusive conf ∧ m.chart.Faithful memory
  have hstart : P (m.chart.enter .empty .empty rootId) .empty :=
    ⟨sound_start hm hr, Chart.exclusive_start hm.chart hr.recalls_empty hf hfilled, hf⟩
  have hstep : ∀ s l conf, P s.configuration s.history → m.Compatible s.configuration s.history l →
      m.Takes s l → m.Leads s l conf → P conf (m.historyAfter s l) := by
    rintro s l conf ⟨hs, hexcl, hf⟩ hc _ hl
    have hu : ¬ m.Uproots s l := by
      rintro ⟨hpar, _⟩
      rw [hroot] at hpar
      exact Bool.false_ne_true hpar
    have hone' : ∀ r ∈ l, (m.transitionAt r).targets.length ≤ 1 := fun r hmem => by
      obtain ⟨_, _, _, hv, _⟩ := hc.chosen r hmem
      exact hone _ (mem_allTransitions hv)
    have hexit : ∀ x ∈ m.exitSetOf s.configuration s.history l, x ∈ s.configuration :=
      fun x hx => exitSetOf_subset ht hx
    have hf' := hf.recordHistory hm.chart hcompound hs.1 hexcl hexit
    exact ⟨hs.step hm hr hc hl hu,
      exclusive_step hm hr hs.1 hs.2 hc hl hone' hf' hfilled hu hexcl, hf'⟩
  refine ⟨fun s hs => ?_, fun event r hv => ?_⟩
  · obtain ⟨hs, hexcl, _⟩ := reaches_induction hstart hstep hs
    exact hs.1.legal ht hexcl
  · obtain ⟨hs, hexcl, _⟩ := visits_induction hstart hstep hv
    exact hs.1.legal ht hexcl

def pausing : Definition := .ofRoot
  { initial := some "work"
    states := [
      ("work", {
        initial := some "both"
        on := .ofList [("PAUSE", [{ target := ["paused"] }])]
        states := [
          ("both", {
            type := some .parallel
            states := [
              ("a", {
                initial := some "a1"
                states := [
                  ("a1", { on := .ofList [("GO", [{ target := ["a2"] }])] }),
                  ("a2", {})] }),
              ("b", {})] }),
          ("last", { history := some (.kind .deep) })] }),
      ("paused", { on := .ofList [("RESUME", [{ target := ["work.last"] }])] })] }

def pausingMachine : Machine Unit := assemble pausing () (link pausing {}).value

lemma build_pausing : build pausing {} (some ()) = .ok pausingMachine := rfl

lemma pausing_reaches :
    ∃ s, pausingMachine.Reaches s ∧ s.configuration.elems = [0, 1, 2, 3, 5, 6] :=
  exists_of_run () 1 [.ofType "GO", .ofType "PAUSE", .ofType "RESUME"] (by decide +kernel)

theorem pausing_legal :
    ∃ s, pausingMachine.Reaches s ∧ s.configuration.elems = [0, 1, 2, 3, 5, 6] ∧
      pausingMachine.chart.Legal s.configuration := by
  obtain ⟨s, hs, he⟩ := pausing_reaches
  refine ⟨s, hs, he, (legal_of_build build_pausing (by decide) (by decide) ?_ ?_ ?_).1 s hs⟩
  · exact Chart.forall_node
      (P := fun n node => node.isCompound ∨ node.isParallel →
        pausingMachine.chart.regularChildren n ≠ []) (by decide) fun _ h => absurd h (by decide)
  · have hparent := Chart.forall_node (c := pausingMachine.chart)
      (P := fun _ node => node.isHistory → ∀ p ∈ node.parent?,
        (pausingMachine.chart.node p).isCompound) (by decide) fun _ h => absurd h (by decide)
    exact fun n p hh hp => hparent n hh p hp
  · have htarget : ∀ p ∈ pausing.placed, p.body.target = none := by decide
    exact fun n p hp _ => htarget p (List.mem_of_getElem? hp)

end

end Machine

end Statechart
