import Mathlib.Tactic.Common
import Statechart.Proofs.Configuration.Completion
import Statechart.Proofs.Configuration.Legal
import Statechart.Proofs.Step.Optimal
import Statechart.Proofs.Step.Run

/-! Machines that are done. Nothing but final states can take part in what comes then, yet
transitions of theirs and of the states around them are still selected: an event is ignored only if
none of these is enabled. -/

namespace Statechart

namespace Chart

variable {c : Chart} {s : Configuration} {n x : NodeId}

lemma isFinal_of_finalWithin (hw : c.WellFormed) (hs : c.Legal s) {depth : Nat}
    (h : c.finalWithin s depth n) (hn : n ∈ s) (hx : x ∈ s) (ha : (c.node x).isAtomic)
    (hxn : c.Within x n) : (c.node x).isFinal := by
  have ht := hw.toIsTree
  induction depth generalizing n with
  | zero => exact absurd h (by simp [finalWithin])
  | succ depth ih =>
    have hbelow (hk : (c.node n).isAtomic = false) : ∃ child ∈ (c.node n).children,
        child ∈ s ∧ c.Within x child := by
      have hb : c.Below x n := hxn.resolve_left fun he => by
        rw [← he, ha] at hk
        exact Bool.false_ne_true hk.symm
      obtain ⟨child, hchild, hxc⟩ := exists_child ht hb
      exact ⟨child, hchild, mem_of_within ht hs.parent hx hxc, hxc⟩
    have hend {f : NodeId} (hf : (c.node f).isFinal) (hxf : c.Within x f) :
        (c.node x).isFinal := by
      obtain rfl := hxf.resolve_right (not_below_final hw hf x)
      exact hf
    rw [finalWithin] at h
    split at h
    · rename_i hc
      obtain ⟨child, hchild, hcs, hxc⟩ := hbelow (by
        simp only [StateNode.isCompound, decide_eq_true_eq] at hc
        simp [StateNode.isAtomic, hc])
      obtain ⟨f, hf, hfs⟩ := List.any_eq_true.1 h
      obtain ⟨hfs, hff⟩ := Bool.and_eq_true_iff.1 hfs
      obtain rfl := (hs.compound n hn hc).unique ⟨hchild, hcs⟩ ⟨hf, of_decide_eq_true hfs⟩
      exact hend hff hxc
    · split at h
      · rename_i hp
        obtain ⟨child, hchild, hcs, hxc⟩ := hbelow (by
          simp only [StateNode.isParallel, decide_eq_true_eq] at hp
          simp [StateNode.isAtomic, hp])
        have hreg := mem_regularChildren.2 ⟨hchild, hs.regular child hcs⟩
        rcases Bool.or_eq_true_iff.1 (List.all_eq_true.1 h child hreg) with hf | hf
        · exact hend (Bool.and_eq_true_iff.1 hf).1 hxc
        · exact ih hf hcs hxc
      · exact absurd h Bool.false_ne_true

end Chart

namespace Machine

variable {C : Type} {m : Machine C} {s : MachineState C} {event : Event} {eventless : Bool}
  {n : NodeId} {refs l : List TransitionRef} {limit : Nat}

lemma firstEnabled?_eq_none_iff :
    m.firstEnabled? s event l = .ok none ↔ ∀ r ∈ l, m.isEnabled s event r = .ok false := by
  refine ⟨firstEnabled?_eq_none, fun h => ?_⟩
  induction l with
  | nil => rfl
  | cons r l ih =>
    rw [firstEnabled?, h r List.mem_cons_self]
    exact ih fun r' hr' => h r' (List.mem_cons_of_mem _ hr')

lemma chosen_eq_nil_iff {nodes : List NodeId} : m.chosen s event eventless nodes = .ok [] ↔
    ∀ n ∈ nodes, m.chosenFor? s event eventless n = .ok none := by
  induction nodes with
  | nil => simp [chosen]
  | cons n nodes ih =>
    rw [List.forall_mem_cons, ← ih, chosen]
    constructor
    · intro h
      obtain ⟨first, hfirst, h⟩ := bind_eq_ok h
      obtain ⟨others, hothers, h⟩ := bind_eq_ok h
      cases first with
      | none =>
        obtain rfl : others = [] := Except.ok.inj h
        exact ⟨hfirst, hothers⟩
      | some r => exact absurd (Except.ok.inj h) (List.cons_ne_nil _ _)
    · rintro ⟨hfirst, hothers⟩
      rw [hfirst, hothers]
      rfl

lemma keep_ne_nil (conf : Configuration) (memory : Memory) (kept : List TransitionRef)
    (r : TransitionRef) : m.keep conf memory kept r ≠ [] := by
  simp only [keep]
  split
  · simp
  · rename_i hall
    rintro rfl
    exact hall rfl

lemma removeConflicts_eq_nil (conf : Configuration) (memory : Memory) :
    m.removeConflicts conf memory l = [] ↔ l = [] := by
  constructor
  · intro h
    rcases List.eq_nil_or_concat l with rfl | ⟨front, r, rfl⟩
    · rfl
    · rw [removeConflicts, List.concat_eq_append, List.foldl_append] at h
      exact absurd h (keep_ne_nil conf memory _ r)
  · rintro rfl
    rfl

def Deaf (m : Machine C) (s : MachineState C) (event : Event) (eventless : Bool) : Prop :=
  ∀ n ∈ m.chart.atomicNodes s.configuration, ∀ r, m.chart.Within n r.node →
    m.Listens event eventless r → m.isEnabled s event r = .ok false

lemma select_eq_nil_iff : m.select s event eventless = .ok [] ↔ m.Deaf s event eventless := by
  have hdeaf : m.Deaf s event eventless ↔
      m.chosen s event eventless (m.chart.atomicNodes s.configuration) = .ok [] := by
    rw [chosen_eq_nil_iff]
    refine forall₂_congr fun n _ => ?_
    have htried : m.chosenFor? s event eventless n = .ok none ↔
        ∀ r ∈ m.tried event eventless n, m.isEnabled s event r = .ok false :=
      firstEnabled?_eq_none_iff
    simp only [htried, mem_tried_iff, and_imp]
  rw [hdeaf, select]
  constructor
  · intro h
    obtain ⟨refs, hrefs, h⟩ := bind_eq_ok h
    rw [hrefs, (removeConflicts_eq_nil _ _).1 (Except.ok.inj h)]
  · intro h
    rw [h]
    rfl

def ignoring (s : MachineState C) (event : Event) : Step C where
  event := event
  state := s
  actions := []
  executed := []
  lifecycle := []
  changed := false
  done := true
  output := none
  microsteps := 0

lemma finish_of_done (hd : m.isDone s.configuration) :
    m.finish event false (.start s) = ignoring s event := by
  simp [finish, ignoring, Run.start, show m.isDone s.configuration = true from hd]

def Refuses (m : Machine C) (event : Event) : Prop :=
  m.strict ∧ event.isGenerated = false ∧ m.accepts event.type = false

lemma stepWithin_select {step : Step C} (h : m.stepWithin s event limit = .ok step) :
    ∃ l, m.select s event false = .ok l ∧ (step.changed = true ↔ l ≠ []) := by
  rw [stepWithin] at h
  split at h
  · exact absurd h (by simp)
  · obtain ⟨l, hl, h⟩ := bind_eq_ok h
    refine ⟨l, hl, ?_⟩
    cases l with
    | nil =>
      obtain rfl := Except.ok.inj h
      simp [finish]
    | cons r l =>
      cases limit with
      | zero => exact absurd h (by simp)
      | succ left =>
        obtain ⟨r₁, _, h⟩ := bind_eq_ok h
        obtain ⟨r₂, _, h⟩ := bind_eq_ok h
        obtain rfl := Except.ok.inj h
        simp [finish]

lemma stepWithin_eq_ignoring_iff (hd : m.isDone s.configuration) :
    m.stepWithin s event limit = .ok (ignoring s event) ↔
      ¬ m.Refuses event ∧ m.Deaf s event false := by
  rw [← select_eq_nil_iff]
  by_cases hr : m.Refuses event
  · simp [stepWithin, hr.1, hr.2.1, hr.2.2, hr]
  · have hrefuse : (m.strict && !event.isGenerated && !m.accepts event.type) = false := by
      simpa [Refuses] using hr
    refine ⟨fun h => ⟨hr, ?_⟩, fun h => ?_⟩
    · obtain ⟨l, hl, hchanged⟩ := stepWithin_select h
      have hnil : l = [] := by_contra fun hne => absurd (hchanged.2 hne) (by simp [ignoring])
      rw [hl, hnil]
    · rw [stepWithin, hrefuse, if_neg Bool.false_ne_true, h.2]
      exact congrArg Except.ok (finish_of_done hd)

lemma eq_finish_of_unchanged {step : Step C} (h : m.stepWithin s event limit = .ok step)
    (hc : step.changed = false) : step = m.finish event false (.start s) := by
  rcases stepWithin_cases h with hstep | ⟨_, _, _, _, _, _, _, _, _, rfl⟩
  · exact hstep
  · exact absurd hc (by simp [finish])

lemma eq_ignoring_of_unchanged {step : Step C} (hd : m.isDone s.configuration)
    (h : m.stepWithin s event limit = .ok step) (hc : step.changed = false) :
    step = ignoring s event :=
  (eq_finish_of_unchanged h hc).trans (finish_of_done hd)

section

variable [JsonCoded C] {d : Definition} {b : Behaviors C} {context : Option C}

/-- A machine that is done gives an unchanged step for an event, with the same state and without
anything to do, if and only if the event is not refused and no transition of an active atomic state
or of a state around it is enabled for it. In a legal configuration such atomic states are final,
so that these are the transitions of final states and of what is around them. -/
theorem done_ignores_iff (h : build d b context = .ok m) (hd : m.isDone s.configuration) :
    (∀ event limit, m.stepWithin s event limit = .ok (ignoring s event) ↔
      ¬ m.Refuses event ∧ m.Deaf s event false) ∧
    (∀ event limit step, m.stepWithin s event limit = .ok step → step.changed = false →
      step = ignoring s event) ∧
    (m.chart.Legal s.configuration → (∀ x ∈ s.configuration, x < m.chart.size) →
      ∀ n ∈ m.chart.atomicNodes s.configuration, (m.chart.node n).isFinal) := by
  have hw := (wellFormed_of_build h).chart
  refine ⟨fun event limit => stepWithin_eq_ignoring_iff hd, fun event limit step hstep hc => ?_,
    fun hs hsize n hn => ?_⟩
  · exact eq_ignoring_of_unchanged hd hstep hc
  · obtain ⟨hn, ha⟩ := List.mem_filter.1 hn
    exact Chart.isFinal_of_finalWithin hw hs hd hs.root hn ha
      (Chart.within_root hw.toIsTree (hsize n hn))

def restarting : Definition := .ofRoot
  { initial := some "run"
    on := .ofList [("RESTART", [{ target := ["#machine.run"] }])]
    states := [
      ("run", { on := .ofList [("END", [{ target := ["end"] }])] }),
      ("end", { type := some .final })] }

def restartingMachine : Machine Unit := assemble restarting () (link restarting {}).value

lemma build_restarting : build restarting {} (some ()) = .ok restartingMachine := rfl

def restartingEnd : MachineState Unit := ⟨.ofList [0, 2], (), .empty⟩

theorem restarting_ignores :
    restartingMachine.stepWithin restartingEnd (.ofType "END") defaultLimit =
        .ok (ignoring restartingEnd (.ofType "END")) ∧
      restartingMachine.stepWithin restartingEnd (.ofType "RESTART") defaultLimit ≠
        .ok (ignoring restartingEnd (.ofType "RESTART")) ∧
      ∀ n ∈ restartingMachine.chart.atomicNodes restartingEnd.configuration,
        (restartingMachine.chart.node n).isFinal := by
  have hd : restartingMachine.isDone restartingEnd.configuration := by decide
  obtain ⟨hiff, _, hfinal⟩ := done_ignores_iff build_restarting hd
  refine ⟨?_, fun h => ?_, hfinal (by decide) (by decide)⟩
  · apply (hiff _ _).2
    exact ⟨fun hr => absurd hr.1 (by decide), select_eq_nil_iff.1 rfl⟩
  · obtain ⟨_, hdeaf⟩ := (hiff _ _).1 h
    have hfalse := hdeaf 2 (by decide) ⟨0, 0⟩ (by decide) ⟨by decide, .inl (by decide)⟩
    have htrue : restartingMachine.isEnabled restartingEnd (.ofType "RESTART") ⟨0, 0⟩ =
        .ok true := rfl
    exact absurd (htrue.symm.trans hfalse) (by simp)

theorem restarting_leaves_end :
    ¬ ∀ (d : Definition) (b : Behaviors Unit) (context : Option Unit) (m : Machine Unit),
      build d b context = .ok m → ∀ s, m.Reaches s → m.isDone s.configuration →
        ∀ event limit step, m.stepWithin s event limit = .ok step → step.changed = false := by
  intro h
  have hrun : ((restartingMachine.initialStepFrom () 2).bind fun start =>
      (restartingMachine.stepWithin start.state (.ofType "END") 2).bind fun ended =>
        (restartingMachine.stepWithin ended.state (.ofType "RESTART") 2).bind fun again =>
          .ok (ended, again)).toOption.map (fun (ended, again) =>
            (restartingMachine.isDone ended.state.configuration, again.changed)) =
              some (true, true) := by
    decide +kernel
  obtain ⟨p, hrun, hfields⟩ := exists_ok_of_toOption hrun
  obtain ⟨start, hstart, hrun⟩ := bind_eq_ok hrun
  obtain ⟨ended, hended, hrun⟩ := bind_eq_ok hrun
  obtain ⟨again, hagain, hrun⟩ := bind_eq_ok hrun
  obtain rfl := Except.ok.inj hrun
  simp only [Prod.mk.injEq] at hfields
  have hreaches : restartingMachine.Reaches ended.state := .step (.start hstart) hended
  have hsame := h restarting {} (some ()) restartingMachine build_restarting ended.state hreaches
    hfields.1 _ _ again hagain
  exact absurd (hsame.symm.trans hfields.2) Bool.false_ne_true

end

end Machine

end Statechart
