import Mathlib.Tactic.Common
import Statechart.Proofs.Step.Done
import Statechart.Proofs.Step.Steady
import Statechart.Snapshot

/-! What a snapshot offers. It names the types that active states listen to, so that an event it
does not name changes something only through a transition that listens to events of all types or
whose state is not active itself. -/

namespace Statechart

lemma Selector.named_iff {type : String} (sel : Selector) :
    (match sel with
      | .wildcard => some "*"
      | sel => sel.ownType?) = some type ↔
      Event.isGeneratedType type = false ∧ (sel = .exact type ∨ type = "*" ∧ sel = .wildcard) := by
  cases sel with
  | exact own =>
    cases hg : Event.isGeneratedType own with
    | true =>
      refine iff_of_false (by simp [ownType?, hg]) fun ⟨hown, hsel⟩ => ?_
      rcases hsel with hsel | ⟨_, hsel⟩
      · rw [Selector.exact.inj hsel, hown] at hg
        exact Bool.false_ne_true hg
      · exact Selector.noConfusion hsel
    | false =>
      simp only [ownType?, hg, Bool.false_eq_true, if_false, Option.some.injEq, exact.injEq,
        reduceCtorEq, and_false, or_false]
      exact ⟨fun he => ⟨he ▸ hg, he⟩, And.right⟩
  | wildcard =>
    simp only [Option.some.injEq, reduceCtorEq, and_true, false_or]
    refine ⟨fun he => ⟨he ▸ by decide, he.symm⟩, fun h => h.2.symm⟩
  | eventless => simp [ownType?]

namespace Machine

variable {C : Type} {m : Machine C} {s : MachineState C} {conf : Configuration} {event : Event}
  {type : String} {limit : Nat} {step : Step C} {r : TransitionRef}

def Offers (m : Machine C) (conf : Configuration) (type : String) : Prop :=
  ∃ n ∈ conf, ∃ t ∈ (m.partsOf n).transitions,
    t.selector = .exact type ∨ type = "*" ∧ t.selector = .wildcard

lemma mem_nextEvents_iff : type ∈ m.nextEvents conf ↔
    Event.isGeneratedType type = false ∧ m.Offers conf type := by
  simp only [nextEvents, SortedSet.mem_ofList, List.mem_filterMap, List.mem_flatMap,
    SortedSet.mem_elems, Offers]
  constructor
  · rintro ⟨t, ⟨n, hn, ht⟩, hnamed⟩
    obtain ⟨hg, hsel⟩ := t.selector.named_iff.1 hnamed
    exact ⟨hg, n, hn, t, ht, hsel⟩
  · rintro ⟨hg, n, hn, t, ht, hsel⟩
    exact ⟨t, ⟨n, hn, ht⟩, t.selector.named_iff.2 ⟨hg, hsel⟩⟩

lemma can_snapshot_iff {made : Event} {changed : Bool} {executed : List String}
    {output : Option Value} : (m.snapshot s made changed executed output).can type = true ↔
      Event.isGeneratedType type = false ∧ m.Offers s.configuration type := by
  rw [Snapshot.can, List.contains_iff_mem]
  exact mem_nextEvents_iff

lemma offers_of_listens (h : m.Listens event false r) (hr : r.node ∈ conf)
    (hw : ¬ m.IsWildcard r) : m.Offers conf event.type :=
  ⟨r.node, hr, m.transitionAt r, h.isTransition, .inl (h.2.resolve_right hw)⟩

lemma offers_star_of_wildcard (h : m.Listens event false r) (hr : r.node ∈ conf)
    (hw : m.IsWildcard r) : m.Offers conf "*" :=
  ⟨r.node, hr, m.transitionAt r, h.isTransition, .inr ⟨rfl, hw⟩⟩

structure Reacts (m : Machine C) (s : MachineState C) (event : Event) (r : TransitionRef) :
    Prop where
  around : ∃ n ∈ m.chart.atomicNodes s.configuration, m.chart.Within n r.node
  listens : m.Listens event false r
  enabled : m.isEnabled s event r = .ok true

lemma changed_iff (ht : m.chart.IsTree) (h : m.stepWithin s event limit = .ok step) :
    step.changed = true ↔ ∃ r, m.Reacts s event r := by
  obtain ⟨l, hl, hchanged⟩ := stepWithin_select h
  rw [hchanged]
  constructor
  · intro hne
    obtain ⟨r, hr⟩ := List.exists_mem_of_ne_nil l hne
    obtain ⟨refs, hrefs, hl⟩ := bind_eq_ok hl
    obtain rfl : m.removeConflicts s.configuration s.history refs = l := Except.ok.inj hl
    obtain ⟨n, hn, hp⟩ := (mem_chosen_iff ht hrefs).1 (removeConflicts_subset hr)
    exact ⟨r, ⟨n, hn, hp.around⟩, hp.listens, hp.enabled⟩
  · rintro ⟨r, ⟨n, hn, hw⟩, hlistens, htrue⟩ rfl
    have hfalse := select_eq_nil_iff.1 hl n hn r hw hlistens
    exact absurd (htrue.symm.trans hfalse) (by simp)

/-- Nothing that is active names the type of the event, and yet a transition reacts to it that
listens to all events or belongs to a state that is not active. -/
def Overhears (m : Machine C) (s : MachineState C) (event : Event) : Prop :=
  ¬ m.Offers s.configuration event.type ∧
    ∃ r, m.Reacts s event r ∧ (m.IsWildcard r ∨ r.node ∉ s.configuration)

lemma Reacts.overhears (h : m.Reacts s event r) (ho : ¬ m.Offers s.configuration event.type) :
    m.Overhears s event := by
  refine ⟨ho, r, h, ?_⟩
  by_cases hr : r.node ∈ s.configuration
  · exact .inl (by_contra fun hw => ho (offers_of_listens h.listens hr hw))
  · exact .inr hr

lemma Reacts.active (h : m.Reacts s event r) (ht : m.chart.IsTree)
    (hs : m.chart.ParentClosed s.configuration) : r.node ∈ s.configuration := by
  obtain ⟨n, hn, hw⟩ := h.around
  exact Chart.mem_of_within ht hs (List.mem_filter.1 hn).1 hw

section

variable [JsonCoded C] {d : Definition} {b : Behaviors C} {context : Option C}

/-- A snapshot can handle what active states name. An event that it cannot handle changes something
if and only if it is overheard, and if no active state is without its parent and none listens to all
events then it changes nothing. -/
theorem can_unless_overhears (h : build d b context = .ok m) (hg : event.isGenerated = false)
    (hstep : m.stepWithin s event limit = .ok step) (made : Event) (changed : Bool)
    (executed : List String) (output : Option Value) :
    ((m.snapshot s made changed executed output).can event.type = true ↔
      m.Offers s.configuration event.type) ∧
    (step.changed = true ∧ (m.snapshot s made changed executed output).can event.type = false ↔
      m.Overhears s event) ∧
    (m.chart.ParentClosed s.configuration →
      (m.snapshot s made changed executed output).can event.type = false →
      (m.snapshot s made changed executed output).can "*" = false →
        step = m.finish event false (.start s)) := by
  have ht := (wellFormed_of_build h).chart.toIsTree
  have hcan : (m.snapshot s made changed executed output).can event.type = true ↔
      m.Offers s.configuration event.type := can_snapshot_iff.trans (and_iff_right hg)
  have hstar : (m.snapshot s made changed executed output).can "*" = true ↔
      m.Offers s.configuration "*" := can_snapshot_iff.trans (and_iff_right (by decide))
  rw [← Bool.not_eq_true, ← Bool.not_eq_true, hcan, hstar, changed_iff ht hstep]
  refine ⟨Iff.rfl, ⟨fun ⟨⟨r, hr⟩, ho⟩ => hr.overhears ho, fun ⟨ho, r, hr, _⟩ => ⟨⟨r, hr⟩, ho⟩⟩,
    fun hs ho hnone => eq_finish_of_unchanged hstep ?_⟩
  by_contra hc
  obtain ⟨r, hr⟩ := (changed_iff ht hstep).1 (by simpa using hc)
  -- with all parents active, what reacts is active itself, which leaves a wildcard
  obtain ⟨_, r, hr, hw | hout⟩ := hr.overhears ho
  · exact hnone (offers_star_of_wildcard hr.listens (hr.active ht hs) hw)
  · exact hout (hr.active ht hs)

def catching : Definition := .ofRoot
  { initial := some "idle"
    states := [
      ("idle", { on := .ofList [("*", [{ target := ["busy"] }])] }),
      ("busy", {})] }

def catchingMachine : Machine Unit := assemble catching () (link catching {}).value

lemma build_catching : build catching {} (some ()) = .ok catchingMachine := rfl

def catchingIdle : MachineState Unit := ⟨.ofList [0, 1], (), .empty⟩

def catchingBusy : MachineState Unit := ⟨.ofList [0, 2], (), .empty⟩

theorem catching_overhears :
    catchingMachine.Overhears catchingIdle (.ofType "PING") ∧
      catchingMachine.stepWithin catchingBusy (.ofType "PING") defaultLimit =
        .ok (catchingMachine.finish (.ofType "PING") false (.start catchingBusy)) := by
  have hidle : (catchingMachine.stepWithin catchingIdle (.ofType "PING") defaultLimit).toOption.map
      Step.changed = some true := by decide +kernel
  obtain ⟨step, hstep, hchanged⟩ := exists_ok_of_toOption hidle
  have hbusy : (catchingMachine.stepWithin catchingBusy (.ofType "PING") defaultLimit).toOption.map
      Step.changed = some false := by decide +kernel
  obtain ⟨quiet, hquiet, _⟩ := exists_ok_of_toOption hbusy
  have hclosed : catchingMachine.chart.ParentClosed catchingBusy.configuration := by decide
  refine ⟨?_, hquiet.trans (congrArg Except.ok ?_)⟩
  · exact ((can_unless_overhears build_catching (by decide) hstep .init true [] none).2.1).1
      ⟨hchanged, by decide +kernel⟩
  · exact (can_unless_overhears build_catching (by decide) hquiet .init true [] none).2.2 hclosed
      (by decide +kernel) (by decide +kernel)

def stranding : Definition := .ofRoot
  { initial := some "around"
    states := [
      ("around", {
        type := some .parallel
        on := .ofList [("LEAVE", [{ target := ["out"] }])]
        states := [
          ("part", {
            initial := some "x"
            states := [
              ("x", { on := .ofList [("AGAIN", [{ target := ["#machine.around.last"] }])] }),
              ("y", {})] }),
          ("last", { history := some (.kind .deep) })] }),
      ("out", {})] }

def strandingMachine : Machine Unit := assemble stranding () (link stranding {}).value

lemma build_stranding : build stranding {} (some ()) = .ok strandingMachine := rfl

theorem can_misses_changes :
    (¬ ∀ (d : Definition) (b : Behaviors Unit) (context : Option Unit) (m : Machine Unit),
      build d b context = .ok m → ∀ s, m.Reaches s → ∀ event : Event, event.isGenerated = false →
        ∀ step, m.step s event = .ok step → step.changed →
          ∀ made changed executed output,
            (m.snapshot s made changed executed output).can event.type) ∧
    ¬ ∀ (d : Definition) (b : Behaviors Unit) (context : Option Unit) (m : Machine Unit),
      build d b context = .ok m → (∀ t ∈ m.allTransitions, t.selector ≠ .wildcard) →
        ∀ s, m.Reaches s → ∀ event : Event, event.isGenerated = false →
          ∀ step, m.step s event = .ok step → step.changed →
            ∀ made changed executed output,
              (m.snapshot s made changed executed output).can event.type := by
  constructor
  · intro h
    have hrun : (catchingMachine.initialStep.bind fun start =>
        (catchingMachine.step start.state (.ofType "PING")).bind fun step =>
          .ok (start, step)).toOption.map (fun (start, step) => (step.changed,
            (catchingMachine.snapshot start.state .init true [] none).can "PING")) =
              some (true, false) := by
      decide +kernel
    obtain ⟨p, hrun, hfields⟩ := exists_ok_of_toOption hrun
    obtain ⟨start, hstart, hrun⟩ := bind_eq_ok hrun
    obtain ⟨step, hstep, hrun⟩ := bind_eq_ok hrun
    obtain rfl := Except.ok.inj hrun
    obtain ⟨hchanged, hcan⟩ := Prod.mk.inj hfields
    have hall := h catching {} (some ()) catchingMachine build_catching start.state (.start hstart)
      (.ofType "PING") (by decide) step hstep hchanged .init true [] none
    exact absurd (hall.symm.trans hcan) (by decide)
  · intro h
    have hrun : (strandingMachine.initialStep.bind fun start =>
        (strandingMachine.step start.state (.ofType "AGAIN")).bind fun again =>
          (strandingMachine.step again.state (.ofType "LEAVE")).bind fun step =>
            .ok (again, step)).toOption.map (fun (again, step) => (step.changed,
              (strandingMachine.snapshot again.state .init true [] none).can "LEAVE")) =
                some (true, false) := by
      decide +kernel
    obtain ⟨p, hrun, hfields⟩ := exists_ok_of_toOption hrun
    obtain ⟨start, hstart, hrun⟩ := bind_eq_ok hrun
    obtain ⟨again, hagain, hrun⟩ := bind_eq_ok hrun
    obtain ⟨step, hstep, hrun⟩ := bind_eq_ok hrun
    obtain rfl := Except.ok.inj hrun
    obtain ⟨hchanged, hcan⟩ := Prod.mk.inj hfields
    have hall := h stranding {} (some ()) strandingMachine build_stranding (by decide) again.state
      (.step (.start hstart) hagain) (.ofType "LEAVE") (by decide) step hstep hchanged .init true []
      none
    exact absurd (hall.symm.trans hcan) (by decide)

end

end Machine

end Statechart
