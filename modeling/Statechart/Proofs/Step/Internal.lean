import Mathlib.Tactic.Common
import Statechart.Proofs.Step.Locality
import Statechart.Proofs.Step.Netting

/-! Internal transitions. Taking one that leads to states below its source leaves the source and all
states around it as they are, unless the source and whatever is around it are parallel: domains are
compound states, and the states on the way to the next one are left and entered again. -/

namespace Statechart

namespace Chart

/-- Internal by its flag or, without one, by its targets: it has none, they are all addressed from
the source, or they are all the source itself. -/
def DeclaresInternal (c : Chart) (source : NodeId) (config : TransitionDef) : Prop :=
  config.internal = some true ∨ config.internal = none ∧
    (config.target = [] ∨ (∀ x ∈ config.target, Text.startsWith x c.delimiter) ∨
      ∀ x ∈ config.target, c.resolveTarget? source x = some source)

end Chart

namespace Linker

variable {C : Type} {l : Linker C} {source : NodeId} {config : TransitionDef} {t : Transition C}

lemma Links.internal_iff (h : l.Links source config t) :
    t.internal ↔ l.chart.DeclaresInternal source config := by
  obtain ⟨_, targets, _, _, _, htargets, rfl⟩ := h
  have hempty : targets.isEmpty = config.target.isEmpty := by
    rw [Bool.eq_iff_iff, List.isEmpty_iff_length_eq_zero, List.isEmpty_iff_length_eq_zero,
      ← List.length_map some, ← htargets, List.length_map]
  have hself : targets.all (· = source) ↔
      ∀ x ∈ config.target, l.chart.resolveTarget? source x = some source := by
    have hall : (∀ y ∈ targets.map some, y = some source) ↔ ∀ y ∈ targets, y = source := by simp
    rw [List.all_eq_true, ← List.forall_mem_map (P := (· = some source)), htargets, hall]
    simp
  simp only [assemble, Chart.DeclaresInternal, hempty]
  cases config.internal with
  | some flag => simp
  | none =>
    simp only [Option.getD_none, Bool.or_eq_true, Bool.and_eq_true, hself]
    cases config.target <;> simp

end Linker

namespace Machine

variable {C : Type} {m : Machine C} {memory : Memory} {ref : TransitionRef} {n : NodeId}
  {l : List TransitionRef} {event : Event} {r r' : Run C}

structure LeavesAlone (m : Machine C) (l : List TransitionRef) (event : Event) (r : Run C)
    (n : NodeId) : Prop where
  not_exits : ∀ r', ¬ m.ExitsAt l event r n r'
  not_enters : ∀ r', ¬ m.EntersAt l event r n r'
  active : ∀ r', m.microstep l event r = .ok r' → n ∈ r'.state.configuration
  actions : ∀ entry exit,
    (m.withActions n entry exit).microstep l event r = m.microstep l event r

lemma leavesAlone_of_not_exited (hn : n ∈ r.state.configuration)
    (hexit : n ∉ m.exitSetOf r.state.configuration r.state.history l) :
    m.LeavesAlone l event r n := by
  refine ⟨fun r' h => ?_, fun r' h => ?_, fun r' h => ?_, fun entry exit => ?_⟩
  · exact hexit (List.mem_reverse.1 h.mem)
  · obtain ⟨hnot, r₁, r₂, h₁, h₂, before, after, _, h₃⟩ := h
    have hu := Run.unmoved_foldlM (fun _ _ _ => Run.runActions_unmoved) h₂
    have hexited : n ∈ r₂.state.configuration := by
      rw [hu.configuration]
      exact ((Run.exitNodes_mem h₁).2 n).2 ⟨hn, fun hmem => hexit (List.mem_reverse.1 hmem)⟩
    exact hnot (((Run.enterNodes_mem h₃).2 n).2 (.inl hexited))
  · exact ((microstep_mem h).2 n).2 (.inl ⟨hn, hexit⟩)
  · exact microstep_withActions hexit fun _ => hn

lemma exists_exitsAt (hn : n ∈ m.exitSetOf r.state.configuration r.state.history l)
    (h : m.microstep l event r = .ok r') : ∃ r'', m.ExitsAt l event r n r'' := by
  obtain ⟨before, after, hl⟩ := List.append_of_mem (List.mem_reverse.2 hn)
  rw [microstep_eq] at h
  obtain ⟨r₁, h₁, _⟩ := bind_eq_ok h
  rw [exiting, hl, Run.exitNodes, List.foldlM_append] at h₁
  obtain ⟨r'', hbefore, _⟩ := bind_eq_ok h₁
  exact ⟨r'', before, after, hl, hbefore⟩

/-- The transition has targets, and from its source up to the state all is parallel. -/
structure Lifts (m : Machine C) (memory : Memory) (ref : TransitionRef) (n : NodeId) : Prop where
  targets : m.targetsOf memory ref ≠ []
  root : n ≠ rootId
  parallel : ∀ a, m.chart.Within (m.transitionAt ref).source a → m.chart.Within a n →
    (m.chart.node a).isParallel

section

variable (hm : m.WellFormed) (hint : (m.transitionAt ref).internal)
  (hbelow : m.AllBelow memory ref (m.transitionAt ref).source)

lemma lifts_source_iff (ht : m.chart.IsTree) : m.Lifts memory ref (m.transitionAt ref).source ↔
    m.targetsOf memory ref ≠ [] ∧ (m.transitionAt ref).source ≠ rootId ∧
      (m.chart.node (m.transitionAt ref).source).isParallel := by
  refine ⟨fun h => ⟨h.targets, h.root, h.parallel _ (.inl rfl) (.inl rfl)⟩, fun h => ?_⟩
  refine ⟨h.1, h.2.1, fun a ha ha' => ?_⟩
  rcases ha with rfl | ha
  · exact h.2.2
  · exact absurd (ha.trans_within ht ha') (Chart.not_below_self ht _)

include hm hint hbelow

lemma domain_within_of_isCompound {d a : NodeId} (hd : m.domain? memory ref = some d)
    (ha : m.chart.Within (m.transitionAt ref).source a) (hc : (m.node a).isCompound) :
    m.chart.Within d a := by
  have ht := hm.chart.toIsTree
  have hscope : a ∈ m.scopes ref := by
    rcases ha with rfl | ha
    · simp [scopes, hint, hc]
    · exact mem_scopes_of_below ha hc
  exact (domain?_spec ht hd).2.2 a hscope fun t htm => (hbelow t htm).trans_within ht ha

lemma below_domain_iff_lifts {d : NodeId} (hd : m.domain? memory ref = some d)
    (hn : m.chart.Within (m.transitionAt ref).source n) :
    m.chart.Below n d ↔ m.Lifts memory ref n := by
  have ht := hm.chart.toIsTree
  obtain ⟨hne, _, _⟩ := domain?_spec ht hd
  obtain ⟨t, ht'⟩ := List.exists_mem_of_ne_nil _ hne
  have htb := hbelow t ht'
  constructor
  · refine fun hb => ⟨hne, ?_, fun a ha ha' => ?_⟩
    · rintro rfl
      exact Chart.not_below_root ht d hb
    · obtain ⟨child, hchild, _⟩ := Chart.exists_child ht (htb.trans_within ht ha)
      refine (Chart.isCompound_or_isParallel_of_child hm.chart hchild).resolve_left fun hc => ?_
      have hda := domain_within_of_isCompound hm hint hbelow hd ha hc
      exact Chart.not_below_self ht a ((ha'.trans_below ht hb).trans_within ht hda)
  · intro hl
    have hsize := Nat.lt_trans (Chart.below_lt ht htb) (Chart.below_size htb)
    have hsd := source_within_domain ht hsize hd
    -- a domain between the source and the state would be parallel
    have hnot : ¬ m.chart.Within d n := by
      intro hdn
      have hpar := hl.parallel d hsd hdn
      rcases domain_regular ht hd with rfl | hc
      · exact hl.root (hdn.resolve_right (Chart.not_below_root ht n)).symm
      · exact absurd hc (by simp [node, StateNode.isCompound_eq_false hpar])
    rcases Chart.within_connected ht hn hsd with hw | hw
    · exact hw.resolve_left fun he => hnot (.inl he.symm)
    · exact absurd hw.within hnot

lemma mem_exitSetOf_iff_lifts {s : Configuration} (hn : n ∈ s)
    (hw : m.chart.Within (m.transitionAt ref).source n) :
    n ∈ m.exitSetOf s memory [ref] ↔ m.Lifts memory ref n := by
  have ht := hm.chart.toIsTree
  simp only [mem_exitSetOf, List.mem_singleton, exists_eq_left, mem_exitSet ht, hn, true_and]
  constructor
  · rintro ⟨d, hd, hb⟩
    exact (below_domain_iff_lifts hm hint hbelow hd hw).1 hb
  · intro hl
    obtain ⟨d, hd⟩ := Option.ne_none_iff_exists'.1 fun hnone => hl.targets (domain?_eq_none.1 hnone)
    exact ⟨d, hd, (below_domain_iff_lifts hm hint hbelow hd hw).2 hl⟩

end

section

variable [JsonCoded C] {d : Definition} {b : Behaviors C} {context : Option C}

/-- Internal transitions are those declared so or, without a declaration, those with no targets,
with their own source as target or with all targets addressed from there. Taking one whose effective
targets are below its source neither leaves nor enters the source and the states around it, except
for the states up to which, from the source on, all is parallel: these are left. -/
theorem internal_leaves_source_alone (h : build d b context = .ok m) :
    (∀ n, ∀ t ∈ (m.partsOf n).transitions, ∃ p config, d.placed[n]? = some p ∧
      config ∈ p.body.allTransitions ∧ (Linker.mk d.layout b).Links n config t ∧
        (t.internal ↔ d.layout.DeclaresInternal n config)) ∧
    ∀ (r : Run C) (ref : TransitionRef) (event : Event), m.chart.Legal r.state.configuration →
      (m.transitionAt ref).source ∈ r.state.configuration → (m.transitionAt ref).internal →
        m.AllBelow r.state.history ref (m.transitionAt ref).source →
          ∀ n, m.chart.Within (m.transitionAt ref).source n →
            (¬ m.Lifts r.state.history ref n → m.LeavesAlone [ref] event r n) ∧
            (m.Lifts r.state.history ref n → ∀ r', m.microstep [ref] event r = .ok r' →
              ∃ r'', m.ExitsAt [ref] event r n r'') := by
  have hm := wellFormed_of_build h
  refine ⟨fun n t ht => ?_, fun r ref event hs hsource hint hbelow n hw => ?_⟩
  · obtain ⟨p, config, hp, hmem, hlinks⟩ := links_of_build h ht
    exact ⟨p, config, hp, hmem, hlinks, hlinks.internal_iff⟩
  · have hn := Chart.mem_of_within hm.chart.toIsTree hs.parent hsource hw
    have hexit := mem_exitSetOf_iff_lifts hm hint hbelow hn hw
    refine ⟨fun hl => ?_, fun hl r' hr' => ?_⟩
    · exact leavesAlone_of_not_exited hn fun hx => hl (hexit.1 hx)
    · exact exists_exitsAt (hexit.2 hl) hr'

def swapping : Definition := .ofRoot
  { initial := some "desk"
    states := [
      ("desk", {
        type := some .parallel
        on := .ofList [("SWAP", [{ target := [".left.second"] }])]
        states := [
          ("left", {
            initial := some "first"
            on := .ofList [("BACK", [{ target := [".last"] }])]
            states := [
              ("first", {}),
              ("second", {}),
              ("last", { history := some (.kind .deep) })] }),
          ("right", {})] })] }

def swappingMachine : Machine Unit := assemble swapping () (link swapping {}).value

lemma build_swapping : build swapping {} (some ()) = .ok swappingMachine := rfl

def swappingState : MachineState Unit where
  configuration := .ofList [0, 1, 2, 3, 6]
  context := ()
  history := Run.recordHistory swappingMachine.chart (.ofList [0, 1, 2, 4, 6]) [2] .empty

theorem swapping_leaves_alone :
    (∃ r', swappingMachine.microstep [⟨2, 0⟩] (.ofType "BACK") (.start swappingState) = .ok r' ∧
      r'.state.configuration.elems = [0, 1, 2, 4, 6]) ∧
    (∀ n ∈ [0, 1, 2],
      swappingMachine.LeavesAlone [⟨2, 0⟩] (.ofType "BACK") (.start swappingState) n) ∧
    ∃ r', swappingMachine.ExitsAt [⟨1, 0⟩] (.ofType "SWAP") (.start swappingState) 1 r' := by
  have ht := (wellFormed_of_build build_swapping).chart.toIsTree
  have hlegal : swappingMachine.chart.Legal swappingState.configuration := by decide
  have hback : ∀ t ∈ swappingMachine.targetsOf swappingState.history ⟨2, 0⟩,
      swappingMachine.chart.Below t 2 := by decide
  have hswap : ∀ t ∈ swappingMachine.targetsOf swappingState.history ⟨1, 0⟩,
      swappingMachine.chart.Below t 1 := by decide
  have haround : ∀ n ∈ [0, 1, 2], swappingMachine.chart.Within 2 n := by decide
  have hlifts : swappingMachine.Lifts swappingState.history ⟨1, 0⟩ 1 :=
    (lifts_source_iff ht).2 (by decide)
  have hruns : (swappingMachine.microstep [⟨2, 0⟩] (.ofType "BACK")
      (.start swappingState)).toOption.map (fun r => r.state.configuration.elems) =
        some [0, 1, 2, 4, 6] ∧
      ((swappingMachine.microstep [⟨1, 0⟩] (.ofType "SWAP")
        (.start swappingState)).toOption.map fun _ => ()) = some () := by
    decide +kernel
  obtain ⟨r', hr, he⟩ := exists_ok_of_toOption hruns.1
  obtain ⟨r₁, hr₁, _⟩ := exists_ok_of_toOption hruns.2
  obtain ⟨_, halone⟩ := internal_leaves_source_alone build_swapping
  refine ⟨⟨r', hr, he⟩, fun n hn => ?_, ?_⟩
  · apply (halone (.start swappingState) ⟨2, 0⟩ _ hlegal (by decide) (by decide) hback n
      (haround n hn)).1
    exact fun hl => absurd (hl.parallel 2 (.inl rfl) (haround n hn)) (by decide)
  · exact (halone (.start swappingState) ⟨1, 0⟩ _ hlegal (by decide) (by decide) hswap 1
      (.inl rfl)).2 hlifts r₁ hr₁

theorem swapping_exits_source :
    ¬ ∀ (d : Definition) (b : Behaviors Unit) (context : Option Unit) (m : Machine Unit),
      build d b context = .ok m → ∀ (s : MachineState Unit) (ref : TransitionRef) (event : Event),
        m.chart.Legal s.configuration → m.select s event false = .ok [ref] →
          (m.transitionAt ref).internal →
            m.AllBelow s.history ref (m.transitionAt ref).source →
              ∀ n, m.chart.Within (m.transitionAt ref).source n →
                ∀ r', m.microstep [ref] event (.start s) = .ok r' →
                  .exited n ∉ r'.lifecycle ∧ .entered n ∉ r'.lifecycle := by
  intro h
  have hlegal : swappingMachine.chart.Legal swappingState.configuration := by decide
  have hl : swappingMachine.select swappingState (.ofType "SWAP") false = .ok [⟨1, 0⟩] := rfl
  have hbelow : ∀ t ∈ swappingMachine.targetsOf swappingState.history ⟨1, 0⟩,
      swappingMachine.chart.Below t 1 := by decide
  have hrun : (swappingMachine.microstep [⟨1, 0⟩] (.ofType "SWAP")
      (.start swappingState)).toOption.map Run.lifecycle =
        some [.exited 6, .exited 3, .exited 2, .exited 1, .entered 1, .entered 2, .entered 4,
          .entered 6] := by decide +kernel
  obtain ⟨r', hr, he⟩ := exists_ok_of_toOption hrun
  have hkept := h swapping {} (some ()) swappingMachine build_swapping swappingState ⟨1, 0⟩ _ hlegal
    hl (by decide) hbelow 1 (.inl rfl) r' hr
  rw [he] at hkept
  exact absurd hkept (by decide)

end

end Machine

end Statechart
