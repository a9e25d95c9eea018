import Mathlib.Tactic.Common
import Statechart.Proofs.Configuration.Resolution
import Statechart.Proofs.Step.Exclusive

/-! Taking transitions one at a time. Transitions that exit no state in common have domains without
common states below them, so that what one of them enters is neither exited nor looked at by
another. -/

namespace Statechart

namespace Chart

variable {c : Chart} {s u : Configuration} {n t x : NodeId} {stop : Option NodeId}
  {memory : Memory} {enter : Configuration → NodeId → Configuration}

lemma insert_union (s u : Configuration) (n : NodeId) :
    (s.union u).insert n = (s.insert n).union u :=
  SortedSet.ext fun x => by
    rw [SortedSet.mem_insert, SortedSet.mem_union, SortedSet.mem_union, SortedSet.mem_insert,
      or_assoc]

lemma foldl_union {α : Type} {f : Configuration → α → Configuration} {l : List α}
    (h : ∀ a ∈ l, ∀ s, f (s.union u) a = (f s a).union u) (s : Configuration) :
    l.foldl f (s.union u) = (l.foldl f s).union u := by
  induction l generalizing s with
  | nil => rfl
  | cons a l ih =>
    rw [List.foldl_cons, List.foldl_cons, h a List.mem_cons_self]
    exact ih (fun b hb => h b (List.mem_cons_of_mem _ hb)) _

def Clear (c : Chart) (u : Configuration) (n : NodeId) : Prop := ∀ x ∈ u, ¬ c.Below x n

section

variable (ht : c.IsTree)

include ht

lemma Clear.of_within {a : NodeId} (h : c.Clear u a) (hn : c.Within n a) : c.Clear u n :=
  fun x hx hb => h x hx (hb.trans_within ht hn)

lemma hasDescendant_union (h : c.Clear u n) :
    c.hasDescendant (s.union u) n = c.hasDescendant s n := by
  rw [Bool.eq_iff_iff]
  simp only [hasDescendant, List.any_eq_true, SortedSet.mem_elems, SortedSet.mem_union,
    ht.isDescendant_iff]
  constructor
  · rintro ⟨x, hx, hb⟩
    exact ⟨x, hx.resolve_right fun hu => h x hu hb, hb⟩
  · rintro ⟨x, hx, hb⟩
    exact ⟨x, .inl hx, hb⟩

lemma fillRegions_union (hu : c.Clear u n)
    (h : ∀ r ∈ c.regularChildren n, ∀ s, enter (s.union u) r = (enter s r).union u)
    (s : Configuration) :
    c.fillRegions enter (s.union u) n = (c.fillRegions enter s n).union u := by
  refine foldl_union (fun r hr s => ?_) s
  rw [hasDescendant_union ht (hu.of_within ht (regularChild_below ht hr).within), h r hr]
  split <;> rfl

lemma addAncestors_union (hu : ∀ a ∈ c.ancestorsBelow t stop, c.Clear u a)
    (h : ∀ a ∈ c.ancestorsBelow t stop, ∀ r ∈ c.regularChildren a, ∀ s,
      enter (s.union u) r = (enter s r).union u) (s : Configuration) :
    c.addAncestors enter (s.union u) t stop = (c.addAncestors enter s t stop).union u := by
  refine foldl_union (fun a ha s => ?_) s
  rw [insert_union, fillRegions_union ht (hu a ha) (h a ha)]
  split <;> rfl

end

section

variable (hw : c.WellFormed) (hp : c.Plain)

include hw hp

lemma enterWithin_union (k : Nat) (hreg : (c.node n).isHistory = false) (hu : c.Clear u n)
    (s : Configuration) :
    c.enterWithin memory k (s.union u) n = (c.enterWithin memory k s n).union u := by
  have ht := hw.toIsTree
  induction k generalizing n s with
  | zero => rfl
  | succ k ih =>
    by_cases hc : (c.node n).isCompound
    · obtain ⟨i, hi, hinit⟩ := hw.initial n hc
      have habove := ancestorsBelow_parent ht ((hw.mem_children i n).1 hi)
      simp only [enterWithin, hreg, hc, hinit, addAncestors, habove, Bool.false_eq_true, if_false,
        if_true, List.foldl_nil]
      rw [insert_union]
      exact ih (hp n i hc hinit) (hu.of_within ht (child_below ht hi).within) _
    · by_cases hpar : (c.node n).isParallel
      · simp only [enterWithin, hreg, hc, hpar, Bool.false_eq_true, if_false, if_true]
        rw [insert_union]
        refine fillRegions_union ht hu (fun r hr s => ?_) _
        exact ih (mem_regularChildren.1 hr).2
          (hu.of_within ht (regularChild_below ht hr).within) s
      · simp only [enterWithin, hreg, hc, hpar, Bool.false_eq_true, if_false]
        exact insert_union s u n

lemma enter_union (hreg : (c.node n).isHistory = false) (hu : c.Clear u n) (s : Configuration) :
    c.enter memory (s.union u) n = (c.enter memory s n).union u :=
  enterWithin_union hw hp _ hreg hu s

lemma enterAncestors_union (hu : ∀ a ∈ c.ancestorsBelow t stop, c.Clear u a) (s : Configuration) :
    c.enterAncestors memory (s.union u) t stop = (c.enterAncestors memory s t stop).union u := by
  have ht := hw.toIsTree
  refine addAncestors_union ht hu (fun a ha r hr s => ?_) s
  exact enter_union hw hp (mem_regularChildren.1 hr).2
    ((hu a ha).of_within ht (regularChild_below ht hr).within) s

end

def Historyless (c : Chart) : Prop := ∀ n, (c.node n).isHistory = false

namespace Historyless

variable (h : c.Historyless)

include h

lemma plain : c.Plain := fun _ i _ _ => h i

lemma recalls (memory : Memory) : c.Recalls memory :=
  fun n _ hh => absurd hh (by simp [h n])

lemma historyKind? (n : NodeId) : (c.node n).historyKind? = none :=
  Option.isNone_iff_eq_none.1 (by simpa [StateNode.isHistory] using h n)

lemma recordHistory (s : Configuration) (exiting : List NodeId) (memory : Memory) :
    Run.recordHistory c s exiting memory = memory := by
  have hchildren : ∀ n (memory : Memory) (l : List NodeId),
      Run.recordChildren c s n memory l = memory := by
    intro n memory l
    refine List.foldlRecOn (motive := (· = memory)) l _ rfl fun memory' he t _ => ?_
    rw [h.historyKind? t]
    exact he
  refine List.foldlRecOn (motive := (· = memory)) exiting _ rfl fun memory' he n _ => ?_
  exact (hchildren n memory' _).trans he

lemma exists_below (hw : c.WellFormed) (hs : c.Legal s) (hn : n ∈ s) (hx : c.Below x n) :
    ∃ y ∈ s, c.Below y n := by
  have ht := hw.toIsTree
  obtain ⟨child, hchild, _⟩ := exists_child ht hx
  rcases isCompound_or_isParallel_of_child hw hchild with hc | hp
  · obtain ⟨active, ⟨hactive, hmem⟩, _⟩ := hs.compound n hn hc
    exact ⟨active, hmem, child_below ht hactive⟩
  · exact ⟨child, hs.parallel n hn hp child (mem_regularChildren.2 ⟨hchild, h child⟩),
      child_below ht hchild⟩

end Historyless

end Chart

namespace Machine

variable {C : Type} {m : Machine C} {memory : Memory} {r r' : TransitionRef} {d x : NodeId}
  {l l' : List TransitionRef}

def Clears (m : Machine C) (memory : Memory) (r : TransitionRef) (x : NodeId) : Prop :=
  ∃ d, m.domain? memory r = some d ∧ m.chart.Below x d

def Spares (m : Machine C) (memory : Memory) (r' r : TransitionRef) : Prop :=
  ∀ d d', m.domain? memory r = some d → m.domain? memory r' = some d' →
    ∀ x, m.chart.Within x d → ¬ m.chart.Below x d'

def Separate (m : Machine C) (memory : Memory) (r r' : TransitionRef) : Prop :=
  m.Spares memory r r' ∧ m.Spares memory r' r

instance : Std.Symm (m.Separate memory) := ⟨fun _ _ h => h.symm⟩

section

variable (hm : m.WellFormed) (hh : m.chart.Historyless)

include hm

lemma domain_active {s : Configuration} (hs : m.chart.Legal s) (hv : m.IsTransition r)
    (hsource : (m.transitionAt r).source ∈ s) (hd : m.domain? memory r = some d) : d ∈ s := by
  have ht := hm.chart.toIsTree
  obtain ⟨hnode, hlt, _⟩ := hm.transition r.node _ hv
  exact Chart.mem_of_within ht hs.parent hsource (source_within_domain ht (hnode ▸ hlt) hd)

include hh

lemma spares_of_apart {s : Configuration} (hs : m.chart.Legal s)
    (h : m.IsTransition r ∧ (m.transitionAt r).source ∈ s)
    (h' : m.IsTransition r' ∧ (m.transitionAt r').source ∈ s) (ha : m.Apart s memory r r') :
    m.Spares memory r' r := by
  have ht := hm.chart.toIsTree
  intro d d' hd hd' x hx hx'
  have hmem := domain_active hm hs h.1 h.2 hd
  have hmem' := domain_active hm hs h'.1 h'.2 hd'
  have hnone : ∀ e ∈ s, m.chart.Within e d → m.chart.Within e d' → ∀ y, ¬ m.chart.Below y e := by
    intro e he hed hed' y hy
    obtain ⟨z, hz, hze⟩ := hh.exists_below hm.chart hs he hy
    exact ha z ((mem_exitSet ht).2 ⟨hz, d, hd, hze.trans_within ht hed⟩)
      ((mem_exitSet ht).2 ⟨hz, d', hd', hze.trans_within ht hed'⟩)
  rcases Chart.within_connected ht hx hx'.within with (rfl | hb) | hb
  · exact hnone d hmem (.inl rfl) (.inl rfl) x hx'
  · have hroot : d ≠ rootId := by
      rintro rfl
      exact Chart.not_below_root ht d' hb
    obtain ⟨i, hi, _⟩ := hm.chart.initial d ((domain_regular ht hd).resolve_left hroot)
    exact hnone d hmem (.inl rfl) hb.within i (Chart.child_below ht hi)
  · exact hnone d' hmem' hb.within (.inl rfl) x hx'

lemma separate_of_apart {s : Configuration} (hs : m.chart.Legal s)
    (hl : ∀ r ∈ l, m.IsTransition r ∧ (m.transitionAt r).source ∈ s)
    (ha : l.Pairwise (m.Apart s memory)) : l.Pairwise (m.Separate memory) := by
  refine ha.imp_of_mem fun {r r'} hr hr' ha => ⟨?_, ?_⟩
  · exact spares_of_apart hm hh hs (hl r' hr') (hl r hr) (Std.Symm.symm _ _ ha)
  · exact spares_of_apart hm hh hs (hl r hr) (hl r' hr') ha

lemma targets_within (hv : m.IsTransition r) (hd : m.domain? memory r = some d) :
    ∀ t ∈ (m.transitionAt r).targets, m.chart.Within t d := by
  intro t ht
  refine target_within hm (hh.recalls memory) hv hd ?_
  exact (mem_targetsOf hm (hh.recalls memory) hv).2 ⟨t, ht, by simp [Chart.tops_regular (hh t)]⟩

lemma enterTargets_union {u : Configuration} (hv : m.IsTransition r)
    (hu : ∀ d, m.domain? memory r = some d → m.chart.Clear u d) (s : Configuration) :
    m.enterTargets memory (s.union u) r = (m.enterTargets memory s r).union u := by
  have ht := hm.chart.toIsTree
  have hr := hh.recalls memory
  cases hd : m.domain? memory r with
  | none => rw [enterTargets_of_none hm hr hv hd, enterTargets_of_none hm hr hv hd]
  | some d =>
    have htargets : ∀ t ∈ (m.transitionAt r).targets, ∀ s,
        m.chart.enter memory (s.union u) t = (m.chart.enter memory s t).union u := fun t htarget =>
      Chart.enter_union hm.chart hh.plain (hh t)
        ((hu d hd).of_within ht (targets_within hm hh hv hd t htarget))
    rw [enterTargets, enterTargets, hd, Chart.foldl_union htargets]
    refine Chart.foldl_union (fun e he s => ?_) _
    refine Chart.enterAncestors_union hm.chart hh.plain (fun a ha => ?_) s
    exact (hu d hd).of_within ht (above_below hm hr hv hd he ha).within

lemma within_of_entered (hv : m.IsTransition r) (hx : x ∈ m.entrySet memory [r]) :
    ∃ d, m.domain? memory r = some d ∧ m.chart.Within x d := by
  have ht := hm.chart.toIsTree
  have hr := hh.recalls memory
  rw [entrySet_eq_foldl, List.foldl_cons, List.foldl_nil] at hx
  cases hd : m.domain? memory r with
  | none =>
    rw [enterTargets_of_none hm hr hv hd] at hx
    exact absurd hx (SortedSet.not_mem_empty x)
  | some d =>
    refine ⟨d, rfl, ?_⟩
    obtain ⟨hadds, _⟩ := enterTargets_adds hm hr hv hd .empty
    obtain ⟨hregion, _⟩ := (hadds.new x hx).resolve_left (SortedSet.not_mem_empty x)
    rcases hregion with ⟨t, htarget, hxt⟩ | ⟨e, he, a, ha, hxa⟩
    · exact (Chart.within_of_region ht (target_lt hm hv htarget) (hh t) hxt).trans ht
        (targets_within hm hh hv hd t htarget)
    · exact hxa.trans ht (above_below hm hr hv hd he ha).within

lemma not_clears_of_entered (hv : m.IsTransition r) (hs : m.Spares memory r' r)
    (hx : x ∈ m.entrySet memory [r]) : ¬ m.Clears memory r' x := by
  rintro ⟨d', hd', hb⟩
  obtain ⟨d, hd, hw⟩ := within_of_entered hm hh hv hx
  exact hs d d' hd hd' x hw hb

lemma mem_foldl_enterTargets (hl : ∀ r ∈ l, m.IsTransition r)
    (hs : l.Pairwise (m.Separate memory)) {s : Configuration}
    (hclear : ∀ r ∈ l, ∀ x ∈ s, ¬ m.Clears memory r x) :
    x ∈ l.foldl (m.enterTargets memory) s ↔ x ∈ s ∨ ∃ r ∈ l, x ∈ m.entrySet memory [r] := by
  induction l generalizing s with
  | nil => simp
  | cons r l ih =>
    obtain ⟨hr, hs⟩ := List.pairwise_cons.1 hs
    have hv := hl r List.mem_cons_self
    have hstep : m.enterTargets memory s r = (m.entrySet memory [r]).union s := by
      have hempty : SortedSet.empty.union s = s := SortedSet.ext fun x => by simp
      rw [← hempty, enterTargets_union hm hh hv, hempty]
      · rfl
      · exact fun d hd x hx hb => hclear r List.mem_cons_self x hx ⟨d, hd, hb⟩
    rw [List.foldl_cons, ih (fun r' hr' => hl r' (List.mem_cons_of_mem _ hr')) hs, hstep,
      SortedSet.mem_union]
    · simp only [List.mem_cons, exists_eq_or_imp, or_assoc, or_left_comm]
    intro r' hr' x hx
    rcases SortedSet.mem_union.1 (hstep ▸ hx) with hx | hx
    · exact not_clears_of_entered hm hh hv (hr r' hr').2 hx
    · exact hclear r' (List.mem_cons_of_mem _ hr') x hx

end

def Replaces (m : Machine C) (s : MachineState C) (l : List TransitionRef) (conf : Configuration) :
    Prop :=
  ∀ x, x ∈ conf ↔ x ∈ s.configuration ∧ (∀ r ∈ l, ¬ m.Clears s.history r x) ∨
    ∃ r ∈ l, x ∈ m.entrySet s.history [r]

lemma Replaces.perm {s : MachineState C} {conf : Configuration} (h : m.Replaces s l conf)
    (hl : l.Perm l') : m.Replaces s l' conf := by
  intro x
  rw [h x]
  simp only [hl.mem_iff]

lemma Replaces.unique {s : MachineState C} {conf conf' : Configuration} (h : m.Replaces s l conf)
    (h' : m.Replaces s l conf') : conf = conf' :=
  SortedSet.ext fun x => (h x).trans (h' x).symm

def oneByOne (m : Machine C) (l : List TransitionRef) (event : Event) (run : Run C) :
    Except StepError (Run C) :=
  l.foldlM (fun run r => m.microstep [r] event run) run

section

variable {event : Event} {run run' : Run C} (hm : m.WellFormed) (hh : m.chart.Historyless)
  (hl : ∀ r ∈ l, m.IsTransition r) (hs : l.Pairwise (m.Separate run.state.history))

include hm hh hl hs

lemma replaces_of_microstep (h : m.microstep l event run = .ok run') :
    run'.state.history = run.state.history ∧ m.Replaces run.state l run'.state.configuration := by
  obtain ⟨hhist, hmem⟩ := microstep_mem h
  have hafter : m.historyAfter run.state l = run.state.history := hh.recordHistory _ _ _
  rw [hafter] at hhist hmem
  refine ⟨hhist, fun x => ?_⟩
  rw [hmem, entrySet_eq_foldl, mem_foldl_enterTargets hm hh hl hs (by simp)]
  refine or_congr (and_congr_right fun hx => ?_) (by simp)
  simp only [mem_exitSetOf, mem_exitSet hm.chart.toIsTree, hx, true_and, not_exists, not_and,
    Clears]

lemma replaces_of_oneByOne (h : m.oneByOne l event run = .ok run') :
    run'.state.history = run.state.history ∧ m.Replaces run.state l run'.state.configuration := by
  induction l generalizing run with
  | nil =>
    obtain rfl := foldlM_nil_eq_ok h
    exact ⟨rfl, fun x => by simp⟩
  | cons r l ih =>
    obtain ⟨run₁, h₁, h⟩ := foldlM_cons_eq_ok h
    obtain ⟨hr, hs⟩ := List.pairwise_cons.1 hs
    obtain ⟨hhist₁, hmem₁⟩ := replaces_of_microstep hm hh (by simpa using hl r List.mem_cons_self)
      (List.pairwise_singleton _ _) h₁
    obtain ⟨hhist, hmem⟩ := ih (fun r' hr' => hl r' (List.mem_cons_of_mem _ hr')) (hhist₁ ▸ hs) h
    refine ⟨hhist.trans hhist₁, fun x => ?_⟩
    -- what `r` enters is not exited by the transitions after it
    have hstays : x ∈ m.entrySet run.state.history [r] →
        ∀ r' ∈ l, ¬ m.Clears run.state.history r' x := fun hx r' hr' =>
      not_clears_of_entered hm hh (hl r List.mem_cons_self) (hr r' hr').2 hx
    rw [hmem, hmem₁, hhist₁]
    simp only [List.mem_cons, List.not_mem_nil, or_false, forall_eq_or_imp, forall_eq,
      exists_eq_left, exists_eq_or_imp]
    rw [or_and_right, and_assoc, or_assoc]
    exact or_congr_right (or_congr_left ⟨And.left, fun hx => ⟨hx, hstays hx⟩⟩)

end

variable [JsonCoded C] {d : Definition} {b : Behaviors C} {context : Option C}

/-- Where there are no history states, transitions of active states that exit no state in common
lead to the same configuration in one microstep and one by one in any order. -/
theorem microstep_serializable (h : build d b context = .ok m) (hh : m.chart.Historyless)
    {event : Event} {run run' run'' : Run C} (hs : m.chart.Legal run.state.configuration)
    (hl : ∀ r ∈ l, m.IsTransition r ∧ (m.transitionAt r).source ∈ run.state.configuration)
    (ha : l.Pairwise (m.Apart run.state.configuration run.state.history)) (hperm : l.Perm l')
    (htogether : m.microstep l event run = .ok run')
    (hserial : m.oneByOne l' event run = .ok run'') :
    run''.state.configuration = run'.state.configuration := by
  have hm := wellFormed_of_build h
  have hseparate := separate_of_apart hm hh hs hl ha
  have hv : ∀ r ∈ l, m.IsTransition r := fun r hr => (hl r hr).1
  obtain ⟨_, htogether⟩ := replaces_of_microstep hm hh hv hseparate htogether
  obtain ⟨_, hserial⟩ := replaces_of_oneByOne hm hh (fun r hr => hv r (hperm.mem_iff.2 hr))
    (hseparate.perm hperm fun h => Std.Symm.symm _ _ h) hserial
  exact (hserial.perm hperm.symm).unique htogether

lemma lighting_historyless : lightingMachine.chart.Historyless :=
  Chart.forall_node (P := fun _ node => node.isHistory = false) (by decide) fun _ => rfl

def lightingOn : Run Unit := .start ⟨.ofList [0, 2, 3, 4, 6, 7], (), .empty⟩

theorem lighting_serializable :
    ∃ run' run'',
      lightingMachine.microstep [⟨4, 0⟩, ⟨7, 0⟩] (.ofType "TURN") lightingOn = .ok run' ∧
      lightingMachine.oneByOne [⟨7, 0⟩, ⟨4, 0⟩] (.ofType "TURN") lightingOn = .ok run'' ∧
      run''.state.configuration = run'.state.configuration ∧
      run'.state.configuration = .ofList [0, 2, 3, 5, 6, 8] := by
  have htogether : (lightingMachine.microstep [⟨4, 0⟩, ⟨7, 0⟩] (.ofType "TURN")
      lightingOn).toOption.map (fun run => run.state.configuration) =
        some (.ofList [0, 2, 3, 5, 6, 8]) := by decide +kernel
  have hserial : (lightingMachine.oneByOne [⟨7, 0⟩, ⟨4, 0⟩] (.ofType "TURN")
      lightingOn).toOption.isSome := by decide +kernel
  obtain ⟨run', hrun', hconf⟩ := Option.map_eq_some_iff.1 htogether
  obtain ⟨run'', hrun''⟩ := Option.isSome_iff_exists.1 hserial
  have hl : ∀ r ∈ [(⟨4, 0⟩ : TransitionRef), ⟨7, 0⟩],
      (lightingMachine.transitionAt r).targets ≠ [] ∧
        (lightingMachine.transitionAt r).source ∈ lightingOn.state.configuration := by decide
  have ha : ∀ n ∈ lightingMachine.exitSet lightingOn.state.configuration .empty ⟨4, 0⟩,
      n ∉ lightingMachine.exitSet lightingOn.state.configuration .empty ⟨7, 0⟩ := by decide
  refine ⟨run', run'', eq_ok_of_toOption hrun', eq_ok_of_toOption hrun'', ?_, hconf⟩
  exact microstep_serializable build_lighting lighting_historyless (by decide)
    (fun r hr => (hl r hr).imp_left isTransition_of_targets) (List.pairwise_pair.2 ha)
    (List.Perm.swap _ _ _) (eq_ok_of_toOption hrun') (eq_ok_of_toOption hrun'')

end Machine

end Statechart
