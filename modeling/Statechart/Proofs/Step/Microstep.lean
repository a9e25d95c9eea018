import Mathlib.Tactic.Common
import Statechart.Proofs.Step.Stability

/-! Microsteps and full configurations. A microstep from a grounded configuration leads to a
grounded one, and from a full one to a full one unless it uproots: its transition has a parallel
root as its domain and leaves some region of the root without a target. -/

namespace Statechart.Machine

variable {C : Type} {m : Machine C} {memory : Memory} {r : TransitionRef} {d x : NodeId}

def enterTargets (m : Machine C) (memory : Memory) (s : Configuration) (r : TransitionRef) :
    Configuration :=
  (m.targetsOf memory r).foldl
    (fun s t => m.chart.enterAncestors memory s t (m.domain? memory r))
    ((m.transitionAt r).targets.foldl (m.chart.enter memory) s)

def TargetRegion (m : Machine C) (memory : Memory) (r : TransitionRef) (d x : NodeId) : Prop :=
  (∃ t ∈ (m.transitionAt r).targets, m.chart.Region memory t x) ∨
    ∃ e ∈ m.targetsOf memory r, ∃ a ∈ m.chart.ancestorsBelow e (some d), m.chart.Within x a

lemma entrySet_eq_foldl (l : List TransitionRef) :
    m.entrySet memory l = l.foldl (m.enterTargets memory) .empty := rfl

section

variable (hm : m.WellFormed) (hr : m.chart.Recalls memory) (hv : m.IsTransition r)

include hm hr hv

lemma enterTargets_of_none (hd : m.domain? memory r = none) (s : Configuration) :
    m.enterTargets memory s r = s := by
  have hnil := domain?_eq_none.1 hd
  rw [enterTargets, hnil, (targetsOf_eq_nil hm hr hv).1 hnil]
  rfl

lemma enterTargets_adds (hd : m.domain? memory r = some d) (s : Configuration) :
    m.chart.Adds (m.chart.Within d ·) (m.TargetRegion memory r d) s (m.enterTargets memory s r) ∧
      ∀ e ∈ m.targetsOf memory r, e ∈ m.enterTargets memory s r := by
  have henters : ∀ n < m.chart.size, m.chart.Enters memory (m.chart.enter memory) n :=
    fun n hn => Chart.enter_enters hm.chart hr hn
  have hstop : ∀ t ∈ (m.transitionAt r).targets, ∀ q, (m.node t).parent? = some q →
      (∃ e ∈ m.targetsOf memory r, q ∈ m.chart.ancestorsBelow e (some d)) ∨ m.chart.Within d q := by
    intro t ht q hq
    obtain ⟨hne, hbelow⟩ := Chart.tops_below hm.chart (hr t) hq
    obtain ⟨e, he⟩ := List.exists_mem_of_ne_nil _ hne
    refine (Chart.mem_ancestorsBelow_or_within hm.chart.toIsTree d (hbelow e he).2).imp_left ?_
    exact fun hmem => ⟨e, (mem_targetsOf hm hr hv).2 ⟨t, ht, he⟩, hmem⟩
  have hregions : ∀ a, (m.node a).isParallel →
      (∃ e ∈ m.targetsOf memory r, a ∈ m.chart.ancestorsBelow e (some d)) →
        ∀ r' ∈ m.chart.regularChildren a, m.chart.Enters memory (m.chart.enter memory) r' := by
    intro a _ _ r' hr'
    exact henters r' (Chart.below_size (Chart.regularChild_below hm.chart.toIsTree hr'))
  have hadds := Chart.enterAll_adds hm.chart (fun t ht => henters t (target_lt hm hv ht))
    (fun e he => (mem_targetsOf hm hr hv).1 he) hstop (Chart.within_self d) hregions s
  rw [enterTargets, hd]
  exact hadds

omit hr in
lemma targetRegion_lt (hr : m.chart.Recalls memory) (h : m.TargetRegion memory r d x) :
    x < m.chart.size := by
  have hwithin : ∀ {e a : NodeId}, e < m.chart.size → m.chart.Within e a → m.chart.Within x a →
      x < m.chart.size := by
    intro e a he hea hxa
    rcases hxa with rfl | hxa
    · exact Nat.lt_of_le_of_lt (Chart.within_le hm.chart.toIsTree hea) he
    · exact Chart.below_size hxa
  rcases h with ⟨t, ht, e, he, a, hea, hxa, _⟩ | ⟨e, he, a, ha, hxa⟩
  · exact hwithin (Chart.tops_lt hm.chart (hr t) (target_lt hm hv ht) he) hea hxa
  · obtain ⟨t, ht, he⟩ := (mem_targetsOf hm hr hv).1 he
    exact hwithin (Chart.tops_lt hm.chart (hr t) (target_lt hm hv ht) he)
      (Chart.below_of_mem_ancestorsBelow ha).within hxa

end

lemma entrySet_adds (hm : m.WellFormed) (hr : m.chart.Recalls memory) {l : List TransitionRef}
    (hl : ∀ r ∈ l, m.IsTransition r) :
    m.chart.Adds (fun q => ∃ r ∈ l, ∃ d, m.domain? memory r = some d ∧ m.chart.Within d q)
        (fun x => ∃ r ∈ l, ∃ d, m.domain? memory r = some d ∧ m.TargetRegion memory r d x)
        .empty (m.entrySet memory l) ∧
      ∀ r ∈ l, ∀ e ∈ m.targetsOf memory r, e ∈ m.entrySet memory l := by
  have hstep : ∀ r ∈ l, ∀ s, m.chart.Adds
      (fun q => ∃ r ∈ l, ∃ d, m.domain? memory r = some d ∧ m.chart.Within d q)
      (fun x => ∃ r ∈ l, ∃ d, m.domain? memory r = some d ∧ m.TargetRegion memory r d x) s
      (m.enterTargets memory s r) ∧ ∀ e ∈ m.targetsOf memory r, e ∈ m.enterTargets memory s r := by
    intro r hmem s
    cases hd : m.domain? memory r with
    | none =>
      rw [enterTargets_of_none hm hr (hl r hmem) hd, domain?_eq_none.1 hd]
      exact ⟨.refl s, fun e he => absurd he List.not_mem_nil⟩
    | some d =>
      obtain ⟨hadds, htargets⟩ := enterTargets_adds hm hr (hl r hmem) hd s
      exact ⟨hadds.mono (fun x hx => ⟨r, hmem, d, hd, hx⟩) fun q hq => .inr ⟨r, hmem, d, hd, hq⟩,
        htargets⟩
  refine ⟨Chart.Adds.foldl fun r hmem s _ => (hstep r hmem s).1, fun r hmem e he => ?_⟩
  exact Chart.Adds.foldl_of_step (fun r hmem s _ => (hstep r hmem s).1)
    (fun _ _ hs hP => hs e hP) hmem fun s _ => (hstep r hmem s).2 e he

lemma entrySet_lt (hm : m.WellFormed) (hr : m.chart.Recalls memory) {l : List TransitionRef}
    (hl : ∀ r ∈ l, m.IsTransition r) (hx : x ∈ m.entrySet memory l) : x < m.chart.size := by
  rcases (entrySet_adds hm hr hl).1.new x hx with hx | ⟨⟨r, hmem, d, _, hx⟩, _⟩
  · exact absurd hx (SortedSet.not_mem_empty x)
  · exact targetRegion_lt hm (hl r hmem) hr hx

def Leads (m : Machine C) (s : MachineState C) (l : List TransitionRef) (conf : Configuration) :
    Prop :=
  ∀ x, x ∈ conf ↔
    x ∈ s.configuration ∧ x ∉ m.exitSetOf s.configuration s.history l ∨
      x ∈ m.entrySet (m.historyAfter s l) l

/-- Some transition has a parallel root as its domain, and a region of the root without a target. -/
def Uproots (m : Machine C) (s : MachineState C) (l : List TransitionRef) : Prop :=
  (m.chart.node rootId).isParallel ∧ ∃ r ∈ l, m.domain? (m.historyAfter s l) r = some rootId ∧
    ∃ region ∈ m.chart.regularChildren rootId, ∀ e ∈ m.targetsOf (m.historyAfter s l) r,
      e ≠ rootId ∧ ¬ m.chart.Within e region

lemma Leads.mem_of_entered {s : MachineState C} {l : List TransitionRef} {conf : Configuration}
    (hl : m.Leads s l conf) (hx : x ∈ m.entrySet (m.historyAfter s l) l) : x ∈ conf :=
  (hl x).2 (.inr hx)

namespace Poised

variable {s : MachineState C} {l : List TransitionRef} {conf : Configuration}
  (hp : m.Poised s l) (hl : m.Leads s l conf)

include hp

lemma entrySet_adds :
    m.chart.Adds (fun q => ∃ r ∈ l, ∃ d, m.domain? s.history r = some d ∧ m.chart.Within d q)
        (fun x => ∃ r ∈ l, ∃ d, m.domain? s.history r = some d ∧
          m.TargetRegion (m.historyAfter s l) r d x)
        .empty (m.entrySet (m.historyAfter s l) l) ∧
      ∀ r ∈ l, ∀ e ∈ m.targetsOf (m.historyAfter s l) r,
        e ∈ m.entrySet (m.historyAfter s l) l := by
  obtain ⟨hadds, htargets⟩ := Machine.entrySet_adds hp.wellFormed hp.recalls_after
    fun r hr => hp.isTransition hr
  refine ⟨hadds.mono (fun x hx => ?_) fun q hq => .inr ?_, htargets⟩
  · obtain ⟨r, hr, d, hd, hx⟩ := hx
    exact ⟨r, hr, d, hp.domain?_stable hr ▸ hd, hx⟩
  · obtain ⟨r, hr, d, hd, hq⟩ := hq
    exact ⟨r, hr, d, hp.domain?_stable hr ▸ hd, hq⟩

lemma entered_lt (hx : x ∈ m.entrySet (m.historyAfter s l) l) : x < m.chart.size :=
  entrySet_lt hp.wellFormed hp.recalls_after (fun _ hr => hp.isTransition hr) hx

lemma hangs (hx : x ∈ m.entrySet (m.historyAfter s l) l) :
    m.chart.Hangs (fun q => ∃ r ∈ l, ∃ d, m.domain? s.history r = some d ∧ m.chart.Within d q)
      (m.entrySet (m.historyAfter s l) l) x := by
  rcases hp.entrySet_adds.1.new x hx with hx | hx
  · exact absurd hx (SortedSet.not_mem_empty x)
  · exact hx.2

lemma eq_domain {n : NodeId} (hx : x ∉ m.exitSetOf s.configuration s.history l)
    (hmem : x ∈ s.configuration) (hc : n ∈ (m.chart.node x).children)
    (hn : n ∈ m.exitSetOf s.configuration s.history l) :
    ∃ r ∈ l, m.domain? s.history r = some x := by
  obtain ⟨_, r, hr, d, hd, hb⟩ := hp.mem_exitSetOf.1 hn
  refine ⟨r, hr, ?_⟩
  rcases (Chart.child_below_iff hp.isTree hc).1 hb with rfl | hxd
  · exact hd
  · exact absurd (hp.mem_exitSetOf.2 ⟨hmem, r, hr, d, hd, hxd⟩) hx

lemma exists_target {r : TransitionRef} (hr : r ∈ l) (hd : m.domain? s.history r = some d) :
    ∃ e ∈ m.targetsOf (m.historyAfter s l) r, m.chart.Below e d ∨ d = rootId ∧ e = rootId := by
  have hd' := (hp.domain?_stable hr).trans hd
  obtain ⟨hne, hall, _⟩ := domain?_spec hp.isTree hd'
  obtain ⟨e, he⟩ := List.exists_mem_of_ne_nil _ hne
  refine ⟨e, he, ?_⟩
  rcases hall with ⟨_, hall⟩ | rfl
  · exact .inl (hall e he)
  · have hlt := hp.entered_lt (hp.entrySet_adds.2 r hr e he)
    exact ((Chart.within_root hp.isTree hlt).symm).imp_right fun h => ⟨rfl, h⟩

include hl

lemma root_mem : rootId ∈ conf := by
  exact (hl rootId).2 (.inl ⟨hp.grounded.root, fun hmem => exitSetOf_ne_root hp.isTree hmem rfl⟩)

lemma parent_mem (hx : x ∈ conf) {q : NodeId} (hq : (m.chart.node x).parent? = some q) :
    q ∈ conf := by
  rcases (hl x).1 hx with ⟨hmem, hstays⟩ | hentered
  · refine (hl q).2 (.inl ⟨hp.grounded.parent x hmem q hq, fun hexit => hstays ?_⟩)
    exact mem_exitSetOf_of_below hp.isTree hmem (Chart.below_parent hp.isTree hq) hexit
  · rcases (hp.hangs hentered).parent q hq with hq | ⟨r, hr, d, hd, hq⟩
    · exact hl.mem_of_entered hq
    · exact (hl q).2 (.inl (hp.stays_of_within hr hd hq))

lemma furnished_of_entered (hx : x ∈ m.entrySet (m.historyAfter s l) l) :
    m.chart.Furnished conf x :=
  (hp.hangs hx).toFurnished.mono fun _ hn => hl.mem_of_entered hn

lemma furnished_of_stays (hu : x = rootId → ¬ m.Uproots s l) (hmem : x ∈ s.configuration)
    (hstays : x ∉ m.exitSetOf s.configuration s.history l)
    (hf : m.chart.Furnished s.configuration x) : m.chart.Furnished conf x := by
  refine ⟨hf.regular, fun hc => ?_, fun hpar region hregion => ?_⟩
  · obtain ⟨child, hchild, hs⟩ := hp.grounded.exists_child hp.isTree hf hc
    by_cases hexit : child ∈ m.exitSetOf s.configuration s.history l
    · obtain ⟨r, hr, hd⟩ := hp.eq_domain hstays hmem hchild hexit
      obtain ⟨e, he, hb⟩ := hp.exists_target hr hd
      have hentered := hp.entrySet_adds.2 r hr e he
      rcases hb with hb | ⟨rfl, rfl⟩
      · exact ⟨e, hl.mem_of_entered hentered, hb⟩
      · exact (hp.furnished_of_entered hl hentered).compound hc
    · exact ⟨child, (hl child).2 (.inl ⟨hs, hexit⟩), Chart.child_below hp.isTree hchild⟩
  · have hchild := (Chart.mem_regularChildren.1 hregion).1
    by_cases hexit : region ∈ m.exitSetOf s.configuration s.history l
    · obtain ⟨r, hr, hd⟩ := hp.eq_domain hstays hmem hchild hexit
      obtain rfl : x = rootId := by
        refine (domain_regular hp.isTree hd).resolve_right fun hc => ?_
        exact absurd hc (by simp [Machine.node, StateNode.isCompound_eq_false hpar])
      by_contra hnot
      refine hu rfl ⟨hpar, r, hr, (hp.domain?_stable hr).trans hd, region, hregion, fun e he => ?_⟩
      have hentered := hp.entrySet_adds.2 r hr e he
      refine ⟨?_, fun hw => hnot ⟨e, hl.mem_of_entered hentered, hw⟩⟩
      rintro rfl
      exact hnot ((hp.furnished_of_entered hl hentered).parallel hpar region hregion)
    · exact Chart.touches_of_mem ((hl region).2 (.inl
        ⟨hp.grounded.mem_of_touches hp.isTree (hf.parallel hpar region hregion), hexit⟩))

lemma grounded_after : m.chart.Grounded conf := by
  refine ⟨hp.root_mem hl, fun x hx => ?_, fun x hx q hq => hp.parent_mem hl hx hq,
    fun x hx hne => ?_⟩
  · rcases (hl x).1 hx with ⟨hmem, _⟩ | hentered
    · exact hp.grounded.size x hmem
    · exact hp.entered_lt hentered
  · rcases (hl x).1 hx with ⟨hmem, hstays⟩ | hentered
    · exact hp.furnished_of_stays hl (fun h => absurd h hne) hmem hstays
        (hp.grounded.inner x hmem hne)
    · exact hp.furnished_of_entered hl hentered

lemma full_after (hfull : m.chart.Full s.configuration) (hu : ¬ m.Uproots s l) :
    m.chart.Full conf := by
  obtain ⟨hroot, hsize, hparent, _⟩ := hp.grounded_after hl
  refine ⟨hroot, hsize, hparent, fun x hx => ?_⟩
  rcases (hl x).1 hx with ⟨hmem, hstays⟩ | hentered
  · exact hp.furnished_of_stays hl (fun _ => hu) hmem hstays (hfull.furnished x hmem)
  · exact hp.furnished_of_entered hl hentered

omit hl in
lemma region_not_entered {r : TransitionRef} (hr : r ∈ l) (hd : m.domain? s.history r = some rootId)
    {region : NodeId} (hregion : region ∈ (m.chart.node rootId).children)
    (hnot : ∀ e ∈ m.targetsOf (m.historyAfter s l) r, e ≠ rootId ∧ ¬ m.chart.Within e region) :
    region ∉ m.entrySet (m.historyAfter s l) l := by
  intro hmem
  have ht := hp.isTree
  rcases hp.entrySet_adds.1.new region hmem with hx | ⟨⟨r', hr', d', hd', hx⟩, _⟩
  · exact absurd hx (SortedSet.not_mem_empty region)
  have hsize : d' < m.chart.size :=
    hp.grounded.size d' (hp.stays_of_within hr' hd' (Chart.within_self d')).1
  obtain rfl : r' = r := by
    by_contra hne
    exact hp.not_within_domain hr' hr hne hd' hd (Chart.within_root ht hsize)
  rw [hd, Option.some.injEq] at hd'
  subst hd'
  have hnone : ∀ e a, e ∈ m.targetsOf (m.historyAfter s l) r' → m.chart.Within e a →
      a ≠ rootId → ¬ m.chart.Within region a := by
    rintro e a he hea ha (rfl | hb)
    · exact (hnot e he).2 hea
    · exact ha (((Chart.child_below_iff ht hregion).1 hb).resolve_right
        (Chart.not_below_root ht a)).symm
  rcases hx with ⟨t, htarget, e, he, a, hea, hxa, ha⟩ | ⟨e, he, a, ha, hxa⟩
  · have hmem := (mem_targetsOf hp.wellFormed hp.recalls_after (hp.isTransition hr')).2
      ⟨t, htarget, he⟩
    refine hnone e a hmem hea ?_ hxa
    rintro rfl
    by_cases hroot : t = rootId
    · subst hroot
      rw [Chart.tops_regular hp.wellFormed.chart.root_regular, List.mem_singleton] at he
      exact (hnot e hmem).1 he
    · obtain ⟨p, hpar, _⟩ := Chart.exists_parent ht (Chart.below_root ht
        (target_lt hp.wellFormed (hp.isTransition hr') htarget) hroot)
      exact Chart.not_below_root ht p (ha p hpar)
  · have hb := (Chart.below_of_mem_ancestorsBelow ha)
    have hroot := Chart.below_root ht (Chart.below_size hb) (hnot e he).1
    refine hnone e a he hb.within ?_ hxa
    rintro rfl
    exact Chart.not_below_self ht _ (Chart.below_of_mem_ancestorsBelow_some ht hroot ha)

lemma not_regionsActive_after (hu : m.Uproots s l) : ¬ m.chart.RegionsActive conf := by
  obtain ⟨hpar, r, hr, hd, region, hregion, hnot⟩ := hu
  rw [hp.domain?_stable hr] at hd
  intro hall
  have hchild := (Chart.mem_regularChildren.1 hregion).1
  rcases (hl region).1 (hall rootId (hp.root_mem hl) hpar region hregion) with ⟨hmem, hstays⟩ | h
  · exact hstays (hp.mem_exitSetOf.2
      ⟨hmem, r, hr, rootId, hd, Chart.child_below hp.isTree hchild⟩)
  · exact hp.region_not_entered hr hd hchild hnot h

end Poised

end Statechart.Machine
