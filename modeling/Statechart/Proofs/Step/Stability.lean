import Mathlib.Data.Nat.Find
import Mathlib.Tactic.Common
import Statechart.Proofs.Step.Memory
import Statechart.Proofs.Step.Selection

/-! Domains before and after exiting, when history states may lead to other states. -/

namespace Statechart.Machine

variable {C : Type} {m : Machine C} {s : MachineState C} {l : List TransitionRef}

lemma exitSetOf_subset (ht : m.chart.IsTree) {memory : Memory} {x : NodeId} {s : Configuration}
    (hx : x ∈ m.exitSetOf s memory l) : x ∈ s := by
  obtain ⟨r, _, hx⟩ := mem_exitSetOf.1 hx
  exact ((mem_exitSet ht).1 hx).1

lemma exitSetOf_ne_root (ht : m.chart.IsTree) {memory : Memory} {x : NodeId} {s : Configuration}
    (hx : x ∈ m.exitSetOf s memory l) : x ≠ rootId := by
  obtain ⟨r, _, hx⟩ := mem_exitSetOf.1 hx
  obtain ⟨_, d, _, hb⟩ := (mem_exitSet ht).1 hx
  rintro rfl
  exact Chart.not_below_root ht d hb

lemma mem_exitSetOf_of_below (ht : m.chart.IsTree) {memory : Memory} {x n : NodeId}
    {s : Configuration} (hx : x ∈ s) (hb : m.chart.Below x n)
    (hn : n ∈ m.exitSetOf s memory l) : x ∈ m.exitSetOf s memory l := by
  obtain ⟨r, hr, hn⟩ := mem_exitSetOf.1 hn
  obtain ⟨_, d, hd, hnd⟩ := (mem_exitSet ht).1 hn
  exact mem_exitSetOf.2 ⟨r, hr, (mem_exitSet ht).2 ⟨hx, d, hd, hb.trans ht hnd⟩⟩

lemma Compatible.stays_of_within {memory : Memory} {conf : Configuration} {r : TransitionRef}
    {d x : NodeId} (hc : m.Compatible conf memory l) (hm : m.WellFormed)
    (hs : ∀ n ∈ conf, ∀ p, (m.chart.node n).parent? = some p → p ∈ conf) (hr : r ∈ l)
    (hd : m.domain? memory r = some d) (hx : m.chart.Within d x) :
    x ∈ conf ∧ x ∉ m.exitSetOf conf memory l := by
  have ht := hm.chart.toIsTree
  obtain ⟨n, hn, ha, hv, hw⟩ := hc.chosen r hr
  obtain ⟨hsource, hsize, _⟩ := hm.transition r.node _ hv
  rw [← hsource] at hw hsize
  have hnd : m.chart.Within n d := hw.trans ht (source_within_domain ht hsize hd)
  refine ⟨Chart.mem_of_within ht hs hn (hnd.trans ht hx), fun hexit => ?_⟩
  have hbelow : m.chart.Below n d := by
    apply below_domain_of_isAtomic ht hd ha ?_ hnd
    rintro rfl
    have hle := Chart.within_le ht (hnd.trans ht hx)
    exact exitSetOf_ne_root ht hexit (Nat.le_zero.1 hle)
  obtain ⟨r', hr', hexit⟩ := mem_exitSetOf.1 hexit
  obtain ⟨_, d', hd', hb⟩ := (mem_exitSet ht).1 hexit
  have hdd := hx.trans_below ht hb
  by_cases he : r = r'
  · subst he
    rw [hd, Option.some.injEq] at hd'
    exact Chart.not_below_self ht _ (hd' ▸ hdd)
  · exact hc.apart.forall hr hr' he n ((mem_exitSet ht).2 ⟨hn, d, hd, hbelow⟩)
      ((mem_exitSet ht).2 ⟨hn, d', hd', hbelow.trans ht hdd⟩)

structure Ready (m : Machine C) (s : MachineState C) (l : List TransitionRef) : Prop where
  wellFormed : m.WellFormed
  recallable : m.chart.Recallable
  branching : (m.node rootId).isAtomic = false
  grounded : m.chart.Grounded s.configuration
  recalls : m.chart.Recalls s.history
  compatible : m.Compatible s.configuration s.history l

def ExitedParent (m : Machine C) (s : MachineState C) (l : List TransitionRef) (r : TransitionRef)
    (p : NodeId) : Prop :=
  p ∈ m.exitSetOf s.configuration s.history l ∧
    ∃ t ∈ (m.transitionAt r).targets, (m.chart.node t).isHistory ∧
      (m.chart.node t).parent? = some p

/-- A history state of an exited parallel state is targeted, and after exiting all targets are below
a scope within that state. -/
def Collapses (m : Machine C) (s : MachineState C) (l : List TransitionRef) (r : TransitionRef) :
    Prop :=
  ∃ p, m.ExitedParent s l r p ∧ (m.chart.node p).isParallel ∧
    ∃ a ∈ m.scopes r, m.chart.Below a p ∧ m.AllBelow (m.historyAfter s l) r a

namespace Ready

variable (hp : m.Ready s l) {r r' : TransitionRef} {d d' n : NodeId}

include hp

lemma isTree : m.chart.IsTree := hp.wellFormed.chart.toIsTree

lemma isTransition (hr : r ∈ l) : m.IsTransition r := hp.compatible.isTransition hr

lemma exists_source (hr : r ∈ l) :
    ∃ n ∈ s.configuration, (m.node n).isAtomic ∧ m.chart.Within n (m.transitionAt r).source := by
  obtain ⟨n, hn, ha, hv, hw⟩ := hp.compatible.chosen r hr
  rw [(hp.wellFormed.transition r.node _ hv).1]
  exact ⟨n, hn, ha, hw⟩

lemma source_mem (hr : r ∈ l) : (m.transitionAt r).source ∈ s.configuration := by
  obtain ⟨n, hn, _, hw⟩ := hp.exists_source hr
  exact hp.grounded.mem_of_within hp.isTree hn hw

lemma source_within (hr : r ∈ l) (hd : m.domain? s.history r = some d) :
    m.chart.Within (m.transitionAt r).source d :=
  source_within_domain hp.isTree (hp.grounded.size _ (hp.source_mem hr)) hd

lemma exists_exit (hr : r ∈ l) (hd : m.domain? s.history r = some d) :
    ∃ n ∈ s.configuration, m.chart.Within n (m.transitionAt r).source ∧ m.chart.Below n d := by
  obtain ⟨n, hn, ha, hw⟩ := hp.exists_source hr
  refine ⟨n, hn, hw, below_domain_of_isAtomic hp.isTree hd ha ?_
    (hw.trans hp.isTree (hp.source_within hr hd))⟩
  rintro rfl
  rw [hp.branching] at ha
  exact absurd ha Bool.false_ne_true

lemma not_within_of_apart (h : m.Apart s.configuration s.history r r') (hr : r ∈ l)
    (hd : m.domain? s.history r = some d) (hd' : m.domain? s.history r' = some d') :
    ¬ m.chart.Within d d' := by
  intro hw
  obtain ⟨n, hn, _, hb⟩ := hp.exists_exit hr hd
  exact h n ((mem_exitSet hp.isTree).2 ⟨hn, d, hd, hb⟩)
    ((mem_exitSet hp.isTree).2 ⟨hn, d', hd', hb.trans_within hp.isTree hw⟩)

lemma not_within_domain (hr : r ∈ l) (hr' : r' ∈ l) (hne : r ≠ r')
    (hd : m.domain? s.history r = some d) (hd' : m.domain? s.history r' = some d') :
    ¬ m.chart.Within d d' :=
  hp.not_within_of_apart (hp.compatible.apart.forall hr hr' hne) hr hd hd'

lemma mem_exitSetOf : n ∈ m.exitSetOf s.configuration s.history l ↔
    n ∈ s.configuration ∧ ∃ r ∈ l, ∃ d, m.domain? s.history r = some d ∧ m.chart.Below n d := by
  simp only [Machine.mem_exitSetOf, mem_exitSet hp.isTree]
  exact ⟨fun ⟨r, hr, hn, h⟩ => ⟨hn, r, hr, h⟩, fun ⟨hn, r, hr, h⟩ => ⟨r, hr, hn, h⟩⟩

lemma stays_of_within (hr : r ∈ l) (hd : m.domain? s.history r = some d)
    (hn : m.chart.Within d n) :
    n ∈ s.configuration ∧ n ∉ m.exitSetOf s.configuration s.history l :=
  hp.compatible.stays_of_within hp.wellFormed hp.grounded.parent hr hd hn

lemma below_domain (hr : r ∈ l) (hd : m.domain? s.history r = some d)
    (hn : m.chart.Within (m.transitionAt r).source n)
    (hmem : n ∈ m.exitSetOf s.configuration s.history l) : m.chart.Below n d := by
  obtain ⟨_, r', hr', d', hd', hb⟩ := hp.mem_exitSetOf.1 hmem
  by_cases he : r = r'
  · subst he
    rw [hd, Option.some.injEq] at hd'
    exact hd' ▸ hb
  · obtain ⟨a, ha, haw, hab⟩ := hp.exists_exit hr hd
    have hab' := haw.trans_below hp.isTree (hn.trans_below hp.isTree hb)
    exact absurd ((mem_exitSet hp.isTree).2 ⟨ha, d', hd', hab'⟩)
      (hp.compatible.apart.forall hr hr' he a ((mem_exitSet hp.isTree).2 ⟨ha, d, hd, hab⟩))

lemma recalls_after : m.chart.Recalls (m.historyAfter s l) :=
  hp.recalls.recordHistory hp.wellFormed.chart hp.recallable hp.grounded fun _ hn =>
    ⟨exitSetOf_subset hp.isTree hn, exitSetOf_ne_root hp.isTree hn⟩

lemma tops_of_stays {t p : NodeId} (hh : (m.chart.node t).isHistory)
    (hpar : (m.chart.node t).parent? = some p)
    (hmem : p ∉ m.exitSetOf s.configuration s.history l) :
    m.chart.tops (m.historyAfter s l) t = m.chart.tops s.history t := by
  obtain ⟨k, hk⟩ := StateNode.exists_historyKind? hh
  rw [Chart.tops, if_pos hh, Chart.tops, if_pos hh, historyAfter,
    Chart.historyTargets_recordHistory hp.isTree hk hpar,
    if_neg (mt SortedSet.mem_elems.1 hmem)]

lemma tops_below_iff {t p a : NodeId} {memory : Memory} (hm : m.chart.Recalls memory)
    (hpar : (m.chart.node t).parent? = some p) (ha : ¬ m.chart.Below a p) :
    (∀ e ∈ m.chart.tops memory t, m.chart.Below e a) ↔ m.chart.Within p a := by
  obtain ⟨hne, hbelow⟩ := Chart.tops_below hp.wellFormed.chart (hm t) hpar
  refine ⟨fun h => ?_, fun h e he => (hbelow e he).2.trans_within hp.isTree h⟩
  obtain ⟨e, he⟩ := List.exists_mem_of_ne_nil _ hne
  rcases Chart.below_connected hp.isTree (hbelow e he).2 (h e he) with hw | hb
  · exact hw
  · exact absurd hb ha

lemma tops_below_stable {t a : NodeId} (ht : t < m.chart.size)
    (hnot : ∀ p, (m.chart.node t).isHistory → (m.chart.node t).parent? = some p →
      p ∈ m.exitSetOf s.configuration s.history l → ¬ m.chart.Below a p) :
    (∀ e ∈ m.chart.tops (m.historyAfter s l) t, m.chart.Below e a) ↔
      ∀ e ∈ m.chart.tops s.history t, m.chart.Below e a := by
  cases hh : (m.chart.node t).isHistory with
  | false => rw [Chart.tops_regular hh, Chart.tops_regular hh]
  | true =>
    obtain ⟨p, hpar⟩ := Chart.exists_parent_of_isHistory hp.wellFormed.chart ht hh
    by_cases hmem : p ∈ m.exitSetOf s.configuration s.history l
    · have ha := hnot p hh hpar hmem
      rw [hp.tops_below_iff hp.recalls_after hpar ha, hp.tops_below_iff hp.recalls hpar ha]
    · rw [hp.tops_of_stays hh hpar hmem]

lemma allBelow_iff {memory : Memory} (hm : m.chart.Recalls memory) (hr : r ∈ l) (a : NodeId) :
    m.AllBelow memory r a ↔ ∀ t ∈ (m.transitionAt r).targets,
      ∀ e ∈ m.chart.tops memory t, m.chart.Below e a := by
  simp only [AllBelow, mem_targetsOf hp.wellFormed hm (hp.isTransition hr)]
  constructor
  · intro h t ht e he
    exact h e ⟨t, ht, he⟩
  · rintro h e ⟨t, ht, he⟩
    exact h t ht e he

lemma allBelow_stable (hr : r ∈ l) {a : NodeId}
    (hnot : ∀ p, m.ExitedParent s l r p → ¬ m.chart.Below a p) :
    m.AllBelow (m.historyAfter s l) r a ↔ m.AllBelow s.history r a := by
  rw [hp.allBelow_iff hp.recalls_after hr, hp.allBelow_iff hp.recalls hr]
  refine forall₂_congr fun t ht => hp.tops_below_stable ?_ fun p hh hpar hmem => ?_
  · exact target_lt hp.wellFormed (hp.isTransition hr) ht
  · exact hnot p ⟨hmem, t, ht, hh, hpar⟩

lemma not_allBelow_after (hr : r ∈ l) (hnot : ¬ m.Collapses s l r)
    (hd : m.domain? s.history r = some d) {a : NodeId} (ha : a ∈ m.scopes r)
    (hb : m.chart.Below a d) : ¬ m.AllBelow (m.historyAfter s l) r a := by
  classical
  intro hall
  have hinner := (domain?_spec hp.isTree hd).2.2
  by_cases hex : ∃ p, m.ExitedParent s l r p ∧ m.chart.Below a p
  -- the outermost such parent would be a scope itself, as it is not parallel
  · obtain ⟨p, ⟨hq, hap⟩, hmin⟩ :
        ∃ p, (m.ExitedParent s l r p ∧ m.chart.Below a p) ∧
          ∀ q, m.ExitedParent s l r q ∧ m.chart.Below a q → p ≤ q :=
      ⟨Nat.find hex, Nat.find_spec hex, fun q hq => Nat.find_min' hex hq⟩
    have ⟨hmem, t, ht, hh, hpar⟩ := hq
    have hsp := (within_of_mem_scopes ha).trans_below hp.isTree hap
    have hc := (Chart.isCompound_or_isParallel_of_child hp.wellFormed.chart
      ((hp.wellFormed.chart.mem_children t p).2 hpar)).resolve_right fun hpp =>
        hnot ⟨p, hq, hpp, a, ha, hap, hall⟩
    have hbefore : m.AllBelow s.history r p := by
      rw [← hp.allBelow_stable hr fun q hq hpq => ?_]
      · exact fun e he => (hall e he).trans hp.isTree hap
      · exact Nat.not_le_of_lt (Chart.below_lt hp.isTree hpq)
          (hmin q ⟨hq, hap.trans hp.isTree hpq⟩)
    have hpd := hp.below_domain hr hd hsp.within hmem
    have hdp := hinner p (mem_scopes_of_below hsp hc) hbefore
    exact Chart.not_below_self hp.isTree _ (hpd.trans_within hp.isTree hdp)
  · have hbefore := (hp.allBelow_stable hr fun p hq hap => hex ⟨p, hq, hap⟩).1 hall
    exact Chart.not_below_self hp.isTree _ (hb.trans_within hp.isTree (hinner a ha hbefore))

lemma domain?_eq_none_iff (hr : r ∈ l) :
    m.domain? (m.historyAfter s l) r = none ↔ m.domain? s.history r = none := by
  have hv := hp.isTransition hr
  rw [domain?_eq_none, domain?_eq_none, targetsOf_eq_nil hp.wellFormed hp.recalls_after hv,
    targetsOf_eq_nil hp.wellFormed hp.recalls hv]

lemma domain?_stable_iff (hr : r ∈ l) :
    m.domain? (m.historyAfter s l) r = m.domain? s.history r ↔ ¬ m.Collapses s l r := by
  have ht := hp.isTree
  constructor
  · rintro he ⟨p, ⟨hmem, t, htarget, _⟩, hpar, a, ha, hap, hall⟩
    cases hd : m.domain? s.history r with
    | none =>
      have hnil := (targetsOf_eq_nil hp.wellFormed hp.recalls (hp.isTransition hr)).1
        (domain?_eq_none.1 hd)
      rw [hnil] at htarget
      exact List.not_mem_nil htarget
    | some d =>
      have hsp := ((within_of_mem_scopes ha).trans_below ht hap).within
      have hpd := hp.below_domain hr hd hsp hmem
      have hda := (domain?_spec ht (he.trans hd)).2.2 a ha hall
      exact Chart.not_below_self ht _ ((hap.trans ht hpd).trans_within ht hda)
  · intro hnot
    cases hd : m.domain? s.history r with
    | none => exact (hp.domain?_eq_none_iff hr).2 hd
    | some d =>
      rw [← hd]
      refine domain?_congr ht ?_ fun a ha => ?_
      · rw [← domain?_eq_none, ← domain?_eq_none, hp.domain?_eq_none_iff hr]
      · rcases Chart.within_connected ht (hp.source_within hr hd) (within_of_mem_scopes ha)
          with hda | had
        · exact hp.allBelow_stable hr fun p hq hap =>
            (hp.stays_of_within hr hd (hda.trans_below ht hap).within).2 hq.1
        · refine iff_of_false (hp.not_allBelow_after hr hnot hd ha had) fun hbefore => ?_
          have hda := (domain?_spec ht hd).2.2 a ha hbefore
          exact Chart.not_below_self ht _ (had.trans_within ht hda)

lemma not_collapses (hrestorable : m.chart.Restorable) (hr : r ∈ l) : ¬ m.Collapses s l r := by
  rintro ⟨p, ⟨hmem, t, ht, hh, hpar⟩, hpp, a, _, hap, hall⟩
  obtain ⟨k, hk⟩ := StateNode.exists_historyKind? hh
  have hfurnished := hp.grounded.inner p (hp.mem_exitSetOf.1 hmem).1
    (exitSetOf_ne_root hp.isTree hmem)
  obtain ⟨x, hx, hxa⟩ := hp.grounded.remembered_spread hp.wellFormed.chart hp.recallable hh hpar
    hfurnished hpp (hrestorable.regions t p hh hpar hpp) hap (k := k)
  refine hxa ((hp.allBelow_iff hp.recalls_after hr a).1 hall t ht x ?_)
  rw [Chart.tops, if_pos hh, historyAfter, Chart.historyTargets_recordHistory hp.isTree hk hpar,
    if_pos (SortedSet.mem_elems.2 hmem)]
  exact hx

end Ready

structure Poised (m : Machine C) (s : MachineState C) (l : List TransitionRef) : Prop
    extends m.Ready s l where
  steady : ∀ r ∈ l, m.domain? (m.historyAfter s l) r = m.domain? s.history r

lemma Ready.poised (hp : m.Ready s l) (hr : m.chart.Restorable) : m.Poised s l :=
  ⟨hp, fun _ hmem => (hp.domain?_stable_iff hmem).2 (hp.not_collapses hr hmem)⟩

lemma Poised.domain?_stable (hp : m.Poised s l) {r : TransitionRef} (hr : r ∈ l) :
    m.domain? (m.historyAfter s l) r = m.domain? s.history r := hp.steady r hr

end Statechart.Machine
