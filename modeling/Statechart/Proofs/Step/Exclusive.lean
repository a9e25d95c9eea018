import Mathlib.Tactic.Common
import Statechart.Proofs.Configuration.Exclusive
import Statechart.Proofs.Step.Microstep

/-! Microsteps and exclusive configurations. Transitions whose targets stand beside each other enter
their domains without giving any compound state two active children. -/

namespace Statechart

def Chart.Joint (c : Chart) (targets : List NodeId) : Prop :=
  targets.Pairwise fun x y => c.Beside (c.anchor x) (c.anchor y)

namespace Machine

variable {C : Type} {m : Machine C} {memory : Memory} {r : TransitionRef} {d x : NodeId}
  {s : Configuration}

section

variable (hm : m.WellFormed) (hr : m.chart.Recalls memory) (hv : m.IsTransition r)
  (hd : m.domain? memory r = some d)

include hm hr hv hd

lemma target_below {e : NodeId} (he : e ∈ m.targetsOf memory r) :
    m.chart.Below e d ∨ d = rootId ∧ e = rootId := by
  rcases (domain?_spec hm.chart.toIsTree hd).2.1 with ⟨_, hall⟩ | rfl
  · exact .inl (hall e he)
  · obtain ⟨t, ht, he⟩ := (mem_targetsOf hm hr hv).1 he
    have hlt := Chart.tops_lt hm.chart (hr t) (target_lt hm hv ht) he
    exact (Chart.within_root hm.chart.toIsTree hlt).symm.imp_right fun h => ⟨rfl, h⟩

lemma target_within {e : NodeId} (he : e ∈ m.targetsOf memory r) : m.chart.Within e d := by
  rcases target_below hm hr hv hd he with hb | ⟨rfl, rfl⟩
  · exact hb.within
  · exact Chart.within_self _

lemma above_below {e a : NodeId} (he : e ∈ m.targetsOf memory r)
    (ha : a ∈ m.chart.ancestorsBelow e (some d)) : m.chart.Below a d := by
  rcases target_below hm hr hv hd he with hb | ⟨rfl, rfl⟩
  · exact Chart.below_of_mem_ancestorsBelow_some hm.chart.toIsTree hb ha
  · rw [Chart.ancestorsBelow_root hm.chart.toIsTree] at ha
    exact absurd ha List.not_mem_nil

variable (hg : m.chart.Guided memory)

include hg

lemma enterTargets_comparable :
    ∀ x ∈ m.enterTargets memory s r, x ∈ s ∨ m.chart.Within x d ∨ m.chart.Within d x := by
  have henters : ∀ n < m.chart.size, m.chart.Enters memory (m.chart.enter memory) n :=
    fun n hn => Chart.enter_enters hm.chart hr hn
  have htarget : ∀ t ∈ (m.transitionAt r).targets, ∀ e ∈ m.chart.tops memory t,
      m.chart.Within e d := fun t ht e he =>
    target_within hm hr hv hd ((mem_targetsOf hm hr hv).2 ⟨t, ht, he⟩)
  have hstart : m.chart.Returning s d (m.targetsOf memory r)
      ((m.transitionAt r).targets.foldl (m.chart.enter memory) s) := by
    refine ⟨fun e he => ?_, List.foldlRecOn (motive := fun s' => ∀ x ∈ s',
      x ∈ s ∨ m.chart.Within x d ∨ m.chart.Within d x) _ _ (fun x hx => .inl hx)
      fun s' hs' t ht x hx => ?_⟩
    · obtain ⟨t, ht, he⟩ := (mem_targetsOf hm hr hv).1 he
      exact Chart.Enters.mem_foldl (fun t ht => henters t (target_lt hm hv ht)) ht he
    · exact (Chart.enter_comparable hm.chart hr hg (target_lt hm hv ht) (htarget t ht) x
        hx).elim (hs' x) .inr
  have hregions : ∀ e ∈ m.targetsOf memory r, ∀ a ∈ m.chart.ancestorsBelow e (some d),
      (m.chart.node a).isParallel → ∀ r' ∈ m.chart.regularChildren a,
        m.chart.Enters memory (m.chart.enter memory) r' ∧
          (m.chart.Within a d ∨ ∃ e' ∈ m.targetsOf memory r, m.chart.Within e' r') := by
    intro e he a ha _ r' hr'
    have hb := Chart.regularChild_below hm.chart.toIsTree hr'
    exact ⟨henters r' (Chart.below_size hb), .inl (above_below hm hr hv hd he ha).within⟩
  rw [enterTargets, hd]
  exact (List.foldlRecOn (motive := m.chart.Returning s d (m.targetsOf memory r)) _ _ hstart
    fun s' hs' e he => hs'.addAncestors hm.chart (fun e he => target_within hm hr hv hd he) he
      (hregions e he)).new

lemma enterTargets_coherent (hj : m.chart.Joint (m.transitionAt r).targets)
    (ha : m.chart.Admits s d) (h : m.chart.Coherent s) :
    m.chart.Coherent (m.enterTargets memory s r) := by
  have ht := hm.chart.toIsTree
  have henters : ∀ n < m.chart.size, m.chart.EntersCoherently memory (m.chart.enter memory) n :=
    fun n hn => Chart.enter_coherently hm.chart hr hg hn
  rw [enterTargets, hd]
  refine Chart.enterAll_coherent hm.chart (fun t ht => henters t (target_lt hm hv ht))
    (fun e he => (mem_targetsOf hm hr hv).1 he) (fun a _ _ r' hr' => ?_)
    (hj.imp_of_mem fun {t u} hmem hmem' hb x hx e he => ?_) (fun t hmem e he => ?_) h
  · exact henters r' (Chart.below_size (Chart.regularChild_below ht hr'))
  · exact hb.of_within ht
      (Chart.within_anchor_of_region hm.chart (target_lt hm hv hmem) hx)
      (Chart.within_anchor_of_top hm.chart (hr u) (target_lt hm hv hmem') he)
  · exact ha.of_within ht
      (target_within hm hr hv hd ((mem_targetsOf hm hr hv).2 ⟨t, hmem, he⟩))

end

structure EnteredApart (m : Machine C) (s : MachineState C) (l done : List TransitionRef)
    (entered : Configuration) : Prop where
  coherent : m.chart.Coherent entered
  placed : ∀ x ∈ entered,
    x ∈ s.configuration ∧ x ∉ m.exitSetOf s.configuration s.history l ∨
      ∃ r ∈ done, ∃ d, m.domain? s.history r = some d ∧ m.chart.Below x d

namespace Poised

variable {s : MachineState C} {l done : List TransitionRef} {entered conf : Configuration}
  (hp : m.Poised s l) (hs : m.chart.Coherent s.configuration)

include hp hs

lemma stays_around (hr : r ∈ l) (hd : m.domain? s.history r = some d) (hx : x ∈ s.configuration)
    (hstays : x ∉ m.exitSetOf s.configuration s.history l) :
    m.chart.Within d x ∨ m.chart.Beside x d := by
  refine hs.within_or_beside hp.wellFormed.chart hx
    (hp.stays_of_within hr hd (Chart.within_self d)).1 fun hb => hstays ?_
  exact hp.mem_exitSetOf.2 ⟨hx, r, hr, d, hd, hb⟩

lemma domains_beside {r' : TransitionRef} {d' : NodeId}
    (ha : m.Apart s.configuration s.history r r') (hr : r ∈ l) (hr' : r' ∈ l)
    (hd : m.domain? s.history r = some d) (hd' : m.domain? s.history r' = some d') :
    m.chart.Beside d d' := by
  refine (hs.within_or_beside hp.wellFormed.chart (hp.stays_of_within hr hd (.inl rfl)).1
    (hp.stays_of_within hr' hd' (.inl rfl)).1 fun hb => ?_).resolve_left ?_
  · exact hp.not_within_of_apart ha hr hd hd' hb.within
  · exact hp.not_within_of_apart (Std.Symm.symm _ _ ha) hr' hd' hd

variable (hg : m.chart.Guided (m.historyAfter s l))

include hg

lemma entered_step (hr : r ∈ l) (hj : m.chart.Joint (m.transitionAt r).targets)
    (hdone : ∀ r' ∈ done, r' ∈ l ∧ m.Apart s.configuration s.history r' r)
    (h : m.EnteredApart s l done entered) :
    m.EnteredApart s l (done ++ [r]) (m.enterTargets (m.historyAfter s l) entered r) := by
  have ht := hp.isTree
  have hold : ∀ x ∈ entered, x ∈ s.configuration ∧
      x ∉ m.exitSetOf s.configuration s.history l ∨
        ∃ r' ∈ done ++ [r], ∃ d, m.domain? s.history r' = some d ∧ m.chart.Below x d :=
    fun x hx => (h.placed x hx).imp_right fun ⟨r', hr', hx⟩ =>
      ⟨r', List.mem_append_left _ hr', hx⟩
  cases hd : m.domain? s.history r with
  | none =>
    rw [enterTargets_of_none hp.wellFormed hp.recalls_after (hp.isTransition hr)
      ((hp.domain?_stable hr).trans hd)]
    exact ⟨h.coherent, hold⟩
  | some d =>
    have hd' := (hp.domain?_stable hr).trans hd
    refine ⟨enterTargets_coherent hp.wellFormed hp.recalls_after (hp.isTransition hr) hd' hg hj
      (fun x hx => ?_) h.coherent, fun x hx => ?_⟩
    · rcases h.placed x hx with ⟨hxs, hstays⟩ | ⟨r', hr', d', hd', hb⟩
      · exact hp.stays_around hs hr hd hxs hstays
      · obtain ⟨hmem, ha⟩ := hdone r' hr'
        have hbeside := hp.domains_beside hs ha hmem hr hd' hd
        exact .inr (hbeside.of_within ht hb.within (Chart.within_self d))
    -- what is added above the domain, on the way back to a history state's targets, has stayed
    · rcases enterTargets_comparable hp.wellFormed hp.recalls_after (hp.isTransition hr) hd' hg x
        hx with hx | (rfl | hb) | hdx
      · exact hold x hx
      · exact .inl (hp.stays_of_within hr hd (Chart.within_self x))
      · exact .inr ⟨r, List.mem_append_right _ (List.mem_singleton_self r), d, hd, hb⟩
      · exact .inl (hp.stays_of_within hr hd hdx)

lemma entered_foldl {rest : List TransitionRef} (hl : ∀ r ∈ done ++ rest, r ∈ l)
    (hj : ∀ r ∈ rest, m.chart.Joint (m.transitionAt r).targets)
    (ha : (done ++ rest).Pairwise (m.Apart s.configuration s.history))
    (h : m.EnteredApart s l done entered) : m.EnteredApart s l (done ++ rest)
      (rest.foldl (m.enterTargets (m.historyAfter s l)) entered) := by
  induction rest generalizing done entered with
  | nil => simpa using h
  | cons r rest ih =>
    have hstep := hp.entered_step hs hg (hl r (by simp)) (hj r List.mem_cons_self)
      (fun r' hr' => ⟨hl r' (List.mem_append_left _ hr'),
        (List.pairwise_append.1 ha).2.2 r' hr' r List.mem_cons_self⟩) h
    have hsplit : done ++ r :: rest = done ++ [r] ++ rest := by simp
    rw [hsplit] at hl ha ⊢
    exact ih hl (fun r' hr' => hj r' (List.mem_cons_of_mem _ hr')) ha hstep

lemma entered_after (hj : ∀ r ∈ l, m.chart.Joint (m.transitionAt r).targets) :
    m.EnteredApart s l l (m.entrySet (m.historyAfter s l) l) := by
  have hempty : m.EnteredApart s l [] .empty :=
    ⟨Chart.coherent_empty _, fun x hx => absurd hx (SortedSet.not_mem_empty x)⟩
  have hentered : m.EnteredApart s l ([] ++ l)
      (l.foldl (m.enterTargets (m.historyAfter s l)) .empty) :=
    hp.entered_foldl hs hg (by simp) hj (by simpa using hp.compatible.apart) hempty
  simpa [entrySet_eq_foldl] using hentered

lemma coherent_after (hl : m.Leads s l conf) (hsize : ∀ x ∈ conf, x < m.chart.size)
    (hj : ∀ r ∈ l, m.chart.Joint (m.transitionAt r).targets) : m.chart.Coherent conf := by
  have ht := hp.isTree
  have hentered := hp.entered_after hs hg hj
  have hmixed : ∀ x y, x ∈ s.configuration →
      x ∉ m.exitSetOf s.configuration s.history l →
        y ∈ m.entrySet (m.historyAfter s l) l → ¬ m.chart.Clash x y := by
    intro x y hx hstays hy
    rcases hentered.placed y hy with ⟨hys, _⟩ | ⟨r, hr, d, hd, hb⟩
    · exact hs.not_clash x hx y hys
    · rcases hp.stays_around hs hr hd hx hstays with hdx | hbeside
      · exact fun hc => Chart.not_clash_of_within ht (hb.trans_within ht hdx).within hc.symm
      · exact (hbeside.of_within ht (Chart.within_self x) hb.within).not_clash ht
  refine ⟨hsize, fun x hx y hy => ?_⟩
  rcases (hl x).1 hx with ⟨hxs, hxl⟩ | hx <;> rcases (hl y).1 hy with ⟨hys, hyl⟩ | hy
  · exact hs.not_clash x hxs y hys
  · exact hmixed x y hxs hxl hy
  · exact fun hc => hmixed y x hys hyl hx hc.symm
  · exact hentered.coherent.not_clash x hx y hy

end Poised

end Machine

end Statechart
