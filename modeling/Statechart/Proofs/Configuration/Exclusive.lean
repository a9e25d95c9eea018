import Mathlib.Tactic.Common
import Statechart.Proofs.Step.Memory

/-! Entering keeps compound states exclusive. A state can be entered where each active state is
above it or beside it, and nothing that is entered along with it clashes then, as long as history
states lead to states that are beside each other. -/

namespace Statechart.Chart

variable {c : Chart} {s : Configuration} {n p d a e x y : NodeId} {stop : Option NodeId}
  {memory : Memory} {enter : Configuration → NodeId → Configuration}

structure Coherent (c : Chart) (s : Configuration) : Prop where
  size : ∀ x ∈ s, x < c.size
  not_clash : ∀ x ∈ s, ∀ y ∈ s, ¬ c.Clash x y

def Admits (c : Chart) (s : Configuration) (n : NodeId) : Prop :=
  ∀ x ∈ s, c.Within n x ∨ c.Beside x n

lemma Coherent.exclusive (h : c.Coherent s) : c.Exclusive s := by
  rintro n hc a ha b hb ⟨x, hx, hxa⟩ ⟨y, hy, hyb⟩
  by_contra hne
  exact h.not_clash x hx y hy ⟨n, hc, a, ha, b, hb, hne, hxa, hyb⟩

lemma Exclusive.coherent (h : c.Exclusive s) (hs : ∀ x ∈ s, x < c.size) : c.Coherent s := by
  refine ⟨hs, fun x hx y hy ⟨n, hc, a, ha, b, hb, hne, hxa, hyb⟩ => hne ?_⟩
  exact h n hc a ha b hb ⟨x, hx, hxa⟩ ⟨y, hy, hyb⟩

lemma coherent_empty (c : Chart) : c.Coherent .empty :=
  ⟨fun x hx => absurd hx (SortedSet.not_mem_empty x),
    fun x hx => absurd hx (SortedSet.not_mem_empty x)⟩

lemma admits_empty (c : Chart) (n : NodeId) : c.Admits .empty n :=
  fun x hx => absurd hx (SortedSet.not_mem_empty x)

lemma Admits.insert (h : c.Admits s n) (ha : c.Within n a) : c.Admits (s.insert a) n := by
  intro x hx
  rcases SortedSet.mem_insert.1 hx with rfl | hx
  · exact .inl ha
  · exact h x hx

section

variable (ht : c.IsTree)

include ht

lemma Admits.of_within (h : c.Admits s n) (ha : c.Within a n) : c.Admits s a :=
  fun x hx => (h x hx).imp (ha.trans ht ·) (·.of_within ht (within_self x) ha)

lemma Coherent.insert_of_forall (h : c.Coherent s) (hn : n < c.size)
    (hs : ∀ x ∈ s, ¬ c.Clash x n) : c.Coherent (s.insert n) := by
  refine ⟨fun x hx => ?_, fun x hx y hy => ?_⟩
  · rcases SortedSet.mem_insert.1 hx with rfl | hx
    · exact hn
    · exact h.size x hx
  · rcases SortedSet.mem_insert.1 hx with hx | hx <;>
      rcases SortedSet.mem_insert.1 hy with hy | hy
    · rw [hx, hy]
      exact not_clash_of_within ht (within_self n)
    · rw [hx]
      exact fun hc => hs y hy hc.symm
    · rw [hy]
      exact hs x hx
    · exact h.not_clash x hx y hy

lemma Coherent.insert (h : c.Coherent s) (hn : n < c.size) (ha : c.Admits s n) :
    c.Coherent (s.insert n) := by
  refine h.insert_of_forall ht hn fun x hx => ?_
  rcases ha x hx with hw | hb
  · exact fun hc => not_clash_of_within ht hw hc.symm
  · exact hb.not_clash ht

lemma Coherent.insert_above (h : c.Coherent s) (hx : x ∈ s) (hn : c.Within x n) :
    c.Coherent (s.insert n) := by
  refine h.insert_of_forall ht (Nat.lt_of_le_of_lt (within_le ht hn) (h.size x hx))
    fun y hy hc => ?_
  exact h.not_clash y hy x hx (hc.of_within ht (within_self y) hn)

end

lemma Coherent.within_or_beside (hw : c.WellFormed) (h : c.Coherent s) (hx : x ∈ s) (hn : n ∈ s)
    (hb : ¬ c.Below x n) : c.Within n x ∨ c.Beside x n := by
  rcases Chart.within_or_beside hw (h.size x hx) (h.size n hn) (h.not_clash x hx n hn) with
    hxn | hnx | hbeside
  · exact .inl (.inl (hxn.resolve_right hb).symm)
  · exact .inl hnx
  · exact .inr hbeside

structure EntersCoherently (c : Chart) (memory : Memory)
    (enter : Configuration → NodeId → Configuration) (n : NodeId) : Prop
    extends c.Enters memory enter n where
  coherent : ∀ s, c.Coherent s → (∀ e ∈ c.tops memory n, c.Admits s e) → c.Coherent (enter s n)

def SpreadAt (c : Chart) (memory : Memory) (h : NodeId) : Prop :=
  ∀ p, (c.node h).isHistory → (c.node h).parent? = some p →
    (c.historyTargets memory h).Pairwise c.Beside

lemma spreadAt_regular (h : (c.node n).isHistory = false) : c.SpreadAt memory n :=
  fun _ hh => absurd (h.symm.trans hh) Bool.false_ne_true

section

variable (hw : c.WellFormed)

include hw

lemma Coherent.admits_region {r : NodeId} (h : c.Coherent s) (hn : n ∈ s)
    (hp : (c.node n).isParallel) (hr : r ∈ (c.node n).children) (hd : ¬ c.hasDescendant s r) :
    c.Admits s r := by
  have ht := hw.toIsTree
  intro x hx
  by_cases hb : c.Below x n
  · obtain ⟨child, hchild, hxc⟩ := exists_child ht hb
    by_cases he : child = r
    · subst he
      refine .inl (.inl (hxc.resolve_right fun hb => hd ?_).symm)
      exact List.any_eq_true.2 ⟨x, hx, (ht.isDescendant_iff x child).2 hb⟩
    · have hbeside : c.Beside child r := ⟨n, hp, forks_of_children hchild hr he⟩
      exact .inr (hbeside.of_within ht hxc (within_self r))
  · have hrn := (child_below ht hr).within
    exact (h.within_or_beside hw hx hn hb).imp (hrn.trans ht ·)
      (·.of_within ht (within_self x) hrn)

lemma fillRegions_coherent (hp : (c.node n).isParallel)
    (he : ∀ r ∈ c.regularChildren n, c.EntersCoherently memory enter r) (h : c.Coherent s)
    (hn : n ∈ s) : c.Coherent (c.fillRegions enter s n) := by
  refine (List.foldlRecOn (motive := fun s => n ∈ s ∧ c.Coherent s) _ _ ⟨hn, h⟩
    fun s hs r hr => ?_).2
  obtain ⟨hn, h⟩ := hs
  obtain ⟨hchild, hreg⟩ := mem_regularChildren.1 hr
  refine ⟨(fillRegions_step hw (fun r hr => (he r hr).toEnters) hr s).1.subset n hn, ?_⟩
  by_cases hd : c.hasDescendant s r
  · rwa [if_pos hd]
  · rw [if_neg hd]
    refine (he r hr).coherent s h fun e he => ?_
    rw [tops_regular hreg, List.mem_singleton] at he
    exact he ▸ h.admits_region hw hn hp hchild hd

lemma addAncestors_coherent
    (he : ∀ a ∈ c.ancestorsBelow e stop, (c.node a).isParallel →
      ∀ r ∈ c.regularChildren a, c.EntersCoherently memory enter r)
    (h : c.Coherent s) (hmem : e ∈ s) : c.Coherent (c.addAncestors enter s e stop) := by
  refine (List.foldlRecOn (motive := fun s => e ∈ s ∧ c.Coherent s) _ _ ⟨hmem, h⟩
    fun s hs a ha => ?_).2
  obtain ⟨hmem, h⟩ := hs
  have hea := below_of_mem_ancestorsBelow ha
  have hadds := (addAncestor_step hw (fun hp r hr => (he a ha hp r hr).toEnters) hea hmem).1
  have hinsert := h.insert_above hw.toIsTree hmem hea.within
  refine ⟨hadds.subset e hmem, ?_⟩
  by_cases hp : (c.node a).isParallel
  · rw [if_pos hp]
    exact fillRegions_coherent hw hp (he a ha hp) hinsert (SortedSet.mem_insert.2 (.inl rfl))
  · rwa [if_neg hp]

omit hw in
lemma Enters.mem_foldl {ts : List NodeId} (he : ∀ t ∈ ts, c.Enters memory enter t) {t : NodeId}
    (ht : t ∈ ts) (hte : e ∈ c.tops memory t) : e ∈ ts.foldl enter s := by
  have hadds : ∀ t ∈ ts, ∀ s', (∀ x ∈ s, x ∈ s') →
      c.Adds (fun _ => True) (fun _ => True) s' (enter s' t) := fun t ht s' _ =>
    ((he t ht).adds s').mono (fun _ _ => trivial) fun _ _ => .inr trivial
  exact Adds.foldl_of_step hadds (fun _ _ hs hP => hs e hP) ht fun s' _ => (he t ht).tops s' e hte

omit hw in
lemma foldl_coherent {ts : List NodeId} (he : ∀ t ∈ ts, c.EntersCoherently memory enter t)
    (hpair : ts.Pairwise fun t u =>
      ∀ x, c.Region memory t x → ∀ e ∈ c.tops memory u, c.Beside x e)
    (ha : ∀ t ∈ ts, ∀ e ∈ c.tops memory t, c.Admits s e) (h : c.Coherent s) :
    c.Coherent (ts.foldl enter s) := by
  induction ts generalizing s with
  | nil => exact h
  | cons t ts ih =>
    obtain ⟨hbeside, hpair⟩ := List.pairwise_cons.1 hpair
    have ht := he t List.mem_cons_self
    refine ih (fun u hu => he u (List.mem_cons_of_mem _ hu)) hpair (fun u hu e heu x hx => ?_)
      (ht.coherent s h (ha t List.mem_cons_self))
    rcases (ht.adds s).new x hx with hx | ⟨hx, _⟩
    · exact ha u (List.mem_cons_of_mem _ hu) e heu x hx
    · exact .inr (hbeside u hu x hx e heu)

lemma enterAll_coherent {ts es : List NodeId} (he : ∀ t ∈ ts, c.EntersCoherently memory enter t)
    (htops : ∀ e ∈ es, ∃ t ∈ ts, e ∈ c.tops memory t)
    (hregions : ∀ a, (c.node a).isParallel → (∃ e ∈ es, a ∈ c.ancestorsBelow e stop) →
      ∀ r ∈ c.regularChildren a, c.EntersCoherently memory enter r)
    (hpair : ts.Pairwise fun t u =>
      ∀ x, c.Region memory t x → ∀ e ∈ c.tops memory u, c.Beside x e)
    (ha : ∀ t ∈ ts, ∀ e ∈ c.tops memory t, c.Admits s e) (h : c.Coherent s) :
    c.Coherent (es.foldl (fun s e => c.addAncestors enter s e stop) (ts.foldl enter s)) := by
  have hmem : ∀ e ∈ es, e ∈ ts.foldl enter s := by
    intro e hes
    obtain ⟨t, ht, hte⟩ := htops e hes
    exact Enters.mem_foldl (fun t ht => (he t ht).toEnters) ht hte
  refine (List.foldlRecOn (motive := fun s => (∀ e ∈ es, e ∈ s) ∧ c.Coherent s) _ _
    ⟨hmem, foldl_coherent he hpair ha h⟩ fun s hs e hes => ?_).2
  obtain ⟨hmem, h⟩ := hs
  have hregions' := fun a ha hp => hregions a hp ⟨e, hes, ha⟩
  have hadds := (addAncestors_adds hw stop (fun a ha hp r hr => (hregions' a ha hp r hr).toEnters)
    (hmem e hes)).1
  exact ⟨fun e he => hadds.subset e (hmem e he), addAncestors_coherent hw hregions' h (hmem e hes)⟩

lemma enterWithin_coherently (hi : c.Initials fun i => c.RecallsAt memory i ∧ c.SpreadAt memory i)
    (k : Nat) (hn : n < c.size) (hr : c.RecallsAt memory n) (hs : c.SpreadAt memory n)
    (hk : c.entryCost n ≤ k) : c.EntersCoherently memory (c.enterWithin memory k) n := by
  have ht := hw.toIsTree
  have hi' : c.Initials (c.RecallsAt memory) := fun n i hn hinit => (hi n i hn hinit).1
  refine ⟨enterWithin_enters hw hi' k hn hr hk, ?_⟩
  induction k generalizing n with
  | zero => exact absurd (Nat.le_zero.1 hk) (entryCost_ne_zero hw hn)
  | succ k ih =>
    intro s h ha
    have hbelow : ∀ a x, 2 * (c.size - a) - 1 ≤ k + 1 → c.Below x a →
        (c.node x).isHistory = false → c.EntersCoherently memory (c.enterWithin memory k) x := by
      intro a x hcost hb hreg
      have hk' := entryCost_regular hw hreg hb hcost
      exact ⟨enterWithin_enters hw hi' k (below_size hb) (recallsAt_regular hreg) hk',
        ih (below_size hb) (recallsAt_regular hreg) (spreadAt_regular hreg) hk'⟩
    cases hh : (c.node n).isHistory with
    | true =>
      obtain ⟨p, hp⟩ := exists_parent_of_isHistory hw hn hh
      have hcost : 2 * (c.size - p) - 1 ≤ k + 1 := by simpa [entryCost, hh, hp] using hk
      obtain ⟨_, htargets⟩ := hr p hh hp
      have htops : ∀ t ∈ c.historyTargets memory n, c.tops memory t = [t] :=
        fun t ht => tops_regular (htargets t ht).1
      have hall : c.Coherent ((c.historyTargets memory n).foldl
          (fun s e => c.addAncestors (c.enterWithin memory k) s e (some p))
          ((c.historyTargets memory n).foldl (c.enterWithin memory k) s)) := by
        refine enterAll_coherent hw (fun t hmem => hbelow p t hcost (htargets t hmem).2
            (htargets t hmem).1) (fun t hmem => ⟨t, hmem, by simp [htops t hmem]⟩)
          (fun a _ hex r hr => ?_)
          ((hs p hh hp).imp_of_mem fun {t u} hmem hmem' hb x hx e he => ?_)
          (fun t hmem e he => ?_) h
        · obtain ⟨t, hmem, ha⟩ := hex
          have hap := below_of_mem_ancestorsBelow_some ht (htargets t hmem).2 ha
          exact hbelow p r hcost ((regularChild_below ht hr).trans ht hap)
            (mem_regularChildren.1 hr).2
        · rw [htops u hmem', List.mem_singleton] at he
          obtain ⟨hreg, hbt⟩ := htargets t hmem
          exact he ▸ hb.of_within ht (within_of_region ht (below_size hbt) hreg hx)
            (within_self u)
        · rw [htops t hmem, List.mem_singleton] at he
          exact he ▸ ha t (by rwa [tops, if_pos hh])
      simpa only [enterWithin, hh, if_true, hp] using hall
    | false =>
      have hcost : 2 * (c.size - n) ≤ k + 1 := by simpa [entryCost, hh] using hk
      have hadmits : c.Admits s n := ha n (by simp [tops_regular hh])
      have hinsert := h.insert ht hn hadmits
      by_cases hc : (c.node n).isCompound
      · obtain ⟨i, hchild, hinit⟩ := hw.initial n hc
        have hp := (hw.mem_children i n).1 hchild
        obtain ⟨hri, hsi⟩ := hi n i hc hinit
        have hentered := ih (below_size (child_below ht hchild)) hri hsi
          (entryCost_child hw hchild hcost) (s.insert n) hinsert fun e he => by
            have hen := ((tops_below hw hri hp).2 e he).2.within
            exact (hadmits.of_within ht hen).insert hen
        simpa [enterWithin, hh, hc, hinit, addAncestors, ancestorsBelow_parent ht hp] using hentered
      · by_cases hp : (c.node n).isParallel
        · have hfilled := fillRegions_coherent hw hp (fun r hr =>
            hbelow n r (Nat.le_trans (Nat.sub_le _ _) hcost) (regularChild_below ht hr)
              (mem_regularChildren.1 hr).2) hinsert (SortedSet.mem_insert.2 (.inl rfl))
          simpa [enterWithin, hh, hc, hp] using hfilled
        · simpa [enterWithin, hh, hc, hp] using hinsert

end

structure Guided (c : Chart) (memory : Memory) : Prop where
  spread : ∀ h, c.SpreadAt memory h
  saturated : ∀ h p, (c.node h).isHistory → (c.node h).parent? = some p →
    ∀ e ∈ c.historyTargets memory h, ∀ a, c.Below e a → c.Below a p → (c.node a).isParallel →
      ∀ r ∈ c.regularChildren a, ∃ e' ∈ c.historyTargets memory h, c.Within e' r

structure Returning (c : Chart) (s : Configuration) (d : NodeId) (targets : List NodeId)
    (s' : Configuration) : Prop where
  targets : ∀ e ∈ targets, e ∈ s'
  new : ∀ x ∈ s', x ∈ s ∨ c.Within x d ∨ c.Within d x

section

variable {s' : Configuration} {targets : List NodeId}

lemma Returning.insert (h : c.Returning s d targets s') (ha : c.Within a d ∨ c.Within d a) :
    c.Returning s d targets (s'.insert a) := by
  refine ⟨fun e he => SortedSet.mem_insert.2 (.inr (h.targets e he)), fun x hx => ?_⟩
  rcases SortedSet.mem_insert.1 hx with rfl | hx
  · exact .inr ha
  · exact h.new x hx

variable (hw : c.WellFormed) (hd : ∀ e ∈ targets, c.Within e d)

include hw hd

lemma Returning.region {r : NodeId} (h : c.Returning s d targets s')
    (hr : r ∈ c.regularChildren a) (he : c.Enters memory enter r)
    (ha : c.Within a d ∨ ∃ e ∈ targets, c.Within e r) :
    c.Returning s d targets (if c.hasDescendant s' r then s' else enter s' r) := by
  have ht := hw.toIsTree
  obtain ⟨hchild, hreg⟩ := mem_regularChildren.1 hr
  by_cases hdesc : c.hasDescendant s' r
  · rwa [if_pos hdesc]
  · rw [if_neg hdesc]
    have hrd : c.Within r d := by
      rcases ha with ha | ⟨e, hmem, rfl | hb⟩
      · exact (child_below ht hchild).within.trans ht ha
      · exact hd e hmem
      · exact absurd (List.any_eq_true.2
          ⟨e, h.targets e hmem, (ht.isDescendant_iff e r).2 hb⟩) hdesc
    obtain ⟨hadds, _⟩ := he.of_regular hw (below_size (child_below ht hchild)) hreg s'
    refine ⟨fun e he => hadds.subset e (h.targets e he), fun x hx => ?_⟩
    rcases hadds.new x hx with hx | ⟨hxr, _⟩
    · exact h.new x hx
    · exact .inr (.inl (hxr.trans ht hrd))

lemma Returning.addAncestors (h : c.Returning s d targets s') (hmem : e ∈ targets)
    (he : ∀ a ∈ c.ancestorsBelow e stop, (c.node a).isParallel → ∀ r ∈ c.regularChildren a,
      c.Enters memory enter r ∧ (c.Within a d ∨ ∃ e' ∈ targets, c.Within e' r)) :
    c.Returning s d targets (c.addAncestors enter s' e stop) := by
  refine List.foldlRecOn (motive := c.Returning s d targets) _ _ h fun s' hs' a ha => ?_
  have hea := below_of_mem_ancestorsBelow ha
  have had : c.Within a d ∨ c.Within d a :=
    (within_connected hw.toIsTree hea.within (hd e hmem)).imp_right Below.within
  by_cases hp : (c.node a).isParallel
  · rw [if_pos hp]
    refine List.foldlRecOn (motive := c.Returning s d targets) _ _ (hs'.insert had)
      fun s' hs' r hr => ?_
    obtain ⟨henters, htarget⟩ := he a ha hp r hr
    exact hs'.region hw hd hr henters htarget
  · rw [if_neg hp]
    exact hs'.insert had

end

section

variable (hw : c.WellFormed)

include hw

lemma enter_coherently (hr : c.Recalls memory) (hg : c.Guided memory) (hn : n < c.size) :
    c.EntersCoherently memory (c.enter memory) n :=
  enterWithin_coherently hw (fun _ i _ _ => ⟨hr i, hg.spread i⟩) _ hn (hr n) (hg.spread n)
    (entryCost_le n)

lemma enter_history (hr : c.Recalls memory) (hg : c.Guided memory) (hn : n < c.size)
    (hh : (c.node n).isHistory) (hd : ∀ e ∈ c.historyTargets memory n, c.Within e d) :
    c.Returning s d (c.historyTargets memory n) (c.enter memory s n) := by
  have ht := hw.toIsTree
  obtain ⟨p, hp⟩ := exists_parent_of_isHistory hw hn hh
  obtain ⟨k, hk⟩ : ∃ k, c.entryDepth = k + 1 := ⟨_, rfl⟩
  have hcost : 2 * (c.size - p) - 1 ≤ k + 1 := by
    have hle := c.entryCost_le n
    simpa [entryCost, hh, hp, hk] using hle
  obtain ⟨_, htargets⟩ := hr n p hh hp
  have henters : ∀ x, c.Below x p → (c.node x).isHistory = false →
      c.Enters memory (c.enterWithin memory k) x := fun x hb hreg =>
    enterWithin_enters hw (fun _ i _ _ => hr i) k (below_size hb) (recallsAt_regular hreg)
      (entryCost_regular hw hreg hb hcost)
  have hfirst : ∀ e ∈ c.historyTargets memory n, ∀ s', (∀ x ∈ s, x ∈ s') →
      c.Adds (fun _ => True) (c.Within · d) s' (c.enterWithin memory k s' e) := by
    intro e he s' _
    obtain ⟨hreg, hb⟩ := htargets e he
    exact ((henters e hb hreg).of_regular hw (below_size hb) hreg s').1.mono
      (fun x hx => hx.trans ht (hd e he)) fun _ _ => .inr trivial
  have hstart : c.Returning s d (c.historyTargets memory n)
      ((c.historyTargets memory n).foldl (c.enterWithin memory k) s) := by
    refine ⟨fun e he => ?_, fun x hx => ((Adds.foldl hfirst).new x hx).imp_right (.inl ·.1)⟩
    exact Enters.mem_foldl (fun e he => henters e (htargets e he).2 (htargets e he).1) he
      (by simp [tops_regular (htargets e he).1])
  have hregions : ∀ e ∈ c.historyTargets memory n, ∀ a ∈ c.ancestorsBelow e (some p),
      (c.node a).isParallel → ∀ r ∈ c.regularChildren a,
        c.Enters memory (c.enterWithin memory k) r ∧
          (c.Within a d ∨ ∃ e' ∈ c.historyTargets memory n, c.Within e' r) := by
    intro e he a ha hpar r hmem
    have hap := below_of_mem_ancestorsBelow_some ht (htargets e he).2 ha
    exact ⟨henters r ((regularChild_below ht hmem).trans ht hap) (mem_regularChildren.1 hmem).2,
      .inr (hg.saturated n p hh hp e he a (below_of_mem_ancestorsBelow ha) hap hpar r hmem)⟩
  rw [enter, hk, enterWithin, if_pos hh, hp]
  exact List.foldlRecOn (motive := c.Returning s d (c.historyTargets memory n)) _ _ hstart
    fun s' hs' e he => hs'.addAncestors hw hd he (hregions e he)

lemma enter_comparable (hr : c.Recalls memory) (hg : c.Guided memory) (hn : n < c.size)
    (hd : ∀ e ∈ c.tops memory n, c.Within e d) :
    ∀ x ∈ c.enter memory s n, x ∈ s ∨ c.Within x d ∨ c.Within d x := by
  cases hh : (c.node n).isHistory with
  | true =>
    rw [tops, if_pos hh] at hd
    exact (enter_history hw hr hg hn hh hd).new
  | false =>
    have hnd := hd n (by simp [tops_regular hh])
    intro x hx
    refine (((enter_enters hw hr hn).of_regular hw hn hh s).1.new x hx).imp_right fun h => ?_
    exact .inl (h.1.trans hw.toIsTree hnd)

end

def anchor (c : Chart) (n : NodeId) : NodeId :=
  if (c.node n).isHistory then (c.node n).parent?.getD rootId else n

def Filled (c : Chart) : Prop :=
  ∀ n, (c.node n).isCompound ∨ (c.node n).isParallel → c.regularChildren n ≠ []

def Faithful (c : Chart) (memory : Memory) : Prop :=
  ∀ h p, (c.node h).isHistory → (c.node h).parent? = some p →
    (∃ child ∈ c.regularChildren p, c.historyTargets memory h = [child]) ∨
      ∃ t : Configuration, c.Full t ∧ c.Exclusive t ∧ p ∈ t ∧
        c.historyTargets memory h = Run.remembered c t p .deep

lemma anchor_regular (h : (c.node n).isHistory = false) : c.anchor n = n := by
  simp [anchor, h]

lemma anchor_history (h : (c.node n).isHistory) (hp : (c.node n).parent? = some p) :
    c.anchor n = p := by
  simp [anchor, h, hp]

section

variable (hw : c.WellFormed)

include hw

lemma within_anchor_of_region (hn : n < c.size) (hx : c.Region memory n x) :
    c.Within x (c.anchor n) := by
  cases hh : (c.node n).isHistory with
  | true =>
    obtain ⟨p, hp⟩ := exists_parent_of_isHistory hw hn hh
    rw [anchor_history hh hp]
    exact (below_of_region hw.toIsTree hp hx).within
  | false =>
    rw [anchor_regular hh]
    exact within_of_region hw.toIsTree hn hh hx

lemma within_anchor_of_top (hr : c.RecallsAt memory n) (hn : n < c.size)
    (he : e ∈ c.tops memory n) : c.Within e (c.anchor n) := by
  cases hh : (c.node n).isHistory with
  | true =>
    obtain ⟨p, hp⟩ := exists_parent_of_isHistory hw hn hh
    rw [anchor_history hh hp]
    exact ((tops_below hw hr hp).2 e he).2.within
  | false =>
    rw [tops_regular hh, List.mem_singleton] at he
    rw [anchor_regular hh, he]
    exact within_self n

lemma not_below_of_isAtomic (ha : (c.node x).isAtomic) : ¬ c.Below y x := by
  intro hb
  obtain ⟨child, hchild, _⟩ := exists_child hw.toIsTree hb
  have hk := isCompound_or_isParallel_of_child hw hchild
  simp only [StateNode.isAtomic, StateNode.isCompound, StateNode.isParallel, Bool.or_eq_true,
    decide_eq_true_eq] at ha hk
  rcases ha with ha | ha <;> simp [ha] at hk

lemma not_below_of_mem_remembered {k : HistoryKind} (hx : x ∈ Run.remembered c s p k)
    (hy : y ∈ Run.remembered c s p k) : ¬ c.Below y x := by
  have ht := hw.toIsTree
  cases k with
  | shallow =>
    obtain ⟨_, hxp⟩ := Run.mem_remembered_shallow.1 hx
    obtain ⟨_, hyp⟩ := Run.mem_remembered_shallow.1 hy
    intro hb
    exact not_below_self ht p (((below_iff ht hyp).1 hb).trans_below ht (below_parent ht hxp))
  | deep => exact not_below_of_isAtomic hw ((Run.mem_remembered_deep ht).1 hx).2.1

lemma Coherent.remembered_beside (h : c.Coherent s) (p : NodeId) (k : HistoryKind) :
    (Run.remembered c s p k).Pairwise c.Beside := by
  have hsorted : (Run.remembered c s p k).Pairwise (· < ·) := by
    cases k with
    | shallow => exact s.sorted.filter _
    | deep => exact (s.sorted.filter _).filter _
  refine hsorted.imp_of_mem fun {x y} hx hy hlt => ?_
  have hxs := (Run.mem_of_mem_remembered hw.toIsTree hx).1
  have hys := (Run.mem_of_mem_remembered hw.toIsTree hy).1
  refine (h.within_or_beside hw hxs hys (not_below_of_mem_remembered hw hy hx)).resolve_left ?_
  rintro (rfl | hb)
  · exact Nat.lt_irrefl _ hlt
  · exact not_below_of_mem_remembered hw hx hy hb

lemma Grounded.remembered_saturated {k : HistoryKind} (h : c.Grounded s)
    (hne : ∀ a, c.Below a p → (c.node a).isCompound ∨ (c.node a).isParallel →
      c.regularChildren a ≠ [])
    (he : e ∈ Run.remembered c s p k) (hea : c.Below e a) (hap : c.Below a p)
    (hpar : (c.node a).isParallel) {r : NodeId} (hr : r ∈ c.regularChildren a) :
    ∃ e' ∈ Run.remembered c s p k, c.Within e' r := by
  have ht := hw.toIsTree
  cases k with
  | shallow =>
    have hpa := (below_iff ht (Run.mem_remembered_shallow.1 he).2).1 hea
    exact absurd (hpa.trans_below ht hap) (not_below_self ht p)
  | deep =>
    have hb := regularChild_below ht hr
    have hne_root : ∀ x, c.Below x p → x ≠ rootId := by
      rintro x hx rfl
      exact not_below_root ht p hx
    have ha := h.mem_of_within ht ((Run.mem_remembered_deep ht).1 he).1 hea.within
    have hrs := h.mem_of_touches ht ((h.inner a ha (hne_root a hap)).parallel hpar r hr)
    obtain ⟨x, hx, hxa, hxr⟩ := h.exists_atomic hw hrs
      (h.furnished_within ht (hne_root r (hb.trans ht hap)))
      fun y hy => hne y ((hy.trans_below ht hb).trans ht hap)
    exact ⟨x, (Run.mem_remembered_deep ht).2 ⟨hx, hxa, (hxr.trans_below ht hb).trans ht hap⟩, hxr⟩

lemma Guided.recordHistory (hg : c.Guided memory) (hr : c.Recallable) (hs : c.Grounded s)
    (hc : c.Coherent s) (exiting : List NodeId) :
    c.Guided (Run.recordHistory c s exiting memory) := by
  have ht := hw.toIsTree
  refine ⟨fun h p hh hp => ?_, fun h p hh hp e he a hea hap hpar r hmem => ?_⟩ <;>
    obtain ⟨k, hk⟩ := StateNode.exists_historyKind? hh
  · rw [historyTargets_recordHistory ht hk hp]
    by_cases hexit : p ∈ exiting
    · rw [if_pos hexit]
      exact hc.remembered_beside hw p k
    · rw [if_neg hexit]
      exact hg.spread h p hh hp
  · rw [historyTargets_recordHistory ht hk hp] at he ⊢
    by_cases hexit : p ∈ exiting
    · rw [if_pos hexit] at he ⊢
      exact hs.remembered_saturated hw (fun a ha => hr.filled h p hh hp a ha.within) he hea hap
        hpar hmem
    · rw [if_neg hexit] at he ⊢
      exact hg.saturated h p hh hp e he a hea hap hpar r hmem

lemma Faithful.guided (hf : c.Faithful memory) (hfilled : c.Filled) : c.Guided memory := by
  have ht := hw.toIsTree
  refine ⟨fun h p hh hp => ?_, fun h p hh hp e he a hea hap hpar r hmem => ?_⟩
  · rcases hf h p hh hp with ⟨child, _, htargets⟩ | ⟨t, hfull, hexcl, _, htargets⟩
    · rw [htargets]
      exact List.pairwise_singleton _ _
    · rw [htargets]
      exact (hexcl.coherent hfull.size).remembered_beside hw p .deep
  · rcases hf h p hh hp with ⟨child, hchild, htargets⟩ | ⟨t, hfull, _, _, htargets⟩
    · rw [htargets, List.mem_singleton] at he
      have hpa := (child_below_iff ht (mem_regularChildren.1 hchild).1).1 (he ▸ hea)
      exact absurd (hpa.trans_below ht hap) (not_below_self ht p)
    · rw [htargets] at he ⊢
      exact hfull.grounded.remembered_saturated hw (fun a _ => hfilled a) he hea hap hpar hmem

lemma remembered_shallow_eq (hfull : c.Full s) (hexcl : c.Exclusive s) (hp : p ∈ s)
    (hc : (c.node p).isCompound) :
    ∃ child ∈ c.regularChildren p, Run.remembered c s p .shallow = [child] := by
  obtain ⟨child, hchild, hmem⟩ := hfull.exists_child hw.toIsTree hp hc
  refine ⟨child, mem_regularChildren.2 ⟨hchild, (hfull.furnished child hmem).regular⟩, ?_⟩
  refine SortedElems.eq_of_mem_iff (s.sorted.filter _) (List.pairwise_singleton _ _) fun x => ?_
  rw [Run.mem_remembered_shallow, List.mem_singleton]
  refine ⟨fun ⟨hx, hpx⟩ => ?_, ?_⟩
  · exact hexcl p hc x ((hw.mem_children x p).2 hpx) child hchild (touches_of_mem hx)
      (touches_of_mem hmem)
  · rintro rfl
    exact ⟨hmem, (hw.mem_children x p).1 hchild⟩

lemma Faithful.recordHistory (hf : c.Faithful memory)
    (hcompound : ∀ h p, (c.node h).isHistory → (c.node h).parent? = some p →
      (c.node p).isCompound)
    (hfull : c.Full s) (hexcl : c.Exclusive s) {exiting : List NodeId}
    (he : ∀ n ∈ exiting, n ∈ s) : c.Faithful (Run.recordHistory c s exiting memory) := by
  intro h p hh hp
  obtain ⟨k, hk⟩ := StateNode.exists_historyKind? hh
  rw [historyTargets_recordHistory hw.toIsTree hk hp]
  by_cases hmem : p ∈ exiting
  · rw [if_pos hmem]
    cases k with
    | shallow => exact .inl (remembered_shallow_eq hw hfull hexcl (he p hmem) (hcompound h p hh hp))
    | deep => exact .inr ⟨s, hfull, hexcl, he p hmem, rfl⟩
  · rw [if_neg hmem]
    exact hf h p hh hp

end

end Statechart.Chart
