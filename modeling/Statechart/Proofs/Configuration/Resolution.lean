import Mathlib.Tactic.Common
import Statechart.Proofs.Configuration.Exclusive
import Statechart.Proofs.Configuration.Resolve

/-! Completing states to a configuration. Where compound states start with regular states, resolving
adds to the given states what is above them and what is entered by default, and there is only one
exclusive configuration of this kind. -/

namespace Statechart

namespace Chart

variable {c : Chart} {s s' : Configuration} {l l' : List NodeId} {n p t x : NodeId}
  {stop : Option NodeId} {memory : Memory} {enter : Configuration → NodeId → Configuration}

def Plain (c : Chart) : Prop := c.Initials fun i => (c.node i).isHistory = false

def Standard (c : Chart) (x : NodeId) : Prop :=
  ∀ p, (c.node x).parent? = some p → (c.node p).isCompound → (c.node p).initial = some x

structure Completion (c : Chart) (l : List NodeId) (s : Configuration) : Prop where
  full : c.Full s
  given : ∀ n ∈ l, n ∈ s
  standard : ∀ x ∈ s, (∃ n ∈ l, c.Within n x) ∨ c.Standard x

section

variable (hw : c.WellFormed)

include hw

lemma standard_root : c.Standard rootId := by
  intro p hp
  exact absurd (below_parent hw.toIsTree hp) (not_below_root hw.toIsTree p)

lemma standard_region {r : NodeId} (hp : (c.node n).isParallel) (hr : r ∈ (c.node n).children) :
    c.Standard r := by
  intro p hrp hc
  rw [(hw.mem_children r n).1 hr, Option.some.injEq] at hrp
  rw [← hrp, StateNode.isCompound_eq_false hp] at hc
  exact absurd hc Bool.false_ne_true

lemma standard_initial {i : NodeId} (hi : i ∈ (c.node n).children)
    (hinit : (c.node n).initial = some i) : c.Standard i := by
  intro p hp _
  rw [(hw.mem_children i n).1 hi, Option.some.injEq] at hp
  exact hp ▸ hinit

lemma Completion.mem (h : c.Completion l s) (h' : c.Completion l s') (he : c.Exclusive s)
    (hx : x ∈ s) : x ∈ s' := by
  have ht := hw.toIsTree
  induction x using Nat.strongRecOn with
  | ind x ih =>
    by_cases hroot : x = rootId
    · exact hroot ▸ h'.full.root
    obtain ⟨p, hp, _⟩ := exists_parent ht (below_root ht (h.full.size x hx) hroot)
    have hps := h.full.parent x hx p hp
    have hps' := ih p (parent_lt ht hp) hps
    have hchild := (hw.mem_children x p).2 hp
    rcases isCompound_or_isParallel_of_child hw hchild with hc | hpar
    · rcases h.standard x hx with ⟨n, hn, hnx⟩ | hstd
      · exact h'.full.grounded.mem_of_within ht (h'.given n hn) hnx
      · obtain ⟨y, hy, hys'⟩ := h'.full.exists_child ht hps' hc
        have hyp := (hw.mem_children y p).1 hy
        rcases h'.standard y hys' with ⟨n, hn, hny⟩ | hstd'
        · have hys := h.full.grounded.mem_of_within ht (h.given n hn) hny
          exact he p hc x hchild y hy (touches_of_mem hx) (touches_of_mem hys) ▸ hys'
        · have hxy := (hstd p hp hc).symm.trans (hstd' p hyp hc)
          exact Option.some.inj hxy ▸ hys'
    · exact h'.full.regionsActive ht p hps' hpar x
        (mem_regularChildren.2 ⟨hchild, (h.full.furnished x hx).regular⟩)

lemma Completion.unique (h : c.Completion l s) (h' : c.Completion l s') (he : c.Exclusive s)
    (he' : c.Exclusive s') : s = s' :=
  SortedSet.ext fun _ => ⟨h.mem hw h' he, h'.mem hw h he'⟩

lemma exclusive_of_subsingleton (h : ∀ x ∈ s, ∀ y ∈ s, x = y) : c.Exclusive s := by
  rintro n - a ha b hb ⟨x, hx, hxa⟩ ⟨y, hy, hyb⟩
  exact child_unique hw.toIsTree ha hb hxa (h x hx y hy ▸ hyb)

end

lemma foldl_standard {α : Type} {f : Configuration → α → Configuration} {as : List α}
    {P : NodeId → Prop} (h : ∀ a ∈ as, ∀ s, ∀ x ∈ f s a, x ∈ s ∨ P x) :
    ∀ x ∈ as.foldl f s, x ∈ s ∨ P x := by
  refine List.foldlRecOn (motive := fun s' : Configuration => ∀ x ∈ s', x ∈ s ∨ P x) as f
    (fun x hx => .inl hx) fun s' hs' a ha x hx => ?_
  exact (h a ha s' x hx).elim (hs' x) .inr

section

variable (hw : c.WellFormed)

include hw

lemma fillRegions_standard (hp : (c.node n).isParallel)
    (h : ∀ r ∈ c.regularChildren n, ∀ s, ∀ x ∈ enter s r, x ∈ s ∨ x = r ∨ c.Standard x) :
    ∀ x ∈ c.fillRegions enter s n, x ∈ s ∨ c.Standard x := by
  refine foldl_standard fun r hr s' x hx => ?_
  split at hx
  · exact .inl hx
  · refine (h r hr s' x hx).imp_right fun hx => hx.elim (fun he => ?_) id
    exact he ▸ standard_region hw hp (mem_regularChildren.1 hr).1

lemma addAncestors_standard (h : ∀ a ∈ c.ancestorsBelow t stop, (c.node a).isParallel →
      ∀ r ∈ c.regularChildren a, ∀ s, ∀ x ∈ enter s r, x ∈ s ∨ x = r ∨ c.Standard x) :
    ∀ x ∈ c.addAncestors enter s t stop,
      x ∈ s ∨ x ∈ c.ancestorsBelow t stop ∨ c.Standard x := by
  refine foldl_standard fun a ha s' x hx => ?_
  have hinsert : x ∈ s'.insert a → x ∈ s' ∨ x ∈ c.ancestorsBelow t stop ∨ c.Standard x :=
    fun hx => (SortedSet.mem_insert.1 hx).elim (fun he => .inr (.inl (he ▸ ha))) .inl
  split at hx
  · rename_i hp
    exact (fillRegions_standard hw hp (h a ha hp) x hx).elim hinsert fun hx => .inr (.inr hx)
  · exact hinsert hx

lemma enterWithin_standard (hp : c.Plain) (k : Nat) (hreg : (c.node n).isHistory = false)
    (s : Configuration) :
    ∀ x ∈ c.enterWithin memory k s n, x ∈ s ∨ x = n ∨ c.Standard x := by
  induction k generalizing n s with
  | zero => exact fun x hx => .inl hx
  | succ k ih =>
    intro x
    have hinsert : x ∈ s.insert n → x ∈ s ∨ x = n ∨ c.Standard x :=
      fun hx => (SortedSet.mem_insert.1 hx).elim (fun he => .inr (.inl he)) .inl
    by_cases hc : (c.node n).isCompound
    · obtain ⟨i, hi, hinit⟩ := hw.initial n hc
      have hpar := (hw.mem_children i n).1 hi
      simp only [enterWithin, hreg, hc, hinit, addAncestors, ancestorsBelow_parent hw.toIsTree hpar,
        Bool.false_eq_true, if_false, if_true, List.foldl_nil]
      intro hx
      rcases ih (hp n i hc hinit) (s.insert n) x hx with hx | rfl | hx
      · exact hinsert hx
      · exact .inr (.inr (standard_initial hw hi hinit))
      · exact .inr (.inr hx)
    · by_cases hpar : (c.node n).isParallel
      · simp only [enterWithin, hreg, hc, hpar, Bool.false_eq_true, if_false, if_true]
        intro hx
        refine (fillRegions_standard hw hpar (fun r hr s => ?_) x hx).elim hinsert
          fun hx => .inr (.inr hx)
        exact ih (mem_regularChildren.1 hr).2 s
      · simp only [enterWithin, hreg, hc, hpar, Bool.false_eq_true, if_false]
        exact hinsert

variable (hp : c.Plain)

include hp

lemma Plain.enters (hn : n < c.size) (hreg : (c.node n).isHistory = false) :
    c.EntersCoherently memory (c.enter memory) n := by
  refine enterWithin_coherently hw (fun m i hc hinit => ?_) c.entryDepth hn
    (recallsAt_regular hreg) (spreadAt_regular hreg) (entryCost_le n)
  have hi := hp m i hc hinit
  exact ⟨recallsAt_regular hi, spreadAt_regular hi⟩

lemma Plain.enters_region {r : NodeId} (hr : r ∈ c.regularChildren n) :
    c.EntersCoherently memory (c.enter memory) r :=
  hp.enters hw (below_size (regularChild_below hw.toIsTree hr)) (mem_regularChildren.1 hr).2

lemma complete_cases (memory : Memory) (hn : n ∈ s) :
    ((c.node n).isCompound ∧ (∃ child ∈ (c.node n).children, child ∈ s) ∧
        c.complete memory s n = s) ∨
      (∃ i ∈ (c.node n).children, (c.node n).isCompound ∧ (c.node n).initial = some i ∧
        (∀ child ∈ (c.node n).children, child ∉ s) ∧ (c.node i).isHistory = false ∧
        c.complete memory s n = c.enter memory s i) ∨
      ((c.node n).isParallel ∧
        c.complete memory s n = c.fillRegions (c.enter memory) s n) ∨
      ((c.node n).isCompound = false ∧ (c.node n).isParallel = false ∧
        c.complete memory s n = s) := by
  by_cases hc : (c.node n).isCompound
  · obtain ⟨i, hi, hinit⟩ := hw.initial n hc
    rw [complete_eq_enter hw memory hn hc hi hinit]
    by_cases hany : (c.node n).children.any (· ∈ s)
    · obtain ⟨child, hchild, hmem⟩ := List.any_eq_true.1 hany
      exact .inl ⟨hc, ⟨child, hchild, by simpa using hmem⟩, if_pos hany⟩
    · refine .inr (.inl ⟨i, hi, hc, hinit, fun child hchild hmem => hany ?_, hp n i hc hinit,
        if_neg hany⟩)
      exact List.any_eq_true.2 ⟨child, hchild, by simpa using hmem⟩
  · by_cases hpar : (c.node n).isParallel
    · exact .inr (.inr (.inl ⟨hpar, by simp [complete, hn, hc, hpar]⟩))
    · exact .inr (.inr (.inr ⟨by simpa using hc, by simpa using hpar,
        by simp [complete, hn, hc, hpar]⟩))

lemma complete_adds (n : NodeId) (s : Configuration) :
    c.Adds (fun _ => False) (c.Below · n) s (c.complete memory s n) := by
  have ht := hw.toIsTree
  by_cases hn : n ∈ s
  · rcases complete_cases hw hp memory hn with
      ⟨_, _, he⟩ | ⟨i, hi, _, _, _, hreg, he⟩ | ⟨_, he⟩ | ⟨_, _, he⟩ <;> rw [he]
    · exact .refl s
    · have hb := child_below ht hi
      have henters : c.EntersCoherently memory (c.enter memory) i :=
        hp.enters hw (below_size hb) hreg
      obtain ⟨hadds, _⟩ := henters.of_regular hw (below_size hb) hreg s
      refine hadds.mono (fun x hx => hx.trans_below ht hb) fun q hq => .inl (hadds.subset q ?_)
      rw [(hw.mem_children i n).1 hi, Option.some.injEq] at hq
      exact hq ▸ hn
    · have henters : ∀ r ∈ c.regularChildren n, c.Enters memory (c.enter memory) r :=
        fun r hr => (hp.enters_region hw hr).toEnters
      have hadds := fillRegions_adds hw henters s
      exact hadds.mono (fun x hx => hx) fun q hq => .inl (hadds.subset q (hq ▸ hn))
    · exact .refl s
  · rw [complete, if_neg hn]
    exact .refl s

lemma complete_furnishes (hn : n ∈ s) (hreg : (c.node n).isHistory = false) :
    c.Furnished (c.complete memory s n) n := by
  have ht := hw.toIsTree
  rcases complete_cases hw hp memory hn with
    ⟨hc, ⟨child, hchild, hmem⟩, he⟩ | ⟨i, hi, hc, _, _, hireg, he⟩ | ⟨hpar, he⟩ | ⟨hc, hpar, he⟩ <;>
    rw [he]
  · exact ⟨hreg, fun _ => ⟨child, hmem, child_below ht hchild⟩, fun hpar => absurd hc (by
      simp [StateNode.isCompound_eq_false hpar])⟩
  · have hb := child_below ht hi
    have henters : c.EntersCoherently memory (c.enter memory) i :=
      hp.enters hw (below_size hb) hireg
    obtain ⟨_, hmem⟩ := henters.of_regular hw (below_size hb) hireg s
    exact ⟨hreg, fun _ => ⟨i, hmem, hb⟩, fun hpar => absurd hc (by
      simp [StateNode.isCompound_eq_false hpar])⟩
  · refine ⟨hreg, fun hc => absurd hc (by simp [StateNode.isCompound_eq_false hpar]),
      fun _ r hr => ?_⟩
    exact fillRegions_touches hw (fun r hr => (hp.enters_region hw hr).toEnters) s hr
  · exact ⟨hreg, by simp [hc], by simp [hpar]⟩

lemma complete_standard (n : NodeId) (s : Configuration) :
    ∀ x ∈ c.complete memory s n, x ∈ s ∨ c.Standard x := by
  by_cases hn : n ∈ s
  · rcases complete_cases hw hp memory hn with
      ⟨_, _, he⟩ | ⟨i, hi, _, hinit, _, hreg, he⟩ | ⟨hpar, he⟩ | ⟨_, _, he⟩ <;> rw [he]
    · exact fun x hx => .inl hx
    · refine fun x hx => (enterWithin_standard hw hp _ hreg s x hx).imp_right fun hx => ?_
      exact hx.elim (fun he => he ▸ standard_initial hw hi hinit) id
    · exact fillRegions_standard hw hpar fun r hr s =>
        enterWithin_standard hw hp _ (mem_regularChildren.1 hr).2 s
    · exact fun x hx => .inl hx
  · rw [complete, if_neg hn]
    exact fun x hx => .inl hx

lemma complete_coherent (hs : ∀ x ∈ s, ∀ q, (c.node x).parent? = some q → q ∈ s)
    (h : c.Coherent s) : c.Coherent (c.complete memory s n) := by
  have ht := hw.toIsTree
  by_cases hn : n ∈ s
  · rcases complete_cases hw hp memory hn with
      ⟨_, _, he⟩ | ⟨i, hi, _, _, hnone, hreg, he⟩ | ⟨hpar, he⟩ | ⟨_, _, he⟩ <;> rw [he]
    · exact h
    · have hb := child_below ht hi
      refine (hp.enters hw (below_size hb) hreg).coherent s h fun e he x hx => ?_
      rw [tops_regular hreg, List.mem_singleton] at he
      subst he
      have hxn : ¬ c.Below x n := by
        intro hxn
        obtain ⟨child, hchild, hxc⟩ := exists_child ht hxn
        exact hnone child hchild (mem_of_within ht hs hx hxc)
      exact (h.within_or_beside hw hx hn hxn).imp (hb.within.trans ht ·)
        (·.of_within ht (within_self x) hb.within)
    · exact fillRegions_coherent hw hpar (fun r hr => hp.enters_region hw hr) h hn
    · exact h
  · rwa [complete, if_neg hn]

end

lemma resolve_eq_foldl (hl : ∀ n ∈ l, (c.node n).isHistory = false) (memory : Memory) :
    c.resolve l memory = c.ids.foldl (c.complete memory) (c.given (.ofList l)) := by
  have hnone : l.filter (fun n => (c.node n).isHistory) = [] :=
    List.filter_eq_nil_iff.2 fun n hn => by simp [hl n hn]
  have hgiven : (l.filter fun n => !(c.node n).isHistory).foldl c.withAncestors
      (SortedSet.empty.insert rootId) = c.given (.ofList l) := by
    apply SortedSet.ext
    intro x
    rw [mem_foldl_withAncestors, mem_given]
    simp [and_assoc]
  rw [resolve, hnone, hgiven]
  rfl

lemma resolve_congr (hl : ∀ n ∈ l, (c.node n).isHistory = false) (h : ∀ n, n ∈ l ↔ n ∈ l')
    (memory : Memory) : c.resolve l memory = c.resolve l' memory := by
  have hsame : (SortedSet.ofList l : Configuration) = .ofList l' :=
    SortedSet.ext fun n => by rw [SortedSet.mem_ofList, SortedSet.mem_ofList, h]
  rw [resolve_eq_foldl hl, resolve_eq_foldl (fun n hn => hl n ((h n).2 hn)), hsame]

section

variable (hl : ∀ n ∈ l, n < c.size ∧ (c.node n).isHistory = false)

include hl

lemma mem_given_ofList : x ∈ c.given (.ofList l) ↔ x = rootId ∨ ∃ n ∈ l, c.Within n x := by
  rw [mem_given]
  refine or_congr_right (exists_congr fun n => ?_)
  rw [SortedSet.mem_ofList]
  exact ⟨fun ⟨hn, _, hx⟩ => ⟨hn, hx⟩, fun ⟨hn, hx⟩ => ⟨hn, (hl n hn).2, hx⟩⟩

variable (hw : c.WellFormed) (hp : c.Plain)

include hw

lemma given_closed (hx : x ∈ c.given (.ofList l)) (hq : (c.node x).parent? = some p) :
    p ∈ c.given (.ofList l) := by
  rw [mem_given_ofList hl] at hx ⊢
  rcases hx with rfl | ⟨n, hn, hnx⟩
  · exact absurd (below_parent hw.toIsTree hq) (not_below_root hw.toIsTree p)
  · exact .inr ⟨n, hn, (hnx.trans_below hw.toIsTree (below_parent hw.toIsTree hq)).within⟩

lemma given_lt (hx : x ∈ c.given (.ofList l)) : x < c.size := by
  rcases (mem_given_ofList hl).1 hx with rfl | ⟨n, hn, hnx⟩
  · exact hw.size_pos
  · exact Nat.lt_of_le_of_lt (within_le hw.toIsTree hnx) (hl n hn).1

lemma given_coherent (he : c.Exclusive (.ofList l)) : c.Coherent (c.given (.ofList l)) := by
  have ht := hw.toIsTree
  have hcoherent := he.coherent fun n hn => (hl n (SortedSet.mem_ofList.1 hn)).1
  refine ⟨fun x hx => given_lt hl hw hx, fun x hx y hy hclash => ?_⟩
  have hxs := given_lt hl hw hx
  have hys := given_lt hl hw hy
  rcases (mem_given_ofList hl).1 hx with rfl | ⟨n, hn, hnx⟩
  · exact not_clash_of_within ht (within_root ht hys) hclash.symm
  · rcases (mem_given_ofList hl).1 hy with rfl | ⟨n', hn', hny⟩
    · exact not_clash_of_within ht (within_root ht hxs) hclash
    · exact hcoherent.not_clash n (SortedSet.mem_ofList.2 hn) n' (SortedSet.mem_ofList.2 hn')
        (hclash.of_within ht hnx hny)

include hp

lemma resolve_adds (memory : Memory) :
    c.Adds (fun _ => False) (fun x => ∃ n, c.Below x n) (c.given (.ofList l))
      (c.resolve l memory) := by
  rw [resolve_eq_foldl fun n hn => (hl n hn).2]
  exact Adds.foldl fun n _ s _ => (complete_adds hw hp n s).mono (fun x hx => ⟨n, hx⟩)
    fun _ hq => absurd hq id

lemma completion_resolve (memory : Memory) : c.Completion l (c.resolve l memory) := by
  have ht := hw.toIsTree
  have hadds := resolve_adds hl hw hp memory
  have hgiven := fun x => mem_given_ofList hl (x := x)
  refine ⟨⟨hadds.subset rootId ((hgiven rootId).2 (.inl rfl)), fun x hx => ?_, fun x hx q hq => ?_,
    fun x hx => ?_⟩, fun n hn => ?_, fun x hx => ?_⟩
  · rcases hadds.new x hx with hx | ⟨⟨n, hb⟩, _⟩
    · exact given_lt hl hw hx
    · exact below_size hb
  · rcases hadds.new x hx with hx | ⟨_, hangs⟩
    · exact hadds.subset q (given_closed hl hw hx hq)
    · exact (hangs.parent q hq).resolve_right id
  · rcases hadds.new x hx with hx | ⟨_, hangs⟩
    -- each given state is completed when its turn comes, and stays so
    · rw [resolve_eq_foldl fun n hn => (hl n hn).2]
      have hstep : ∀ n ∈ c.ids, ∀ s, (∀ y ∈ c.given (.ofList l), y ∈ s) →
          c.Adds (fun _ => False) (fun _ => True) s (c.complete memory s n) := fun n _ s _ =>
        (complete_adds hw hp n s).mono (fun _ _ => trivial) fun _ hq => absurd hq id
      refine Adds.foldl_of_step (P := fun s => c.Furnished s x) hstep (fun _ _ hs h => h.mono hs)
        (List.mem_range.2 (given_lt hl hw hx)) fun s hs => ?_
      exact complete_furnishes hw hp (hs x hx) (regular_of_mem_given hw hx)
    · exact hangs.toFurnished
  · exact hadds.subset n ((hgiven n).2 (.inr ⟨n, hn, within_self n⟩))
  · rw [resolve_eq_foldl fun n hn => (hl n hn).2] at hx
    refine (foldl_standard (fun n _ s => complete_standard hw hp n s) x hx).elim (fun hx => ?_) .inr
    rcases (hgiven x).1 hx with rfl | hx
    · exact .inr (standard_root hw)
    · exact .inl hx

lemma exclusive_resolve (he : c.Exclusive (.ofList l)) (memory : Memory) :
    c.Exclusive (c.resolve l memory) := by
  rw [resolve_eq_foldl fun n hn => (hl n hn).2]
  refine (List.foldlRecOn (motive := fun s : Configuration =>
    (∀ x ∈ s, ∀ q, (c.node x).parent? = some q → q ∈ s) ∧ c.Coherent s) _ _
    ⟨fun x hx q hq => given_closed hl hw hx hq, given_coherent hl hw he⟩
    fun s hs n _ => ⟨fun x hx q hq => ?_, complete_coherent hw hp hs.1 hs.2⟩).2.exclusive
  have hadds : c.Adds (fun _ => False) (c.Below · n) s (c.complete memory s n) :=
    complete_adds hw hp n s
  rcases hadds.new x hx with hx | ⟨_, hangs⟩
  · exact hadds.subset q (hs.1 x hx q hq)
  · exact (hangs.parent q hq).resolve_right id

end

end Chart

namespace Machine

variable {C : Type} {m : Machine C} [JsonCoded C] {d : Definition} {b : Behaviors C}
  {context : Option C}

/-- Legal configurations resolve to themselves. Where no compound state starts with a history state,
any states resolve to a consistent configuration that has them and resolves to itself, and to a
legal one if no two of them clash. -/
theorem resolve_completes (h : build d b context = .ok m) :
    (∀ s memory, m.chart.Legal s → (∀ n ∈ s, n < m.chart.size) →
      ∀ l, (∀ n, n ∈ l ↔ n ∈ s) → m.chart.resolve l memory = s) ∧
    (m.chart.Plain → ∀ l memory,
      (∀ n ∈ l, n < m.chart.size ∧ (m.chart.node n).isHistory = false) →
        (∀ n ∈ l, n ∈ m.chart.resolve l memory) ∧
        m.chart.Consistent (m.chart.resolve l memory) ∧
        (∀ memory', m.chart.resolve (m.chart.resolve l memory).elems memory' =
          m.chart.resolve l memory) ∧
        (m.chart.Exclusive (.ofList l) → m.chart.Legal (m.chart.resolve l memory))) := by
  have hw := (wellFormed_of_build h).chart
  have ht := hw.toIsTree
  refine ⟨fun s memory hs hsize l hl => ?_, fun hp l memory hl => ?_⟩
  · have hfull := (Chart.full_iff_consistent ht hsize).2 hs.consistent
    have hsame : m.chart.resolve l memory = m.chart.resolve s.elems memory :=
      Chart.resolve_congr (fun n hn => hs.regular n ((hl n).1 hn)) hl memory
    exact hsame.trans (hfull.resolve_eq_self hw memory)
  · obtain ⟨hfull, hgiven, _⟩ := Chart.completion_resolve hl hw hp memory
    refine ⟨hgiven, (Chart.full_iff_consistent ht hfull.size).1 hfull,
      fun memory' => hfull.resolve_eq_self hw memory', fun he => ?_⟩
    exact hfull.legal ht (Chart.exclusive_resolve hl hw hp he memory)

def lighting : Definition := .ofRoot
  { initial := some "off"
    states := [
      ("off", { on := .ofList [("SWITCH", [{ target := ["on.lamp.bright"] }])] }),
      ("on", {
        type := some .parallel
        states := [
          ("lamp", {
            initial := some "dim"
            states := [
              ("dim", { on := .ofList [("TURN", [{ target := ["bright"] }])] }),
              ("bright", {})] }),
          ("speaker", {
            initial := some "quiet"
            states := [
              ("quiet", { on := .ofList [("TURN", [{ target := ["loud"] }])] }),
              ("loud", {})] })] })] }

def lightingMachine : Machine Unit := assemble lighting () (link lighting {}).value

lemma build_lighting : build lighting {} (some ()) = .ok lightingMachine := rfl

lemma lighting_plain : lightingMachine.chart.Plain := by
  have hinitial := Chart.forall_node (c := lightingMachine.chart)
    (P := fun _ node => node.isCompound → ∀ i ∈ node.initial,
      (lightingMachine.chart.node i).isHistory = false) (by decide) fun _ h => absurd h (by decide)
  exact fun n i hc hi => hinitial n hc i hi

theorem lighting_resolves :
    lightingMachine.chart.resolve [5, 5] .empty = .ofList [0, 2, 3, 5, 6, 7] ∧
      lightingMachine.chart.Legal (lightingMachine.chart.resolve [5, 5] .empty) ∧
      lightingMachine.chart.resolve [7, 6, 5, 3, 2, 0] .empty = .ofList [0, 2, 3, 5, 6, 7] := by
  obtain ⟨hsame, hcompletes⟩ := resolve_completes build_lighting
  have hresolved : lightingMachine.chart.resolve [5, 5] .empty = .ofList [0, 2, 3, 5, 6, 7] := by
    decide +kernel
  obtain ⟨_, _, _, hlegal⟩ := hcompletes lighting_plain [5, 5] .empty (by decide)
  have hexclusive : lightingMachine.chart.Exclusive (.ofList [5, 5]) :=
    Chart.exclusive_of_subsingleton (wellFormed_of_build build_lighting).chart (by decide)
  refine ⟨hresolved, hlegal hexclusive, ?_⟩
  refine hsame (.ofList [0, 2, 3, 5, 6, 7]) .empty (by decide) (by decide) _ fun n => ?_
  rw [SortedSet.mem_ofList]
  exact (show List.Perm [7, 6, 5, 3, 2, 0] [0, 2, 3, 5, 6, 7] by decide).mem_iff

end Machine

end Statechart
