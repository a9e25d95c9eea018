import Mathlib.Tactic.Common
import Statechart.Configuration.Resolve
import Statechart.Proofs.Configuration.Entry

/-! Resolving a configuration. What is full already stays as it is, and nothing else does. -/

namespace Statechart.Chart

variable {c : Chart} {s s' s'' : Configuration} {n x : NodeId} {memory : Memory}

structure Consistent (c : Chart) (s : Configuration) : Prop where
  root : rootId ∈ s
  parent : ∀ n ∈ s, ∀ p, (c.node n).parent? = some p → p ∈ s
  regular : ∀ n ∈ s, (c.node n).isHistory = false
  compound : ∀ n ∈ s, (c.node n).isCompound → ∃ child ∈ (c.node n).children, child ∈ s
  parallel : ∀ n ∈ s, (c.node n).isParallel → ∀ r ∈ c.regularChildren n, r ∈ s

lemma Legal.consistent (h : c.Legal s) : c.Consistent s := by
  refine ⟨h.root, h.parent, h.regular, fun n hn hc => ?_, h.parallel⟩
  obtain ⟨child, ⟨hchild, hs⟩, _⟩ := h.compound n hn hc
  exact ⟨child, hchild, hs⟩

lemma full_iff_consistent (ht : c.IsTree) (hs : ∀ n ∈ s, n < c.size) :
    c.Full s ↔ c.Consistent s := by
  constructor
  · intro h
    exact ⟨h.root, h.parent, fun n hn => (h.furnished n hn).regular,
      fun n hn hc => h.exists_child ht hn hc, h.regionsActive ht⟩
  · intro h
    refine ⟨h.root, hs, h.parent, fun n hn => ⟨h.regular n hn, fun hc => ?_, fun hp r hr => ?_⟩⟩
    · obtain ⟨child, hchild, hmem⟩ := h.compound n hn hc
      exact ⟨child, hmem, child_below ht hchild⟩
    · exact touches_of_mem (h.parallel n hn hp r hr)

lemma mem_withAncestors : x ∈ c.withAncestors s n ↔ x ∈ s ∨ c.Within n x := by
  rw [withAncestors, SortedSet.mem_insertAll, SortedSet.mem_insert, Within, Below]
  grind

lemma mem_foldl_withAncestors {l : List NodeId} :
    x ∈ l.foldl c.withAncestors s ↔ x ∈ s ∨ ∃ n ∈ l, c.Within n x := by
  induction l generalizing s with
  | nil => simp
  | cons n l ih => simp [ih, mem_withAncestors, or_assoc]

def given (c : Chart) (s : Configuration) : Configuration :=
  (s.elems.filter fun n => !(c.node n).isHistory).foldl c.withAncestors
    (SortedSet.empty.insert rootId)

lemma mem_given :
    x ∈ c.given s ↔ x = rootId ∨ ∃ n ∈ s, (c.node n).isHistory = false ∧ c.Within n x := by
  rw [given, mem_foldl_withAncestors, SortedSet.mem_insert]
  simp [and_assoc]

lemma resolve_of_regular (hs : ∀ n ∈ s, (c.node n).isHistory = false) (memory : Memory) :
    c.resolve s.elems memory = c.ids.foldl (c.complete memory) (c.given s) := by
  have hnil : s.elems.filter (fun n => (c.node n).isHistory) = [] := by
    apply List.filter_eq_nil_iff.2
    intro n hn
    simp [hs n hn]
  rw [resolve, hnil, given]
  rfl

section

variable (hw : c.WellFormed) (h : c.Full s) (hn : n ∈ s)

include hw h hn

lemma Full.enter_eq_self (hd : c.hasDescendant s n = false) : c.enter memory s n = s := by
  have hnone : ∀ y ∈ s, ¬ c.Below y n := by
    intro y hy hb
    have hall := List.any_eq_false.1 hd y hy
    exact hall ((hw.isDescendant_iff y n).2 hb)
  have hc : (c.node n).isCompound = false := by
    by_contra hc
    obtain ⟨y, hy, hb⟩ := (h.furnished n hn).compound (by simpa using hc)
    exact hnone y hy hb
  have hregions : (c.node n).isParallel → c.regularChildren n = [] := by
    intro hp
    apply List.eq_nil_iff_forall_not_mem.2
    intro r hr
    apply hnone r (h.regionsActive hw.toIsTree n hn hp r hr)
    exact regularChild_below hw.toIsTree hr
  have hinsert : s.insert n = s := SortedSet.insert_of_mem hn
  obtain ⟨k, hk⟩ : ∃ k, c.entryDepth = k + 1 := ⟨_, rfl⟩
  rw [enter, hk, enterWithin]
  cases hp : (c.node n).isParallel with
  | true => simp [(h.furnished n hn).regular, hc, fillRegions, hregions hp, hinsert]
  | false => simp [(h.furnished n hn).regular, hc, hinsert]

lemma Full.fillRegions_eq_self (hp : (c.node n).isParallel) :
    c.fillRegions (c.enter memory) s n = s := by
  apply Chart.fillRegions_eq_self
  intro r hr
  cases hd : c.hasDescendant s r with
  | true => exact .inl rfl
  | false => exact .inr (h.enter_eq_self hw (h.regionsActive hw.toIsTree n hn hp r hr) hd)

omit hn in
lemma Full.complete_eq_self (n : NodeId) : c.complete memory s n = s := by
  rw [complete]
  by_cases hn : n ∈ s
  · rw [if_pos hn]
    by_cases hc : (c.node n).isCompound
    · obtain ⟨child, hchild, hs⟩ := h.exists_child hw.toIsTree hn hc
      have hany : (c.node n).children.any (· ∈ s) :=
        List.any_eq_true.2 ⟨child, hchild, by simpa using hs⟩
      cases hi : (c.node n).initial <;> simp [hc, hany]
    · rw [if_neg hc]
      by_cases hp : (c.node n).isParallel
      · rw [if_pos hp]
        exact h.fillRegions_eq_self hw hn hp
      · rw [if_neg hp]
  · rw [if_neg hn]

omit hn in
lemma Full.given_eq_self : c.given s = s := by
  apply SortedSet.ext
  intro x
  rw [mem_given]
  constructor
  · rintro (rfl | ⟨n, hn, _, hx⟩)
    · exact h.root
    · exact h.grounded.mem_of_within hw.toIsTree hn hx
  · exact fun hx => .inr ⟨x, hx, (h.furnished x hx).regular, within_self x⟩

omit hn in
lemma Full.resolve_eq_self (memory : Memory) : c.resolve s.elems memory = s := by
  rw [resolve_of_regular (fun n hn => (h.furnished n hn).regular), h.given_eq_self hw]
  induction c.ids with
  | nil => rfl
  | cons n l ih => rw [List.foldl_cons, h.complete_eq_self hw n, ih]

end

structure Grows (c : Chart) (s s' : Configuration) : Prop where
  subset : ∀ x ∈ s, x ∈ s'
  regular : ∀ x ∈ s', x ∈ s ∨ (c.node x).isHistory = false

namespace Grows

lemma refl (s : Configuration) : c.Grows s s := ⟨fun _ => id, fun _ => .inl⟩

lemma trans (h : c.Grows s s') (h' : c.Grows s' s'') : c.Grows s s'' := by
  refine ⟨fun x hx => h'.subset x (h.subset x hx), fun x hx => ?_⟩
  cases h'.regular x hx with
  | inl hx => exact h.regular x hx
  | inr hx => exact .inr hx

lemma foldl {α : Type} {f : Configuration → α → Configuration} {l : List α}
    (h : ∀ a ∈ l, ∀ s, c.Grows s (f s a)) (s : Configuration) : c.Grows s (l.foldl f s) := by
  induction l generalizing s with
  | nil => exact refl s
  | cons a l ih =>
    refine (h a List.mem_cons_self s).trans (ih ?_ _)
    exact fun a' ha' => h a' (List.mem_cons_of_mem _ ha')

lemma eq_self_of_foldl {α : Type} {f : Configuration → α → Configuration} {l : List α}
    (h : ∀ a ∈ l, ∀ s, c.Grows s (f s a)) (hs : ∀ x ∈ l.foldl f s, x ∈ s) :
    ∀ a ∈ l, f s a = s := by
  induction l with
  | nil => exact fun a ha => absurd ha List.not_mem_nil
  | cons b l ih =>
    have hb := h b List.mem_cons_self s
    have hl : ∀ a ∈ l, ∀ s, c.Grows s (f s a) := fun a ha => h a (List.mem_cons_of_mem _ ha)
    rw [List.foldl_cons] at hs
    have hfirst : f s b = s := SortedSet.ext fun x =>
      ⟨fun hx => hs x ((foldl hl _).subset x hx), hb.subset x⟩
    rw [hfirst] at hs
    intro a ha
    cases List.mem_cons.1 ha with
    | inl he => rw [he, hfirst]
    | inr ha => exact ih hl hs a ha

end Grows

lemma Adds.grows {stops region : NodeId → Prop} (h : c.Adds stops region s s') : c.Grows s s' :=
  ⟨h.subset, fun x hx => (h.new x hx).imp_right fun hx => hx.2.regular⟩

section

variable (hw : c.WellFormed) (hr : c.Recalls memory)

include hw

lemma regular_of_mem_given (hx : x ∈ c.given s) : (c.node x).isHistory = false := by
  rcases mem_given.1 hx with rfl | ⟨n, _, hn, rfl | hb⟩
  · exact hw.root_regular
  · exact hn
  · exact isHistory_eq_false_of_below hw hb

lemma complete_eq_enter (memory : Memory) {i : NodeId} (hn : n ∈ s) (hc : (c.node n).isCompound)
    (hi : i ∈ (c.node n).children) (hinit : (c.node n).initial = some i) :
    c.complete memory s n =
      if (c.node n).children.any (· ∈ s) then s else c.enter memory s i := by
  have hp := (hw.mem_children i n).1 hi
  simp [complete, hn, hc, hinit, enterAncestors, addAncestors, ancestorsBelow_parent hw.toIsTree hp]

include hr

lemma enters_regularChild {r : NodeId} (h : r ∈ c.regularChildren n) :
    c.Enters memory (c.enter memory) r :=
  enter_enters hw hr (below_size (regularChild_below hw.toIsTree h))

lemma enters_initial {i : NodeId} (hi : i ∈ (c.node n).children) :
    c.Enters memory (c.enter memory) i :=
  enter_enters hw hr (below_size (child_below hw.toIsTree hi))

lemma grows_complete (n : NodeId) (s : Configuration) : c.Grows s (c.complete memory s n) := by
  by_cases hn : n ∈ s
  · by_cases hc : (c.node n).isCompound
    · obtain ⟨i, hi, hinit⟩ := hw.initial n hc
      rw [complete_eq_enter hw memory hn hc hi hinit]
      split
      · exact .refl s
      · exact ((enters_initial hw hr hi).adds s).grows
    · by_cases hp : (c.node n).isParallel
      · simp only [complete, hn, hc, hp, if_true, Bool.false_eq_true, if_false]
        exact (fillRegions_adds hw (fun r => enters_regularChild hw hr) s).grows
      · simp only [complete, hn, hc, hp, if_true, Bool.false_eq_true, if_false]
        exact .refl s
  · simp only [complete, hn, if_false]
    exact .refl s

lemma grows_recall {h : NodeId} (hh : h < c.size) (s : Configuration) :
    c.Grows s ((c.enter memory s h).insertAll (c.node h).ancestors) := by
  refine ((enter_enters hw hr hh).adds s).grows.trans ⟨fun x hx => ?_, fun x hx => ?_⟩
  · exact SortedSet.mem_insertAll.2 (.inl hx)
  · cases SortedSet.mem_insertAll.1 hx with
    | inl hx => exact .inl hx
    | inr hx => exact .inr (isHistory_eq_false_of_below hw hx)

lemma grows_resolve (hs : ∀ x ∈ s, x < c.size) :
    c.Grows (c.given s) (c.resolve s.elems memory) := by
  refine Grows.trans (Grows.foldl (fun h hh s' => ?_) _)
    (Grows.foldl (fun n _ s' => grows_complete hw hr n s') _)
  exact grows_recall hw hr (hs h (List.mem_filter.1 hh).1) s'

lemma regular_of_resolve (hs : ∀ x ∈ s, x < c.size) (h : c.resolve s.elems memory = s) :
    ∀ x ∈ s, (c.node x).isHistory = false := by
  intro x hx
  cases (grows_resolve hw hr hs).regular x (h.symm ▸ hx) with
  | inl hgiven => exact regular_of_mem_given hw hgiven
  | inr hregular => exact hregular

lemma given_of_resolve (hs : ∀ x ∈ s, x < c.size) (h : c.resolve s.elems memory = s) :
    c.given s = s := by
  have hsubset := (grows_resolve hw hr hs).subset
  rw [h] at hsubset
  apply SortedSet.ext
  intro x
  refine ⟨hsubset x, fun hx => mem_given.2 (.inr ⟨x, hx, ?_, within_self x⟩)⟩
  exact regular_of_resolve hw hr hs h x hx

lemma complete_of_resolve (hs : ∀ x ∈ s, x < c.size) (h : c.resolve s.elems memory = s)
    (hn : n ∈ s) : c.complete memory s n = s := by
  have hfold := h
  rw [resolve_of_regular (regular_of_resolve hw hr hs h), given_of_resolve hw hr hs h] at hfold
  apply Grows.eq_self_of_foldl (fun n _ s' => grows_complete hw hr n s') (fun x hx => ?_) n
    (List.mem_range.2 (hs n hn))
  exact hfold ▸ hx

lemma full_of_resolve (hs : ∀ x ∈ s, x < c.size) (h : c.resolve s.elems memory = s) :
    c.Full s := by
  have hregular := regular_of_resolve hw hr hs h
  have hgiven : ∀ x, x ∈ c.given s → x ∈ s := by
    intro x hx
    rwa [given_of_resolve hw hr hs h] at hx
  refine ⟨hgiven rootId (mem_given.2 (.inl rfl)), hs, fun n hn p hp => ?_,
    fun n hn => ⟨hregular n hn, fun hc => ?_, fun hp r hmem => ?_⟩⟩
  · apply hgiven p
    exact mem_given.2 (.inr ⟨n, hn, hregular n hn, (below_parent hw.toIsTree hp).within⟩)
  · obtain ⟨i, hi, hinit⟩ := hw.initial n hc
    have hself := complete_of_resolve hw hr hs h hn
    rw [complete_eq_enter hw memory hn hc hi hinit] at hself
    by_cases hany : (c.node n).children.any (· ∈ s)
    · obtain ⟨child, hchild, hmem⟩ := List.any_eq_true.1 hany
      exact ⟨child, by simpa using hmem, child_below hw.toIsTree hchild⟩
    · rw [if_neg hany] at hself
      obtain ⟨hne, hbelow⟩ := tops_below hw (hr i) ((hw.mem_children i n).1 hi)
      obtain ⟨t, ht⟩ := List.exists_mem_of_ne_nil _ hne
      exact ⟨t, hself ▸ (enters_initial hw hr hi).tops s t ht, (hbelow t ht).2⟩
  · have hc := StateNode.isCompound_eq_false hp
    have hself := complete_of_resolve hw hr hs h hn
    simp only [complete, hn, hc, hp, if_true, Bool.false_eq_true, if_false] at hself
    have htouches := fillRegions_touches hw (fun r => enters_regularChild hw hr) s hmem
    rwa [hself] at htouches

end

end Statechart.Chart
