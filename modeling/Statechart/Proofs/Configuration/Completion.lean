import Mathlib.Tactic.Common
import Statechart.Proofs.Configuration.Entry

/-! Completed parallel states, and which states are announced as completed while others are entered
one by one. -/

namespace Statechart

namespace Chart

variable {c : Chart} {s s' : Configuration} {p q n : NodeId}

def PlainRegions (c : Chart) (p : NodeId) : Prop :=
  ∀ r ∈ c.regularChildren p, (c.node r).isFinal = false ∧ (c.node r).isParallel = false

lemma isInFinalState_iff (ht : c.IsTree) (hp : (c.node p).isParallel) (hr : c.PlainRegions p) :
    c.isInFinalState s p ↔ ∀ r ∈ c.regularChildren p, (c.node r).isCompound ∧
      ∃ f ∈ (c.node r).children, f ∈ s ∧ (c.node f).isFinal := by
  have hc := StateNode.isCompound_eq_false hp
  have hsize : p < c.size := by
    by_contra hn
    rw [node_of_size_le (Nat.le_of_not_lt hn)] at hp
    exact absurd hp (by decide)
  obtain ⟨k, hk⟩ := Nat.exists_eq_succ_of_ne_zero (Nat.ne_zero_of_lt hsize)
  rw [isInFinalState, hk, finalWithin, if_neg (by simp [hc]), if_pos hp, List.all_eq_true]
  apply forall₂_congr
  intro r hmem
  have hb := regularChild_below ht hmem
  have hlt : p < k := Nat.lt_of_lt_of_le (below_lt ht hb) (Nat.le_of_lt_succ (hk ▸ below_size hb))
  obtain ⟨j, rfl⟩ := Nat.exists_eq_succ_of_ne_zero (Nat.ne_zero_of_lt hlt)
  rw [finalWithin, (hr r hmem).1, (hr r hmem).2]
  by_cases hcr : (c.node r).isCompound <;> simp [hcr]

lemma isInFinalState_mono (ht : c.IsTree) (hp : (c.node p).isParallel) (hr : c.PlainRegions p)
    (hs : ∀ x ∈ s, x ∈ s') (h : c.isInFinalState s p) : c.isInFinalState s' p := by
  rw [isInFinalState_iff ht hp hr] at h ⊢
  intro r hmem
  obtain ⟨hc, f, hf, hfs, hfinal⟩ := h r hmem
  exact ⟨hc, f, hf, hs f hfs, hfinal⟩

structure Orderly (c : Chart) (s : Configuration) (p : NodeId) : Prop where
  parent : ∀ n ∈ s, ∀ q, (c.node n).parent? = some q → q ∈ s
  single : ∀ r ∈ c.regularChildren p, ∀ a ∈ (c.node r).children, ∀ b ∈ (c.node r).children,
    a ∈ s → b ∈ s → a = b

lemma Orderly.mem_of_within (h : c.Orderly s p) (ht : c.IsTree) {a : NodeId} (hn : n ∈ s)
    (hw : c.Within n a) : a ∈ s := by
  induction n using Nat.strongRecOn with
  | ind n ih =>
    cases hw with
    | inl he => exact he ▸ hn
    | inr hb =>
      obtain ⟨q, hq, hqa⟩ := exists_parent ht hb
      exact ih q (parent_lt ht hq) (h.parent n hn q hq) hqa

lemma regular_of_isFinal (hf : (c.node n).isFinal) : (c.node n).isHistory = false := by
  simp only [StateNode.isFinal, decide_eq_true_eq] at hf
  simp [StateNode.isHistory, StateNode.historyKind?, hf]

lemma not_below_final (hw : c.WellFormed) (hf : (c.node n).isFinal) (a : NodeId) :
    ¬ c.Below a n := by
  intro hb
  obtain ⟨child, hchild, _⟩ := exists_child hw.toIsTree hb
  simp only [StateNode.isFinal, decide_eq_true_eq] at hf
  rw [hw.leaf n (by simp [StateNode.isCompound, hf]) (by simp [StateNode.isParallel, hf])] at hchild
  exact List.not_mem_nil hchild

lemma Orderly.exists_region (h : c.Orderly s p) (hw : c.WellFormed) (hp : (c.node p).isParallel)
    (hr : c.PlainRegions p) (hfin : c.isInFinalState s p) (hn : n ∈ s) (hf : (c.node n).isFinal)
    (hb : c.Below n p) : ∃ r ∈ c.regularChildren p, n ∈ (c.node r).children := by
  have ht := hw.toIsTree
  obtain ⟨r, hchild, hnr⟩ := exists_child ht hb
  have hreg : (c.node r).isHistory = false := by
    cases hnr with
    | inl he => exact he ▸ regular_of_isFinal hf
    | inr hb => exact isHistory_eq_false_of_below hw hb
  have hmem : r ∈ c.regularChildren p := mem_regularChildren.2 ⟨hchild, hreg⟩
  have hbelow : c.Below n r := by
    cases hnr with
    | inl he =>
      rw [he, (hr r hmem).1] at hf
      exact absurd hf Bool.false_ne_true
    | inr hb => exact hb
  obtain ⟨_, f, hfc, hfs, hff⟩ := (isInFinalState_iff ht hp hr).1 hfin r hmem
  obtain ⟨a, ha, hna⟩ := exists_child ht hbelow
  have haf : a = f := h.single r hmem a ha f hfc (h.mem_of_within ht hn hna) hfs
  refine ⟨r, hmem, ?_⟩
  cases hna with
  | inl he => exact he ▸ ha
  | inr hb => exact absurd hb (not_below_final hw (haf ▸ hff) n)

def announcedBy (c : Chart) (s : Configuration) (n : NodeId) : List NodeId :=
  if (c.node n).isFinal then
    match (c.node n).parent? with
    | none => []
    | some q => q :: ((c.node q).parent?.filter fun p =>
        (c.node p).isParallel && c.isInFinalState s p).toList
  else []

def announced (c : Chart) (s : Configuration) : List NodeId → List NodeId
  | [] => []
  | n :: rest =>
    if n ∈ s then c.announced s rest
    else c.announcedBy (s.insert n) n ++ c.announced (s.insert n) rest

def Finishes (c : Chart) (s : Configuration) (l : List NodeId) (p : NodeId) : Prop :=
  ∃ n ∈ l, n ∉ s ∧ (c.node n).isFinal ∧ c.Below n p

section

variable (hw : c.WellFormed) (hp : (c.node p).isParallel) (hr : c.PlainRegions p)

include hw hp hr

lemma announcedBy_cases (s : Configuration) (n : NodeId) :
    ((c.announcedBy s n).count p = 1 ∧ (c.node n).isFinal ∧ c.isInFinalState s p ∧
        ∃ r ∈ c.regularChildren p, n ∈ (c.node r).children) ∨
      ((c.announcedBy s n).count p = 0 ∧ ¬ ((c.node n).isFinal ∧ c.isInFinalState s p ∧
        ∃ r ∈ c.regularChildren p, n ∈ (c.node r).children)) := by
  rw [announcedBy]
  by_cases hf : (c.node n).isFinal
  · rw [if_pos hf]
    cases hq : (c.node n).parent? with
    | none =>
      refine .inr ⟨rfl, fun h => ?_⟩
      obtain ⟨_, _, r, _, hn⟩ := h
      rw [(hw.mem_children n r).1 hn] at hq
      exact absurd hq (Option.some_ne_none r)
    | some q =>
      have hne : q ≠ p := by
        rintro rfl
        have hmem := mem_regularChildren.2 ⟨(hw.mem_children n q).2 hq, regular_of_isFinal hf⟩
        rw [(hr n hmem).1] at hf
        exact Bool.false_ne_true hf
      have hregion : ∀ r, n ∈ (c.node r).children ↔ r = q := by
        intro r
        rw [hw.mem_children, hq, Option.some.injEq, eq_comm]
      rw [List.count_cons_of_ne hne]
      by_cases hqp : (c.node q).parent? = some p ∧ c.isInFinalState s p
      · have hkeep : (c.node p).isParallel && c.isInFinalState s p := by
          rw [hp, hqp.2, Bool.and_true]
        refine .inl ⟨?_, hf, hqp.2, q, ?_, (hregion q).2 rfl⟩
        · rw [hqp.1, Option.filter_some, if_pos hkeep, Option.toList_some,
            List.count_singleton_self]
        refine mem_regularChildren.2 ⟨(hw.mem_children q p).2 hqp.1, ?_⟩
        exact isHistory_eq_false_of_below hw (below_parent hw.toIsTree hq)
      · refine .inr ⟨List.count_eq_zero.2 fun hmem => hqp ?_, fun h => hqp ?_⟩
        · rw [Option.mem_toList, Option.filter_eq_some_iff] at hmem
          obtain ⟨hqp, hfin⟩ := hmem
          rw [Bool.and_eq_true] at hfin
          exact ⟨hqp, hfin.2⟩
        · obtain ⟨_, hfin, r, hmem, hn⟩ := h
          rw [(hregion r).1 hn] at hmem
          exact ⟨(hw.mem_children q p).1 (mem_regularChildren.1 hmem).1, hfin⟩
  · rw [if_neg hf]
    exact .inr ⟨rfl, fun h => hf h.1⟩

variable (ho : c.Orderly s' p)

include ho

lemma isInFinalState_iff_not_finishes {l : List NodeId} (hs : ∀ x, x ∈ s' ↔ x ∈ s ∨ x ∈ l)
    (hfin : c.isInFinalState s' p) : c.isInFinalState s p ↔ ¬ c.Finishes s l p := by
  have ht := hw.toIsTree
  constructor
  · rintro hearly ⟨k, hk, hks, hkf, hkp⟩
    have hk' := (hs k).2 (.inr hk)
    obtain ⟨r, hmem, hkr⟩ := ho.exists_region hw hp hr hfin hk' hkf hkp
    obtain ⟨_, f, hf, hfs, _⟩ := (isInFinalState_iff ht hp hr).1 hearly r hmem
    have hkf := ho.single r hmem k hkr f hf hk' ((hs f).2 (.inl hfs))
    exact hks (hkf ▸ hfs)
  · intro hnone
    apply (isInFinalState_iff ht hp hr).2
    intro r hmem
    obtain ⟨hc, f, hf, hfs, hff⟩ := (isInFinalState_iff ht hp hr).1 hfin r hmem
    refine ⟨hc, f, hf, by_contra fun hfn => hnone ?_, hff⟩
    have hfp := (child_below ht hf).trans ht (regularChild_below ht hmem)
    exact ⟨f, ((hs f).1 hfs).resolve_left hfn, hfn, hff, hfp⟩

omit hw hp hr ho in
lemma finishes_cons {l : List NodeId} (hn : n ∉ s) (hnl : n ∉ l) :
    c.Finishes s (n :: l) p ↔
      ((c.node n).isFinal ∧ c.Below n p) ∨ c.Finishes (s.insert n) l p := by
  constructor
  · rintro ⟨k, hk, hks, hkf, hkp⟩
    cases List.mem_cons.1 hk with
    | inl he => exact .inl (he ▸ ⟨hkf, hkp⟩)
    | inr hkl =>
      refine .inr ⟨k, hkl, fun hmem => ?_, hkf, hkp⟩
      cases SortedSet.mem_insert.1 hmem with
      | inl he => exact hnl (he ▸ hkl)
      | inr hmem => exact hks hmem
  · rintro (⟨hf, hb⟩ | ⟨k, hk, hks, hk'⟩)
    · exact ⟨n, List.mem_cons_self, hn, hf, hb⟩
    · exact ⟨k, List.mem_cons_of_mem n hk, fun h => hks (SortedSet.mem_insert.2 (.inr h)), hk'⟩

lemma count_announced {l : List NodeId} (hl : l.Nodup) (hs : ∀ x, x ∈ s' ↔ x ∈ s ∨ x ∈ l) :
    (c.isInFinalState s' p ∧ c.Finishes s l p → (c.announced s l).count p = 1) ∧
      (¬ (c.isInFinalState s' p ∧ c.Finishes s l p) → (c.announced s l).count p = 0) := by
  have ht := hw.toIsTree
  induction l generalizing s with
  | nil => exact ⟨fun ⟨_, _, hn, _⟩ => absurd hn List.not_mem_nil, fun _ => rfl⟩
  | cons n l ih =>
    obtain ⟨hnl, hl⟩ := List.nodup_cons.1 hl
    rw [announced]
    by_cases hn : n ∈ s
    · have hfin : c.Finishes s (n :: l) p ↔ c.Finishes s l p := by
        simp [Finishes, hn]
      rw [if_pos hn, hfin]
      refine ih hl fun x => ?_
      rw [hs, List.mem_cons]
      grind
    · have hs' : ∀ x, x ∈ s' ↔ x ∈ s.insert n ∨ x ∈ l := by
        intro x
        rw [hs, List.mem_cons, SortedSet.mem_insert]
        tauto
      obtain ⟨hone, hzero⟩ := ih hl hs'
      have hbefore := isInFinalState_iff_not_finishes hw hp hr ho hs'
      rw [if_neg hn, List.count_append, finishes_cons hn hnl]
      cases announcedBy_cases hw hp hr (s.insert n) n with
      | inl h =>
        obtain ⟨hcount, hf, hearly, r, hmem, hnr⟩ := h
        have hfin := isInFinalState_mono ht hp hr (fun x hx => (hs' x).2 (.inl hx)) hearly
        have hb := (child_below ht hnr).trans ht (regularChild_below ht hmem)
        refine ⟨fun _ => ?_, fun h => absurd ⟨hfin, .inl ⟨hf, hb⟩⟩ h⟩
        rw [hcount, hzero fun h => (hbefore hfin).1 hearly h.2]
      | inr h =>
        obtain ⟨hcount, hnot⟩ := h
        rw [hcount, Nat.zero_add]
        refine ⟨fun ⟨hfin, hor⟩ => hone ⟨hfin, ?_⟩, fun h => hzero fun h' => h ⟨h'.1, .inr h'.2⟩⟩
        by_contra hlast
        obtain ⟨hf, hb⟩ := hor.resolve_right hlast
        have hmem : n ∈ s' := (hs' n).2 (.inl (SortedSet.mem_insert.2 (.inl rfl)))
        exact hnot ⟨hf, (hbefore hfin).2 hlast, ho.exists_region hw hp hr hfin hmem hf hb⟩

end

lemma lt_of_mem_announced (ht : c.IsTree) {l : List NodeId} (h : p ∈ c.announced s l) :
    p < c.size := by
  induction l generalizing s with
  | nil => exact absurd h List.not_mem_nil
  | cons n l ih =>
    rw [announced] at h
    split at h
    · exact ih h
    · cases List.mem_append.1 h with
      | inr h => exact ih h
      | inl h =>
        have hb : c.Below n p := by
          rw [announcedBy] at h
          split at h
          · split at h
            · exact absurd h List.not_mem_nil
            · rename_i q hq
              have hnq := below_parent ht hq
              cases List.mem_cons.1 h with
              | inl he => exact he ▸ hnq
              | inr h =>
                rw [Option.mem_toList, Option.filter_eq_some_iff] at h
                exact hnq.trans ht (below_parent ht h.1)
          · exact absurd h List.not_mem_nil
        exact Nat.lt_trans (below_lt ht hb) (below_size hb)

end Chart

end Statechart
