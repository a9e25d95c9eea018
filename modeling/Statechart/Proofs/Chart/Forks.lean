import Mathlib.Tactic.Common
import Statechart.Proofs.Machine.Build

/-! Where two states of a chart part ways. Two states that are not above one another lie within
different children of exactly one state. -/

namespace Statechart.Chart

variable {c : Chart} {n n' a b x x' y y' : NodeId}

def Forks (c : Chart) (n x y : NodeId) : Prop :=
  ∃ a ∈ (c.node n).children, ∃ b ∈ (c.node n).children, a ≠ b ∧ c.Within x a ∧ c.Within y b

instance (c : Chart) (n x y : NodeId) : Decidable (c.Forks n x y) :=
  inferInstanceAs (Decidable (∃ a ∈ (c.node n).children, ∃ b ∈ (c.node n).children,
    a ≠ b ∧ c.Within x a ∧ c.Within y b))

def Clash (c : Chart) (x y : NodeId) : Prop := ∃ n, (c.node n).isCompound ∧ c.Forks n x y

def Beside (c : Chart) (x y : NodeId) : Prop := ∃ n, (c.node n).isParallel ∧ c.Forks n x y

lemma Forks.symm (h : c.Forks n x y) : c.Forks n y x := by
  obtain ⟨a, ha, b, hb, hne, hxa, hyb⟩ := h
  exact ⟨b, hb, a, ha, hne.symm, hyb, hxa⟩

lemma Clash.symm (h : c.Clash x y) : c.Clash y x := by
  obtain ⟨n, hn, h⟩ := h
  exact ⟨n, hn, h.symm⟩

lemma Beside.symm (h : c.Beside x y) : c.Beside y x := by
  obtain ⟨n, hn, h⟩ := h
  exact ⟨n, hn, h.symm⟩

lemma forks_of_children (ha : a ∈ (c.node n).children) (hb : b ∈ (c.node n).children)
    (hne : a ≠ b) : c.Forks n a b :=
  ⟨a, ha, b, hb, hne, within_self a, within_self b⟩

lemma pairwise_of_length_le {R : NodeId → NodeId → Prop} {l : List NodeId} (h : l.length ≤ 1) :
    l.Pairwise R := by
  match l with
  | [] => exact List.Pairwise.nil
  | [x] => exact List.pairwise_singleton R x

lemma children_beside (hp : (c.node n).isParallel) {l : List NodeId} (hl : l.Nodup)
    (hc : ∀ x ∈ l, x ∈ (c.node n).children) : l.Pairwise c.Beside :=
  hl.imp_of_mem fun ha hb hne => ⟨n, hp, forks_of_children (hc _ ha) (hc _ hb) hne⟩

section

variable (ht : c.IsTree)

include ht

lemma Forks.of_within (h : c.Forks n x y) (hx : c.Within x' x) (hy : c.Within y' y) :
    c.Forks n x' y' := by
  obtain ⟨a, ha, b, hb, hne, hxa, hyb⟩ := h
  exact ⟨a, ha, b, hb, hne, hx.trans ht hxa, hy.trans ht hyb⟩

lemma Clash.of_within (h : c.Clash x y) (hx : c.Within x' x) (hy : c.Within y' y) :
    c.Clash x' y' := by
  obtain ⟨n, hn, h⟩ := h
  exact ⟨n, hn, h.of_within ht hx hy⟩

lemma Beside.of_within (h : c.Beside x y) (hx : c.Within x' x) (hy : c.Within y' y) :
    c.Beside x' y' := by
  obtain ⟨n, hn, h⟩ := h
  exact ⟨n, hn, h.of_within ht hx hy⟩

lemma Forks.below (h : c.Forks n x y) : c.Below x n := by
  obtain ⟨a, ha, _, _, _, hxa, _⟩ := h
  exact hxa.trans_below ht (child_below ht ha)

lemma Forks.not_within (h : c.Forks n x y) : ¬ c.Within x y := by
  obtain ⟨a, ha, b, hb, hne, hxa, hyb⟩ := h
  exact fun hxy => hne (child_unique ht ha hb hxa (hxy.trans ht hyb))

lemma Forks.not_below (h : c.Forks n x y) (h' : c.Forks n' x y) : ¬ c.Below n n' := by
  intro hb
  obtain ⟨a, ha, b, hb', hne, hxa, hyb⟩ := h'
  obtain ⟨child, hchild, hw⟩ := exists_child ht hb
  have hx := Below.within ((h.below ht).trans_within ht hw)
  have hy := Below.within ((h.symm.below ht).trans_within ht hw)
  exact hne ((child_unique ht ha hchild hxa hx).trans (child_unique ht hb' hchild hyb hy).symm)

lemma Forks.unique (h : c.Forks n x y) (h' : c.Forks n' x y) : n = n' := by
  rcases below_connected ht (h.below ht) (h'.below ht) with (he | hb) | hb
  · exact he
  · exact absurd hb (h.not_below ht h')
  · exact absurd hb (h'.not_below ht h)

lemma exists_forks (hx : x < c.size) (hy : y < c.size) (hxy : ¬ c.Within x y)
    (hyx : ¬ c.Within y x) : ∃ n, c.Forks n x y := by
  induction x using Nat.strongRecOn with
  | ind x ih =>
    have hroot : x ≠ rootId := by
      rintro rfl
      exact hyx (within_root ht hy)
    obtain ⟨p, hp, _⟩ := exists_parent ht (below_root ht hx hroot)
    have hxp := (ht.mem_children x p).2 hp
    have hpy : ¬ c.Within p y := fun h => hxy ((child_below ht hxp).trans_within ht h).within
    by_cases hyp : c.Within y p
    · obtain ⟨b, hb, hyb⟩ := exists_child ht (hyp.resolve_left fun he => hpy (.inl he.symm))
      refine ⟨p, x, hxp, b, hb, ?_, within_self x, hyb⟩
      rintro rfl
      exact hyx hyb
    · have hlt := parent_lt ht hp
      obtain ⟨n, h⟩ := ih p hlt (Nat.lt_trans hlt hx) hpy hyp
      exact ⟨n, h.of_within ht (child_below ht hxp).within (within_self y)⟩

lemma Beside.not_within (h : c.Beside x y) : ¬ c.Within x y := by
  obtain ⟨n, _, h⟩ := h
  exact h.not_within ht

lemma Beside.not_clash (h : c.Beside x y) : ¬ c.Clash x y := by
  rintro ⟨n', hc, h'⟩
  obtain ⟨n, hp, h⟩ := h
  obtain rfl := h.unique ht h'
  simp only [StateNode.isParallel, StateNode.isCompound, decide_eq_true_eq] at hp hc
  exact absurd (hp.symm.trans hc) (by simp)

lemma not_clash_of_within (h : c.Within x y) : ¬ c.Clash x y := by
  rintro ⟨n, _, hf⟩
  exact hf.not_within ht h

end

section

variable (hw : c.WellFormed)

include hw

lemma isCompound_or_isParallel_of_child (h : a ∈ (c.node n).children) :
    (c.node n).isCompound ∨ (c.node n).isParallel := by
  by_contra hn
  rw [not_or, Bool.not_eq_true, Bool.not_eq_true] at hn
  rw [hw.leaf n hn.1 hn.2] at h
  exact List.not_mem_nil h

lemma within_or_beside (hx : x < c.size) (hy : y < c.size) (h : ¬ c.Clash x y) :
    c.Within x y ∨ c.Within y x ∨ c.Beside x y := by
  by_cases hxy : c.Within x y
  · exact .inl hxy
  · by_cases hyx : c.Within y x
    · exact .inr (.inl hyx)
    · obtain ⟨n, hf⟩ := exists_forks hw.toIsTree hx hy hxy hyx
      have ⟨a, ha, _⟩ := hf
      have hp := (isCompound_or_isParallel_of_child hw ha).resolve_left fun hc => h ⟨n, hc, hf⟩
      exact .inr (.inr ⟨n, hp, hf⟩)

end

end Statechart.Chart
