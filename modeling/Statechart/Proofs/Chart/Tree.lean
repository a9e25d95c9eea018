import Mathlib.Logic.Relation
import Mathlib.Tactic.Common
import Statechart.Chart.Basic

/-! Charts as trees. Being below a state is read off the stored ancestors; in a tree it is what the
ranges of indices say, the states above a state form a chain, and each state below another lies
within exactly one of its children. -/

namespace Statechart

lemma StateNode.isCompound_eq_false {n : StateNode} (h : n.isParallel) : n.isCompound = false := by
  simp only [isParallel, decide_eq_true_eq] at h
  simp [isCompound, h]

namespace Chart

def Below (c : Chart) (n a : NodeId) : Prop := a ∈ (c.node n).ancestors

def Within (c : Chart) (n a : NodeId) : Prop := n = a ∨ c.Below n a

instance (c : Chart) (n a : NodeId) : Decidable (c.Below n a) :=
  inferInstanceAs (Decidable (a ∈ (c.node n).ancestors))

instance (c : Chart) (n a : NodeId) : Decidable (c.Within n a) :=
  inferInstanceAs (Decidable (n = a ∨ c.Below n a))

structure IsTree (c : Chart) : Prop where
  root : (c.node rootId).ancestors = []
  parent : ∀ n, n < c.size → n ≠ rootId → ∃ p, (c.node n).ancestors = p :: (c.node p).ancestors
  isDescendant_iff : ∀ n a, c.isDescendant n a = true ↔ c.Below n a
  mem_children : ∀ n p, n ∈ (c.node p).children ↔ (c.node n).parent? = some p

variable {c : Chart}

lemma node_of_size_le {n : NodeId} (h : c.size ≤ n) : c.node n = .nowhere := by
  simp only [node, List.getD_eq_getElem?_getD, List.getElem?_eq_none h, Option.getD_none]

lemma forall_node {P : NodeId → StateNode → Prop} (hin : ∀ n ∈ c.ids, P n (c.node n))
    (hout : ∀ n, P n .nowhere) (n : NodeId) : P n (c.node n) := by
  by_cases hn : n < c.size
  · exact hin n (List.mem_range.2 hn)
  · rw [node_of_size_le (Nat.le_of_not_lt hn)]
    exact hout n

lemma below_size {n a : NodeId} (h : c.Below n a) : n < c.size := by
  by_contra hn
  rw [Below, node_of_size_le (Nat.le_of_not_lt hn)] at h
  exact List.not_mem_nil h

lemma within_self (n : NodeId) : c.Within n n := .inl rfl

lemma Below.within {n a : NodeId} (h : c.Below n a) : c.Within n a := .inr h

section

variable (ht : c.IsTree)

include ht

lemma below_lt {n a : NodeId} (h : c.Below n a) : a < n := by
  have h' := (ht.isDescendant_iff n a).2 h
  simp only [isDescendant, Bool.and_eq_true, decide_eq_true_eq] at h'
  exact h'.1

lemma not_below_self (n : NodeId) : ¬ c.Below n n := fun h => Nat.lt_irrefl n (below_lt ht h)

lemma not_below_root (a : NodeId) : ¬ c.Below rootId a := by
  simp [Below, ht.root]

lemma parent_of_ancestors {n p : NodeId} {l : List NodeId} (h : (c.node n).ancestors = p :: l) :
    l = (c.node p).ancestors := by
  have hb : c.Below n p := by simp [Below, h]
  have hr : n ≠ rootId := by
    rintro rfl
    exact not_below_root ht p hb
  obtain ⟨q, hq⟩ := ht.parent n (below_size hb) hr
  rw [h, List.cons.injEq] at hq
  rw [hq.2, hq.1]

lemma ancestors_of_parent {n p : NodeId} (h : (c.node n).parent? = some p) :
    (c.node n).ancestors = p :: (c.node p).ancestors := by
  obtain ⟨l, hl⟩ := List.head?_eq_some_iff.1 h
  rw [hl, parent_of_ancestors ht hl]

lemma below_parent {n p : NodeId} (h : (c.node n).parent? = some p) : c.Below n p := by
  simp [Below, ancestors_of_parent ht h]

lemma below_iff {n p a : NodeId} (h : (c.node n).parent? = some p) :
    c.Below n a ↔ c.Within p a := by
  simp only [Below, Within, ancestors_of_parent ht h, List.mem_cons, eq_comm]

lemma exists_parent {n a : NodeId} (h : c.Below n a) :
    ∃ p, (c.node n).parent? = some p ∧ c.Within p a := by
  cases hl : (c.node n).ancestors with
  | nil => simp [Below, hl] at h
  | cons p l =>
    have hp : (c.node n).parent? = some p := by simp [StateNode.parent?, hl]
    exact ⟨p, hp, (below_iff ht hp).1 h⟩

lemma parent_lt {n p : NodeId} (h : (c.node n).parent? = some p) : p < n :=
  below_lt ht (below_parent ht h)

lemma Below.trans {n a b : NodeId} (h : c.Below n a) (h' : c.Below a b) : c.Below n b := by
  induction n using Nat.strongRecOn with
  | ind n ih =>
    obtain ⟨p, hp, hpa⟩ := exists_parent ht h
    rw [below_iff ht hp]
    rcases hpa with rfl | hpa
    · exact .inr h'
    · exact .inr (ih p (parent_lt ht hp) hpa)

lemma below_iff_transGen {n a : NodeId} :
    c.Below n a ↔ Relation.TransGen (fun x p => (c.node x).parent? = some p) n a := by
  constructor
  · intro h
    induction n using Nat.strongRecOn with
    | ind n ih =>
      obtain ⟨p, hp, hpa⟩ := exists_parent ht h
      rcases hpa with rfl | hpa
      · exact .single hp
      · exact .head hp (ih p (parent_lt ht hp) hpa)
  · intro h
    induction h with
    | single hp => exact below_parent ht hp
    | tail _ hp ih => exact ih.trans ht (below_parent ht hp)

lemma Within.trans_below {n a b : NodeId} (h : c.Within n a) (h' : c.Below a b) :
    c.Below n b := by
  rcases h with rfl | h
  · exact h'
  · exact h.trans ht h'

lemma Below.trans_within {n a b : NodeId} (h : c.Below n a) (h' : c.Within a b) :
    c.Below n b := by
  rcases h' with rfl | h'
  · exact h
  · exact h.trans ht h'

lemma Within.trans {n a b : NodeId} (h : c.Within n a) (h' : c.Within a b) : c.Within n b := by
  rcases h with rfl | h
  · exact h'
  · exact .inr (h.trans_within ht h')

lemma within_le {n a : NodeId} (h : c.Within n a) : a ≤ n := by
  rcases h with rfl | h
  · exact Nat.le_refl _
  · exact Nat.le_of_lt (below_lt ht h)

lemma below_of_between {n a x y : NodeId} (hx : c.Within x a) (hy : c.Within y a) (hxn : x < n)
    (hny : n < y) : c.Below n a := by
  have han : a < n := Nat.lt_of_le_of_lt (within_le ht hx) hxn
  have hya : c.Below y a := hy.resolve_left (Nat.ne_of_gt (Nat.lt_trans han hny))
  rw [← ht.isDescendant_iff, isDescendant, Bool.and_eq_true, decide_eq_true_eq,
    decide_eq_true_eq] at hya ⊢
  exact ⟨han, Nat.lt_trans hny hya.2⟩

lemma mem_of_within {s : NodeId → Prop}
    (hs : ∀ n, s n → ∀ p, (c.node n).parent? = some p → s p) {n a : NodeId} (hn : s n)
    (hw : c.Within n a) : s a := by
  induction n using Nat.strongRecOn with
  | ind n ih =>
    rcases hw with rfl | hb
    · exact hn
    · obtain ⟨p, hp, hpa⟩ := exists_parent ht hb
      exact ih p (parent_lt ht hp) (hs n hn p hp) hpa

lemma below_connected {n a b : NodeId} (ha : c.Below n a) (hb : c.Below n b) :
    c.Within a b ∨ c.Below b a := by
  induction n using Nat.strongRecOn with
  | ind n ih =>
    obtain ⟨p, hp, hpa⟩ := exists_parent ht ha
    have hpb := (below_iff ht hp).1 hb
    rcases hpa with rfl | hpa
    · exact .inl hpb
    · rcases hpb with rfl | hpb
      · exact .inr hpa
      · exact ih p (parent_lt ht hp) hpa hpb

lemma within_connected {n a b : NodeId} (ha : c.Within n a) (hb : c.Within n b) :
    c.Within a b ∨ c.Below b a := by
  rcases ha with rfl | ha
  · exact .inl hb
  · rcases hb with rfl | hb
    · exact .inr ha
    · exact below_connected ht ha hb

lemma ancestors_pairwise (n : NodeId) : (c.node n).ancestors.Pairwise c.Below := by
  induction n using Nat.strongRecOn with
  | ind n ih =>
    cases hl : (c.node n).ancestors with
    | nil => exact List.Pairwise.nil
    | cons p l =>
      have hp : (c.node n).parent? = some p := by simp [StateNode.parent?, hl]
      rw [parent_of_ancestors ht hl]
      exact List.pairwise_cons.2 ⟨fun _ ha => ha, ih p (parent_lt ht hp)⟩

lemma below_root {n : NodeId} (hn : n < c.size) (h : n ≠ rootId) : c.Below n rootId := by
  induction n using Nat.strongRecOn with
  | ind n ih =>
    obtain ⟨p, hp⟩ := ht.parent n hn h
    have hp : (c.node n).parent? = some p := by simp [StateNode.parent?, hp]
    rw [below_iff ht hp]
    by_cases hr : p = rootId
    · exact .inl hr
    · have hlt := parent_lt ht hp
      exact .inr (ih p hlt (Nat.lt_trans hlt hn) hr)

lemma within_root {n : NodeId} (hn : n < c.size) : c.Within n rootId := by
  by_cases h : n = rootId
  · exact .inl h
  · exact .inr (below_root ht hn h)

lemma child_below {n p : NodeId} (h : n ∈ (c.node p).children) : c.Below n p :=
  below_parent ht ((ht.mem_children n p).1 h)

lemma child_below_iff {n p a : NodeId} (h : n ∈ (c.node p).children) :
    c.Below n a ↔ c.Within p a :=
  below_iff ht ((ht.mem_children n p).1 h)

lemma exists_child {n a : NodeId} (h : c.Below n a) :
    ∃ child ∈ (c.node a).children, c.Within n child := by
  induction n using Nat.strongRecOn with
  | ind n ih =>
    obtain ⟨p, hp, hpa⟩ := exists_parent ht h
    rcases hpa with rfl | hpa
    · exact ⟨n, (ht.mem_children n p).2 hp, .inl rfl⟩
    · obtain ⟨child, hc, hw⟩ := ih p (parent_lt ht hp) hpa
      exact ⟨child, hc, .inr ((below_iff ht hp).2 hw)⟩

lemma child_unique {n a b b' : NodeId} (hb : b ∈ (c.node a).children)
    (hb' : b' ∈ (c.node a).children) (h : c.Within n b) (h' : c.Within n b') : b = b' := by
  rcases within_connected ht h h' with (rfl | hw) | hw
  · rfl
  · have hab := (child_below_iff ht hb).1 hw
    exact (not_below_self ht _ ((child_below ht hb').trans_within ht hab)).elim
  · have hab := (child_below_iff ht hb').1 hw
    exact (not_below_self ht _ ((child_below ht hb).trans_within ht hab)).elim

end

end Chart

end Statechart
