import Mathlib.Data.List.Perm.Subperm
import Mathlib.Logic.Relation
import Mathlib.Tactic.Common
import Statechart.Proofs.Configuration.Entry

/-! Which states entering a state calls for. Calls lead down the tree except from history states, so
that they nest no deeper than there are states unless a history state leads back to itself. -/

namespace Statechart

lemma le_length_of_descent {α κ : Type} {keys : List κ} (key : α → κ) (R : α → α → Prop)
    (D : Nat → α → Prop) (hR : ∀ a b b', R a b → R b b' → R a b')
    (hstep : ∀ k a, D (k + 1) a → key a ∈ keys ∧ ∃ b, R a b ∧ D k b)
    (hkey : ∀ i j a b, D i a → D j b → R a b → key a = key b → i = j) {k : Nat} {a : α}
    (h : D k a) : k ≤ keys.length := by
  have hmet : ∀ {k : Nat} {a : α} (met : List κ), D k a → met.Nodup →
      (∀ y ∈ met, y ∈ keys ∧ ∃ b j, key b = y ∧ k < j ∧ D j b ∧ R b a) →
        k + met.length ≤ keys.length := by
    intro k
    induction k with
    | zero =>
      intro a met _ hnodup hmet
      rw [Nat.zero_add]
      exact (List.subperm_of_subset hnodup fun y hy => (hmet y hy).1).length_le
    | succ k ih =>
      intro a met ha hnodup hmet
      obtain ⟨hmem, b, hab, hb⟩ := hstep k a ha
      have hnew : key a ∉ met := fun hin => by
        obtain ⟨_, b', j, hb', hj, hDj, hba⟩ := hmet _ hin
        exact absurd (hkey j (k + 1) b' a hDj ha hba hb') (Nat.ne_of_gt hj)
      have hlen := ih (key a :: met) hb (List.nodup_cons.2 ⟨hnew, hnodup⟩) fun y hy => by
        rcases List.mem_cons.1 hy with rfl | hy
        · exact ⟨hmem, a, k + 1, rfl, Nat.lt_succ_self k, ha, hab⟩
        · obtain ⟨hin, b', j, hb', hj, hDj, hba⟩ := hmet y hy
          exact ⟨hin, b', j, hb', Nat.lt_of_succ_lt hj, hDj, hR b' a b hba hab⟩
      rw [List.length_cons] at hlen
      omega
  exact hmet [] h List.nodup_nil (by simp)

namespace Chart

variable {c : Chart} {memory : Memory} {n x : NodeId} {k k' : Nat}

/-- Entering `n` may call for entering `x`. -/
inductive Calls (c : Chart) (memory : Memory) : NodeId → NodeId → Prop
  | target {n t : NodeId} (hh : (c.node n).isHistory) (ht : t ∈ c.historyTargets memory n) :
      c.Calls memory n t
  | around {n t a r : NodeId} (hh : (c.node n).isHistory) (ht : t ∈ c.historyTargets memory n)
      (ha : a ∈ c.ancestorsBelow t (c.node n).parent?) (hp : (c.node a).isParallel)
      (hr : r ∈ c.regularChildren a) : c.Calls memory n r
  | initial {n i : NodeId} (hc : (c.node n).isCompound) (hi : (c.node n).initial = some i) :
      c.Calls memory n i
  | region {n r : NodeId} (hp : (c.node n).isParallel) (hr : r ∈ c.regularChildren n) :
      c.Calls memory n r

/-- No history state leads back to itself. -/
def Unlooped (c : Chart) (memory : Memory) : Prop :=
  ∀ h, (c.node h).isHistory → ¬ Relation.TransGen (c.Calls memory) h h

/-- Calls from `n` nest less than `k` deep. -/
def Bottoms (c : Chart) (memory : Memory) : Nat → NodeId → Prop
  | 0, _ => False
  | k + 1, n => ∀ x, c.Calls memory n x → c.Bottoms memory k x

lemma lt_size_of_isHistory (hh : (c.node n).isHistory) : n < c.size := by
  by_contra hn
  rw [node_of_size_le (Nat.le_of_not_lt hn)] at hh
  exact absurd hh (by decide)

lemma Calls.lt_size (h : c.Calls memory n x) : n < c.size := by
  by_contra hn
  have hnowhere := node_of_size_le (Nat.le_of_not_lt hn)
  cases h with
  | target hh => exact hn (lt_size_of_isHistory hh)
  | around hh => exact hn (lt_size_of_isHistory hh)
  | initial hc => exact absurd hc (hnowhere ▸ by decide)
  | region hp => exact absurd hp (hnowhere ▸ by decide)

section

variable (hw : c.WellFormed)

include hw

lemma Calls.below (h : c.Calls memory n x) (hn : (c.node n).isHistory = false) : c.Below x n := by
  have ht := hw.toIsTree
  cases h with
  | target hh => exact absurd hn (by simp [hh])
  | around hh => exact absurd hn (by simp [hh])
  | initial hc hi =>
    obtain ⟨i, hchild, hinit⟩ := hw.initial n hc
    exact Option.some.inj (hinit.symm.trans hi) ▸ child_below ht hchild
  | region hp hr => exact regularChild_below ht hr

lemma below_or_through_history (h : Relation.TransGen (c.Calls memory) n x) :
    c.Below x n ∨ ∃ h, (c.node h).isHistory ∧ Relation.ReflTransGen (c.Calls memory) n h ∧
      Relation.TransGen (c.Calls memory) h x := by
  have ht := hw.toIsTree
  induction h with
  | single hcall =>
    cases hh : (c.node n).isHistory with
    | true => exact .inr ⟨n, hh, .refl, .single hcall⟩
    | false => exact .inl (hcall.below hw hh)
  | @tail y x hny hcall ih =>
    rcases ih with hb | ⟨h, hh, hnh, hhy⟩
    · cases hh : (c.node y).isHistory with
      | true => exact .inr ⟨y, hh, hny.to_reflTransGen, .single hcall⟩
      | false => exact .inl ((hcall.below hw hh).trans ht hb)
    · exact .inr ⟨h, hh, hnh, hhy.tail hcall⟩

variable (hu : c.Unlooped memory)

include hu

lemma Unlooped.irrefl (n : NodeId) : ¬ Relation.TransGen (c.Calls memory) n n := by
  intro hn
  rcases below_or_through_history hw hn with hb | ⟨h, hh, hnh, hhn⟩
  · exact not_below_self hw.toIsTree n hb
  · exact hu h hh (hhn.trans_left hnh)

lemma Unlooped.bottoms (n : NodeId) : c.Bottoms memory (c.size + 1) n := by
  by_contra hn
  have hlen : c.size + 1 ≤ c.ids.length := by
    refine le_length_of_descent id (Relation.TransGen (c.Calls memory))
      (fun k n => ¬ c.Bottoms memory k n) (fun _ _ _ h h' => h.trans h') (fun k n hn => ?_)
      (fun i j a b _ _ hab heq => ?_) hn
    · obtain ⟨x, hx⟩ := not_forall.1 hn
      obtain ⟨hcall, hx⟩ := Classical.not_imp.1 hx
      exact ⟨List.mem_range.2 hcall.lt_size, x, .single hcall, hx⟩
    · obtain rfl : a = b := heq
      exact absurd hab (hu.irrefl hw a)
  rw [ids, List.length_range] at hlen
  exact Nat.not_succ_le_self c.size hlen

end

end Chart

end Statechart
