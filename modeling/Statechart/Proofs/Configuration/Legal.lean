import Mathlib.Tactic.Common
import Statechart.Configuration.Entry
import Statechart.Proofs.Chart.Tree

/-! Legal configurations. A configuration is legal when it is full, so that nothing an active state
calls for is missing, and exclusive, so that no compound state has two active children. -/

namespace Statechart.Chart

variable {c : Chart} {s s' : Configuration} {n a : NodeId}

structure Legal (c : Chart) (s : Configuration) : Prop where
  root : rootId ∈ s
  parent : ∀ n ∈ s, ∀ p, (c.node n).parent? = some p → p ∈ s
  regular : ∀ n ∈ s, (c.node n).isHistory = false
  compound : ∀ n ∈ s, (c.node n).isCompound → ∃! child, child ∈ (c.node n).children ∧ child ∈ s
  parallel : ∀ n ∈ s, (c.node n).isParallel → ∀ r ∈ c.regularChildren n, r ∈ s

lemma legal_iff : c.Legal s ↔ rootId ∈ s ∧ (∀ n ∈ s, ∀ p, (c.node n).parent? = some p → p ∈ s) ∧
    (∀ n ∈ s, (c.node n).isHistory = false) ∧
    (∀ n ∈ s, (c.node n).isCompound → ∃ child ∈ (c.node n).children, child ∈ s ∧
      ∀ b ∈ (c.node n).children, b ∈ s → b = child) ∧
    ∀ n ∈ s, (c.node n).isParallel → ∀ r ∈ c.regularChildren n, r ∈ s := by
  constructor
  · intro h
    refine ⟨h.root, h.parent, h.regular, fun n hn hc => ?_, h.parallel⟩
    obtain ⟨child, ⟨hchild, hs⟩, hone⟩ := h.compound n hn hc
    exact ⟨child, hchild, hs, fun b hb hbs => hone b ⟨hb, hbs⟩⟩
  · rintro ⟨hroot, hparent, hregular, hcompound, hparallel⟩
    refine ⟨hroot, hparent, hregular, fun n hn hc => ?_, hparallel⟩
    obtain ⟨child, hchild, hs, hone⟩ := hcompound n hn hc
    exact ⟨child, ⟨hchild, hs⟩, fun b hb => hone b hb.1 hb.2⟩

instance : Decidable (c.Legal s) := decidable_of_iff _ legal_iff.symm

def RegionsActive (c : Chart) (s : Configuration) : Prop :=
  ∀ n ∈ s, (c.node n).isParallel → ∀ r ∈ c.regularChildren n, r ∈ s

def Touches (c : Chart) (s : Configuration) (n : NodeId) : Prop := ∃ x ∈ s, c.Within x n

structure Furnished (c : Chart) (s : Configuration) (n : NodeId) : Prop where
  regular : (c.node n).isHistory = false
  compound : (c.node n).isCompound → ∃ x ∈ s, c.Below x n
  parallel : (c.node n).isParallel → ∀ r ∈ c.regularChildren n, c.Touches s r

structure Full (c : Chart) (s : Configuration) : Prop where
  root : rootId ∈ s
  size : ∀ n ∈ s, n < c.size
  parent : ∀ n ∈ s, ∀ p, (c.node n).parent? = some p → p ∈ s
  furnished : ∀ n ∈ s, c.Furnished s n

structure Grounded (c : Chart) (s : Configuration) : Prop where
  root : rootId ∈ s
  size : ∀ n ∈ s, n < c.size
  parent : ∀ n ∈ s, ∀ p, (c.node n).parent? = some p → p ∈ s
  inner : ∀ n ∈ s, n ≠ rootId → c.Furnished s n

def Sole (c : Chart) (s : Configuration) (n : NodeId) : Prop :=
  ∀ a ∈ (c.node n).children, ∀ b ∈ (c.node n).children, c.Touches s a → c.Touches s b → a = b

def Exclusive (c : Chart) (s : Configuration) : Prop :=
  ∀ n, (c.node n).isCompound → c.Sole s n

lemma touches_of_mem (h : n ∈ s) : c.Touches s n := ⟨n, h, within_self n⟩

lemma Touches.mono (h : c.Touches s n) (hs : ∀ x ∈ s, x ∈ s') : c.Touches s' n := by
  obtain ⟨x, hx, hw⟩ := h
  exact ⟨x, hs x hx, hw⟩

lemma Furnished.mono (h : c.Furnished s n) (hs : ∀ x ∈ s, x ∈ s') : c.Furnished s' n := by
  refine ⟨h.regular, fun hc => ?_, fun hp r hr => (h.parallel hp r hr).mono hs⟩
  obtain ⟨x, hx, hb⟩ := h.compound hc
  exact ⟨x, hs x hx, hb⟩

lemma mem_regularChildren {r : NodeId} :
    r ∈ c.regularChildren n ↔ r ∈ (c.node n).children ∧ (c.node r).isHistory = false := by
  simp [regularChildren]

lemma regularChild_below (ht : c.IsTree) {r : NodeId} (hr : r ∈ c.regularChildren n) :
    c.Below r n :=
  child_below ht (mem_regularChildren.1 hr).1

lemma Full.grounded (h : c.Full s) : c.Grounded s :=
  ⟨h.root, h.size, h.parent, fun n hn _ => h.furnished n hn⟩

section

variable (ht : c.IsTree)

include ht

lemma exists_atomic_within (hn : n ∈ s) (hlt : n < c.size)
    (h : ∀ a ∈ s, c.Within a n →
      (c.node a).isAtomic ∨ ∃ child ∈ (c.node a).children, child ∈ s) :
    ∃ x ∈ s, (c.node x).isAtomic ∧ c.Within x n := by
  -- children stand behind their parents, so fewer states are left behind an active child
  induction hk : c.size - n using Nat.strongRecOn generalizing n with
  | ind k ih =>
    rcases h n hn (within_self n) with ha | ⟨child, hchild, hmem⟩
    · exact ⟨n, hn, ha, within_self n⟩
    · have hb := child_below ht hchild
      have hless : c.size - child < k := hk ▸ Nat.sub_lt_sub_left hlt (below_lt ht hb)
      obtain ⟨x, hx, hxa, hxw⟩ := ih _ hless hmem (below_size hb)
        (fun a ha hw => h a ha (hw.trans_below ht hb).within) rfl
      exact ⟨x, hx, hxa, (hxw.trans_below ht hb).within⟩

namespace Grounded

lemma mem_of_within (h : c.Grounded s) (hn : n ∈ s) (hw : c.Within n a) : a ∈ s :=
  Chart.mem_of_within ht h.parent hn hw

lemma mem_of_touches (h : c.Grounded s) (hn : c.Touches s n) : n ∈ s := by
  obtain ⟨x, hx, hw⟩ := hn
  exact h.mem_of_within ht hx hw

lemma exists_child (h : c.Grounded s) (hf : c.Furnished s n) (hc : (c.node n).isCompound) :
    ∃ child ∈ (c.node n).children, child ∈ s := by
  obtain ⟨x, hx, hb⟩ := hf.compound hc
  obtain ⟨child, hmem, hw⟩ := Chart.exists_child ht hb
  exact ⟨child, hmem, h.mem_of_within ht hx hw⟩

lemma furnished_within (h : c.Grounded s) (hn : n ≠ rootId) :
    ∀ a ∈ s, c.Within a n → c.Furnished s a := by
  rintro a ha hw
  refine h.inner a ha ?_
  rintro rfl
  exact hn (hw.resolve_right (not_below_root ht n)).symm

end Grounded

namespace Full

lemma mem_of_touches (h : c.Full s) (hn : c.Touches s n) : n ∈ s := h.grounded.mem_of_touches ht hn

lemma regionsActive (h : c.Full s) : c.RegionsActive s :=
  fun n hn hp r hr => h.mem_of_touches ht ((h.furnished n hn).parallel hp r hr)

lemma exists_child (h : c.Full s) (hn : n ∈ s) (hc : (c.node n).isCompound) :
    ∃ child ∈ (c.node n).children, child ∈ s :=
  h.grounded.exists_child ht (h.furnished n hn) hc

lemma legal (h : c.Full s) (he : c.Exclusive s) : c.Legal s := by
  refine ⟨h.root, h.parent, fun n hn => (h.furnished n hn).regular, fun n hn hc => ?_,
    h.regionsActive ht⟩
  obtain ⟨child, hmem, hs⟩ := h.exists_child ht hn hc
  refine ⟨child, ⟨hmem, hs⟩, fun b hb => ?_⟩
  exact he n hc b hb.1 child hmem (touches_of_mem hb.2) (touches_of_mem hs)

end Full

end

end Statechart.Chart
