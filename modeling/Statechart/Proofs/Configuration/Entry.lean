import Mathlib.Tactic.Common
import Statechart.Proofs.Configuration.Legal
import Statechart.Proofs.Machine.Build

/-! What entering a state adds. Every state that is added lies in the region that the entered state
spans, all that it calls for is there in the end, and its parent is there too unless entering stops
there. -/

namespace Statechart.Chart

variable {c : Chart} {n p t a : NodeId} {stop : Option NodeId}

lemma square_le_entryDepth (c : Chart) : (c.size + 1) * (c.size + 1) ≤ c.entryDepth := by
  have hle : c.size ≤ c.size * c.size := Nat.le_mul_self c.size
  have hpow : 3 * (c.size * c.size) ≤ Nat.pow 2 32 * (c.size * c.size) :=
    Nat.mul_le_mul_right _ (by decide)
  rw [entryDepth, Nat.add_mul, Nat.mul_add]
  omega

lemma size_lt_entryDepth (c : Chart) : c.size < c.entryDepth :=
  Nat.le_trans (Nat.le_mul_of_pos_right _ (Nat.succ_pos _)) c.square_le_entryDepth

lemma exists_entryDepth (hn : n < c.size) : ∃ depth, c.entryDepth = depth + 2 := by
  have hsize : 0 < c.size := Nat.lt_of_le_of_lt (Nat.zero_le n) hn
  have hlt := c.size_lt_entryDepth
  exact ⟨c.entryDepth - 2, by omega⟩

lemma ancestorsBelow_root (ht : c.IsTree) : c.ancestorsBelow rootId stop = [] := by
  simp [ancestorsBelow, ht.root]

lemma ancestorsBelow_of_parent (ht : c.IsTree) (h : (c.node n).parent? = some p) :
    c.ancestorsBelow n stop = if some p = stop then [] else p :: c.ancestorsBelow p stop := by
  rw [ancestorsBelow, ancestors_of_parent ht h, List.takeWhile_cons]
  by_cases hp : some p = stop
  · simp [hp]
  · simp [hp, ancestorsBelow]

lemma ancestorsBelow_parent (ht : c.IsTree) (h : (c.node n).parent? = some p) :
    c.ancestorsBelow n (some p) = [] := by
  rw [ancestorsBelow_of_parent ht h, if_pos rfl]

lemma below_of_mem_ancestorsBelow (h : a ∈ c.ancestorsBelow t stop) : c.Below t a :=
  (List.takeWhile_sublist _).mem h

lemma parent_mem_ancestorsBelow (stop : Option NodeId) (ht : c.IsTree)
    (h : (c.node t).parent? = some p) :
    p ∈ c.ancestorsBelow t stop ∨ stop = some p := by
  rw [ancestorsBelow_of_parent ht h]
  by_cases hp : some p = stop
  · exact .inr hp.symm
  · simp [hp]

section

variable (ht : c.IsTree)

include ht

lemma parent_of_mem_ancestorsBelow (ha : a ∈ c.ancestorsBelow t stop)
    (h : (c.node a).parent? = some p) : p ∈ c.ancestorsBelow t stop ∨ stop = some p := by
  induction t using Nat.strongRecOn with
  | ind t ih =>
    obtain ⟨q, hq, _⟩ := exists_parent ht (below_of_mem_ancestorsBelow ha)
    rw [ancestorsBelow_of_parent ht hq] at ha ⊢
    by_cases hs : some q = stop
    · simp [hs] at ha
    · rw [if_neg hs] at ha ⊢
      rcases List.mem_cons.1 ha with rfl | ha
      · exact (parent_mem_ancestorsBelow stop ht h).imp_left (List.mem_cons_of_mem _)
      · exact (ih q (parent_lt ht hq) ha).imp_left (List.mem_cons_of_mem _)

lemma mem_ancestorsBelow_or_within (d : NodeId) (h : c.Below t a) :
    a ∈ c.ancestorsBelow t (some d) ∨ c.Within d a := by
  induction t using Nat.strongRecOn with
  | ind t ih =>
    obtain ⟨q, hq, hqa⟩ := exists_parent ht h
    rw [ancestorsBelow_of_parent ht hq]
    by_cases hd : some q = some d
    · exact .inr (Option.some.inj hd ▸ hqa)
    · rw [if_neg hd]
      rcases hqa with rfl | hqa
      · exact .inl List.mem_cons_self
      · exact (ih q (parent_lt ht hq) hqa).imp_left (List.mem_cons_of_mem _)

lemma below_of_mem_ancestorsBelow_some (hb : c.Below t p)
    (ha : a ∈ c.ancestorsBelow t (some p)) : c.Below a p := by
  induction t using Nat.strongRecOn with
  | ind t ih =>
    obtain ⟨q, hq, hqp⟩ := exists_parent ht hb
    rw [ancestorsBelow_of_parent ht hq] at ha
    rcases hqp with rfl | hqp
    · simp at ha
    · rw [if_neg (by rintro ⟨⟩; exact not_below_self ht _ hqp)] at ha
      rcases List.mem_cons.1 ha with rfl | ha
      · exact hqp
      · exact ih q (parent_lt ht hq) hqp ha

end

structure Hangs (c : Chart) (stops : NodeId → Prop) (s : Configuration) (n : NodeId) : Prop
    extends c.Furnished s n where
  parent : ∀ p, (c.node n).parent? = some p → p ∈ s ∨ stops p

structure Adds (c : Chart) (stops region : NodeId → Prop) (s s' : Configuration) : Prop where
  subset : ∀ n ∈ s, n ∈ s'
  new : ∀ n ∈ s', n ∈ s ∨ region n ∧ c.Hangs stops s' n

variable {stops stops' region region' : NodeId → Prop} {s s' s'' : Configuration}

lemma Hangs.mono (h : c.Hangs stops s n) (hs : ∀ x ∈ s, x ∈ s') : c.Hangs stops s' n :=
  ⟨h.toFurnished.mono hs, fun p hp => (h.parent p hp).imp_left (hs p)⟩

namespace Adds

lemma refl (s : Configuration) : c.Adds stops region s s := ⟨fun _ h => h, fun _ h => .inl h⟩

lemma trans (h : c.Adds stops region s s') (h' : c.Adds stops region s' s'') :
    c.Adds stops region s s'' := by
  refine ⟨fun n hn => h'.subset n (h.subset n hn), fun n hn => ?_⟩
  rcases h'.new n hn with hn | hn
  · exact (h.new n hn).imp_right fun hn => ⟨hn.1, hn.2.mono h'.subset⟩
  · exact .inr hn

lemma mono (h : c.Adds stops region s s') (hr : ∀ n, region n → region' n)
    (hs : ∀ q, stops q → q ∈ s' ∨ stops' q) : c.Adds stops' region' s s' := by
  refine ⟨h.subset, fun n hn => (h.new n hn).imp_right fun hn => ⟨hr n hn.1, ?_⟩⟩
  refine ⟨hn.2.toFurnished, fun p hp => ?_⟩
  exact (hn.2.parent p hp).elim .inl (hs p)

lemma of_insert (h : c.Adds stops region (s.insert n) s') (hr : region n)
    (hn : c.Hangs stops s' n) : c.Adds stops region s s' := by
  refine ⟨fun x hx => h.subset x (SortedSet.mem_insert.2 (.inr hx)), fun x hx => ?_⟩
  rcases h.new x hx with hx | hx
  · rcases SortedSet.mem_insert.1 hx with rfl | hx
    · exact .inr ⟨hr, hn⟩
    · exact .inl hx
  · exact .inr hx

lemma foldl {α : Type} {f : Configuration → α → Configuration} {l : List α}
    (h : ∀ x ∈ l, ∀ s', (∀ n ∈ s, n ∈ s') → c.Adds stops region s' (f s' x)) :
    c.Adds stops region s (l.foldl f s) := by
  induction l generalizing s with
  | nil => exact refl s
  | cons x l ih =>
    have hx := h x List.mem_cons_self s fun _ hn => hn
    refine hx.trans (ih fun y hy s' hs' => ?_)
    exact h y (List.mem_cons_of_mem _ hy) s' fun n hn => hs' n (hx.subset n hn)

lemma foldl_of_step {α : Type} {f : Configuration → α → Configuration} {l : List α}
    (h : ∀ x ∈ l, ∀ s', (∀ n ∈ s, n ∈ s') → c.Adds stops region s' (f s' x))
    {P : Configuration → Prop} (hP : ∀ s s', (∀ n ∈ s, n ∈ s') → P s → P s') {x : α} (hx : x ∈ l)
    (hs : ∀ s', (∀ n ∈ s, n ∈ s') → P (f s' x)) : P (l.foldl f s) := by
  induction l generalizing s with
  | nil => exact absurd hx List.not_mem_nil
  | cons y l ih =>
    have hy := h y List.mem_cons_self s fun _ hn => hn
    have hl : ∀ z ∈ l, ∀ s', (∀ n ∈ f s y, n ∈ s') → c.Adds stops region s' (f s' z) :=
      fun z hz s' hs' =>
        h z (List.mem_cons_of_mem _ hz) s' fun n hn => hs' n (hy.subset n hn)
    rcases List.mem_cons.1 hx with rfl | hx
    · exact hP _ _ (foldl hl).subset (hs s fun _ hn => hn)
    · exact ih hl hx fun s' hs' => hs s' fun n hn => hs' n (hy.subset n hn)

end Adds

def tops (c : Chart) (memory : Memory) (n : NodeId) : List NodeId :=
  if (c.node n).isHistory then c.historyTargets memory n else [n]

def Region (c : Chart) (memory : Memory) (n x : NodeId) : Prop :=
  ∃ t ∈ c.tops memory n, ∃ a, c.Within t a ∧ c.Within x a ∧
    ∀ p, (c.node n).parent? = some p → c.Below a p

def RecallsAt (c : Chart) (memory : Memory) (h : NodeId) : Prop :=
  ∀ p, (c.node h).isHistory → (c.node h).parent? = some p →
    c.historyTargets memory h ≠ [] ∧
      ∀ x ∈ c.historyTargets memory h, (c.node x).isHistory = false ∧ c.Below x p

def Recalls (c : Chart) (memory : Memory) : Prop := ∀ h, c.RecallsAt memory h

def Initials (c : Chart) (P : NodeId → Prop) : Prop :=
  ∀ n i, (c.node n).isCompound → (c.node n).initial = some i → P i

structure Enters (c : Chart) (memory : Memory) (enter : Configuration → NodeId → Configuration)
    (n : NodeId) : Prop where
  adds : ∀ s, c.Adds (fun q => (c.node n).parent? = some q) (c.Region memory n) s (enter s n)
  tops : ∀ s, ∀ t ∈ c.tops memory n, t ∈ enter s n

variable {memory : Memory} {enter : Configuration → NodeId → Configuration}

lemma recallsAt_regular (h : (c.node n).isHistory = false) : c.RecallsAt memory n :=
  fun _ hh => absurd (h.symm.trans hh) Bool.false_ne_true

lemma tops_regular (h : (c.node n).isHistory = false) : c.tops memory n = [n] := by
  simp [tops, h]

lemma region_self (ht : c.IsTree) (h : (c.node n).isHistory = false) : c.Region memory n n := by
  refine ⟨n, by simp [tops_regular h], n, within_self n, within_self n, fun p hp => ?_⟩
  exact below_parent ht hp

lemma region_of_within (ht : c.IsTree) (h : (c.node n).isHistory = false) {x : NodeId}
    (hx : c.Within x n) : c.Region memory n x := by
  refine ⟨n, by simp [tops_regular h], n, within_self n, hx, fun p hp => ?_⟩
  exact below_parent ht hp

lemma within_of_region (ht : c.IsTree) (hn : n < c.size) (h : (c.node n).isHistory = false)
    {x : NodeId} (hx : c.Region memory n x) : c.Within x n := by
  obtain ⟨t, hmem, a, hta, hxa, ha⟩ := hx
  rw [tops_regular h, List.mem_singleton] at hmem
  subst hmem
  rcases hta with rfl | hta
  · exact hxa
  · obtain ⟨p, hp, hpa⟩ := exists_parent ht hta
    exact (not_below_self ht _ ((ha p hp).trans_within ht hpa)).elim

lemma below_of_region (ht : c.IsTree) (h : (c.node n).parent? = some p) {x : NodeId}
    (hx : c.Region memory n x) : c.Below x p := by
  obtain ⟨_, _, a, _, hxa, ha⟩ := hx
  exact hxa.trans_below ht (ha p h)

lemma isHistory_eq_false_of_child (hw : c.WellFormed) (h : a ∈ (c.node n).children) :
    (c.node n).isHistory = false := by
  by_contra hh
  have hc : (c.node n).isCompound = false ∧ (c.node n).isParallel = false := by
    cases hk : (c.node n).kind <;>
      simp_all [StateNode.isHistory, StateNode.historyKind?, StateNode.isCompound,
        StateNode.isParallel]
  rw [hw.leaf n hc.1 hc.2] at h
  exact List.not_mem_nil h

lemma isHistory_eq_false_of_below (hw : c.WellFormed) (h : c.Below n a) :
    (c.node a).isHistory = false := by
  obtain ⟨child, hc, _⟩ := exists_child hw.toIsTree h
  exact isHistory_eq_false_of_child hw hc

lemma fillRegions_eq_self (h : ∀ r ∈ c.regularChildren n, c.hasDescendant s r ∨ enter s r = s) :
    c.fillRegions enter s n = s := by
  rw [fillRegions]
  generalize c.regularChildren n = l at h
  induction l with
  | nil => rfl
  | cons r l ih =>
    have hr : (if c.hasDescendant s r then s else enter s r) = s := by
      split
      · rfl
      · rename_i hnot
        exact (h r List.mem_cons_self).resolve_left hnot
    rw [List.foldl_cons, hr]
    exact ih fun r' hr' => h r' (List.mem_cons_of_mem _ hr')

section

variable (hw : c.WellFormed)

include hw

lemma Enters.of_regular (h : c.Enters memory enter n) (hn : n < c.size)
    (hr : (c.node n).isHistory = false) (s : Configuration) :
    c.Adds (fun q => (c.node n).parent? = some q) (c.Within · n) s (enter s n) ∧ n ∈ enter s n := by
  refine ⟨(h.adds s).mono (fun x hx => within_of_region hw.toIsTree hn hr hx) fun _ hq => .inr hq,
    h.tops s n ?_⟩
  simp [tops_regular hr]

lemma fillRegions_step (h : ∀ r ∈ c.regularChildren n, c.Enters memory enter r) {r : NodeId}
    (hr : r ∈ c.regularChildren n) (s : Configuration) :
    c.Adds (fun q => n = q) (c.Below · n) s
        (if c.hasDescendant s r then s else enter s r) ∧
      c.Touches (if c.hasDescendant s r then s else enter s r) r := by
  obtain ⟨hc, hreg⟩ := mem_regularChildren.1 hr
  have hp := (hw.mem_children r n).1 hc
  by_cases hd : c.hasDescendant s r
  · rw [if_pos hd]
    refine ⟨.refl s, ?_⟩
    obtain ⟨x, hx, hb⟩ := List.any_eq_true.1 hd
    exact ⟨x, hx, .inr ((hw.isDescendant_iff x r).1 hb)⟩
  · rw [if_neg hd]
    obtain ⟨hadds, hmem⟩ := (h r hr).of_regular hw (below_size (child_below hw.toIsTree hc)) hreg s
    refine ⟨hadds.mono (fun x hx => hx.trans_below hw.toIsTree (child_below hw.toIsTree hc))
      fun q hq => ?_, touches_of_mem hmem⟩
    rw [hp, Option.some.injEq] at hq
    exact .inr hq

lemma fillRegions_adds (h : ∀ r ∈ c.regularChildren n, c.Enters memory enter r)
    (s : Configuration) :
    c.Adds (fun q => n = q) (c.Below · n) s (c.fillRegions enter s n) :=
  Adds.foldl fun _ hr s' _ => (fillRegions_step hw h hr s').1

lemma fillRegions_touches (h : ∀ r ∈ c.regularChildren n, c.Enters memory enter r)
    (s : Configuration) {r : NodeId} (hr : r ∈ c.regularChildren n) :
    c.Touches (c.fillRegions enter s n) r :=
  Adds.foldl_of_step (fun _ hx s' _ => (fillRegions_step hw h hx s').1)
    (fun _ _ hs hP => Touches.mono hP hs) hr fun s' _ => (fillRegions_step hw h hr s').2

lemma addAncestor_step
    (h : (c.node a).isParallel → ∀ r ∈ c.regularChildren a, c.Enters memory enter r)
    (hb : c.Below t a) {s : Configuration} (ht : t ∈ s) :
    c.Adds (fun q => (c.node a).parent? = some q) (c.Within · a) s
        (if (c.node a).isParallel then c.fillRegions enter (s.insert a) a else s.insert a) ∧
      a ∈ (if (c.node a).isParallel then c.fillRegions enter (s.insert a) a else s.insert a) := by
  have hreg := isHistory_eq_false_of_below hw hb
  by_cases hp : (c.node a).isParallel
  · rw [if_pos hp]
    have hadds := fillRegions_adds hw (h hp) (s.insert a)
    have ha := hadds.subset a (SortedSet.mem_insert.2 (.inl rfl))
    refine ⟨(hadds.mono (fun x hx => Below.within hx) fun q hq => .inl (hq ▸ ha)).of_insert
      (within_self a) ⟨⟨hreg, fun _ => ?_, fun _ r hr => fillRegions_touches hw (h hp) _ hr⟩,
        fun q hq => .inr hq⟩, ha⟩
    exact ⟨t, hadds.subset t (SortedSet.mem_insert.2 (.inr ht)), hb⟩
  · rw [if_neg hp]
    refine ⟨(Adds.refl _).of_insert (within_self a) ⟨⟨hreg, fun _ => ?_, fun h => absurd h hp⟩,
      fun q hq => .inr hq⟩, SortedSet.mem_insert.2 (.inl rfl)⟩
    exact ⟨t, SortedSet.mem_insert.2 (.inr ht), hb⟩

lemma addAncestors_adds (stop : Option NodeId)
    (h : ∀ a ∈ c.ancestorsBelow t stop, (c.node a).isParallel →
      ∀ r ∈ c.regularChildren a, c.Enters memory enter r) {s : Configuration} (ht : t ∈ s) :
    c.Adds (fun q => stop = some q) (fun x => ∃ a ∈ c.ancestorsBelow t stop, c.Within x a) s
        (c.addAncestors enter s t stop) ∧
      ∀ a ∈ c.ancestorsBelow t stop, a ∈ c.addAncestors enter s t stop := by
  have hstep := fun a (ha : a ∈ c.ancestorsBelow t stop) s' (hs : ∀ n ∈ s, n ∈ s') =>
    addAncestor_step hw (h a ha) (below_of_mem_ancestorsBelow ha) (hs t ht)
  have hadds : ∀ a ∈ c.ancestorsBelow t stop, ∀ s', (∀ n ∈ s, n ∈ s') →
      c.Adds (fun q => q ∈ c.ancestorsBelow t stop ∨ stop = some q)
        (fun x => ∃ a ∈ c.ancestorsBelow t stop, c.Within x a) s'
        (if (c.node a).isParallel then c.fillRegions enter (s'.insert a) a else s'.insert a) := by
    refine fun a ha s' hs => (hstep a ha s' hs).1.mono (fun x hx => ⟨a, ha, hx⟩) fun q hq => ?_
    exact .inr (parent_of_mem_ancestorsBelow hw.toIsTree ha hq)
  have hmem : ∀ a ∈ c.ancestorsBelow t stop, a ∈ c.addAncestors enter s t stop := fun a ha =>
    Adds.foldl_of_step hadds (fun _ _ hs hP => hs a hP) ha fun s' hs => (hstep a ha s' hs).2
  refine ⟨(Adds.foldl hadds).mono (fun _ hx => hx) fun q hq => ?_, hmem⟩
  exact hq.imp_left (hmem q)

lemma tops_below (hr : c.RecallsAt memory n) (h : (c.node n).parent? = some p) :
    c.tops memory n ≠ [] ∧ ∀ t ∈ c.tops memory n, (c.node t).isHistory = false ∧ c.Below t p := by
  cases hh : (c.node n).isHistory with
  | true => simpa [tops, hh] using hr p hh h
  | false => simpa [tops, hh] using below_parent hw.toIsTree h

lemma exists_parent_of_isHistory (hn : n < c.size) (hh : (c.node n).isHistory) :
    ∃ p, (c.node n).parent? = some p := by
  have hroot : n ≠ rootId := by
    rintro rfl
    simp [hw.root_regular] at hh
  obtain ⟨p, hp, _⟩ := exists_parent hw.toIsTree (below_root hw.toIsTree hn hroot)
  exact ⟨p, hp⟩

lemma tops_ne_nil (hr : c.RecallsAt memory n) (hn : n < c.size) : c.tops memory n ≠ [] := by
  cases hh : (c.node n).isHistory with
  | true =>
    obtain ⟨p, hp⟩ := exists_parent_of_isHistory hw hn hh
    exact (tops_below hw hr hp).1
  | false => simp [tops_regular hh]

lemma tops_lt (hr : c.RecallsAt memory n) (hn : n < c.size) (ht : t ∈ c.tops memory n) :
    t < c.size := by
  cases hh : (c.node n).isHistory with
  | true =>
    obtain ⟨p, hp⟩ := exists_parent_of_isHistory hw hn hh
    exact below_size ((tops_below hw hr hp).2 t ht).2
  | false =>
    rw [tops_regular hh, List.mem_singleton] at ht
    exact ht ▸ hn

lemma compound_adds {i : NodeId} (hr : c.RecallsAt memory i) (hn : (c.node n).isCompound)
    (hi : i ∈ (c.node n).children) (h : c.Enters memory enter i) (s : Configuration) :
    c.Adds (fun q => (c.node n).parent? = some q) (c.Region memory n) s (enter (s.insert n) i) ∧
      n ∈ enter (s.insert n) i := by
  have hp := (hw.mem_children i n).1 hi
  have hreg := isHistory_eq_false_of_child hw hi
  have hadds := h.adds (s.insert n)
  have hmem := hadds.subset n (SortedSet.mem_insert.2 (.inl rfl))
  have hstop : ∀ q, (c.node i).parent? = some q → q ∈ enter (s.insert n) i := by
    intro q hq
    rw [hp, Option.some.injEq] at hq
    exact hq ▸ hmem
  refine ⟨(hadds.mono (fun x hx => ?_) fun q hq => .inl (hstop q hq)).of_insert
    (region_self hw.toIsTree hreg) ⟨⟨hreg, fun _ => ?_, fun hpar => ?_⟩, fun q hq => .inr hq⟩, hmem⟩
  · exact region_of_within hw.toIsTree hreg (below_of_region hw.toIsTree hp hx).within
  · obtain ⟨hne, hbelow⟩ := tops_below hw hr hp
    obtain ⟨t, ht⟩ := List.exists_mem_of_ne_nil _ hne
    exact ⟨t, h.tops _ t ht, (hbelow t ht).2⟩
  · simp only [StateNode.isCompound, decide_eq_true_eq] at hn
    simp [StateNode.isParallel, hn] at hpar

lemma parallel_adds (memory : Memory) (hn : (c.node n).isParallel)
    (hreg : (c.node n).isHistory = false) (h : ∀ r ∈ c.regularChildren n, c.Enters memory enter r)
    (s : Configuration) :
    c.Adds (fun q => (c.node n).parent? = some q) (c.Region memory n) s
        (c.fillRegions enter (s.insert n) n) ∧ n ∈ c.fillRegions enter (s.insert n) n := by
  have hadds := fillRegions_adds hw h (s.insert n)
  have hmem := hadds.subset n (SortedSet.mem_insert.2 (.inl rfl))
  refine ⟨(hadds.mono (fun x hx => ?_) fun q hq => .inl (hq ▸ hmem)).of_insert
    (region_self hw.toIsTree hreg)
    ⟨⟨hreg, fun hc => ?_, fun _ r hr => ?_⟩, fun q hq => .inr hq⟩, hmem⟩
  · exact region_of_within hw.toIsTree hreg hx.within
  · exact absurd hc (by simp [StateNode.isCompound_eq_false hn])
  · exact fillRegions_touches hw h _ hr

lemma leaf_adds (memory : Memory) (hreg : (c.node n).isHistory = false)
    (hc : ¬ (c.node n).isCompound) (hp : ¬ (c.node n).isParallel) (s : Configuration) :
    c.Adds (fun q => (c.node n).parent? = some q) (c.Region memory n) s (s.insert n) :=
  (Adds.refl _).of_insert (region_self hw.toIsTree hreg)
    ⟨⟨hreg, fun h => absurd h hc, fun h => absurd h hp⟩, fun _ hq => .inr hq⟩

lemma enterAll_adds {ts es : List NodeId} {d : NodeId} {stops : NodeId → Prop}
    (hts : ∀ t ∈ ts, c.Enters memory enter t) (htops : ∀ e ∈ es, ∃ t ∈ ts, e ∈ c.tops memory t)
    (hstop : ∀ t ∈ ts, ∀ q, (c.node t).parent? = some q →
      (∃ e ∈ es, q ∈ c.ancestorsBelow e (some d)) ∨ stops q) (hd : stops d)
    (hregions : ∀ a, (c.node a).isParallel → (∃ e ∈ es, a ∈ c.ancestorsBelow e (some d)) →
      ∀ r ∈ c.regularChildren a, c.Enters memory enter r) (s : Configuration) :
    let s' := es.foldl (fun s e => c.addAncestors enter s e (some d)) (ts.foldl enter s)
    c.Adds stops (fun x => (∃ t ∈ ts, c.Region memory t x) ∨
      ∃ e ∈ es, ∃ a ∈ c.ancestorsBelow e (some d), c.Within x a) s s' ∧ ∀ e ∈ es, e ∈ s' := by
  intro s'
  let stops' : NodeId → Prop := fun q => (∃ e ∈ es, q ∈ c.ancestorsBelow e (some d)) ∨ stops q
  let region : NodeId → Prop := fun x => (∃ t ∈ ts, c.Region memory t x) ∨
    ∃ e ∈ es, ∃ a ∈ c.ancestorsBelow e (some d), c.Within x a
  have hentered : ∀ t ∈ ts, ∀ s', (∀ x ∈ s, x ∈ s') → c.Adds stops' region s' (enter s' t) :=
    fun t ht s' _ => ((hts t ht).adds s').mono (fun x hx => .inl ⟨t, ht, hx⟩)
      fun q hq => .inr (hstop t ht q hq)
  have hmem : ∀ e ∈ es, e ∈ ts.foldl enter s := by
    intro e he
    obtain ⟨t, ht, hte⟩ := htops e he
    exact Adds.foldl_of_step hentered (fun _ _ hs hP => hs e hP) ht fun s' _ =>
      (hts t ht).tops s' e hte
  have habove := fun e (he : e ∈ es) s' (hs : ∀ x ∈ ts.foldl enter s, x ∈ s') =>
    addAncestors_adds hw (some d) (fun a ha hp => hregions a hp ⟨e, he, ha⟩)
      (hs e (hmem e he))
  have hadds : ∀ e ∈ es, ∀ s', (∀ x ∈ ts.foldl enter s, x ∈ s') →
      c.Adds stops' region s' (c.addAncestors enter s' e (some d)) :=
    fun e he s' hs => (habove e he s' hs).1.mono (fun x hx => .inr ⟨e, he, hx⟩)
      fun q hq => .inr (.inr (Option.some.inj hq ▸ hd))
  refine ⟨((Adds.foldl hentered).trans (Adds.foldl hadds)).mono (fun _ hx => hx) fun q hq => ?_,
    fun e he => (Adds.foldl hadds).subset e (hmem e he)⟩
  rcases hq with ⟨e, he, hq⟩ | hq
  · exact .inl (Adds.foldl_of_step hadds (fun _ _ hs hP => hs q hP) he fun s' hs =>
      (habove e he s' hs).2 q hq)
  · exact .inr hq

lemma history_adds (hr : c.RecallsAt memory n) (hn : (c.node n).isHistory)
    (hp : (c.node n).parent? = some p)
    (ht : ∀ t ∈ c.historyTargets memory n, c.Enters memory enter t)
    (h : ∀ a, c.Below a p → (c.node a).isParallel →
      ∀ r ∈ c.regularChildren a, c.Enters memory enter r) (s : Configuration) :
    let targets := c.historyTargets memory n
    let s' := targets.foldl (fun s t => c.addAncestors enter s t (some p)) (targets.foldl enter s)
    c.Adds (fun q => (c.node n).parent? = some q) (c.Region memory n) s s' ∧
      ∀ t ∈ targets, t ∈ s' := by
  intro targets s'
  obtain ⟨_, hbelow⟩ := hr p hn hp
  have hregion : ∀ t ∈ targets, ∀ x a, c.Within t a → c.Within x a → c.Below a p →
      c.Region memory n x := by
    intro t hmem x a hta hxa ha
    refine ⟨t, by rwa [tops, if_pos hn], a, hta, hxa, fun q hq => ?_⟩
    rw [hp, Option.some.injEq] at hq
    exact hq ▸ ha
  have htops : ∀ t ∈ targets, ∃ u ∈ targets, t ∈ c.tops memory u := fun t hmem =>
    ⟨t, hmem, by simp [tops_regular (hbelow t hmem).1]⟩
  have hstop : ∀ t ∈ targets, ∀ q, (c.node t).parent? = some q →
      (∃ t ∈ targets, q ∈ c.ancestorsBelow t (some p)) ∨ p = q := fun t hmem q hq =>
    (parent_mem_ancestorsBelow (some p) hw.toIsTree hq).imp (fun hq => ⟨t, hmem, hq⟩)
      Option.some.inj
  have habove : ∀ t ∈ targets, ∀ a ∈ c.ancestorsBelow t (some p), c.Below a p := fun t hmem a ha =>
    below_of_mem_ancestorsBelow_some hw.toIsTree (hbelow t hmem).2 ha
  obtain ⟨hadds, hmem⟩ := enterAll_adds hw ht htops hstop rfl
    (fun a hpar ⟨t, hmem, ha⟩ => h a (habove t hmem a ha) hpar) s
  refine ⟨hadds.mono (fun x hx => ?_) fun q hq => .inr (hq ▸ hp), hmem⟩
  rcases hx with ⟨t, hmem, hx⟩ | ⟨t, hmem, a, ha, hx⟩
  · obtain ⟨hreg, hb⟩ := hbelow t hmem
    have hxt := within_of_region hw.toIsTree (below_size hb) hreg hx
    exact hregion t hmem x t (within_self t) hxt hb
  · exact hregion t hmem x a (below_of_mem_ancestorsBelow ha).within hx (habove t hmem a ha)

def entryCost (c : Chart) (n : NodeId) : Nat :=
  if (c.node n).isHistory then 2 * (c.size - (c.node n).parent?.getD rootId) - 1
  else 2 * (c.size - n)

omit hw in
lemma cost_behind {a b size k : Nat} (h : a < b) (hb : b < size)
    (hk : 2 * (size - a) - 1 ≤ k + 1) : 2 * (size - b) ≤ k := by
  omega

omit hw in
lemma cost_pos {a size k : Nat} (h : a < size) (hk : 2 * (size - a) - 1 ≤ k) : k ≠ 0 := by
  omega

lemma entryCost_child {i k : Nat} (hi : i ∈ (c.node n).children)
    (hk : 2 * (c.size - n) ≤ k + 1) : c.entryCost i ≤ k := by
  have hp := (hw.mem_children i n).1 hi
  rw [entryCost, hp]
  by_cases hh : (c.node i).isHistory
  · rw [if_pos hh]
    exact Nat.sub_le_of_le_add hk
  · rw [if_neg hh]
    exact cost_behind (parent_lt hw.toIsTree hp) (below_size (child_below hw.toIsTree hi))
      (Nat.le_trans (Nat.sub_le _ _) hk)

lemma entryCost_regular {x k : Nat} (hreg : (c.node x).isHistory = false) (hx : c.Below x p)
    (hk : 2 * (c.size - p) - 1 ≤ k + 1) : c.entryCost x ≤ k := by
  rw [entryCost, hreg]
  exact cost_behind (below_lt hw.toIsTree hx) (below_size hx) hk

lemma entryCost_ne_zero (hn : n < c.size) : c.entryCost n ≠ 0 := by
  rw [entryCost]
  split
  · cases hp : (c.node n).parent? with
    | none => exact cost_pos hw.size_pos (Nat.le_refl _)
    | some p => exact cost_pos (Nat.lt_trans (parent_lt hw.toIsTree hp) hn) (Nat.le_refl _)
  · exact cost_pos hn (Nat.sub_le _ _)

lemma enterWithin_enters (hi : c.Initials (c.RecallsAt memory)) (k : Nat) (hn : n < c.size)
    (hr : c.RecallsAt memory n) (hk : c.entryCost n ≤ k) :
    c.Enters memory (c.enterWithin memory k) n := by
  induction k generalizing n with
  | zero => exact absurd (Nat.le_zero.1 hk) (entryCost_ne_zero hw hn)
  | succ k ih =>
    have hregions : ∀ a, 2 * (c.size - a) - 1 ≤ k + 1 → ∀ r ∈ c.regularChildren a,
        c.Enters memory (c.enterWithin memory k) r := by
      intro a ha r hmem
      obtain ⟨hc, hreg⟩ := mem_regularChildren.1 hmem
      have hb := child_below hw.toIsTree hc
      exact ih (below_size hb) (recallsAt_regular hreg) (entryCost_regular hw hreg hb ha)
    cases hh : (c.node n).isHistory with
    | true =>
      obtain ⟨p, hp⟩ := exists_parent_of_isHistory hw hn hh
      have hcost : 2 * (c.size - p) - 1 ≤ k + 1 := by simpa [entryCost, hh, hp] using hk
      obtain ⟨_, hbelow⟩ := hr p hh hp
      have hadds := history_adds hw hr hh hp
        (fun t ht => ih (below_size (hbelow t ht).2) (recallsAt_regular (hbelow t ht).1)
          (entryCost_regular hw (hbelow t ht).1 (hbelow t ht).2 hcost))
        (fun a ha _ => hregions a (Nat.le_trans
          (Nat.sub_le_sub_right (Nat.mul_le_mul_left 2
            (Nat.sub_le_sub_left (Nat.le_of_lt (below_lt hw.toIsTree ha)) _)) 1) hcost))
      refine ⟨fun s => ?_, fun s t ht => ?_⟩
      · simpa only [enterWithin, hh, if_true, hp] using (hadds s).1
      · rw [tops, if_pos hh] at ht
        simpa only [enterWithin, hh, if_true, hp] using (hadds s).2 t ht
    | false =>
      have hcost : 2 * (c.size - n) ≤ k + 1 := by simpa [entryCost, hh] using hk
      have key : ∀ s, c.Adds (fun q => (c.node n).parent? = some q) (c.Region memory n) s
          (c.enterWithin memory (k + 1) s n) ∧ n ∈ c.enterWithin memory (k + 1) s n := by
        intro s
        by_cases hc : (c.node n).isCompound
        · obtain ⟨i, hchild, hinit⟩ := hw.initial n hc
          have hp := (hw.mem_children i n).1 hchild
          have hrecalls := hi n i hc hinit
          have hchildCost := entryCost_child hw hchild hcost
          have hadds := compound_adds hw hrecalls hc hchild
            (ih (below_size (child_below hw.toIsTree hchild)) hrecalls hchildCost) s
          simpa [enterWithin, hh, hc, hinit, addAncestors, ancestorsBelow_parent hw.toIsTree hp]
            using hadds
        · by_cases hp : (c.node n).isParallel
          · have hadds := parallel_adds hw memory hp hh
              (hregions n (Nat.le_trans (Nat.sub_le _ _) hcost)) s
            simpa [enterWithin, hh, hc, hp] using hadds
          · simpa [enterWithin, hh, hc, hp] using leaf_adds hw memory hh hc hp s
      refine ⟨fun s => (key s).1, fun s t ht => ?_⟩
      rw [tops_regular hh, List.mem_singleton] at ht
      exact ht ▸ (key s).2

omit hw in
lemma entryCost_le (n : NodeId) : c.entryCost n ≤ c.entryDepth := by
  have h : ∀ a : Nat, 2 * (c.size - a) ≤ c.entryDepth := by
    intro a
    refine Nat.le_trans ?_ c.square_le_entryDepth
    rw [Nat.add_mul, Nat.mul_add]
    have := Nat.zero_le (c.size * c.size)
    omega
  rw [entryCost]
  split
  · exact Nat.le_trans (Nat.sub_le _ _) (h _)
  · exact h n

lemma enter_enters (hr : c.Recalls memory) (hn : n < c.size) :
    c.Enters memory (c.enter memory) n :=
  enterWithin_enters hw (fun _ i _ _ => hr i) _ hn (hr n) (entryCost_le n)

end

end Statechart.Chart
