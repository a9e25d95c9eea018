import Mathlib.Tactic.Common
import Statechart.Proofs.Configuration.Calls
import Statechart.Proofs.Step.Run

/-! History states that never lead back to themselves. -/

namespace Statechart

namespace Chart

variable {c : Chart} {s : Configuration} {memory : Memory} {exiting : List NodeId}
  {h n p x : NodeId} {enter : Configuration → NodeId → Configuration}

def Inward (c : Chart) (targets : NodeId → List NodeId) : Prop :=
  ∀ h p, (c.node h).isHistory → (c.node h).parent? = some p →
    ∀ x ∈ targets h, (c.node x).isHistory = false ∧ c.Below x p

def Keeps (c : Chart) (memory : Memory) : Prop := c.Inward fun h => (memory.get? h).getD []

/-- No history state leads back to itself by its default, whatever history states remember. A
default that does not lead back at first may do so once another history state remembers. -/
def Loopless (c : Chart) : Prop := ∀ memory, c.Keeps memory → c.Unlooped memory

lemma keeps_empty : c.Keeps .empty :=
  fun _ _ _ _ _ hx => absurd hx (by simp [SortedMap.get?, SortedMap.empty])

def Regular (c : Chart) (s : Configuration) : Prop := ∀ x ∈ s, (c.node x).isHistory = false

lemma Regular.insert (hs : c.Regular s) (hn : (c.node n).isHistory = false) :
    c.Regular (s.insert n) :=
  fun x hx => (SortedSet.mem_insert.1 hx).elim (fun he => he ▸ hn) (hs x)

lemma Regular.foldl {α : Type} {f : Configuration → α → Configuration} {l : List α}
    (hs : c.Regular s) (hf : ∀ s, c.Regular s → ∀ a ∈ l, c.Regular (f s a)) :
    c.Regular (l.foldl f s) :=
  List.foldlRecOn l f hs hf

lemma Regular.fillRegions (hs : c.Regular s) (h : ∀ s n, c.Regular s → c.Regular (enter s n)) :
    c.Regular (c.fillRegions enter s n) := by
  refine hs.foldl fun s hs r _ => ?_
  split
  · exact hs
  · exact h s r hs

section

variable (hw : c.WellFormed)

include hw

lemma Calls.below_of_inward (hcall : c.Calls memory h x) (hi : c.Inward (c.historyTargets memory))
    (hh : (c.node h).isHistory) (hp : (c.node h).parent? = some p) :
    (c.node x).isHistory = false ∧ c.Below x p := by
  have ht := hw.toIsTree
  cases hcall with
  | target _ hx => exact hi h p hh hp x hx
  | around _ hx ha _ hr =>
    have hb := below_of_mem_ancestorsBelow_some ht (hi h p hh hp _ hx).2 (hp ▸ ha)
    exact ⟨(mem_regularChildren.1 hr).2, (regularChild_below ht hr).trans ht hb⟩
  | initial hc _ =>
    obtain ⟨i, hchild, _⟩ := hw.initial h hc
    exact absurd hh (by simp [isHistory_eq_false_of_child hw hchild])
  | region _ hr =>
    exact absurd hh (by simp [isHistory_eq_false_of_child hw (mem_regularChildren.1 hr).1])

lemma Calls.parent (hcall : c.Calls memory n x) (hn : (c.node n).isHistory = false)
    (hx : (c.node x).isHistory) : (c.node x).parent? = some n := by
  cases hcall with
  | target hh => exact absurd hh (by simp [hn])
  | around hh => exact absurd hh (by simp [hn])
  | initial hc hi =>
    obtain ⟨i, hchild, hinit⟩ := hw.initial n hc
    obtain rfl := Option.some.inj (hinit.symm.trans hi)
    exact (hw.mem_children _ n).1 hchild
  | region _ hr => exact absurd hx (by simp [(mem_regularChildren.1 hr).2])

lemma below_of_calls (hi : c.Inward (c.historyTargets memory)) (hh : (c.node h).isHistory)
    (hp : (c.node h).parent? = some p) (hx : Relation.TransGen (c.Calls memory) h x) :
    c.Below x p ∧ ((c.node x).isHistory → ∃ q, (c.node x).parent? = some q ∧ c.Below q p) := by
  have ht := hw.toIsTree
  induction hx with
  | single hcall =>
    obtain ⟨hreg, hb⟩ := hcall.below_of_inward hw hi hh hp
    exact ⟨hb, fun hx => absurd hx (by simp [hreg])⟩
  | @tail y x _ hcall ih =>
    obtain ⟨hyp, hparent⟩ := ih
    cases hy : (c.node y).isHistory with
    | true =>
      obtain ⟨q, hq, hqp⟩ := hparent hy
      obtain ⟨hreg, hb⟩ := hcall.below_of_inward hw hi hy hq
      exact ⟨hb.trans ht hqp, fun hx => absurd hx (by simp [hreg])⟩
    | false => exact ⟨(hcall.below hw hy).trans ht hyp, fun hx => ⟨y, hcall.parent hw hy hx, hyp⟩⟩

lemma Inward.unlooped (hi : c.Inward (c.historyTargets memory)) : c.Unlooped memory := by
  intro h hh hloop
  obtain ⟨_, hcall, _⟩ := Relation.TransGen.head'_iff.1 hloop
  obtain ⟨p, hp⟩ := exists_parent_of_isHistory hw hcall.lt_size hh
  obtain ⟨_, hparent⟩ := below_of_calls hw hi hh hp hloop
  obtain ⟨q, hq, hqp⟩ := hparent hh
  rw [hp, Option.some.injEq] at hq
  exact not_below_self hw.toIsTree p (hq ▸ hqp)

lemma Inward.loopless (hi : c.Inward fun h => (c.node h).historyDefault) : c.Loopless := by
  intro memory hk
  refine Inward.unlooped hw fun h p hh hp x hx => ?_
  rw [historyTargets] at hx
  cases hget : memory.get? h with
  | none => exact hi h p hh hp x (by simpa [hget] using hx)
  | some refs => exact hk h p hh hp x (by simpa [hget] using hx)

lemma Regular.addAncestors {stop : Option NodeId} (hs : c.Regular s)
    (h : ∀ s n, c.Regular s → c.Regular (enter s n)) :
    c.Regular (c.addAncestors enter s n stop) := by
  refine hs.foldl fun s hs a ha => ?_
  have hinsert := hs.insert (isHistory_eq_false_of_below hw (below_of_mem_ancestorsBelow ha))
  split
  · exact hinsert.fillRegions h
  · exact hinsert

lemma Regular.enterWithin (k : Nat) (hs : c.Regular s) :
    c.Regular (c.enterWithin memory k s n) := by
  induction k generalizing s n with
  | zero => exact hs
  | succ k ih =>
    have henter : ∀ s n, c.Regular s → c.Regular (c.enterWithin memory k s n) :=
      fun _ _ hs => ih hs
    rw [Chart.enterWithin]
    cases hn : (c.node n).isHistory with
    | true =>
      have htargets : c.Regular ((c.historyTargets memory n).foldl (c.enterWithin memory k) s) :=
        hs.foldl fun s hs t _ => henter s t hs
      exact htargets.foldl fun s hs t _ => hs.addAncestors hw henter
    | false =>
      have hinsert := hs.insert hn
      rw [if_neg Bool.false_ne_true]
      split
      · split
        · exact hinsert
        · exact (henter _ _ hinsert).addAncestors hw henter
      · split
        · exact hinsert.fillRegions henter
        · exact hinsert

lemma Keeps.recordHistory (hk : c.Keeps memory) (hs : c.Regular s) :
    c.Keeps (Run.recordHistory c s exiting memory) := by
  intro h p hh hp x hx
  obtain ⟨kind, hkind⟩ := StateNode.exists_historyKind? hh
  dsimp only at hx
  rw [Run.get?_recordHistory hw.toIsTree memory exiting hkind hp] at hx
  split at hx
  · obtain ⟨hxs, hb⟩ := Run.mem_of_mem_remembered hw.toIsTree hx
    exact ⟨hs x hxs, hb⟩
  · exact hk h p hh hp x hx

end

end Chart

namespace Machine

variable {C : Type} {m : Machine C} {s : MachineState C}

def Meets (m : Machine C) (s : MachineState C) : Prop :=
  m.Reaches s ∨ ∃ event r, m.Visits event r ∧ r.state = s

section

variable (hw : m.chart.WellFormed)

include hw

lemma regular_entrySet (memory : Memory) (l : List TransitionRef) :
    m.chart.Regular (m.entrySet memory l) := by
  have hempty : m.chart.Regular .empty := fun x hx => absurd hx (SortedSet.not_mem_empty x)
  refine hempty.foldl fun s hs ref _ => ?_
  have htargets : m.chart.Regular ((m.transitionAt ref).targets.foldl (m.chart.enter memory) s) :=
    hs.foldl fun s hs t _ => hs.enterWithin hw _
  exact htargets.foldl fun s hs t _ => hs.addAncestors hw fun _ _ hs => hs.enterWithin hw _

lemma regular_start : m.chart.Regular (m.chart.enter .empty .empty rootId) :=
  Chart.Regular.enterWithin hw _ fun x hx => absurd hx (SortedSet.not_mem_empty x)

lemma regular_step {conf : Configuration} {l : List TransitionRef}
    (hs : m.chart.Regular s.configuration) (hl : m.Leads s l conf) : m.chart.Regular conf :=
  fun x hx => ((hl x).1 hx).elim (fun hx => hs x hx.1) (regular_entrySet hw _ l x)

lemma keeps_of_meets (hs : m.Meets s) :
    m.chart.Regular s.configuration ∧ m.chart.Keeps s.history := by
  have hstart : m.chart.Regular (m.chart.enter .empty .empty rootId) ∧ m.chart.Keeps .empty :=
    ⟨regular_start hw, Chart.keeps_empty⟩
  have hstep : ∀ s l conf, m.chart.Regular s.configuration ∧ m.chart.Keeps s.history →
      m.Compatible s.configuration s.history l → m.Takes s l → m.Leads s l conf →
        m.chart.Regular conf ∧ m.chart.Keeps (m.historyAfter s l) :=
    fun _ _ _ hs _ _ hl => ⟨regular_step hw hs.1 hl, hs.2.recordHistory hw hs.1⟩
  rcases hs with hs | ⟨event, r, hr, rfl⟩
  · exact reaches_induction (P := fun conf memory => m.chart.Regular conf ∧ m.chart.Keeps memory)
      hstart hstep hs
  · exact visits_induction (P := fun conf memory => m.chart.Regular conf ∧ m.chart.Keeps memory)
      hstart hstep hr

lemma unlooped_of_loopless (hl : m.chart.Loopless) (hs : m.Meets s) (l : List TransitionRef) :
    m.chart.Unlooped s.history ∧ m.chart.Unlooped (m.historyAfter s l) := by
  obtain ⟨hregular, hkeeps⟩ := keeps_of_meets hw hs
  exact ⟨hl _ hkeeps, hl _ (hkeeps.recordHistory hw hregular)⟩

end

end Machine

end Statechart
