import Mathlib.Tactic.Common
import Statechart.Proofs.Step.Netting
import Statechart.Proofs.Step.Steady

/-! The order of exits and entries. A state is exited after all that is below it and before what is
above it, and entered the other way round. -/

namespace Statechart

variable {C : Type} {m : Machine C} {event : Event} {r r' : Run C} {n x : NodeId}

namespace Chart

structure Tip (c : Chart) (s : Configuration) (n : NodeId) : Prop where
  active : n ∈ s
  above : ∀ a, c.Below n a → a ∈ s
  below : ∀ x, c.Below x n → x ∉ s

end Chart

namespace Run

variable {nodes : List NodeId}

lemma Comes.tip_of_exit (ht : m.chart.IsTree) (hs : m.chart.ParentClosed r.state.configuration)
    (hsorted : nodes.Pairwise (· > ·)) (hnodes : ∀ x ∈ nodes, x ∈ r.state.configuration)
    (hdown : ∀ n ∈ nodes, ∀ x ∈ r.state.configuration, m.chart.Below x n → x ∈ nodes)
    (h : Comes (exitNode m event) nodes r n r') : m.chart.Tip r'.state.configuration n := by
  have hn := h.mem
  obtain ⟨before, after, rfl, hr⟩ := h
  obtain ⟨_, hmem⟩ := exitNodes_mem hr
  obtain ⟨_, hafter, hbefore⟩ := List.pairwise_append.1 hsorted
  have hbehind : ∀ a ≤ n, a ∉ before := fun a ha hab =>
    Nat.not_lt_of_le ha (hbefore a hab n List.mem_cons_self)
  refine ⟨?_, fun a ha => ?_, fun x hx hxr => ?_⟩
  · exact (hmem n).2 ⟨hnodes n hn, hbehind n (Nat.le_refl n)⟩
  · have has := Chart.mem_of_within ht hs (hnodes n hn) ha.within
    exact (hmem a).2 ⟨has, hbehind a (Nat.le_of_lt (Chart.below_lt ht ha))⟩
  · obtain ⟨hxs, hxb⟩ := (hmem x).1 hxr
    have hlt := Chart.below_lt ht hx
    rcases List.mem_append.1 (hdown n hn x hxs hx) with hxn | hxn
    · exact hxb hxn
    · rcases List.mem_cons.1 hxn with rfl | hxn
      · exact Nat.lt_irrefl x hlt
      · exact Nat.lt_asymm hlt (List.rel_of_pairwise_cons hafter hxn)

lemma Comes.tip_of_entry (ht : m.chart.IsTree) (hs : m.chart.ParentClosed r.state.configuration)
    (hsorted : nodes.Pairwise (· < ·))
    (hup : ∀ x ∈ nodes, ∀ p, (m.chart.node x).parent? = some p →
      p ∈ r.state.configuration ∨ p ∈ nodes)
    (hnew : n ∉ r'.state.configuration) (h : Comes (enterNode m event) nodes r n r') :
    m.chart.Tip (r'.state.configuration.insert n) n := by
  have hn := h.mem
  obtain ⟨before, after, rfl, hr⟩ := h
  obtain ⟨_, hmem⟩ := enterNodes_mem hr
  obtain ⟨_, hafter, hbefore⟩ := List.pairwise_append.1 hsorted
  refine ⟨SortedSet.mem_insert.2 (.inl rfl), fun a ha => ?_, fun x hx hxr => ?_⟩
  · have hlt := Chart.below_lt ht ha
    have hall : ∀ x, x ∈ r.state.configuration ∨ x ∈ before ++ n :: after →
        ∀ p, (m.chart.node x).parent? = some p →
          p ∈ r.state.configuration ∨ p ∈ before ++ n :: after :=
      fun x hx p hp => hx.elim (fun hx => .inl (hs x hx p hp)) fun hx => hup x hx p hp
    refine SortedSet.mem_insert.2 (.inr ((hmem a).2 ?_))
    refine (Chart.mem_of_within ht hall (.inr hn) ha.within).imp_right fun ha => ?_
    refine (List.mem_append.1 ha).resolve_right fun ha => ?_
    rcases List.mem_cons.1 ha with rfl | ha
    · exact Nat.lt_irrefl a hlt
    · exact Nat.lt_asymm hlt (List.rel_of_pairwise_cons hafter ha)
  · have hlt := Chart.below_lt ht hx
    rcases SortedSet.mem_insert.1 hxr with rfl | hxr
    · exact Nat.lt_irrefl x hlt
    · rcases (hmem x).1 hxr with hxr | hxb
      · exact hnew ((hmem n).2 (.inl (Chart.mem_of_within ht hs hxr hx.within)))
      · exact Nat.lt_asymm hlt (hbefore x hxb n List.mem_cons_self)

end Run

namespace Lifecycle

variable {c : Chart} {before s : Configuration} {log : List Lifecycle}

structure Nested (c : Chart) (before : Configuration) (log : List Lifecycle) : Prop where
  exits : log.Pairwise fun l e => ∀ a n, l = .exited a → e = .exited n → ¬ c.Below n a
  entries : log.Pairwise fun l e => ∀ n a, l = .entered n → e = .entered a → ¬ c.Below n a
  closed : ∀ a, .exited a ∈ log → ∀ n ∈ before, c.Below n a → .exited n ∈ log

namespace Nested

lemma nil (c : Chart) (before : Configuration) : Nested c before [] :=
  ⟨.nil, .nil, fun _ h => absurd h List.not_mem_nil⟩

lemma exit (h : Nested c before log) (hd : Difference before s log) (ht : c.Tip s n) :
    Nested c before (recordExit log n) := by
  have hl := hd.nodup
  refine ⟨?_, ?_, fun a ha x hx hxa => ?_⟩
  -- an active state above `n` that has been exited before would have taken `n` with it
  · apply pairwise_recordExit hl h.exits
    rintro hmem l hl a x rfl he hxa
    obtain rfl := Lifecycle.exited.inj he
    obtain ⟨hn, hexited⟩ := hd.stayed ht.active hmem
    exact hexited (h.closed a hl n hn hxa)
  · apply pairwise_recordExit hl h.entries
    rintro _ l _ x a _ he
    exact absurd he (by simp)
  · rcases (exited_mem_recordExit hl).1 ha with ha | ⟨rfl, _⟩
    · exact (exited_mem_recordExit hl).2 (.inl (h.closed a ha x hx hxa))
    · exact (exited_mem_recordExit hl).2 (.inl (hd.gone hx (ht.below x hxa)))

lemma enter (h : Nested c before log) (hd : Difference before s log)
    (ht : c.Tip (s.insert n) n) : Nested c before (log ++ [.entered n]) := by
  refine ⟨?_, ?_, fun a ha x hx hxa => ?_⟩
  · apply pairwise_record h.exits
    rintro l _ a x _ he
    exact absurd he (by simp)
  · apply pairwise_record h.entries
    rintro l hl x a rfl he hxa
    obtain rfl := Lifecycle.entered.inj he
    exact ht.below x hxa (SortedSet.mem_insert.2 (.inr (hd.entered x hl)))
  · have ha' : .exited a ∈ log := by simpa using ha
    exact List.mem_append_left _ (h.closed a ha' x hx hxa)

lemma exited_pairwise (h : Nested c before log) :
    (log.filterMap exitedNode?).Pairwise fun a n => ¬ c.Below n a := by
  refine List.pairwise_filterMap.2 (h.exits.imp fun {l e} hle a ha n hn => ?_)
  cases l <;> cases e <;> simp_all [exitedNode?]

lemma entered_pairwise (h : Nested c before log) :
    (log.filterMap enteredNode?).Pairwise fun n a => ¬ c.Below n a := by
  refine List.pairwise_filterMap.2 (h.entries.imp fun {l e} hle n hn a ha => ?_)
  cases l <;> cases e <;> simp_all [enteredNode?]

end Nested

end Lifecycle

open Lifecycle

namespace Machine

variable {s : MachineState C} {l : List TransitionRef} {current : Event} {a : Named (Action C)}

def ExitActs (m : Machine C) (l : List TransitionRef) (event : Event) (r : Run C) (n : NodeId)
    (a : Named (Action C)) (r' : Run C) : Prop :=
  ∃ r₁, m.ExitsAt l event r n r₁ ∧
    Run.Comes (Run.runAction m n event) (m.partsOf n).exit r₁ a r'

def EntryActs (m : Machine C) (l : List TransitionRef) (event : Event) (r : Run C) (n : NodeId)
    (a : Named (Action C)) (r' : Run C) : Prop :=
  ∃ r₁, m.EntersAt l event r n r₁ ∧
    Run.Comes (Run.runAction m n event) (m.partsOf n).entry
      { r₁.setConfiguration (r₁.state.configuration.insert n) with
        lifecycle := r₁.lifecycle ++ [.entered n] } a r'

section

variable (ht : m.chart.IsTree) (hs : m.chart.ParentClosed r.state.configuration)

include ht hs

lemma ExitsAt.tip (h : m.ExitsAt l event r n r') : m.chart.Tip r'.state.configuration n := by
  have hmem : ∀ x ∈ m.exiting r.state l,
      x ∈ m.exitSetOf r.state.configuration r.state.history l := fun x hx => List.mem_reverse.1 hx
  have hs' : m.chart.ParentClosed (m.opened l r).state.configuration := hs
  apply Run.Comes.tip_of_exit ht hs' ?_ ?_ ?_ h
  · exact List.pairwise_reverse.2
      (m.exitSetOf r.state.configuration r.state.history l).sorted
  · exact fun x hx => exitSetOf_subset ht (hmem x hx)
  · intro n hn x hx hxn
    exact List.mem_reverse.2 (mem_exitSetOf_of_below ht hx hxn (hmem n hn))

lemma parentClosed_staying : m.chart.ParentClosed (m.staying r.state l) := by
  intro x hx p hp
  simp only [staying, SortedSet.mem_filter, decide_eq_true_eq] at hx ⊢
  refine ⟨hs x hx.1 p hp, fun hexit => hx.2 ?_⟩
  exact mem_exitSetOf_of_below ht hx.1 (Chart.below_parent ht hp) hexit

end

lemma recalls_of_regular (hh : ∀ n, (m.node n).isHistory = false) (memory : Memory) :
    m.chart.Recalls memory :=
  fun n _ hn _ => absurd hn (by simp [show (m.chart.node n).isHistory = false from hh n])

lemma domain?_of_regular (hh : ∀ n, (m.node n).isHistory = false) (memory memory' : Memory)
    (ref : TransitionRef) : m.domain? memory ref = m.domain? memory' ref := by
  apply domain?_of_targetsOf_eq
  rw [targetsOf_of_regular fun t _ => hh t, targetsOf_of_regular fun t _ => hh t]

section

variable (hm : m.WellFormed) (hh : ∀ n, (m.node n).isHistory = false)
  (hs : m.chart.ParentClosed r.state.configuration)
  (hc : m.Compatible r.state.configuration r.state.history l)

include hm hh hs hc

lemma parent_of_entering {p : NodeId} (hx : x ∈ m.entering r.state l)
    (hp : (m.chart.node x).parent? = some p) :
    p ∈ m.staying r.state l ∨ p ∈ m.entering r.state l := by
  obtain ⟨hadds, _⟩ := entrySet_adds hm (recalls_of_regular hh (m.historyAfter r.state l))
    fun ref href => hc.isTransition href
  rcases hadds.new x hx with hx | ⟨_, hx⟩
  · exact absurd hx (SortedSet.not_mem_empty x)
  rcases hx.parent p hp with hp | ⟨ref, href, d, hd, hp⟩
  · exact .inr hp
  · rw [domain?_of_regular hh _ r.state.history] at hd
    have hstays := hc.stays_of_within hm hs href hd hp
    exact .inl (SortedSet.mem_filter.2 ⟨hstays.1, decide_eq_true hstays.2⟩)

lemma EntersAt.tip (h : m.EntersAt l event r n r') :
    m.chart.Tip (r'.state.configuration.insert n) n := by
  have ht := hm.chart.toIsTree
  obtain ⟨hn, r₁, r₂, h₁, h₂, hcomes⟩ := h
  have hconf : r₂.state.configuration = m.staying r.state l := configuration_staying h₁ h₂
  apply Run.Comes.tip_of_entry ht ?_ ?_ ?_ hn hcomes
  · rw [hconf]
    exact parentClosed_staying ht hs
  · exact (m.entrySet (m.historyAfter r.state l) l).sorted
  · rw [hconf]
    exact fun x hx p => parent_of_entering hm hh hs hc hx

lemma parentClosed_microstep (h : m.microstep l event r = .ok r') :
    m.chart.ParentClosed r'.state.configuration := by
  obtain ⟨_, hmem⟩ := microstep_mem h
  have hmem' : ∀ x, x ∈ r'.state.configuration ↔
      x ∈ m.staying r.state l ∨ x ∈ m.entering r.state l := by
    intro x
    rw [hmem, staying, SortedSet.mem_filter, decide_eq_true_eq]
    rfl
  intro x hx p hp
  rw [hmem']
  rcases (hmem' x).1 hx with hx | hx
  · exact .inl (parentClosed_staying hm.chart.toIsTree hs x hx p hp)
  · exact parent_of_entering hm hh hs hc hx hp

lemma nested_microstep {before : Configuration} (h : m.microstep l event r = .ok r')
    (hd : Difference before r.state.configuration r.lifecycle)
    (hn : Nested m.chart before r.lifecycle) : Nested m.chart before r'.lifecycle := by
  have ht := hm.chart.toIsTree
  suffices Difference before r'.state.configuration r'.lifecycle ∧
    Nested m.chart before r'.lifecycle from this.2
  apply microstep_keeps (P := fun s log => Difference before s log ∧ Nested m.chart before log) h
    ⟨hd, hn⟩
  · rintro n r₁ hexits ⟨hd, hn⟩
    exact ⟨hd.exit hexits.active, hn.exit hd (hexits.tip ht hs)⟩
  · rintro n r₁ henters ⟨hd, hn⟩
    exact ⟨hd.enter henters.1, hn.enter hd (henters.tip hm hh hs hc)⟩

end

inductive Undertakes (m : Machine C) (s : MachineState C) (event : Event) :
    Event → List TransitionRef → Run C → Prop
  | first {l : List TransitionRef} (hl : m.select s event false = .ok l) (hne : l ≠ []) :
      m.Undertakes s event event l (.start s)
  | next {current later : Event} {l l' : List TransitionRef} {r r' : Run C} {queue : List Event}
      (hu : m.Undertakes s event current l r) (h : m.microstep l current r = .ok r')
      (hd : m.isDone r'.state.configuration = false)
      (hl : m.nextEnabled r'.state current r'.internal = .ok (some (later, l', queue))) :
      m.Undertakes s event later l' { r' with internal := queue }

lemma exists_undertakes {limit : Nat} {step : Step C} (h : m.stepWithin s event limit = .ok step) :
    (step.state = s ∧ step.lifecycle = []) ∨
      ∃ current l r r', m.Undertakes s event current l r ∧ m.microstep l current r = .ok r' ∧
        step.state = r'.state ∧ step.lifecycle = r'.lifecycle := by
  rcases stepWithin_cases h with rfl | ⟨left, l, r, r', rfl, hl, hne, hr, hr', rfl⟩
  · exact .inl ⟨rfl, rfl⟩
  obtain ⟨current, r₂, ⟨l, r₁, hu, hr₂⟩, hr'⟩ := settle_invariant
    (Q := fun current r' => ∃ l r, m.Undertakes s event current l r ∧
      m.microstep l current r = .ok r')
    (fun current r' later l' queue r'' ⟨l, r, hu, h⟩ hd hl h' =>
      ⟨l', { r' with internal := queue }, .next hu h hd hl, h'⟩) ⟨l, _, .first hl hne, hr⟩ hr'
  refine .inr ⟨current, l, r₁, r₂, hu, hr₂, ?_⟩
  rcases hr' with rfl | rfl <;> exact ⟨rfl, rfl⟩

structure Hierarchical (m : Machine C) (before : Configuration) (l : List TransitionRef)
    (r : Run C) : Prop where
  closed : m.chart.ParentClosed r.state.configuration
  compatible : m.Compatible r.state.configuration r.state.history l
  difference : Difference before r.state.configuration r.lifecycle
  nested : Nested m.chart before r.lifecycle

lemma Undertakes.hierarchical (hm : m.WellFormed) (hh : ∀ n, (m.node n).isHistory = false)
    (hs : m.chart.ParentClosed s.configuration) (h : m.Undertakes s event current l r) :
    m.Hierarchical s.configuration l r := by
  induction h with
  | first hl _ => exact ⟨hs, compatible_of_select hl, .refl _, .nil _ _⟩
  | next hu h _ hl ih =>
    obtain ⟨hclosed, hc, hd, hn⟩ := ih
    have hclosed' := parentClosed_microstep hm hh hclosed hc h
    have hd' := difference_microstep h hd
    have hn' := nested_microstep hm hh hclosed hc h hd hn
    exact ⟨hclosed', nextEnabled_compatible hl, hd', hn'⟩

section

variable [JsonCoded C] {d : Definition} {b : Behaviors C} {context : Option C}

/-- Without history states and from a configuration with all parents, each exit action runs when
nothing below its state is active any more and all above it still is, and each entry action when
all above its state is active and nothing below it yet. On the record of the step states are exited
innermost first and entered outermost first. -/
theorem hierarchy_respected (h : build d b context = .ok m)
    (hh : ∀ n, (m.node n).isHistory = false) (hs : m.chart.ParentClosed s.configuration)
    (event : Event) :
    (∀ current l r, m.Undertakes s event current l r → ∀ n a r',
      (m.ExitActs l current r n a r' → m.chart.Tip r'.state.configuration n) ∧
      (m.EntryActs l current r n a r' → m.chart.Tip r'.state.configuration n)) ∧
    ∀ limit step, m.stepWithin s event limit = .ok step →
      (step.exited.Pairwise fun a n => ¬ m.chart.Below n a) ∧
        step.entered.Pairwise fun n a => ¬ m.chart.Below n a := by
  have hm := wellFormed_of_build h
  have ht := hm.chart.toIsTree
  refine ⟨fun current l r hu n a r' => ⟨?_, ?_⟩, fun limit step hstep => ?_⟩
  · rintro ⟨r₁, hexits, before, _, _, hr'⟩
    rw [(Run.runActions_unmoved hr').configuration]
    exact hexits.tip ht (hu.hierarchical hm hh hs).closed
  · rintro ⟨r₁, henters, before, _, _, hr'⟩
    obtain ⟨hclosed, hc, _, _⟩ := hu.hierarchical hm hh hs
    rw [(Run.runActions_unmoved hr').configuration]
    exact henters.tip hm hh hclosed hc
  · have hn : Nested m.chart s.configuration step.lifecycle := by
      rcases exists_undertakes hstep with ⟨_, hlog⟩ | ⟨current, l, r, r', hu, hr', _, hlog⟩
      · exact hlog ▸ .nil _ _
      · obtain ⟨hclosed, hc, hd, hn⟩ := hu.hierarchical hm hh hs
        exact hlog ▸ nested_microstep hm hh hclosed hc hr' hd hn
    exact ⟨hn.exited_pairwise, hn.entered_pairwise⟩

theorem blinking_hierarchy :
    ∃ start l a r step, blinkingMachine.initialStepFrom () 0 = .ok start ∧
      blinkingMachine.chart.ParentClosed start.state.configuration ∧
      blinkingMachine.Undertakes start.state (.ofType "BLINK") (.ofType "BLINK") l
        (.start start.state) ∧
      blinkingMachine.ExitActs l (.ofType "BLINK") (.start start.state) 2 a r ∧
      blinkingMachine.chart.Tip r.state.configuration 2 ∧
      blinkingMachine.stepWithin start.state (.ofType "BLINK") 2 = .ok step ∧
      step.exited = [2, 1] ∧ step.entered = [1, 2] ∧
      step.exited.Pairwise (fun a n => ¬ blinkingMachine.chart.Below n a) ∧
      step.entered.Pairwise fun n a => ¬ blinkingMachine.chart.Below n a := by
  have hrun : ((blinkingMachine.initialStepFrom () 0).bind fun start =>
      (blinkingMachine.select start.state (.ofType "BLINK") false).bind fun l =>
        (blinkingMachine.stepWithin start.state (.ofType "BLINK") 2).map fun step =>
          (decide (blinkingMachine.chart.ParentClosed start.state.configuration), l.length,
            blinkingMachine.exiting start.state l, step.exited, step.entered)).toOption =
      some (true, 1, [2, 1], [2, 1], [1, 2]) := by
    decide +kernel
  obtain ⟨start, hstart, hrun⟩ := bind_eq_ok (eq_ok_of_toOption hrun)
  obtain ⟨l, hl, hrun⟩ := bind_eq_ok hrun
  cases hstep : blinkingMachine.stepWithin start.state (.ofType "BLINK") 2 with
  | error e => exact absurd hrun (by simp [hstep, Except.map])
  | ok step =>
    simp only [hstep, Except.map, Except.ok.injEq, Prod.mk.injEq, decide_eq_true_eq] at hrun
    obtain ⟨hclosed, hlength, hexiting, hexited, hentered⟩ := hrun
    have hregular : ∀ n, (blinkingMachine.node n).isHistory = false :=
      Chart.forall_node (P := fun _ node => node.isHistory = false) (by decide) fun _ => rfl
    obtain ⟨hmoments, hrecord⟩ :=
      hierarchy_respected build_blinking hregular hclosed (.ofType "BLINK")
    have hu : blinkingMachine.Undertakes start.state (.ofType "BLINK") (.ofType "BLINK") l
        (.start start.state) := .first hl (List.ne_nil_of_length_eq_add_one hlength)
    have hacts : blinkingMachine.ExitActs l (.ofType "BLINK") (.start start.state) 2
        ⟨"note", .send (.ofType "NOTE")⟩ (blinkingMachine.opened l (.start start.state)) :=
      ⟨_, ⟨[], [1], hexiting, rfl⟩, [], [], rfl, rfl⟩
    refine ⟨start, l, _, _, step, hstart, hclosed, hu, hacts, ?_, hstep, hexited, hentered, ?_⟩
    · exact (hmoments _ l _ hu 2 _ _).1 hacts
    · exact hrecord 2 step hstep

end

end Machine

end Statechart
