import Mathlib.Tactic.Common
import Statechart.Proofs.Configuration.Nesting
import Statechart.Proofs.Step.Loopless

/-! Microsteps that end. Replacing the history states among the targets and entering what the
targets call for end separately; where they end, what a microstep enters is what is entered then. -/

namespace Statechart.Machine

open Chart (Piece)

variable {C : Type} {m : Machine C} {s : MachineState C} {memory : Memory} {k : Nat}
  {entered : Configuration}

def piecesOf (m : Machine C) (memory : Memory) (r : TransitionRef) : List Piece :=
  (m.transitionAt r).targets.map .enter ++
    (m.targetsOf memory r).flatMap fun t => m.chart.ancestorPieces t (m.domain? memory r)

def entrySet? (m : Machine C) (memory : Memory) (depth : Nat) (l : List TransitionRef) :
    Option Configuration :=
  (l.flatMap (m.piecesOf memory)).foldlM
    (Piece.run? m.chart (m.chart.enterWithin? memory depth)) .empty

def Expands (m : Machine C) (memory : Memory) : Prop :=
  ∀ r, ∀ t ∈ (m.transitionAt r).targets, m.chart.Expands memory t

structure Ends (m : Machine C) (s : MachineState C) (l : List TransitionRef) : Prop where
  selects : m.Expands s.history
  expands : m.Expands (m.historyAfter s l)
  enters : ∃ depth, (m.entrySet? (m.historyAfter s l) depth l).isSome

structure Uncut (m : Machine C) (s : MachineState C) (l : List TransitionRef) : Prop where
  expands : ∀ memory ∈ [s.history, m.historyAfter s l], ∀ r, ∀ t ∈ (m.transitionAt r).targets,
    m.chart.expandWithin? memory m.chart.entryDepth t =
      some (m.chart.expandWithin memory m.chart.entryDepth t)
  enters : m.entrySet? (m.historyAfter s l) m.chart.entryDepth l =
    some (m.entrySet (m.historyAfter s l) l)

lemma entrySet_eq (memory : Memory) (l : List TransitionRef) : m.entrySet memory l =
    (l.flatMap (m.piecesOf memory)).foldl (Piece.run m.chart (m.chart.enter memory)) .empty := by
  rw [entrySet, List.foldl_flatMap]
  refine List.foldl_ext _ _ _ fun entered r _ => ?_
  rw [piecesOf, List.foldl_append, List.foldl_map, List.foldl_flatMap]
  exact List.foldl_ext _ _ _ fun entered t _ => Chart.foldl_ancestorPieces.symm

section

variable {l : List TransitionRef}

lemma Ends.of_unlooped (hw : m.chart.WellFormed) (hu : m.chart.Unlooped s.history)
    (hu' : m.chart.Unlooped (m.historyAfter s l)) : m.Ends s l := by
  refine ⟨fun _ t _ => hu.expands hw t, fun _ t _ => hu'.expands hw t, m.chart.entryDepth, ?_⟩
  refine Chart.isSome_foldlM (fun p _ entered => Piece.isSome_run? ?_) .empty
  rw [hu'.enterWithin? hw]
  rfl

lemma ends_of_loopless (hw : m.chart.WellFormed) (hl : m.chart.Loopless) (hs : m.Meets s)
    (l : List TransitionRef) : m.Ends s l := by
  obtain ⟨hu, hu'⟩ := unlooped_of_loopless hw hl hs l
  exact .of_unlooped hw hu hu'

lemma node_lt_of_mem_piecesOf (hm : m.WellFormed) {r : TransitionRef} {p : Piece}
    (hp : p ∈ m.piecesOf memory r) : p.node < m.chart.size := by
  rcases List.mem_append.1 hp with hp | hp
  · obtain ⟨t, ht, rfl⟩ := List.mem_map.1 hp
    exact target_lt hm (isTransition_of_targets (List.ne_nil_of_mem ht)) ht
  · obtain ⟨t, _, hp⟩ := List.mem_flatMap.1 hp
    exact Chart.node_lt_of_mem_ancestorPieces hm.chart hp

lemma Ends.uncut (hm : m.WellFormed) (hr : m.chart.InRange (m.historyAfter s l))
    (h : m.Ends s l) : m.Uncut s l := by
  obtain ⟨depth, hdepth⟩ := h.enters
  obtain ⟨entered, hentered⟩ := Option.isSome_iff_exists.1 hdepth
  have hcall : ∀ p ∈ l.flatMap (m.piecesOf (m.historyAfter s l)), ∀ s' s'',
      m.chart.enterWithin? (m.historyAfter s l) depth s' p.node = some s'' →
        m.chart.enterWithin? (m.historyAfter s l) m.chart.entryDepth s' p.node = some s'' ∧
          m.chart.enter (m.historyAfter s l) s' p.node = s'' := fun p hp _ _ h => by
    obtain ⟨r, _, hp⟩ := List.mem_flatMap.1 hp
    exact Chart.enterWithin?_entryDepth hm.chart hr (node_lt_of_mem_piecesOf hm hp) h
  refine ⟨fun memory hmem r t ht => ?_, ?_⟩
  · rcases List.mem_pair.1 hmem with rfl | rfl
    · exact (h.selects r t ht).expandWithin?
    · exact (h.expands r t ht).expandWithin?
  · rw [entrySet_eq, Chart.foldl_of_agrees (fun p hp _ _ =>
      Piece.run_of_agrees fun s' s'' h => (hcall p hp s' s'' h).2) hentered]
    exact Chart.foldlM_of_agrees (fun p hp _ _ =>
      Piece.run?_of_agrees fun s' s'' h => (hcall p hp s' s'' h).1) hentered

lemma Uncut.ends (h : m.Uncut s l) : m.Ends s l := by
  have hexpands : ∀ memory ∈ [s.history, m.historyAfter s l], m.Expands memory :=
    fun memory hmem r t ht =>
      ⟨m.chart.entryDepth, Option.isSome_of_eq_some (h.expands memory hmem r t ht)⟩
  exact ⟨hexpands _ List.mem_cons_self, hexpands _ (by simp), m.chart.entryDepth,
    Option.isSome_of_eq_some h.enters⟩

end

section

variable [JsonCoded C] {d : Definition} {b : Behaviors C} {context : Option C}
  (h : build d b context = .ok m)

include h

lemma historyDefault_lt {n x : NodeId} (hh : (m.node n).isHistory)
    (hx : x ∈ (m.node n).historyDefault) : x < m.chart.size := by
  have hw := (wellFormed_of_build h).chart
  have hn := Chart.lt_size_of_isHistory hh
  obtain ⟨p, hp⟩ := exists_placed h hn
  cases ht : p.body.target with
  | none =>
    obtain ⟨q, hq⟩ := Chart.exists_parent_of_isHistory hw hn hh
    have hregular := historyDefault_subset h hp ht hh hq x hx
    exact Chart.below_size (Chart.regularChild_below hw.toIsTree hregular)
  | some target =>
    obtain ⟨start, rfl, _, _⟩ := build_eq_ok h
    rw [node, node_assemble] at hh
    rw [node, historyDefault_assemble hp hh, ht] at hx
    rw [size_assemble] at hn ⊢
    have hfound : d.layout.resolveTarget? n target = some x := Option.mem_toList.1 hx
    exact Chart.resolveTarget?_size d.isTree_layout hn hfound

lemma inRange_of_keeps (hk : m.chart.Keeps memory) : m.chart.InRange memory := by
  have hw := (wellFormed_of_build h).chart
  intro n hh x hx
  rw [Chart.historyTargets] at hx
  cases hget : memory.get? n with
  | none =>
    rw [hget, Option.getD_none] at hx
    exact historyDefault_lt h hh hx
  | some refs =>
    obtain ⟨p, hp⟩ := Chart.exists_parent_of_isHistory hw (Chart.lt_size_of_isHistory hh) hh
    exact Chart.below_size (hk n p hh hp x (by simpa [hget] using hx)).2

end

end Statechart.Machine
