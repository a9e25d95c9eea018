import Mathlib.Tactic.Common
import Statechart.Proofs.Step.Targets

/-! The configuration a machine starts with. Where the initial child of a compound state is a
history state, starting depends on its default; building looks at neither. -/

namespace Statechart

namespace Chart

variable {c : Chart} {s : Configuration}

/-- History states that are initial children lead to something below their parents by default. -/
def Startable (c : Chart) : Prop :=
  ∀ n i, (c.node n).isCompound → (c.node n).initial = some i → (c.node i).isHistory →
    (c.node i).historyDefault ≠ [] ∧
      ∀ x ∈ (c.node i).historyDefault, (c.node x).isHistory = false ∧ c.Below x n

section

variable (hw : c.WellFormed)

include hw

lemma Startable.recallsAt (h : c.Startable) : c.Initials (c.RecallsAt .empty) := by
  intro n i hc hinit p hh hp
  obtain ⟨i', hi, hinit'⟩ := hw.initial n hc
  obtain rfl := Option.some.inj (hinit.symm.trans hinit')
  obtain rfl := Option.some.inj (((hw.mem_children i n).1 hi).symm.trans hp)
  exact h n i hc hinit hh

lemma Startable.regularChildren_ne_nil (h : c.Startable) {n : NodeId}
    (hc : (c.node n).isCompound) : c.regularChildren n ≠ [] := by
  obtain ⟨i, hi, hinit⟩ := hw.initial n hc
  cases hh : (c.node i).isHistory with
  | false => exact List.ne_nil_of_mem (mem_regularChildren.2 ⟨hi, hh⟩)
  | true =>
    obtain ⟨hne, hbelow⟩ := h n i hc hinit hh
    obtain ⟨x, hx⟩ := List.exists_mem_of_ne_nil _ hne
    obtain ⟨hreg, hb⟩ := hbelow x hx
    obtain ⟨child, hchild, rfl | hw'⟩ := exists_child hw.toIsTree hb
    · exact List.ne_nil_of_mem (mem_regularChildren.2 ⟨hchild, hreg⟩)
    · exact List.ne_nil_of_mem (mem_regularChildren.2 ⟨hchild, isHistory_eq_false_of_below hw hw'⟩)

lemma Startable.filled (h : c.Startable)
    (hparallel : ∀ n, (c.node n).isParallel → c.regularChildren n ≠ []) : c.Filled :=
  fun n hn => hn.elim (h.regularChildren_ne_nil hw) (hparallel n)

lemma Startable.legal (h : c.Startable) (hs : ∀ n, (c.node n).historyDefault.Pairwise c.Beside) :
    c.Full (c.enter .empty .empty rootId) ∧ c.Legal (c.enter .empty .empty rootId) := by
  have henters : c.EntersCoherently .empty (c.enter .empty) rootId :=
    enterWithin_coherently hw (fun n i hc hinit => ⟨h.recallsAt hw n i hc hinit, fun _ _ _ => hs i⟩)
      c.entryDepth hw.size_pos (recallsAt_regular hw.root_regular)
      (spreadAt_regular hw.root_regular) (c.entryCost_le rootId)
  have hfull := Enters.full hw henters.toEnters
  have hcoherent := henters.coherent .empty (coherent_empty c) fun e _ => admits_empty c e
  exact ⟨hfull, hfull.legal hw.toIsTree hcoherent.exclusive⟩

end

end Chart

namespace Machine

variable {C : Type} {m : Machine C}

lemma configuration_start {context : C} {r : Run C}
    (h : (Run.start ⟨.empty, context, .empty⟩).enterNodes m .init
      (m.chart.enter .empty .empty rootId).elems = .ok r) :
    r.state.configuration = m.chart.enter .empty .empty rootId :=
  enter_induction (P := fun conf _ => conf = m.chart.enter .empty .empty rootId) rfl h

section

variable [JsonCoded C] {d : Definition} {b : Behaviors C} {context : Option C}

/-- All machines whose initial history states lead below their parents start legally, and with an
active child of each state that is not atomic if no parallel state is without regions. -/
theorem legal_start_of_build (h : build d b context = .ok m) (hs : m.chart.Startable) :
    m.chart.Legal (m.chart.enter .empty .empty rootId) ∧
      (∀ value r, (Run.start ⟨.empty, value, .empty⟩).enterNodes m .init
        (m.chart.enter .empty .empty rootId).elems = .ok r →
          r.state.configuration = m.chart.enter .empty .empty rootId) ∧
      ((∀ n, (m.chart.node n).isParallel → m.chart.regularChildren n ≠ []) →
        ∀ n ∈ m.chart.enter .empty .empty rootId, (m.chart.node n).isAtomic = false →
          (∃ child ∈ (m.chart.node n).children, child ∈ m.chart.enter .empty .empty rootId) ∧
            ∃ x ∈ m.chart.enter .empty .empty rootId,
              (m.chart.node x).isAtomic ∧ m.chart.Within x n) := by
  have hw := (wellFormed_of_build h).chart
  obtain ⟨hfull, hlegal⟩ := hs.legal hw (spread_default h)
  refine ⟨hlegal, fun _ _ => configuration_start, fun hparallel n hn ha => ⟨?_, ?_⟩⟩
  · have hkind := (Chart.kind_cases (hfull.furnished n hn).regular).resolve_left (by simp [ha])
    exact hfull.grounded.exists_active_child hw (hfull.furnished n hn) hkind
      (hs.filled hw hparallel n hkind)
  · exact hfull.grounded.exists_atomic hw hn (fun a ha _ => hfull.furnished a ha)
      fun a _ => hs.filled hw hparallel a

def resuming : Definition := .ofRoot
  { initial := some "work"
    states := [
      ("work", {
        initial := some "last"
        states := [
          ("last", { history := some (.kind .deep), target := some "both" }),
          ("idle", {}),
          ("both", {
            type := some .parallel
            states := [
              ("left", { initial := some "x", states := [("x", {}), ("y", {})] }),
              ("right", {})] })] })] }

def resumingMachine : Machine Unit := assemble resuming () (link resuming {}).value

lemma build_resuming : build resuming {} (some ()) = .ok resumingMachine := rfl

lemma resuming_startable : resumingMachine.chart.Startable := by
  have hinitial := Chart.forall_node (c := resumingMachine.chart)
    (P := fun n node => node.isCompound → ∀ i ∈ node.initial,
      (resumingMachine.chart.node i).isHistory →
        (resumingMachine.chart.node i).historyDefault ≠ [] ∧
          ∀ x ∈ (resumingMachine.chart.node i).historyDefault,
            (resumingMachine.chart.node x).isHistory = false ∧ resumingMachine.chart.Below x n)
    (by decide) fun _ h => absurd h (by decide)
  exact fun n i hc hi => hinitial n hc i hi

theorem resuming_starts :
    (resumingMachine.chart.enter .empty .empty rootId).elems = [0, 1, 4, 5, 6, 8] ∧
      resumingMachine.chart.Legal (resumingMachine.chart.enter .empty .empty rootId) ∧
      ∃ x ∈ resumingMachine.chart.enter .empty .empty rootId,
        (resumingMachine.chart.node x).isAtomic ∧ resumingMachine.chart.Within x 4 := by
  obtain ⟨hlegal, _, hactive⟩ := legal_start_of_build build_resuming resuming_startable
  have hparallel := Chart.forall_node (c := resumingMachine.chart)
    (P := fun n node => node.isParallel → resumingMachine.chart.regularChildren n ≠ [])
    (by decide) fun _ h => absurd h (by decide)
  have helems : (resumingMachine.chart.enter .empty .empty rootId).elems = [0, 1, 4, 5, 6, 8] := by
    decide +kernel
  have hmem := SortedSet.mem_elems (s := resumingMachine.chart.enter .empty .empty rootId) (a := 4)
  rw [helems] at hmem
  exact ⟨helems, hlegal, (hactive hparallel 4 (hmem.1 (by decide)) (by decide)).2⟩

def hollow : Definition := .ofRoot
  { initial := some "last"
    states := [("last", { history := some (.kind .shallow) })] }

def hollowMachine : Machine Unit := assemble hollow () (link hollow {}).value

lemma build_hollow : build hollow {} (some ()) = .ok hollowMachine := rfl

theorem hollow_start :
    ¬ ∀ (d : Definition) (b : Behaviors Unit) (context : Option Unit) (m : Machine Unit),
      build d b context = .ok m →
        (∀ n, ∀ x ∈ (m.chart.node n).historyDefault, (m.chart.node x).isHistory = false) →
          m.chart.Legal (m.chart.enter .empty .empty rootId) := by
  intro h
  have hregular := Chart.forall_node (c := hollowMachine.chart)
    (P := fun _ node => ∀ x ∈ node.historyDefault, (hollowMachine.chart.node x).isHistory = false)
    (by decide) fun _ _ hx => absurd hx List.not_mem_nil
  have hlegal := h hollow {} (some ()) hollowMachine build_hollow hregular
  obtain ⟨child, ⟨hchild, hmem⟩, _⟩ := hlegal.compound rootId hlegal.root (by decide)
  have helems : (hollowMachine.chart.enter .empty .empty rootId).elems = [0] := by decide +kernel
  rw [← SortedSet.mem_elems, helems, List.mem_singleton] at hmem
  rw [hmem] at hchild
  exact absurd hchild (by decide)

end

end Machine

end Statechart
