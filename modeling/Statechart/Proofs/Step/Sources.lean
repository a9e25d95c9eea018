import Mathlib.Tactic.Common
import Statechart.Proofs.Step.Run

/-! Where the parts of a step come from. The actions that a step leaves are declared in the machine,
and its output is the data of a final child of the root. -/

namespace Statechart

variable {C : Type}

def Parts.actions (p : Parts C) : List (Action C) :=
  (p.entry ++ p.exit ++ p.transitions.flatMap Transition.actions).map Named.value

def Parts.Yields (p : Parts C) (data : Value) : Prop :=
  match p.doneData with
  | none => data = .null
  | some mapper => ∃ context event, mapper context event = .ok data

namespace Machine

def Declares (m : Machine C) (a : Action C) : Prop := ∃ n, a ∈ (m.partsOf n).actions

def Grants (m : Machine C) (data : Value) : Prop :=
  ∃ n, (m.node n).isFinal ∧ (m.node n).parent? = some rootId ∧ (m.partsOf n).Yields data

variable {m : Machine C} {n : NodeId} {a : Named (Action C)}

lemma declares_of_mem_entry (h : a ∈ (m.partsOf n).entry) : m.Declares a.value :=
  ⟨n, List.mem_map_of_mem (List.mem_append_left _ (List.mem_append_left _ h))⟩

lemma declares_of_mem_exit (h : a ∈ (m.partsOf n).exit) : m.Declares a.value :=
  ⟨n, List.mem_map_of_mem (List.mem_append_left _ (List.mem_append_right _ h))⟩

lemma declares_of_mem_transitionAt {ref : TransitionRef} (h : a ∈ (m.transitionAt ref).actions) :
    m.Declares a.value := by
  have ht : m.transitionAt ref ∈ (m.partsOf ref.node).transitions := by
    rw [transitionAt, List.getD_eq_getElem?_getD] at h ⊢
    cases hget : (m.partsOf ref.node).transitions[ref.index]? with
    | none =>
      rw [hget] at h
      exact absurd h List.not_mem_nil
    | some t => exact List.mem_of_getElem? hget
  exact ⟨ref.node, List.mem_map_of_mem (List.mem_append_right _ (List.mem_flatMap.2 ⟨_, ht, h⟩))⟩

end Machine

namespace Run

variable {m : Machine C} {event : Event} {r r' : Run C} {n : NodeId}

structure DrawnFrom (m : Machine C) (r : Run C) : Prop where
  pending : ∀ p ∈ r.pending, m.Declares p.action
  output : ∀ v ∈ r.output, m.Grants v

lemma drawnFrom_start (s : MachineState C) : DrawnFrom m (start s) :=
  ⟨fun _ hp => absurd hp List.not_mem_nil, fun _ hv => absurd hv (Option.not_mem_none _)⟩

lemma DrawnFrom.of_eq (h : DrawnFrom m r) (hp : r'.pending = r.pending)
    (ho : r'.output = r.output) : DrawnFrom m r' :=
  ⟨hp ▸ h.pending, ho ▸ h.output⟩

lemma DrawnFrom.foldlM {α : Type} {f : Run C → α → Except StepError (Run C)} {l : List α}
    (hf : ∀ a ∈ l, ∀ r r', DrawnFrom m r → f r a = .ok r' → DrawnFrom m r')
    (hr : DrawnFrom m r) (h : l.foldlM f r = .ok r') : DrawnFrom m r' :=
  foldlM_keeps h hr fun a r₁ r₂ hcomes => hf a hcomes.mem r₁ r₂

lemma DrawnFrom.runAction {a : Named (Action C)} (ha : m.Declares a.value) (hr : DrawnFrom m r)
    (h : runAction m n event r a = .ok r') : DrawnFrom m r' := by
  rw [Run.runAction] at h
  split at h
  · split at h
    · obtain rfl := Except.ok.inj h
      exact hr.of_eq rfl rfl
    · exact absurd h (by simp)
  · obtain rfl := Except.ok.inj h
    exact hr.of_eq rfl rfl
  · obtain rfl := Except.ok.inj h
    refine ⟨fun p hp => ?_, hr.output⟩
    rcases List.mem_append.1 hp with hp | hp
    · exact hr.pending p hp
    · rw [List.mem_singleton.1 hp]
      exact ha

lemma DrawnFrom.runActions {l : List (Named (Action C))} (hl : ∀ a ∈ l, m.Declares a.value)
    (hr : DrawnFrom m r) (h : r.runActions m n event l = .ok r') : DrawnFrom m r' :=
  hr.foldlM (fun a ha _ _ hr h => hr.runAction (hl a ha) h) h

lemma DrawnFrom.exitNode (hr : DrawnFrom m r) (h : r.exitNode m event n = .ok r') :
    DrawnFrom m r' := by
  obtain ⟨r₁, h₁, h⟩ := bind_eq_ok h
  obtain rfl := Except.ok.inj h
  exact (hr.runActions (fun _ => Machine.declares_of_mem_exit) h₁).of_eq rfl rfl

lemma DrawnFrom.complete (hf : (m.node n).isFinal) (hr : DrawnFrom m r)
    (h : r.complete m event n = .ok r') : DrawnFrom m r' := by
  have hgiven : ∀ {parent data} {around : List Event}, (m.node n).parent? = some parent →
      (m.partsOf n).Yields data → DrawnFrom m { r with
        output := if parent = rootId then some data else r.output
        internal := around } := by
    intro parent data around hparent hdata
    refine ⟨hr.pending, fun v hv => ?_⟩
    dsimp only at hv
    split at hv
    · rename_i hroot
      obtain rfl := Option.some.inj hv
      exact ⟨n, hf, hroot ▸ hparent, hdata⟩
    · exact hr.output v hv
  rw [Run.complete] at h
  split at h
  · exact Except.ok.inj h ▸ hr
  · rename_i parent hparent
    dsimp only at h
    split at h
    · rename_i hnone
      obtain rfl := Except.ok.inj h
      exact hgiven hparent (by simp only [Parts.Yields, hnone])
    · rename_i mapper hmapper
      split at h
      · rename_i data hdata
        obtain rfl := Except.ok.inj h
        refine hgiven hparent ?_
        simp only [Parts.Yields, hmapper]
        exact ⟨_, _, hdata⟩
      · exact absurd h (by simp [bind, Except.bind])

lemma DrawnFrom.enterNode (hr : DrawnFrom m r) (h : r.enterNode m event n = .ok r') :
    DrawnFrom m r' := by
  rw [Run.enterNode] at h
  split at h
  · exact Except.ok.inj h ▸ hr
  · obtain ⟨r₁, h₁, h⟩ := bind_eq_ok h
    have hr₁ : DrawnFrom m r₁ := by
      refine .runActions (fun _ => Machine.declares_of_mem_entry) ?_ h₁
      exact hr.of_eq rfl rfl
    split at h
    · rename_i hf
      exact hr₁.complete hf h
    · exact Except.ok.inj h ▸ hr₁

lemma DrawnFrom.enterNodes {l : List NodeId} (hr : DrawnFrom m r)
    (h : r.enterNodes m event l = .ok r') : DrawnFrom m r' :=
  hr.foldlM (fun _ _ _ _ hr h => hr.enterNode h) h

lemma DrawnFrom.microstep {l : List TransitionRef} (hr : DrawnFrom m r)
    (h : m.microstep l event r = .ok r') : DrawnFrom m r' := by
  obtain ⟨r₁, h₁, h⟩ := bind_eq_ok h
  obtain ⟨r₂, h₂, h⟩ := bind_eq_ok h
  have hr₁ : DrawnFrom m r₁ := by
    refine .foldlM (fun _ _ _ _ hr h => hr.exitNode h) ?_ h₁
    exact hr.of_eq rfl rfl
  have hr₂ : DrawnFrom m r₂ := hr₁.foldlM (fun _ _ _ _ hr h =>
    hr.runActions (fun _ => Machine.declares_of_mem_transitionAt) h) h₂
  exact hr₂.enterNodes h

lemma DrawnFrom.settle {limit left : Nat} (hr : DrawnFrom m r)
    (h : m.settle limit left event r = .ok r') : DrawnFrom m r' := by
  have hstep : ∀ {event l queue r r'}, DrawnFrom m r →
      m.microstep l event { r with internal := queue } = .ok r' → DrawnFrom m r' := by
    intro event l queue r r' hr h
    have hr' : DrawnFrom m { r with internal := queue } := hr.of_eq rfl rfl
    exact hr'.microstep h
  obtain ⟨_, r₁, hr₁, rfl | rfl⟩ := Machine.settle_invariant (Q := fun _ => DrawnFrom m)
    (fun _ _ _ _ _ _ hr _ _ h => hstep hr h) hr h
  · exact hr₁
  · exact hr₁.of_eq rfl rfl

end Run

namespace Machine

variable {m : Machine C} {s : MachineState C} {context : C} {event : Event} {limit : Nat}
  {step : Step C}

structure Sources (m : Machine C) (step : Step C) : Prop where
  actions : ∀ p ∈ step.actions, m.Declares p.action
  output : ∀ v ∈ step.output, m.isDone step.state.configuration = true ∧ m.Grants v

lemma sources_finish {changed : Bool} {r : Run C} (hr : r.DrawnFrom m) :
    m.Sources (m.finish event changed r) := by
  refine ⟨hr.pending, fun v hv => ?_⟩
  rw [finish] at hv ⊢
  dsimp only at hv ⊢
  split at hv
  · rename_i hdone
    exact ⟨hdone, hr.output v hv⟩
  · exact absurd hv (Option.not_mem_none _)

lemma sources_initialStepFrom (h : m.initialStepFrom context limit = .ok step) :
    m.Sources step := by
  obtain ⟨r, r', hr, hr', rfl⟩ := initialStepFrom_cases h
  exact sources_finish (((Run.drawnFrom_start _).enterNodes hr).settle hr')

lemma sources_stepWithin (h : m.stepWithin s event limit = .ok step) : m.Sources step := by
  rcases stepWithin_cases h with rfl | ⟨_, _, r, r', _, _, _, hr, hr', rfl⟩
  · exact sources_finish (Run.drawnFrom_start s)
  · exact sources_finish (((Run.drawnFrom_start s).microstep hr).settle hr')

end Machine

end Statechart
