import Mathlib.Tactic.Common
import Statechart.Proofs.Step.Moves
import Statechart.Step.Settle

/-! Leaving all active states at once. What is left to be carried out then are the exit actions of
these states, those of the innermost state first, and all assignments among them have been made. -/

namespace Statechart

variable {C : Type} {m : Machine C}

def Action.isLeft : Action C → Bool
  | .assign _ | .raise _ => false
  | _ => true

def assigned (context : C) (l : List (Pending C)) : C :=
  l.foldl (fun context p => (p.action.apply context p.event).1) context

lemma assigned_append (context : C) (l l' : List (Pending C)) :
    assigned context (l ++ l') = assigned (assigned context l) l' :=
  List.foldl_append

namespace Machine

def exitActionsOf (m : Machine C) (event : Event) (n : NodeId) : List (Pending C) :=
  (m.partsOf n).exit.map fun a => ⟨a.name, a.value, n, event⟩

def exitActions (m : Machine C) (s : Configuration) : List (Pending C) :=
  s.elems.reverse.flatMap (m.exitActionsOf .stop)

end Machine

namespace Run

variable {n : NodeId} {event : Event} {r r' : Run C}

lemma runAction_leaves {a : Named (Action C)} (h : runAction m n event r a = .ok r') :
    r'.state.context = (a.value.apply r.state.context event).1 ∧
      r'.pending = r.pending ++
        [(⟨a.name, a.value, n, event⟩ : Pending C)].filter (·.action.isLeft) := by
  rw [runAction] at h
  cases ha : a.value with
  | assign run =>
    simp only [ha] at h
    split at h <;> rename_i hrun
    · obtain rfl := Except.ok.inj h
      exact ⟨(congrArg Prod.fst hrun).symm, (List.append_nil _).symm⟩
    · exact absurd h (by simp)
  | raise raised =>
    simp only [ha] at h
    obtain rfl := Except.ok.inj h
    exact ⟨rfl, (List.append_nil _).symm⟩
  | effect run =>
    simp only [ha] at h
    obtain rfl := Except.ok.inj h
    exact ⟨rfl, rfl⟩
  | send sent =>
    simp only [ha] at h
    obtain rfl := Except.ok.inj h
    exact ⟨rfl, rfl⟩
  | log line =>
    simp only [ha] at h
    obtain rfl := Except.ok.inj h
    exact ⟨rfl, rfl⟩

lemma runActions_leaves {l : List (Named (Action C))} (h : r.runActions m n event l = .ok r') :
    let actions : List (Pending C) := l.map fun a => ⟨a.name, a.value, n, event⟩
    r'.state.context = assigned r.state.context actions ∧
      r'.pending = r.pending ++ actions.filter (·.action.isLeft) := by
  induction l generalizing r with
  | nil =>
    obtain rfl := foldlM_nil_eq_ok h
    exact ⟨rfl, (List.append_nil _).symm⟩
  | cons a l ih =>
    obtain ⟨r₁, h₁, h⟩ := foldlM_cons_eq_ok h
    obtain ⟨hcontext, hpending⟩ := runAction_leaves h₁
    obtain ⟨hcontext', hpending'⟩ := ih h
    rw [hcontext] at hcontext'
    rw [hpending, List.append_assoc, ← List.filter_append] at hpending'
    exact ⟨hcontext', hpending'⟩

lemma exitNodes_leaves {l : List NodeId} (h : r.exitNodes m event l = .ok r') :
    r'.state.context = assigned r.state.context (l.flatMap (m.exitActionsOf event)) ∧
      r'.pending =
        r.pending ++ (l.flatMap (m.exitActionsOf event)).filter (·.action.isLeft) := by
  induction l generalizing r with
  | nil =>
    obtain rfl := foldlM_nil_eq_ok h
    exact ⟨rfl, (List.append_nil _).symm⟩
  | cons n l ih =>
    obtain ⟨r₁, h₁, h⟩ := foldlM_cons_eq_ok h
    obtain ⟨r₂, h₂, h₁⟩ := bind_eq_ok h₁
    obtain rfl := Except.ok.inj h₁
    obtain ⟨hcontext, hpending⟩ := runActions_leaves h₂
    obtain ⟨hcontext', hpending'⟩ := ih h
    rw [List.flatMap_cons, assigned_append, List.filter_append, ← List.append_assoc]
    exact ⟨hcontext'.trans (congrArg (assigned · _) hcontext),
      hpending'.trans (congrArg (· ++ _) hpending)⟩

end Run

lemma Machine.exitAll_eq_ok {s : MachineState C} {step : Step C} (h : m.exitAll s = .ok step) :
    step.state.context = assigned s.context (m.exitActions s.configuration) ∧
      step.actions = (m.exitActions s.configuration).filter (·.action.isLeft) := by
  obtain ⟨r, hr, h⟩ := bind_eq_ok h
  obtain rfl := Except.ok.inj h
  exact Run.exitNodes_leaves hr

end Statechart
