import Mathlib.Data.List.Duplicate
import Mathlib.Tactic.Common
import Statechart.Proofs.Machine.Places

/-! Problems of definitions. Every flaw of a definition is reported, whatever else is wrong with it,
and supplying more behaviours takes away the problems with just these names. -/

namespace Statechart

namespace Behaviors

variable {C : Type}

structure Extends (b' b : Behaviors C) : Prop where
  guards : ∀ name v, b.guards.get? name = some v → b'.guards.get? name = some v
  actions : ∀ name v, b.actions.get? name = some v → b'.actions.get? name = some v
  services : ∀ name v, b.services.get? name = some v → b'.services.get? name = some v
  activities : ∀ name v, b.activities.get? name = some v → b'.activities.get? name = some v
  delays : ∀ name v, b.delays.get? name = some v → b'.delays.get? name = some v
  data : ∀ name v, b.data.get? name = some v → b'.data.get? name = some v

end Behaviors

namespace Problem

variable {C : Type}

def isSupplied (b : Behaviors C) : Problem → Bool
  | .unknownGuard _ name => (b.guards.get? name).isSome
  | .unknownAction _ name => (b.actions.get? name).isSome
  | .unknownService _ name => (b.services.get? name).isSome
  | .unknownActivity _ name => (b.activities.get? name).isSome
  | .unknownDelay _ name => (b.delays.get? name).isSome
  | .unknownDataMapper _ name => (b.data.get? name).isSome
  | _ => false

def remaining (b : Behaviors C) (ps : List Problem) : List Problem :=
  ps.filter fun p => !p.isSupplied b

lemma remaining_append (b : Behaviors C) (ps qs : List Problem) :
    remaining b (ps ++ qs) = remaining b ps ++ remaining b qs :=
  List.filter_append ps qs

lemma remaining_flatMap {α : Type} (b : Behaviors C) (l : List α) (f : α → List Problem) :
    remaining b (l.flatMap f) = l.flatMap fun x => remaining b (f x) :=
  List.filter_flatMap

end Problem

def missing {α : Type} (find? : String → Option α) (unknown : String → Problem)
    (names : List String) : List Problem :=
  (names.filter fun name => (find? name).isNone).map unknown

section

variable {α β C : Type} {find? : String → Option α} {unknown : String → Problem}
  {names : List String} {p : Problem}

lemma mem_missing :
    p ∈ missing find? unknown names ↔ ∃ name ∈ names, find? name = none ∧ unknown name = p := by
  simp only [missing, List.mem_map, List.mem_filter, Option.isNone_iff_eq_none, and_assoc]

lemma missing_cons (find? : String → Option α) (unknown : String → Problem) (name : String)
    (names : List String) : missing find? unknown (name :: names) =
      missing find? unknown [name] ++ missing find? unknown names := by
  rw [missing, missing, missing, ← List.map_append, ← List.filter_append, List.singleton_append]

lemma missing_map {γ : Type} (f : String → α → γ) :
    missing (fun name => (find? name).map (f name)) unknown names =
      missing find? unknown names := by
  simp only [missing, Option.isNone_map]

lemma problems_require (name : String) :
    (Checked.require (find? name) (unknown name)).problems = missing find? unknown [name] := by
  cases h : find? name <;> simp [Checked.require, missing, h]

lemma isSome_of_extends {m m' : SortedMap String α}
    (h : ∀ name v, m.get? name = some v → m'.get? name = some v) (name : String)
    (hs : (m.get? name).isSome) : (m'.get? name).isSome := by
  obtain ⟨v, hv⟩ := Option.isSome_iff_exists.1 hs
  exact Option.isSome_iff_exists.2 ⟨v, h name v hv⟩

lemma remaining_missing {b : Behaviors C} {find'? : String → Option β}
    (h : ∀ name, (find? name).isSome → (find'? name).isSome)
    (hs : ∀ name, find? name = none → (unknown name).isSupplied b = (find'? name).isSome) :
    Problem.remaining b (missing find? unknown names) = missing find'? unknown names := by
  induction names with
  | nil => rfl
  | cons name names ih =>
    rw [missing_cons find?, missing_cons find'?, Problem.remaining_append, ih]
    congr 1
    cases hn : find? name with
    | none => cases hn' : find'? name <;> simp [missing, Problem.remaining, hn, hn', hs name hn]
    | some a =>
      obtain ⟨a', ha'⟩ := Option.isSome_iff_exists.1 (h name (by simp [hn]))
      simp [missing, Problem.remaining, hn, ha']

lemma remaining_unresolved {b : Behaviors C}
    (hs : ∀ name, (unknown name).isSupplied b = false) :
    Problem.remaining b (missing find? unknown names) = missing find? unknown names :=
  remaining_missing (fun _ h => h) fun name h => by simp [h, hs name]

end

def Recurs (used l : List String) (id : String) : Prop :=
  List.Duplicate id l ∨ id ∈ l ∧ id ∈ used

section

variable {used l l₁ l₂ : List String} {id x : String}

lemma recurs_nil_left : Recurs [] l id ↔ List.Duplicate id l := by
  simp [Recurs]

lemma recurs_cons : Recurs used (x :: l) id ↔ x ∈ used ∧ x = id ∨ Recurs (x :: used) l id := by
  simp only [Recurs, List.duplicate_cons_iff, List.mem_cons]
  grind

lemma recurs_append :
    Recurs used (l₁ ++ l₂) id ↔ Recurs used l₁ id ∨ Recurs (l₁ ++ used) l₂ id := by
  simp only [Recurs, List.duplicate_iff_two_le_count, ← List.count_pos_iff, List.count_append]
  omega

end

namespace Linker

variable {C : Type} {l l' : Linker C} {source : NodeId} {used : List String} {p : Problem}
  {b : StateBody}

lemma problems_lookUp {α : Type} (m : SortedMap String α) (unknown : String → Problem)
    (names : List String) : (lookUp m unknown names).problems = missing m.get? unknown names := by
  induction names with
  | nil => rfl
  | cons name names ih =>
    rw [missing_cons, ← ih, ← problems_require]
    simp only [lookUp, Checked.bind_problems, Checked.pure_problems, List.append_nil]

lemma problems_targets (state : String) (names : List String) :
    (l.targets source state names).problems =
      missing (l.chart.resolveTarget? source) (.unresolvedTarget state) names := by
  induction names with
  | nil => rfl
  | cons name names ih =>
    rw [missing_cons, ← ih, ← problems_require]
    simp only [targets, Checked.bind_problems, Checked.pure_problems, List.append_nil]

lemma problems_optional {α : Type} (find? : String → Option α) (unknown : String → Problem)
    (o : Option String) : (optional find? unknown o).problems = missing find? unknown o.toList := by
  cases o with
  | none => rfl
  | some name =>
    simp only [optional, Checked.bind_problems, Checked.pure_problems, List.append_nil,
      problems_require, Option.toList_some]

def flaws (l : Linker C) (source : NodeId) (t : TransitionDef) : List Problem :=
  let state := (l.chart.node source).id
  missing (l.chart.resolveTarget? source) (.unresolvedTarget state) t.target
    ++ missing l.behaviors.guards.get? (.unknownGuard state) t.guard.toList
    ++ missing l.chart.resolveIn? (.unresolvedInState state) t.inState.toList
    ++ missing l.behaviors.actions.get? (.unknownAction state) t.actions

lemma problems_transition (selector : Selector) (t : TransitionDef) :
    (l.transition source selector t).problems = l.flaws source t := by
  simp only [transition, Checked.bind_problems, Checked.pure_problems, List.append_nil,
    problems_targets, problems_optional, problems_lookUp, missing_map, flaws, List.append_assoc]

lemma problems_transitions (selector : Selector) (ts : List TransitionDef) :
    (l.transitions source selector ts).problems = ts.flatMap (l.flaws source) := by
  induction ts with
  | nil => rfl
  | cons t ts ih =>
    simp only [transitions, Checked.bind_problems, Checked.pure_problems, List.append_nil,
      problems_transition, ih, List.flatMap_cons]

lemma problems_onEvents (on : List (String × List TransitionDef)) :
    (l.onEvents source on).problems = (on.flatMap Prod.snd).flatMap (l.flaws source) := by
  induction on with
  | nil => rfl
  | cons e on ih =>
    simp only [onEvents, Checked.bind_problems, Checked.pure_problems, List.append_nil,
      problems_transitions, ih, List.flatMap_cons, List.flatMap_append]

lemma problems_afterDelays (after : List (String × List TransitionDef)) :
    (l.afterDelays source after).problems = after.flatMap fun e =>
      missing l.delaySource? (.unknownDelay (l.chart.node source).id) [e.1]
        ++ e.2.flatMap (l.flaws source) := by
  induction after with
  | nil => rfl
  | cons e after ih =>
    simp only [afterDelays, Checked.bind_problems, Checked.pure_problems, List.append_nil,
      problems_transitions, problems_require, ih, List.flatMap_cons, List.append_assoc]

def invocationFlaws (l : Linker C) (source : NodeId) (i : InvokeDef) : List Problem :=
  missing l.behaviors.services.get? (.unknownService (l.chart.node source).id) [i.src]
    ++ (i.onDone ++ i.onError).flatMap (l.flaws source)

lemma problems_invocations_cons (position : Nat) (i : InvokeDef) (is : List InvokeDef) :
    let id := invokeId (l.chart.node source).id position i
    (l.invocations source used position (i :: is)).problems =
      (if id ∈ used then [.duplicateId id] else []) ++ l.invocationFlaws source i
        ++ (l.invocations source (id :: used) (position + 1) is).problems := by
  simp only [invocations, Checked.bind_problems, Checked.pure_problems, List.append_nil,
    problems_transitions, problems_require, Checked.reportIf, decide_eq_true_eq,
    invocationFlaws, List.flatMap_append, List.append_assoc]

lemma problems_historyDefault (target : Option String) :
    (l.historyDefault source target).problems = missing (l.chart.resolveTarget? source)
      (.unresolvedTarget (l.chart.node source).id) target.toList := by
  cases target with
  | some target =>
    simp only [historyDefault, Checked.bind_problems, Checked.pure_problems, List.append_nil,
      problems_require, Option.toList_some]
  | none =>
    cases hp : (l.chart.node source).parent? with
    | none => simp [historyDefault, hp, missing]
    | some parent =>
      simp only [historyDefault, hp]
      repeat' split
      all_goals simp [missing]

lemma problems_state (b : StateBody) :
    let state := (l.chart.node source).id
    (l.state source used b).problems =
      (b.on.entries.flatMap Prod.snd ++ b.always).flatMap (l.flaws source)
        ++ (l.afterDelays source b.after.entries).problems
        ++ b.onDone.flatMap (l.flaws source)
        ++ (l.invocations source used 0 b.invoke).problems
        ++ missing l.behaviors.actions.get? (.unknownAction state) b.entry
        ++ missing l.behaviors.actions.get? (.unknownAction state) b.exit
        ++ missing l.behaviors.activities.get? (.unknownActivity state) b.activities
        ++ missing l.behaviors.data.get? (.unknownDataMapper state) b.data.toList
        ++ if (l.chart.node source).isHistory then missing (l.chart.resolveTarget? source)
          (.unresolvedTarget state) b.target.toList else [] := by
  simp only [state, Checked.bind_problems, problems_onEvents, problems_transitions,
    problems_lookUp, problems_optional, List.flatMap_append, List.append_assoc]
  split
  · simp only [Checked.bind_problems, Checked.pure_problems, List.append_nil,
      problems_historyDefault]
  · rfl

inductive Lacks (l : Linker C) (n : NodeId) (b : StateBody) : Problem → Prop where
  | target {t : TransitionDef} {address : String} :
      t ∈ b.allTransitions → address ∈ t.target → l.chart.resolveTarget? n address = none →
        Lacks l n b (.unresolvedTarget (l.chart.node n).id address)
  | inState {t : TransitionDef} {descriptor : String} :
      t ∈ b.allTransitions → t.inState = some descriptor → l.chart.resolveIn? descriptor = none →
        Lacks l n b (.unresolvedInState (l.chart.node n).id descriptor)
  | guard {t : TransitionDef} {name : String} :
      t ∈ b.allTransitions → t.guard = some name → l.behaviors.guards.get? name = none →
        Lacks l n b (.unknownGuard (l.chart.node n).id name)
  | transitionAction {t : TransitionDef} {name : String} :
      t ∈ b.allTransitions → name ∈ t.actions → l.behaviors.actions.get? name = none →
        Lacks l n b (.unknownAction (l.chart.node n).id name)
  | stateAction {name : String} :
      name ∈ b.entry ++ b.exit → l.behaviors.actions.get? name = none →
        Lacks l n b (.unknownAction (l.chart.node n).id name)
  | service {i : InvokeDef} :
      i ∈ b.invoke → l.behaviors.services.get? i.src = none →
        Lacks l n b (.unknownService (l.chart.node n).id i.src)
  | activity {name : String} :
      name ∈ b.activities → l.behaviors.activities.get? name = none →
        Lacks l n b (.unknownActivity (l.chart.node n).id name)
  | delay {key : String} :
      key ∈ b.after.keys → l.delaySource? key = none →
        Lacks l n b (.unknownDelay (l.chart.node n).id key)
  | dataMapper {name : String} :
      b.data = some name → l.behaviors.data.get? name = none →
        Lacks l n b (.unknownDataMapper (l.chart.node n).id name)
  | historyDefault {address : String} :
      (l.chart.node n).isHistory → b.target = some address →
        l.chart.resolveTarget? n address = none →
          Lacks l n b (.unresolvedTarget (l.chart.node n).id address)

lemma exists_mem_flatMap {α β : Type} {xs : List α} {f : α → List β} {P : β → Prop} :
    (∃ y ∈ xs.flatMap f, P y) ↔ ∃ x ∈ xs, ∃ y ∈ f x, P y := by
  simp only [List.mem_flatMap]
  grind

lemma mem_flaws {t : TransitionDef} : p ∈ l.flaws source t ↔
    (∃ x ∈ t.target, l.chart.resolveTarget? source x = none ∧
      .unresolvedTarget (l.chart.node source).id x = p) ∨
    (∃ x, t.guard = some x ∧ l.behaviors.guards.get? x = none ∧
      .unknownGuard (l.chart.node source).id x = p) ∨
    (∃ x, t.inState = some x ∧ l.chart.resolveIn? x = none ∧
      .unresolvedInState (l.chart.node source).id x = p) ∨
    ∃ x ∈ t.actions, l.behaviors.actions.get? x = none ∧
      .unknownAction (l.chart.node source).id x = p := by
  simp only [flaws, List.mem_append, mem_missing, Option.mem_toList, or_assoc]

lemma lacks_iff : l.Lacks source b p ↔
    (∃ t ∈ b.allTransitions, p ∈ l.flaws source t) ∨
    (∃ x ∈ b.after.keys, l.delaySource? x = none ∧
      .unknownDelay (l.chart.node source).id x = p) ∨
    (∃ i ∈ b.invoke, l.behaviors.services.get? i.src = none ∧
      .unknownService (l.chart.node source).id i.src = p) ∨
    (∃ x ∈ b.entry ++ b.exit, l.behaviors.actions.get? x = none ∧
      .unknownAction (l.chart.node source).id x = p) ∨
    (∃ x ∈ b.activities, l.behaviors.activities.get? x = none ∧
      .unknownActivity (l.chart.node source).id x = p) ∨
    (∃ x, b.data = some x ∧ l.behaviors.data.get? x = none ∧
      .unknownDataMapper (l.chart.node source).id x = p) ∨
    (l.chart.node source).isHistory ∧ ∃ x, b.target = some x ∧
      l.chart.resolveTarget? source x = none ∧
        .unresolvedTarget (l.chart.node source).id x = p := by
  constructor
  · intro h
    cases h with
    | target ht hx hf => exact .inl ⟨_, ht, mem_flaws.2 (.inl ⟨_, hx, hf, rfl⟩)⟩
    | guard ht hx hf => exact .inl ⟨_, ht, mem_flaws.2 (.inr (.inl ⟨_, hx, hf, rfl⟩))⟩
    | inState ht hx hf => exact .inl ⟨_, ht, mem_flaws.2 (.inr (.inr (.inl ⟨_, hx, hf, rfl⟩)))⟩
    | transitionAction ht hx hf =>
      exact .inl ⟨_, ht, mem_flaws.2 (.inr (.inr (.inr ⟨_, hx, hf, rfl⟩)))⟩
    | delay hx hf => exact .inr (.inl ⟨_, hx, hf, rfl⟩)
    | service hi hf => exact .inr (.inr (.inl ⟨_, hi, hf, rfl⟩))
    | stateAction hx hf => exact .inr (.inr (.inr (.inl ⟨_, hx, hf, rfl⟩)))
    | activity hx hf => exact .inr (.inr (.inr (.inr (.inl ⟨_, hx, hf, rfl⟩))))
    | dataMapper hx hf => exact .inr (.inr (.inr (.inr (.inr (.inl ⟨_, hx, hf, rfl⟩)))))
    | historyDefault hh hx hf => exact .inr (.inr (.inr (.inr (.inr (.inr ⟨hh, _, hx, hf, rfl⟩)))))
  · rintro (⟨t, ht, h⟩ | ⟨x, hx, hf, rfl⟩ | ⟨i, hi, hf, rfl⟩ | ⟨x, hx, hf, rfl⟩ |
      ⟨x, hx, hf, rfl⟩ | ⟨x, hx, hf, rfl⟩ | ⟨hh, x, hx, hf, rfl⟩)
    · rcases mem_flaws.1 h with
        ⟨x, hx, hf, rfl⟩ | ⟨x, hx, hf, rfl⟩ | ⟨x, hx, hf, rfl⟩ | ⟨x, hx, hf, rfl⟩
      · exact .target ht hx hf
      · exact .guard ht hx hf
      · exact .inState ht hx hf
      · exact .transitionAction ht hx hf
    · exact .delay hx hf
    · exact .service hi hf
    · exact .stateAction hx hf
    · exact .activity hx hf
    · exact .dataMapper hx hf
    · exact .historyDefault hh hx hf

lemma mem_problems_invocations {position : Nat} {is : List InvokeDef} :
    p ∈ (l.invocations source used position is).problems ↔
      (∃ id, Recurs used ((is.zipIdx position).map fun e =>
        invokeId (l.chart.node source).id e.2 e.1) id ∧ .duplicateId id = p) ∨
      ∃ i ∈ is, p ∈ l.invocationFlaws source i := by
  induction is generalizing used position with
  | nil => simp [invocations, Recurs]
  | cons i is ih =>
    simp only [problems_invocations_cons, List.mem_append, ih, List.mem_ite_nil_right,
      List.mem_singleton, @eq_comm _ p, List.zipIdx_cons, List.map_cons, recurs_cons,
      List.exists_mem_cons_iff, or_and_right, exists_or, and_assoc, exists_and_left,
      exists_eq_left']
    exact or_or_or_comm

lemma mem_problems_state : p ∈ (l.state source used b).problems ↔
    (∃ id, Recurs used (invokeIds (l.chart.node source).id b.invoke) id ∧ .duplicateId id = p) ∨
      l.Lacks source b p := by
  have hdelays : (∃ x ∈ b.after.keys, l.delaySource? x = none ∧
      .unknownDelay (l.chart.node source).id x = p) ↔ ∃ e ∈ b.after.entries,
        l.delaySource? e.1 = none ∧ .unknownDelay (l.chart.node source).id e.1 = p := by
    rw [KeyedList.keys, Keyed.keys]
    simp only [List.mem_map, exists_exists_and_eq_and]
  have hreported : ∀ {α : Type} (xs : List α) (f : α → List Problem), p ∈ xs.flatMap f ↔
      ∃ x ∈ xs, p ∈ f x := fun _ _ => List.mem_flatMap
  rw [lacks_iff, hdelays]
  simp only [problems_state, problems_afterDelays, mem_problems_invocations, invocationFlaws,
    hreported, mem_missing, List.mem_ite_nil_right, StateBody.allTransitions, List.mem_append,
    exists_mem_flatMap, List.mem_singleton, exists_eq_left,
    Option.mem_toList, or_and_right, and_or_left, exists_or, invokeIds]
  rw [← eq_iff_iff]
  ac_rfl

lemma mem_problems_states {bs : List StateBody} : p ∈ (l.states source used bs).problems ↔
    (∃ id, Recurs used ((bs.zipIdx source).flatMap fun e =>
      invokeIds (l.chart.node e.2).id e.1.invoke) id ∧ .duplicateId id = p) ∨
      ∃ e ∈ bs.zipIdx source, l.Lacks e.2 e.1 p := by
  induction bs generalizing source used with
  | nil => simp [states, Recurs]
  | cons b bs ih =>
    simp only [states, Checked.bind_problems, Checked.pure_problems, List.append_nil,
      List.mem_append, mem_problems_state, ih, List.zipIdx_cons, List.flatMap_cons, recurs_append,
      List.exists_mem_cons_iff, or_and_right, exists_or]
    exact or_or_or_comm

section

variable (hc : l'.chart = l.chart) (he : l'.behaviors.Extends l.behaviors)

include hc he

open Problem (remaining remaining_append remaining_flatMap)

lemma remaining_flaws (t : TransitionDef) :
    remaining l'.behaviors (l.flaws source t) = l'.flaws source t := by
  simp only [flaws, remaining_append, hc]
  rw [remaining_missing (isSome_of_extends he.guards) fun _ _ => rfl,
    remaining_missing (isSome_of_extends he.actions) fun _ _ => rfl,
    remaining_unresolved fun _ => rfl, remaining_unresolved fun _ => rfl]

lemma remaining_flatMap_flaws (ts : List TransitionDef) :
    remaining l'.behaviors (ts.flatMap (l.flaws source)) = ts.flatMap (l'.flaws source) := by
  rw [remaining_flatMap]
  exact List.flatMap_congr fun t _ => remaining_flaws hc he t

omit hc in
lemma remaining_delays (state : String) (keys : List String) :
    remaining l'.behaviors (missing l.delaySource? (.unknownDelay state) keys) =
      missing l'.delaySource? (.unknownDelay state) keys := by
  apply remaining_missing
  · intro name h
    simp only [delaySource?] at h ⊢
    split at h
    · rfl
    · rw [Option.isSome_map] at h ⊢
      exact isSome_of_extends he.delays name h
  · intro name h
    simp only [delaySource?] at h ⊢
    split at h
    · exact absurd h (by simp)
    · rw [Option.isSome_map]
      rfl

lemma remaining_afterDelays (after : List (String × List TransitionDef)) :
    remaining l'.behaviors (l.afterDelays source after).problems =
      (l'.afterDelays source after).problems := by
  rw [problems_afterDelays, problems_afterDelays, remaining_flatMap, hc]
  refine List.flatMap_congr fun e _ => ?_
  rw [remaining_append, remaining_flatMap_flaws hc he, remaining_delays he]

lemma remaining_invocations (position : Nat) (is : List InvokeDef) :
    remaining l'.behaviors (l.invocations source used position is).problems =
      (l'.invocations source used position is).problems := by
  induction is generalizing used position with
  | nil => rfl
  | cons i is ih =>
    have hrepeated : ∀ id, remaining l'.behaviors (if id ∈ used then [.duplicateId id] else []) =
        if id ∈ used then [.duplicateId id] else [] := by
      intro id
      split <;> rfl
    simp only [problems_invocations_cons, invocationFlaws, remaining_append, ih,
      remaining_flatMap_flaws hc he, hc, hrepeated]
    rw [remaining_missing (isSome_of_extends he.services) fun _ _ => rfl]

lemma remaining_state (b : StateBody) : remaining l'.behaviors (l.state source used b).problems =
    (l'.state source used b).problems := by
  have hdefault : ∀ names, remaining l'.behaviors (if (l.chart.node source).isHistory then
      missing (l.chart.resolveTarget? source) (.unresolvedTarget (l.chart.node source).id) names
        else []) = if (l.chart.node source).isHistory then missing (l.chart.resolveTarget? source)
          (.unresolvedTarget (l.chart.node source).id) names else [] := by
    intro names
    split
    · exact remaining_unresolved fun _ => rfl
    · rfl
  simp only [problems_state, remaining_append, remaining_flatMap_flaws hc he,
    remaining_afterDelays hc he, remaining_invocations hc he, hc, hdefault]
  rw [remaining_missing (isSome_of_extends he.actions) fun _ _ => rfl,
    remaining_missing (isSome_of_extends he.actions) fun _ _ => rfl,
    remaining_missing (isSome_of_extends he.activities) fun _ _ => rfl,
    remaining_missing (isSome_of_extends he.data) fun _ _ => rfl]

lemma remaining_states (bs : List StateBody) :
    remaining l'.behaviors (l.states source used bs).problems =
      (l'.states source used bs).problems := by
  induction bs generalizing source used with
  | nil => rfl
  | cons b bs ih =>
    simp only [states, Checked.bind_problems, Checked.pure_problems, List.append_nil, hc,
      remaining_append, ih, remaining_state hc he]

end

end Linker

end Statechart
