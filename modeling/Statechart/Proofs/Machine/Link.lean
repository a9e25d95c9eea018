import Statechart.Machine.Build
import Statechart.Proofs.Chart.Tree

/-! Linking: addresses lead to states of the chart, and every transition of a linked state has that
state as its source and resolved addresses as its targets. -/

namespace Statechart

namespace Chart

variable {c : Chart}

lemma child?_size (ht : c.IsTree) {n x : NodeId} {key : String} (h : c.child? n key = some x) :
    x < c.size :=
  below_size (child_below ht (List.mem_of_find?_eq_some h))

lemma descend?_size (ht : c.IsTree) {n x : NodeId} {path : String} (hn : n < c.size)
    (h : c.descend? n path = some x) : x < c.size := by
  rw [descend?] at h
  generalize Text.segments c.delimiter path = keys at h
  induction keys generalizing n with
  | nil =>
    simp only [List.foldlM_nil, Option.pure_def, Option.some.injEq] at h
    exact h ▸ hn
  | cons key keys ih =>
    rw [List.foldlM_cons] at h
    obtain ⟨y, hy, h⟩ := Option.bind_eq_some_iff.1 h
    exact ih (child?_size ht hy) h

lemma lastIndex?_lt {id : String} {l : List String} {i : Nat} (h : lastIndex? id l = some i) :
    i < l.length := by
  induction l generalizing i with
  | nil => simp [lastIndex?] at h
  | cons x l ih =>
    rw [lastIndex?] at h
    split at h
    · rename_i j hj
      rw [Option.some.injEq] at h
      have := ih hj
      rw [List.length_cons]
      omega
    · split at h
      · rw [Option.some.injEq] at h
        rw [List.length_cons]
        omega
      · exact absurd h (by simp)

lemma find?_size {id : String} {n : NodeId} (h : c.find? id = some n) : n < c.size := by
  have := lastIndex?_lt h
  rwa [List.length_map] at this

lemma resolveReference?_size (ht : c.IsTree) {reference : String} {n : NodeId}
    (h : c.resolveReference? reference = some n) : n < c.size := by
  obtain ⟨k, _, hk⟩ := List.exists_of_findSome?_eq_some h
  obtain ⟨a, ha, hd⟩ := Option.bind_eq_some_iff.1 hk
  exact descend?_size ht (find?_size ha) hd

lemma resolveTarget?_size (ht : c.IsTree) {source n : NodeId} {target : String}
    (hs : source < c.size) (h : c.resolveTarget? source target = some n) : n < c.size := by
  rw [resolveTarget?] at h
  split at h
  · exact absurd h (by simp)
  · split at h
    · exact resolveReference?_size ht h
    · exact descend?_size ht hs h
    · refine descend?_size ht ?_ h
      cases hp : (c.node source).parent? with
      | none => exact Nat.zero_lt_of_lt hs
      | some p => exact Nat.lt_trans (parent_lt ht hp) hs

lemma resolveIn?_size (ht : c.IsTree) (hc : 0 < c.size) {n : NodeId} {descriptor : String}
    (h : c.resolveIn? descriptor = some n) : n < c.size := by
  rw [resolveIn?] at h
  split at h
  · exact resolveReference?_size ht h
  · exact descend?_size ht hc h

end Chart

namespace Linker

variable {C : Type} (l : Linker C)

lemma eq_map_some {α : Type} {l : List (Option α)} {xs : List α} (h : l.mapM id = some xs) :
    l = xs.map some := by
  induction l generalizing xs with
  | nil => simpa using h
  | cons o l ih =>
    rw [List.mapM_cons] at h
    obtain ⟨x, hx, h⟩ := Option.bind_eq_some_iff.1 h
    obtain ⟨ys, hys, h⟩ := Option.bind_eq_some_iff.1 h
    obtain rfl := Option.some.inj h
    rw [List.map_cons, ← ih hys]
    exact congrArg (· :: l) hx

def Resolves (source : NodeId) (t : Transition C) : Prop :=
  t.source = source ∧
    ∀ x ∈ t.targets, ∃ target, l.chart.resolveTarget? source target = some x

def Links (source : NodeId) (config : TransitionDef) (t : Transition C) : Prop :=
  ∃ selector targets guard inState actions,
    config.target.map (l.chart.resolveTarget? source) = targets.map some ∧
      t = l.assemble source selector config targets guard inState actions

variable {l} {source : NodeId}

lemma Links.resolves {config : TransitionDef} {t : Transition C} (h : l.Links source config t) :
    l.Resolves source t := by
  obtain ⟨_, targets, _, _, _, htargets, rfl⟩ := h
  refine ⟨rfl, fun x hx => ?_⟩
  simp only [assemble] at hx
  split at hx
  · exact absurd hx List.not_mem_nil
  · have hmem : some x ∈ config.target.map (l.chart.resolveTarget? source) :=
      htargets ▸ List.mem_map_of_mem hx
    obtain ⟨target, _, htarget⟩ := List.mem_map.1 hmem
    exact ⟨target, htarget⟩

lemma value_targets (state : String) (names : List String) :
    (l.targets source state names).value = names.map (l.chart.resolveTarget? source) := by
  induction names with
  | nil => rfl
  | cons target rest ih =>
    simp only [targets, Checked.bind_value, Checked.pure_value, ih]
    rfl

lemma transition_links {selector : Selector} {config : TransitionDef} {t : Transition C}
    (h : t ∈ (l.transition source selector config).value) : l.Links source config t := by
  simp only [transition, Checked.bind_value, Checked.pure_value, value_targets] at h
  split at h
  · rename_i targets _ _ htargets _ _
    split at h
    · exact ⟨selector, targets, _, _, _, eq_map_some htargets, List.mem_singleton.1 h⟩
    · exact absurd h List.not_mem_nil
  · exact absurd h List.not_mem_nil

lemma transitions_link {selector : Selector} {ds : List TransitionDef} {t : Transition C}
    (h : t ∈ (l.transitions source selector ds).value) :
    ∃ config ∈ ds, l.Links source config t := by
  induction ds with
  | nil => exact absurd h List.not_mem_nil
  | cons d ds ih =>
    simp only [transitions, Checked.bind_value, Checked.pure_value, List.mem_append] at h
    rcases h with h | h
    · exact ⟨d, List.mem_cons_self, transition_links h⟩
    · obtain ⟨config, hmem, hlinks⟩ := ih h
      exact ⟨config, List.mem_cons_of_mem _ hmem, hlinks⟩

lemma onEvents_link {on : List (String × List TransitionDef)} {t : Transition C}
    (h : t ∈ (l.onEvents source on).value) :
    ∃ config ∈ on.flatMap Prod.snd, l.Links source config t := by
  induction on with
  | nil => exact absurd h List.not_mem_nil
  | cons e on ih =>
    simp only [onEvents, Checked.bind_value, Checked.pure_value, List.mem_append] at h
    simp only [List.flatMap_cons, List.mem_append, or_and_right, exists_or]
    exact h.imp transitions_link ih

lemma afterDelays_link {after : List (String × List TransitionDef)} {t : Transition C}
    (h : t ∈ (l.afterDelays source after).value.2) :
    ∃ config ∈ after.flatMap Prod.snd, l.Links source config t := by
  induction after with
  | nil => exact absurd h List.not_mem_nil
  | cons e after ih =>
    simp only [afterDelays, Checked.bind_value, Checked.pure_value, List.mem_append] at h
    simp only [List.flatMap_cons, List.mem_append, or_and_right, exists_or]
    exact h.imp transitions_link ih

lemma invocations_link {used : List String} {position : Nat} {is : List InvokeDef}
    {t : Transition C} (h : t ∈ (l.invocations source used position is).value.2) :
    ∃ config ∈ is.flatMap fun i => i.onDone ++ i.onError, l.Links source config t := by
  induction is generalizing used position with
  | nil => exact absurd h List.not_mem_nil
  | cons i is ih =>
    simp only [invocations, Checked.bind_value, Checked.pure_value, List.mem_append] at h
    simp only [List.flatMap_cons, List.mem_append, or_and_right, exists_or]
    exact h.imp (Or.imp transitions_link transitions_link) ih

lemma state_default {used : List String} {b : StateBody} :
    (l.state source used b).value.2 =
      if (l.chart.node source).isHistory then (l.historyDefault source b.target).value else [] := by
  simp only [state, Checked.bind_value]
  split <;> rfl

lemma state_transitions {used : List String} {b : StateBody} :
    (l.state source used b).value.1.transitions =
      (l.onEvents source b.on.entries).value ++ (l.transitions source .eventless b.always).value
        ++ (l.afterDelays source b.after.entries).value.2
        ++ (l.transitions source (.exact (Event.doneStateType (l.chart.node source).id))
            b.onDone).value
        ++ (l.invocations source used 0 b.invoke).value.2 := by
  simp only [state, Checked.bind_value]
  split <;> rfl

lemma state_links {used : List String} {b : StateBody} {t : Transition C}
    (h : t ∈ (l.state source used b).value.1.transitions) :
    ∃ config ∈ b.allTransitions, l.Links source config t := by
  simp only [state_transitions, List.mem_append] at h
  simp only [StateBody.allTransitions, List.mem_append, or_and_right, exists_or]
  exact h.imp (Or.imp (Or.imp (Or.imp onEvents_link transitions_link) afterDelays_link)
    transitions_link) invocations_link

lemma historyDefault_cases (target : Option String) :
    (l.historyDefault source target).value.length ≤ 1 ∨
      ∃ p, (l.chart.node source).parent? = some p ∧ (l.chart.node p).isParallel ∧
        (l.historyDefault source target).value = l.chart.regularChildren p := by
  cases target with
  | some target =>
    simp only [historyDefault, Checked.bind_value, Checked.pure_value]
    exact .inl (Option.length_toList_le)
  | none =>
    cases hp : (l.chart.node source).parent? with
    | none => simp [historyDefault, hp]
    | some p =>
      simp only [historyDefault, hp]
      split
      · rename_i hpar
        exact .inr ⟨p, rfl, hpar, rfl⟩
      · refine .inl ?_
        split
        · split
          · exact List.length_take_le _ _
          · exact Nat.le_refl _
        · exact List.length_take_le _ _

variable {parent : NodeId} (hp : (l.chart.node source).parent? = some parent)
  (hi : ∀ i, (l.chart.node parent).initial = some i → i ∈ (l.chart.node parent).children)

include hp hi

lemma historyDefault_subset :
    ∀ x ∈ (l.historyDefault source none).value, x ∈ l.chart.regularChildren parent := by
  intro x hx
  simp only [historyDefault, hp] at hx
  split at hx
  · exact hx
  · split at hx
    · rename_i i hinitial
      split at hx
      · exact List.mem_of_mem_take hx
      · rename_i hreg
        obtain rfl := List.mem_singleton.1 hx
        simpa [Chart.regularChildren, hi x hinitial] using hreg
    · exact List.mem_of_mem_take hx

lemma historyDefault_compound (hc : (l.chart.node parent).isParallel = false)
    (hne : l.chart.regularChildren parent ≠ []) :
    ∃ child ∈ l.chart.regularChildren parent, (l.historyDefault source none).value = [child] := by
  obtain ⟨first, rest, hr⟩ := List.exists_cons_of_ne_nil hne
  have htake : ∃ child ∈ l.chart.regularChildren parent,
      (l.chart.regularChildren parent).take 1 = [child] := ⟨first, by simp [hr], by simp [hr]⟩
  simp only [historyDefault, hp, hc, Bool.false_eq_true, if_false]
  split
  · rename_i i hinitial
    split
    · exact htake
    · rename_i hreg
      refine ⟨i, ?_, rfl⟩
      simpa [Chart.regularChildren, hi i hinitial] using hreg
  · exact htake

omit hp hi

lemma length_states {used : List String} {bs : List StateBody} :
    (l.states source used bs).value.length = bs.length := by
  induction bs generalizing source used with
  | nil => rfl
  | cons b bs ih =>
    simp only [states, Checked.bind_value, Checked.pure_value, List.length_cons, ih]

lemma states_value (source : NodeId) (used : List String) {bs : List StateBody} {k : Nat}
    {b : StateBody} (h : bs[k]? = some b) :
    ∃ used', (l.states source used bs).value[k]? = some (l.state (source + k) used' b).value := by
  induction bs generalizing source used k with
  | nil => simp at h
  | cons b' bs ih =>
    simp only [states, Checked.bind_value, Checked.pure_value]
    cases k with
    | zero =>
      rw [List.getElem?_cons_zero, Option.some.injEq] at h
      exact ⟨used, by simp [h]⟩
    | succ k =>
      rw [List.getElem?_cons_succ] at h
      obtain ⟨used', hu⟩ := ih (source + 1) _ h
      refine ⟨used', ?_⟩
      rw [List.getElem?_cons_succ, hu, Nat.add_assoc, Nat.add_comm 1 k]

end Linker

end Statechart
