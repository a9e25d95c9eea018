import Mathlib.Data.List.Nodup
import Mathlib.Tactic.Common
import Statechart.Interpreter.Work
import Statechart.Proofs.Machine.Build

/-! What the states of a built machine register timers and services under. A state declares each
delay once, and no two invocations of the machine have the same id. -/

namespace Statechart

namespace Linker

variable {C : Type} (l : Linker C) {source : NodeId} {used : List String}

lemma afterDelays_keys (after : List (String × List TransitionDef)) :
    ((l.afterDelays source after).value.1.map DelayedEvent.key).Sublist (Keyed.keys after) := by
  induction after with
  | nil => exact List.Sublist.slnil
  | cons e after ih =>
    simp only [afterDelays, Checked.bind_value, Checked.pure_value, List.map_append,
      Keyed.keys_cons]
    cases (Checked.require (l.delaySource? e.1) _).value with
    | none => exact ih.cons e.1
    | some delay => exact ih.cons_cons e.1

lemma invocations_ids {position : Nat} {is : List InvokeDef}
    (h : (l.invocations source used position is).problems = []) :
    ((l.invocations source used position is).value.1.map Invocation.id).Nodup ∧
      (∀ id ∈ (l.invocations source used position is).value.1.map Invocation.id, id ∉ used) ∧
      ∀ id ∈ (l.invocations source used position is).value.1.map Invocation.id,
        id ∈ (is.zipIdx position).map fun e => invokeId (l.chart.node source).id e.2 e.1 := by
  induction is generalizing used position with
  | nil => simp [invocations]
  | cons i is ih =>
    simp only [invocations, Checked.bind_problems, Checked.pure_problems,
      List.append_eq_nil_iff] at h
    obtain ⟨hid, -, -, -, hrest, -⟩ := h
    obtain ⟨hnodup, hnew, hmem⟩ := ih hrest
    have hid : invokeId (l.chart.node source).id position i ∉ used := by
      intro hu
      simp [Checked.reportIf, hu] at hid
    have hfirst : invokeId (l.chart.node source).id position i ∉
        (l.invocations source (invokeId (l.chart.node source).id position i :: used)
          (position + 1) is).value.1.map Invocation.id :=
      fun hmem => hnew _ hmem List.mem_cons_self
    simp only [invocations, Checked.bind_value, Checked.pure_value, List.map_append,
      List.zipIdx_cons, List.map_cons]
    cases (Checked.require (l.behaviors.services.get? i.src) _).value with
    | none =>
      refine ⟨hnodup, fun id hid hu => hnew id hid (List.mem_cons_of_mem _ hu), fun id hid => ?_⟩
      exact List.mem_cons_of_mem _ (hmem id hid)
    | some service =>
      refine ⟨List.nodup_cons.2 ⟨hfirst, hnodup⟩, fun id hid' => ?_, fun id hid' => ?_⟩
      · cases List.mem_cons.1 hid' with
        | inl he => exact he ▸ hid
        | inr hid' => exact fun hu => hnew id hid' (List.mem_cons_of_mem _ hu)
      · cases List.mem_cons.1 hid' with
        | inl he => exact List.mem_cons.2 (.inl he)
        | inr hid' => exact List.mem_cons_of_mem _ (hmem id hid')

lemma state_delays (b : StateBody) :
    (l.state source used b).value.1.delays = (l.afterDelays source b.after.entries).value.1 := by
  simp only [state, Checked.bind_value]
  split <;> rfl

lemma state_invocations (b : StateBody) :
    (l.state source used b).value.1.invocations =
      (l.invocations source used 0 b.invoke).value.1 := by
  simp only [state, Checked.bind_value]
  split <;> rfl

lemma invocations_problems {b : StateBody} (h : (l.state source used b).problems = []) :
    (l.invocations source used 0 b.invoke).problems = [] := by
  simp only [state, Checked.bind_problems, List.append_eq_nil_iff] at h
  exact h.2.2.2.2.1

lemma states_invocations {bs : List StateBody} (h : (l.states source used bs).problems = []) :
    (((l.states source used bs).value.flatMap fun p => p.1.invocations).map Invocation.id).Nodup ∧
      ∀ id ∈ ((l.states source used bs).value.flatMap fun p => p.1.invocations).map Invocation.id,
        id ∉ used := by
  induction bs generalizing source used with
  | nil => simp [states]
  | cons b bs ih =>
    simp only [states, Checked.bind_problems, Checked.pure_problems,
      List.append_eq_nil_iff] at h
    obtain ⟨hfirst, hrest, -⟩ := h
    obtain ⟨hnodup, hnew, hmem⟩ := l.invocations_ids (l.invocations_problems hfirst)
    obtain ⟨hnodup', hnew'⟩ := ih hrest
    simp only [states, Checked.bind_value, Checked.pure_value, List.flatMap_cons, List.map_append,
      state_invocations]
    refine ⟨hnodup.append hnodup' fun id hid hid' => ?_, fun id hid hu => ?_⟩
    · exact hnew' id hid' (List.mem_append_left _ (hmem id hid))
    · cases List.mem_append.1 hid with
      | inl hid => exact hnew id hid hu
      | inr hid => exact hnew' id hid (List.mem_append_right _ hu)

end Linker

namespace Machine

variable {C : Type}

def originsOf (m : Machine C) (n : NodeId) : List Origin :=
  (m.partsOf n).delays.map (fun d => .timer n d.key)
    ++ (m.partsOf n).invocations.map fun v => .completion v.id

variable {m : Machine C} {n n' : NodeId}

lemma timer_mem_originsOf {x : NodeId} {key : String} :
    .timer x key ∈ m.originsOf n ↔ x = n ∧ key ∈ (m.partsOf n).delays.map DelayedEvent.key := by
  simp only [originsOf, List.mem_append, List.mem_map]
  constructor
  · rintro (⟨d, hd, he⟩ | ⟨v, _, he⟩)
    · obtain ⟨rfl, rfl⟩ := Origin.timer.inj he
      exact ⟨rfl, d, hd, rfl⟩
    · exact Origin.noConfusion he
  · rintro ⟨rfl, d, hd, rfl⟩
    exact .inl ⟨d, hd, rfl⟩

lemma completion_mem_originsOf {id : String} :
    .completion id ∈ m.originsOf n ↔ id ∈ (m.partsOf n).invocations.map Invocation.id := by
  simp only [originsOf, List.mem_append, List.mem_map]
  constructor
  · rintro (⟨d, _, he⟩ | ⟨v, hv, he⟩)
    · exact Origin.noConfusion he
    · exact ⟨v, hv, Origin.completion.inj he⟩
  · rintro ⟨v, hv, rfl⟩
    exact .inr ⟨v, hv, rfl⟩

lemma emission_not_mem_originsOf (id : String) : .emission id ∉ m.originsOf n := by
  simp [originsOf]

structure OriginsDistinct (m : Machine C) : Prop where
  nodup : ∀ n, (m.originsOf n).Nodup
  unique : ∀ n n' o, o ∈ m.originsOf n → o ∈ m.originsOf n' → n = n'

lemma originsOf_nodup (hd : ((m.partsOf n).delays.map DelayedEvent.key).Nodup)
    (hi : ((m.partsOf n).invocations.map Invocation.id).Nodup) : (m.originsOf n).Nodup := by
  have hdelays := hd.map (f := Origin.timer n) fun _ _ he => (Origin.timer.inj he).2
  have hservices := hi.map (f := Origin.completion) fun _ _ he => Origin.completion.inj he
  rw [List.map_map] at hdelays hservices
  apply hdelays.append hservices
  intro o ho ho'
  obtain ⟨_, _, rfl⟩ := List.mem_map.1 ho
  obtain ⟨_, _, he⟩ := List.mem_map.1 ho'
  exact Origin.noConfusion he

lemma parts_of_mem_invocations {v : Invocation C} (hv : v ∈ (m.partsOf n).invocations) :
    m.parts[n]? = some (m.partsOf n) := by
  rw [partsOf, List.getD_eq_getElem?_getD] at hv ⊢
  cases hn : m.parts[n]? with
  | none => simp [hn] at hv
  | some p => rfl

section

variable (h : ((m.parts.flatMap Parts.invocations).map Invocation.id).Nodup)

include h

lemma nodup_invocations_node (n : NodeId) :
    ((m.partsOf n).invocations.map Invocation.id).Nodup := by
  rw [List.map_flatMap, List.nodup_flatMap] at h
  cases hi : (m.partsOf n).invocations with
  | nil => exact List.nodup_nil
  | cons v rest =>
    have hv : v ∈ (m.partsOf n).invocations := hi ▸ List.mem_cons_self
    rw [← hi]
    exact h.1 _ (List.mem_of_getElem? (parts_of_mem_invocations hv))

lemma invocations_apart {id : String} (hn : n < n')
    (hid : id ∈ (m.partsOf n).invocations.map Invocation.id) :
    id ∉ (m.partsOf n').invocations.map Invocation.id := by
  rw [List.map_flatMap, List.nodup_flatMap] at h
  intro hid'
  obtain ⟨v, hv, _⟩ := List.mem_map.1 hid
  obtain ⟨v', hv', _⟩ := List.mem_map.1 hid'
  obtain ⟨hsize, hparts⟩ := List.getElem?_eq_some_iff.1 (parts_of_mem_invocations hv)
  obtain ⟨hsize', hparts'⟩ := List.getElem?_eq_some_iff.1 (parts_of_mem_invocations hv')
  have hdisjoint : List.Disjoint (m.parts[n].invocations.map Invocation.id)
      (m.parts[n'].invocations.map Invocation.id) :=
    List.pairwise_iff_getElem.1 h.2 n n' hsize hsize' hn
  rw [hparts, hparts'] at hdisjoint
  exact hdisjoint hid hid'

end

section

variable [JsonCoded C] {d : Definition} {b : Behaviors C} {context : Option C}

lemma delays_nodup (h : build d b context = .ok m) (n : NodeId) :
    ((m.partsOf n).delays.map DelayedEvent.key).Nodup := by
  obtain ⟨start, rfl, _, _⟩ := build_eq_ok h
  rcases partsOf_assemble d b start n with ⟨p, used, _, hparts⟩ | hparts
  · rw [hparts, Linker.state_delays]
    exact (KeyedList.nodup_keys _).sublist (Linker.afterDelays_keys _ _)
  · rw [hparts]
    exact List.nodup_nil

lemma invocations_nodup (h : build d b context = .ok m) :
    ((m.parts.flatMap Parts.invocations).map Invocation.id).Nodup := by
  obtain ⟨start, rfl, _, hp⟩ := build_eq_ok h
  have hnodup := (Linker.states_invocations _ hp).1
  rw [assemble, List.flatMap_map]
  exact hnodup

lemma originsDistinct_of_build (h : build d b context = .ok m) : m.OriginsDistinct := by
  have hids := invocations_nodup h
  refine ⟨fun n => originsOf_nodup (delays_nodup h n) (nodup_invocations_node hids n),
    fun n n' o ho ho' => ?_⟩
  cases o with
  | timer x key =>
    rw [timer_mem_originsOf] at ho ho'
    exact ho.1.symm.trans ho'.1
  | completion id =>
    rw [completion_mem_originsOf] at ho ho'
    rcases Nat.lt_trichotomy n n' with hn | hn | hn
    · exact absurd ho' (invocations_apart hids hn ho)
    · exact hn
    · exact absurd ho (invocations_apart hids hn ho')
  | emission id => exact absurd ho (emission_not_mem_originsOf id)

end

end Machine

end Statechart
