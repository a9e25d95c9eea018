import Mathlib.Data.List.Pairwise
import Mathlib.Tactic.Common
import Statechart.Proofs.Step.Selection

/-! Which transition an active atomic state takes. The candidates of the state and of those around
it stand in the order of their priority, and the first enabled one is taken. -/

namespace Statechart.Machine

variable {C : Type} {m : Machine C} {s : MachineState C} {event : Event} {eventless : Bool}
  {n n' : NodeId} {r r' : TransitionRef} {first : Option TransitionRef}

def IsWildcard (m : Machine C) (r : TransitionRef) : Prop :=
  (m.transitionAt r).selector = .wildcard

def Listens (m : Machine C) (event : Event) (eventless : Bool) (r : TransitionRef) : Prop :=
  r.index < (m.partsOf r.node).transitions.length ∧
    if eventless then (m.transitionAt r).selector = .eventless
    else (m.transitionAt r).selector = .exact event.type ∨ m.IsWildcard r

def Precedes (m : Machine C) (r r' : TransitionRef) : Prop :=
  m.chart.Below r.node r'.node ∨ r.node = r'.node ∧
    (¬ m.IsWildcard r ∧ m.IsWildcard r' ∨ (m.IsWildcard r ↔ m.IsWildcard r') ∧ r.index < r'.index)

structure Prefers (m : Machine C) (s : MachineState C) (event : Event) (eventless : Bool)
    (n : NodeId) (r : TransitionRef) : Prop where
  around : m.chart.Within n r.node
  listens : m.Listens event eventless r
  enabled : m.isEnabled s event r = .ok true
  first : ∀ r', m.chart.Within n r'.node → m.Listens event eventless r' → m.Precedes r' r →
    m.isEnabled s event r' = .ok false

def tried (m : Machine C) (event : Event) (eventless : Bool) (n : NodeId) : List TransitionRef :=
  (n :: (m.node n).ancestors).flatMap fun a => m.candidates a event eventless

lemma mem_candidatesWhere_iff {p : Selector → Bool} :
    r ∈ m.candidatesWhere n p ↔ r.node = n ∧
      r.index < (m.partsOf r.node).transitions.length ∧ p (m.transitionAt r).selector := by
  rw [candidatesWhere, List.mem_filterMap]
  constructor
  · rintro ⟨e, he, h⟩
    have hget := List.mem_zipIdx_iff_getElem?.1 he
    split at h
    · rename_i hp
      obtain rfl := Option.some.inj h
      obtain ⟨hi, ht⟩ := List.getElem?_eq_some_iff.1 hget
      refine ⟨rfl, hi, ?_⟩
      rwa [transitionAt_eq hi, ht]
    · exact absurd h (by simp)
  · rintro ⟨rfl, hi, hp⟩
    refine ⟨((m.partsOf r.node).transitions[r.index], r.index), ?_, ?_⟩
    · exact List.mem_zipIdx_iff_getElem?.2 (List.getElem?_eq_getElem hi)
    · rw [transitionAt_eq hi] at hp
      simp [hp]

lemma candidatesWhere_pairwise (n : NodeId) (p : Selector → Bool) :
    (m.candidatesWhere n p).Pairwise fun r r' => r.index < r'.index := by
  refine List.pairwise_filterMap.2 ?_
  have hzip : ((m.partsOf n).transitions.zipIdx).Pairwise fun e e' => e.2 < e'.2 := by
    rw [← List.pairwise_map (f := Prod.snd) (R := (· < ·)), List.zipIdx_map_snd]
    exact List.pairwise_lt_range'
  refine hzip.imp fun {e e'} hlt r hr r' hr' => ?_
  split at hr <;> split at hr'
  all_goals simp_all
  · obtain rfl := hr
    obtain rfl := hr'
    exact hlt

lemma mem_candidates_iff :
    r ∈ m.candidates n event eventless ↔ r.node = n ∧ m.Listens event eventless r := by
  cases eventless with
  | true => simp [candidates, Listens, mem_candidatesWhere_iff]
  | false =>
    simp only [candidates, Listens, IsWildcard, Bool.false_eq_true, if_false, List.mem_append,
      mem_candidatesWhere_iff, decide_eq_true_eq]
    rw [← and_or_left, ← and_or_left]

lemma candidatesWhere_precedes {p : Selector → Bool} {q : Prop}
    (hp : ∀ sel, p sel → (sel = .wildcard ↔ q)) :
    (m.candidatesWhere n p).Pairwise m.Precedes := by
  refine (candidatesWhere_pairwise n p).imp_of_mem fun {r r'} hr hr' hlt => ?_
  obtain ⟨hn, _, hs⟩ := mem_candidatesWhere_iff.1 hr
  obtain ⟨hn', _, hs'⟩ := mem_candidatesWhere_iff.1 hr'
  exact .inr ⟨hn.trans hn'.symm, .inr ⟨(hp _ hs).trans (hp _ hs').symm, hlt⟩⟩

lemma candidates_pairwise (n : NodeId) :
    (m.candidates n event eventless).Pairwise m.Precedes := by
  cases eventless with
  | true =>
    rw [candidates, if_pos rfl]
    exact candidatesWhere_precedes (q := False) fun sel hs => by simp_all
  | false =>
    rw [candidates, if_neg Bool.false_ne_true]
    refine List.pairwise_append.2 ⟨?_, ?_, fun r hr r' hr' => ?_⟩
    · exact candidatesWhere_precedes (q := False) fun sel hs => by simp_all
    · exact candidatesWhere_precedes (q := True) fun sel hs => by simp_all
    · obtain ⟨hn, _, hs⟩ := mem_candidatesWhere_iff.1 hr
      obtain ⟨hn', _, hs'⟩ := mem_candidatesWhere_iff.1 hr'
      refine .inr ⟨hn.trans hn'.symm, .inl ⟨?_, ?_⟩⟩
      · rw [IsWildcard, of_decide_eq_true hs]
        exact Selector.noConfusion
      · rw [IsWildcard]
        exact of_decide_eq_true hs'

section

variable (ht : m.chart.IsTree)

include ht

lemma Precedes.asymm (h : m.Precedes r r') : ¬ m.Precedes r' r := by
  rintro (hb | ⟨hn', h'⟩)
  · rcases h with hb' | ⟨hn, _⟩
    · exact Chart.not_below_self ht _ (hb.trans ht hb')
    · rw [hn] at hb
      exact Chart.not_below_self ht _ hb
  · rcases h with hb | ⟨_, h⟩
    · rw [hn'] at hb
      exact Chart.not_below_self ht _ hb
    · rcases h with ⟨hr, hr'⟩ | ⟨hiff, hlt⟩ <;> rcases h' with ⟨hr₁, hr₁'⟩ | ⟨hiff', hlt'⟩
      · exact hr hr₁'
      · exact hr (hiff'.1 hr')
      · exact hr₁ (hiff.1 hr₁')
      · exact Nat.lt_asymm hlt hlt'

lemma tried_pairwise (event : Event) (eventless : Bool) (n : NodeId) :
    (m.tried event eventless n).Pairwise m.Precedes := by
  refine List.pairwise_flatMap.2 ⟨fun a _ => candidates_pairwise a, ?_⟩
  have hpair : (n :: (m.node n).ancestors).Pairwise m.chart.Below :=
    List.pairwise_cons.2 ⟨fun _ ha => ha, Chart.ancestors_pairwise ht n⟩
  refine hpair.imp fun {a b} hab r hr r' hr' => .inl ?_
  rwa [(mem_candidates_iff.1 hr).1, (mem_candidates_iff.1 hr').1]

end

lemma mem_tried_iff : r ∈ m.tried event eventless n ↔
    m.chart.Within n r.node ∧ m.Listens event eventless r := by
  simp only [tried, List.mem_flatMap, mem_candidates_iff, List.mem_cons]
  constructor
  · rintro ⟨a, ha, rfl, hl⟩
    exact ⟨ha.imp_left Eq.symm, hl⟩
  · rintro ⟨hw, hl⟩
    exact ⟨r.node, hw.imp_left Eq.symm, rfl, hl⟩

lemma firstEnabled?_eq_none {l : List TransitionRef} (h : m.firstEnabled? s event l = .ok none) :
    ∀ r ∈ l, m.isEnabled s event r = .ok false := by
  induction l with
  | nil => exact fun r hr => absurd hr List.not_mem_nil
  | cons r' l ih =>
    obtain ⟨b, hb, h⟩ := bind_eq_ok h
    cases b with
    | true => exact absurd h (by simp [pure, Except.pure])
    | false =>
      intro r hr
      rcases List.mem_cons.1 hr with rfl | hr
      · exact hb
      · exact ih h r hr

lemma firstEnabled?_eq_some {l : List TransitionRef}
    (h : m.firstEnabled? s event l = .ok (some r)) :
    m.isEnabled s event r = .ok true ∧
      ∃ l₁ l₂, l = l₁ ++ r :: l₂ ∧ ∀ r' ∈ l₁, m.isEnabled s event r' = .ok false := by
  induction l with
  | nil => exact absurd h (by simp [firstEnabled?])
  | cons r' l ih =>
    obtain ⟨b, hb, h⟩ := bind_eq_ok h
    cases b with
    | true =>
      obtain rfl : r' = r := by simpa [pure, Except.pure] using h
      exact ⟨hb, [], l, rfl, fun _ hr => absurd hr List.not_mem_nil⟩
    | false =>
      obtain ⟨hr, l₁, l₂, rfl, hl₁⟩ := ih h
      refine ⟨hr, r' :: l₁, l₂, rfl, fun r₁ hr₁ => ?_⟩
      rcases List.mem_cons.1 hr₁ with rfl | hr₁
      · exact hb
      · exact hl₁ r₁ hr₁

lemma tried_of_chosenFor? (ht : m.chart.IsTree)
    (h : m.chosenFor? s event eventless n = .ok (some r)) {r' : TransitionRef}
    (hw : m.chart.Within n r'.node) (hl : m.Listens event eventless r') :
    m.isEnabled s event r' = .ok false ∨ r' = r ∨ m.Precedes r r' := by
  obtain ⟨_, l₁, l₂, hsplit, hfalse⟩ := firstEnabled?_eq_some (l := m.tried event eventless n) h
  have hpair := tried_pairwise ht event eventless n
  have hmem := mem_tried_iff.2 ⟨hw, hl⟩
  rw [hsplit] at hpair hmem
  rcases List.mem_append.1 hmem with hr' | hr'
  · exact .inl (hfalse r' hr')
  · rcases List.mem_cons.1 hr' with rfl | hr'
    · exact .inr (.inl rfl)
    · exact .inr (.inr ((List.pairwise_cons.1 (List.pairwise_append.1 hpair).2.1).1 r' hr'))

lemma prefers_of_chosenFor? (ht : m.chart.IsTree)
    (h : m.chosenFor? s event eventless n = .ok (some r)) : m.Prefers s event eventless n r := by
  obtain ⟨haround, hlistens⟩ := mem_tried_iff.1 (mem_of_firstEnabled? h)
  refine ⟨haround, hlistens, (firstEnabled?_eq_some h).1, fun r' hw hl hprec => ?_⟩
  rcases tried_of_chosenFor? ht h hw hl with hfalse | rfl | hafter
  · exact hfalse
  · exact absurd hprec (hprec.asymm ht)
  · exact absurd hprec (hafter.asymm ht)

lemma Prefers.eq_some (ht : m.chart.IsTree) (h : m.Prefers s event eventless n r)
    (h' : m.chosenFor? s event eventless n = .ok first) : first = some r := by
  have hnot : m.isEnabled s event r ≠ .ok false := by simp [h.enabled]
  cases first with
  | none => exact absurd (firstEnabled?_eq_none h' r (mem_tried_iff.2 ⟨h.around, h.listens⟩)) hnot
  | some r' =>
    rcases tried_of_chosenFor? ht h' h.around h.listens with hfalse | rfl | hafter
    · exact absurd hfalse hnot
    · rfl
    · have hpref := prefers_of_chosenFor? ht h'
      have hfalse := h.first r' hpref.around hpref.listens hafter
      exact absurd (hpref.enabled.symm.trans hfalse) (by simp)

end Statechart.Machine
