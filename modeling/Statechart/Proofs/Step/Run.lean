import Mathlib.Tactic.Common
import Statechart.Proofs.Step.Exclusive
import Statechart.Step.Settle

/-! Runs of a machine: the states that the first step and later ones lead to, whatever the context
is changed to in between, and the runs that are visited on the way, after each single microstep. -/

namespace Statechart.Machine

variable {C : Type} {m : Machine C}

inductive Reaches (m : Machine C) : MachineState C → Prop
  | start {context : C} {limit : Nat} {step : Step C}
      (h : m.initialStepFrom context limit = .ok step) : m.Reaches step.state
  | step {s : MachineState C} {context : C} {event : Event} {limit : Nat} {step : Step C}
      (hs : m.Reaches s) (h : m.stepWithin { s with context } event limit = .ok step) :
      m.Reaches step.state

inductive Visits (m : Machine C) : Event → Run C → Prop
  | enter {context : C} {r : Run C}
      (h : (Run.start ⟨.empty, context, .empty⟩).enterNodes m .init
        (m.chart.enter .empty .empty rootId).elems = .ok r) : m.Visits .init r
  | first {s : MachineState C} {context : C} {event : Event} {l : List TransitionRef} {r : Run C}
      (hs : m.Reaches s) (hl : m.select { s with context } event false = .ok l) (hne : l ≠ [])
      (h : m.microstep l event (.start { s with context }) = .ok r) : m.Visits event r
  | next {current event : Event} {r r' : Run C} {l : List TransitionRef} {queue : List Event}
      (hr : m.Visits current r) (hd : m.isDone r.state.configuration = false)
      (hl : m.nextEnabled r.state current r.internal = .ok (some (event, l, queue)))
      (h : m.microstep l event { r with internal := queue } = .ok r') : m.Visits event r'

inductive Takes (m : Machine C) : MachineState C → List TransitionRef → Prop
  | first {s : MachineState C} {context : C} {event : Event} {l : List TransitionRef} {r : Run C}
      (hs : m.Reaches s) (hl : m.select { s with context } event false = .ok l) (hne : l ≠ [])
      (h : m.microstep l event (.start { s with context }) = .ok r) :
      m.Takes { s with context } l
  | next {current event : Event} {r r' : Run C} {l : List TransitionRef} {queue : List Event}
      (hr : m.Visits current r) (hd : m.isDone r.state.configuration = false)
      (hl : m.nextEnabled r.state current r.internal = .ok (some (event, l, queue)))
      (h : m.microstep l event { r with internal := queue } = .ok r') : m.Takes r.state l

lemma nextEnabled_compatible {s : MachineState C} {current event : Event}
    {internal queue : List Event} {l : List TransitionRef}
    (h : m.nextEnabled s current internal = .ok (some (event, l, queue))) :
    m.Compatible s.configuration s.history l := by
  induction internal generalizing current with
  | nil =>
    obtain ⟨eventless, he, h⟩ := bind_eq_ok h
    by_cases hnil : eventless.isEmpty
    · simp [hnil, pure, Except.pure] at h
    · simp only [hnil, pure, Except.pure, Bool.false_eq_true, if_false, Except.ok.injEq,
        Option.some.injEq, Prod.mk.injEq] at h
      exact h.2.1 ▸ compatible_of_select he
  | cons e rest ih =>
    obtain ⟨eventless, he, h⟩ := bind_eq_ok h
    by_cases hnil : eventless.isEmpty
    · rw [if_pos hnil] at h
      obtain ⟨enabled, he', h⟩ := bind_eq_ok h
      by_cases hnil' : enabled.isEmpty
      · rw [if_pos hnil'] at h
        exact ih h
      · simp only [hnil', pure, Except.pure, Bool.false_eq_true, if_false, Except.ok.injEq,
          Option.some.injEq, Prod.mk.injEq] at h
        exact h.2.1 ▸ compatible_of_select he'
    · simp only [hnil, pure, Except.pure, Bool.false_eq_true, if_false, Except.ok.injEq,
        Option.some.injEq, Prod.mk.injEq] at h
      exact h.2.1 ▸ compatible_of_select he

lemma settle_cases {limit left : Nat} {current : Event} {r r' : Run C}
    (h : m.settle limit left current r = .ok r') :
    (r' = r ∨ r' = { r with internal := [] }) ∨
      ∃ left' event l queue r₁, left = left' + 1 ∧ m.isDone r.state.configuration = false ∧
        m.nextEnabled r.state current r.internal = .ok (some (event, l, queue)) ∧
        m.microstep l event { r with internal := queue } = .ok r₁ ∧
        m.settle limit left' event r₁ = .ok r' := by
  rw [settle] at h
  by_cases hd : m.isDone r.state.configuration
  · rw [if_pos hd] at h
    exact .inl (.inl (Except.ok.inj h).symm)
  · rw [if_neg hd] at h
    obtain ⟨next, hnext, h⟩ := bind_eq_ok h
    cases next with
    | none => exact .inl (.inr (Except.ok.inj h).symm)
    | some next =>
      obtain ⟨event, l, queue⟩ := next
      cases left with
      | zero => exact absurd h (by simp)
      | succ left =>
        obtain ⟨r₁, h₁, h⟩ := bind_eq_ok h
        exact .inr ⟨left, event, l, queue, r₁, rfl, by simpa using hd, hnext, h₁, h⟩

lemma settle_invariant {Q : Event → Run C → Prop} {limit left : Nat} {current : Event}
    {r r' : Run C}
    (hQ : ∀ current r event l queue r', Q current r → m.isDone r.state.configuration = false →
      m.nextEnabled r.state current r.internal = .ok (some (event, l, queue)) →
      m.microstep l event { r with internal := queue } = .ok r' → Q event r')
    (hr : Q current r) (h : m.settle limit left current r = .ok r') :
    ∃ event r'', Q event r'' ∧ (r' = r'' ∨ r' = { r'' with internal := [] }) := by
  induction left generalizing current r with
  | zero =>
    rcases settle_cases h with h | ⟨_, _, _, _, _, h, _⟩
    · exact ⟨current, r, hr, h⟩
    · exact absurd h (Nat.succ_ne_zero _).symm
  | succ left ih =>
    rcases settle_cases h with h | ⟨left', event, l, queue, r₁, hl, hd, hnext, h₁, h⟩
    · exact ⟨current, r, hr, h⟩
    · obtain rfl := Nat.succ_injective hl
      exact ih (hQ current r event l queue r₁ hr hd hnext h₁) h

lemma initialStepFrom_cases {context : C} {limit : Nat} {step : Step C}
    (h : m.initialStepFrom context limit = .ok step) :
    ∃ r r', (Run.start ⟨.empty, context, .empty⟩).enterNodes m .init
        (m.chart.enter .empty .empty rootId).elems = .ok r ∧
      m.settle limit limit .init r = .ok r' ∧ step = m.finish .init true r' := by
  obtain ⟨r, hr, h⟩ := bind_eq_ok h
  obtain ⟨r', hr', h⟩ := bind_eq_ok h
  exact ⟨r, r', hr, hr', (Except.ok.inj h).symm⟩

lemma stepWithin_cases {s : MachineState C} {event : Event} {limit : Nat} {step : Step C}
    (h : m.stepWithin s event limit = .ok step) :
    step = m.finish event false (.start s) ∨
      ∃ left l r r', limit = left + 1 ∧ m.select s event false = .ok l ∧ l ≠ [] ∧
        m.microstep l event (.start s) = .ok r ∧ m.settle limit left event r = .ok r' ∧
        step = m.finish event true r' := by
  rw [stepWithin] at h
  split at h
  · exact absurd h (by simp)
  · obtain ⟨l, hl, h⟩ := bind_eq_ok h
    by_cases hnil : l.isEmpty
    · rw [if_pos hnil] at h
      exact .inl (Except.ok.inj h).symm
    · rw [if_neg hnil] at h
      cases limit with
      | zero => exact absurd h (by simp)
      | succ left =>
        obtain ⟨r, hr, h⟩ := bind_eq_ok h
        obtain ⟨r', hr', h⟩ := bind_eq_ok h
        exact .inr ⟨left, l, r, r', rfl, hl, by simpa using hnil, hr, hr', (Except.ok.inj h).symm⟩

section

variable {P : Configuration → Memory → Prop}
  (hstart : P (m.chart.enter .empty .empty rootId) .empty)
  (hstep : ∀ s l conf, P s.configuration s.history → m.Compatible s.configuration s.history l →
    m.Takes s l → m.Leads s l conf → P conf (m.historyAfter s l))

include hstart in
lemma enter_induction {context : C} {r : Run C}
    (h : (Run.start ⟨.empty, context, .empty⟩).enterNodes m .init
      (m.chart.enter .empty .empty rootId).elems = .ok r) :
    P r.state.configuration r.state.history := by
  obtain ⟨hhist, hmem⟩ := Run.enterNodes_mem h
  have hconf : r.state.configuration = m.chart.enter .empty .empty rootId := by
    refine SortedSet.ext fun x => ?_
    rw [hmem, SortedSet.mem_elems]
    exact or_iff_right (SortedSet.not_mem_empty x)
  rw [hconf, hhist]
  exact hstart

include hstep in
lemma microstep_induction {r r' : Run C} {s : MachineState C} {event : Event}
    {l : List TransitionRef} (ht : m.Takes s l) (h : m.microstep l event r = .ok r')
    (hs : r.state = s) (hP : P s.configuration s.history)
    (hc : m.Compatible s.configuration s.history l) :
    P r'.state.configuration r'.state.history := by
  subst hs
  obtain ⟨hhist, hmem⟩ := microstep_mem h
  rw [hhist]
  exact hstep r.state l _ hP hc ht hmem

include hstep in
lemma settle_induction {limit left : Nat} {current : Event} {r r' : Run C}
    (hr : m.Visits current r) (hP : P r.state.configuration r.state.history)
    (h : m.settle limit left current r = .ok r') :
    P r'.state.configuration r'.state.history := by
  obtain ⟨event, r'', ⟨_, hP⟩, hr' | hr'⟩ := settle_invariant
    (Q := fun event r => m.Visits event r ∧ P r.state.configuration r.state.history)
    (fun current r event l queue r' ⟨hv, hP⟩ hd hl h => ⟨.next hv hd hl h,
      microstep_induction hstep (.next hv hd hl h) h rfl hP (nextEnabled_compatible hl)⟩)
    ⟨hr, hP⟩ h
  · exact hr' ▸ hP
  · exact hr' ▸ hP

include hstart hstep

lemma reaches_induction {s : MachineState C} (h : m.Reaches s) :
    P s.configuration s.history := by
  induction h with
  | start h =>
    obtain ⟨r, r', hr, hr', rfl⟩ := initialStepFrom_cases h
    exact settle_induction hstep (.enter hr) (enter_induction hstart hr) hr'
  | step hs h ih =>
    rcases stepWithin_cases h with rfl | ⟨left, l, r, r', rfl, hl, hne, hr, hr', rfl⟩
    · exact ih
    · have ht := Takes.first hs hl hne hr
      exact settle_induction hstep (.first hs hl hne hr)
        (microstep_induction hstep ht hr rfl ih (compatible_of_select hl)) hr'

lemma visits_induction {event : Event} {r : Run C} (h : m.Visits event r) :
    P r.state.configuration r.state.history := by
  induction h with
  | enter h => exact enter_induction hstart h
  | first hs hl hne h =>
    have hP := reaches_induction hstart hstep hs
    have ht := Takes.first hs hl hne h
    exact microstep_induction hstep ht h rfl hP (compatible_of_select hl)
  | next hr hd hl h ih =>
    exact microstep_induction hstep (.next hr hd hl h) h rfl ih (nextEnabled_compatible hl)

lemma takes_induction {s : MachineState C} {l : List TransitionRef} (h : m.Takes s l) :
    P s.configuration s.history := by
  cases h with
  | first hs _ _ _ =>
    have hP := reaches_induction hstart hstep hs
    exact hP
  | next hr _ _ _ => exact visits_induction hstart hstep hr

end

lemma Takes.exists_visits {s : MachineState C} {l : List TransitionRef} (h : m.Takes s l) :
    m.Compatible s.configuration s.history l ∧
      ∃ event r, m.Visits event r ∧ m.Leads s l r.state.configuration := by
  cases h with
  | first hs hl hne h =>
    exact ⟨compatible_of_select hl, _, _, .first hs hl hne h, (microstep_mem h).2⟩
  | next hr hd hl h =>
    exact ⟨nextEnabled_compatible hl, _, _, .next hr hd hl h, (microstep_mem h).2⟩

end Statechart.Machine
