import Mathlib.Tactic.Common
import Statechart.Proofs.Step.Settling

/-! The limit of microsteps. Runs under two limits proceed in lockstep until one of them is cut off,
and what is cut off has not begun its next microstep. -/

namespace Statechart.Machine

variable {C : Type} {m : Machine C} {r r' : Run C} {current event : Event} {limit left : Nat}
  {s : MachineState C} {step : Step C}

def OnlyCuts (f : Nat → Except StepError (Step C)) : Prop :=
  ∀ limit step, f limit = .ok step →
    (∀ limit', step.microsteps ≤ limit' → f limit' = .ok step) ∧
    ∀ limit' < step.microsteps, ∃ type, f limit' = .error (.unsettled type limit')

lemma settle_lockstep (h : m.settle limit left current r = .ok r') :
    ((∀ limit' left', m.settle limit' left' current r = .ok r') ∧ r'.microsteps = r.microsteps) ∨
    ∃ left₁ event r₁, left = left₁ + 1 ∧ r₁.microsteps = r.microsteps + 1 ∧
      m.settle limit left₁ event r₁ = .ok r' ∧ ∀ limit',
        m.settle limit' 0 current r = .error (.unsettled event.type limit') ∧
        ∀ left', m.settle limit' (left' + 1) current r = m.settle limit' left' event r₁ := by
  cases hd : m.isDone r.state.configuration with
  | true =>
    rw [settle, if_pos hd] at h
    obtain rfl := Except.ok.inj h
    refine .inl ⟨fun limit' left' => ?_, rfl⟩
    rw [settle, if_pos hd]
  | false =>
    rw [settle_of_not_done hd] at h
    obtain ⟨next, hnext, h⟩ := bind_eq_ok h
    cases next with
    | none =>
      obtain rfl := Except.ok.inj h
      refine .inl ⟨fun limit' left' => ?_, rfl⟩
      rw [settle_of_not_done hd, hnext]
      rfl
    | some next =>
      obtain ⟨event, l, queue⟩ := next
      cases left with
      | zero => exact absurd h (by simp)
      | succ left₁ =>
        obtain ⟨r₁, hr₁, h⟩ := bind_eq_ok h
        have hsteps : r₁.microsteps = r.microsteps + 1 := (queues_microstep hr₁).microsteps
        refine .inr ⟨left₁, event, r₁, rfl, hsteps, h, fun limit' => ⟨?_, fun left' => ?_⟩⟩
        · rw [settle_of_not_done hd, hnext]
          rfl
        · rw [settle_of_not_done hd, hnext]
          change (m.microstep l event { r with internal := queue } >>= _) = _
          rw [hr₁]
          rfl

lemma exists_settle_cut (h : m.settle limit left current r = .ok r') :
    ∃ k, r'.microsteps = r.microsteps + k ∧ ∀ limit',
      (∀ left', k ≤ left' → m.settle limit' left' current r = .ok r') ∧
      ∀ left' < k, ∃ type, m.settle limit' left' current r = .error (.unsettled type limit') := by
  induction left generalizing current r with
  | zero =>
    obtain ⟨hall, hsteps⟩ | ⟨_, _, _, hleft, _⟩ := settle_lockstep h
    · refine ⟨0, hsteps, fun limit' => ⟨fun left' _ => hall limit' left', ?_⟩⟩
      exact fun left' hlt => absurd hlt (Nat.not_lt_zero left')
    · exact absurd hleft.symm (Nat.succ_ne_zero _)
  | succ left ih =>
    obtain ⟨hall, hsteps⟩ | ⟨left₁, event, r₁, hleft, hsteps, h₁, hlock⟩ := settle_lockstep h
    · refine ⟨0, hsteps, fun limit' => ⟨fun left' _ => hall limit' left', ?_⟩⟩
      exact fun left' hlt => absurd hlt (Nat.not_lt_zero left')
    · obtain rfl := Nat.succ_injective hleft
      obtain ⟨k, hk, hcut⟩ := ih h₁
      refine ⟨k + 1, by omega, fun limit' => ?_⟩
      obtain ⟨hzero, hsucc⟩ := hlock limit'
      obtain ⟨henough, hshort⟩ := hcut limit'
      refine ⟨fun left' hle => ?_, fun left' hlt => ?_⟩
      · obtain ⟨left', rfl⟩ := Nat.exists_eq_succ_of_ne_zero (Nat.ne_zero_of_lt hle)
        rw [Nat.succ_eq_add_one, hsucc]
        exact henough left' (Nat.le_of_succ_le_succ hle)
      · cases left' with
        | zero => exact ⟨event.type, hzero⟩
        | succ left' =>
          rw [hsucc]
          exact hshort left' (Nat.lt_of_succ_lt_succ hlt)

lemma stepWithin_lockstep (h : m.stepWithin s event limit = .ok step) :
    ((∀ limit', m.stepWithin s event limit' = .ok step) ∧ step.microsteps = 0) ∨
    ∃ left r r', r.microsteps = 1 ∧ m.settle limit left event r = .ok r' ∧
      step = m.finish event true r' ∧
      m.stepWithin s event 0 = .error (.unsettled event.type 0) ∧
      ∀ left', m.stepWithin s event (left' + 1) =
        m.settle (left' + 1) left' event r >>= fun r' => .ok (m.finish event true r') := by
  have hunder : ∀ limit', m.stepWithin s event limit' = _ := fun limit' => by rw [stepWithin]
  rw [stepWithin] at h
  split at h
  · exact absurd h (by simp)
  rename_i haccepts
  obtain ⟨l, hl, h⟩ := bind_eq_ok h
  simp only [if_neg haccepts, hl] at hunder
  by_cases hnil : l.isEmpty
  · rw [if_pos hnil] at h
    obtain rfl := Except.ok.inj h
    refine .inl ⟨fun limit' => (hunder limit').trans ?_, rfl⟩
    exact if_pos hnil
  · rw [if_neg hnil] at h
    cases limit with
    | zero => exact absurd h (by simp)
    | succ left =>
      obtain ⟨r, hr, h⟩ := bind_eq_ok h
      obtain ⟨r', hr', h⟩ := bind_eq_ok h
      have hsteps : r.microsteps = 1 := (queues_microstep hr).microsteps
      refine .inr ⟨left, r, r', hsteps, hr', (Except.ok.inj h).symm, (hunder 0).trans ?_,
        fun left' => (hunder (left' + 1)).trans ?_⟩
      · exact if_neg hnil
      · refine (if_neg hnil).trans ?_
        rw [hr]
        rfl

lemma onlyCuts_stepWithin (m : Machine C) (s : MachineState C) (event : Event) :
    OnlyCuts (m.stepWithin s event) := by
  intro limit step h
  obtain ⟨hall, hsteps⟩ | ⟨left, r, r', hfirst, hr', rfl, hzero, hsucc⟩ := stepWithin_lockstep h
  · refine ⟨fun limit' _ => hall limit', fun limit' hlt => ?_⟩
    exact absurd (hsteps ▸ hlt) (Nat.not_lt_zero limit')
  obtain ⟨k, hk, hcut⟩ := exists_settle_cut hr'
  have hsteps : (m.finish event true r').microsteps = k + 1 := by
    change r'.microsteps = k + 1
    omega
  rw [hsteps]
  refine ⟨fun limit' hle => ?_, fun limit' hlt => ?_⟩
  · obtain ⟨left', rfl⟩ := Nat.exists_eq_succ_of_ne_zero (Nat.ne_zero_of_lt hle)
    rw [Nat.succ_eq_add_one, hsucc, (hcut _).1 left' (Nat.le_of_succ_le_succ hle)]
    rfl
  · cases limit' with
    | zero => exact ⟨event.type, hzero⟩
    | succ left' =>
      obtain ⟨type, htype⟩ := (hcut (left' + 1)).2 left' (Nat.lt_of_succ_lt_succ hlt)
      refine ⟨type, ?_⟩
      rw [hsucc, htype]
      rfl

lemma onlyCuts_initialStepFrom (m : Machine C) (context : C) :
    OnlyCuts (m.initialStepFrom context) := by
  intro limit step h
  obtain ⟨r, r', hr, hr', rfl⟩ := initialStepFrom_cases h
  have heq : ∀ limit', m.initialStepFrom context limit' =
      m.settle limit' limit' .init r >>= fun r => .ok (m.finish .init true r) := by
    intro limit'
    rw [initialStepFrom, hr]
    rfl
  have hfirst : r.microsteps = 0 := (Run.queues_enterNodes hr).microsteps
  obtain ⟨k, hk, hcut⟩ := exists_settle_cut hr'
  have hsteps : (m.finish .init true r').microsteps = k := by
    change r'.microsteps = k
    omega
  rw [hsteps]
  refine ⟨fun limit' hle => ?_, fun limit' hlt => ?_⟩
  · rw [heq, (hcut limit').1 limit' hle]
    rfl
  · obtain ⟨type, htype⟩ := (hcut limit').2 limit' hlt
    exact ⟨type, by rw [heq, htype]; rfl⟩

/-- A step that succeeds with some number of microsteps is the same under all limits from this
number on, and is stopped under all limits below it. The same holds of the step that enters the
machine. -/
theorem limit_only_cuts (m : Machine C) :
    (∀ s event, OnlyCuts (m.stepWithin s event)) ∧
      ∀ context, OnlyCuts (m.initialStepFrom context) :=
  ⟨onlyCuts_stepWithin m, onlyCuts_initialStepFrom m⟩

theorem chiming_cut :
    ∃ start step, chimingMachine.initialStepFrom () 0 = .ok start ∧
      chimingMachine.initialStepFrom () 9 = .ok start ∧
      chimingMachine.stepWithin start.state (.ofType "STRIKE") 2 = .ok step ∧
      step.microsteps = 2 ∧ chimingMachine.stepWithin start.state (.ofType "STRIKE") 9 = .ok step ∧
      ∃ type, chimingMachine.stepWithin start.state (.ofType "STRIKE") 1 =
        .error (.unsettled type 1) := by
  have hrun : ((chimingMachine.initialStepFrom () 0).bind fun start =>
      (chimingMachine.stepWithin start.state (.ofType "STRIKE") 2).map fun step =>
        (start.microsteps, step.microsteps)).toOption = some (0, 2) := by
    decide +kernel
  obtain ⟨start, hstart, hrun⟩ := bind_eq_ok (eq_ok_of_toOption hrun)
  cases hstep : chimingMachine.stepWithin start.state (.ofType "STRIKE") 2 with
  | error e => exact absurd hrun (by simp [hstep, Except.map])
  | ok step =>
    simp only [hstep, Except.map, Except.ok.injEq, Prod.mk.injEq] at hrun
    obtain ⟨hentered, hsteps⟩ := hrun
    obtain ⟨hevents, hcontexts⟩ := limit_only_cuts chimingMachine
    obtain ⟨hmore, hless⟩ := hevents start.state (.ofType "STRIKE") 2 step hstep
    obtain ⟨hlater, _⟩ := hcontexts () 0 start hstart
    refine ⟨start, step, hstart, hlater 9 (by omega), hstep, hsteps, hmore 9 (by omega), ?_⟩
    exact hless 1 (by omega)

end Statechart.Machine
