import Mathlib.Tactic.Common
import Mathlib.Data.List.Chain
import Statechart.Machine.Build
import Statechart.Proofs.Checkpoint.Restore
import Statechart.Proofs.Interpreter.Histories

/-! The transition log as a chain. An interpreter that records its transitions has one record for
each step that it has adopted, and each record begins where the one before has ended. -/

namespace Statechart

namespace Interpreter

variable {C : Type} {m : Machine C} {i i' : Interpreter C} {l past : List (JournalEntry C)}
  {steps : List (Step C)} {step : Step C} {fuel : Nat}

structure RecordOf (m : Machine C) (r : TransitionRecord) (step : Step C) : Prop where
  event : r.event = step.event.type
  after : r.after = m.chart.atomicPaths step.state.configuration
  microsteps : r.microsteps = .ofNat step.microsteps

inductive Annals (m : Machine C) : Interpreter C → List (Step C) → Prop
  | create {settings : Settings} (hrec : settings.recordTransitions = true) (hasRuntime : Bool)
      (date : Timestamp) : Annals m (create m settings hasRuntime date) []
  | restore {i i' : Interpreter C} {steps : List (Step C)} {id : String} {c : Checkpoint C}
      {settings : Settings} {hasRuntime : Bool} {date : Timestamp} (h : Annals m i steps)
      (hc : i.checkpoint id = .ok c) (hrec : settings.recordTransitions = true)
      (hr : restore m c settings hasRuntime date = .ok i') : Annals m i' steps
  | call {i i' : Interpreter C} {steps : List (Step C)} {r : Request} {fuel : Nat}
      {e : Option InterpreterError} (h : Annals m i steps) (hr : r.run fuel i = some (i', e)) :
      Annals m i' (steps ++ adoptedIn (r.journal fuel i))
  | meanwhile {i i' : Interpreter C} {steps : List (Step C)} (h : Annals m i steps)
      (hi : Meanwhile i i') : Annals m i' steps

lemma Annals.history (h : Annals m i steps) : ∃ past, History m i past := by
  induction h with
  | create hrec hasRuntime date => exact ⟨[], .create _ hasRuntime date⟩
  | restore _ _ _ hr _ => exact ⟨[], .restore hr⟩
  | call _ hr ih =>
    obtain ⟨past, h⟩ := ih
    exact ⟨_, h.call hr⟩
  | meanwhile _ hi ih =>
    obtain ⟨past, h⟩ := ih
    exact ⟨past, h.meanwhile hi⟩

structure Chained (m : Machine C) (i : Interpreter C) (steps : List (Step C)) : Prop where
  machine : i.machine = m
  recording : i.settings.recordTransitions = true
  records : List.Forall₂ (RecordOf m) i.transitions.records steps
  changed : ∀ step ∈ steps, step.changed = true
  first : ∀ step ∈ steps.head?, ∃ limit, m.initialStepFrom m.context limit = .ok step
  head : ∀ r ∈ i.transitions.records.head?, r.before = []
  links : i.transitions.records.IsChain fun r r' => r'.before = r.after
  last : ∀ r ∈ i.transitions.records.getLast?, r.after = i.activePaths
  empty : i.state = none ↔ i.transitions.records = []

lemma chained_create {settings : Settings} (hrec : settings.recordTransitions = true)
    (hasRuntime : Bool) (date : Timestamp) :
    Chained m (create m settings hasRuntime date) [] where
  machine := rfl
  recording := hrec
  records := .nil
  changed := by simp
  first := by simp
  head := by simp [create, TransitionLog.empty]
  links := .nil
  last := by simp [create, TransitionLog.empty]
  empty := ⟨fun _ => rfl, fun _ => rfl⟩

lemma Chained.of_eq (h : Chained m i steps) (hm : i'.machine = i.machine)
    (hset : i'.settings.recordTransitions = i.settings.recordTransitions)
    (hs : i'.state = i.state) (ht : i'.transitions = i.transitions) : Chained m i' steps where
  machine := hm.trans h.machine
  recording := hset.trans h.recording
  records := ht ▸ h.records
  changed := h.changed
  first := h.first
  head := ht ▸ h.head
  links := ht ▸ h.links
  last := by
    rw [ht, activePaths, hs, hm]
    exact h.last
  empty := by rw [hs, ht, h.empty]

lemma Chained.adopt (h : Chained m i steps) (hr : i.status = .running) (sends : List Event)
    (hchanged : step.changed = true)
    (hfirst : i.state = none → ∃ limit, m.initialStepFrom m.context limit = .ok step) :
    Chained m (i.adopt step sends) (steps ++ [step]) := by
  obtain ⟨work, trace, ha⟩ := exists_adopt_eq step sends hr
  have hlog : (i.adopt step sends).transitions.records =
      i.transitions.records ++ [i.recordOf step] := by
    rw [ha, logged, if_pos h.recording]
    rfl
  have hempty : steps = [] → i.state = none := by
    intro hsteps
    rw [h.empty, ← List.length_eq_zero_iff, h.records.length_eq, hsteps]
    rfl
  have hpaths : (i.adopt step sends).activePaths = (i.recordOf step).after := by
    rw [ha]
    rfl
  refine ⟨?_, ?_, ?_, ?_, ?_, ?_, ?_, ?_, ?_⟩
  · rw [ha]
    exact h.machine
  · rw [ha]
    exact h.recording
  · rw [hlog]
    refine List.rel_append h.records (.cons ⟨rfl, ?_, rfl⟩ .nil)
    rw [← h.machine]
    rfl
  · intro s hs
    obtain hs | hs := List.mem_append.1 hs
    · exact h.changed s hs
    · rw [List.mem_singleton.1 hs]
      exact hchanged
  · cases hsteps : steps with
    | nil =>
      intro s hs
      obtain rfl : step = s := by simpa using hs
      exact hfirst (hempty hsteps)
    | cons s rest => exact fun x hx => h.first x (by rw [hsteps]; exact hx)
  · rw [hlog]
    cases hrecords : i.transitions.records with
    | nil =>
      intro r hr
      obtain rfl : i.recordOf step = r := by simpa using hr
      simp only [recordOf, activePaths, h.empty.2 hrecords]
    | cons r rest => exact fun x hx => h.head x (by rw [hrecords]; exact hx)
  · rw [hlog, List.isChain_append]
    refine ⟨h.links, .singleton _, fun r hr r' hr' => ?_⟩
    obtain rfl : i.recordOf step = r' := by simpa using hr'
    exact (h.last r hr).symm
  · rw [hlog, List.getLast?_concat, hpaths]
    intro r hr
    rw [← Option.some.inj hr]
  · rw [hlog, ha]
    simp

lemma Chained.stop (h : Chained m i steps) : Chained m i.stop steps := by
  rw [Interpreter.stop]
  split
  · exact h
  · exact h.of_eq rfl rfl rfl rfl
  · obtain ⟨trace, hl⟩ := leave_eq ({ i with status := .stopped } : Interpreter C).shutdown
    rw [hl]
    exact h.of_eq rfl rfl rfl rfl

lemma Chained.turn (h : Chained m i steps) (hi : i.InPhase) (ht : Turn i l i') :
    Chained m i' (steps ++ adoptedIn l) := by
  have hquiet : ∀ {i' : Interpreter C}, Chained m i' steps → Chained m i' (steps ++ []) :=
    fun h => (List.append_nil steps).symm ▸ h
  cases ht with
  | round hround =>
    cases hround with
    | @handle event rest hr hq =>
      have hrest : Chained m (i.withQueue rest) steps := h.of_eq rfl rfl rfl rfl
      obtain ⟨s, _, hs, _⟩ := hi.running hr
      rcases handling_cases (i := i.withQueue rest) hs event with
        ⟨e, trace, hj, hp⟩ | ⟨hj, hp⟩ | ⟨step, notes, _, hchanged, _, hj, hp⟩
      · rw [hj, hp]
        exact hquiet (hrest.of_eq rfl rfl rfl rfl)
      · rw [hj, hp]
        exact hquiet (hrest.of_eq rfl rfl rfl rfl)
      · have hadopted : adoptedIn (.handled event none :: .adopted step ::
            ((i.withQueue rest).sendsOf step).map .queued) = [step] :=
          congrArg (step :: ·) (adoptedIn_map_queued _)
        have hnotes : Chained m ((i.withQueue rest).observe notes) steps := h.of_eq rfl rfl rfl rfl
        rw [hj, hp, hadopted]
        exact hnotes.adopt hr _ hchanged fun hnone => absurd (hs.symm.trans hnone) (by simp)
    | _ => exact hquiet (h.of_eq rfl rfl rfl rfl)
  | enter hs =>
    rcases entering_cases hs with ⟨e, metadata, trace, hj, he⟩ | ⟨step, notes, hstep, _, hj, he⟩
    · rw [hj, he]
      exact hquiet (h.of_eq rfl rfl rfl rfl)
    · have hadopted : adoptedIn (.adopted step :: (i.sendsOf step).map .queued) = [step] :=
        congrArg (step :: ·) (adoptedIn_map_queued _)
      have hbegun : Chained m (i.begun.observe notes) steps := h.of_eq rfl rfl rfl rfl
      rw [hj, he, hadopted]
      refine hbegun.adopt rfl _ (Machine.done_of_initialStepFrom hstep).1 fun _ => ?_
      exact ⟨_, h.machine ▸ hstep⟩
  | flush _ =>
    rw [adoptedIn_map_queued]
    exact hquiet (h.of_eq rfl rfl rfl rfl)
  | stop => exact hquiet h.stop

lemma Chained.turns (h : Chained m i steps) (hi : i.InPhase) (ht : Turns i l i') :
    Chained m i' (steps ++ adoptedIn l) := by
  induction ht with
  | refl =>
    rw [show adoptedIn ([] : List (JournalEntry C)) = [] from rfl, List.append_nil]
    exact h
  | tail ht hturn ih =>
    rw [adoptedIn_append, ← List.append_assoc]
    exact ih.turn (Turns.inPhase hi ht) hturn

lemma state_of_checkpoint {id : String} {c : Checkpoint C} (h : i.checkpoint id = .ok c) :
    ∃ s, i.state = some s := by
  cases hs : i.state with
  | none =>
    rw [checkpoint, hs] at h
    exact absurd h (by simp)
  | some s => exact ⟨s, rfl⟩

lemma Chained.restore (hid : m.chart.IdsDistinct) (h : Chained m i steps) (hshows : Shows m i)
    {id : String} {c : Checkpoint C} {settings : Settings} {hasRuntime : Bool} {date : Timestamp}
    (hc : i.checkpoint id = .ok c) (hrec : settings.recordTransitions = true)
    (hr : Interpreter.restore m c settings hasRuntime date = .ok i') : Chained m i' steps := by
  obtain ⟨s, hs⟩ := state_of_checkpoint hc
  obtain ⟨hcovers, event, changed, actions, output, hsn⟩ := hshows.present s hs
  obtain ⟨c', hc', hof, _, htransitions, _⟩ := checkpoint_eq_ok hshows.machine hs hsn rfl id
  obtain rfl := Except.ok.inj (hc'.symm.trans hc)
  obtain ⟨_, _, s', hs', rfl⟩ := restore_eq_ok hr
  obtain rfl : s = s' := Except.ok.inj ((hof.machineState_eq hid hcovers).symm.trans hs')
  have hb := busies_rework (i := create m settings hasRuntime date) c' s
  have hrework : Chained m ((create m settings hasRuntime date).rework c' s) steps := by
    rw [hb]
    exact h.of_eq hshows.machine.symm (hrec.trans h.recording.symm) hs.symm htransitions
  rw [resume_eq]
  split
  · exact hrework.stop
  · exact hrework

lemma Annals.chained (hm : m.WellFormed) (hd : m.chart.Closed) (hid : m.chart.IdsDistinct)
    (h : Annals m i steps) : Chained m i steps := by
  induction h with
  | create hrec hasRuntime date => exact chained_create hrec hasRuntime date
  | restore h hc hrec hr ih =>
    obtain ⟨past, hhistory⟩ := h.history
    exact ih.restore hid (hhistory.reaches.shows hm hd).1 hc hrec hr
  | call h hr ih =>
    obtain ⟨past, hhistory⟩ := h.history
    exact ih.turns hhistory.inPhase (Request.run_turns hhistory.inPhase hr).1
  | meanwhile _ hi ih =>
    rw [hi.eq]
    exact ih.of_eq rfl rfl rfl rfl

/-- The log has one record for each step that was adopted, and leads from nothing to the states that
are active now. -/
theorem transitions_chain [JsonCoded C] {d : Definition} {b : Behaviors C} {context : Option C}
    (hb : Machine.build d b context = .ok m) (h : Annals m i steps) :
    let records := i.transitions.records
    (List.Forall₂ (RecordOf m) records steps ∧ (∀ step ∈ steps, step.changed = true) ∧
      ∀ step ∈ steps.head?, ∃ limit, m.initialStepFrom m.context limit = .ok step) ∧
    (∀ r ∈ records.head?, r.before = []) ∧
    (records.IsChain fun r r' => r'.before = r.after) ∧
    (∀ r ∈ records.getLast?, r.after = i.activePaths) ∧
    (i.state = none ↔ records = []) ∧
    (records ≠ [] → i.transitions.path = [] :: records.map (·.after)) := by
  have hchained := h.chained (Machine.wellFormed_of_build hb) (Machine.closed_of_build hb)
    (Machine.idsDistinct_of_build hb)
  refine ⟨⟨hchained.records, hchained.changed, hchained.first⟩, hchained.head, hchained.links,
    hchained.last, hchained.empty, fun hne => ?_⟩
  obtain ⟨r, rest, hrecords⟩ := List.exists_cons_of_ne_nil hne
  have hbefore : r.before = [] := hchained.head r (by simp [hrecords])
  rw [TransitionLog.path, hrecords, List.head?_cons, Option.map_some, hbefore]
  rfl

def pacing : Definition := .ofRoot
  { initial := some "walk"
    states := [
      ("walk", { on := .ofList [("GO", [{ target := ["run"] }])] }),
      ("run", {
        on := .ofList [
          ("TRIP", [{ target := ["walk"], actions := ["fall"] }]),
          ("REST", [{ target := ["walk"] }])] })] }

def pacingBehaviors : Behaviors Unit where
  actions := .ofList [("fall", .effect fun _ _ => .error ⟨"bruised"⟩)]

def pacingMachine : Machine Unit :=
  Machine.assemble pacing () (Machine.link pacing pacingBehaviors).value

lemma build_pacing : Machine.build pacing pacingBehaviors (some ()) = .ok pacingMachine := rfl

theorem pacing_chains : ∃ i steps, Annals pacingMachine i steps ∧
    List.Forall₂ (RecordOf pacingMachine) i.transitions.records steps ∧
    (i.transitions.records.IsChain fun r r' => r'.before = r.after) ∧
    i.transitions.path = [[], ["walk"], ["run"], ["walk"]] := by
  have hwalk : ((Request.start.run 0 (create pacingMachine {} false .epoch)).bind fun r =>
      (Request.run 1 r.1 (.send (.ofType "GO"))).bind fun r =>
      (Request.run 1 r.1 (.send (.ofType "TRIP"))).bind fun r =>
      (r.1.checkpoint "break").toOption.bind fun c =>
      (restore pacingMachine c {} false .epoch).toOption.bind fun i =>
      (Request.run 1 i (.send (.ofType "REST"))).map fun r => r.1.transitions.path) =
        some [[], ["walk"], ["run"], ["walk"]] := by
    decide +kernel
  obtain ⟨r₁, h₁, hwalk⟩ := Option.bind_eq_some_iff.1 hwalk
  obtain ⟨r₂, h₂, hwalk⟩ := Option.bind_eq_some_iff.1 hwalk
  obtain ⟨r₃, h₃, hwalk⟩ := Option.bind_eq_some_iff.1 hwalk
  obtain ⟨c, hc, hwalk⟩ := Option.bind_eq_some_iff.1 hwalk
  obtain ⟨i, hi, hwalk⟩ := Option.bind_eq_some_iff.1 hwalk
  obtain ⟨r₄, h₄, hpath⟩ := Option.map_eq_some_iff.1 hwalk
  have hcreated : Annals pacingMachine (create pacingMachine {} false .epoch) [] :=
    .create rfl false .epoch
  have hbefore : Annals pacingMachine r₃.1 _ := ((hcreated.call h₁).call h₂).call h₃
  have h : Annals pacingMachine r₄.1 _ :=
    (hbefore.restore (eq_ok_of_toOption hc) rfl (eq_ok_of_toOption hi)).call h₄
  obtain ⟨⟨hrecords, _⟩, _, hlinks, _⟩ := transitions_chain build_pacing h
  exact ⟨r₄.1, _, h, hrecords, hlinks, hpath⟩

end Interpreter

end Statechart
