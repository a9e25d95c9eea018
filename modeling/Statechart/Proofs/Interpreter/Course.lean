import Mathlib.Tactic.Common
import Statechart.Machine.Build
import Statechart.Proofs.Checkpoint.Restore
import Statechart.Proofs.Step.Legality

/-! The course of an interpreter: what events that are sent to it lead to, while timers and services
deliver nothing. -/

namespace Statechart

structure Core (C : Type) where
  machine : Machine C
  settings : Settings
  status : Status
  state : Option (MachineState C)
  queue : List Event

namespace Interpreter

variable {C : Type} {i j : Interpreter C}

def core (i : Interpreter C) : Core C := ⟨i.machine, i.settings, i.status, i.state, i.queue⟩

lemma core_eq_iff : i.core = j.core ↔ i.machine = j.machine ∧ i.settings = j.settings ∧
    i.status = j.status ∧ i.state = j.state ∧ i.queue = j.queue := by
  simp [core]

lemma stop_core (hr : i.status = .running) :
    i.stop.core = { i.core with status := .stopped, queue := [] } := by
  obtain ⟨trace, hl⟩ := leave_eq ({ i with status := .stopped } : Interpreter C).shutdown
  simp only [stop, hr, hl]
  rfl

lemma adopt_core (step : Step C) (sends : List Event) (hr : i.status = .running) :
    (i.adopt step sends).core = { i.core with
      state := some step.state
      status := if step.done then .stopped else .running
      queue := if step.done then [] else i.queue ++ sends } := by
  have hb := busies_trade i step sends
  have hcore : ((i.trade step sends).display step (i.logged step)).core = { i.core with
      state := some step.state
      queue := i.queue ++ sends } := by
    rw [display, hb]
    rfl
  have hst : ((i.trade step sends).display step (i.logged step)).status = .running := by
    rw [display, hb]
    exact hr
  rw [adopt_eq]
  split
  · rw [stop_core hst, hcore]
  · rw [hcore, core, hr]

lemma commit_core (h : i.core = j.core) (hr : i.status = .running) (step : Step C) :
    (i.commit step).1.core = (j.commit step).1.core ∧ (i.commit step).2 = (j.commit step).2 := by
  obtain ⟨hm, hset, hst, _, hq⟩ := core_eq_iff.1 h
  have hperform : i.performStep step = j.performStep step := by
    rw [performStep, performStep, hm, hset]
  rw [commit, commit, hperform]
  split
  · cases j.performStep step with
    | mk notes sent =>
      cases sent with
      | error e => exact ⟨h, rfl⟩
      | ok sends =>
        have hi := adopt_core (i := i.observe notes) step sends hr
        have hj := adopt_core (i := j.observe notes) step sends (hst ▸ hr)
        have hcore : (i.observe notes).core = (j.observe notes).core := h
        have hqueue : (i.observe notes).queue = (j.observe notes).queue := hq
        exact ⟨by rw [hi, hj, hcore, hqueue], rfl⟩
  · exact ⟨h, rfl⟩

lemma process_core (h : i.core = j.core) (hr : i.status = .running) (event : Event) :
    (i.process event).1.core = (j.process event).1.core ∧
      (i.process event).2 = (j.process event).2 := by
  obtain ⟨hm, hset, _, hs, _⟩ := core_eq_iff.1 h
  rw [process, process, hm, hset, hs]
  split
  · exact ⟨h, rfl⟩
  · split
    · exact ⟨h, rfl⟩
    · rename_i step _
      obtain ⟨hcore, herror⟩ := commit_core h hr step
      rw [commitOrReport, commitOrReport]
      generalize i.commit step = r at hcore herror ⊢
      generalize j.commit step = r' at hcore herror ⊢
      obtain ⟨i', e⟩ := r
      obtain ⟨j', e'⟩ := r'
      obtain rfl : e = e' := herror
      cases e with
      | none => exact ⟨hcore, rfl⟩
      | some e => exact ⟨hcore, rfl⟩

lemma answer_core {E : Type} (h : i.core = j.core) (e : Option E) :
    (some (i, e)).map (Prod.map core id) = (some (j, e)).map (Prod.map core id) := by
  rw [Option.map_some, Option.map_some, Prod.map_apply, Prod.map_apply, h]

lemma answers_of_core {E : Type} {a b : Option (Interpreter C × E)}
    (h : a.map (Prod.map core id) = b.map (Prod.map core id)) :
    a = none ∧ b = none ∨ ∃ i j e, a = some (i, e) ∧ b = some (j, e) ∧ i.core = j.core := by
  cases a with
  | none =>
    cases b with
    | none => exact .inl ⟨rfl, rfl⟩
    | some r => exact absurd h (by simp)
  | some r =>
    cases b with
    | none => exact absurd h (by simp)
    | some r' =>
      obtain ⟨hcore, he⟩ := Prod.mk.inj (Option.some.inj h)
      exact .inr ⟨r.1, r'.1, r.2, rfl, congrArg some (Prod.ext rfl he.symm), hcore⟩

lemma drain_core (h : i.core = j.core) (fuel : Nat) :
    (i.drain fuel).map (Prod.map core id) = (j.drain fuel).map (Prod.map core id) := by
  induction fuel generalizing i j with
  | zero =>
    obtain ⟨_, _, hst, _, hq⟩ := core_eq_iff.1 h
    by_cases hr : i.status = .running
    · cases hqueue : i.queue with
      | nil =>
        rw [drain_of_nil hqueue, drain_of_nil (hq ▸ hqueue)]
        exact answer_core h none
      | cons event rest =>
        rw [drain_zero_of_cons hr hqueue, drain_zero_of_cons (hst ▸ hr) (hq ▸ hqueue)]
    · rw [drain_of_not_running hr, drain_of_not_running (hst ▸ hr)]
      exact answer_core h none
  | succ fuel ih =>
    obtain ⟨hm, hset, hst, hs, hq⟩ := core_eq_iff.1 h
    by_cases hr : i.status = .running
    · cases hqueue : i.queue with
      | nil =>
        rw [drain_of_nil hqueue, drain_of_nil (hq ▸ hqueue)]
        exact answer_core h none
      | cons event rest =>
        have hrest : ({ i with queue := rest } : Interpreter C).core =
            ({ j with queue := rest } : Interpreter C).core :=
          core_eq_iff.2 ⟨hm, hset, hst, hs, rfl⟩
        obtain ⟨hcore, herror⟩ := process_core hrest hr event
        have hdrain := ih hcore
        rw [drain_succ_of_cons hr hqueue, drain_succ_of_cons (hst ▸ hr) (hq ▸ hqueue), herror]
        generalize drain fuel (process { i with queue := rest } event).1 = d at hdrain ⊢
        generalize drain fuel (process { j with queue := rest } event).1 = d' at hdrain ⊢
        have hmap := congrArg (Option.map fun r : Core C × Option StepError =>
          (r.1, (process { j with queue := rest } event).2 <|> r.2)) hdrain
        rw [Option.map_map, Option.map_map] at hmap
        rw [Option.map_map, Option.map_map]
        exact hmap
    · rw [drain_of_not_running hr, drain_of_not_running (hst ▸ hr)]
      exact answer_core h none

lemma send_core (h : i.core = j.core) (fuel : Nat) (event : Event) :
    (i.send fuel event).map (Prod.map core id) = (j.send fuel event).map (Prod.map core id) := by
  obtain ⟨hm, hset, hst, hs, hq⟩ := core_eq_iff.1 h
  rw [send, send, hm, hset, hst]
  split
  · split
    · simp only [Option.map_some, Prod.map_apply, core, hs, hq]
    · exact answer_core h _
  · exact answer_core h none
  · have henqueue : (i.enqueue [event]).core = (j.enqueue [event]).core :=
      core_eq_iff.2 ⟨hm, hset, hst, hs, by rw [enqueue, enqueue, hq]⟩
    rcases answers_of_core (drain_core henqueue fuel) with ⟨hi, hj⟩ | ⟨i', j', e, hi, hj, hcore⟩
    · rw [hi, hj]
    · rw [hi, hj]
      exact answer_core hcore _

def course (fuel : Nat) : List Event → Interpreter C →
    Option (List (Status × Option (MachineState C) × Option InterpreterError))
  | [], _ => some []
  | event :: rest, i => do
    let (i, error) ← i.send fuel event
    return (i.status, i.state, error) :: (← course fuel rest i)

lemma course_core (h : i.core = j.core) (fuel : Nat) (events : List Event) :
    i.course fuel events = j.course fuel events := by
  induction events generalizing i j with
  | nil => rfl
  | cons event rest ih =>
    rw [course, course]
    rcases answers_of_core (send_core h fuel event) with ⟨hi, hj⟩ | ⟨i', j', e, hi, hj, hcore⟩
    · rw [hi, hj]
    · obtain ⟨_, _, hst, hs, _⟩ := core_eq_iff.1 hcore
      simp only [hi, hj, Option.bind_eq_bind, Option.bind_some, hst, hs, ih hcore]

def Unperformed (i : Interpreter C) : Prop := ∀ o ∈ i.trace, ¬ o.IsPerformed

lemma Unperformed.observe {l : List (Observation C)} (h : i.Unperformed)
    (hl : ∀ o ∈ l, ¬ o.IsPerformed) : (i.observe l).Unperformed := by
  intro o ho
  cases List.mem_append.1 ho with
  | inl ho => exact h o ho
  | inr ho => exact hl o ho

lemma Unperformed.foldl {α : Type} {f : Interpreter C → α → Interpreter C}
    (hf : ∀ i a, i.Unperformed → (f i a).Unperformed) (l : List α) (h : i.Unperformed) :
    (l.foldl f i).Unperformed := by
  induction l generalizing i with
  | nil => exact h
  | cons a l ih => exact ih (hf i a h)

lemma Unperformed.stopActivity (h : i.Unperformed) (n : NodeId) (name : String) :
    (i.stopActivity n name).Unperformed := by
  apply Unperformed.observe h
  simp [Observation.IsPerformed]

lemma Unperformed.startActivity (h : i.Unperformed) (n : NodeId) (name : String)
    (started stopped : Value) : (i.startActivity n name started stopped).Unperformed := by
  apply Unperformed.stopActivity
  apply h.observe
  simp [Observation.IsPerformed]

lemma Unperformed.startService (h : i.Unperformed) (n : NodeId) (id : String) (r : ServiceRun) :
    (i.startService n id r).Unperformed := by
  rw [Interpreter.startService]
  split
  · apply h.observe
    simp [Observation.IsPerformed]
  · exact h

lemma Unperformed.startWork (h : i.Unperformed) (event : Event) (n : NodeId) :
    (startWork event i n).Unperformed := by
  rw [Interpreter.startWork]
  split
  · exact h
  · refine Unperformed.foldl ?_ _ (Unperformed.foldl ?_ _ (Unperformed.foldl ?_ _ h))
    · exact fun i v hi => hi.startService n v.id _
    · exact fun i a hi => hi.startActivity n a.name _ _
    · exact fun i d hi => hi

end Interpreter

def Snapshot.resumed {C : Type} (x : Snapshot C) : Snapshot C :=
  { x with event := .ofType x.event.type, changed := false, actions := [], output := none }

namespace Interpreter

variable {C : Type} {m : Machine C} {i j : Interpreter C} {s : MachineState C}

structure Continues (i j : Interpreter C) : Prop where
  machine : j.machine = i.machine
  settings : j.settings = i.settings
  running : j.status = .running
  state : j.state = i.state
  snapshot : j.snapshot = i.snapshot.map Snapshot.resumed
  transitions : j.transitions = i.transitions
  metadata : j.metadata = i.metadata
  unperformed : j.Unperformed
  course : ∀ fuel events, j.course fuel events = i.course fuel events

lemma restore_of_eq_ok {c : Checkpoint C} (settings : Settings) {hasRuntime : Bool}
    (date : Timestamp) (hvalid : c.validate m = .ok ()) (hw : m.needsRuntime → hasRuntime)
    (hs : c.machineState m = .ok s) :
    restore m c settings hasRuntime date =
      .ok ((create m settings hasRuntime date).resume c s) := by
  have hruntime : (m.needsRuntime && !hasRuntime) = false := by
    cases hn : m.needsRuntime with
    | false => rfl
    | true => simp [hw hn]
  rw [restore, hvalid, hruntime, hs]
  rfl

lemma continues_resume {c : Checkpoint C} {x : Snapshot C} {hasRuntime : Bool} {date : Timestamp}
    (hm : i.machine = m) (hr : i.status = .running) (hs : i.state = some s) (hq : i.queue = [])
    (hdone : m.isDone s.configuration = false) (hsn : i.snapshot = some x)
    (hx : ∃ event changed actions output, x = m.snapshot s event changed actions output)
    (hevent : c.event = x.event.type) (htransitions : c.transitions = i.transitions)
    (hmetadata : c.metadata = i.metadata) :
    Continues i ((create m i.settings hasRuntime date).resume c s) := by
  let j := create m i.settings hasRuntime date
  have hb : Busies (j.reinstate c s) (j.rework c s) := busies_rework c s
  have hperformed : (j.rework c s).Unperformed := by
    apply Unperformed.foldl fun i n hi => hi.startWork _ n
    exact fun o ho => absurd ho List.not_mem_nil
  have hdone' : j.machine.isDone s.configuration = false := hdone
  obtain ⟨event, changed, actions, output, rfl⟩ := hx
  rw [resume_eq, hdone', if_neg Bool.false_ne_true]
  refine ⟨?_, ?_, ?_, ?_, ?_, ?_, ?_, hperformed, fun fuel events => course_core ?_ fuel events⟩
  · rw [hm, hb]
    rfl
  · rw [hb]
    rfl
  · rw [hb]
    rfl
  · rw [hs, hb]
    rfl
  · rw [hsn, hb, Option.map_some, Snapshot.resumed]
    refine congrArg some ?_
    rw [← hevent]
    rfl
  · rw [← htransitions, hb]
    rfl
  · rw [← hmetadata, hb]
    rfl
  · rw [hb]
    exact core_eq_iff.2 ⟨hm.symm, rfl, hr.symm, hs.symm, hq.symm⟩

section

variable [JsonCoded C] {d : Definition} {b : Behaviors C} {context : Option C}

/-- A checkpoint of a running interpreter is accepted, and what is restored from it, wherever there
is a runtime if there was one before, goes on like the interpreter itself. -/
theorem restore_continues (hb : Machine.build d b context = .ok m) (hi : Reaches m i)
    (hr : i.status = .running) (hs : i.state = some s) (hdone : m.isDone s.configuration = false)
    (hl : m.chart.Legal s.configuration) {hasRuntime : Bool}
    (hw : i.work.hasRuntime → hasRuntime) (id : String) (date : Timestamp) :
    ∃ c, i.checkpoint id = .ok c ∧ c.validate m = .ok () ∧
      ∃ j, restore m c i.settings hasRuntime date = .ok j ∧ Continues i j := by
  have hm := Machine.wellFormed_of_build hb
  have hids := Machine.idsDistinct_of_build hb
  obtain ⟨hshows, hrest⟩ := hi.shows hm (Machine.closed_of_build hb)
  obtain ⟨s', hs', hc, event, changed, actions, output, hsn⟩ := hshows.state hr
  obtain rfl : s' = s := Option.some.inj (hs'.symm.trans hs)
  obtain ⟨c, hcheckpoint, hof, hevent, htransitions, hmetadata⟩ :=
    checkpoint_eq_ok hshows.machine hs hsn rfl id
  have hvalid := hof.validate_eq hids hc hm.chart hl.consistent
  have hruntime : m.needsRuntime → hasRuntime := fun hn => hw (hshows.runtime hr hn)
  refine ⟨c, hcheckpoint, hvalid, _, restore_of_eq_ok i.settings date hvalid hruntime
    (hof.machineState_eq hids hc), ?_⟩
  exact continues_resume hshows.machine hr hs (hrest hr) hdone hsn ⟨_, _, _, _, rfl⟩ hevent
    htransitions hmetadata

end

open Machine (pausingMachine build_pausing) in
theorem pausing_continues :
    ∃ i c j, Reaches pausingMachine i ∧ i.checkpoint "saved" = .ok c ∧
      restore pausingMachine c i.settings i.work.hasRuntime .epoch = .ok j ∧ Continues i j ∧
        (j.course 1 [.ofType "RESUME"]).map
          (List.map fun r => r.2.1.map fun s => s.configuration.elems) =
            some [some [0, 1, 2, 3, 5, 6]] := by
  have hrun : (((create pausingMachine {} false .epoch).start 1).bind fun r =>
      (r.1.send 1 (.ofType "GO")).bind fun r => r.1.send 1 (.ofType "PAUSE")).map
        (fun r => (r.1.status, r.1.state.map MachineState.configuration,
          (r.1.course 1 [.ofType "RESUME"]).map
            (List.map fun r => r.2.1.map fun s => s.configuration.elems))) =
      some (.running, some (.ofList [0, 8]), some [some [0, 1, 2, 3, 5, 6]]) := by
    decide +kernel
  obtain ⟨⟨i, _⟩, hi, hvalues⟩ := Option.map_eq_some_iff.1 hrun
  obtain ⟨⟨i₁, _⟩, h₁, hi⟩ := Option.bind_eq_some_iff.1 hi
  obtain ⟨⟨i₂, _⟩, h₂, h₃⟩ := Option.bind_eq_some_iff.1 hi
  have hstart : Reaches pausingMachine i₁ := (Reaches.create {} false .epoch).start h₁
  have hreach : Reaches pausingMachine i := (hstart.send h₂).send h₃
  simp only [Prod.mk.injEq] at hvalues
  obtain ⟨hr, hstate, hcourse⟩ := hvalues
  obtain ⟨s, hs, hconf⟩ := Option.map_eq_some_iff.1 hstate
  have hlegal : pausingMachine.chart.Legal s.configuration := by
    rw [hconf]
    have hchild : ∀ n ∈ (.ofList [0, 8] : Configuration), (pausingMachine.chart.node n).isCompound →
        8 ∈ (pausingMachine.chart.node n).children ∧
          ∀ child ∈ (pausingMachine.chart.node n).children,
            child ∈ (.ofList [0, 8] : Configuration) → child = 8 := by decide
    refine ⟨by decide, by decide, by decide, fun n hn hc => ?_, by decide⟩
    obtain ⟨hmem, hone⟩ := hchild n hn hc
    exact ⟨8, ⟨hmem, by decide⟩, fun child h => hone child h.1 h.2⟩
  obtain ⟨c, hc, _, j, hj, hcontinues⟩ := restore_continues build_pausing hreach hr hs
    (by rw [hconf]; decide) hlegal id "saved" .epoch
  exact ⟨i, c, j, hreach, hc, hj, hcontinues, by rw [hcontinues.course, hcourse]⟩

end Interpreter

end Statechart
