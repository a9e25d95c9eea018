import Mathlib.Tactic.Common
import Statechart.Proofs.Interpreter.Histories
import Statechart.Proofs.Interpreter.Overlay
import Statechart.Proofs.Step.Sources

/-! Events sent before the start. If no step sends events itself, an interpreter that is started
after them is left as one that is sent them after its start, but for the times it has noted. -/

namespace Statechart

def TransitionLog.undated (log : TransitionLog) : TransitionLog :=
  ⟨log.records.map fun r => { r with timestamp := .epoch }⟩

def CheckpointMetadata.undated (d : CheckpointMetadata) : CheckpointMetadata :=
  { d with createdAt := .epoch, updatedAt := .epoch }

def Action.sends {C : Type} : Action C → Bool
  | .send _ => true
  | _ => false

namespace Interpreter

variable {C : Type} {m : Machine C} {i j i' : Interpreter C} {fuel : Nat}

def essence (i : Interpreter C) : Interpreter C :=
  { i with
    deferred := []
    queue := []
    transitions := i.transitions.undated
    date := .epoch
    metadata := i.metadata.undated }

lemma overlay_essence : Overlay (essence (C := C)) :=
  ⟨fun _ => rfl, fun _ => rfl, fun _ => rfl, fun _ => rfl, fun _ => rfl, fun _ _ => rfl,
    fun _ _ => rfl⟩

lemma stop_essence (i : Interpreter C) : i.essence.stop = i.stop.essence := by
  have hs : i.essence.status = i.status := rfl
  cases h : i.status with
  | stopped => simp only [stop, hs, h]
  | notStarted =>
    simp only [stop, hs, h]
    rfl
  | running =>
    have hshut : ({ i.essence with status := .stopped } : Interpreter C).shutdown =
        ({ i with status := .stopped } : Interpreter C).shutdown.essence := rfl
    simp only [stop, hs, h, hshut, overlay_essence.leave]
    rfl

lemma logged_essence (i : Interpreter C) (step : Step C) :
    i.essence.logged step = (i.logged step).undated := by
  have hset : i.essence.settings = i.settings := rfl
  rw [logged, logged, hset]
  split
  · simp [TransitionLog.undated, TransitionLog.record, essence, recordOf, activePaths]
  · rfl

lemma adopt_essence (i : Interpreter C) (step : Step C) :
    i.essence.adopt step [] = (i.adopt step []).essence := by
  have htrade : i.essence.trade step [] = (i.trade step []).essence :=
    overlay_essence.trade i fun _ => rfl
  have hdisplay : ∀ (j : Interpreter C) log,
      j.essence.display step log.undated = (j.display step log).essence := fun _ _ => rfl
  rw [adopt_eq, adopt_eq, htrade, logged_essence, hdisplay, stop_essence]
  split <;> rfl

def Quiet (i : Interpreter C) : Prop :=
  i.settings.executeActions = false ∨ ∀ event, ¬ i.machine.Declares (.send event)

lemma quiet_of_parts (h : ∀ p ∈ i.machine.parts, p.actions.all fun a => !a.sends) :
    i.Quiet := by
  refine .inr fun event ⟨n, hn⟩ => ?_
  rw [Machine.partsOf, List.getD_eq_getElem?_getD] at hn
  cases hget : i.machine.parts[n]? with
  | none =>
    rw [hget] at hn
    exact absurd hn List.not_mem_nil
  | some p =>
    rw [hget] at hn
    have hnot := List.all_eq_true.1 (h p (List.mem_of_getElem? hget)) (.send event) hn
    exact absurd hnot (by simp [Action.sends])

lemma Quiet.of_eq (h : i.Quiet) (hm : i'.machine = i.machine) (hs : i'.settings = i.settings) :
    i'.Quiet := by
  rwa [Quiet, hm, hs]

lemma Quiet.sendsOf (h : i.Quiet) {step : Step C} (hstep : i.machine.Sources step) :
    i.sendsOf step = [] := by
  rw [Interpreter.sendsOf]
  split
  · rename_i hx
    have hnone := h.resolve_left (by simp [hx])
    refine List.filterMap_eq_nil_iff.2 fun p hp => ?_
    rw [Pending.sent?]
    split
    · rename_i event ha
      exact absurd (ha ▸ hstep.actions p hp) (hnone event)
    · rfl
  · rfl

lemma Quiet.commit_essence (h : i.Quiet) {step : Step C} (hstep : i.machine.Sources step) :
    i.essence.commit step = (i.commit step).map essence id := by
  refine overlay_essence.commit i (fun j sends hsends => ?_) rfl
  rw [performStep_sends hsends, h.sendsOf hstep]
  exact adopt_essence j step

lemma Quiet.process_essence (h : i.Quiet) (event : Event) :
    i.essence.process event = (i.process event).map essence id :=
  overlay_essence.process i fun _ _ _ hstep => h.commit_essence (Machine.sources_stepWithin hstep)

lemma Quiet.enterInitial_essence (h : i.Quiet) :
    i.essence.enterInitial = i.enterInitial.map essence id := by
  cases hstep : i.machine.initialStepFrom i.machine.context i.settings.maxMicrosteps with
  | error e =>
    have he : i.essence.machine.initialStepFrom i.essence.machine.context
        i.essence.settings.maxMicrosteps = .error e := hstep
    simp only [enterInitial, hstep, he]
    rfl
  | ok step =>
    have he : i.essence.machine.initialStepFrom i.essence.machine.context
        i.essence.settings.maxMicrosteps = .ok step := hstep
    have hbegun : i.begun.Quiet := h.of_eq rfl rfl
    have hcommit := hbegun.commit_essence (Machine.sources_initialStepFrom hstep)
    have hsame : i.begun.essence = i.essence.begun := rfl
    rw [hsame, begun, begun] at hcommit
    simp only [enterInitial, hstep, he, hcommit]
    rcases ({ i with status := .running, metadata := .startingAt i.date } : Interpreter C).commit
      step with ⟨j, _ | e⟩
    · rfl
    · rfl

def handleAll (i : Interpreter C) : List Event → Interpreter C × Option StepError
  | [] => (i, none)
  | event :: rest =>
    if i.status = .running then
      let (j, error) := i.process event
      let (k, later) := j.handleAll rest
      (k, error <|> later)
    else (i, none)

lemma handleAll_of_not_running (hr : i.status ≠ .running) (events : List Event) :
    i.handleAll events = (i, none) := by
  cases events with
  | nil => rfl
  | cons event rest => rw [handleAll, if_neg hr]

lemma handleAll_append (i : Interpreter C) (events events' : List Event) :
    i.handleAll (events ++ events') = (((i.handleAll events).1.handleAll events').1,
      (i.handleAll events).2 <|> ((i.handleAll events).1.handleAll events').2) := by
  induction events generalizing i with
  | nil => simp [handleAll]
  | cons event rest ih =>
    rw [List.cons_append, handleAll, handleAll]
    split
    · simp only [ih, Option.orElse_eq_orElse, Option.orElse_eq_or, Option.or_assoc]
    · rename_i hr
      simp [handleAll_of_not_running hr]

structure Proceeds (i i' : Interpreter C) : Prop where
  machine : i'.machine = i.machine
  settings : i'.settings = i.settings
  deferred : i'.deferred = i.deferred
  started : i'.status ≠ .notStarted
  shown : i.snapshot ≠ none → i'.snapshot ≠ none

lemma Proceeds.refl (hn : i.status ≠ .notStarted) : Proceeds i i := ⟨rfl, rfl, rfl, hn, id⟩

lemma Proceeds.of_eq (h : Proceeds i i') (hm : j.machine = i.machine)
    (hset : j.settings = i.settings) (hd : j.deferred = i.deferred)
    (hsn : j.snapshot = i.snapshot) : Proceeds j i' where
  machine := h.machine.trans hm.symm
  settings := h.settings.trans hset.symm
  deferred := h.deferred.trans hd.symm
  started := h.started
  shown := fun hx => h.shown (hsn ▸ hx)

lemma Proceeds.trans (h : Proceeds i j) (h' : Proceeds j i') : Proceeds i i' where
  machine := h'.machine.trans h.machine
  settings := h'.settings.trans h.settings
  deferred := h'.deferred.trans h.deferred
  started := h'.started
  shown := fun hx => h'.shown (h.shown hx)

lemma proceeds_adopt (step : Step C) (hr : i.status = .running) :
    Proceeds i (i.adopt step []) ∧
      ((i.adopt step []).status = .running → (i.adopt step []).queue = i.queue) := by
  obtain ⟨work, trace, ha⟩ := exists_adopt_eq step [] hr
  rw [ha]
  refine ⟨⟨rfl, rfl, rfl, ?_, fun _ => Option.some_ne_none _⟩, ?_⟩
  · cases step.done <;> simp
  · cases step.done <;> simp

lemma Quiet.proceeds (h : i.Quiet) (hr : i.status = .running) (event : Event) :
    Proceeds i (i.process event).1 ∧
      ((i.process event).1.status = .running → (i.process event).1.queue = i.queue) := by
  have hn : i.status ≠ .notStarted := by simp [hr]
  cases hs : i.state with
  | none =>
    have hp : i.process event = (i, none) := by simp only [process, hs]
    rw [hp]
    exact ⟨.refl hn, fun _ => rfl⟩
  | some s =>
    rcases handling_cases hs event with
      ⟨e, trace, _, hp⟩ | ⟨_, hp⟩ | ⟨step, notes, hstep, _, _, _, hp⟩
    · rw [hp]
      exact ⟨⟨rfl, rfl, rfl, hn, id⟩, fun _ => rfl⟩
    · rw [hp]
      exact ⟨⟨rfl, rfl, rfl, hn, id⟩, fun _ => rfl⟩
    · rw [hp, h.sendsOf (Machine.sources_stepWithin hstep)]
      obtain ⟨hadopt, hqueue⟩ := proceeds_adopt (i := i.observe notes) step hr
      exact ⟨hadopt.of_eq rfl rfl rfl rfl, hqueue⟩

lemma Quiet.drain {events : List Event} (h : i.Quiet) (hn : i.status ≠ .notStarted)
    (hq : i.status = .running → i.queue = events) (hf : events.length ≤ fuel) :
    ∃ k e, i.drain fuel = some (k, e) ∧ i.essence.handleAll events = (k.essence, e) ∧
      Proceeds i k ∧ (k.status = .running → k.queue = []) := by
  induction events generalizing i fuel with
  | nil =>
    have hdrain : i.drain fuel = some (i, none) := by
      by_cases hr : i.status = .running
      · exact drain_of_nil (hq hr)
      · exact drain_of_not_running hr
    exact ⟨i, none, hdrain, rfl, .refl hn, hq⟩
  | cons event rest ih =>
    by_cases hr : i.status = .running
    · obtain ⟨fuel, rfl⟩ := Nat.exists_eq_add_one.2 (Nat.lt_of_lt_of_le (Nat.succ_pos _) hf)
      have hrest : (i.withQueue rest).Quiet := h.of_eq rfl rfl
      obtain ⟨hprocess, hqueue⟩ := hrest.proceeds hr event
      have hessence : i.essence.process event =
          ((i.withQueue rest).process event).map essence id := hrest.process_essence event
      rcases hp : (i.withQueue rest).process event with ⟨j, first⟩
      rw [hp] at hprocess hqueue hessence
      obtain ⟨k, later, hdrain, hhandle, hproceeds, hempty⟩ :=
        ih (hrest.of_eq hprocess.machine hprocess.settings) hprocess.started hqueue
          (Nat.le_of_succ_le_succ hf)
      have hij : Proceeds i j := hprocess.of_eq rfl rfl rfl rfl
      refine ⟨k, first <|> later, ?_, ?_, hij.trans hproceeds, hempty⟩
      · have hwith : ({ i with queue := rest } : Interpreter C).process event = (j, first) := hp
        rw [drain_succ_of_cons hr (hq hr), hwith, hdrain]
        rfl
      · have hessence' : i.essence.status = .running := hr
        rw [handleAll, if_pos hessence', hessence]
        simp only [Prod.map_apply, id, hhandle]
    · refine ⟨i, none, drain_of_not_running hr, ?_, .refl hn, fun hr' => absurd hr' hr⟩
      exact handleAll_of_not_running (i := i.essence) hr _

def entrance (i : Interpreter C) : Interpreter C × Option InterpreterError :=
  if i.machine.needsRuntime && !i.work.hasRuntime then (i, some (.noRuntime i.machine.id))
  else i.enterInitial.map id (·.map .step)

lemma Quiet.entrance_essence (h : i.Quiet) :
    i.essence.entrance = i.entrance.map essence id := by
  rw [entrance, entrance, h.enterInitial_essence]
  change (if i.machine.needsRuntime && !i.work.hasRuntime then _ else _) = _
  split <;> rfl

lemma entrance_failed {e : InterpreterError} (hs : i.status = .notStarted)
    (h : i.entrance = (j, some e)) :
    j.status = .notStarted ∧ j.settings = i.settings ∧ j.deferred = i.deferred := by
  rw [entrance] at h
  split at h
  · obtain ⟨rfl, _⟩ := Prod.mk.inj h
    exact ⟨hs, rfl, rfl⟩
  · rcases entering_cases hs with ⟨e', metadata, trace, _, he⟩ | ⟨step, notes, _, _, _, he⟩
    · rw [he] at h
      obtain ⟨rfl, _⟩ := Prod.mk.inj h
      exact ⟨hs, rfl, rfl⟩
    · rw [he] at h
      exact absurd (Prod.mk.inj h).2 (by simp)

lemma Quiet.entered (h : i.Quiet) (hs : i.status = .notStarted) (he : i.entrance = (j, none)) :
    Proceeds i j ∧ j.snapshot ≠ none ∧ (j.status = .running → j.queue = i.queue) := by
  rw [entrance] at he
  split at he
  · exact absurd (Prod.mk.inj he).2 (by simp)
  · rcases entering_cases hs with ⟨e', metadata, trace, _, hj⟩ | ⟨step, notes, hstep, _, _, hj⟩
    · rw [hj] at he
      exact absurd (Prod.mk.inj he).2 (by simp)
    · rw [h.sendsOf (Machine.sources_initialStepFrom hstep)] at hj
      obtain ⟨hsnapshot, _⟩ := snapshot_of_entered hs hj
      rw [hj] at he
      obtain rfl : (i.begun.observe notes).adopt step [] = j := (Prod.mk.inj he).1
      obtain ⟨hadopt, hqueue⟩ := proceeds_adopt (i := i.begun.observe notes) step rfl
      exact ⟨hadopt.of_eq rfl rfl rfl rfl, hsnapshot, hqueue⟩

lemma run_start_failed {e : InterpreterError} (hs : i.status = .notStarted)
    (h : i.entrance = (j, some e)) : Request.start.run fuel i = some (j, some e) := by
  rw [entrance] at h
  rw [Request.run, start]
  simp only [hs, startFresh]
  split at h
  · rename_i hw
    obtain ⟨rfl, he⟩ := Prod.mk.inj h
    rw [if_pos hw, ← he]
    rfl
  · rename_i hw
    rw [if_neg hw]
    rcases he : i.enterInitial with ⟨k, _ | e'⟩
    · rw [he] at h
      exact absurd (Prod.mk.inj h).2 (by simp)
    · rw [he] at h
      obtain ⟨rfl, he'⟩ := Prod.mk.inj h
      obtain rfl := Option.some.inj he'
      rfl

lemma run_start_entered {k : Interpreter C} {e : Option StepError} (hs : i.status = .notStarted)
    (h : i.entrance = (j, none))
    (hd : ({ j with deferred := [] }.enqueue j.deferred).drain fuel = some (k, e))
    (hk : k.snapshot ≠ none) : Request.start.run fuel i = some (k, e.map .step) := by
  obtain ⟨x, hx⟩ := Option.ne_none_iff_exists'.1 hk
  rw [entrance] at h
  rw [Request.run, start]
  simp only [hs, startFresh]
  split at h
  · exact absurd (Prod.mk.inj h).2 (by simp)
  · rename_i hw
    rw [if_neg hw]
    rcases he : i.enterInitial with ⟨j', _ | e'⟩
    · rw [he] at h
      obtain rfl : j' = j := (Prod.mk.inj h).1
      simp only [hd]
      cases e with
      | none =>
        simp only [Option.bind_eq_bind, Option.bind_some, snapshotOrStopped, hx]
        rfl
      | some e => rfl
    · rw [he] at h
      exact absurd (Prod.mk.inj h).2 (by simp)

inductive Started (i k : Interpreter C) : Option InterpreterError → Prop
  | failed {e : InterpreterError} (hentrance : i.essence.entrance = (k.essence, some e))
      (hstatus : k.status = .notStarted) (hsettings : k.settings = i.settings)
      (hdeferred : k.deferred = i.deferred) : Started i k (some e)
  | entered {j : Interpreter C} {e : Option StepError}
      (hentrance : i.essence.entrance = (j, none))
      (hhandle : j.handleAll i.deferred = (k.essence, e)) (hquiet : k.Quiet)
      (hstarted : k.status ≠ .notStarted) (hqueue : k.status = .running → k.queue = [])
      (hdeferred : k.deferred = []) : Started i k (e.map .step)

lemma Quiet.run_start (h : i.Quiet) (hs : i.status = .notStarted) (hq : i.queue = [])
    (hf : i.deferred.length ≤ fuel) :
    ∃ k e, Request.start.run fuel i = some (k, e) ∧ Started i k e := by
  have hessence := h.entrance_essence
  rcases he : i.entrance with ⟨j, _ | e⟩
  · rw [he] at hessence
    obtain ⟨hentered, hsnapshot, hqueue⟩ := h.entered hs he
    let flushed : Interpreter C := { j with deferred := [] }.enqueue j.deferred
    have hflushed : flushed.Quiet := h.of_eq hentered.machine hentered.settings
    have hwaiting : flushed.status = .running → flushed.queue = i.deferred := by
      intro hr
      have hnothing : j.queue = [] := (hqueue hr).trans hq
      change j.queue ++ j.deferred = i.deferred
      rw [hnothing, hentered.deferred, List.nil_append]
    obtain ⟨k, e, hdrain, hhandle, hproceeds, hempty⟩ :=
      hflushed.drain hentered.started hwaiting hf
    exact ⟨k, _, run_start_entered hs he hdrain (hproceeds.shown hsnapshot),
      .entered hessence hhandle (hflushed.of_eq hproceeds.machine hproceeds.settings)
        hproceeds.started hempty hproceeds.deferred⟩
  · rw [he] at hessence
    obtain ⟨hstatus, hsettings, hdeferred⟩ := entrance_failed hs he
    exact ⟨j, _, run_start_failed hs he, .failed hessence hstatus hsettings hdeferred⟩

def runAll (fuel : Nat) : Interpreter C → List (Timestamp × Request) →
    Option (Interpreter C × List (Option InterpreterError))
  | i, [] => some (i, [])
  | i, (date, r) :: rest => do
    let (j, e) ← r.run fuel { i with date }
    let (k, errors) ← runAll fuel j rest
    return (k, e :: errors)

lemma runAll_cons {k : Interpreter C} {date : Timestamp} {r : Request}
    {rest : List (Timestamp × Request)} {e : Option InterpreterError}
    {errors : List (Option InterpreterError)} (h : r.run fuel { i with date } = some (j, e))
    (h' : runAll fuel j rest = some (k, errors)) :
    runAll fuel i ((date, r) :: rest) = some (k, e :: errors) := by
  rw [runAll, h]
  simp only [Option.bind_eq_bind, Option.bind_some, h']
  rfl

lemma runAll_append {k : Interpreter C} {l l' : List (Timestamp × Request)}
    {errors errors' : List (Option InterpreterError)} (h : runAll fuel i l = some (j, errors))
    (h' : runAll fuel j l' = some (k, errors')) :
    runAll fuel i (l ++ l') = some (k, errors ++ errors') := by
  induction l generalizing i errors with
  | nil =>
    obtain ⟨rfl, rfl⟩ := Prod.mk.inj (Option.some.inj h)
    exact h'
  | cons call rest ih =>
    obtain ⟨date, r⟩ := call
    rw [runAll] at h
    obtain ⟨⟨j', e⟩, hrun, h⟩ := Option.bind_eq_some_iff.1 h
    obtain ⟨⟨j'', later⟩, hrest, h⟩ := Option.bind_eq_some_iff.1 h
    obtain ⟨rfl, rfl⟩ := Prod.mk.inj (Option.some.inj h)
    exact runAll_cons hrun (ih hrest)

def sends (events : List (Timestamp × Event)) : List (Timestamp × Request) :=
  events.map (Prod.map id .send)

lemma runAll_sends_deferred (fuel : Nat) (hs : i.status = .notStarted)
    (hd : i.settings.deferEvents = true) (events : List (Timestamp × Event)) :
    ∃ date, runAll fuel i (sends events) =
      some ({ i with deferred := i.deferred ++ events.map Prod.snd, date },
        events.map fun _ => none) := by
  induction events generalizing i with
  | nil => exact ⟨i.date, by simp [sends, runAll]⟩
  | cons call rest ih =>
    obtain ⟨date, event⟩ := call
    have hsend : (Request.send event).run fuel { i with date } =
        some ({ i with deferred := i.deferred ++ [event], date }, none) := by
      simp only [Request.run, send, hs, hd, if_true]
    obtain ⟨last, hrest⟩ :=
      ih (i := { i with deferred := i.deferred ++ [event], date }) hs hd
    refine ⟨last, ?_⟩
    rw [sends, List.map_cons]
    refine (runAll_cons hsend hrest).trans ?_
    simp

lemma Quiet.run_send (h : i.Quiet) (hn : i.status ≠ .notStarted)
    (hq : i.status = .running → i.queue = []) (hf : 0 < fuel) (event : Event) :
    ∃ j e, (Request.send event).run fuel i = some (j, e.map InterpreterError.step) ∧
      i.essence.handleAll [event] = (j.essence, e) ∧ Proceeds i j ∧
      (j.status = .running → j.queue = []) := by
  cases hs : i.status with
  | notStarted => exact absurd hs hn
  | stopped =>
    have hr : i.essence.status ≠ .running := fun hr => absurd (hs.symm.trans hr) (by decide)
    refine ⟨i, none, ?_, handleAll_of_not_running hr _, .refl hn, fun hr' => absurd hr' hr⟩
    simp only [Request.run, send, hs]
    rfl
  | running =>
    have henqueued : (i.enqueue [event]).queue = [event] := by rw [enqueue, hq hs]; rfl
    have hquiet : (i.enqueue [event]).Quiet := h.of_eq rfl rfl
    obtain ⟨j, e, hdrain, hhandle, hproceeds, hempty⟩ := hquiet.drain hn (fun _ => henqueued) hf
    refine ⟨j, e, ?_, hhandle, hproceeds.of_eq rfl rfl rfl rfl, hempty⟩
    simp only [Request.run, send, hs, hdrain]
    rfl

lemma Quiet.runAll_sends {events : List (Timestamp × Event)} (h : i.Quiet)
    (hn : i.status ≠ .notStarted) (hq : i.status = .running → i.queue = [])
    (hf : events.length ≤ fuel) :
    ∃ k e errors, runAll fuel i (sends events) = some (k, errors) ∧
      i.essence.handleAll (events.map Prod.snd) = (k.essence, e) ∧
      errors.findSome? id = e.map .step ∧ Proceeds i k ∧
      (k.status = .running → k.queue = []) := by
  induction events generalizing i with
  | nil => exact ⟨i, none, [], rfl, rfl, rfl, .refl hn, hq⟩
  | cons call rest ih =>
    obtain ⟨date, event⟩ := call
    have hdated : ({ i with date } : Interpreter C).Quiet := h.of_eq rfl rfl
    obtain ⟨j, first, hrun, hhandle, hproceeds, hempty⟩ :=
      hdated.run_send hn hq (Nat.lt_of_lt_of_le (Nat.succ_pos _) hf) event
    obtain ⟨k, later, errors, hrest, hhandle', herrors, hproceeds', hempty'⟩ :=
      ih (hdated.of_eq hproceeds.machine hproceeds.settings) hproceeds.started hempty
        (Nat.le_of_succ_le hf)
    have hij : Proceeds i j := hproceeds.of_eq rfl rfl rfl rfl
    refine ⟨k, first <|> later, _, runAll_cons hrun hrest, ?_, ?_, hij.trans hproceeds', hempty'⟩
    · have happend := handleAll_append i.essence [event] (rest.map Prod.snd)
      have hessence : i.essence.handleAll [event] = (j.essence, first) := hhandle
      rw [hessence, hhandle'] at happend
      exact happend
    · cases first with
      | none => exact herrors
      | some e => rfl

lemma Started.sends {k : Interpreter C} {e : Option InterpreterError}
    (h : Started i k e) (hd : i.settings.deferEvents = true) {events : List (Timestamp × Event)}
    (hf : events.length ≤ fuel) :
    ∃ k' errors, runAll fuel k (sends events) = some (k', errors) ∧
      Started { i with deferred := i.deferred ++ events.map Prod.snd } k'
        ((e :: errors).findSome? id) := by
  cases h with
  | @failed e hentrance hstatus hsettings hdeferred =>
    obtain ⟨last, hsends⟩ := runAll_sends_deferred fuel hstatus (hsettings ▸ hd) events
    refine ⟨_, _, hsends, .failed hentrance hstatus hsettings ?_⟩
    rw [← hdeferred]
  | @entered j first hentrance hhandle hquiet hstarted hqueue hdeferred =>
    obtain ⟨k', later, errors, hsends, hhandle', herrors, hproceeds, hqueue'⟩ :=
      hquiet.runAll_sends hstarted hqueue hf
    have hfirst : (first.map InterpreterError.step :: errors).findSome? id =
        (first <|> later).map .step := by
      cases first with
      | none => exact herrors
      | some e => rfl
    refine ⟨k', errors, hsends, ?_⟩
    rw [hfirst]
    refine .entered hentrance ?_ (hquiet.of_eq hproceeds.machine hproceeds.settings)
      hproceeds.started hqueue' (hproceeds.deferred.trans hdeferred)
    rw [handleAll_append, hhandle, hhandle']

lemma Started.unique {k k' : Interpreter C} {e e' : Option InterpreterError}
    (h : Started i k e) (h' : Started j k' e') (hessence : i.essence = j.essence)
    (hdeferred : i.deferred = j.deferred) :
    k.essence = k'.essence ∧ k.deferred = k'.deferred ∧ e = e' := by
  cases h with
  | failed hentrance _ _ hkept =>
    cases h' with
    | failed hentrance' _ _ hkept' =>
      rw [hessence, hentrance'] at hentrance
      obtain ⟨hk, he⟩ := Prod.mk.inj hentrance
      exact ⟨hk.symm, hkept.trans (hdeferred.trans hkept'.symm), he.symm⟩
    | entered hentrance' =>
      rw [hessence, hentrance'] at hentrance
      exact absurd (Prod.mk.inj hentrance).2 (by simp)
  | entered hentrance hhandle _ _ _ hnone =>
    cases h' with
    | failed hentrance' =>
      rw [hessence, hentrance'] at hentrance
      exact absurd (Prod.mk.inj hentrance).2 (by simp)
    | entered hentrance' hhandle' _ _ _ hnone' =>
      rw [hessence, hentrance'] at hentrance
      obtain ⟨rfl, _⟩ := Prod.mk.inj hentrance
      rw [hdeferred, hhandle'] at hhandle
      obtain ⟨hk, rfl⟩ := Prod.mk.inj hhandle
      exact ⟨hk.symm, hnone.trans hnone'.symm, rfl⟩

/-- Events that are deferred are handled at the start as if they were sent after it. If the start
fails, they are deferred all the same. -/
theorem deferring_as_sending_later {past : List (JournalEntry C)}
    {events events' : List (Timestamp × Event)} {date date' : Timestamp} (h : History m i past)
    (hs : i.status = .notStarted) (hd : i.settings.deferEvents = true) (hquiet : i.Quiet)
    (hsame : events.map Prod.snd = events'.map Prod.snd)
    (hf : i.deferred.length + events.length ≤ fuel) :
    ∃ a b errors,
      runAll fuel i (sends events ++ [(date, .start)]) =
        some (a, events.map (fun _ => none) ++ [errors.findSome? id]) ∧
      runAll fuel i ((date', .start) :: sends events') = some (b, errors) ∧
      a.essence = b.essence ∧ a.deferred = b.deferred := by
  have hqueue : i.queue = [] := (h.inPhase.unstarted hs).2.2
  have hlate : ({ i with deferred := i.deferred ++ events.map Prod.snd, date } :
      Interpreter C).Quiet := hquiet.of_eq rfl rfl
  have hearly : ({ i with date := date' } : Interpreter C).Quiet := hquiet.of_eq rfl rfl
  have hlength : (i.deferred ++ events.map Prod.snd).length ≤ fuel := by
    rwa [List.length_append, List.length_map]
  have hlength' : events'.length ≤ fuel := by
    rw [← List.length_map Prod.snd, ← hsame, List.length_map]
    exact Nat.le_trans (Nat.le_add_left _ _) hf
  obtain ⟨last, hsends⟩ := runAll_sends_deferred fuel hs hd events
  obtain ⟨a, e, hstart, ha⟩ := hlate.run_start hs hqueue hlength
  obtain ⟨k, e', hstart', hk⟩ :=
    hearly.run_start hs hqueue (Nat.le_trans (Nat.le_add_right _ _) hf)
  obtain ⟨b, errors, hsends', hb⟩ := hk.sends hd hlength'
  obtain ⟨hessence, hdeferred, rfl⟩ := ha.unique hb rfl (by rw [hsame])
  have hend : runAll fuel a [] = some (a, []) := rfl
  exact ⟨a, b, e' :: errors, runAll_append hsends (runAll_cons hstart hend),
    runAll_cons hstart' hsends', hessence, hdeferred⟩

def errand : Definition := .ofRoot
  { initial := some "home"
    states := [
      ("home", { on := .ofList [("GO", [{ target := ["shop"] }])] }),
      ("shop", {
        on := .ofList [
          ("BUY", [{ target := ["home"], actions := ["pay"] }]),
          ("CLOSE", [{ target := ["street"] }])] }),
      ("street", { type := some .final })] }

def errandBehaviors : Behaviors Unit where
  actions := .ofList [("pay", .effect fun _ _ => .error ⟨"broke"⟩)]

def errandMachine : Machine Unit :=
  Machine.assemble errand () (Machine.link errand errandBehaviors).value

def errands : List Event := ["GO", "BUY", "CLOSE", "GO"].map .ofType

theorem errand_deferred : ∃ i a b errors, History errandMachine i [] ∧
    runAll 4 i (sends (errands.map (.epoch, ·)) ++ [(.epoch, .start)]) =
      some (a, [none, none, none, none, some (.step (.action "machine.shop" "pay" ⟨"broke"⟩))]) ∧
    runAll 4 i ((.epoch, .start) :: sends (errands.map (.epoch, ·))) = some (b, errors) ∧
    errors = [none, none, some (.step (.action "machine.shop" "pay" ⟨"broke"⟩)), none, none] ∧
    a.essence = b.essence ∧ a.deferred = b.deferred ∧ a.status = .stopped := by
  let i := (create errandMachine {} false .epoch).subscribeToErrors.2
  let sent : List (Timestamp × Event) := errands.map (.epoch, ·)
  have hcreated : History errandMachine (create errandMachine {} false .epoch) [] :=
    .create {} false .epoch
  have h : History errandMachine i [] := hcreated.meanwhile .subscribeToErrors
  have hquiet : i.Quiet := quiet_of_parts (by decide +kernel)
  have hf : i.deferred.length + sent.length ≤ 4 := by decide
  have hplay : (runAll 4 i ((.epoch, .start) :: sends sent)).map
      (fun r => (r.1.status, r.2)) = some (.stopped,
        [none, none, some (.step (.action "machine.shop" "pay" ⟨"broke"⟩)), none, none]) := by
    decide +kernel
  obtain ⟨a, b, errors, hdeferring, hsending, hessence, hdeferred⟩ :=
    deferring_as_sending_later h rfl rfl hquiet (rfl : sent.map Prod.snd = _) hf
  rw [hsending] at hplay
  obtain ⟨hstopped, rfl⟩ := Prod.mk.inj (Option.some.inj hplay)
  have hstatus : a.status = b.status := congrArg (·.status) hessence
  exact ⟨i, a, b, _, h, hdeferring, hsending, rfl, hessence, hdeferred, hstatus.trans hstopped⟩

end Interpreter

end Statechart
