import Mathlib.Tactic.Common
import Statechart.Proofs.Interpreter.Histories
import Statechart.Proofs.Step.Parting

/-! The end of an interpreter. One that runs stops once: its work ends, the exit actions of all
active states are carried out, and no later call does anything. -/

namespace Statechart

def Pending.note? {C : Type} (context : C) (p : Pending C) : Option (Observation C) :=
  match p.action with
  | .effect run => (run context p.event).toOption.map (.performed p.source p.name)
  | .log line => some (.performed p.source p.name (line context p.event))
  | _ => none

namespace Machine

variable {C : Type} (m : Machine C) (s : MachineState C)

def PartsCleanly : Prop :=
  ∃ step sends, m.exitAll s = .ok step ∧
    (Interpreter.perform m step.state.context step.actions).2 = .ok sends

def partingNotes : List (Observation C) :=
  let actions := m.exitActions s.configuration
  actions.filterMap (Pending.note? (assigned s.context actions))

end Machine

namespace Interpreter

variable {C : Type} {m : Machine C} {i i' j k : Interpreter C} {l past : List (JournalEntry C)}
  {fuel : Nat}

lemma perform_notes {context : C} {l : List (Pending C)} {sends : List Event}
    (h : (perform m context l).2 = .ok sends) :
    (perform m context l).1 = l.filterMap (Pending.note? context) := by
  induction l generalizing sends with
  | nil => rfl
  | cons p rest ih =>
    rw [List.filterMap_cons, Pending.note?]
    rw [perform] at h ⊢
    cases ha : p.action with
    | effect run =>
      simp only [ha] at h ⊢
      cases hrun : run context p.event with
      | error cause =>
        simp only [hrun] at h
        exact absurd h (by simp)
      | ok note =>
        simp only [hrun] at h ⊢
        rw [ih h]
        rfl
    | log line =>
      simp only [ha] at h ⊢
      rw [ih h]
    | send event =>
      simp only [ha] at h ⊢
      cases hr : (perform m context rest).2 with
      | error e =>
        rw [hr] at h
        exact absurd h (by simp [Except.map])
      | ok l => exact ih hr
    | assign run =>
      simp only [ha] at h ⊢
      exact ih h
    | raise event =>
      simp only [ha] at h ⊢
      exact ih h

lemma filterMap_note_isLeft (context : C) (l : List (Pending C)) :
    (l.filter (·.action.isLeft)).filterMap (Pending.note? context) =
      l.filterMap (Pending.note? context) := by
  rw [List.filterMap_filter]
  congr 1
  funext p
  cases ha : p.action <;> simp [Pending.note?, Action.isLeft, ha]

def disposals (i : Interpreter C) : List (Observation C) :=
  i.work.activities.reverse.map fun a => .activityStopped a.node a.name a.stopped

structure Ended (j i : Interpreter C) : Prop where
  status : i.status = .stopped
  keeps : i.state = j.state ∧ i.snapshot = j.snapshot ∧ i.transitions = j.transitions ∧
    i.metadata = j.metadata
  cleared : i.work.timers = [] ∧ i.work.services = [] ∧ i.work.activities = []
  parted : j.settings.executeActions = true → ∀ s, j.state = some s →
    j.machine.PartsCleanly s → i.trace = j.trace ++ j.disposals ++ j.machine.partingNotes s

lemma leave_trace {s : MachineState C} (hx : i.settings.executeActions = true)
    (hs : i.state = some s) (h : i.machine.PartsCleanly s) :
    i.leave.trace = i.trace ++ i.machine.partingNotes s := by
  obtain ⟨step, sends, hexit, hperform⟩ := h
  obtain ⟨hcontext, hactions⟩ := Machine.exitAll_eq_ok hexit
  have hnotes : (i.performStep step).1 = i.machine.partingNotes s := by
    rw [performStep, if_pos hx, perform_notes hperform, hcontext, hactions,
      filterMap_note_isLeft]
    rfl
  have hsends : (i.performStep step).2 = .ok sends := by
    rw [performStep, if_pos hx]
    exact hperform
  have hp : i.performStep step = (i.machine.partingNotes s, .ok sends) := Prod.ext hnotes hsends
  simp only [leave, hs, Option.map_some, hexit, hp, observe]

lemma ended_stop (hr : j.status = .running) : Ended j j.stop := by
  obtain ⟨trace, hl⟩ := leave_eq ({ j with status := .stopped } : Interpreter C).shutdown
  have hstop : j.stop =
      { ({ j with status := .stopped } : Interpreter C).shutdown.leave with queue := [] } := by
    simp only [stop, hr]
  refine ⟨?_, ?_, ?_, fun hx s hs hclean => ?_⟩
  · rw [hstop, hl]
    rfl
  · rw [hstop, hl]
    exact ⟨rfl, rfl, rfl, rfl⟩
  · rw [hstop, hl]
    exact ⟨rfl, rfl, rfl⟩
  · rw [hstop]
    exact leave_trace (i := ({ j with status := .stopped } : Interpreter C).shutdown) hx hs hclean

def adopting (i : Interpreter C) (step : Step C) (sends : List Event) : Interpreter C :=
  (i.trade step sends).display step (i.logged step)

lemma adopting_status (hr : i.status = .running) (step : Step C) (sends : List Event) :
    (i.adopting step sends).status = .running := by
  have hb := busies_trade i step sends
  rw [adopting, display, hb]
  exact hr

inductive Ending (i : Interpreter C) : Interpreter C → Prop
  | asked (hr : i.status = .running) : Ending i i
  | handled {event : Event} {rest : List Event} {s : MachineState C} {step : Step C}
      (hr : i.status = .running) (hq : i.queue = event :: rest) (hs : i.state = some s)
      (hstep : i.machine.stepWithin s event i.settings.maxMicrosteps = .ok step)
      (hdone : step.done = true) {notes : List (Observation C)}
      (hnotes : i.performStep step = (notes, .ok (i.sendsOf step))) :
      Ending i (((i.withQueue rest).observe notes).adopting step (i.sendsOf step))
  | entered {step : Step C} (hs : i.status = .notStarted)
      (hstep : i.machine.initialStepFrom i.machine.context i.settings.maxMicrosteps = .ok step)
      (hdone : step.done = true) {notes : List (Observation C)}
      (hnotes : i.performStep step = (notes, .ok (i.sendsOf step))) :
      Ending i ((i.begun.observe notes).adopting step (i.sendsOf step))

lemma Ending.running (h : i.Ending j) : j.status = .running := by
  cases h with
  | asked hr => exact hr
  | @handled _ rest _ _ hr _ _ _ _ notes _ =>
    exact adopting_status (i := (i.withQueue rest).observe notes) hr _ _
  | entered _ _ _ _ => exact adopting_status rfl _ _

lemma adopt_of_stopped {step : Step C} {sends : List Event} (hr : i.status = .running)
    (hs : (i.adopt step sends).status = .stopped) :
    step.done = true ∧ i.adopt step sends = (i.adopting step sends).stop := by
  rw [adopt_eq] at hs ⊢
  split
  · rename_i hdone
    exact ⟨hdone, rfl⟩
  · rename_i hdone
    rw [if_neg hdone] at hs
    exact absurd ((adopting_status hr step sends).symm.trans hs) (by decide)

lemma enterInitial_ending (hn : i.status = .notStarted)
    (hs : i.enterInitial.1.status = .stopped) :
    ∃ j, i.Ending j ∧ i.enterInitial.1 = j.stop := by
  rcases entering_cases hn with ⟨e, metadata, trace, _, he⟩ | ⟨step, notes, hstep, hnotes, _, he⟩
  · rw [he] at hs
    exact absurd (hn.symm.trans hs) (by decide)
  · rw [he] at hs ⊢
    obtain ⟨hdone, hstop⟩ := adopt_of_stopped (i := i.begun.observe notes) rfl hs
    exact ⟨_, .entered hn hstep hdone hnotes, hstop⟩

lemma Turn.ending (hi : i.InPhase) (ht : Turn i l i') (hs : i.status ≠ .stopped)
    (hs' : i'.status = .stopped) :
    (i.status = .notStarted ∧ i' = i.stop) ∨ ∃ j, i.Ending j ∧ i' = j.stop := by
  cases ht with
  | round hround =>
    cases hround with
    | @handle event rest hr hq =>
      obtain ⟨s, _, hstate, _⟩ := hi.running hr
      have hne : i.status ≠ .stopped := hs
      rcases handling_cases (i := i.withQueue rest) hstate event with
        ⟨e, trace, _, hp⟩ | ⟨_, hp⟩ | ⟨step, notes, hstep, _, hnotes, _, hp⟩
      · rw [hp] at hs'
        exact absurd hs' hs
      · rw [hp] at hs'
        exact absurd hs' hs
      · rw [hp] at hs' ⊢
        obtain ⟨hdone, hstop⟩ := adopt_of_stopped (i := (i.withQueue rest).observe notes) hr hs'
        exact .inr ⟨_, .handled hr hq hstate hstep hdone hnotes, hstop⟩
    | _ => exact absurd hs' hs
  | enter hn => exact .inr (enterInitial_ending hn hs')
  | stop =>
    cases hst : i.status with
    | notStarted => exact .inl ⟨rfl, rfl⟩
    | running => exact .inr ⟨i, .asked hst, rfl⟩
    | stopped => exact absurd hst hs
  | flush _ => exact absurd hs' hs

lemma stop_of_stopped (hs : i.status = .stopped) : i.stop = i := by
  simp only [stop, hs]

lemma Turn.of_stopped (ht : Turn i l i') (hs : i.status = .stopped) :
    i' = { i with deferred := i'.deferred, queue := i'.queue } := by
  cases ht with
  | round hround =>
    cases hround with
    | handle hr _ => exact absurd (hs.symm.trans hr) (by decide)
    | accept hr _ => exact absurd (hs.symm.trans hr) (by decide)
    | defer hn _ => exact absurd (hs.symm.trans hn) (by decide)
    | rework hr _ => exact absurd (hs.symm.trans hr) (by decide)
  | enter hn => exact absurd (hs.symm.trans hn) (by decide)
  | flush _ => rfl
  | stop => rw [stop_of_stopped hs]

lemma Turn.started (ht : Turn i l i') (hs : i.status ≠ .notStarted) :
    i'.status ≠ .notStarted := by
  cases ht with
  | round hround =>
    cases hround with
    | @handle event rest hr _ => exact (process_keeps (i := i.withQueue rest) hr event).2.1
    | defer hn _ => exact absurd hn hs
    | _ => exact hs
  | enter hn => exact absurd hn hs
  | stop => simp [(stop_keeps i).2.2.2]
  | flush _ => exact hs

lemma Turns.ending (hi : i.InPhase) (ht : Turns i l i') (hs : i.status = .running)
    (hs' : i'.status = .stopped) :
    ∃ l k j, Turns i l k ∧ k.Ending j ∧
      i' = { j.stop with deferred := i'.deferred, queue := i'.queue } := by
  have hstarted : ∀ {l k}, Turns i l k → k.status ≠ .notStarted :=
    fun ht => ht.keeps (fun hj hturn => hturn.started hj) (by simp [hs])
  induction ht with
  | refl => exact absurd (hs.symm.trans hs') (by decide)
  | @tail l _ k i' ht hturn ih =>
    by_cases hk : k.status = .stopped
    · obtain ⟨l', k', j, ht', hending, hj⟩ := ih hk
      refine ⟨l', k', j, ht', hending, ?_⟩
      rw [hturn.of_stopped hk, hj]
    · obtain ⟨hn, _⟩ | ⟨j, hending, rfl⟩ := hturn.ending (Turns.inPhase hi ht) hk hs'
      · exact absurd hn (hstarted ht)
      · exact ⟨l, k, j, ht, hending, rfl⟩

lemma startFresh_ending {r : Except InterpreterError (Snapshot C)} (hi : i.InPhase)
    (hs : i.status = .notStarted) (h : i.startFresh fuel = some (i', r))
    (hs' : i'.status = .stopped) :
    ∃ l k j, Turns i l k ∧ k.Ending j ∧
      i' = { j.stop with deferred := i'.deferred, queue := i'.queue } := by
  have henter := Turn.enter hs
  rcases startFresh_cases h with ⟨_, rfl, _⟩ | ⟨_, ⟨e, he, _⟩ | ⟨j, e, he, hd, _⟩⟩
  · exact absurd (hs.symm.trans hs') (by decide)
  · rw [he] at henter
    rcases entering_cases hs with ⟨_, metadata, trace, _, he'⟩ | ⟨step, notes, _, _, _, he'⟩
    · obtain rfl : { i with metadata, trace } = i' := congrArg Prod.fst (he'.symm.trans he)
      exact absurd (hs.symm.trans hs') (by decide)
    · exact absurd (congrArg Prod.snd (he'.symm.trans he)) (by simp)
  · obtain ⟨_, hstarted⟩ := snapshot_of_entered hs he
    have hending := enterInitial_ending hs
    rw [he] at henter hending
    by_cases hj : j.status = .stopped
    · obtain ⟨k, hk, rfl⟩ := hending hj
      rw [drain_of_not_running (by simp [enqueue, hj])] at hd
      obtain ⟨rfl, _⟩ := Prod.mk.inj (Option.some.inj hd)
      exact ⟨[], i, k, .refl, hk, rfl⟩
    · have hr : j.status = .running := by
        cases hst : j.status <;> simp_all
      obtain ⟨l, k, j', hturns, hk⟩ :=
        Turns.ending (henter.inPhase hi)
          (Chain.head (Turn.flush hstarted) (drain_rounds hd).1.turns) hr hs'
      exact ⟨_, k, j', Chain.head henter hturns, hk⟩

lemma deliverAll_of_not_running (hr : i.status ≠ .running) (left : Nat) :
    i.deliverAll fuel left = some (i, ⟨0, none⟩) := by
  rw [deliverAll.eq_def]
  exact if_neg hr

lemma processMailbox_of_not_running (hr : i.status ≠ .running) :
    i.processMailbox fuel = some (i, .ok 0) := by
  rw [processMailbox, deliverAll_of_not_running hr]
  rfl

lemma runNext_of_not_running (hr : i.status ≠ .running) (deadline : Nat) :
    i.runNext fuel deadline = some (i, .nothing) := by
  rw [runNext, if_neg hr]

lemma runMessages_of_not_running (hr : i.status ≠ .running) (deadline left : Nat) :
    i.runMessages fuel deadline left = some (i, .nothing) := by
  rw [runMessages, runNext_of_not_running hr]
  rfl

end Interpreter

namespace Request

open Interpreter

variable {C : Type} {i i' : Interpreter C} {r : Request} {e : Option InterpreterError} {fuel : Nat}

lemma run_of_stopped (hs : i.status = .stopped) (r : Request) (fuel : Nat) :
    ∃ e, r.run fuel i = some (i, e) := by
  have hr : i.status ≠ .running := by simp [hs]
  cases r with
  | start => exact ⟨some (.stopped i.machine.id), by simp only [run, Interpreter.start, hs]; rfl⟩
  | send event => exact ⟨none, by simp only [run, Interpreter.send, hs]⟩
  | processMailbox => exact ⟨none, by rw [run, processMailbox_of_not_running hr]; rfl⟩
  | runNext deadline => exact ⟨none, by rw [run, runNext_of_not_running hr]; rfl⟩
  | runUntilDone deadline =>
    exact ⟨none, by rw [run, Interpreter.runUntilDone, runMessages_of_not_running hr]; rfl⟩
  | stop => exact ⟨none, by rw [run, stop_of_stopped hs]⟩

lemma run_ending (hi : i.InPhase) (h : r.run fuel i = some (i', e)) (hs : i.status ≠ .stopped)
    (hs' : i'.status = .stopped) :
    (r = .stop ∧ i.status = .notStarted) ∨ ∃ l k j, Turns i l k ∧ k.Ending j ∧
      i' = { j.stop with deferred := i'.deferred, queue := i'.queue } := by
  cases hst : i.status with
  | stopped => exact absurd hst hs
  | running => exact .inr ((run_turns hi h).1.ending hi hst hs')
  | notStarted =>
    have hr : i.status ≠ .running := by simp [hst]
    have hsame : i' ≠ i := fun heq => absurd (hst.symm.trans (heq ▸ hs')) (by decide)
    cases r with
    | start =>
      obtain ⟨⟨k, result⟩, hk, h⟩ := Option.map_eq_some_iff.1 h
      obtain ⟨rfl, rfl⟩ := Prod.mk.inj h
      simp only [Interpreter.start, hst] at hk
      exact .inr (startFresh_ending hi hst hk hs')
    | send event =>
      simp only [run, Interpreter.send, hst] at h
      have hst' : i'.status = .notStarted := by
        split at h
        all_goals obtain ⟨rfl, _⟩ := Prod.mk.inj (Option.some.inj h)
        · rfl
        · exact hst
      exact absurd (hst'.symm.trans hs') (by decide)
    | processMailbox =>
      simp only [run, processMailbox_of_not_running hr, Option.map_some] at h
      exact absurd (Prod.mk.inj (Option.some.inj h)).1.symm hsame
    | runNext deadline =>
      simp only [run, runNext_of_not_running hr, Option.map_some] at h
      exact absurd (Prod.mk.inj (Option.some.inj h)).1.symm hsame
    | runUntilDone deadline =>
      simp only [run, Interpreter.runUntilDone, runMessages_of_not_running hr, Option.map_some] at h
      exact absurd (Prod.mk.inj (Option.some.inj h)).1.symm hsame
    | stop => exact .inl ⟨rfl, rfl⟩

end Request

namespace Interpreter

variable {C : Type} {m : Machine C} {i i' : Interpreter C} {past : List (JournalEntry C)}

inductive Afterwards (i : Interpreter C) : Interpreter C → Prop
  | refl : Afterwards i i
  | call {j k : Interpreter C} {r : Request} {fuel : Nat} {e : Option InterpreterError}
      (h : Afterwards i j) (hr : r.run fuel j = some (k, e)) : Afterwards i k
  | meanwhile {j k : Interpreter C} (h : Afterwards i j) (hj : Meanwhile j k) : Afterwards i k

lemma Afterwards.history (ha : Afterwards i i') (h : History m i past) :
    ∃ past', History m i' past' := by
  induction ha with
  | refl => exact ⟨past, h⟩
  | call _ hr ih =>
    obtain ⟨past', h'⟩ := ih
    exact ⟨_, h'.call hr⟩
  | meanwhile _ hj ih =>
    obtain ⟨past', h'⟩ := ih
    exact ⟨past', h'.meanwhile hj⟩

lemma Afterwards.of_stopped (ha : Afterwards i i') (hs : i.status = .stopped) :
    i'.status = .stopped ∧ i'.state = i.state ∧ i'.snapshot = i.snapshot ∧
      i'.transitions = i.transitions ∧ i'.metadata = i.metadata := by
  induction ha with
  | refl => exact ⟨hs, rfl, rfl, rfl, rfl⟩
  | @call j k r fuel e _ hr ih =>
    obtain ⟨e', he⟩ := Request.run_of_stopped ih.1 r fuel
    obtain rfl : j = k := congrArg Prod.fst (Option.some.inj (he.symm.trans hr))
    exact ih
  | meanwhile _ hj ih =>
    rw [hj.eq]
    exact ih

def evening : Definition := .ofRoot
  { initial := some "hall"
    states := [
      ("hall", {
        initial := some "stage"
        activities := ["music"]
        exit := ["count", "report"]
        states := [("stage", { exit := ["bow", "count"] })] })] }

def countNote (context : Nat) (_ : Event) : Value := .str (if context = 2 then "two" else "less")

def eveningBehaviors : Behaviors Nat where
  actions := .ofList [
    ("bow", .effect fun context event => .ok (countNote context event)),
    ("count", .assign fun context _ => (context + 1, none)),
    ("report", .log countNote)]
  activities := .ofList [("music", ⟨countNote, countNote⟩)]

def eveningMachine : Machine Nat :=
  Machine.assemble evening 0 (Machine.link evening eveningBehaviors).value

def notesIn {C : Type} (l : List (Observation C)) : List (NodeId × String × String) :=
  l.filterMap fun
    | .performed n name (.str note) => some (n, name, note)
    | .activityStopped n name (.str note) => some (n, name, note)
    | _ => none

end Interpreter

end Statechart
