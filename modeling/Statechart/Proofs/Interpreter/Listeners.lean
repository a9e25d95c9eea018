import Mathlib.Data.List.Nodup
import Mathlib.Tactic.Common
import Statechart.Proofs.Interpreter.Ending
import Statechart.Proofs.Interpreter.Journeys

/-! What listeners are told. What happens is aired when it happens, to all who listen then, so that
each listener hears what concerns it from when it joined until it left, in order and once. -/

namespace Statechart

inductive Interest where
  | states
  | errors
  deriving DecidableEq

inductive Delivery (C : Type) where
  | snapshot (s : Snapshot C)
  | error (e : StepError)

inductive Notice (C : Type) where
  | joined (n : Subscription) (interest : Interest) (present : Option (Snapshot C))
  | left (n : Subscription)
  | committed (s : Snapshot C)
  | failed (e : StepError)

section

variable {C : Type}

def Observation.delivery? : Observation C → Option (Subscription × Delivery C)
  | .notified n s => some (n, .snapshot s)
  | .reported n e => some (n, .error e)
  | _ => none

def deliveries (l : List (Observation C)) : List (Subscription × Delivery C) :=
  l.filterMap Observation.delivery?

def givenTo (n : Subscription) (l : List (Subscription × Delivery C)) : List (Delivery C) :=
  (l.filter (·.1 = n)).map (·.2)

def Notice.leavesAs (n : Subscription) : Notice C → Bool
  | .left k => k = n
  | _ => false

def Interest.takes? : Interest → Notice C → Option (Delivery C)
  | .states, .committed s => some (.snapshot s)
  | .errors, .failed e => some (.error e)
  | _, _ => none

def Interest.hears (interest : Interest) (n : Subscription) (after : List (Notice C)) :
    List (Delivery C) :=
  (after.takeWhile fun notice => !notice.leavesAs n).filterMap interest.takes?

def Notice.IsNews : Notice C → Prop
  | .committed _ | .failed _ => True
  | _ => False

def joinedIn (l : List (Notice C)) : List Subscription :=
  l.filterMap fun
    | .joined n _ _ => some n
    | _ => none

@[simp] lemma deliveries_append (l l' : List (Observation C)) :
    deliveries (l ++ l') = deliveries l ++ deliveries l' := List.filterMap_append

@[simp] lemma givenTo_append (n : Subscription) (l l' : List (Subscription × Delivery C)) :
    givenTo n (l ++ l') = givenTo n l ++ givenTo n l' := by
  rw [givenTo, List.filter_append, List.map_append, givenTo, givenTo]

@[simp] lemma joinedIn_append (l l' : List (Notice C)) :
    joinedIn (l ++ l') = joinedIn l ++ joinedIn l' := List.filterMap_append

lemma mem_joinedIn {l : List (Notice C)} {n : Subscription} :
    n ∈ joinedIn l ↔ ∃ interest present, .joined n interest present ∈ l := by
  rw [joinedIn, List.mem_filterMap]
  constructor
  · rintro ⟨notice, hmem, hn⟩
    cases notice with
    | joined k interest present =>
      obtain rfl := Option.some.inj hn
      exact ⟨interest, present, hmem⟩
    | _ => exact absurd hn (by simp)
  · rintro ⟨interest, present, hmem⟩
    exact ⟨_, hmem, rfl⟩

lemma deliveries_of_performed {notes : List (Observation C)} (h : ∀ o ∈ notes, o.IsPerformed) :
    deliveries notes = [] := by
  refine List.filterMap_eq_nil_iff.2 fun o ho => ?_
  have hperformed := h o ho
  cases o <;> first | rfl | exact hperformed.elim

lemma Interest.hears_append_of_left {interest : Interest} {n : Subscription}
    {l : List (Notice C)} (h : .left n ∈ l) (l' : List (Notice C)) :
    interest.hears n (l ++ l') = interest.hears n l := by
  induction l with
  | nil => exact absurd h List.not_mem_nil
  | cons notice l ih =>
    rw [hears, hears, List.cons_append, List.takeWhile_cons, List.takeWhile_cons]
    cases hleaves : notice.leavesAs n with
    | true => rfl
    | false =>
      have hne : notice ≠ .left n := by
        rintro rfl
        simp [Notice.leavesAs] at hleaves
      have hrest := ih ((List.mem_cons.1 h).resolve_left hne.symm)
      rw [hears, hears] at hrest
      simp only [Bool.not_false, if_true, List.filterMap_cons, hrest]

lemma Interest.hears_append_of_not_left {interest : Interest} {n : Subscription}
    {l : List (Notice C)} (h : .left n ∉ l) (l' : List (Notice C)) :
    interest.hears n (l ++ l') = l.filterMap interest.takes? ++ interest.hears n l' := by
  have hstays : ∀ notice ∈ l, (!notice.leavesAs n) = true := by
    intro notice hmem
    cases notice with
    | left k =>
      have hne : k ≠ n := fun hk => h (hk ▸ hmem)
      simp [Notice.leavesAs, hne]
    | _ => rfl
  rw [hears, List.takeWhile_append_of_pos hstays, List.filterMap_append, hears]

lemma Interest.hears_of_not_left {interest : Interest} {n : Subscription} {l : List (Notice C)}
    (h : .left n ∉ l) : interest.hears n l = l.filterMap interest.takes? := by
  have hall : interest.hears n (l ++ []) = l.filterMap interest.takes? ++ interest.hears n [] :=
    hears_append_of_not_left h []
  rwa [List.append_nil, show interest.hears n [] = ([] : List (Delivery C)) from rfl,
    List.append_nil] at hall

lemma givenTo_map {listeners : List Subscription} (h : listeners.Nodup) (n : Subscription)
    (d : Delivery C) : givenTo n (listeners.map (·, d)) = if n ∈ listeners then [d] else [] := by
  have hfilter : ((listeners.map (·, d)).filter (·.1 = n)) =
      (listeners.filter (· = n)).map (·, d) := List.filter_map
  rw [givenTo, hfilter, List.map_map, List.filter_eq]
  split
  · rename_i hn
    rw [List.count_eq_one_of_mem h hn]
    rfl
  · rename_i hn
    rw [List.count_eq_zero_of_not_mem hn]
    rfl

end

def InterpreterError.cause? : InterpreterError → Option StepError
  | .step e => some e
  | _ => none

namespace Interpreter

variable {C : Type}

def registered (i : Interpreter C) : Interest → List Subscription
  | .states => i.listeners
  | .errors => i.errorListeners

def partingFailure? (i : Interpreter C) : Option StepError :=
  match i.state.map i.machine.exitAll with
  | none => none
  | some (.error e) => some e
  | some (.ok step) => match i.performStep step with
    | (_, .error e) => some e
    | (_, .ok _) => none

def alarm (e : Option StepError) : List (Notice C) := e.toList.map .failed

def noticesOf (i : Interpreter C) : JournalEntry C → List (Notice C)
  | .handled _ error => alarm error
  | .adopted step => .committed (i.machine.stateOf step) ::
    if step.done then alarm { i with state := some step.state }.partingFailure? else []
  | _ => []

end Interpreter

namespace Request

variable {C : Type}

def failure? (i : Interpreter C) : Request → Option StepError
  | .start => (Request.start.refusal i).bind InterpreterError.cause?
  | .stop => if i.status = .running then i.partingFailure? else none
  | _ => none

def notices (fuel : Nat) (i : Interpreter C) (r : Request) : List (Notice C) :=
  Interpreter.alarm (r.failure? i) ++ (r.journal fuel i).flatMap i.noticesOf

end Request

namespace Interpreter

variable {C : Type} {m : Machine C} {i i' j : Interpreter C} {l l' : List (Notice C)} {fuel : Nat}

def tells (i : Interpreter C) : Notice C → List (Subscription × Delivery C)
  | .committed s => i.listeners.map (·, .snapshot s)
  | .failed e => i.errorListeners.map (·, .error e)
  | _ => []

structure Airs (i : Interpreter C) (l : List (Notice C)) (i' : Interpreter C) : Prop where
  machine : i'.machine = i.machine
  settings : i'.settings = i.settings
  listeners : i'.listeners = i.listeners
  errorListeners : i'.errorListeners = i.errorListeners
  subscriptions : i'.subscriptions = i.subscriptions
  told : deliveries i'.trace = deliveries i.trace ++ l.flatMap i.tells

lemma notices_of_queued (events : List Event) :
    (events.map JournalEntry.queued).flatMap i.noticesOf = [] := by
  simp [List.flatMap_map, noticesOf]

lemma airs_refl (i : Interpreter C) : Airs i [] i :=
  ⟨rfl, rfl, rfl, rfl, rfl, (List.append_nil _).symm⟩

lemma Airs.tells (h : Airs i l i') : i'.tells = i.tells := by
  funext notice
  cases notice <;> simp [Interpreter.tells, h.listeners, h.errorListeners]

lemma Airs.noticesOf (h : Airs i l i') : i'.noticesOf = i.noticesOf := by
  funext entry
  cases entry <;>
    simp [Interpreter.noticesOf, partingFailure?, performStep, h.machine, h.settings]

lemma Airs.registered (h : Airs i l i') : i'.registered = i.registered := by
  funext interest
  cases interest with
  | states => exact h.listeners
  | errors => exact h.errorListeners

lemma Airs.trans (h : Airs i l j) (h' : Airs j l' i') : Airs i (l ++ l') i' where
  machine := h'.machine.trans h.machine
  settings := h'.settings.trans h.settings
  listeners := h'.listeners.trans h.listeners
  errorListeners := h'.errorListeners.trans h.errorListeners
  subscriptions := h'.subscriptions.trans h.subscriptions
  told := by rw [h'.told, h.told, h.tells, List.flatMap_append, List.append_assoc]

lemma airs_aside (h : i' = { i' with
    machine := i.machine
    settings := i.settings
    listeners := i.listeners
    errorListeners := i.errorListeners
    subscriptions := i.subscriptions
    trace := i.trace }) : Airs i [] i' := by
  rw [h]
  exact ⟨rfl, rfl, rfl, rfl, rfl, (List.append_nil _).symm⟩

lemma airs_observe {notes : List (Observation C)} (h : deliveries notes = []) :
    Airs i [] (i.observe notes) :=
  ⟨rfl, rfl, rfl, rfl, rfl, by rw [observe, deliveries_append, h]; rfl⟩

lemma airs_report (e : StepError) : Airs i [.failed e] (i.report e) := by
  refine ⟨rfl, rfl, rfl, rfl, rfl, ?_⟩
  simp [report, observe, tells, deliveries, List.filterMap_map, Function.comp_def,
    Observation.delivery?]

lemma airs_notify (s : Snapshot C) : Airs i [.committed s] (i.notify s) := by
  refine ⟨rfl, rfl, rfl, rfl, rfl, ?_⟩
  simp [notify, observe, tells, deliveries, List.filterMap_map, Function.comp_def,
    Observation.delivery?]

lemma Airs.foldl {α : Type} {f : Interpreter C → α → Interpreter C} (h : Airs j l i)
    (hf : ∀ i a, Airs i [] (f i a)) (as : List α) : Airs j l (as.foldl f i) := by
  induction as generalizing i with
  | nil => exact h
  | cons a as ih =>
    have hnext := h.trans (hf i a)
    rw [List.append_nil] at hnext
    exact ih hnext

lemma airs_stopActivity (i : Interpreter C) (n : NodeId) (name : String) :
    Airs i [] (i.stopActivity n name) := by
  have hnone : deliveries ((i.work.activity? n name).toList.map fun a =>
      (.activityStopped a.node a.name a.stopped : Observation C)) = [] :=
    List.filterMap_eq_nil_iff.2 (by simp [Observation.delivery?])
  exact (airs_observe hnone).trans (airs_aside rfl)

lemma airs_startActivity (i : Interpreter C) (n : NodeId) (name : String)
    (started stopped : Value) : Airs i [] (i.startActivity n name started stopped) := by
  have hstarted : Airs i [] (i.observe [.activityStarted n name started]) := airs_observe rfl
  exact (hstarted.trans (airs_stopActivity _ n name)).trans (airs_aside rfl)

lemma airs_startService (i : Interpreter C) (n : NodeId) (id : String) (r : ServiceRun) :
    Airs i [] (i.startService n id r) := by
  rw [startService]
  split
  · have hstarted : Airs i [] (i.observe [.serviceStarted n id r.note]) := airs_observe rfl
    exact hstarted.trans (airs_aside rfl)
  · exact airs_refl i

lemma airs_startWork (event : Event) (i : Interpreter C) (n : NodeId) :
    Airs i [] (startWork event i n) := by
  rw [startWork]
  split
  · exact airs_refl i
  · refine .foldl ?_ (fun i v => airs_startService i n _ _) _
    refine .foldl ?_ (fun i a => airs_startActivity i n _ _ _) _
    exact .foldl (airs_refl i) (fun _ _ => airs_aside rfl) _

lemma airs_stopWork (i : Interpreter C) (n : NodeId) : Airs i [] (i.stopWork n) := by
  refine .foldl ?_ (fun _ _ => airs_aside rfl) _
  refine .foldl ?_ (fun i a => airs_stopActivity i n _) _
  exact .foldl (airs_refl i) (fun _ _ => airs_aside rfl) _

lemma airs_trade (step : Step C) (sends : List Event) : Airs i [] (i.trade step sends) := by
  have hleft := (airs_refl i).foldl airs_stopWork step.exited
  have hmove : Airs (step.exited.foldl stopWork i) []
      ((step.exited.foldl stopWork i).moveTo step.state sends) := airs_aside rfl
  exact (hleft.trans hmove).foldl (airs_startWork step.event) step.entered

lemma airs_leave (i : Interpreter C) : Airs i (alarm i.partingFailure?) i.leave := by
  have hp : ∀ step, deliveries (i.performStep step).1 = [] :=
    fun step => deliveries_of_performed performStep_isPerformed
  rw [leave, partingFailure?]
  rcases i.state.map i.machine.exitAll with _ | e | step
  · exact airs_refl i
  · exact airs_report e
  · have hstep := hp step
    rcases hn : i.performStep step with ⟨notes, e | sends⟩
    · rw [hn] at hstep
      simp only [hn]
      exact (airs_observe hstep).trans (airs_report e)
    · rw [hn] at hstep
      simp only [hn]
      exact airs_observe hstep

lemma airs_stop (hr : i.status = .running) : Airs i (alarm i.partingFailure?) i.stop := by
  let k : Interpreter C := { i with status := .stopped }
  have hshut : Airs i [] k.shutdown := by
    refine ⟨rfl, rfl, rfl, rfl, rfl, ?_⟩
    simp [k, shutdown, observe, deliveries, Observation.delivery?, Function.comp_def]
  have hleave : Airs k.shutdown (alarm i.partingFailure?) k.shutdown.leave := airs_leave _
  obtain ⟨h₁, h₂, h₃, h₄, h₅, htold⟩ := hshut.trans hleave
  simp only [stop, hr]
  exact ⟨h₁, h₂, h₃, h₄, h₅, htold⟩

lemma airs_display (step : Step C) (transitions : TransitionLog) :
    Airs i [.committed (i.machine.stateOf step)] (i.display step transitions) := by
  obtain ⟨h₁, h₂, h₃, h₄, h₅, htold⟩ := airs_notify (i := { i with
    transitions
    metadata := i.metadata.advance i.date
    snapshot := some (i.machine.stateOf step) }) (i.machine.stateOf step)
  exact ⟨h₁, h₂, h₃, h₄, h₅, htold⟩

lemma airs_adopt (step : Step C) (sends : List Event) (hr : i.status = .running) :
    Airs i (i.noticesOf (.adopted step)) (i.adopt step sends) := by
  have hb := busies_trade i step sends
  have htrade : Airs i [] (i.trade step sends) := airs_trade step sends
  have hdisplay := htrade.trans (airs_display step (i.logged step))
  rw [htrade.machine] at hdisplay
  have hstatus : ((i.trade step sends).display step (i.logged step)).status = .running := by
    rw [display, hb]
    exact hr
  rw [adopt_eq, noticesOf]
  cases step.done with
  | false => exact hdisplay
  | true =>
    have hfailure : ((i.trade step sends).display step (i.logged step)).partingFailure? =
        ({ i with state := some step.state } : Interpreter C).partingFailure? := by
      rw [display, hb]
      rfl
    have hstop := hdisplay.trans (airs_stop hstatus)
    rw [hfailure] at hstop
    exact hstop

lemma airs_commit (step : Step C) (hr : i.status = .running) :
    Airs i ((i.committing step).flatMap i.noticesOf) (i.commit step).1 := by
  rcases committing_cases i step with
    ⟨_, hj, hc⟩ | ⟨e, trace, hj, hc⟩ | ⟨notes, _, hnotes, hj, hc⟩
  · rw [hj, hc]
    exact airs_aside rfl
  · rcases commit_cases i step with ⟨_, hc'⟩ | ⟨notes, hnotes, ⟨e', hc'⟩ | ⟨sends, hc'⟩⟩
    · exact absurd (congrArg Prod.snd (hc.symm.trans hc')) (by simp)
    · rw [hj, hc']
      exact airs_observe (deliveries_of_performed hnotes)
    · exact absurd (congrArg Prod.snd (hc.symm.trans hc')) (by simp)
  · have hperformed : deliveries notes = [] := by
      refine deliveries_of_performed ?_
      have hall : ∀ o ∈ (i.performStep step).1, o.IsPerformed := performStep_isPerformed
      rwa [hnotes] at hall
    have hobserve := airs_observe (i := i) hperformed
    have hadopt := hobserve.trans (airs_adopt step (i.sendsOf step) hr)
    rw [hobserve.noticesOf] at hadopt
    rw [hj, hc, List.flatMap_cons, notices_of_queued, List.append_nil]
    exact hadopt

lemma committing_of_failed {step : Step C} {e : StepError} (h : i.commit step = (j, some e)) :
    i.committing step = [] := by
  rw [committing, h]
  simp

lemma airs_process (hr : i.status = .running) (event : Event) :
    Airs i ((i.handling event).flatMap i.noticesOf) (i.process event).1 := by
  cases hs : i.state with
  | none =>
    simp only [handling, process, hs]
    exact airs_refl i
  | some s =>
    cases hstep : i.machine.stepWithin s event i.settings.maxMicrosteps with
    | error e =>
      simp only [handling, process, hs, hstep]
      exact airs_report e
    | ok step =>
      have hcommit := airs_commit step hr
      simp only [handling, process, hs, hstep, commitOrReport]
      rcases hc : i.commit step with ⟨j, _ | e⟩
      · rw [hc] at hcommit
        exact hcommit
      · rw [hc, committing_of_failed hc] at hcommit
        rw [committing_of_failed hc]
        exact hcommit.trans (airs_report e)

lemma airs_enterInitial :
    Airs i (alarm i.enterInitial.2 ++ i.entering.flatMap i.noticesOf) i.enterInitial.1 := by
  cases hstep : i.machine.initialStepFrom i.machine.context i.settings.maxMicrosteps with
  | error e =>
    simp only [enterInitial, entering, hstep]
    exact airs_report e
  | ok step =>
    have hcommit := airs_commit (i := i.begun) step rfl
    have hbegun : Airs i [] i.begun := airs_aside rfl
    have hj : i.entering = i.begun.committing step := by simp only [entering, hstep]
    rw [hbegun.noticesOf] at hcommit
    rcases hc : i.begun.commit step with ⟨j, _ | e⟩
    · have he : i.enterInitial = (j, none) := by
        rw [begun] at hc
        simp only [enterInitial, hstep, hc]
      rw [hc] at hcommit
      rw [he, hj]
      exact hbegun.trans hcommit
    · have he : i.enterInitial = (report { j with status := .notStarted } e, some e) := by
        rw [begun] at hc
        simp only [enterInitial, hstep, hc]
      rw [hc, committing_of_failed hc] at hcommit
      rw [he, hj, committing_of_failed hc]
      have hfailed : Airs i [] { j with status := .notStarted } :=
        (hbegun.trans hcommit).trans (airs_aside rfl)
      exact hfailed.trans (airs_report e)

lemma Round.airs {entries : List (JournalEntry C)} (h : Round i entries i') :
    Airs i (entries.flatMap i.noticesOf) i' := by
  cases h with
  | @handle event rest hr hq =>
    have hrest : Airs i [] (i.withQueue rest) := airs_aside rfl
    have hprocess := airs_process (i := i.withQueue rest) hr event
    rw [hrest.noticesOf] at hprocess
    exact hrest.trans hprocess
  | _ => exact airs_aside rfl

lemma Rounds.airs {entries : List (JournalEntry C)} (h : Rounds i entries i') :
    Airs i (entries.flatMap i.noticesOf) i' := by
  induction h with
  | refl => exact airs_refl i
  | tail _ hround ih =>
    have hlast := hround.airs
    rw [ih.noticesOf] at hlast
    rw [List.flatMap_append]
    exact ih.trans hlast

lemma airs_startFresh {r : Except InterpreterError (Snapshot C)} (hs : i.status = .notStarted)
    (h : i.startFresh fuel = some (i', r)) :
    Airs i (alarm ((Request.start.refusal i).bind InterpreterError.cause?) ++
      (i.startingFresh fuel).flatMap i.noticesOf) i' := by
  rcases startFresh_cases h with ⟨hw, rfl, _⟩ | ⟨hw, hcases⟩
  · simp only [startingFresh, Request.refusal, hs, hw, if_true]
    exact airs_refl i'
  · have henter := airs_enterInitial (i := i)
    have hrefusal : (Request.start.refusal i).bind InterpreterError.cause? = i.enterInitial.2 := by
      simp only [Request.refusal, hs, hw, Bool.false_eq_true, if_false]
      cases i.enterInitial.2 <;> rfl
    rw [hrefusal]
    rcases hcases with ⟨e, he, _⟩ | ⟨j, e, he, hd, _⟩
    · have hj : i.startingFresh fuel = [] := by
        rw [startingFresh, hw, he, entering_of_failed hs he]
        rfl
      rw [he, entering_of_failed hs he] at henter
      rw [hj, he]
      exact henter
    · rw [he] at henter
      have hflush : Airs j [] ({ j with deferred := [] }.enqueue j.deferred) := airs_aside rfl
      have hdrain := hflush.trans (drain_rounds hd).1.airs
      rw [hflush.noticesOf, henter.noticesOf] at hdrain
      rw [he, startingFresh_of_entered hw he, List.flatMap_append, List.flatMap_append,
        notices_of_queued, List.nil_append, ← List.append_assoc]
      exact henter.trans hdrain

end Interpreter

namespace Request

open Interpreter

variable {C : Type} {i i' : Interpreter C} {r : Request} {e : Option InterpreterError} {fuel : Nat}

lemma run_airs (hi : i.InPhase) (h : r.run fuel i = some (i', e)) :
    Airs i (r.notices fuel i) i' := by
  have hrounds : r ≠ .start → r ≠ .stop → Airs i ((r.journal fuel i).flatMap i.noticesOf) i' :=
    fun hstart hstop => (run_rounds hstart hstop h).1.airs
  cases r with
  | start =>
    obtain ⟨⟨k, result⟩, hk, h⟩ := Option.map_eq_some_iff.1 h
    obtain ⟨rfl, rfl⟩ := Prod.mk.inj h
    rw [notices, failure?, journal, starting]
    rw [Interpreter.start] at hk
    cases hs : i.status with
    | notStarted =>
      simp only [hs] at hk ⊢
      exact airs_startFresh hs hk
    | running =>
      obtain ⟨_, x, _, hx, _⟩ := hi.running hs
      simp only [hs, hx, refusal] at hk ⊢
      obtain ⟨rfl, _⟩ := Prod.mk.inj (Option.some.inj hk)
      exact airs_refl i
    | stopped =>
      simp only [hs, refusal] at hk ⊢
      obtain ⟨rfl, _⟩ := Prod.mk.inj (Option.some.inj hk)
      exact airs_refl i
  | stop =>
    obtain ⟨rfl, rfl⟩ := Prod.mk.inj (Option.some.inj h)
    rw [notices, failure?, journal, List.flatMap_nil, List.append_nil]
    cases hs : i.status with
    | running =>
      rw [if_pos rfl]
      exact airs_stop hs
    | notStarted =>
      simp only [Interpreter.stop, hs]
      exact airs_aside rfl
    | stopped =>
      rw [stop_of_stopped hs]
      exact airs_refl i
  | _ => exact hrounds (by simp) (by simp)

end Request

namespace Interpreter

variable {C : Type} {m : Machine C} {i i' : Interpreter C} {past l after : List (Notice C)}
  {interest : Interest} {present : Option (Snapshot C)} {n k : Subscription} {fuel : Nat}

structure Served (i : Interpreter C) (n : Subscription) (interest : Interest)
    (present : Option (Snapshot C)) (after : List (Notice C)) : Prop where
  registered : ∀ other, n ∈ i.registered other ↔ other = interest ∧ .left n ∉ after
  given : givenTo n (deliveries i.trace) =
    present.toList.map .snapshot ++ interest.hears n after

structure Serves (i : Interpreter C) (past : List (Notice C)) : Prop where
  bound : ∀ n ∈ joinedIn past, n ≤ i.subscriptions
  distinct : (joinedIn past).Nodup
  once : ∀ interest, (i.registered interest).Nodup
  known : ∀ interest, ∀ n ∈ i.registered interest, n ∈ joinedIn past
  unknown : ∀ n, n ∉ joinedIn past → givenTo n (deliveries i.trace) = []
  served : ∀ before n interest present after,
    past = before ++ .joined n interest present :: after → Served i n interest present after

lemma serves_nil (hr : ∀ interest, i.registered interest = []) (ht : deliveries i.trace = []) :
    Serves i [] where
  bound := by simp [joinedIn]
  distinct := List.nodup_nil
  once := by simp [hr]
  known := by simp [hr]
  unknown := by simp [ht, givenTo]
  served := by simp

lemma Served.append (h : Served i n interest present after)
    (hr : ∀ other, n ∈ i'.registered other ↔ n ∈ i.registered other ∧ .left n ∉ l)
    (hleft : .left n ∈ after →
      givenTo n (deliveries i'.trace) = givenTo n (deliveries i.trace))
    (hstays : .left n ∉ after →
      givenTo n (deliveries i'.trace) = givenTo n (deliveries i.trace) ++ interest.hears n l) :
    Served i' n interest present (after ++ l) where
  registered other := by
    rw [hr, h.registered, and_assoc, List.mem_append, not_or]
  given := by
    by_cases hafter : .left n ∈ after
    · rw [hleft hafter, h.given, Interest.hears_append_of_left hafter]
    · rw [hstays hafter, h.given, List.append_assoc, Interest.hears_append_of_not_left hafter,
        Interest.hears_of_not_left hafter]

section

variable (once : ∀ interest, (i.registered interest).Nodup)

include once

lemma givenTo_tells (n : Subscription) (notice : Notice C) :
    givenTo n (i.tells notice) = match notice with
      | .committed s => if n ∈ i.registered .states then [.snapshot s] else []
      | .failed e => if n ∈ i.registered .errors then [.error e] else []
      | _ => [] := by
  cases notice with
  | committed s => exact givenTo_map (once .states) n (.snapshot s)
  | failed e => exact givenTo_map (once .errors) n (.error e)
  | _ => rfl

lemma givenTo_of_unregistered (h : ∀ interest, n ∉ i.registered interest) (l : List (Notice C)) :
    givenTo n (l.flatMap i.tells) = [] := by
  induction l with
  | nil => rfl
  | cons notice l ih =>
    rw [List.flatMap_cons, givenTo_append, ih, givenTo_tells once]
    cases notice <;> simp [h]

lemma givenTo_of_registered (h : ∀ other, n ∈ i.registered other ↔ other = interest)
    (l : List (Notice C)) : givenTo n (l.flatMap i.tells) = l.filterMap interest.takes? := by
  induction l with
  | nil => rfl
  | cons notice l ih =>
    rw [List.flatMap_cons, givenTo_append, ih, givenTo_tells once, List.filterMap_cons]
    cases notice <;> cases interest <;> simp [h, Interest.takes?]

end

lemma split_of_mem_joinedIn (h : n ∈ joinedIn past) :
    ∃ before interest present after, past = before ++ .joined n interest present :: after := by
  obtain ⟨interest, present, hmem⟩ := mem_joinedIn.1 h
  obtain ⟨before, after, hsplit⟩ := List.append_of_mem hmem
  exact ⟨before, interest, present, after, hsplit⟩

lemma joinedIn_of_isNews (hl : ∀ notice ∈ l, notice.IsNews) : joinedIn l = [] := by
  refine List.filterMap_eq_nil_iff.2 fun notice hmem => ?_
  have hnews := hl notice hmem
  cases notice <;> first | rfl | exact hnews.elim

lemma Serves.append (h : Serves i past) (hl : joinedIn l = [])
    (hn : i'.subscriptions = i.subscriptions)
    (hr : ∀ interest, (i'.registered interest).Sublist (i.registered interest))
    (hu : ∀ n, n ∉ joinedIn past → givenTo n (deliveries i'.trace) = [])
    (hs : ∀ n interest present after, Served i n interest present after →
      Served i' n interest present (after ++ l)) : Serves i' (past ++ l) := by
  have hjoined : joinedIn (past ++ l) = joinedIn past := by
    rw [joinedIn_append, hl, List.append_nil]
  refine ⟨?_, ?_, fun interest => (h.once interest).sublist (hr interest),
    fun interest n hmem => ?_, ?_, fun before n interest present after hsplit => ?_⟩
  · rw [hjoined, hn]
    exact h.bound
  · rw [hjoined]
    exact h.distinct
  · rw [hjoined]
    exact h.known interest n ((hr interest).subset hmem)
  · rw [hjoined]
    exact hu
  · rcases split_append hsplit with ⟨rest, hpast, rfl⟩ | ⟨front, _, rfl⟩
    · exact hs n interest present rest (h.served before n interest present rest hpast)
    · exact absurd hl (by simp [joinedIn])

lemma Serves.airs (h : Serves i past) (ha : Airs i l i') (hl : ∀ notice ∈ l, notice.IsNews) :
    Serves i' (past ++ l) := by
  have hleft : ∀ n, Notice.left n ∉ l := fun n hmem => hl _ hmem
  refine h.append (joinedIn_of_isNews hl) ha.subscriptions (fun interest => ?_) (fun n hn => ?_)
    fun n interest present after hserved => hserved.append ?_ (fun hafter => ?_) fun hafter => ?_
  · rw [ha.registered]
  · have hnowhere : ∀ interest, n ∉ i.registered interest :=
      fun interest hmem => hn (h.known interest n hmem)
    rw [ha.told, givenTo_append, h.unknown n hn, givenTo_of_unregistered h.once hnowhere]
    rfl
  · simp [ha.registered, hleft]
  · have hnowhere : ∀ other, n ∉ i.registered other :=
      fun other hmem => ((hserved.registered other).1 hmem).2 hafter
    rw [ha.told, givenTo_append, givenTo_of_unregistered h.once hnowhere, List.append_nil]
  · have hhere : ∀ other, n ∈ i.registered other ↔ other = interest := by
      simp [hserved.registered, hafter]
    rw [ha.told, givenTo_append, givenTo_of_registered h.once hhere,
      Interest.hears_of_not_left (hleft n)]

lemma Serves.aside (h : Serves i past) (ha : Airs i [] i') : Serves i' past := by
  have hsame := h.airs ha (by simp)
  rwa [List.append_nil] at hsame

lemma unsubscribe_iff : (i.unsubscribe n).1 = true ↔ ∃ other, n ∈ i.registered other := by
  rw [unsubscribe, Bool.or_eq_true, List.contains_iff_mem, List.contains_iff_mem]
  constructor
  · rintro (hmem | hmem)
    · exact ⟨.states, hmem⟩
    · exact ⟨.errors, hmem⟩
  · rintro ⟨_ | _, hmem⟩
    · exact .inl hmem
    · exact .inr hmem

lemma mem_registered_unsubscribe {other : Interest} :
    k ∈ (i.unsubscribe n).2.registered other ↔ k ∈ i.registered other ∧ k ≠ n := by
  cases other <;> simp [unsubscribe, registered, List.mem_filter]

lemma Serves.unsubscribe (h : Serves i past) (n : Subscription) :
    Serves (i.unsubscribe n).2 (past ++ [.left n]) := by
  refine h.append rfl rfl (fun interest => ?_) h.unknown
    fun k interest present after hserved => hserved.append (fun other => ?_) (fun _ => rfl)
      fun _ => ?_
  · cases interest with
    | states => exact List.filter_sublist
    | errors => exact List.filter_sublist
  · rw [mem_registered_unsubscribe]
    simp
  · have hnothing : interest.hears k [.left n] = ([] : List (Delivery C)) := by
      rw [Interest.hears, List.takeWhile_cons]
      split <;> cases interest <;> rfl
    rw [hnothing, List.append_nil]
    rfl

lemma Serves.join (h : Serves i past) (hn : i'.subscriptions = i.subscriptions + 1)
    (hr : ∀ other, i'.registered other =
      if other = interest then i.registered other ++ [i.subscriptions + 1] else i.registered other)
    (ht : deliveries i'.trace = deliveries i.trace ++
      present.toList.map fun s => (i.subscriptions + 1, .snapshot s)) :
    Serves i' (past ++ [.joined (i.subscriptions + 1) interest present]) := by
  have hnew : i.subscriptions + 1 ∉ joinedIn past := by
    intro hmem
    exact absurd (h.bound _ hmem) (by simp)
  have hjoined : joinedIn (past ++ [.joined (i.subscriptions + 1) interest present]) =
      joinedIn past ++ [i.subscriptions + 1] := joinedIn_append _ _
  have hfresh : ∀ other, i.subscriptions + 1 ∉ i.registered other :=
    fun other hmem => hnew (h.known other _ hmem)
  have hothers : ∀ n, n ≠ i.subscriptions + 1 →
      givenTo n (deliveries i'.trace) = givenTo n (deliveries i.trace) := by
    intro n hne
    rw [ht, givenTo_append]
    simp [givenTo, hne.symm]
  refine ⟨fun n hmem => ?_, ?_, fun other => ?_, fun other n hmem => ?_, fun n hmem => ?_,
    fun before n interest' present' after hsplit => ?_⟩
  · rw [hjoined, List.mem_append, List.mem_singleton] at hmem
    rw [hn]
    rcases hmem with hmem | rfl
    · exact Nat.le_succ_of_le (h.bound n hmem)
    · exact Nat.le_refl _
  · rw [hjoined, ← List.concat_eq_append]
    exact h.distinct.concat hnew
  · rw [hr]
    split
    · rw [← List.concat_eq_append]
      exact (h.once other).concat (hfresh other)
    · exact h.once other
  · rw [hr] at hmem
    rw [hjoined]
    split at hmem
    · exact (List.mem_append.1 hmem).elim
        (fun hmem => List.mem_append_left _ (h.known other n hmem))
        fun hmem => List.mem_append_right _ hmem
    · exact List.mem_append_left _ (h.known other n hmem)
  · rw [hjoined, List.mem_append, List.mem_singleton, not_or] at hmem
    rw [hothers n hmem.2, h.unknown n hmem.1]
  · rcases split_append hsplit with ⟨rest, hpast, rfl⟩ | ⟨front, hbefore, hfront⟩
    · have hne : n ≠ i.subscriptions + 1 := by
        rintro rfl
        exact hnew (mem_joinedIn.2 ⟨interest', present', by simp [hpast]⟩)
      refine (h.served before n interest' present' rest hpast).append ?_ (fun _ => hothers n hne)
        fun _ => ?_
      · intro other
        rw [hr]
        split <;> simp [hne]
      · rw [hothers n hne]
        cases interest' <;> simp [Interest.hears, Notice.leavesAs, Interest.takes?]
    · cases front with
      | cons o front => exact absurd (List.cons.inj hfront).2 (by simp)
      | nil =>
        obtain ⟨hlast, rfl⟩ := List.cons.inj hfront
        obtain ⟨rfl, rfl, rfl⟩ := Notice.joined.inj hlast
        refine ⟨fun other => ?_, ?_⟩
        · rw [hr]
          by_cases hother : other = interest <;> simp [hother, hfresh]
        · rw [ht, givenTo_append, h.unknown _ hnew]
          cases present <;> simp [givenTo, Interest.hears]

/-- What has happened to an interpreter and its listeners since it was created or restored. -/
inductive Session (m : Machine C) : Interpreter C → List (Notice C) → Prop
  | create (settings : Settings) (hasRuntime : Bool) (date : Timestamp) :
      Session m (create m settings hasRuntime date) []
  | restore {c : Checkpoint C} {settings : Settings} {hasRuntime : Bool} {date : Timestamp}
      {i : Interpreter C} (h : restore m c settings hasRuntime date = .ok i) : Session m i []
  | call {i i' : Interpreter C} {past : List (Notice C)} {r : Request} {fuel : Nat}
      {e : Option InterpreterError} (h : Session m i past) (hr : r.run fuel i = some (i', e)) :
      Session m i' (past ++ r.notices fuel i)
  | subscribe {i : Interpreter C} {past : List (Notice C)} (h : Session m i past) :
      Session m i.subscribe.2 (past ++ [.joined i.subscribe.1 .states i.snapshot])
  | subscribeToErrors {i : Interpreter C} {past : List (Notice C)} (h : Session m i past) :
      Session m i.subscribeToErrors.2 (past ++ [.joined i.subscribeToErrors.1 .errors none])
  | unsubscribe {i : Interpreter C} {past : List (Notice C)} (h : Session m i past)
      (n : Subscription) : Session m (i.unsubscribe n).2 (past ++ [.left n])
  | post {i : Interpreter C} {past : List (Notice C)} (h : Session m i past)
      (message : Message) : Session m (i.post message) past
  | elapse {i : Interpreter C} {past : List (Notice C)} (h : Session m i past) (millis : Nat) :
      Session m (i.elapse millis) past
  | date {i : Interpreter C} {past : List (Notice C)} (h : Session m i past) (date : Timestamp) :
      Session m { i with date } past

lemma Session.history (h : Session m i past) : ∃ entries, History m i entries := by
  induction h with
  | create settings hasRuntime date => exact ⟨_, .create settings hasRuntime date⟩
  | restore h => exact ⟨_, .restore h⟩
  | call _ hr ih =>
    obtain ⟨entries, h⟩ := ih
    exact ⟨_, h.call hr⟩
  | subscribe _ ih => exact ih.imp fun _ h => h.meanwhile .subscribe
  | subscribeToErrors _ ih => exact ih.imp fun _ h => h.meanwhile .subscribeToErrors
  | unsubscribe _ n ih => exact ih.imp fun _ h => h.meanwhile (.unsubscribe n)
  | post _ message ih => exact ih.imp fun _ h => h.meanwhile (.post message)
  | elapse _ millis ih => exact ih.imp fun _ h => h.meanwhile (.elapse millis)
  | date _ date ih => exact ih.imp fun _ h => h.meanwhile (.date date)

lemma isNews_of_mem_alarm {e : Option StepError} {notice : Notice C}
    (h : notice ∈ alarm e) : notice.IsNews := by
  obtain ⟨_, _, rfl⟩ := List.mem_map.1 h
  trivial

lemma isNews_of_mem_notices {r : Request} {notice : Notice C} (h : notice ∈ r.notices fuel i) :
    notice.IsNews := by
  rcases List.mem_append.1 h with h | h
  · exact isNews_of_mem_alarm h
  · obtain ⟨entry, _, h⟩ := List.mem_flatMap.1 h
    cases entry with
    | handled event error => exact isNews_of_mem_alarm h
    | adopted step =>
      rcases List.mem_cons.1 h with rfl | h
      · trivial
      · split at h
        · exact isNews_of_mem_alarm h
        · exact absurd h List.not_mem_nil
    | _ => exact absurd h List.not_mem_nil

lemma airs_resume (c : Checkpoint C) (s : MachineState C) : ∃ l, Airs i l (i.resume c s) := by
  have hreinstate : Airs i [] (i.reinstate c s) := airs_aside rfl
  have hrework : Airs i [] (i.rework c s) := hreinstate.foldl (airs_startWork _) _
  have hb := busies_rework (i := i) c s
  have hr : (i.rework c s).status = .running := by
    rw [hb]
    rfl
  rw [resume_eq]
  split
  · exact ⟨_, hrework.trans (airs_stop hr)⟩
  · exact ⟨_, hrework⟩

lemma Session.serves (h : Session m i past) : Serves i past := by
  have hnobody : ∀ {settings hasRuntime date} interest,
      (Interpreter.create m settings hasRuntime date).registered interest = [] := by
    intro _ _ _ interest
    cases interest <;> rfl
  induction h with
  | create settings hasRuntime date => exact serves_nil hnobody rfl
  | @restore c settings hasRuntime date i h =>
    obtain ⟨_, _, s, _, rfl⟩ := restore_eq_ok h
    obtain ⟨l, hl⟩ := airs_resume (i := .create m settings hasRuntime date) c s
    refine serves_nil (fun interest => ?_) ?_
    · rw [hl.registered, hnobody]
    · have hnone : (Interpreter.create m settings hasRuntime date).tells = fun _ => [] := by
        funext notice
        cases notice <;> rfl
      rw [hl.told, hnone, List.flatMap_eq_nil_iff.2 fun _ _ => rfl]
      rfl
  | call h hr ih =>
    obtain ⟨_, hh⟩ := h.history
    exact ih.airs (Request.run_airs hh.inPhase hr) fun _ => isNews_of_mem_notices
  | @subscribe i past _ ih =>
    refine ih.join rfl (fun other => ?_) ?_
    · cases other <;> rfl
    · cases hs : i.snapshot <;>
        simp [Interpreter.subscribe, observe, deliveries, Observation.delivery?, hs]
  | @subscribeToErrors i past _ ih =>
    refine ih.join rfl (fun other => ?_) (List.append_nil _).symm
    cases other <;> rfl
  | unsubscribe _ n ih => exact ih.unsubscribe n
  | post _ message ih => exact ih.aside (airs_aside rfl)
  | elapse _ millis ih => exact ih.aside (airs_aside rfl)
  | date _ date ih => exact ih.aside (airs_aside rfl)

/-- Each listener is given the present snapshot when it joins to listen to states, and then what it
listens to, in order and once, until it leaves. -/
theorem listeners_hear (h : Session m i past) :
    (∀ before n interest present after,
      past = before ++ .joined n interest present :: after →
        givenTo n (deliveries i.trace) = present.toList.map .snapshot ++ interest.hears n after) ∧
    (∀ n, n ∉ joinedIn past → givenTo n (deliveries i.trace) = []) ∧
    (joinedIn past).Nodup ∧
    ∀ n, ((i.unsubscribe n).1 = true ↔ ∃ before interest present after,
        past = before ++ .joined n interest present :: after ∧ .left n ∉ after) ∧
      ∀ other k, k ∈ (i.unsubscribe n).2.registered other ↔ k ∈ i.registered other ∧ k ≠ n := by
  have hserves := h.serves
  refine ⟨fun before n interest present after hsplit =>
      (hserves.served before n interest present after hsplit).given,
    hserves.unknown, hserves.distinct, fun n => ⟨?_, fun _ _ => mem_registered_unsubscribe⟩⟩
  rw [unsubscribe_iff]
  constructor
  · rintro ⟨other, hmem⟩
    obtain ⟨before, interest, present, after, hsplit⟩ :=
      split_of_mem_joinedIn (hserves.known other n hmem)
    have hserved := hserves.served before n interest present after hsplit
    exact ⟨before, interest, present, after, hsplit, ((hserved.registered other).1 hmem).2⟩
  · rintro ⟨before, interest, present, after, hsplit, hstays⟩
    have hserved := hserves.served before n interest present after hsplit
    exact ⟨interest, (hserved.registered interest).2 ⟨rfl, hstays⟩⟩

def gate : Definition := .ofRoot
  { initial := some "closed"
    states := [
      ("closed", { on := .ofList [("OPEN", [{ target := ["open"] }])] }),
      ("open", {
        on := .ofList [("CLOSE", [{ target := ["closed"] }])]
        exit := ["latch"] })] }

def gateBehaviors : Behaviors Unit where
  actions := .ofList [("latch", .effect fun _ _ => .error ⟨"jammed"⟩)]

def gateMachine : Machine Unit :=
  Machine.assemble gate () (Machine.link gate gateBehaviors).value

def Delivery.gist {C : Type} : Delivery C → List String
  | .snapshot s => s.configuration
  | .error (.action _ name _) => [name]
  | .error _ => []

theorem gate_heard : ∃ i past, Session gateMachine i past ∧
    [1, 2, 3].map (fun n => (givenTo n (deliveries i.trace)).map Delivery.gist) =
      [[["latch"], ["latch"]], [["machine", "machine.closed"]],
        [["machine", "machine.closed"], ["machine", "machine.open"]]] ∧
    ∀ n, givenTo n (deliveries i.trace) ≠ [] → ∃ before interest present after,
      past = before ++ .joined n interest present :: after ∧
        givenTo n (deliveries i.trace) =
          present.toList.map .snapshot ++ interest.hears n after := by
  have hplay : ((Request.start.run 0
      (create gateMachine {} false .epoch).subscribeToErrors.2.subscribe.2).bind fun r =>
        (Request.run 1 (r.1.subscribe.2.unsubscribe 2).2 (.send (.ofType "OPEN"))).bind fun r =>
        (Request.run 1 r.1 (.send (.ofType "CLOSE"))).bind fun r =>
        (Request.run 1 r.1 (.send (.ofType "OPEN"))).map fun r =>
          [1, 2, 3].map fun n => (givenTo n (deliveries r.1.stop.trace)).map Delivery.gist) =
      some [[["latch"], ["latch"]], [["machine", "machine.closed"]],
        [["machine", "machine.closed"], ["machine", "machine.open"]]] := by
    decide +kernel
  obtain ⟨r₁, h₁, hplay⟩ := Option.bind_eq_some_iff.1 hplay
  obtain ⟨r₂, h₂, hplay⟩ := Option.bind_eq_some_iff.1 hplay
  obtain ⟨r₃, h₃, hplay⟩ := Option.bind_eq_some_iff.1 hplay
  obtain ⟨r₄, h₄, hgiven⟩ := Option.map_eq_some_iff.1 hplay
  have hcreated : Session gateMachine (create gateMachine {} false .epoch) [] :=
    .create {} false .epoch
  have hstarted : Session gateMachine r₁.1 _ := hcreated.subscribeToErrors.subscribe.call h₁
  have hended := (((hstarted.subscribe.unsubscribe 2).call h₂).call h₃).call h₄
  have hstop : Request.stop.run 0 r₄.1 = some (r₄.1.stop, none) := rfl
  have hstopped : Session gateMachine r₄.1.stop _ := hended.call hstop
  obtain ⟨hhear, hunknown, _⟩ := listeners_hear hstopped
  refine ⟨_, _, hstopped, hgiven, fun n hn => ?_⟩
  obtain ⟨before, interest, present, after, hsplit⟩ :=
    split_of_mem_joinedIn (not_imp_comm.1 (hunknown n) hn)
  exact ⟨before, interest, present, after, hsplit, hhear before n interest present after hsplit⟩

end Interpreter

end Statechart
