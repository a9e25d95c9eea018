import Mathlib.Tactic.Common
import Statechart.Machine.Build
import Statechart.Proofs.Interpreter.Calls
import Statechart.Proofs.Interpreter.Commit
import Statechart.Proofs.Interpreter.Work
import Statechart.Proofs.Step.Lifecycle

/-! The tables of an interpreter. While it runs they are those of the active states, and before and
after they are empty, whatever calls are made and whichever of them fail. -/

namespace Statechart.Interpreter

variable {C : Type} {m : Machine C} {i i' : Interpreter C} {s s' : Configuration}

def Busies (i i' : Interpreter C) : Prop := i' = { i with work := i'.work, trace := i'.trace }

lemma Busies.trans {i'' : Interpreter C} (h : Busies i i') (h' : Busies i' i'') : Busies i i'' := by
  rw [Busies, h', h]

lemma busies_foldl {α : Type} {f : Interpreter C → α → Interpreter C} (hf : ∀ i a, Busies i (f i a))
    (l : List α) (i : Interpreter C) : Busies i (l.foldl f i) := by
  induction l generalizing i with
  | nil => rfl
  | cons a l ih => exact (hf i a).trans (ih _)

lemma busies_startService (i : Interpreter C) (n : NodeId) (id : String) (r : ServiceRun) :
    Busies i (i.startService n id r) := by
  rw [startService]
  split <;> rfl

lemma busies_startWork (event : Event) (i : Interpreter C) (n : NodeId) :
    Busies i (startWork event i n) := by
  rw [startWork]
  split
  · rfl
  · refine ((busies_foldl ?_ _ i).trans (busies_foldl ?_ _ _)).trans (busies_foldl ?_ _ _)
    · exact fun _ _ => rfl
    · exact fun _ _ => rfl
    · exact fun i v => busies_startService i _ _ _

lemma busies_stopWork (i : Interpreter C) (n : NodeId) : Busies i (i.stopWork n) := by
  refine ((busies_foldl ?_ _ i).trans (busies_foldl ?_ _ _)).trans (busies_foldl ?_ _ _)
  · exact fun _ _ => rfl
  · exact fun _ _ => rfl
  · exact fun _ _ => rfl

lemma foldl_work {α : Type} {f : Interpreter C → α → Interpreter C} {g : Work → α → Work}
    {w : Work} (l : List α) (hf : ∀ i a, (f i a).work = g i.work a) (h : i.work = w) :
    (l.foldl f i).work = l.foldl g w := by
  rw [← h]
  exact (List.foldl_hom work fun i a => (hf i a).symm).symm

lemma stopWork_work (i : Interpreter C) (n : NodeId) :
    (i.stopWork n).work = i.work.relieve n (i.machine.partsOf n) := by
  refine foldl_work _ (fun _ _ => rfl) (foldl_work _ (fun _ _ => rfl) (foldl_work _ ?_ rfl))
  exact fun _ _ => rfl

lemma startService_work (i : Interpreter C) (n : NodeId) (id : String) (r : ServiceRun) :
    (i.startService n id r).work = i.work.startService id (serviceSteps id r) := by
  by_cases h : i.work.hasRuntime <;> simp [startService, Work.startService, observe, h]

lemma startWork_work (event : Event) (n : NodeId) {state : MachineState C}
    (h : i.state = some state) :
    (startWork event i n).work =
      i.work.employ n (i.machine.partsOf n) state.context event := by
  simp only [startWork, h]
  refine foldl_work _ (fun i v => startService_work i n v.id _) ?_
  exact foldl_work _ (fun _ _ => rfl) (foldl_work _ (fun _ _ => rfl) rfl)

lemma matches_stopWork (l : List NodeId) (hi : i.work.Matches i.machine s)
    (hs : ∀ x, x ∈ s' ↔ x ∈ s ∧ x ∉ l) : (l.foldl stopWork i).work.Matches i.machine s' := by
  induction l generalizing i s with
  | nil =>
    obtain rfl : s' = s := SortedSet.ext fun x => by simp [hs]
    exact hi
  | cons n l ih =>
    have hm : (i.stopWork n).machine = i.machine := by rw [busies_stopWork i n]
    rw [List.foldl_cons, ← hm]
    refine ih (s := s.erase n) ?_ fun x => ?_
    · rw [stopWork_work, hm]
      exact hi.relieve
    · rw [hs, SortedSet.mem_erase, List.mem_cons, not_or, and_assoc]

lemma matches_startWork (event : Event) (l : List NodeId) {state : MachineState C}
    (hstate : i.state = some state) (hi : i.work.Matches i.machine s)
    (hs : ∀ x, x ∈ s' ↔ x ∈ s ∨ x ∈ l) :
    (l.foldl (startWork event) i).work.Matches i.machine s' := by
  induction l generalizing i s with
  | nil =>
    obtain rfl : s' = s := SortedSet.ext fun x => by simp [hs]
    exact hi
  | cons n l ih =>
    have hb := busies_startWork event i n
    have hm : (startWork event i n).machine = i.machine := by rw [hb]
    rw [List.foldl_cons, ← hm]
    refine ih (s := s.insert n) ?_ ?_ fun x => ?_
    · rw [hb]
      exact hstate
    · rw [startWork_work event n hstate, hm]
      exact hi.employ
    · rw [hs, SortedSet.mem_insert, List.mem_cons]
      tauto

lemma busies_trade (i : Interpreter C) (step : Step C) (sends : List Event) :
    Busies (i.moveTo step.state sends) (i.trade step sends) := by
  have hleft := busies_foldl busies_stopWork step.exited i
  have hmove : Busies (i.moveTo step.state sends)
      ((step.exited.foldl stopWork i).moveTo step.state sends) := by
    rw [Busies, hleft]
    rfl
  exact hmove.trans (busies_foldl (busies_startWork step.event) step.entered _)

lemma matches_trade {step : Step C} (sends : List Event) (hi : i.work.Matches i.machine s)
    (hn : Lifecycle.Nets s step.state.configuration step.lifecycle) :
    (i.trade step sends).work.Matches i.machine step.state.configuration := by
  have hm : (step.exited.foldl stopWork i).machine = i.machine := by
    rw [busies_foldl busies_stopWork step.exited i]
  have hleft : (step.exited.foldl stopWork i).work.Matches i.machine
      (s.filter fun x => x ∉ step.exited) :=
    matches_stopWork step.exited hi fun x => by simp
  rw [trade, ← hm]
  refine matches_startWork (i := (step.exited.foldl stopWork i).moveTo step.state sends)
    step.event step.entered rfl (hm ▸ hleft) fun x => ?_
  rw [hn.mem x, SortedSet.mem_filter, decide_eq_true_eq, Step.exited, Step.entered,
    Lifecycle.mem_exitedNodes, Lifecycle.mem_enteredNodes]

structure Tidy (m : Machine C) (i : Interpreter C) : Prop where
  machine : i.machine = m
  running : i.status = .running →
    i.snapshot ≠ none ∧ ∃ s, i.state = some s ∧ i.work.Matches m s.configuration
  idle : i.status ≠ .running → i.work.Matches m .empty

lemma Tidy.of_eq (h : Tidy m i) (hm : i'.machine = i.machine) (hst : i'.status = i.status)
    (hsn : i'.snapshot = i.snapshot) (hs : i'.state = i.state)
    (hw : i.work.Shrinks i'.work) : Tidy m i' := by
  refine ⟨hm.trans h.machine, fun hr => ?_, fun hr => ?_⟩
  · obtain ⟨hsome, s, hstate, hmatch⟩ := h.running (hst ▸ hr)
    exact ⟨hsn ▸ hsome, s, hs ▸ hstate, hw.matches hmatch⟩
  · exact hw.matches (h.idle (hst ▸ hr))

lemma Tidy.observe (h : Tidy m i) (l : List (Observation C)) : Tidy m (i.observe l) :=
  h.of_eq rfl rfl rfl rfl (.refl _)

lemma leave_eq (i : Interpreter C) : ∃ trace, i.leave = { i with trace } := by
  rw [leave]
  split
  · exact ⟨i.trace, rfl⟩
  · exact ⟨_, rfl⟩
  · split
    · exact ⟨_, rfl⟩
    · exact ⟨_, rfl⟩

lemma Tidy.stop (h : Tidy m i) : Tidy m i.stop := by
  rw [Interpreter.stop]
  split
  · exact h
  · rename_i hs
    exact ⟨h.machine, fun hr => absurd hr (by simp), fun _ => h.idle (by simp [hs])⟩
  · obtain ⟨trace, hl⟩ := leave_eq ({ i with status := .stopped } : Interpreter C).shutdown
    rw [hl]
    exact ⟨h.machine, fun hr => absurd hr (by simp [shutdown, Interpreter.observe]),
      fun _ => Work.matches_empty_iff.2 ⟨rfl, rfl, rfl⟩⟩

lemma Tidy.adopt {step : Step C} (sends : List Event) (hm : i.machine = m)
    (hi : i.work.Matches m s)
    (hn : Lifecycle.Nets s step.state.configuration step.lifecycle) (hr : i.status = .running) :
    Tidy m (i.adopt step sends) := by
  subst hm
  have hb := busies_trade i step sends
  have hm : (i.trade step sends).machine = i.machine := by rw [hb]; rfl
  have hs : (i.trade step sends).state = some step.state := by rw [hb]; rfl
  have hst : (i.trade step sends).status = .running := by rw [hb]; exact hr
  have htidy : Tidy i.machine ((i.trade step sends).display step (i.logged step)) :=
    ⟨hm, fun _ => ⟨Option.some_ne_none _, step.state, hs, matches_trade sends hi hn⟩,
      fun hne => absurd hst hne⟩
  rw [adopt_eq]
  split
  · exact htidy.stop
  · exact htidy

lemma Tidy.process (h : Tidy m i) (hr : i.status = .running) (event : Event) :
    Tidy m (i.process event).1 := by
  obtain ⟨_, s, hs, hi⟩ := h.running hr
  rcases process_cases hs event with ⟨e, notes, _, hp⟩ | hp | ⟨step, notes, sends, hstep, hp⟩
  · rw [hp]
    exact (h.observe notes).observe _
  · rw [hp]
    exact h.of_eq rfl rfl rfl rfl (.refl _)
  · rw [hp]
    have hn := Machine.stepWithin_nets hstep
    exact Tidy.adopt sends h.machine hi hn hr

lemma Tidy.drain {fuel : Nat} {e : Option StepError} (h : Tidy m i)
    (hd : i.drain fuel = some (i', e)) : Tidy m i' := by
  refine drain_induction (fun j event rest hj hr _ => ?_) h hd
  have hj' : Tidy m { j with queue := rest } := hj.of_eq rfl rfl rfl rfl (.refl _)
  exact hj'.process hr event

lemma Tidy.create (settings : Settings) (hasRuntime : Bool) (date : Timestamp) :
    Tidy m (create m settings hasRuntime date) :=
  ⟨rfl, fun hr => absurd hr (by simp [Interpreter.create]),
    fun _ => Work.matches_empty_iff.2 ⟨rfl, rfl, rfl⟩⟩

lemma Tidy.resume {c : Checkpoint C} {state : MachineState C} (hm : i.machine = m)
    (hi : i.work.Matches m .empty) : Tidy m (i.resume c state) := by
  subst hm
  let event := Event.ofType c.event
  let snapshot := i.machine.snapshot state event false [] none
  let j : Interpreter C := { i with
    state := some state
    snapshot := some snapshot
    transitions := c.transitions
    metadata := c.metadata
    status := .running }
  have hb := busies_foldl (busies_startWork event) state.configuration.elems j
  have hw := matches_startWork (i := j) event state.configuration.elems rfl hi fun x =>
    (or_iff_right (SortedSet.not_mem_empty x)).symm
  have htidy : Tidy i.machine (state.configuration.elems.foldl (startWork event) j) := by
    refine ⟨?_, fun _ => ⟨?_, state, ?_, hw⟩, fun hne => absurd ?_ hne⟩
    all_goals rw [hb]
    exact Option.some_ne_none _
  rw [Interpreter.resume]
  split
  · exact htidy.stop
  · exact htidy

lemma Tidy.restore {c : Checkpoint C} {settings : Settings} {hasRuntime : Bool} {date : Timestamp}
    (h : restore m c settings hasRuntime date = .ok i) : Tidy m i := by
  obtain ⟨_, _, h⟩ := bind_eq_ok h
  split at h
  · exact absurd h (by simp [throw, throwThe, MonadExceptOf.throw, bind, Except.bind])
  · obtain ⟨state, _, h⟩ := bind_eq_ok h
    obtain rfl := Except.ok.inj h
    exact Tidy.resume rfl (Work.matches_empty_iff.2 ⟨rfl, rfl, rfl⟩)

lemma Tidy.enterInitial (h : Tidy m i) (hr : i.status ≠ .running) :
    Tidy m i.enterInitial.1 := by
  rw [Interpreter.enterInitial]
  cases hstep : i.machine.initialStepFrom i.machine.context i.settings.maxMicrosteps with
  | error e => exact h.observe _
  | ok step =>
    let j : Interpreter C := { i with status := .running, metadata := .startingAt i.date }
    rcases commit_cases j step with ⟨hc, _⟩ | ⟨notes, _, ⟨e, hc⟩ | ⟨sends, hc⟩⟩
    · obtain ⟨r, r', _, _, rfl⟩ := Machine.initialStepFrom_cases hstep
      exact absurd hc (by simp [Machine.finish])
    · simp only [j] at hc
      simp only [hc]
      exact ⟨h.machine, fun hr => absurd hr (by simp [report, Interpreter.observe]),
        fun _ => h.idle hr⟩
    · simp only [j] at hc
      simp only [hc]
      exact Tidy.adopt (i := j.observe notes) sends h.machine (h.idle hr)
        (Machine.initialStepFrom_nets hstep) rfl

lemma Tidy.enqueue (h : Tidy m i) (events : List Event) : Tidy m (i.enqueue events) :=
  h.of_eq rfl rfl rfl rfl (.refl _)

lemma Tidy.startFresh {fuel : Nat} {r : Except InterpreterError (Snapshot C)} (h : Tidy m i)
    (hr : i.status ≠ .running) (hs : i.startFresh fuel = some (i', r)) : Tidy m i' := by
  have hi := h.enterInitial hr
  rcases startFresh_cases hs with ⟨_, rfl, _⟩ | ⟨_, ⟨e, hj, _⟩ | ⟨j, e, hj, hd, _⟩⟩
  · exact h
  · rwa [hj] at hi
  · rw [hj] at hi
    have hj' : Tidy m { j with deferred := [] } := hi.of_eq rfl rfl rfl rfl (.refl _)
    exact (hj'.enqueue j.deferred).drain hd

lemma Tidy.start {fuel : Nat} {r : Except InterpreterError (Snapshot C)} (h : Tidy m i)
    (hs : i.start fuel = some (i', r)) : Tidy m i' := by
  rw [Interpreter.start] at hs
  split at hs
  · rename_i hr
    split at hs
    · obtain ⟨rfl, _⟩ := Prod.mk.inj (Option.some.inj hs)
      exact h
    · rename_i hnone
      exact absurd hnone (h.running hr).1
  · obtain ⟨rfl, _⟩ := Prod.mk.inj (Option.some.inj hs)
    exact h
  · rename_i hr
    exact h.startFresh (by simp [hr]) hs

lemma Tidy.deliver {fuel : Nat} {message : Message} {e : Option StepError} (h : Tidy m i)
    (hd : i.deliver fuel message = some (i', e)) : Tidy m i' :=
  (h.enqueue [message.event]).drain hd

lemma Tidy.send {fuel : Nat} {event : Event} {e : Option InterpreterError} (h : Tidy m i)
    (hs : i.send fuel event = some (i', e)) : Tidy m i' := by
  rw [Interpreter.send] at hs
  split at hs
  · split at hs
    all_goals obtain ⟨rfl, _⟩ := Prod.mk.inj (Option.some.inj hs)
    · exact h.of_eq rfl rfl rfl rfl (.refl _)
    · exact h
  · obtain ⟨rfl, _⟩ := Prod.mk.inj (Option.some.inj hs)
    exact h
  · obtain ⟨⟨j, e'⟩, hd, hs⟩ := Option.bind_eq_some_iff.1 hs
    obtain ⟨rfl, _⟩ := Prod.mk.inj (Option.some.inj hs)
    exact (h.enqueue [event]).drain hd

lemma Tidy.work (h : Tidy m i) {w : Work} (hw : i.work.Shrinks w) : Tidy m { i with work := w } :=
  h.of_eq rfl rfl rfl rfl hw

lemma Tidy.deliverAll {fuel left : Nat} {d : Deliveries} (h : Tidy m i)
    (hd : i.deliverAll fuel left = some (i', d)) : Tidy m i' := by
  have hw := Work.shrinks_receive i.work
  induction left generalizing i d with
  | zero =>
    rw [Interpreter.deliverAll.eq_def] at hd
    by_cases hr : i.status = .running
    · simp only [if_pos hr] at hd
      generalize i.work.receive = received at hw hd
      rcases received with ⟨_ | message, w⟩
      · obtain ⟨rfl, _⟩ := Prod.mk.inj (Option.some.inj hd)
        exact h.work hw
      · exact absurd hd (by simp)
    · simp only [if_neg hr] at hd
      obtain ⟨rfl, _⟩ := Prod.mk.inj (Option.some.inj hd)
      exact h
  | succ left ih =>
    rw [Interpreter.deliverAll.eq_def] at hd
    by_cases hr : i.status = .running
    · simp only [if_pos hr] at hd
      generalize i.work.receive = received at hw hd
      rcases received with ⟨_ | message, w⟩
      · obtain ⟨rfl, _⟩ := Prod.mk.inj (Option.some.inj hd)
        exact h.work hw
      · obtain ⟨⟨j, e⟩, hj, hd⟩ := Option.bind_eq_some_iff.1 hd
        obtain ⟨⟨j', later⟩, hj', hd⟩ := Option.bind_eq_some_iff.1 hd
        obtain ⟨rfl, _⟩ := Prod.mk.inj (Option.some.inj hd)
        exact ih ((h.work hw).deliver hj) hj' (Work.shrinks_receive j.work)
    · simp only [if_neg hr] at hd
      obtain ⟨rfl, _⟩ := Prod.mk.inj (Option.some.inj hd)
      exact h

lemma Tidy.processMailbox {fuel : Nat} {r : Except InterpreterError Nat} (h : Tidy m i)
    (hp : i.processMailbox fuel = some (i', r)) : Tidy m i' := by
  obtain ⟨⟨j, d⟩, hd, hp⟩ := Option.bind_eq_some_iff.1 hp
  have hj := h.deliverAll hd
  rcases d with ⟨count, _ | e⟩
  all_goals
    obtain ⟨rfl, _⟩ := Prod.mk.inj (Option.some.inj hp)
    exact hj

lemma Tidy.runNext {fuel deadline : Nat} {next : Next} (h : Tidy m i)
    (hn : i.runNext fuel deadline = some (i', next)) : Tidy m i' := by
  have hw := Work.shrinks_await i.work deadline
  rw [Interpreter.runNext] at hn
  split at hn
  · generalize i.work.await deadline = arrival at hw hn
    rcases arrival with ⟨message | _ | _, w⟩
    · obtain ⟨⟨j, e⟩, hd, hn⟩ := Option.bind_eq_some_iff.1 hn
      obtain ⟨rfl, _⟩ := Prod.mk.inj (Option.some.inj hn)
      exact (h.work hw).deliver hd
    all_goals
      obtain ⟨rfl, _⟩ := Prod.mk.inj (Option.some.inj hn)
      exact h.work hw
  · obtain ⟨rfl, _⟩ := Prod.mk.inj (Option.some.inj hn)
    exact h

/-- Whatever was called before, and whatever failed: an interpreter that runs has exactly one
activity for each that an active state declares, and timers and services of active states only. One
that does not run has none of them. -/
theorem tables_match (h : Reaches m i) :
    (i.status = .running → ∃ s, i.state = some s ∧ i.work.Matches m s.configuration) ∧
      (i.status ≠ .running →
        i.work.timers = [] ∧ i.work.services = [] ∧ i.work.activities = []) := by
  have htidy : Tidy m i := by
    induction h with
    | create settings hasRuntime date => exact .create settings hasRuntime date
    | restore h => exact .restore h
    | start _ h ih => exact ih.start h
    | send _ h ih => exact ih.send h
    | processMailbox _ h ih => exact ih.processMailbox h
    | runNext _ h ih => exact ih.runNext h
    | stop _ ih => exact ih.stop
    | post _ message ih => exact ih.work (.of_eq rfl rfl rfl)
    | elapse _ millis ih => exact ih.work (Work.shrinks_elapse _ millis)
    | date _ date ih => exact ih.of_eq rfl rfl rfl rfl (.refl _)
    | subscribe _ ih => exact ih.of_eq rfl rfl rfl rfl (.refl _)
    | subscribeToErrors _ ih => exact ih.of_eq rfl rfl rfl rfl (.refl _)
    | unsubscribe _ n ih => exact ih.of_eq rfl rfl rfl rfl (.refl _)
  refine ⟨fun hr => ?_, fun hr => Work.matches_empty_iff.1 (htidy.idle hr)⟩
  obtain ⟨_, s, hs, hmatch⟩ := htidy.running hr
  exact ⟨s, hs, hmatch⟩

def polling : Definition := .ofRoot
  { initial := some "wait"
    states := [
      ("wait", {
        after := .ofList [("50", [{ target := ["fetch"] }])]
        activities := ["hum"] }),
      ("fetch", { invoke := [{ src := "download" }], activities := ["hum", "blink"] })] }

def pollingBehaviors : Behaviors Unit where
  services := .ofList [("download", fun _ _ _ => ⟨.null, [], .never⟩)]
  activities := .ofList [
    ("blink", ⟨fun _ _ => .null, fun _ _ => .null⟩),
    ("hum", ⟨fun _ _ => .null, fun _ _ => .null⟩)]

def pollingMachine : Machine Unit :=
  Machine.assemble polling () (Machine.link polling pollingBehaviors).value

theorem polling_tables_match :
    ∃ i, Reaches pollingMachine i ∧ i.work.activityKeys = [(2, "hum"), (2, "blink")] ∧
      i.work.services.map Prod.fst = ["machine.fetch:invocation[0]"] ∧
        ∃ s, i.state = some s ∧ i.work.Matches pollingMachine s.configuration := by
  have hrun : (((create pollingMachine {} true .epoch).start 1).bind fun r =>
      r.1.runNext 1 50).map
        (fun r => (r.1.status, r.1.work.activityKeys, r.1.work.services.map Prod.fst)) =
      some (.running, [(2, "hum"), (2, "blink")], ["machine.fetch:invocation[0]"]) := by
    decide +kernel
  obtain ⟨⟨i', next⟩, hi', htables⟩ := Option.map_eq_some_iff.1 hrun
  obtain ⟨⟨i, r⟩, hi, hnext⟩ := Option.bind_eq_some_iff.1 hi'
  simp only [Prod.mk.injEq] at htables
  have hstart : Reaches pollingMachine i := (Reaches.create {} true .epoch).start hi
  have hreach : Reaches pollingMachine i' := hstart.runNext hnext
  exact ⟨i', hreach, htables.2.1, htables.2.2, (tables_match hreach).1 htables.1⟩

end Statechart.Interpreter
