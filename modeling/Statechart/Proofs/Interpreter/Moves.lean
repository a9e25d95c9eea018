import Mathlib.Tactic.Common
import Statechart.Proofs.Interpreter.Calls
import Statechart.Proofs.Interpreter.Commit
import Statechart.Proofs.Interpreter.Tasks
import Statechart.Proofs.Machine.Origins
import Statechart.Proofs.Step.Exits

/-! Moves of an interpreter: the small steps that calls are made of, each with what happens in it.
-/

namespace Statechart

structure Engagement where
  node : NodeId
  origin : Origin
  generation : Nat
  deriving DecidableEq

inductive Occurrence where
  | engaged (e : Engagement)
  | left (node : NodeId)
  | stopped
  | posted (message : Message)
  | taken (message : Message) (handed : Bool)

def Machine.engagements {C : Type} (m : Machine C) (generation : Nat) (nodes : List NodeId) :
    List Engagement :=
  ((nodes.flatMap fun n => (m.originsOf n).map (n, ·)).zipIdx (generation + 1)).map fun e =>
    ⟨e.1.1, e.1.2, e.2⟩

namespace Interpreter

variable {C : Type}

def startings (i : Interpreter C) (nodes : List NodeId) : List Occurrence :=
  if i.work.hasRuntime then (i.machine.engagements i.work.generation nodes).map .engaged else []

def adoption (i : Interpreter C) (step : Step C) (exits : List NodeId) : List Occurrence :=
  exits.map .left ++ i.startings step.entered ++ if step.done then [.stopped] else []

def commitment (i : Interpreter C) (step : Step C) (exits : List NodeId) : List Occurrence :=
  match step.changed, (i.performStep step).2 with
  | true, .ok _ => i.adoption step exits
  | _, _ => []

def happenings (i : Interpreter C) (event : Event) : List Occurrence :=
  match i.state with
  | none => []
  | some s => match i.machine.stepWithin s event i.settings.maxMicrosteps with
    | .error _ => []
    | .ok step => i.commitment step (i.machine.exitsOfStep s event i.settings.maxMicrosteps)

def beginnings (i : Interpreter C) : List Occurrence :=
  match i.machine.initialStepFrom i.machine.context i.settings.maxMicrosteps with
  | .error _ => []
  | .ok step => i.commitment step
      (i.machine.exitsOfInitial i.machine.context i.settings.maxMicrosteps)

def take (i : Interpreter C) (message : Message) (rest : List Message) : Interpreter C :=
  if i.work.isCurrent message then
    { i with work := { i.work with mailbox := rest }.retire message }.enqueue [message.event]
  else { i with work := { i.work with mailbox := rest } }

def Aside (i i' : Interpreter C) : Prop := i' = { i with
  deferred := i'.deferred
  listeners := i'.listeners
  errorListeners := i'.errorListeners
  subscriptions := i'.subscriptions
  date := i'.date
  metadata := i'.metadata
  trace := i'.trace }

inductive Move (i : Interpreter C) : List Occurrence → Interpreter C → Prop
  | process {event : Event} {rest : List Event} (hr : i.status = .running)
      (hq : i.queue = event :: rest) :
      Move i (i.happenings event) (process { i with queue := rest } event).1
  | enter (hs : i.status = .notStarted) (hw : i.machine.needsRuntime → i.work.hasRuntime) :
      Move i i.beginnings i.enterInitial.1
  | take {message : Message} {rest : List Message} (hr : i.status = .running)
      (hm : i.work.mailbox = message :: rest) :
      Move i [.taken message (i.work.isCurrent message)] (i.take message rest)
  | stir {l : List Message} {w : Work} (h : i.work.Stirs l w) :
      Move i (l.map .posted) { i with work := w }
  | enqueue (events : List Event) : Move i [] (i.enqueue events)
  | aside {i' : Interpreter C} (h : Aside i i') : Move i [] i'
  | stop : Move i [.stopped] i.stop

inductive Moves (i : Interpreter C) : List Occurrence → Interpreter C → Prop
  | refl : Moves i [] i
  | tail {l l' : List Occurrence} {j k : Interpreter C} (h : Moves i l j) (h' : Move j l' k) :
      Moves i (l ++ l') k

def Leads (i i' : Interpreter C) : Prop := ∃ l, Moves i l i'

variable {i i' i'' : Interpreter C}

lemma Leads.refl (i : Interpreter C) : Leads i i := ⟨[], .refl⟩

lemma Leads.tail {l : List Occurrence} (h : Leads i i') (h' : Move i' l i'') : Leads i i'' := by
  obtain ⟨l', h⟩ := h
  exact ⟨l' ++ l, h.tail h'⟩

lemma Leads.trans (h : Leads i i') (h' : Leads i' i'') : Leads i i'' := by
  obtain ⟨l, h'⟩ := h'
  induction h' with
  | refl => exact h
  | tail _ hmove ih => exact ih.tail hmove

lemma Move.leads {l : List Occurrence} (h : Move i l i') : Leads i i' := (Leads.refl i).tail h

def Rested (i : Interpreter C) : Prop := i.status = .running → i.queue = []

lemma drain_leads {fuel : Nat} {e : Option StepError} (h : i.drain fuel = some (i', e)) :
    Leads i i' := by
  apply drain_induction (P := Leads i) ?_ (.refl i) h
  intro j event rest hj hr hq
  exact hj.tail (.process hr hq)

lemma drain_rested {fuel : Nat} {e : Option StepError} (h : i.drain fuel = some (i', e)) :
    i'.Rested := by
  induction fuel generalizing i e with
  | zero =>
    intro hr
    rcases drain_cases h with ⟨rfl, _⟩ | ⟨_, _, _, _, hf, _⟩
    · cases hq : i'.queue with
      | nil => rfl
      | cons event rest =>
        rw [drain_zero_of_cons hr hq] at h
        exact absurd h (by simp)
    · exact absurd hf (Nat.succ_ne_zero _).symm
  | succ fuel ih =>
    intro hr
    cases hq : i.queue with
    | nil =>
      rw [drain_of_nil hq, Option.some.injEq, Prod.mk.injEq] at h
      exact h.1 ▸ hq
    | cons event rest =>
      by_cases hi : i.status = .running
      · rw [drain_succ_of_cons hi hq, Option.map_eq_some_iff] at h
        obtain ⟨r, hd, hr'⟩ := h
        obtain ⟨rfl, _⟩ := Prod.mk.inj hr'
        exact ih hd hr
      · rw [drain_of_not_running hi, Option.some.injEq, Prod.mk.injEq] at h
        exact absurd (h.1 ▸ hr) hi

lemma aside_leads (h : Aside i i') : Leads i i' := (Move.aside h).leads

lemma receiveFrom_mailbox (w : Work) (mailbox l : List Message) :
    { w with mailbox }.receiveFrom l = w.receiveFrom l := by
  induction l with
  | nil => rfl
  | cons message rest ih =>
    rw [Work.receiveFrom, Work.receiveFrom, ih]
    rfl

lemma receive_leads {o : Option Message} {w : Work} (hr : i.status = .running)
    (h : i.work.receive = (o, w)) :
    Leads i ({ i with work := w }.enqueue (o.toList.map Message.event)) := by
  rw [Work.receive] at h
  generalize hm : i.work.mailbox = l at h
  induction l generalizing i with
  | nil =>
    obtain ⟨rfl, rfl⟩ := Prod.mk.inj h
    rw [← hm]
    exact (Move.enqueue []).leads
  | cons message rest ih =>
    have htake := (Move.take hr hm).leads
    rw [Work.receiveFrom] at h
    rw [take] at htake
    split at h
    · rename_i hc
      obtain ⟨rfl, rfl⟩ := Prod.mk.inj h
      rwa [if_pos hc] at htake
    · rename_i hc
      rw [if_neg hc] at htake
      refine htake.trans (ih (i := { i with work := { i.work with mailbox := rest } }) hr rfl ?_)
      rwa [receiveFrom_mailbox]

lemma deliver_leads {fuel : Nat} {message : Message} {w : Work} {e : Option StepError}
    (hr : i.status = .running) (hw : i.work.receive = (some message, w))
    (h : deliver fuel { i with work := w } message = some (i', e)) : Leads i i' :=
  (receive_leads hr hw).trans (drain_leads h)

lemma mailbox_of_receive_none {w w' : Work} (h : w.receive = (none, w')) : w'.mailbox = [] := by
  rw [Work.receive] at h
  generalize w.mailbox = l at h
  induction l with
  | nil => rw [← (Prod.mk.inj h).2]
  | cons message rest ih =>
    rw [Work.receiveFrom] at h
    split at h
    · exact absurd h (by simp)
    · exact ih h

lemma receive_none_leads {w : Work} (hr : i.status = .running) (h : i.work.receive = (none, w)) :
    Leads i { i with work := w } := by
  have hlead := receive_leads hr h
  rwa [Option.toList_none, List.map_nil, enqueue, List.append_nil] at hlead

lemma deliverAll_leads {fuel left : Nat} {d : Deliveries}
    (h : i.deliverAll fuel left = some (i', d)) :
    Leads i i' ∧ (i.Rested → i'.Rested) ∧ (i'.status = .running → i'.work.mailbox = []) := by
  induction left generalizing i d with
  | zero =>
    rw [Interpreter.deliverAll.eq_def] at h
    by_cases hr : i.status = .running
    · simp only [if_pos hr] at h
      rcases hrec : i.work.receive with ⟨_ | message, w⟩
      · rw [hrec] at h
        obtain ⟨rfl, _⟩ := Prod.mk.inj (Option.some.inj h)
        exact ⟨receive_none_leads hr hrec, id, fun _ => mailbox_of_receive_none hrec⟩
      · rw [hrec] at h
        exact absurd h (by simp)
    · simp only [if_neg hr] at h
      obtain ⟨rfl, _⟩ := Prod.mk.inj (Option.some.inj h)
      exact ⟨.refl i, id, fun hr' => absurd hr' hr⟩
  | succ left ih =>
    rw [Interpreter.deliverAll.eq_def] at h
    by_cases hr : i.status = .running
    · simp only [if_pos hr] at h
      rcases hrec : i.work.receive with ⟨_ | message, w⟩
      · rw [hrec] at h
        obtain ⟨rfl, _⟩ := Prod.mk.inj (Option.some.inj h)
        exact ⟨receive_none_leads hr hrec, id, fun _ => mailbox_of_receive_none hrec⟩
      · rw [hrec] at h
        obtain ⟨⟨j, e⟩, hj, h⟩ := Option.bind_eq_some_iff.1 h
        obtain ⟨⟨j', later⟩, hj', h⟩ := Option.bind_eq_some_iff.1 h
        obtain ⟨rfl, _⟩ := Prod.mk.inj (Option.some.inj h)
        obtain ⟨hlead, hrest, hempty⟩ := ih hj'
        exact ⟨(deliver_leads hr hrec hj).trans hlead, fun _ => hrest (drain_rested hj), hempty⟩
    · simp only [if_neg hr] at h
      obtain ⟨rfl, _⟩ := Prod.mk.inj (Option.some.inj h)
      exact ⟨.refl i, id, fun hr' => absurd hr' hr⟩

lemma processMailbox_leads {fuel : Nat} {r : Except InterpreterError Nat}
    (h : i.processMailbox fuel = some (i', r)) :
    Leads i i' ∧ (i.Rested → i'.Rested) ∧ (i'.status = .running → i'.work.mailbox = []) := by
  obtain ⟨⟨j, d⟩, hd, h⟩ := Option.bind_eq_some_iff.1 h
  have hj := deliverAll_leads hd
  rcases d with ⟨count, _ | e⟩
  all_goals
    obtain ⟨rfl, _⟩ := Prod.mk.inj (Option.some.inj h)
    exact hj

def arrived (i : Interpreter C) (w : Work) : Arrival → Interpreter C
  | .message message => { i with work := w }.enqueue [message.event]
  | _ => { i with work := w }

lemma stir_leads {l : List Message} {w : Work} (h : i.work.Stirs l w) :
    Leads i { i with work := w } := (Move.stir h).leads

lemma awaitWithin_leads {deadline jumps : Nat} {a : Arrival} {w : Work}
    (hr : i.status = .running) (h : i.work.awaitWithin deadline jumps = (a, w)) :
    Leads i (i.arrived w a) := by
  induction jumps generalizing i with
  | zero =>
    rw [Work.awaitWithin] at h
    rcases hrec : i.work.receive with ⟨_ | message, w₁⟩
    · have hlead := receive_none_leads hr hrec
      simp only [hrec] at h
      split at h
      · obtain ⟨rfl, rfl⟩ := Prod.mk.inj h
        exact hlead
      · obtain ⟨rfl, rfl⟩ := Prod.mk.inj h
        exact hlead.trans (stir_leads (i := { i with work := w₁ }) (Work.Stirs.refl.tick deadline))
    · simp only [hrec] at h
      obtain ⟨rfl, rfl⟩ := Prod.mk.inj h
      exact receive_leads hr hrec
  | succ jumps ih =>
    rw [Work.awaitWithin] at h
    rcases hrec : i.work.receive with ⟨_ | message, w₁⟩
    · have hlead := receive_none_leads hr hrec
      simp only [hrec] at h
      split at h
      · obtain ⟨rfl, rfl⟩ := Prod.mk.inj h
        exact hlead
      · cases hadvance : w₁.advance? deadline with
        | none =>
          simp only [hadvance] at h
          obtain ⟨rfl, rfl⟩ := Prod.mk.inj h
          exact hlead.trans
            (stir_leads (i := { i with work := w₁ }) (Work.Stirs.refl.tick deadline))
        | some w₂ =>
          simp only [hadvance] at h
          obtain ⟨l, hstirs⟩ := Work.stirs_advance hadvance
          have hstir := stir_leads (i := { i with work := w₁ }) hstirs
          exact (hlead.trans hstir).trans (ih (i := { i with work := w₂ }) hr h)
    · simp only [hrec] at h
      obtain ⟨rfl, rfl⟩ := Prod.mk.inj h
      exact receive_leads hr hrec

lemma runNext_leads {fuel deadline : Nat} {next : Next}
    (h : i.runNext fuel deadline = some (i', next)) : Leads i i' ∧ (i.Rested → i'.Rested) := by
  rw [runNext] at h
  split at h
  · rename_i hr
    rcases hw : i.work.await deadline with ⟨a, w⟩
    have hlead := awaitWithin_leads hr hw
    rw [hw] at h
    cases a with
    | message message =>
      obtain ⟨⟨j, e⟩, hd, h⟩ := Option.bind_eq_some_iff.1 h
      obtain ⟨rfl, _⟩ := Prod.mk.inj (Option.some.inj h)
      exact ⟨hlead.trans (drain_leads hd), fun _ => drain_rested hd⟩
    | nothing =>
      obtain ⟨rfl, _⟩ := Prod.mk.inj (Option.some.inj h)
      exact ⟨hlead, id⟩
    | overdue =>
      obtain ⟨rfl, _⟩ := Prod.mk.inj (Option.some.inj h)
      exact ⟨hlead, id⟩
  · obtain ⟨rfl, _⟩ := Prod.mk.inj (Option.some.inj h)
    exact ⟨.refl i, id⟩

lemma send_leads {fuel : Nat} {event : Event} {e : Option InterpreterError}
    (h : i.send fuel event = some (i', e)) : Leads i i' ∧ (i.Rested → i'.Rested) := by
  rw [send] at h
  split at h
  · split at h
    all_goals obtain ⟨rfl, _⟩ := Prod.mk.inj (Option.some.inj h)
    · exact ⟨aside_leads rfl, id⟩
    · exact ⟨.refl i, id⟩
  · obtain ⟨rfl, _⟩ := Prod.mk.inj (Option.some.inj h)
    exact ⟨.refl i, id⟩
  · obtain ⟨⟨j, e'⟩, hd, h⟩ := Option.bind_eq_some_iff.1 h
    obtain ⟨rfl, _⟩ := Prod.mk.inj (Option.some.inj h)
    exact ⟨(Move.enqueue [event]).leads.trans (drain_leads hd), fun _ => drain_rested hd⟩

lemma not_running_of_enterInitial {e : StepError} (hs : i.status = .notStarted)
    (h : i.enterInitial = (i', some e)) : i'.status ≠ .running := by
  rw [enterInitial] at h
  split at h
  · obtain ⟨rfl, _⟩ := Prod.mk.inj h
    exact fun hr => absurd (hs.symm.trans hr) (by decide)
  · split at h
    · exact absurd h (by simp)
    · obtain ⟨rfl, _⟩ := Prod.mk.inj h
      exact fun hr => absurd hr (by simp [report, observe])

lemma startFresh_leads {fuel : Nat} {r : Except InterpreterError (Snapshot C)}
    (hs : i.status = .notStarted) (h : i.startFresh fuel = some (i', r)) :
    Leads i i' ∧ (i.Rested → i'.Rested) := by
  rcases startFresh_cases h with ⟨_, rfl, _⟩ | ⟨hw, hcases⟩
  · exact ⟨.refl i', id⟩
  · have henter := (Move.enter hs fun hn => by simpa [hn] using hw).leads
    rcases hcases with ⟨e, hj, _⟩ | ⟨j, e, hj, hd, _⟩
    · rw [hj] at henter
      exact ⟨henter, fun _ hr => absurd hr (not_running_of_enterInitial hs hj)⟩
    · rw [hj] at henter
      have hflush : Leads i ({ j with deferred := [] }.enqueue j.deferred) :=
        (henter.tail (.enqueue j.deferred)).trans (aside_leads rfl)
      exact ⟨hflush.trans (drain_leads hd), fun _ => drain_rested hd⟩

lemma start_leads {fuel : Nat} {r : Except InterpreterError (Snapshot C)}
    (hshown : i.status = .running → i.snapshot ≠ none) (h : i.start fuel = some (i', r)) :
    Leads i i' ∧ (i.Rested → i'.Rested) := by
  rw [start] at h
  split at h
  · rename_i hr
    split at h
    · obtain ⟨rfl, _⟩ := Prod.mk.inj (Option.some.inj h)
      exact ⟨.refl i, id⟩
    · rename_i hnone
      exact absurd hnone (hshown hr)
  · obtain ⟨rfl, _⟩ := Prod.mk.inj (Option.some.inj h)
    exact ⟨.refl i, id⟩
  · rename_i hs
    exact startFresh_leads hs h

lemma stop_rested (h : i.Rested) : i.stop.Rested := by
  rw [stop]
  split
  · exact h
  · exact fun hr => absurd hr (by simp)
  · exact fun _ => rfl

end Interpreter

end Statechart
