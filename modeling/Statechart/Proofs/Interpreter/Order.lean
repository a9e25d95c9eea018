import Mathlib.Tactic.Common
import Statechart.Proofs.Interpreter.Journeys
import Statechart.Proofs.Interpreter.Histories

/-! The order of events. Whatever is put on the queue of an interpreter is handed to the machine
once, in the order in which it was put there, until the interpreter stops. -/

namespace Statechart

namespace Interpreter

variable {C : Type} {m : Machine C} {i i' : Interpreter C} {past l : List (JournalEntry C)}
  {fuel : Nat}

def Timely (past : List (JournalEntry C)) : Prop :=
  ∀ before after, past = before ++ after → handledIn before <+: queuedIn before

lemma Timely.handled (h : Timely past) : handledIn past <+: queuedIn past :=
  h past [] (List.append_nil past).symm

lemma Timely.append (h : Timely past) (hl : handledIn past ++ handledIn l <+: queuedIn past) :
    Timely (past ++ l) := by
  intro before after hsplit
  obtain ⟨c, hpast, _⟩ | ⟨c, rfl, rfl⟩ := List.append_eq_append_iff.1 hsplit.symm
  · exact h before c hpast
  · rw [handledIn_append, queuedIn_append]
    have hfront : handledIn past ++ handledIn c <+: handledIn past ++ handledIn (c ++ after) := by
      rw [handledIn_append, ← List.append_assoc]
      exact List.prefix_append _ _
    exact (hfront.trans hl).trans (List.prefix_append _ _)

structure InOrder (i : Interpreter C) (past : List (JournalEntry C)) : Prop where
  timely : Timely past
  running : i.status = .running → queuedIn past = handledIn past ++ i.queue
  unstarted : i.status = .notStarted → queuedIn past = [] ∧ i.deferred = deferredIn past

lemma inOrder_nil (hr : i.status = .running → i.queue = [])
    (hs : i.status = .notStarted → i.deferred = []) : InOrder i [] := by
  refine ⟨fun before after h => ?_, fun h => by simp [hr h, queuedIn, handledIn],
    fun h => ⟨rfl, hs h⟩⟩
  obtain ⟨rfl, _⟩ := List.nil_eq_append_iff.1 h
  exact List.prefix_rfl

section

variable (h : InOrder i past)

include h

lemma InOrder.unhandled (hs : i.status = .notStarted) : handledIn past = [] := by
  have hprefix := h.timely.handled
  rw [(h.unstarted hs).1] at hprefix
  exact List.prefix_nil.1 hprefix

lemma InOrder.supply (hl : handledIn l = [])
    (hr : i'.status = .running → queuedIn past ++ queuedIn l = handledIn past ++ i'.queue)
    (hs : i'.status = .notStarted →
      queuedIn past ++ queuedIn l = [] ∧ i'.deferred = deferredIn past ++ deferredIn l) :
    InOrder i' (past ++ l) := by
  refine ⟨h.timely.append ?_, fun hr' => ?_, fun hs' => ?_⟩
  · rw [hl, List.append_nil]
    exact h.timely.handled
  · rw [queuedIn_append, handledIn_append, hl, List.append_nil]
    exact hr hr'
  · rw [queuedIn_append, deferredIn_append]
    exact hs hs'

lemma InOrder.quiet (hst : i'.status = i.status) (hq : i'.queue = i.queue)
    (hd : i'.deferred = i.deferred) : InOrder i' past := by
  refine ⟨h.timely, fun hr => ?_, fun hs => ?_⟩
  · rw [hq]
    exact h.running (hst ▸ hr)
  · rw [hd]
    exact h.unstarted (hst ▸ hs)

lemma InOrder.stop : InOrder i.stop past := by
  have hst : i.stop.status = .stopped := (stop_keeps i).2.2.2
  exact ⟨h.timely, fun hr => absurd (hst.symm.trans hr) (by decide),
    fun hs => absurd (hst.symm.trans hs) (by decide)⟩

lemma InOrder.took {event : Event} {rest : List Event} (hr : i.status = .running)
    (hq : i.queue = event :: rest) (error : Option StepError) (hst : i'.status = i.status)
    (hq' : i'.queue = rest) : InOrder i' (past ++ [.handled event error]) := by
  have hqueued : queuedIn past = handledIn past ++ [event] ++ rest := by
    rw [h.running hr, hq, List.append_assoc]
    rfl
  refine ⟨h.timely.append ⟨rest, hqueued.symm⟩, fun _ => ?_, fun hs => ?_⟩
  · rw [queuedIn_append, handledIn_append, hqueued, hq']
    exact List.append_nil _
  · exact absurd (hst.symm.trans hs) (by simp [hr])

lemma InOrder.handle (hi : i.InPhase) {event : Event} {rest : List Event}
    (hr : i.status = .running) (hq : i.queue = event :: rest) :
    InOrder ((i.withQueue rest).process event).1
      (past ++ (i.withQueue rest).handling event) := by
  obtain ⟨s, _, hs, _⟩ := hi.running hr
  rcases handling_cases (i := i.withQueue rest) hs event with
    ⟨e, trace, hj, hp⟩ | ⟨hj, hp⟩ | ⟨step, notes, _, _, _, hj, hp⟩
  · rw [hj, hp]
    exact h.took hr hq _ rfl rfl
  · rw [hj, hp]
    exact h.took hr hq _ rfl rfl
  · have htook : InOrder (i.withQueue rest) (past ++ [.handled event none]) :=
      h.took hr hq none rfl rfl
    obtain ⟨work, trace, ha⟩ := exists_adopt_eq (i := (i.withQueue rest).observe notes) step
      ((i.withQueue rest).sendsOf step) hr
    have hsent : queuedIn (.adopted step :: ((i.withQueue rest).sendsOf step).map .queued) =
        (i.withQueue rest).sendsOf step := queuedIn_map_queued _
    rw [hj, hp, ha, List.append_cons]
    refine htook.supply (handledIn_map_queued _) (fun hrun => ?_) fun hs => ?_
    · have hd : step.done = false := by simpa using hrun
      rw [hsent, htook.running hr, hd, List.append_assoc]
      rfl
    · cases hd : step.done <;> simp [hd] at hs

lemma InOrder.enter (hi : i.InPhase) (hs : i.status = .notStarted) :
    InOrder i.enterInitial.1 (past ++ i.entering) := by
  obtain ⟨_, _, hq⟩ := hi.unstarted hs
  obtain ⟨hnone, hdeferred⟩ := h.unstarted hs
  rcases entering_cases hs with ⟨e, metadata, trace, hj, he⟩ | ⟨step, notes, _, _, hj, he⟩
  · rw [hj, he, List.append_nil]
    exact h.quiet rfl rfl rfl
  · obtain ⟨work, trace, ha⟩ :=
      exists_adopt_eq (i := i.begun.observe notes) step (i.sendsOf step) rfl
    have hsent : queuedIn (.adopted step :: (i.sendsOf step).map .queued) = i.sendsOf step :=
      queuedIn_map_queued _
    rw [hj, he, ha]
    refine h.supply (handledIn_map_queued _) (fun hrun => ?_) fun hs' => ?_
    · have hd : step.done = false := by simpa using hrun
      have hbegun : (i.begun.observe notes).queue = [] := hq
      rw [hsent, hnone, h.unhandled hs, hd, hbegun]
      rfl
    · cases hd : step.done <;> simp [hd] at hs'

lemma InOrder.turn (hi : i.InPhase) (ht : Turn i l i') : InOrder i' (past ++ l) := by
  cases ht with
  | round hround =>
    cases hround with
    | handle hr hq => exact h.handle hi hr hq
    | accept hr event =>
      refine h.supply rfl (fun _ => ?_) fun hs => absurd (hr.symm.trans hs) (by decide)
      rw [h.running hr, List.append_assoc]
      rfl
    | defer hs event =>
      obtain ⟨hnone, hdeferred⟩ := h.unstarted hs
      refine h.supply rfl (fun hr => absurd (hs.symm.trans hr) (by decide)) fun _ => ?_
      rw [hnone, ← hdeferred]
      exact ⟨rfl, rfl⟩
    | rework hr work =>
      rw [List.append_nil]
      exact h.quiet rfl rfl rfl
  | enter hs => exact h.enter hi hs
  | flush hs =>
    refine h.supply (handledIn_map_queued _) (fun hr => ?_) fun hs' => absurd hs' hs
    rw [queuedIn_map_queued, h.running hr, List.append_assoc]
    rfl
  | stop =>
    rw [List.append_nil]
    exact h.stop

lemma InOrder.turns (hi : i.InPhase) (ht : Turns i l i') : InOrder i' (past ++ l) := by
  induction ht with
  | refl => rwa [List.append_nil]
  | tail ht hturn ih =>
    rw [← List.append_assoc]
    exact ih.turn (Turns.inPhase hi ht) hturn

end

lemma Turn.settings (ht : Turn i l i') : i'.settings = i.settings := by
  cases ht with
  | round hround =>
    cases hround with
    | @handle event rest hr _ => exact (process_keeps (i := i.withQueue rest) hr event).1
    | _ => rfl
  | enter hs =>
    rcases entering_cases hs with ⟨e, metadata, trace, _, he⟩ | ⟨step, notes, _, _, _, he⟩
    · rw [he]
    · obtain ⟨work, trace, ha⟩ :=
        exists_adopt_eq (i := i.begun.observe notes) step (i.sendsOf step) rfl
      rw [he, ha]
      rfl
  | stop =>
    rw [Interpreter.stop]
    cases hs : i.status with
    | running =>
      obtain ⟨trace, hl⟩ := leave_eq ({ i with status := .stopped } : Interpreter C).shutdown
      simp only [hl]
      rfl
    | _ => rfl
  | flush _ => rfl

def Announced (i : Interpreter C) (past : List (JournalEntry C)) : Prop :=
  ∀ before step after, past = before ++ .adopted step :: after →
    (i.sendsOf step).map .queued <+: after

lemma Announced.append (h : i.Announced past) (hl : i.Announced l) : i.Announced (past ++ l) := by
  intro before step after hsplit
  obtain ⟨rest, hpast, rfl⟩ | ⟨front, _, hl'⟩ := split_append hsplit
  · exact (h before step rest hpast).trans (List.prefix_append _ _)
  · exact hl front step after hl'

lemma announced_of_adoptedIn_eq_nil (hl : adoptedIn l = []) : i.Announced l := by
  rintro before step after rfl
  have hmem : step ∈ adoptedIn (before ++ .adopted step :: after) := by simp [adoptedIn]
  rw [hl] at hmem
  exact absurd hmem List.not_mem_nil

lemma announced_committing (step : Step C) : i.Announced (i.committing step) := by
  rw [committing]
  split
  · intro before step' after hsplit
    cases before with
    | nil =>
      obtain ⟨hstep, rfl⟩ := List.cons.inj hsplit
      obtain rfl := JournalEntry.adopted.inj hstep
      exact List.prefix_rfl
    | cons o before =>
      exact announced_of_adoptedIn_eq_nil (adoptedIn_map_queued (i.sendsOf step)) before step' after
        (List.cons.inj hsplit).2
  · exact announced_of_adoptedIn_eq_nil rfl

lemma Turn.announced (ht : Turn i l i') : i.Announced l := by
  cases ht with
  | round hround =>
    cases hround with
    | @handle event rest _ _ =>
      rw [handling]
      split
      · exact announced_of_adoptedIn_eq_nil rfl
      · rw [← List.singleton_append]
        refine (announced_of_adoptedIn_eq_nil rfl).append ?_
        split
        · exact announced_of_adoptedIn_eq_nil rfl
        · exact announced_committing (i := i.withQueue rest) _
    | _ => exact announced_of_adoptedIn_eq_nil rfl
  | enter _ =>
    rw [entering]
    split
    · exact announced_of_adoptedIn_eq_nil rfl
    · exact announced_committing (i := i.begun) _
  | flush _ => exact announced_of_adoptedIn_eq_nil (adoptedIn_map_queued _)
  | stop => exact announced_of_adoptedIn_eq_nil rfl

lemma Announced.of_settings (h : i.Announced past) (hset : i'.settings = i.settings) :
    i'.Announced past := by
  intro before step after hsplit
  rw [sendsOf, hset]
  exact h before step after hsplit

lemma Announced.turns (h : i.Announced past) (ht : Turns i l i') : i'.Announced (past ++ l) := by
  induction ht with
  | refl => rwa [List.append_nil]
  | tail _ hturn ih =>
    rw [← List.append_assoc]
    exact (ih.append hturn.announced).of_settings hturn.settings

lemma History.announced (h : History m i past) : i.Announced past := by
  induction h with
  | call h hr ih => exact ih.turns (Request.run_turns h.inPhase hr).1
  | meanwhile _ hi ih => exact ih.of_settings (by rw [hi.eq])
  | _ => exact announced_of_adoptedIn_eq_nil rfl

lemma resume_started (c : Checkpoint C) (s : MachineState C) :
    (i.resume c s).status ≠ .notStarted := by
  have hb := busies_rework (i := i) c s
  rw [resume_eq]
  split
  · rw [(stop_keeps (i.rework c s)).2.2.2]
    decide
  · rw [hb]
    exact (by decide : Status.running ≠ .notStarted)

lemma History.inOrder (h : History m i past) : InOrder i past := by
  induction h with
  | create settings hasRuntime date => exact inOrder_nil (fun _ => rfl) fun _ => rfl
  | restore h =>
    obtain ⟨_, _, s, _, rfl⟩ := restore_eq_ok h
    exact inOrder_nil (rested_resume _ s rfl) fun hs => absurd hs (resume_started _ s)
  | call h hr ih => exact ih.turns h.inPhase (Request.run_turns h.inPhase hr).1
  | meanwhile _ hi ih =>
    rw [hi.eq]
    exact ih.quiet rfl rfl rfl

lemma History.rested (h : History m i past) : i.Rested := by
  induction h with
  | create settings hasRuntime date => exact fun _ => rfl
  | restore h =>
    obtain ⟨_, _, s, _, rfl⟩ := restore_eq_ok h
    exact rested_resume _ s rfl
  | call h hr ih => exact Request.run_rested h.inPhase hr ih
  | meanwhile _ hi ih =>
    rw [hi.eq]
    exact ih

lemma exists_starting_eq (hs : i.status = .notStarted)
    (hrefusal : Request.start.refusal i = none) :
    ∃ first later,
      i.machine.initialStepFrom i.machine.context i.settings.maxMicrosteps = .ok first ∧
      i.starting fuel =
        .adopted first :: ((i.sendsOf first ++ i.deferred).map .queued ++ later) := by
  have hw : (i.machine.needsRuntime && !i.work.hasRuntime) = false := by
    cases hw : i.machine.needsRuntime && !i.work.hasRuntime with
    | false => rfl
    | true => simp [Request.refusal, hs, hw] at hrefusal
  have henter : i.enterInitial.2 = none := by
    simpa [Request.refusal, hs, hw] using hrefusal
  rcases entering_cases hs with ⟨e, _, _, _, he⟩ | ⟨first, notes, hfirst, _, hj, he⟩
  · exact absurd (he ▸ henter) (by simp)
  · obtain ⟨work, trace, ha⟩ :=
      exists_adopt_eq (i := i.begun.observe notes) first (i.sendsOf first) rfl
    have hdeferred : i.enterInitial.1.deferred = i.deferred := by
      rw [he, ha]
      rfl
    have hstart : i.starting fuel = i.startingFresh fuel := by simp only [starting, hs]
    rw [hstart, startingFresh_of_entered hw (Prod.ext rfl henter), hdeferred, hj]
    exact ⟨first, _, hfirst, by rw [List.map_append, List.append_assoc]; rfl⟩

/-- Events are handed to the machine once, in the order in which they are put on the queue, all of
them while the interpreter runs. -/
theorem handled_once_in_order (h : History m i past) :
    (i.status = .running → handledIn past = queuedIn past ∧ i.queue = []) ∧
    (∀ before after, past = before ++ after → handledIn before <+: queuedIn before) ∧
    (∀ before step after, past = before ++ .adopted step :: after →
      (i.sendsOf step).map .queued <+: after) ∧
    (i.status = .notStarted → Request.start.refusal i = none → ∀ fuel, ∃ first later,
      i.machine.initialStepFrom i.machine.context i.settings.maxMicrosteps = .ok first ∧
      i.starting fuel =
        .adopted first :: ((i.sendsOf first ++ deferredIn past).map .queued ++ later)) ∧
    ∀ r fuel i' e, Request.run fuel i r = some (i', e) →
      Turns i (r.journal fuel i) i' ∧
      e = (r.refusal i <|> (failureIn (r.journal fuel i)).map .step) ∧
      (r.refusal i ≠ none → r.journal fuel i = []) := by
  have horder := h.inOrder
  refine ⟨fun hr => ?_, horder.timely, h.announced, fun hs hrefusal fuel => ?_,
    fun _ _ _ _ hr => Request.run_turns h.inPhase hr⟩
  · have hqueue := h.rested hr
    have hqueued := horder.running hr
    rw [hqueue, List.append_nil] at hqueued
    exact ⟨hqueued.symm, hqueue⟩
  · rw [← (horder.unstarted hs).2]
    exact exists_starting_eq hs hrefusal

def relaying : Definition := .ofRoot
  { initial := some "open"
    states := [
      ("open", {
        entry := ["greet"]
        on := .ofList [
          ("HELLO", [{ actions := ["reply"] }]),
          ("JAM", [{ actions := ["reply", "jam"] }])] })] }

def relayingBehaviors : Behaviors Unit where
  actions := .ofList [
    ("greet", .send (.ofType "HELLO")),
    ("reply", .send (.ofType "REPLY")),
    ("jam", .effect fun _ _ => .error ⟨"jammed"⟩)]

def relayingMachine : Machine Unit :=
  Machine.assemble relaying () (Machine.link relaying relayingBehaviors).value

theorem relaying_in_order : ∃ i past, History relayingMachine i past ∧ i.status = .running ∧
    (queuedIn past).map Event.type = ["HELLO", "JAM", "HELLO", "REPLY", "REPLY"] ∧
    handledIn past = queuedIn past ∧ i.queue = [] := by
  have hjam : Request.run 0 (create relayingMachine {} false .epoch) (.send (.ofType "JAM")) =
      some ({ create relayingMachine {} false .epoch with deferred := [.ofType "JAM"] }, none) :=
    rfl
  have hhello : Request.run 0
      { create relayingMachine {} false .epoch with deferred := [.ofType "JAM"] }
      (.send (.ofType "HELLO")) = some (_, none) := rfl
  have hdeferred : History relayingMachine _ _ :=
    ((History.create {} false .epoch).call hjam).call hhello
  have hstart : (Request.start.run 5 { create relayingMachine {} false .epoch with
        deferred := [.ofType "JAM", .ofType "HELLO"] }).map (fun r => (r.1.status, r.2)) =
      some (.running, some (.step (.action "machine.open" "jam" ⟨"jammed"⟩))) := by
    decide +kernel
  obtain ⟨⟨i, e⟩, hrun, hr⟩ := Option.map_eq_some_iff.1 hstart
  have h := hdeferred.call hrun
  have hstatus : i.status = .running := congrArg Prod.fst hr
  obtain ⟨hall, hempty⟩ := (handled_once_in_order h).1 hstatus
  exact ⟨i, _, h, hstatus, by decide +kernel, hall, hempty⟩

end Interpreter

end Statechart
