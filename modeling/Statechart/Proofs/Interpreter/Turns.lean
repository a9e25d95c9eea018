import Mathlib.Tactic.Common
import Statechart.Proofs.Interpreter.Journal

/-! Turns of an interpreter: the events that are taken from the queue one by one, and what is done
in between. -/

namespace Statechart

namespace Interpreter

variable {C : Type} {i j i' : Interpreter C} {l l' : List (JournalEntry C)} {fuel : Nat}

/-- A turn of a call that neither starts nor stops an interpreter. -/
inductive Round (i : Interpreter C) : List (JournalEntry C) → Interpreter C → Prop
  | handle {event : Event} {rest : List Event} (hr : i.status = .running)
      (hq : i.queue = event :: rest) :
      Round i ((i.withQueue rest).handling event) ((i.withQueue rest).process event).1
  | accept (hr : i.status = .running) (event : Event) :
      Round i [.queued event] (i.enqueue [event])
  | defer (hs : i.status = .notStarted) (event : Event) :
      Round i [.deferred event] { i with deferred := i.deferred ++ [event] }
  | rework (hr : i.status = .running) (work : Work) : Round i [] { i with work }

inductive Turn (i : Interpreter C) : List (JournalEntry C) → Interpreter C → Prop
  | round {l : List (JournalEntry C)} {i' : Interpreter C} (h : Round i l i') : Turn i l i'
  | enter (hs : i.status = .notStarted) : Turn i i.entering i.enterInitial.1
  | flush (hs : i.status ≠ .notStarted) :
      Turn i (i.deferred.map .queued) ({ i with deferred := [] }.enqueue i.deferred)
  | stop : Turn i [] i.stop

inductive Chain (R : Interpreter C → List (JournalEntry C) → Interpreter C → Prop)
    (i : Interpreter C) : List (JournalEntry C) → Interpreter C → Prop
  | refl : Chain R i [] i
  | tail {l l' : List (JournalEntry C)} {j k : Interpreter C} (h : Chain R i l j)
      (h' : R j l' k) : Chain R i (l ++ l') k

abbrev Turns (i : Interpreter C) : List (JournalEntry C) → Interpreter C → Prop := Chain Turn i

abbrev Rounds (i : Interpreter C) : List (JournalEntry C) → Interpreter C → Prop := Chain Round i

section

variable {R : Interpreter C → List (JournalEntry C) → Interpreter C → Prop}

lemma Chain.single (h : R i l i') : Chain R i l i' := Chain.refl.tail h

lemma Chain.trans (h : Chain R i l j) (h' : Chain R j l' i') : Chain R i (l ++ l') i' := by
  induction h' with
  | refl => rwa [List.append_nil]
  | tail _ hturn ih =>
    rw [← List.append_assoc]
    exact ih.tail hturn

lemma Chain.head (h : R i l j) (h' : Chain R j l' i') : Chain R i (l ++ l') i' :=
  (Chain.single h).trans h'

lemma Chain.keeps {P : Interpreter C → Prop} (h : Chain R i l i')
    (hstep : ∀ {j l k}, P j → R j l k → P k) (hi : P i) : P i' := by
  induction h with
  | refl => exact hi
  | tail _ hlast ih => exact hstep ih hlast

end

lemma Rounds.turns (h : Rounds i l i') : Turns i l i' := by
  induction h with
  | refl => exact .refl
  | tail _ hround ih => exact ih.tail (.round hround)

structure InPhase (i : Interpreter C) : Prop where
  unstarted : i.status = .notStarted → i.state = none ∧ i.snapshot = none ∧ i.queue = []
  running : i.status = .running → ∃ s x, i.state = some s ∧ i.snapshot = some x ∧ x.done = false

lemma inPhase_of_stopped (h : i.status = .stopped) : i.InPhase :=
  ⟨fun hs => absurd (h.symm.trans hs) (by decide), fun hr => absurd (h.symm.trans hr) (by decide)⟩

lemma InPhase.of_eq (h : i.InPhase) (hst : i'.status = i.status) (hs : i'.state = i.state)
    (hsn : i'.snapshot = i.snapshot) (hq : i'.status = .notStarted → i'.queue = i.queue) :
    i'.InPhase := by
  refine ⟨fun hn => ?_, fun hr => ?_⟩
  · rw [hs, hsn, hq hn]
    exact h.unstarted (hst ▸ hn)
  · rw [hs, hsn]
    exact h.running (hst ▸ hr)

lemma inPhase_adopt {step : Step C} (sends : List Event) (hr : i.status = .running)
    (hd : step.done = i.machine.isDone step.state.configuration) :
    (i.adopt step sends).InPhase := by
  obtain ⟨work, trace, ha⟩ := exists_adopt_eq step sends hr
  rw [ha]
  cases hdone : step.done with
  | true => exact inPhase_of_stopped rfl
  | false =>
    refine ⟨fun hs => absurd hs (by simp), fun _ => ⟨step.state, _, rfl, rfl, ?_⟩⟩
    exact hd.symm.trans hdone

lemma InPhase.process (h : i.InPhase) (hr : i.status = .running) (event : Event) :
    (i.process event).1.InPhase := by
  obtain ⟨s, x, hs, _⟩ := h.running hr
  rcases handling_cases hs event with
    ⟨e, trace, _, hp⟩ | ⟨_, hp⟩ | ⟨step, notes, hstep, _, _, _, hp⟩
  · rw [hp]
    exact h.of_eq rfl rfl rfl fun _ => rfl
  · rw [hp]
    exact h.of_eq rfl rfl rfl fun _ => rfl
  · rw [hp]
    exact inPhase_adopt (i := i.observe notes) _ hr (Machine.done_of_stepWithin hstep).2

lemma InPhase.enterInitial (h : i.InPhase) (hs : i.status = .notStarted) :
    i.enterInitial.1.InPhase := by
  rcases entering_cases hs with ⟨e, metadata, trace, _, he⟩ | ⟨step, notes, hstep, _, _, he⟩
  · rw [he]
    exact h.of_eq rfl rfl rfl fun _ => rfl
  · rw [he]
    exact inPhase_adopt (i := i.begun.observe notes) _ rfl (Machine.done_of_initialStepFrom hstep).2

lemma Turn.inPhase (h : i.InPhase) (ht : Turn i l i') : i'.InPhase := by
  cases ht with
  | round hround =>
    cases hround with
    | @handle event rest hr hq =>
      have hrest : (i.withQueue rest).InPhase :=
        h.of_eq rfl rfl rfl fun hs => absurd (hr.symm.trans hs) (by decide)
      exact hrest.process hr event
    | accept hr event =>
      exact h.of_eq rfl rfl rfl fun hs => absurd (hr.symm.trans hs) (by decide)
    | defer hs event => exact h.of_eq rfl rfl rfl fun _ => rfl
    | rework hr work => exact h.of_eq rfl rfl rfl fun _ => rfl
  | enter hs => exact h.enterInitial hs
  | flush hs => exact h.of_eq rfl rfl rfl fun hn => absurd hn hs
  | stop => exact inPhase_of_stopped (stop_keeps i).2.2.2

lemma Turns.inPhase (h : i.InPhase) (ht : Turns i l i') : i'.InPhase :=
  ht.keeps (fun hj hturn => hturn.inPhase hj) h

lemma process_keeps (hr : i.status = .running) (event : Event) :
    (i.process event).1.settings = i.settings ∧ (i.process event).1.status ≠ .notStarted ∧
      (i.snapshot ≠ none → (i.process event).1.snapshot ≠ none) := by
  have hstarted : i.status ≠ .notStarted := by simp [hr]
  cases hs : i.state with
  | none =>
    rw [process, hs]
    exact ⟨rfl, hstarted, id⟩
  | some s =>
    rcases handling_cases hs event with ⟨e, trace, _, hp⟩ | ⟨_, hp⟩ | ⟨step, notes, _, _, _, _, hp⟩
    · rw [hp]
      exact ⟨rfl, hstarted, id⟩
    · rw [hp]
      exact ⟨rfl, hstarted, id⟩
    · obtain ⟨work, trace, ha⟩ :=
        exists_adopt_eq (i := i.observe notes) step (i.sendsOf step) hr
      rw [hp, ha]
      refine ⟨rfl, ?_, fun _ => Option.some_ne_none _⟩
      cases step.done <;> simp

lemma Turn.snapshot (h : i.snapshot ≠ none) (hi : i.InPhase) (ht : Turn i l i') :
    i'.snapshot ≠ none := by
  cases ht with
  | round hround =>
    cases hround with
    | @handle event rest hr hq => exact (process_keeps (i := i.withQueue rest) hr event).2.2 h
    | _ => exact h
  | enter hs => exact absurd (hi.unstarted hs).2.1 h
  | stop => rwa [(stop_keeps i).2.2.1]
  | flush _ => exact h

lemma Turns.snapshot (h : i.snapshot ≠ none) (hi : i.InPhase) (ht : Turns i l i') :
    i'.snapshot ≠ none := by
  have hboth := ht.keeps (P := fun j => j.InPhase ∧ j.snapshot ≠ none)
    (fun hj hturn => ⟨hturn.inPhase hj.1, hturn.snapshot hj.2 hj.1⟩) ⟨hi, h⟩
  exact hboth.2

lemma draining_of_not_running (hr : i.status ≠ .running) : i.draining fuel = [] := by
  cases fuel with
  | zero => rfl
  | succ fuel => rw [draining, if_neg hr]

lemma draining_of_nil (hq : i.queue = []) : i.draining fuel = [] := by
  cases fuel with
  | zero => rfl
  | succ fuel =>
    rw [draining, hq]
    split <;> rfl

lemma draining_succ_of_cons {event : Event} {rest : List Event} (hr : i.status = .running)
    (hq : i.queue = event :: rest) :
    i.draining (fuel + 1) = (i.withQueue rest).handling event ++
      draining fuel ((i.withQueue rest).process event).1 := by
  rw [draining, if_pos hr]
  simp only [hq]

lemma drain_rounds {e : Option StepError} (h : i.drain fuel = some (i', e)) :
    Rounds i (i.draining fuel) i' ∧ e = failureIn (i.draining fuel) := by
  induction fuel generalizing i e with
  | zero =>
    rcases drain_cases h with ⟨rfl, rfl⟩ | ⟨_, _, _, _, hf, _⟩
    · exact ⟨.refl, rfl⟩
    · exact absurd hf (Nat.succ_ne_zero _).symm
  | succ fuel ih =>
    by_cases hr : i.status = .running
    · cases hq : i.queue with
      | nil =>
        rw [drain_of_nil hq] at h
        obtain ⟨rfl, rfl⟩ := Prod.mk.inj (Option.some.inj h)
        rw [draining_of_nil hq]
        exact ⟨.refl, rfl⟩
      | cons event rest =>
        rw [drain_succ_of_cons hr hq, Option.map_eq_some_iff] at h
        obtain ⟨⟨k, e'⟩, hd, hk⟩ := h
        obtain ⟨rfl, rfl⟩ := Prod.mk.inj hk
        obtain ⟨hrounds, rfl⟩ := ih hd
        rw [draining_succ_of_cons hr hq, failureIn_append, failureIn_handling]
        exact ⟨.head (.handle hr hq) hrounds, rfl⟩
    · rw [drain_of_not_running hr] at h
      obtain ⟨rfl, rfl⟩ := Prod.mk.inj (Option.some.inj h)
      rw [draining_of_not_running hr]
      exact ⟨.refl, rfl⟩

lemma accept_drain_rounds {event : Event} {e : Option StepError} (hr : i.status = .running)
    (h : (i.enqueue [event]).drain fuel = some (i', e)) :
    Rounds i (.queued event :: (i.enqueue [event]).draining fuel) i' ∧
      e = failureIn (.queued event :: (i.enqueue [event]).draining fuel) := by
  obtain ⟨hrounds, rfl⟩ := drain_rounds h
  exact ⟨.head (.accept hr event) hrounds, rfl⟩

lemma deliver_rounds {message : Message} {work : Work} {e : Option StepError}
    (hr : i.status = .running) (h : deliver fuel { i with work } message = some (i', e)) :
    Rounds i (delivering fuel { i with work } message) i' ∧
      e = failureIn (delivering fuel { i with work } message) := by
  obtain ⟨hrounds, he⟩ := accept_drain_rounds (i := { i with work }) hr h
  exact ⟨.head (.rework hr work) hrounds, he⟩

lemma deliverAll_rounds {left : Nat} {d : Deliveries} (h : i.deliverAll fuel left = some (i', d)) :
    Rounds i (deliveringAll fuel left i) i' ∧ d.error = failureIn (deliveringAll fuel left i) := by
  induction left generalizing i d with
  | zero =>
    rw [deliverAll.eq_def] at h
    rw [deliveringAll]
    by_cases hr : i.status = .running
    · simp only [if_pos hr] at h
      rcases hrec : i.work.receive with ⟨_ | message, work⟩
      · rw [hrec] at h
        obtain ⟨rfl, rfl⟩ := Prod.mk.inj (Option.some.inj h)
        exact ⟨Chain.single (Round.rework hr work), rfl⟩
      · rw [hrec] at h
        exact absurd h (by simp)
    · simp only [if_neg hr] at h
      obtain ⟨rfl, rfl⟩ := Prod.mk.inj (Option.some.inj h)
      exact ⟨.refl, rfl⟩
  | succ left ih =>
    rw [deliverAll.eq_def] at h
    rw [deliveringAll]
    by_cases hr : i.status = .running
    · simp only [if_pos hr] at h ⊢
      rcases hrec : i.work.receive with ⟨_ | message, work⟩
      · rw [hrec] at h
        obtain ⟨rfl, rfl⟩ := Prod.mk.inj (Option.some.inj h)
        exact ⟨Chain.single (Round.rework hr work), rfl⟩
      · rw [hrec] at h
        obtain ⟨⟨k, e⟩, hk, h⟩ := Option.bind_eq_some_iff.1 h
        obtain ⟨⟨k', later⟩, hk', h⟩ := Option.bind_eq_some_iff.1 h
        obtain ⟨rfl, rfl⟩ := Prod.mk.inj (Option.some.inj h)
        obtain ⟨hrounds, rfl⟩ := deliver_rounds hr hk
        obtain ⟨hrounds', he⟩ := ih hk'
        simp only [hk]
        refine ⟨hrounds.trans hrounds', ?_⟩
        rw [failureIn_append, ← he]
    · simp only [if_neg hr] at h ⊢
      obtain ⟨rfl, rfl⟩ := Prod.mk.inj (Option.some.inj h)
      exact ⟨.refl, rfl⟩

lemma runNext_rounds {deadline : Nat} {next : Next}
    (h : i.runNext fuel deadline = some (i', next)) :
    Rounds i (i.runningNext fuel deadline) i' ∧
      next.error? = (failureIn (i.runningNext fuel deadline)).map .step := by
  rw [runNext] at h
  rw [runningNext]
  by_cases hr : i.status = .running
  · rw [if_pos hr] at h ⊢
    rcases hw : i.work.await deadline with ⟨message | _ | _, work⟩
    · rw [hw] at h
      obtain ⟨⟨k, e⟩, hk, h⟩ := Option.bind_eq_some_iff.1 h
      obtain ⟨rfl, rfl⟩ := Prod.mk.inj (Option.some.inj h)
      obtain ⟨hrounds, rfl⟩ := deliver_rounds hr hk
      exact ⟨hrounds, rfl⟩
    all_goals
      rw [hw] at h
      obtain ⟨rfl, rfl⟩ := Prod.mk.inj (Option.some.inj h)
      exact ⟨Chain.single (Round.rework hr work), rfl⟩
  · rw [if_neg hr] at h ⊢
    obtain ⟨rfl, rfl⟩ := Prod.mk.inj (Option.some.inj h)
    exact ⟨.refl, rfl⟩

lemma runMessages_rounds {deadline left : Nat} {next : Next}
    (h : i.runMessages fuel deadline left = some (i', next)) :
    Rounds i (runningMessages fuel deadline left i) i' ∧
      next.error? = (failureIn (runningMessages fuel deadline left i)).map .step := by
  induction left generalizing i with
  | zero =>
    rw [runMessages] at h
    rw [runningMessages]
    obtain ⟨⟨k, first⟩, hk, h⟩ := Option.bind_eq_some_iff.1 h
    have hfirst := runNext_rounds hk
    rcases first with (_ | e) | _ | _
    · exact absurd h (by simp)
    all_goals
      obtain ⟨rfl, rfl⟩ := Prod.mk.inj (Option.some.inj h)
      exact hfirst
  | succ left ih =>
    rw [runMessages] at h
    rw [runningMessages]
    obtain ⟨⟨k, first⟩, hk, h⟩ := Option.bind_eq_some_iff.1 h
    have hfirst := runNext_rounds hk
    rcases first with (_ | e) | _ | _
    · obtain ⟨hrounds, he⟩ := ih h
      simp only [hk]
      refine ⟨hfirst.1.trans hrounds, ?_⟩
      have hnone : failureIn (i.runningNext fuel deadline) = none :=
        Option.map_eq_none_iff.1 hfirst.2.symm
      rw [failureIn_append, hnone, he]
      rfl
    all_goals
      obtain ⟨rfl, rfl⟩ := Prod.mk.inj (Option.some.inj h)
      simp only [hk, List.append_nil]
      exact hfirst

lemma snapshot_of_entered (hs : i.status = .notStarted) (h : i.enterInitial = (j, none)) :
    j.snapshot ≠ none ∧ j.status ≠ .notStarted := by
  rcases entering_cases hs with ⟨e, metadata, trace, _, he⟩ | ⟨step, notes, _, _, _, he⟩
  · exact absurd (congrArg Prod.snd (he.symm.trans h)) (by simp)
  · obtain rfl : (i.begun.observe notes).adopt step (i.sendsOf step) = j :=
      congrArg Prod.fst (he.symm.trans h)
    obtain ⟨work, trace, ha⟩ :=
      exists_adopt_eq (i := i.begun.observe notes) step (i.sendsOf step) rfl
    rw [ha]
    refine ⟨Option.some_ne_none _, ?_⟩
    cases step.done <;> simp

lemma entering_of_failed {e : StepError} (hs : i.status = .notStarted)
    (h : i.enterInitial = (j, some e)) : i.entering = [] := by
  rcases entering_cases hs with ⟨_, _, _, hj, _⟩ | ⟨step, notes, _, _, _, he⟩
  · exact hj
  · exact absurd (congrArg Prod.snd (he.symm.trans h)) (by simp)

lemma failureIn_entering (hs : i.status = .notStarted) : failureIn i.entering = none := by
  rcases entering_cases hs with ⟨_, _, _, hj, _⟩ | ⟨step, _, _, _, hj, _⟩
  · rw [hj]
    rfl
  · rw [hj]
    exact failureIn_map_queued _

lemma startingFresh_of_entered (hw : (i.machine.needsRuntime && !i.work.hasRuntime) = false)
    (h : i.enterInitial = (j, none)) :
    i.startingFresh fuel = i.entering ++ (j.deferred.map .queued ++
      draining fuel ({ j with deferred := [] }.enqueue j.deferred)) := by
  rw [startingFresh, hw, h]
  rfl

lemma startFresh_turns {r : Except InterpreterError (Snapshot C)} (hi : i.InPhase)
    (hs : i.status = .notStarted) (h : i.startFresh fuel = some (i', r)) :
    Turns i (i.startingFresh fuel) i' ∧
      Request.errorOf r = (Request.start.refusal i <|>
        (failureIn (i.startingFresh fuel)).map .step) ∧
      (Request.start.refusal i ≠ none → i.startingFresh fuel = []) := by
  rcases startFresh_cases h with ⟨hw, rfl, rfl⟩ | ⟨hw, hcases⟩
  · have hj : i'.startingFresh fuel = [] := by rw [startingFresh, hw]; rfl
    have hrefusal : Request.start.refusal i' = some (.noRuntime i'.machine.id) := by
      simp only [Request.refusal, hs, hw, if_true]
    rw [hj, hrefusal]
    exact ⟨.refl, rfl, fun _ => rfl⟩
  · have hrefusal : Request.start.refusal i = i.enterInitial.2.map .step := by
      simp only [Request.refusal, hs, hw, Bool.false_eq_true, if_false]
    have henter := Turn.enter hs
    rcases hcases with ⟨e, he, rfl⟩ | ⟨j, e, he, hd, rfl⟩
    · have hj : i.startingFresh fuel = [] := by
        rw [startingFresh, hw, he, entering_of_failed hs he]
        rfl
      rw [he, entering_of_failed hs he] at henter
      rw [hj, hrefusal, he]
      exact ⟨Chain.single henter, rfl, fun _ => rfl⟩
    · obtain ⟨hsn, hst⟩ := snapshot_of_entered hs he
      rw [he] at henter
      have hj : j.InPhase := henter.inPhase hi
      have hflush := Turn.flush hst
      obtain ⟨hrounds, rfl⟩ := drain_rounds hd
      have hafter := Chain.head hflush hrounds.turns
      obtain ⟨x, hx⟩ := Option.ne_none_iff_exists'.1 (Turns.snapshot hsn hj hafter)
      rw [startingFresh_of_entered hw he, hrefusal, he, snapshotOrStopped, hx]
      simp only [failureIn_append, failureIn_entering hs, failureIn_map_queued]
      refine ⟨Chain.head henter hafter, ?_, fun hne => absurd rfl hne⟩
      cases failureIn (draining fuel ({ j with deferred := [] }.enqueue j.deferred)) <;> rfl

lemma start_turns {r : Except InterpreterError (Snapshot C)} (hi : i.InPhase)
    (h : i.start fuel = some (i', r)) :
    Turns i (i.starting fuel) i' ∧
      Request.errorOf r = (Request.start.refusal i <|>
        (failureIn (i.starting fuel)).map .step) ∧
      (Request.start.refusal i ≠ none → i.starting fuel = []) := by
  rw [start] at h
  rw [starting]
  cases hs : i.status with
  | running =>
    obtain ⟨_, x, _, hx, _⟩ := hi.running hs
    simp only [hs, hx] at h ⊢
    obtain ⟨rfl, rfl⟩ := Prod.mk.inj (Option.some.inj h)
    exact ⟨.refl, by simp only [Request.refusal, hs]; rfl, fun _ => trivial⟩
  | stopped =>
    simp only [hs] at h ⊢
    obtain ⟨rfl, rfl⟩ := Prod.mk.inj (Option.some.inj h)
    exact ⟨.refl, by simp only [Request.refusal, hs]; rfl, fun _ => trivial⟩
  | notStarted =>
    simp only [hs] at h ⊢
    exact startFresh_turns hi hs h

lemma send_rounds {event : Event} {e : Option InterpreterError}
    (h : i.send fuel event = some (i', e)) :
    Rounds i (i.sending fuel event) i' ∧
      e = ((Request.send event).refusal i <|> (failureIn (i.sending fuel event)).map .step) ∧
      ((Request.send event).refusal i ≠ none → i.sending fuel event = []) := by
  rw [send] at h
  rw [sending]
  cases hs : i.status with
  | notStarted =>
    cases hd : i.settings.deferEvents with
    | true =>
      simp only [hs, hd, if_true] at h ⊢
      obtain ⟨rfl, rfl⟩ := Prod.mk.inj (Option.some.inj h)
      have hrefusal : (Request.send event).refusal i = none := by
        simp only [Request.refusal, hs, hd]
      have hdefer := Chain.single (Round.defer hs event)
      rw [hs] at hdefer
      exact ⟨hdefer, by rw [hrefusal]; rfl, fun hne => absurd hrefusal hne⟩
    | false =>
      simp only [hs, hd, Bool.false_eq_true, if_false] at h ⊢
      obtain ⟨rfl, rfl⟩ := Prod.mk.inj (Option.some.inj h)
      exact ⟨.refl, by simp only [Request.refusal, hs, hd]; rfl, fun _ => trivial⟩
  | stopped =>
    simp only [hs] at h ⊢
    obtain ⟨rfl, rfl⟩ := Prod.mk.inj (Option.some.inj h)
    exact ⟨.refl, by simp only [Request.refusal, hs]; rfl, fun _ => trivial⟩
  | running =>
    simp only [hs] at h ⊢
    obtain ⟨⟨k, e'⟩, hd, h⟩ := Option.bind_eq_some_iff.1 h
    obtain ⟨rfl, rfl⟩ := Prod.mk.inj (Option.some.inj h)
    obtain ⟨hrounds, rfl⟩ := accept_drain_rounds hs hd
    have hrefusal : (Request.send event).refusal i = none := by simp only [Request.refusal, hs]
    exact ⟨hrounds, by rw [hrefusal]; rfl, fun hne => absurd hrefusal hne⟩

end Interpreter

namespace Request

open Interpreter

variable {C : Type} {i i' : Interpreter C} {r : Request} {e : Option InterpreterError} {fuel : Nat}

lemma run_rounds (hstart : r ≠ .start) (hstop : r ≠ .stop) (h : r.run fuel i = some (i', e)) :
    Rounds i (r.journal fuel i) i' ∧
      e = (r.refusal i <|> (failureIn (r.journal fuel i)).map .step) ∧
      (r.refusal i ≠ none → r.journal fuel i = []) := by
  cases r with
  | start => exact absurd rfl hstart
  | send event => exact send_rounds h
  | processMailbox =>
    obtain ⟨⟨k, result⟩, hk, h⟩ := Option.map_eq_some_iff.1 h
    obtain ⟨rfl, rfl⟩ := Prod.mk.inj h
    obtain ⟨⟨k', d⟩, hd, hk⟩ := Option.bind_eq_some_iff.1 hk
    obtain ⟨hrounds, he⟩ := deliverAll_rounds hd
    rcases d with ⟨count, _ | error⟩
    all_goals
      obtain ⟨rfl, rfl⟩ := Prod.mk.inj (Option.some.inj hk)
      refine ⟨hrounds, ?_, fun hne => absurd rfl hne⟩
      rw [journal, ← he]
      rfl
  | runNext deadline =>
    obtain ⟨⟨k, next⟩, hk, h⟩ := Option.map_eq_some_iff.1 h
    obtain ⟨rfl, rfl⟩ := Prod.mk.inj h
    obtain ⟨hrounds, he⟩ := runNext_rounds hk
    exact ⟨hrounds, he, fun hne => absurd rfl hne⟩
  | runUntilDone deadline =>
    obtain ⟨⟨k, next⟩, hk, h⟩ := Option.map_eq_some_iff.1 h
    obtain ⟨rfl, rfl⟩ := Prod.mk.inj h
    obtain ⟨hrounds, he⟩ := runMessages_rounds hk
    exact ⟨hrounds, he, fun hne => absurd rfl hne⟩
  | stop => exact absurd rfl hstop

lemma run_turns (hi : i.InPhase) (h : r.run fuel i = some (i', e)) :
    Turns i (r.journal fuel i) i' ∧
      e = (r.refusal i <|> (failureIn (r.journal fuel i)).map .step) ∧
      (r.refusal i ≠ none → r.journal fuel i = []) := by
  by_cases hstart : r = .start
  · subst hstart
    obtain ⟨⟨k, result⟩, hk, h⟩ := Option.map_eq_some_iff.1 h
    obtain ⟨rfl, rfl⟩ := Prod.mk.inj h
    exact start_turns hi hk
  · by_cases hstop : r = .stop
    · subst hstop
      obtain ⟨rfl, rfl⟩ := Prod.mk.inj (Option.some.inj h)
      exact ⟨.single .stop, rfl, fun hne => absurd rfl hne⟩
    · obtain ⟨hrounds, herror⟩ := run_rounds hstart hstop h
      exact ⟨hrounds.turns, herror⟩

end Request

end Statechart
