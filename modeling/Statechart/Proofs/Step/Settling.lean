import Mathlib.Logic.Relation
import Mathlib.Order.WellFounded
import Mathlib.Tactic.Common
import Statechart.Proofs.Step.Completion
import Statechart.Proofs.Step.Entering

/-! Settling as a loop. A turn of it takes eventless transitions, or takes the first event off the
internal queue and offers it to selection. -/

namespace Statechart

variable {C : Type} {m : Machine C} {event : Event} {r r' r'' : Run C} {n : NodeId}

inductive Signal where
  | raised (event : Event)
  | completed (n : NodeId)

def signalled (l : List (Named (Action C))) : List Signal := (raisedBy l).map .raised

namespace Machine

def Carries (m : Machine C) : Signal → Event → Prop
  | .raised event, e => e = event
  | .completed n, e => ∃ data, e = .doneState (m.node n).id data

def entrySignals (m : Machine C) (s : Configuration) : List NodeId → List Signal
  | [] => []
  | n :: rest =>
    if n ∈ s then m.entrySignals s rest
    else signalled (m.partsOf n).entry ++ (m.chart.announcedBy (s.insert n) n).map .completed
      ++ m.entrySignals (s.insert n) rest

def signals (m : Machine C) (s : MachineState C) (l : List TransitionRef) : List Signal :=
  ((m.exitSetOf s.configuration s.history l).elems.reverse.flatMap fun n =>
      signalled (m.partsOf n).exit)
    ++ (l.flatMap fun ref => signalled (m.transitionAt ref).actions)
    ++ m.entrySignals (m.staying s l) (m.entering s l)

end Machine

namespace Run

structure Queues (m : Machine C) (l : List Signal) (r r' : Run C) : Prop where
  internal : ∃ events, r'.internal = r.internal ++ events ∧ List.Forall₂ m.Carries l events
  microsteps : r'.microsteps = r.microsteps

variable {l l' : List Signal}

lemma Queues.refl (r : Run C) : Queues m [] r r := ⟨⟨[], (List.append_nil _).symm, .nil⟩, rfl⟩

lemma Queues.trans (h : Queues m l r r') (h' : Queues m l' r' r'') :
    Queues m (l ++ l') r r'' := by
  obtain ⟨events, hevents, hcarries⟩ := h.internal
  obtain ⟨events', hevents', hcarries'⟩ := h'.internal
  refine ⟨⟨events ++ events', ?_, List.rel_append hcarries hcarries'⟩,
    h'.microsteps.trans h.microsteps⟩
  rw [hevents', hevents, List.append_assoc]

lemma queues_foldlM {α : Type} {f : Run C → α → Except StepError (Run C)} {g : α → List Signal}
    {as : List α} (hf : ∀ r a r', f r a = .ok r' → Queues m (g a) r r')
    (h : as.foldlM f r = .ok r') : Queues m (as.flatMap g) r r' := by
  induction as generalizing r with
  | nil =>
    obtain rfl := foldlM_nil_eq_ok h
    exact .refl _
  | cons a as ih =>
    obtain ⟨r₁, h₁, h⟩ := foldlM_cons_eq_ok h
    exact (hf r a r₁ h₁).trans (ih h)

lemma microsteps_runActions {actions : List (Named (Action C))}
    (h : r.runActions m n event actions = .ok r') : r'.microsteps = r.microsteps := by
  induction actions generalizing r with
  | nil =>
    obtain rfl := foldlM_nil_eq_ok h
    rfl
  | cons a actions ih =>
    obtain ⟨r₁, h₁, h⟩ := foldlM_cons_eq_ok h
    refine (ih h).trans ?_
    rw [runAction] at h₁
    split at h₁
    · split at h₁
      · obtain rfl := Except.ok.inj h₁
        rfl
      · exact absurd h₁ (by simp)
    · obtain rfl := Except.ok.inj h₁
      rfl
    · obtain rfl := Except.ok.inj h₁
      rfl

lemma queues_runActions {actions : List (Named (Action C))}
    (h : r.runActions m n event actions = .ok r') : Queues m (signalled actions) r r' := by
  refine ⟨⟨raisedBy actions, internal_runActions h, ?_⟩, microsteps_runActions h⟩
  rw [signalled, List.forall₂_map_left_iff]
  exact List.forall₂_same.2 fun _ _ => rfl

lemma queues_exitNode (h : r.exitNode m event n = .ok r') :
    Queues m (signalled (m.partsOf n).exit) r r' := by
  obtain ⟨r₁, h₁, h⟩ := bind_eq_ok h
  obtain rfl := Except.ok.inj h
  exact ⟨(queues_runActions h₁).internal, (queues_runActions h₁).microsteps⟩

lemma queues_exitNodes {nodes : List NodeId} (h : r.exitNodes m event nodes = .ok r') :
    Queues m (nodes.flatMap fun n => signalled (m.partsOf n).exit) r r' := by
  rw [exitNodes] at h
  exact queues_foldlM (fun _ _ _ => queues_exitNode) h

lemma queues_complete (hf : (m.node n).isFinal) (h : r.complete m event n = .ok r') :
    Queues m ((m.chart.announcedBy r.state.configuration n).map .completed) r r' := by
  have hf' : (m.chart.node n).isFinal := hf
  rw [Chart.announcedBy, if_pos hf']
  rcases complete_cases h with ⟨hq, rfl⟩ | ⟨q, data, hq, hmicro, hint⟩
  · rw [hq]
    exact .refl _
  · rw [hq]
    refine ⟨⟨_, hint, .cons ⟨data, rfl⟩ ?_⟩, hmicro⟩
    rw [List.forall₂_map_left_iff, List.forall₂_map_right_iff]
    exact List.forall₂_same.2 fun _ _ => ⟨.null, rfl⟩

lemma queues_enterNode (hn : n ∉ r.state.configuration) (h : r.enterNode m event n = .ok r') :
    Queues m (signalled (m.partsOf n).entry ++
      (m.chart.announcedBy r'.state.configuration n).map .completed) r r' := by
  rw [enterNode, if_neg hn] at h
  obtain ⟨r₁, h₁, h⟩ := bind_eq_ok h
  have hacts := queues_runActions h₁
  have hentered : Queues m (signalled (m.partsOf n).entry) r r₁ :=
    ⟨hacts.internal, hacts.microsteps⟩
  by_cases hf : (m.node n).isFinal
  · rw [if_pos hf] at h
    rw [(complete_unmoved h).configuration]
    exact hentered.trans (queues_complete hf h)
  · rw [if_neg hf] at h
    obtain rfl := Except.ok.inj h
    have hnone : m.chart.announcedBy r₁.state.configuration n = [] := if_neg hf
    rw [hnone, List.map_nil, List.append_nil]
    exact hentered

lemma queues_enterNodes {nodes : List NodeId} (h : r.enterNodes m event nodes = .ok r') :
    Queues m (m.entrySignals r.state.configuration nodes) r r' := by
  induction nodes generalizing r with
  | nil =>
    obtain rfl := foldlM_nil_eq_ok h
    exact .refl _
  | cons n nodes ih =>
    obtain ⟨r₁, h₁, h₂⟩ := foldlM_cons_eq_ok h
    rw [Machine.entrySignals]
    by_cases hn : n ∈ r.state.configuration
    · rw [if_pos hn, ← enterNode_of_mem hn h₁]
      exact ih h₂
    · rw [if_neg hn, ← (enterNode_moves hn h₁).1]
      exact (queues_enterNode hn h₁).trans (ih h₂)

end Run

namespace Machine

lemma queues_transitions {l : List TransitionRef} (h : l.foldlM (fun r ref =>
      let t := m.transitionAt ref
      r.runActions m t.source event t.actions) r = .ok r') :
    Run.Queues m (l.flatMap fun ref => signalled (m.transitionAt ref).actions) r r' :=
  Run.queues_foldlM (fun _ _ _ => Run.queues_runActions) h

lemma queues_microstep {l : List TransitionRef} (h : m.microstep l event r = .ok r') :
    Run.Queues m (m.signals r.state l) { r with microsteps := r.microsteps + 1 } r' := by
  obtain ⟨r₁, h₁, h⟩ := bind_eq_ok h
  obtain ⟨r₂, h₂, h⟩ := bind_eq_ok h
  have hexits := Run.queues_exitNodes h₁
  have hactions := queues_transitions h₂
  have hentries := Run.queues_enterNodes h
  rw [configuration_staying h₁ h₂] at hentries
  have hall := (hexits.trans hactions).trans hentries
  exact ⟨hall.internal, hall.microsteps⟩

end Machine

structure Loop (C : Type) where
  current : Event
  run : Run C
  offered : List Event
  signals : List Signal

namespace Loop

def offer (p : Loop C) (event : Event) (queue : List Event) : Loop C :=
  { p with
    current := event
    run := { p.run with internal := queue }
    offered := p.offered ++ [event] }

def measure (limit : Nat) (p : Loop C) : Nat × Nat :=
  (limit - p.run.microsteps, p.run.internal.length)

end Loop

namespace Machine

open Chart (Piece)

variable {limit : Nat} {p q : Loop C} {l : List TransitionRef}

def take (m : Machine C) (limit : Nat) (l : List TransitionRef) (p : Loop C) :
    Except StepError (Loop C) :=
  if limit ≤ p.run.microsteps then .error (.unsettled p.current.type limit)
  else do
    let run ← m.microstep l p.current p.run
    return { p with run, signals := p.signals ++ m.signals p.run.state l }

def turn (m : Machine C) (limit : Nat) (p : Loop C) : Except StepError (Option (Loop C)) :=
  if m.isDone p.run.state.configuration then .ok none
  else do
    let eventless ← m.select p.run.state p.current true
    if eventless.isEmpty then
      match p.run.internal with
      | [] => return none
      | event :: queue => do
        let enabled ← m.select p.run.state event false
        if enabled.isEmpty then return some (p.offer event queue)
        else some <$> m.take limit enabled (p.offer event queue)
    else some <$> m.take limit eventless p

def settleFrom (m : Machine C) (limit : Nat) (p : Loop C) : Except StepError (Run C) :=
  m.settle limit (limit - p.run.microsteps) p.current p.run

lemma take_cases (h : m.take limit l p = .ok q) : p.run.microsteps < limit ∧
    ∃ run, m.microstep l p.current p.run = .ok run ∧
      q = { p with run, signals := p.signals ++ m.signals p.run.state l } := by
  rw [take] at h
  by_cases hlimit : limit ≤ p.run.microsteps
  · rw [if_pos hlimit] at h
    exact absurd h (by simp)
  · rw [if_neg hlimit] at h
    obtain ⟨run, hrun, h⟩ := bind_eq_ok h
    exact ⟨Nat.lt_of_not_le hlimit, run, hrun, (Except.ok.inj h).symm⟩

lemma turn_of_eventless (hd : m.isDone p.run.state.configuration = false)
    (h : m.select p.run.state p.current true = .ok l) (hne : l ≠ []) :
    m.turn limit p = some <$> m.take limit l p := by
  have hne' : l.isEmpty = false := by simpa using hne
  simp [turn, hd, h, hne', bind, Except.bind]

lemma turn_of_queued (hd : m.isDone p.run.state.configuration = false)
    (h : m.select p.run.state p.current true = .ok []) {queue : List Event}
    (hq : p.run.internal = event :: queue) :
    m.turn limit p = m.select p.run.state event false >>= fun enabled =>
      if enabled.isEmpty then .ok (some (p.offer event queue))
      else some <$> m.take limit enabled (p.offer event queue) := by
  simp [turn, hd, h, hq, bind, Except.bind, pure, Except.pure]

lemma turn_of_unqueued (h : m.select p.run.state p.current true = .ok [])
    (hq : p.run.internal = []) : m.turn limit p = .ok none := by
  simp [turn, h, hq, bind, Except.bind, pure, Except.pure]

lemma turn_cases {next : Option (Loop C)} (h : m.turn limit p = .ok next) :
    (next = none ∧ (m.isDone p.run.state.configuration ∨
      p.run.internal = [] ∧ m.select p.run.state p.current true = .ok [])) ∨
    (m.isDone p.run.state.configuration = false ∧ ∃ q, next = some q ∧
      ((∃ l, m.select p.run.state p.current true = .ok l ∧ l ≠ [] ∧ m.take limit l p = .ok q) ∨
        m.select p.run.state p.current true = .ok [] ∧ ∃ event queue l,
          p.run.internal = event :: queue ∧ m.select p.run.state event false = .ok l ∧
            (l = [] ∧ q = p.offer event queue ∨
              l ≠ [] ∧ m.take limit l (p.offer event queue) = .ok q))) := by
  rw [turn] at h
  cases hd : m.isDone p.run.state.configuration with
  | true =>
    rw [if_pos hd] at h
    exact .inl ⟨(Except.ok.inj h).symm, .inl rfl⟩
  | false =>
    rw [if_neg (by simp [hd])] at h
    obtain ⟨eventless, heventless, h⟩ := bind_eq_ok h
    by_cases hnil : eventless.isEmpty
    · rw [if_pos hnil] at h
      obtain rfl := List.isEmpty_iff.1 hnil
      cases hq : p.run.internal with
      | nil =>
        rw [hq] at h
        exact .inl ⟨(Except.ok.inj h).symm, .inr ⟨rfl, heventless⟩⟩
      | cons event queue =>
        rw [hq] at h
        obtain ⟨enabled, henabled, h⟩ := bind_eq_ok h
        by_cases hnil' : enabled.isEmpty
        · rw [if_pos hnil'] at h
          exact .inr ⟨rfl, _, (Except.ok.inj h).symm, .inr ⟨heventless, event, queue, enabled,
            rfl, henabled, .inl ⟨List.isEmpty_iff.1 hnil', rfl⟩⟩⟩
        · rw [if_neg hnil'] at h
          obtain ⟨q, hq, h⟩ := bind_eq_ok h
          exact .inr ⟨rfl, q, (Except.ok.inj h).symm, .inr ⟨heventless, event, queue, enabled,
            rfl, henabled, .inr ⟨by simpa using hnil', hq⟩⟩⟩
    · rw [if_neg hnil] at h
      obtain ⟨q, hq, h⟩ := bind_eq_ok h
      exact .inr ⟨rfl, q, (Except.ok.inj h).symm,
        .inl ⟨eventless, heventless, by simpa using hnil, hq⟩⟩

section

variable {s : MachineState C} {current : Event} {queue : List Event} {left : Nat}

lemma nextEnabled_eventless (h : m.select s current true = .ok l) (hne : l ≠ []) :
    m.nextEnabled s current queue = .ok (some (current, l, queue)) := by
  have hne' : l.isEmpty = false := by simpa using hne
  cases queue with
  | nil => simp [nextEnabled, h, hne', bind, Except.bind, pure, Except.pure]
  | cons event queue => simp [nextEnabled, h, hne', bind, Except.bind, pure, Except.pure]

lemma nextEnabled_cons (h : m.select s current true = .ok []) :
    m.nextEnabled s current (event :: queue) = m.select s event false >>= fun enabled =>
      if enabled.isEmpty then m.nextEnabled s event queue
      else return some (event, enabled, queue) := by
  rw [nextEnabled, h]
  rfl

lemma settle_of_not_done (hd : m.isDone r.state.configuration = false) :
    m.settle limit left current r = m.nextEnabled r.state current r.internal >>= fun
      | none => .ok { r with internal := [] }
      | some (event, enabled, queue) => match left with
        | 0 => .error (.unsettled event.type limit)
        | left + 1 => m.microstep enabled event { r with internal := queue } >>=
          m.settle limit left event := by
  rw [settle, if_neg (by simp [hd])]
  rfl

lemma take_settles (l : List TransitionRef) (p : Loop C) :
    m.take limit l p >>= m.settleFrom limit = match limit - p.run.microsteps with
      | 0 => .error (.unsettled p.current.type limit)
      | left + 1 => m.microstep l p.current p.run >>= m.settle limit left p.current := by
  rw [take]
  by_cases hlimit : limit ≤ p.run.microsteps
  · rw [if_pos hlimit, Nat.sub_eq_zero_of_le hlimit]
    rfl
  · obtain ⟨left, hleft⟩ := Nat.exists_eq_succ_of_ne_zero (Nat.sub_ne_zero_of_lt
      (Nat.lt_of_not_le hlimit))
    rw [if_neg hlimit, hleft]
    cases hrun : m.microstep l p.current p.run with
    | error e => rfl
    | ok run =>
      have hcount : limit - run.microsteps = left := by
        have hsteps : run.microsteps = p.run.microsteps + 1 := (queues_microstep hrun).microsteps
        omega
      simp only [bind, Except.bind, pure, Except.pure, settleFrom, hcount]

end

lemma settleFrom_of_next (hd : m.isDone p.run.state.configuration = false) {queue : List Event}
    (hq : q.run = { p.run with internal := queue })
    (h : m.nextEnabled p.run.state p.current p.run.internal = .ok (some (q.current, l, queue))) :
    m.settleFrom limit p = m.take limit l q >>= m.settleFrom limit := by
  rw [settleFrom, settle_of_not_done hd, h, take_settles, hq]
  rfl

lemma settleFrom_offer (hd : m.isDone p.run.state.configuration = false) {queue : List Event}
    (h : m.nextEnabled p.run.state p.current p.run.internal =
      m.nextEnabled p.run.state event queue) :
    m.settleFrom limit p = m.settleFrom limit (p.offer event queue) := by
  have hd' : m.isDone (p.offer event queue).run.state.configuration = false := hd
  rw [settleFrom, settleFrom, settle_of_not_done hd, settle_of_not_done hd', h]
  rfl

def proceed (m : Machine C) (limit : Nat) (p : Loop C) : Option (Loop C) → Except StepError (Run C)
  | none => .ok p.run
  | some q => m.settleFrom limit q

lemma settleFrom_of_queued (hd : m.isDone p.run.state.configuration = false)
    (h : m.select p.run.state p.current true = .ok []) {queue : List Event}
    (hq : p.run.internal = event :: queue) :
    m.settleFrom limit p = m.turn limit p >>= m.proceed limit p := by
  have hnext : m.nextEnabled p.run.state p.current (event :: queue) = _ := nextEnabled_cons h
  rw [← hq] at hnext
  rw [turn_of_queued hd h hq]
  cases henabled : m.select p.run.state event false with
  | error e =>
    rw [settleFrom, settle_of_not_done hd, hnext, henabled]
    rfl
  | ok enabled =>
    rw [henabled] at hnext
    rcases eq_or_ne enabled [] with rfl | hne
    · exact settleFrom_offer hd hnext
    · have hne' : enabled.isEmpty = false := by simpa using hne
      have hstop : m.nextEnabled p.run.state p.current p.run.internal =
          .ok (some (event, enabled, queue)) := by
        simpa [hne', bind, Except.bind, pure, Except.pure] using hnext
      rw [settleFrom_of_next (q := p.offer event queue) hd rfl hstop]
      cases htake : m.take limit enabled (p.offer event queue) <;>
        simp [hne', htake, bind, Except.bind, proceed]

lemma settleFrom_eq (m : Machine C) (limit : Nat) (p : Loop C) :
    m.settleFrom limit p = m.turn limit p >>= m.proceed limit p := by
  cases hd : m.isDone p.run.state.configuration with
  | true =>
    rw [turn, if_pos hd, settleFrom, settle, if_pos hd]
    rfl
  | false =>
    cases heventless : m.select p.run.state p.current true with
    | error e =>
      rw [settleFrom, settle_of_not_done hd, turn, if_neg (by simp [hd]), heventless]
      cases p.run.internal <;> rw [nextEnabled, heventless] <;> rfl
    | ok eventless =>
      rcases eq_or_ne eventless [] with rfl | hne
      · cases hq : p.run.internal with
        | nil =>
          have hrun : { p.run with internal := [] } = p.run := hq ▸ rfl
          rw [settleFrom, settle_of_not_done hd, turn_of_unqueued heventless hq, hq, nextEnabled,
            heventless]
          exact congrArg Except.ok hrun
        | cons event queue => exact settleFrom_of_queued hd heventless hq
      · rw [settleFrom_of_next hd rfl (nextEnabled_eventless heventless hne),
          turn_of_eventless hd heventless hne, bind_map_left]
        rfl

lemma measure_take (h : m.take limit l p = .ok q) : (q.measure limit).1 < (p.measure limit).1 := by
  obtain ⟨hlt, run, hrun, rfl⟩ := take_cases h
  have hsteps : run.microsteps = p.run.microsteps + 1 := (queues_microstep hrun).microsteps
  have hless : limit - run.microsteps < limit - p.run.microsteps := by omega
  exact hless

lemma measure_turn (h : m.turn limit p = .ok (some q)) :
    Prod.Lex (· < ·) (· < ·) (q.measure limit) (p.measure limit) := by
  obtain ⟨hnone, _⟩ | ⟨_, q', hq, hturn⟩ := turn_cases h
  · exact absurd hnone (Option.some_ne_none q)
  obtain rfl := Option.some.inj hq
  rw [Prod.lex_iff]
  rcases hturn with ⟨l, _, _, htake⟩ | ⟨_, event, queue, l, hinternal, _, ⟨_, rfl⟩ | ⟨_, htake⟩⟩
  · exact .inl (measure_take htake)
  · refine .inr ⟨rfl, ?_⟩
    rw [Loop.measure, Loop.measure, hinternal]
    exact Nat.lt_succ_self _
  · exact .inl (measure_take (p := p.offer event queue) htake)

def Turns (m : Machine C) (limit : Nat) (p q : Loop C) : Prop := m.turn limit p = .ok (some q)

lemma wellFounded_turns (m : Machine C) (limit : Nat) :
    WellFounded fun q p => m.Turns limit p q := by
  have hlex : WellFounded (Prod.Lex (· < ·) (· < ·) : Nat × Nat → Nat × Nat → Prop) :=
    (Prod.lex ⟨_, wellFounded_lt⟩ ⟨_, wellFounded_lt⟩).wf
  exact Subrelation.wf measure_turn (InvImage.wf (Loop.measure limit) hlex)

lemma exists_last {p : Loop C} (h : m.settleFrom limit p = .ok r) :
    ∃ last, Relation.ReflTransGen (m.Turns limit) p last ∧ m.turn limit last = .ok none ∧
      last.run = r := by
  induction p using (wellFounded_turns m limit).induction with
  | _ p ih =>
    rw [settleFrom_eq] at h
    obtain ⟨next, hnext, h⟩ := bind_eq_ok h
    cases next with
    | none => exact ⟨p, .refl, hnext, Except.ok.inj h⟩
    | some q =>
      obtain ⟨last, hturns, hlast⟩ := ih q hnext h
      exact ⟨last, .head hnext hturns, hlast⟩

def Visiting (m : Machine C) (p : Loop C) : Prop :=
  ∃ current r, m.Visits current r ∧ r.state = p.run.state ∧
    (∀ queue, { p.run with internal := queue } = { r with internal := queue }) ∧
    m.nextEnabled r.state current r.internal = m.nextEnabled p.run.state p.current p.run.internal

lemma Visiting.meets (h : m.Visiting p) : m.Meets p.run.state := by
  obtain ⟨current, r, hr, hstate, _⟩ := h
  exact .inr ⟨current, r, hr, hstate⟩

lemma Visits.visiting {current : Event} (h : m.Visits current r) (signals : List Signal) :
    m.Visiting ⟨current, r, [], signals⟩ :=
  ⟨current, r, h, rfl, fun _ => rfl, rfl⟩

def Finishes (m : Machine C) (limit : Nat) (p : Loop C) : Prop :=
  ∀ q, Relation.ReflTransGen (m.Turns limit) p q → m.Expands q.run.state.history ∧
    ∀ event l queue, m.isDone q.run.state.configuration = false → q.run.microsteps < limit →
      m.nextEnabled q.run.state q.current q.run.internal = .ok (some (event, l, queue)) →
        m.Ends q.run.state l

lemma Visiting.take (h : m.Visiting p) (p' : Loop C)
    (hd : m.isDone p.run.state.configuration = false)
    (hp' : p'.run = { p.run with internal := p'.run.internal })
    (hnext : m.nextEnabled p.run.state p.current p.run.internal =
      .ok (some (p'.current, l, p'.run.internal))) (htake : m.take limit l p' = .ok q) :
    m.Visiting q := by
  obtain ⟨current, r, hr, hstate, hrun, heq⟩ := h
  obtain ⟨_, run, hmicro, rfl⟩ := take_cases htake
  rw [← hstate] at hd
  rw [hp', hrun] at hmicro
  have hvisits := (Visits.next hr hd (heq.trans hnext) hmicro).visiting
    (p'.signals ++ m.signals p'.run.state l)
  exact hvisits

lemma Visiting.turn (h : m.Visiting p) (hturn : m.Turns limit p q) : m.Visiting q := by
  obtain ⟨hnone, _⟩ | ⟨hd, q', hq, hcases⟩ := turn_cases hturn
  · exact absurd hnone (Option.some_ne_none q)
  obtain rfl := Option.some.inj hq
  rcases hcases with ⟨l, hl, hne, htake⟩ | ⟨hl, event, queue, l, hinternal, henabled, hcases⟩
  · exact h.take p hd rfl (nextEnabled_eventless hl hne) htake
  have hcons : m.nextEnabled p.run.state p.current p.run.internal = _ :=
    hinternal ▸ nextEnabled_cons hl
  rw [henabled] at hcons
  rcases hcases with ⟨rfl, rfl⟩ | ⟨hne, htake⟩
  · obtain ⟨current, r, hr, hstate, hrun, heq⟩ := h
    exact ⟨current, r, hr, hstate, hrun, heq.trans hcons⟩
  · have hne' : l.isEmpty = false := by simpa using hne
    refine h.take (p.offer event queue) hd rfl (hcons.trans ?_) htake
    simp only [bind, Except.bind, hne', Bool.false_eq_true, if_false]
    rfl

lemma Visiting.turns (h : m.Visiting p) (hturns : Relation.ReflTransGen (m.Turns limit) p q) :
    m.Visiting q := by
  induction hturns with
  | refl => exact h
  | tail _ hturn ih => exact ih.turn hturn

structure Accounts (m : Machine C) (limit : Nat) (trigger : Event) (p : Loop C) : Prop where
  microsteps : p.run.microsteps ≤ limit
  current : p.current = p.offered.getLast?.getD trigger
  queued : List.Forall₂ m.Carries p.signals (p.offered ++ p.run.internal)

variable {trigger : Event}

lemma accounts_of_queues {r₀ : Run C} {signals : List Signal} (h : Run.Queues m signals r₀ r)
    (hnil : r₀.internal = []) (hle : r₀.microsteps ≤ limit) :
    m.Accounts limit trigger ⟨trigger, r, [], signals⟩ := by
  obtain ⟨⟨events, hevents, hcarries⟩, hsteps⟩ := h
  exact ⟨hsteps ▸ hle, rfl, by simpa [hevents, hnil] using hcarries⟩

lemma Accounts.offer (h : m.Accounts limit trigger p) {queue : List Event}
    (hq : p.run.internal = event :: queue) : m.Accounts limit trigger (p.offer event queue) := by
  have hoffered : (p.offered ++ [event]) ++ queue = p.offered ++ p.run.internal := by simp [hq]
  exact ⟨h.microsteps, by simp [Loop.offer], hoffered ▸ h.queued⟩

lemma Accounts.take (h : m.Accounts limit trigger p) (htake : m.take limit l p = .ok q) :
    m.Accounts limit trigger q := by
  obtain ⟨hlt, run, hrun, rfl⟩ := take_cases htake
  obtain ⟨⟨events, hevents, hcarries⟩, hsteps⟩ := queues_microstep hrun
  refine ⟨?_, h.current, ?_⟩
  · exact hsteps ▸ hlt
  · have hall : p.offered ++ run.internal = p.offered ++ p.run.internal ++ events := by
      simp [hevents]
    exact hall ▸ List.rel_append h.queued hcarries

lemma Accounts.turn (h : m.Accounts limit trigger p) (hturn : m.Turns limit p q) :
    m.Accounts limit trigger q := by
  obtain ⟨hnone, _⟩ | ⟨_, q', hq, hcases⟩ := turn_cases hturn
  · exact absurd hnone (Option.some_ne_none q)
  obtain rfl := Option.some.inj hq
  rcases hcases with ⟨l, _, _, htake⟩ | ⟨_, event, queue, l, hinternal, _, ⟨_, rfl⟩ | ⟨_, htake⟩⟩
  · exact h.take htake
  · exact h.offer hinternal
  · exact (h.offer hinternal).take htake

lemma Accounts.turns (h : m.Accounts limit trigger p)
    (hturns : Relation.ReflTransGen (m.Turns limit) p q) : m.Accounts limit trigger q := by
  induction hturns with
  | refl => exact h
  | tail _ hturn ih => exact ih.turn hturn

structure Concludes (m : Machine C) (limit : Nat) (first last : Loop C) (step : Step C) : Prop where
  turns : Relation.ReflTransGen (m.Turns limit) first last
  finishes : step = m.finish first.current true last.run
  microsteps : step.microsteps ≤ limit
  current : last.current = last.offered.getLast?.getD first.current
  queued : List.Forall₂ m.Carries last.signals (last.offered ++ last.run.internal)
  stable : step.done ∨ last.run.internal = [] ∧ m.select step.state last.current true = .ok []

lemma exists_concludes {first : Loop C} (ha : m.Accounts limit first.current first)
    (h : m.settleFrom limit first = .ok r) :
    ∃ last, m.Concludes limit first last (m.finish first.current true r) := by
  obtain ⟨last, hturns, hlast, rfl⟩ := exists_last h
  have haccounts := ha.turns hturns
  obtain ⟨_, hstable⟩ | ⟨_, q, hq, _⟩ := turn_cases hlast
  · exact ⟨last, hturns, rfl, haccounts.microsteps, haccounts.current, haccounts.queued, hstable⟩
  · exact absurd hq (Option.some_ne_none q).symm

lemma Visits.finishes (hw : m.chart.WellFormed) (hl : m.chart.Loopless) {current : Event}
    (h : m.Visits current r) (signals : List Signal) :
    m.Finishes limit ⟨current, r, [], signals⟩ := by
  intro q hturns
  have hmeets := ((h.visiting signals).turns hturns).meets
  have hends := ends_of_loopless hw hl hmeets
  exact ⟨(hends []).selects, fun _ l _ _ _ _ => hends l⟩

section

variable [JsonCoded C] {d : Definition} {b : Behaviors C} {context : Option C}

/-- Turns of settling lower the microsteps left or else the length of the queue, and what they enter
ends unless a history state leads back to itself, given what history states remember by then. A step
that takes transitions counts no more microsteps than its limit, offers all that is signalled once
and in that order, and ends stable. -/
theorem settling_ends_stable (h : build d b context = .ok m) (limit : Nat) :
    (m.chart.Unlooped .empty → m.chart.enterWithin? .empty m.chart.entryDepth .empty rootId =
      some (m.chart.enter .empty .empty rootId)) ∧
    (∀ s, m.Meets s → ∀ l,
      (m.chart.Unlooped s.history → m.chart.Unlooped (m.historyAfter s l) → m.Ends s l) ∧
      (m.Ends s l ↔ m.Uncut s l)) ∧
    (m.chart.Loopless → (∀ s, m.Meets s → ∀ l, m.Ends s l) ∧
      ∀ current r signals, m.Visits current r → m.Finishes limit ⟨current, r, [], signals⟩) ∧
    (∀ p q, m.Turns limit p q → Prod.Lex (· < ·) (· < ·) (q.measure limit) (p.measure limit)) ∧
    WellFounded (fun q p => m.Turns limit p q) ∧
    (∀ p, m.settleFrom limit p = m.turn limit p >>= m.proceed limit p) ∧
    (∀ s event step, m.stepWithin s event limit = .ok step → step.changed →
      ∃ l r last, m.select s event false = .ok l ∧ l ≠ [] ∧
        m.microstep l event (.start s) = .ok r ∧
        m.Concludes limit ⟨event, r, [], m.signals s l⟩ last step) ∧
    ∀ context step, m.initialStepFrom context limit = .ok step →
      let entered := (m.chart.enter .empty .empty rootId).elems
      ∃ r last, (Run.start ⟨.empty, context, .empty⟩).enterNodes m .init entered = .ok r ∧
        m.Concludes limit ⟨.init, r, [], m.entrySignals .empty entered⟩ last step := by
  have hm := wellFormed_of_build h
  have hw := hm.chart
  refine ⟨fun hu => hu.enterWithin? hw .empty rootId,
    fun s hs l => ⟨Ends.of_unlooped hw, fun hends => hends.uncut hm ?_, Uncut.ends⟩,
    fun hl => ⟨fun _ => ends_of_loopless hw hl, fun _ _ signals hr => hr.finishes hw hl signals⟩,
    fun _ _ => measure_turn, wellFounded_turns m limit, settleFrom_eq m limit,
    fun s event step h hchanged => ?_, fun context step h => ?_⟩
  · obtain ⟨hregular, hkeeps⟩ := keeps_of_meets hw hs
    exact inRange_of_keeps h (hkeeps.recordHistory hw hregular)
  · rcases stepWithin_cases h with rfl | ⟨left, l, r, r', rfl, hl, hne, hr, hr', rfl⟩
    · exact absurd hchanged Bool.false_ne_true
    have hqueues := queues_microstep hr
    have hsteps : r.microsteps = 1 := hqueues.microsteps
    have hsettle : m.settleFrom (left + 1) ⟨event, r, [], m.signals s l⟩ = .ok r' := by
      rwa [settleFrom, hsteps]
    obtain ⟨last, hlast⟩ := exists_concludes
      (accounts_of_queues hqueues rfl (Nat.le_add_left 1 left)) hsettle
    exact ⟨l, r, last, hl, hne, hr, hlast⟩
  · obtain ⟨r, r', hr, hr', rfl⟩ := initialStepFrom_cases h
    have hqueues := Run.queues_enterNodes hr
    have hsteps : r.microsteps = 0 := hqueues.microsteps
    have hsettle : m.settleFrom limit
        ⟨.init, r, [], m.entrySignals .empty (m.chart.enter .empty .empty rootId).elems⟩ =
          .ok r' := by
      rwa [settleFrom, hsteps]
    obtain ⟨last, hlast⟩ := exists_concludes
      (accounts_of_queues hqueues rfl (Nat.zero_le limit)) hsettle
    exact ⟨r, last, hr, hlast⟩

def chiming : Definition := .ofRoot
  { initial := some "silent"
    states := [
      ("silent", {
        on := .ofList [("STRIKE", [{ target := ["chime.last"], actions := ["hum", "fade"] }])] }),
      ("chime", {
        initial := some "low"
        on := .ofList [("FADE", [{ target := ["silent"] }])]
        states := [
          ("low", {}),
          ("last", { history := some (.kind .shallow) })] })] }

def chimingBehaviors : Behaviors Unit where
  actions := .ofList [("hum", .raise (.ofType "HUM")), ("fade", .raise (.ofType "FADE"))]

def chimingMachine : Machine Unit := assemble chiming () (link chiming chimingBehaviors).value

lemma build_chiming : build chiming chimingBehaviors (some ()) = .ok chimingMachine := rfl

lemma chiming_loopless : chimingMachine.chart.Loopless := by
  refine Chart.Inward.loopless (wellFormed_of_build build_chiming).chart ?_
  have hall := Chart.forall_node (c := chimingMachine.chart)
    (P := fun _ node => node.isHistory → ∀ p ∈ node.parent?, ∀ x ∈ node.historyDefault,
      (chimingMachine.chart.node x).isHistory = false ∧ chimingMachine.chart.Below x p)
    (by decide) fun _ hh => absurd hh (by decide)
  exact fun h p hh hp => hall h hh p hp

theorem chiming_settles :
    ∃ start step first last, chimingMachine.initialStepFrom () 2 = .ok start ∧
      (∀ l, chimingMachine.Ends start.state l) ∧
      chimingMachine.stepWithin start.state (.ofType "STRIKE") 2 = .ok step ∧
      step.microsteps = 2 ∧ chimingMachine.Concludes 2 first last step ∧
      List.Forall₂ chimingMachine.Carries last.signals last.offered := by
  obtain ⟨_, _, hends, _, _, _, hstep, _⟩ := settling_ends_stable build_chiming 2
  have hrun : ((chimingMachine.initialStepFrom () 2).bind fun start =>
      chimingMachine.stepWithin start.state (.ofType "STRIKE") 2).toOption.map
        (fun step => (step.changed, step.microsteps, step.done)) = some (true, 2, false) := by
    decide +kernel
  obtain ⟨step, hrun, hfields⟩ := Option.map_eq_some_iff.1 hrun
  obtain ⟨start, hstart, hok⟩ := bind_eq_ok (eq_ok_of_toOption hrun)
  simp only [Prod.mk.injEq] at hfields
  obtain ⟨hchanged, hmicro, hdone⟩ := hfields
  have hstarted := (hends chiming_loopless).1 start.state (.inl (.start hstart))
  obtain ⟨_, _, last, _, _, _, hconcludes⟩ := hstep start.state (.ofType "STRIKE") step hok hchanged
  obtain ⟨hempty, _⟩ := hconcludes.stable.resolve_left (by simp [hdone])
  refine ⟨start, step, _, last, hstart, hstarted, hok, hmicro, hconcludes, ?_⟩
  simpa [hempty] using hconcludes.queued

/-- No default leads back to its history state here. Left from `z`, however, `x` is remembered as
the last state of `p`, and the last state of `i`, in which `x` starts, is that of `p`. -/
def circling : Definition := .ofRoot
  { initial := some "p"
    states := [
      ("p", {
        initial := some "y"
        on := .ofList [("OUT", [{ target := ["out"] }])]
        states := [
          ("y", { on := .ofList [("GO", [{ target := ["x.z"] }])] }),
          ("x", {
            initial := some "i"
            states := [
              ("i", {
                initial := some "last"
                states := [
                  ("a", {}),
                  ("last", { history := some (.kind .shallow), target := some "#home" })] }),
              ("z", {})] }),
          ("last", {
            id := some "home", history := some (.kind .shallow), target := some "y" })] }),
      ("out", { always := [{ target := ["p.last"] }] })] }

def circlingMachine : Machine Unit := assemble circling () (link circling {}).value

lemma build_circling : build circling {} (some ()) = .ok circlingMachine := rfl

lemma circling_unlooped : circlingMachine.chart.Unlooped .empty :=
  Chart.unlooped_of_descends (wellFormed_of_build build_circling).chart
    (fun n => [9, 8, 0, 7, 3, 0, 2, 0, 1, 0].getD n 0) (by decide)

lemma circling_visits :
    ∃ r, circlingMachine.Visits (.ofType "OUT") r ∧
      circlingMachine.isDone r.state.configuration = false ∧ r.microsteps < 2 ∧
      circlingMachine.select r.state (.ofType "OUT") true = .ok [⟨9, 0⟩] ∧
      circlingMachine.chart.Circles (circlingMachine.historyAfter r.state [⟨9, 0⟩])
        [8, 3, 4, 6] := by
  have hrun : ((circlingMachine.initialStepFrom () 1).bind fun start =>
      (circlingMachine.stepWithin start.state (.ofType "GO") 1).bind fun go =>
        (circlingMachine.microstep [⟨1, 0⟩] (.ofType "OUT") (.start go.state)).bind fun r =>
          (circlingMachine.select go.state (.ofType "OUT") false).bind fun first =>
            (circlingMachine.select r.state (.ofType "OUT") true).map fun next =>
              (first, r.microsteps, next, circlingMachine.isDone r.state.configuration,
                decide (circlingMachine.chart.Circles
                  (circlingMachine.historyAfter r.state [⟨9, 0⟩]) [8, 3, 4, 6]))).toOption =
      some ([⟨1, 0⟩], 1, [⟨9, 0⟩], false, true) := by
    decide +kernel
  obtain ⟨start, hstart, hrun⟩ := bind_eq_ok (eq_ok_of_toOption hrun)
  obtain ⟨go, hgo, hrun⟩ := bind_eq_ok hrun
  obtain ⟨r, hr, hrun⟩ := bind_eq_ok hrun
  obtain ⟨first, hfirst, hrun⟩ := bind_eq_ok hrun
  obtain ⟨next, hnext, hrun⟩ := bind_eq_ok hrun
  simp only [Except.ok.injEq, Prod.mk.injEq, decide_eq_true_eq] at hrun
  obtain ⟨rfl, hmicro, rfl, hdone, hcircles⟩ := hrun
  have hagain : circlingMachine.stepWithin { start.state with context := start.state.context }
      (.ofType "GO") 1 = .ok go := hgo
  have hselect : circlingMachine.select { go.state with context := go.state.context }
      (.ofType "OUT") false = .ok [⟨1, 0⟩] := hfirst
  have hvisits : circlingMachine.Visits (.ofType "OUT") r :=
    .first (.step (.start hstart) hagain) hselect (by simp) hr
  exact ⟨r, hvisits, hdone, by omega, hnext, hcircles⟩

theorem circling_never_finishes :
    ¬ ∀ (d : Definition) (b : Behaviors Unit) (context : Option Unit) (m : Machine Unit),
      build d b context = .ok m → m.chart.Unlooped .empty → ∀ limit current r signals,
        m.Visits current r → m.Finishes limit ⟨current, r, [], signals⟩ := by
  intro h
  obtain ⟨r, hr, hdone, hlimit, hnext, hcircles⟩ := circling_visits
  have hends := (h circling {} (some ()) circlingMachine build_circling circling_unlooped 2
    (.ofType "OUT") r [] hr _ .refl).2 _ _ _ hdone hlimit
    (nextEnabled_eventless hnext (by simp))
  obtain ⟨depth, hdepth⟩ := hends.enters
  have hpiece : Piece.enter 8 ∈ [⟨9, 0⟩].flatMap
      (circlingMachine.piecesOf (circlingMachine.historyAfter r.state [⟨9, 0⟩])) :=
    List.mem_flatMap.2 ⟨⟨9, 0⟩, List.mem_singleton_self _, List.mem_append_left _ (by decide)⟩
  have hnone : circlingMachine.entrySet? _ depth _ = none :=
    Chart.foldlM_eq_none hpiece fun s => hcircles.enterWithin? (by decide) depth s
  exact absurd hdepth (by simp [hnone])

end

end Machine

end Statechart
