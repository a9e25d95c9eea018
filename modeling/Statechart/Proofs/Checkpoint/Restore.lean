import Mathlib.Tactic.Common
import Statechart.Proofs.Interpreter.Shown
import Statechart.Proofs.Snapshot

/-! Checkpoints of reached interpreters. What a checkpoint records is the state it was taken of, so
that it is accepted and leads back to that state. -/

namespace Statechart

namespace Checkpoint

variable {C : Type} {c : Checkpoint C} {m : Machine C} {s : MachineState C}

lemma coversMemory_recalled (hpos : 0 < m.chart.size) : m.chart.CoversMemory (c.recalled m) := by
  rw [recalled]
  suffices ∀ memory, m.chart.CoversMemory memory →
      m.chart.CoversMemory (c.history.entries.foldl (fun memory e =>
        memory.insert ((m.chart.find? e.1).getD rootId) (e.2.filterMap m.chart.find?)) memory) from
    this .empty Chart.coversMemory_empty
  induction c.history.entries with
  | nil => exact fun _ hm => hm
  | cons e l ih =>
    intro memory hm
    apply ih
    apply hm.insert
    · cases hf : m.chart.find? e.1 with
      | none => exact hpos
      | some n => exact Chart.find?_size hf
    · intro n hn
      obtain ⟨id, _, hid⟩ := List.mem_filterMap.1 hn
      exact Chart.find?_size hid

structure Of (c : Checkpoint C) (m : Machine C) (s : MachineState C) : Prop where
  version : c.version = supportedVersion
  machine : c.machineId = m.id ∧ c.machineVersion = m.version
  configuration : c.configuration = m.chart.idsOf s.configuration.elems
  context : c.context = s.context
  history : c.history = m.historyById s.history

namespace Of

variable (h : c.Of m s) (hi : m.chart.IdsDistinct) (hc : m.Covers s)

include h hi hc

lemma recorded_eq : c.recorded m = s.configuration := by
  rw [recorded, h.configuration, Machine.ofList_idsOf hi hc.configuration]

lemma recalled_eq : c.recalled m = s.history := by
  rw [recalled, h.history, Machine.recall_historyById hi hc.history]

lemma known : Known m c.mentioned := by
  intro id hid
  rw [mentioned, List.mem_append] at hid
  cases hid with
  | inl hid =>
    rw [h.configuration] at hid
    exact Machine.known_idsOf hi hc.configuration id hid
  | inr hid =>
    obtain ⟨e, he, hid⟩ := List.mem_flatMap.1 hid
    rw [h.history] at he
    exact Machine.known_historyById hi hc.history he id hid

lemma machineState_eq : c.machineState m = .ok s := by
  rw [machineState_eq_ok (known h hi hc), recorded_eq h hi hc, recalled_eq h hi hc, h.context]

lemma validate_eq (hw : m.chart.WellFormed) (hs : m.chart.Consistent s.configuration) :
    c.validate m = .ok () := by
  have hknown := known h hi hc
  have hrecorded := recorded_eq h hi hc
  have hfull := (Chart.full_iff_consistent hw.toIsTree hc.configuration).2 hs
  refine validate_eq_ok_iff.2 ⟨h.version, h.machine, idFlaws_eq_nil.2 ⟨?_, hknown⟩, ?_⟩
  · apply configuration_ne_nil (m := m)
    rw [hrecorded]
    exact hs.root
  · rw [checkConsistent_eq_ok_iff hknown, hrecorded]
    exact hfull.resolve_eq_self hw .empty

end Of

end Checkpoint

namespace Interpreter

variable {C : Type} {m : Machine C} {i i' : Interpreter C}

lemma shows_create (settings : Settings) (hasRuntime : Bool) (date : Timestamp) :
    Shows m (create m settings hasRuntime date) := by
  have hr : (create m settings hasRuntime date).status ≠ .running :=
    show Status.notStarted ≠ .running by decide
  refine ⟨rfl, fun _ => rfl, fun s hs => ?_, fun hr' => absurd hr' hr, fun hr' => absurd hr' hr⟩
  exact absurd hs (Option.some_ne_none s).symm

lemma mapError_eq_ok {ε ε' α : Type} {x : Except ε α} {f : ε → ε'} {a : α}
    (h : x.mapError f = .ok a) : x = .ok a := by
  cases x with
  | error e => exact absurd h (by simp [Except.mapError])
  | ok b => exact congrArg Except.ok (Except.ok.inj h)

lemma restore_eq_ok {c : Checkpoint C} {settings : Settings} {hasRuntime : Bool}
    {date : Timestamp} (h : restore m c settings hasRuntime date = .ok i) :
    c.validate m = .ok () ∧ (m.needsRuntime → hasRuntime) ∧
      ∃ s, c.machineState m = .ok s ∧ i = (create m settings hasRuntime date).resume c s := by
  obtain ⟨_, hvalid, h⟩ := bind_eq_ok h
  split at h
  · exact absurd h (by simp [throw, throwThe, MonadExceptOf.throw, bind, Except.bind])
  · rename_i hw
    obtain ⟨s, hs, h⟩ := bind_eq_ok h
    refine ⟨mapError_eq_ok hvalid, ?_, s, mapError_eq_ok hs, (Except.ok.inj h).symm⟩
    simpa using hw

def reinstate (i : Interpreter C) (c : Checkpoint C) (s : MachineState C) : Interpreter C :=
  { i with
    state := some s
    snapshot := some (i.machine.snapshot s (.ofType c.event) false [] none)
    transitions := c.transitions
    metadata := c.metadata
    status := .running }

def rework (i : Interpreter C) (c : Checkpoint C) (s : MachineState C) : Interpreter C :=
  s.configuration.elems.foldl (startWork (.ofType c.event)) (i.reinstate c s)

lemma resume_eq (c : Checkpoint C) (s : MachineState C) :
    i.resume c s =
      if i.machine.isDone s.configuration then (i.rework c s).stop else i.rework c s := rfl

lemma busies_rework (c : Checkpoint C) (s : MachineState C) :
    Busies (i.reinstate c s) (i.rework c s) :=
  busies_foldl (busies_startWork _) _ _

lemma rework_hasRuntime (c : Checkpoint C) (s : MachineState C) :
    (i.rework c s).work.hasRuntime = i.work.hasRuntime :=
  foldl_keeps (fun i : Interpreter C => i.work.hasRuntime) (startWork_hasRuntime _) _ _

lemma Shows.restore (hpos : 0 < m.chart.size) {c : Checkpoint C} {settings : Settings}
    {hasRuntime : Bool} {date : Timestamp} (h : restore m c settings hasRuntime date = .ok i) :
    Shows m i := by
  obtain ⟨hvalid, hw, s, hs, rfl⟩ := restore_eq_ok h
  have hknown := (Checkpoint.idFlaws_eq_nil.1 (Checkpoint.validate_eq_ok_iff.1 hvalid).2.2.1).2
  rw [Checkpoint.machineState_eq_ok hknown] at hs
  obtain rfl := Except.ok.inj hs
  let j := create m settings hasRuntime date
  have hb : Busies (j.reinstate c ⟨c.recorded m, c.context, c.recalled m⟩)
      (j.rework c ⟨c.recorded m, c.context, c.recalled m⟩) := busies_rework c _
  have hshows : Shows m (j.rework c ⟨c.recorded m, c.context, c.recalled m⟩) := by
    refine shows_of_state (s := ⟨c.recorded m, c.context, c.recalled m⟩) ?_ ?_ ⟨?_, ?_⟩ ?_
      fun hn => ?_
    · rw [hb]; rfl
    · rw [hb]; rfl
    · exact fun n hn => Checkpoint.recorded_lt hn
    · exact Checkpoint.coversMemory_recalled hpos
    · rw [hb]; exact ⟨_, _, _, _, rfl⟩
    · exact (rework_hasRuntime c _).trans (hw hn)
  rw [resume_eq]
  split
  · exact hshows.stop
  · exact hshows

lemma rested_of_aside (h : Aside i i') (hr : i.Rested) : i'.Rested := by
  rw [Aside] at h
  rw [h]
  exact hr

lemma rested_resume (c : Checkpoint C) (s : MachineState C) (hr : i.queue = []) :
    (i.resume c s).Rested := by
  have hb := busies_rework (i := i) c s
  have hq : (i.rework c s).queue = [] := by rw [hb]; exact hr
  rw [resume_eq]
  split
  · exact stop_rested fun _ => hq
  · exact fun _ => hq

lemma Reaches.shows (hm : m.WellFormed) (hd : m.chart.Closed) (h : Reaches m i) :
    Shows m i ∧ i.Rested := by
  have haside : ∀ {i i' : Interpreter C}, Aside i i' → Shows m i ∧ i.Rested →
      Shows m i' ∧ i'.Rested :=
    fun ha hi => ⟨hi.1.move hm hd (.aside ha), rested_of_aside ha hi.2⟩
  have hcall : ∀ {i i' : Interpreter C}, Leads i i' ∧ (i.Rested → i'.Rested) →
      Shows m i ∧ i.Rested → Shows m i' ∧ i'.Rested :=
    fun hl hi => ⟨hi.1.leads hm hd hl.1, hl.2 hi.2⟩
  induction h with
  | create settings hasRuntime date => exact ⟨shows_create _ _ _, fun _ => rfl⟩
  | restore h =>
    refine ⟨.restore hm.chart.size_pos h, ?_⟩
    obtain ⟨_, _, s, _, rfl⟩ := restore_eq_ok h
    exact rested_resume _ s rfl
  | start _ h ih => exact hcall (start_leads ih.1.snapshot h) ih
  | send _ h ih => exact hcall (send_leads h) ih
  | processMailbox _ h ih =>
    obtain ⟨hl, hr, _⟩ := processMailbox_leads h
    exact hcall ⟨hl, hr⟩ ih
  | runNext _ h ih => exact hcall (runNext_leads h) ih
  | stop _ ih => exact ⟨ih.1.stop, stop_rested ih.2⟩
  | post _ message ih => exact ⟨ih.1.of_eq rfl rfl rfl rfl rfl, ih.2⟩
  | elapse _ millis ih =>
    obtain ⟨l, hl⟩ := Work.stirs_elapse _ millis
    exact ⟨ih.1.move hm hd (.stir hl), ih.2⟩
  | date _ date ih => exact haside rfl ih
  | @subscribe i _ ih => exact haside (i := i) rfl ih
  | subscribeToErrors _ ih => exact haside rfl ih
  | unsubscribe _ n ih => exact haside rfl ih

lemma checkpoint_eq_ok {s : MachineState C} {x : Snapshot C} (hm : i.machine = m)
    (hs : i.state = some s) (hsn : i.snapshot = some x) (hx : x.history = m.historyById s.history)
    (id : String) :
    ∃ c, i.checkpoint id = .ok c ∧ c.Of m s ∧ c.event = x.event.type ∧
      c.transitions = i.transitions ∧ c.metadata = i.metadata := by
  subst hm
  refine ⟨_, by rw [checkpoint, hs, hsn], ?_, rfl, rfl, rfl⟩
  exact ⟨rfl, ⟨rfl, rfl⟩, rfl, rfl, hx⟩

end Interpreter

end Statechart
