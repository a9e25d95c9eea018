import Mathlib.Tactic.Common
import Statechart.Proofs.Interpreter.Moves
import Statechart.Proofs.Interpreter.Tables
import Statechart.Proofs.Step.Extent

/-! What an interpreter shows. Its snapshot is one of its present state, which consists of states of
the chart. While it runs there is such a state, and a runtime if the machine needs one. -/

namespace Statechart

lemma foldl_keeps {σ α β : Type} (π : σ → β) {f : σ → α → σ} (hf : ∀ x a, π (f x a) = π x)
    (l : List α) (x : σ) : π (l.foldl f x) = π x := by
  induction l generalizing x with
  | nil => rfl
  | cons a l ih => rw [List.foldl_cons, ih, hf]

namespace Work

variable {w w' : Work} {l : List Message} {C : Type}

lemma startTimer_hasRuntime (w : Work) (n : NodeId) (key type : String) (millis : Nat) :
    (w.startTimer n key type millis).hasRuntime = w.hasRuntime := by
  rw [startTimer]
  split <;> rfl

lemma startService_hasRuntime (w : Work) (id : String) (todo : Nat → List TaskStep) :
    (w.startService id todo).hasRuntime = w.hasRuntime := by
  rw [startService]
  split <;> rfl

lemma relieve_keeps {β : Type} (π : Work → β) (ht : ∀ w n key, π (stopTimer w n key) = π w)
    (ha : ∀ w n name, π (stopActivity w n name) = π w) (hs : ∀ w id, π (stopService w id) = π w)
    (w : Work) (n : NodeId) (p : Parts C) : π (w.relieve n p) = π w := by
  refine (foldl_keeps π ?_ _ _).trans ((foldl_keeps π ?_ _ _).trans (foldl_keeps π ?_ _ _))
  · exact fun w v => hs w v.id
  · exact fun w a => ha w n a.name
  · exact fun w d => ht w n d.key

lemma relieve_hasRuntime (w : Work) (n : NodeId) (p : Parts C) :
    (w.relieve n p).hasRuntime = w.hasRuntime :=
  relieve_keeps hasRuntime (fun _ _ _ => rfl) (fun _ _ _ => rfl) (fun _ _ => rfl) w n p

lemma relieve_generation (w : Work) (n : NodeId) (p : Parts C) :
    (w.relieve n p).generation = w.generation :=
  relieve_keeps generation (fun _ _ _ => rfl) (fun _ _ _ => rfl) (fun _ _ => rfl) w n p

lemma employ_hasRuntime (w : Work) (n : NodeId) (p : Parts C) (context : C) (event : Event) :
    (w.employ n p context event).hasRuntime = w.hasRuntime := by
  refine (foldl_keeps hasRuntime ?_ _ _).trans
    ((foldl_keeps hasRuntime ?_ _ _).trans (foldl_keeps hasRuntime ?_ _ _))
  · exact fun w v => startService_hasRuntime w _ _
  · exact fun _ _ => rfl
  · exact fun w d => startTimer_hasRuntime w _ _ _ _

lemma retire_hasRuntime (w : Work) (message : Message) :
    (w.retire message).hasRuntime = w.hasRuntime := by
  rw [retire]
  split <;> rfl

lemma Stirs.hasRuntime (h : w.Stirs l w') : w'.hasRuntime = w.hasRuntime := by
  induction h with
  | refl => rfl
  | post _ _ _ ih => exact ih
  | rest _ _ _ _ ih => exact ih
  | leave _ _ ih => exact ih
  | tick _ _ ih => exact ih

end Work

namespace Interpreter

variable {C : Type} {m : Machine C} {i i' : Interpreter C}

lemma stopWork_hasRuntime (i : Interpreter C) (n : NodeId) :
    (i.stopWork n).work.hasRuntime = i.work.hasRuntime := by
  rw [stopWork_work, Work.relieve_hasRuntime]

lemma startWork_hasRuntime (event : Event) (i : Interpreter C) (n : NodeId) :
    (startWork event i n).work.hasRuntime = i.work.hasRuntime := by
  cases hs : i.state with
  | none => simp only [startWork, hs]
  | some s => rw [startWork_work event n hs, Work.employ_hasRuntime]

lemma trade_hasRuntime (i : Interpreter C) (step : Step C) (sends : List Event) :
    (i.trade step sends).work.hasRuntime = i.work.hasRuntime := by
  let π : Interpreter C → Bool := fun i => i.work.hasRuntime
  have hstart := foldl_keeps π (startWork_hasRuntime step.event) step.entered
  have hstop := foldl_keeps π stopWork_hasRuntime step.exited i
  exact (hstart _).trans hstop

lemma stop_keeps (i : Interpreter C) :
    i.stop.machine = i.machine ∧ i.stop.state = i.state ∧ i.stop.snapshot = i.snapshot ∧
      i.stop.status = .stopped := by
  rw [stop]
  split
  · rename_i hst
    exact ⟨rfl, rfl, rfl, hst⟩
  · exact ⟨rfl, rfl, rfl, rfl⟩
  · obtain ⟨trace, hl⟩ := leave_eq ({ i with status := .stopped } : Interpreter C).shutdown
    rw [hl]
    exact ⟨rfl, rfl, rfl, rfl⟩

structure Shows (m : Machine C) (i : Interpreter C) : Prop where
  machine : i.machine = m
  absent : i.state = none → i.snapshot = none
  present : ∀ s, i.state = some s → m.Covers s ∧
    ∃ event changed actions output, i.snapshot = some (m.snapshot s event changed actions output)
  running : i.status = .running → i.state ≠ none
  runtime : i.status = .running → m.needsRuntime → i.work.hasRuntime

lemma Shows.state (h : Shows m i) (hr : i.status = .running) :
    ∃ s, i.state = some s ∧ m.Covers s ∧ ∃ event changed actions output,
      i.snapshot = some (m.snapshot s event changed actions output) := by
  obtain ⟨s, hs⟩ := Option.ne_none_iff_exists'.1 (h.running hr)
  exact ⟨s, hs, h.present s hs⟩

lemma Shows.snapshot (h : Shows m i) (hr : i.status = .running) : i.snapshot ≠ none := by
  obtain ⟨_, _, _, _, _, _, _, hsn⟩ := h.state hr
  rw [hsn]
  exact Option.some_ne_none _

lemma Shows.of_eq (h : Shows m i) (hm : i'.machine = i.machine) (hst : i'.status = i.status)
    (hs : i'.state = i.state) (hsn : i'.snapshot = i.snapshot)
    (hw : i'.work.hasRuntime = i.work.hasRuntime) : Shows m i' := by
  refine ⟨hm.trans h.machine, ?_, ?_, ?_, ?_⟩
  · rw [hs, hsn]
    exact h.absent
  · rw [hs, hsn]
    exact h.present
  · rw [hst, hs]
    exact h.running
  · rw [hst, hw]
    exact h.runtime

lemma Shows.of_not_running (h : Shows m i) (hm : i'.machine = i.machine)
    (hs : i'.state = i.state) (hsn : i'.snapshot = i.snapshot) (hr : i'.status ≠ .running) :
    Shows m i' := by
  refine ⟨hm.trans h.machine, ?_, ?_, fun hr' => absurd hr' hr, fun hr' => absurd hr' hr⟩
  · rw [hs, hsn]
    exact h.absent
  · rw [hs, hsn]
    exact h.present

lemma Shows.observe (h : Shows m i) (l : List (Observation C)) : Shows m (i.observe l) :=
  h.of_eq rfl rfl rfl rfl rfl

lemma Shows.stop (h : Shows m i) : Shows m i.stop := by
  obtain ⟨hm, hs, hsn, hst⟩ := stop_keeps i
  exact h.of_not_running hm hs hsn (by simp [hst])

lemma shows_of_state {s : MachineState C} (hm : i.machine = m) (hs : i.state = some s)
    (hc : m.Covers s)
    (hsn : ∃ event changed actions output,
      i.snapshot = some (m.snapshot s event changed actions output))
    (hw : m.needsRuntime → i.work.hasRuntime) : Shows m i := by
  refine ⟨hm, fun h => ?_, fun s' hs' => ?_, fun _ => ?_, fun _ => hw⟩
  · exact absurd (hs.symm.trans h) (Option.some_ne_none s)
  · obtain rfl := Option.some.inj (hs.symm.trans hs')
    exact ⟨hc, hsn⟩
  · rw [hs]
    exact Option.some_ne_none s

lemma Shows.adopt {step : Step C} (sends : List Event) (hm : i.machine = m)
    (hc : m.Covers step.state) (hw : m.needsRuntime → i.work.hasRuntime) :
    Shows m (i.adopt step sends) := by
  have hb := busies_trade i step sends
  have hmachine : (i.trade step sends).machine = m := by rw [hb]; exact hm
  have hstate : (i.trade step sends).state = some step.state := by rw [hb]; rfl
  have hshows : Shows m ((i.trade step sends).display step (i.logged step)) := by
    refine shows_of_state hmachine hstate hc ?_ fun hn => ?_
    · refine ⟨step.event, step.changed, step.executed, step.output, ?_⟩
      rw [← hmachine]
      rfl
    · exact (trade_hasRuntime i step sends).trans (hw hn)
  rw [adopt_eq]
  split
  · exact hshows.stop
  · exact hshows

variable (hm : m.WellFormed) (hd : m.chart.Closed)

include hm hd

lemma Shows.process (h : Shows m i) (hr : i.status = .running) (event : Event) :
    Shows m (i.process event).1 := by
  obtain ⟨s, hs, hc, _⟩ := h.state hr
  have hmachine := h.machine
  rcases process_cases hs event with ⟨e, notes, _, hp⟩ | hp | ⟨step, notes, sends, hstep, hp⟩
  · rw [hp]
    exact (h.observe notes).observe _
  · rw [hp]
    exact h.of_eq rfl rfl rfl rfl rfl
  · rw [hp]
    rw [hmachine] at hstep
    exact Shows.adopt (i := i.observe notes) sends hmachine (hc.stepWithin hm hd hstep)
      (h.runtime hr)

lemma Shows.enterInitial (h : Shows m i) (hw : m.needsRuntime → i.work.hasRuntime) :
    Shows m i.enterInitial.1 := by
  have hmachine := h.machine
  rw [Interpreter.enterInitial]
  cases hstep : i.machine.initialStepFrom i.machine.context i.settings.maxMicrosteps with
  | error e => exact h.observe _
  | ok step =>
    let j : Interpreter C := { i with status := .running, metadata := .startingAt i.date }
    rcases commit_cases j step with ⟨hc, _⟩ | ⟨notes, _, ⟨e, hc⟩ | ⟨sends, hc⟩⟩
    · obtain ⟨r, r', _, _, rfl⟩ := Machine.initialStepFrom_cases hstep
      exact absurd hc (by simp [Machine.finish])
    · simp only [j] at hc
      simp only [hc]
      exact h.of_not_running rfl rfl rfl (by simp [report, Interpreter.observe])
    · simp only [j] at hc
      simp only [hc]
      rw [hmachine] at hstep
      exact Shows.adopt (i := j.observe notes) sends hmachine
        (Machine.covers_initialStepFrom hm hd hstep) hw

lemma Shows.move {l : List Occurrence} (h : Shows m i) (hmove : Move i l i') : Shows m i' := by
  cases hmove with
  | @process event rest hr hq =>
    have hrest : Shows m { i with queue := rest } := h.of_eq rfl rfl rfl rfl rfl
    exact hrest.process hm hd hr event
  | enter _ hw => exact h.enterInitial hm hd (h.machine ▸ hw)
  | take hr hq =>
    rw [take]
    split
    · exact h.of_eq rfl rfl rfl rfl (Work.retire_hasRuntime _ _)
    · exact h.of_eq rfl rfl rfl rfl rfl
  | stir hstir => exact h.of_eq rfl rfl rfl rfl hstir.hasRuntime
  | enqueue events => exact h.of_eq rfl rfl rfl rfl rfl
  | aside haside =>
    rw [Aside] at haside
    rw [haside]
    exact h.of_eq rfl rfl rfl rfl rfl
  | stop => exact h.stop

lemma Shows.leads (h : Shows m i) (hl : Leads i i') : Shows m i' := by
  obtain ⟨l, hl⟩ := hl
  induction hl with
  | refl => exact h
  | tail _ hmove ih => exact ih.move hm hd hmove

end Interpreter

end Statechart
