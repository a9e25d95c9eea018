import Mathlib.Tactic.Common
import Statechart.Proofs.Checkpoint.Restore
import Statechart.Proofs.Interpreter.Turns

/-! Histories: what an interpreter has been asked for since it was created or restored, and all that
was done for it, whatever happened between the calls. -/

namespace Statechart

namespace Request

open Interpreter

variable {C : Type} {i i' : Interpreter C} {r : Request} {e : Option InterpreterError} {fuel : Nat}

lemma run_keeps {P : Interpreter C → Prop} (hi : P i)
    (hstart : ∀ {result}, i.start fuel = some (i', result) → P i')
    (hsend : ∀ {event}, i.send fuel event = some (i', e) → P i')
    (hmailbox : ∀ {result}, i.processMailbox fuel = some (i', result) → P i')
    (hnext : ∀ {j j' deadline next}, P j → j.runNext fuel deadline = some (j', next) → P j')
    (hstop : P i.stop) (h : r.run fuel i = some (i', e)) : P i' := by
  cases r with
  | start =>
    obtain ⟨⟨k, result⟩, hk, h⟩ := Option.map_eq_some_iff.1 h
    obtain ⟨rfl, rfl⟩ := Prod.mk.inj h
    exact hstart hk
  | send event => exact hsend h
  | processMailbox =>
    obtain ⟨⟨k, result⟩, hk, h⟩ := Option.map_eq_some_iff.1 h
    obtain ⟨rfl, rfl⟩ := Prod.mk.inj h
    exact hmailbox hk
  | runNext deadline =>
    obtain ⟨⟨k, next⟩, hk, h⟩ := Option.map_eq_some_iff.1 h
    obtain ⟨rfl, rfl⟩ := Prod.mk.inj h
    exact hnext hi hk
  | runUntilDone deadline =>
    obtain ⟨⟨k, next⟩, hk, h⟩ := Option.map_eq_some_iff.1 h
    obtain ⟨rfl, rfl⟩ := Prod.mk.inj h
    exact runMessages_induction (fun _ _ _ hj h => hnext hj h) hi hk
  | stop =>
    obtain ⟨rfl, rfl⟩ := Prod.mk.inj (Option.some.inj h)
    exact hstop

lemma run_rested (hi : i.InPhase) (h : r.run fuel i = some (i', e)) (hrest : i.Rested) :
    i'.Rested := by
  have hshown : i.status = .running → i.snapshot ≠ none := by
    intro hr
    obtain ⟨_, x, _, hx, _⟩ := hi.running hr
    simp [hx]
  exact run_keeps hrest (fun h => (start_leads hshown h).2 hrest) (fun h => (send_leads h).2 hrest)
    (fun h => (processMailbox_leads h).2.1 hrest) (fun hj h => (runNext_leads h).2 hj)
    (stop_rested hrest) h

lemma run_reaches {m : Machine C} (hi : Reaches m i) (h : r.run fuel i = some (i', e)) :
    Reaches m i' :=
  run_keeps hi hi.start hi.send hi.processMailbox Reaches.runNext hi.stop h

lemma run_tidy {m : Machine C} (hi : Tidy m i) (h : r.run fuel i = some (i', e)) : Tidy m i' :=
  run_keeps hi hi.start hi.send hi.processMailbox Tidy.runNext hi.stop h

end Request

namespace Interpreter

variable {C : Type} {m : Machine C} {i i' : Interpreter C} {past : List (JournalEntry C)}

inductive Meanwhile (i : Interpreter C) : Interpreter C → Prop
  | post (message : Message) : Meanwhile i (i.post message)
  | elapse (millis : Nat) : Meanwhile i (i.elapse millis)
  | date (date : Timestamp) : Meanwhile i { i with date }
  | subscribe : Meanwhile i i.subscribe.2
  | subscribeToErrors : Meanwhile i i.subscribeToErrors.2
  | unsubscribe (n : Subscription) : Meanwhile i (i.unsubscribe n).2

inductive History (m : Machine C) : Interpreter C → List (JournalEntry C) → Prop
  | create (settings : Settings) (hasRuntime : Bool) (date : Timestamp) :
      History m (create m settings hasRuntime date) []
  | restore {c : Checkpoint C} {settings : Settings} {hasRuntime : Bool} {date : Timestamp}
      {i : Interpreter C} (h : restore m c settings hasRuntime date = .ok i) : History m i []
  | call {i i' : Interpreter C} {past : List (JournalEntry C)} {r : Request} {fuel : Nat}
      {e : Option InterpreterError} (h : History m i past) (hr : r.run fuel i = some (i', e)) :
      History m i' (past ++ r.journal fuel i)
  | meanwhile {i i' : Interpreter C} {past : List (JournalEntry C)} (h : History m i past)
      (hi : Meanwhile i i') : History m i' past

lemma Meanwhile.eq (h : Meanwhile i i') : i' = { i with
    work := i'.work
    listeners := i'.listeners
    errorListeners := i'.errorListeners
    subscriptions := i'.subscriptions
    date := i'.date
    trace := i'.trace } := by
  cases h <;> rfl

lemma Meanwhile.inPhase (h : Meanwhile i i') (hi : i.InPhase) : i'.InPhase := by
  rw [h.eq]
  exact hi.of_eq rfl rfl rfl fun _ => rfl

lemma inPhase_create (settings : Settings) (hasRuntime : Bool) (date : Timestamp) :
    (create m settings hasRuntime date).InPhase :=
  ⟨fun _ => ⟨rfl, rfl, rfl⟩, fun hr => absurd hr (by simp [create])⟩

lemma inPhase_resume (c : Checkpoint C) (s : MachineState C) : (i.resume c s).InPhase := by
  have hb := busies_rework (i := i) c s
  rw [resume_eq]
  cases hd : i.machine.isDone s.configuration with
  | true => exact inPhase_of_stopped (stop_keeps _).2.2.2
  | false =>
    rw [if_neg Bool.false_ne_true, hb]
    exact ⟨fun hs => absurd hs (by simp [reinstate]), fun _ => ⟨s, _, rfl, rfl, hd⟩⟩

lemma History.inPhase (h : History m i past) : i.InPhase := by
  induction h with
  | create settings hasRuntime date => exact inPhase_create settings hasRuntime date
  | restore h =>
    obtain ⟨_, _, s, _, rfl⟩ := restore_eq_ok h
    exact inPhase_resume _ s
  | call _ hr ih => exact (Request.run_turns ih hr).1.inPhase ih
  | meanwhile _ hi ih => exact hi.inPhase ih

lemma History.reaches (h : History m i past) : Reaches m i := by
  induction h with
  | create settings hasRuntime date => exact .create settings hasRuntime date
  | restore h => exact .restore h
  | call _ hr ih => exact Request.run_reaches ih hr
  | meanwhile _ hi ih =>
    cases hi with
    | post message => exact ih.post message
    | elapse millis => exact ih.elapse millis
    | date date => exact ih.date date
    | subscribe => exact ih.subscribe
    | subscribeToErrors => exact ih.subscribeToErrors
    | unsubscribe n => exact ih.unsubscribe n

lemma Meanwhile.tidy (hi : Tidy m i) (h : Meanwhile i i') : Tidy m i' := by
  cases h with
  | post message => exact hi.work (.of_eq rfl rfl rfl)
  | elapse millis => exact hi.work (Work.shrinks_elapse _ millis)
  | _ => exact hi.of_eq rfl rfl rfl rfl (.refl _)

lemma History.tidy (h : History m i past) : Tidy m i := by
  induction h with
  | create settings hasRuntime date => exact .create settings hasRuntime date
  | restore h => exact .restore h
  | call _ hr ih => exact Request.run_tidy ih hr
  | meanwhile _ hi ih => exact hi.tidy ih

end Interpreter

end Statechart
