import Mathlib.Tactic.Common
import Statechart.Interpreter.Resume
import Statechart.Interpreter.Run

/-! Calls of an interpreter: what can be reached from a new or restored one by any sequence of
calls, which may succeed or fail, while time passes and messages are left. -/

namespace Statechart.Interpreter

variable {C : Type}

inductive Reaches (m : Machine C) : Interpreter C → Prop
  | create (settings : Settings) (hasRuntime : Bool) (date : Timestamp) :
      Reaches m (create m settings hasRuntime date)
  | restore {c : Checkpoint C} {settings : Settings} {hasRuntime : Bool} {date : Timestamp}
      {i : Interpreter C} (h : restore m c settings hasRuntime date = .ok i) : Reaches m i
  | start {i i' : Interpreter C} {fuel : Nat} {r : Except InterpreterError (Snapshot C)}
      (hi : Reaches m i) (h : i.start fuel = some (i', r)) : Reaches m i'
  | send {i i' : Interpreter C} {fuel : Nat} {event : Event} {e : Option InterpreterError}
      (hi : Reaches m i) (h : i.send fuel event = some (i', e)) : Reaches m i'
  | processMailbox {i i' : Interpreter C} {fuel : Nat} {r : Except InterpreterError Nat}
      (hi : Reaches m i) (h : i.processMailbox fuel = some (i', r)) : Reaches m i'
  | runNext {i i' : Interpreter C} {fuel deadline : Nat} {next : Next}
      (hi : Reaches m i) (h : i.runNext fuel deadline = some (i', next)) : Reaches m i'
  | stop {i : Interpreter C} (hi : Reaches m i) : Reaches m i.stop
  | post {i : Interpreter C} (hi : Reaches m i) (message : Message) : Reaches m (i.post message)
  | elapse {i : Interpreter C} (hi : Reaches m i) (millis : Nat) : Reaches m (i.elapse millis)
  | date {i : Interpreter C} (hi : Reaches m i) (date : Timestamp) : Reaches m { i with date }
  | subscribe {i : Interpreter C} (hi : Reaches m i) : Reaches m i.subscribe.2
  | subscribeToErrors {i : Interpreter C} (hi : Reaches m i) : Reaches m i.subscribeToErrors.2
  | unsubscribe {i : Interpreter C} (hi : Reaches m i) (n : Subscription) :
      Reaches m (i.unsubscribe n).2

variable {m : Machine C} {i i' : Interpreter C}

lemma runMessages_induction {P : Interpreter C → Prop} {fuel deadline left : Nat} {next : Next}
    (hP : ∀ j j' next, P j → j.runNext fuel deadline = some (j', next) → P j') (hi : P i)
    (h : i.runMessages fuel deadline left = some (i', next)) : P i' := by
  induction left generalizing i with
  | zero =>
    rw [Interpreter.runMessages] at h
    obtain ⟨⟨j, next'⟩, hj, h⟩ := Option.bind_eq_some_iff.1 h
    have hr : P j := hP i j next' hi hj
    rcases next' with (_ | e) | _ | _
    · exact absurd h (by simp)
    all_goals
      obtain ⟨rfl, rfl⟩ := Prod.mk.inj (Option.some.inj h)
      exact hr
  | succ left ih =>
    rw [Interpreter.runMessages] at h
    obtain ⟨⟨j, next'⟩, hj, h⟩ := Option.bind_eq_some_iff.1 h
    have hr : P j := hP i j next' hi hj
    rcases next' with (_ | e) | _ | _
    · exact ih hr h
    all_goals
      obtain ⟨rfl, rfl⟩ := Prod.mk.inj (Option.some.inj h)
      exact hr

lemma Reaches.runUntilDone {fuel deadline : Nat} {next : Next} (hi : Reaches m i)
    (h : i.runUntilDone fuel deadline = some (i', next)) : Reaches m i' :=
  runMessages_induction (fun _ _ _ hj h => hj.runNext h) hi h

end Statechart.Interpreter
