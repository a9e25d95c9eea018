import Mathlib.Tactic.Common
import Statechart.Interpreter.Clock

/-! Tasks of timers and services. They may take their steps in any order and at any time, also after
what they belong to was cancelled; what virtual time does is a case of this. -/

namespace Statechart

namespace Work

inductive Stirs (w : Work) : List Message → Work → Prop
  | refl : Stirs w [] w
  | post {l : List Message} {w' : Work} {front back : List Task} {t : Task} {message : Message}
      {todo : List TaskStep} (h : Stirs w l w') (ht : w'.tasks = front ++ t :: back)
      (hpost : t.todo = .post message :: todo) :
      Stirs w (l ++ [message]) { w' with
        tasks := front ++ { t with todo } :: back
        mailbox := w'.mailbox ++ [message] }
  | rest {l : List Message} {w' : Work} {front back : List Task} {t : Task} {millis : Nat}
      {todo : List TaskStep} (h : Stirs w l w') (ht : w'.tasks = front ++ t :: back)
      (hsleep : t.todo = .sleep millis :: todo) (due : Option Nat) :
      Stirs w l { w' with tasks := front ++ { t with due, todo } :: back }
  | leave {l : List Message} {w' : Work} {front back : List Task} {t : Task} (h : Stirs w l w')
      (ht : w'.tasks = front ++ t :: back) : Stirs w l { w' with tasks := front ++ back }
  | tick {l : List Message} {w' : Work} (h : Stirs w l w') (now : Nat) :
      Stirs w l { w' with now }

variable {w w' w'' : Work} {l l' : List Message}

lemma Stirs.trans (h : w.Stirs l w') (h' : w'.Stirs l' w'') : w.Stirs (l ++ l') w'' := by
  induction h' with
  | refl => rwa [List.append_nil]
  | post _ ht hpost ih =>
    rw [← List.append_assoc]
    exact ih.post ht hpost
  | rest _ ht hsleep due ih => exact ih.rest ht hsleep due
  | leave _ ht ih => exact ih.leave ht
  | tick _ now ih => exact ih.tick now

lemma stirs_runSteps {front back : List Task} (g now : Nat) (todo : List TaskStep)
    (due : Option Nat) (ht : w.tasks = front ++ ⟨g, due, todo⟩ :: back) :
    w.Stirs (Task.runSteps g now todo).1 { w with
      tasks := front ++ (Task.runSteps g now todo).2.toList ++ back
      mailbox := w.mailbox ++ (Task.runSteps g now todo).1 } := by
  induction todo generalizing w due with
  | nil =>
    have h := (Stirs.refl (w := w)).leave ht
    simpa [Task.runSteps] using h
  | cons step todo ih =>
    cases step with
    | sleep millis =>
      cases millis with
      | zero =>
        have h := (Stirs.refl (w := w)).rest ht rfl due
        have h' := ih (w := { w with tasks := front ++ ⟨g, due, todo⟩ :: back }) due rfl
        exact h.trans h'
      | succ millis =>
        have h := (Stirs.refl (w := w)).rest ht rfl (some (now + (millis + 1)))
        simpa [Task.runSteps] using h
    | post message =>
      have h := (Stirs.refl (w := w)).post ht rfl
      have h' := ih (w := { w with
        tasks := front ++ ⟨g, due, todo⟩ :: back
        mailbox := w.mailbox ++ [message] }) due rfl
      have h'' := h.trans h'
      simpa [Task.runSteps] using h''

lemma stirs_run (front tasks : List Task) (now : Nat) (ready : Task → Bool)
    (ht : w.tasks = front ++ tasks) :
    let runs := tasks.map fun t => if ready t then t.run now else ([], some t)
    w.Stirs (runs.flatMap Prod.fst) { w with
      tasks := front ++ runs.filterMap Prod.snd
      mailbox := w.mailbox ++ runs.flatMap Prod.fst } := by
  induction tasks generalizing w front with
  | nil =>
    have h := Stirs.refl (w := w)
    simpa [← ht] using h
  | cons t tasks ih =>
    by_cases hr : ready t
    · have h : w.Stirs (t.run now).1 { w with
          tasks := front ++ (t.run now).2.toList ++ tasks
          mailbox := w.mailbox ++ (t.run now).1 } :=
        stirs_runSteps t.generation now t.todo t.due ht
      have h' := ih (w := { w with
          tasks := front ++ (t.run now).2.toList ++ tasks
          mailbox := w.mailbox ++ (t.run now).1 }) (front ++ (t.run now).2.toList) rfl
      have h'' := h.trans h'
      cases hrun : (t.run now).2 with
      | none => simpa [hr, hrun] using h''
      | some t' => simpa [hr, hrun] using h''
    · have h' := ih (w := w) (front ++ [t]) (by simpa using ht)
      simpa [hr] using h'

lemma stirs_filter (front tasks : List Task) (p : Task → Bool)
    (ht : w.tasks = front ++ tasks) : w.Stirs [] { w with tasks := front ++ tasks.filter p } := by
  induction tasks generalizing w front with
  | nil =>
    have h := Stirs.refl (w := w)
    simpa [← ht] using h
  | cons t tasks ih =>
    cases hp : p t with
    | true =>
      have h' := ih (w := w) (front ++ [t]) (by simpa using ht)
      simpa [hp] using h'
    | false =>
      have h := (Stirs.refl (w := w)).leave ht
      have h' := h.trans (ih (w := { w with tasks := front ++ tasks }) front rfl)
      simpa [hp] using h'

lemma stirs_runTasks (now : Nat) (ready : Task → Bool) :
    ∃ l, w.Stirs l ({ w with now }.runTasks w.liveTasks ready) := by
  have hlive := stirs_filter (w := w) [] w.tasks w.isLive rfl
  have hrun := stirs_run (w := { w with tasks := w.liveTasks, now }) [] w.liveTasks now ready
    rfl
  exact ⟨_, (hlive.tick now).trans hrun⟩

lemma stirs_advance {deadline : Nat} (h : w.advance? deadline = some w') : ∃ l, w.Stirs l w' := by
  rw [advance?] at h
  split at h
  · obtain rfl := Option.some.inj h
    exact stirs_runTasks w.now _
  · split at h
    · exact absurd h (by simp)
    · split at h
      · obtain rfl := Option.some.inj h
        exact stirs_runTasks _ _
      · exact absurd h (by simp)

lemma stirs_elapseWithin (deadline jumps : Nat) (w : Work) :
    ∃ l, w.Stirs l (elapseWithin deadline jumps w) := by
  induction jumps generalizing w with
  | zero => exact ⟨[], Stirs.refl.tick deadline⟩
  | succ jumps ih =>
    rw [elapseWithin]
    split
    · rename_i w' hadvance
      obtain ⟨l, h⟩ := stirs_advance hadvance
      obtain ⟨l', h'⟩ := ih w'
      exact ⟨l ++ l', h.trans h'⟩
    · exact ⟨[], Stirs.refl.tick deadline⟩

lemma stirs_elapse (w : Work) (millis : Nat) : ∃ l, w.Stirs l (w.elapse millis) := by
  rw [elapse]
  split
  · exact ⟨[], .refl⟩
  · exact stirs_elapseWithin _ _ w

end Work

end Statechart
