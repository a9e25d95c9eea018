import Statechart.Interpreter.Work

/-! Virtual time. While an interpreter waits, tasks that have not begun run first, in the order they
were started; then time jumps to the moment at which the next one is due. -/

namespace Statechart

namespace Task

def runSteps (generation now : Nat) : List TaskStep → List Message × Option Task
  | [] => ([], none)
  | .sleep 0 :: rest => runSteps generation now rest
  | .sleep (n + 1) :: rest => ([], some ⟨generation, some (now + (n + 1)), rest⟩)
  | .post m :: rest =>
    let (messages, task) := runSteps generation now rest
    (m :: messages, task)

def run (t : Task) (now : Nat) : List Message × Option Task := runSteps t.generation now t.todo

end Task

inductive Arrival where
  | message (m : Message)
  | nothing
  | overdue

namespace Work

def isLive (w : Work) (t : Task) : Bool :=
  w.timers.holds t.generation || w.services.holds t.generation

def liveTasks (w : Work) : List Task := w.tasks.filter w.isLive

def runTasks (w : Work) (tasks : List Task) (ready : Task → Bool) : Work :=
  let runs := tasks.map fun t => if ready t then t.run w.now else ([], some t)
  { w with
    mailbox := w.mailbox ++ runs.flatMap Prod.fst
    tasks := runs.filterMap Prod.snd }

def advance? (w : Work) (deadline : Nat) : Option Work :=
  let tasks := w.liveTasks
  if tasks.any (·.due.isNone) then some (w.runTasks tasks (·.due.isNone))
  else match (tasks.filterMap Task.due).min? with
    | none => none
    | some due =>
      if due ≤ deadline then some ({ w with now := due }.runTasks tasks (·.due = some due))
      else none

def jumps (w : Work) : Nat := w.tasks.foldl (fun n t => n + (t.todo.length + 1)) 0

def elapseWithin (deadline : Nat) : Nat → Work → Work
  | 0, w => { w with now := deadline }
  | jumps + 1, w =>
    match w.advance? deadline with
    | some w => elapseWithin deadline jumps w
    | none => { w with now := deadline }

def elapse (w : Work) (millis : Nat) : Work :=
  if millis = 0 then w else elapseWithin (w.now + millis) w.jumps w

def awaitWithin (deadline : Nat) : Nat → Work → Arrival × Work
  | jumps, w =>
    match w.receive with
    | (some m, w) => (.message m, w)
    | (none, w) =>
      if w.isIdle then (.nothing, w)
      else match jumps, w.advance? deadline with
        | jumps + 1, some w => awaitWithin deadline jumps w
        | _, _ => (.overdue, { w with now := deadline })

def await (w : Work) (deadline : Nat) : Arrival × Work := awaitWithin deadline w.jumps w

end Work

end Statechart
