import Statechart.Chart.Basic
import Statechart.Event

/-! Work of an interpreter: the timers, services and activities of active states, and the mailbox in
which timers and services leave their messages. -/

namespace Statechart

inductive Origin where
  | timer (node : NodeId) (key : String)
  | completion (service : String)
  | emission (service : String)
  deriving DecidableEq

structure Message where
  event : Event
  origin : Origin
  generation : Nat

abbrev Registrations (κ : Type) := List (κ × Nat)

namespace Registrations

variable {κ : Type} [DecidableEq κ]

def get? (r : Registrations κ) (key : κ) : Option Nat := r.lookup key

def erase (r : Registrations κ) (key : κ) : Registrations κ := r.filter (·.1 ≠ key)

def put (r : Registrations κ) (key : κ) (generation : Nat) : Registrations κ :=
  r.erase key ++ [(key, generation)]

def holds (r : Registrations κ) (generation : Nat) : Bool := r.any (·.2 = generation)

end Registrations

structure RunningActivity where
  node : NodeId
  name : String
  stopped : Value

inductive TaskStep where
  | sleep (millis : Nat)
  | post (message : Message)

structure Task where
  generation : Nat
  due : Option Nat
  todo : List TaskStep

structure Work where
  hasRuntime : Bool
  generation : Nat := 0
  timers : Registrations (NodeId × String) := []
  services : Registrations String := []
  activities : List RunningActivity := []
  mailbox : List Message := []
  now : Nat := 0
  tasks : List Task := []

namespace Work

def begin (w : Work) (todo : Nat → List TaskStep) : Work :=
  let generation := w.generation + 1
  { w with generation, tasks := w.tasks ++ [⟨generation, none, todo generation⟩] }

def startTimer (w : Work) (node : NodeId) (key type : String) (millis : Nat) : Work :=
  if w.hasRuntime then
    let w := w.begin fun g => [.sleep millis, .post ⟨.ofType type, .timer node key, g⟩]
    { w with timers := w.timers.put (node, key) w.generation }
  else w

def stopTimer (w : Work) (node : NodeId) (key : String) : Work :=
  { w with timers := w.timers.erase (node, key) }

def startService (w : Work) (id : String) (todo : Nat → List TaskStep) : Work :=
  if w.hasRuntime then
    let w := w.begin todo
    { w with services := w.services.put id w.generation }
  else w

def stopService (w : Work) (id : String) : Work := { w with services := w.services.erase id }

def activity? (w : Work) (node : NodeId) (name : String) : Option RunningActivity :=
  w.activities.find? fun a => a.node = node ∧ a.name = name

def stopActivity (w : Work) (node : NodeId) (name : String) : Work :=
  { w with activities := w.activities.eraseP fun a => a.node = node ∧ a.name = name }

def startActivity (w : Work) (a : RunningActivity) : Work :=
  { w with activities := w.activities ++ [a] }

def shutdown (w : Work) : Work :=
  { w with timers := [], services := [], activities := [], generation := w.generation + 1 }

def isIdle (w : Work) : Bool := w.timers.isEmpty && w.services.isEmpty

def post (w : Work) (m : Message) : Work := { w with mailbox := w.mailbox ++ [m] }

def isCurrent (w : Work) (m : Message) : Bool :=
  match m.origin with
  | .timer node key => w.timers.get? (node, key) = some m.generation
  | .completion id | .emission id => w.services.get? id = some m.generation

def retire (w : Work) (m : Message) : Work :=
  match m.origin with
  | .timer node key => w.stopTimer node key
  | .completion id => w.stopService id
  | .emission _ => w

def receiveFrom (w : Work) : List Message → Option Message × Work
  | [] => (none, { w with mailbox := [] })
  | m :: rest =>
    if w.isCurrent m then (some m, { w with mailbox := rest }.retire m) else w.receiveFrom rest

def receive (w : Work) : Option Message × Work := w.receiveFrom w.mailbox

end Work

end Statechart
