import Statechart.Behavior

/-! Scripts: behaviours over free-form contexts that are described by data. -/

namespace Statechart

namespace Value

def int64? (v : Value) (key : String) : Option Int :=
  ((v.get? key).bind int?).filter fun i =>
    -(Nat.pow 2 63 : Int) ≤ i && i < Nat.pow 2 63

def getOrNull (v : Value) (key : String) : Value := (v.get? key).getD null

end Value

def wrap64 (i : Int) : Int := i.bmod (Nat.pow 2 64)

def Event.toValue (e : Event) : Value := .ofJson e.toJson

namespace Script

inductive Test where
  | always (answer : Bool)
  | type (type : String)
  | data (value : Value)
  | atLeast (key : String) (bound : Int)
  | below (key : String) (bound : Int)
  | equals (key : String) (value : Value)
  | fails (message : String)

def Test.run (t : Test) : Guard Value := fun context event =>
  match t with
  | always b => .ok b
  | type t => .ok (event.type = t)
  | data v => .ok (event.data.same v)
  | atLeast key n => .ok ((context.int64? key).any (n ≤ ·))
  | below key n => .ok ((context.int64? key).any (· < n))
  | equals key v => .ok ((context.getOrNull key).same v)
  | fails message => .error ⟨message⟩

def guard (t : Test) (orFail : Option String) : Guard Value := fun context event => do
  match ← t.run context event, orFail with
  | false, some message => .error ⟨message⟩
  | b, _ => .ok b

inductive Assignment where
  | add (key : String) (amount : Int)
  | set (key : String) (value : Value)
  | store (key : String)
  | push (key : String)
  | replace (value : Value)
  | fail (message : String)
  | failIf (key : String) (bound : Int) (message : String)

def Assignment.run (a : Assignment) (context : Value) (event : Event) :
    Value × Option ActionError :=
  match a with
  | add key n =>
    (context.put key (.int (wrap64 ((context.int64? key).getD 0 + n))), none)
  | set key v => (context.put key v, none)
  | store key => (context.put key event.data, none)
  | push key =>
    (context.put key (.ofItems ((context.getOrNull key).items ++ [.str event.type])), none)
  | replace v => (v, none)
  | fail message => (context.put "dirty" (.bool true), some ⟨message⟩)
  | failIf key n message =>
    (context, if n ≤ (context.int64? key).getD 0 then some ⟨message⟩ else none)

def assign (a : Assignment) : Action Value := .assign a.run

def note (kind label : String) (context : Value) (event : Event) : Value :=
  .ofFields [(kind, .str label), ("context", context), ("event", .str event.type)]

def effect (label : String) : Action Value := .effect fun context event =>
  .ok (note "effect" label context event)

def failingEffect (message : String) : Action Value := .effect fun _ _ => .error ⟨message⟩

def log (label : String) : Action Value := .log (note "log" label)

inductive Data where
  | const (value : Value)
  | key (key : String)
  | whole
  | fail (message : String)

def Data.run (d : Data) : DataMapper Value := fun context event =>
  match d with
  | const v => .ok v
  | key k => .ok (context.getOrNull k)
  | whole => .ok (.ofFields [("context", context), ("event", event.toValue)])
  | fail message => .error ⟨message⟩

def delay (key : Option String) (millis : Nat) : Delay Value := fun context _ =>
  match (key.bind context.get?).bind Value.int? with
  | some i => if 0 ≤ i ∧ i < Nat.pow 2 64 then i.toNat else millis
  | none => millis

def activity (name : String) : Activity Value where
  started context event := .ofFields
    [("activity", .str name), ("do", .str "start"), ("context", context),
      ("event", .str event.type)]
  stopped _ _ := .ofFields [("activity", .str name), ("do", .str "stop")]

inductive Result where
  | output (value : Value)
  | echo
  | error (message : String)
  | never

def Result.run (r : Result) (context : Value) (event : Event) : ServiceResult :=
  match r with
  | output v => .finished v
  | echo => .finished (.ofFields [("context", context), ("event", event.toValue)])
  | error message => .failed message
  | never => .never

def service (name : String) (steps : List ServiceStep) (result : Result) : Service Value :=
  fun invocation context event =>
    { note := .ofFields
        [("service", .str name), ("invoke", .str invocation), ("event", .str event.type)]
      steps
      result := result.run context event }

end Script

end Statechart
