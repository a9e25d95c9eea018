import Statechart.Script.Basic

/-! Reading scripts from JSON: each behaviour is an object whose first known key says what it does.
-/

namespace Statechart

namespace Json

def getString? (j : Json) (key : String) : Option String := (j.get? key).bind string?

def getInt? (j : Json) (key : String) : Option Int := (j.get? key).bind (signed? 64)

def getNat? (j : Json) (key : String) : Option Nat := (j.get? key).bind (unsigned? 64)

def getValue (j : Json) (key : String) : Value := .ofJson ((j.get? key).getD .null)

end Json

namespace Script

def Test.ofJson? (j : Json) : Option Test :=
  match j.getString? "fail", j.get? "const", j.getString? "type", j.get? "data",
    j.getString? "key" with
  | some message, _, _, _, _ => some (.fails message)
  | _, some answer, _, _, _ => answer.bool?.map .always
  | _, _, some t, _, _ => some (.type t)
  | _, _, _, some v, _ => some (.data (.ofJson v))
  | _, _, _, _, some key =>
    match j.getInt? "ge", j.getInt? "lt", j.get? "eq" with
    | some n, _, _ => some (.atLeast key n)
    | _, some n, _ => some (.below key n)
    | _, _, some v => some (.equals key (.ofJson v))
    | _, _, _ => none
  | _, _, _, _, none => none

def guard? (j : Json) : Option (Guard Value) :=
  (Test.ofJson? j).map (guard · (j.getString? "orFail"))

def actionKinds : List String :=
  ["inc", "set", "store", "push", "replace", "assignFail", "failIf", "effect", "effectFail",
    "raise", "send", "log"]

def action? (j : Json) : Option (Action Value) := do
  let kind ← actionKinds.find? fun k => (j.get? k).isSome
  let subject ← j.get? kind
  let assignTo (a : String → Assignment) : Option (Action Value) :=
    subject.string?.map fun s => assign (a s)
  match kind with
  | "inc" => assignTo (.add · ((j.getInt? "by").getD 1))
  | "set" => assignTo (.set · (j.getValue "to"))
  | "store" => assignTo .store
  | "push" => assignTo .push
  | "replace" => some (assign (.replace (.ofJson subject)))
  | "assignFail" => assignTo .fail
  | "failIf" =>
    assignTo (.failIf · ((j.getInt? "ge").getD 0) ((j.getString? "message").getD ""))
  | "effect" => subject.string?.map effect
  | "effectFail" => subject.string?.map failingEffect
  | "raise" => (Event.ofShort? subject).map .raise
  | "send" => (Event.ofShort? subject).map .send
  | "log" => subject.string?.map log
  | _ => none

def dataOf (j : Json) : DataMapper Value :=
  let d : Data := match j.getString? "fail", j.get? "const", j.getString? "key" with
    | some message, _, _ => .fail message
    | _, some v, _ => .const (.ofJson v)
    | _, _, some key => .key key
    | _, _, none => .whole
  d.run

def delayOf (j : Json) : Delay Value := delay (j.getString? "key") ((j.getNat? "ms").getD 0)

def serviceStep? (j : Json) : Option ServiceStep :=
  match j.get? "sleep", j.get? "emit" with
  | some millis, _ => (millis.unsigned? 64).map .sleep
  | _, some event => (Event.ofShort? event).map .emit
  | _, none => none

def service? (name : String) (j : Json) : Option (Service Value) := do
  let steps ← match j.get? "steps" with
    | some steps => Json.list? serviceStep? steps
    | none => some []
  let result : Result := match j.get? "never", j.getString? "error", j.get? "echo" with
    | some _, _, _ => .never
    | _, some message, _ => .error message
    | _, _, some _ => .echo
    | _, _, none => .output (j.getValue "result")
  return service name steps result

def kind? {α : Type} (j : Json) (key : String) (read? : String → Json → Option α) :
    Option (SortedMap String α) :=
  match j.get? key with
  | some (.obj fields) =>
    (fields.mapM fun e => (read? e.1 e.2).map fun a => (e.1, a)).map SortedMap.ofList
  | _ => some .empty

def behaviors? (j : Json) : Option (Behaviors Value) := do
  return {
    guards := ← kind? j "guards" fun _ => guard?
    actions := ← kind? j "actions" fun _ => action?
    services := ← kind? j "services" service?
    activities := ← kind? j "activities" fun name _ => some (activity name)
    delays := ← kind? j "delays" fun _ j => some (delayOf j)
    data := ← kind? j "data" fun _ j => some (dataOf j) }

def allBehaviors? : Json → Option (Behaviors Value)
  | .arr l => (l.mapM behaviors?).map fun bs => bs.foldl Behaviors.merge {}
  | j => behaviors? j

end Script

end Statechart
