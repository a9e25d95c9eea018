import Statechart.Definition.Encode
import Statechart.Json.Reader

/-! Definitions read from JSON, in all the short forms that are allowed: one item for a list of one,
a target for a transition, an array of fields for a record. -/

namespace Statechart

open Json (string? bool? list? oneOrMany? entries? required defaulted optional record?)

def named? {α : Type} (blank : Bool) (all : List α) (name : α → String) : Json → Option α
  | .str s => all.find? (name · = s)
  | .obj [(s, .null)] => all.find? (name · = s)
  | .obj [(s, .obj [])] => if blank then all.find? (name · = s) else none
  | _ => none

def freeForm? (j : Json) : Option Value := some (Value.ofJson j)

def NodeType.ofJson? : Json → Option NodeType := named? true NodeType.all NodeType.name

def HistoryMark.ofJson? (j : Json) : Option HistoryMark :=
  (bool? j).map .flag <|> (named? false HistoryKind.all HistoryKind.name j).map .kind

namespace TransitionDef

def ofTarget (target : String) : TransitionDef := { target := [target] }

def fieldNames : List (List String) :=
  [["target"], ["guard", "cond"], ["in"], ["actions"], ["internal"], ["meta"]]

def ofRecord? (j : Json) : Option TransitionDef :=
  match record? fieldNames j with
  | some [target, guard, inState, actions, internal, metadata] => do
    return {
      target := ← defaulted [] (oneOrMany? string?) target
      guard := ← optional string? guard
      inState := ← optional string? inState
      actions := ← defaulted [] (oneOrMany? string?) actions
      internal := ← optional bool? internal
      metadata := ← optional freeForm? metadata }
  | _ => none

def ofJson? : Json → Option TransitionDef
  | .str target => some (ofTarget target)
  | j => ofRecord? j

def list? : Json → Option (List TransitionDef) := oneOrMany? ofJson?

def keyed? (j : Json) : Option (KeyedList (List TransitionDef)) :=
  (entries? list? j).map KeyedList.ofList

end TransitionDef

def InvokeDef.ofJson? (j : Json) : Option InvokeDef :=
  match record? [["id"], ["src"], ["onDone"], ["onError"]] j with
  | some [id, src, onDone, onError] => do
    return {
      id := ← optional string? id
      src := ← required string? src
      onDone := ← defaulted [] TransitionDef.list? onDone
      onError := ← defaulted [] TransitionDef.list? onError }
  | _ => none

namespace StateBody

def fieldNames : List (List String) :=
  [["id"], ["type"], ["initial"], ["history"], ["target"], ["states"], ["on"], ["always"],
    ["after"], ["onDone"], ["entry"], ["exit"], ["invoke"], ["activities"], ["data"], ["meta"]]

def ofJson? (j : Json) : Option StateBody :=
  match record? fieldNames j with
  | some [id, type, initial, history, target, _, on, always, after, onDone, entry, exit, invoke,
      activities, data, metadata] => do
    return {
      id := ← optional string? id
      type := ← optional NodeType.ofJson? type
      initial := ← optional string? initial
      history := ← optional HistoryMark.ofJson? history
      target := ← optional string? target
      on := ← defaulted .empty TransitionDef.keyed? on
      always := ← defaulted [] TransitionDef.list? always
      after := ← defaulted .empty TransitionDef.keyed? after
      onDone := ← defaulted [] TransitionDef.list? onDone
      entry := ← defaulted [] (oneOrMany? string?) entry
      exit := ← defaulted [] (oneOrMany? string?) exit
      invoke := ← defaulted [] (oneOrMany? InvokeDef.ofJson?) invoke
      activities := ← defaulted [] (oneOrMany? string?) activities
      data := ← optional string? data
      metadata := ← optional freeForm? metadata }
  | _ => none

end StateBody

namespace StateDef

mutual

def ofJson? : Json → Option StateDef
  | .obj fields => do
    return ⟨← StateBody.ofJson? (.obj fields), ← statesOfFields? fields⟩
  | .arr items => do
    return ⟨← StateBody.ofJson? (.arr items), ← statesOfItems? 5 items⟩
  | _ => none

def statesOfFields? : List (String × Json) → Option (List (String × StateDef))
  | [] => some []
  | (key, j) :: rest => if key = "states" then states? j else statesOfFields? rest

def statesOfItems? : Nat → List Json → Option (List (String × StateDef))
  | _, [] => some []
  | 0, j :: _ => states? j
  | n + 1, _ :: rest => statesOfItems? n rest

def states? : Json → Option (List (String × StateDef))
  | .obj fields => each? fields
  | _ => none

def each? : List (String × Json) → Option (List (String × StateDef))
  | [] => some []
  | (key, j) :: rest => do return (key, ← ofJson? j) :: (← each? rest)

end

end StateDef

namespace Definition

def ofJson? : Json → Option Definition
  | .obj fields =>
    match record? [["version"], ["delimiter"], ["strict"], ["context"]] (.obj fields) with
    | some [version, delimiter, strict, context] => do
      return { ofRoot (← StateDef.ofJson? (.obj fields)) with
        version := ← optional string? version
        delimiter := ← optional string? delimiter
        strict := ← defaulted false bool? strict
        context := ← optional freeForm? context }
    | _ => none
  | _ => none

def read? (text : String) : Option Definition := (Json.read? text).bind ofJson?

end Definition

end Statechart
