import Statechart.Definition.Basic
import Statechart.Json.Decode
import Statechart.Json.Printer

/-! Definitions as JSON. Fields come in declaration order and are left out when empty or absent;
lists are always written as arrays and transitions always as objects. -/

namespace Statechart

open Json (objOf)

universe u

def presentList {α : Type u} (toJson : α → Json) (l : List α) : Option Json :=
  if l.isEmpty then none else some (.arr (l.map toJson))

namespace NodeType

def all : List NodeType := [.atomic, .compound, .parallel, .final, .history]

def name : NodeType → String
  | .atomic => "atomic"
  | .compound => "compound"
  | .parallel => "parallel"
  | .final => "final"
  | .history => "history"

end NodeType

namespace HistoryKind

def all : List HistoryKind := [.shallow, .deep]

def name : HistoryKind → String
  | .shallow => "shallow"
  | .deep => "deep"

end HistoryKind

def HistoryMark.toJson : HistoryMark → Json
  | .flag b => .bool b
  | .kind k => .str k.name

namespace TransitionDef

def toJson (t : TransitionDef) : Json := .objOf
  [("target", presentList .str t.target), ("guard", t.guard.map .str), ("in", t.inState.map .str),
    ("actions", presentList .str t.actions), ("internal", t.internal.map .bool),
    ("meta", t.metadata.map Value.json)]

def keyedToJson (m : KeyedList (List TransitionDef)) : Option Json :=
  if m.isEmpty then none else some (.obj (m.entries.map fun e => (e.1, .arr (e.2.map toJson))))

end TransitionDef

open TransitionDef (keyedToJson)

def InvokeDef.toJson (i : InvokeDef) : Json := .objOf
  [("id", i.id.map .str), ("src", some (.str i.src)),
    ("onDone", presentList TransitionDef.toJson i.onDone),
    ("onError", presentList TransitionDef.toJson i.onError)]

namespace StateBody

def leadingFields (b : StateBody) : List (String × Option Json) :=
  [("id", b.id.map .str), ("type", b.type.map (.str ∘ NodeType.name)),
    ("initial", b.initial.map .str), ("history", b.history.map HistoryMark.toJson),
    ("target", b.target.map .str)]

def trailingFields (b : StateBody) : List (String × Option Json) :=
  [("on", keyedToJson b.on), ("always", presentList TransitionDef.toJson b.always),
    ("after", keyedToJson b.after), ("onDone", presentList TransitionDef.toJson b.onDone),
    ("entry", presentList .str b.entry), ("exit", presentList .str b.exit),
    ("invoke", presentList InvokeDef.toJson b.invoke),
    ("activities", presentList .str b.activities), ("data", b.data.map .str),
    ("meta", b.metadata.map Value.json)]

end StateBody

namespace StateDef

mutual

def fields : StateDef → List (String × Option Json)
  | ⟨body, states⟩ => body.leadingFields
      ++ ("states", if states.isEmpty then none else some (.obj (statesFields states)))
        :: body.trailingFields

def statesFields : List (String × StateDef) → List (String × Json)
  | [] => []
  | (k, s) :: rest => (k, objOf (fields s)) :: statesFields rest

end

def toJson (s : StateDef) : Json := objOf s.fields

end StateDef

namespace Definition

def toJson (d : Definition) : Json := .objOf <|
  [("version", d.version.map .str), ("delimiter", d.delimiter.map .str),
    ("strict", some (.bool d.strict)), ("context", d.context.map Value.json)] ++ d.root.fields

def render (d : Definition) : String := d.toJson.pretty

end Definition

end Statechart
