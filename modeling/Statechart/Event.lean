import Statechart.Json.Decode
import Statechart.Text.Split

/-! Events, the event types that are generated for lifecycle moments, and the selectors that
transitions listen with. -/

namespace Statechart

structure Event where
  type : String
  data : Value

namespace Event

def ofType (type : String) : Event := ⟨type, .null⟩

def initType : String := "machine.init"

def stopType : String := "machine.stop"

def doneStateType (id : String) : String := "done.state." ++ id

def doneInvokeType (id : String) : String := "done.invoke." ++ id

def errorInvokeType (id : String) : String := "error.invoke." ++ id

def afterType (delay node : String) : String := "after." ++ delay ++ "#" ++ node

def init : Event := ofType initType

def stop : Event := ofType stopType

def doneState (id : String) (data : Value) : Event := ⟨doneStateType id, data⟩

def doneInvoke (id : String) (data : Value) : Event := ⟨doneInvokeType id, data⟩

def errorInvoke (id message : String) : Event := ⟨errorInvokeType id, .str message⟩

def isGeneratedType (type : String) : Bool :=
  type = initType || type = stopType
    || ["done.state.", "done.invoke.", "error.invoke.", "after."].any (Text.startsWith type)

def isGenerated (e : Event) : Bool := isGeneratedType e.type

def toJson (e : Event) : Json :=
  .objOf [("type", some (.str e.type)), ("data", if e.data.isNull then none else some e.data.json)]

def fieldNames : List String := ["type", "data"]

def ofJson? (j : Json) : Option Event :=
  match j.record? (fieldNames.map ([·])) with
  | some [type, data] => do
    return ⟨← Json.required Json.string? type, ← Json.defaulted .null (some ∘ Value.ofJson) data⟩
  | _ => none

instance : JsonCoded Event := ⟨toJson, ofJson?, .ofNames fieldNames⟩

def ofShort? : Json → Option Event
  | .str type => some (ofType type)
  | j => ofJson? j

end Event

inductive Selector where
  | exact (type : String)
  | wildcard
  | eventless
  deriving DecidableEq

namespace Selector

def ofKey : String → Selector
  | "" => .eventless
  | "*" => .wildcard
  | type => .exact type

def ownType? : Selector → Option String
  | .exact type => if Event.isGeneratedType type then none else some type
  | _ => none

def acceptsType (type : String) : Selector → Bool
  | .exact t => t = type
  | .wildcard => true
  | .eventless => false

def accepts (s : Selector) (e : Event) : Bool := s.acceptsType e.type

def isEventless : Selector → Bool
  | .eventless => true
  | _ => false

def text : Selector → String
  | .exact type => type
  | .wildcard => "*"
  | .eventless => "\"\""

end Selector

end Statechart
