import Statechart.Definition.Decode

/-! Definitions put together call by call. Each call adds to or sets one field. -/

namespace Statechart

namespace TransitionDef

def targetless : TransitionDef := {}

def addTarget (t : TransitionDef) (target : String) : TransitionDef :=
  { t with target := t.target ++ [target] }

def setGuard (t : TransitionDef) (name : String) : TransitionDef := { t with guard := some name }

def setInState (t : TransitionDef) (descriptor : String) : TransitionDef :=
  { t with inState := some descriptor }

def addAction (t : TransitionDef) (name : String) : TransitionDef :=
  { t with actions := t.actions ++ [name] }

def setInternal (t : TransitionDef) (internal : Bool) : TransitionDef :=
  { t with internal := some internal }

def setMetadata (t : TransitionDef) (v : Value) : TransitionDef := { t with metadata := some v }

def addTo (m : KeyedList (List TransitionDef)) (key : String) (t : TransitionDef) :
    KeyedList (List TransitionDef) :=
  m.put key ((m.get? key).getD [] ++ [t])

end TransitionDef

namespace InvokeDef

def ofSrc (src : String) : InvokeDef := { src }

def setId (i : InvokeDef) (id : String) : InvokeDef := { i with id := some id }

def addOnDone (i : InvokeDef) (t : TransitionDef) : InvokeDef :=
  { i with onDone := i.onDone ++ [t] }

def addOnError (i : InvokeDef) (t : TransitionDef) : InvokeDef :=
  { i with onError := i.onError ++ [t] }

end InvokeDef

namespace StateDef

def atomic : StateDef := {}

def compound (initial : String) : StateDef := { initial := some initial }

def parallel : StateDef := { type := some .parallel }

def final : StateDef := { type := some .final }

def ofHistory (kind : HistoryKind) : StateDef :=
  { type := some .history, history := some (.kind kind) }

def setId (s : StateDef) (id : String) : StateDef := { s with id := some id }

def putState (s : StateDef) (key : String) (child : StateDef) : StateDef :=
  { s with states := Keyed.put key child s.states }

def addOn (s : StateDef) (event : String) (t : TransitionDef) : StateDef :=
  { s with on := TransitionDef.addTo s.on event t }

def addAlways (s : StateDef) (t : TransitionDef) : StateDef := { s with always := s.always ++ [t] }

def addAfter (s : StateDef) (delay : String) (t : TransitionDef) : StateDef :=
  { s with after := TransitionDef.addTo s.after delay t }

def addAfterMillis (s : StateDef) (millis : Nat) (t : TransitionDef) : StateDef :=
  s.addAfter (toString millis) t

def addOnDone (s : StateDef) (t : TransitionDef) : StateDef := { s with onDone := s.onDone ++ [t] }

def addEntry (s : StateDef) (action : String) : StateDef := { s with entry := s.entry ++ [action] }

def addExit (s : StateDef) (action : String) : StateDef := { s with exit := s.exit ++ [action] }

def addInvoke (s : StateDef) (i : InvokeDef) : StateDef := { s with invoke := s.invoke ++ [i] }

def addActivity (s : StateDef) (name : String) : StateDef :=
  { s with activities := s.activities ++ [name] }

def setData (s : StateDef) (mapper : String) : StateDef := { s with data := some mapper }

def setMetadata (s : StateDef) (v : Value) : StateDef := { s with metadata := some v }

def setHistoryTarget (s : StateDef) (target : String) : StateDef := { s with target := some target }

def toDefinition (s : StateDef) (id : String) : Definition := Definition.ofRoot (s.setId id)

end StateDef

namespace Definition

def setVersion (d : Definition) (version : String) : Definition :=
  { d with version := some version }

def setDelimiter (d : Definition) (delimiter : String) : Definition :=
  { d with delimiter := some delimiter }

def setStrict (d : Definition) (strict : Bool) : Definition := { d with strict }

def setContext (d : Definition) (context : Value) : Definition := { d with context := some context }

end Definition

end Statechart
