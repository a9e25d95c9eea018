import Statechart.Json.Basic

/-! Free-form values: JSON in which every key of an object occurs once. Contexts, event data and
metadata are values. -/

namespace Statechart

structure Value where
  json : Json
  keysDistinct : json.KeysDistinct

namespace Value

theorem ext {a b : Value} (h : a.json = b.json) : a = b := by
  cases a; cases b; cases h; rfl

def ofJson (j : Json) : Value := ⟨j.tidy, j.keysDistinct_tidy⟩

theorem ofJson_json (v : Value) : ofJson v.json = v :=
  ext (Json.tidy_of_keysDistinct v.keysDistinct)

def null : Value := ⟨.null, trivial⟩

def bool (b : Bool) : Value := ⟨.bool b, trivial⟩

def int (i : Int) : Value := ⟨.int i, trivial⟩

def str (s : String) : Value := ⟨.str s, trivial⟩

instance : Inhabited Value := ⟨null⟩

def isNull (v : Value) : Bool := v.json.isNull

def same (a b : Value) : Bool := a.json.same b.json

def ofItems (items : List Value) : Value := ofJson (.arr (items.map json))

def ofFields (fields : List (String × Value)) : Value :=
  ofJson (.obj (fields.map fun e => (e.1, e.2.json)))

def items (v : Value) : List Value :=
  match v.json with
  | .arr items => items.map ofJson
  | _ => []

def get? (v : Value) (key : String) : Option Value :=
  match v.json with
  | .obj fields => (Keyed.get? fields key).map ofJson
  | _ => none

def put (v : Value) (key : String) (w : Value) : Value :=
  match v.json with
  | .obj fields => ofJson (.obj (Keyed.put key w.json fields))
  | _ => v

def int? (v : Value) : Option Int :=
  match v.json with
  | .num (.whole i) => some i
  | _ => none

end Value

end Statechart
