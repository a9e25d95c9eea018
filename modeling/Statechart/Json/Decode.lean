import Statechart.Json.Basic
import Statechart.Json.Value

/-! Reading typed data out of JSON. A record is written as an object of its fields, of which unknown
ones are passed over and none may occur twice, or as an array of its fields in declaration order. -/

namespace Statechart

class JsonCoded (α : Type) where
  toJson : α → Json
  ofJson? : Json → Option α
  shape : Json.Shape := .whole

export JsonCoded (toJson ofJson?)

namespace Json

variable {α : Type}

def string? : Json → Option String
  | .str s => some s
  | _ => none

def bool? : Json → Option Bool
  | .bool b => some b
  | _ => none

def unsigned? (bits : Nat) : Json → Option Nat
  | .num (.whole i) => if 0 ≤ i ∧ i < Nat.pow 2 bits then some i.toNat else none
  | _ => none

def signed? (bits : Nat) : Json → Option Int
  | .num (.whole i) =>
    if -(Nat.pow 2 (bits - 1) : Int) ≤ i ∧ i < Nat.pow 2 (bits - 1) then some i else none
  | _ => none

def list? (item? : Json → Option α) : Json → Option (List α)
  | .arr items => items.mapM item?
  | _ => none

def oneOrMany? (item? : Json → Option α) (j : Json) : Option (List α) :=
  list? item? j <|> (item? j).map ([·])

def entries? (item? : Json → Option α) : Json → Option (List (String × α))
  | .obj fields => fields.mapM fun e => (item? e.2).map (e.1, ·)
  | _ => none

def get? (j : Json) (key : String) : Option Json :=
  match j with
  | .obj fields => Keyed.get? fields key
  | _ => none

def field? (names : List String) (fields : List (String × Json)) : Option (Option Json) :=
  match fields.filter (·.1 ∈ names) with
  | [] => some none
  | [e] => some (some e.2)
  | _ => none

def record? (names : List (List String)) : Json → Option (List (Option Json))
  | .obj fields => names.mapM (field? · fields)
  | .arr items =>
    if items.length ≤ names.length then
      some (items.map some ++ List.replicate (names.length - items.length) none)
    else none
  | _ => none

def required (read? : Json → Option α) : Option Json → Option α
  | none => none
  | some j => read? j

def defaulted (default : α) (read? : Json → Option α) : Option Json → Option α
  | none => some default
  | some j => read? j

def nullable (read? : Json → Option α) : Json → Option (Option α)
  | .null => some none
  | j => (read? j).map some

def optional (read? : Json → Option α) : Option Json → Option (Option α) :=
  defaulted none (nullable read?)

def objOf (fields : List (String × Option Json)) : Json :=
  .obj (fields.filterMap fun e => e.2.map (e.1, ·))

end Json

instance : JsonCoded Value where
  toJson := Value.json
  ofJson? j := some (Value.ofJson j)

instance : JsonCoded Unit where
  toJson _ := .null
  ofJson?
    | .null => some ()
    | _ => none

instance : JsonCoded UInt32 where
  toJson n := .int n.toNat
  ofJson? j := (j.unsigned? 32).map UInt32.ofNat

end Statechart
