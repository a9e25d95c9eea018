import Statechart.KeyedList

/-! JSON as written: objects keep the order of their fields and may repeat a key. `Json.tidy` keeps
one field for each key, and `Json.same` compares without regard to the order of fields. -/

namespace Statechart

inductive Number where
  | whole (value : Int)
  | fraction (value : Float)
  deriving DecidableEq, Inhabited

def Number.same : Number → Number → Bool
  | .whole a, .whole b => a == b
  | .fraction a, .fraction b => a == b
  | _, _ => false

inductive Json where
  | null
  | bool (value : Bool)
  | num (value : Number)
  | str (value : String)
  | arr (items : List Json)
  | obj (fields : List (String × Json))
  deriving Inhabited

namespace Json

def int (i : Int) : Json := .num (.whole i)

def strs (l : List String) : Json := .arr (l.map .str)

def isNull : Json → Bool
  | .null => true
  | _ => false

mutual

def KeysDistinct : Json → Prop
  | .arr items => KeysDistinctItems items
  | .obj fields => (Keyed.keys fields).Nodup ∧ KeysDistinctFields fields
  | _ => True

def KeysDistinctItems : List Json → Prop
  | [] => True
  | j :: rest => KeysDistinct j ∧ KeysDistinctItems rest

def KeysDistinctFields : List (String × Json) → Prop
  | [] => True
  | (_, j) :: rest => KeysDistinct j ∧ KeysDistinctFields rest

end

mutual

def tidy : Json → Json
  | .arr items => .arr (tidyItems items)
  | .obj fields => .obj (Keyed.collapse (tidyFields fields))
  | j => j

def tidyItems : List Json → List Json
  | [] => []
  | j :: rest => tidy j :: tidyItems rest

def tidyFields : List (String × Json) → List (String × Json)
  | [] => []
  | (k, j) :: rest => (k, tidy j) :: tidyFields rest

end

theorem keysDistinctFields_iff {fields : List (String × Json)} :
    KeysDistinctFields fields ↔ ∀ e ∈ fields, KeysDistinct e.2 := by
  induction fields with
  | nil => simp [KeysDistinctFields]
  | cons e l ih => simp [KeysDistinctFields, ih]

mutual

theorem keysDistinct_tidy : ∀ j : Json, KeysDistinct (tidy j)
  | .null | .bool _ | .num _ | .str _ => trivial
  | .arr items => keysDistinctItems_tidyItems items
  | .obj fields => by
    refine ⟨Keyed.nodup_keys_collapse _, keysDistinctFields_iff.2 fun e he => ?_⟩
    exact keysDistinctFields_iff.1 (keysDistinctFields_tidyFields fields) e
      (Keyed.mem_of_mem_collapse he)

theorem keysDistinctItems_tidyItems : ∀ items : List Json, KeysDistinctItems (tidyItems items)
  | [] => trivial
  | j :: rest => ⟨keysDistinct_tidy j, keysDistinctItems_tidyItems rest⟩

theorem keysDistinctFields_tidyFields :
    ∀ fields : List (String × Json), KeysDistinctFields (tidyFields fields)
  | [] => trivial
  | (_, j) :: rest => ⟨keysDistinct_tidy j, keysDistinctFields_tidyFields rest⟩

end

mutual

theorem tidy_of_keysDistinct : ∀ {j : Json}, KeysDistinct j → tidy j = j
  | .null, _ | .bool _, _ | .num _, _ | .str _, _ => rfl
  | .arr _, h => congrArg arr (tidyItems_of_keysDistinct h)
  | .obj fields, h => by
    rw [tidy, tidyFields_of_keysDistinct h.2, Keyed.collapse_of_nodup h.1]

theorem tidyItems_of_keysDistinct : ∀ {items : List Json}, KeysDistinctItems items →
    tidyItems items = items
  | [], _ => rfl
  | j :: rest, h => by rw [tidyItems, tidy_of_keysDistinct h.1, tidyItems_of_keysDistinct h.2]

theorem tidyFields_of_keysDistinct : ∀ {fields : List (String × Json)}, KeysDistinctFields fields →
    tidyFields fields = fields
  | [], _ => rfl
  | (k, j) :: rest, h => by
    rw [tidyFields, tidy_of_keysDistinct h.1, tidyFields_of_keysDistinct h.2]

end

mutual

def same : Json → Json → Bool
  | .null, .null => true
  | .bool a, .bool b => a == b
  | .num a, .num b => a.same b
  | .str a, .str b => a == b
  | .arr as, .arr bs => sameItems as bs
  | .obj as, .obj bs => as.length == bs.length && sameFields as bs
  | _, _ => false

def sameItems : List Json → List Json → Bool
  | [], [] => true
  | a :: as, b :: bs => same a b && sameItems as bs
  | _, _ => false

def sameFields : List (String × Json) → List (String × Json) → Bool
  | [], _ => true
  | (k, a) :: as, bs => (match Keyed.get? bs k with
    | some b => same a b
    | none => false) && sameFields as bs

end

inductive Shape where
  | whole
  | list (item : Shape)
  | record (fields : List (String × Shape))

namespace Shape

def ofNames (names : List String) : Shape := .record (names.map (·, .whole))

def item : Shape → Nat → Shape
  | .whole, _ => .whole
  | .list s, _ => s
  | .record fields, i => (fields[i]?.map Prod.snd).getD .whole

def field? : Shape → String → Option Shape
  | .record fields, key => fields.lookup key
  | _, _ => some .whole

end Shape

end Json

end Statechart
