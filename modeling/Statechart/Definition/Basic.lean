import Statechart.Json.Value

/-! Definitions: what is declared about a machine. A definition only names guards, actions, delays,
services and the like. -/

namespace Statechart

inductive NodeType where
  | atomic
  | compound
  | parallel
  | final
  | history
  deriving DecidableEq

inductive HistoryKind where
  | shallow
  | deep
  deriving DecidableEq

inductive HistoryMark where
  | flag (on : Bool)
  | kind (kind : HistoryKind)
  deriving DecidableEq

def HistoryMark.kind? : HistoryMark → Option HistoryKind
  | .flag true => some .shallow
  | .flag false => none
  | .kind k => some k

structure TransitionDef where
  target : List String := []
  guard : Option String := none
  inState : Option String := none
  actions : List String := []
  internal : Option Bool := none
  metadata : Option Value := none

structure InvokeDef where
  id : Option String := none
  src : String
  onDone : List TransitionDef := []
  onError : List TransitionDef := []

structure StateBody where
  id : Option String := none
  type : Option NodeType := none
  initial : Option String := none
  history : Option HistoryMark := none
  target : Option String := none
  on : KeyedList (List TransitionDef) := .empty
  always : List TransitionDef := []
  after : KeyedList (List TransitionDef) := .empty
  onDone : List TransitionDef := []
  entry : List String := []
  exit : List String := []
  invoke : List InvokeDef := []
  activities : List String := []
  data : Option String := none
  metadata : Option Value := none

structure StateDef extends StateBody where
  states : List (String × StateDef) := []

instance : Inhabited StateDef := ⟨{}⟩

namespace StateDef

mutual

def KeysDistinct : StateDef → Prop
  | ⟨_, states⟩ => (Keyed.keys states).Nodup ∧ KeysDistinctAll states

def KeysDistinctAll : List (String × StateDef) → Prop
  | [] => True
  | (_, s) :: rest => KeysDistinct s ∧ KeysDistinctAll rest

end

mutual

def tidy : StateDef → StateDef
  | ⟨body, states⟩ => ⟨body, Keyed.collapse (tidyAll states)⟩

def tidyAll : List (String × StateDef) → List (String × StateDef)
  | [] => []
  | (k, s) :: rest => (k, tidy s) :: tidyAll rest

end

mutual

def size : StateDef → Nat
  | ⟨_, states⟩ => 1 + sizeAll states

def sizeAll : List (String × StateDef) → Nat
  | [] => 0
  | (_, s) :: rest => size s + sizeAll rest

end

theorem keysDistinctAll_iff {states : List (String × StateDef)} :
    KeysDistinctAll states ↔ ∀ e ∈ states, KeysDistinct e.2 := by
  induction states with
  | nil => simp [KeysDistinctAll]
  | cons e l ih => simp [KeysDistinctAll, ih]

mutual

theorem keysDistinct_tidy : ∀ s : StateDef, KeysDistinct (tidy s)
  | ⟨_, states⟩ => ⟨Keyed.nodup_keys_collapse _, keysDistinctAll_iff.2 fun e he =>
      keysDistinctAll_iff.1 (keysDistinctAll_tidyAll states) e (Keyed.mem_of_mem_collapse he)⟩

theorem keysDistinctAll_tidyAll :
    ∀ states : List (String × StateDef), KeysDistinctAll (tidyAll states)
  | [] => trivial
  | (_, s) :: rest => ⟨keysDistinct_tidy s, keysDistinctAll_tidyAll rest⟩

end

mutual

theorem tidy_of_keysDistinct : ∀ {s : StateDef}, KeysDistinct s → tidy s = s
  | ⟨_, _⟩, h => by rw [tidy, tidyAll_of_keysDistinct h.2, Keyed.collapse_of_nodup h.1]

theorem tidyAll_of_keysDistinct :
    ∀ {states : List (String × StateDef)}, KeysDistinctAll states → tidyAll states = states
  | [], _ => rfl
  | (_, _) :: _, h => by
    rw [tidyAll, tidy_of_keysDistinct h.1, tidyAll_of_keysDistinct h.2]

end

end StateDef

structure Definition where
  version : Option String := none
  delimiter : Option String := none
  strict : Bool := false
  context : Option Value := none
  root : StateDef
  keysDistinct : root.KeysDistinct

namespace Definition

def ofRoot (root : StateDef) : Definition where
  root := root.tidy
  keysDistinct := root.keysDistinct_tidy

end Definition

end Statechart
