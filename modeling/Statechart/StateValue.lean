import Statechart.Json.Decode
import Statechart.SortedMap
import Statechart.Text.Split

/-! State values: the nested form of an active configuration. A state whose active child has no
children is written as the key of that child, anything deeper as a branch from keys to values. -/

namespace Statechart

inductive StateTree where
  | leaf (key : String)
  | branch (entries : List (String × StateTree))

namespace StateTree

mutual

def Sorted : StateTree → Prop
  | .leaf _ => True
  | .branch entries => entries.Pairwise (·.1 < ·.1) ∧ SortedAll entries

def SortedAll : List (String × StateTree) → Prop
  | [] => True
  | (_, t) :: rest => Sorted t ∧ SortedAll rest

end

theorem sortedAll_iff {entries : List (String × StateTree)} :
    SortedAll entries ↔ ∀ e ∈ entries, Sorted e.2 := by
  induction entries with
  | nil => simp [SortedAll]
  | cons e l ih => simp [SortedAll, ih]

mutual

def contains : StateTree → StateTree → Bool
  | .leaf a, .leaf b => a == b
  | .branch entries, .leaf b => (Keyed.get? entries b).isSome
  | .leaf _, .branch [] => true
  | .leaf a, .branch [(b, .branch [])] => a == b
  | .leaf _, .branch _ => false
  | .branch entries, .branch others => containsAll entries others

def containsAll (entries : List (String × StateTree)) : List (String × StateTree) → Bool
  | [] => true
  | (key, t) :: rest => (match Keyed.get? entries key with
    | some s => contains s t
    | none => false) && containsAll entries rest

end

mutual

def keyPaths : StateTree → List (List String)
  | .leaf key => [[key]]
  | .branch entries => keyPathsAll entries

def keyPathsAll : List (String × StateTree) → List (List String)
  | [] => []
  | (key, t) :: rest => [key] :: (keyPaths t).map (key :: ·) ++ keyPathsAll rest

end

mutual

def leafPaths : StateTree → List (List String)
  | .leaf key => [[key]]
  | .branch [] => [[]]
  | .branch (e :: rest) => leafPathsAll (e :: rest)

def leafPathsAll : List (String × StateTree) → List (List String)
  | [] => []
  | (key, t) :: rest => (leafPaths t).map (key :: ·) ++ leafPathsAll rest

end

mutual

def toJson : StateTree → Json
  | .leaf key => .str key
  | .branch entries => .obj (toJsonAll entries)

def toJsonAll : List (String × StateTree) → List (String × Json)
  | [] => []
  | (key, t) :: rest => (key, toJson t) :: toJsonAll rest

end

end StateTree

structure StateValue where
  tree : StateTree
  sorted : tree.Sorted

namespace StateValue

def leaf (key : String) : StateValue := ⟨.leaf key, trivial⟩

def branch (m : SortedMap String StateValue) : StateValue where
  tree := .branch (m.entries.map fun e => (e.1, e.2.tree))
  sorted := by
    refine ⟨List.pairwise_map.2 m.sorted, StateTree.sortedAll_iff.2 fun e he => ?_⟩
    obtain ⟨d, -, rfl⟩ := List.mem_map.1 he
    exact d.2.sorted

instance : Inhabited StateValue := ⟨branch .empty⟩

def ofSegments : List String → StateValue
  | [] => branch .empty
  | [key] => leaf key
  | key :: rest => branch (SortedMap.empty.insert key (ofSegments rest))

def ofDescriptor (descriptor delimiter : String) : StateValue :=
  ofSegments (Text.segments delimiter descriptor)

def contains (v w : StateValue) : Bool := v.tree.contains w.tree

def paths (v : StateValue) (delimiter : String) : List String :=
  v.tree.keyPaths.map (Text.join delimiter)

def leaves (v : StateValue) (delimiter : String) : List String :=
  (v.tree.leafPaths.filter (· ≠ [])).map (Text.join delimiter)

def defaultDelimiter : String := "."

def text (v : StateValue) : String := Text.join ", " (v.leaves defaultDelimiter)

def toJson (v : StateValue) : Json := v.tree.toJson

mutual

def ofJson? : Json → Option StateValue
  | .str key => some (leaf key)
  | .obj fields => (ofJsonAll? fields).map (branch ∘ SortedMap.ofList)
  | _ => none

def ofJsonAll? : List (String × Json) → Option (List (String × StateValue))
  | [] => some []
  | (key, j) :: rest => do return (key, ← ofJson? j) :: (← ofJsonAll? rest)

end

instance : JsonCoded StateValue where
  toJson := toJson
  ofJson? := ofJson?

end StateValue

end Statechart
