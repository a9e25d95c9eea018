/-! Cutting text at a delimiter and joining it again. Occurrences are taken from the left and do not
overlap; the empty delimiter cuts before, between and after all characters. -/

namespace Statechart.Text

def consHead (c : Char) : List (List Char) → List (List Char)
  | [] => [[c]]
  | seg :: segs => (c :: seg) :: segs

def cuts (delimiter : List Char) : Nat → List Char → List (List Char)
  | _, [] => [[]]
  | skip + 1, _ :: rest => cuts delimiter skip rest
  | 0, c :: rest =>
    if delimiter.isPrefixOf (c :: rest) then [] :: cuts delimiter (delimiter.length - 1) rest
    else consHead c (cuts delimiter 0 rest)

def split (delimiter text : String) : List String :=
  if delimiter.toList = [] then "" :: text.toList.map String.singleton ++ [""]
  else (cuts delimiter.toList 0 text.toList).map String.ofList

def segments (delimiter text : String) : List String :=
  (split delimiter text).filter (· ≠ "")

def join (delimiter : String) (parts : List String) : String := delimiter.intercalate parts

def startsWith (text start : String) : Bool := start.toList.isPrefixOf text.toList

def stripStart? (start text : String) : Option String :=
  if startsWith text start then some (String.ofList (text.toList.drop start.toList.length))
  else none

theorem consHead_ne_nil (c : Char) (l : List (List Char)) : consHead c l ≠ [] := by
  cases l <;> simp [consHead]

theorem cuts_ne_nil (delimiter : List Char) (skip : Nat) (text : List Char) :
    cuts delimiter skip text ≠ [] := by
  induction text generalizing skip with
  | nil => simp [cuts]
  | cons c rest ih =>
    cases skip with
    | zero =>
      rw [cuts]
      split
      · simp
      · exact consHead_ne_nil _ _
    | succ n => exact ih n

end Statechart.Text
