/-! The form of JSON text: blanks, words, numerals, and passing over what is not asked for. No
comments, trailing commas, leading zeros or raw control characters are allowed. -/

namespace Statechart.Json.Reader

def isBlank (c : Char) : Bool := c = ' ' || c = '\n' || c = '\t' || c = '\r'

def skip (l : List Char) : List Char := l.dropWhile isBlank

def hexDigit? (c : Char) : Option Nat :=
  if c.isDigit then some (c.toNat - 48)
  else if 'a' ≤ c && c ≤ 'f' then some (c.toNat - 87)
  else if 'A' ≤ c && c ≤ 'F' then some (c.toNat - 55)
  else none

def escape? : Char → Option Char
  | '"' => some '"'
  | '\\' => some '\\'
  | '/' => some '/'
  | 'b' => some '\x08'
  | 'f' => some '\x0c'
  | 'n' => some '\n'
  | 'r' => some '\r'
  | 't' => some '\t'
  | _ => none

def word? (word : String) (l : List Char) : Option (List Char) :=
  if word.toList.isPrefixOf l then some (l.drop word.toList.length) else none

structure Numeral where
  negative : Bool
  digits : List Char
  places : List Char
  exponentNegative : Bool
  exponent : List Char

def digits? (l : List Char) : Option (List Char × List Char) :=
  let digits := l.takeWhile Char.isDigit
  if digits = [] || (digits.length > 1 && digits.head? = some '0') then none
  else some (digits, l.dropWhile Char.isDigit)

def someDigits? (l : List Char) : Option (List Char × List Char) :=
  let digits := l.takeWhile Char.isDigit
  if digits = [] then none else some (digits, l.dropWhile Char.isDigit)

def places? : List Char → Option (List Char × List Char)
  | '.' :: rest => someDigits? rest
  | rest => some ([], rest)

def isExponentMark (c : Char) : Bool := c = 'e' || c = 'E'

def exponent? : List Char → Option (Bool × List Char × List Char)
  | [] => some (false, [], [])
  | c :: rest =>
    if isExponentMark c then
      match rest with
      | '-' :: rest => (someDigits? rest).map (true, ·)
      | '+' :: rest => (someDigits? rest).map (false, ·)
      | rest => (someDigits? rest).map (false, ·)
    else some (false, [], c :: rest)

def magnitude? (negative : Bool) (l : List Char) : Option (Numeral × List Char) := do
  let (digits, rest) ← digits? l
  let (places, rest) ← places? rest
  let (exponentNegative, exponent, rest) ← exponent? rest
  return (⟨negative, digits, places, exponentNegative, exponent⟩, rest)

def numeral? : List Char → Option (Numeral × List Char)
  | '-' :: rest => magnitude? true rest
  | l => magnitude? false l

def passString : List Char → Option (List Char)
  | [] => none
  | '"' :: rest => some rest
  | '\\' :: 'u' :: a :: b :: c :: d :: rest =>
    if [a, b, c, d].all fun x => (hexDigit? x).isSome then passString rest else none
  | '\\' :: c :: rest => if (escape? c).isSome then passString rest else none
  | c :: rest => if c.toNat < 0x20 then none else passString rest

def passKey (l : List Char) : Option (List Char) :=
  match skip l with
  | '"' :: rest => do
    match skip (← passString rest) with
    | ':' :: rest => some rest
    | _ => none
  | _ => none

def passSimple : List Char → Option (List Char)
  | '"' :: rest => passString rest
  | 't' :: rest => word? "true" ('t' :: rest)
  | 'f' :: rest => word? "false" ('f' :: rest)
  | 'n' :: rest => word? "null" ('n' :: rest)
  | l => (numeral? l).map Prod.snd

inductive Container where
  | array
  | object

/-- Goes on to the end of the containers, of which the innermost comes first. A value comes next if
one is `due`, else a comma or the end of a container. -/
def passOn (fuel : Nat) (due : Bool) (inside : List Container) (l : List Char) :
    Option (List Char) :=
  match fuel with
  | 0 => none
  | fuel + 1 =>
    if due then
      match skip l with
      | '[' :: rest => match skip rest with
        | ']' :: rest => passOn fuel false inside rest
        | rest => passOn fuel true (.array :: inside) rest
      | '{' :: rest => match skip rest with
        | '}' :: rest => passOn fuel false inside rest
        | rest => match passKey rest with
          | some rest => passOn fuel true (.object :: inside) rest
          | none => none
      | rest => match passSimple rest with
        | some rest => passOn fuel false inside rest
        | none => none
    else match inside with
      | [] => some l
      | .array :: outside => match skip l with
        | ',' :: rest => passOn fuel true inside rest
        | ']' :: rest => passOn fuel false outside rest
        | _ => none
      | .object :: outside => match skip l with
        | ',' :: rest => match passKey rest with
          | some rest => passOn fuel true inside rest
          | none => none
        | '}' :: rest => passOn fuel false outside rest
        | _ => none

def passValue (l : List Char) : Option (List Char) := passOn (l.length + 2) true [] l

end Statechart.Json.Reader
