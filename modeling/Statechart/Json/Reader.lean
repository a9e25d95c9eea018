import Statechart.Json.Basic
import Statechart.Json.Form
import Statechart.Text.Digits

/-! Reading JSON text. What is read may have at most 127 containers inside each other, no lone
surrogates and no number that is too large for a fraction; nothing but blanks may follow the value.
-/

namespace Statechart.Json.Reader

open Text (digitsValue)

def hex4? (a b c d : Char) : Option Nat := do
  return (((← hexDigit? a) * 16 + (← hexDigit? b)) * 16 + (← hexDigit? c)) * 16 + (← hexDigit? d)

def string (acc : List Char) : List Char → Option (String × List Char)
  | [] => none
  | '"' :: rest => some (String.ofList acc.reverse, rest)
  | '\\' :: 'u' :: a :: b :: c :: d :: '\\' :: 'u' :: a' :: b' :: c' :: d' :: rest => do
    let high ← hex4? a b c d
    if 0xD800 ≤ high && high < 0xDC00 then
      let low ← hex4? a' b' c' d'
      if 0xDC00 ≤ low && low < 0xE000 then
        string (Char.ofNat (0x10000 + (high - 0xD800) * 0x400 + (low - 0xDC00)) :: acc) rest
      else none
    else if 0xDC00 ≤ high && high < 0xE000 then none
    else string (Char.ofNat high :: acc) ('\\' :: 'u' :: a' :: b' :: c' :: d' :: rest)
  | '\\' :: 'u' :: a :: b :: c :: d :: rest => do
    let unit ← hex4? a b c d
    if 0xD800 ≤ unit && unit < 0xE000 then none else string (Char.ofNat unit :: acc) rest
  | '\\' :: c :: rest => do string ((← escape? c) :: acc) rest
  | c :: rest => if c.toNat < 0x20 then none else string (c :: acc) rest

def absorb (n : Nat) : List Char → Nat × List Char
  | [] => (n, [])
  | c :: rest =>
    let next := digitsValue [c] + 10 * n
    if next < Nat.pow 2 64 then absorb next rest else (n, c :: rest)

def powerOfTen (n : Nat) : Float := Float.ofScientific 1 false n

/-- The fraction for `n * 10 ^ e`, if it is not too large. Powers of ten are rounded, and so is the
product or quotient with them. -/
def scaled? (n : Nat) (e : Int) : Option Float :=
  let x := n.toUInt64.toFloat
  if n = 0 then some x
  else if 308 < e then none
  else if 0 ≤ e then
    let y := x * powerOfTen e.toNat
    if y.isInf then none else some y
  else if -308 ≤ e then some (x / powerOfTen (-e).toNat)
  else if -616 ≤ e then some (x / powerOfTen 308 / powerOfTen (-e - 308).toNat)
  else some 0

namespace Numeral

def isWhole (n : Numeral) : Bool := n.places.isEmpty && n.exponent.isEmpty

def scale (n : Numeral) : Int :=
  if n.exponentNegative then -digitsValue n.exponent else digitsValue n.exponent

def fraction? (n : Numeral) (mantissa : Nat) (e : Int) : Option Number :=
  (scaled? mantissa e).map fun x => .fraction (if n.negative then -x else x)

def value? (n : Numeral) : Option Number :=
  let (whole, left) := absorb 0 n.digits
  if n.isWhole && left.isEmpty then
    if !n.negative then some (.whole whole)
    else if 0 < whole && whole ≤ Nat.pow 2 63 then some (.whole (-whole))
    else n.fraction? whole 0
  else
    let (mantissa, rest) := absorb whole n.places
    n.fraction? mantissa (left.length + rest.length - n.places.length + n.scale)

end Numeral

def number? (l : List Char) : Option (Json × List Char) := do
  let (n, rest) ← numeral? l
  return (.num (← n.value?), rest)

mutual

def value (shape : Shape) (room : Nat) : Nat → List Char → Option (Json × List Char)
  | 0, _ => none
  | fuel + 1, l =>
    match skip l with
    | '"' :: rest => (string [] rest).map fun (s, rest) => (.str s, rest)
    | '[' :: rest =>
      match room with
      | 0 => none
      | room + 1 =>
        match skip rest with
        | ']' :: rest => some (.arr [], rest)
        | rest => (items shape 0 room fuel rest).map fun (js, rest) => (.arr js, rest)
    | '{' :: rest =>
      match room with
      | 0 => none
      | room + 1 =>
        match skip rest with
        | '}' :: rest => some (.obj [], rest)
        | rest => (fields shape room fuel rest).map fun (fs, rest) => (.obj fs, rest)
    | 't' :: rest => (word? "true" ('t' :: rest)).map (.bool true, ·)
    | 'f' :: rest => (word? "false" ('f' :: rest)).map (.bool false, ·)
    | 'n' :: rest => (word? "null" ('n' :: rest)).map (.null, ·)
    | rest => number? rest
termination_by structural fuel => fuel

def items (shape : Shape) (place room : Nat) : Nat → List Char → Option (List Json × List Char)
  | 0, _ => none
  | fuel + 1, l => do
    let (j, rest) ← value (shape.item place) room fuel l
    match skip rest with
    | ']' :: rest => return ([j], rest)
    | ',' :: rest => do
      let (js, rest) ← items shape (place + 1) room fuel rest
      return (j :: js, rest)
    | _ => none
termination_by structural fuel => fuel

def fields (shape : Shape) (room : Nat) :
    Nat → List Char → Option (List (String × Json) × List Char)
  | 0, _ => none
  | fuel + 1, l =>
    match skip l with
    | '"' :: rest => do
      let (key, rest) ← string [] rest
      match skip rest with
      | ':' :: rest => do
        let (entry, rest) ← match shape.field? key with
          | some s => (value s room fuel rest).map fun (j, rest) => ([(key, j)], rest)
          | none => (passValue rest).map ([], ·)
        match skip rest with
        | '}' :: rest => return (entry, rest)
        | ',' :: rest => do
          let (fs, rest) ← fields shape room fuel rest
          return (entry ++ fs, rest)
        | _ => none
      | _ => none
    | _ => none
termination_by structural fuel => fuel

end

end Statechart.Json.Reader

namespace Statechart.Json

def maxDepth : Nat := 127

/-- Reads what the shape asks for. Each call of the reader but two in a row takes a character, so
the fuel does not run out. -/
def readAs? (shape : Shape) (text : String) : Option Json := do
  let l := text.toList
  let (j, rest) ← Reader.value shape maxDepth (2 * l.length + 2) l
  if Reader.skip rest = [] then some j else none

def read? (text : String) : Option Json := readAs? .whole text

end Statechart.Json
