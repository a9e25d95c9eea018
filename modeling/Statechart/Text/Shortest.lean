/-! The fewest decimal digits that read back as a given fraction, and their layout. -/

namespace Statechart.Text

structure Decimal where
  digits : Nat
  exponent : Int

/-- A positive fraction, `quarters * 2 ^ exponent`. All reals between `low` and `high`, counted in
quarters too, are rounded to it, and the two ends themselves if `closed`. -/
structure Rounded where
  quarters : Nat
  low : Nat
  high : Nat
  closed : Bool
  exponent : Int

namespace Rounded

def ofBits (bits : Nat) : Rounded :=
  let power := bits / Nat.pow 2 52 % Nat.pow 2 11
  let rest := bits % Nat.pow 2 52
  let m := if power = 0 then rest else Nat.pow 2 52 + rest
  let narrow := rest = 0 ∧ 1 < power
  { quarters := 4 * m
    low := if narrow then 4 * m - 1 else 4 * m - 2
    high := 4 * m + 2
    closed := m % 2 = 0
    exponent := (max power 1 : Nat) - 1077 }

def multiple? (r : Rounded) (e : Int) : Option Nat :=
  let unit := Nat.pow 10 e.toNat * Nat.pow 2 (-r.exponent).toNat
  let quarter := Nat.pow 2 r.exponent.toNat * Nat.pow 10 (-e).toNat
  let value := r.quarters * quarter
  let readsBack (n : Nat) : Bool :=
    if r.closed then r.low * quarter ≤ n * unit && n * unit ≤ r.high * quarter
    else r.low * quarter < n * unit && n * unit < r.high * quarter
  let n := value / unit
  match readsBack n, readsBack (n + 1) with
  | false, false => none
  | true, false => some n
  | false, true => some (n + 1)
  | true, true =>
    if 2 * value < (2 * n + 1) * unit then some n
    else if (2 * n + 1) * unit < 2 * value then some (n + 1)
    else some (if n % 2 = 0 then n else n + 1)

def firstExponent (r : Rounded) : Int :=
  (r.exponent + r.quarters.log2 + 1) * 30103 / 100000 + 1

def shortest (r : Rounded) : Decimal :=
  let found := (List.range 20).findSome? fun (i : Nat) =>
    let e := r.firstExponent - i
    (r.multiple? e).map (Decimal.mk · e)
  let all := r.quarters * Nat.pow 2 r.exponent.toNat * Nat.pow 5 (-r.exponent).toNat
  found.getD ⟨all, min r.exponent 0⟩

end Rounded

def zeros (n : Nat) : String := "".pushn '0' n

def Decimal.render (d : Decimal) : String :=
  let text := (toString d.digits).toList
  let point := text.length + d.exponent
  let places (n : Nat) (rest : String) : String :=
    String.ofList (text.take n) ++ rest ++ String.ofList (text.drop n)
  if 0 ≤ d.exponent ∧ point ≤ 16 then places text.length (zeros d.exponent.toNat) ++ ".0"
  else if 0 < point ∧ point ≤ 16 then places point.toNat "."
  else if -5 < point ∧ point ≤ 0 then "0." ++ zeros (-point).toNat ++ String.ofList text
  else
    places 1 (if text.length = 1 then "" else ".") ++ (if point < 1 then "e-" else "e+")
      ++ toString (point - 1).natAbs

def renderFraction (x : Float) : String :=
  let bits := x.toBits.toNat
  let magnitude := bits % Nat.pow 2 63
  (if Nat.pow 2 63 ≤ bits then "-" else "")
    ++ if magnitude = 0 then "0.0" else (Rounded.ofBits magnitude).shortest.render

end Statechart.Text
