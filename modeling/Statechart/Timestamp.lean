import Statechart.Json.Decode
import Statechart.Text.Digits

/-! Timestamps: moments of universal time by date and time of day, their text, and the time between
two of them. -/

namespace Statechart

structure CivilTime where
  year : Int
  month : Nat
  day : Nat
  hour : Nat
  minute : Nat
  second : Nat
  nano : Nat
  deriving DecidableEq

namespace CivilTime

def isLeapYear (year : Int) : Bool := year % 4 = 0 && (year % 100 ≠ 0 || year % 400 = 0)

def daysInMonth (year : Int) (month : Nat) : Nat :=
  if month = 2 then if isLeapYear year then 29 else 28
  else if month ∈ [4, 6, 9, 11] then 30
  else 31

def nanosPerSecond : Nat := 1000000000

structure Valid (t : CivilTime) : Prop where
  year : -262143 ≤ t.year ∧ t.year ≤ 262142
  month : 1 ≤ t.month ∧ t.month ≤ 12
  day : 1 ≤ t.day ∧ t.day ≤ daysInMonth t.year t.month
  time : t.hour < 24 ∧ t.minute < 60 ∧ t.second < 60
  nano : t.nano < nanosPerSecond ∨ t.second = 59 ∧ t.nano < 2 * nanosPerSecond

instance (t : CivilTime) : Decidable t.Valid :=
  decidable_of_iff
    ((-262143 ≤ t.year ∧ t.year ≤ 262142) ∧ (1 ≤ t.month ∧ t.month ≤ 12)
      ∧ (1 ≤ t.day ∧ t.day ≤ daysInMonth t.year t.month)
      ∧ (t.hour < 24 ∧ t.minute < 60 ∧ t.second < 60)
      ∧ (t.nano < nanosPerSecond ∨ t.second = 59 ∧ t.nano < 2 * nanosPerSecond))
    ⟨fun ⟨a, b, c, d, e⟩ => ⟨a, b, c, d, e⟩, fun ⟨a, b, c, d, e⟩ => ⟨a, b, c, d, e⟩⟩

def nextDay (t : CivilTime) : CivilTime :=
  if t.day < daysInMonth t.year t.month then { t with day := t.day + 1 }
  else if t.month < 12 then { t with month := t.month + 1, day := 1 }
  else { t with year := t.year + 1, month := 1, day := 1 }

def previousDay (t : CivilTime) : CivilTime :=
  if 1 < t.day then { t with day := t.day - 1 }
  else if 1 < t.month then
    { t with month := t.month - 1, day := daysInMonth t.year (t.month - 1) }
  else { t with year := t.year - 1, month := 12, day := 31 }

def addMinutes (t : CivilTime) (minutes : Int) : CivilTime :=
  let total : Int := 60 * t.hour + t.minute + minutes
  let moved := { t with hour := (total % 1440 / 60).toNat, minute := (total % 60).toNat }
  if total < 0 then moved.previousDay else if total < 1440 then moved else moved.nextDay

def dayNumber (t : CivilTime) : Int :=
  let y := t.year - 1
  let months := (List.range (t.month - 1)).map fun m => daysInMonth t.year (m + 1)
  365 * y + y / 4 - y / 100 + y / 400 + months.foldl Nat.add 0 + t.day

def secondOfDay (t : CivilTime) : Nat := (60 * t.hour + t.minute) * 60 + t.second

def isLeapSecond (t : CivilTime) : Bool := nanosPerSecond ≤ t.nano

def nanosBetween (a b : CivilTime) : Int :=
  let leap : Int :=
    if a.secondOfDay < b.secondOfDay then if a.isLeapSecond then 1 else 0
    else if b.secondOfDay < a.secondOfDay then if b.isLeapSecond then -1 else 0
    else 0
  let seconds := 86400 * (b.dayNumber - a.dayNumber)
    + ((b.secondOfDay : Int) - a.secondOfDay) + leap
  seconds * nanosPerSecond + ((b.nano : Int) - a.nano)

end CivilTime

structure Timestamp extends CivilTime where
  valid : toCivilTime.Valid
  deriving DecidableEq

namespace Timestamp

def ofCivil? (t : CivilTime) : Option Timestamp := if h : t.Valid then some ⟨t, h⟩ else none

def epoch : Timestamp := ⟨⟨1970, 1, 1, 0, 0, 0, 0⟩, by decide⟩

instance : Inhabited Timestamp := ⟨epoch⟩

def elapsed? (a b : Timestamp) : Option Nat :=
  let n := a.toCivilTime.nanosBetween b.toCivilTime
  if 0 ≤ n then some n.toNat else none

open Text (digits)

def yearText (year : Int) : List Char :=
  let n := year.natAbs
  let shown := digits (if n < 10000 then 4 else if n < 100000 then 5 else 6) n
  if year < 0 then '-' :: shown else if year < 10000 then shown else '+' :: shown

def fractionText (nano : Nat) : List Char :=
  if nano = 0 then []
  else if nano % 1000000 = 0 then '.' :: digits 3 (nano / 1000000)
  else if nano % 1000 = 0 then '.' :: digits 6 (nano / 1000)
  else '.' :: digits 9 nano

def render (t : Timestamp) : String :=
  let second := if t.isLeapSecond then t.second + 1 else t.second
  String.ofList <| yearText t.year ++ '-' :: digits 2 t.month ++ '-' :: digits 2 t.day
    ++ 'T' :: digits 2 t.hour ++ ':' :: digits 2 t.minute ++ ':' :: digits 2 second
    ++ fractionText (t.nano % CivilTime.nanosPerSecond) ++ ['Z']

open Text (leadingNumber?)

def skip (l : List Char) : List Char := l.dropWhile Text.isBlank

def year? (l : List Char) : Option (Int × List Char) :=
  match skip l with
  | '-' :: rest => (leadingNumber? rest.length rest).map fun (n, rest) => (-n, rest)
  | '+' :: rest => (leadingNumber? rest.length rest).map fun (n, rest) => (n, rest)
  | rest => (leadingNumber? 4 rest).map fun (n, rest) => (n, rest)

def mark? (c : Char) (l : List Char) : Option (List Char) :=
  match skip l with
  | d :: rest => if d = c then some rest else none
  | [] => none

def part? (l : List Char) : Option (Nat × List Char) := leadingNumber? 2 (skip l)

def separator? : List Char → Option (List Char)
  | c :: rest => if c ∈ ['T', 't', ' '] then some rest else none
  | [] => none

def fraction? : List Char → Option (Nat × List Char)
  | '.' :: rest =>
    let taken := rest.takeWhile Char.isDigit
    if taken = [] then none
    else some (Text.digitsValue ((taken ++ List.replicate 9 '0').take 9), rest.drop taken.length)
  | rest => some (0, rest)

def offsetMinutes? : List Char → Option (Nat × List Char)
  | a :: b :: rest =>
    match rest.dropWhile fun c => c = ':' || Text.isBlank c with
    | c :: d :: rest =>
      let hours := Text.digitsValue [a, b]
      let minutes := Text.digitsValue [c, d]
      if [a, b, c, d].all Char.isDigit && minutes < 60 && hours < 24 then
        some (60 * hours + minutes, rest)
      else none
    | _ => none
  | _ => none

def offset? : List Char → Option (Int × List Char)
  | 'Z' :: rest | 'z' :: rest => some (0, rest)
  | '+' :: rest => (offsetMinutes? rest).map fun (n, rest) => (n, rest)
  | '-' :: rest | '\u2212' :: rest => (offsetMinutes? rest).map fun (n, rest) => (-n, rest)
  | a :: b :: c :: rest =>
    if (String.ofList [a, b, c]).toUpper = "UTC" then some (0, rest) else none
  | _ => none

def read? (text : String) : Option Timestamp := do
  let (year, l) ← year? text.toList
  let (month, l) ← part? (← mark? '-' l)
  let (day, l) ← part? (← mark? '-' l)
  let (hour, l) ← part? (← separator? l)
  let (minute, l) ← part? (← mark? ':' l)
  let (second, l) ← part? (← mark? ':' l)
  let (nano, l) ← fraction? l
  let (offset, l) ← offset? (skip l)
  let t : CivilTime :=
    if second = 60 then ⟨year, month, day, hour, minute, 59, nano + CivilTime.nanosPerSecond⟩
    else ⟨year, month, day, hour, minute, second, nano⟩
  if t.Valid ∧ skip l = [] then ofCivil? (t.addMinutes (-offset)) else none

instance : JsonCoded Timestamp where
  toJson t := .str t.render
  ofJson? j := j.string?.bind read?

end Timestamp

end Statechart
