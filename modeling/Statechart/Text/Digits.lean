/-! Decimal digits: reading them, and writing numbers with leading zeros. Blank characters around
them are those of the Unicode property White_Space. -/

namespace Statechart.Text

def digitsValue (l : List Char) : Nat := l.foldl (fun n c => 10 * n + (c.toNat - '0'.toNat)) 0

def digit (n : Nat) : Char := Char.ofNat ('0'.toNat + n)

def digits : Nat → Nat → List Char
  | 0, _ => []
  | width + 1, n => digits width (n / 10) ++ [digit (n % 10)]

def leadingNumber? (most : Nat) (l : List Char) : Option (Nat × List Char) :=
  let taken := (l.take most).takeWhile Char.isDigit
  if taken = [] then none else some (digitsValue taken, l.drop taken.length)

@[simp] theorem length_digits (width n : Nat) : (digits width n).length = width := by
  induction width generalizing n with
  | zero => rfl
  | succ w ih => simp [digits, ih]

theorem digit_isDigit {n : Nat} (h : n < 10) : (digit n).isDigit ∧ (digit n).toNat = 48 + n := by
  revert n; decide

theorem isDigit_of_mem_digits {width n : Nat} {c : Char} (h : c ∈ digits width n) : c.isDigit := by
  induction width generalizing n with
  | zero => simp [digits] at h
  | succ w ih =>
    rcases List.mem_append.1 h with h | h
    · exact ih h
    · rw [List.mem_singleton.1 h]
      exact (digit_isDigit (Nat.mod_lt _ (by decide))).1

theorem digitsValue_digits (width n : Nat) :
    digitsValue (digits width n) = n % Nat.pow 10 width := by
  induction width generalizing n with
  | zero => simp [digits, digitsValue, Nat.mod_one]
  | succ w ih =>
    have h := (digit_isDigit (n := n % 10) (Nat.mod_lt _ (by decide))).2
    have : digitsValue (digits (w + 1) n)
        = 10 * digitsValue (digits w (n / 10)) + ((digit (n % 10)).toNat - 48) := by
      simp [digits, digitsValue, List.foldl_append]
    have hpow : Nat.pow 10 (w + 1) = 10 * Nat.pow 10 w := Nat.pow_succ'
    rw [this, ih, h, hpow, Nat.mod_mul]
    omega

def isBlank (c : Char) : Bool :=
  let n := c.toNat
  (9 ≤ n && n ≤ 13) || n = 0x20 || n = 0x85 || n = 0xA0 || n = 0x1680
    || (0x2000 ≤ n && n ≤ 0x200A) || n = 0x2028 || n = 0x2029 || n = 0x202F || n = 0x205F
    || n = 0x3000

def trimChars (l : List Char) : List Char :=
  ((l.dropWhile isBlank).reverse.dropWhile isBlank).reverse

def trim (text : String) : String := String.ofList (trimChars text.toList)

def unsigned64? (text : String) : Option Nat :=
  let digits := match text.toList with
    | '+' :: rest => rest
    | all => all
  if digits ≠ [] ∧ digits.all Char.isDigit ∧ digitsValue digits < Nat.pow 2 64 then
    some (digitsValue digits)
  else none

end Statechart.Text
