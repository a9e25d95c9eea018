/-! Values as bytes: whole numbers of fixed width with the least byte first, lists and texts behind
their length, optional values behind a byte that is one or zero, and records field by field. -/

namespace Statechart

abbrev Bytes := List UInt8

class BytesCoded (α : Type) where
  toBytes : α → Bytes
  ofBytes? : Bytes → Option (α × Bytes)

export BytesCoded (toBytes ofBytes?)

namespace Bytes

def ofNat : Nat → Nat → Bytes
  | 0, _ => []
  | width + 1, n => UInt8.ofNat n :: ofNat width (n / 256)

def toNat : Bytes → Nat
  | [] => 0
  | b :: rest => b.toNat + 256 * toNat rest

def take? (count : Nat) (l : Bytes) : Option (Bytes × Bytes) :=
  if count ≤ l.length then some (l.take count, l.drop count) else none

def takeNat? (width : Nat) (l : Bytes) : Option (Nat × Bytes) :=
  (take? width l).map fun (b, rest) => (toNat b, rest)

@[simp] theorem length_ofNat (width n : Nat) : (ofNat width n).length = width := by
  induction width generalizing n with
  | zero => rfl
  | succ w ih => simp [ofNat, ih]

theorem toNat_ofNat (width n : Nat) : toNat (ofNat width n) = n % Nat.pow 256 width := by
  induction width generalizing n with
  | zero => simp [ofNat, toNat, Nat.mod_one]
  | succ w ih =>
    have : Nat.pow 256 (w + 1) = 256 * Nat.pow 256 w := Nat.pow_succ'
    rw [ofNat, toNat, ih, this, Nat.mod_mul]
    simp

theorem take?_append (a b : Bytes) : take? a.length (a ++ b) = some (a, b) := by
  simp [take?]

theorem takeNat?_append {width n : Nat} (h : n < Nat.pow 256 width) (rest : Bytes) :
    takeNat? width (ofNat width n ++ rest) = some (n, rest) := by
  have := take?_append (ofNat width n) rest
  rw [length_ofNat] at this
  simp only [takeNat?, this, Option.map_some, toNat_ofNat, Nat.mod_eq_of_lt h]

end Bytes

open Bytes (takeNat? take?)

instance : BytesCoded UInt32 :=
  ⟨fun n => .ofNat 4 n.toNat, fun l => (takeNat? 4 l).map fun (n, rest) => (.ofNat n, rest)⟩

instance : BytesCoded UInt64 :=
  ⟨fun n => .ofNat 8 n.toNat, fun l => (takeNat? 8 l).map fun (n, rest) => (.ofNat n, rest)⟩

instance : BytesCoded Int64 :=
  ⟨fun i => .ofNat 8 i.toUInt64.toNat,
    fun l => (takeNat? 8 l).map fun (n, rest) => ((UInt64.ofNat n).toInt64, rest)⟩

instance : BytesCoded String where
  toBytes s := .ofNat 8 s.utf8ByteSize ++ s.toUTF8.data.toList
  ofBytes? l := do
    let (length, l) ← takeNat? 8 l
    let (bytes, l) ← take? length l
    return (← String.fromUTF8? ⟨bytes.toArray⟩, l)

section

variable {α β : Type} [BytesCoded α] [BytesCoded β]

instance : BytesCoded (Option α) where
  toBytes
    | none => [0]
    | some a => 1 :: toBytes a
  ofBytes?
    | 0 :: l => some (none, l)
    | 1 :: l => (ofBytes? l).map fun (a, l) => (some a, l)
    | _ => none

instance : BytesCoded (α × β) where
  toBytes p := toBytes p.1 ++ toBytes p.2
  ofBytes? l := do
    let (a, l) ← ofBytes? l
    let (b, l) ← ofBytes? l
    return ((a, b), l)

def Bytes.takeItems? (α : Type) [BytesCoded α] : Nat → Bytes → Option (List α × Bytes)
  | 0, l => some ([], l)
  | count + 1, l => do
    let (a, l) ← ofBytes? l
    let (items, l) ← Bytes.takeItems? α count l
    return (a :: items, l)

instance : BytesCoded (List α) where
  toBytes items := .ofNat 8 items.length ++ items.flatMap toBytes
  ofBytes? l := do
    let (length, l) ← takeNat? 8 l
    Bytes.takeItems? α length l

end

end Statechart
