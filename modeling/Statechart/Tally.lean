import Statechart.Bytes
import Statechart.Json.Decode

/-! Tallies: contexts of a fixed shape, with a count, a note and perhaps the last number that was
seen. -/

namespace Statechart

structure Tally where
  count : UInt32
  note : String
  last : Option Int64
  deriving DecidableEq

namespace Tally

open Json (record? required optional)

def toJson (t : Tally) : Json := .obj
  [("count", .int t.count.toNat), ("note", .str t.note),
    ("last", (t.last.map fun i => Json.int i.toInt).getD .null)]

def fieldNames : List String := ["count", "note", "last"]

def ofJson? (j : Json) : Option Tally :=
  match record? (fieldNames.map ([·])) j with
  | some [count, note, last] => do
    let last ← optional (Json.signed? 64) last
    return {
      count := .ofNat (← required (Json.unsigned? 32) count)
      note := ← required Json.string? note
      last := last.map Int64.ofInt }
  | _ => none

instance : JsonCoded Tally := ⟨toJson, ofJson?, .ofNames fieldNames⟩

instance : BytesCoded Tally where
  toBytes t := toBytes t.count ++ toBytes t.note ++ toBytes t.last
  ofBytes? l := do
    let (count, l) ← ofBytes? l
    let (note, l) ← ofBytes? l
    let (last, l) ← ofBytes? l
    return (⟨count, note, last⟩, l)

end Tally

end Statechart
