import Mathlib.Tactic.Common
import Statechart.Event
import Statechart.Proofs.Json.Fields
import Statechart.Proofs.SortedMap
import Statechart.Proofs.Timestamp
import Statechart.Snapshot
import Statechart.Tally

/-! Data that is read back from the JSON it is written as: numbers, timestamps, events, state
values, and the contexts that are free-form values, tallies or nothing at all. -/

namespace Statechart

class LawfulJson (α : Type) [JsonCoded α] : Prop where
  read (a : α) : ofJson? (toJson a) = some a

namespace Json

variable {α : Type}

lemma unsigned?_int {bits n : Nat} (h : n < Nat.pow 2 bits) :
    unsigned? bits (.int n) = some n :=
  if_pos ⟨Int.natCast_nonneg n, Int.ofNat_lt.2 h⟩

lemma signed?_int {bits : Nat} {i : Int} (hlow : -(Nat.pow 2 (bits - 1) : Int) ≤ i)
    (hhigh : i < Nat.pow 2 (bits - 1)) : signed? bits (.int i) = some i :=
  if_pos ⟨hlow, hhigh⟩

lemma list?_strs (l : List String) : list? string? (strs l) = some l :=
  mapM_map fun _ _ => rfl

lemma optional_getD_null {toJson : α → Json} {read? : Json → Option α} {o : Option α}
    (h : ∀ x ∈ o, toJson x ≠ .null ∧ read? (toJson x) = some x) :
    optional read? (some ((o.map toJson).getD .null)) = some o := by
  cases o with
  | none => rfl
  | some x => exact optional_map h

end Json

open Json (record? required optional optional_getD_null record?_obj
  record?_objOf_of_aligned string?)

instance : LawfulJson Value := ⟨fun v => congrArg some v.ofJson_json⟩

instance : LawfulJson Unit := ⟨fun _ => rfl⟩

instance : LawfulJson UInt32 where
  read n := by
    change (Json.unsigned? 32 (.int n.toNat)).map UInt32.ofNat = some n
    rw [Json.unsigned?_int n.toNat_lt, Option.map_some, UInt32.ofNat_toNat]

instance : LawfulJson Timestamp where
  read t := by
    change (some t.render).bind Timestamp.read? = some t
    rw [Option.bind_some, Timestamp.read?_render]

lemma required_lawful {α : Type} [JsonCoded α] [LawfulJson α] (a : α) :
    required ofJson? (some (toJson a)) = some a :=
  LawfulJson.read a

lemma required_strs (l : List String) : required (Json.list? string?) (some (.strs l)) = some l :=
  Json.list?_strs l

lemma required_string (s : String) : required string? (some (.str s)) = some s := rfl

lemma required_unsigned {bits n : Nat} (h : n < Nat.pow 2 bits) :
    required (Json.unsigned? bits) (some (.int n)) = some n :=
  Json.unsigned?_int h

lemma optional_int64 (o : Option Int64) :
    optional (Json.signed? 64) (some ((o.map fun i => Json.int i.toInt).getD .null)) =
      some (o.map Int64.toInt) := by
  have hread : ∀ i ∈ o.map Int64.toInt, Json.int i ≠ .null ∧
      Json.signed? 64 (.int i) = some i := by
    intro i hi
    obtain ⟨i, -, rfl⟩ := Option.map_eq_some_iff.1 hi
    exact ⟨by simp [Json.int], Json.signed?_int i.le_toInt i.toInt_lt⟩
  have hoptional := optional_getD_null hread
  rwa [Option.map_map] at hoptional

instance : LawfulJson Tally where
  read t := by
    have hrecord : record? (Tally.fieldNames.map ([·])) t.toJson =
        some [some (.int t.count.toNat), some (.str t.note),
          some ((t.last.map fun i => Json.int i.toInt).getD .null)] :=
      record?_obj rfl
    have hlast : (t.last.map Int64.toInt).map Int64.ofInt = t.last := by
      rw [Option.map_map, show Int64.ofInt ∘ Int64.toInt = id from funext Int64.ofInt_toInt,
        Option.map_id_apply]
    change Tally.ofJson? t.toJson = some t
    simp only [Tally.ofJson?, hrecord, optional_int64, required_string,
      required_unsigned t.count.toNat_lt, Option.bind_eq_bind, Option.bind_some, Option.pure_def,
      UInt32.ofNat_toNat, hlast]

lemma Value.eq_null_of_isNull {v : Value} (h : v.isNull) : v = .null := by
  apply Value.ext
  obtain ⟨j, hj⟩ := v
  cases j with
  | null => rfl
  | _ => exact absurd h (by simp [Value.isNull, Json.isNull])

instance : LawfulJson Event where
  read e := by
    have hrecord : record? (Event.fieldNames.map ([·])) e.toJson =
        some [some (.str e.type), if e.data.isNull then none else some e.data.json] :=
      record?_objOf_of_aligned rfl
    have hdata : Json.defaulted .null (some ∘ Value.ofJson)
        (if e.data.isNull then none else some e.data.json) = some e.data := by
      split
      · rename_i hnull
        rw [Value.eq_null_of_isNull hnull]
        rfl
      · exact congrArg some e.data.ofJson_json
    change Event.ofJson? e.toJson = some e
    simp only [Event.ofJson?, hrecord, hdata, required_string, Option.bind_eq_bind,
      Option.bind_some, Option.pure_def]

namespace StateValue

lemma ext {v w : StateValue} (h : v.tree = w.tree) : v = w := by
  cases v; cases w; cases h; rfl

mutual

lemma ofJson?_toJson : ∀ {t : StateTree} (h : t.Sorted), ofJson? t.toJson = some ⟨t, h⟩
  | .leaf _, _ => rfl
  | .branch entries, h => by
    obtain ⟨l, hl, hentries⟩ := ofJsonAll?_toJsonAll h.2
    have hsorted : l.Pairwise (·.1 < ·.1) := by
      have hpairwise := h.1
      rw [← hentries, List.pairwise_map] at hpairwise
      exact hpairwise
    have hmap : SortedMap.ofList l = ⟨l, hsorted⟩ := SortedMap.ofList_entries ⟨l, hsorted⟩
    rw [StateTree.toJson, ofJson?, hl, Option.map_some, Function.comp_apply, hmap]
    exact congrArg some (ext (congrArg StateTree.branch hentries))

lemma ofJsonAll?_toJsonAll : ∀ {entries : List (String × StateTree)},
    StateTree.SortedAll entries → ∃ l, ofJsonAll? (StateTree.toJsonAll entries) = some l ∧
      l.map (fun e => (e.1, e.2.tree)) = entries
  | [], _ => ⟨[], rfl, rfl⟩
  | (key, t) :: rest, h => by
    obtain ⟨l, hl, hrest⟩ := ofJsonAll?_toJsonAll h.2
    refine ⟨(key, ⟨t, h.1⟩) :: l, ?_, congrArg _ hrest⟩
    rw [StateTree.toJsonAll, ofJsonAll?, ofJson?_toJson h.1, hl]
    rfl

end

end StateValue

instance : LawfulJson StateValue := ⟨fun v => StateValue.ofJson?_toJson v.sorted⟩

lemma entries?_map {α : Type} {toJson : α → Json} {read? : Json → Option α}
    (h : ∀ a, read? (toJson a) = some a) (m : SortedMap String α) :
    ((Json.obj (m.entries.map fun e => (e.1, toJson e.2))).entries? read?).map SortedMap.ofList =
      some m := by
  have hentries : (Json.obj (m.entries.map fun e => (e.1, toJson e.2))).entries? read? =
      some m.entries := by
    refine Json.mapM_map fun e _ => ?_
    rw [h, Option.map_some]
  rw [hentries, Option.map_some, SortedMap.ofList_entries]

lemma idListsOfJson?_idListsToJson (m : SortedMap String (List String)) :
    idListsOfJson? (idListsToJson m) = some m :=
  entries?_map Json.list?_strs m

end Statechart
