import Mathlib.Tactic.Common
import Statechart.Bytes

/-! Reading bytes back. What was written is read as it was, whatever stands behind it. -/

namespace Statechart

/-- Lengths are written as numbers of 64 bits, so what is longer is not read back. -/
class LawfulBytes (α : Type) [BytesCoded α] : Prop where
  length_pos (a : α) : 0 < (toBytes a).length
  read {a : α} (h : (toBytes a).length < Nat.pow 2 64) (rest : Bytes) :
    ofBytes? (toBytes a ++ rest) = some (a, rest)
  extend {l rest : Bytes} {a : α} (h : ofBytes? l = some (a, rest)) (more : Bytes) :
    ofBytes? (l ++ more) = some (a, rest ++ more)

namespace Bytes

lemma take?_extend {count : Nat} {l taken rest : Bytes} (h : take? count l = some (taken, rest))
    (more : Bytes) : take? count (l ++ more) = some (taken, rest ++ more) := by
  rw [take?] at h ⊢
  split at h
  · rename_i hle
    obtain ⟨rfl, rfl⟩ := Prod.mk.inj (Option.some.inj h)
    rw [if_pos (by rw [List.length_append]; omega), List.take_append_of_le_length hle,
      List.drop_append_of_le_length hle]
  · exact absurd h (by simp)

lemma takeNat?_extend {width n : Nat} {l rest : Bytes} (h : takeNat? width l = some (n, rest))
    (more : Bytes) : takeNat? width (l ++ more) = some (n, rest ++ more) := by
  obtain ⟨⟨taken, rest'⟩, htake, h⟩ := Option.map_eq_some_iff.1 h
  obtain ⟨rfl, rfl⟩ := Prod.mk.inj h
  rw [takeNat?, take?_extend htake, Option.map_some]

end Bytes

open Bytes (takeNat? take? takeItems? takeNat?_append take?_append takeNat?_extend take?_extend)

namespace LawfulBytes

variable {α β : Type} [BytesCoded α] [BytesCoded β]

lemma cut [LawfulBytes α] {a : α} (h : (toBytes a).length < Nat.pow 2 64) {l : Bytes}
    (hl : l <+: toBytes a) (hne : l ≠ toBytes a) : (ofBytes? l : Option (α × Bytes)) = none := by
  obtain ⟨more, hmore⟩ := hl
  cases hread : (ofBytes? l : Option (α × Bytes)) with
  | none => rfl
  | some r =>
    have hwhole := read h []
    rw [List.append_nil, ← hmore, extend hread more] at hwhole
    have hrest : r.2 ++ more = [] := congrArg Prod.snd (Option.some.inj hwhole)
    rw [(List.append_eq_nil_iff.1 hrest).2, List.append_nil] at hmore
    exact absurd hmore hne

lemma of_width (width : Nat) (number : α → Nat) (back : Nat → α) (hwidth : 0 < width)
    (hnumber : ∀ a, number a < Nat.pow 256 width) (hback : ∀ a, back (number a) = a)
    (hto : ∀ a : α, toBytes a = .ofNat width (number a))
    (hof : ∀ l, ofBytes? l = (takeNat? width l).map fun x => (back x.1, x.2)) :
    LawfulBytes α where
  length_pos a := by rwa [hto, Bytes.length_ofNat]
  read {a} _ rest := by
    rw [hto, hof, takeNat?_append (hnumber a), Option.map_some, hback]
  extend h more := by
    rw [hof] at h ⊢
    obtain ⟨⟨n, rest⟩, hread, h⟩ := Option.map_eq_some_iff.1 h
    obtain ⟨rfl, rfl⟩ := Prod.mk.inj h
    rw [takeNat?_extend hread, Option.map_some]

lemma of_map [LawfulBytes β] (parts : α → β) (whole : β → α) (hwhole : ∀ a, whole (parts a) = a)
    (hto : ∀ a, toBytes a = toBytes (parts a))
    (hof : ∀ l, ofBytes? l = (ofBytes? l).bind fun x => some (whole x.1, x.2)) :
    LawfulBytes α where
  length_pos a := by
    rw [hto]
    exact length_pos _
  read {a} h rest := by
    rw [hto] at h
    rw [hto, hof, read h, Option.bind_some, hwhole]
  extend h more := by
    rw [hof] at h ⊢
    obtain ⟨⟨b, rest⟩, hread, h⟩ := Option.bind_eq_some_iff.1 h
    obtain ⟨rfl, rfl⟩ := Prod.mk.inj (Option.some.inj h)
    rw [extend hread, Option.bind_some]

end LawfulBytes

instance : LawfulBytes UInt32 :=
  .of_width 4 UInt32.toNat UInt32.ofNat (by decide) UInt32.toNat_lt
    (fun _ => UInt32.ofNat_toNat) (fun _ => rfl) fun _ => rfl

instance : LawfulBytes UInt64 :=
  .of_width 8 UInt64.toNat UInt64.ofNat (by decide) UInt64.toNat_lt
    (fun _ => UInt64.ofNat_toNat) (fun _ => rfl) fun _ => rfl

instance : LawfulBytes Int64 := by
  have hback (i : Int64) : (UInt64.ofNat i.toUInt64.toNat).toInt64 = i := by
    rw [UInt64.ofNat_toNat, Int64.toInt64_toUInt64]
  exact .of_width 8 (fun i => i.toUInt64.toNat) (fun n => (UInt64.ofNat n).toInt64) (by decide)
    (fun i => i.toUInt64.toNat_lt) hback (fun _ => rfl) fun _ => rfl

lemma fromUTF8?_toUTF8 (s : String) : String.fromUTF8? ⟨s.toUTF8.data.toList.toArray⟩ = some s := by
  rw [Array.toArray_toList, String.fromUTF8?]
  exact dif_pos s.isValidUTF8

instance : LawfulBytes String where
  length_pos s := by
    simp only [toBytes, List.length_append, Bytes.length_ofNat]
    omega
  read {s} h rest := by
    have hlength : s.utf8ByteSize = s.toUTF8.data.toList.length := rfl
    simp only [toBytes, List.length_append, Bytes.length_ofNat, ← hlength] at h
    have hsize : s.utf8ByteSize < Nat.pow 256 8 := Nat.lt_of_le_of_lt (Nat.le_add_left _ _) h
    have hread := takeNat?_append hsize (s.toUTF8.data.toList ++ rest)
    have htake := take?_append s.toUTF8.data.toList rest
    simp only [toBytes, ofBytes?, List.append_assoc, hread, Option.bind_eq_bind, Option.bind_some]
    rw [hlength, htake, Option.bind_some, fromUTF8?_toUTF8]
    rfl
  extend h more := by
    obtain ⟨⟨length, l⟩, hlength, h⟩ := Option.bind_eq_some_iff.1 h
    obtain ⟨⟨bytes, l⟩, hbytes, h⟩ := Option.bind_eq_some_iff.1 h
    obtain ⟨s, hs, h⟩ := Option.bind_eq_some_iff.1 h
    obtain ⟨rfl, rfl⟩ := Prod.mk.inj (Option.some.inj h)
    simp only [ofBytes?, takeNat?_extend hlength, take?_extend hbytes, hs, Option.bind_eq_bind,
      Option.bind_some, Option.pure_def]

section

variable {α β : Type} [BytesCoded α] [BytesCoded β] [LawfulBytes α]

instance : LawfulBytes (Option α) where
  length_pos
    | none => Nat.one_pos
    | some _ => Nat.succ_pos _
  read {o} h rest := by
    cases o with
    | none => rfl
    | some a =>
      have hread := LawfulBytes.read (a := a) (Nat.lt_of_succ_lt h) rest
      simp [toBytes, ofBytes?, hread]
  extend {l rest o} h more := by
    simp only [ofBytes?] at h ⊢
    split at h
    · obtain ⟨rfl, rfl⟩ := Prod.mk.inj (Option.some.inj h)
      rfl
    · obtain ⟨⟨a, rest⟩, hread, h⟩ := Option.map_eq_some_iff.1 h
      obtain ⟨rfl, rfl⟩ := Prod.mk.inj h
      simp [LawfulBytes.extend hread]
    · exact absurd h (by simp)

omit [LawfulBytes α] in
lemma ofBytes?_pair_bind {γ : Type} (l : Bytes) (f : (α × β) × Bytes → Option γ) :
    (ofBytes? l).bind f =
      (ofBytes? l).bind fun x => (ofBytes? x.2).bind fun y => f ((x.1, y.1), y.2) := by
  change ((ofBytes? l).bind _).bind f = _
  rw [Option.bind_assoc]
  refine congrArg _ (funext fun x => ?_)
  change ((ofBytes? x.2).bind _).bind f = _
  rw [Option.bind_assoc]
  rfl

instance [LawfulBytes β] : LawfulBytes (α × β) where
  length_pos p := by
    have hfirst := LawfulBytes.length_pos p.1
    simp only [toBytes, List.length_append]
    omega
  read {p} h rest := by
    simp only [toBytes, List.length_append] at h
    have hfirst := LawfulBytes.read (a := p.1) (Nat.lt_of_le_of_lt (Nat.le_add_right _ _) h)
      (toBytes p.2 ++ rest)
    have hsecond := LawfulBytes.read (a := p.2) (Nat.lt_of_le_of_lt (Nat.le_add_left _ _) h) rest
    simp only [toBytes, ofBytes?, List.append_assoc, Option.bind_eq_bind, hfirst, hsecond,
      Option.bind_some, Option.pure_def]
  extend {l rest p} h more := by
    obtain ⟨⟨a, l₁⟩, ha, h⟩ := Option.bind_eq_some_iff.1 h
    obtain ⟨⟨b, l₂⟩, hb, h⟩ := Option.bind_eq_some_iff.1 h
    obtain ⟨rfl, rfl⟩ := Prod.mk.inj (Option.some.inj h)
    simp only [ofBytes?, LawfulBytes.extend ha, LawfulBytes.extend hb, Option.bind_eq_bind,
      Option.bind_some, Option.pure_def]

lemma length_le_flatMap_toBytes (items : List α) :
    items.length ≤ (items.flatMap toBytes).length := by
  induction items with
  | nil => exact Nat.le_refl _
  | cons a items ih =>
    have hfirst := LawfulBytes.length_pos a
    rw [List.flatMap_cons, List.length_append, List.length_cons]
    omega

lemma takeItems?_append {items : List α} (h : (items.flatMap toBytes).length < Nat.pow 2 64)
    (rest : Bytes) :
    takeItems? α items.length (items.flatMap toBytes ++ rest) = some (items, rest) := by
  induction items with
  | nil => rfl
  | cons a items ih =>
    rw [List.flatMap_cons, List.length_append] at h
    have hfirst := LawfulBytes.read (a := a) (Nat.lt_of_le_of_lt (Nat.le_add_right _ _) h)
      (items.flatMap toBytes ++ rest)
    have hothers := ih (Nat.lt_of_le_of_lt (Nat.le_add_left _ _) h)
    rw [List.length_cons, List.flatMap_cons, List.append_assoc, takeItems?]
    simp only [hfirst, hothers, Option.bind_eq_bind, Option.bind_some, Option.pure_def]

lemma takeItems?_extend {count : Nat} {l rest : Bytes} {items : List α}
    (h : takeItems? α count l = some (items, rest)) (more : Bytes) :
    takeItems? α count (l ++ more) = some (items, rest ++ more) := by
  induction count generalizing l items with
  | zero =>
    obtain ⟨rfl, rfl⟩ := Prod.mk.inj (Option.some.inj h)
    rfl
  | succ count ih =>
    obtain ⟨⟨a, l₁⟩, ha, h⟩ := Option.bind_eq_some_iff.1 h
    obtain ⟨⟨items, l₂⟩, hitems, h⟩ := Option.bind_eq_some_iff.1 h
    obtain ⟨rfl, rfl⟩ := Prod.mk.inj (Option.some.inj h)
    rw [takeItems?]
    simp only [LawfulBytes.extend ha, ih hitems, Option.bind_eq_bind, Option.bind_some,
      Option.pure_def]

instance : LawfulBytes (List α) where
  length_pos items := by
    simp only [toBytes, List.length_append, Bytes.length_ofNat]
    omega
  read {items} h rest := by
    simp only [toBytes, List.length_append, Bytes.length_ofNat] at h
    have hitems : (items.flatMap toBytes).length < Nat.pow 2 64 :=
      Nat.lt_of_le_of_lt (Nat.le_add_left _ _) h
    have hsize : items.length < Nat.pow 256 8 :=
      Nat.lt_of_le_of_lt (length_le_flatMap_toBytes items) hitems
    have hlength := takeNat?_append hsize (items.flatMap toBytes ++ rest)
    simp only [toBytes, ofBytes?, List.append_assoc, hlength, takeItems?_append hitems,
      Option.bind_eq_bind, Option.bind_some]
  extend {l rest items} h more := by
    obtain ⟨⟨length, l₁⟩, hlength, h⟩ := Option.bind_eq_some_iff.1 h
    simp only [ofBytes?, takeNat?_extend hlength, takeItems?_extend h, Option.bind_eq_bind,
      Option.bind_some]

end

end Statechart
