import Mathlib.Tactic.Common
import Statechart.Text.Split

/-! Cutting apart what has been joined. With a delimiter of one character, parts that are not empty
and do not contain it are found again. -/

namespace Statechart.Text

variable {δ : Char} {delimiter : String} {parts : List String}

lemma consHead_eq_modifyHead (c : Char) {l : List (List Char)} (h : l ≠ []) :
    consHead c l = l.modifyHead (c :: ·) := by
  cases l with
  | nil => exact absurd rfl h
  | cons seg segs => rfl

lemma cuts_singleton (δ : Char) (text : List Char) : cuts [δ] 0 text = text.splitOn δ := by
  rw [List.splitOn_eq_splitOnP]
  induction text with
  | nil => rfl
  | cons c text ih =>
    have hstarts : [δ].isPrefixOf (c :: text) = (c == δ) := by
      rw [List.isPrefixOf_cons_cons, List.isPrefixOf_nil_left, Bool.and_true, BEq.comm]
    rw [cuts, hstarts, List.splitOnP_cons_eq_if_modifyHead, List.length_singleton, ih,
      consHead_eq_modifyHead c (ih ▸ cuts_ne_nil [δ] 0 text)]

lemma split_join (hd : delimiter.toList = [δ]) (hne : parts ≠ [])
    (hparts : ∀ part ∈ parts, δ ∉ part.toList) :
    split delimiter (join delimiter parts) = parts := by
  have hcut : ∀ l ∈ parts.map String.toList, δ ∉ l := by
    intro l hl
    obtain ⟨part, hpart, rfl⟩ := List.mem_map.1 hl
    exact hparts part hpart
  rw [split, hd, if_neg (List.cons_ne_nil δ []), join, String.toList_intercalate, hd,
    cuts_singleton, List.splitOn_intercalate δ hcut (by simpa using hne), List.map_map]
  simp

lemma segments_join (hd : delimiter.toList = [δ]) (hne : parts ≠ [])
    (hparts : ∀ part ∈ parts, part ≠ "" ∧ δ ∉ part.toList) :
    segments delimiter (join delimiter parts) = parts := by
  rw [segments, split_join hd hne fun part hpart => (hparts part hpart).2]
  apply List.filter_eq_self.2
  intro part hpart
  simpa using (hparts part hpart).1

lemma intercalate_consHead (sep : List Char) (c : Char) {l : List (List Char)} (h : l ≠ []) :
    sep.intercalate (consHead c l) = c :: sep.intercalate l := by
  cases l with
  | nil => exact absurd rfl h
  | cons seg segs => exact List.intercalate_cons_cons_left

lemma intercalate_cuts {sep : List Char} (hs : sep ≠ []) (skip : Nat) (text : List Char) :
    sep.intercalate (cuts sep skip text) = text.drop skip := by
  induction text generalizing skip with
  | nil => simp [cuts]
  | cons c rest ih =>
    cases skip with
    | succ skip =>
      rw [cuts, List.drop_succ_cons]
      exact ih skip
    | zero =>
      rw [cuts]
      split
      · rename_i hstarts
        obtain ⟨after, hafter⟩ := List.isPrefixOf_iff_prefix.1 hstarts
        obtain ⟨x, sep', rfl⟩ := List.exists_cons_of_ne_nil hs
        rw [List.cons_append, List.cons.injEq] at hafter
        rw [List.intercalate_cons_of_ne_nil (cuts_ne_nil _ _ _), ih, ← hafter.1, ← hafter.2,
          List.length_cons, Nat.add_sub_cancel, List.drop_left, List.nil_append, List.drop_zero,
          List.cons_append]
      · rw [intercalate_consHead _ _ (cuts_ne_nil _ _ _), ih]
        rfl

lemma intercalate_nil_left (l : List (List Char)) : [].intercalate l = l.flatten := by
  induction l with
  | nil => rfl
  | cons seg segs ih =>
    cases segs with
    | nil => simp
    | cons seg' segs =>
      rw [List.intercalate_cons_cons, ih, List.append_nil]
      rfl

lemma join_split (delimiter text : String) : join delimiter (split delimiter text) = text := by
  apply String.toList_injective
  rw [join, String.toList_intercalate, split]
  split
  · rename_i hd
    have hpieces : String.toList ∘ String.singleton = fun c => [c] := by
      funext c
      exact String.toList_singleton c
    rw [hd, intercalate_nil_left]
    simp [hpieces, ← List.flatMap_def]
  · rename_i hd
    have hpieces : String.toList ∘ String.ofList = id := by
      funext piece
      exact String.toList_ofList
    rw [List.map_map, hpieces, List.map_id, intercalate_cuts hd, List.drop_zero]

lemma split_ne_nil (delimiter text : String) : split delimiter text ≠ [] := by
  rw [split]
  split
  · exact List.cons_ne_nil _ _
  · simpa using cuts_ne_nil _ _ _

end Statechart.Text
