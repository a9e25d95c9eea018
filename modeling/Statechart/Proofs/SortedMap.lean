import Mathlib.Data.List.Perm.Basic
import Mathlib.Tactic.Common
import Statechart.SortedMap

/-! Entries of sorted maps. A map that is made of entries with different keys has just these
entries, and no two maps have the same entries. -/

namespace Statechart

variable {κ ν : Type} [LT κ]

namespace SortedEntries

variable [DecidableLT κ] [LE κ] [Std.IsLinearOrder κ] [Std.LawfulOrderLT κ] {key : κ} {value : ν}
  {l : List (κ × ν)}

lemma insert_perm (h : key ∉ l.map Prod.fst) : (insert key value l).Perm ((key, value) :: l) := by
  induction l with
  | nil => exact .refl _
  | cons e l ih =>
    obtain ⟨k, v⟩ := e
    rw [List.map_cons, List.mem_cons, not_or] at h
    rw [insert]
    split
    · exact .refl _
    · split
      · exact ((ih h.2).cons (k, v)).trans (.swap ..)
      · rename_i h₁ h₂
        exact absurd (eq_of_not_lt h₁ h₂) h.1

end SortedEntries

namespace SortedMap

lemma mem_of_get? [DecidableEq κ] {a : SortedMap κ ν} {key : κ} {value : ν}
    (h : a.get? key = some value) : (key, value) ∈ a.entries := by
  obtain ⟨e, he, hv⟩ := Option.map_eq_some_iff.1 h
  have hkey : e.1 = key := by simpa using List.find?_some he
  have hmem := List.mem_of_find?_eq_some he
  rwa [← hkey, ← hv]

lemma nodup_keys [LE κ] [Std.IsPreorder κ] [Std.LawfulOrderLT κ] (a : SortedMap κ ν) :
    (a.entries.map Prod.fst).Nodup := by
  apply List.pairwise_map.2
  apply a.sorted.imp
  intro e e' hlt he
  exact Std.lt_irrefl (he ▸ hlt)

variable [LE κ] [Std.IsLinearOrder κ] [Std.LawfulOrderLT κ] {a b : SortedMap κ ν}
  {l : List (κ × ν)}

lemma eq_of_perm (h : a.entries.Perm b.entries) : a = b := by
  apply ext
  apply h.eq_of_pairwise ?_ a.sorted b.sorted
  intro e e' _ _ hlt hlt'
  exact absurd (Std.lt_trans hlt hlt') Std.lt_irrefl

variable [DecidableLT κ]

lemma foldl_insert_perm (h : (l.map Prod.fst ++ a.entries.map Prod.fst).Nodup) :
    (l.foldl (fun a e => a.insert e.1 e.2) a).entries.Perm (l ++ a.entries) := by
  induction l generalizing a with
  | nil => exact .refl _
  | cons e l ih =>
    rw [List.map_cons, List.cons_append, List.nodup_cons, List.mem_append, not_or] at h
    have hinsert : (a.insert e.1 e.2).entries.Perm (e :: a.entries) :=
      SortedEntries.insert_perm h.1.2
    have hmiddle : (l ++ (a.insert e.1 e.2).entries).Perm (e :: (l ++ a.entries)) :=
      (hinsert.append_left l).trans List.perm_middle
    refine (ih ?_).trans hmiddle
    rw [← List.map_append] at h ⊢
    rw [(hmiddle.map Prod.fst).nodup_iff, List.map_cons, List.nodup_cons]
    refine ⟨?_, h.2⟩
    rw [List.map_append, List.mem_append, not_or]
    exact h.1

lemma ofList_perm (h : (l.map Prod.fst).Nodup) : (ofList l).entries.Perm l := by
  have hperm := foldl_insert_perm (a := (empty : SortedMap κ ν)) (l := l) (by simpa [empty] using h)
  simpa [ofList, empty] using hperm

lemma ofList_entries (a : SortedMap κ ν) : ofList a.entries = a :=
  eq_of_perm (ofList_perm a.nodup_keys)

end SortedMap

end Statechart
