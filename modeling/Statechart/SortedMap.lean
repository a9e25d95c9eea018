/-! Maps held as a list of entries with strictly increasing keys, so that two maps with the same
look-ups are equal. -/

namespace Statechart

universe u v

variable {κ : Type u} {ν : Type v} [LT κ]

namespace SortedEntries

theorem eq_of_not_lt [LE κ] [Std.IsLinearOrder κ] [Std.LawfulOrderLT κ] {a b : κ} (h : ¬a < b)
    (h' : ¬b < a) : a = b :=
  (Std.lt_trichotomy a b).elim (absurd · h) fun t => t.elim id (absurd · h')

variable [DecidableLT κ]

def insert (key : κ) (value : ν) : List (κ × ν) → List (κ × ν)
  | [] => [(key, value)]
  | (k, v) :: rest =>
    if key < k then (key, value) :: (k, v) :: rest
    else if k < key then (k, v) :: insert key value rest
    else (key, value) :: rest

theorem mem_insert {key : κ} {value : ν} {e : κ × ν} {l : List (κ × ν)}
    (h : e ∈ insert key value l) : e = (key, value) ∨ e ∈ l := by
  induction l with
  | nil => simpa [insert] using h
  | cons d l ih =>
    obtain ⟨k, v⟩ := d
    simp only [insert] at h
    split at h
    · simpa using h
    · split at h
      · rcases List.mem_cons.1 h with h | h
        · exact .inr (h ▸ List.mem_cons_self)
        · exact (ih h).imp_right (List.mem_cons_of_mem _)
      · exact (List.mem_cons.1 h).imp_right (List.mem_cons_of_mem _)

theorem pairwise_insert [LE κ] [Std.IsLinearOrder κ] [Std.LawfulOrderLT κ] {key : κ} {value : ν}
    {l : List (κ × ν)} (h : l.Pairwise (·.1 < ·.1)) :
    (insert key value l).Pairwise (·.1 < ·.1) := by
  induction l with
  | nil => simp [insert]
  | cons d l ih =>
    obtain ⟨k, v⟩ := d
    obtain ⟨hd, hl⟩ := List.pairwise_cons.1 h
    simp only [insert]
    split
    · rename_i hlt
      refine List.pairwise_cons.2 ⟨fun e he => ?_, h⟩
      rcases List.mem_cons.1 he with rfl | he
      · exact hlt
      · exact Std.lt_trans hlt (hd e he)
    · split
      · rename_i hlt
        refine List.pairwise_cons.2 ⟨fun e he => ?_, ih hl⟩
        rcases mem_insert he with rfl | he
        · exact hlt
        · exact hd e he
      · rename_i h₁ h₂
        obtain rfl := eq_of_not_lt h₁ h₂
        exact List.pairwise_cons.2 ⟨hd, hl⟩

theorem find?_insert [DecidableEq κ] [LE κ] [Std.IsLinearOrder κ] [Std.LawfulOrderLT κ]
    {key k : κ} {value : ν} {l : List (κ × ν)} :
    ((insert key value l).find? (·.1 = k)).map Prod.snd =
      if k = key then some value else (l.find? (·.1 = k)).map Prod.snd := by
  induction l with
  | nil => by_cases h : k = key <;> simp [insert, h, Ne.symm]
  | cons d l ih =>
    obtain ⟨k', v'⟩ := d
    simp only [insert]
    split
    · by_cases h : k = key
      · simp [h]
      · simp [h, Ne.symm h]
    · split
      · rename_i hlt
        by_cases hk : k' = k
        · subst hk
          have hne : k' ≠ key := fun e => Std.lt_irrefl (e ▸ hlt)
          simp [hne]
        · simp [hk, ih]
      · rename_i h₁ h₂
        obtain rfl := eq_of_not_lt h₁ h₂
        by_cases h : k = key
        · simp [h]
        · simp [h, Ne.symm h]

end SortedEntries

structure SortedMap (κ : Type u) (ν : Type v) [LT κ] where
  entries : List (κ × ν)
  sorted : entries.Pairwise (·.1 < ·.1)

namespace SortedMap

def empty : SortedMap κ ν := ⟨[], List.Pairwise.nil⟩

instance : Inhabited (SortedMap κ ν) := ⟨empty⟩

theorem ext {m n : SortedMap κ ν} (h : m.entries = n.entries) : m = n := by
  cases m; cases n; cases h; rfl

def keys (m : SortedMap κ ν) : List κ := m.entries.map Prod.fst

def values (m : SortedMap κ ν) : List ν := m.entries.map Prod.snd

def size (m : SortedMap κ ν) : Nat := m.entries.length

def isEmpty (m : SortedMap κ ν) : Bool := m.entries.isEmpty

def get? [DecidableEq κ] (m : SortedMap κ ν) (key : κ) : Option ν :=
  (m.entries.find? (·.1 = key)).map Prod.snd

def contains [DecidableEq κ] (m : SortedMap κ ν) (key : κ) : Bool :=
  m.entries.any (·.1 = key)

def erase [DecidableEq κ] (m : SortedMap κ ν) (key : κ) : SortedMap κ ν :=
  ⟨m.entries.filter (·.1 ≠ key), m.sorted.filter _⟩

variable [DecidableLT κ] [LE κ] [Std.IsLinearOrder κ] [Std.LawfulOrderLT κ]

def insert (m : SortedMap κ ν) (key : κ) (value : ν) : SortedMap κ ν :=
  ⟨SortedEntries.insert key value m.entries, SortedEntries.pairwise_insert m.sorted⟩

theorem get?_insert [DecidableEq κ] (m : SortedMap κ ν) (key k : κ) (value : ν) :
    (m.insert key value).get? k = if k = key then some value else m.get? k :=
  SortedEntries.find?_insert

def ofList (l : List (κ × ν)) : SortedMap κ ν :=
  l.foldl (fun m e => m.insert e.1 e.2) empty

def union (m n : SortedMap κ ν) : SortedMap κ ν :=
  n.entries.foldl (fun m e => m.insert e.1 e.2) m

end SortedMap

end Statechart
