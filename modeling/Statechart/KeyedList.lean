/-! Entries under distinct text keys, in document order. Putting a value under a key that is already
there replaces the value and keeps its place. -/

namespace Statechart

universe u

namespace Keyed

variable {ν : Type u}

def keys (l : List (String × ν)) : List String := l.map Prod.fst

def get? : List (String × ν) → String → Option ν
  | [], _ => none
  | (k, v) :: rest, key => if k = key then some v else get? rest key

def put (key : String) (value : ν) : List (String × ν) → List (String × ν)
  | [] => [(key, value)]
  | (k, v) :: rest => if k = key then (key, value) :: rest else (k, v) :: put key value rest

def collapse (l : List (String × ν)) : List (String × ν) :=
  l.foldl (fun acc entry => put entry.1 entry.2 acc) []

@[simp] theorem keys_nil : keys ([] : List (String × ν)) = [] := rfl

@[simp] theorem keys_cons (e : String × ν) (l : List (String × ν)) :
    keys (e :: l) = e.1 :: keys l := rfl

theorem mem_keys_put {key k : String} {value : ν} {l : List (String × ν)} :
    k ∈ keys (put key value l) ↔ k = key ∨ k ∈ keys l := by
  induction l with
  | nil => simp [put]
  | cons e l ih =>
    obtain ⟨k', v'⟩ := e
    by_cases h : k' = key
    · subst h; simp [put]
    · simp only [put, h, if_false, keys_cons, List.mem_cons, ih]
      grind

theorem nodup_keys_put {key : String} {value : ν} {l : List (String × ν)}
    (h : (keys l).Nodup) : (keys (put key value l)).Nodup := by
  induction l with
  | nil => simp [put]
  | cons e l ih =>
    obtain ⟨k', v'⟩ := e
    rw [keys_cons, List.nodup_cons] at h
    by_cases hk : k' = key
    · subst hk; simpa [put] using h
    · simp only [put, hk, if_false, keys_cons, List.nodup_cons, mem_keys_put]
      exact ⟨by grind, ih h.2⟩

theorem mem_of_mem_put {key : String} {value : ν} {e : String × ν} {l : List (String × ν)}
    (h : e ∈ put key value l) : e = (key, value) ∨ e ∈ l := by
  induction l with
  | nil => simpa [put] using h
  | cons d l ih =>
    simp only [put] at h
    split at h
    · exact (List.mem_cons.1 h).imp_right (List.mem_cons_of_mem _)
    · rcases List.mem_cons.1 h with h | h
      · exact .inr (h ▸ List.mem_cons_self)
      · exact (ih h).imp_right (List.mem_cons_of_mem _)

theorem put_of_not_mem {key : String} {value : ν} {l : List (String × ν)}
    (h : key ∉ keys l) : put key value l = l ++ [(key, value)] := by
  induction l with
  | nil => rfl
  | cons e l ih =>
    rw [keys_cons, List.mem_cons, not_or] at h
    simp [put, Ne.symm h.1, ih h.2]

theorem nodup_keys_foldl_put (l acc : List (String × ν)) (h : (keys acc).Nodup) :
    (keys (l.foldl (fun acc entry => put entry.1 entry.2 acc) acc)).Nodup := by
  induction l generalizing acc with
  | nil => exact h
  | cons e l ih => exact ih _ (nodup_keys_put h)

theorem nodup_keys_collapse (l : List (String × ν)) : (keys (collapse l)).Nodup :=
  nodup_keys_foldl_put l [] List.nodup_nil

theorem mem_of_mem_foldl_put {e : String × ν} (l acc : List (String × ν))
    (h : e ∈ l.foldl (fun acc entry => put entry.1 entry.2 acc) acc) : e ∈ acc ∨ e ∈ l := by
  induction l generalizing acc with
  | nil => exact .inl h
  | cons d l ih =>
    rcases ih _ h with h | h
    · rcases mem_of_mem_put h with rfl | h
      · exact .inr List.mem_cons_self
      · exact .inl h
    · exact .inr (List.mem_cons_of_mem _ h)

theorem mem_of_mem_collapse {e : String × ν} {l : List (String × ν)} (h : e ∈ collapse l) :
    e ∈ l :=
  (mem_of_mem_foldl_put l [] h).resolve_left List.not_mem_nil

theorem foldl_put_of_nodup (l acc : List (String × ν)) (h : (keys (acc ++ l)).Nodup) :
    l.foldl (fun acc entry => put entry.1 entry.2 acc) acc = acc ++ l := by
  induction l generalizing acc with
  | nil => simp
  | cons e l ih =>
    have hk : e.1 ∉ keys acc := by
      simp only [keys, List.map_append, List.map_cons, List.nodup_append] at h ⊢
      grind
    rw [List.foldl_cons, put_of_not_mem hk, ih _ (by simpa using h)]
    simp

theorem collapse_of_nodup {l : List (String × ν)} (h : (keys l).Nodup) : collapse l = l := by
  rw [collapse, foldl_put_of_nodup l [] (by simpa using h), List.nil_append]

end Keyed

structure KeyedList (ν : Type u) where
  entries : List (String × ν)
  nodup_keys : (Keyed.keys entries).Nodup

namespace KeyedList

variable {ν : Type u}

def empty : KeyedList ν := ⟨[], List.nodup_nil⟩

instance : Inhabited (KeyedList ν) := ⟨empty⟩

def ofList (l : List (String × ν)) : KeyedList ν := ⟨Keyed.collapse l, Keyed.nodup_keys_collapse l⟩

def keys (m : KeyedList ν) : List String := Keyed.keys m.entries

def get? (m : KeyedList ν) (key : String) : Option ν := Keyed.get? m.entries key

def put (m : KeyedList ν) (key : String) (value : ν) : KeyedList ν :=
  ⟨Keyed.put key value m.entries, Keyed.nodup_keys_put m.nodup_keys⟩

def isEmpty (m : KeyedList ν) : Bool := m.entries.isEmpty

theorem ext {m n : KeyedList ν} (h : m.entries = n.entries) : m = n := by
  cases m; cases n; cases h; rfl

theorem ofList_entries (m : KeyedList ν) : ofList m.entries = m :=
  ext (Keyed.collapse_of_nodup m.nodup_keys)

end KeyedList

end Statechart
