/-! Finite sets held as strictly increasing lists, so that sets with the same members are equal. -/

namespace Statechart

universe u

variable {α : Type u} [LT α]

namespace SortedElems

section

variable [DecidableLT α]

def insert (a : α) : List α → List α
  | [] => [a]
  | b :: rest => if a < b then a :: b :: rest else if b < a then b :: insert a rest else b :: rest

variable [LE α] [Std.IsLinearOrder α] [Std.LawfulOrderLT α]

theorem mem_insert {a x : α} {l : List α} : x ∈ insert a l ↔ x = a ∨ x ∈ l := by
  induction l with
  | nil => simp [insert]
  | cons b l ih =>
    simp only [insert]
    split
    · simp
    · split
      · simp only [List.mem_cons, ih]
        grind
      · rename_i h₁ h₂
        have : a = b := (Std.lt_trichotomy a b).elim (absurd · h₁) fun t => t.elim id (absurd · h₂)
        subst this
        simp

theorem pairwise_insert {a : α} {l : List α} (h : l.Pairwise (· < ·)) :
    (insert a l).Pairwise (· < ·) := by
  induction l with
  | nil => simp [insert]
  | cons b l ih =>
    obtain ⟨hb, hl⟩ := List.pairwise_cons.1 h
    simp only [insert]
    split
    · rename_i hlt
      refine List.pairwise_cons.2 ⟨fun x hx => ?_, h⟩
      rcases List.mem_cons.1 hx with rfl | hx
      · exact hlt
      · exact Std.lt_trans hlt (hb x hx)
    · split
      · rename_i hlt
        refine List.pairwise_cons.2 ⟨fun x hx => ?_, ih hl⟩
        rcases mem_insert.1 hx with rfl | hx
        · exact hlt
        · exact hb x hx
      · exact h

end

theorem eq_of_mem_iff [LE α] [Std.IsLinearOrder α] [Std.LawfulOrderLT α] {l l' : List α}
    (h : l.Pairwise (· < ·)) (h' : l'.Pairwise (· < ·)) (hm : ∀ x, x ∈ l ↔ x ∈ l') : l = l' := by
  induction l generalizing l' with
  | nil => cases l' with
    | nil => rfl
    | cons b l' => simpa using hm b
  | cons a l ih => cases l' with
    | nil => simpa using hm a
    | cons b l' =>
      obtain ⟨ha, hl⟩ := List.pairwise_cons.1 h
      obtain ⟨hb, hl'⟩ := List.pairwise_cons.1 h'
      have hab : a = b := by
        rcases List.mem_cons.1 ((hm a).1 List.mem_cons_self) with e | e
        · exact e
        · rcases List.mem_cons.1 ((hm b).2 List.mem_cons_self) with e' | e'
          · exact e'.symm
          · exact absurd (Std.lt_trans (hb a e) (ha b e')) (Std.lt_irrefl)
      subst hab
      refine congrArg _ (ih hl hl' fun x => ⟨fun hx => ?_, fun hx => ?_⟩)
      · rcases List.mem_cons.1 ((hm x).1 (List.mem_cons_of_mem _ hx)) with rfl | hx'
        · exact absurd (ha x hx) Std.lt_irrefl
        · exact hx'
      · rcases List.mem_cons.1 ((hm x).2 (List.mem_cons_of_mem _ hx)) with rfl | hx'
        · exact absurd (hb x hx) Std.lt_irrefl
        · exact hx'

end SortedElems

structure SortedSet (α : Type u) [LT α] where
  elems : List α
  sorted : elems.Pairwise (· < ·)

namespace SortedSet

def empty : SortedSet α := ⟨[], List.Pairwise.nil⟩

instance : Inhabited (SortedSet α) := ⟨empty⟩

instance : Membership α (SortedSet α) := ⟨fun s a => a ∈ s.elems⟩

instance [DecidableEq α] (a : α) (s : SortedSet α) : Decidable (a ∈ s) :=
  inferInstanceAs (Decidable (a ∈ s.elems))

instance [DecidableEq α] : DecidableEq (SortedSet α) := fun s t =>
  if h : s.elems = t.elems then
    isTrue (by cases s; cases t; cases h; rfl)
  else
    isFalse fun e => h (congrArg elems e)

def isEmpty (s : SortedSet α) : Bool := s.elems.isEmpty

def size (s : SortedSet α) : Nat := s.elems.length

def filter (p : α → Bool) (s : SortedSet α) : SortedSet α :=
  ⟨s.elems.filter p, s.sorted.filter _⟩

def erase [DecidableEq α] (s : SortedSet α) (a : α) : SortedSet α := s.filter (· ≠ a)

@[simp] theorem mem_elems {a : α} {s : SortedSet α} : a ∈ s.elems ↔ a ∈ s := Iff.rfl

@[simp] theorem not_mem_empty (a : α) : a ∉ (empty : SortedSet α) := List.not_mem_nil

@[simp] theorem mem_filter {p : α → Bool} {a : α} {s : SortedSet α} :
    a ∈ s.filter p ↔ a ∈ s ∧ p a = true := List.mem_filter

@[simp] theorem mem_erase [DecidableEq α] {a b : α} {s : SortedSet α} :
    b ∈ s.erase a ↔ b ∈ s ∧ b ≠ a := by
  simp [erase]

variable [LE α] [Std.IsLinearOrder α] [Std.LawfulOrderLT α]

theorem ext {s t : SortedSet α} (h : ∀ a, a ∈ s ↔ a ∈ t) : s = t := by
  have := SortedElems.eq_of_mem_iff s.sorted t.sorted h
  cases s; cases t; cases this; rfl

variable [DecidableLT α]

def insert (s : SortedSet α) (a : α) : SortedSet α :=
  ⟨SortedElems.insert a s.elems, SortedElems.pairwise_insert s.sorted⟩

@[simp] theorem mem_insert {a b : α} {s : SortedSet α} : b ∈ s.insert a ↔ b = a ∨ b ∈ s :=
  SortedElems.mem_insert

theorem insert_of_mem {a : α} {s : SortedSet α} (h : a ∈ s) : s.insert a = s := by
  apply ext
  intro b
  rw [mem_insert]
  exact or_iff_right_of_imp fun he => he ▸ h

def insertAll (s : SortedSet α) (l : List α) : SortedSet α := l.foldl insert s

theorem mem_insertAll {b : α} {s : SortedSet α} {l : List α} :
    b ∈ s.insertAll l ↔ b ∈ s ∨ b ∈ l := by
  induction l generalizing s with
  | nil => simp [insertAll]
  | cons a l ih =>
    have h := ih (s := s.insert a)
    simp only [insertAll, List.foldl_cons] at h ⊢
    rw [h, mem_insert, List.mem_cons]
    grind

def ofList (l : List α) : SortedSet α := empty.insertAll l

@[simp] theorem mem_ofList {a : α} {l : List α} : a ∈ ofList l ↔ a ∈ l := by
  simp [ofList, mem_insertAll]

def union (s t : SortedSet α) : SortedSet α := s.insertAll t.elems

@[simp] theorem mem_union {a : α} {s t : SortedSet α} : a ∈ s.union t ↔ a ∈ s ∨ a ∈ t := by
  simp [union, mem_insertAll]

end SortedSet

end Statechart
