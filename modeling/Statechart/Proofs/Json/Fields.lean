import Mathlib.Tactic.Common
import Statechart.Json.Decode

/-! Reading back the fields of an object. What is written under a name is found under that name, if
no other field goes by it, and a list or an optional value is read back if its items are. -/

namespace Statechart.Json

variable {α : Type}

def present (fields : List (String × Option Json)) : List (String × Json) :=
  fields.filterMap fun e => e.2.map (e.1, ·)

@[simp] lemma present_append (l l' : List (String × Option Json)) :
    present (l ++ l') = present l ++ present l' := List.filterMap_append

lemma present_cons (key : String) (o : Option Json) (l : List (String × Option Json)) :
    present ((key, o) :: l) = (o.map (key, ·)).toList ++ present l := by
  cases o <;> rfl

lemma key_of_mem_present {l : List (String × Option Json)} {e : String × Json}
    (h : e ∈ present l) : e.1 ∈ l.map Prod.fst := by
  obtain ⟨d, hd, he⟩ := List.mem_filterMap.1 h
  obtain ⟨j, _, rfl⟩ := Option.map_eq_some_iff.1 he
  exact List.mem_map_of_mem hd

def Foreign (names : List String) (l : List (String × Option Json)) : Prop :=
  ∀ e ∈ l, e.1 ∉ names

lemma filter_present_of_foreign {names : List String} {l : List (String × Option Json)}
    (h : Foreign names l) : (present l).filter (·.1 ∈ names) = [] := by
  refine List.filter_eq_nil_iff.2 fun e he => ?_
  obtain ⟨d, hd, hkey⟩ := List.mem_map.1 (key_of_mem_present he)
  simpa [hkey] using h d hd

lemma field?_present {names : List String} {key : String} {o : Option Json}
    {l l' : List (String × Option Json)} (hkey : key ∈ names) (hl : Foreign names l)
    (hl' : Foreign names l') : field? names (present (l ++ (key, o) :: l')) = some o := by
  rw [field?, present_append, present_cons, List.filter_append, List.filter_append,
    filter_present_of_foreign hl, filter_present_of_foreign hl', List.append_nil, List.nil_append]
  cases o with
  | none => rfl
  | some j => simp [hkey]

def aligned : List (List String) → List String → Bool
  | [], [] => true
  | names :: rest, key :: keys => names.contains key && keys.all (!names.contains ·) &&
      rest.all (!·.contains key) && aligned rest keys
  | _, _ => false

lemma record?_objOf {names : List (List String)} {before fields after : List (String × Option Json)}
    (h : aligned names (fields.map Prod.fst) = true)
    (hbefore : ∀ l ∈ names, Foreign l before) (hafter : ∀ l ∈ names, Foreign l after) :
    record? names (objOf (before ++ fields ++ after)) = some (fields.map Prod.snd) := by
  change names.mapM (field? · (present (before ++ fields ++ after))) = _
  induction names generalizing before fields with
  | nil =>
    cases fields with
    | nil => rfl
    | cons e l => exact absurd h (by simp [aligned])
  | cons l names ih =>
    cases fields with
    | nil => exact absurd h (by simp [aligned])
    | cons e fields =>
      obtain ⟨key, o⟩ := e
      simp only [List.map_cons, aligned, Bool.and_eq_true, List.all_eq_true,
        Bool.not_eq_true', List.mem_map, forall_exists_index, and_imp,
        List.contains_eq_mem, decide_eq_false_iff_not, decide_eq_true_eq] at h
      obtain ⟨⟨⟨hkey, hfields⟩, hnames⟩, hrest⟩ := h
      have hfield : field? l (present (before ++ (key, o) :: fields ++ after)) = some o := by
        rw [List.append_assoc, List.cons_append]
        refine field?_present hkey (hbefore l List.mem_cons_self) fun e he => ?_
        cases List.mem_append.1 he with
        | inl he => exact hfields _ e he rfl
        | inr he => exact hafter l List.mem_cons_self e he
      have hbefore' : ∀ l ∈ names, Foreign l (before ++ [(key, o)]) := by
        intro l hl e he
        cases List.mem_append.1 he with
        | inl he => exact hbefore l (List.mem_cons_of_mem _ hl) e he
        | inr he =>
          rw [List.mem_singleton.1 he]
          exact hnames l hl
      have hothers := ih hrest hbefore' fun l hl => hafter l (List.mem_cons_of_mem _ hl)
      rw [List.append_assoc before, List.singleton_append] at hothers
      rw [List.mapM_cons, hfield, hothers]
      rfl

lemma record?_objOf_of_aligned {names : List (List String)} {fields : List (String × Option Json)}
    (h : aligned names (fields.map Prod.fst) = true) :
    record? names (objOf fields) = some (fields.map Prod.snd) := by
  have hnone : ∀ l ∈ names, Foreign l [] := fun _ _ _ he => absurd he List.not_mem_nil
  have hrecord := record?_objOf h hnone hnone
  rwa [List.nil_append, List.append_nil] at hrecord

lemma present_map_some (fields : List (String × Json)) :
    present (fields.map fun e => (e.1, some e.2)) = fields := by
  rw [present, List.filterMap_map]
  exact List.filterMap_some

lemma record?_obj {names : List (List String)} {fields : List (String × Json)}
    (h : aligned names (fields.map Prod.fst) = true) :
    record? names (.obj fields) = some (fields.map fun e => some e.2) := by
  have haligned : aligned names ((fields.map fun e => (e.1, some e.2)).map Prod.fst) = true := by
    rwa [List.map_map]
  have hrecord := record?_objOf_of_aligned haligned
  change record? names (.obj (present _)) = _ at hrecord
  rwa [present_map_some, List.map_map] at hrecord

lemma foreign_of_keys {names : List String} {l : List (String × Option Json)}
    (h : (l.map Prod.fst).all (!names.contains ·) = true) : Foreign names l := by
  intro e he
  simpa using List.all_eq_true.1 h e.1 (List.mem_map_of_mem he)

lemma forall_foreign {names : List (List String)} {l : List (String × Option Json)}
    (h : names.all (fun ns => (l.map Prod.fst).all (!ns.contains ·)) = true) :
    ∀ ns ∈ names, Foreign ns l :=
  fun ns hns => foreign_of_keys (List.all_eq_true.1 h ns hns)

lemma get?_append_of_forall_ne {key : String} {l : List (String × Json)}
    (h : ∀ e ∈ l, e.1 ≠ key) (l' : List (String × Json)) :
    Keyed.get? (l ++ l') key = Keyed.get? l' key := by
  induction l with
  | nil => rfl
  | cons e l ih =>
    rw [List.cons_append, Keyed.get?, if_neg (h e List.mem_cons_self)]
    exact ih fun d hd => h d (List.mem_cons_of_mem _ hd)

lemma get?_present {key : String} {o : Option Json} {l l' : List (String × Option Json)}
    (hl : Foreign [key] l) (hl' : Foreign [key] l') :
    Keyed.get? (present (l ++ (key, o) :: l')) key = o := by
  have hkeys : ∀ {l}, Foreign [key] l → ∀ e ∈ present l, e.1 ≠ key := by
    intro l hl e he hkey
    obtain ⟨d, hd, hdkey⟩ := List.mem_map.1 (key_of_mem_present he)
    exact hl d hd (List.mem_singleton.2 (hdkey.trans hkey))
  rw [present_append, present_cons, get?_append_of_forall_ne (hkeys hl)]
  cases o with
  | none =>
    have hnone := get?_append_of_forall_ne (hkeys hl') []
    rw [List.append_nil] at hnone
    exact hnone
  | some j => exact if_pos rfl

lemma mapM_map {β : Type} {f : α → β} {g : β → Option α} {l : List α}
    (h : ∀ x ∈ l, g (f x) = some x) : (l.map f).mapM g = some l := by
  induction l with
  | nil => rfl
  | cons x l ih =>
    rw [List.map_cons, List.mapM_cons, h x List.mem_cons_self,
      ih fun y hy => h y (List.mem_cons_of_mem _ hy)]
    rfl

lemma forall_of_mapM {β : Type} {P : β → Prop} {f : α → Option β}
    (hf : ∀ a b, f a = some b → P b) {l : List α} {l' : List β} (h : l.mapM f = some l') :
    ∀ b ∈ l', P b := by
  induction l generalizing l' with
  | nil =>
    obtain rfl := Option.some.inj h
    exact fun b hb => absurd hb List.not_mem_nil
  | cons a l ih =>
    rw [List.mapM_cons] at h
    obtain ⟨b, hb, h⟩ := Option.bind_eq_some_iff.1 h
    obtain ⟨rest, hrest, h⟩ := Option.bind_eq_some_iff.1 h
    obtain rfl := Option.some.inj h
    exact List.forall_mem_cons.2 ⟨hf a b hb, ih hrest⟩

lemma oneOrMany?_arr {toJson : α → Json} {item? : Json → Option α} {l : List α}
    (h : ∀ x ∈ l, item? (toJson x) = some x) :
    oneOrMany? item? (.arr (l.map toJson)) = some l := by
  rw [oneOrMany?, list?, mapM_map h]
  rfl

lemma forall_of_oneOrMany? {P : α → Prop} {item? : Json → Option α}
    (hitem : ∀ j x, item? j = some x → P x) {j : Json} {l : List α}
    (h : oneOrMany? item? j = some l) : ∀ x ∈ l, P x := by
  have hone : (item? j).map ([·]) = some l → ∀ x ∈ l, P x := by
    intro hone
    obtain ⟨x, hx, rfl⟩ := Option.map_eq_some_iff.1 hone
    exact fun y hy => List.mem_singleton.1 hy ▸ hitem j x hx
  cases j with
  | arr items =>
    cases hmany : items.mapM item? with
    | none =>
      rw [oneOrMany?, list?, hmany] at h
      exact hone h
    | some l' =>
      rw [oneOrMany?, list?, hmany] at h
      obtain rfl : l' = l := Option.some.inj h
      exact forall_of_mapM hitem hmany
  | _ => exact hone h

lemma forall_of_defaulted {P : α → Prop} {read? : Json → Option (List α)}
    (hread : ∀ j l, read? j = some l → ∀ x ∈ l, P x) {o : Option Json} {l : List α}
    (h : defaulted [] read? o = some l) : ∀ x ∈ l, P x := by
  cases o with
  | none =>
    obtain rfl := Option.some.inj h
    exact fun x hx => absurd hx List.not_mem_nil
  | some j => exact hread j l h

lemma optional_map {toJson : α → Json} {read? : Json → Option α} {o : Option α}
    (h : ∀ x ∈ o, toJson x ≠ .null ∧ read? (toJson x) = some x) :
    optional read? (o.map toJson) = some o := by
  cases o with
  | none => rfl
  | some x =>
    obtain ⟨hnull, hread⟩ := h x rfl
    have hnullable : nullable read? (toJson x) = (read? (toJson x)).map some := by
      cases hj : toJson x with
      | null => exact absurd hj hnull
      | _ => rfl
    rw [Option.map_some, optional, defaulted, hnullable, hread]
    rfl

end Statechart.Json
