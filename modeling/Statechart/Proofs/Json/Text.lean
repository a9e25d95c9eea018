import Mathlib.Tactic.Common
import Statechart.Proofs.Json.Tokens

/-! JSON text. What is printed of a value is read as that value, if it holds no fractions, its whole
numbers have 64 bits, no more containers are inside each other than the reader takes, and all of its
fields are asked for. -/

namespace Statechart.Json

mutual

def Readable : Shape → Nat → Json → Prop
  | _, _, .null | _, _, .bool _ | _, _, .str _ => True
  | _, _, .num (.whole i) => -(Nat.pow 2 63 : Int) ≤ i ∧ i < Nat.pow 2 64
  | _, _, .num (.fraction _) => False
  | _, 0, .arr _ | _, 0, .obj _ => False
  | shape, room + 1, .arr items => ReadableItems shape 0 room items
  | shape, room + 1, .obj fields => ReadableFields shape room fields

def ReadableItems : Shape → Nat → Nat → List Json → Prop
  | _, _, _, [] => True
  | shape, place, room, j :: rest =>
    Readable (shape.item place) room j ∧ ReadableItems shape (place + 1) room rest

def ReadableFields : Shape → Nat → List (String × Json) → Prop
  | _, _, [] => True
  | shape, room, (key, j) :: rest =>
    (∃ s ∈ shape.field? key, Readable s room j) ∧ ReadableFields shape room rest

end

lemma readableItems_cons {shape : Shape} {place room : Nat} {j : Json} {items : List Json} :
    ReadableItems shape place room (j :: items) ↔
      Readable (shape.item place) room j ∧ ReadableItems shape (place + 1) room items := by
  rw [ReadableItems]

lemma readableFields_cons {shape : Shape} {room : Nat} {key : String} {j : Json}
    {fields : List (String × Json)} : ReadableFields shape room ((key, j) :: fields) ↔
      (∃ s ∈ shape.field? key, Readable s room j) ∧ ReadableFields shape room fields := by
  rw [ReadableFields]

lemma readable_list {shape : Shape} {room : Nat} {items : List Json}
    (h : ∀ j ∈ items, Readable shape room j) : Readable (.list shape) (room + 1) (.arr items) := by
  have hitems : ∀ place, ReadableItems (.list shape) place room items := by
    induction items with
    | nil => exact fun _ => trivial
    | cons j items ih =>
      have hothers := ih fun j' hj' => h j' (List.mem_cons_of_mem _ hj')
      exact fun place => readableItems_cons.2 ⟨h j List.mem_cons_self, hothers (place + 1)⟩
  rw [Readable]
  exact hitems 0

lemma readable_strs (shape : Shape) (room : Nat) (l : List String) :
    Readable shape (room + 1) (.strs l) := by
  have hitems : ∀ place, ReadableItems shape place room (l.map .str) := by
    induction l with
    | nil => exact fun _ => trivial
    | cons s l ih => exact fun place => readableItems_cons.2 ⟨trivial, ih (place + 1)⟩
  rw [strs, Readable]
  exact hitems 0

lemma readable_obj {room : Nat} {fields : List (String × Json)}
    (h : ∀ e ∈ fields, Readable .whole room e.2) :
    Readable .whole (room + 1) (.obj fields) := by
  rw [Readable]
  induction fields with
  | nil => trivial
  | cons e fields ih =>
    have hothers := ih fun e' he' => h e' (List.mem_cons_of_mem _ he')
    exact readableFields_cons.2 ⟨⟨.whole, rfl, h e List.mem_cons_self⟩, hothers⟩

lemma readable_natural {shape : Shape} {room n : Nat} (h : n < Nat.pow 2 64) :
    Readable shape room (.int n) := by
  rw [int, Readable]
  exact ⟨by omega, Int.ofNat_lt.2 h⟩

def lineBreak (level : Nat) : List Char := ("\n" ++ "".pushn ' ' (2 * level)).toList

lemma toList_pushn (n : Nat) : ("".pushn ' ' n).toList = List.replicate n ' ' := by
  rw [String.pushn_eq_repeat_push]
  induction n with
  | zero => rfl
  | succ n ih => rw [Nat.repeat, String.toList_push, ih, List.replicate_succ']

namespace Reader

lemma skip_lineBreak (level : Nat) (l : List Char) : skip (lineBreak level ++ l) = skip l := by
  refine List.dropWhile_append_of_pos fun c hc => ?_
  rw [lineBreak, String.toList_append, toList_pushn] at hc
  cases List.mem_append.1 hc with
  | inl hc =>
    rw [List.mem_singleton.1 hc]
    rfl
  | inr hc =>
    rw [(List.mem_replicate.1 hc).2]
    rfl

lemma skip_space (l : List Char) : skip (' ' :: l) = skip l := rfl

lemma skip_cons {c : Char} (hc : isBlank c = false) (l : List Char) : skip (c :: l) = c :: l := by
  rw [skip, List.dropWhile_cons, hc]
  rfl

lemma isBlank_of_isDigit {c : Char} (h : c.isDigit) : isBlank c = false := by
  cases hc : isBlank c with
  | false => rfl
  | true =>
    simp only [isBlank, Bool.or_eq_true, decide_eq_true_eq] at hc
    rcases hc with ((rfl | rfl) | rfl) | rfl <;> exact absurd h (by decide)

lemma value_congr {l l' : List Char} (h : skip l = skip l') (shape : Shape) (room fuel : Nat) :
    value shape room fuel l = value shape room fuel l' := by
  cases fuel with
  | zero => rw [value, value]
  | succ fuel => rw [value, value, h]

lemma items_congr {l l' : List Char} (h : skip l = skip l') (shape : Shape)
    (place room fuel : Nat) : items shape place room fuel l = items shape place room fuel l' := by
  cases fuel with
  | zero => rw [items, items]
  | succ fuel => rw [items, items, value_congr h]

lemma fields_congr {l l' : List Char} (h : skip l = skip l') (shape : Shape) (room fuel : Nat) :
    fields shape room fuel l = fields shape room fuel l' := by
  cases fuel with
  | zero => rw [fields, fields]
  | succ fuel => rw [fields, fields, h]

lemma isBlank_of_number {c : Char} (hc : c.isDigit ∨ c = '-') : isBlank c = false := by
  rcases hc with hc | rfl
  · exact isBlank_of_isDigit hc
  · rfl

lemma value_of_number {c : Char} {l : List Char} (hc : c.isDigit ∨ c = '-') (shape : Shape)
    (room fuel : Nat) : value shape room (fuel + 1) (c :: l) = number? (c :: l) := by
  rw [value, skip_cons (isBlank_of_number hc)]
  split
  all_goals first | rfl | skip
  all_goals
    rename_i heq
    rw [(List.cons.inj heq).1] at hc
    exact absurd hc (by decide)

end Reader

lemma toList_block (level : Nat) (opening closing : String) {entries : List String}
    (h : entries ≠ []) : (block level opening closing entries).toList =
      opening.toList ++ lineBreak (level + 1) ++
        (',' :: lineBreak (level + 1)).intercalate (entries.map String.toList) ++
        lineBreak level ++ closing.toList := by
  have hempty : entries.isEmpty = false := by simpa using h
  have hcomma : ("," ++ ("\n" ++ "".pushn ' ' (2 * (level + 1)))).toList =
      ',' :: lineBreak (level + 1) := by
    rw [String.toList_append]
    rfl
  rw [block, hempty, if_neg (by decide)]
  simp only [String.toList_append, String.toList_intercalate, lineBreak, hcomma, List.append_assoc]

lemma block_starts (level : Nat) (opening closing : String) (entries : List String) :
    ∃ l, (block level opening closing entries).toList = opening.toList ++ l := by
  cases entries with
  | nil => exact ⟨_, String.toList_append⟩
  | cons e entries =>
    rw [toList_block level opening closing (List.cons_ne_nil e entries)]
    simp only [List.append_assoc]
    exact ⟨_, rfl⟩

lemma prettyAt_null (level : Nat) : (prettyAt level .null).toList = ['n', 'u', 'l', 'l'] := by
  rw [prettyAt, compact]
  · rfl
  all_goals exact fun _ h => nomatch h

lemma prettyAt_true (level : Nat) :
    (prettyAt level (.bool true)).toList = ['t', 'r', 'u', 'e'] := by
  rw [prettyAt, compact]
  · rfl
  all_goals exact fun _ h => nomatch h

lemma prettyAt_false (level : Nat) :
    (prettyAt level (.bool false)).toList = ['f', 'a', 'l', 's', 'e'] := by
  rw [prettyAt, compact]
  · rfl
  all_goals exact fun _ h => nomatch h

lemma prettyAt_str (level : Nat) (s : String) : (prettyAt level (.str s)).toList =
    '"' :: (s.toList.flatMap (fun c => (escapeChar c).toList) ++ ['"']) := by
  rw [prettyAt, compact, Reader.toList_quote]
  all_goals exact fun _ h => nomatch h

lemma prettyAt_int (level : Nat) (i : Int) :
    (prettyAt level (.num (.whole i))).toList = (toString i).toList := by
  rw [prettyAt, compact, renderNumber]
  all_goals exact fun _ h => nomatch h

lemma prettyAt_starts {shape : Shape} {room : Nat} {j : Json} (h : Readable shape room j)
    (level : Nat) :
    ∃ c l, (prettyAt level j).toList = c :: l ∧ Reader.isBlank c = false ∧ c ≠ ']' := by
  cases j with
  | null => exact ⟨'n', _, prettyAt_null level, by decide, by decide⟩
  | bool value =>
    cases value with
    | false => exact ⟨'f', _, prettyAt_false level, by decide, by decide⟩
    | true => exact ⟨'t', _, prettyAt_true level, by decide, by decide⟩
  | str s => exact ⟨'"', _, prettyAt_str level s, by decide, by decide⟩
  | arr items =>
    obtain ⟨l, hl⟩ := block_starts level "[" "]" (prettyItems (level + 1) items)
    rw [prettyAt]
    exact ⟨'[', l, hl, by decide, by decide⟩
  | obj fields =>
    obtain ⟨l, hl⟩ := block_starts level "\x7b" "\x7d" (prettyFields (level + 1) fields)
    rw [prettyAt]
    exact ⟨'\x7b', l, hl, by decide, by decide⟩
  | num n =>
    cases n with
    | fraction x => exact absurd h (by simp [Readable])
    | whole i =>
      obtain ⟨c, l, hcl, hc⟩ := Reader.toString_starts i
      rw [prettyAt_int]
      refine ⟨c, l, hcl, Reader.isBlank_of_number hc, ?_⟩
      rintro rfl
      exact absurd hc (by decide)

lemma prettyItems_eq (level : Nat) (items : List Json) :
    prettyItems level items = items.map (prettyAt level) := by
  induction items with
  | nil => rw [prettyItems, List.map_nil]
  | cons j items ih => rw [prettyItems, ih, List.map_cons]

def fieldText (level : Nat) (e : String × Json) : String :=
  quote e.1 ++ ": " ++ prettyAt level e.2

lemma prettyFields_eq (level : Nat) (fields : List (String × Json)) :
    prettyFields level fields = fields.map (fieldText level) := by
  induction fields with
  | nil => rw [prettyFields, List.map_nil]
  | cons e fields ih => rw [prettyFields, ih, List.map_cons, fieldText]

namespace Reader

variable {shape s : Shape} {place room fuel : Nat} {c : Char} {l l' rest : List Char}

lemma value_null :
    value shape room (fuel + 1) (['n', 'u', 'l', 'l'] ++ rest) = some (.null, rest) := by
  rw [value]
  rfl

lemma value_true :
    value shape room (fuel + 1) (['t', 'r', 'u', 'e'] ++ rest) = some (.bool true, rest) := by
  rw [value]
  rfl

lemma value_false :
    value shape room (fuel + 1) (['f', 'a', 'l', 's', 'e'] ++ rest) = some (.bool false, rest) := by
  rw [value]
  rfl

lemma value_string {s : String} (h : string [] l = some (s, rest)) :
    value shape room (fuel + 1) ('"' :: l) = some (.str s, rest) := by
  rw [value, skip_cons (by decide)]
  simp only [h, Option.map_some]

lemma value_empty_array :
    value shape (room + 1) (fuel + 1) ('[' :: ']' :: rest) = some (.arr [], rest) := by
  rw [value]
  rfl

lemma value_empty_object :
    value shape (room + 1) (fuel + 1) ('\x7b' :: '\x7d' :: rest) = some (.obj [], rest) := by
  rw [value]
  rfl

lemma value_array (h : skip l = c :: l') (hc : c ≠ ']') :
    value shape (room + 1) (fuel + 1) ('[' :: l) =
      (items shape 0 room fuel (c :: l')).map fun x => (.arr x.1, x.2) := by
  rw [value, skip_cons (by decide)]
  simp only [h]
  split
  · rename_i heq
    exact absurd (List.cons.inj heq).1 hc
  · rfl

lemma value_object (h : skip l = c :: l') (hc : c ≠ '\x7d') :
    value shape (room + 1) (fuel + 1) ('\x7b' :: l) =
      (fields shape room fuel (c :: l')).map fun x => (.obj x.1, x.2) := by
  rw [value, skip_cons (by decide)]
  simp only [h]
  split
  · rename_i heq
    exact absurd (List.cons.inj heq).1 hc
  · rfl

lemma items_last {j : Json} (hvalue : value (shape.item place) room fuel l = some (j, l'))
    (hend : skip l' = ']' :: rest) :
    items shape place room (fuel + 1) l = some ([j], rest) := by
  rw [items]
  simp only [hvalue, hend, Option.bind_eq_bind, Option.bind_some, Option.pure_def]

lemma items_next {j : Json} {js : List Json} {l₁ : List Char}
    (hvalue : value (shape.item place) room fuel l = some (j, l')) (hcomma : skip l' = ',' :: l₁)
    (hitems : items shape (place + 1) room fuel l₁ = some (js, rest)) :
    items shape place room (fuel + 1) l = some (j :: js, rest) := by
  rw [items]
  simp only [hvalue, hcomma, hitems, Option.bind_eq_bind, Option.bind_some, Option.pure_def]

lemma fields_last {key : String} {j : Json} {l₁ l₂ l₃ : List Char} (hquote : skip l = '"' :: l₁)
    (hkey : string [] l₁ = some (key, ':' :: l₂)) (hfield : shape.field? key = some s)
    (hvalue : value s room fuel l₂ = some (j, l₃)) (hend : skip l₃ = '\x7d' :: rest) :
    fields shape room (fuel + 1) l = some ([(key, j)], rest) := by
  rw [fields]
  simp only [hquote, hkey, skip_cons (show isBlank ':' = false from rfl), hfield, hvalue, hend,
    Option.bind_eq_bind, Option.bind_some, Option.map_some, Option.pure_def]

lemma fields_next {key : String} {j : Json} {fs : List (String × Json)} {l₁ l₂ l₃ l₄ : List Char}
    (hquote : skip l = '"' :: l₁) (hkey : string [] l₁ = some (key, ':' :: l₂))
    (hfield : shape.field? key = some s) (hvalue : value s room fuel l₂ = some (j, l₃))
    (hcomma : skip l₃ = ',' :: l₄) (hfields : fields shape room fuel l₄ = some (fs, rest)) :
    fields shape room (fuel + 1) l = some ((key, j) :: fs, rest) := by
  rw [fields]
  simp only [hquote, hkey, skip_cons (show isBlank ':' = false from rfl), hfield, hvalue, hcomma,
    hfields, Option.bind_eq_bind, Option.bind_some, Option.map_some, Option.pure_def,
    List.singleton_append]

end Reader

def joined (level : Nat) (entries : List String) : List Char :=
  (',' :: lineBreak level).intercalate (entries.map String.toList)

lemma joined_singleton (level : Nat) (entry : String) : joined level [entry] = entry.toList :=
  List.intercalate_singleton

lemma joined_cons (level : Nat) (entry : String) {entries : List String} (h : entries ≠ []) :
    joined level (entry :: entries) =
      entry.toList ++ ',' :: (lineBreak level ++ joined level entries) := by
  obtain ⟨e, l, rfl⟩ := List.exists_cons_of_ne_nil h
  rw [joined, List.map_cons, List.map_cons, List.intercalate_cons_cons, List.append_assoc]
  rfl

lemma joined_starts (level : Nat) (entry : String) (entries : List String) :
    ∃ l, joined level (entry :: entries) = entry.toList ++ l := by
  by_cases h : entries = []
  · rw [h, joined_singleton]
    exact ⟨[], (List.append_nil _).symm⟩
  · exact ⟨_, joined_cons level entry h⟩

lemma prettyAt_array (level : Nat) {items : List Json} (h : items ≠ []) :
    (prettyAt level (.arr items)).toList = '[' :: (lineBreak (level + 1) ++
      (joined (level + 1) (items.map (prettyAt (level + 1))) ++ (lineBreak level ++ [']']))) := by
  have hne : items.map (prettyAt (level + 1)) ≠ [] := by simpa using h
  rw [prettyAt, prettyItems_eq, toList_block _ _ _ hne]
  simp only [joined, List.append_assoc]
  rfl

lemma prettyAt_object (level : Nat) {fields : List (String × Json)} (h : fields ≠ []) :
    (prettyAt level (.obj fields)).toList = '\x7b' :: (lineBreak (level + 1) ++
      (joined (level + 1) (fields.map (fieldText (level + 1))) ++
        (lineBreak level ++ ['\x7d']))) := by
  have hne : fields.map (fieldText (level + 1)) ≠ [] := by simpa using h
  rw [prettyAt, prettyFields_eq, toList_block _ _ _ hne]
  simp only [joined, List.append_assoc]
  rfl

lemma prettyAt_empty_array (level : Nat) : (prettyAt level (.arr [])).toList = ['[', ']'] := by
  rw [prettyAt, prettyItems, block, if_pos List.isEmpty_nil]
  rfl

lemma prettyAt_empty_object (level : Nat) :
    (prettyAt level (.obj [])).toList = ['\x7b', '\x7d'] := by
  rw [prettyAt, prettyFields, block, if_pos List.isEmpty_nil]
  rfl

lemma joined_starts_item {shape : Shape} {room : Nat} {j : Json} (h : Readable shape room j)
    (level : Nat) (items : List Json) :
    ∃ c l, joined level ((j :: items).map (prettyAt level)) = c :: l ∧
      Reader.isBlank c = false ∧ c ≠ ']' := by
  obtain ⟨c, l, hcl, hc⟩ := prettyAt_starts h level
  obtain ⟨l', hl'⟩ := joined_starts level (prettyAt level j) (items.map (prettyAt level))
  rw [hcl] at hl'
  exact ⟨c, l ++ l', hl', hc⟩

lemma toList_fieldText (level : Nat) (e : String × Json) : (fieldText level e).toList =
    '"' :: (e.1.toList.flatMap (fun c => (escapeChar c).toList) ++
      '"' :: ':' :: ' ' :: (prettyAt level e.2).toList) := by
  simp only [fieldText, String.toList_append, Reader.toList_quote, List.append_assoc,
    List.cons_append, List.nil_append]
  rfl

lemma joined_starts_field (level : Nat) (e : String × Json) (fields : List (String × Json)) :
    ∃ l, joined level ((e :: fields).map (fieldText level)) = '"' :: l := by
  obtain ⟨l, hl⟩ := joined_starts level (fieldText level e) (fields.map (fieldText level))
  rw [toList_fieldText] at hl
  exact ⟨_, hl⟩

lemma fuel_of_length {shape : Shape} {room level fuel : Nat} {j : Json}
    (h : Readable shape room j) (hfuel : 2 * (prettyAt level j).toList.length ≤ fuel + 1) :
    ∃ f, fuel = f + 1 := by
  obtain ⟨c, l, hcl, -⟩ := prettyAt_starts h level
  rw [hcl, List.length_cons] at hfuel
  exact ⟨fuel - 1, by omega⟩

lemma ends_cons {c : Char} (h : c.isDigit = false ∧ c ≠ '.' ∧ Reader.isExponentMark c = false)
    (l : List Char) : Reader.Ends (c :: l) := by
  intro d l' heq
  obtain ⟨rfl, -⟩ := List.cons.inj heq
  exact h

lemma ends_lineBreak (level : Nat) (l : List Char) : Reader.Ends (lineBreak level ++ l) := by
  rw [lineBreak, String.toList_append]
  exact ends_cons (c := '\n') (by decide) _

def ReadsBack (j : Json) : Prop :=
  ∀ ⦃shape : Shape⦄ ⦃room : Nat⦄, Readable shape room j →
    ∀ (level : Nat) ⦃fuel : Nat⦄, 2 * (prettyAt level j).toList.length ≤ fuel + 1 →
    ∀ ⦃rest : List Char⦄, Reader.Ends rest →
    Reader.value shape room fuel ((prettyAt level j).toList ++ rest) = some (j, rest)

lemma readsBack_int (i : Int) : ReadsBack (.num (.whole i)) := by
  intro shape room h level fuel hfuel rest hrest
  obtain ⟨fuel, rfl⟩ := fuel_of_length h hfuel
  obtain ⟨c, l, hcl, hc⟩ := Reader.toString_starts i
  obtain ⟨hlow, hhigh⟩ : -(Nat.pow 2 63 : Int) ≤ i ∧ i < Nat.pow 2 64 := by
    rwa [Readable] at h
  have hread := Reader.number?_toString hlow hhigh hrest
  rw [hcl, List.cons_append] at hread
  rw [prettyAt_int, hcl, List.cons_append, Reader.value_of_number hc, hread]
  rfl

lemma items_pretty {items : List Json} (hitems : ∀ j ∈ items, ReadsBack j) (hne : items ≠ [])
    {shape : Shape} {place room : Nat} (h : ReadableItems shape place room items) (level : Nat)
    (fuel : Nat) (hfuel : 2 * (joined level (items.map (prettyAt level))).length ≤ fuel)
    (outer : Nat) (rest : List Char) :
    Reader.items shape place room fuel (joined level (items.map (prettyAt level)) ++
      (lineBreak outer ++ ']' :: rest)) = some (items, rest) := by
  induction items generalizing place fuel with
  | nil => exact absurd rfl hne
  | cons j items ih =>
    obtain ⟨hj, hothers⟩ := readableItems_cons.1 h
    have hread := hitems j List.mem_cons_self hj level
    by_cases hlast : items = []
    · rw [hlast, List.map_singleton, joined_singleton] at hfuel ⊢
      obtain ⟨fuel, rfl⟩ := fuel_of_length hj (Nat.le_succ_of_le hfuel)
      exact Reader.items_last (hread hfuel (ends_lineBreak _ _))
        ((Reader.skip_lineBreak ..).trans (Reader.skip_cons (by decide) _))
    · rw [List.map_cons, joined_cons _ _ (by simpa using hlast)] at hfuel ⊢
      simp only [List.length_append, List.length_cons] at hfuel
      have hfirst : 2 * (prettyAt level j).toList.length ≤ fuel + 1 := by omega
      obtain ⟨fuel, rfl⟩ := fuel_of_length hj hfirst
      have hrest := ih (fun j hj => hitems j (List.mem_cons_of_mem _ hj)) hlast hothers
        fuel (by omega)
      rw [← Reader.items_congr (Reader.skip_lineBreak level _)] at hrest
      simp only [List.append_assoc, List.cons_append]
      exact Reader.items_next (hread (by omega) (ends_cons (by decide) _))
        (Reader.skip_cons (by decide) _) hrest

lemma fields_pretty {fields : List (String × Json)} (hfields : ∀ e ∈ fields, ReadsBack e.2)
    (hne : fields ≠ []) {shape : Shape} {room : Nat} (h : ReadableFields shape room fields)
    (level fuel : Nat)
    (hfuel : 2 * (joined level (fields.map (fieldText level))).length ≤ fuel) (outer : Nat)
    (rest : List Char) :
    Reader.fields shape room fuel (joined level (fields.map (fieldText level)) ++
      (lineBreak outer ++ '\x7d' :: rest)) = some (fields, rest) := by
  induction fields generalizing fuel with
  | nil => exact absurd rfl hne
  | cons e fields ih =>
    obtain ⟨key, j⟩ := e
    obtain ⟨⟨s, hs, hj⟩, hothers⟩ := readableFields_cons.1 h
    have hread {fuel : Nat} (hfuel : 2 * (prettyAt level j).toList.length ≤ fuel + 1)
        {rest : List Char} (hrest : Reader.Ends rest) :
        Reader.value s room fuel (' ' :: ((prettyAt level j).toList ++ rest)) = some (j, rest) := by
      rw [Reader.value_congr (Reader.skip_space _)]
      exact hfields (key, j) List.mem_cons_self hj level hfuel hrest
    by_cases hlast : fields = []
    · rw [hlast, List.map_singleton, joined_singleton, toList_fieldText] at hfuel ⊢
      simp only [List.length_append, List.length_cons] at hfuel
      obtain ⟨fuel, rfl⟩ : ∃ f, fuel = f + 1 := ⟨fuel - 1, by omega⟩
      simp only [List.append_assoc, List.cons_append]
      exact Reader.fields_last (Reader.skip_cons (by decide) _) (Reader.string_quoted key _) hs
        (hread (by omega) (ends_lineBreak _ _))
        ((Reader.skip_lineBreak ..).trans (Reader.skip_cons (by decide) _))
    · rw [List.map_cons, joined_cons _ _ (by simpa using hlast), toList_fieldText] at hfuel ⊢
      simp only [List.length_append, List.length_cons] at hfuel
      obtain ⟨fuel, rfl⟩ : ∃ f, fuel = f + 1 := ⟨fuel - 1, by omega⟩
      have hrest := ih (fun e he => hfields e (List.mem_cons_of_mem _ he)) hlast hothers
        fuel (by omega)
      rw [← Reader.fields_congr (Reader.skip_lineBreak level _)] at hrest
      simp only [List.append_assoc, List.cons_append]
      exact Reader.fields_next (Reader.skip_cons (by decide) _) (Reader.string_quoted key _) hs
        (hread (by omega) (ends_cons (by decide) _)) (Reader.skip_cons (by decide) _) hrest

lemma readsBack_arr {items : List Json} (h : ∀ j ∈ items, ReadsBack j) :
    ReadsBack (.arr items) := by
  intro shape room hread level fuel hfuel rest _
  obtain ⟨fuel, rfl⟩ := fuel_of_length hread hfuel
  cases room with
  | zero => exact absurd hread (by simp [Readable])
  | succ room =>
    cases items with
    | nil =>
      rw [prettyAt_empty_array]
      exact Reader.value_empty_array
    | cons j items =>
      have hne : j :: items ≠ [] := List.cons_ne_nil j items
      have hitems : ReadableItems shape 0 room (j :: items) := by rwa [Readable] at hread
      rw [prettyAt_array level hne] at hfuel ⊢
      simp only [List.length_cons, List.length_append] at hfuel
      have hback := items_pretty h hne hitems (level + 1) fuel (by omega) level rest
      obtain ⟨c, l, hcl, hblank, hc⟩ :=
        joined_starts_item (readableItems_cons.1 hitems).1 (level + 1) items
      rw [hcl] at hback ⊢
      simp only [List.append_assoc, List.cons_append, List.nil_append] at hback ⊢
      rw [Reader.value_array ((Reader.skip_lineBreak ..).trans (Reader.skip_cons hblank _)) hc,
        hback]
      rfl

lemma readsBack_obj {fields : List (String × Json)} (h : ∀ e ∈ fields, ReadsBack e.2) :
    ReadsBack (.obj fields) := by
  intro shape room hread level fuel hfuel rest _
  obtain ⟨fuel, rfl⟩ := fuel_of_length hread hfuel
  cases room with
  | zero => exact absurd hread (by simp [Readable])
  | succ room =>
    cases fields with
    | nil =>
      rw [prettyAt_empty_object]
      exact Reader.value_empty_object
    | cons e fields =>
      have hne : e :: fields ≠ [] := List.cons_ne_nil e fields
      have hfields : ReadableFields shape room (e :: fields) := by rwa [Readable] at hread
      rw [prettyAt_object level hne] at hfuel ⊢
      simp only [List.length_cons, List.length_append] at hfuel
      have hback := fields_pretty h hne hfields (level + 1) fuel (by omega) level rest
      obtain ⟨l, hl⟩ := joined_starts_field (level + 1) e fields
      rw [hl] at hback ⊢
      simp only [List.append_assoc, List.cons_append, List.nil_append] at hback ⊢
      rw [Reader.value_object ((Reader.skip_lineBreak ..).trans (Reader.skip_cons (by decide) _))
        (by decide), hback]
      rfl

mutual

lemma readsBack : ∀ j : Json, ReadsBack j
  | .null => by
    intro shape room h level fuel hfuel rest _
    obtain ⟨fuel, rfl⟩ := fuel_of_length h hfuel
    rw [prettyAt_null, Reader.value_null]
  | .bool true => by
    intro shape room h level fuel hfuel rest _
    obtain ⟨fuel, rfl⟩ := fuel_of_length h hfuel
    rw [prettyAt_true, Reader.value_true]
  | .bool false => by
    intro shape room h level fuel hfuel rest _
    obtain ⟨fuel, rfl⟩ := fuel_of_length h hfuel
    rw [prettyAt_false, Reader.value_false]
  | .str s => by
    intro shape room h level fuel hfuel rest _
    obtain ⟨fuel, rfl⟩ := fuel_of_length h hfuel
    rw [prettyAt_str, List.cons_append, List.append_assoc]
    exact Reader.value_string (Reader.string_quoted s rest)
  | .num (.whole i) => readsBack_int i
  | .num (.fraction _) => fun _ _ h => absurd h (by simp [Readable])
  | .arr items => readsBack_arr (readsBack_items items)
  | .obj fields => readsBack_obj (readsBack_fields fields)

lemma readsBack_items : ∀ items : List Json, ∀ j ∈ items, ReadsBack j
  | [] => fun _ h => absurd h List.not_mem_nil
  | j :: items => List.forall_mem_cons.2 ⟨readsBack j, readsBack_items items⟩

lemma readsBack_fields : ∀ fields : List (String × Json), ∀ e ∈ fields, ReadsBack e.2
  | [] => fun _ h => absurd h List.not_mem_nil
  | (_, j) :: fields => List.forall_mem_cons.2 ⟨readsBack j, readsBack_fields fields⟩

end

theorem readAs?_pretty {shape : Shape} {j : Json} (h : Readable shape maxDepth j) :
    readAs? shape j.pretty = some j := by
  have hnothing : Reader.Ends [] := fun _ _ heq => absurd heq (by simp)
  have hfuel : 2 * (prettyAt 0 j).toList.length ≤ 2 * (prettyAt 0 j).toList.length + 2 + 1 := by
    omega
  have hread := readsBack j h 0 hfuel hnothing
  rw [List.append_nil] at hread
  rw [readAs?, pretty]
  simp only [hread, Option.bind_eq_bind, Option.bind_some]
  rfl

end Statechart.Json
