import Mathlib.Tactic.Common
import Statechart.Proofs.Machine.Ids
import Statechart.Proofs.Machine.Paths
import Statechart.Proofs.Text.Split

/-! Addresses of built machines. Every state is found under its id, and under the keys that lead to
it from any state above it if the keys can be told apart from the delimiter and from ids. -/

namespace Statechart

namespace Text

variable {start text : String}

lemma stripStart?_append (start text : String) : stripStart? start (start ++ text) = some text := by
  have hstarts : startsWith (start ++ text) start = true := by
    rw [startsWith, String.toList_append, List.isPrefixOf_iff_prefix]
    exact List.prefix_append _ _
  rw [stripStart?, if_pos hstarts, String.toList_append, List.drop_left, String.ofList_toList]

lemma stripStart?_eq_none (h : startsWith text start = false) : stripStart? start text = none := by
  rw [stripStart?, h]
  rfl

lemma startsWith_append {x : Char} (hs : start.toList = [x]) (h : text ≠ "") (rest : String) :
    startsWith (text ++ rest) start = startsWith text start := by
  obtain ⟨y, ys, hy⟩ := List.exists_cons_of_ne_nil (mt String.toList_eq_nil_iff.1 h)
  rw [startsWith, startsWith, hs, String.toList_append, hy, List.cons_append,
    List.isPrefixOf_cons_cons, List.isPrefixOf_cons_cons, List.isPrefixOf_nil_left,
    List.isPrefixOf_nil_left]

lemma startsWith_of_not_mem {x : Char} (hs : start.toList = [x]) (h : x ∉ text.toList) :
    startsWith text start = false := by
  rw [startsWith, hs, Bool.eq_false_iff, ne_eq, List.isPrefixOf_iff_prefix]
  exact fun hp => h (hp.subset List.mem_cons_self)

lemma exists_join_cons (delimiter part : String) (parts : List String) :
    ∃ rest, join delimiter (part :: parts) = part ++ rest := by
  cases parts with
  | nil => exact ⟨"", by rw [join, String.intercalate_singleton, String.append_empty]⟩
  | cons next parts =>
    exact ⟨delimiter ++ delimiter.intercalate (next :: parts), by
      rw [join, String.intercalate_cons_cons, String.append_assoc]⟩

end Text

namespace Chart

variable {c : Chart} {n a p : NodeId} {δ : Char}

lemma descend?_nothing (n : NodeId) : c.descend? n "" = some n := by
  have hnone : Text.segments c.delimiter "" = [] := by
    rw [Text.segments, Text.split]
    split <;> simp [Text.cuts]
  rw [descend?, hnone]
  rfl

lemma resolveReference?_id (hi : c.IdsDistinct) (hn : n < c.size) :
    c.resolveReference? (c.node n).id = some n := by
  obtain ⟨k, hk⟩ := Nat.exists_eq_succ_of_ne_zero
    (mt List.length_eq_zero_iff.1 (Text.split_ne_nil c.delimiter (c.node n).id))
  have hwhole : c.descend? n (Text.join c.delimiter []) = some n := descend?_nothing n
  simp only [resolveReference?, hk, List.range_succ, List.reverse_append, List.reverse_singleton,
    List.singleton_append, List.findSome?_cons]
  rw [List.take_of_length_le (Nat.le_of_eq hk), List.drop_of_length_le (Nat.le_of_eq hk),
    Text.join_split, find?_node hi hn, Option.bind_eq_bind, Option.bind_some, hwhole]

def route (c : Chart) (a n : NodeId) : List String :=
  ((n :: (c.node n).ancestors).takeWhile (· ≠ a)).reverse.map fun x => (c.node x).key

lemma route_self (a : NodeId) : c.route a a = [] := by
  simp [route]

lemma route_of_parent (ht : c.IsTree) (hne : n ≠ a) (hp : (c.node n).parent? = some p) :
    c.route a n = c.route a p ++ [(c.node n).key] := by
  rw [route, ancestors_of_parent ht hp, List.takeWhile_cons_of_pos (by simpa using hne),
    List.reverse_cons, List.map_append]
  rfl

lemma route_ne_nil (hne : n ≠ a) : c.route a n ≠ [] := by
  simp [route, hne]

lemma mem_route (ht : c.IsTree) (h : c.Within n a) :
    ∀ key ∈ c.route a n, ∃ x, c.Below x a ∧ (c.node x).key = key := by
  induction n using Nat.strongRecOn with
  | ind n ih =>
    rcases h with rfl | h
    · simp [route_self]
    · obtain ⟨p, hp, hpa⟩ := exists_parent ht h
      rw [route_of_parent ht (Nat.ne_of_gt (below_lt ht h)) hp]
      intro key hkey
      rcases List.mem_append.1 hkey with hkey | hkey
      · exact ih p (parent_lt ht hp) hpa key hkey
      · exact ⟨n, h, (List.mem_singleton.1 hkey).symm⟩

lemma follow_route (ht : c.IsTree) (hk : c.KeysDistinct) (h : c.Within n a) :
    (c.route a n).foldlM c.child? a = some n := by
  induction n using Nat.strongRecOn with
  | ind n ih =>
    rcases h with rfl | h
    · rw [route_self]
      rfl
    · obtain ⟨p, hp, hpa⟩ := exists_parent ht h
      rw [route_of_parent ht (Nat.ne_of_gt (below_lt ht h)) hp, List.foldlM_append,
        ih p (parent_lt ht hp) hpa]
      change [(c.node n).key].foldlM c.child? p = some n
      rw [List.foldlM_cons, child?_key hk ((ht.mem_children n p).2 hp)]
      rfl

lemma route_root (ht : c.IsTree) (hk : c.KeysDistinct) (hc : c.Traced) (hn : n < c.size) :
    c.route rootId n = (c.node n).path := by
  rw [path_of_descend hc (follow_route ht hk (within_root ht hn)), hc.root, List.nil_append]

structure PlainKeys (c : Chart) (δ : Char) : Prop extends c.Separable δ where
  ne_mark : δ ≠ '#'
  unmarked : ∀ x < c.size, x ≠ rootId → Text.startsWith (c.node x).key "#" = false

section

variable (ht : c.IsTree) (hk : c.KeysDistinct) (hp : c.PlainKeys δ) (h : c.Below n a)

include ht hk hp h

lemma descend?_route : c.descend? a (Text.join c.delimiter (c.route a n)) = some n := by
  rw [descend?, Text.segments_join hp.delimiter (route_ne_nil (Nat.ne_of_gt (below_lt ht h)))]
  · exact follow_route ht hk (.inr h)
  · intro key hkey
    obtain ⟨x, hx, rfl⟩ := mem_route ht (.inr h) key hkey
    have hroot : x ≠ rootId := Nat.ne_of_gt (Nat.zero_lt_of_lt (below_lt ht hx))
    exact hp.keys x (below_size hx) hroot

omit hk in
lemma joined_route : Text.join c.delimiter (c.route a n) ≠ "" ∧
    Text.startsWith (Text.join c.delimiter (c.route a n)) "#" = false ∧
      Text.startsWith (Text.join c.delimiter (c.route a n)) c.delimiter = false := by
  obtain ⟨key, keys, hkeys⟩ :=
    List.exists_cons_of_ne_nil (route_ne_nil (c := c) (Nat.ne_of_gt (below_lt ht h)))
  obtain ⟨x, hx, rfl⟩ := mem_route ht (.inr h) key (hkeys ▸ List.mem_cons_self)
  have hroot : x ≠ rootId := Nat.ne_of_gt (Nat.zero_lt_of_lt (below_lt ht hx))
  have hsize := below_size hx
  obtain ⟨hne, hundivided⟩ := hp.keys x hsize hroot
  obtain ⟨rest, hjoined⟩ := Text.exists_join_cons c.delimiter (c.node x).key keys
  rw [hkeys, hjoined]
  refine ⟨?_, ?_, ?_⟩
  · exact fun he => hne (String.append_eq_empty_iff.1 he).1
  · rw [Text.startsWith_append (x := '#') rfl hne]
    exact hp.unmarked x hsize hroot
  · rw [Text.startsWith_append hp.delimiter hne]
    exact Text.startsWith_of_not_mem hp.delimiter hundivided

lemma resolveTarget?_child {child : NodeId} (hc : child ∈ (c.node a).children) :
    c.resolveTarget? child (Text.join c.delimiter (c.route a n)) = some n := by
  obtain ⟨hne, hmark, hdelimiter⟩ := joined_route ht hp h
  have hparent := (ht.mem_children child a).1 hc
  rw [resolveTarget?, if_neg hne, Text.stripStart?_eq_none hmark,
    Text.stripStart?_eq_none hdelimiter]
  rw [hparent]
  exact descend?_route ht hk hp h

lemma resolveTarget?_self :
    c.resolveTarget? a (c.delimiter ++ Text.join c.delimiter (c.route a n)) = some n := by
  have hd : c.delimiter ≠ "" := fun he => by simpa [he] using hp.delimiter
  have hne : c.delimiter ++ Text.join c.delimiter (c.route a n) ≠ "" :=
    fun he => hd (String.append_eq_empty_iff.1 he).1
  have hmark : Text.startsWith (c.delimiter ++ Text.join c.delimiter (c.route a n)) "#" =
      false := by
    rw [Text.startsWith_append (x := '#') rfl hd]
    exact Text.startsWith_of_not_mem (x := '#') rfl (by simp [hp.delimiter, hp.ne_mark.symm])
  rw [resolveTarget?, if_neg hne, Text.stripStart?_eq_none hmark, Text.stripStart?_append]
  exact descend?_route ht hk hp h

end

end Chart

namespace Machine

variable {C : Type} [JsonCoded C] {d : Definition} {b : Behaviors C} {context : Option C}
  {m : Machine C}

/-- Every state is addressed by its id from anywhere and, if keys are plain, by the keys that lead
to it from a state above it. -/
theorem resolveTarget?_of_build (h : build d b context = .ok m) :
    (∀ n < m.chart.size, ∀ source,
      m.chart.resolveTarget? source ("#" ++ (m.node n).id) = some n) ∧
    ∀ δ, m.chart.PlainKeys δ → ∀ n a, m.chart.Below n a →
      let path := Text.join m.chart.delimiter (m.chart.route a n)
      (∀ child ∈ (m.node a).children, m.chart.resolveTarget? child path = some n) ∧
        m.chart.resolveTarget? a (m.chart.delimiter ++ path) = some n ∧
        (a = rootId → m.chart.descriptor n = path ∧ m.chart.findDescriptor? path = some n ∧
          m.chart.resolveIn? path = some n) := by
  have ht := (wellFormed_of_build h).chart.toIsTree
  have hk := keysDistinct_of_build h
  refine ⟨fun n hn source => ?_, fun δ hp n a hb => ?_⟩
  · rw [Chart.resolveTarget?, if_neg (by simp [String.append_eq_empty_iff]),
      Text.stripStart?_append]
    exact Chart.resolveReference?_id (idsDistinct_of_build h) hn
  · refine ⟨fun child hc => Chart.resolveTarget?_child ht hk hp hb hc,
      Chart.resolveTarget?_self ht hk hp hb, ?_⟩
    rintro rfl
    have hfound := Chart.descend?_route ht hk hp hb
    refine ⟨?_, hfound, ?_⟩
    · rw [Chart.descriptor,
        Chart.route_root ht hk (traced_of_build h) (Chart.below_size hb)]
    · rw [Chart.resolveIn?, Text.stripStart?_eq_none (Chart.joined_route ht hp hb).2.1]
      exact hfound

def shelves : Definition :=
  { Definition.ofRoot {
      id := some "x"
      initial := some "top"
      states := [
        ("top", {
          id := some "x/y"
          initial := some "row"
          states := [("row", {
            id := some "x/y/z"
            initial := some "y"
            states := [("y", {}), ("z", { id := some "x/y/" })] })] }),
        ("y", { id := some "/y" })] } with
    delimiter := some "/" }

def shelvesMachine : Machine Unit := assemble shelves () (link shelves {}).value

lemma build_shelves : build shelves {} (some ()) = .ok shelvesMachine := rfl

theorem shelves_resolve : shelvesMachine.chart.PlainKeys '/' ∧
    (∀ source, shelvesMachine.chart.resolveTarget? source "#x/y" = some 1 ∧
      shelvesMachine.chart.resolveTarget? source "#x/y/" = some 4) ∧
    shelvesMachine.chart.resolveTarget? 2 "row/z" = some 4 ∧
    shelvesMachine.chart.resolveTarget? 1 "/row/z" = some 4 ∧
    shelvesMachine.chart.descriptor 4 = "top/row/z" ∧
    shelvesMachine.chart.resolveIn? "top/row/z" = some 4 := by
  obtain ⟨hid, hkeys⟩ := resolveTarget?_of_build build_shelves
  have hp : shelvesMachine.chart.PlainKeys '/' :=
    ⟨⟨rfl, by decide +kernel⟩, by decide, by decide +kernel⟩
  have hrow : Text.join shelvesMachine.chart.delimiter (shelvesMachine.chart.route 1 4) =
      "row/z" := by decide +kernel
  have htop : Text.join shelvesMachine.chart.delimiter (shelvesMachine.chart.route 0 4) =
      "top/row/z" := by decide +kernel
  have hbelow := hkeys '/' hp 4 1 (by decide)
  have hroot := hkeys '/' hp 4 0 (by decide)
  simp only [hrow] at hbelow
  simp only [htop] at hroot
  obtain ⟨hdescriptor, _, hin⟩ := hroot.2.2 rfl
  exact ⟨hp, fun source => ⟨hid 1 (by decide) source, hid 4 (by decide) source⟩,
    hbelow.1 2 (by decide), hbelow.2.1, hdescriptor, hin⟩

end Machine

end Statechart
