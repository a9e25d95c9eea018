import Mathlib.Tactic.Common
import Statechart.Definition.Decode
import Statechart.Proofs.Json.Fields
import Statechart.Proofs.Json.Text

/-! Definitions written as JSON and read back. Whatever short forms a definition was read from, what
is written of it is read as the same definition. -/

namespace Statechart

open Json (objOf present Foreign record? oneOrMany? optional defaulted required string? bool?
  entries? record?_objOf record?_objOf_of_aligned foreign_of_keys forall_foreign oneOrMany?_arr
  optional_map get?_present)

def TransitionDef.Expressible (t : TransitionDef) : Prop := ∀ v ∈ t.metadata, v.isNull = false

structure InvokeDef.Expressible (i : InvokeDef) : Prop where
  onDone : ∀ t ∈ i.onDone, t.Expressible
  onError : ∀ t ∈ i.onError, t.Expressible

structure StateBody.Expressible (b : StateBody) : Prop where
  on : ∀ e ∈ b.on.entries, ∀ t ∈ e.2, t.Expressible
  always : ∀ t ∈ b.always, t.Expressible
  after : ∀ e ∈ b.after.entries, ∀ t ∈ e.2, t.Expressible
  onDone : ∀ t ∈ b.onDone, t.Expressible
  invoke : ∀ i ∈ b.invoke, i.Expressible
  metadata : ∀ v ∈ b.metadata, v.isNull = false

namespace StateDef

mutual

def Expressible : StateDef → Prop
  | ⟨body, states⟩ => body.Expressible ∧ ExpressibleAll states

def ExpressibleAll : List (String × StateDef) → Prop
  | [] => True
  | (_, s) :: rest => Expressible s ∧ ExpressibleAll rest

end

end StateDef

structure Definition.Expressible (d : Definition) : Prop where
  root : d.root.Expressible
  context : ∀ v ∈ d.context, v.isNull = false

lemma defaulted_presentList {α : Type} {toJson : α → Json} {item? : Json → Option α} {l : List α}
    (h : ∀ x ∈ l, item? (toJson x) = some x) :
    defaulted [] (oneOrMany? item?) (presentList toJson l) = some l := by
  cases l with
  | nil => rfl
  | cons x l => exact oneOrMany?_arr h

lemma defaulted_strings (l : List String) :
    defaulted [] (oneOrMany? string?) (presentList .str l) = some l :=
  defaulted_presentList fun _ _ => rfl

lemma optional_string (o : Option String) : optional string? (o.map .str) = some o :=
  optional_map fun _ _ => ⟨by simp, rfl⟩

lemma optional_bool (o : Option Bool) : optional bool? (o.map .bool) = some o :=
  optional_map fun _ _ => ⟨by simp, rfl⟩

lemma optional_freeForm {o : Option Value} (h : ∀ v ∈ o, v.isNull = false) :
    optional freeForm? (o.map Value.json) = some o := by
  refine optional_map fun v hv => ⟨fun hnull => ?_, congrArg some v.ofJson_json⟩
  have hshown := h v hv
  rw [Value.isNull, hnull] at hshown
  exact absurd hshown (by decide)

lemma optional_nodeType (o : Option NodeType) :
    optional NodeType.ofJson? (o.map (.str ∘ NodeType.name)) = some o :=
  optional_map fun t _ => ⟨by simp, by cases t <;> decide⟩

lemma optional_historyMark (o : Option HistoryMark) :
    optional HistoryMark.ofJson? (o.map HistoryMark.toJson) = some o := by
  refine optional_map fun mark _ => ?_
  cases mark with
  | flag on => exact ⟨by simp [HistoryMark.toJson], rfl⟩
  | kind kind => exact ⟨by simp [HistoryMark.toJson], by cases kind <;> decide⟩

lemma TransitionDef.ofJson?_toJson {t : TransitionDef} (h : t.Expressible) :
    ofJson? t.toJson = some t := by
  have hrecord : record? fieldNames t.toJson =
      some [presentList .str t.target, t.guard.map .str, t.inState.map .str,
        presentList .str t.actions, t.internal.map .bool, t.metadata.map Value.json] :=
    record?_objOf_of_aligned rfl
  change ofRecord? t.toJson = some t
  simp only [ofRecord?, hrecord, defaulted_strings, optional_string, optional_bool,
    optional_freeForm h, Option.bind_eq_bind, Option.bind_some, Option.pure_def]

lemma TransitionDef.defaulted_list {l : List TransitionDef} (h : ∀ t ∈ l, t.Expressible) :
    defaulted [] list? (presentList toJson l) = some l :=
  defaulted_presentList fun t ht => ofJson?_toJson (h t ht)

lemma TransitionDef.defaulted_keyed {m : KeyedList (List TransitionDef)}
    (h : ∀ e ∈ m.entries, ∀ t ∈ e.2, t.Expressible) :
    defaulted .empty keyed? (keyedToJson m) = some m := by
  have hentries : entries? list? (.obj (m.entries.map fun e => (e.1, .arr (e.2.map toJson)))) =
      some m.entries := by
    refine Json.mapM_map fun e he => ?_
    have hlist : list? (.arr (e.2.map toJson)) = some e.2 :=
      oneOrMany?_arr fun t ht => ofJson?_toJson (h e he t ht)
    rw [hlist]
    rfl
  rw [keyedToJson]
  split
  · rename_i hm
    have hempty : m = .empty := KeyedList.ext (List.isEmpty_iff.1 hm)
    rw [hempty]
    rfl
  · rw [defaulted, keyed?, hentries, Option.map_some, KeyedList.ofList_entries]

lemma InvokeDef.ofJson?_toJson {i : InvokeDef} (h : i.Expressible) :
    ofJson? i.toJson = some i := by
  have hrecord : record? [["id"], ["src"], ["onDone"], ["onError"]] i.toJson =
      some [i.id.map .str, some (.str i.src), presentList TransitionDef.toJson i.onDone,
        presentList TransitionDef.toJson i.onError] :=
    record?_objOf_of_aligned rfl
  have hsrc : required string? (some (.str i.src)) = some i.src := rfl
  simp only [ofJson?, hrecord, hsrc, optional_string, TransitionDef.defaulted_list h.onDone,
    TransitionDef.defaulted_list h.onError, Option.bind_eq_bind, Option.bind_some,
    Option.pure_def]

namespace StateBody

def fieldsWith (b : StateBody) (states : Option Json) : List (String × Option Json) :=
  b.leadingFields ++ ("states", states) :: b.trailingFields

lemma ofJson?_objOf {b : StateBody} (h : b.Expressible) (states : Option Json)
    {before : List (String × Option Json)} (hbefore : ∀ l ∈ fieldNames, Foreign l before) :
    ofJson? (objOf (before ++ b.fieldsWith states)) = some b := by
  have hrecord : record? fieldNames (objOf (before ++ b.fieldsWith states ++ [])) =
      some ((b.fieldsWith states).map Prod.snd) :=
    record?_objOf rfl hbefore fun _ _ _ he => absurd he List.not_mem_nil
  rw [List.append_nil] at hrecord
  have hinvoke : defaulted [] (oneOrMany? InvokeDef.ofJson?)
      (presentList InvokeDef.toJson b.invoke) = some b.invoke :=
    defaulted_presentList fun i hi => InvokeDef.ofJson?_toJson (h.invoke i hi)
  rw [ofJson?, hrecord]
  simp only [fieldsWith, leadingFields, trailingFields, List.cons_append,
    List.nil_append, List.map_cons, List.map_nil, optional_string, optional_nodeType,
    optional_historyMark, TransitionDef.defaulted_keyed h.on, TransitionDef.defaulted_list h.always,
    TransitionDef.defaulted_keyed h.after, TransitionDef.defaulted_list h.onDone,
    defaulted_strings, hinvoke, optional_freeForm h.metadata, Option.bind_eq_bind,
    Option.bind_some, Option.pure_def]

end StateBody

namespace StateDef

lemma fields_eq (s : StateDef) : s.fields = s.toStateBody.fieldsWith
    (if s.states.isEmpty then none else some (.obj (statesFields s.states))) := by
  obtain ⟨body, states⟩ := s
  rw [fields]
  rfl

lemma statesOfFields?_eq (fields : List (String × Json)) :
    statesOfFields? fields = match Keyed.get? fields "states" with
      | none => some []
      | some j => states? j := by
  induction fields with
  | nil => rfl
  | cons e l ih =>
    obtain ⟨key, j⟩ := e
    rw [statesOfFields?, Keyed.get?]
    split
    · rfl
    · exact ih

lemma statesOfFields?_present {s : StateDef} {before : List (String × Option Json)}
    (hbefore : ∀ l ∈ StateBody.fieldNames, Foreign l before)
    (heach : each? (statesFields s.states) = some s.states) :
    statesOfFields? (present (before ++ s.fields)) = some s.states := by
  have hleading : Foreign ["states"] (before ++ s.toStateBody.leadingFields) := by
    intro e he
    cases List.mem_append.1 he with
    | inl he => exact hbefore ["states"] (by decide) e he
    | inr he =>
      have hforeign : Foreign ["states"] s.toStateBody.leadingFields := foreign_of_keys rfl
      exact hforeign e he
  rw [statesOfFields?_eq, fields_eq, StateBody.fieldsWith, ← List.append_assoc,
    get?_present hleading (foreign_of_keys rfl)]
  cases hstates : s.states with
  | nil => rfl
  | cons e l =>
    rw [hstates] at heach
    exact heach

mutual

lemma ofJson?_objOf : ∀ (s : StateDef) {before : List (String × Option Json)}, s.Expressible →
    (∀ l ∈ StateBody.fieldNames, Foreign l before) →
    ofJson? (objOf (before ++ s.fields)) = some s
  | ⟨body, states⟩, before, h, hbefore => by
    have hbody := StateBody.ofJson?_objOf h.1
      (if states.isEmpty then none else some (.obj (statesFields states))) hbefore
    have hstates := statesOfFields?_present (s := ⟨body, states⟩) hbefore
      (each?_statesFields states h.2)
    rw [fields_eq] at hstates ⊢
    change (StateBody.ofJson? (objOf _)).bind _ = _
    rw [hbody]
    change (statesOfFields? (present _)).bind _ = _
    rw [hstates]
    rfl

lemma each?_statesFields : ∀ states : List (String × StateDef), ExpressibleAll states →
    each? (statesFields states) = some states
  | [], _ => rfl
  | (key, s) :: rest, h => by
    have hnone : ∀ l ∈ StateBody.fieldNames, Foreign l [] :=
      fun _ _ _ he => absurd he List.not_mem_nil
    have hs := ofJson?_objOf s h.1 hnone
    rw [List.nil_append] at hs
    rw [statesFields, each?, hs, each?_statesFields rest h.2]
    rfl

end

end StateDef

namespace Definition

def settings (d : Definition) : List (String × Option Json) :=
  [("version", d.version.map .str), ("delimiter", d.delimiter.map .str),
    ("strict", some (.bool d.strict)), ("context", d.context.map Value.json)]

lemma ofRoot_root (d : Definition) : { ofRoot d.root with
    version := d.version
    delimiter := d.delimiter
    strict := d.strict
    context := d.context } = d := by
  have hroot : d.root.tidy = d.root := StateDef.tidy_of_keysDistinct d.keysDistinct
  obtain ⟨version, delimiter, strict, context, root, keysDistinct⟩ := d
  simp only [ofRoot, mk.injEq, true_and]
  exact hroot

lemma ofJson?_toJson {d : Definition} (h : d.Expressible) : ofJson? d.toJson = some d := by
  have hroot : ∀ l ∈ [["version"], ["delimiter"], ["strict"], ["context"]],
      Foreign l d.root.fields := by
    rw [StateDef.fields_eq]
    exact forall_foreign rfl
  have hrecord : record? [["version"], ["delimiter"], ["strict"], ["context"]]
      (.obj (present (d.settings ++ d.root.fields))) = some (d.settings.map Prod.snd) :=
    record?_objOf rfl (fun _ _ _ he => absurd he List.not_mem_nil) hroot
  have hstate : StateDef.ofJson? (.obj (present (d.settings ++ d.root.fields))) = some d.root :=
    StateDef.ofJson?_objOf d.root h.root (forall_foreign rfl)
  have hstrict : defaulted false bool? (some (.bool d.strict)) = some d.strict := rfl
  change ofJson? (.obj (present (d.settings ++ d.root.fields))) = some d
  rw [ofJson?, hrecord, hstate]
  simp only [settings, List.map_cons, List.map_nil, optional_string, hstrict,
    optional_freeForm h.context, Option.bind_eq_bind, Option.bind_some, Option.pure_def]
  exact congrArg some d.ofRoot_root

end Definition

lemma isNull_of_optional {o : Option Json} {v : Option Value} (h : optional freeForm? o = some v) :
    ∀ w ∈ v, w.isNull = false := by
  rcases o with _ | j
  · obtain rfl : none = v := Option.some.inj h
    exact fun w hw => absurd hw (by simp)
  · cases j with
    | null =>
      obtain rfl : none = v := Option.some.inj h
      exact fun w hw => absurd hw (by simp)
    | _ =>
      obtain rfl := Option.some.inj h
      intro w hw
      rw [← Option.some.inj hw]
      rfl

namespace TransitionDef

lemma expressible_of_ofJson? {j : Json} {t : TransitionDef} (h : ofJson? j = some t) :
    t.Expressible := by
  have hrecord : ofRecord? j = some t → t.Expressible := by
    intro h
    rw [ofRecord?] at h
    split at h
    · iterate 5 obtain ⟨_, _, h⟩ := Option.bind_eq_some_iff.1 h
      obtain ⟨metadata, hmetadata, h⟩ := Option.bind_eq_some_iff.1 h
      obtain rfl := Option.some.inj h
      exact isNull_of_optional hmetadata
    · exact absurd h (by simp)
  cases j with
  | str target =>
    obtain rfl := Option.some.inj h
    exact fun v hv => absurd hv (by simp [ofTarget])
  | _ => exact hrecord h

lemma expressible_of_list? {j : Json} {l : List TransitionDef} (h : list? j = some l) :
    ∀ t ∈ l, t.Expressible :=
  Json.forall_of_oneOrMany? (fun _ _ => expressible_of_ofJson?) h

lemma expressible_of_defaulted {o : Option Json} {l : List TransitionDef}
    (h : defaulted [] list? o = some l) : ∀ t ∈ l, t.Expressible :=
  Json.forall_of_defaulted (fun _ _ => expressible_of_list?) h

lemma expressible_of_keyed {o : Option Json} {m : KeyedList (List TransitionDef)}
    (h : defaulted .empty keyed? o = some m) : ∀ e ∈ m.entries, ∀ t ∈ e.2, t.Expressible := by
  rcases o with _ | j
  · obtain rfl : .empty = m := Option.some.inj h
    exact fun e he => absurd he List.not_mem_nil
  · obtain ⟨l, hl, rfl⟩ := Option.map_eq_some_iff.1 h
    cases j with
    | obj fields =>
      have hall : ∀ e ∈ l, ∀ t ∈ e.2, t.Expressible := by
        refine Json.forall_of_mapM (fun d e he => ?_) hl
        obtain ⟨l, hl, rfl⟩ := Option.map_eq_some_iff.1 he
        exact expressible_of_list? hl
      exact fun e he => hall e (Keyed.mem_of_mem_collapse he)
    | _ => exact absurd hl (by simp [entries?])

end TransitionDef

lemma InvokeDef.expressible_of_ofJson? {j : Json} {i : InvokeDef} (h : ofJson? j = some i) :
    i.Expressible := by
  rw [ofJson?] at h
  split at h
  · iterate 2 obtain ⟨_, _, h⟩ := Option.bind_eq_some_iff.1 h
    obtain ⟨onDone, hdone, h⟩ := Option.bind_eq_some_iff.1 h
    obtain ⟨onError, herror, h⟩ := Option.bind_eq_some_iff.1 h
    obtain rfl := Option.some.inj h
    exact ⟨TransitionDef.expressible_of_defaulted hdone,
      TransitionDef.expressible_of_defaulted herror⟩
  · exact absurd h (by simp)

lemma StateBody.expressible_of_ofJson? {j : Json} {b : StateBody} (h : ofJson? j = some b) :
    b.Expressible := by
  rw [ofJson?] at h
  split at h
  · iterate 5 obtain ⟨_, _, h⟩ := Option.bind_eq_some_iff.1 h
    obtain ⟨on, hon, h⟩ := Option.bind_eq_some_iff.1 h
    obtain ⟨always, halways, h⟩ := Option.bind_eq_some_iff.1 h
    obtain ⟨after, hafter, h⟩ := Option.bind_eq_some_iff.1 h
    obtain ⟨onDone, hdone, h⟩ := Option.bind_eq_some_iff.1 h
    iterate 2 obtain ⟨_, _, h⟩ := Option.bind_eq_some_iff.1 h
    obtain ⟨invoke, hinvoke, h⟩ := Option.bind_eq_some_iff.1 h
    iterate 2 obtain ⟨_, _, h⟩ := Option.bind_eq_some_iff.1 h
    obtain ⟨metadata, hmetadata, h⟩ := Option.bind_eq_some_iff.1 h
    obtain rfl := Option.some.inj h
    have hinvokes : ∀ j l, oneOrMany? InvokeDef.ofJson? j = some l → ∀ i ∈ l, i.Expressible :=
      fun _ _ => Json.forall_of_oneOrMany? fun _ _ => InvokeDef.expressible_of_ofJson?
    exact {
      on := TransitionDef.expressible_of_keyed hon
      always := TransitionDef.expressible_of_defaulted halways
      after := TransitionDef.expressible_of_keyed hafter
      onDone := TransitionDef.expressible_of_defaulted hdone
      invoke := Json.forall_of_defaulted hinvokes hinvoke
      metadata := isNull_of_optional hmetadata }
  · exact absurd h (by simp)

namespace StateDef

mutual

lemma expressible_of_ofJson? : ∀ {j : Json} {s : StateDef}, ofJson? j = some s → s.Expressible
  | .obj fields, s, h => by
    obtain ⟨body, hbody, h⟩ := Option.bind_eq_some_iff.1 h
    obtain ⟨states, hstates, h⟩ := Option.bind_eq_some_iff.1 h
    obtain rfl := Option.some.inj h
    exact ⟨StateBody.expressible_of_ofJson? hbody, expressible_of_statesOfFields? hstates⟩
  | .arr items, s, h => by
    obtain ⟨body, hbody, h⟩ := Option.bind_eq_some_iff.1 h
    obtain ⟨states, hstates, h⟩ := Option.bind_eq_some_iff.1 h
    obtain rfl := Option.some.inj h
    exact ⟨StateBody.expressible_of_ofJson? hbody, expressible_of_statesOfItems? hstates⟩
  | .null, _, h | .bool _, _, h | .num _, _, h | .str _, _, h => absurd h (by simp [ofJson?])

lemma expressible_of_statesOfFields? : ∀ {fields : List (String × Json)}
    {l : List (String × StateDef)}, statesOfFields? fields = some l → ExpressibleAll l
  | [], _, h => by
    obtain rfl := Option.some.inj h
    trivial
  | (key, j) :: rest, l, h => by
    rw [statesOfFields?] at h
    split at h
    · exact expressible_of_states? h
    · exact expressible_of_statesOfFields? h

lemma expressible_of_statesOfItems? : ∀ {n : Nat} {items : List Json}
    {l : List (String × StateDef)}, statesOfItems? n items = some l → ExpressibleAll l
  | n, [], _, h => by
    rw [statesOfItems?.eq_def] at h
    cases n <;> obtain rfl := Option.some.inj h <;> trivial
  | 0, j :: _, _, h => expressible_of_states? h
  | n + 1, _ :: rest, _, h => expressible_of_statesOfItems? (n := n) h

lemma expressible_of_states? : ∀ {j : Json} {l : List (String × StateDef)},
    states? j = some l → ExpressibleAll l
  | .obj fields, _, h => expressible_of_each? h
  | .null, _, h | .bool _, _, h | .num _, _, h | .str _, _, h | .arr _, _, h =>
    absurd h (by simp [states?])

lemma expressible_of_each? : ∀ {fields : List (String × Json)} {l : List (String × StateDef)},
    each? fields = some l → ExpressibleAll l
  | [], _, h => by
    obtain rfl := Option.some.inj h
    trivial
  | (key, j) :: rest, _, h => by
    obtain ⟨s, hs, h⟩ := Option.bind_eq_some_iff.1 h
    obtain ⟨states, hstates, h⟩ := Option.bind_eq_some_iff.1 h
    obtain rfl := Option.some.inj h
    exact ⟨expressible_of_ofJson? hs, expressible_of_each? hstates⟩

end

lemma expressibleAll_iff {states : List (String × StateDef)} :
    ExpressibleAll states ↔ ∀ e ∈ states, Expressible e.2 := by
  induction states with
  | nil => simp [ExpressibleAll]
  | cons e l ih => simp [ExpressibleAll, ih]

mutual

lemma expressible_tidy : ∀ {s : StateDef}, s.Expressible → s.tidy.Expressible
  | ⟨_, states⟩, h => by
    refine ⟨h.1, expressibleAll_iff.2 fun e he => ?_⟩
    exact expressibleAll_iff.1 (expressibleAll_tidyAll h.2) e (Keyed.mem_of_mem_collapse he)

lemma expressibleAll_tidyAll : ∀ {states : List (String × StateDef)}, ExpressibleAll states →
    ExpressibleAll (tidyAll states)
  | [], _ => trivial
  | (_, _) :: _, h => ⟨expressible_tidy h.1, expressibleAll_tidyAll h.2⟩

end

end StateDef

namespace Definition

lemma expressible_of_ofJson? {j : Json} {d : Definition} (h : ofJson? j = some d) :
    d.Expressible := by
  cases j with
  | obj fields =>
    rw [ofJson?] at h
    split at h
    · obtain ⟨root, hroot, h⟩ := Option.bind_eq_some_iff.1 h
      iterate 3 obtain ⟨_, _, h⟩ := Option.bind_eq_some_iff.1 h
      obtain ⟨context, hcontext, h⟩ := Option.bind_eq_some_iff.1 h
      obtain rfl := Option.some.inj h
      exact ⟨StateDef.expressible_tidy (StateDef.expressible_of_ofJson? hroot),
        isNull_of_optional hcontext⟩
    · exact absurd h (by simp)
  | _ => exact absurd h (by simp [ofJson?])

/-- Whatever text a definition was read from, what is written of it is read as the same definition,
if the text that is printed of a value is read as that value. -/
theorem read_render {text : String} {d : Definition} (h : read? text = some d) :
    ofJson? d.toJson = some d ∧
      (Json.read? d.toJson.pretty = some d.toJson → read? d.render = some d) := by
  obtain ⟨j, _, hj⟩ := Option.bind_eq_some_iff.1 h
  have hback := ofJson?_toJson (expressible_of_ofJson? hj)
  refine ⟨hback, fun htext => ?_⟩
  rw [read?, render, htext]
  exact hback

def toggleText : String :=
  "\x7b\"on\":\x7b\"GO\":\"a\",\"GO\":[[\"b\"]]\x7d,\"history\":true\x7d"

def toggle : Definition := .ofRoot
  { history := some (.flag true)
    on := .ofList [("GO", [{ target := ["b"] }])] }

def toggleChars : List Char :=
  ['{', '"', 'o', 'n', '"', ':', '{', '"', 'G', 'O', '"', ':', '"', 'a', '"', ',', '"', 'G', 'O',
    '"', ':', '[', '[', '"', 'b', '"', ']', ']', '}', ',', '"', 'h', 'i', 's', 't', 'o', 'r', 'y',
    '"', ':', 't', 'r', 'u', 'e', '}']

lemma toList_toggleText : toggleText.toList = toggleChars := by decide +kernel

lemma read_toggleText : read? toggleText = some toggle := by
  rw [read?, Json.read?, Json.readAs?, toList_toggleText]
  rfl

lemma read_pretty_toggle : Json.read? toggle.toJson.pretty = some toggle.toJson := by
  have hjson : toggle.toJson = .obj [("strict", .bool false), ("history", .bool true),
      ("on", .obj [("GO", .arr [.obj [("target", .arr [.str "b"])]])])] := rfl
  refine Json.readAs?_pretty ?_
  rw [hjson]
  simp [Json.Readable, Json.ReadableFields, Json.ReadableItems, Json.maxDepth, Json.Shape.field?,
    Json.Shape.item]

theorem toggle_read_render : read? toggleText = some toggle ∧ ofJson? toggle.toJson = some toggle ∧
    read? toggle.render = some toggle := by
  obtain ⟨hback, hrender⟩ := read_render read_toggleText
  exact ⟨read_toggleText, hback, hrender read_pretty_toggle⟩

end Definition

end Statechart
