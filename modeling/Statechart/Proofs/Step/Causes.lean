import Mathlib.Tactic.Common
import Statechart.Proofs.Machine.Declared
import Statechart.Proofs.Machine.Ids
import Statechart.Proofs.Machine.Origins
import Statechart.Proofs.Step.Priority

/-! Generated events and what they tell of. Completions of states and the ends of services are told
apart by the types of their events. -/

namespace Statechart

namespace Event

variable {k k' i i' : String}

lemma eq_or_exists_mark {between : List Char} (hk : k'.toList = k.toList ++ between)
    (hi : '#' :: i.toList = between ++ '#' :: i'.toList) :
    k = k' ∧ i = i' ∨ ∃ x, k' = k ++ "#" ++ x ∧ i = x ++ "#" ++ i' := by
  cases between with
  | nil =>
    refine .inl ⟨String.toList_injective ?_, String.toList_injective ?_⟩
    · rw [hk, List.append_nil]
    · exact (List.cons.inj hi).2
  | cons c x =>
    rw [List.cons_append, List.cons.injEq] at hi
    obtain ⟨rfl, hi⟩ := hi
    refine .inr ⟨String.ofList x, String.toList_injective ?_, String.toList_injective ?_⟩
    · simp [hk]
    · simp [hi]

lemma afterType_eq_iff : afterType k i = afterType k' i' ↔ k = k' ∧ i = i' ∨
    (∃ x, k' = k ++ "#" ++ x ∧ i = x ++ "#" ++ i') ∨
      ∃ x, k = k' ++ "#" ++ x ∧ i' = x ++ "#" ++ i := by
  constructor
  · intro h
    have htexts := congrArg String.toList h
    simp only [afterType, String.toList_append, List.append_assoc, List.append_right_inj] at htexts
    rcases List.append_eq_append_iff.1 htexts with ⟨between, hk, hi⟩ | ⟨between, hk, hi⟩
    · exact (eq_or_exists_mark hk hi).imp_right .inl
    · rcases eq_or_exists_mark hk hi with ⟨rfl, rfl⟩ | hx
      · exact .inl ⟨rfl, rfl⟩
      · exact .inr (.inr hx)
  · rintro (⟨rfl, rfl⟩ | ⟨x, rfl, rfl⟩ | ⟨x, rfl, rfl⟩)
    · rfl
    · simp only [afterType, String.append_assoc]
    · simp only [afterType, String.append_assoc]

def sort (type : String) : String := String.ofList (type.toList.take 6)

lemma sort_afterType : sort (afterType k i) = "after." := by
  simp [sort, afterType]

lemma sort_doneStateType : sort (doneStateType i) = "done.s" := by
  simp [sort, doneStateType]

lemma sort_doneInvokeType : sort (doneInvokeType i) = "done.i" := by
  simp [sort, doneInvokeType]

lemma sort_errorInvokeType : sort (errorInvokeType i) = "error." := by
  simp [sort, errorInvokeType]

end Event

lemma Selector.ofKey_cases (key : String) : ofKey key = .eventless ∨
    key = "*" ∧ ofKey key = .wildcard ∨ ofKey key = .exact key := by
  unfold ofKey
  split <;> simp

namespace Occasion

variable {state type : String} {o : Occasion}

lemma eq_on_of_wildcard (h : o.selector state = .wildcard) : o = .on "*" := by
  cases o with
  | on key =>
    rw [selector] at h
    rcases Selector.ofKey_cases key with hkey | ⟨rfl, _⟩ | hkey
    · exact absurd (hkey.symm.trans h) (by simp)
    · rfl
    · exact absurd (hkey.symm.trans h) (by simp)
  | _ => exact absurd h (by simp [selector])

lemma eq_on_or_after (h : o.selector state = .exact type)
    (hsort : Event.sort type = "after.") :
    o = .on type ∨ ∃ key, o = .after key ∧ type = Event.afterType key state := by
  cases o with
  | on key =>
    rw [selector] at h
    rcases Selector.ofKey_cases key with hkey | ⟨_, hkey⟩ | hkey
    · exact absurd (hkey.symm.trans h) (by simp)
    · exact absurd (hkey.symm.trans h) (by simp)
    · exact .inl (congrArg on (Selector.exact.inj (hkey.symm.trans h)))
  | always => exact absurd h (by simp [selector])
  | after key => exact .inr ⟨key, rfl, (Selector.exact.inj h).symm⟩
  | done =>
    rw [← Selector.exact.inj h, Event.sort_doneStateType] at hsort
    exact absurd hsort (by decide)
  | finished invocation =>
    rw [← Selector.exact.inj h, Event.sort_doneInvokeType] at hsort
    exact absurd hsort (by decide)
  | failed invocation =>
    rw [← Selector.exact.inj h, Event.sort_errorInvokeType] at hsort
    exact absurd hsort (by decide)

end Occasion

inductive Cause where
  | timer (n : NodeId) (key : String)
  | completed (n : NodeId)
  | finished (n : NodeId) (position : Nat)
  | failed (n : NodeId) (position : Nat)

def Cause.sort : Cause → String
  | timer _ _ => "after."
  | completed _ => "done.s"
  | finished _ _ => "done.i"
  | failed _ _ => "error."

namespace Machine

variable {C : Type} {m : Machine C}

inductive Generates (m : Machine C) : Cause → String → Prop where
  | timer {n : NodeId} {e : DelayedEvent C} :
      e ∈ (m.partsOf n).delays → Generates m (.timer n e.key) e.type
  | completed {n : NodeId} :
      n < m.chart.size → (m.node n).isCompound ∨ (m.node n).isParallel →
        Generates m (.completed n) (Event.doneStateType (m.node n).id)
  | finished {n : NodeId} {position : Nat} {v : Invocation C} :
      (m.partsOf n).invocations[position]? = some v →
        Generates m (.finished n position) (Event.doneInvokeType v.id)
  | failed {n : NodeId} {position : Nat} {v : Invocation C} :
      (m.partsOf n).invocations[position]? = some v →
        Generates m (.failed n position) (Event.errorInvokeType v.id)

/-- The key of the second timer goes on with what the id at the first one starts with. -/
inductive Blurs (m : Machine C) : Cause → Cause → Prop where
  | intro {n n' : NodeId} {key rest : String} :
      .timer n key ∈ m.originsOf n → .timer n' (key ++ "#" ++ rest) ∈ m.originsOf n' →
        (m.node n).id = rest ++ "#" ++ (m.node n').id →
          Blurs m (.timer n key) (.timer n' (key ++ "#" ++ rest))

variable [JsonCoded C] {d : Definition} {b : Behaviors C} {context : Option C}

lemma declares_or_empty (h : build d b context = .ok m) (n : NodeId) :
    (∃ s, d.Declares n s ∧ n < m.chart.size) ∨ m.partsOf n = {} := by
  obtain ⟨start, rfl, _, _⟩ := build_eq_ok h
  rcases partsOf_assemble d b start n with ⟨p, _, hp, _⟩ | hempty
  · obtain ⟨s, _, _, hs, _⟩ := Definition.exists_declares hp
    exact .inl ⟨s, hs, size_assemble ▸ hs.1⟩
  · exact .inr hempty

lemma size_of_timer (h : build d b context = .ok m) {n : NodeId} {key : String}
    (ho : .timer n key ∈ m.originsOf n) : n < m.chart.size := by
  rcases declares_or_empty h n with ⟨_, _, hn⟩ | hempty
  · exact hn
  · rw [timer_mem_originsOf, hempty] at ho
    exact absurd ho.2 List.not_mem_nil

lemma mem_delays_type (h : build d b context = .ok m) {n : NodeId} {e : DelayedEvent C}
    (he : e ∈ (m.partsOf n).delays) : e.type = Event.afterType e.key (m.node n).id := by
  rcases declares_or_empty h n with ⟨s, hs, _⟩ | hempty
  · have hmem : (e.key, e.type, some e.delay) ∈ (m.partsOf n).delays.map
        fun e => (e.key, e.type, some e.delay) := List.mem_map_of_mem he
    rw [(renders_of_declares h hs).delays] at hmem
    obtain ⟨key, _, hkey⟩ := List.mem_map.1 hmem
    simp only [Prod.mk.injEq] at hkey
    rw [← hkey.1, ← hkey.2.1]
    rfl
  · rw [hempty] at he
    exact absurd he List.not_mem_nil

lemma generates_timer_iff (h : build d b context = .ok m) {n : NodeId} {key type : String} :
    m.Generates (.timer n key) type ↔
      .timer n key ∈ m.originsOf n ∧ type = Event.afterType key (m.node n).id := by
  rw [timer_mem_originsOf]
  constructor
  · rintro ⟨he⟩
    exact ⟨⟨rfl, List.mem_map_of_mem he⟩, mem_delays_type h he⟩
  · rintro ⟨⟨_, hkey⟩, rfl⟩
    obtain ⟨e, he, rfl⟩ := List.mem_map.1 hkey
    rw [← mem_delays_type h he]
    exact .timer he

lemma Generates.sort_eq (h : build d b context = .ok m) {c : Cause} {type : String}
    (hc : m.Generates c type) : Event.sort type = c.sort := by
  cases hc with
  | timer he =>
    rw [mem_delays_type h he]
    exact Event.sort_afterType
  | completed => exact Event.sort_doneStateType
  | finished => exact Event.sort_doneInvokeType
  | failed => exact Event.sort_errorInvokeType

lemma invocation_unique (h : build d b context = .ok m) {n n' p p' : Nat} {v v' : Invocation C}
    (hv : (m.partsOf n).invocations[p]? = some v) (hv' : (m.partsOf n').invocations[p']? = some v')
    (hid : v.id = v'.id) : n = n' ∧ p = p' := by
  have hids : ∀ {n p : Nat} {v : Invocation C}, (m.partsOf n).invocations[p]? = some v →
      ((m.partsOf n).invocations.map Invocation.id)[p]? = some v.id := by
    intro n p v hv
    rw [List.getElem?_map, hv]
    rfl
  have hmem := completion_mem_originsOf.2 (List.mem_of_getElem? (hids hv))
  have hmem' := completion_mem_originsOf.2 (List.mem_of_getElem? (hids hv'))
  obtain rfl := (originsDistinct_of_build h).unique n n' _ hmem (hid ▸ hmem')
  have hsame := (hids hv).trans ((congrArg some hid).trans (hids hv').symm)
  have hnodup := nodup_invocations_node (invocations_nodup h) n
  exact ⟨rfl, (List.getElem?_inj (List.getElem?_eq_some_iff.1 (hids hv)).1 hnodup).1 hsame⟩

lemma Blurs.exists_type (h : build d b context = .ok m) {c c' : Cause} (hb : m.Blurs c c') :
    ∃ type, m.Generates c type ∧ m.Generates c' type := by
  obtain ⟨ho, ho', hid⟩ := hb
  refine ⟨_, (generates_timer_iff h).2 ⟨ho, rfl⟩, (generates_timer_iff h).2 ⟨ho', ?_⟩⟩
  exact Event.afterType_eq_iff.2 (.inr (.inl ⟨_, rfl, hid⟩))

lemma Generates.eq_or_blurs (h : build d b context = .ok m) {c c' : Cause} {type : String}
    (hc : m.Generates c type) (hc' : m.Generates c' type) :
    c = c' ∨ m.Blurs c c' ∨ m.Blurs c' c := by
  have hsort := (hc.sort_eq h).symm.trans (hc'.sort_eq h)
  cases c with
  | timer n key =>
    cases c' with
    | timer n' key' =>
      obtain ⟨ho, rfl⟩ := (generates_timer_iff h).1 hc
      obtain ⟨ho', htype⟩ := (generates_timer_iff h).1 hc'
      obtain ⟨rfl, hid⟩ | ⟨x, rfl, hid⟩ | ⟨x, rfl, hid⟩ := Event.afterType_eq_iff.1 htype
      · obtain rfl := idsDistinct_of_build h n n' (size_of_timer h ho) (size_of_timer h ho') hid
        exact .inl rfl
      · exact .inr (.inl ⟨ho, ho', hid⟩)
      · exact .inr (.inr ⟨ho', ho, hid⟩)
    | _ => exact absurd hsort (by simp [Cause.sort])
  | completed n =>
    cases c' with
    | completed n' =>
      generalize htype : type = type' at hc'
      cases hc with
      | completed hn _ =>
        cases hc' with
        | completed hn' _ =>
          obtain rfl := idsDistinct_of_build h n n' hn hn' ((String.append_right_inj _).1 htype)
          exact .inl rfl
    | _ => exact absurd hsort (by simp [Cause.sort])
  | finished n p =>
    cases c' with
    | finished n' p' =>
      generalize htype : type = type' at hc'
      cases hc with
      | finished hv =>
        cases hc' with
        | finished hv' =>
          obtain ⟨rfl, rfl⟩ := invocation_unique h hv hv' ((String.append_right_inj _).1 htype)
          exact .inl rfl
    | _ => exact absurd hsort (by simp [Cause.sort])
  | failed n p =>
    cases c' with
    | failed n' p' =>
      generalize htype : type = type' at hc'
      cases hc with
      | failed hv =>
        cases hc' with
        | failed hv' =>
          obtain ⟨rfl, rfl⟩ := invocation_unique h hv hv' ((String.append_right_inj _).1 htype)
          exact .inl rfl
    | _ => exact absurd hsort (by simp [Cause.sort])

lemma exists_candidate (h : build d b context = .ok m) {ref : TransitionRef}
    (hi : ref.index < (m.partsOf ref.node).transitions.length) :
    ∃ s e, d.Declares ref.node s ∧
      (s.candidates (m.node ref.node).id)[ref.index]? = some e ∧
        (Linker.mk m.chart b).Keeps ref.node e (m.transitionAt ref) := by
  obtain ⟨s, e, hs, he, hkeeps⟩ := keeps_getElem h hi
  exact ⟨s, e, hs, he, transitionAt_eq hi ▸ hkeeps⟩

lemma timer_of_candidate (h : build d b context = .ok m) {n : NodeId} {s : StateDef}
    {key : String} {config : TransitionDef} (hs : d.Declares n s)
    (he : (.after key, config) ∈ s.candidates (m.node n).id) : .timer n key ∈ m.originsOf n := by
  have hkey : key ∈ s.after.keys := by
    simp only [StateBody.candidates, List.mem_append, List.mem_flatMap, List.mem_map,
      Prod.mk.injEq, reduceCtorEq, false_and, and_false, exists_false, false_or, or_false,
      Occasion.after.injEq] at he
    obtain ⟨e, he, _, _, rfl, _⟩ := he
    exact List.mem_map_of_mem he
  have hdelays := congrArg (List.map Prod.fst) (renders_of_declares h hs).delays
  rw [List.map_map, List.map_map] at hdelays
  rw [timer_mem_originsOf]
  refine ⟨rfl, ?_⟩
  have hkeys : (m.partsOf n).delays.map DelayedEvent.key = s.after.keys := by
    simpa [Function.comp_def] using hdelays
  rw [hkeys]
  exact hkey

/-- Two causes have one type if and only if they are timers that blur, and a transition that listens
to the type of a timer is declared for events of all types, for this type or, apart from timers that
blur, under the key of the timer in its own state. -/
theorem generates_iff_blurs (h : build d b context = .ok m) :
    (∀ c c', c ≠ c' →
      ((∃ type, m.Generates c type ∧ m.Generates c' type) ↔ m.Blurs c c' ∨ m.Blurs c' c)) ∧
    ∀ n key type, m.Generates (.timer n key) type → ∀ ref, m.Listens (.ofType type) false ref →
      ∃ s e, d.root.at? (m.node ref.node).path = some s ∧
        (s.candidates (m.node ref.node).id)[ref.index]? = some e ∧
        (Linker.mk m.chart b).Keeps ref.node e (m.transitionAt ref) ∧
        (e.1 = .on "*" ∨ e.1 = .on type ∨ ∃ key', e.1 = .after key' ∧
          (ref.node = n ∧ key' = key ∨ m.Blurs (.timer n key) (.timer ref.node key') ∨
            m.Blurs (.timer ref.node key') (.timer n key))) := by
  refine ⟨fun c c' hne => ⟨?_, ?_⟩, fun n key type hc ref hl => ?_⟩
  · rintro ⟨type, hc, hc'⟩
    exact (hc.eq_or_blurs h hc').resolve_left hne
  · rintro (hb | hb)
    · exact hb.exists_type h
    · obtain ⟨type, hc', hc⟩ := hb.exists_type h
      exact ⟨type, hc, hc'⟩
  · obtain ⟨hi, hselector⟩ := hl
    obtain ⟨s, e, hs, he, hkeeps⟩ := exists_candidate h hi
    refine ⟨s, e, at?_of_declares h hs, he, hkeeps, ?_⟩
    rw [if_neg Bool.false_ne_true, IsWildcard, hkeeps.selector] at hselector
    rcases hselector with hexact | hwildcard
    · have hsort : Event.sort type = "after." := hc.sort_eq h
      rcases Occasion.eq_on_or_after hexact hsort with hon | ⟨key', hafter, htype⟩
      · exact .inr (.inl hon)
      · refine .inr (.inr ⟨key', hafter, ?_⟩)
        have htimer : m.Generates (.timer ref.node key') type := by
          have hmem := List.mem_of_getElem? he
          rw [← e.eta, hafter] at hmem
          exact (generates_timer_iff h).2 ⟨timer_of_candidate h hs hmem, htype⟩
        refine (htimer.eq_or_blurs h hc).imp ?_ Or.symm
        exact fun heq => Cause.timer.inj heq
    · exact .inl (Occasion.eq_on_of_wildcard hwildcard)

def twins : Definition := .ofRoot
  { type := some .parallel
    states := [
      ("one", {
        initial := some "wait"
        states := [
          ("wait", {
            id := some "left#right"
            after := .ofList [("short", [{ target := ["over"] }]), ("20", [])] }),
          ("over", {})] }),
      ("two", {
        initial := some "wait"
        states := [
          ("wait", {
            id := some "right"
            after := .ofList [("short#left", [{ target := ["over"] }])] }),
          ("over", {})] })] }

def twinsBehaviors : Behaviors Unit where
  delays := .ofList [("short", fun _ _ => 10), ("short#left", fun _ _ => 1000)]

def twinsMachine : Machine Unit := assemble twins () (link twins twinsBehaviors).value

lemma build_twins : build twins twinsBehaviors (some ()) = .ok twinsMachine := rfl

lemma twins_short : twinsMachine.Generates (.timer 2 "short") "after.short#left#right" :=
  (generates_timer_iff build_twins).2 ⟨by decide +kernel, by decide +kernel⟩

lemma twins_long : twinsMachine.Generates (.timer 5 "short#left") "after.short#left#right" :=
  (generates_timer_iff build_twins).2 ⟨by decide +kernel, by decide +kernel⟩

theorem twins_blur :
    (∃ type, twinsMachine.Generates (.timer 2 "short") type ∧
      twinsMachine.Generates (.timer 5 "short#left") type) ∧
    ¬ (∃ type, twinsMachine.Generates (.timer 2 "short") type ∧
      twinsMachine.Generates (.completed 1) type) ∧
    ∃ s e, twins.root.at? ["two", "wait"] = some s ∧ (s.candidates "right")[0]? = some e ∧
      (e.1 = .on "*" ∨ e.1 = .on "after.short#left#right" ∨ ∃ key, e.1 = .after key ∧
        (twinsMachine.Blurs (.timer 2 "short") (.timer 5 key) ∨
          twinsMachine.Blurs (.timer 5 key) (.timer 2 "short"))) := by
  obtain ⟨hcommon, hlisten⟩ := generates_iff_blurs build_twins
  refine ⟨(hcommon _ _ (by simp)).2 (.inl ?_), fun hsame => ?_, ?_⟩
  · have hb : twinsMachine.Blurs (.timer 2 "short") (.timer 5 ("short" ++ "#" ++ "left")) :=
      .intro (by decide +kernel) (by decide +kernel) (by decide +kernel)
    exact hb
  · rcases (hcommon _ _ (by simp)).1 hsame with hb | hb <;> cases hb
  · have hl : twinsMachine.Listens (.ofType "after.short#left#right") false ⟨5, 0⟩ :=
      ⟨by decide +kernel, .inl (by decide +kernel)⟩
    obtain ⟨s, e, hs, he, _, hwhere⟩ := hlisten 2 "short" _ twins_short ⟨5, 0⟩ hl
    refine ⟨s, e, hs, he, hwhere.imp_right (Or.imp_right ?_)⟩
    rintro ⟨key, hkey, ⟨hn, _⟩ | hb⟩
    · exact absurd hn (by decide)
    · exact ⟨key, hkey, hb⟩

theorem twins_go_together :
    (¬ ∀ (d : Definition) (b : Behaviors Unit) (context : Option Unit) (m : Machine Unit),
      build d b context = .ok m → ∀ c c' type, m.Generates c type → m.Generates c' type → c = c') ∧
    ¬ ∀ (d : Definition) (b : Behaviors Unit) (context : Option Unit) (m : Machine Unit),
      build d b context = .ok m → ∀ n key type, m.Generates (.timer n key) type →
        ∀ (s : MachineState Unit) (l : List TransitionRef),
          m.select s (.ofType type) false = .ok l → ∀ ref ∈ l, ∀ body e,
            d.root.at? (m.node ref.node).path = some body →
              (body.candidates (m.node ref.node).id)[ref.index]? = some e →
                e.1 = .on "*" ∨ e.1 = .on type ∨ ref.node = n ∧ e.1 = .after key := by
  refine ⟨fun h => ?_, fun h => ?_⟩
  · have heq := h twins twinsBehaviors (some ()) twinsMachine build_twins _ _ _ twins_short
      twins_long
    exact absurd (Cause.timer.inj heq).1 (by decide)
  · have hl : twinsMachine.select ⟨.ofList [0, 1, 2, 4, 5], (), .empty⟩
        (.ofType "after.short#left#right") false = .ok [⟨2, 0⟩, ⟨5, 0⟩] := rfl
    have hother := h twins twinsBehaviors (some ()) twinsMachine build_twins 2 "short" _
      twins_short _ _ hl ⟨5, 0⟩ (by decide) _ _ rfl rfl
    rcases hother with h | h | ⟨h, _⟩
    · exact Occasion.noConfusion h
    · exact Occasion.noConfusion h
    · exact absurd h (by decide)

end Machine

end Statechart
