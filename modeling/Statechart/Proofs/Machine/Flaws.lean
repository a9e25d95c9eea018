import Mathlib.Tactic.Common
import Statechart.Proofs.Machine.Problems

/-! What building reports. A definition has the problems that its flaws give, each of which is a
matter of its own place, and it has none if and only if a machine is built. -/

namespace Statechart

namespace Layout

lemma mem_duplicateIds {seen : List String} {ps : List Placed} {p : Problem} :
    p ∈ duplicateIds seen ps ↔
      ∃ id, Recurs seen (ps.map fun q => q.node.id) id ∧ .duplicateId id = p := by
  induction ps generalizing seen with
  | nil => simp [duplicateIds, Recurs]
  | cons q ps ih =>
    simp only [duplicateIds, List.mem_append, ih, List.mem_ite_nil_right, List.mem_singleton,
      @eq_comm _ p, List.map_cons, recurs_cons, or_and_right, exists_or, and_assoc,
      exists_and_left, exists_eq_left']

end Layout

namespace Definition

variable {d : Definition} {n : NodeId} {s : StateDef} {p : Problem}

lemma Declares.children_eq_nil (h : d.Declares n s) :
    (d.layout.node n).children = [] ↔ s.states = [] := by
  obtain ⟨anc, path, hnode⟩ := h.node
  rw [hnode, StateDef.nodeAt, List.map_eq_nil_iff]
  cases s.states with
  | nil => simp [StateDef.childIndices]
  | cons e states => simp [StateDef.childIndices]

lemma Declares.kind (h : d.Declares n s) : (d.layout.node n).kind = s.kind := by
  obtain ⟨anc, path, hnode⟩ := h.node
  rw [hnode, StateDef.nodeAt]

lemma Declares.ancestors_eq_nil (h : d.Declares n s) :
    (d.layout.node n).ancestors = [] ↔ n = rootId := by
  constructor
  · intro hnil
    by_contra hne
    obtain ⟨parent, hp⟩ := d.isTree_layout.parent n h.1 hne
    exact absurd (hnil.symm.trans hp) (by simp)
  · rintro rfl
    exact d.isTree_layout.root

lemma Declares.initial_eq_none (h : d.Declares n s) (hc : s.kind = .compound) :
    (d.layout.node n).initial = none ↔ ∀ key, s.initial = some key → key ∉ Keyed.keys s.states := by
  obtain ⟨anc, path, hnode⟩ := h.node
  rw [hnode, StateDef.nodeAt, StateDef.initialIndex?, if_pos hc]
  cases s.initial with
  | none => simp
  | some key => simp [Keyed.get?_eq_none_iff, StateDef.keys_childIndices]

lemma Declares.shapeProblem (h : d.Declares n s) :
    Layout.shapeProblem? (d.layout.node n) = some p ↔
      (∃ k, s.kind = .history k) ∧ (n = rootId ∧
          .invalidHistory (d.layout.node n).id "the root cannot be a history state" = p ∨
        n ≠ rootId ∧ s.states ≠ [] ∧
          .invalidHistory (d.layout.node n).id "history states cannot have child states" = p) ∨
      s.kind = .atomic ∧ s.states ≠ [] ∧ .leafWithChildren (d.layout.node n).id "atomic" = p ∨
      s.kind = .final ∧ s.states ≠ [] ∧ .leafWithChildren (d.layout.node n).id "final" = p := by
  rw [Layout.shapeProblem?, h.kind]
  cases hk : s.kind with
  | compound => simp
  | parallel => simp
  | atomic => simp [h.children_eq_nil]
  | final => simp [h.children_eq_nil]
  | history k =>
    simp only [List.isEmpty_iff, h.ancestors_eq_nil, h.children_eq_nil]
    split <;> simp_all

lemma Declares.initialProblem (h : d.Declares n s) :
    Layout.initialProblem? ⟨s.toStateBody, d.layout.node n⟩ = some p ↔ s.kind = .compound ∧
      (s.initial = none ∧ .missingInitial (d.layout.node n).id = p ∨
        ∃ key, s.initial = some key ∧ key ∉ Keyed.keys s.states ∧
          .invalidInitial (d.layout.node n).id key = p) := by
  rw [Layout.initialProblem?]
  by_cases hc : s.kind = .compound
  · simp only [StateNode.isCompound, h.kind, hc, decide_true, Bool.true_and,
      Option.isNone_iff_eq_none, h.initial_eq_none hc, true_and]
    cases s.initial with
    | none => simp
    | some key => simp
  · simp [StateNode.isCompound, h.kind, hc]

lemma exists_mem_placed {P : Placed → Prop} : (∃ q ∈ d.placed, P q) ↔
    ∃ n s, d.Declares n s ∧ P ⟨s.toStateBody, d.layout.node n⟩ := by
  constructor
  · rintro ⟨q, hq, hP⟩
    obtain ⟨n, hn⟩ := List.mem_iff_getElem?.1 hq
    obtain ⟨s, anc, path, hs, rfl, _⟩ := exists_declares hn
    exact ⟨n, s, hs, by rwa [node_layout hn]⟩
  · rintro ⟨n, s, hs, hP⟩
    obtain ⟨anc, path, hn⟩ := hs.placed
    rw [node_layout hn] at hP
    exact ⟨_, List.mem_of_getElem? hn, hP⟩

lemma exists_mem_bodies {P : StateBody → NodeId → Prop} :
    (∃ e ∈ (d.placed.map Placed.body).zipIdx rootId, P e.1 e.2) ↔
      ∃ n s, d.Declares n s ∧ P s.toStateBody n := by
  simp only [Prod.exists, List.mem_zipIdx_iff_getElem?, rootId, List.getElem?_map,
    Option.map_eq_some_iff]
  constructor
  · rintro ⟨body, n, ⟨q, hq, rfl⟩, hP⟩
    obtain ⟨s, anc, path, hs, rfl, _⟩ := exists_declares hq
    exact ⟨n, s, hs, hP⟩
  · rintro ⟨n, s, hs, hP⟩
    obtain ⟨anc, path, hn⟩ := hs.placed
    exact ⟨_, n, ⟨_, hn, rfl⟩, hP⟩

def stateIds (d : Definition) : List String := d.placed.map fun p => p.node.id

def invocationIds (d : Definition) : List String :=
  d.placed.flatMap fun p => Linker.invokeIds p.node.id p.body.invoke

lemma invocationIds_eq (d : Definition) :
    (((d.placed.map Placed.body).zipIdx rootId).flatMap fun e =>
      Linker.invokeIds (d.layout.node e.2).id e.1.invoke) = d.invocationIds := by
  rw [List.zipIdx_map, List.flatMap_map, invocationIds]
  nth_rewrite 2 [← List.zipIdx_map_fst rootId d.placed]
  rw [List.flatMap_map]
  refine List.flatMap_congr fun e he => ?_
  simp only [Prod.map_fst, Prod.map_snd, id_eq]
  rw [node_layout (List.mem_zipIdx_iff_getElem?.1 he)]

variable {C : Type} [JsonCoded C]

/-- What is wrong with a definition at one place, whatever the other places look like. -/
inductive Flaw (d : Definition) (b : Behaviors C) (context : Option C) : Problem → Prop where
  | undecodable :
      context = none →
      (JsonCoded.ofJson? ((d.context.map Value.json).getD .null) : Option C) = none →
        Flaw d b context (.invalidContext Machine.contextDetail)
  | repeatedState {id : String} :
      List.Duplicate id d.stateIds → Flaw d b context (.duplicateId id)
  | repeatedInvocation {id : String} :
      List.Duplicate id d.invocationIds → Flaw d b context (.duplicateId id)
  | historyRoot {s : StateDef} {k : HistoryKind} :
      d.Declares rootId s → s.kind = .history k → Flaw d b context
        (.invalidHistory (d.layout.node rootId).id "the root cannot be a history state")
  | historyWithChildren {n : NodeId} {s : StateDef} {k : HistoryKind} :
      d.Declares n s → n ≠ rootId → s.kind = .history k → s.states ≠ [] → Flaw d b context
        (.invalidHistory (d.layout.node n).id "history states cannot have child states")
  | atomicWithChildren {n : NodeId} {s : StateDef} :
      d.Declares n s → s.kind = .atomic → s.states ≠ [] →
        Flaw d b context (.leafWithChildren (d.layout.node n).id "atomic")
  | finalWithChildren {n : NodeId} {s : StateDef} :
      d.Declares n s → s.kind = .final → s.states ≠ [] →
        Flaw d b context (.leafWithChildren (d.layout.node n).id "final")
  | missingInitial {n : NodeId} {s : StateDef} :
      d.Declares n s → s.kind = .compound → s.initial = none →
        Flaw d b context (.missingInitial (d.layout.node n).id)
  | invalidInitial {n : NodeId} {s : StateDef} {key : String} :
      d.Declares n s → s.kind = .compound → s.initial = some key → key ∉ Keyed.keys s.states →
        Flaw d b context (.invalidInitial (d.layout.node n).id key)
  | lacking {n : NodeId} {s : StateDef} {p : Problem} :
      d.Declares n s → (Linker.mk d.layout b).Lacks n s.toStateBody p → Flaw d b context p

variable {b : Behaviors C} {context : Option C}

lemma mem_layout_problems : p ∈ Layout.problems d.placed ↔
    (∃ id, List.Duplicate id d.stateIds ∧ .duplicateId id = p) ∨
    (∃ n s, d.Declares n s ∧ Layout.shapeProblem? (d.layout.node n) = some p) ∨
    ∃ n s, d.Declares n s ∧
      Layout.initialProblem? ⟨s.toStateBody, d.layout.node n⟩ = some p := by
  rw [Layout.problems, List.mem_append, List.mem_append, Layout.mem_duplicateIds,
    List.mem_filterMap, List.mem_filterMap, exists_mem_placed, exists_mem_placed, or_assoc]
  simp only [recurs_nil_left, stateIds]

end Definition

namespace Machine

open Definition

variable {C : Type} [JsonCoded C] {d : Definition} {b b' : Behaviors C} {context : Option C}
  {p : Problem}

def problems (d : Definition) (b : Behaviors C) (context : Option C) : List Problem :=
  match build d b context with
  | .ok _ => []
  | .error ps => ps

lemma mem_problems_checkContext : p ∈ (checkContext d context).problems ↔
    context = none ∧ (ofJson? ((d.context.map Value.json).getD .null) : Option C) = none ∧
      .invalidContext contextDetail = p := by
  cases context with
  | some context => simp [checkContext]
  | none =>
    simp only [checkContext, Checked.require, Option.isNone_iff_eq_none, List.mem_ite_nil_right,
      List.mem_singleton, true_and, @eq_comm _ p]

omit [JsonCoded C] in
lemma mem_problems_link : p ∈ (link d b).problems ↔
    (∃ id, List.Duplicate id d.invocationIds ∧ .duplicateId id = p) ∨
      ∃ n s, d.Declares n s ∧ (Linker.mk d.layout b).Lacks n s.toStateBody p := by
  rw [link, Linker.mem_problems_states, invocationIds_eq,
    exists_mem_bodies (P := fun body n => (Linker.mk d.layout b).Lacks n body p)]
  simp only [recurs_nil_left]

lemma check_eq : check d b context = ⟨((checkContext d context).value, (link d b).value),
    (checkContext d context).problems ++ (Layout.problems d.placed ++ (link d b).problems)⟩ := by
  rw [← List.append_nil (link d b).problems]
  rfl

lemma problems_eq : problems d b context = (checkContext d context).problems ++
    (Layout.problems d.placed ++ (link d b).problems) := by
  rw [problems, build, check_eq]
  generalize (checkContext d context).problems ++ _ = ps
  generalize (checkContext d context).value = start
  cases start <;> cases ps <;> rfl

lemma problems_eq_nil : problems d b context = [] ↔ ∃ m, build d b context = .ok m := by
  constructor
  · intro h
    rw [problems_eq] at h
    obtain ⟨start, hstart⟩ : ∃ start, (checkContext d context).value = some start := by
      have hcontext := (List.append_eq_nil_iff.1 h).1
      cases context with
      | some start => exact ⟨start, rfl⟩
      | none =>
        apply Option.ne_none_iff_exists'.1
        simpa [checkContext, Checked.require] using hcontext
    exact ⟨assemble d start (link d b).value, by rw [build, check_eq, h, hstart]⟩
  · rintro ⟨m, h⟩
    rw [problems, h]

lemma mem_problems_iff : p ∈ problems d b context ↔ d.Flaw b context p := by
  rw [problems_eq, List.mem_append, List.mem_append, mem_problems_checkContext,
    mem_layout_problems, mem_problems_link]
  constructor
  · rintro (⟨hc, hj, rfl⟩ | (⟨id, hid, rfl⟩ | ⟨n, s, hs, hp⟩ | ⟨n, s, hs, hp⟩) |
      ⟨id, hid, rfl⟩ | ⟨n, s, hs, hp⟩)
    · exact .undecodable hc hj
    · exact .repeatedState hid
    · obtain ⟨⟨k, hk⟩, ⟨rfl, rfl⟩ | ⟨hn, hne, rfl⟩⟩ | ⟨hk, hne, rfl⟩ | ⟨hk, hne, rfl⟩ :=
        hs.shapeProblem.1 hp
      · exact .historyRoot hs hk
      · exact .historyWithChildren hs hn hk hne
      · exact .atomicWithChildren hs hk hne
      · exact .finalWithChildren hs hk hne
    · obtain ⟨hk, ⟨hi, rfl⟩ | ⟨key, hi, hkey, rfl⟩⟩ := hs.initialProblem.1 hp
      · exact .missingInitial hs hk hi
      · exact .invalidInitial hs hk hi hkey
    · exact .repeatedInvocation hid
    · exact .lacking hs hp
  · intro h
    cases h with
    | undecodable hc hj => exact .inl ⟨hc, hj, rfl⟩
    | repeatedState hid => exact .inr (.inl (.inl ⟨_, hid, rfl⟩))
    | repeatedInvocation hid => exact .inr (.inr (.inl ⟨_, hid, rfl⟩))
    | historyRoot hs hk =>
      exact .inr (.inl (.inr (.inl
        ⟨_, _, hs, hs.shapeProblem.2 (.inl ⟨⟨_, hk⟩, .inl ⟨rfl, rfl⟩⟩)⟩)))
    | historyWithChildren hs hn hk hne =>
      exact .inr (.inl (.inr (.inl
        ⟨_, _, hs, hs.shapeProblem.2 (.inl ⟨⟨_, hk⟩, .inr ⟨hn, hne, rfl⟩⟩)⟩)))
    | atomicWithChildren hs hk hne =>
      exact .inr (.inl (.inr (.inl
        ⟨_, _, hs, hs.shapeProblem.2 (.inr (.inl ⟨hk, hne, rfl⟩))⟩)))
    | finalWithChildren hs hk hne =>
      exact .inr (.inl (.inr (.inl
        ⟨_, _, hs, hs.shapeProblem.2 (.inr (.inr ⟨hk, hne, rfl⟩))⟩)))
    | missingInitial hs hk hi =>
      exact .inr (.inl (.inr (.inr ⟨_, _, hs, hs.initialProblem.2 ⟨hk, .inl ⟨hi, rfl⟩⟩⟩)))
    | invalidInitial hs hk hi hkey =>
      exact .inr (.inl (.inr (.inr
        ⟨_, _, hs, hs.initialProblem.2 ⟨hk, .inr ⟨_, hi, hkey, rfl⟩⟩⟩)))
    | lacking hs hl => exact .inr (.inr (.inr ⟨_, _, hs, hl⟩))

lemma remaining_problems (he : b'.Extends b) :
    Problem.remaining b' (problems d b context) = problems d b' context := by
  have hcontext : Problem.remaining b' (checkContext d context).problems =
      (checkContext d context).problems := by
    refine List.filter_eq_self.2 fun p hp => ?_
    obtain ⟨_, _, rfl⟩ := mem_problems_checkContext.1 hp
    rfl
  have htree : Problem.remaining b' (Layout.problems d.placed) = Layout.problems d.placed := by
    refine List.filter_eq_self.2 fun p hp => ?_
    obtain ⟨id, _, rfl⟩ | ⟨n, s, hs, hp⟩ | ⟨n, s, hs, hp⟩ := mem_layout_problems.1 hp
    · rfl
    · obtain ⟨_, ⟨_, rfl⟩ | ⟨_, _, rfl⟩⟩ | ⟨_, _, rfl⟩ | ⟨_, _, rfl⟩ := hs.shapeProblem.1 hp
      all_goals rfl
    · obtain ⟨_, ⟨_, rfl⟩ | ⟨_, _, _, rfl⟩⟩ := hs.initialProblem.1 hp
      all_goals rfl
  have hchart : (Linker.mk d.layout b').chart = (Linker.mk d.layout b).chart := rfl
  have hlink : Problem.remaining b' (link d b).problems = (link d b').problems :=
    Linker.remaining_states hchart he _
  rw [problems_eq, problems_eq, Problem.remaining_append, Problem.remaining_append, hcontext, htree,
    hlink]

/-- Each flaw of a definition is reported, whatever else is wrong with it, and more behaviours only
take away the problems with their names. -/
theorem problems_of_extends (d : Definition) (context : Option C) (he : b'.Extends b) :
    problems d b' context = (problems d b context).filter (fun p => !p.isSupplied b') ∧
      (∀ p, p ∈ problems d b context ↔ d.Flaw b context p) ∧
      (problems d b context = [] ↔ ∃ m, build d b context = .ok m) :=
  ⟨(remaining_problems he).symm, fun _ => mem_problems_iff, problems_eq_nil⟩

def muddled : Definition := { Definition.ofRoot
  { initial := some "idle"
    states := [
      ("idle", {
        on := .ofList [("GO", [
          { target := ["away"], guard := some "ready", inState := some "gone",
            actions := ["wave"] }])]
        after := .ofList [("pause", []), ("20", [{ target := ["#spot"] }])]
        entry := ["wave"] }),
      ("done", {
        id := some "spot"
        type := some .final
        states := [("rest", { activities := ["hum"], data := some "count" })] }),
      ("busy", {
        id := some "spot"
        states := [("load", {
          initial := some "nowhere"
          states := [("part", {
            invoke := [{ id := some "job", src := "fetch" },
              { id := some "job", src := "send" }] })] })] }),
      ("last", {
        type := some .history, target := some "gone", states := [("never", {})] })] } with
  context := some (.str "none") }

def someBehaviors : Behaviors Unit where
  guards := .ofList [("ready", fun _ _ => .ok true)]
  actions := .ofList [("shout", .raise (.ofType "HEY"))]
  services := .ofList [("fetch", fun _ _ _ => ⟨.null, [], .never⟩)]
  delays := .ofList [("pause", fun _ _ => 5)]

lemma extends_empty {b : Behaviors Unit} : b.Extends {} := by
  constructor
  all_goals exact fun name v h => absurd h (by simp [SortedMap.get?, SortedMap.empty])

theorem muddled_problems : someBehaviors.Extends {} ∧
    problems muddled someBehaviors none = [
      .invalidContext contextDetail,
      .duplicateId "spot",
      .leafWithChildren "spot" "final",
      .invalidHistory "machine.last" "history states cannot have child states",
      .missingInitial "spot",
      .invalidInitial "machine.busy.load" "nowhere",
      .unresolvedTarget "machine.idle" "away",
      .unresolvedInState "machine.idle" "gone",
      .unknownAction "machine.idle" "wave",
      .unknownAction "machine.idle" "wave",
      .unknownActivity "machine.done.rest" "hum",
      .unknownDataMapper "machine.done.rest" "count",
      .duplicateId "job",
      .unknownService "machine.busy.load.part" "send",
      .unresolvedTarget "machine.last" "gone"] ∧
    muddled.Flaw (C := Unit) {} none (.unknownGuard "machine.idle" "ready") ∧
    ∀ m, build muddled ({} : Behaviors Unit) none ≠ .ok m := by
  obtain ⟨hsupplied, hmem, hok⟩ := problems_of_extends muddled none
    (extends_empty (b := someBehaviors))
  have hlisted : problems muddled ({} : Behaviors Unit) none = [
      .invalidContext contextDetail,
      .duplicateId "spot",
      .leafWithChildren "spot" "final",
      .invalidHistory "machine.last" "history states cannot have child states",
      .missingInitial "spot",
      .invalidInitial "machine.busy.load" "nowhere",
      .unresolvedTarget "machine.idle" "away",
      .unknownGuard "machine.idle" "ready",
      .unresolvedInState "machine.idle" "gone",
      .unknownAction "machine.idle" "wave",
      .unknownDelay "machine.idle" "pause",
      .unknownAction "machine.idle" "wave",
      .unknownActivity "machine.done.rest" "hum",
      .unknownDataMapper "machine.done.rest" "count",
      .unknownService "machine.busy.load.part" "fetch",
      .duplicateId "job",
      .unknownService "machine.busy.load.part" "send",
      .unresolvedTarget "machine.last" "gone"] := by decide +kernel
  refine ⟨extends_empty, ?_, (hmem _).1 ?_, fun m hm => ?_⟩
  · rw [hsupplied, hlisted]
    decide +kernel
  · rw [hlisted]
    decide
  · rw [hok.2 ⟨m, hm⟩] at hlisted
    exact absurd hlisted (by simp)

end Machine

end Statechart
