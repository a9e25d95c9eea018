import Mathlib.Data.List.Forall2
import Mathlib.Tactic.Common
import Statechart.Proofs.Machine.Flaws

/-! What linking keeps. If nothing is reported then the transitions of a state are the declared
ones, one for one and in order, and neither a name nor a target of them is lost. -/

namespace Statechart

open Linker (invokeId)

inductive Occasion where
  | on (key : String)
  | always
  | after (key : String)
  | done
  | finished (invocation : String)
  | failed (invocation : String)

namespace Occasion

def selector (state : String) : Occasion → Selector
  | on key => .ofKey key
  | always => .eventless
  | after key => .exact (Event.afterType key state)
  | done => .exact (Event.doneStateType state)
  | finished invocation => .exact (Event.doneInvokeType invocation)
  | failed invocation => .exact (Event.errorInvokeType invocation)

end Occasion

namespace StateBody

def candidates (state : String) (b : StateBody) : List (Occasion × TransitionDef) :=
  b.on.entries.flatMap (fun e => e.2.map (.on e.1, ·))
    ++ b.always.map (.always, ·)
    ++ b.after.entries.flatMap (fun e => e.2.map (.after e.1, ·))
    ++ b.onDone.map (.done, ·)
    ++ b.invoke.zipIdx.flatMap fun e =>
      e.1.onDone.map (.finished (invokeId state e.2 e.1), ·)
        ++ e.1.onError.map (.failed (invokeId state e.2 e.1), ·)

end StateBody

def Found {α : Type} (m : SortedMap String α) (names : List String) (l : List (Named α)) : Prop :=
  l.map (fun a => (a.name, some a.value)) = names.map fun name => (name, m.get? name)

section

variable {α β : Type} {find? : String → Option α} {unknown : String → Problem}
  {names : List String} {m : SortedMap String α}

lemma exists_map_of_missing (h : missing find? unknown names = []) :
    ∃ xs : List α, names.map find? = xs.map some := by
  induction names with
  | nil => exact ⟨[], rfl⟩
  | cons name names ih =>
    rw [missing_cons, List.append_eq_nil_iff] at h
    obtain ⟨xs, hxs⟩ := ih h.2
    cases hx : find? name with
    | none => simp [missing, hx] at h
    | some x => exact ⟨x :: xs, by rw [List.map_cons, List.map_cons, hx, hxs]⟩

lemma mapM_map_some (xs : List α) : (xs.map some).mapM id = some xs := by
  induction xs with
  | nil => rfl
  | cons x xs ih => rw [List.map_cons, List.mapM_cons, ih]; rfl

lemma found_lookUp (h : missing m.get? unknown names = []) :
    Found m names (Linker.lookUp m unknown names).value := by
  induction names with
  | nil => rfl
  | cons name names ih =>
    rw [missing_cons, List.append_eq_nil_iff] at h
    cases hx : m.get? name with
    | none => simp [missing, hx] at h
    | some x =>
      simp only [Found, Linker.lookUp, Checked.bind_value, Checked.pure_value, Checked.require, hx,
        Option.map_some, Option.toList_some, List.singleton_append, List.map_cons] at ih ⊢
      rw [ih h.2]

lemma Found.length_eq {l : List (Named α)} (h : Found m names l) : l.length = names.length := by
  simpa using congrArg List.length h

lemma found_toList {o : Option String} {x : Option (Named α)}
    (h : o.map (fun name => (m.get? name).map (Named.mk name)) = x.map some) :
    Found m o.toList x.toList := by
  cases o with
  | none =>
    cases x with
    | none => rfl
    | some x => exact absurd h (by simp)
  | some name =>
    cases x with
    | none => exact absurd h (by simp)
    | some x =>
      obtain ⟨v, hv, rfl⟩ := Option.map_eq_some_iff.1 (Option.some.inj h)
      simp [Found, hv]

lemma optional_value {o : Option String} (h : missing find? unknown o.toList = []) :
    ∃ x, (Linker.optional find? unknown o).value = some x ∧ o.map find? = x.map some := by
  cases o with
  | none => exact ⟨none, rfl, rfl⟩
  | some name =>
    cases hx : find? name with
    | none => simp [missing, hx] at h
    | some x =>
      refine ⟨some x, ?_, ?_⟩
      · simp only [Linker.optional, Checked.bind_value, Checked.pure_value, Checked.require, hx,
          Option.map_some]
      · rw [Option.map_some, Option.map_some, hx]

end

namespace Chart

def LeadsBack (c : Chart) (n : NodeId) (config : TransitionDef) : Prop :=
  config.target ≠ [] ∧ ∀ x ∈ config.target, c.resolveTarget? n x = some n

end Chart

namespace Linker

variable {C : Type} {l : Linker C} {n : NodeId} {used : List String}

structure Keeps (l : Linker C) (n : NodeId) (e : Occasion × TransitionDef) (t : Transition C) :
    Prop where
  source : t.source = n
  selector : t.selector = e.1.selector (l.chart.node n).id
  guard : Found l.behaviors.guards e.2.guard.toList t.guard.toList
  inState : e.2.inState.map l.chart.resolveIn? = t.inState.map some
  actions : Found l.behaviors.actions e.2.actions t.actions
  targets : ¬ (t.internal ∧ l.chart.LeadsBack n e.2) →
    e.2.target.map (l.chart.resolveTarget? n) = t.targets.map some
  stays : t.internal → l.chart.LeadsBack n e.2 → t.targets = []
  metadata : t.metadata = e.2.metadata

lemma leadsBack_iff {config : TransitionDef} {targets : List NodeId}
    (h : config.target.map (l.chart.resolveTarget? n) = targets.map some) :
    l.chart.LeadsBack n config ↔ (!targets.isEmpty && targets.all (· = n)) := by
  have hempty : config.target = [] ↔ targets = [] := by
    rw [← List.map_eq_nil_iff (f := l.chart.resolveTarget? n), h, List.map_eq_nil_iff]
  have hall : (∀ x ∈ config.target, l.chart.resolveTarget? n x = some n) ↔
      ∀ y ∈ targets, y = n := by
    rw [← List.forall_mem_map (P := (· = some n)), h]
    simp
  simp [Chart.LeadsBack, hempty, hall]

lemma keeps_assemble {o : Occasion} {config : TransitionDef} {targets : List NodeId}
    {guard : Option (Named (Guard C))} {inState : Option NodeId} {actions : List (Named (Action C))}
    (htargets : config.target.map (l.chart.resolveTarget? n) = targets.map some)
    (hguard : Found l.behaviors.guards config.guard.toList guard.toList)
    (hin : config.inState.map l.chart.resolveIn? = inState.map some)
    (hactions : Found l.behaviors.actions config.actions actions) :
    l.Keeps n (o, config) (l.assemble n (o.selector (l.chart.node n).id) config targets guard
      inState actions) := by
  have hback := leadsBack_iff htargets
  refine ⟨rfl, rfl, hguard, hin, hactions, fun h => ?_, fun hinternal h => ?_, rfl⟩
  · rw [hback] at h
    rw [htargets]
    simp only [assemble] at h ⊢
    rw [if_neg]
    simpa using h
  · rw [hback] at h
    simp only [assemble] at hinternal ⊢
    rw [hinternal, h]
    rfl

lemma transition_keeps (o : Occasion) {config : TransitionDef}
    (h : l.flaws n config = []) : ∃ t,
      (l.transition n (o.selector (l.chart.node n).id) config).value = [t] ∧
        l.Keeps n (o, config) t := by
  simp only [flaws, List.append_eq_nil_iff] at h
  obtain ⟨⟨⟨htargets, hguard⟩, hin⟩, hactions⟩ := h
  obtain ⟨targets, htargets⟩ := exists_map_of_missing htargets
  rw [← missing_map Named.mk] at hguard
  obtain ⟨guard, hguard, hg⟩ := optional_value hguard
  obtain ⟨inState, hinState, hi⟩ := optional_value hin
  have hfound := found_lookUp hactions
  refine ⟨_, ?_, keeps_assemble htargets (found_toList hg) hi hfound⟩
  simp only [transition, Checked.bind_value, Checked.pure_value, value_targets, htargets,
    mapM_map_some, hguard, hinState]
  rw [if_pos hfound.length_eq]

lemma transitions_keep (o : Occasion) {ds : List TransitionDef}
    (h : ds.flatMap (l.flaws n) = []) : List.Forall₂ (l.Keeps n) (ds.map (o, ·))
      (l.transitions n (o.selector (l.chart.node n).id) ds).value := by
  induction ds with
  | nil => exact .nil
  | cons config ds ih =>
    rw [List.flatMap_cons, List.append_eq_nil_iff] at h
    obtain ⟨t, ht, hkeeps⟩ := transition_keeps o h.1
    simp only [transitions, Checked.bind_value, Checked.pure_value, ht]
    exact .cons hkeeps (ih h.2)

lemma onEvents_keep {on : List (String × List TransitionDef)}
    (h : (on.flatMap Prod.snd).flatMap (l.flaws n) = []) :
    List.Forall₂ (l.Keeps n) (on.flatMap fun e => e.2.map (.on e.1, ·))
      (l.onEvents n on).value := by
  induction on with
  | nil => exact .nil
  | cons e on ih =>
    rw [List.flatMap_cons, List.flatMap_append, List.append_eq_nil_iff] at h
    simp only [onEvents, Checked.bind_value, Checked.pure_value, List.flatMap_cons]
    exact List.rel_append (transitions_keep (.on e.1) h.1) (ih h.2)

lemma afterDelays_keep {after : List (String × List TransitionDef)}
    (h : (l.afterDelays n after).problems = []) :
    List.Forall₂ (l.Keeps n) (after.flatMap fun e => e.2.map (.after e.1, ·))
        (l.afterDelays n after).value.2 ∧
      (l.afterDelays n after).value.1.map (fun d => (d.key, d.type, some d.delay)) =
        after.map fun e =>
          (e.1, Event.afterType e.1 (l.chart.node n).id, l.delaySource? e.1) := by
  induction after with
  | nil => exact ⟨.nil, rfl⟩
  | cons e after ih =>
    rw [problems_afterDelays, List.flatMap_cons, List.append_eq_nil_iff, List.append_eq_nil_iff,
      ← problems_afterDelays] at h
    obtain ⟨⟨hdelay, hfirst⟩, hrest⟩ := h
    obtain ⟨hkeep, hdelays⟩ := ih hrest
    obtain ⟨sources, hsources⟩ := exists_map_of_missing hdelay
    simp only [afterDelays, Checked.bind_value, Checked.pure_value, List.flatMap_cons]
    refine ⟨List.rel_append (transitions_keep (.after e.1) hfirst) hkeep, ?_⟩
    cases hs : l.delaySource? e.1 with
    | none => simp [missing, hs] at hdelay
    | some delay => simp [Checked.require, hs, hdelays]

lemma invocations_keep {position : Nat} {is : List InvokeDef}
    (h : (l.invocations n used position is).problems = []) :
    List.Forall₂ (l.Keeps n) ((is.zipIdx position).flatMap fun e =>
        e.1.onDone.map (.finished (invokeId (l.chart.node n).id e.2 e.1), ·)
          ++ e.1.onError.map (.failed (invokeId (l.chart.node n).id e.2 e.1), ·))
        (l.invocations n used position is).value.2 ∧
      (l.invocations n used position is).value.1.map (fun v => (v.id, v.src, some v.service)) =
        (is.zipIdx position).map fun e => (invokeId (l.chart.node n).id e.2 e.1, e.1.src,
          l.behaviors.services.get? e.1.src) := by
  induction is generalizing used position with
  | nil => exact ⟨.nil, rfl⟩
  | cons i is ih =>
    simp only [problems_invocations_cons, invocationFlaws, List.flatMap_append,
      List.append_eq_nil_iff] at h
    obtain ⟨⟨_, hservice, hdone, hfailed⟩, hrest⟩ := h
    obtain ⟨hkeep, hinvocations⟩ := ih hrest
    simp only [invocations, Checked.bind_value, Checked.pure_value, List.zipIdx_cons,
      List.flatMap_cons]
    refine ⟨List.rel_append (List.rel_append (transitions_keep (.finished _) hdone)
      (transitions_keep (.failed _) hfailed)) hkeep, ?_⟩
    cases hs : l.behaviors.services.get? i.src with
    | none => simp [missing, hs] at hservice
    | some service => simp [Checked.require, hs, hinvocations]

structure Renders (l : Linker C) (n : NodeId) (b : StateBody) (p : Parts C) : Prop where
  transitions : List.Forall₂ (l.Keeps n) (b.candidates (l.chart.node n).id) p.transitions
  entry : Found l.behaviors.actions b.entry p.entry
  exit : Found l.behaviors.actions b.exit p.exit
  activities : Found l.behaviors.activities b.activities p.activities
  delays : p.delays.map (fun d => (d.key, d.type, some d.delay)) = b.after.keys.map fun key =>
    (key, Event.afterType key (l.chart.node n).id, l.delaySource? key)
  invocations : p.invocations.map (fun v => (v.id, v.src, some v.service)) =
    b.invoke.zipIdx.map fun e =>
      (invokeId (l.chart.node n).id e.2 e.1, e.1.src, l.behaviors.services.get? e.1.src)
  doneData : b.data.map l.behaviors.data.get? = p.doneData.map some
  metadata : p.metadata = b.metadata

lemma state_parts (l : Linker C) (n : NodeId) (used : List String) (b : StateBody) :
    (l.state n used b).value.1 =
      { transitions := (l.state n used b).value.1.transitions
        entry := (lookUp l.behaviors.actions (.unknownAction (l.chart.node n).id) b.entry).value
        exit := (lookUp l.behaviors.actions (.unknownAction (l.chart.node n).id) b.exit).value
        invocations := (l.invocations n used 0 b.invoke).value.1
        activities := (lookUp l.behaviors.activities (.unknownActivity (l.chart.node n).id)
          b.activities).value
        delays := (l.afterDelays n b.after.entries).value.1
        doneData := (optional l.behaviors.data.get? (.unknownDataMapper (l.chart.node n).id)
          b.data).value.join
        metadata := b.metadata } := by
  simp only [state, Checked.bind_value]
  split <;> rfl

lemma state_renders {b : StateBody} (h : (l.state n used b).problems = []) :
    l.Renders n b (l.state n used b).value.1 := by
  simp only [problems_state, List.flatMap_append, List.append_eq_nil_iff] at h
  obtain ⟨⟨⟨⟨⟨⟨⟨⟨⟨hon, halways⟩, hafter⟩, hdone⟩, hinvoke⟩, hentry⟩, hexit⟩, hactivities⟩, hdata⟩,
    _⟩ := h
  obtain ⟨hdelayed, hdelays⟩ := afterDelays_keep hafter
  obtain ⟨hinvoked, hinvocations⟩ := invocations_keep hinvoke
  obtain ⟨data, hvalue, hdata⟩ := optional_value hdata
  rw [state_parts]
  refine ⟨?_, found_lookUp hentry, found_lookUp hexit, found_lookUp hactivities, ?_, hinvocations,
    ?_, rfl⟩
  · rw [state_transitions]
    exact List.rel_append (List.rel_append (List.rel_append (List.rel_append (onEvents_keep hon)
      (transitions_keep .always halways)) hdelayed) (transitions_keep .done hdone)) hinvoked
  · rw [hdelays, KeyedList.keys, Keyed.keys, List.map_map]
    rfl
  · rw [hdata, hvalue, Option.join_some]

lemma states_render {bs : List StateBody} {k : Nat} {b : StateBody}
    (h : (l.states n used bs).problems = []) (hk : bs[k]? = some b) :
    ∃ parts, (l.states n used bs).value[k]? = some parts ∧ l.Renders (n + k) b parts.1 := by
  induction bs generalizing n used k with
  | nil => simp at hk
  | cons b' bs ih =>
    simp only [states, Checked.bind_problems, Checked.pure_problems, List.append_eq_nil_iff] at h
    simp only [states, Checked.bind_value, Checked.pure_value]
    cases k with
    | zero =>
      obtain rfl := Option.some.inj hk
      exact ⟨_, rfl, state_renders h.1⟩
    | succ k =>
      obtain ⟨parts, hparts, hrenders⟩ := ih h.2.1 hk
      exact ⟨parts, hparts, by rwa [Nat.add_assoc, Nat.add_comm 1 k] at hrenders⟩

end Linker

namespace Chart

variable {c c' : Chart}

structure Agrees (c c' : Chart) : Prop where
  delimiter : c.delimiter = c'.delimiter
  ids : c.nodes.map StateNode.id = c'.nodes.map StateNode.id
  node : ∀ n, c.node n = { c'.node n with historyDefault := (c.node n).historyDefault }

lemma agrees_withHistoryDefaults {defaults : List (List NodeId)} (h : defaults.length = c.size) :
    (c.withHistoryDefaults defaults).Agrees c := by
  refine ⟨rfl, ?_, fun n => by rw [node_withHistoryDefaults h n]⟩
  have hnodes : c.nodes = (c.nodes.zip defaults).map Prod.fst :=
    (List.map_fst_zip (Nat.le_of_eq h.symm)).symm
  rw [withHistoryDefaults, List.map_zipWith]
  nth_rewrite 2 [hnodes]
  rw [List.map_map, ← List.map_uncurry_zip_eq_zipWith]
  rfl

variable (h : c.Agrees c')

include h

lemma Agrees.id (n : NodeId) : (c.node n).id = (c'.node n).id := by rw [h.node n]

lemma Agrees.descend? : c.descend? = c'.descend? := by
  have hchild : c.child? = c'.child? := by
    funext n key
    have hchildren : (c.node n).children = (c'.node n).children := by rw [h.node n]
    have hkey : ∀ x, (c.node x).key = (c'.node x).key := fun x => by rw [h.node x]
    rw [child?, child?, hchildren]
    simp only [hkey]
  funext n path
  rw [Chart.descend?, Chart.descend?, hchild, h.delimiter]

lemma Agrees.resolveReference? : c.resolveReference? = c'.resolveReference? := by
  funext reference
  simp only [Chart.resolveReference?, Chart.find?, h.delimiter, h.ids, h.descend?]

lemma Agrees.resolveTarget? : c.resolveTarget? = c'.resolveTarget? := by
  funext n target
  have hparent : (c.node n).parent? = (c'.node n).parent? := by
    rw [h.node n]
    rfl
  simp only [Chart.resolveTarget?, h.delimiter, h.resolveReference?, h.descend?, hparent]

lemma Agrees.resolveIn? : c.resolveIn? = c'.resolveIn? := by
  funext descriptor
  simp only [Chart.resolveIn?, findDescriptor?, h.resolveReference?, h.descend?]

end Chart

namespace Linker

variable {C : Type} {c c' : Chart} {b : Behaviors C} {n : NodeId}

lemma Keeps.of_agrees (h : c.Agrees c') {e : Occasion × TransitionDef} {t : Transition C}
    (hk : (Linker.mk c' b).Keeps n e t) : (Linker.mk c b).Keeps n e t := by
  have hid := h.id n
  obtain ⟨hsource, hselector, hguard, hin, hactions, htargets, hstays, hmetadata⟩ := hk
  refine ⟨hsource, ?_, hguard, ?_, hactions, ?_, ?_, hmetadata⟩
  · rw [hselector, hid]
  · rw [h.resolveIn?]
    exact hin
  · rw [Chart.LeadsBack, h.resolveTarget?]
    exact htargets
  · rw [Chart.LeadsBack, h.resolveTarget?]
    exact hstays

lemma Renders.of_agrees (h : c.Agrees c') {body : StateBody} {p : Parts C}
    (hr : (Linker.mk c' b).Renders n body p) : (Linker.mk c b).Renders n body p := by
  have hid := h.id n
  obtain ⟨htransitions, hentry, hexit, hactivities, hdelays, hinvocations, hdata, hmetadata⟩ := hr
  refine ⟨?_, hentry, hexit, hactivities, ?_, ?_, hdata, hmetadata⟩
  · rw [hid]
    exact htransitions.imp fun _ _ => Keeps.of_agrees h
  · have hsource : (Linker.mk c b).delaySource? = (Linker.mk c' b).delaySource? := rfl
    rw [hid, hsource]
    exact hdelays
  · rw [hid]
    exact hinvocations

end Linker

namespace Machine

variable {C : Type} [JsonCoded C] {d : Definition} {b : Behaviors C} {context : Option C}
  {m : Machine C}

omit [JsonCoded C] in
lemma agrees_layout (d : Definition) (b : Behaviors C) (start : C) :
    (assemble d start (link d b).value).chart.Agrees d.layout :=
  Chart.agrees_withHistoryDefaults (by rw [List.length_map, length_link])

lemma at?_of_declares (h : build d b context = .ok m) {n : NodeId} {s : StateDef}
    (hs : d.Declares n s) : d.root.at? (m.node n).path = some s := by
  obtain ⟨start, rfl, _, _⟩ := build_eq_ok h
  rw [node, node_assemble]
  exact hs.2

lemma renders_of_declares (h : build d b context = .ok m) {n : NodeId} {s : StateDef}
    (hs : d.Declares n s) : (Linker.mk m.chart b).Renders n s.toStateBody (m.partsOf n) := by
  obtain ⟨start, rfl, _, hlink⟩ := build_eq_ok h
  obtain ⟨anc, path, hp⟩ := hs.placed
  have hbody : (d.placed.map Placed.body)[n]? = some s.toStateBody := by simp [hp]
  obtain ⟨parts, hparts, hrenders⟩ := Linker.states_render hlink hbody
  have hvalue : (link d b).value[n]? = some parts := hparts
  have hof : (assemble d start (link d b).value).partsOf n = parts.1 := by
    simp [partsOf, assemble, List.getD_eq_getElem?_getD, hvalue]
  rw [rootId, Nat.zero_add] at hrenders
  rw [hof]
  exact hrenders.of_agrees (agrees_layout d b start)

lemma exists_declares (h : build d b context = .ok m) {n : NodeId} (hn : n < m.chart.size) :
    ∃ s, d.Declares n s := by
  obtain ⟨p, hp⟩ := exists_placed h hn
  obtain ⟨s, _, _, hs, _⟩ := Definition.exists_declares hp
  exact ⟨s, hs⟩

lemma keeps_getElem (h : build d b context = .ok m) {n : NodeId} {i : Nat}
    (hi : i < (m.partsOf n).transitions.length) :
    ∃ s e, d.Declares n s ∧ (s.candidates (m.node n).id)[i]? = some e ∧
      (Linker.mk m.chart b).Keeps n e (m.partsOf n).transitions[i] := by
  obtain ⟨_, hn, _⟩ := (wellFormed_of_build h).transition n _ (List.getElem_mem hi)
  obtain ⟨s, hs⟩ := exists_declares h hn
  have hkeep := (renders_of_declares h hs).transitions
  have hi' : i < (s.candidates (m.node n).id).length := hkeep.length_eq.symm ▸ hi
  exact ⟨s, _, hs, List.getElem?_eq_getElem hi', hkeep.get hi' hi⟩

/-- The parts of a state are those that the definition declares under its path: its transitions one
for one and in order, its actions, activities, delays and invocations by name, and its targets
resolved. -/
theorem parts_as_declared (h : build d b context = .ok m) : ∀ n < m.chart.size, ∃ s,
    d.root.at? (m.node n).path = some s ∧
      (Linker.mk m.chart b).Renders n s.toStateBody (m.partsOf n) := by
  intro n hn
  obtain ⟨s, hs⟩ := exists_declares h hn
  exact ⟨s, at?_of_declares h hs, renders_of_declares h hs⟩

def kiosk : Definition := .ofRoot
  { initial := some "desk"
    states := [
      ("desk", {
        id := some "desk"
        type := some .parallel
        on := .ofList [
          ("GO", [{ target := ["away"], guard := some "ready" }, { actions := ["wave"] }]),
          ("*", [{ target := ["desk"], internal := some true }]),
          ("", [{ target := ["desk"], internal := some false, guard := some "ready" }])]
        always := [{ inState := some "away", target := [".left", ".right"] }]
        after := .ofList [("pause", [{ target := ["away"] }]), ("20", [{ actions := ["wave"] }])]
        onDone := [{ target := ["#machine.away"] }]
        entry := ["wave", "wave"]
        activities := ["hum"]
        invoke := [
          { src := "fetch", onDone := [{ target := ["away"] }], onError := [{}] },
          { id := some "job", src := "fetch", onError := [{ target := [".left"] }] }]
        states := [("left", {}), ("right", {})] }),
      ("away", {})] }

def kioskBehaviors : Behaviors Unit where
  guards := .ofList [("ready", fun _ _ => .ok false)]
  actions := .ofList [("wave", .raise (.ofType "HEY"))]
  services := .ofList [("fetch", fun _ _ _ => ⟨.null, [], .never⟩)]
  activities := .ofList [("hum", ⟨fun _ _ => .null, fun _ _ => .null⟩)]
  delays := .ofList [("pause", fun _ _ => 5)]

def kioskMachine : Machine Unit := assemble kiosk () (link kiosk kioskBehaviors).value

lemma build_kiosk : build kiosk kioskBehaviors (some ()) = .ok kioskMachine := rfl

theorem kiosk_as_declared : build kiosk kioskBehaviors (some ()) = .ok kioskMachine ∧
    (∃ s, kiosk.root.at? ["desk"] = some s ∧
      (Linker.mk kioskMachine.chart kioskBehaviors).Renders 1 s.toStateBody
        (kioskMachine.partsOf 1)) ∧
    (kioskMachine.partsOf 1).transitions.map (fun t => (t.selector, t.targets)) = [
      (.exact "GO", [4]), (.exact "GO", []), (.wildcard, []), (.eventless, [1]),
      (.eventless, [2, 3]), (.exact "after.pause#desk", [4]), (.exact "after.20#desk", []),
      (.exact "done.state.desk", [4]), (.exact "done.invoke.desk:invocation[0]", [4]),
      (.exact "error.invoke.desk:invocation[0]", []), (.exact "error.invoke.job", [2])] ∧
    (kioskMachine.partsOf 1).entry.map Named.name = ["wave", "wave"] := by
  refine ⟨build_kiosk, parts_as_declared build_kiosk 1 (by decide), ?_, ?_⟩
  · decide +kernel
  · decide +kernel

end Machine

end Statechart
