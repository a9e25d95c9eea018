import Mathlib.Tactic.Common
import Statechart.Machine.Build
import Statechart.Proofs.Configuration.Completion
import Statechart.Proofs.Machine.Ids
import Statechart.Proofs.Step.Moves
import Statechart.Step.Settle

/-! Done events. What a microstep puts on the internal queue: the events that its actions raise, and
one for each state that is announced as completed. -/

namespace Statechart

def Event.countOf (type : String) (l : List Event) : Nat := (l.map Event.type).count type

def raisedBy {C : Type} (l : List (Named (Action C))) : List Event :=
  l.filterMap fun a => match a.value with
    | .raise event => some event
    | _ => none

variable {C : Type} {m : Machine C} {event : Event} {r r' : Run C} {n : NodeId} {type : String}

lemma countOf_append (l l' : List Event) :
    Event.countOf type (l ++ l') = Event.countOf type l + Event.countOf type l' := by
  rw [Event.countOf, List.map_append, List.count_append, Event.countOf, Event.countOf]

lemma countOf_done {c : Chart} (hids : c.IdsDistinct) {p : NodeId} (hp : p < c.size)
    {l : List NodeId} (hl : ∀ q ∈ l, q < c.size) :
    (l.map fun q => Event.doneStateType (c.node q).id).count
      (Event.doneStateType (c.node p).id) = l.count p := by
  induction l with
  | nil => rfl
  | cons q l ih =>
    have hsame : Event.doneStateType (c.node q).id = Event.doneStateType (c.node p).id ↔ q = p := by
      refine ⟨fun h => hids q p (hl q List.mem_cons_self) hp ?_, fun h => h ▸ rfl⟩
      exact (String.append_right_inj _).1 h
    rw [List.map_cons, List.count_cons, List.count_cons,
      ih fun q' hq' => hl q' (List.mem_cons_of_mem q hq')]
    simp [hsame]

namespace Run

def waiting (r : Run C) (type : String) : Nat := Event.countOf type r.internal

lemma internal_runActions {l : List (Named (Action C))} (h : r.runActions m n event l = .ok r') :
    r'.internal = r.internal ++ raisedBy l := by
  induction l generalizing r with
  | nil =>
    obtain rfl := foldlM_nil_eq_ok h
    simp [raisedBy]
  | cons a l ih =>
    obtain ⟨r₁, h₁, h⟩ := foldlM_cons_eq_ok h
    have hone : r₁.internal = r.internal ++ raisedBy [a] := by
      rw [runAction] at h₁
      cases ha : a.value with
      | assign run =>
        simp only [ha] at h₁
        split at h₁
        · obtain rfl := Except.ok.inj h₁
          simp [raisedBy, ha]
        · exact absurd h₁ (by simp)
      | raise raised =>
        simp only [ha] at h₁
        obtain rfl := Except.ok.inj h₁
        simp [raisedBy, ha]
      | _ =>
        simp only [ha] at h₁
        obtain rfl := Except.ok.inj h₁
        simp [raisedBy, ha]
    rw [ih h, hone, List.append_assoc, raisedBy, raisedBy, raisedBy, ← List.filterMap_append]
    rfl

lemma waiting_runActions {l : List (Named (Action C))} (h : r.runActions m n event l = .ok r') :
    r'.waiting type = r.waiting type + Event.countOf type (raisedBy l) := by
  rw [waiting, internal_runActions h, countOf_append, waiting]

lemma complete_cases (h : r.complete m event n = .ok r') :
    ((m.chart.node n).parent? = none ∧ r' = r) ∨
      ∃ q data, (m.chart.node n).parent? = some q ∧ r'.microsteps = r.microsteps ∧
        r'.internal = r.internal ++
          .doneState (m.node q).id data :: ((m.chart.node q).parent?.filter fun p =>
            (m.node p).isParallel && m.chart.isInFinalState r.state.configuration p).toList.map
              fun p => .doneState (m.node p).id .null := by
  rw [complete] at h
  split at h
  · rename_i hq
    exact .inl ⟨hq, (Except.ok.inj h).symm⟩
  · rename_i q hq
    dsimp only at h
    split at h
    · obtain rfl := Except.ok.inj h
      exact .inr ⟨q, .null, hq, rfl, rfl⟩
    · split at h
      · rename_i data _
        obtain rfl := Except.ok.inj h
        exact .inr ⟨q, data, hq, rfl, rfl⟩
      · exact absurd h (by simp [bind, Except.bind])

lemma waiting_complete (hf : (m.node n).isFinal) (h : r.complete m event n = .ok r') :
    r'.waiting type = r.waiting type +
      ((m.chart.announcedBy r.state.configuration n).map fun q =>
        Event.doneStateType (m.node q).id).count type := by
  have hf' : (m.chart.node n).isFinal := hf
  rw [Chart.announcedBy, if_pos hf']
  cases complete_cases h with
  | inl h =>
    rw [h.1, h.2]
    rfl
  | inr h =>
    obtain ⟨q, data, hq, _, hint⟩ := h
    rw [hq, waiting, hint, countOf_append, waiting, Event.countOf, Event.countOf, List.map_cons,
      List.map_map]
    rfl

lemma waiting_enterNodes {l : List NodeId} (hl : l.Nodup) (h : r.enterNodes m event l = .ok r') :
    r'.waiting type = r.waiting type
      + Event.countOf type ((l.filter (· ∉ r.state.configuration)).flatMap fun n =>
        raisedBy (m.partsOf n).entry)
      + ((m.chart.announced r.state.configuration l).map fun q =>
        Event.doneStateType (m.node q).id).count type := by
  induction l generalizing r with
  | nil =>
    obtain rfl := foldlM_nil_eq_ok h
    simp [Chart.announced, Event.countOf]
  | cons n l ih =>
    obtain ⟨hnl, hl⟩ := List.nodup_cons.1 hl
    obtain ⟨r₁, h₁, h⟩ := foldlM_cons_eq_ok h
    rw [ih hl h, Chart.announced]
    by_cases hn : n ∈ r.state.configuration
    · obtain rfl := enterNode_of_mem hn h₁
      rw [List.filter_cons_of_neg (by simpa using hn)]
      simp only [if_pos hn]
    · obtain ⟨hconf, _, _⟩ := enterNode_moves hn h₁
      have hrest : l.filter (· ∉ r₁.state.configuration) =
          l.filter (· ∉ r.state.configuration) := by
        apply List.filter_congr
        intro x hx
        have hne : x ≠ n := fun he => hnl (he ▸ hx)
        simp [hconf, hne]
      have hone : r₁.waiting type = r.waiting type
          + Event.countOf type (raisedBy (m.partsOf n).entry)
          + ((m.chart.announcedBy r₁.state.configuration n).map fun q =>
            Event.doneStateType (m.node q).id).count type := by
        rw [enterNode, if_neg hn] at h₁
        obtain ⟨r₂, h₂, h₁⟩ := bind_eq_ok h₁
        have hacts : r₂.waiting type = _ := waiting_runActions h₂
        by_cases hf : (m.node n).isFinal
        · rw [if_pos hf] at h₁
          rw [waiting_complete hf h₁, hacts, (complete_unmoved h₁).configuration]
          rfl
        · rw [if_neg hf] at h₁
          have hnone : m.chart.announcedBy r₁.state.configuration n = [] := if_neg hf
          rw [hnone, ← Except.ok.inj h₁, hacts]
          rfl
      rw [if_neg hn, hone, ← hconf, hrest, List.filter_cons_of_pos (by simpa using hn),
        List.flatMap_cons, countOf_append, List.map_append, List.count_append]
      omega

lemma internal_exitNodes {l : List NodeId} (h : r.exitNodes m event l = .ok r') :
    r'.internal = r.internal ++ l.flatMap fun n => raisedBy (m.partsOf n).exit := by
  induction l generalizing r with
  | nil =>
    obtain rfl := foldlM_nil_eq_ok h
    simp
  | cons n l ih =>
    obtain ⟨r₁, h₁, h⟩ := foldlM_cons_eq_ok h
    obtain ⟨r₂, h₂, h₁⟩ := bind_eq_ok h₁
    have hint : r₁.internal = r.internal ++ raisedBy (m.partsOf n).exit := by
      have hacts := internal_runActions h₂
      rw [← Except.ok.inj h₁]
      exact hacts
    rw [ih h, hint, List.flatMap_cons, List.append_assoc]

end Run

namespace Machine

def staying (m : Machine C) (s : MachineState C) (l : List TransitionRef) : Configuration :=
  s.configuration.filter (· ∉ m.exitSetOf s.configuration s.history l)

def entering (m : Machine C) (s : MachineState C) (l : List TransitionRef) : List NodeId :=
  (m.entrySet (m.historyAfter s l) l).elems

def raisedOnEntry (m : Machine C) (s : Configuration) (l : List NodeId) : List Event :=
  (l.filter (· ∉ s)).flatMap fun n => raisedBy (m.partsOf n).entry

def raisedIn (m : Machine C) (s : MachineState C) (l : List TransitionRef) : List Event :=
  ((m.exitSetOf s.configuration s.history l).elems.reverse.flatMap fun n =>
      raisedBy (m.partsOf n).exit)
    ++ (l.flatMap fun ref => raisedBy (m.transitionAt ref).actions)
    ++ m.raisedOnEntry (m.staying s l) (m.entering s l)

variable {l : List TransitionRef}

lemma internal_transitions (h : l.foldlM (fun r ref =>
      let t := m.transitionAt ref
      r.runActions m t.source event t.actions) r = .ok r') :
    r'.internal = r.internal ++ l.flatMap fun ref => raisedBy (m.transitionAt ref).actions := by
  induction l generalizing r with
  | nil =>
    obtain rfl := foldlM_nil_eq_ok h
    simp
  | cons ref l ih =>
    obtain ⟨r₁, h₁, h⟩ := foldlM_cons_eq_ok h
    rw [ih h, Run.internal_runActions h₁, List.flatMap_cons, List.append_assoc]

lemma configuration_staying {history : Memory} {microsteps : Nat} {r₁ r₂ : Run C}
    (h₁ : Run.exitNodes m event { r with state := { r.state with history }, microsteps }
      (m.exitSetOf r.state.configuration r.state.history l).elems.reverse = .ok r₁)
    (h₂ : l.foldlM (fun r ref =>
      let t := m.transitionAt ref
      r.runActions m t.source event t.actions) r₁ = .ok r₂) :
    r₂.state.configuration = m.staying r.state l := by
  have hu := Run.unmoved_foldlM (fun _ _ _ => Run.runActions_unmoved) h₂
  apply SortedSet.ext
  intro x
  rw [hu.configuration, (Run.exitNodes_mem h₁).2, List.mem_reverse, staying,
    SortedSet.mem_filter, decide_eq_true_eq]
  rfl

lemma waiting_microstep (h : m.microstep l event r = .ok r') :
    r'.waiting type = r.waiting type + Event.countOf type (m.raisedIn r.state l)
      + ((m.chart.announced (m.staying r.state l) (m.entering r.state l)).map fun q =>
        Event.doneStateType (m.node q).id).count type := by
  obtain ⟨r₁, h₁, h⟩ := bind_eq_ok h
  obtain ⟨r₂, h₂, h⟩ := bind_eq_ok h
  have hconf := configuration_staying h₁ h₂
  have hnodup : (m.entering r.state l).Nodup :=
    (m.entrySet (m.historyAfter r.state l) l).sorted.imp Nat.ne_of_lt
  have hint : r₂.waiting type = r.waiting type
      + Event.countOf type
        ((m.exitSetOf r.state.configuration r.state.history l).elems.reverse.flatMap
          fun n => raisedBy (m.partsOf n).exit)
      + Event.countOf type (l.flatMap fun ref => raisedBy (m.transitionAt ref).actions) := by
    rw [Run.waiting, internal_transitions h₂, Run.internal_exitNodes h₁, countOf_append,
      countOf_append]
    rfl
  rw [Run.waiting_enterNodes hnodup h, hint, hconf, raisedIn, countOf_append, countOf_append,
    raisedOnEntry]
  omega

def Completes (m : Machine C) (p : NodeId) (s : Configuration) (l : List NodeId)
    (s' : Configuration) : Prop :=
  p ∈ s' ∧ m.chart.isInFinalState s' p ∧ m.chart.Finishes s l p

variable {p : NodeId} {s s' : Configuration} {entered : List NodeId}

lemma count_done (hw : m.chart.WellFormed) (hids : m.chart.IdsDistinct)
    (hp : (m.node p).isParallel) (hr : m.chart.PlainRegions p) (ho : m.chart.Orderly s' p)
    (hnodup : entered.Nodup) (hs : ∀ x, x ∈ s' ↔ x ∈ s ∨ x ∈ entered) :
    let done := (m.chart.announced s entered).map fun q => Event.doneStateType (m.node q).id
    (m.Completes p s entered s' → done.count (Event.doneStateType (m.node p).id) = 1) ∧
      (¬ m.Completes p s entered s' → done.count (Event.doneStateType (m.node p).id) = 0) := by
  have hsize : p < m.chart.size := by
    by_contra hn
    have hp' : (m.chart.node p).isParallel := hp
    rw [Chart.node_of_size_le (Nat.le_of_not_lt hn)] at hp'
    exact absurd hp' (by decide)
  have hcount := countOf_done hids hsize (l := m.chart.announced s entered)
    fun q => Chart.lt_of_mem_announced hw.toIsTree
  obtain ⟨hone, hzero⟩ := Chart.count_announced hw hp hr ho hnodup hs
  refine ⟨fun h => ?_, fun h => ?_⟩
  · exact hcount.trans (hone h.2)
  · refine hcount.trans (hzero fun h' => h ⟨?_, h'⟩)
    obtain ⟨_, n, hn, _, _, hb⟩ := h'
    exact ho.mem_of_within hw.toIsTree ((hs n).2 (.inr hn)) hb.within

section

variable [JsonCoded C] {d : Definition} {b : Behaviors C} {context : Option C}

/-- A parallel state without final and parallel regions is announced exactly once when entering
states completes it, and not at all otherwise. Everything else in the queue was there before or is
raised by actions. -/
theorem announced_on_completion (hb : build d b context = .ok m) (hp : (m.node p).isParallel)
    (hr : m.chart.PlainRegions p) :
    let done := Event.doneStateType (m.node p).id
    (∀ l event (r r' : Run C), m.microstep l event r = .ok r' →
        m.chart.Orderly r'.state.configuration p →
        (m.Completes p (m.staying r.state l) (m.entering r.state l) r'.state.configuration →
            r'.waiting done = r.waiting done + Event.countOf done (m.raisedIn r.state l) + 1) ∧
          (¬ m.Completes p (m.staying r.state l) (m.entering r.state l) r'.state.configuration →
            r'.waiting done = r.waiting done + Event.countOf done (m.raisedIn r.state l))) ∧
      ∀ (start : C) (r : Run C),
        (Run.start ⟨.empty, start, .empty⟩).enterNodes m .init
          (m.chart.enter .empty .empty rootId).elems = .ok r →
        m.chart.Orderly r.state.configuration p →
        let entered := (m.chart.enter .empty .empty rootId).elems
        (m.Completes p .empty entered r.state.configuration →
            r.waiting done = Event.countOf done (m.raisedOnEntry .empty entered) + 1) ∧
          (¬ m.Completes p .empty entered r.state.configuration →
            r.waiting done = Event.countOf done (m.raisedOnEntry .empty entered)) := by
  have hw := (wellFormed_of_build hb).chart
  have hids := idsDistinct_of_build hb
  refine ⟨fun l event r r' h ho => ?_, fun start r h ho => ?_⟩
  · have hnodup : (m.entering r.state l).Nodup :=
      (m.entrySet (m.historyAfter r.state l) l).sorted.imp Nat.ne_of_lt
    have hs : ∀ x, x ∈ r'.state.configuration ↔
        x ∈ m.staying r.state l ∨ x ∈ m.entering r.state l := by
      intro x
      rw [(microstep_mem h).2, staying, SortedSet.mem_filter, decide_eq_true_eq]
      rfl
    obtain ⟨hone, hzero⟩ := count_done hw hids hp hr ho hnodup hs
    rw [waiting_microstep h]
    exact ⟨fun hc => by rw [hone hc], fun hc => by rw [hzero hc, Nat.add_zero]⟩
  · have hnodup : (m.chart.enter .empty .empty rootId).elems.Nodup :=
      (m.chart.enter .empty .empty rootId).sorted.imp Nat.ne_of_lt
    obtain ⟨hone, hzero⟩ := count_done hw hids hp hr ho hnodup (Run.enterNodes_mem h).2
    rw [Run.waiting_enterNodes hnodup h]
    refine ⟨fun hc => ?_, fun hc => ?_⟩
    · exact congrArg₂ (· + ·) (Nat.zero_add _) (hone hc)
    · exact congrArg₂ (· + ·) (Nat.zero_add _) (hzero hc)

end

lemma exists_microstep (event : Event) (done : String) (s : Configuration) (l : List NodeId)
    (s' : Configuration) (k : Nat)
    (h : (m.initialStep.bind fun step => (m.select step.state event false).bind fun l =>
        (m.microstep l event (.start step.state)).map fun r =>
          (m.staying step.state l, m.entering step.state l, r.state.configuration,
            Event.countOf done (m.raisedIn step.state l), r.waiting done)).toOption =
      some (s, l, s', 0, k)) :
    ∃ step refs r, m.initialStep = .ok step ∧ m.select step.state event false = .ok refs ∧
      m.microstep refs event (.start step.state) = .ok r ∧ m.staying step.state refs = s ∧
      m.entering step.state refs = l ∧ r.state.configuration = s' ∧
      Event.countOf done (m.raisedIn step.state refs) = 0 ∧ r.waiting done = k := by
  cases hstep : m.initialStep with
  | error e => simp [hstep, Except.bind, Except.toOption] at h
  | ok step =>
    cases hl : m.select step.state event false with
    | error e => simp [hstep, hl, Except.bind, Except.toOption] at h
    | ok refs =>
      cases hr : m.microstep refs event (.start step.state) with
      | error e => simp [hstep, hl, hr, Except.bind, Except.map, Except.toOption] at h
      | ok r =>
        simp only [hstep, hl, hr, Except.bind, Except.map, Except.toOption, Option.some.injEq,
          Prod.mk.injEq] at h
        exact ⟨step, refs, r, rfl, hl, hr, h⟩

def racing : Definition := .ofRoot
  { initial := some "race"
    states := [
      ("race", {
        type := some .parallel
        states := [
          ("a", {
            initial := some "run"
            states := [
              ("run", { on := .ofList [("FINISH", [{ target := ["home"] }])] }),
              ("home", { type := some .final })] }),
          ("b", {
            initial := some "run"
            states := [
              ("run", { on := .ofList [("FINISH", [{ target := ["home"] }])] }),
              ("home", { type := some .final })] })] })] }

def racingMachine : Machine Unit := assemble racing () (link racing {}).value

lemma build_racing : build racing {} (some ()) = .ok racingMachine := rfl

theorem racing_announced :
    ∃ step l r, racingMachine.initialStep = .ok step ∧
      racingMachine.microstep l (.ofType "FINISH") (.start step.state) = .ok r ∧
      r.waiting (Event.doneStateType (racingMachine.node 1).id) = 1 := by
  obtain ⟨step, l, r, hstep, _, hr, hs, hl, hs', hraised, _⟩ :=
    exists_microstep (m := racingMachine) (.ofType "FINISH")
      (Event.doneStateType (racingMachine.node 1).id) (.ofList [0, 1, 2, 5]) [4, 7]
      (.ofList [0, 1, 2, 4, 5, 7]) 1 (by decide +kernel)
  have hplain : racingMachine.chart.PlainRegions 1 := by
    unfold Chart.PlainRegions
    decide
  have horderly : racingMachine.chart.Orderly r.state.configuration 1 := by
    rw [hs']
    exact ⟨by decide, by decide⟩
  have hcompletes : racingMachine.Completes 1 (racingMachine.staying step.state l)
      (racingMachine.entering step.state l) r.state.configuration := by
    have hb : 1 ∈ (racingMachine.chart.node 4).ancestors := by decide
    rw [hs, hl, hs']
    exact ⟨by decide, by decide, 4, by decide, by decide, by decide, hb⟩
  have h := ((announced_on_completion build_racing (by decide) hplain).1 l (.ofType "FINISH")
    (.start step.state) r hr horderly).1 hcompletes
  refine ⟨step, l, r, hstep, hr, h.trans ?_⟩
  rw [show (Run.start step.state).state = step.state from rfl, hraised]
  rfl

def nesting : Definition := .ofRoot
  { initial := some "outer"
    states := [
      ("outer", {
        type := some .parallel
        states := [
          ("inner", {
            type := some .parallel
            states := [
              ("part", {
                initial := some "run"
                states := [
                  ("run", { on := .ofList [("FINISH", [{ target := ["home"] }])] }),
                  ("home", { type := some .final })] })] })] })] }

def nestingMachine : Machine Unit := assemble nesting () (link nesting {}).value

def hasty : Definition := .ofRoot
  { initial := some "outer"
    states := [
      ("outer", {
        type := some .parallel
        states := [
          ("over", { type := some .final }),
          ("part", {})] })] }

def hastyMachine : Machine Unit := assemble hasty () (link hasty {}).value

def doubling : Definition := .ofRoot
  { initial := some "outer"
    states := [
      ("outer", {
        type := some .parallel
        states := [
          ("part", {
            initial := some "run"
            states := [
              ("run", { on := .ofList [("FINISH", [{ target := ["home", "away"] }])] }),
              ("home", { type := some .final }),
              ("away", { type := some .final })] })] })] }

def doublingMachine : Machine Unit := assemble doubling () (link doubling {}).value

theorem done_events_miscounted :
    (build nesting {} (some ()) = .ok nestingMachine ∧
      ∃ step l r, nestingMachine.initialStep = .ok step ∧
        nestingMachine.select step.state (.ofType "FINISH") false = .ok l ∧
        nestingMachine.microstep l (.ofType "FINISH") (.start step.state) = .ok r ∧
        nestingMachine.Completes 1 (nestingMachine.staying step.state l)
          (nestingMachine.entering step.state l) r.state.configuration ∧
        r.waiting (Event.doneStateType (nestingMachine.node 1).id) = 0) ∧
    (build hasty {} (some ()) = .ok hastyMachine ∧
      ∃ r, (Run.start ⟨.empty, (), .empty⟩).enterNodes hastyMachine .init
          (hastyMachine.chart.enter .empty .empty rootId).elems = .ok r ∧
        hastyMachine.chart.isInFinalState r.state.configuration 1 = false ∧
        hastyMachine.raisedOnEntry .empty (hastyMachine.chart.enter .empty .empty rootId).elems =
          [] ∧
        r.waiting (Event.doneStateType (hastyMachine.node 1).id) = 1) ∧
    (build doubling {} (some ()) = .ok doublingMachine ∧
      ∃ step l r, doublingMachine.initialStep = .ok step ∧
        doublingMachine.select step.state (.ofType "FINISH") false = .ok l ∧
        doublingMachine.microstep l (.ofType "FINISH") (.start step.state) = .ok r ∧
        Event.countOf (Event.doneStateType (doublingMachine.node 1).id)
          (doublingMachine.raisedIn step.state l) = 0 ∧
        r.waiting (Event.doneStateType (doublingMachine.node 1).id) = 2) := by
  refine ⟨⟨rfl, ?_⟩, ⟨rfl, ?_⟩, ⟨rfl, ?_⟩⟩
  · obtain ⟨step, l, r, hstep, hsel, hr, hs, hl, hs', _, hcount⟩ :=
      exists_microstep (m := nestingMachine) (.ofType "FINISH")
        (Event.doneStateType (nestingMachine.node 1).id) (.ofList [0, 1, 2, 3]) [5]
        (.ofList [0, 1, 2, 3, 5]) 0 (by decide +kernel)
    have hb : 1 ∈ (nestingMachine.chart.node 5).ancestors := by decide
    refine ⟨step, l, r, hstep, hsel, hr, ?_, hcount⟩
    rw [hs, hl, hs']
    exact ⟨by decide, by decide, 5, by decide, by decide, by decide, hb⟩
  · have hrun : ((Run.start ⟨.empty, (), .empty⟩).enterNodes hastyMachine .init
          (hastyMachine.chart.enter .empty .empty rootId).elems).toOption.map (fun r =>
        (hastyMachine.chart.isInFinalState r.state.configuration 1,
          r.waiting (Event.doneStateType (hastyMachine.node 1).id))) = some (false, 1) := by
      decide +kernel
    cases hr : (Run.start ⟨.empty, (), .empty⟩).enterNodes hastyMachine .init
        (hastyMachine.chart.enter .empty .empty rootId).elems with
    | error e => simp [hr, Except.toOption] at hrun
    | ok r =>
      simp only [hr, Except.toOption, Option.map_some, Option.some.injEq, Prod.mk.injEq] at hrun
      exact ⟨r, rfl, hrun.1, rfl, hrun.2⟩
  · obtain ⟨step, l, r, hstep, hsel, hr, _, _, _, hraised, hcount⟩ :=
      exists_microstep (m := doublingMachine) (.ofType "FINISH")
        (Event.doneStateType (doublingMachine.node 1).id) (.ofList [0, 1, 2]) [4, 5]
        (.ofList [0, 1, 2, 4, 5]) 2 (by decide +kernel)
    exact ⟨step, l, r, hstep, hsel, hr, hraised, hcount⟩

end Machine

end Statechart
