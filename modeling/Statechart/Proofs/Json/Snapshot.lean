import Mathlib.Tactic.Common
import Statechart.Machine.Build
import Statechart.Proofs.Json.Coded
import Statechart.Proofs.Snapshot
import Statechart.Proofs.Step.Legality
import Statechart.Proofs.Step.Sources

/-! Snapshots as JSON. All of a snapshot is read back, except that an output of null, which is
written as null, is read as no output. -/

namespace Statechart

open Json (record? required defaulted nullable bool? record?_objOf_of_aligned)

def nonNull (o : Option Value) : Option Value := o.filter (!·.isNull)

lemma nonNull_eq_iff {o : Option Value} : nonNull o = o ↔ o ≠ some .null := by
  cases o with
  | none => simp [nonNull]
  | some v =>
    cases hnull : v.isNull with
    | true => simp [nonNull, Value.eq_null_of_isNull hnull, Value.isNull, Value.null, Json.isNull]
    | false =>
      have hne : v ≠ .null := by
        rintro rfl
        exact absurd hnull (by simp [Value.isNull, Value.null, Json.isNull])
      simp [nonNull, hnull, hne]

lemma defaulted_map_json (o : Option Value) :
    defaulted none (nullable (some ∘ Value.ofJson)) (o.map Value.json) = some (nonNull o) := by
  cases o with
  | none => rfl
  | some v =>
    cases hnull : v.isNull with
    | true =>
      rw [Value.eq_null_of_isNull hnull]
      rfl
    | false =>
      have hread : nullable (some ∘ Value.ofJson) v.json =
          ((some ∘ Value.ofJson) v.json).map some := by
        rw [nullable]
        rintro hjson
        simp [Value.isNull, hjson, Json.isNull] at hnull
      rw [Option.map_some, defaulted, hread, Function.comp_apply, v.ofJson_json]
      exact congrArg some (Option.filter_some_pos (by simp [hnull])).symm

namespace Snapshot

variable {C : Type} [JsonCoded C] [LawfulJson C]

lemma ofJson?_toJson (x : Snapshot C) :
    ofJson? x.toJson = some { x with output := nonNull x.output } := by
  have hrecord : record? [["value"], ["context"], ["event"], ["configuration"], ["changed"],
      ["done"], ["output"], ["actions"], ["next_events"], ["meta"], ["history"], ["delimiter"]]
      x.toJson = some [some x.value.toJson, some (JsonCoded.toJson x.context),
        some x.event.toJson, some (.strs x.configuration), some (.bool x.changed),
        some (.bool x.done), x.output.map Value.json, some (.strs x.actions),
        some (.strs x.nextEvents), some (.obj (x.metadata.entries.map fun e => (e.1, e.2.json))),
        some (idListsToJson x.history), some (.str x.delimiter)] :=
    record?_objOf_of_aligned rfl
  have hvalue : required StateValue.ofJson? (some x.value.toJson) = some x.value :=
    required_lawful x.value
  have hevent : required Event.ofJson? (some x.event.toJson) = some x.event :=
    required_lawful x.event
  have hbool : ∀ b, required bool? (some (.bool b)) = some b := fun _ => rfl
  have hdata : ∀ v : Value, (some ∘ Value.ofJson) v.json = some v :=
    fun v => congrArg some v.ofJson_json
  have hmetadata : required (fun j => (j.entries? (some ∘ Value.ofJson)).map SortedMap.ofList)
      (some (.obj (x.metadata.entries.map fun e => (e.1, e.2.json)))) = some x.metadata :=
    entries?_map hdata x.metadata
  have hhistory : defaulted .empty idListsOfJson? (some (idListsToJson x.history)) =
      some x.history :=
    idListsOfJson?_idListsToJson x.history
  simp only [ofJson?, List.map_cons, List.map_nil, hrecord, hvalue, hevent, hbool, hmetadata,
    hhistory, required_lawful, required_strs, required_string, defaulted_map_json,
    Option.bind_eq_bind, Option.bind_some, Option.pure_def]

end Snapshot

namespace Machine

variable {C : Type} {m : Machine C} {x : Snapshot C}

inductive Displays (m : Machine C) : Snapshot C → Prop
  | initial {x : Snapshot C} (h : m.initialState = .ok x) : m.Displays x
  | next {x x' : Snapshot C} {event : Event} (hx : m.Displays x)
      (h : m.transitionState x event = .ok x') : m.Displays x'

lemma eq_ok_of_map {ε α β : Type} {f : α → β} {r : Except ε α} {b : β} (h : r.map f = .ok b) :
    ∃ a, r = .ok a ∧ f a = b := by
  cases r with
  | error e => exact absurd h (by simp [Except.map])
  | ok a => exact ⟨a, rfl, Except.ok.inj h⟩

variable [JsonCoded C]

section

variable {d : Definition} {b : Behaviors C} {context : Option C} (hb : build d b context = .ok m)

include hb

lemma Displays.step (hx : m.Displays x) : ∃ step, m.Yields step ∧ m.Sources step ∧
    m.stateOf step = x := by
  induction hx with
  | initial h =>
    obtain ⟨step, hstep, hx⟩ := eq_ok_of_map h
    exact ⟨step, .initial hstep, sources_initialStepFrom hstep, hx⟩
  | @next _ _ event _ h ih =>
    obtain ⟨step, hyields, _, rfl⟩ := ih
    have hc := hyields.covers (wellFormed_of_build hb) (closed_of_build hb)
    rw [transitionState_stateOf (idsDistinct_of_build hb) hc] at h
    obtain ⟨step', hstep, hx⟩ := eq_ok_of_map h
    have hnext : m.stepWithin { step.state with context := step.state.context } event _ =
        .ok step' := hstep
    exact ⟨step', hyields.next hnext, sources_stepWithin hstep, hx⟩

/-- A snapshot is read back as it was unless it has null as its output. That happens if the machine
is done, and by a final child of the root that has no mapper or one that may give null. -/
theorem snapshots_read_back [LawfulJson C] (hx : m.Displays x) :
    Snapshot.ofJson? x.toJson = some { x with output := nonNull x.output } ∧
    (Snapshot.ofJson? x.toJson = some x ↔ x.output ≠ some .null) ∧
    (x.output = some .null → x.done = true ∧ m.Grants .null) := by
  refine ⟨x.ofJson?_toJson, ?_, fun hnull => ?_⟩
  · rw [x.ofJson?_toJson, ← nonNull_eq_iff, Option.some.injEq]
    constructor
    · exact congrArg Snapshot.output
    · intro h
      rw [h]
  · obtain ⟨step, _, hsources, rfl⟩ := hx.step hb
    exact hsources.output .null hnull

end

def fleeting : Definition := .ofRoot
  { initial := some "run"
    states := [
      ("run", { on := .ofList [("END", [{ target := ["end"] }])] }),
      ("end", { type := some .final })] }

def fleetingMachine : Machine Value :=
  Machine.assemble fleeting .null (Machine.link fleeting {}).value

lemma build_fleeting : build fleeting {} (some Value.null) = .ok fleetingMachine := rfl

lemma fleeting_ends : ∃ x x', fleetingMachine.Displays x ∧ fleetingMachine.Displays x' ∧
    x.output = none ∧ x'.output = some .null := by
  have hrun : (fleetingMachine.initialState.toOption.bind fun x =>
      (fleetingMachine.transitionState x (.ofType "END")).toOption.map fun x' =>
        (x.output.isNone, x'.output.map Value.isNull)) = some (true, some true) := by
    decide +kernel
  obtain ⟨x, hx, hrun⟩ := Option.bind_eq_some_iff.1 hrun
  obtain ⟨x', hx', hrun⟩ := Option.map_eq_some_iff.1 hrun
  have hfirst := Displays.initial (eq_ok_of_toOption hx)
  obtain ⟨v, hv, hnull⟩ := Option.map_eq_some_iff.1 (congrArg Prod.snd hrun)
  exact ⟨x, x', hfirst, hfirst.next (eq_ok_of_toOption hx'),
    Option.isNone_iff_eq_none.1 (congrArg Prod.fst hrun),
    hv.trans (congrArg some (Value.eq_null_of_isNull hnull))⟩

theorem fleeting_loses_output : ∃ x, fleetingMachine.Displays x ∧
    Snapshot.ofJson? x.toJson ≠ some x := by
  obtain ⟨_, x, _, hx, _, hnull⟩ := fleeting_ends
  refine ⟨x, hx, fun hback => ?_⟩
  rw [x.ofJson?_toJson] at hback
  exact nonNull_eq_iff.1 (congrArg Snapshot.output (Option.some.inj hback)) hnull

theorem fleeting_read_back : ∃ x x', fleetingMachine.Displays x ∧ fleetingMachine.Displays x' ∧
    Snapshot.ofJson? x.toJson = some x ∧ x'.done = true ∧
    Snapshot.ofJson? x'.toJson = some { x' with output := none } := by
  obtain ⟨x, x', hx, hx', hnone, hnull⟩ := fleeting_ends
  obtain ⟨_, hback, _⟩ := snapshots_read_back build_fleeting hx
  obtain ⟨hread, _, hdone⟩ := snapshots_read_back build_fleeting hx'
  refine ⟨x, x', hx, hx', hback.2 (by simp [hnone]), (hdone hnull).1, ?_⟩
  rw [hread, hnull]
  rfl

end Machine

end Statechart
