import Mathlib.Tactic.Common
import Statechart.Checkpoint.Validate
import Statechart.Proofs.Configuration.Resolve
import Statechart.Proofs.Machine.Ids
import Statechart.Proofs.Step.Moves

/-! Which checkpoints are accepted. Where all ids are known, accepting depends on the configuration
only, and the test overlooks states that are too many. -/

namespace Statechart.Checkpoint

variable {C : Type} {c : Checkpoint C} {m : Machine C} {ids : List String}

def recorded (c : Checkpoint C) (m : Machine C) : Configuration :=
  .ofList (c.configuration.filterMap m.chart.find?)

def recalled (c : Checkpoint C) (m : Machine C) : Memory :=
  c.history.entries.foldl (fun memory e =>
    memory.insert ((m.chart.find? e.1).getD rootId) (e.2.filterMap m.chart.find?)) .empty

def Known (m : Machine C) (ids : List String) : Prop := ∀ id ∈ ids, (m.chart.find? id).isSome

instance : Decidable (Known m ids) :=
  inferInstanceAs (Decidable (∀ id ∈ ids, (m.chart.find? id).isSome))

lemma mem_recorded {n : NodeId} :
    n ∈ c.recorded m ↔ ∃ id ∈ c.configuration, m.chart.find? id = some n := by
  rw [recorded, SortedSet.mem_ofList, List.mem_filterMap]

lemma recorded_lt {n : NodeId} (h : n ∈ c.recorded m) : n < m.chart.size := by
  obtain ⟨id, _, hid⟩ := mem_recorded.1 h
  exact Chart.find?_size hid

lemma find_eq_ok {id : String} {n : NodeId} (h : m.chart.find? id = some n) :
    find m id = .ok n := by
  rw [find, h]

lemma mapM_of_known {ε : Type} {look : String → Except ε NodeId}
    (hlook : ∀ id n, m.chart.find? id = some n → look id = .ok n) (h : Known m ids) :
    ids.mapM look = .ok (ids.filterMap m.chart.find?) := by
  induction ids with
  | nil => rfl
  | cons id ids ih =>
    obtain ⟨n, hn⟩ := Option.isSome_iff_exists.1 (h id List.mem_cons_self)
    rw [List.mapM_cons, hlook id n hn, ih fun id' hid' => h id' (List.mem_cons_of_mem _ hid'),
      List.filterMap_cons_some hn]
    rfl

lemma mapM_find (h : Known m ids) : ids.mapM (find m) = .ok (ids.filterMap m.chart.find?) :=
  mapM_of_known (fun _ _ => find_eq_ok) h

lemma memory_eq_ok {entries : List (String × List String)} (memory : Memory)
    (h : ∀ e ∈ entries, Known m (e.1 :: e.2)) :
    Checkpoint.memory m memory entries = .ok (entries.foldl (fun memory e =>
      memory.insert ((m.chart.find? e.1).getD rootId) (e.2.filterMap m.chart.find?)) memory) := by
  induction entries generalizing memory with
  | nil => rfl
  | cons e entries ih =>
    have he := h e List.mem_cons_self
    obtain ⟨n, hn⟩ := Option.isSome_iff_exists.1 (he e.1 List.mem_cons_self)
    rw [Checkpoint.memory, mapM_find fun id hid => he id (List.mem_cons_of_mem _ hid),
      find_eq_ok hn, List.foldl_cons, hn, Option.getD_some]
    exact ih _ fun e' he' => h e' (List.mem_cons_of_mem _ he')

lemma machineState_eq_ok (h : Known m c.mentioned) :
    c.machineState m = .ok ⟨c.recorded m, c.context, c.recalled m⟩ := by
  have hconf : Known m c.configuration := fun id hid => h id (List.mem_append_left _ hid)
  have hhist : ∀ e ∈ c.history.entries, Known m (e.1 :: e.2) := by
    intro e he id hid
    apply h id
    exact List.mem_append_right _ (List.mem_flatMap.2 ⟨e, he, hid⟩)
  rw [machineState, mapM_find hconf, memory_eq_ok .empty hhist]
  rfl

lemma idFlaws_eq_nil :
    c.idFlaws m = [] ↔ c.configuration ≠ [] ∧ Known m c.mentioned := by
  rw [idFlaws, List.append_eq_nil_iff, List.map_eq_nil_iff, List.filter_eq_nil_iff, Known]
  simp [Option.isSome_iff_ne_none]

lemma validate_eq_ok_iff : c.validate m = .ok () ↔
    c.version = supportedVersion ∧ (c.machineId = m.id ∧ c.machineVersion = m.version) ∧
      c.idFlaws m = [] ∧ c.checkConsistent m = .ok () := by
  constructor
  · intro h
    obtain ⟨_, hversion, h⟩ := bind_eq_ok h
    obtain ⟨_, hmachine, h⟩ := bind_eq_ok h
    rw [checkVersion] at hversion
    rw [checkMachine] at hmachine
    refine ⟨by_contra fun hne => ?_, by_contra fun hne => ?_, ?_⟩
    · simp [hne] at hversion
    · simp [hne] at hmachine
    · cases hf : c.idFlaws m with
      | nil => exact ⟨rfl, by simpa only [hf] using h⟩
      | cons flaw flaws => simp [hf] at h
  · rintro ⟨hversion, hmachine, hflaws, hcheck⟩
    simp only [validate, checkVersion, checkMachine, if_pos hversion, if_pos hmachine, hflaws]
    exact hcheck

lemma checkConsistent_eq_ok_iff (h : Known m c.mentioned) :
    c.checkConsistent m = .ok () ↔
      m.chart.resolve (c.recorded m).elems .empty = c.recorded m := by
  rw [checkConsistent, machineState_eq_ok h]
  change (if m.chart.resolve (c.recorded m).elems .empty = c.recorded m then Except.ok ()
    else Except.error (CheckpointError.invalid [.inconsistent c.configuration])) = .ok () ↔ _
  split <;> simp [*]

lemma configuration_ne_nil (h : rootId ∈ c.recorded m) : c.configuration ≠ [] := by
  obtain ⟨id, hid, _⟩ := mem_recorded.1 h
  exact List.ne_nil_of_mem hid

structure Fits (c : Checkpoint C) (m : Machine C) : Prop where
  version : c.version = supportedVersion
  machine : c.machineId = m.id ∧ c.machineVersion = m.version
  known : Known m c.mentioned

section

variable [JsonCoded C] {d : Definition} {b : Behaviors C} {context : Option C}

/-- Checkpoints with a consistent configuration are accepted, whatever their history entries are.
No others are, as long as history states without a memory lead to states below their parents. -/
theorem validate_iff_consistent (hb : Machine.build d b context = .ok m) (hc : c.Fits m) :
    (m.chart.Consistent (c.recorded m) → c.validate m = .ok ()) ∧
      (m.chart.Recalls .empty → (c.validate m = .ok () ↔ m.chart.Consistent (c.recorded m))) := by
  have hw := (Machine.wellFormed_of_build hb).chart
  have hsize : ∀ n ∈ c.recorded m, n < m.chart.size := fun n => recorded_lt
  have hfull := Chart.full_iff_consistent hw.toIsTree hsize
  have haccepts : m.chart.Consistent (c.recorded m) → c.validate m = .ok () := by
    intro h
    have hresolve := (hfull.2 h).resolve_eq_self hw .empty
    apply validate_eq_ok_iff.2
    refine ⟨hc.version, hc.machine, idFlaws_eq_nil.2 ⟨configuration_ne_nil h.root, hc.known⟩, ?_⟩
    exact (checkConsistent_eq_ok_iff hc.known).2 hresolve
  refine ⟨haccepts, fun hr => ⟨fun h => ?_, haccepts⟩⟩
  obtain ⟨_, _, _, hcheck⟩ := validate_eq_ok_iff.1 h
  apply hfull.1
  apply Chart.full_of_resolve hw hr hsize
  exact (checkConsistent_eq_ok_iff hc.known).1 hcheck

end

def branching : Definition := .ofRoot
  { initial := some "x"
    states := [("x", {}), ("y", {}), ("last", { history := some (.flag true) })] }

def branchingMachine : Machine Unit :=
  Machine.assemble branching () (Machine.link branching {}).value

lemma build_branching : Machine.build branching {} (some ()) = .ok branchingMachine := rfl

def branchingCheckpoint (ids : List String) (history : List (String × List String)) :
    Checkpoint Unit where
  version := supportedVersion
  id := "c"
  timestamp := .epoch
  machineId := "machine"
  machineVersion := none
  configuration := ids
  context := ()
  history := .ofList history
  event := "GO"
  transitions := .empty
  metadata := .startingAt .epoch

theorem branching_validate :
    (branchingCheckpoint ["machine", "machine.y"] []).validate branchingMachine = .ok () ∧
      (branchingCheckpoint ["machine"] []).validate branchingMachine ≠ .ok () := by
  have hr : branchingMachine.chart.Recalls .empty := by
    have hall := Chart.forall_node (c := branchingMachine.chart)
      (P := fun n node => node.isHistory → ∀ p ∈ node.parent?,
        branchingMachine.chart.historyTargets .empty n ≠ [] ∧
          ∀ x ∈ branchingMachine.chart.historyTargets .empty n,
            (branchingMachine.chart.node x).isHistory = false ∧
              p ∈ (branchingMachine.chart.node x).ancestors)
      (by decide) fun _ h => absurd h (by decide)
    exact fun h p hh hp => hall h hh p hp
  constructor
  · apply (validate_iff_consistent build_branching ⟨rfl, ⟨rfl, rfl⟩, ?_⟩).1
    · have hs : (branchingCheckpoint ["machine", "machine.y"] []).recorded branchingMachine =
          .ofList [0, 2] := by decide
      rw [hs]
      refine ⟨by decide, ?_, by decide, by decide, by decide⟩
      decide
    · decide
  · intro h
    have hiff := (validate_iff_consistent (c := branchingCheckpoint ["machine"] [])
      build_branching ⟨rfl, ⟨rfl, rfl⟩, by decide⟩).2 hr
    obtain ⟨child, hchild, hmem⟩ := (hiff.1 h).compound rootId (by decide) (by decide)
    have hnone : ∀ child ∈ (branchingMachine.chart.node rootId).children,
        child ∉ (branchingCheckpoint ["machine"] []).recorded branchingMachine := by decide
    exact hnone child hchild hmem

def Sensible (c : Chart) (memory : Memory) : Prop :=
  ∀ e ∈ memory.entries, (c.node e.1).isHistory ∧ ∃ p, (c.node e.1).parent? = some p ∧
    ∀ x ∈ e.2, (c.node x).isHistory = false ∧ c.Below x p

theorem branching_accepts :
    Machine.build branching {} (some ()) = .ok branchingMachine ∧
      (∃ c : Checkpoint Unit, c.Fits branchingMachine ∧ c.validate branchingMachine = .ok () ∧
        ¬ branchingMachine.chart.Legal (c.recorded branchingMachine)) ∧
      ∃ c : Checkpoint Unit, c.Fits branchingMachine ∧ c.validate branchingMachine = .ok () ∧
        ¬ Sensible branchingMachine.chart (c.recalled branchingMachine) := by
  refine ⟨build_branching, ?_, ?_⟩
  · refine ⟨branchingCheckpoint ["machine", "machine.x", "machine.y"] [],
      ⟨rfl, ⟨rfl, rfl⟩, by decide⟩, by decide, fun h => ?_⟩
    obtain ⟨child, _, hone⟩ := h.compound rootId (by decide) (by decide)
    have hx : 1 = child := hone 1 (by decide)
    have hy : 2 = child := hone 2 (by decide)
    exact absurd (hx.trans hy.symm) (by decide)
  · refine ⟨branchingCheckpoint ["machine", "machine.y"] [("machine.x", ["machine.y"])],
      ⟨rfl, ⟨rfl, rfl⟩, by decide⟩, by decide, fun h => ?_⟩
    have he : ((1, [2]) : NodeId × List NodeId) ∈
        ((branchingCheckpoint ["machine", "machine.y"] [("machine.x", ["machine.y"])]).recalled
          branchingMachine).entries := by decide
    exact absurd (h _ he).1 (by decide)

end Statechart.Checkpoint
