import Mathlib.Tactic.Common
import Statechart.Proofs.Configuration.Resolve
import Statechart.Proofs.Step.Targets

/-! Microsteps are local. What is not below the domain of any transition that is taken stays active
or inactive, and none of its actions is run, as long as no default leaves out a region of a parallel
state around it. -/

namespace Statechart

namespace Chart

variable {c : Chart} {s : Configuration} {memory : Memory} {n p x : NodeId} {kind : HistoryKind}
  {exiting : List NodeId}

def Recorded (c : Chart) (memory : Memory) : Prop :=
  ∀ h kind p, (c.node h).historyKind? = some kind → (c.node h).parent? = some p →
    ∀ refs, memory.get? h = some refs → ∃ s : Configuration,
      c.Legal s ∧ (∀ x ∈ s, x < c.size) ∧ p ∈ s ∧ refs = Run.remembered c s p kind

def Defaulted (c : Chart) : Prop :=
  ∀ h p, (c.node h).isHistory → (c.node h).parent? = some p → ∀ x ∈ (c.node h).historyDefault,
    ∀ a, c.Below x a → c.Below a p → (c.node a).isParallel →
      ∀ r ∈ c.regularChildren a, ∃ y ∈ (c.node h).historyDefault, c.Within y r

lemma recorded_empty : c.Recorded .empty := by
  intro h kind p _ _ refs hget
  exact absurd hget (by simp [SortedMap.get?, SortedMap.empty])

lemma Legal.full (ht : c.IsTree) (h : c.Legal s) (hs : ∀ x ∈ s, x < c.size) : c.Full s :=
  (full_iff_consistent ht hs).2 h.consistent

lemma Legal.exclusive (ht : c.IsTree) (h : c.Legal s) : c.Exclusive s := by
  have hmem : ∀ n, c.Touches s n → n ∈ s := fun n ⟨x, hx, hw⟩ => mem_of_within ht h.parent hx hw
  intro n hc a ha b hb hsa hsb
  have hn := h.parent a (hmem a hsa) n ((ht.mem_children a n).1 ha)
  exact (h.compound n hn hc).unique ⟨ha, hmem a hsa⟩ ⟨hb, hmem b hsb⟩

section

variable (hw : c.WellFormed) (hm : c.Recorded memory)

include hw hm

lemma Recorded.recordHistory (hs : c.Legal s) (hsize : ∀ x ∈ s, x < c.size)
    (he : ∀ n ∈ exiting, n ∈ s) : c.Recorded (Run.recordHistory c s exiting memory) := by
  intro h kind p hk hp refs hget
  rw [Run.get?_recordHistory hw.toIsTree memory exiting hk hp] at hget
  split at hget
  · rename_i hexit
    exact ⟨s, hs, hsize, he p hexit, (Option.some.inj hget).symm⟩
  · exact hm h kind p hk hp refs hget

lemma Recorded.historyTargets_cases (hh : (c.node n).isHistory)
    (hp : (c.node n).parent? = some p) :
    c.historyTargets memory n = (c.node n).historyDefault ∨
      ∃ (s : Configuration) (kind : HistoryKind), c.Legal s ∧ c.Full s ∧ p ∈ s ∧
        c.historyTargets memory n = Run.remembered c s p kind := by
  obtain ⟨kind, hk⟩ := StateNode.exists_historyKind? hh
  cases hget : memory.get? n with
  | none => exact .inl (by rw [historyTargets, hget, Option.getD_none])
  | some refs =>
    obtain ⟨s, hs, hsize, hps, he⟩ := hm n kind p hk hp refs hget
    refine .inr ⟨s, kind, hs, hs.full hw.toIsTree hsize, hps, ?_⟩
    rw [historyTargets, hget, Option.getD_some, he]

variable (hr : c.Recallable)

include hr

lemma Recorded.recalls : c.Recalls memory := by
  intro h p hh hp
  rcases hm.historyTargets_cases hw hh hp with he | ⟨s, kind, hs, hfull, hps, he⟩
  · rw [he]
    exact hr.default h p hh hp
  · rw [he]
    refine ⟨hfull.grounded.remembered_ne_nil hw hr hh hp (hfull.furnished p hps), fun x hx => ?_⟩
    obtain ⟨hxs, hb⟩ := Run.mem_of_mem_remembered hw.toIsTree hx
    exact ⟨hs.regular x hxs, hb⟩

lemma Recorded.guided (hd : c.Defaulted)
    (hspread : ∀ n, (c.node n).historyDefault.Pairwise c.Beside) : c.Guided memory := by
  have ht := hw.toIsTree
  refine ⟨fun h p hh hp => ?_, fun h p hh hp e he a hea hap hpar r hreg => ?_⟩ <;>
    rcases hm.historyTargets_cases hw hh hp with htargets | ⟨s, kind, hs, hfull, hps, htargets⟩
  · rw [htargets]
    exact hspread h
  · rw [htargets]
    exact ((hs.exclusive ht).coherent hfull.size).remembered_beside hw p kind
  · rw [htargets] at he ⊢
    exact hd h p hh hp e he a hea hap hpar r hreg
  · rw [htargets] at he ⊢
    exact hfull.grounded.remembered_saturated hw (fun a ha => hr.filled h p hh hp a ha.within) he
      hea hap hpar hreg

end

end Chart

namespace Machine

variable {C : Type} {m : Machine C} {s : MachineState C} {l : List TransitionRef}
  {r : TransitionRef} {d d' n x : NodeId}

namespace Ready

variable (hp : m.Ready s l)

include hp

lemma domain?_within (hr : r ∈ l) (hd : m.domain? s.history r = some d)
    (hd' : m.domain? (m.historyAfter s l) r = some d') : m.chart.Within d' d := by
  have ht := hp.isTree
  obtain ⟨_, hdom, _⟩ := domain?_spec ht hd
  obtain ⟨_, _, hinner'⟩ := domain?_spec ht hd'
  have hsource := hp.grounded.size _ (hp.source_mem hr)
  rcases Chart.within_connected ht (source_within_domain ht hsource hd')
    (source_within_domain ht hsource hd) with hw | hb
  · exact hw
  · rcases hdom with ⟨hscope, hall⟩ | rfl
    · have hafter : m.AllBelow (m.historyAfter s l) r d := (hp.allBelow_stable hr fun p hq hdp =>
        (hp.stays_of_within hr hd hdp.within).2 hq.1).2 hall
      exact absurd (hb.trans_within ht (hinner' d hscope hafter)) (Chart.not_below_self ht d)
    · exact absurd hb (Chart.not_below_root ht d')

variable (hg : m.chart.Guided (m.historyAfter s l))

include hg

lemma entrySet_comparable :
    ∀ x ∈ m.entrySet (m.historyAfter s l) l, ∃ r ∈ l, ∃ d,
      m.domain? (m.historyAfter s l) r = some d ∧
        (m.chart.Within x d ∨ m.chart.Within d x) := by
  rw [entrySet_eq_foldl]
  refine List.foldlRecOn (motive := fun s' : Configuration => ∀ x ∈ s', ∃ r ∈ l, ∃ d,
    m.domain? (m.historyAfter s l) r = some d ∧ (m.chart.Within x d ∨ m.chart.Within d x)) _ _
    (fun x hx => absurd hx (SortedSet.not_mem_empty x)) fun s' hs' r hr x hx => ?_
  cases hd : m.domain? (m.historyAfter s l) r with
  | none =>
    rw [enterTargets_of_none hp.wellFormed hp.recalls_after (hp.isTransition hr) hd] at hx
    exact hs' x hx
  | some d =>
    rcases enterTargets_comparable hp.wellFormed hp.recalls_after (hp.isTransition hr) hd hg x hx
      with hx | hx
    · exact hs' x hx
    · exact ⟨r, hr, d, hd, hx⟩

lemma stays_of_entered (hx : x ∈ m.entrySet (m.historyAfter s l) l)
    (hn : ∀ r ∈ l, ∀ d, m.domain? s.history r = some d → ¬ m.chart.Below x d) :
    x ∈ s.configuration ∧ x ∉ m.exitSetOf s.configuration s.history l := by
  have ht := hp.isTree
  obtain ⟨r, hr, d', hd', hx⟩ := hp.entrySet_comparable hg x hx
  obtain ⟨d, hd⟩ : ∃ d, m.domain? s.history r = some d := by
    apply Option.ne_none_iff_exists'.1
    rw [Ne, ← hp.domain?_eq_none_iff hr, hd']
    exact Option.some_ne_none d'
  have hdd := hp.domain?_within hr hd hd'
  apply hp.stays_of_within hr hd
  rcases hx with hx | hx
  · exact .inl ((hx.trans ht hdd).resolve_right (hn r hr d hd)).symm
  · exact (Chart.within_connected ht hdd hx).resolve_right (hn r hr d hd)

end Ready

def withActions (m : Machine C) (n : NodeId) (entry exit : List (Named (Action C))) : Machine C :=
  { m with parts := m.parts.modify n fun p => { p with entry, exit } }

variable {entry exit : List (Named (Action C))} {event : Event} {memory : Memory}

lemma partsOf_withActions (k : NodeId) :
    (m.withActions n entry exit).partsOf k = m.partsOf k ∨ k = n ∧
      (m.withActions n entry exit).partsOf k = { m.partsOf k with entry, exit } := by
  simp only [partsOf, withActions, List.getD_eq_getElem?_getD, List.getElem?_modify]
  cases m.parts[k]? with
  | none => exact .inl rfl
  | some parts =>
    by_cases hk : n = k
    · exact .inr ⟨hk.symm, by simp [hk]⟩
    · exact .inl (by simp [hk])

lemma partsOf_withActions_of_ne {k : NodeId} (h : k ≠ n) :
    (m.withActions n entry exit).partsOf k = m.partsOf k :=
  (partsOf_withActions k).resolve_right fun hk => h hk.1

lemma transitionAt_withActions (r : TransitionRef) :
    (m.withActions n entry exit).transitionAt r = m.transitionAt r := by
  rcases partsOf_withActions (m := m) (n := n) r.node with he | ⟨_, he⟩ <;>
    rw [transitionAt, transitionAt, he]

lemma targetsOf_withActions (r : TransitionRef) :
    (m.withActions n entry exit).targetsOf memory r = m.targetsOf memory r := by
  rw [targetsOf, targetsOf, transitionAt_withActions]
  rfl

lemma domain?_withActions (r : TransitionRef) :
    (m.withActions n entry exit).domain? memory r = m.domain? memory r := by
  simp only [domain?, targetsOf_withActions, transitionAt_withActions]
  rfl

lemma exitSetOf_withActions (conf : Configuration) :
    (m.withActions n entry exit).exitSetOf conf memory l = m.exitSetOf conf memory l := by
  simp only [exitSetOf, exitSet, domain?_withActions]
  rfl

lemma entrySet_withActions :
    (m.withActions n entry exit).entrySet memory l = m.entrySet memory l := by
  simp only [entrySet, transitionAt_withActions, targetsOf_withActions, domain?_withActions]
  rfl

end Machine

lemma bind_congr_ok {ε α β : Type} {x : Except ε α} {f g : α → Except ε β}
    (h : ∀ a, x = .ok a → f a = g a) : x >>= f = x >>= g := by
  cases x with
  | error e => rfl
  | ok a => exact h a rfl

namespace Run

variable {C : Type} {m : Machine C} {n k : NodeId} {entry exit : List (Named (Action C))}
  {event : Event} {r r' : Run C} {l : List NodeId}

lemma exitNodes_withActions (h : n ∉ l) :
    r.exitNodes (m.withActions n entry exit) event l = r.exitNodes m event l := by
  induction l generalizing r with
  | nil => rfl
  | cons k l ih =>
    rw [List.mem_cons, not_or] at h
    have hk : r.exitNode (m.withActions n entry exit) event k = r.exitNode m event k := by
      rw [exitNode, exitNode, Machine.partsOf_withActions_of_ne (Ne.symm h.1)]
      rfl
    rw [exitNodes, List.foldlM_cons, hk, exitNodes, List.foldlM_cons]
    exact congrArg _ (funext fun r => ih h.2)

lemma complete_withActions :
    r.complete (m.withActions n entry exit) event k = r.complete m event k := by
  rcases Machine.partsOf_withActions (m := m) (n := n) k with he | ⟨_, he⟩ <;>
  · rw [complete, complete, he]
    rfl

lemma enterNode_withActions (h : k = n → n ∈ r.state.configuration) :
    r.enterNode (m.withActions n entry exit) event k = r.enterNode m event k := by
  by_cases hk : k = n
  · rw [enterNode, enterNode, if_pos (hk ▸ h hk), if_pos (hk ▸ h hk)]
  · simp only [enterNode, Machine.partsOf_withActions_of_ne hk, complete_withActions]
    rfl

lemma mem_enterNode (hn : n ∈ r.state.configuration) (h : r.enterNode m event k = .ok r') :
    n ∈ r'.state.configuration := by
  have hall : r.enterNodes m event [k] = .ok r' := by
    rw [enterNodes, List.foldlM_cons, h]
    rfl
  exact ((enterNodes_mem hall).2 n).2 (.inl hn)

lemma enterNodes_withActions (h : n ∈ l → n ∈ r.state.configuration) :
    r.enterNodes (m.withActions n entry exit) event l = r.enterNodes m event l := by
  induction l generalizing r with
  | nil => rfl
  | cons k l ih =>
    have hk : r.enterNode (m.withActions n entry exit) event k = r.enterNode m event k :=
      enterNode_withActions fun he => h (he ▸ List.mem_cons_self)
    rw [enterNodes, List.foldlM_cons, hk, enterNodes, List.foldlM_cons]
    cases hr : r.enterNode m event k with
    | error e => rfl
    | ok r₁ => exact ih fun hn => mem_enterNode (h (List.mem_cons_of_mem _ hn)) hr

end Run

namespace Machine

variable {C : Type} {m : Machine C} {n : NodeId} {entry exit : List (Named (Action C))}
  {event : Event} {r : Run C} {l : List TransitionRef}

lemma microstep_withActions (hexit : n ∉ m.exitSetOf r.state.configuration r.state.history l)
    (hentry : n ∈ m.entrySet (m.historyAfter r.state l) l → n ∈ r.state.configuration) :
    (m.withActions n entry exit).microstep l event r = m.microstep l event r := by
  simp only [microstep, exitSetOf_withActions, entrySet_withActions, transitionAt_withActions]
  rw [Run.exitNodes_withActions (by simpa using hexit)]
  refine bind_congr_ok fun r₁ h₁ => bind_congr_ok fun r₂ h₂ => ?_
  have hu := Run.unmoved_foldlM (fun _ _ _ => Run.runActions_unmoved) h₂
  refine Run.enterNodes_withActions fun hn => ?_
  rw [hu.configuration, (Run.exitNodes_mem h₁).2]
  exact ⟨hentry hn, by simpa using hexit⟩

section

variable [JsonCoded C] {d : Definition} {b : Behaviors C} {context : Option C}

/-- A state that is not below the domain of any transition that is taken stays as it is, and taking
the transitions gives the same with any other actions on entering and leaving it. -/
theorem local_microstep (h : build d b context = .ok m) (hr : m.chart.Recallable)
    (hd : m.chart.Defaulted) (hs : m.chart.Legal r.state.configuration)
    (hsize : ∀ x ∈ r.state.configuration, x < m.chart.size)
    (hmem : m.chart.Recorded r.state.history) {eventless : Bool}
    (hl : m.select r.state event eventless = .ok l)
    (hn : ∀ ref ∈ l, ∀ d, m.domain? r.state.history ref = some d → ¬ m.chart.Below n d) :
    (∀ r', m.microstep l event r = .ok r' →
      (n ∈ r'.state.configuration ↔ n ∈ r.state.configuration)) ∧
      ∀ entry exit,
        (m.withActions n entry exit).microstep l event r = m.microstep l event r := by
  have hm := wellFormed_of_build h
  have ht := hm.chart.toIsTree
  have hfull := hs.full ht hsize
  have hcoherent := (hs.exclusive ht).coherent hsize
  have hrecalls := hmem.recalls hm.chart hr
  have hguided := (hmem.guided hm.chart hr hd (spread_default h)).recordHistory hm.chart hr
    hfull.grounded hcoherent (m.exitSetOf r.state.configuration r.state.history l).elems
  have hc := compatible_of_select hl
  have hexit : n ∉ m.exitSetOf r.state.configuration r.state.history l := by
    intro hx
    obtain ⟨ref, href, hx⟩ := mem_exitSetOf.1 hx
    obtain ⟨_, d, hd, hb⟩ := (mem_exitSet ht).1 hx
    exact hn ref href d hd hb
  have hentry : n ∈ m.entrySet (m.historyAfter r.state l) l → n ∈ r.state.configuration := by
    intro hx
    cases ha : (m.chart.node rootId).isAtomic with
    | true =>
      have hlt := entrySet_lt hm (recalls_step hm hr hfull.grounded hrecalls)
        (fun _ href => hc.isTransition href) hx
      rw [Chart.eq_root_of_isAtomic hm.chart ha hlt]
      exact hs.root
    | false =>
      have hp : m.Ready r.state l := ⟨hm, hr, ha, hfull.grounded, hrecalls, hc⟩
      exact (hp.stays_of_entered hguided hx hn).1
  refine ⟨fun r' hr' => ?_, fun entry exit => microstep_withActions hexit hentry⟩
  rw [(microstep_mem hr').2]
  exact ⟨fun hx => hx.elim And.left hentry, fun hx => .inl ⟨hx, hexit⟩⟩

def mending : Definition := .ofRoot
  { initial := some "both"
    states := [
      ("both", {
        type := some .parallel
        states := [
          ("left", {
            initial := some "work"
            states := [
              ("work", {
                initial := some "first"
                on := .ofList [("REST", [{ target := ["rest"] }])]
                states := [
                  ("first", { on := .ofList [("GO", [{ target := ["second"] }])] }),
                  ("second", {}),
                  ("last", { history := some (.kind .deep) })] }),
              ("rest", { on := .ofList [("BACK", [{ target := ["work.last"] }])] })] }),
          ("right", {})] })] }

def mendingMachine : Machine Unit := assemble mending () (link mending {}).value

lemma build_mending : build mending {} (some ()) = .ok mendingMachine := rfl

def mendingRun : Run Unit := .start
  { configuration := .ofList [0, 1, 2, 7, 8]
    context := ()
    history := Run.recordHistory mendingMachine.chart (.ofList [0, 1, 2, 3, 5, 8]) [3] .empty }

theorem mending_local :
    ∃ r', mendingMachine.microstep [⟨7, 0⟩] (.ofType "BACK") mendingRun = .ok r' ∧
      r'.state.configuration.elems = [0, 1, 2, 3, 5, 8] ∧
      (8 ∈ r'.state.configuration ↔ 8 ∈ mendingRun.state.configuration) ∧
      ∀ entry exit, (mendingMachine.withActions 8 entry exit).microstep [⟨7, 0⟩] (.ofType "BACK")
        mendingRun = .ok r' := by
  have hw := (wellFormed_of_build build_mending).chart
  have hdirect := Chart.forall_node (c := mendingMachine.chart)
    (P := fun _ node => node.isHistory → ∀ p ∈ node.parent?, ∀ x ∈ node.historyDefault,
      ∀ a ∈ (mendingMachine.chart.node x).ancestors, mendingMachine.chart.Below a p →
        (mendingMachine.chart.node a).isParallel = false)
    (by decide) fun _ h => absurd h (by decide)
  have hrecorded : mendingMachine.chart.Recorded mendingRun.state.history :=
    (Chart.recorded_empty).recordHistory hw (by decide) (by decide) (by decide)
  have hl : mendingMachine.select mendingRun.state (.ofType "BACK") false = .ok [⟨7, 0⟩] := rfl
  have hrun : (mendingMachine.microstep [⟨7, 0⟩] (.ofType "BACK") mendingRun).toOption.map
      (fun r => r.state.configuration.elems) = some [0, 1, 2, 3, 5, 8] := by decide +kernel
  obtain ⟨r', hr, he⟩ := Option.map_eq_some_iff.1 hrun
  have hr := eq_ok_of_toOption hr
  have hlocal := local_microstep (n := 8) (r := mendingRun) build_mending
    (Chart.recallable_of_ids (by decide))
    (fun n p hh hp x hx a hxa hap hpar =>
      absurd ((hdirect n hh p hp x hx a hxa hap).symm.trans hpar) Bool.false_ne_true)
    (by decide) (by decide) hrecorded hl (by decide)
  exact ⟨r', hr, he, hlocal.1 r' hr, fun entry exit => (hlocal.2 entry exit).trans hr⟩

def spilling : Definition := .ofRoot
  { initial := some "outer"
    states := [
      ("outer", {
        initial := some "both"
        states := [
          ("both", {
            type := some .parallel
            states := [
              ("left", {
                initial := some "x"
                states := [
                  ("x", { on := .ofList [("GO", [{ target := ["#machine.outer.last"] }])] }),
                  ("y", {})] }),
              ("right", { initial := some "x", states := [("x", {}), ("y", {})] })] }),
          ("last", { history := some (.kind .deep), target := some "#machine.outer.both.left.y" })]
        })] }

def spillingMachine : Machine Unit := assemble spilling () (link spilling {}).value

lemma build_spilling : build spilling {} (some ()) = .ok spillingMachine := rfl

def spillingRun : Run Unit := .start ⟨.ofList [0, 1, 2, 3, 4, 6, 8], (), .empty⟩

theorem spilling_enters_beside :
    ¬ ∀ (d : Definition) (b : Behaviors Unit) (context : Option Unit) (m : Machine Unit),
      build d b context = .ok m → ∀ (r : Run Unit) (l : List TransitionRef) (event : Event)
        (n : NodeId), m.chart.Legal r.state.configuration →
          (∀ x ∈ r.state.configuration, x < m.chart.size) → m.chart.Recorded r.state.history →
            m.select r.state event false = .ok l →
              (∀ ref ∈ l, ∀ d, m.domain? r.state.history ref = some d → ¬ m.chart.Below n d) →
                ∀ r', m.microstep l event r = .ok r' →
                  (n ∈ r'.state.configuration ↔ n ∈ r.state.configuration) := by
  intro h
  have hlegal : spillingMachine.chart.Legal spillingRun.state.configuration := by decide
  have hsize : ∀ x ∈ spillingRun.state.configuration, x < spillingMachine.chart.size := by decide
  have hl : spillingMachine.select spillingRun.state (.ofType "GO") false = .ok [⟨4, 0⟩] := rfl
  have hbeside : ∀ ref ∈ [(⟨4, 0⟩ : TransitionRef)], ∀ d,
      spillingMachine.domain? spillingRun.state.history ref = some d →
        ¬ spillingMachine.chart.Below 7 d := by decide
  have hrun : (spillingMachine.microstep [⟨4, 0⟩] (.ofType "GO") spillingRun).toOption.map
      (fun r => r.state.configuration.elems) = some [0, 1, 2, 3, 5, 6, 7, 8] := by decide +kernel
  obtain ⟨r', hr, he⟩ := Option.map_eq_some_iff.1 hrun
  have hiff := h spilling {} (some ()) spillingMachine build_spilling spillingRun _ _ 7 hlegal
    hsize Chart.recorded_empty hl hbeside r' (eq_ok_of_toOption hr)
  rw [← SortedSet.mem_elems, he] at hiff
  exact absurd hiff (by decide)

end

end Machine

end Statechart
