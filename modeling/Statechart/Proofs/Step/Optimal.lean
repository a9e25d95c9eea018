import Mathlib.Tactic.Common
import Statechart.Proofs.Step.Priority

/-! Conflicts between the transitions that active atomic states prefer. What is not selected exits a
state in common with a selected transition, and that one outranks it. -/

namespace Statechart

namespace Machine

variable {C : Type} {m : Machine C} {s : MachineState C} {event : Event} {eventless : Bool}
  {r r' k : TransitionRef} {refs done kept : List TransitionRef} {n : NodeId}

def Earlier (m : Machine C) (s : MachineState C) (event : Event) (eventless : Bool)
    (r r' : TransitionRef) : Prop :=
  ∃ n ∈ m.chart.atomicNodes s.configuration, m.Prefers s event eventless n r ∧
    ∀ n' ∈ m.chart.atomicNodes s.configuration, m.Prefers s event eventless n' r' → n < n'

/-- The source of `k` is further in, or `k` is earlier and not further out. -/
def Outranks (m : Machine C) (s : MachineState C) (event : Event) (eventless : Bool)
    (k r : TransitionRef) : Prop :=
  m.chart.Below (m.transitionAt k).source (m.transitionAt r).source ∨
    m.Earlier s event eventless k r ∧
      ¬ m.chart.Below (m.transitionAt r).source (m.transitionAt k).source

lemma mem_chosen_iff (ht : m.chart.IsTree) {l : List NodeId}
    (h : m.chosen s event eventless l = .ok refs) :
    r ∈ refs ↔ ∃ n ∈ l, m.Prefers s event eventless n r := by
  induction l generalizing refs with
  | nil =>
    obtain rfl : [] = refs := by simpa [chosen] using h
    simp
  | cons n l ih =>
    obtain ⟨first, hfirst, h⟩ := bind_eq_ok h
    obtain ⟨others, hothers, h⟩ := bind_eq_ok h
    have hn : m.Prefers s event eventless n r ↔ first = some r :=
      ⟨fun hp => hp.eq_some ht hfirst, fun he => prefers_of_chosenFor? ht (he ▸ hfirst)⟩
    rw [List.exists_mem_cons_iff, hn, ← ih hothers]
    cases first with
    | none =>
      obtain rfl : others = refs := by simpa [pure, Except.pure] using h
      simp
    | some f =>
      obtain rfl : f :: others.filter (· ≠ f) = refs := by simpa [pure, Except.pure] using h
      by_cases he : r = f
      · simp [he]
      · simp [he, Ne.symm he]

lemma chosen_pairwise (ht : m.chart.IsTree) {l : List NodeId} (hl : l.Pairwise (· < ·))
    (h : m.chosen s event eventless l = .ok refs) :
    refs.Pairwise fun r r' => ∃ n ∈ l, m.Prefers s event eventless n r ∧
      ∀ n' ∈ l, m.Prefers s event eventless n' r' → n < n' := by
  induction l generalizing refs with
  | nil =>
    obtain rfl : [] = refs := by simpa [chosen] using h
    exact List.Pairwise.nil
  | cons n l ih =>
    obtain ⟨first, hfirst, h⟩ := bind_eq_ok h
    obtain ⟨others, hothers, h⟩ := bind_eq_ok h
    obtain ⟨hlt, hl⟩ := List.pairwise_cons.1 hl
    have hrest : others.Pairwise fun r r' => first ≠ some r' →
        ∃ n' ∈ n :: l, m.Prefers s event eventless n' r ∧
          ∀ n'' ∈ n :: l, m.Prefers s event eventless n'' r' → n' < n'' := by
      refine (ih hl hothers).imp fun {r r'} hrr hne => ?_
      obtain ⟨n', hn', hp, hall⟩ := hrr
      refine ⟨n', List.mem_cons_of_mem _ hn', hp, fun n'' hn'' hp' => ?_⟩
      rcases List.mem_cons.1 hn'' with rfl | hn''
      · exact absurd (hp'.eq_some ht hfirst) hne
      · exact hall n'' hn'' hp'
    cases first with
    | none =>
      obtain rfl : others = refs := by simpa [pure, Except.pure] using h
      exact hrest.imp fun hrr => hrr (by simp)
    | some f =>
      obtain rfl : f :: others.filter (· ≠ f) = refs := by simpa [pure, Except.pure] using h
      have hne : ∀ r ∈ others.filter (· ≠ f), f ≠ r := fun r hr =>
        (of_decide_eq_true (List.mem_filter.1 hr).2 : r ≠ f).symm
      refine List.pairwise_cons.2 ⟨fun r hr => ?_, ?_⟩
      · refine ⟨n, List.mem_cons_self, prefers_of_chosenFor? ht hfirst, fun n' hn' hp => ?_⟩
        rcases List.mem_cons.1 hn' with rfl | hn'
        · exact absurd (Option.some.inj (hp.eq_some ht hfirst)) (hne r hr)
        · exact hlt n' hn'
      · exact (hrest.filter _).imp_of_mem fun _ hr' hrr =>
          hrr fun he => hne _ hr' (Option.some.inj he)

lemma earlier_irrefl : ¬ m.Earlier s event eventless r r := by
  rintro ⟨n, hn, hp, hall⟩
  exact Nat.lt_irrefl n (hall n hn hp)

lemma Listens.isTransition (h : m.Listens event eventless r) : m.IsTransition r :=
  isTransition_of_lt h.1

lemma Prefers.isTransition (h : m.Prefers s event eventless n r) : m.IsTransition r :=
  h.listens.isTransition

section

variable (hm : m.WellFormed)

include hm

lemma Prefers.source (h : m.Prefers s event eventless n r) :
    (m.transitionAt r).source = r.node ∧ r.node < m.chart.size := by
  obtain ⟨hs, hlt, _⟩ := hm.transition r.node _ h.isTransition
  exact ⟨hs, hlt⟩

lemma Prefers.within_source (h : m.Prefers s event eventless n r) :
    m.chart.Within n (m.transitionAt r).source := by
  rw [(h.source hm).1]
  exact h.around

lemma Prefers.source_within {memory : Memory} {d : NodeId}
    (h : m.Prefers s event eventless n r) (hd : m.domain? memory r = some d) :
    m.chart.Within (m.transitionAt r).source d := by
  obtain ⟨hs, hlt⟩ := h.source hm
  exact source_within_domain hm.chart.toIsTree (hs ▸ hlt) hd

lemma Prefers.not_apart {memory : Memory} {d d' : NodeId} (h : m.Prefers s event eventless n r)
    (hn : n ∈ m.chart.atomicNodes s.configuration) (h' : m.Prefers s event eventless n' r')
    (hd : m.domain? memory r = some d) (hd' : m.domain? memory r' = some d')
    (hb : m.chart.Below (m.transitionAt r).source (m.transitionAt r').source) :
    ¬ m.Apart s.configuration memory r r' := by
  have ht := hm.chart.toIsTree
  obtain ⟨hn, hatomic⟩ := List.mem_filter.1 hn
  have hinner := (h.within_source hm).trans_below ht hb
  have hnd' := hinner.trans_within ht (h'.source_within hm hd')
  have hnd : m.chart.Below n d := by
    refine below_domain_of_isAtomic ht hd hatomic ?_
      ((h.within_source hm).trans ht (h.source_within hm hd))
    rintro rfl
    exact Chart.not_below_root ht _ hinner
  exact fun hapart => hapart n ((mem_exitSet ht).2 ⟨hn, d, hd, hnd⟩)
    ((mem_exitSet ht).2 ⟨hn, d', hd', hnd'⟩)

omit hm in
lemma exists_domain_of_not_apart (ht : m.chart.IsTree) {memory : Memory} {conf : Configuration}
    (h : ¬ m.Apart conf memory r r') :
    (∃ d, m.domain? memory r = some d) ∧ ∃ d, m.domain? memory r' = some d := by
  simp only [Apart, not_forall, not_not] at h
  obtain ⟨x, hx, hx'⟩ := h
  obtain ⟨_, d, hd, _⟩ := (mem_exitSet ht).1 hx
  obtain ⟨_, d', hd', _⟩ := (mem_exitSet ht).1 hx'
  exact ⟨⟨d, hd⟩, d', hd'⟩

lemma Outranks.below (h : m.Outranks s event eventless k r)
    (hlater : m.Earlier s event eventless r r') (hn' : n' ∈ m.chart.atomicNodes s.configuration)
    (hp' : m.Prefers s event eventless n' r')
    (hb : m.chart.Below (m.transitionAt r').source (m.transitionAt k).source) :
    m.chart.Below (m.transitionAt r').source (m.transitionAt r).source := by
  have ht := hm.chart.toIsTree
  rcases h with hkr | ⟨⟨n, hn, hp, hall⟩, hnot⟩
  · exact hb.trans ht hkr
  · obtain ⟨n₁, hn₁, hp₁, hall₁⟩ := hlater
    have hlast := ((hp'.within_source hm).trans_below ht hb).within
    have hbetween := Chart.below_of_between ht (hp.within_source hm) hlast (hall n₁ hn₁ hp₁)
      (hall₁ n' hn' hp')
    rcases Chart.within_connected ht (hp₁.within_source hm) hbetween.within with (he | hw) | hw
    · rwa [he]
    · exact absurd hw hnot
    · exact hb.trans ht hw

structure Settles (m : Machine C) (s : MachineState C) (event : Event) (eventless : Bool)
    (done kept : List TransitionRef) : Prop where
  subset : ∀ k ∈ kept, k ∈ done
  beaten : ∀ r ∈ done, r ∉ kept →
    ∃ k ∈ kept, ¬ m.Apart s.configuration s.history k r ∧ m.Outranks s event eventless k r

omit hm in
lemma meets_iff {memory : Memory} {conf : Configuration} :
    ((m.exitSet conf memory k).elems.any (· ∈ m.exitSet conf memory r)) = true ↔
      ¬ m.Apart conf memory k r := by
  simp [Apart]

omit hm in
lemma keep_cases (ht : m.chart.IsTree) (conf : Configuration) (memory : Memory)
    (kept : List TransitionRef) (r : TransitionRef) :
    (m.keep conf memory kept r = kept ∧ ∃ k ∈ kept, ¬ m.Apart conf memory k r ∧
        ¬ m.chart.Below (m.transitionAt r).source (m.transitionAt k).source) ∨
      (∀ k, k ∈ m.keep conf memory kept r ↔ k ∈ kept ∧ m.Apart conf memory k r ∨ k = r) ∧
        ∀ k ∈ kept, ¬ m.Apart conf memory k r →
          m.chart.Below (m.transitionAt r).source (m.transitionAt k).source := by
  simp only [keep]
  split
  · rename_i hall
    refine .inr ⟨fun k => ?_, fun k hk hkr => ?_⟩
    · simp [Apart]
    · have hmem := List.all_eq_true.1 hall k (List.mem_filter.2 ⟨hk, meets_iff.2 hkr⟩)
      exact (ht.isDescendant_iff _ _).1 hmem
  · rename_i hall
    refine .inl ⟨rfl, ?_⟩
    simp only [List.all_eq_true, not_forall] at hall
    obtain ⟨k, hk, hnot⟩ := hall
    obtain ⟨hk, hkr⟩ := List.mem_filter.1 hk
    exact ⟨k, hk, meets_iff.1 hkr, mt (ht.isDescendant_iff _ _).2 hnot⟩

lemma Settles.keep (h : m.Settles s event eventless done kept)
    (hdone : ∀ k ∈ done, m.Earlier s event eventless k r)
    (hprefers : ∀ k ∈ done ++ [r], ∃ n ∈ m.chart.atomicNodes s.configuration,
      m.Prefers s event eventless n k) :
    m.Settles s event eventless (done ++ [r]) (m.keep s.configuration s.history kept r) := by
  have ht := hm.chart.toIsTree
  obtain ⟨n, hn, hp⟩ := hprefers r (List.mem_append_right _ List.mem_cons_self)
  have hlast : ∀ k ∈ done ++ [r], k ∈ done ∨ k = r := by simp
  rcases keep_cases ht s.configuration s.history kept r with
    ⟨hkeep, k, hk, hkr, hnot⟩ | ⟨hkeep, hinner⟩
  · rw [hkeep]
    refine ⟨fun k' hk' => List.mem_append_left _ (h.subset k' hk'), fun r' hr' hr'k => ?_⟩
    rcases hlast r' hr' with hr' | rfl
    · exact h.beaten r' hr' hr'k
    · exact ⟨k, hk, hkr, .inr ⟨hdone k (h.subset k hk), hnot⟩⟩
  · refine ⟨fun k hk => ?_, fun r' hr' hr'k => ?_⟩
    · rcases (hkeep k).1 hk with ⟨hk, _⟩ | rfl
      · exact List.mem_append_left _ (h.subset k hk)
      · exact List.mem_append_right _ List.mem_cons_self
    have hr : r ∈ m.keep s.configuration s.history kept r := (hkeep r).2 (.inr rfl)
    have hr'done : r' ∈ done := (hlast r' hr').resolve_right fun he => hr'k (he ▸ hr)
    by_cases hmem : r' ∈ kept
    · have hmeets : ¬ m.Apart s.configuration s.history r' r := fun hapart =>
        hr'k ((hkeep r').2 (.inl ⟨hmem, hapart⟩))
      exact ⟨r, hr, mt symm hmeets, .inl (hinner r' hmem hmeets)⟩
    · obtain ⟨k, hk, hkr', hrank⟩ := h.beaten r' hr'done hmem
      by_cases hkr : m.Apart s.configuration s.history k r
      · exact ⟨k, (hkeep k).2 (.inl ⟨hk, hkr⟩), hkr', hrank⟩
      -- what displaces `k` is further in than all that `k` outranks
      · have hb := hrank.below hm (hdone r' hr'done) hn hp (hinner k hk hkr)
        obtain ⟨n', _, hp'⟩ := hprefers r' hr'
        obtain ⟨_, d, hd⟩ := exists_domain_of_not_apart ht hkr
        obtain ⟨_, d', hd'⟩ := exists_domain_of_not_apart ht hkr'
        exact ⟨r, hr, hp.not_apart hm hn hp' hd hd' hb, .inl hb⟩

lemma settles_removeConflicts (hrefs : refs.Pairwise (m.Earlier s event eventless))
    (hprefers : ∀ r ∈ refs, ∃ n ∈ m.chart.atomicNodes s.configuration,
      m.Prefers s event eventless n r) :
    m.Settles s event eventless refs (m.removeConflicts s.configuration s.history refs) := by
  suffices ∀ done kept rest, done ++ rest = refs → m.Settles s event eventless done kept →
      m.Settles s event eventless refs (rest.foldl (m.keep s.configuration s.history) kept) from
    this [] [] refs rfl ⟨fun _ hk => hk, fun _ hr => absurd hr List.not_mem_nil⟩
  intro done kept rest hsplit h
  induction rest generalizing done kept with
  | nil =>
    rw [List.append_nil] at hsplit
    exact hsplit ▸ h
  | cons r rest ih =>
    rw [List.append_cons] at hsplit
    apply ih _ _ hsplit
    subst hsplit
    have hdone := (List.pairwise_append.1 (List.pairwise_append.1 hrefs).1).2.2
    apply h.keep hm
    · exact fun k hk => hdone k hk r List.mem_cons_self
    · exact fun k hk => hprefers k (List.mem_append_left _ hk)

end

lemma keep_sublist (conf : Configuration) (memory : Memory) (kept : List TransitionRef)
    (r : TransitionRef) : (m.keep conf memory kept r).Sublist (kept ++ [r]) := by
  simp only [keep]
  split
  · exact List.filter_sublist.append_right [r]
  · exact List.sublist_append_left kept [r]

lemma removeConflicts_sublist (conf : Configuration) (memory : Memory)
    (refs : List TransitionRef) : (m.removeConflicts conf memory refs).Sublist refs := by
  suffices ∀ kept, (refs.foldl (m.keep conf memory) kept).Sublist (kept ++ refs) from this []
  induction refs with
  | nil => exact fun kept => List.sublist_append_left kept []
  | cons r refs ih =>
    intro kept
    rw [List.append_cons]
    exact (ih _).trans ((keep_sublist conf memory kept r).append_right refs)

/-- The selected transitions part ways, each is preferred by an active atomic state, and one that
is preferred but not selected gives way to a selected one that outranks it. -/
theorem optimal_of_select [JsonCoded C] {d : Definition} {b : Behaviors C} {context : Option C}
    {l : List TransitionRef} (h : build d b context = .ok m)
    (hl : m.select s event eventless = .ok l) :
    l.Nodup ∧ l.Pairwise (m.Apart s.configuration s.history) ∧
      (∀ r ∈ l, ∃ n ∈ m.chart.atomicNodes s.configuration, m.Prefers s event eventless n r) ∧
      ∀ n ∈ m.chart.atomicNodes s.configuration, ∀ r, m.Prefers s event eventless n r → r ∉ l →
        ∃ k ∈ l, ¬ m.Apart s.configuration s.history k r ∧ m.Outranks s event eventless k r := by
  have hm := wellFormed_of_build h
  have ht := hm.chart.toIsTree
  obtain ⟨refs, hrefs, hl⟩ := bind_eq_ok hl
  obtain rfl : m.removeConflicts s.configuration s.history refs = l := by
    simpa [pure, Except.pure] using hl
  have hsorted : (m.chart.atomicNodes s.configuration).Pairwise (· < ·) :=
    s.configuration.sorted.filter _
  have hpair : refs.Pairwise (m.Earlier s event eventless) := chosen_pairwise ht hsorted hrefs
  have hmem := fun r => mem_chosen_iff (r := r) ht hrefs
  have hsettles := settles_removeConflicts hm hpair fun r hr => (hmem r).1 hr
  refine ⟨?_, removeConflicts_apart refs, fun r hr => ?_, fun n hn r hp hr => ?_⟩
  · apply (removeConflicts_sublist _ _ refs).nodup
    refine hpair.imp fun {r r'} hrr => ?_
    rintro rfl
    exact earlier_irrefl hrr
  · exact (hmem r).1 (hsettles.subset r hr)
  · exact hsettles.beaten r ((hmem r).2 ⟨n, hn, hp⟩) hr

def escaping : Definition := .ofRoot
  { initial := some "both"
    states := [
      ("both", {
        type := some .parallel
        on := .ofList [("ALARM", [{ target := ["south"] }])]
        states := [
          ("left", {}),
          ("right", { on := .ofList [("ALARM", [{ target := ["#machine.north"] }])] }),
          ("far", { on := .ofList [("ALARM", [{ target := ["#machine.south"] }])] })] }),
      ("north", {}),
      ("south", {})] }

def escapingMachine : Machine Unit := assemble escaping () (link escaping {}).value

lemma build_escaping : build escaping {} (some ()) = .ok escapingMachine := rfl

def escapingState : MachineState Unit := ⟨.ofList [0, 1, 2, 3, 4], (), .empty⟩

theorem escaping_optimal :
    escapingMachine.select escapingState (.ofType "ALARM") false = .ok [⟨3, 0⟩] ∧
      escapingMachine.Outranks escapingState (.ofType "ALARM") false ⟨3, 0⟩ ⟨1, 0⟩ ∧
      escapingMachine.Outranks escapingState (.ofType "ALARM") false ⟨3, 0⟩ ⟨4, 0⟩ := by
  have ht := (wellFormed_of_build build_escaping).chart.toIsTree
  have hl : escapingMachine.select escapingState (.ofType "ALARM") false = .ok [⟨3, 0⟩] := rfl
  obtain ⟨_, _, _, hbeaten⟩ := optimal_of_select build_escaping hl
  have hleft : escapingMachine.Prefers escapingState (.ofType "ALARM") false 2 ⟨1, 0⟩ :=
    prefers_of_chosenFor? ht rfl
  have hfar : escapingMachine.Prefers escapingState (.ofType "ALARM") false 4 ⟨4, 0⟩ :=
    prefers_of_chosenFor? ht rfl
  refine ⟨hl, ?_, ?_⟩
  · obtain ⟨k, hk, _, hrank⟩ := hbeaten 2 (by decide) ⟨1, 0⟩ hleft (by decide)
    exact List.mem_singleton.1 hk ▸ hrank
  · obtain ⟨k, hk, _, hrank⟩ := hbeaten 4 (by decide) ⟨4, 0⟩ hfar (by decide)
    exact List.mem_singleton.1 hk ▸ hrank

end Machine

end Statechart
