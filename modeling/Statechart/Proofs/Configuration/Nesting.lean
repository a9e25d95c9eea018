import Mathlib.Data.List.ProdSigma
import Mathlib.Tactic.Common
import Statechart.Proofs.Configuration.Calls

/-! Entering as a recursion that need not end. Cut off at some depth it gives nothing, and where it
ends it does so within `entryDepth`, since the set has grown between two calls for one state. -/

namespace Statechart.Chart

/-- What entering a state comes down to. A region is filled unless something below it is entered. -/
inductive Piece where
  | add (n : NodeId)
  | enter (n : NodeId)
  | fill (n : NodeId)
  deriving DecidableEq

namespace Piece

def node : Piece → NodeId
  | add n => n
  | enter n => n
  | fill n => n

def run (c : Chart) (enter : Configuration → NodeId → Configuration) (s : Configuration) :
    Piece → Configuration
  | add n => s.insert n
  | .enter n => enter s n
  | fill n => if c.hasDescendant s n then s else enter s n

def run? (c : Chart) (enter : Configuration → NodeId → Option Configuration)
    (s : Configuration) : Piece → Option Configuration
  | add n => some (s.insert n)
  | .enter n => enter s n
  | fill n => if c.hasDescendant s n then some s else enter s n

end Piece

def regionPieces (c : Chart) (n : NodeId) : List Piece := (c.regularChildren n).map .fill

def ancestorPieces (c : Chart) (n : NodeId) (stop : Option NodeId) : List Piece :=
  (c.ancestorsBelow n stop).flatMap fun a =>
    .add a :: if (c.node a).isParallel then c.regionPieces a else []

def pieces (c : Chart) (memory : Memory) (n : NodeId) : List Piece :=
  if (c.node n).isHistory then
    let targets := c.historyTargets memory n
    targets.map .enter ++ targets.flatMap fun t => c.ancestorPieces t (c.node n).parent?
  else .add n ::
    if (c.node n).isCompound then
      match (c.node n).initial with
      | none => []
      | some initial => .enter initial :: c.ancestorPieces initial (some n)
    else if (c.node n).isParallel then c.regionPieces n
    else []

def enterWithin? (c : Chart) (memory : Memory) : Nat → Configuration → NodeId → Option Configuration
  | 0, _, _ => none
  | depth + 1, s, n => (c.pieces memory n).foldlM (Piece.run? c (c.enterWithin? memory depth)) s

def expandWithin? (c : Chart) (memory : Memory) : Nat → NodeId → Option (List NodeId)
  | 0, _ => none
  | depth + 1, n =>
    if (c.node n).isHistory then
      (c.historyTargets memory n).foldlM
        (fun tops t => (c.expandWithin? memory depth t).map (tops ++ ·)) []
    else some [n]

def Expands (c : Chart) (memory : Memory) (n : NodeId) : Prop :=
  ∃ depth, (c.expandWithin? memory depth n).isSome

variable {c : Chart} {memory : Memory} {s s' : Configuration} {n x : NodeId} {k k' : Nat}
  {stop : Option NodeId} {p : Piece} {tops : List NodeId}

section

variable {enter : Configuration → NodeId → Configuration}

lemma foldl_regionPieces :
    (c.regionPieces n).foldl (Piece.run c enter) s = c.fillRegions enter s n :=
  List.foldl_map

lemma foldl_ancestorPieces :
    (c.ancestorPieces n stop).foldl (Piece.run c enter) s = c.addAncestors enter s n stop := by
  rw [ancestorPieces, List.foldl_flatMap]
  refine List.foldl_ext _ _ _ fun s a _ => ?_
  rw [List.foldl_cons, Piece.run]
  by_cases hp : (c.node a).isParallel
  · rw [if_pos hp, if_pos hp, foldl_regionPieces]
  · rw [if_neg hp, if_neg hp, List.foldl_nil]

end

lemma enterWithin_succ : c.enterWithin memory (k + 1) s n =
    (c.pieces memory n).foldl (Piece.run c (c.enterWithin memory k)) s := by
  rw [enterWithin, pieces]
  by_cases hh : (c.node n).isHistory
  · rw [if_pos hh, if_pos hh, List.foldl_append, List.foldl_map, List.foldl_flatMap]
    exact List.foldl_ext _ _ _ fun s t _ => foldl_ancestorPieces.symm
  rw [if_neg hh, if_neg hh, List.foldl_cons]
  by_cases hc : (c.node n).isCompound
  · rw [if_pos hc, if_pos hc]
    cases (c.node n).initial with
    | none => rfl
    | some i => exact foldl_ancestorPieces.symm
  rw [if_neg hc, if_neg hc]
  by_cases hp : (c.node n).isParallel
  · rw [if_pos hp, if_pos hp]
    exact foldl_regionPieces.symm
  · rw [if_neg hp, if_neg hp]
    rfl

section

variable {α σ : Type} {f g : σ → α → Option σ} {l : List α} {a b : σ}

lemma foldlM_of_agrees (h : ∀ x ∈ l, ∀ a b, f a x = some b → g a x = some b)
    (hf : l.foldlM f a = some b) : l.foldlM g a = some b := by
  induction l generalizing a with
  | nil => exact hf
  | cons x l ih =>
    rw [List.foldlM_cons] at hf ⊢
    obtain ⟨a', ha', hf⟩ := Option.bind_eq_some_iff.1 hf
    rw [h x List.mem_cons_self a a' ha']
    exact ih (fun y hy => h y (List.mem_cons_of_mem _ hy)) hf

lemma foldl_of_agrees {g : σ → α → σ} (h : ∀ x ∈ l, ∀ a b, f a x = some b → g a x = b)
    (hf : l.foldlM f a = some b) : l.foldl g a = b := by
  have hpure : l.foldlM (fun a x => pure (g a x)) a = some b :=
    foldlM_of_agrees (fun x hx a b hab => congrArg some (h x hx a b hab)) hf
  rw [List.foldlM_pure] at hpure
  exact Option.some.inj hpure

lemma isSome_foldlM (h : ∀ x ∈ l, ∀ a, (f a x).isSome) (a : σ) : (l.foldlM f a).isSome := by
  induction l generalizing a with
  | nil => rfl
  | cons x l ih =>
    obtain ⟨b, hb⟩ := Option.isSome_iff_exists.1 (h x List.mem_cons_self a)
    rw [List.foldlM_cons, hb]
    exact ih (fun y hy => h y (List.mem_cons_of_mem _ hy)) b

lemma foldlM_eq_none {x : α} (hx : x ∈ l) (h : ∀ a, f a x = none) : l.foldlM f a = none := by
  induction l generalizing a with
  | nil => exact absurd hx List.not_mem_nil
  | cons y l ih =>
    rw [List.foldlM_cons]
    rcases List.mem_cons.1 hx with rfl | hx
    · rw [h a]
      rfl
    · cases f a y with
      | none => rfl
      | some b => exact ih hx

lemma exists_of_foldlM_eq_none {I : σ → Prop} (hI : I a)
    (hstep : ∀ x ∈ l, ∀ a b, I a → g a x = some b → I b)
    (h : ∀ x ∈ l, ∀ a b, f a x = some b → g a x = some b) (hf : l.foldlM f a = none)
    (hg : l.foldlM g a = some b) : ∃ x ∈ l, ∃ a, I a ∧ f a x = none ∧ (g a x).isSome := by
  induction l generalizing a with
  | nil => exact absurd hf (Option.some_ne_none a)
  | cons x l ih =>
    rw [List.foldlM_cons] at hf hg
    obtain ⟨a', ha', hg⟩ := Option.bind_eq_some_iff.1 hg
    cases hfx : f a x with
    | none => exact ⟨x, List.mem_cons_self, a, hI, hfx, Option.isSome_of_eq_some ha'⟩
    | some a'' =>
      obtain rfl := Option.some.inj ((h x List.mem_cons_self a a'' hfx).symm.trans ha')
      rw [hfx] at hf
      obtain ⟨y, hy, hsplit⟩ := ih (hstep x List.mem_cons_self a a'' hI ha')
        (fun y hy => hstep y (List.mem_cons_of_mem _ hy))
        (fun y hy => h y (List.mem_cons_of_mem _ hy)) hf hg
      exact ⟨y, List.mem_cons_of_mem _ hy, hsplit⟩

end

lemma Piece.run?_of_agrees {enter enter' : Configuration → NodeId → Option Configuration}
    (h : ∀ s s', enter s p.node = some s' → enter' s p.node = some s')
    (hp : p.run? c enter s = some s') : p.run? c enter' s = some s' := by
  cases p with
  | add n => exact hp
  | enter n => exact h s s' hp
  | fill n =>
    rw [run?] at hp ⊢
    by_cases hd : c.hasDescendant s n
    · rwa [if_pos hd] at hp ⊢
    · rw [if_neg hd] at hp ⊢
      exact h s s' hp

lemma Piece.run_of_agrees {enter : Configuration → NodeId → Option Configuration}
    {enter' : Configuration → NodeId → Configuration}
    (h : ∀ s s', enter s p.node = some s' → enter' s p.node = s')
    (hp : p.run? c enter s = some s') : p.run c enter' s = s' := by
  have hsome : p.run? c (fun s n => some (enter' s n)) s = some (p.run c enter' s) := by
    cases p with
    | fill n => exact (apply_ite some _ _ _).symm
    | _ => rfl
  rw [run?_of_agrees (fun s s' hs => congrArg some (h s s' hs)) hp] at hsome
  exact (Option.some.inj hsome).symm

lemma Piece.isSome_run? {enter : Configuration → NodeId → Option Configuration}
    (h : (enter s p.node).isSome) : (p.run? c enter s).isSome := by
  cases p with
  | add n => rfl
  | enter n => exact h
  | fill n =>
    rw [run?]
    split
    · rfl
    · exact h

lemma enterWithin?_mono (hk : k ≤ k') (h : c.enterWithin? memory k s n = some s') :
    c.enterWithin? memory k' s n = some s' := by
  induction k generalizing k' s n s' with
  | zero => exact absurd h (Option.some_ne_none s').symm
  | succ k ih =>
    obtain ⟨j, rfl⟩ := Nat.exists_eq_add_of_le' hk
    exact foldlM_of_agrees (fun p _ s s' => Piece.run?_of_agrees fun s s' =>
      ih (Nat.le_add_left k j)) h

lemma enterWithin_of_enterWithin? (h : c.enterWithin? memory k s n = some s') :
    c.enterWithin memory k s n = s' := by
  induction k generalizing s n s' with
  | zero => exact absurd h (Option.some_ne_none s').symm
  | succ k ih =>
    rw [enterWithin_succ]
    exact foldl_of_agrees (fun p _ s s' => Piece.run_of_agrees fun s s' => ih) h

lemma expandWithin?_mono (hk : k ≤ k')
    (h : c.expandWithin? memory k n = some tops) : c.expandWithin? memory k' n = some tops := by
  induction k generalizing k' n tops with
  | zero => exact absurd h (Option.some_ne_none tops).symm
  | succ k ih =>
    obtain ⟨j, rfl⟩ := Nat.exists_eq_add_of_le' hk
    rw [← Nat.add_assoc, expandWithin?]
    rw [expandWithin?] at h
    split at h
    · rename_i hh
      rw [if_pos hh]
      refine foldlM_of_agrees (fun t _ before after ht => ?_) h
      obtain ⟨tops, htops, rfl⟩ := Option.map_eq_some_iff.1 ht
      rw [ih (Nat.le_add_left k j) htops, Option.map_some]
    · rename_i hh
      rwa [if_neg hh]

lemma expandWithin_of_expandWithin? (h : c.expandWithin? memory k n = some tops) :
    c.expandWithin memory k n = tops := by
  induction k generalizing n tops with
  | zero => exact absurd h (Option.some_ne_none tops).symm
  | succ k ih =>
    rw [expandWithin]
    rw [expandWithin?] at h
    split at h
    · rename_i hh
      rw [if_pos hh, List.flatMap_eq_foldl]
      refine foldl_of_agrees (fun t _ before after ht => ?_) h
      obtain ⟨tops, htops, rfl⟩ := Option.map_eq_some_iff.1 ht
      rw [ih htops]
    · rename_i hh
      rw [if_neg hh]
      exact Option.some.inj h

def Needs {α : Type} (f : Nat → Option α) (k : Nat) : Prop := f k = none ∧ (f (k + 1)).isSome

section

variable {α : Type} {f : Nat → Option α}

lemma Needs.unique (hmono : ∀ k k' a, k ≤ k' → f k = some a → f k' = some a) (h : Needs f k)
    (h' : Needs f k') : k = k' := by
  have hle : ∀ {i j}, Needs f i → Needs f j → i ≤ j := fun {i j} hi hj => by
    by_contra hlt
    obtain ⟨a, ha⟩ := Option.isSome_iff_exists.1 hj.2
    have hsome := hmono (j + 1) i a (Nat.lt_of_not_le hlt) ha
    exact Option.some_ne_none a (hsome.symm.trans hi.1)
  exact Nat.le_antisymm (hle h h') (hle h' h)

lemma exists_needs (h0 : f 0 = none) (h : (f k).isSome) : ∃ i < k, Needs f i := by
  induction k with
  | zero => exact absurd h (by simp [h0])
  | succ k ih =>
    cases hk : f k with
    | none => exact ⟨k, Nat.lt_succ_self k, hk, h⟩
    | some a =>
      obtain ⟨i, hi, hneeds⟩ := ih (Option.isSome_of_eq_some hk)
      exact ⟨i, Nat.lt_succ_of_lt hi, hneeds⟩

end

lemma exists_target (h : Needs (fun k => c.expandWithin? memory k n) (k + 1)) :
    (c.node n).isHistory ∧ ∃ t, Needs (fun k => c.expandWithin? memory k t) k := by
  obtain ⟨hnone, hsome⟩ := h
  dsimp only at hnone hsome
  rw [expandWithin?] at hnone hsome
  by_cases hh : (c.node n).isHistory
  · rw [if_pos hh] at hnone hsome
    obtain ⟨tops, htops⟩ := Option.isSome_iff_exists.1 hsome
    obtain ⟨t, _, _, _, hnone, hsome⟩ := exists_of_foldlM_eq_none (I := fun _ => True) trivial
      (fun _ _ _ _ _ _ => trivial) (fun t _ before after ht => by
        obtain ⟨tops, htops, rfl⟩ := Option.map_eq_some_iff.1 ht
        rw [expandWithin?_mono (Nat.le_succ k) htops, Option.map_some]) hnone htops
    exact ⟨hh, t, Option.map_eq_none_iff.1 hnone, by simpa using hsome⟩
  · rw [if_neg hh] at hnone
    exact absurd hnone (Option.some_ne_none _)

lemma Expands.expandWithin? (h : c.Expands memory n) : c.expandWithin? memory c.entryDepth n =
    some (c.expandWithin memory c.entryDepth n) := by
  obtain ⟨depth, hdepth⟩ := h
  obtain ⟨k, _, hneeds⟩ := exists_needs (f := fun k => c.expandWithin? memory k n) rfl hdepth
  have hk : k ≤ c.ids.length := by
    refine le_length_of_descent id (fun _ _ => True)
      (fun k n => Needs (fun k => c.expandWithin? memory k n) k) (fun _ _ _ _ _ => trivial)
      (fun k n hn => ?_) (fun i j a b ha hb _ hab => ?_) hneeds
    · obtain ⟨hh, t, ht⟩ := exists_target hn
      exact ⟨List.mem_range.2 (lt_size_of_isHistory hh), t, trivial, ht⟩
    · obtain rfl : a = b := hab
      exact ha.unique (fun _ _ _ hk => expandWithin?_mono hk) hb
  rw [ids, List.length_range] at hk
  obtain ⟨tops, htops⟩ := Option.isSome_iff_exists.1 hneeds.2
  have hbound := expandWithin?_mono (Nat.lt_of_le_of_lt hk c.size_lt_entryDepth) htops
  rw [hbound, expandWithin_of_expandWithin? hbound]

def InRange (c : Chart) (memory : Memory) : Prop :=
  ∀ h, (c.node h).isHistory → ∀ x ∈ c.historyTargets memory h, x < c.size

structure Widens (c : Chart) (s s' : Configuration) : Prop where
  subset : ∀ x ∈ s, x ∈ s'
  new : ∀ x ∈ s', x ∈ s ∨ x < c.size

lemma Widens.refl (s : Configuration) : c.Widens s s := ⟨fun _ hx => hx, fun _ => .inl⟩

lemma Widens.trans {s'' : Configuration} (h : c.Widens s s') (h' : c.Widens s' s'') :
    c.Widens s s'' :=
  ⟨fun x hx => h'.subset x (h.subset x hx), fun x hx => (h'.new x hx).elim (h.new x) .inr⟩

lemma Widens.insert (s : Configuration) (hn : n < c.size) : c.Widens s (s.insert n) :=
  ⟨fun _ hx => SortedSet.mem_insert.2 (.inr hx), fun _ hx =>
    (SortedSet.mem_insert.1 hx).elim (fun he => .inr (he ▸ hn)) .inl⟩

lemma Widens.run? {enter : Configuration → NodeId → Option Configuration} (hp : p.node < c.size)
    (h : ∀ s s', enter s p.node = some s' → c.Widens s s') (hrun : p.run? c enter s = some s') :
    c.Widens s s' := by
  cases p with
  | add n => exact Option.some.inj hrun ▸ Widens.insert s hp
  | enter n => exact h s s' hrun
  | fill n =>
    rw [Piece.run?] at hrun
    by_cases hd : c.hasDescendant s n
    · rw [if_pos hd] at hrun
      exact Option.some.inj hrun ▸ Widens.refl s
    · rw [if_neg hd] at hrun
      exact h s s' hrun

def missing (c : Chart) (s : Configuration) : List NodeId := c.ids.filter (· ∉ s)

lemma Widens.eq_of_missing (h : c.Widens s s')
    (hm : (c.missing s).length = (c.missing s').length) : s = s' := by
  have hsub : (c.missing s').Sublist (c.missing s) :=
    List.monotone_filter_right _ fun x hx => by
      simp only [decide_eq_true_eq] at hx ⊢
      exact fun hs => hx (h.subset x hs)
  have heq := hsub.eq_of_length hm.symm
  refine SortedSet.ext fun x => ⟨h.subset x, fun hx => (h.new x hx).elim id fun hlt => ?_⟩
  by_contra hs
  have hmem : x ∈ c.missing s := List.mem_filter.2 ⟨List.mem_range.2 hlt, by simpa using hs⟩
  rw [← heq] at hmem
  simpa [hx] using (List.mem_filter.1 hmem).2

section

variable (hw : c.WellFormed)

include hw

lemma mem_ancestorPieces_cases (hp : p ∈ c.ancestorPieces n stop) :
    (∃ a, p = .add a ∧ a < c.size) ∨ ∃ a r, a ∈ c.ancestorsBelow n stop ∧
      (c.node a).isParallel ∧ r ∈ c.regularChildren a ∧ p = .fill r := by
  obtain ⟨a, ha, hp⟩ := List.mem_flatMap.1 hp
  rcases List.mem_cons.1 hp with rfl | hp
  · have hb := below_of_mem_ancestorsBelow ha
    exact .inl ⟨a, rfl, Nat.lt_trans (below_lt hw.toIsTree hb) (below_size hb)⟩
  by_cases hpar : (c.node a).isParallel
  · rw [if_pos hpar] at hp
    obtain ⟨r, hr, rfl⟩ := List.mem_map.1 hp
    exact .inr ⟨a, r, ha, hpar, hr, rfl⟩
  · rw [if_neg hpar] at hp
    exact absurd hp List.not_mem_nil

lemma node_lt_of_mem_ancestorPieces (hp : p ∈ c.ancestorPieces n stop) : p.node < c.size := by
  rcases mem_ancestorPieces_cases hw hp with ⟨a, rfl, ha⟩ | ⟨a, r, _, _, hr, rfl⟩
  · exact ha
  · exact below_size (regularChild_below hw.toIsTree hr)

lemma mem_pieces_cases (hp : p ∈ c.pieces memory n) :
    (∃ a, p = .add a ∧ (n < c.size → a < c.size)) ∨ c.Calls memory n p.node := by
  rw [pieces] at hp
  by_cases hh : (c.node n).isHistory
  · rw [if_pos hh, List.mem_append, List.mem_map, List.mem_flatMap] at hp
    rcases hp with ⟨t, htarget, rfl⟩ | ⟨t, htarget, hp⟩
    · exact .inr (.target hh htarget)
    rcases mem_ancestorPieces_cases hw hp with ⟨a, rfl, ha⟩ | ⟨a, r, ha, hpar, hr, rfl⟩
    · exact .inl ⟨a, rfl, fun _ => ha⟩
    · exact .inr (.around hh htarget ha hpar hr)
  rw [if_neg hh] at hp
  rcases List.mem_cons.1 hp with rfl | hp
  · exact .inl ⟨n, rfl, id⟩
  by_cases hc : (c.node n).isCompound
  · obtain ⟨i, hi, hinit⟩ := hw.initial n hc
    have habove := ancestorsBelow_parent hw.toIsTree ((hw.mem_children i n).1 hi)
    simp only [hc, hinit, ancestorPieces, habove, if_true, List.flatMap_nil,
      List.mem_singleton] at hp
    exact .inr (hp ▸ .initial hc hinit)
  rw [if_neg hc] at hp
  by_cases hpar : (c.node n).isParallel
  · rw [if_pos hpar] at hp
    obtain ⟨r, hr, rfl⟩ := List.mem_map.1 hp
    exact .inr (.region hpar hr)
  · rw [if_neg hpar] at hp
    exact absurd hp List.not_mem_nil

lemma enterWithin?_of_bottoms (h : c.Bottoms memory k n) (s : Configuration) :
    (c.enterWithin? memory k s n).isSome := by
  induction k generalizing n s with
  | zero => exact h.elim
  | succ k ih =>
    refine isSome_foldlM (fun p hp s => ?_) s
    rcases mem_pieces_cases hw hp with ⟨a, rfl, _⟩ | hcall
    · rfl
    · exact Piece.isSome_run? (ih (h p.node hcall) s)

omit hw in
lemma expandWithin?_of_bottoms (h : c.Bottoms memory k n) :
    (c.expandWithin? memory k n).isSome := by
  induction k generalizing n with
  | zero => exact h.elim
  | succ k ih =>
    rw [expandWithin?]
    by_cases hh : (c.node n).isHistory
    · rw [if_pos hh]
      refine isSome_foldlM (fun t ht tops => ?_) []
      rw [Option.isSome_map]
      exact ih (h t (.target hh ht))
    · rw [if_neg hh]
      rfl

/-- The depth at which `enter` is cut off is not reached while no history state leads back. -/
lemma Unlooped.enterWithin? (hu : c.Unlooped memory) (s : Configuration) (n : NodeId) :
    c.enterWithin? memory c.entryDepth s n = some (c.enter memory s n) := by
  obtain ⟨s', hs'⟩ := Option.isSome_iff_exists.1 (enterWithin?_of_bottoms hw (hu.bottoms hw n) s)
  have hbound := enterWithin?_mono c.size_lt_entryDepth hs'
  rw [hbound, enter, enterWithin_of_enterWithin? hbound]

lemma Unlooped.expands (hu : c.Unlooped memory) (n : NodeId) : c.Expands memory n :=
  ⟨c.size + 1, expandWithin?_of_bottoms (hu.bottoms hw n)⟩

lemma Calls.mem_pieces (h : c.Calls memory n x) :
    .enter x ∈ c.pieces memory n ∨ .fill x ∈ c.pieces memory n := by
  rw [pieces]
  cases h with
  | target hh hx => simp [hh, hx]
  | @around t a _ hh htarget ha hp hx =>
    have hmem : Piece.fill x ∈ c.ancestorPieces t (c.node n).parent? :=
      List.mem_flatMap.2 ⟨a, ha, by simp [hp, regionPieces, hx]⟩
    rw [if_pos hh]
    exact .inr (List.mem_append_right _ (List.mem_flatMap.2 ⟨t, htarget, hmem⟩))
  | initial hc hi =>
    obtain ⟨i, hchild, _⟩ := hw.initial n hc
    simp [isHistory_eq_false_of_child hw hchild, hc, hi]
  | region hp hx =>
    have hchild := (mem_regularChildren.1 hx).1
    simp [isHistory_eq_false_of_child hw hchild, hp, StateNode.isCompound_eq_false hp,
      regionPieces, hx]

lemma unlooped_of_descends (rank : NodeId → Nat)
    (h : ∀ n ∈ c.ids, ∀ p ∈ c.pieces memory n, p = .add p.node ∨ rank p.node < rank n) :
    c.Unlooped memory := by
  have hcall : ∀ {n x}, c.Calls memory n x → rank x < rank n := fun hcall => by
    have hn := List.mem_range.2 hcall.lt_size
    rcases hcall.mem_pieces hw with hx | hx
    · exact (h _ hn _ hx).resolve_left nofun
    · exact (h _ hn _ hx).resolve_left nofun
  have hdescends : ∀ {n x}, Relation.TransGen (c.Calls memory) n x → rank x < rank n :=
    fun hnx => by
      induction hnx with
      | single hx => exact hcall hx
      | tail _ hx ih => exact Nat.lt_trans (hcall hx) ih
  exact fun n _ hn => Nat.lt_irrefl _ (hdescends hn)

variable (hr : c.InRange memory)

include hr

lemma Calls.lt (h : c.Calls memory n x) : x < c.size := by
  have ht := hw.toIsTree
  cases h with
  | target hh hx => exact hr n hh x hx
  | around _ _ _ _ hx => exact below_size (regularChild_below ht hx)
  | initial hc hi =>
    obtain ⟨i, hchild, hinit⟩ := hw.initial n hc
    exact Option.some.inj (hinit.symm.trans hi) ▸ below_size (child_below ht hchild)
  | region _ hx => exact below_size (regularChild_below ht hx)

lemma node_lt_of_mem_pieces (hn : n < c.size) (hp : p ∈ c.pieces memory n) : p.node < c.size := by
  rcases mem_pieces_cases hw hp with ⟨a, rfl, ha⟩ | hcall
  · exact ha hn
  · exact hcall.lt hw hr

lemma Widens.enterWithin? (hn : n < c.size) (h : c.enterWithin? memory k s n = some s') :
    c.Widens s s' := by
  induction k generalizing n s s' with
  | zero => exact absurd h (Option.some_ne_none s').symm
  | succ k ih =>
    have hpieces := fun p hp => node_lt_of_mem_pieces hw hr hn (p := p) hp
    rw [Chart.enterWithin?] at h
    generalize c.pieces memory n = l at h hpieces
    induction l generalizing s with
    | nil => exact Option.some.inj h ▸ Widens.refl s
    | cons p l ihl =>
      rw [List.foldlM_cons] at h
      obtain ⟨s₁, h₁, h⟩ := Option.bind_eq_some_iff.1 h
      have hfirst := Widens.run? (hpieces p List.mem_cons_self)
        (fun s s' => ih (hpieces p List.mem_cons_self)) h₁
      exact hfirst.trans (ihl h fun q hq => hpieces q (List.mem_cons_of_mem _ hq))

lemma exists_nested (hn : n < c.size) (h : Needs (fun k => c.enterWithin? memory k s n) (k + 1)) :
    ∃ s' x, c.Widens s s' ∧ x < c.size ∧ Needs (fun k => c.enterWithin? memory k s' x) k := by
  obtain ⟨hnone, hsome⟩ := h
  obtain ⟨s'', hsome⟩ := Option.isSome_iff_exists.1 hsome
  have hlt : ∀ p ∈ c.pieces memory n, p.node < c.size :=
    fun p hp => node_lt_of_mem_pieces hw hr hn hp
  have hwidens : ∀ p ∈ c.pieces memory n, ∀ a b, c.Widens s a →
      p.run? c (c.enterWithin? memory (k + 1)) a = some b → c.Widens s b :=
    fun p hp _ _ ha hrun =>
      ha.trans (Widens.run? (hlt p hp) (fun _ _ => Widens.enterWithin? hw hr (hlt p hp)) hrun)
  obtain ⟨p, hp, s', hs', hnone, hsome⟩ := exists_of_foldlM_eq_none (Widens.refl s) hwidens
    (fun p _ a b => Piece.run?_of_agrees fun s s' => enterWithin?_mono (Nat.le_succ k)) hnone hsome
  refine ⟨s', p.node, hs', hlt p hp, ?_⟩
  cases p with
  | add a => exact absurd hnone (Option.some_ne_none _)
  | enter x => exact ⟨hnone, hsome⟩
  | fill x =>
    rw [Piece.run?] at hnone hsome
    by_cases hd : c.hasDescendant s' x
    · rw [if_pos hd] at hnone
      exact absurd hnone (Option.some_ne_none _)
    · rw [if_neg hd] at hnone hsome
      exact ⟨hnone, hsome⟩

/-- Entering that ends does so within `entryDepth`, and with what `enter` gives. -/
lemma enterWithin?_entryDepth (hn : n < c.size) (h : c.enterWithin? memory k s n = some s') :
    c.enterWithin? memory c.entryDepth s n = some s' ∧ c.enter memory s n = s' := by
  obtain ⟨j, hj, hneeds⟩ := exists_needs (f := fun k => c.enterWithin? memory k s n) rfl
    (Option.isSome_of_eq_some h)
  have hlen : j ≤ (List.range (c.size + 1) ×ˢ List.range c.size).length := by
    refine le_length_of_descent (α := Configuration × NodeId) (a := (s, n))
      (fun e => ((c.missing e.1).length, e.2)) (fun e e' => c.Widens e.1 e'.1)
      (fun k e => e.2 < c.size ∧ Needs (fun k => c.enterWithin? memory k e.1 e.2) k)
      (fun _ _ _ h h' => h.trans h') (fun k e he => ?_) (fun i j e e' he he' hwidens hkey => ?_)
      ⟨hn, hneeds⟩
    · obtain ⟨s', x, hwidens, hx, hneeds⟩ := exists_nested hw hr he.1 he.2
      refine ⟨List.mem_product.2 ⟨List.mem_range.2 ?_, List.mem_range.2 he.1⟩, (s', x), hwidens, hx,
        hneeds⟩
      have hle : (c.missing e.1).length ≤ c.ids.length := List.length_filter_le _ _
      rw [ids, List.length_range] at hle
      exact Nat.lt_succ_of_le hle
    · obtain ⟨hmissing, hnode⟩ := Prod.mk.inj hkey
      have hsets := hwidens.eq_of_missing hmissing
      rw [← hsets, ← hnode] at he'
      exact he.2.unique (fun _ _ _ hk => enterWithin?_mono hk) he'.2
  have hdepth : j + 1 ≤ c.entryDepth := by
    have hle := c.square_le_entryDepth
    rw [List.length_product, List.length_range, List.length_range] at hlen
    rw [Nat.mul_add] at hle
    omega
  obtain ⟨s'', hleast⟩ := Option.isSome_iff_exists.1 hneeds.2
  obtain rfl : s'' = s' := Option.some.inj ((enterWithin?_mono hj hleast).symm.trans h)
  have hbound := enterWithin?_mono hdepth hleast
  exact ⟨hbound, enterWithin_of_enterWithin? hbound⟩

end

def Circles (c : Chart) (memory : Memory) (l : List NodeId) : Prop :=
  ∀ n ∈ l, ∃ x ∈ l, .enter x ∈ c.pieces memory n

instance (c : Chart) (memory : Memory) (l : List NodeId) : Decidable (c.Circles memory l) :=
  inferInstanceAs (Decidable (∀ n ∈ l, ∃ x ∈ l, .enter x ∈ c.pieces memory n))

lemma Circles.enterWithin? {l : List NodeId} (h : c.Circles memory l) (hn : n ∈ l) (k : Nat)
    (s : Configuration) : c.enterWithin? memory k s n = none := by
  induction k generalizing n s with
  | zero => rfl
  | succ k ih =>
    obtain ⟨x, hx, hpiece⟩ := h n hn
    exact foldlM_eq_none hpiece fun s => ih hx s

end Statechart.Chart
