import Mathlib.Data.List.Nodup
import Mathlib.Tactic.Common
import Statechart.Interpreter.Clock
import Statechart.Interpreter.Commit

/-! The work of states. What starting and stopping timers, services and activities does to the
tables, one operation at a time, and that the tables are those of the active states if each state
that is left is relieved of its work and each state that is entered is given its own. -/

namespace Statechart

namespace Work

def activityKeys (w : Work) : List (NodeId × String) := w.activities.map fun a => (a.node, a.name)

structure Holds (w : Work) (A T : NodeId × String → Prop) (S : String → Prop) : Prop where
  once : w.activityKeys.Nodup
  activities : ∀ k, k ∈ w.activityKeys ↔ A k
  timers : ∀ t ∈ w.timers, T t.1
  services : ∀ r ∈ w.services, S r.1

variable {w w' : Work} {A A' T T' : NodeId × String → Prop} {S S' : String → Prop}
  {n : NodeId} {name key type service : String} {millis : Nat}

lemma Holds.imp (h : w.Holds A T S) (hA : ∀ k, A k ↔ A' k) (hT : ∀ k, T k → T' k)
    (hS : ∀ id, S id → S' id) : w.Holds A' T' S' :=
  ⟨h.once, fun k => (h.activities k).trans (hA k), fun t ht => hT _ (h.timers t ht),
    fun r hr => hS _ (h.services r hr)⟩

lemma Holds.stopTimer (h : w.Holds A T S) :
    (w.stopTimer n key).Holds A (fun k => T k ∧ k ≠ (n, key)) S := by
  refine ⟨h.once, h.activities, fun t ht => ?_, h.services⟩
  obtain ⟨ht, hne⟩ := List.mem_filter.1 ht
  exact ⟨h.timers t ht, of_decide_eq_true hne⟩

lemma Holds.stopService (h : w.Holds A T S) :
    (w.stopService service).Holds A T (fun s => S s ∧ s ≠ service) := by
  refine ⟨h.once, h.activities, h.timers, fun r hr => ?_⟩
  obtain ⟨hr, hne⟩ := List.mem_filter.1 hr
  exact ⟨h.services r hr, of_decide_eq_true hne⟩

lemma mem_put {κ : Type} [DecidableEq κ] {r : Registrations κ} {k : κ} {g : Nat} {e : κ × Nat}
    (h : e ∈ r.put k g) : e ∈ r ∨ e.1 = k := by
  rcases List.mem_append.1 h with h | h
  · exact .inl (List.mem_filter.1 h).1
  · exact .inr (List.mem_singleton.1 h ▸ rfl)

lemma Holds.startTimer (h : w.Holds A T S) :
    (w.startTimer n key type millis).Holds A (fun k => T k ∨ k = (n, key)) S := by
  rw [Work.startTimer]
  split
  · exact ⟨h.once, h.activities, fun t ht => (mem_put ht).imp_left (h.timers t), h.services⟩
  · exact h.imp (fun _ => Iff.rfl) (fun _ => .inl) fun _ => id

lemma Holds.startService {todo : Nat → List TaskStep} (h : w.Holds A T S) :
    (w.startService service todo).Holds A T (fun s => S s ∨ s = service) := by
  rw [Work.startService]
  split
  · exact ⟨h.once, h.activities, h.timers, fun r hr => (mem_put hr).imp_left (h.services r)⟩
  · exact h.imp (fun _ => Iff.rfl) (fun _ => id) fun _ => .inl

lemma activityKeys_stopActivity :
    (w.stopActivity n name).activityKeys = w.activityKeys.erase (n, name) := by
  rw [List.erase_eq_eraseP', activityKeys, activityKeys, List.eraseP_map]
  refine congrArg _ (congrArg (List.eraseP · w.activities) (funext fun a => ?_))
  exact Bool.eq_iff_iff.2 (by simp)

lemma Holds.stopActivity (h : w.Holds A T S) :
    (w.stopActivity n name).Holds (fun k => A k ∧ k ≠ (n, name)) T S := by
  refine ⟨?_, fun k => ?_, h.timers, h.services⟩
  · rw [activityKeys_stopActivity]
    exact h.once.erase _
  · rw [activityKeys_stopActivity, h.once.mem_erase_iff, h.activities, and_comm]

lemma Holds.startActivity {a : RunningActivity} (h : w.Holds A T S) (hk : ¬ A (a.node, a.name)) :
    (w.startActivity a).Holds (fun k => A k ∨ k = (a.node, a.name)) T S := by
  have hkeys : (w.startActivity a).activityKeys = w.activityKeys ++ [(a.node, a.name)] := by
    simp [Work.startActivity, activityKeys]
  refine ⟨?_, fun k => ?_, h.timers, h.services⟩
  · rw [hkeys, ← List.concat_eq_append]
    exact h.once.concat fun hmem => hk ((h.activities _).1 hmem)
  · rw [hkeys, List.mem_append, List.mem_singleton, h.activities]

lemma Holds.restartActivity {stopped : Value} (h : w.Holds A T S) :
    ((w.stopActivity n name).startActivity ⟨n, name, stopped⟩).Holds
      (fun k => A k ∨ k = (n, name)) T S := by
  have hstop : (w.stopActivity n name).Holds (fun k => A k ∧ k ≠ (n, name)) T S := h.stopActivity
  refine (hstop.startActivity (a := ⟨n, name, stopped⟩) fun hk => hk.2 rfl).imp (fun k => ?_)
    (fun _ => id) fun _ => id
  by_cases hk : k = (n, name) <;> simp [hk]

section

variable {α β : Type} {P : Work → (β → Prop) → Prop} {f : Work → α → Work} {g : α → β}
  {Q : β → Prop}

lemma foldl_removing (hf : ∀ w Q a, P w Q → P (f w a) fun b => Q b ∧ b ≠ g a) (l : List α)
    (h : P w Q) : P (l.foldl f w) fun b => Q b ∧ b ∉ l.map g := by
  induction l generalizing w Q with
  | nil => simpa using h
  | cons a l ih => simpa [and_assoc] using ih (hf w Q a h)

lemma foldl_adding (hf : ∀ w Q a, P w Q → P (f w a) fun b => Q b ∨ b = g a) (l : List α)
    (h : P w Q) : P (l.foldl f w) fun b => Q b ∨ b ∈ l.map g := by
  induction l generalizing w Q with
  | nil => simpa using h
  | cons a l ih => simpa [or_assoc] using ih (hf w Q a h)

end

variable {C : Type}

def relieve (w : Work) (n : NodeId) (p : Parts C) : Work :=
  p.invocations.foldl (fun w v => w.stopService v.id)
    (p.activities.foldl (fun w a => w.stopActivity n a.name)
      (p.delays.foldl (fun w d => w.stopTimer n d.key) w))

def employ (w : Work) (n : NodeId) (p : Parts C) (context : C) (event : Event) : Work :=
  p.invocations.foldl
    (fun w v => w.startService v.id (Interpreter.serviceSteps v.id (v.service v.id context event)))
    (p.activities.foldl
      (fun w a => (w.stopActivity n a.name).startActivity
        ⟨n, a.name, a.value.stopped context event⟩)
      (p.delays.foldl (fun w d => w.startTimer n d.key d.type (d.delay.millis context event)) w))

lemma Holds.relieve (p : Parts C) (h : w.Holds A T S) :
    (w.relieve n p).Holds (fun k => A k ∧ k ∉ p.activities.map fun a => (n, a.name))
      (fun k => T k ∧ k ∉ p.delays.map fun d => (n, d.key))
      (fun s => S s ∧ s ∉ p.invocations.map Invocation.id) := by
  have ht := foldl_removing (P := fun w T => w.Holds A T S)
    (f := fun w (d : DelayedEvent C) => w.stopTimer n d.key) (g := fun d => (n, d.key))
    (fun _ _ _ h => h.stopTimer) p.delays h
  have ha := foldl_removing (P := fun w A => w.Holds A _ S)
    (f := fun w (a : Named (Activity C)) => w.stopActivity n a.name) (g := fun a => (n, a.name))
    (fun _ _ _ h => h.stopActivity) p.activities ht
  exact foldl_removing (P := fun w S => w.Holds _ _ S)
    (f := fun w (v : Invocation C) => w.stopService v.id) (g := Invocation.id)
    (fun _ _ _ h => h.stopService) p.invocations ha

lemma Holds.employ (p : Parts C) (context : C) (event : Event) (h : w.Holds A T S) :
    (w.employ n p context event).Holds (fun k => A k ∨ k ∈ p.activities.map fun a => (n, a.name))
      (fun k => T k ∨ k ∈ p.delays.map fun d => (n, d.key))
      (fun s => S s ∨ s ∈ p.invocations.map Invocation.id) := by
  have ht := foldl_adding (P := fun w T => w.Holds A T S)
    (f := fun w (d : DelayedEvent C) => w.startTimer n d.key d.type (d.delay.millis context event))
    (g := fun d => (n, d.key)) (fun _ _ _ h => h.startTimer) p.delays h
  have ha := foldl_adding (P := fun w A => w.Holds A _ S)
    (f := fun w (a : Named (Activity C)) => (w.stopActivity n a.name).startActivity
      ⟨n, a.name, a.value.stopped context event⟩)
    (g := fun a => (n, a.name)) (fun _ _ _ h => h.restartActivity) p.activities ht
  exact foldl_adding (P := fun w S => w.Holds _ _ S)
    (f := fun w (v : Invocation C) =>
      w.startService v.id (Interpreter.serviceSteps v.id (v.service v.id context event)))
    (g := Invocation.id) (fun _ _ _ h => h.startService) p.invocations ha

def Matches (w : Work) (m : Machine C) (s : Configuration) : Prop :=
  w.Holds (fun k => k.1 ∈ s ∧ k.2 ∈ (m.partsOf k.1).activities.map Named.name)
    (fun k => k.1 ∈ s ∧ k.2 ∈ (m.partsOf k.1).delays.map DelayedEvent.key)
    fun service => ∃ n ∈ s, service ∈ (m.partsOf n).invocations.map Invocation.id

variable {m : Machine C} {s s' : Configuration}

lemma mem_map_mk {α : Type} {f : α → String} {l : List α} {x : NodeId} :
    (x, name) ∈ l.map (fun a => (n, f a)) ↔ x = n ∧ name ∈ l.map f := by
  simp only [List.mem_map, Prod.mk.injEq]
  constructor
  · rintro ⟨a, ha, rfl, rfl⟩
    exact ⟨rfl, a, ha, rfl⟩
  · rintro ⟨rfl, a, ha, rfl⟩
    exact ⟨a, ha, rfl, rfl⟩

lemma Matches.relieve (h : w.Matches m s) :
    (w.relieve n (m.partsOf n)).Matches m (s.erase n) := by
  refine (Holds.relieve (m.partsOf n) h).imp ?_ ?_ ?_
  · rintro ⟨x, name⟩
    rw [mem_map_mk, SortedSet.mem_erase]
    by_cases hx : x = n
    · subst hx
      simp
    · simp [hx]
  · rintro ⟨x, key⟩ ⟨⟨hx, hkey⟩, hnot⟩
    rw [mem_map_mk] at hnot
    refine ⟨SortedSet.mem_erase.2 ⟨hx, ?_⟩, hkey⟩
    rintro rfl
    exact hnot ⟨rfl, hkey⟩
  · rintro service ⟨⟨x, hx, hservice⟩, hnot⟩
    refine ⟨x, SortedSet.mem_erase.2 ⟨hx, ?_⟩, hservice⟩
    rintro rfl
    exact hnot hservice

lemma Matches.employ {context : C} {event : Event} (h : w.Matches m s) :
    (w.employ n (m.partsOf n) context event).Matches m (s.insert n) := by
  refine (Holds.employ (m.partsOf n) context event h).imp ?_ ?_ ?_
  · rintro ⟨x, name⟩
    rw [mem_map_mk, SortedSet.mem_insert]
    by_cases hx : x = n
    · subst hx
      simp
    · simp [hx]
  · rintro ⟨x, key⟩ (⟨hx, hkey⟩ | hnew)
    · exact ⟨SortedSet.mem_insert.2 (.inr hx), hkey⟩
    · obtain ⟨rfl, hkey⟩ := mem_map_mk.1 hnew
      exact ⟨SortedSet.mem_insert.2 (.inl rfl), hkey⟩
  · rintro service (⟨x, hx, hservice⟩ | hnew)
    · exact ⟨x, SortedSet.mem_insert.2 (.inr hx), hservice⟩
    · exact ⟨n, SortedSet.mem_insert.2 (.inl rfl), hnew⟩

lemma matches_empty_iff :
    w.Matches m .empty ↔ w.timers = [] ∧ w.services = [] ∧ w.activities = [] := by
  constructor
  · intro h
    have hkeys : w.activityKeys = [] := List.eq_nil_iff_forall_not_mem.2 fun k hk =>
      SortedSet.not_mem_empty _ ((h.activities k).1 hk).1
    refine ⟨List.eq_nil_iff_forall_not_mem.2 fun t ht => ?_,
      List.eq_nil_iff_forall_not_mem.2 fun r hr => ?_, List.map_eq_nil_iff.1 hkeys⟩
    · exact SortedSet.not_mem_empty _ (h.timers t ht).1
    · obtain ⟨n, hn, _⟩ := h.services r hr
      exact SortedSet.not_mem_empty n hn
  · rintro ⟨ht, hs, ha⟩
    refine ⟨?_, fun k => ?_, ?_, ?_⟩ <;> simp [activityKeys, ht, hs, ha]

structure Shrinks (w w' : Work) : Prop where
  activities : w'.activities = w.activities
  timers : w'.timers ⊆ w.timers
  services : w'.services ⊆ w.services

lemma Shrinks.of_eq (ha : w'.activities = w.activities) (ht : w'.timers = w.timers)
    (hs : w'.services = w.services) : Shrinks w w' :=
  ⟨ha, fun _ h => ht ▸ h, fun _ h => hs ▸ h⟩

lemma Shrinks.refl (w : Work) : Shrinks w w := .of_eq rfl rfl rfl

lemma Shrinks.trans {w'' : Work} (h : Shrinks w w') (h' : Shrinks w' w'') : Shrinks w w'' :=
  ⟨h'.activities.trans h.activities, fun _ ht => h.timers (h'.timers ht),
    fun _ hr => h.services (h'.services hr)⟩

lemma Shrinks.matches (h : Shrinks w w') (hw : w.Matches m s) : w'.Matches m s := by
  have hkeys : w'.activityKeys = w.activityKeys := by rw [activityKeys, h.activities, activityKeys]
  refine ⟨hkeys ▸ hw.once, fun k => ?_, fun t ht => hw.timers t (h.timers ht),
    fun r hr => hw.services r (h.services hr)⟩
  rw [hkeys, hw.activities]

lemma shrinks_retire (w : Work) (message : Message) : Shrinks w (w.retire message) := by
  rw [retire]
  split
  · exact ⟨rfl, fun _ ht => (List.mem_filter.1 ht).1, fun _ => id⟩
  · exact ⟨rfl, fun _ => id, fun _ hr => (List.mem_filter.1 hr).1⟩
  · exact .refl w

lemma shrinks_receiveFrom (w : Work) (l : List Message) : Shrinks w (w.receiveFrom l).2 := by
  induction l with
  | nil => exact .of_eq rfl rfl rfl
  | cons message rest ih =>
    rw [receiveFrom]
    split
    · have hw : Shrinks w { w with mailbox := rest } := .of_eq rfl rfl rfl
      exact hw.trans (shrinks_retire _ message)
    · exact ih

lemma shrinks_receive (w : Work) : Shrinks w w.receive.2 := shrinks_receiveFrom w w.mailbox

lemma shrinks_advance {deadline : Nat} (h : w.advance? deadline = some w') : Shrinks w w' := by
  have hrun : ∀ (w : Work) (tasks : List Task) (ready : Task → Bool),
      Shrinks w (w.runTasks tasks ready) := fun _ _ _ => .of_eq rfl rfl rfl
  rw [advance?] at h
  split at h
  · obtain rfl := Option.some.inj h
    exact hrun w _ _
  · split at h
    · exact absurd h (by simp)
    · split at h
      · obtain rfl := Option.some.inj h
        exact .of_eq rfl rfl rfl
      · exact absurd h (by simp)

lemma shrinks_elapseWithin (deadline jumps : Nat) (w : Work) :
    Shrinks w (elapseWithin deadline jumps w) := by
  induction jumps generalizing w with
  | zero => exact .of_eq rfl rfl rfl
  | succ jumps ih =>
    rw [elapseWithin]
    split
    · exact (shrinks_advance ‹_›).trans (ih _)
    · exact .of_eq rfl rfl rfl

lemma shrinks_elapse (w : Work) (millis : Nat) : Shrinks w (w.elapse millis) := by
  rw [elapse]
  split
  · exact .refl w
  · exact shrinks_elapseWithin _ _ w

lemma shrinks_awaitWithin (deadline jumps : Nat) (w : Work) :
    Shrinks w (awaitWithin deadline jumps w).2 := by
  have hnow : ∀ w : Work, Shrinks w { w with now := deadline } :=
    fun _ => .of_eq rfl rfl rfl
  induction jumps generalizing w with
  | zero =>
    have hw := shrinks_receive w
    rw [awaitWithin]
    generalize w.receive = received at hw ⊢
    rcases received with ⟨_ | message, w₁⟩
    · dsimp only
      split
      · exact hw
      · exact hw.trans (hnow w₁)
    · exact hw
  | succ jumps ih =>
    have hw := shrinks_receive w
    rw [awaitWithin]
    generalize w.receive = received at hw ⊢
    rcases received with ⟨_ | message, w₁⟩
    · dsimp only
      split
      · exact hw
      · cases hadv : w₁.advance? deadline with
        | none => exact hw.trans (hnow w₁)
        | some w₂ => exact hw.trans ((shrinks_advance hadv).trans (ih w₂))
    · exact hw

lemma shrinks_await (w : Work) (deadline : Nat) : Shrinks w (w.await deadline).2 :=
  shrinks_awaitWithin deadline w.jumps w

end Work

end Statechart
