import Mathlib.Data.List.Basic
import Mathlib.Data.List.Count
import Mathlib.Data.List.Nodup
import Mathlib.Data.List.Perm.Subperm
import Mathlib.Tactic.Common
import Statechart.Proofs.Interpreter.Moves
import Statechart.Proofs.Interpreter.Shown

/-! What is registered. The tables hold the engagements that are still live, each under a generation
that no other engagement ever had, and of all that is posted or still to be posted at most one
message of each engagement is its last one. -/

namespace Statechart

def Origin.source : Origin → Origin
  | .emission id => .completion id
  | origin => origin

namespace Message

def isLast (message : Message) : Bool :=
  match message.origin with
  | .emission _ => false
  | _ => true

structure StemsFrom (message : Message) (e : Engagement) : Prop where
  generation : message.generation = e.generation
  source : message.origin.source = e.origin

def endsAt (generation : Nat) (message : Message) : Bool :=
  message.isLast && message.generation = generation

lemma source_of_isLast {message : Message} (h : message.isLast) :
    message.origin.source = message.origin := by
  cases ho : message.origin with
  | emission id => simp [isLast, ho] at h
  | timer n key => rfl
  | completion id => rfl

end Message

def engage (n : NodeId) (origins : List Origin) (generation : Nat) : List Engagement :=
  (origins.zipIdx (generation + 1)).map fun e => ⟨n, e.1, e.2⟩

lemma engage_singleton (n : NodeId) (o : Origin) (g : Nat) :
    engage n [o] g = [⟨n, o, g + 1⟩] := rfl

lemma engage_append (n : NodeId) (os os' : List Origin) (g : Nat) :
    engage n (os ++ os') g = engage n os g ++ engage n os' (g + os.length) := by
  simp [engage, List.zipIdx_append, Nat.add_right_comm]

lemma origin_of_mem_engage {n : NodeId} {os : List Origin} {g : Nat} {e : Engagement}
    (h : e ∈ engage n os g) : e.origin ∈ os := by
  obtain ⟨⟨o, k⟩, hmem, rfl⟩ := List.mem_map.1 h
  exact List.fst_mem_of_mem_zipIdx hmem

lemma node_of_mem_engage {n : NodeId} {os : List Origin} {g : Nat} {e : Engagement}
    (h : e ∈ engage n os g) : e.node = n := by
  obtain ⟨_, _, rfl⟩ := List.mem_map.1 h
  rfl

lemma Machine.engagements_cons {C : Type} (m : Machine C) (g : Nat) (n : NodeId)
    (nodes : List NodeId) : m.engagements g (n :: nodes) =
      engage n (m.originsOf n) g ++ m.engagements (g + (m.originsOf n).length) nodes := by
  simp [Machine.engagements, engage, List.zipIdx_append, List.zipIdx_map, List.map_map,
    Nat.add_right_comm, Function.comp_def]

def TaskStep.message? : TaskStep → Option Message
  | .post message => some message
  | .sleep _ => none

def Task.posts (t : Task) : List Message := t.todo.filterMap TaskStep.message?

namespace Work

variable {w w' : Work} {n : NodeId} {key type service : String} {millis g : Nat} {o o' : Origin}

def pending (w : Work) : List Message := w.tasks.flatMap Task.posts

def Registers (w : Work) : Origin → Nat → Prop
  | .timer n key, g => ((n, key), g) ∈ w.timers
  | .completion id, g => (id, g) ∈ w.services
  | .emission _, _ => False

structure Keyed (w : Work) : Prop where
  timers : (w.timers.map Prod.fst).Nodup
  services : (w.services.map Prod.fst).Nodup

lemma mem_put_iff {κ : Type} [DecidableEq κ] (r : Registrations κ) (k : κ) (g : Nat)
    (e : κ × Nat) : e ∈ r.put k g ↔ e ∈ r ∧ e.1 ≠ k ∨ e.1 = k ∧ e.2 = g := by
  simp [Registrations.put, Registrations.erase, Prod.ext_iff]

lemma nodup_erase {κ : Type} [DecidableEq κ] {r : Registrations κ} (k : κ)
    (h : (r.map Prod.fst).Nodup) : ((r.erase k).map Prod.fst).Nodup :=
  h.sublist (List.Sublist.map _ (List.filter_sublist ..))

lemma nodup_put {κ : Type} [DecidableEq κ] {r : Registrations κ} (k : κ) (g : Nat)
    (h : (r.map Prod.fst).Nodup) : ((r.put k g).map Prod.fst).Nodup := by
  rw [Registrations.put, List.map_append, List.map_singleton, ← List.concat_eq_append]
  apply (nodup_erase k h).concat
  simp [Registrations.erase]

lemma get?_eq_some_iff {κ : Type} [DecidableEq κ] {r : Registrations κ} {k : κ}
    (h : (r.map Prod.fst).Nodup) : r.get? k = some g ↔ (k, g) ∈ r := by
  induction r with
  | nil => simp [Registrations.get?]
  | cons e r ih =>
    obtain ⟨k', g'⟩ := e
    obtain ⟨hnew, hr⟩ := List.nodup_cons.1 h
    have ih := ih hr
    rw [Registrations.get?] at ih ⊢
    by_cases hk : k = k'
    · subst hk
      have hnot : ∀ g, (k, g) ∉ r := fun g hmem => hnew (List.mem_map.2 ⟨_, hmem, rfl⟩)
      simp [hnot, eq_comm]
    · have hne : (k == k') = false := by simpa using hk
      rw [List.lookup_cons, hne]
      simpa [hk] using ih

lemma isCurrent_iff (h : w.Keyed) (message : Message) :
    w.isCurrent message ↔ w.Registers message.origin.source message.generation := by
  rw [isCurrent]
  cases message.origin with
  | timer n key => simpa [Origin.source, Registers] using get?_eq_some_iff h.timers
  | completion id => simpa [Origin.source, Registers] using get?_eq_some_iff h.services
  | emission id => simpa [Origin.source, Registers] using get?_eq_some_iff h.services

lemma retire_of_not_isLast {message : Message} (h : ¬ message.isLast) :
    w.retire message = w := by
  cases ho : message.origin with
  | timer n key => exact absurd (by simp [Message.isLast, ho]) h
  | completion id => exact absurd (by simp [Message.isLast, ho]) h
  | emission id => rw [retire, ho]

lemma Registers.unique (h : w.Keyed) {g' : Nat} (hg : w.Registers o g) (hg' : w.Registers o g') :
    g = g' := by
  cases o with
  | timer n key =>
    have he := (get?_eq_some_iff h.timers).2 hg
    exact Option.some.inj (he.symm.trans ((get?_eq_some_iff h.timers).2 hg'))
  | completion id =>
    have he := (get?_eq_some_iff h.services).2 hg
    exact Option.some.inj (he.symm.trans ((get?_eq_some_iff h.services).2 hg'))
  | emission id => exact hg.elim

structure Drops (w w' : Work) (Q : Origin → Prop) : Prop where
  keyed : w.Keyed → w'.Keyed
  mailbox : w'.mailbox = w.mailbox
  generation : w.generation ≤ w'.generation
  pending : w'.pending = w.pending
  registers : ∀ o g, w'.Registers o g ↔ w.Registers o g ∧ Q o

variable {Q : Origin → Prop}

lemma Drops.refl (w : Work) : w.Drops w fun _ => True :=
  ⟨id, rfl, Nat.le_refl _, rfl, by simp⟩

lemma Drops.stopTimer (h : w.Drops w' Q) (n : NodeId) (key : String) :
    w.Drops (w'.stopTimer n key) fun o => Q o ∧ o ≠ .timer n key := by
  refine ⟨fun hk => ⟨nodup_erase _ (h.keyed hk).timers, (h.keyed hk).services⟩, h.mailbox,
    h.generation, h.pending, fun o g => ?_⟩
  rw [← and_assoc, ← h.registers]
  cases o with
  | timer n' key' =>
    simp only [Work.stopTimer, Registers, Registrations.erase, List.mem_filter, ne_eq,
      Prod.mk.injEq, Origin.timer.injEq, decide_eq_true_eq]
  | completion id => simp [Work.stopTimer, Registers]
  | emission id => simp [Registers]

lemma Drops.stopService (h : w.Drops w' Q) (id : String) :
    w.Drops (w'.stopService id) fun o => Q o ∧ o ≠ .completion id := by
  refine ⟨fun hk => ⟨(h.keyed hk).timers, nodup_erase _ (h.keyed hk).services⟩, h.mailbox,
    h.generation, h.pending, fun o g => ?_⟩
  rw [← and_assoc, ← h.registers]
  cases o with
  | timer n' key' => simp [Work.stopService, Registers]
  | completion id' => simp [Work.stopService, Registers, Registrations.erase]
  | emission id' => simp [Registers]

lemma Drops.stopActivity (h : w.Drops w' Q) (n : NodeId) (name : String) :
    w.Drops (w'.stopActivity n name) Q := by
  refine ⟨fun hk => ⟨(h.keyed hk).timers, (h.keyed hk).services⟩, h.mailbox, h.generation,
    h.pending, fun o g => ?_⟩
  rw [← h.registers]
  cases o <;> rfl

lemma Drops.imp {Q' : Origin → Prop} (h : w.Drops w' Q) (hQ : ∀ o, Q o ↔ Q' o) :
    w.Drops w' Q' := by
  refine ⟨h.keyed, h.mailbox, h.generation, h.pending, fun o g => ?_⟩
  rw [h.registers, hQ]

lemma shutdown_drops (w : Work) : w.Drops w.shutdown fun _ => False := by
  refine ⟨fun _ => ⟨List.nodup_nil, List.nodup_nil⟩, rfl, Nat.le_succ _, rfl, fun o g => ?_⟩
  rw [and_false]
  cases o <;> simp [shutdown, Registers]

lemma relieve_drops {C : Type} (m : Machine C) (w : Work) (n : NodeId) :
    w.Drops (w.relieve n (m.partsOf n)) (· ∉ m.originsOf n) := by
  have hdelays := foldl_removing (P := fun w' Q => w.Drops w' Q)
    (f := fun w (d : DelayedEvent C) => w.stopTimer n d.key) (g := fun d => .timer n d.key)
    (fun _ _ d h => h.stopTimer n d.key) (m.partsOf n).delays (Drops.refl w)
  have hactivities : ∀ (l : List (Named (Activity C))) {w' : Work} {Q : Origin → Prop},
      w.Drops w' Q → w.Drops (l.foldl (fun w a => w.stopActivity n a.name) w') Q := by
    intro l
    induction l with
    | nil => exact id
    | cons a l ih => exact fun h => ih (h.stopActivity n a.name)
  have hservices := foldl_removing (P := fun w' Q => w.Drops w' Q)
    (f := fun w (v : Invocation C) => w.stopService v.id) (g := fun v => .completion v.id)
    (fun _ _ v h => h.stopService v.id) (m.partsOf n).invocations
    (hactivities (m.partsOf n).activities hdelays)
  apply hservices.imp
  intro o
  rw [Machine.originsOf, List.mem_append, not_or, true_and]

structure Enrols (w w' : Work) (o : Origin) : Prop where
  runtime : w'.hasRuntime = w.hasRuntime
  mailbox : w'.mailbox = w.mailbox
  generation : w'.generation = w.generation + 1
  keyed : w.Keyed → w'.Keyed
  registers : ∀ o' g, w'.Registers o' g ↔
    w.Registers o' g ∧ o' ≠ o ∨ o' = o ∧ g = w.generation + 1
  pending : ∃ l, w'.pending = w.pending ++ l ∧ l.countP Message.isLast ≤ 1 ∧
    ∀ message ∈ l, message.generation = w.generation + 1 ∧ message.origin.source = o

lemma startTimer_enrols (hw : w.hasRuntime) :
    w.Enrols (w.startTimer n key type millis) (.timer n key) := by
  rw [startTimer, if_pos hw]
  refine ⟨rfl, rfl, rfl, fun h => ⟨nodup_put _ _ h.timers, h.services⟩, fun o' g => ?_, ?_⟩
  · cases o' with
    | timer n' key' =>
      have hput := mem_put_iff w.timers (n, key) (w.generation + 1) ((n', key'), g)
      simpa only [Registers, begin, ne_eq, Prod.mk.injEq, Origin.timer.injEq] using hput
    | completion id => simp [Registers, begin]
    | emission id => simp [Registers]
  · let message : Message := ⟨.ofType type, .timer n key, w.generation + 1⟩
    refine ⟨[message], ?_, by simp [List.countP_cons]; split <;> omega, fun message' h => ?_⟩
    · simp only [pending, begin, List.flatMap_append, List.flatMap_singleton]
      rfl
    · obtain rfl := List.mem_singleton.1 h
      exact ⟨rfl, rfl⟩

lemma mem_posts_serviceSteps {id : String} {r : ServiceRun} {message : Message}
    (h : message ∈ (Interpreter.serviceSteps id r g).filterMap TaskStep.message?) :
    message.generation = g ∧ message.origin.source = .completion id := by
  rw [Interpreter.serviceSteps, List.filterMap_append, List.mem_append] at h
  cases h with
  | inl h =>
    obtain ⟨step, hstep, hmessage⟩ := List.mem_filterMap.1 h
    obtain ⟨s, _, rfl⟩ := List.mem_map.1 hstep
    cases s with
    | sleep millis => exact absurd hmessage (by simp [TaskStep.message?])
    | emit event =>
      obtain rfl := Option.some.inj hmessage
      exact ⟨rfl, rfl⟩
  | inr h =>
    cases hr : r.result with
    | never => simp [hr] at h
    | finished output =>
      simp only [hr, List.filterMap_cons, TaskStep.message?, List.filterMap_nil,
        List.mem_singleton] at h
      exact ⟨by rw [h], by rw [h]; rfl⟩
    | failed text =>
      simp only [hr, List.filterMap_cons, TaskStep.message?, List.filterMap_nil,
        List.mem_singleton] at h
      exact ⟨by rw [h], by rw [h]; rfl⟩

lemma countP_serviceSteps (id : String) (r : ServiceRun) :
    ((Interpreter.serviceSteps id r g).filterMap TaskStep.message?).countP Message.isLast ≤ 1 := by
  obtain ⟨note, steps, result⟩ := r
  rw [Interpreter.serviceSteps]
  induction steps with
  | nil =>
    cases result with
    | never => exact Nat.zero_le 1
    | finished output => exact Nat.le_refl 1
    | failed text => exact Nat.le_refl 1
  | cons step steps ih =>
    cases step with
    | sleep millis => exact ih
    | emit event => simpa [TaskStep.message?, Message.isLast] using ih

lemma startService_enrols (hw : w.hasRuntime) (r : ServiceRun) :
    w.Enrols (w.startService service (Interpreter.serviceSteps service r))
      (.completion service) := by
  rw [startService, if_pos hw]
  refine ⟨rfl, rfl, rfl, fun h => ⟨h.timers, nodup_put _ _ h.services⟩, fun o' g => ?_, ?_⟩
  · cases o' with
    | timer n' key' => simp [Registers, begin]
    | completion id =>
      have hput := mem_put_iff w.services service (w.generation + 1) (id, g)
      simpa only [Registers, begin, ne_eq, Origin.completion.injEq] using hput
    | emission id => simp [Registers]
  · refine ⟨_, ?_, countP_serviceSteps service r, fun message => mem_posts_serviceSteps⟩
    simp only [pending, begin, List.flatMap_append, List.flatMap_singleton]
    rfl

inductive Enrolled (w : Work) : List Origin → Work → Prop
  | refl : Enrolled w [] w
  | next {w' w'' : Work} {o : Origin} {os : List Origin} (h : Enrolled w os w')
      (he : w'.Enrols w'' o) : Enrolled w (os ++ [o]) w''
  | busy {w' : Work} {os : List Origin} (h : Enrolled w os w')
      (activities : List RunningActivity) : Enrolled w os { w' with activities }

namespace Enrolled

variable {os : List Origin}

lemma runtime (h : w.Enrolled os w') : w'.hasRuntime = w.hasRuntime := by
  induction h with
  | refl => rfl
  | next _ he ih => exact he.runtime.trans ih
  | busy _ _ ih => exact ih

lemma mailbox (h : w.Enrolled os w') : w'.mailbox = w.mailbox := by
  induction h with
  | refl => rfl
  | next _ he ih => exact he.mailbox.trans ih
  | busy _ _ ih => exact ih

lemma generation (h : w.Enrolled os w') : w'.generation = w.generation + os.length := by
  induction h with
  | refl => rfl
  | next _ he ih => rw [he.generation, ih, List.length_append, List.length_singleton, Nat.add_assoc]
  | busy _ _ ih => exact ih

lemma foldl {α : Type} {f : Work → α → Work} {k : α → Origin}
    (hf : ∀ (w : Work) a, w.hasRuntime → w.Enrols (f w a) (k a)) (l : List α)
    (h : w.Enrolled os w') (hw : w.hasRuntime) :
    w.Enrolled (os ++ l.map k) (l.foldl f w') := by
  induction l generalizing os w' with
  | nil => simpa using h
  | cons a l ih =>
    have hnext := ih (h.next (hf w' a (h.runtime.trans hw)))
    simpa using hnext

lemma foldl_busy {α : Type} {f : Work → α → Work}
    (hf : ∀ w a, f w a = { w with activities := (f w a).activities }) (l : List α)
    (h : w.Enrolled os w') : w.Enrolled os (l.foldl f w') := by
  induction l generalizing w' with
  | nil => exact h
  | cons a l ih =>
    rw [List.foldl_cons, hf]
    exact ih (h.busy _)

end Enrolled

lemma employ_enrolled {C : Type} (m : Machine C) (n : NodeId) (context : C) (event : Event)
    (hw : w.hasRuntime) :
    w.Enrolled (m.originsOf n) (w.employ n (m.partsOf n) context event) := by
  have hdelays := Enrolled.refl.foldl
    (f := fun w (d : DelayedEvent C) => w.startTimer n d.key d.type (d.delay.millis context event))
    (fun _ _ hw => startTimer_enrols hw) (m.partsOf n).delays hw
  have hactivities := hdelays.foldl_busy
    (f := fun w (a : Named (Activity C)) => (w.stopActivity n a.name).startActivity
      ⟨n, a.name, a.value.stopped context event⟩) (fun _ _ => rfl) (m.partsOf n).activities
  exact hactivities.foldl
    (f := fun w (v : Invocation C) => w.startService v.id
      (Interpreter.serviceSteps v.id (v.service v.id context event)))
    (fun _ _ hw => startService_enrols hw _) (m.partsOf n).invocations hw

lemma employ_idle {C : Type} (n : NodeId) (p : Parts C) (context : C) (event : Event)
    (hw : w.hasRuntime = false) : w.Enrolled [] (w.employ n p context event) := by
  have hdelays : p.delays.foldl
      (fun w d => w.startTimer n d.key d.type (d.delay.millis context event)) w = w := by
    apply List.foldl_fixed'
    simp [startTimer, hw]
  have hactivities := (Enrolled.refl (w := w)).foldl_busy
    (f := fun w (a : Named (Activity C)) => (w.stopActivity n a.name).startActivity
      ⟨n, a.name, a.value.stopped context event⟩) (fun _ _ => rfl) p.activities
  have hruntime := hactivities.runtime.trans hw
  rw [employ, hdelays, List.foldl_fixed']
  · exact hactivities
  · simp [startService, hruntime]

namespace Stirs

variable {l : List Message}

lemma mailbox (h : w.Stirs l w') : w'.mailbox = w.mailbox ++ l := by
  induction h with
  | refl => rw [List.append_nil]
  | post _ _ _ ih => rw [ih, List.append_assoc]
  | rest _ _ _ _ ih => exact ih
  | leave _ _ ih => exact ih
  | tick _ _ ih => exact ih

lemma tables (h : w.Stirs l w') :
    w'.timers = w.timers ∧ w'.services = w.services ∧ w'.generation = w.generation := by
  induction h with
  | refl => exact ⟨rfl, rfl, rfl⟩
  | post _ _ _ ih => exact ih
  | rest _ _ _ _ ih => exact ih
  | leave _ _ ih => exact ih
  | tick _ _ ih => exact ih

lemma subperm (h : w.Stirs l w') : (l ++ w'.pending).Subperm w.pending := by
  induction h with
  | refl => exact List.Subperm.refl _
  | @post l w' front back t message todo _ ht hpost ih =>
    have hpending : w'.pending =
        front.flatMap Task.posts ++ (message :: todo.filterMap TaskStep.message?) ++
          back.flatMap Task.posts := by
      simp [pending, ht, Task.posts, hpost, TaskStep.message?]
    have hafter : pending { w' with
        tasks := front ++ { t with todo } :: back
        mailbox := w'.mailbox ++ [message] } =
        front.flatMap Task.posts ++ todo.filterMap TaskStep.message? ++
          back.flatMap Task.posts := by
      simp [pending, Task.posts]
    refine List.Subperm.trans (List.Perm.subperm ?_) ih
    rw [hpending, hafter, List.append_assoc, List.append_assoc, List.append_assoc]
    apply List.Perm.append_left
    rw [List.singleton_append, List.cons_append]
    exact List.perm_middle.symm
  | @rest l w' front back t millis todo _ ht hsleep due ih =>
    have hpending : pending { w' with tasks := front ++ { t with due, todo } :: back } =
        w'.pending := by
      simp only [pending, ht, List.flatMap_append, List.flatMap_cons, Task.posts, hsleep]
      rfl
    rwa [hpending]
  | @leave l w' front back t _ ht ih =>
    have hsublist : (pending { w' with tasks := front ++ back }).Sublist w'.pending := by
      simp only [pending, ht, List.flatMap_append, List.flatMap_cons]
      exact (List.sublist_append_right _ _).append_left _
    exact (hsublist.append_left l).subperm.trans ih
  | tick _ _ ih => exact ih

end Stirs

structure Accounts (w : Work) (live all : List Engagement) (posted : List Message) : Prop where
  keyed : w.Keyed
  registers : ∀ o g, w.Registers o g ↔ ∃ e ∈ live, e.origin = o ∧ e.generation = g
  subset : live ⊆ all
  old : ∀ e ∈ all, e.generation ≤ w.generation
  distinct : (all.map Engagement.generation).Nodup
  stems : ∀ message ∈ posted ++ w.pending, ∃ e ∈ all, message.StemsFrom e
  once : ∀ g, (posted ++ w.pending).countP (Message.endsAt g) ≤ 1

variable {live live' all : List Engagement} {posted : List Message} {e e' : Engagement}

namespace Accounts

lemma eq_of_generation (h : w.Accounts live all posted) (he : e ∈ all) (he' : e' ∈ all)
    (hg : e.generation = e'.generation) : e = e' :=
  List.inj_on_of_nodup_map h.distinct he he' hg

lemma of_subperm {posted' : List Message} (h : w.Accounts live all posted)
    (ht : w'.timers = w.timers) (hs : w'.services = w.services)
    (hg : w'.generation = w.generation)
    (hp : (posted' ++ w'.pending).Subperm (posted ++ w.pending)) :
    w'.Accounts live all posted' := by
  have hregisters : ∀ o g, w'.Registers o g ↔ w.Registers o g := by
    intro o g
    cases o with
    | timer n key => rw [Registers, Registers, ht]
    | completion id => rw [Registers, Registers, hs]
    | emission id => rfl
  refine ⟨⟨ht ▸ h.keyed.timers, hs ▸ h.keyed.services⟩, fun o g => ?_, h.subset, hg ▸ h.old,
    h.distinct, fun message hm => h.stems message (hp.subset hm),
    fun g => Nat.le_trans (hp.countP_le _) (h.once g)⟩
  rw [hregisters, h.registers]

lemma of_eq (h : w.Accounts live all posted) (ht : w'.timers = w.timers)
    (hs : w'.services = w.services) (hg : w'.generation = w.generation)
    (hp : w'.pending = w.pending) : w'.Accounts live all posted :=
  h.of_subperm ht hs hg (hp ▸ List.Subperm.refl _)

lemma drop (h : w.Accounts live all posted) (hd : w.Drops w' Q) [DecidablePred Q] :
    w'.Accounts (live.filter fun e => Q e.origin) all posted := by
  refine ⟨hd.keyed h.keyed, fun o g => ?_, fun e he => h.subset (List.mem_filter.1 he).1,
    fun e he => Nat.le_trans (h.old e he) hd.generation, h.distinct, hd.pending ▸ h.stems,
    hd.pending ▸ h.once⟩
  rw [hd.registers, h.registers]
  constructor
  · rintro ⟨⟨e, he, ho, hg⟩, hq⟩
    exact ⟨e, List.mem_filter.2 ⟨he, by simpa [ho] using hq⟩, ho, hg⟩
  · rintro ⟨e, he, ho, hg⟩
    obtain ⟨he, hq⟩ := List.mem_filter.1 he
    exact ⟨⟨e, he, ho, hg⟩, by simpa [ho] using hq⟩

lemma shutdown (h : w.Accounts live all posted) : w.shutdown.Accounts [] all posted := by
  have hnone := h.drop w.shutdown_drops
  rwa [List.filter_eq_nil_iff.2 (by simp)] at hnone

lemma retire (h : w.Accounts live all posted) {message : Message} (hl : message.isLast)
    (hr : w.Registers message.origin message.generation) :
    (w.retire message).Accounts (live.filter fun e => e.generation ≠ message.generation) all
      posted := by
  have hsame : live.filter (fun e => e.generation ≠ message.generation) =
      live.filter fun e => e.origin ≠ message.origin := by
    apply List.filter_congr
    intro e he
    obtain ⟨e', he', ho', hg'⟩ := (h.registers _ _).1 hr
    apply decide_eq_decide.2
    apply not_congr
    constructor
    · intro hg
      rw [h.eq_of_generation (h.subset he) (h.subset he') (hg.trans hg'.symm), ho']
    · intro ho
      have hre : w.Registers message.origin e.generation := (h.registers _ _).2 ⟨e, he, ho, rfl⟩
      exact hre.unique h.keyed hr
  rw [hsame]
  have hdrops : w.Drops (w.retire message) (· ≠ message.origin) := by
    rw [Message.isLast] at hl
    rw [Work.retire]
    split
    · rename_i n key ho
      exact ((Drops.refl w).stopTimer n key).imp fun o => by rw [ho, true_and]
    · rename_i id ho
      exact ((Drops.refl w).stopService id).imp fun o => by rw [ho, true_and]
    · rename_i id ho
      simp [ho] at hl
  exact h.drop hdrops

lemma countP_endsAt {l : List Message} {g' : Nat}
    (hl : ∀ message ∈ l, message.generation = g') :
    l.countP (Message.endsAt g) = if g' = g then l.countP Message.isLast else 0 := by
  split
  · rename_i hg
    apply List.countP_congr
    intro message hm
    simp [Message.endsAt, hl message hm, hg]
  · rename_i hg
    apply List.countP_eq_zero.2
    intro message hm
    simp [Message.endsAt, hl message hm, hg]

lemma generation_le (h : w.Accounts live all posted) {message : Message}
    (hm : message ∈ posted ++ w.pending) : message.generation ≤ w.generation := by
  obtain ⟨e, he, hs⟩ := h.stems message hm
  rw [hs.generation]
  exact h.old e he

lemma registers_enrol (h : w.Accounts live all posted) (hfresh : ∀ e ∈ live, e.origin ≠ o)
    (he : w.Enrols w' o) (n : NodeId) (o' : Origin) (g : Nat) :
    w'.Registers o' g ↔
      ∃ e ∈ live ++ [⟨n, o, w.generation + 1⟩], e.origin = o' ∧ e.generation = g := by
  rw [he.registers, h.registers]
  constructor
  · rintro (⟨⟨e, hmem, ho, hg⟩, _⟩ | ⟨rfl, rfl⟩)
    · exact ⟨e, List.mem_append_left _ hmem, ho, hg⟩
    · exact ⟨_, List.mem_append_right _ (List.mem_singleton.2 rfl), rfl, rfl⟩
  · rintro ⟨e, hmem, rfl, rfl⟩
    cases List.mem_append.1 hmem with
    | inl hmem => exact .inl ⟨⟨e, hmem, rfl, rfl⟩, hfresh e hmem⟩
    | inr hmem =>
      obtain rfl := List.mem_singleton.1 hmem
      exact .inr ⟨rfl, rfl⟩

lemma once_enrol (h : w.Accounts live all posted) {l : List Message}
    (hl : ∀ message ∈ l, message.generation = w.generation + 1)
    (hlast : l.countP Message.isLast ≤ 1) (g : Nat) :
    (posted ++ w.pending ++ l).countP (Message.endsAt g) ≤ 1 := by
  rw [List.countP_append, countP_endsAt hl]
  split
  · rename_i hg
    have hnone : (posted ++ w.pending).countP (Message.endsAt g) = 0 := by
      apply List.countP_eq_zero.2
      intro message hm
      have hle := h.generation_le hm
      have hne : message.generation ≠ g := by omega
      simp [Message.endsAt, hne]
    omega
  · exact h.once g

lemma enrol (h : w.Accounts live all posted) (hfresh : ∀ e ∈ live, e.origin ≠ o)
    (he : w.Enrols w' o) (n : NodeId) :
    w'.Accounts (live ++ [⟨n, o, w.generation + 1⟩]) (all ++ [⟨n, o, w.generation + 1⟩])
      posted := by
  obtain ⟨l, hl, hlast, hstems⟩ := he.pending
  refine ⟨he.keyed h.keyed, h.registers_enrol hfresh he n, ?_, fun e hmem => ?_, ?_,
    fun message hm => ?_, fun g => ?_⟩
  · apply List.append_subset.2
    exact ⟨List.subset_append_of_subset_left _ h.subset, List.subset_append_right _ _⟩
  · rw [he.generation]
    cases List.mem_append.1 hmem with
    | inl hmem => exact Nat.le_succ_of_le (h.old e hmem)
    | inr hmem => rw [List.mem_singleton.1 hmem]
  · rw [List.map_append, List.map_singleton, ← List.concat_eq_append]
    apply h.distinct.concat
    intro hmem
    obtain ⟨e, hmem, hg⟩ := List.mem_map.1 hmem
    have hold := h.old e hmem
    simp only at hg
    omega
  · rw [hl, ← List.append_assoc] at hm
    cases List.mem_append.1 hm with
    | inl hm =>
      obtain ⟨e, hmem, hs⟩ := h.stems message hm
      exact ⟨e, List.mem_append_left _ hmem, hs⟩
    | inr hm =>
      refine ⟨⟨n, o, w.generation + 1⟩, List.mem_append_right _ (List.mem_singleton.2 rfl), ?_⟩
      exact ⟨(hstems message hm).1, (hstems message hm).2⟩
  · rw [hl, ← List.append_assoc]
    exact h.once_enrol (fun message hm => (hstems message hm).1) hlast g

lemma enrolled {os : List Origin} (h : w.Accounts live all posted) (he : w.Enrolled os w')
    (hn : os.Nodup) (hfresh : ∀ e ∈ live, e.origin ∉ os) (n : NodeId) :
    w'.Accounts (live ++ engage n os w.generation) (all ++ engage n os w.generation) posted := by
  induction he with
  | refl => simpa [engage] using h
  | @next w' w'' o os he hnext ih =>
    rw [← List.concat_eq_append, List.nodup_concat] at hn
    have hbefore := ih hn.2 fun e hmem ho => hfresh e hmem (List.mem_append_left _ ho)
    have hafter := hbefore.enrol (fun e hmem ho => ?_) hnext n
    · rw [engage_append, ← he.generation, engage_singleton]
      simpa only [List.append_assoc] using hafter
    · cases List.mem_append.1 hmem with
      | inl hmem => exact hfresh e hmem (ho ▸ List.mem_append_right _ (List.mem_singleton.2 rfl))
      | inr hmem => exact hn.1 (ho ▸ origin_of_mem_engage hmem)
  | busy _ activities ih => exact (ih hn hfresh).of_eq rfl rfl rfl rfl

lemma stirs {l : List Message} (h : w.Accounts live all posted) (hs : w.Stirs l w') :
    w'.Accounts live all (posted ++ l) := by
  obtain ⟨htimers, hservices, hgeneration⟩ := hs.tables
  apply h.of_subperm htimers hservices hgeneration
  rw [List.append_assoc]
  exact (List.subperm_append_left posted).2 hs.subperm

lemma emit (h : w.Accounts live all posted) {message : Message} (he : e ∈ all)
    (hs : message.StemsFrom e) (hlast : message.isLast = false) :
    (w.post message).Accounts live all (posted ++ [message]) := by
  have hp : (posted ++ [message] ++ (w.post message).pending).Perm
      (message :: (posted ++ w.pending)) := by
    rw [List.append_assoc]
    exact List.perm_middle
  refine ⟨⟨h.keyed.timers, h.keyed.services⟩, fun o g => ?_, h.subset, h.old, h.distinct,
    fun message' hm => ?_, fun g => ?_⟩
  · rw [← h.registers]
    cases o <;> rfl
  · cases List.mem_cons.1 (hp.mem_iff.1 hm) with
    | inl he' => exact ⟨e, he, he' ▸ hs⟩
    | inr hm => exact h.stems message' hm
  · rw [hp.countP_eq, List.countP_cons_of_neg (by simp [Message.endsAt, hlast])]
    exact h.once g

end Accounts

end Work

end Statechart
