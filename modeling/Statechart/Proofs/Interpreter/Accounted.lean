import Mathlib.Tactic.Common
import Statechart.Proofs.Interpreter.Registered

/-! What happened accounts for what there is. The tables hold the engagements that are still live
after all that happened, and the mailbox what was posted and not taken yet; every move keeps it so.
-/

namespace Statechart

def Occurrence.engaged? : Occurrence → Option Engagement
  | .engaged e => some e
  | _ => none

def Occurrence.posted? : Occurrence → Option Message
  | .posted message => some message
  | _ => none

def Occurrence.taken? : Occurrence → Option Message
  | .taken message _ => some message
  | _ => none

attribute [simp] Occurrence.engaged? Occurrence.posted? Occurrence.taken?

def engagedIn (past : List Occurrence) : List Engagement := past.filterMap Occurrence.engaged?

def postedIn (past : List Occurrence) : List Message := past.filterMap Occurrence.posted?

def takenIn (past : List Occurrence) : List Message := past.filterMap Occurrence.taken?

@[simp]
def Occurrence.after (live : List Engagement) : Occurrence → List Engagement
  | .engaged e => live ++ [e]
  | .left n => live.filter (·.node ≠ n)
  | .stopped => []
  | .posted _ => live
  | .taken message handed =>
    if handed && message.isLast then live.filter (·.generation ≠ message.generation) else live

def liveIn (past : List Occurrence) : List Engagement := past.foldl Occurrence.after []

section

variable {past l : List Occurrence} {e : Engagement}

lemma mem_engagedIn : e ∈ engagedIn past ↔ .engaged e ∈ past := by
  rw [engagedIn, List.mem_filterMap]
  constructor
  · rintro ⟨o, ho, he⟩
    cases o with
    | engaged e' => exact Option.some.inj he ▸ ho
    | _ => exact absurd he (by simp)
  · exact fun h => ⟨_, h, rfl⟩

lemma mem_takenIn {message : Message} : message ∈ takenIn past ↔ ∃ b, .taken message b ∈ past := by
  rw [takenIn, List.mem_filterMap]
  constructor
  · rintro ⟨o, ho, he⟩
    cases o with
    | taken message' b => exact ⟨b, Option.some.inj he ▸ ho⟩
    | _ => exact absurd he (by simp)
  · exact fun ⟨b, h⟩ => ⟨_, h, rfl⟩

@[simp]
lemma engagedIn_append : engagedIn (past ++ l) = engagedIn past ++ engagedIn l :=
  List.filterMap_append ..

@[simp]
lemma postedIn_append : postedIn (past ++ l) = postedIn past ++ postedIn l :=
  List.filterMap_append ..

@[simp]
lemma takenIn_append : takenIn (past ++ l) = takenIn past ++ takenIn l :=
  List.filterMap_append ..

@[simp]
lemma engagedIn_singleton (o : Occurrence) : engagedIn [o] = o.engaged?.toList := by
  cases o <;> rfl

@[simp]
lemma postedIn_singleton (o : Occurrence) : postedIn [o] = o.posted?.toList := by
  cases o <;> rfl

@[simp]
lemma takenIn_singleton (o : Occurrence) : takenIn [o] = o.taken?.toList := by
  cases o <;> rfl

@[simp]
lemma liveIn_append : liveIn (past ++ l) = l.foldl Occurrence.after (liveIn past) :=
  List.foldl_append ..

lemma foldl_after_left (nodes : List NodeId) (live : List Engagement) :
    (nodes.map .left).foldl Occurrence.after live = live.filter (·.node ∉ nodes) := by
  induction nodes generalizing live with
  | nil => simp
  | cons n nodes ih =>
    rw [List.map_cons, List.foldl_cons, ih, Occurrence.after, List.filter_filter]
    apply List.filter_congr
    intro e _
    simp [not_or, Bool.and_comm]

lemma foldl_after_engaged (es live : List Engagement) :
    (es.map .engaged).foldl Occurrence.after live = live ++ es := by
  induction es generalizing live with
  | nil => simp
  | cons e es ih => rw [List.map_cons, List.foldl_cons, ih, Occurrence.after, List.append_assoc,
      List.singleton_append]

lemma foldl_after_posted (messages : List Message) (live : List Engagement) :
    (messages.map .posted).foldl Occurrence.after live = live := by
  induction messages with
  | nil => rfl
  | cons message messages ih => exact ih

def Occurrence.Spares (e : Engagement) : Occurrence → Prop
  | .left n => e.node ≠ n
  | .stopped => False
  | .taken message handed => handed → message.isLast → e.generation ≠ message.generation
  | _ => True

lemma mem_after {live : List Engagement} {o : Occurrence} (ho : o ≠ .engaged e) :
    e ∈ o.after live ↔ e ∈ live ∧ o.Spares e := by
  cases o with
  | engaged e' =>
    have hne : e ≠ e' := fun he => ho (he ▸ rfl)
    simp [Occurrence.after, Occurrence.Spares, hne]
  | left n => simp [Occurrence.after, Occurrence.Spares]
  | stopped => simp [Occurrence.after, Occurrence.Spares]
  | posted message => simp [Occurrence.after, Occurrence.Spares]
  | taken message handed =>
    cases handed with
    | false => simp [Occurrence.after, Occurrence.Spares]
    | true => cases hl : message.isLast <;> simp [Occurrence.after, Occurrence.Spares, hl]

lemma spares_iff {since : List Occurrence} : (∀ o ∈ since, o.Spares e) ↔
    .left e.node ∉ since ∧ .stopped ∉ since ∧
      ∀ message, .taken message true ∈ since → message.isLast →
        e.generation ≠ message.generation := by
  constructor
  · intro h
    exact ⟨fun hmem => h _ hmem rfl, fun hmem => h _ hmem, fun message hmem => h _ hmem rfl⟩
  · rintro ⟨hleft, hstopped, htaken⟩ o ho
    cases o with
    | left n => exact fun he => hleft (he ▸ ho)
    | stopped => exact hstopped ho
    | taken message handed => exact fun hh => htaken message (hh ▸ ho)
    | engaged e' => trivial
    | posted message => trivial

lemma mem_foldl_after {since : List Occurrence} {live : List Engagement}
    (h : .engaged e ∉ since) :
    e ∈ since.foldl Occurrence.after live ↔ e ∈ live ∧ ∀ o ∈ since, o.Spares e := by
  induction since generalizing live with
  | nil => simp
  | cons o since ih =>
    rw [List.mem_cons, not_or] at h
    rw [List.foldl_cons, ih h.2, mem_after (Ne.symm h.1), List.forall_mem_cons, and_assoc]

lemma mem_liveIn {earlier since : List Occurrence} (h : .engaged e ∉ since) :
    e ∈ liveIn (earlier ++ .engaged e :: since) ↔ ∀ o ∈ since, o.Spares e := by
  rw [liveIn_append, List.foldl_cons, mem_foldl_after h]
  simp [Occurrence.after]

end

namespace Interpreter

variable {C : Type} {m : Machine C} {i i' : Interpreter C} {live all : List Engagement}
  {posted : List Message} {past : List Occurrence}

section

variable (hd : m.OriginsDistinct) (l : List NodeId) (hm : i.machine = m)
  (h : i.work.Accounts live all posted) (ho : ∀ e ∈ live, e.origin ∈ m.originsOf e.node)

include hd hm h ho

lemma accounts_stopWork :
    (l.foldl stopWork i).work.Accounts (live.filter (·.node ∉ l)) all posted ∧
      (l.foldl stopWork i).work.mailbox = i.work.mailbox := by
  induction l generalizing i live with
  | nil => simpa using h
  | cons n l ih =>
    have hdrops : i.work.Drops (i.stopWork n).work (· ∉ m.originsOf n) := by
      rw [stopWork_work, hm]
      exact i.work.relieve_drops m n
    have hfirst := h.drop hdrops
    have hfilter : live.filter (fun e => e.origin ∉ m.originsOf n) =
        live.filter (·.node ≠ n) := by
      apply List.filter_congr
      intro e he
      apply decide_eq_decide.2
      apply not_congr
      exact ⟨hd.unique e.node n e.origin (ho e he), fun hn => hn ▸ ho e he⟩
    rw [hfilter] at hfirst
    have hmachine : (i.stopWork n).machine = m := by rw [busies_stopWork i n]; exact hm
    obtain ⟨haccounts, hmailbox⟩ := ih hmachine hfirst fun e he => ho e (List.mem_filter.1 he).1
    refine ⟨?_, hmailbox.trans hdrops.mailbox⟩
    rw [List.filter_filter] at haccounts
    rw [List.foldl_cons]
    have hboth : live.filter (fun e => e.node ∉ n :: l) =
        live.filter fun e => decide (e.node ∉ l) && decide (e.node ≠ n) := by
      apply List.filter_congr
      intro e _
      simp [not_or, Bool.and_comm]
    rwa [hboth]

lemma accounts_startWork {event : Event} {s : MachineState C} (hn : l.Nodup)
    (hs : i.state = some s) (hw : i.work.hasRuntime) (hfresh : ∀ e ∈ live, e.node ∉ l) :
    (l.foldl (startWork event) i).work.Accounts
        (live ++ m.engagements i.work.generation l) (all ++ m.engagements i.work.generation l)
        posted ∧
      (l.foldl (startWork event) i).work.mailbox = i.work.mailbox := by
  induction l generalizing i live all with
  | nil => simpa [Machine.engagements] using h
  | cons n l ih =>
    obtain ⟨hnew, hn⟩ := List.nodup_cons.1 hn
    have henrolled : i.work.Enrolled (m.originsOf n) (startWork event i n).work := by
      rw [startWork_work event n hs, hm]
      exact Work.employ_enrolled m n s.context event hw
    have hfirst := h.enrolled henrolled (hd.nodup n) (fun e he ho' => hfresh e he
      (hd.unique _ _ _ (ho e he) ho' ▸ List.mem_cons_self)) n
    have hb := busies_startWork event i n
    have hmachine : (startWork event i n).machine = m := by rw [hb]; exact hm
    have hstate : (startWork event i n).state = some s := by rw [hb]; exact hs
    have horigins : ∀ e ∈ live ++ engage n (m.originsOf n) i.work.generation,
        e.origin ∈ m.originsOf e.node ∧ e.node ∉ l := by
      intro e he
      cases List.mem_append.1 he with
      | inl he => exact ⟨ho e he, fun hl => hfresh e he (List.mem_cons_of_mem _ hl)⟩
      | inr he =>
        rw [node_of_mem_engage he]
        exact ⟨origin_of_mem_engage he, hnew⟩
    obtain ⟨haccounts, hmailbox⟩ := ih hmachine hfirst (fun e he => (horigins e he).1) hn hstate
      (henrolled.runtime.trans hw) fun e he => (horigins e he).2
    refine ⟨?_, hmailbox.trans henrolled.mailbox⟩
    rw [henrolled.generation] at haccounts
    rw [List.foldl_cons, Machine.engagements_cons, ← List.append_assoc, ← List.append_assoc]
    exact haccounts

omit hd hm ho in
lemma accounts_startWork_idle {event : Event} (hw : i.work.hasRuntime = false) :
    (l.foldl (startWork event) i).work.Accounts live all posted ∧
      (l.foldl (startWork event) i).work.mailbox = i.work.mailbox := by
  induction l generalizing i with
  | nil => exact ⟨h, rfl⟩
  | cons n l ih =>
    cases hs : i.state with
    | none =>
      have hsame : startWork event i n = i := by simp only [startWork, hs]
      rw [List.foldl_cons, hsame]
      exact ih h hw
    | some s =>
      have henrolled : i.work.Enrolled [] (startWork event i n).work := by
        rw [startWork_work event n hs]
        exact Work.employ_idle n _ s.context event hw
      have hfirst := h.enrolled henrolled List.nodup_nil (fun _ _ => List.not_mem_nil) n
      obtain ⟨haccounts, hmailbox⟩ := ih (by simpa [engage] using hfirst)
        (henrolled.runtime.trans hw)
      exact ⟨haccounts, hmailbox.trans henrolled.mailbox⟩

end

/-- The tables hold what is live after what happened, which belongs to active states, and the
mailbox holds what was posted and not taken yet. -/
structure Accounted (m : Machine C) (i : Interpreter C) (past : List Occurrence) : Prop where
  machine : i.machine = m
  accounts : i.work.Accounts (liveIn past) (engagedIn past) (postedIn past)
  origins : ∀ e ∈ liveIn past, e.origin ∈ m.originsOf e.node
  active : ∀ e ∈ liveIn past, i.status = .running ∧
    ∃ s, i.state = some s ∧ e.node ∈ s.configuration
  fifo : postedIn past = takenIn past ++ i.work.mailbox

lemma Accounted.of_eq (h : Accounted m i past) (hm : i'.machine = i.machine)
    (hst : i'.status = i.status) (hs : i'.state = i.state) (hw : i'.work = i.work) :
    Accounted m i' past := by
  refine ⟨hm.trans h.machine, hw ▸ h.accounts, h.origins, ?_, hw ▸ h.fifo⟩
  rw [hst, hs]
  exact h.active

lemma Accounted.liveIn_eq_nil (h : Accounted m i past) (hr : i.status ≠ .running) :
    liveIn past = [] := by
  apply List.eq_nil_iff_forall_not_mem.2
  exact fun e he => hr (h.active e he).1

@[simp]
lemma engagedIn_map_left (nodes : List NodeId) : engagedIn (nodes.map .left) = [] := by
  simp [engagedIn, List.filterMap_map, Function.comp_def]

@[simp]
lemma postedIn_map_left (nodes : List NodeId) : postedIn (nodes.map .left) = [] := by
  simp [postedIn, List.filterMap_map, Function.comp_def]

@[simp]
lemma takenIn_map_left (nodes : List NodeId) : takenIn (nodes.map .left) = [] := by
  simp [takenIn, List.filterMap_map, Function.comp_def]

@[simp]
lemma engagedIn_map_posted (l : List Message) : engagedIn (l.map .posted) = [] := by
  simp [engagedIn, List.filterMap_map, Function.comp_def]

@[simp]
lemma postedIn_map_posted (l : List Message) : postedIn (l.map .posted) = l := by
  simp [postedIn, List.filterMap_map, Function.comp_def]

@[simp]
lemma takenIn_map_posted (l : List Message) : takenIn (l.map .posted) = [] := by
  simp [takenIn, List.filterMap_map, Function.comp_def]

lemma engagedIn_startings (l : List NodeId) : engagedIn (i.startings l) =
    if i.work.hasRuntime then i.machine.engagements i.work.generation l else [] := by
  rw [startings]
  split
  · simp [engagedIn, List.filterMap_map, Function.comp_def]
  · rfl

@[simp]
lemma postedIn_startings (l : List NodeId) : postedIn (i.startings l) = [] := by
  rw [startings]
  split
  · simp [postedIn, List.filterMap_map, Function.comp_def]
  · rfl

@[simp]
lemma takenIn_startings (l : List NodeId) : takenIn (i.startings l) = [] := by
  rw [startings]
  split
  · simp [takenIn, List.filterMap_map, Function.comp_def]
  · rfl

lemma liveIn_startings (l : List NodeId) : liveIn (past ++ i.startings l) =
    liveIn past ++ engagedIn (i.startings l) := by
  rw [liveIn_append, engagedIn_startings, startings]
  split
  · exact foldl_after_engaged _ _
  · exact (List.append_nil _).symm

lemma mem_engagements {g : Nat} {l : List NodeId} {e : Engagement} (h : e ∈ m.engagements g l) :
    e.node ∈ l ∧ e.origin ∈ m.originsOf e.node := by
  obtain ⟨⟨⟨n, o⟩, k⟩, hmem, rfl⟩ := List.mem_map.1 h
  have hpair := List.fst_mem_of_mem_zipIdx hmem
  simp only [List.mem_flatMap, List.mem_map, Prod.mk.injEq] at hpair
  obtain ⟨_, hn, _, ho, rfl, rfl⟩ := hpair
  exact ⟨hn, ho⟩

lemma mem_engagedIn_startings {l : List NodeId} {e : Engagement} (hm : i.machine = m)
    (h : e ∈ engagedIn (i.startings l)) : e.node ∈ l ∧ e.origin ∈ m.originsOf e.node := by
  rw [engagedIn_startings, hm] at h
  split at h
  · exact mem_engagements h
  · exact absurd h List.not_mem_nil

lemma Accounted.stop (h : Accounted m i past) : Accounted m i.stop (past ++ [.stopped]) := by
  have hrest : ∀ {j : Interpreter C}, j.machine = m →
      j.work.Accounts [] (engagedIn past) (postedIn past) → j.work.mailbox = i.work.mailbox →
      Accounted m j (past ++ [.stopped]) := by
    intro j hm hacc hmail
    exact ⟨hm, by simpa using hacc, by simp, by simp, by simpa [hmail] using h.fifo⟩
  have hidle : i.status ≠ .running → i.work.Accounts [] (engagedIn past) (postedIn past) :=
    fun hr => h.liveIn_eq_nil hr ▸ h.accounts
  rw [Interpreter.stop]
  split
  · rename_i hs
    exact hrest h.machine (hidle (by simp [hs])) rfl
  · rename_i hs
    exact hrest h.machine (hidle (by simp [hs])) rfl
  · obtain ⟨trace, hl⟩ := leave_eq ({ i with status := .stopped } : Interpreter C).shutdown
    rw [hl]
    exact hrest h.machine h.accounts.shutdown rfl

section

variable (hd : m.OriginsDistinct) (h : Accounted m i past) (hr : i.status = .running)

include hd h hr

lemma Accounted.stopWork {l exits : List NodeId} {s : MachineState C}
    (hl : ∀ e ∈ liveIn past, e.node ∈ l ↔ e.node ∈ exits)
    (hs : ∀ e ∈ liveIn past, e.node ∉ exits → e.node ∈ s.configuration) (sends : List Event) :
    Accounted m ((l.foldl Interpreter.stopWork i).moveTo s sends) (past ++ exits.map .left) := by
  have hb := busies_foldl busies_stopWork l i
  obtain ⟨haccounts, hmailbox⟩ := accounts_stopWork hd l h.machine h.accounts h.origins
  have hlive : liveIn (past ++ exits.map .left) = (liveIn past).filter (·.node ∉ l) := by
    rw [liveIn_append, foldl_after_left]
    apply List.filter_congr
    intro e he
    apply decide_eq_decide.2
    rw [hl e he]
  have hmem : ∀ e ∈ liveIn (past ++ exits.map .left), e ∈ liveIn past ∧ e.node ∉ exits := by
    intro e he
    rw [liveIn_append, foldl_after_left, List.mem_filter, decide_eq_true_eq] at he
    exact he
  refine ⟨?_, ?_, fun e he => h.origins e (hmem e he).1, fun e he => ⟨?_, s, rfl, ?_⟩, ?_⟩
  · rw [moveTo, hb]
    exact h.machine
  · rw [hlive, engagedIn_append, postedIn_append, engagedIn_map_left, postedIn_map_left,
      List.append_nil, List.append_nil]
    exact haccounts
  · rw [moveTo, hb]
    exact hr
  · exact hs e (hmem e he).1 (hmem e he).2
  · rw [postedIn_append, takenIn_append, postedIn_map_left, takenIn_map_left, List.append_nil,
      List.append_nil, h.fifo]
    exact congrArg _ hmailbox.symm

lemma Accounted.startWork {l : List NodeId} {s : MachineState C} (hs : i.state = some s)
    (hn : l.Nodup) (hfresh : ∀ e ∈ liveIn past, e.node ∉ l) (hl : ∀ n ∈ l, n ∈ s.configuration)
    (event : Event) :
    Accounted m (l.foldl (Interpreter.startWork event) i) (past ++ i.startings l) := by
  have hb := busies_foldl (busies_startWork event) l i
  have hwork : (l.foldl (Interpreter.startWork event) i).work.Accounts
      (liveIn past ++ engagedIn (i.startings l)) (engagedIn past ++ engagedIn (i.startings l))
      (postedIn past) ∧
      (l.foldl (Interpreter.startWork event) i).work.mailbox = i.work.mailbox := by
    rw [engagedIn_startings, h.machine]
    split
    · rename_i hw
      exact accounts_startWork hd l h.machine h.accounts h.origins hn hs hw hfresh
    · rename_i hw
      rw [List.append_nil, List.append_nil]
      exact accounts_startWork_idle l h.accounts (by simpa using hw)
  refine ⟨?_, ?_, fun e he => ?_, fun e he => ⟨?_, s, ?_, ?_⟩, ?_⟩
  · rw [hb]
    exact h.machine
  · rw [liveIn_startings, engagedIn_append, postedIn_append, postedIn_startings, List.append_nil]
    exact hwork.1
  · rw [liveIn_startings] at he
    cases List.mem_append.1 he with
    | inl he => exact h.origins e he
    | inr he => exact (mem_engagedIn_startings h.machine he).2
  · rw [hb]
    exact hr
  · rw [hb]
    exact hs
  · rw [liveIn_startings] at he
    cases List.mem_append.1 he with
    | inl he =>
      obtain ⟨_, s', hs', hmem⟩ := h.active e he
      obtain rfl := Option.some.inj (hs.symm.trans hs')
      exact hmem
    | inr he => exact hl _ (mem_engagedIn_startings h.machine he).1
  · rw [postedIn_append, takenIn_append, postedIn_startings, takenIn_startings, List.append_nil,
      List.append_nil, hwork.2]
    exact h.fifo

end

lemma stopWork_generation (i : Interpreter C) (n : NodeId) :
    (i.stopWork n).work.generation = i.work.generation := by
  rw [stopWork_work, Work.relieve_generation]

lemma startings_moveTo (l nodes : List NodeId) (s : MachineState C) (sends : List Event) :
    ((l.foldl stopWork i).moveTo s sends).startings nodes = i.startings nodes := by
  have hb := busies_foldl busies_stopWork l i
  have hw := foldl_keeps (fun i : Interpreter C => i.work.hasRuntime) stopWork_hasRuntime l i
  have hg := foldl_keeps (fun i : Interpreter C => i.work.generation) stopWork_generation l i
  have hm : (l.foldl stopWork i).machine = i.machine := by rw [hb]
  simp only [startings, moveTo, hw, hg, hm]

lemma Accounted.adopt {s : Configuration} {step : Step C} {exits : List NodeId}
    (hd : m.OriginsDistinct) (h : Accounted m i past) (hr : i.status = .running)
    (hs : ∀ e ∈ liveIn past, e.node ∈ s)
    (hn : Lifecycle.Nets s step.state.configuration step.lifecycle)
    (hexits : ∀ x ∈ s, .exited x ∈ step.lifecycle ↔ x ∈ exits) (sends : List Event) :
    Accounted m (i.adopt step sends) (past ++ i.adoption step exits) := by
  let moved := (step.exited.foldl Interpreter.stopWork i).moveTo step.state sends
  have hexited : ∀ e ∈ liveIn past, e.node ∈ step.exited ↔ e.node ∈ exits := by
    intro e he
    rw [Step.exited, Lifecycle.mem_exitedNodes, hexits _ (hs e he)]
  have hmoved : Accounted m moved (past ++ exits.map .left) := by
    apply h.stopWork hd hr hexited
    intro e he hx
    exact (hn.mem _).2 (.inl ⟨hs e he, fun hmem => hx ((hexits _ (hs e he)).1 hmem)⟩)
  have hb : (step.exited.foldl Interpreter.stopWork i).status = i.status := by
    rw [busies_foldl busies_stopWork step.exited i]
  have hrunning : moved.status = .running := hb.trans hr
  have hstarted : Accounted m (i.trade step sends)
      (past ++ exits.map .left ++ i.startings step.entered) := by
    rw [← startings_moveTo step.exited step.entered step.state sends]
    apply hmoved.startWork hd hrunning rfl hn.once
    · -- what is live now was not exited, and nothing is entered again without being exited
      intro e he hent
      rw [liveIn_append, foldl_after_left, List.mem_filter, decide_eq_true_eq] at he
      have hent := Lifecycle.mem_enteredNodes.1 hent
      exact he.2 ((hexits _ (hs e he.1)).1 (hn.again _ hent (hs e he.1)))
    · exact fun n hmem => (hn.mem n).2 (.inr (Lifecycle.mem_enteredNodes.1 hmem))
  have hshown : Accounted m ((i.trade step sends).display step (i.logged step))
      (past ++ exits.map .left ++ i.startings step.entered) := hstarted.of_eq rfl rfl rfl rfl
  rw [adopt_eq, adoption, ← List.append_assoc, ← List.append_assoc]
  split
  · exact hshown.stop
  · rw [List.append_nil]
    exact hshown

lemma commitment_cases (i : Interpreter C) (step : Step C) (exits : List NodeId) :
    (i.commitment step exits = [] ∧
        i.commit step = ({ i with metadata := i.metadata.advance i.date }, none)) ∨
      ∃ notes, (∃ e, i.commitment step exits = [] ∧ i.commit step = (i.observe notes, some e)) ∨
        ∃ sends, i.commitment step exits = i.adoption step exits ∧
          i.commit step = ((i.observe notes).adopt step sends, none) := by
  rw [commitment, commit]
  cases step.changed with
  | false => exact .inl ⟨rfl, rfl⟩
  | true =>
    refine .inr ?_
    rcases i.performStep step with ⟨notes, e | sends⟩
    · exact ⟨notes, .inl ⟨e, rfl, rfl⟩⟩
    · exact ⟨notes, .inr ⟨sends, rfl, rfl⟩⟩

section

variable (hd : m.OriginsDistinct) (h : Accounted m i past)

lemma Accounted.nothing (h : Accounted m i past) : Accounted m i (past ++ []) := by
  rwa [List.append_nil]

include hd h

lemma Accounted.process (hr : i.status = .running) (event : Event) :
    Accounted m (i.process event).1 (past ++ i.happenings event) := by
  cases hs : i.state with
  | none =>
    simp only [Interpreter.process, happenings, hs]
    exact h.nothing
  | some s =>
    cases hstep : i.machine.stepWithin s event i.settings.maxMicrosteps with
    | error e =>
      simp only [Interpreter.process, happenings, hs, hstep]
      exact h.nothing.of_eq rfl rfl rfl rfl
    | ok step =>
      simp only [Interpreter.process, happenings, hs, hstep, commitOrReport]
      rcases commitment_cases i step (i.machine.exitsOfStep s event i.settings.maxMicrosteps) with
        ⟨hl, hc⟩ | ⟨notes, ⟨e, hl, hc⟩ | ⟨sends, hl, hc⟩⟩
      · rw [hl, hc]
        exact h.nothing.of_eq rfl rfl rfl rfl
      · rw [hl, hc]
        exact h.nothing.of_eq rfl rfl rfl rfl
      · rw [hl, hc]
        have hnoted : Accounted m (i.observe notes) past := h.of_eq rfl rfl rfl rfl
        apply hnoted.adopt hd hr (s := s.configuration)
        · intro e he
          obtain ⟨_, s', hs', hmem⟩ := h.active e he
          obtain rfl := Option.some.inj (hs.symm.trans hs')
          exact hmem
        · exact Machine.stepWithin_nets hstep
        · exact fun x hx => Machine.exited_stepWithin hstep hx

lemma Accounted.enterInitial (hs : i.status = .notStarted) :
    Accounted m i.enterInitial.1 (past ++ i.beginnings) := by
  have hnone := h.liveIn_eq_nil (by simp [hs])
  have hof : ∀ {j : Interpreter C}, j.machine = m → j.work = i.work → Accounted m j past := by
    intro j hm hw
    exact ⟨hm, hw ▸ h.accounts, h.origins, by simp [hnone], hw ▸ h.fifo⟩
  cases hstep : i.machine.initialStepFrom i.machine.context i.settings.maxMicrosteps with
  | error e =>
    simp only [Interpreter.enterInitial, beginnings, hstep]
    exact h.nothing.of_eq rfl rfl rfl rfl
  | ok step =>
    let exits := i.machine.exitsOfInitial i.machine.context i.settings.maxMicrosteps
    let j : Interpreter C := { i with status := .running, metadata := .startingAt i.date }
    have hsame : j.commitment step exits = i.commitment step exits := rfl
    simp only [Interpreter.enterInitial, beginnings, hstep]
    rcases commitment_cases j step exits with
      ⟨hl, hc⟩ | ⟨notes, ⟨e, hl, hc⟩ | ⟨sends, hl, hc⟩⟩
    · rw [hsame] at hl
      simp only [j, exits] at hl hc
      rw [hl, hc]
      apply Accounted.nothing
      exact hof h.machine rfl
    · rw [hsame] at hl
      simp only [j, exits] at hl hc
      rw [hl, hc]
      apply Accounted.nothing
      exact hof h.machine rfl
    · rw [hsame] at hl
      simp only [j, exits] at hl hc
      rw [hl, hc]
      have hnoted : Accounted m (j.observe notes) past := hof h.machine rfl
      apply hnoted.adopt hd rfl (s := .empty)
      · simp [hnone]
      · exact Machine.initialStepFrom_nets hstep
      · exact fun x hx => absurd hx (SortedSet.not_mem_empty x)

omit hd in
lemma Accounted.take {message : Message} {rest : List Message}
    (hm : i.work.mailbox = message :: rest) :
    Accounted m (i.take message rest)
      (past ++ [.taken message (i.work.isCurrent message)]) := by
  have hlive (b : Bool) : liveIn (past ++ [.taken message b]) =
      Occurrence.after (liveIn past) (.taken message b) := liveIn_append
  have hsubset (b : Bool) : ∀ e ∈ liveIn (past ++ [.taken message b]), e ∈ liveIn past := by
    intro e he
    rw [hlive, mem_after (by simp)] at he
    exact he.1
  have hrest : ∀ {b : Bool} {w : Work}, w.mailbox = rest →
      w.Accounts (liveIn (past ++ [.taken message b])) (engagedIn past) (postedIn past) →
      Accounted m { i with work := w } (past ++ [.taken message b]) := by
    intro b w hmailbox hw
    refine ⟨h.machine, by simpa using hw, fun e he => h.origins e (hsubset b e he),
      fun e he => h.active e (hsubset b e he), ?_⟩
    simp [hmailbox, h.fifo, hm]
  let w : Work := { i.work with mailbox := rest }
  have hw : w.Accounts (liveIn past) (engagedIn past) (postedIn past) :=
    h.accounts.of_eq rfl rfl rfl rfl
  rw [Interpreter.take]
  split
  · rename_i hc
    have hmailbox : (w.retire message).mailbox = rest := by
      rw [Work.retire]
      split <;> rfl
    have hhanded : Accounted m { i with work := w.retire message }
        (past ++ [.taken message true]) := by
      apply hrest hmailbox
      rw [hlive, Occurrence.after, Bool.true_and]
      split
      · rename_i hlast
        apply hw.retire hlast
        rw [Work.isCurrent_iff h.accounts.keyed, Message.source_of_isLast hlast] at hc
        exact hc
      · rename_i hlast
        rw [Work.retire_of_not_isLast hlast]
        exact hw
    rw [hc]
    exact hhanded.of_eq rfl rfl rfl rfl
  · rename_i hc
    rw [Bool.eq_false_iff.2 hc]
    apply hrest rfl
    rw [hlive]
    exact hw

omit hd in
lemma Accounted.stir {l : List Message} {w : Work} (hw : i.work.Stirs l w) :
    Accounted m { i with work := w } (past ++ l.map .posted) := by
  have hlive : liveIn (past ++ l.map .posted) = liveIn past := by
    rw [liveIn_append, foldl_after_posted]
  refine ⟨h.machine, ?_, hlive ▸ h.origins, hlive ▸ h.active, ?_⟩
  · rw [hlive]
    simpa using h.accounts.stirs hw
  · simp [hw.mailbox, h.fifo]

lemma Accounted.move {l : List Occurrence} (hmove : Move i l i') :
    Accounted m i' (past ++ l) := by
  cases hmove with
  | @process event rest hr hq =>
    have hrest : Accounted m { i with queue := rest } past := h.of_eq rfl rfl rfl rfl
    exact hrest.process hd hr event
  | enter hs => exact h.enterInitial hd hs
  | take hr hm => exact h.take hm
  | stir hw => exact h.stir hw
  | enqueue events => exact h.nothing.of_eq rfl rfl rfl rfl
  | aside haside =>
    rw [haside]
    exact h.nothing.of_eq rfl rfl rfl rfl
  | stop => exact h.stop

end

end Interpreter

end Statechart
