import Mathlib.Tactic.Common
import Statechart.Machine.Build
import Statechart.Proofs.Checkpoint.Restore
import Statechart.Proofs.Interpreter.Accounted

/-! Journeys of an interpreter: its moves from the beginning, while tasks post at any time and
handles of services are kept. -/

namespace Statechart

/-- A message stems from an engagement, and is handed over if and only if since then its state was
not left, nothing was stopped and, for an emission, no last message was handed over. -/
def TakenRightly (before : List Occurrence) (message : Message) (handed : Bool) : Prop :=
  ∃ e earlier since, before = earlier ++ .engaged e :: since ∧ message.StemsFrom e ∧
    (handed ↔ .left e.node ∉ since ∧ .stopped ∉ since ∧
      (message.isLast = false → ∀ last, .taken last true ∈ since → ¬ last.endsAt e.generation))

def AllRightly (past : List Occurrence) : Prop :=
  ∀ before message handed after,
    past = before ++ .taken message handed :: after → TakenRightly before message handed

structure Delivers (past : List Occurrence) (mailbox : List Message) : Prop where
  fifo : postedIn past = takenIn past ++ mailbox
  rightly : AllRightly past
  distinct : ((engagedIn past).map Engagement.generation).Nodup
  once : ∀ e ∈ engagedIn past, (postedIn past).countP (Message.endsAt e.generation) ≤ 1

lemma split_append {α : Type} {l l' before after : List α} {a : α}
    (h : l ++ l' = before ++ a :: after) :
    (∃ rest, l = before ++ a :: rest ∧ after = rest ++ l') ∨
      ∃ front, before = l ++ front ∧ l' = front ++ a :: after := by
  obtain ⟨c, hl, hrest⟩ | ⟨c, hbefore, hl'⟩ := List.append_eq_append_iff.1 h
  · exact .inr ⟨c, hl, hrest⟩
  · cases c with
    | nil => exact .inr ⟨[], by simpa using hbefore.symm, hl'.symm⟩
    | cons o c =>
      obtain ⟨rfl, hafter⟩ := List.cons.inj hl'
      exact .inl ⟨c, hbefore, hafter⟩

lemma AllRightly.append {past l : List Occurrence} (h : AllRightly past) (hl : takenIn l = []) :
    AllRightly (past ++ l) := by
  intro before message handed after hsplit
  cases split_append hsplit with
  | inl hpast =>
    obtain ⟨rest, hpast, _⟩ := hpast
    exact h before message handed rest hpast
  | inr hl' =>
    obtain ⟨front, _, rfl⟩ := hl'
    have hmem : message ∈ takenIn (front ++ .taken message handed :: after) :=
      mem_takenIn.2 ⟨handed, List.mem_append_right _ List.mem_cons_self⟩
    rw [hl] at hmem
    exact absurd hmem List.not_mem_nil

lemma AllRightly.taken {past : List Occurrence} {message : Message} {handed : Bool}
    (h : AllRightly past) (hright : TakenRightly past message handed) :
    AllRightly (past ++ [.taken message handed]) := by
  intro before message' handed' after hsplit
  cases split_append hsplit with
  | inl hpast =>
    obtain ⟨rest, hpast, _⟩ := hpast
    exact h before message' handed' rest hpast
  | inr hl =>
    obtain ⟨front, rfl, hl⟩ := hl
    cases front with
    | nil =>
      obtain ⟨he, _⟩ := List.cons.inj hl
      obtain ⟨rfl, rfl⟩ := Occurrence.taken.inj he
      rwa [List.append_nil]
    | cons o front => exact absurd (List.cons.inj hl).2 (by simp)

namespace Interpreter

variable {C : Type} {m : Machine C} {i i' : Interpreter C} {past l : List Occurrence}

section

variable {message : Message} {rest : List Message} (h : Accounted m i past)
  (hm : i.work.mailbox = message :: rest)

include h hm

lemma Accounted.posted_front : message ∈ postedIn past := by
  rw [h.fifo, hm]
  exact List.mem_append_right _ List.mem_cons_self

lemma Accounted.not_endsAt {last : Message} {b : Bool} (hl : message.isLast)
    (hlast : .taken last b ∈ past) : ¬ last.endsAt message.generation := by
  intro hends
  have honce := h.accounts.once message.generation
  have htaken : 0 < (takenIn past).countP (Message.endsAt message.generation) :=
    List.countP_pos_iff.2 ⟨last, mem_takenIn.2 ⟨b, hlast⟩, hends⟩
  have hself : message.endsAt message.generation := by simp [Message.endsAt, hl]
  rw [List.countP_append, h.fifo, hm, List.countP_append, List.countP_cons_of_pos hself] at honce
  omega

lemma Accounted.takenRightly : TakenRightly past message (i.work.isCurrent message) := by
  obtain ⟨e, he, hstems⟩ :=
    h.accounts.stems message (List.mem_append_left _ (h.posted_front hm))
  obtain ⟨earlier, since, hpast⟩ := List.append_of_mem (mem_engagedIn.1 he)
  have hnew : .engaged e ∉ since := by
    intro hmem
    have hdistinct := h.accounts.distinct
    rw [hpast, engagedIn_append, List.map_append] at hdistinct
    have hlast := (List.nodup_append.1 hdistinct).2.1
    exact (List.nodup_cons.1 hlast).1 (List.mem_map_of_mem (mem_engagedIn.2 hmem))
  have hlive : i.work.isCurrent message ↔ e ∈ liveIn past := by
    rw [Work.isCurrent_iff h.accounts.keyed, h.accounts.registers, hstems.source,
      hstems.generation]
    constructor
    · rintro ⟨e', he', _, hg⟩
      exact h.accounts.eq_of_generation (h.accounts.subset he') he hg ▸ he'
    · exact fun he => ⟨e, he, rfl, rfl⟩
  have hsince : ∀ {o}, o ∈ since → o ∈ past := by
    intro o ho
    rw [hpast]
    exact List.mem_append_right _ (List.mem_cons_of_mem _ ho)
  refine ⟨e, earlier, since, hpast, hstems, ?_⟩
  rw [hlive, hpast, mem_liveIn hnew, spares_iff, ← hstems.generation]
  apply and_congr_right'
  apply and_congr_right'
  constructor
  · intro hnone _ last hlast hends
    simp only [Message.endsAt, Bool.and_eq_true, decide_eq_true_eq] at hends
    exact hnone last hlast hends.1 hends.2.symm
  · intro hnone last hlast hl hg
    have hends : last.endsAt message.generation := by simp [Message.endsAt, hl, hg]
    cases hown : message.isLast with
    | false => exact hnone hown last hlast hends
    | true => exact h.not_endsAt hm hown (hsince hlast) hends

end

def resumption (i : Interpreter C) (s : MachineState C) : List Occurrence :=
  i.startings s.configuration.elems ++ if i.machine.isDone s.configuration then [.stopped] else []

/-- All that happened to an interpreter since it was created or restored. Whoever was given the
handle of a service may leave emissions at any time. -/
inductive Journey (m : Machine C) : Interpreter C → List Occurrence → Prop
  | create (settings : Settings) (hasRuntime : Bool) (date : Timestamp) :
      Journey m (create m settings hasRuntime date) []
  | restore {c : Checkpoint C} {settings : Settings} {hasRuntime : Bool} {date : Timestamp}
      {i : Interpreter C} {s : MachineState C}
      (h : restore m c settings hasRuntime date = .ok i) (hs : c.machineState m = .ok s) :
      Journey m i ((create m settings hasRuntime date).resumption s)
  | move {i i' : Interpreter C} {past l : List Occurrence} (h : Journey m i past)
      (hmove : Move i l i') : Journey m i' (past ++ l)
  | emit {i : Interpreter C} {past : List Occurrence} {e : Engagement} {id : String}
      (h : Journey m i past) (he : .engaged e ∈ past) (hid : e.origin = .completion id)
      (event : Event) :
      Journey m (i.post ⟨event, .emission id, e.generation⟩)
        (past ++ [.posted ⟨event, .emission id, e.generation⟩])

lemma Accounted.create (settings : Settings) (hasRuntime : Bool) (date : Timestamp) :
    Accounted m (create m settings hasRuntime date) [] := by
  refine ⟨rfl, ⟨⟨List.nodup_nil, List.nodup_nil⟩, fun o g => ?_, fun _ => id, ?_, List.nodup_nil,
    ?_, fun g => Nat.zero_le 1⟩, ?_, ?_, rfl⟩
  · cases o <;> simp [Interpreter.create, Work.Registers, liveIn]
  · simp [engagedIn]
  · simp [Interpreter.create, postedIn, Work.pending]
  · simp [liveIn]
  · simp [liveIn]

lemma Accounted.restore (hd : m.OriginsDistinct) {c : Checkpoint C} {settings : Settings}
    {hasRuntime : Bool} {date : Timestamp} {s : MachineState C}
    (h : restore m c settings hasRuntime date = .ok i) (hs : c.machineState m = .ok s) :
    Accounted m i ((Interpreter.create m settings hasRuntime date).resumption s) := by
  obtain ⟨_, _, s', hs', rfl⟩ := restore_eq_ok h
  obtain rfl := Except.ok.inj (hs.symm.trans hs')
  let j := Interpreter.create m settings hasRuntime date
  have hcreated : Accounted m j [] := .create settings hasRuntime date
  have hstate : Accounted m (j.reinstate c s) [] :=
    ⟨rfl, hcreated.accounts, hcreated.origins, by simp [liveIn], rfl⟩
  have hstarted : Accounted m (j.rework c s) (j.startings s.configuration.elems) := by
    have hwork := hstate.startWork hd rfl rfl (s.configuration.sorted.imp Std.ne_of_lt)
      (by simp [liveIn]) (fun _ => id) (.ofType c.event)
    exact hwork
  rw [resume_eq, resumption]
  split
  · exact hstarted.stop
  · exact hstarted.nothing

lemma Accounted.emit (h : Accounted m i past) {e : Engagement} {id : String}
    (he : .engaged e ∈ past) (hid : e.origin = .completion id) (event : Event) :
    Accounted m (i.post ⟨event, .emission id, e.generation⟩)
      (past ++ [.posted ⟨event, .emission id, e.generation⟩]) := by
  let message : Message := ⟨event, .emission id, e.generation⟩
  have hstems : message.StemsFrom e := ⟨rfl, hid.symm⟩
  have hlive : liveIn (past ++ [.posted message]) = liveIn past := liveIn_append
  refine ⟨h.machine, ?_, hlive ▸ h.origins, hlive ▸ h.active, ?_⟩
  · simpa [message, post] using h.accounts.emit (mem_engagedIn.2 he) hstems rfl
  · simp [post, Work.post, h.fifo]

lemma Journey.accounted (hd : m.OriginsDistinct) (h : Journey m i past) : Accounted m i past := by
  induction h with
  | create settings hasRuntime date => exact .create settings hasRuntime date
  | restore h hs => exact .restore hd h hs
  | move _ hmove ih => exact ih.move hd hmove
  | emit _ he hid event ih => exact ih.emit he hid event

lemma takenIn_adoption (step : Step C) (exits : List NodeId) :
    takenIn (i.adoption step exits) = [] := by
  rw [adoption]
  split <;> simp

lemma takenIn_commitment (step : Step C) (exits : List NodeId) :
    takenIn (i.commitment step exits) = [] := by
  rw [commitment]
  split
  · exact takenIn_adoption step exits
  · rfl

lemma Move.allRightly (h : Accounted m i past) (hmove : Move i l i') (hright : AllRightly past) :
    AllRightly (past ++ l) := by
  cases hmove with
  | process =>
    apply hright.append
    rw [happenings]
    split
    · rfl
    · split
      · rfl
      · exact takenIn_commitment _ _
  | enter =>
    apply hright.append
    rw [beginnings]
    split
    · rfl
    · exact takenIn_commitment _ _
  | take _ hm => exact hright.taken (h.takenRightly hm)
  | stir => exact hright.append (takenIn_map_posted _)
  | enqueue => exact hright.append rfl
  | aside => exact hright.append rfl
  | stop => exact hright.append rfl

lemma Journey.allRightly (hd : m.OriginsDistinct) (h : Journey m i past) : AllRightly past := by
  have hnil : AllRightly [] := by simp [AllRightly]
  induction h with
  | create => exact hnil
  | @restore c settings hasRuntime date i s _ _ =>
    have hl : takenIn ((Interpreter.create m settings hasRuntime date).resumption s) = [] := by
      rw [resumption]
      split <;> simp
    exact hnil.append hl
  | move h hmove ih => exact hmove.allRightly (h.accounted hd) ih
  | emit _ _ _ _ ih => exact ih.append rfl

inductive Call (i : Interpreter C) : Interpreter C → Prop
  | start {i' : Interpreter C} {fuel : Nat} {r : Except InterpreterError (Snapshot C)}
      (h : i.start fuel = some (i', r)) : Call i i'
  | send {i' : Interpreter C} {fuel : Nat} {event : Event} {e : Option InterpreterError}
      (h : i.send fuel event = some (i', e)) : Call i i'
  | processMailbox {i' : Interpreter C} {fuel : Nat} {r : Except InterpreterError Nat}
      (h : i.processMailbox fuel = some (i', r)) : Call i i'
  | runNext {i' : Interpreter C} {fuel deadline : Nat} {next : Next}
      (h : i.runNext fuel deadline = some (i', next)) : Call i i'
  | runUntilDone {i' : Interpreter C} {fuel deadline : Nat} {next : Next}
      (h : i.runUntilDone fuel deadline = some (i', next)) : Call i i'
  | stop : Call i i.stop
  | elapse (millis : Nat) : Call i (i.elapse millis)
  | date (date : Timestamp) : Call i { i with date }
  | subscribe : Call i i.subscribe.2
  | subscribeToErrors : Call i i.subscribeToErrors.2
  | unsubscribe (n : Subscription) : Call i (i.unsubscribe n).2

lemma Call.leads (hshown : i.status = .running → i.snapshot ≠ none) (h : Call i i') :
    Leads i i' := by
  cases h with
  | start h => exact (start_leads hshown h).1
  | send h => exact (send_leads h).1
  | processMailbox h => exact (processMailbox_leads h).1
  | runNext h => exact (runNext_leads h).1
  | runUntilDone h =>
    exact runMessages_induction (fun _ _ _ hl h => hl.trans (runNext_leads h).1) (.refl i) h
  | stop => exact Move.stop.leads
  | elapse millis =>
    obtain ⟨l, hstirs⟩ := i.work.stirs_elapse millis
    exact stir_leads hstirs
  | date => exact aside_leads rfl
  | subscribe => exact aside_leads rfl
  | subscribeToErrors => exact aside_leads rfl
  | unsubscribe => exact aside_leads rfl

lemma Journey.moves (h : Journey m i past) (hl : Moves i l i') : Journey m i' (past ++ l) := by
  induction hl with
  | refl => rwa [List.append_nil]
  | tail _ hmove ih =>
    rw [← List.append_assoc]
    exact ih.move hmove

lemma Journey.shows (hm : m.WellFormed) (hd : m.chart.Closed) (h : Journey m i past) :
    Shows m i := by
  induction h with
  | create settings hasRuntime date => exact shows_create settings hasRuntime date
  | restore h => exact Shows.restore hm.chart.size_pos h
  | move _ hmove ih => exact ih.move hm hd hmove
  | emit _ _ _ _ ih => exact ih.of_eq rfl rfl rfl rfl rfl

lemma Journey.elapse (h : Journey m i past) (millis : Nat) : Journey m (i.elapse millis)
    (past ++ ((i.elapse millis).work.mailbox.drop i.work.mailbox.length).map .posted) := by
  obtain ⟨l, hstirs⟩ := i.work.stirs_elapse millis
  have hmailbox : (i.elapse millis).work.mailbox = i.work.mailbox ++ l := hstirs.mailbox
  rw [hmailbox, List.drop_left]
  exact h.move (.stir hstirs)

lemma Journey.takeFront (h : Journey m i past) (hr : i.status = .running)
    (hm : i.work.mailbox.isEmpty = false) :
    Journey m
      (i.take (i.work.mailbox.head (List.isEmpty_eq_false_iff.1 hm)) i.work.mailbox.tail)
      (past ++ [.taken (i.work.mailbox.head (List.isEmpty_eq_false_iff.1 hm))
        (i.work.isCurrent (i.work.mailbox.head (List.isEmpty_eq_false_iff.1 hm)))]) :=
  h.move (.take hr (List.cons_head_tail _).symm)

def verdicts (past : List Occurrence) : List (Nat × Bool) :=
  past.filterMap fun
    | .taken message handed => some (message.generation, handed)
    | _ => none

def bell : Definition := .ofRoot
  { initial := some "wait"
    states := [
      ("wait", {
        after := .ofList [("50", [{ target := ["ring"] }])]
        invoke := [{ src := "listen" }]
        on := .ofList [("RESET", [{ target := ["wait"], internal := some false }])] }),
      ("ring", {})] }

def bellBehaviors : Behaviors Unit where
  services := .ofList [("listen", fun _ _ _ => ⟨.null, [], .never⟩)]

def bellMachine : Machine Unit := Machine.assemble bell () (Machine.link bell bellBehaviors).value

lemma build_bell : Machine.build bell bellBehaviors (some ()) = .ok bellMachine := rfl

end Interpreter

end Statechart
