import Mathlib.Tactic.Common
import Statechart.Checkpoint.Binary
import Statechart.Proofs.Bytes
import Statechart.Proofs.Json.Coded
import Statechart.Proofs.Json.Text

/-! Checkpoints written and read back. Both forms give the checkpoint back if its version is the
supported one, and from a mere part of the compact form no checkpoint is read. -/

namespace Statechart

instance {ν : Type} [BytesCoded ν] [LawfulBytes ν] : LawfulBytes (SortedMap String ν) :=
  .of_map SortedMap.entries SortedMap.ofList SortedMap.ofList_entries (fun _ => rfl)
    fun _ => Option.map_eq_bind

instance : LawfulBytes Timestamp where
  length_pos t := LawfulBytes.length_pos t.render
  read {t} h rest := by
    have htext := LawfulBytes.read (a := t.render) h rest
    change (ofBytes? (toBytes t.render ++ rest)).bind _ = _
    rw [htext, Option.bind_some]
    dsimp only
    rw [Timestamp.read?_render]
    rfl
  extend {l rest t} h more := by
    obtain ⟨⟨text, l'⟩, htext, h⟩ := Option.bind_eq_some_iff.1 h
    obtain ⟨t', ht, h⟩ := Option.bind_eq_some_iff.1 h
    obtain ⟨rfl, rfl⟩ := Prod.mk.inj (Option.some.inj h)
    change (ofBytes? (l ++ more)).bind _ = _
    rw [LawfulBytes.extend htext, Option.bind_some]
    dsimp only
    rw [ht]
    rfl

instance : LawfulBytes TransitionRecord :=
  .of_map (fun r => (r.before, r.after, r.event, r.timestamp, r.microsteps))
    (fun (before, after, event, timestamp, microsteps) =>
      ⟨before, after, event, timestamp, microsteps⟩)
    (fun _ => rfl) (fun r => by simp only [toBytes, List.append_assoc]) fun l => by
      simp only [ofBytes?_pair_bind]
      rfl

instance : LawfulBytes TransitionLog :=
  .of_map TransitionLog.records TransitionLog.mk (fun _ => rfl) (fun _ => rfl)
    fun _ => Option.map_eq_bind

instance : LawfulBytes CheckpointMetadata :=
  .of_map (fun d => (d.createdAt, d.updatedAt, d.eventsProcessed))
    (fun (createdAt, updatedAt, eventsProcessed) => ⟨createdAt, updatedAt, eventsProcessed⟩)
    (fun _ => rfl) (fun d => by simp only [toBytes, List.append_assoc]) fun l => by
      simp only [ofBytes?_pair_bind]
      rfl

instance : LawfulBytes Tally :=
  .of_map (fun t => (t.count, t.note, t.last)) (fun (count, note, last) => ⟨count, note, last⟩)
    (fun _ => rfl) (fun t => by simp only [toBytes, List.append_assoc]) fun l => by
      simp only [ofBytes?_pair_bind]
      rfl

instance {C : Type} [BytesCoded C] [LawfulBytes C] : LawfulBytes (Checkpoint C) :=
  .of_map
    (fun c => (c.version, c.id, c.timestamp, c.machineId, c.machineVersion, c.configuration,
      c.context, c.history, c.event, c.transitions, c.metadata))
    (fun (version, id, timestamp, machineId, machineVersion, configuration, context, history,
        event, transitions, metadata) =>
      ⟨version, id, timestamp, machineId, machineVersion, configuration, context, history, event,
        transitions, metadata⟩)
    (fun _ => rfl) (fun c => by simp only [toBytes, List.append_assoc]) fun l => by
      simp only [ofBytes?_pair_bind]
      rfl

open Json (record? required optional string? list? record?_obj)

instance : LawfulJson TransitionRecord where
  read r := by
    have hrecord : record? (TransitionRecord.fieldNames.map ([·])) r.toJson =
        some [some (.strs r.before), some (.strs r.after), some (.str r.event),
          some (toJson r.timestamp), some (.int r.microsteps.toNat)] :=
      record?_obj rfl
    change TransitionRecord.ofJson? r.toJson = some r
    simp only [TransitionRecord.ofJson?, hrecord, required_strs, required_string, required_lawful,
      required_unsigned r.microsteps.toNat_lt, Option.bind_eq_bind, Option.bind_some,
      Option.pure_def, UInt64.ofNat_toNat]

instance : LawfulJson TransitionLog where
  read log := by
    have hrecord : log.toJson.record? [["records"]] =
        some [some (.arr (log.records.map TransitionRecord.toJson))] :=
      record?_obj rfl
    have hrecords : required (list? TransitionRecord.ofJson?)
        (some (.arr (log.records.map TransitionRecord.toJson))) = some log.records :=
      Json.mapM_map fun r _ => LawfulJson.read r
    change TransitionLog.ofJson? log.toJson = some log
    rw [TransitionLog.ofJson?, hrecord]
    exact congrArg (Option.map TransitionLog.mk) hrecords

instance : LawfulJson CheckpointMetadata where
  read d := by
    have hrecord : d.toJson.record? (CheckpointMetadata.fieldNames.map ([·])) =
        some [some (toJson d.createdAt), some (toJson d.updatedAt),
          some (.int d.eventsProcessed.toNat)] :=
      record?_obj rfl
    change CheckpointMetadata.ofJson? d.toJson = some d
    simp only [CheckpointMetadata.ofJson?, hrecord, required_lawful,
      required_unsigned d.eventsProcessed.toNat_lt, Option.bind_eq_bind, Option.bind_some,
      Option.pure_def, UInt64.ofNat_toNat]

namespace Checkpoint

variable {C : Type} [JsonCoded C]

lemma ofJson?_toJson [LawfulJson C] (c : Checkpoint C) : ofJson? c.toJson = some c := by
  have hrecord : c.toJson.record? [["version"], ["id"], ["timestamp"], ["machine_id"],
      ["machine_version"], ["configuration"], ["context"], ["history"], ["event"],
      ["transitions"], ["metadata"]] =
        some [some (.int c.version.toNat), some (.str c.id), some (JsonCoded.toJson c.timestamp),
          some (.str c.machineId), some ((c.machineVersion.map Json.str).getD .null),
          some (.strs c.configuration), some (JsonCoded.toJson c.context),
          some (idListsToJson c.history), some (.str c.event),
          some (JsonCoded.toJson c.transitions), some (JsonCoded.toJson c.metadata)] :=
    record?_obj rfl
  have hversion : optional string? (some ((c.machineVersion.map Json.str).getD .null)) =
      some c.machineVersion :=
    Json.optional_getD_null fun _ _ => ⟨by simp, rfl⟩
  have hhistory : required idListsOfJson? (some (idListsToJson c.history)) = some c.history :=
    idListsOfJson?_idListsToJson c.history
  simp only [ofJson?, List.map_cons, List.map_nil, hrecord, hversion, hhistory, required_strs,
    required_string, required_lawful, required_unsigned c.version.toNat_lt, Option.bind_eq_bind,
    Option.bind_some, Option.pure_def, UInt32.ofNat_toNat]

end Checkpoint

class LawfulText (C : Type) [JsonCoded C] : Prop where
  readable (c : C) : Json.Readable (JsonCoded.shape C) 126 (JsonCoded.toJson c)

open Json (Readable readable_strs readable_natural readable_list readable_obj)

instance : LawfulText Unit := ⟨fun _ => trivial⟩

instance : LawfulText Tally where
  readable t := by
    have hcount : t.count.toNat < Nat.pow 2 64 := Nat.lt_trans t.count.toNat_lt (by decide)
    have hlast : Readable .whole 125 ((t.last.map fun i => Json.int i.toInt).getD .null) := by
      cases t.last with
      | none => trivial
      | some i => exact ⟨i.le_toInt, Int.lt_trans i.toInt_lt (by decide)⟩
    exact ⟨⟨_, rfl, readable_natural hcount⟩, ⟨_, rfl, trivial⟩, ⟨_, rfl, hlast⟩, trivial⟩

lemma readable_idLists (room : Nat) (m : SortedMap String (List String)) :
    Readable .whole (room + 2) (idListsToJson m) := by
  apply readable_obj
  intro e he
  obtain ⟨d, -, rfl⟩ := List.mem_map.1 he
  exact readable_strs ..

namespace TransitionLog

lemma readable_record (r : TransitionRecord) :
    Readable (JsonCoded.shape TransitionRecord) 124 r.toJson :=
  ⟨⟨_, rfl, readable_strs ..⟩, ⟨_, rfl, readable_strs ..⟩, ⟨_, rfl, trivial⟩, ⟨_, rfl, trivial⟩,
    ⟨_, rfl, readable_natural r.microsteps.toNat_lt⟩, trivial⟩

lemma readable_toJson (log : TransitionLog) :
    Readable (JsonCoded.shape TransitionLog) 126 log.toJson := by
  have hrecords : Readable (.list (JsonCoded.shape TransitionRecord)) 125
      (.arr (log.records.map TransitionRecord.toJson)) := by
    apply readable_list
    intro j hj
    obtain ⟨r, -, rfl⟩ := List.mem_map.1 hj
    exact readable_record r
  exact ⟨⟨_, rfl, hrecords⟩, trivial⟩

end TransitionLog

lemma CheckpointMetadata.readable_toJson (d : CheckpointMetadata) :
    Readable (JsonCoded.shape CheckpointMetadata) 126 d.toJson :=
  ⟨⟨_, rfl, trivial⟩, ⟨_, rfl, trivial⟩, ⟨_, rfl, readable_natural d.eventsProcessed.toNat_lt⟩,
    trivial⟩

namespace Checkpoint

variable {C : Type} [JsonCoded C]

lemma readable_toJson [LawfulText C] (c : Checkpoint C) :
    Readable (shape C) Json.maxDepth c.toJson := by
  have hversion : c.version.toNat < Nat.pow 2 64 := Nat.lt_trans c.version.toNat_lt (by decide)
  have hmachine : Readable .whole 126 ((c.machineVersion.map Json.str).getD .null) := by
    cases c.machineVersion <;> trivial
  exact ⟨⟨_, rfl, readable_natural hversion⟩, ⟨_, rfl, trivial⟩, ⟨_, rfl, trivial⟩,
    ⟨_, rfl, trivial⟩, ⟨_, rfl, hmachine⟩, ⟨_, rfl, readable_strs ..⟩,
    ⟨_, rfl, LawfulText.readable c.context⟩, ⟨_, rfl, readable_idLists ..⟩, ⟨_, rfl, trivial⟩,
    ⟨_, rfl, c.transitions.readable_toJson⟩, ⟨_, rfl, c.metadata.readable_toJson⟩, trivial⟩

omit [JsonCoded C] in
lemma checkVersion_bind (c : Checkpoint C) :
    (c.checkVersion >>= fun _ => .ok c) =
      if c.version = supportedVersion then .ok c
      else .error (.unsupportedVersion c.version supportedVersion) := by
  rw [checkVersion]
  split <;> rfl

lemma read_rendered [LawfulJson C] [LawfulText C] (c : Checkpoint C) :
    read c.render = if c.version = supportedVersion then .ok c
      else .error (.unsupportedVersion c.version supportedVersion) := by
  rw [read, render, Json.readAs?_pretty c.readable_toJson, Option.bind_some, ofJson?_toJson]
  exact c.checkVersion_bind

omit [JsonCoded C] in
lemma decode_encode [BytesCoded C] [LawfulBytes C] {c : Checkpoint C}
    (hlength : c.encode.length < Nat.pow 2 64) :
    decode c.encode = if c.version = supportedVersion then .ok c
      else .error (.unsupportedVersion c.version supportedVersion) := by
  have hread := LawfulBytes.read (a := c) hlength []
  rw [List.append_nil] at hread
  rw [decode, encode, hread]
  exact c.checkVersion_bind

/-- Of checkpoints of other versions only the version is told. Lengths are written as numbers of 64
bits, which is enough for any bytes that can be held. -/
theorem read_back [LawfulJson C] [LawfulText C] [BytesCoded C] [LawfulBytes C]
    (c : Checkpoint C) (hlength : c.encode.length < Nat.pow 2 64) :
    (c.version = supportedVersion → read c.render = .ok c ∧ decode c.encode = .ok c) ∧
    (c.version ≠ supportedVersion →
      read (C := C) c.render = .error (.unsupportedVersion c.version supportedVersion) ∧
      decode (C := C) c.encode = .error (.unsupportedVersion c.version supportedVersion)) ∧
    ∀ l, l <+: c.encode → l ≠ c.encode →
      ∃ detail, decode (C := C) l = .error (.undecodable detail) := by
  rw [read_rendered, decode_encode hlength]
  refine ⟨fun hversion => ?_, fun hversion => ?_, fun l hl hne => ?_⟩
  · rw [if_pos hversion]
    exact ⟨rfl, rfl⟩
  · rw [if_neg hversion]
    exact ⟨rfl, rfl⟩
  · refine ⟨"the bytes are not a checkpoint", ?_⟩
    rw [decode, LawfulBytes.cut hlength hl hne]

def stored : Checkpoint Tally where
  version := supportedVersion
  id := "c\n"
  timestamp := .epoch
  machineId := "m"
  machineVersion := some "2"
  configuration := ["m", "m.b"]
  context := ⟨3, "\"n\"", some (-7)⟩
  history := .ofList [("m.b.last", ["m.b.x"]), ("m.a", [])]
  event := "GO"
  transitions := ⟨[⟨["m.a"], ["m.b"], "GO", .epoch, 2⟩]⟩
  metadata := (CheckpointMetadata.startingAt .epoch).advance .epoch

def outdated : Checkpoint Tally := { stored with version := 0 }

lemma length_encode_stored : stored.encode.length = 343 := by decide +kernel

lemma length_encode_outdated : outdated.encode.length = 343 := by decide +kernel

theorem stored_read_back :
    read stored.render = .ok stored ∧ decode stored.encode = .ok stored ∧
    read (C := Tally) outdated.render = .error (.unsupportedVersion 0 1) ∧
    decode (C := Tally) outdated.encode = .error (.unsupportedVersion 0 1) ∧
    ∃ detail, decode (C := Tally) (stored.encode.take 342) = .error (.undecodable detail) := by
  obtain ⟨hback, -, hcut⟩ := read_back stored (by rw [length_encode_stored]; decide)
  obtain ⟨-, hother, -⟩ := read_back outdated (by rw [length_encode_outdated]; decide)
  obtain ⟨hread, hdecode⟩ := hback rfl
  obtain ⟨hread', hdecode'⟩ := hother (by decide)
  refine ⟨hread, hdecode, hread', hdecode', hcut _ (List.take_prefix ..) fun he => ?_⟩
  have hshort := congrArg List.length he
  rw [List.length_take, length_encode_stored] at hshort
  exact absurd hshort (by decide)

end Checkpoint

end Statechart
