import TableEscrow.Bus.Message
import TableEscrow.Proofs.CompactTexts
import TableEscrow.Proofs.Envelopes
import TableEscrow.Proofs.Instants
import TableEscrow.Proofs.Writings
/-!
# Messages on the wire

A message is read back from what it is written as, its members beside the tag
(`Message.decode_written`), and so is an envelope (`ControlEnvelope.decode_written`). An envelope that is
read, from whatever spelling of its id and its time, is one that is read back when it is written
(`messages_return`).
-/

namespace TableEscrow

namespace Uuid

open Text

theorem length_digits (u : Uuid) : u.digits.length = 32 := length_hexDigits 32 u.number

theorem ne_hyphen_of_mem {u : Uuid} {c : Char} (hc : c ∈ u.digits) : c ≠ '-' := by
  have hdigit := List.all_eq_true.1 (hexDigits_value 32 u.number 0).1 c hc
  rintro rfl
  simp [isDigitOf_sixteen, isHexDigit, isDigit] at hdigit

theorem filter_hyphenated {ds : List Char} (h : ∀ c ∈ ds, c ≠ '-') : (hyphenated ds).filter (· ≠ '-') = ds := by
  have hparts : ds.take 8 ++ (ds.drop 8).take 4 ++ (ds.drop 12).take 4 ++ (ds.drop 16).take 4 ++ ds.drop 20 = ds := by
    simp only [List.append_assoc]
    rw [← List.drop_drop (i := 4) (j := 16), List.take_append_drop, ← List.drop_drop (i := 4) (j := 12),
      List.take_append_drop, ← List.drop_drop (i := 4) (j := 8), List.take_append_drop, List.take_append_drop]
  have hsame : (hyphenated ds).filter (· ≠ '-') = (ds.take 8 ++ (ds.drop 8).take 4 ++ (ds.drop 12).take 4 ++
      (ds.drop 16).take 4 ++ ds.drop 20).filter (· ≠ '-') := by simp [hyphenated]
  rw [hsame, hparts]
  exact List.filter_eq_self.2 fun c hc => by simpa using h c hc

theorem length_hyphenated {ds : List Char} (h : ds.length = 32) : (hyphenated ds).length = 36 := by
  simp only [hyphenated, List.length_append, List.length_cons, List.length_take, List.length_drop]
  omega

/-- An id is read back. -/
theorem ofText?_render (u : Uuid) : ofText? u.render = some u := by
  have hlength := length_hyphenated u.length_digits
  have hdigits : unhyphenated? (hyphenated u.digits) = some u.digits := by
    rw [unhyphenated?, filter_hyphenated fun c hc => ne_hyphen_of_mem hc]
    exact if_pos rfl
  have hnumber : natOfDigits? 16 u.digits = some u.number := natOfDigits?_hexDigits (by decide) u.bound
  simp only [render, ofText?, String.toList_ofList, hlength, ofHyphenated?, hdigits, Option.bind_some, ofDigits?,
    length_digits, if_true, hnumber, u.bound, dif_pos]

end Uuid

open Decode

theorem Uuid.reads_encode (u : Uuid) : reads Uuid.decode u.encode = some u := by
  simp only [reads, encode, Draft.ofJson, decode, text, Bind.bind, Except.bind, ofText?_render]
  rfl

theorem Instant.reads_encode {t : Instant} (h : t.Valid) (hyear : 0 ≤ t.year ∧ t.year ≤ 9999) :
    reads Instant.decode t.encode = some t := by
  simp only [reads, encode, Draft.ofJson, decode, text, Bind.bind, Except.bind, ofText?_render h hyear]
  rfl

theorem Instant.valid_of_decode {d : Draft} {t : Instant} (h : decode d = .ok t) : t.Valid := by
  unfold decode at h
  cases hs : text d with
  | error e => rw [hs] at h; cases h
  | ok s =>
    simp only [hs, Bind.bind, Except.bind] at h
    split at h
    · next hread =>
      cases h
      exact valid_of_ofText? hread
    · cases h

theorem Subject.reads_encode (s : Subject) : reads Subject.decode s.encode = some s := by
  cases s <;> rfl

namespace Decode.Record

variable {α β : Type} {P : α → Prop} {f : Json → Json}

theorem Ensures.required {name : String} {decode : Decoder α} (h : ∀ d a, decode d = .ok a → P a) :
    (Record.required name decode).Ensures P := by
  intro look a ha
  simp only [Record.required] at ha
  split at ha
  · exact h _ a ha
  · cases ha

end Decode.Record

namespace Writing

variable {f : Json → Json}

/-- The members of an object that is written, by name. -/
theorem exists_members (hf : Writing f) {members : List (String × Json)} (hn : (members.map (·.1)).Nodup) :
    ∃ entries, f (.object members) = .object entries ∧ (entries.map (·.1)).Nodup ∧
      ∀ name, entries.lookup name = (members.lookup name).map f := by
  cases hf with
  | given => exact ⟨members, rfl, hn, fun name => by simp⟩
  | sorted =>
    obtain ⟨entries, hentries, hlookup⟩ := Json.sorted_object hn
    have hcanonical : Json.Canonical (.object entries) := hentries ▸ Json.canonical_sorted _
    exact ⟨entries, hentries, hcanonical.nodup_names, hlookup⟩

end Writing

namespace ControlEnvelope

/-- The payload is a value, and the time is one that is written with four digits of a year. -/
structure Sendable (e : ControlEnvelope) : Prop where
  payload : e.payload.Canonical
  time : e.time.Valid
  year : 0 ≤ e.time.year ∧ e.time.year ≤ 9999

variable {e : ControlEnvelope} {f : Json → Json}

theorem sound_record : record.Sound :=
  .seq (.seq (.seq (.seq (.map _ (.required _ _)) (.required _ _)) (.required _ _)) (.required _ _)) (.required _ _)

theorem names_members (e : ControlEnvelope) :
    e.members.map (·.1) = ["event_id", "ts_utc", "subject", "table_addr", "payload"] := rfl

theorem canonical_members (h : e.Sendable) : ∀ m ∈ e.members, m.2.Canonical := by
  simp only [members, List.forall_mem_cons]
  exact ⟨.string _, .string _, .string _, .string _, h.payload, nofun⟩

theorem read_record {look : String → Option Json} (h : e.Sendable) (hlook : ∀ m ∈ e.members, look m.1 = some m.2) :
    record.read look = some e := by
  simp only [members, List.forall_mem_cons] at hlook
  obtain ⟨hid, htime, hsubject, htable, hpayload, -⟩ := hlook
  have hpayloadBack : reads json e.payload = some e.payload := by
    rw [reads_eq_some_iff, Json.json_ofJson, (Json.sorted_eq_iff_canonical _).2 h.payload]
  simp [record, hid, htime, hsubject, htable, hpayload, Uuid.reads_encode, Instant.reads_encode h.time h.year,
    Subject.reads_encode, hpayloadBack]

/-- An envelope is read back from what it is written as. -/
theorem decode_written (hf : Writing f) (h : e.Sendable) : decode (.ofJson (f e.encode)) = .ok e := by
  have hnames : (e.members.map (·.1)).Nodup := by
    rw [names_members]
    decide
  refine reads_eq_some_iff.1 ((reads_written hf sound_record "an envelope" hnames).trans (read_record h fun m hm => ?_))
  rw [(Keyed.lookup_eq_some_iff_mem hnames).2 hm, Option.map_some, hf.of_canonical (canonical_members h m hm)]

/-- An envelope that is read holds a value and a point in time. -/
theorem valid_of_decode {d : Draft} (h : decode d = .ok e) : e.payload.Canonical ∧ e.time.Valid := by
  have hrecord : record.Ensures fun e => e.payload.Canonical ∧ e.time.Valid :=
    .seq (P := Json.Canonical) (.seq_any (.seq_any (.seq (P := Instant.Valid)
      (.map_any (fun _ _ htime _ _ _ hpayload => ⟨hpayload, htime⟩) _)
      (.required fun _ _ => Instant.valid_of_decode)) _) _) (.required fun _ _ => Json.canonical_of_json)
  exact hrecord.of_decode h

end ControlEnvelope

namespace LiveUpdate

variable {u : LiveUpdate} {f : Json → Json}

theorem sound_record : record.Sound := .seq (.seq (.map _ (.required _ _)) (.required _ _)) (.required _ _)

theorem canonical_members (h : u.payload.Canonical) : ∀ m ∈ u.members, m.2.Canonical := by
  simp only [members, List.forall_mem_cons]
  exact ⟨.string _, .number _, h, nofun⟩

theorem read_record {look : String → Option Json} (h : u.payload.Canonical)
    (hlook : ∀ m ∈ u.members, look m.1 = some m.2) : record.read look = some u := by
  simp only [members, List.forall_mem_cons] at hlook
  obtain ⟨htable, hhand, hpayload, -⟩ := hlook
  have hpayloadBack : reads json u.payload = some u.payload := by
    rw [reads_eq_some_iff, Json.json_ofJson, (Json.sorted_eq_iff_canonical _).2 h]
  simp [record, htable, hhand, hpayload, hpayloadBack]

end LiveUpdate

namespace Message

variable {m : Message} {f : Json → Json}

/-- What the program can send: payloads are values, and times are written with four digits of a year. -/
def Sendable : Message → Prop
  | .control envelope => envelope.Sendable
  | .live update => update.payload.Canonical
  | .heartbeat _ => True
  | .logLine _ _ => True

/-- The members of a message are told apart, and none of them is the tag. -/
theorem nodup_names (m : Message) : ("type" :: m.members.map (·.1)).Nodup := by
  cases m <;> simp [members, ControlEnvelope.members, LiveUpdate.members]

theorem canonical_members (h : m.Sendable) : ∀ p ∈ m.members, p.2.Canonical := by
  cases m with
  | heartbeat millis =>
    simp only [members, List.forall_mem_cons]
    exact ⟨.number _, nofun⟩
  | control envelope => exact ControlEnvelope.canonical_members h
  | live update => exact LiveUpdate.canonical_members h
  | logLine level text =>
    simp only [members, List.forall_mem_cons]
    exact ⟨.string _, .string _, nofun⟩

/-- The record that a tag stands for is sound, and reads the members of a message. -/
theorem exists_record (h : m.Sendable) : ∃ r : Record Message, Decode.tag records (.string m.tag) = .ok r ∧ r.Sound ∧
    ∀ look : String → Option Json, (∀ p ∈ m.members, look p.1 = some p.2) → r.read look = some m := by
  cases m with
  | heartbeat millis =>
    refine ⟨_, rfl, .map _ (.required _ _), fun look hlook => ?_⟩
    simp only [members, List.forall_mem_cons] at hlook
    have hmillis : reads int64 (.integer millis) = some millis := lawful_int64 millis
    simp [hlook.1, hmillis]
  | control envelope =>
    refine ⟨_, rfl, .map _ ControlEnvelope.sound_record, fun look hlook => ?_⟩
    simp [ControlEnvelope.read_record h hlook]
  | live update =>
    refine ⟨_, rfl, .map _ LiveUpdate.sound_record, fun look hlook => ?_⟩
    simp [LiveUpdate.read_record h hlook]
  | logLine level text =>
    refine ⟨_, rfl, .seq (.map _ (.required _ _)) (.required _ _), fun look hlook => ?_⟩
    simp only [members, List.forall_mem_cons] at hlook
    simp [hlook.1, hlook.2.1]

/-- A message is read back from what it is written as. -/
theorem decode_written (hf : Writing f) (h : m.Sendable) : decode (.ofJson (f m.encode)) = .ok m := by
  obtain ⟨r, hr, hsound, hread⟩ := exists_record h
  obtain ⟨htag, -⟩ := List.nodup_cons.1 m.nodup_names
  have hnames : ((("type", Json.string m.tag) :: m.members).map (·.1)).Nodup := m.nodup_names
  obtain ⟨entries, hentries, hdistinct, hlookup⟩ := hf.exists_members hnames
  have htype : entries.lookup "type" = some (.string m.tag) := by
    rw [hlookup, List.lookup_cons_self, Option.map_some, hf.string]
  have hrest : ((entries.filter fun p => p.1 ≠ "type").map (·.1)).Nodup :=
    hdistinct.sublist (List.filter_sublist.map _)
  have hmembers : ∀ p ∈ m.members, (entries.filter fun p => p.1 ≠ "type").lookup p.1 = some p.2 := by
    intro p hp
    have hname : p.1 ≠ "type" := fun heq => htag (List.mem_map.2 ⟨p, hp, heq⟩)
    rw [Keyed.lookup_filter_name fun name => name ≠ "type", if_pos (by simpa using hname), hlookup,
      (Keyed.lookup_eq_some_iff_mem hnames).2 (List.mem_cons_of_mem _ hp), Option.map_some,
      hf.of_canonical (canonical_members h p hp)]
  have hrecord := reads_eq_some_iff.1 ((Record.reads_object hsound "a message" hrest).trans (hread _ hmembers))
  unfold decode
  rw [encode, hentries, tagged_object (Keyed.filter_name_of_lookup hdistinct htype)]
  change (do
    let record ← Decode.tag records (.string m.tag)
    record.decode "a message" _) = Except.ok m
  rw [hr]
  exact hrecord

/-- A message is read back from what it is written as, and none of its members is taken for the tag. An envelope
that is read, from whatever spelling, is the one that is read when it is written. Both hold of the texts as well,
where their numbers can be read back. -/
theorem messages_return :
    (∀ m : Message, m.Sendable →
      decode (.ofJson m.encode) = .ok m ∧ decode (.ofJson m.encode.sorted) = .ok m ∧
      (m.encode.isLegible = true → m.encode.depth ≤ Draft.maxDepth → decode (.ofText m.encode.compact) = .ok m) ∧
      ("type" :: m.members.map (·.1)).Nodup) ∧
    ∀ {d e}, ControlEnvelope.decode d = .ok e → 0 ≤ e.time.year ∧ e.time.year ≤ 9999 →
      ControlEnvelope.decode (.ofJson e.encode) = .ok e ∧ ControlEnvelope.decode (.ofJson e.encode.sorted) = .ok e ∧
      (e.encode.isLegible = true → e.encode.depth ≤ Draft.maxDepth →
        ControlEnvelope.decode (.ofText e.encode.compact) = .ok e) := by
  refine ⟨fun m h => ?_, fun {d e} h hyear => ?_⟩
  · have hgiven := decode_written (f := id) .given h
    refine ⟨hgiven, decode_written .sorted h, fun hlegible hdepth => ?_, m.nodup_names⟩
    rw [Draft.ofText_compact hlegible hdepth]
    exact hgiven
  · obtain ⟨hpayload, htime⟩ := ControlEnvelope.valid_of_decode h
    have hsendable : e.Sendable := ⟨hpayload, htime, hyear⟩
    have hgiven := ControlEnvelope.decode_written (f := id) .given hsendable
    refine ⟨hgiven, ControlEnvelope.decode_written .sorted hsendable, fun hlegible hdepth => ?_⟩
    rw [Draft.ofText_compact hlegible hdepth]
    exact hgiven

/-- An id in capitals and braces, and a time with an offset and half of a leap second: the envelope read from them
is read back from its canonical spelling, alone and as a message. -/
theorem messages_return_other_spellings :
    let text := "\x7b\"event_id\":\"\x7b0000000A-0000-0000-0000-0000000000FF\x7d\"," ++
      "\"ts_utc\":\"2024-03-01T05:29:60.5+05:30\",\"subject\":\"Timeout\",\"table_addr\":\"0xA\",\"payload\":null\x7d"
    let e : ControlEnvelope :=
      ⟨⟨10 * 2 ^ 96 + 255, by decide⟩, ⟨1709251199, 1500000000⟩, .timeout, "0xA", .null⟩
    ControlEnvelope.decode (.ofText text) = .ok e ∧
      ControlEnvelope.decode (.ofJson e.encode) = .ok e ∧
      decode (.ofText (control e).encode.compact) = .ok (.control e) := by
  intro text e
  have hread : ControlEnvelope.decode (.ofText text) = .ok e := by decide +kernel
  have hyear : 0 ≤ e.time.year ∧ e.time.year ≤ 9999 := by decide +kernel
  obtain ⟨hpayload, htime⟩ := ControlEnvelope.valid_of_decode hread
  have hmessage := (messages_return.1 (.control e) ⟨hpayload, htime, hyear⟩).2.2.1
  exact ⟨hread, (messages_return.2 hread hyear).1, hmessage (by decide +kernel) (by decide +kernel)⟩

end Message

end TableEscrow
