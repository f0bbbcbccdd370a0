import TableEscrow.Envelope
import TableEscrow.Proofs.NettingForm
import TableEscrow.Proofs.Records
/-!
# What an envelope carries

An event is read off an object exactly if the object says what the event holds (`Says`,
`says_of_decode`, `decode_of_says`). What an event is written as says it, and so does the payload of
its envelope once the subject and the table of the envelope are added, whatever the payload says
about them. Only a settlement can differ: it is what is read of its own flat form.
-/

namespace TableEscrow

open Decode Record

namespace Subject

variable {s : Subject} {v : Json}

theorem lookup_known {t : String} : known.lookup t = some s ↔ t = s.name := by
  rw [Keyed.lookup_eq_some_iff_mem (by decide)]
  constructor
  · intro h
    obtain ⟨_, -, heq⟩ := List.mem_map.1 h
    cases heq
    rfl
  · rintro rfl
    cases s <;> decide

theorem tag_eq_ok : Decode.tag known (.ofJson v) = .ok s ↔ v = s.encode := by
  have hknown : ∀ t, Decode.known known t = .ok s ↔ t = s.name := by
    intro t
    rw [← lookup_known, Decode.known]
    cases known.lookup t <;> simp
  cases v with
  | string t => simpa [Draft.ofJson, Decode.tag, encode] using hknown t
  | null | bool | number | array | object => simp [Draft.ofJson, Decode.tag, mismatch, encode]

theorem encode_inj {s' : Subject} (h : s.encode = s'.encode) : s = s' := by
  have hok := tag_eq_ok.2 h
  rw [tag_eq_ok.2 rfl] at hok
  cases hok
  rfl

end Subject

namespace ControlEvent

variable {e back : ControlEvent} {members : List (String × Json)} {look look' : String → Option Json}

def netting? : ControlEvent → Option Netting
  | .tableNettingComplete _ _ netting => some netting
  | _ => none

/-- The texts and words that an event holds, by name. -/
def scalars (e : ControlEvent) : List (String × Json) := e.fields.filter fun m => m.1 ≠ "netting"

/-- The members of an object say what an event holds. -/
structure Says (look : String → Option Json) (e : ControlEvent) : Prop where
  subject : look "subject" = some e.subject.encode
  scalars : ∀ m ∈ e.scalars, look m.1 = some m.2
  netting : ∀ n, e.netting? = some n → (look "netting").bind (reads Netting.decode) = some n

/-- Members with a subject and a table added, in the place of any that are there. -/
def routed (s : Subject) (table : String) (members : List (String × Json)) : List (String × Json) :=
  Keyed.insertInto "tableAddr" (.string table) (Keyed.insertInto "subject" s.encode members)

theorem table_mem_scalars (e : ControlEvent) : ("tableAddr", .string e.table) ∈ e.scalars := by
  cases e <;> simp [scalars, fields, table]

theorem ne_subject_of_mem {m : String × Json} (hm : m ∈ e.scalars) : m.1 ≠ "subject" := by
  have hnames : ∀ m ∈ e.fields, m.1 ≠ "subject" := by cases e <;> simp [fields]
  exact hnames m (List.mem_filter.1 hm).1

theorem eq_table_of_mem {m : String × Json} (hm : m ∈ e.scalars) (hname : m.1 = "tableAddr") : m.2 = .string e.table := by
  have hfields : ∀ m ∈ e.fields, m.1 = "tableAddr" → m.2 = .string e.table := by cases e <;> simp [fields, table]
  exact hfields m (List.mem_filter.1 hm).1 hname

theorem lookup_routed {s : Subject} {table name : String} (hs : name ≠ "subject") (ht : name ≠ "tableAddr") :
    (routed s table members).lookup name = members.lookup name := by
  rw [routed, Keyed.lookup_insertInto_other ht, Keyed.lookup_insertInto_other hs]

/-- Whatever the members say of a subject and a table, the ones that are added count. -/
theorem says_routed_iff {s : Subject} {table : String} : Says ((routed s table members).lookup ·) e ↔
    e.subject = s ∧ e.table = table ∧
      (∀ m ∈ e.scalars, m.1 ≠ "tableAddr" → members.lookup m.1 = some m.2) ∧
      ∀ n, e.netting? = some n → (members.lookup "netting").bind (reads Netting.decode) = some n := by
  have hsubject : (routed s table members).lookup "subject" = some s.encode := by
    rw [routed, Keyed.lookup_insertInto_other (by decide), Keyed.lookup_insertInto_self]
  have htable : (routed s table members).lookup "tableAddr" = some (.string table) := Keyed.lookup_insertInto_self _ _ _
  have hnetting := @lookup_routed members s table "netting" (by decide) (by decide)
  constructor
  · rintro ⟨hs, hscalars, hn⟩
    rw [hsubject] at hs
    refine ⟨(Subject.encode_inj (Option.some.inj hs)).symm, ?_, fun m hm hne => ?_, fun n he => ?_⟩
    · -- Every event holds its table, so the one that is added is the one that is read.
      have ht := hscalars _ e.table_mem_scalars
      rw [htable] at ht
      simpa using ht.symm
    · rw [← lookup_routed (ne_subject_of_mem hm) hne]
      exact hscalars m hm
    · rw [← hnetting]
      exact hn n he
  · rintro ⟨rfl, rfl, hscalars, hn⟩
    refine ⟨hsubject, fun m hm => ?_, fun n he => by rw [hnetting, hn n he]⟩
    by_cases hname : m.1 = "tableAddr"
    · rw [hname, htable, eq_table_of_mem hm hname]
    · rw [lookup_routed (ne_subject_of_mem hm) hname, hscalars m hm hname]

/-! ## Reading an event -/

theorem sound_record (s : Subject) : (record s).Sound := by
  cases s with
  | progressNetting => exact .map _ (.required _ _)
  | handleDispute => exact .seq (.seq (.map _ (.required _ _)) (.required _ _)) (.required _ _)
  | kick => exact .seq (.map _ (.required _ _)) (.required _ _)
  | timeout => exact .map _ (.required _ _)
  | tableNettingRequest => exact .seq (.map _ (.required _ _)) (.required _ _)
  | tableLeave => exact .seq (.seq (.map _ (.required _ _)) (.required _ _)) (.required _ _)
  | handComplete => exact .seq (.map _ (.required _ _)) (.required _ _)
  | tableNettingComplete => exact .seq (.seq (.map _ (.required _ _)) (.required _ _)) (.required _ _)

/-- What the members beside the subject are read as. -/
theorem read_record_iff (s : Subject) : (record s).read look = some e ↔
    e.subject = s ∧ (∀ m ∈ e.scalars, look m.1 = some m.2) ∧
      ∀ n, e.netting? = some n → (look "netting").bind (reads Netting.decode) = some n := by
  constructor
  · intro h
    cases s <;>
      simp [record, Option.bind_eq_some_iff, reads_text_eq_some, reads_uint64_eq_some, reads_size_eq_some] at h
    case progressNetting | timeout =>
      obtain ⟨table, htable, rfl⟩ := h
      simp [subject, scalars, fields, netting?, htable]
    case kick | tableNettingRequest | handComplete =>
      obtain ⟨table, htable, hand, hhand, rfl⟩ := h
      simp [subject, scalars, fields, netting?, htable, hhand]
    case handleDispute | tableLeave =>
      obtain ⟨table, htable, first, hfirst, second, hsecond, rfl⟩ := h
      simp [subject, scalars, fields, netting?, htable, hfirst, hsecond]
    case tableNettingComplete =>
      obtain ⟨table, htable, hand, hhand, v, hv, n, hn, rfl⟩ := h
      simp [subject, scalars, fields, netting?, htable, hhand, hv, hn]
  · rintro ⟨rfl, hscalars, hnetting⟩
    cases e <;> simp [scalars, fields, netting?] at hscalars hnetting <;>
      simp [record, subject, hscalars, hnetting]

theorem says_of_decode (h : decode (.ofJson (.object members)) = .ok e) : Says (members.lookup ·) e := by
  unfold decode at h
  cases htagged : tagged "subject" "internally tagged enum ControlEvent" (.ofJson (.object members)) with
  | error f => rw [htagged] at h; cases h
  | ok split =>
    obtain ⟨tag, rest⟩ := split
    obtain ⟨v, hv, rfl, rfl⟩ := filter_of_tagged htagged
    rw [htagged] at h
    change (do
      let s ← Decode.tag Subject.known (.ofJson v)
      (record s).decode s!"a {s.name} event" _) = Except.ok e at h
    cases hs : Decode.tag Subject.known (.ofJson v) with
    | error f => rw [hs] at h; cases h
    | ok s =>
      rw [hs] at h
      have hrecord : (record s).decode s!"a {s.name} event"
          (.ofJson (.object (members.filter fun m => m.1 ≠ "subject"))) = .ok e := h
      obtain ⟨rfl, hscalars, hnetting⟩ := (read_record_iff s).1 (read_of_decode hrecord)
      obtain rfl := Subject.tag_eq_ok.1 hs
      -- The record is read off what is left beside the tag, which is part of the object.
      have hothers : ∀ name v, (members.filter fun m => m.1 ≠ "subject").lookup name = some v →
          members.lookup name = some v := by
        intro name v hname
        rw [Keyed.lookup_filter_name fun name => name ≠ "subject"] at hname
        split at hname
        · exact hname
        · cases hname
      refine ⟨?_, fun m hm => hothers _ _ (hscalars m hm), fun n hn => ?_⟩
      · have hself := Keyed.lookup_filter_name (fun name => name = "subject") "subject" members
        rw [hv] at hself
        simpa using hself.symm
      · obtain ⟨w, hw, hread⟩ := Option.bind_eq_some_iff.1 (hnetting n hn)
        exact Option.bind_eq_some_iff.2 ⟨w, hothers _ _ hw, hread⟩

theorem decode_of_says (hnames : (members.map (·.1)).Nodup) (h : Says (members.lookup ·) e) :
    decode (.ofJson (.object members)) = .ok e := by
  have htagged := tagged_object (Keyed.filter_name_of_lookup hnames h.subject)
    "internally tagged enum ControlEvent"
  have hrest : ((members.filter fun m => m.1 ≠ "subject").map (·.1)).Nodup :=
    hnames.sublist (List.filter_sublist.map _)
  have hother : ∀ name, name ≠ "subject" →
      (members.filter fun m => m.1 ≠ "subject").lookup name = members.lookup name := by
    intro name hname
    rw [Keyed.lookup_filter_name fun name => name ≠ "subject", if_pos (by simpa using hname)]
  have hread : (record e.subject).read ((members.filter fun m => m.1 ≠ "subject").lookup ·) = some e := by
    refine (read_record_iff e.subject).2 ⟨rfl, fun m hm => ?_, fun n hn => ?_⟩
    · rw [hother _ (ne_subject_of_mem hm), h.scalars m hm]
    · rw [hother _ (by decide), h.netting n hn]
  have hdecode := reads_eq_some_iff.1 ((reads_object (sound_record e.subject) s!"a {e.subject.name} event" hrest).trans hread)
  unfold decode
  rw [htagged]
  change (do
    let s ← Decode.tag Subject.known (.ofJson e.subject.encode)
    (record s).decode s!"a {s.name} event" _) = Except.ok e
  rw [Subject.tag_eq_ok.2 rfl]
  exact hdecode

/-! ## Writing an event -/

/-- The document of a settlement is canonical if that of its balances is. -/
def Canonical (e : ControlEvent) : Prop := ∀ n ∈ e.netting?, n.Canonical

instance (e : ControlEvent) : Decidable e.Canonical := inferInstanceAs (Decidable (∀ n ∈ e.netting?, n.Canonical))

/-- What an event is written as is its payload with the subject and the table added. -/
theorem sorted_encode (he : e.Canonical) : e.encode.sorted = .object (routed e.subject e.table e.payloadMembers) := by
  cases e with
  | tableNettingComplete table hand netting =>
    have hnetting : netting.encode.sorted = netting.encode :=
      (Json.sorted_eq_iff_canonical _).2 (Netting.canonical_members (he netting rfl))
    simp only [encode, fields, Json.sorted, Json.sortedMembers, hnetting]
    rfl
  | _ => rfl

theorem ascending_payload (e : ControlEvent) : e.payloadMembers.Pairwise (·.1 < ·.1) := by
  cases e <;> simp only [payloadMembers, List.pairwise_pair, List.pairwise_singleton, List.Pairwise.nil] <;> decide

theorem nodup_routed (h : members.Pairwise (·.1 < ·.1)) (s : Subject) (table : String) :
    ((routed s table members).map (·.1)).Nodup :=
  Keyed.nodup_of_ascending (Keyed.ascending_insertInto _ _ (Keyed.ascending_insertInto _ _ h))

/-- What is written is read; only a settlement that a reserved name signs is not read back. -/
theorem decode_routed (he : e.Canonical) : ∃ back,
    decode (.ofJson (.object (routed e.subject e.table e.payloadMembers))) = .ok back ∧
      (back = e ↔ ∀ n, e.netting? = some n → n.Unreserved) := by
  have hnames := nodup_routed e.ascending_payload e.subject e.table
  cases e with
  | tableNettingComplete table hand netting =>
    obtain ⟨back, hback, hiff⟩ := Netting.decode_encode (he netting rfl)
    refine ⟨.tableNettingComplete table hand back, decode_of_says hnames (says_routed_iff.2 ⟨rfl, rfl, ?_, ?_⟩), ?_⟩
    · simp [scalars, fields, payloadMembers]
    · simpa [payloadMembers, netting?, List.lookup_cons] using reads_eq_some_iff.2 hback
    · simpa [netting?] using hiff
  | _ =>
    refine ⟨_, decode_of_says hnames (says_routed_iff.2 ⟨rfl, rfl, ?_, nofun⟩), ?_⟩
    · simp [scalars, fields, payloadMembers, List.lookup_cons]
    · simp [netting?]

theorem eq_none_of_payload (e : ControlEvent) :
    e.payloadMembers.lookup "subject" = none ∧ e.payloadMembers.lookup "tableAddr" = none := by
  cases e <;> simp [payloadMembers, List.lookup_cons]

end ControlEvent

namespace ControlEnvelope

open ControlEvent (routed says_routed_iff says_of_decode decode_of_says decode_routed nodup_routed sorted_encode)

/-- An event is written as its payload with its subject and its table added, which its payload leaves
free; in any envelope it comes out as what is read of that, and unchanged exactly if no reserved name
signs a settlement that it holds. -/
theorem survives_envelope (id : Uuid) (time : Instant) {e : ControlEvent} (he : e.Canonical) :
    (∃ members, e.payload = .object members ∧ members.lookup "subject" = none ∧ members.lookup "tableAddr" = none ∧
      e.encode.sorted = .object (routed e.subject e.table members)) ∧
    ∃ back, (wrap id time e).event = .ok back ∧ ControlEvent.decode (.ofJson e.encode.sorted) = .ok back ∧
      (back = e ↔ ∀ n, e.netting? = some n → n.Unreserved) := by
  obtain ⟨hsubject, htable⟩ := e.eq_none_of_payload
  obtain ⟨back, hback, hiff⟩ := decode_routed he
  refine ⟨⟨e.payloadMembers, rfl, hsubject, htable, sorted_encode he⟩, back, hback, ?_, hiff⟩
  rw [sorted_encode he, hback]

/-- A settlement that the name of the balances signs does not come out as it was sent. -/
theorem survives_envelope_reserved_signer :
    let time : Instant := ⟨1700000000, 0⟩
    let netting := (Netting.ofBalances (.string "0xbalances") "sig-oracle").sign "0xaa" "sig-a"
    let signed := ControlEvent.tableNettingComplete "0xt" 12 netting
    let hidden := ControlEvent.tableNettingComplete "0xt" 12 (netting.sign Netting.balancesName "sig-b")
    signed.Canonical ∧ (wrap (.ofNat 7) time signed).event = .ok signed ∧
      hidden.Canonical ∧ ∃ back, (wrap (.ofNat 7) time hidden).event = .ok back ∧ back ≠ hidden := by
  intro time netting signed hidden
  have hsigned : signed.Canonical := by decide
  have hhidden : hidden.Canonical := by decide
  obtain ⟨-, back, hback, -, hiff⟩ := survives_envelope (.ofNat 7) time hsigned
  obtain ⟨-, other, hother, -, hiff'⟩ := survives_envelope (.ofNat 7) time hhidden
  have hsame : back = signed := by
    refine hiff.2 fun n hn => ?_
    cases hn
    decide
  have hlost : ¬ (netting.sign Netting.balancesName "sig-b").Unreserved := by decide
  exact ⟨hsigned, hsame ▸ hback, hhidden, other, hother, fun heq => hlost (hiff'.1 heq _ rfl)⟩

/-- The members that an event is read off: what the payload says by name, with a subject and a table
added. -/
theorem exists_routed (env : ControlEnvelope) : ∃ members, env.eventMembers = routed env.subject env.table members ∧
    (∀ name, env.payload.at? [name] = members.lookup name) ∧ (env.payload.isObject = false → members = []) := by
  obtain ⟨id, time, s, table, payload⟩ := env
  cases payload with
  | object members => exact ⟨members, rfl, fun name => by simp [Json.at?], nofun⟩
  | null | bool | number | string | array => exact ⟨[], rfl, fun name => rfl, fun _ => rfl⟩

theorem says_of_event {env : ControlEnvelope} {e : ControlEvent} (h : env.event = .ok e) :
    e.subject = env.subject ∧ e.table = env.table ∧
      (∀ m ∈ e.scalars, m.1 ≠ "tableAddr" → env.payload.at? [m.1] = some m.2) ∧
      ∀ n, e.netting? = some n → ∃ v, env.payload.at? ["netting"] = some v ∧ Netting.decode (.ofJson v) = .ok n := by
  obtain ⟨members, hmembers, hat, -⟩ := env.exists_routed
  rw [event, hmembers] at h
  obtain ⟨hsubject, htable, hscalars, hnetting⟩ := says_routed_iff.1 (says_of_decode h)
  refine ⟨hsubject, htable, fun m hm hne => by rw [hat, hscalars m hm hne], fun n hn => ?_⟩
  obtain ⟨v, hv, hread⟩ := Option.bind_eq_some_iff.1 (hnetting n hn)
  exact ⟨v, by rw [hat, hv], reads_eq_some_iff.1 hread⟩

/-- Whatever the payload of an envelope says, an event that comes out has the subject and the table of
the envelope; all else is as the payload says, and the event survives another envelope. A payload that is
no object is enough only for the subjects that call for nothing. -/
theorem payload_forges_nothing (env : ControlEnvelope) :
    (∀ e, env.event = .ok e →
      e.subject = env.subject ∧ e.table = env.table ∧
      (∀ m ∈ e.scalars, m.1 ≠ "tableAddr" → env.payload.at? [m.1] = some m.2) ∧
      (∀ n, e.netting? = some n → n.Unreserved ∧
        ∃ v, env.payload.at? ["netting"] = some v ∧ Netting.decode (.ofJson v) = .ok n) ∧
      ∀ id time, (wrap id time e).event = .ok e) ∧
    (env.payload.isObject = false →
      ((∃ e, env.event = .ok e) ↔ env.subject = .progressNetting ∨ env.subject = .timeout)) := by
  constructor
  · intro e he
    obtain ⟨hsubject, htable, hscalars, hnetting⟩ := says_of_event he
    have hread : ∀ n, e.netting? = some n → n.Unreserved ∧ n.Canonical := by
      intro n hn
      obtain ⟨v, -, hv⟩ := hnetting n hn
      exact Netting.unreserved_of_decode hv
    refine ⟨hsubject, htable, hscalars, fun n hn => ⟨(hread n hn).1, hnetting n hn⟩, fun id time => ?_⟩
    obtain ⟨back, hback, hiff⟩ := decode_routed fun n hn => (hread n hn).2
    obtain rfl := hiff.2 fun n hn => (hread n hn).1
    exact hback
  · intro hobject
    constructor
    · rintro ⟨e, he⟩
      obtain ⟨hsubject, -, hscalars, -⟩ := says_of_event he
      -- Whatever else the event held would have been read off a payload that has no members.
      have hnothing : ∀ m ∈ e.scalars, m.1 = "tableAddr" := by
        intro m hm
        by_contra hne
        have hsaid := hscalars m hm hne
        rw [Json.at?_cons_of_not_object hobject] at hsaid
        cases hsaid
      rw [← hsubject]
      cases e <;> simp [ControlEvent.scalars, ControlEvent.fields] at hnothing <;> simp [ControlEvent.subject]
    · obtain ⟨members, hmembers, -, hempty⟩ := env.exists_routed
      have hnames := nodup_routed .nil env.subject env.table
      rw [event, hmembers, hempty hobject]
      rintro (hsubject | hsubject)
      · refine ⟨.progressNetting env.table, decode_of_says hnames (says_routed_iff.2 ⟨hsubject.symm, rfl, ?_, nofun⟩)⟩
        simp [ControlEvent.scalars, ControlEvent.fields]
      · refine ⟨.timeout env.table, decode_of_says hnames (says_routed_iff.2 ⟨hsubject.symm, rfl, ?_, nofun⟩)⟩
        simp [ControlEvent.scalars, ControlEvent.fields]

/-- The payload of a kick names another subject and another table; a timeout comes without a payload. -/
theorem payload_forges_nothing_other_table :
    let forged := Json.object
      [("pos", .natural 3), ("subject", .string "Timeout"), ("tableAddr", .string "0xother")]
    let kick : ControlEnvelope := ⟨.ofNat 7, ⟨1700000000, 0⟩, .kick, "0xt", forged⟩
    let timeout : ControlEnvelope := ⟨.ofNat 8, ⟨1700000000, 0⟩, .timeout, "0xt", .null⟩
    kick.event = .ok (.kick "0xt" 3) ∧ forged.at? ["pos"] = some (.natural 3) ∧
      timeout.payload.isObject = false ∧ ∃ e, timeout.event = .ok e := by
  intro forged kick timeout
  have hkick : kick.event = .ok (.kick "0xt" 3) := rfl
  obtain ⟨-, -, hscalars, -⟩ := (payload_forges_nothing kick).1 _ hkick
  exact ⟨hkick, hscalars ("pos", .natural 3) (by decide) (by decide), rfl,
    ((payload_forges_nothing timeout).2 rfl).2 (.inr rfl)⟩

end ControlEnvelope

end TableEscrow
