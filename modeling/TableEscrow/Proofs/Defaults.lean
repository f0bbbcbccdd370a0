import TableEscrow.Config.Sections
import TableEscrow.Proofs.Layers
import TableEscrow.Proofs.Records
/-!
# Defaults

A configuration gets its defaults when it is read: a member that is missing is the default of its
record. The same defaults come from a document: its shape lies under every other layer. The two
agree, at every depth (`Fills`), because the shape of a record holds what each of its defaults is
read from.
-/

namespace TableEscrow.Decode

variable {α β : Type}

/-- A default and the document it is read from: to lay a document over that one changes nothing of
what is read. -/
structure Fills (decode : Decoder α) (shape : Json) (default : α) : Prop where
  filled : reads decode shape = some default
  agrees : ∀ v : Json, v.Canonical → reads decode (shape.overlay v) = reads decode v

theorem Fills.of_not_object {decode : Decoder α} {shape : Json} {default : α} (hs : shape.isObject = false)
    (hr : reads decode shape = some default) : Fills decode shape default :=
  ⟨hr, fun v _ => by rw [Json.overlay_of_not_object (by rw [hs]; rfl)]⟩

namespace Record

/-- What the names hold after what `look` gives is laid over what `shape` gives. -/
def overlaid (shape look : String → Option Json) (name : String) : Option Json :=
  match look name with
  | some v => some (((shape name).getD .null).overlay v)
  | none => shape name

/-- The shape of a record holds what its defaults are read from. -/
structure FilledBy (r : Record α) (shape : String → Option Json) (default : α) : Prop where
  filled : r.read shape = some default
  agrees : ∀ look : String → Option Json, (∀ name v, look name = some v → v.Canonical) →
    r.read (overlaid shape look) = r.read look

variable {shape : String → Option Json}

theorem FilledBy.seq {f : Record (α → β)} {x : Record α} {g : α → β} {a : α} (hf : f.FilledBy shape g)
    (hx : x.FilledBy shape a) : (f <*> x).FilledBy shape (g a) := by
  refine ⟨?_, fun look hlook => ?_⟩
  · rw [read_seq, hf.filled, hx.filled]
    rfl
  · rw [read_seq, read_seq, hf.agrees look hlook, hx.agrees look hlook]

theorem FilledBy.map (f : α → β) {x : Record α} {a : α} (hx : x.FilledBy shape a) : (f <$> x).FilledBy shape (f a) := by
  refine ⟨?_, fun look hlook => ?_⟩
  · rw [read_map, hx.filled]
    rfl
  · rw [read_map, read_map, hx.agrees look hlook]

theorem FilledBy.withDefault {name : String} {default : α} {decode : Decoder α} {s : Json} (hs : shape name = some s)
    (h : Fills decode s default) : (Record.withDefault name default decode).FilledBy shape default := by
  refine ⟨?_, fun look hlook => ?_⟩
  · rw [read_withDefault, hs]
    exact h.filled
  · rw [read_withDefault, read_withDefault, overlaid]
    cases hv : look name with
    | none =>
      rw [hs]
      exact h.filled
    | some v =>
      rw [hs]
      exact h.agrees v (hlook name v hv)

theorem FilledBy.fills {r : Record α} (hr : r.Sound) {members : List (String × Json)}
    (hn : (members.map (·.1)).Nodup) {default : α}
    (h : r.FilledBy (fun name => (members.lookup name).map Json.sorted) default) (title : String) :
    Fills (r.decode title) (Json.object members).sorted default := by
  refine ⟨by rw [reads_sorted_object hr title hn, h.filled], fun v hv => ?_⟩
  obtain ⟨entries, hentries, hlookup⟩ := Json.sorted_object hn
  have hcanonical : Json.Canonical (.object entries) := hentries ▸ Json.canonical_sorted _
  rw [hentries]
  cases hobject : v.isObject with
  | false => rw [Json.overlay_of_not_object (by rw [hobject, Bool.and_false])]
  | true =>
    obtain ⟨given, rfl⟩ := Json.isObject_iff.1 hobject
    have hover : Json.Canonical (.object (Json.overlayMembers entries given)) := Json.canonical_overlay hcanonical hv
    have hlook : (fun name => (Json.overlayMembers entries given).lookup name) =
        overlaid (fun name => (members.lookup name).map Json.sorted) (given.lookup ·) := by
      funext name
      cases hw : given.lookup name with
      | none => simp only [overlaid, hw, Json.lookup_overlayMembers_of_none hw, hlookup]
      | some w => simp only [overlaid, hw, Json.lookup_overlayMembers_of_some hv.nodup_names hw, hlookup]
    rw [Json.overlay, reads_object hr title hover.nodup_names, reads_object hr title hv.nodup_names, hlook]
    exact h.agrees _ fun name w hw => hv.of_lookup hw

end Record

end TableEscrow.Decode

namespace TableEscrow

open Decode Record

/-! ## The sections -/

theorem Thresholds.sound_record : record.Sound := by
  refine .seq (.seq (.seq (.seq (.map _ ?_) ?_) ?_) ?_) ?_
  all_goals exact .withDefault _ _ _

theorem Thresholds.lawful : Lawful decode encode := by
  intro t
  rw [decode, encode, reads_sorted_object sound_record _ (by simp [named])]
  simp [record, named, List.lookup_cons, lawful_int64 _]

theorem Thresholds.fills : Fills decode standard.encode.sorted standard := by
  refine FilledBy.fills sound_record (by decide) (.seq (.seq (.seq (.seq (.map _ ?_) ?_) ?_) ?_) ?_) _
  all_goals exact .withDefault rfl (.of_not_object rfl rfl)

theorem ReconcileSection.sound_record : record.Sound := .seq (.map _ (.withDefault _ _ _)) (.withDefault _ _ _)

theorem ReconcileSection.lawful : Lawful decode encode := by
  intro s
  rw [decode, encode, reads_sorted_object sound_record _ (by simp)]
  simp [record, List.lookup_cons, Thresholds.lawful _, lawful_uint64 _]

theorem ReconcileSection.fills : Fills decode standard.encode.sorted standard := by
  refine FilledBy.fills sound_record (by decide) (.seq (.map _ (.withDefault rfl Thresholds.fills)) (.withDefault rfl ?_)) _
  exact .of_not_object rfl rfl

theorem ServiceSection.sound_record (standard : ServiceSection) : (record standard).Sound :=
  .seq (.seq (.map _ (.withDefault _ _ _)) (.withDefault _ _ _)) (.maybe _ _)

theorem ServiceSection.lawful (standard : ServiceSection) (title : String) : Lawful (decode standard title) encode := by
  intro s
  rw [decode, encode, reads_sorted_object (sound_record standard) _ (by simp)]
  simp [record, maybe, List.lookup_cons, lawful_text _, lawful_uint64 _, lawful_text.optional nofun _]

theorem ServiceSection.fills (standard : ServiceSection) (hkey : standard.keyVariable = none) (title : String) :
    Fills (decode standard title) standard.encode.sorted standard := by
  obtain ⟨baseUrl, timeout, keyVariable⟩ := standard
  cases hkey
  refine FilledBy.fills (sound_record _) (by simp) (.seq (.seq (.map _ ?_) ?_) ?_) _
  all_goals exact .withDefault rfl (.of_not_object rfl rfl)

theorem DatabaseSection.sound_record : record.Sound := .seq (.map _ (.withDefault _ _ _)) (.withDefault _ _ _)

theorem DatabaseSection.lawful : Lawful decode encode := by
  intro s
  rw [decode, encode, reads_sorted_object sound_record _ (by simp)]
  simp [record, List.lookup_cons, lawful_text _, lawful_uint32 _]

theorem DatabaseSection.fills : Fills decode standard.encode.sorted standard := by
  refine FilledBy.fills sound_record (by decide) (.seq (.map _ ?_) ?_) _
  all_goals exact .withDefault rfl (.of_not_object rfl rfl)

theorem BusSection.sound_record : record.Sound := .map _ (.withDefault _ _ _)

theorem BusSection.lawful : Lawful decode encode := by
  intro s
  rw [decode, encode, reads_sorted_object sound_record _ (by simp)]
  simp [record, lawful_size _]

theorem BusSection.fills : Fills decode standard.encode.sorted standard :=
  FilledBy.fills sound_record (by decide) (.map _ (.withDefault rfl (.of_not_object rfl rfl))) _

theorem DaemonSection.sound_record : record.Sound := .map _ (.withDefault _ _ _)

theorem DaemonSection.lawful : Lawful decode encode := by
  intro s
  rw [decode, encode, reads_sorted_object sound_record _ (by simp)]
  simp [record, lawful_text _]

theorem DaemonSection.fills : Fills decode standard.encode.sorted standard :=
  FilledBy.fills sound_record (by decide) (.map _ (.withDefault rfl (.of_not_object rfl rfl))) _

/-! ## The configuration -/

namespace Config

theorem sound_record : record.Sound := by
  refine .seq (.seq (.seq (.seq (.seq (.map _ ?_) ?_) ?_) ?_) ?_) ?_
  all_goals exact .withDefault _ _ _

theorem lawful : Lawful decode encode := by
  intro c
  rw [decode, encode, reads_sorted_object sound_record _ (by simp)]
  simp [record, List.lookup_cons, ReconcileSection.lawful _, ServiceSection.lawful _ _ _, DatabaseSection.lawful _,
    BusSection.lawful _, DaemonSection.lawful _]

theorem fills : Fills decode shape.sorted standard := by
  refine FilledBy.fills sound_record (by decide) (.seq (.seq (.seq (.seq (.seq (.map _ ?_) ?_) ?_) ?_) ?_) ?_) _
  · exact .withDefault rfl ReconcileSection.fills
  · exact .withDefault rfl (ServiceSection.fills .gateway rfl _)
  · exact .withDefault rfl (ServiceSection.fills .oracle rfl _)
  · exact .withDefault rfl DatabaseSection.fills
  · exact .withDefault rfl BusSection.fills
  · exact .withDefault rfl DaemonSection.fills

/-- A document counts by what is read off it. -/
theorem ofDocument_eq (d : Json) : ofDocument d =
    match reads decode d with
    | some config => config.reconcile.thresholds.validate.map fun _ => config
    | none => .error .shape := by
  unfold ofDocument reads
  cases decode (.ofJson d) with
  | error f => rfl
  | ok config => cases hvalid : config.reconcile.thresholds.validate <;> simp [Except.toOption, hvalid] <;> rfl

theorem ofDocument_eq_ok {d : Json} {c : Config} :
    ofDocument d = .ok c ↔ reads decode d = some c ∧ c.reconcile.thresholds.validate = .ok () := by
  rw [ofDocument_eq]
  cases reads decode d with
  | none => simp
  | some config =>
    rw [Option.some.injEq]
    constructor
    · intro h
      cases hvalid : config.reconcile.thresholds.validate with
      | error e => simp only [hvalid] at h; cases h
      | ok _ => simp only [hvalid] at h; cases h; exact ⟨rfl, hvalid⟩
    · rintro ⟨rfl, hvalid⟩
      simp only [hvalid]
      rfl

/-- To lay a document over the shape of a configuration changes nothing of the configuration it
describes, nor of the error if it describes none; and a configuration is read back from its text. -/
theorem defaults_agree :
    (∀ d : Json, d.Canonical → ofDocument (shape.sorted.overlay d) = ofDocument d) ∧
    ∀ c : Config, c.reconcile.thresholds.validate = .ok () → ofDocument c.encode.sorted = .ok c := by
  constructor
  · intro d hd
    rw [ofDocument_eq, ofDocument_eq, fills.agrees d hd]
  · intro c hvalid
    rw [ofDocument_eq, lawful c]
    simp only [hvalid]
    rfl

/-- One threshold and one address are given, and the rest is filled in. -/
theorem defaults_agree_two_members :
    let given := Json.object [("gateway", .object [("base_url", .string "https://escrow.internal")]),
      ("reconcile", .object [("thresholds", .object [("kick_after_secs", .integer 120)])])]
    let config := { standard with
      reconcile.thresholds.kickAfter := 120, gateway.baseUrl := "https://escrow.internal" }
    given.Canonical ∧ ofDocument (shape.sorted.overlay given) = .ok config ∧
      config.reconcile.thresholds.validate = .ok () ∧ ofDocument config.encode.sorted = .ok config := by
  intro given config
  have hcanonical : given.Canonical := by decide
  have hvalid : config.reconcile.thresholds.validate = .ok () := rfl
  refine ⟨hcanonical, ?_, hvalid, defaults_agree.2 config hvalid⟩
  rw [defaults_agree.1 given hcanonical]
  rfl

end Config

end TableEscrow
