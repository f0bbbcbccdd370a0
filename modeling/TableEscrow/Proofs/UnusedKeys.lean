import Mathlib.Data.List.Nodup
import TableEscrow.Config.UnusedKeys
import TableEscrow.Proofs.Pointers
import TableEscrow.Proofs.Shapes
/-!
# Unused keys are unused

The report and the typed configuration go over a document each on their own. They agree on what
counts: a document without the keys that are reported is the part of it that the shape knows
(`without_eq_restrict`), and nothing else is read. So the report can be acted on: whoever takes the
keys out has the same configuration as before, and a clean report (`reported_keys_unused`).
-/

namespace TableEscrow.UnusedKeys

variable {g pointer : String}

/-! ## What is reported -/

/-- The unused keys at or below one member. -/
def ofMember (pointer : String) (known : List (String × Json)) (m : String × Json) : List String :=
  match known.lookup m.1 with
  | some shape => below (Pointer.below pointer m.1) m.2 shape
  | none => [Pointer.below pointer m.1]

theorem belowMembers_eq (pointer : String) (known members : List (String × Json)) :
    belowMembers pointer known members = members.flatMap (ofMember pointer known) := by
  induction members with
  | nil => rfl
  | cons m rest ih => rw [List.flatMap_cons, ← ih]; rfl

mutual

theorem within_of_mem_below {pointer : String} :
    ∀ {v shape : Json}, g ∈ below pointer v shape → Pointer.Within pointer g
  | .object _, .object _, h => within_of_mem_belowMembers h

theorem within_of_mem_belowMembers {pointer : String} {known : List (String × Json)} :
    ∀ {members : List (String × Json)}, g ∈ belowMembers pointer known members → Pointer.Within pointer g
  | (key, v) :: rest, h => by
    rw [belowMembers] at h
    rcases List.mem_append.1 h with h | h
    · split at h
      · exact (within_of_mem_below h).of_below
      · cases List.mem_singleton.1 h
        exact Pointer.within_below pointer key
    · exact within_of_mem_belowMembers h

end

theorem beyond_of_mem_ofMember {known : List (String × Json)} {m : String × Json}
    (h : g ∈ ofMember pointer known m) : Pointer.Beyond (Pointer.below pointer m.1) g := by
  unfold ofMember at h
  split at h
  · exact .inr (within_of_mem_below h)
  · exact .inl (List.mem_singleton.1 h)

/-- A member is reported itself exactly if the shape does not know it. -/
theorem below_mem_ofMember_iff {known : List (String × Json)} {m : String × Json} :
    Pointer.below pointer m.1 ∈ ofMember pointer known m ↔ known.lookup m.1 = none := by
  unfold ofMember
  cases hshape : known.lookup m.1 with
  | none => simp
  | some shape => simpa using fun h => Pointer.not_within_self _ (within_of_mem_below h)

/-- Whatever is reported at or below a member is reported for it, for there is no other way there. -/
theorem mem_belowMembers_iff {known members : List (String × Json)} (hn : (members.map (·.1)).Nodup)
    {m : String × Json} (hm : m ∈ members) (hg : Pointer.Beyond (Pointer.below pointer m.1) g) :
    g ∈ belowMembers pointer known members ↔ g ∈ ofMember pointer known m := by
  rw [belowMembers_eq, List.mem_flatMap]
  refine ⟨?_, fun h => ⟨m, hm, h⟩⟩
  rintro ⟨other, hother, h⟩
  have hname : other.1 = m.1 := Pointer.eq_of_beyond (beyond_of_mem_ofMember h) hg
  have hsame : other = m := List.inj_on_of_nodup_map hn hother hm hname
  exact hsame ▸ h

mutual

theorem below_restrict (pointer : String) : ∀ v shape : Json, below pointer (shape.restrict v) shape = []
  | .object members, shape => by
    cases shape with
    | object known =>
      rw [Json.restrict_object, below]
      exact belowMembers_restrictMembers pointer known members
    | null | bool | number | string | array => rfl
  | .null, _ | .bool _, _ | .number _, _ | .string _, _ | .array _, _ => by
    rw [Json.restrict_of_not_object (by simp [Json.isObject])]
    simp [below]

theorem belowMembers_restrictMembers (pointer : String) (known : List (String × Json)) :
    ∀ members : List (String × Json), belowMembers pointer known (Json.restrictMembers known members) = []
  | [] => rfl
  | (key, v) :: rest => by
    rw [Json.restrictMembers]
    cases hshape : known.lookup key with
    | none => exact belowMembers_restrictMembers pointer known rest
    | some shape =>
      simp only [belowMembers, hshape, below_restrict (Pointer.below pointer key) v shape, List.nil_append]
      exact belowMembers_restrictMembers pointer known rest

end

/-! ## What is left without the keys that are reported -/

variable {gone : List String}

theorem withoutMembers_eq_restrictMembers {known members : List (String × Json)}
    (hgone : ∀ m ∈ members, Pointer.below pointer m.1 ∈ gone ↔ known.lookup m.1 = none)
    (heach : ∀ m ∈ members, ∀ shape, known.lookup m.1 = some shape →
      m.2.without gone (Pointer.below pointer m.1) = shape.restrict m.2) :
    Json.withoutMembers gone pointer members = Json.restrictMembers known members := by
  induction members with
  | nil => rfl
  | cons m rest ih =>
    obtain ⟨key, v⟩ := m
    have hrest := ih (fun m hm => hgone m (List.mem_cons_of_mem _ hm)) fun m hm => heach m (List.mem_cons_of_mem _ hm)
    have hkey : Pointer.below pointer key ∈ gone ↔ known.lookup key = none := hgone (key, v) List.mem_cons_self
    rw [Json.withoutMembers, Json.restrictMembers, hrest]
    cases hshape : known.lookup key with
    | none => rw [if_pos (hkey.2 hshape)]
    | some shape =>
      rw [if_neg fun h => by simpa [hshape] using hkey.1 h]
      simp only [heach (key, v) List.mem_cons_self shape hshape]

/-- To take out what is reported is to keep what the shape knows. -/
theorem without_eq_restrict {v : Json} (hv : v.Canonical) {shape : Json}
    (hgone : ∀ g, Pointer.Within pointer g → (g ∈ gone ↔ g ∈ below pointer v shape)) :
    v.without gone pointer = shape.restrict v := by
  induction hv generalizing pointer shape with
  | null | bool | number | string => rw [Json.restrict_of_not_object (by simp [Json.isObject])]; rfl
  | array =>
    rw [Json.restrict_of_not_object (by simp [Json.isObject]), Json.without_eq_self]
    intro g hg hw
    simpa [below] using (hgone g hw).1 hg
  | @object members ascending each ih =>
    cases shape with
    | object known =>
      have hn : (members.map (·.1)).Nodup := Keyed.nodup_of_ascending ascending
      -- At and below one member, what is gone is what is reported for that member alone.
      have hmember : ∀ m ∈ members, ∀ g, Pointer.Beyond (Pointer.below pointer m.1) g →
          (g ∈ gone ↔ g ∈ ofMember pointer known m) := by
        intro m hm g hg
        rw [hgone g hg.within, below, mem_belowMembers_iff hn hm hg]
      rw [Json.without, Json.restrict_object, withoutMembers_eq_restrictMembers]
      · intro m hm
        rw [hmember m hm _ (.inl rfl), below_mem_ofMember_iff]
      · intro m hm shape hshape
        refine ih m hm fun g hw => ?_
        rw [hmember m hm g (.inr hw), ofMember, hshape]
    | null | bool | number | string | array =>
      rw [Json.restrict_of_not_object (by simp [Json.isObject]), Json.without_eq_self]
      intro g hg hw
      simpa [below] using (hgone g hw).1 hg

end TableEscrow.UnusedKeys

namespace TableEscrow

open Decode Record

/-! ## What a role reads -/

/-- The sections that a role reads, each with its shape. -/
def Role.sections (role : Role) : List (String × Json) :=
  match Config.shape with
  | .object known => known.filter fun m => role.reads m.1
  | _ => []

/-- A document without the sections that a role does not read. -/
def Role.part (role : Role) (members : List (String × Json)) : List (String × Json) :=
  members.filter fun m => role.reads m.1

namespace UnusedKeys

theorem keys_ofDocument (role : Role) (members : List (String × Json)) :
    (ofDocument role (.object members)).keys =
      (below "" (.object members) (.object role.sections)).mergeSort (· ≤ ·) := by
  obtain ⟨known, hshape⟩ : ∃ known, Config.shape = .object known := ⟨_, rfl⟩
  have hmember : ∀ m, ofMember "" (known.filter fun m => role.reads m.1) m = ofSection role known m.1 m.2 := by
    intro m
    rw [ofSection, ofMember, Keyed.lookup_filter_name]
    cases hreads : role.reads m.1 <;> cases known.lookup m.1 <;> simp
  simp only [ofDocument, Role.sections, hshape, below, belowMembers_eq, funext hmember]

theorem ofDocument_eq_of_below {role : Role} {members : List (String × Json)} {keys : List String}
    (h : below "" (.object members) (.object role.sections) = keys) (ascending : keys.Pairwise (· ≤ ·)) :
    ofDocument role (.object members) = ⟨role, keys⟩ := by
  have hkeys : (ofDocument role (.object members)).keys = keys := by
    rw [keys_ofDocument, h, List.mergeSort_of_pairwise (by simpa using ascending)]
  exact congrArg (UnusedKeys.mk role) hkeys

/-- Without the keys that are reported for a role, a document is what the sections of the role know
of it. -/
theorem without_keys {members : List (String × Json)} (h : Json.Canonical (.object members)) (role : Role) :
    Json.without (ofDocument role (.object members)).keys "" (.object members) =
      .object (Json.restrictMembers role.sections members) := by
  have hgone : ∀ g, Pointer.Within "" g →
      (g ∈ (ofDocument role (.object members)).keys ↔ g ∈ below "" (.object members) (.object role.sections)) := by
    intro g _
    rw [keys_ofDocument, List.mem_mergeSort]
  rw [without_eq_restrict h hgone, Json.restrict_object]

/-- What the sections of a role know of a document has nothing to report. -/
theorem keys_restrictMembers (role : Role) (members : List (String × Json)) :
    (ofDocument role (.object (Json.restrictMembers role.sections members))).keys = [] := by
  rw [keys_ofDocument, below, belowMembers_restrictMembers, List.mergeSort_nil]

end UnusedKeys

/-! ## The configuration that is left -/

namespace Config

/-- What is read of the part that a role knows is what is read of the sections it reads. -/
theorem ofDocument_restrictMembers {members : List (String × Json)} (h : Json.Canonical (.object members))
    (role : Role) :
    ofDocument (.object (Json.restrictMembers role.sections members)) = ofDocument (.object (role.part members)) := by
  have hcanonical : Json.Canonical (.object (role.part members)) :=
    .object (h.ascending_of_object.filter _) fun m hm => h.of_mem (List.mem_of_mem_filter hm)
  have hpart : Json.object (Json.restrictMembers role.sections members) =
      shape.restrict (.object (role.part members)) :=
    congrArg Json.object (Json.restrictMembers_filter _ _ _)
  rw [ofDocument_eq, ofDocument_eq, hpart, knows _ hcanonical]

theorem ofDocument_part_daemon (members : List (String × Json)) :
    ofDocument (.object (Role.daemon.part members)) = ofDocument (.object members) := by
  simp [Role.part, Role.reads]

/-- A section that is not there is its default. -/
theorem read_part_cli {look : String → Option Json} {c : Config} (h : record.read look = some c) :
    record.read (fun name => if Role.cli.reads name then look name else none) =
      some { c with bus := .standard, daemon := .standard } := by
  simp only [record, read_seq, read_map, read_withDefault, Option.bind_eq_some_iff, Option.map_eq_some_iff] at h
  obtain ⟨_, ⟨_, ⟨_, ⟨_, ⟨_, ⟨reconcile, hreconcile, rfl⟩, gateway, hgateway, rfl⟩, oracle, horacle, rfl⟩,
    database, hdatabase, rfl⟩, _, -, rfl⟩, _, -, rfl⟩ := h
  have hstandard : standard.bus = .standard ∧ standard.daemon = .standard := ⟨rfl, rfl⟩
  -- What the other two sections held is of no account, for their names hold nothing any more.
  simp [record, Role.reads, hreconcile, hgateway, horacle, hdatabase, hstandard]

theorem ofDocument_part_cli {members : List (String × Json)} (h : Json.Canonical (.object members)) {c : Config}
    (hc : ofDocument (.object members) = .ok c) :
    ofDocument (.object (Role.cli.part members)) = .ok { c with bus := .standard, daemon := .standard } := by
  have hn : ((Role.cli.part members).map (·.1)).Nodup := Keyed.nodup_of_ascending (h.ascending_of_object.filter _)
  have hlook : ((Role.cli.part members).lookup ·) =
      fun name => if Role.cli.reads name then members.lookup name else none :=
    funext (Keyed.lookup_filter_name Role.cli.reads · members)
  obtain ⟨hread, hvalid⟩ := ofDocument_eq_ok.1 hc
  rw [decode, reads_object sound_record _ h.nodup_names] at hread
  refine ofDocument_eq_ok.2 ⟨?_, hvalid⟩
  rw [decode, reads_object sound_record _ hn, hlook]
  exact read_part_cli hread

end Config

namespace UnusedKeys

/-- What is written of a configuration, the daemon reads all of, and a single pass all but two sections. -/
theorem below_encode (c : Config) :
    below "" c.encode.sorted (.object Role.daemon.sections) = [] ∧
      below "" c.encode.sorted (.object Role.cli.sections) = ["/bus", "/daemon"] := by
  obtain ⟨reconcile, ⟨_, _, gatewayKey⟩, ⟨_, _, oracleKey⟩, database, bus, daemon⟩ := c
  -- A key variable is null or a text, and what is no object is not looked into.
  cases gatewayKey <;> cases oracleKey <;> exact ⟨rfl, rfl⟩

/-- The keys that are reported for a role can be taken out of a document. For the daemon the document
then describes the same configuration, or is refused for the same reason; for a single pass it
describes what it did before, with the defaults for the sections that the pass does not read. Either
way nothing is left to report; and of what is written of a configuration, nothing is reported but
the sections that the role does not read. -/
theorem reported_keys_unused :
    (∀ d : Json, d.Canonical → d.isObject = true → ∀ role, ∃ unused, report role d false = .ok unused ∧
      let p := d.without unused.keys ""
      (role = .daemon → Config.ofDocument p = Config.ofDocument d) ∧
      (role = .cli → ∀ c, Config.ofDocument d = .ok c →
        Config.ofDocument p = .ok { c with bus := .standard, daemon := .standard }) ∧
      report role p false = .ok ⟨role, []⟩) ∧
    ∀ c : Config, report .daemon c.encode.sorted false = .ok ⟨.daemon, []⟩ ∧
      report .cli c.encode.sorted false = .ok ⟨.cli, ["/bus", "/daemon"]⟩ := by
  constructor
  · intro d hd hobject role
    obtain ⟨members, rfl⟩ := Json.isObject_iff.1 hobject
    refine ⟨_, rfl, ?_⟩
    simp only [without_keys hd role, Config.ofDocument_restrictMembers hd role]
    refine ⟨?_, ?_, ?_⟩
    · rintro rfl
      exact Config.ofDocument_part_daemon members
    · rintro rfl c hc
      exact Config.ofDocument_part_cli hd hc
    · exact congrArg (fun keys => Except.ok (UnusedKeys.mk role keys)) (keys_restrictMembers role members)
  · intro c
    obtain ⟨hdaemon, hcli⟩ := below_encode c
    exact ⟨congrArg Except.ok (ofDocument_eq_of_below hdaemon .nil),
      congrArg Except.ok (ofDocument_eq_of_below hcli (by decide))⟩

/-- A key that is misspelt, one with a slash, one that is left over, and a section that only the daemon
reads. -/
theorem reported_keys_unused_misspelt :
    let d := Json.object [("bus", .object [("capacity", .integer 64)]),
      ("gateway", .object [("a/b", .null), ("base_url", .string "https://escrow.internal")]),
      ("legacy", .object [("a/b", .null)]),
      ("reconcile", .object [("thresholds", .object [("kick_after_sec", .integer 60),
        ("kick_after_secs", .integer 120)])])]
    let keys := ["/gateway/a~1b", "/legacy", "/reconcile/thresholds/kick_after_sec"]
    let config := { Config.standard with
      reconcile.thresholds.kickAfter := 120, gateway.baseUrl := "https://escrow.internal", bus := ⟨64⟩ }
    d.Canonical ∧ d.isObject = true ∧
      report .daemon d false = .ok ⟨.daemon, keys⟩ ∧ Config.ofDocument (d.without keys "") = .ok config ∧
      report .cli d false = .ok ⟨.cli, "/bus" :: keys⟩ ∧
      Config.ofDocument (d.without ("/bus" :: keys) "") = .ok { config with bus := .standard } := by
  intro d keys config
  have hcanonical : d.Canonical := by decide
  have hconfig : Config.ofDocument d = .ok config := rfl
  have hdaemon : report .daemon d false = .ok ⟨.daemon, keys⟩ :=
    congrArg Except.ok (ofDocument_eq_of_below rfl (by decide))
  have hcli : report .cli d false = .ok ⟨.cli, "/bus" :: keys⟩ :=
    congrArg Except.ok (ofDocument_eq_of_below rfl (by decide))
  obtain ⟨_, hunused, hsame, -⟩ := reported_keys_unused.1 d hcanonical rfl .daemon
  cases hunused.symm.trans hdaemon
  obtain ⟨_, hunused, -, hkept, -⟩ := reported_keys_unused.1 d hcanonical rfl .cli
  cases hunused.symm.trans hcli
  exact ⟨hcanonical, rfl, hdaemon, (hsame rfl).trans hconfig, hcli, hkept rfl config hconfig⟩

end UnusedKeys

end TableEscrow
