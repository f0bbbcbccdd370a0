import TableEscrow.Proofs.Defaults
/-!
# What a shape knows of a document

The members of a document that a shape knows, at every depth (`restrict`), are all that is read of
it: `Knows` says so of one decoder and one shape. A record reads the members it names, so it is known
by a shape that has each of them (`KnownBy`).
-/

namespace TableEscrow.Json

mutual

/-- The members that a shape knows. What is no object, or has no object for its shape, stays whole. -/
def restrict (shape : Json) : Json → Json
  | .object members =>
    match shape with
    | .object known => .object (restrictMembers known members)
    | _ => .object members
  | v => v

def restrictMembers (known : List (String × Json)) : List (String × Json) → List (String × Json)
  | [] => []
  | (key, v) :: rest =>
    match known.lookup key with
    | some shape => (key, restrict shape v) :: restrictMembers known rest
    | none => restrictMembers known rest

end

@[simp] theorem restrict_object (known members : List (String × Json)) :
    restrict (.object known) (.object members) = .object (restrictMembers known members) := by
  rw [restrict]

theorem restrict_of_not_object {shape v : Json} (h : (shape.isObject && v.isObject) = false) :
    shape.restrict v = v := by
  cases v with
  | object members => cases shape <;> simp_all [restrict, isObject]
  | null | bool | number | string | array => rw [restrict]; simp

theorem lookup_restrictMembers (known members : List (String × Json)) (name : String) :
    (restrictMembers known members).lookup name =
      (known.lookup name).bind fun shape => (members.lookup name).map shape.restrict := by
  induction members with
  | nil => cases known.lookup name <;> rfl
  | cons m rest ih =>
    obtain ⟨key, v⟩ := m
    by_cases heq : name = key
    · subst heq
      cases hshape : known.lookup name with
      | none => simp [restrictMembers, hshape, ih]
      | some shape => simp [restrictMembers, hshape]
    · cases hshape : known.lookup key <;> simp [restrictMembers, hshape, ih, Keyed.lookup_cons_ne heq]

theorem map_fst_restrictMembers (known members : List (String × Json)) :
    (restrictMembers known members).map (·.1) =
      (members.map (·.1)).filter fun name => (known.lookup name).isSome := by
  induction members with
  | nil => rfl
  | cons m rest ih =>
    obtain ⟨key, v⟩ := m
    cases hshape : known.lookup key <;> simp [restrictMembers, hshape, ih]

/-- To know fewer names is to know those of them that the document has. -/
theorem restrictMembers_filter (p : String → Bool) (known members : List (String × Json)) :
    restrictMembers (known.filter fun m => p m.1) members = restrictMembers known (members.filter fun m => p m.1) := by
  induction members with
  | nil => rfl
  | cons m rest ih =>
    obtain ⟨key, v⟩ := m
    cases hp : p key <;> simp [restrictMembers, Keyed.lookup_filter_name, hp, ih]

end TableEscrow.Json

namespace TableEscrow.Decode

variable {α β : Type}

/-- What a shape does not know is not read. -/
def Knows (decode : Decoder α) (shape : Json) : Prop :=
  ∀ v : Json, v.Canonical → reads decode (shape.restrict v) = reads decode v

theorem Knows.of_not_object {shape : Json} (h : shape.isObject = false) (decode : Decoder α) : Knows decode shape :=
  fun v _ => by rw [Json.restrict_of_not_object (by rw [h]; rfl)]

namespace Record

/-- What the names hold of what a shape knows. -/
def restricted (shape look : String → Option Json) (name : String) : Option Json :=
  (shape name).bind fun s => (look name).map s.restrict

/-- A record reads nothing that a shape does not know. -/
def KnownBy (r : Record α) (shape : String → Option Json) : Prop :=
  ∀ look : String → Option Json, (∀ name v, look name = some v → v.Canonical) →
    r.read (restricted shape look) = r.read look

variable {shape : String → Option Json}

theorem KnownBy.seq {f : Record (α → β)} {x : Record α} (hf : f.KnownBy shape) (hx : x.KnownBy shape) :
    (f <*> x).KnownBy shape := by
  intro look hlook
  rw [read_seq, read_seq, hf look hlook, hx look hlook]

theorem KnownBy.map (f : α → β) {x : Record α} (hx : x.KnownBy shape) : (f <$> x).KnownBy shape := by
  intro look hlook
  rw [read_map, read_map, hx look hlook]

theorem KnownBy.withDefault {name : String} (default : α) {decode : Decoder α} {s : Json} (hs : shape name = some s)
    (h : Knows decode s) : (Record.withDefault name default decode).KnownBy shape := by
  intro look hlook
  rw [read_withDefault, read_withDefault, restricted, hs]
  cases hv : look name with
  | none => rfl
  | some v => exact h v (hlook name v hv)

theorem KnownBy.knows {r : Record α} (hr : r.Sound) {known : List (String × Json)} (h : r.KnownBy (known.lookup ·))
    (title : String) : Knows (r.decode title) (.object known) := by
  intro v hv
  cases hobject : v.isObject with
  | false => rw [Json.restrict_of_not_object (by rw [hobject, Bool.and_false])]
  | true =>
    obtain ⟨members, rfl⟩ := Json.isObject_iff.1 hobject
    have hn : ((Json.restrictMembers known members).map (·.1)).Nodup := by
      rw [Json.map_fst_restrictMembers]
      exact hv.nodup_names.filter _
    have hlook : (fun name => (Json.restrictMembers known members).lookup name) =
        restricted (known.lookup ·) (members.lookup ·) :=
      funext (Json.lookup_restrictMembers known members)
    rw [Json.restrict_object, reads_object hr title hn, reads_object hr title hv.nodup_names, hlook]
    exact h _ fun name w hw => hv.of_lookup hw

end Record

end TableEscrow.Decode

namespace TableEscrow

open Decode Record

/-! ## The sections -/

theorem Thresholds.knows : Knows decode standard.encode := by
  refine KnownBy.knows sound_record (.seq (.seq (.seq (.seq (.map _ ?_) ?_) ?_) ?_) ?_) _
  all_goals exact .withDefault _ rfl (.of_not_object rfl _)

theorem ReconcileSection.knows : Knows decode standard.encode := by
  refine KnownBy.knows sound_record (.seq (.map _ (.withDefault _ rfl Thresholds.knows)) ?_) _
  exact .withDefault _ rfl (.of_not_object rfl _)

theorem ServiceSection.knows (standard : ServiceSection) (title : String) :
    Knows (decode standard title) standard.encode := by
  refine KnownBy.knows (sound_record _) (.seq (.seq (.map _ ?_) ?_) ?_) _
  · exact .withDefault _ rfl (.of_not_object rfl _)
  · exact .withDefault _ rfl (.of_not_object rfl _)
  · refine .withDefault _ rfl (.of_not_object ?_ _)
    cases standard.keyVariable <;> rfl

theorem DatabaseSection.knows : Knows decode standard.encode := by
  refine KnownBy.knows sound_record (.seq (.map _ ?_) ?_) _
  all_goals exact .withDefault _ rfl (.of_not_object rfl _)

theorem BusSection.knows : Knows decode standard.encode :=
  KnownBy.knows sound_record (.map _ (.withDefault _ rfl (.of_not_object rfl _))) _

theorem DaemonSection.knows : Knows decode standard.encode :=
  KnownBy.knows sound_record (.map _ (.withDefault _ rfl (.of_not_object rfl _))) _

theorem Config.knows : Knows decode shape := by
  refine KnownBy.knows sound_record (.seq (.seq (.seq (.seq (.seq (.map _ ?_) ?_) ?_) ?_) ?_) ?_) _
  · exact .withDefault _ rfl ReconcileSection.knows
  · exact .withDefault _ rfl (ServiceSection.knows .gateway _)
  · exact .withDefault _ rfl (ServiceSection.knows .oracle _)
  · exact .withDefault _ rfl DatabaseSection.knows
  · exact .withDefault _ rfl BusSection.knows
  · exact .withDefault _ rfl DaemonSection.knows

end TableEscrow
