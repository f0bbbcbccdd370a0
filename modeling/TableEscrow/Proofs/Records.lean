import TableEscrow.Proofs.Documents
/-!
# Reading records

What a record makes of an object depends on what the names it has hold there, and on nothing else
(`reads_object`). For this the record must object to no member that it is built from (`Sound`), as
every record does that is put together from its members. A tagged union is read off the object
without its tag (`tagged_object`).
-/

namespace TableEscrow.Decode

variable {α β : Type}

/-- What a decoder makes of a document, whatever it objects to otherwise. -/
def reads (decode : Decoder α) (v : Json) : Option α := (decode (.ofJson v)).toOption

/-- What is written is read back from the canonical form of the text. -/
def Lawful (decode : Decoder α) (encode : α → Json) : Prop := ∀ a, reads decode (encode a).sorted = some a

theorem reads_eq_some_iff {decode : Decoder α} {v : Json} {a : α} :
    reads decode v = some a ↔ decode (.ofJson v) = .ok a := by
  unfold reads
  cases decode (.ofJson v) <;> simp [Except.toOption]

/-! ## Drafts of documents -/

mutual

theorem isCut_ofJson : ∀ v : Json, (Draft.ofJson v).isCut = false
  | .null | .bool _ | .number _ | .string _ => rfl
  | .array items => isCutItems_ofItems items
  | .object members => by
    rw [Draft.ofJson, Draft.isCut, isCutMembers_ofMembers members]
    rfl

theorem isCutItems_ofItems : ∀ items : List Json, Draft.isCutItems (Draft.ofItems items) = false
  | [] => rfl
  | v :: rest => by
    rw [Draft.ofItems, Draft.isCutItems, isCut_ofJson v, isCutItems_ofItems rest]
    rfl

theorem isCutMembers_ofMembers : ∀ members : List (String × Json), Draft.isCutMembers (Draft.ofMembers members) = false
  | [] => rfl
  | (_, v) :: rest => by
    rw [Draft.ofMembers, Draft.isCutMembers, isCut_ofJson v, isCutMembers_ofMembers rest]
    rfl

end

theorem lookup_ofMembers (members : List (String × Json)) (name : String) :
    (Draft.ofMembers members).lookup name = (members.lookup name).map .ofJson := by
  induction members with
  | nil => rfl
  | cons m rest ih =>
    obtain ⟨k, v⟩ := m
    by_cases heq : name = k
    · subst heq
      simp [Draft.ofMembers]
    · rw [Draft.ofMembers, Keyed.lookup_cons_ne heq, Keyed.lookup_cons_ne heq, ih]

namespace Record

/-! ## Sound records -/

/-- Whatever a record is built from, it has no fault to find in the members it names. -/
def Sound (r : Record α) : Prop :=
  ∀ look a, r.build look = .ok a → ∀ p ∈ r.names, ∀ d, look p.1 = some d → p.2 d = none

theorem fault?_eq_none {decode : Decoder α} {d : Draft} {a : α} (h : decode d = .ok a) : fault? decode d = none := by
  rw [fault?, h]

theorem build_seq {f : Record (α → β)} {x : Record α} {look : String → Option Draft} {b : β}
    (h : (f <*> x).build look = .ok b) : ∃ g a, f.build look = .ok g ∧ x.build look = .ok a ∧ b = g a := by
  change (do let g ← f.build look; let a ← x.build look; return g a) = Except.ok b at h
  cases hf : f.build look with
  | error e => rw [hf] at h; cases h
  | ok g =>
    cases hx : x.build look with
    | error e => rw [hf, hx] at h; cases h
    | ok a =>
      rw [hf, hx] at h
      cases h
      exact ⟨g, a, rfl, rfl, rfl⟩

theorem Sound.seq {f : Record (α → β)} {x : Record α} (hf : f.Sound) (hx : x.Sound) : (f <*> x).Sound := by
  intro look b h p hp d hd
  obtain ⟨g, a, hg, ha, -⟩ := build_seq h
  rcases List.mem_append.1 hp with hp | hp
  · exact hf look g hg p hp d hd
  · exact hx look a ha p hp d hd

theorem Sound.pure (a : α) : (Pure.pure a : Record α).Sound := fun _ _ _ _ hp => absurd hp List.not_mem_nil

theorem Sound.map {x : Record α} (f : α → β) (hx : x.Sound) : (f <$> x).Sound := .seq (.pure f) hx

theorem Sound.required (name : String) (decode : Decoder α) : (Record.required name decode).Sound := by
  intro look a h p hp d hd
  cases List.mem_singleton.1 hp
  exact fault?_eq_none (by simpa [Record.required, hd] using h)

theorem Sound.withDefault (name : String) (default : α) (decode : Decoder α) :
    (Record.withDefault name default decode).Sound := by
  intro look a h p hp d hd
  cases List.mem_singleton.1 hp
  exact fault?_eq_none (by simpa [Record.withDefault, hd] using h)

theorem Sound.maybe (name : String) (decode : Decoder α) : (Record.maybe name decode).Sound :=
  .withDefault name none (optional decode)

/-! ## What a record makes of its members -/

/-- What a record makes of the members that a look-up gives. -/
def read (r : Record α) (look : String → Option Json) : Option α := (r.build fun name => (look name).map .ofJson).toOption

@[simp] theorem read_pure (a : α) (look : String → Option Json) : (pure a : Record α).read look = some a := rfl

@[simp] theorem read_seq (f : Record (α → β)) (x : Record α) (look : String → Option Json) :
    (f <*> x).read look = (f.read look).bind fun g => (x.read look).map g := by
  change Except.toOption (do let g ← f.build _; let a ← x.build _; return g a) = _
  unfold read
  cases f.build fun name => (look name).map .ofJson with
  | error e => rfl
  | ok g => cases x.build fun name => (look name).map .ofJson <;> rfl

@[simp] theorem read_map (f : α → β) (x : Record α) (look : String → Option Json) :
    (f <$> x).read look = (x.read look).map f :=
  read_seq (pure f) x look

@[simp] theorem read_required (name : String) (decode : Decoder α) (look : String → Option Json) :
    (required name decode).read look = (look name).bind (reads decode) := by
  cases hlook : look name <;> simp [read, required, hlook, reads, Except.toOption]

@[simp] theorem read_withDefault (name : String) (default : α) (decode : Decoder α) (look : String → Option Json) :
    (withDefault name default decode).read look = (look name).elim (some default) (reads decode) := by
  cases hlook : look name <;> simp [read, withDefault, hlook, reads, Except.toOption]

/-! ## What a record makes of a document -/

/-- A member that is read without a fault, and a member that is not named, stops nothing. -/
theorem firstFault_ofMembers {names : List (String × (Draft → Option Fault))} {members : List (String × Json)}
    {seen : List String} (hn : (members.map (·.1)).Nodup) (hseen : ∀ m ∈ members, m.1 ∉ seen) :
    firstFault names seen (Draft.ofMembers members) = none ↔
      ∀ m ∈ members, ∀ fault, names.lookup m.1 = some fault → fault (.ofJson m.2) = none := by
  induction members generalizing seen with
  | nil => simp [Draft.ofMembers, firstFault]
  | cons m rest ih =>
    obtain ⟨k, v⟩ := m
    obtain ⟨hk, hrest⟩ := List.nodup_cons.1 hn
    have hseenRest : ∀ m ∈ rest, m.1 ∉ seen := fun m hm => hseen m (List.mem_cons_of_mem _ hm)
    rw [List.forall_mem_cons]
    simp only [Draft.ofMembers, firstFault]
    cases hlook : names.lookup k with
    | none =>
      simp only [isCut_ofJson, Bool.false_eq_true, if_false]
      rw [ih hrest hseenRest]
      simp
    | some fault =>
      have hfirst : seen.contains k = false := by simpa using hseen (k, v) List.mem_cons_self
      have hseenMore : ∀ m ∈ rest, m.1 ∉ k :: seen := by
        intro m hm hmem
        rcases List.mem_cons.1 hmem with heq | hmem
        · exact hk (List.mem_map.2 ⟨m, hm, heq⟩)
        · exact hseenRest m hm hmem
      simp only [hfirst, Bool.false_eq_true, if_false]
      cases hfault : fault (.ofJson v) with
      | none => simp [hfault, ih hrest hseenMore]
      | some f => simp [hfault]

/-- Whatever is read off an object is built from what the names hold. -/
theorem read_of_decode {r : Record α} {title : String} {members : List (String × Json)} {a : α}
    (h : r.decode title (.ofJson (.object members)) = .ok a) : r.read (members.lookup ·) = some a := by
  have hlook : (fun name => (Draft.ofMembers members).lookup name) = fun name => (members.lookup name).map .ofJson :=
    funext (lookup_ofMembers members)
  simp only [Draft.ofJson, decode, if_true] at h
  split at h
  · cases h
  · rw [hlook] at h
    rw [read, h]
    rfl

theorem reads_object {r : Record α} (hr : r.Sound) (title : String) {members : List (String × Json)}
    (hn : (members.map (·.1)).Nodup) : reads (r.decode title) (.object members) = r.read (members.lookup ·) := by
  have hlook : (fun name => (Draft.ofMembers members).lookup name) = fun name => (members.lookup name).map .ofJson :=
    funext (lookup_ofMembers members)
  have hfaults : firstFault r.names [] (Draft.ofMembers members) = none ↔ _ := firstFault_ofMembers hn (by simp)
  simp only [reads, read, Draft.ofJson, decode]
  cases hfirst : firstFault r.names [] (Draft.ofMembers members) with
  | none => simp only [if_true, hlook]
  | some f =>
    -- A record with a fault to find cannot be built.
    cases hbuild : r.build fun name => (members.lookup name).map .ofJson with
    | error e => rfl
    | ok a =>
      have hnone : firstFault r.names [] (Draft.ofMembers members) = none := by
        refine hfaults.2 fun m hm fault hfault => hr _ a hbuild (m.1, fault) ?_ (.ofJson m.2) ?_
        · obtain ⟨_, _, hnames, -⟩ := List.lookup_eq_some_iff.1 hfault
          exact hnames ▸ List.mem_append_right _ List.mem_cons_self
        · rw [(Keyed.lookup_eq_some_iff_mem hn).2 hm]
          rfl
      rw [hfirst] at hnone
      cases hnone

theorem reads_sorted_object {r : Record α} (hr : r.Sound) (title : String) {members : List (String × Json)}
    (hn : (members.map (·.1)).Nodup) :
    reads (r.decode title) (Json.object members).sorted = r.read fun name => (members.lookup name).map Json.sorted := by
  obtain ⟨entries, hentries, hlookup⟩ := Json.sorted_object hn
  have hcanonical : Json.Canonical (.object entries) := hentries ▸ Json.canonical_sorted _
  rw [hentries, reads_object hr title hcanonical.nodup_names]
  exact congrArg r.read (funext hlookup)

end Record

/-! ## Scalars -/

@[simp] theorem reads_text (s : String) : reads text (.string s) = some s := rfl

@[simp] theorem reads_uint64 (n : UInt64) : reads uint64 (.natural n) = some n := rfl

@[simp] theorem reads_size (n : UInt64) : reads size (.natural n) = some n := rfl

theorem reads_text_eq_some {v : Json} {s : String} : reads text v = some s ↔ v = .string s := by
  cases v <;> simp [reads, Draft.ofJson, text, mismatch, Except.toOption]

theorem reads_uint64_eq_some {v : Json} {n : UInt64} : reads uint64 v = some n ↔ v = .natural n := by
  cases v with
  | number m => cases m <;> simp [reads, Draft.ofJson, uint64, mismatch, Except.toOption, Json.natural]
  | null | bool | string | array | object => simp [reads, Draft.ofJson, uint64, mismatch, Except.toOption, Json.natural]

theorem reads_size_eq_some {v : Json} {n : UInt64} : reads size v = some n ↔ v = .natural n := by
  cases v with
  | number m => cases m <;> simp [reads, Draft.ofJson, size, mismatch, Except.toOption, Json.natural]
  | null | bool | string | array | object => simp [reads, Draft.ofJson, size, mismatch, Except.toOption, Json.natural]

theorem lawful_text : Lawful text Json.string := fun _ => rfl

theorem lawful_uint64 : Lawful uint64 Json.natural := fun _ => rfl

theorem lawful_size : Lawful size Json.natural := fun _ => rfl

theorem lawful_uint32 : Lawful uint32 fun n => Json.count n.toNat := by
  intro n
  have hlt : n.toNat < UInt32.size := n.toNat_lt
  rw [reads_eq_some_iff]
  simp [Json.sorted, Json.count, Draft.ofJson, uint32, natural, hlt, Except.map]

theorem lawful_int64 : Lawful int64 Json.integer := by
  intro n
  rw [reads_eq_some_iff]
  unfold Json.integer Number.ofInt64
  split
  · rfl
  · next h =>
    have hnonneg : 0 ≤ n.toInt := by simpa [Int64.lt_iff_toInt_lt] using h
    have hword : ((UInt64.ofNat n.toInt.toNat).toNat : Int) = n.toInt := by
      have hlt := n.toInt_lt
      rw [UInt64.toNat_ofNat', Nat.mod_eq_of_lt (by omega)]
      omega
    change int64 (.number (.natural (UInt64.ofNat n.toInt.toNat))) = .ok n
    simp only [int64, hword, Word.signed?_toInt]

theorem Lawful.optional {decode : Decoder α} {encode : α → Json} (h : Lawful decode encode)
    (hnull : ∀ a, (encode a).sorted ≠ .null) : Lawful (optional decode) (Json.orNull encode) := by
  intro a
  cases a with
  | none => rfl
  | some a =>
    have ha : decode (.ofJson (encode a).sorted) = .ok a := reads_eq_some_iff.1 (h a)
    have hdraft : Draft.ofJson (encode a).sorted ≠ .null := by
      have hsome := hnull a
      cases hv : (encode a).sorted <;> simp_all [Draft.ofJson]
    rw [reads_eq_some_iff]
    unfold Decode.optional Json.orNull
    split
    · next hd => exact absurd hd hdraft
    · rw [ha]
      rfl

/-! ## Tagged unions -/

theorem filter_ofMembers (p : String → Bool) (members : List (String × Json)) :
    ((Draft.ofMembers members).filter fun m => p m.1) = Draft.ofMembers (members.filter fun m => p m.1) := by
  induction members with
  | nil => rfl
  | cons m rest ih =>
    obtain ⟨k, v⟩ := m
    cases hp : p k <;> simp [Draft.ofMembers, hp, ih]

/-- The tag is split off if it stands once. -/
theorem tagged_object {tag : String} {members : List (String × Json)} {v : Json}
    (h : (members.filter fun m => m.1 = tag) = [(tag, v)]) (title : String) :
    tagged tag title (.ofJson (.object members)) =
      .ok (.ofJson v, .ofJson (.object (members.filter fun m => m.1 ≠ tag))) := by
  simp only [Draft.ofJson, tagged, filter_ofMembers fun name => name = tag, h, Draft.ofMembers,
    filter_ofMembers fun name => name ≠ tag]

theorem filter_of_tagged {tag title : String} {members : List (String × Json)} {d rest : Draft}
    (h : tagged tag title (.ofJson (.object members)) = .ok (d, rest)) :
    ∃ v, (members.filter fun m => m.1 = tag) = [(tag, v)] ∧ d = .ofJson v ∧
      rest = .ofJson (.object (members.filter fun m => m.1 ≠ tag)) := by
  simp only [Draft.ofJson, tagged, filter_ofMembers fun name => name = tag,
    filter_ofMembers fun name => name ≠ tag] at h
  have hnames : ∀ m ∈ members.filter fun m => m.1 = tag, m.1 = tag := by simp
  match hms : members.filter fun m => m.1 = tag with
  | [] =>
    rw [hms] at h
    cases h
  | [(k, v)] =>
    rw [hms] at h
    obtain rfl : k = tag := hnames (k, v) (by simp [hms])
    cases h
    exact ⟨v, hms, rfl, rfl⟩
  | _ :: _ :: _ =>
    rw [hms] at h
    cases h

end TableEscrow.Decode
