import TableEscrow.Proofs.Records
/-!
# Reading back what is written

A document is written with its members as they are given or in their canonical order (`Writing`), and a
record reads them alike. A member that may be absent is left out, and is read back as absent
(`elim_written`).

What a record gives holds what each of its members holds (`Ensures`), whatever it is read off.
-/

namespace TableEscrow

/-- A way to write a document: as it is given, or in its canonical form. -/
inductive Writing : (Json → Json) → Prop
  | given : Writing id
  | sorted : Writing Json.sorted

namespace Writing

variable {f : Json → Json}

theorem string (hf : Writing f) (s : String) : f (.string s) = .string s := by cases hf <;> rfl

theorem number (hf : Writing f) (n : Number) : f (.number n) = .number n := by cases hf <;> rfl

theorem null (hf : Writing f) : f .null = .null := by cases hf <;> rfl

theorem array (hf : Writing f) (items : List Json) : f (.array items) = .array (items.map f) := by
  cases hf with
  | given => rw [List.map_id]; rfl
  | sorted =>
    rw [Json.sorted]
    refine congrArg _ ?_
    induction items with
    | nil => rfl
    | cons v rest ih => rw [Json.sortedItems, ih, List.map_cons]

theorem of_canonical (hf : Writing f) {v : Json} (hv : v.Canonical) : f v = v := by
  cases hf with
  | given => rfl
  | sorted => exact (Json.sorted_eq_iff_canonical v).2 hv

theorem object_ne_null (hf : Writing f) (members : List (String × Json)) : f (.object members) ≠ .null := by
  cases hf <;> exact Json.noConfusion

end Writing

namespace Json

variable {α : Type}

/-- The members of an object. -/
def members : Json → List (String × Json)
  | .object ms => ms
  | _ => []

theorem lookup_member? (name other : String) (encode : α → Json) (o : Option α) :
    (member? name encode o).lookup other = if other = name then o.map encode else none := by
  cases o with
  | none => simp [member?]
  | some a => by_cases h : other = name <;> simp [member?, h, Keyed.lookup_cons_ne]

theorem names_member? (name : String) (encode : α → Json) (o : Option α) :
    ((member? name encode o).map (·.1)).Sublist [name] := by
  cases o with
  | none => exact List.nil_sublist _
  | some a => exact .refl _

end Json

namespace Decode

variable {α β : Type} {f : Json → Json}

/-! ## Members -/

theorem reads_written {r : Record α} (hf : Writing f) (hr : r.Sound) (title : String) {members : List (String × Json)}
    (hn : (members.map (·.1)).Nodup) :
    reads (r.decode title) (f (.object members)) = r.read fun name => (members.lookup name).map f := by
  cases hf with
  | given => simpa using Record.reads_object hr title hn
  | sorted => exact Record.reads_sorted_object hr title hn

/-- Null alone is read as null. -/
theorem json_eq_null {d : Draft} (h : json d = .ok .null) : d = .null := by
  cases d with
  | null => rfl
  | array ds =>
    simp only [json] at h
    cases hds : jsonItems ds <;> rw [hds] at h <;> cases h
  | object ms closed =>
    simp only [json] at h
    split at h
    · split at h <;> cases h
    · cases h
  | bool | number | string | unusable | broken => cases h

theorem reads_optional {decode : Decoder α} {v : Json} (h : v ≠ .null) :
    reads (optional decode) v = (reads decode v).map some := by
  have hdraft : Draft.ofJson v ≠ .null := by cases v <;> simp_all [Draft.ofJson]
  unfold reads optional
  split
  · next hd => exact absurd hd hdraft
  · cases decode (.ofJson v) <;> rfl

/-- A member that may be absent is read back, each value as it is by itself. -/
theorem elim_written {γ : Type} {decode : Decoder γ} {encode : α → Json} {o : Option α} {back : α → γ}
    (hback : ∀ a ∈ o, reads decode (f (encode a)) = some (back a)) (hnull : ∀ a ∈ o, f (encode a) ≠ .null) :
    o.elim (some none) (reads (optional decode) ∘ f ∘ encode) = some (o.map back) := by
  cases o with
  | none => rfl
  | some a =>
    change reads (optional decode) (f (encode a)) = _
    rw [reads_optional (hnull a rfl), hback a rfl]
    rfl

/-- A value that may be absent is written as null then, and is read back. -/
theorem reads_orNull (hf : Writing f) {decode : Decoder α} {encode : α → Json} {o : Option α}
    (hback : ∀ a ∈ o, reads decode (f (encode a)) = some a) (hnull : ∀ a ∈ o, f (encode a) ≠ .null) :
    reads (optional decode) (f (Json.orNull encode o)) = some o := by
  cases o with
  | none =>
    rw [Json.orNull, hf.null]
    rfl
  | some a =>
    rw [Json.orNull, reads_optional (hnull a rfl), hback a rfl]
    rfl

/-- Whatever is written is read back, and is not null. -/
structure Kept (f : Json → Json) (decode : Decoder α) (encode : α → Json) : Prop where
  back : ∀ a, reads decode (f (encode a)) = some a
  ne_null : ∀ a, f (encode a) ≠ .null

namespace Kept

theorem member {decode : Decoder α} {encode : α → Json} (h : Kept f decode encode) (o : Option α) :
    o.elim (some none) (reads (optional decode) ∘ f ∘ encode) = some o := by
  rw [elim_written (fun a _ => h.back a) fun a _ => h.ne_null a, Option.map_id']

theorem string (hf : Writing f) {decode : Decoder α} {encode : α → String}
    (h : ∀ a, reads decode (.string (encode a)) = some a) : Kept f decode fun a => .string (encode a) where
  back a := by rw [hf.string, h]
  ne_null a := by rw [hf.string]; exact Json.noConfusion

theorem number (hf : Writing f) {decode : Decoder α} {encode : α → Number}
    (h : ∀ a, reads decode (.number (encode a)) = some a) : Kept f decode fun a => .number (encode a) where
  back a := by rw [hf.number, h]
  ne_null a := by rw [hf.number]; exact Json.noConfusion

theorem text (hf : Writing f) : Kept f text .string := string hf fun _ => rfl

theorem uint64 (hf : Writing f) : Kept f uint64 .natural := number hf fun _ => rfl

theorem size (hf : Writing f) : Kept f size .natural := number hf fun _ => rfl

theorem int64 (hf : Writing f) : Kept f int64 .integer := number hf lawful_int64

theorem byte (hf : Writing f) : Kept f byte fun n => .count n.toNat := by
  refine number hf fun n => ?_
  have hlt : n.toNat < 256 := n.toNat_lt
  rw [reads_eq_some_iff]
  simp [Draft.ofJson, Decode.byte, natural, hlt, Except.map]

theorem list (hf : Writing f) {decode : Decoder α} {encode : α → Json} (h : Kept f decode encode) :
    Kept f (list decode) fun as => .array (as.map encode) where
  back as := by
    rw [hf.array, reads_eq_some_iff]
    change items decode (Draft.ofItems ((as.map encode).map f)) = .ok as
    induction as with
    | nil => rfl
    | cons a as ih =>
      have ha : decode (.ofJson (f (encode a))) = .ok a := reads_eq_some_iff.1 (h.back a)
      simp only [List.map_cons, Draft.ofItems, items, ha, ih]
      rfl
  ne_null as := by rw [hf.array]; exact Json.noConfusion

end Kept

/-- A document that may be absent is read back as it is, but null is read as no document. -/
theorem elim_json (hf : Writing f) {o : Option Json} (ho : ∀ v ∈ o, v.Canonical) :
    o.elim (some none) (reads (optional json) ∘ f) = some (o.filter (· ≠ .null)) := by
  cases o with
  | none => rfl
  | some v =>
    change reads (optional json) (f v) = _
    rw [hf.of_canonical (ho v rfl)]
    by_cases hnull : v = .null
    · subst hnull
      rfl
    · have hv : reads json v = some v := by
        rw [reads_eq_some_iff, Json.json_ofJson, (Json.sorted_eq_iff_canonical v).2 (ho v rfl)]
      rw [reads_optional hnull, hv]
      simp [Option.filter, hnull]

/-! ## What records ensure -/

/-- Whatever a record is built from, what it gives has a property. -/
def Record.Ensures (r : Record α) (P : α → Prop) : Prop := ∀ look a, r.build look = .ok a → P a

namespace Record

variable {P : α → Prop}

theorem Ensures.seq {r : Record (α → β)} {x : Record α} {Q : β → Prop} (hr : r.Ensures fun g => ∀ a, P a → Q (g a))
    (hx : x.Ensures P) : (r <*> x).Ensures Q := by
  intro look b h
  obtain ⟨g, a, hg, ha, rfl⟩ := build_seq h
  exact hr look g hg a (hx look a ha)

theorem Ensures.seq_any {r : Record (α → β)} {Q : β → Prop} (hr : r.Ensures fun g => ∀ a, Q (g a)) (x : Record α) :
    (r <*> x).Ensures Q := by
  intro look b h
  obtain ⟨g, a, hg, -, rfl⟩ := build_seq h
  exact hr look g hg a

theorem Ensures.map_any {g : α → β} {Q : β → Prop} (h : ∀ a, Q (g a)) (x : Record α) : (g <$> x).Ensures Q :=
  .seq_any (fun _ _ hg => by cases hg; exact h) x

theorem Ensures.maybe {name : String} {decode : Decoder α} (h : ∀ d a, d ≠ .null → decode d = .ok a → P a) :
    (Record.maybe name decode).Ensures fun o => ∀ a ∈ o, P a := by
  intro look o ho a ha
  simp only [Record.maybe, withDefault] at ho
  split at ho
  · next d _ =>
    unfold optional at ho
    split at ho
    · cases ho
      cases ha
    · next hnull =>
      cases hd : decode d with
      | error e => rw [hd] at ho; cases ho
      | ok b =>
        rw [hd] at ho
        cases ho
        cases ha
        exact h d a hnull hd
  · cases ho
    cases ha

/-- Whatever a record is read off, it has been built. -/
theorem Ensures.of_decode {r : Record α} {title : String} {d : Draft} {a : α} (hr : r.Ensures P)
    (h : r.decode title d = .ok a) : P a := by
  unfold Record.decode at h
  split at h
  · split at h
    · cases h
    · split at h
      · exact hr _ a h
      · cases h
  · split at h
    · cases h
    · split at h
      · cases h
      · simp only at h
        split at h
        · cases h
        · next result => exact hr _ a h
  · unfold mismatch at h
    split at h <;> cases h

end Record

end Decode

end TableEscrow
