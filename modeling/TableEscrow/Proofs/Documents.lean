import Mathlib.Data.List.Basic
import TableEscrow.Json.Decode
import TableEscrow.Yaml.Document
/-!
# Documents

A value is canonical if the names of every object in it ascend: then no object has a name twice,
and what the names hold is all there is to it. Whatever is read is canonical, from JSON
(`canonical_of_json`) and from YAML (`canonical_of_yaml`), and every value has a canonical form
(`canonical_sorted`), in which every name holds what it held before (`sorted_object`). It is what is
read when the value is written (`json_ofJson`).
-/

namespace TableEscrow.Json

/-- The names of every object ascend. -/
inductive Canonical : Json → Prop
  | null : Canonical .null
  | bool (b : Bool) : Canonical (.bool b)
  | number (n : Number) : Canonical (.number n)
  | string (s : String) : Canonical (.string s)
  | array {items : List Json} (each : ∀ v ∈ items, Canonical v) : Canonical (.array items)
  | object {members : List (String × Json)} (ascending : members.Pairwise (·.1 < ·.1))
      (each : ∀ m ∈ members, Canonical m.2) : Canonical (.object members)

def isObject : Json → Bool
  | .object _ => true
  | _ => false

/-- The value that a path of names leads to. -/
def at? (v : Json) : List String → Option Json
  | [] => some v
  | name :: rest =>
    match v with
    | .object members => (members.lookup name).bind (at? · rest)
    | _ => none

theorem isObject_iff {v : Json} : v.isObject = true ↔ ∃ members, v = .object members := by
  cases v <;> simp [isObject]

theorem at?_append (v : Json) (path rest : List String) : v.at? (path ++ rest) = (v.at? path).bind (at? · rest) := by
  induction path generalizing v with
  | nil => rfl
  | cons name path ih =>
    cases v with
    | object members =>
      simp only [List.cons_append, at?]
      cases members.lookup name with
      | none => rfl
      | some w => exact ih w
    | null | bool | number | string | array => rfl

theorem at?_cons_of_not_object {v : Json} (h : v.isObject = false) (name : String) (rest : List String) :
    v.at? (name :: rest) = none := by
  cases v with
  | object members => cases h
  | null | bool | number | string | array => rfl

namespace Canonical

variable {members : List (String × Json)}

theorem ascending_of_object (h : Canonical (.object members)) : members.Pairwise (·.1 < ·.1) := by
  cases h with
  | object ascending => exact ascending

theorem nodup_names (h : Canonical (.object members)) : (members.map (·.1)).Nodup :=
  Keyed.nodup_of_ascending h.ascending_of_object

theorem of_mem (h : Canonical (.object members)) {m : String × Json} (hm : m ∈ members) : m.2.Canonical := by
  cases h with
  | object _ each => exact each m hm

theorem of_lookup (h : Canonical (.object members)) {name : String} {v : Json} (hv : members.lookup name = some v) :
    v.Canonical :=
  h.of_mem ((Keyed.lookup_eq_some_iff_mem h.nodup_names).1 hv)

theorem empty : Canonical (.object []) := .object .nil nofun

theorem insertInto (h : Canonical (.object members)) (name : String) {v : Json} (hv : v.Canonical) :
    Canonical (.object (Keyed.insertInto name v members)) := by
  refine .object (Keyed.ascending_insertInto name v h.ascending_of_object) fun m hm => ?_
  rcases Keyed.mem_insertInto hm with rfl | hm
  · exact hv
  · exact h.of_mem hm

theorem foldl_insertInto (h : Canonical (.object members)) {more : List (String × Json)}
    (hm : ∀ m ∈ more, m.2.Canonical) :
    Canonical (.object (more.foldl (fun acc (k, v) => Keyed.insertInto k v acc) members)) := by
  induction more generalizing members with
  | nil => exact h
  | cons m more ih =>
    exact ih (h.insertInto m.1 (hm m List.mem_cons_self)) fun m' hm' => hm m' (List.mem_cons_of_mem _ hm')

end Canonical

/-! ## The canonical form of a value -/

mutual

theorem canonical_sorted : ∀ v : Json, v.sorted.Canonical
  | .null => .null
  | .bool b => .bool b
  | .number n => .number n
  | .string s => .string s
  | .array items => .array (canonical_sortedItems items)
  | .object members => Canonical.empty.foldl_insertInto (canonical_sortedMembers members)

theorem canonical_sortedItems : ∀ (items : List Json), ∀ v ∈ sortedItems items, v.Canonical
  | [], _, h => absurd h List.not_mem_nil
  | v :: rest, w, h => by
    rcases List.mem_cons.1 h with rfl | h
    · exact canonical_sorted v
    · exact canonical_sortedItems rest w h

theorem canonical_sortedMembers : ∀ (members : List (String × Json)), ∀ m ∈ sortedMembers members, m.2.Canonical
  | [], _, h => absurd h List.not_mem_nil
  | (k, v) :: rest, m, h => by
    rcases List.mem_cons.1 h with rfl | h
    · exact canonical_sorted v
    · exact canonical_sortedMembers rest m h

end

theorem lookup_foldl_insertInto {members : List (String × Json)} (h : (members.map (·.1)).Nodup)
    (start : List (String × Json)) (name : String) :
    (members.foldl (fun acc (k, v) => Keyed.insertInto k v acc) start).lookup name =
      (members.lookup name).or (start.lookup name) := by
  induction members generalizing start with
  | nil => rfl
  | cons m rest ih =>
    obtain ⟨k, v⟩ := m
    obtain ⟨hk, hrest⟩ := List.nodup_cons.1 h
    rw [List.foldl_cons, ih hrest]
    by_cases heq : name = k
    · subst heq
      rw [Keyed.lookup_eq_none_of_not_mem hk, Keyed.lookup_insertInto_self, List.lookup_cons_self]
      rfl
    · rw [Keyed.lookup_insertInto_other heq, Keyed.lookup_cons_ne heq]

theorem map_fst_sortedMembers (members : List (String × Json)) :
    (sortedMembers members).map (·.1) = members.map (·.1) := by
  induction members with
  | nil => rfl
  | cons m rest ih => simp [sortedMembers, ih]

theorem lookup_sortedMembers (members : List (String × Json)) (name : String) :
    (sortedMembers members).lookup name = (members.lookup name).map sorted := by
  induction members with
  | nil => rfl
  | cons m rest ih =>
    obtain ⟨k, v⟩ := m
    by_cases heq : name = k
    · subst heq
      simp [sortedMembers]
    · rw [sortedMembers, Keyed.lookup_cons_ne heq, Keyed.lookup_cons_ne heq, ih]

/-- The canonical form of an object without repeated names: each name holds the canonical form of
what it held. -/
theorem sorted_object {members : List (String × Json)} (h : (members.map (·.1)).Nodup) :
    ∃ entries, sorted (.object members) = .object entries ∧
      ∀ name, entries.lookup name = (members.lookup name).map sorted := by
  refine ⟨_, rfl, fun name => ?_⟩
  rw [lookup_foldl_insertInto (by rwa [map_fst_sortedMembers]), lookup_sortedMembers]
  simp

theorem sortedItems_eq {items : List Json} (h : ∀ v ∈ items, v.sorted = v) : sortedItems items = items := by
  induction items with
  | nil => rfl
  | cons v rest ih =>
    rw [sortedItems, h v List.mem_cons_self, ih fun w hw => h w (List.mem_cons_of_mem _ hw)]

theorem sorted_eq_iff_canonical (v : Json) : v.sorted = v ↔ v.Canonical := by
  refine ⟨fun h => h ▸ canonical_sorted v, fun h => ?_⟩
  induction h with
  | null | bool | number | string => rfl
  | array _ ih => rw [sorted, sortedItems_eq ih]
  | @object members ascending each ih =>
    have hcanonical : Canonical (.object members) := .object ascending each
    obtain ⟨entries, hentries, hlookup⟩ := sorted_object hcanonical.nodup_names
    have hsorted : Canonical (.object entries) := hentries ▸ canonical_sorted _
    rw [hentries]
    refine congrArg object (Keyed.eq_of_lookup_eq hsorted.ascending_of_object ascending fun name => ?_)
    rw [hlookup]
    cases hv : members.lookup name with
    | none => rfl
    | some v => rw [Option.map_some, ih (name, v) ((Keyed.lookup_eq_some_iff_mem hcanonical.nodup_names).1 hv)]

instance (v : Json) : Decidable v.Canonical := decidable_of_iff _ v.sorted_eq_iff_canonical

/-! ## What is read is canonical -/

mutual

theorem canonical_of_json : ∀ {d : Draft} {v : Json}, Decode.json d = .ok v → v.Canonical
  | .null, _, h => by cases h; exact .null
  | .bool b, _, h => by cases h; exact .bool b
  | .number n, _, h => by cases h; exact .number n
  | .string s, _, h => by cases h; exact .string s
  | .array ds, v, h => by
    rw [Decode.json] at h
    cases hd : Decode.jsonItems ds with
    | error f => rw [hd] at h; cases h
    | ok items =>
      rw [hd] at h
      cases h
      exact .array (canonical_of_jsonItems hd)
  | .object ms closed, v, h => by
    rw [Decode.json] at h
    cases hd : Decode.jsonMembers ms [] with
    | error f => rw [hd] at h; cases h
    | ok members =>
      rw [hd] at h
      cases closed with
      | false => cases h
      | true =>
        cases h
        exact canonical_of_jsonMembers hd .empty

theorem canonical_of_jsonItems :
    ∀ {ds : List Draft} {items : List Json}, Decode.jsonItems ds = .ok items → ∀ v ∈ items, v.Canonical
  | [], _, h => by cases h; exact nofun
  | d :: rest, items, h => by
    rw [Decode.jsonItems] at h
    cases hd : Decode.json d with
    | error f => rw [hd] at h; cases h
    | ok w =>
      cases hrest : Decode.jsonItems rest with
      | error f => rw [hd, hrest] at h; cases h
      | ok ws =>
        rw [hd, hrest] at h
        cases h
        intro v hv
        rcases List.mem_cons.1 hv with rfl | hv
        · exact canonical_of_json hd
        · exact canonical_of_jsonItems hrest v hv

theorem canonical_of_jsonMembers :
    ∀ {ms : List (String × Draft)} {acc members : List (String × Json)}, Decode.jsonMembers ms acc = .ok members →
      Canonical (.object acc) → Canonical (.object members)
  | [], _, _, h, hacc => by cases h; exact hacc
  | (k, d) :: rest, acc, members, h, hacc => by
    rw [Decode.jsonMembers] at h
    cases hd : Decode.json d with
    | error f => rw [hd] at h; cases h
    | ok v =>
      rw [hd] at h
      exact canonical_of_jsonMembers h (hacc.insertInto k (canonical_of_json hd))

end

theorem canonical_of_members {d : Draft} {members : List (String × Json)} (h : Decode.members d = .ok members) :
    Canonical (.object members) := by
  cases d with
  | object ms closed =>
    rw [Decode.members] at h
    cases hms : Decode.jsonMembers ms [] with
    | error f => rw [hms] at h; cases h
    | ok found =>
      rw [hms] at h
      cases closed with
      | false => cases h
      | true =>
        cases h
        exact canonical_of_jsonMembers hms .empty
  | null | bool | number | string | array | unusable | broken => cases h

/-! ## What is written is read -/

mutual

/-- A value that is written is read as its canonical form. -/
theorem json_ofJson : ∀ v : Json, Decode.json (.ofJson v) = .ok v.sorted
  | .null | .bool _ | .number _ | .string _ => rfl
  | .array items => by
    rw [Draft.ofJson, Decode.json, jsonItems_ofItems items]
    rfl
  | .object members => by
    rw [Draft.ofJson, Decode.json, jsonMembers_ofMembers members]
    rfl

theorem jsonItems_ofItems : ∀ items : List Json, Decode.jsonItems (Draft.ofItems items) = .ok (sortedItems items)
  | [] => rfl
  | v :: rest => by
    rw [Draft.ofItems, Decode.jsonItems, json_ofJson v, jsonItems_ofItems rest]
    rfl

theorem jsonMembers_ofMembers : ∀ (members acc : List (String × Json)),
    Decode.jsonMembers (Draft.ofMembers members) acc =
      .ok ((sortedMembers members).foldl (fun acc (k, v) => Keyed.insertInto k v acc) acc)
  | [], _ => rfl
  | (k, v) :: rest, acc => by
    rw [Draft.ofMembers, Decode.jsonMembers, json_ofJson v]
    exact jsonMembers_ofMembers rest (Keyed.insertInto k v.sorted acc)

end

theorem members_ofJson {members : List (String × Json)} (h : Canonical (.object members)) :
    Decode.members (.ofJson (.object members)) = .ok members := by
  have hjson := json_ofJson (.object members)
  rw [(sorted_eq_iff_canonical _).2 h, Draft.ofJson, Decode.json] at hjson
  rw [Draft.ofJson, Decode.members]
  cases hms : Decode.jsonMembers (Draft.ofMembers members) [] with
  | error f => rw [hms] at hjson; cases hjson
  | ok found =>
    rw [hms] at hjson
    cases hjson
    rfl

end TableEscrow.Json

namespace TableEscrow

/-- What every step of a fold keeps, the whole fold keeps, if it gives a result. -/
theorem foldlM_invariant {α β : Type} {P : β → Prop} {f : β → α → Option β}
    (hstep : ∀ {b a b'}, P b → f b a = some b' → P b') {l : List α} {b b' : β} (hb : P b)
    (h : l.foldlM f b = some b') : P b' := by
  induction l generalizing b with
  | nil => cases h; exact hb
  | cons a rest ih =>
    obtain ⟨c, hc, hrest⟩ := Option.bind_eq_some_iff.1 (by simpa using h)
    exact ih (hstep hb hc) hrest

namespace Yaml

theorem Scalar.canonical_of_value {tag : Option String} {isPlain : Bool} {s : String} {v : Json}
    (h : value? tag isPlain s = some v) : v.Canonical := by
  unfold value? at h
  split at h
  all_goals
    obtain ⟨meaning, -, hv⟩ := Option.bind_eq_some_iff.1 h
    cases meaning <;> cases hv <;> constructor

theorem Document.canonical_of_collection {doc : Document} {inner : Node → Nat → Option (Json × Nat)}
    (hinner : ∀ {item jumps v jumps'}, inner item jumps = some (v, jumps') → v.Canonical) {n : Node}
    {jumps jumps' : Nat} {v : Json} (h : doc.collection? inner n jumps = some (v, jumps')) : v.Canonical := by
  unfold collection? at h
  split at h
  · next items =>
    split at h
    · cases h
    · obtain ⟨⟨values, j⟩, hfold, hv⟩ := Option.bind_eq_some_iff.1 h
      cases hv
      have hvalues : ∀ v ∈ values, v.Canonical := by
        refine foldlM_invariant (P := fun b : List Json × Nat => ∀ v ∈ b.1, v.Canonical) ?_ (by simp) hfold
        rintro ⟨vs, k⟩ item ⟨vs', k'⟩ hvs hitem
        obtain ⟨⟨w, l⟩, hw, heq⟩ := Option.bind_eq_some_iff.1 hitem
        cases heq
        intro v hv
        rcases List.mem_cons.1 hv with rfl | hv
        · exact hinner hw
        · exact hvs v hv
      exact .array fun v hv => hvalues v (List.mem_reverse.1 hv)
  · split at h
    · cases h
    · obtain ⟨⟨members, j⟩, hfold, hv⟩ := Option.bind_eq_some_iff.1 h
      cases hv
      refine foldlM_invariant (P := fun b : List (String × Json) × Nat => Json.Canonical (.object b.1)) ?_ .empty hfold
      rintro ⟨ms, k⟩ ⟨key, item⟩ ⟨ms', k'⟩ hms hitem
      obtain ⟨⟨name, l⟩, -, hitem⟩ := Option.bind_eq_some_iff.1 hitem
      obtain ⟨⟨w, l'⟩, hw, heq⟩ := Option.bind_eq_some_iff.1 hitem
      cases heq
      exact hms.insertInto name (hinner hw)
  · cases h

theorem Document.canonical_of_value {doc : Document} {depth : Nat} {n : Node} {jumps jumps' : Nat} {v : Json}
    (h : doc.value? depth n jumps = some (v, jumps')) : v.Canonical := by
  fun_induction Document.value? doc depth n jumps generalizing jumps' v with
  | case1 | case3 => cases h
  | case2 =>
    obtain ⟨w, hw, hv⟩ := Option.map_eq_some_iff.1 h
    cases hv
    exact Scalar.canonical_of_value hw
  | case4 _ _ _ _ _ _ _ ih => exact canonical_of_collection (fun hv => ih _ _ hv) h

end Yaml

theorem Json.canonical_of_yaml {text : String} {v : Json} (h : ofYaml? text = some v) : v.Canonical := by
  obtain ⟨tokens, -, h⟩ := Option.bind_eq_some_iff.1 h
  obtain ⟨root, -, h⟩ := Option.bind_eq_some_iff.1 h
  cases root with
  | none => cases h; exact .null
  | some root =>
    obtain ⟨⟨w, jumps⟩, hw, hv⟩ := Option.map_eq_some_iff.1 h
    cases hv
    exact Yaml.Document.canonical_of_value hw

end TableEscrow
