import Mathlib.Data.List.Induction
import TableEscrow.Config.Layered
import TableEscrow.Proofs.Documents
/-!
# Laying a document over another

What a path leads to once `layer` lies over `base`. Where the layer has something, it is laid over
what the base has there (`at?_overlay_of_some`). Where it has nothing, the longest part of the path
at which it has something decides: the base shows through if both have an object there
(`at?_overlay_of_none`). From the one law for paths come the laws of a whole stack of layers.
-/

namespace TableEscrow.Json

variable {base layer v : Json} {members kept : List (String × Json)} {name : String} {path : List String}

/-- Whether a path leads to an object. -/
def objectAt (v : Json) (path : List String) : Bool := (v.at? path).any isObject

/-- The longest part of a path that leads somewhere. -/
structure LongestDefined (v : Json) (path part : List String) : Prop where
  within : part <+: path
  defined : v.at? part ≠ none
  longest : ∀ other, other <+: path → v.at? other ≠ none → other <+: part

theorem LongestDefined.unique {part other : List String} (h : LongestDefined v path part)
    (h' : LongestDefined v path other) : part = other :=
  (h'.longest part h.within h.defined).eq_of_length_le (h.longest other h'.within h'.defined).length_le

/-- Every path splits at the first name that leads nowhere. -/
theorem exists_split (h : v.at? path = none) :
    ∃ part name rest w, path = part ++ name :: rest ∧ v.at? part = some w ∧ w.at? [name] = none := by
  induction path generalizing v with
  | nil => cases h
  | cons first path ih =>
    cases hv : v.at? [first] with
    | none => exact ⟨[], first, path, v, rfl, rfl, hv⟩
    | some w =>
      have hsplit : v.at? (first :: path) = w.at? path := by
        rw [← List.singleton_append, at?_append, hv]
        rfl
      obtain ⟨part, name, rest, u, hpath, hpart, hname⟩ := ih (hsplit ▸ h)
      refine ⟨first :: part, name, rest, u, by rw [hpath]; rfl, ?_, hname⟩
      rw [← List.singleton_append, at?_append, hv]
      exact hpart

theorem longestDefined_of_split {part rest : List String} {w : Json} (hpart : v.at? part = some w)
    (hname : w.at? [name] = none) : LongestDefined v (part ++ name :: rest) part := by
  refine ⟨List.prefix_append _ _, by simp [hpart], fun other hother hdefined => ?_⟩
  rcases List.prefix_or_prefix_of_prefix hother (List.prefix_append part (name :: rest)) with hle | ⟨more, rfl⟩
  · exact hle
  · -- A longer part would have to pass the name that leads nowhere.
    cases more with
    | nil => simp
    | cons first more =>
      have hmore : first :: more <+: name :: rest := (List.prefix_append_right_inj part).1 hother
      obtain rfl : first = name := (List.cons_prefix_cons.1 hmore).1
      refine absurd ?_ hdefined
      rw [at?_append, hpart, Option.bind_some, ← List.singleton_append, at?_append, hname]
      rfl

/-! ## One layer -/

theorem overlay_of_not_object (h : (base.isObject && layer.isObject) = false) : base.overlay layer = layer := by
  cases layer with
  | object members =>
    cases base with
    | object kept => cases h
    | null | bool | number | string | array => rfl
  | null | bool | number | string | array => rfl

theorem lookup_overlayMembers_of_none (h : members.lookup name = none) (kept : List (String × Json)) :
    (overlayMembers kept members).lookup name = kept.lookup name := by
  induction members generalizing kept with
  | nil => rfl
  | cons m rest ih =>
    obtain ⟨key, value⟩ := m
    have hne : name ≠ key := by
      rintro rfl
      simp at h
    rw [Keyed.lookup_cons_ne hne] at h
    simp only [overlayMembers]
    rw [ih h, Keyed.lookup_insertInto_other hne]

/-- A name that is in the layer holds the layer's value, laid over the base's if there is one. -/
theorem lookup_overlayMembers_of_some (hn : (members.map (·.1)).Nodup) (h : members.lookup name = some v)
    (kept : List (String × Json)) :
    (overlayMembers kept members).lookup name = some (((kept.lookup name).getD .null).overlay v) := by
  induction members generalizing kept with
  | nil => cases h
  | cons m rest ih =>
    obtain ⟨key, value⟩ := m
    obtain ⟨hkey, hrest⟩ := List.nodup_cons.1 hn
    simp only [overlayMembers]
    by_cases heq : name = key
    · subst heq
      obtain rfl : value = v := by simpa using h
      rw [lookup_overlayMembers_of_none (Keyed.lookup_eq_none_of_not_mem hkey), Keyed.lookup_insertInto_self]
      cases kept.lookup name with
      | none => rw [Option.getD_none, overlay_of_not_object rfl]
      | some old => rfl
    · rw [Keyed.lookup_cons_ne heq] at h
      rw [ih hrest h, Keyed.lookup_insertInto_other heq]

/-- Where the layer has something, it is laid over what the base has there. -/
theorem at?_overlay_of_some (hl : layer.Canonical) (h : layer.at? path = some v) :
    (base.overlay layer).at? path = some (((base.at? path).getD .null).overlay v) := by
  induction path generalizing base layer with
  | nil => cases h; rfl
  | cons name rest ih =>
    cases hobject : base.isObject && layer.isObject with
    | false =>
      rw [overlay_of_not_object hobject, h]
      have hlayer : layer.isObject = true := by
        by_contra hn
        rw [at?_cons_of_not_object (by simpa using hn)] at h
        cases h
      rw [at?_cons_of_not_object (by simpa [hlayer] using hobject), Option.getD_none, overlay_of_not_object rfl]
    | true =>
      rw [Bool.and_eq_true] at hobject
      obtain ⟨kept, rfl⟩ := isObject_iff.1 hobject.1
      obtain ⟨members, rfl⟩ := isObject_iff.1 hobject.2
      obtain ⟨w, hw, hrest⟩ := Option.bind_eq_some_iff.1 h
      have hlookup := lookup_overlayMembers_of_some hl.nodup_names hw kept
      simp only [overlay, at?, hlookup, Option.bind_some]
      rw [ih (hl.of_lookup hw) hrest]
      cases kept.lookup name with
      | some old => rfl
      | none =>
        cases rest with
        | nil => rfl
        | cons => rfl

/-- Where the layer has nothing, the base shows through if both have an object where the layer ends. -/
theorem at?_overlay_of_none (hl : layer.Canonical) {part : List String} (hpart : LongestDefined layer path part)
    (h : layer.at? path = none) :
    (base.overlay layer).at? path =
      if base.objectAt part && layer.objectAt part then base.at? path else none := by
  obtain ⟨part', name, rest, w, rfl, hw, hname⟩ := exists_split h
  obtain rfl := hpart.unique (longestDefined_of_split hw hname)
  rw [at?_append, at?_overlay_of_some hl hw, Option.bind_some]
  have hnothing : w.at? (name :: rest) = none := by
    rw [← List.singleton_append, at?_append, hname]
    rfl
  cases hobject : base.objectAt part && layer.objectAt part with
  | false =>
    have hover : (((base.at? part).getD .null).isObject && w.isObject) = false := by
      rw [objectAt, objectAt, hw] at hobject
      cases hb : base.at? part with
      | none => rfl
      | some b => simpa [hb] using hobject
    rw [overlay_of_not_object hover, hnothing]
    rfl
  | true =>
    rw [objectAt, objectAt, hw, Bool.and_eq_true] at hobject
    obtain ⟨b, hb, hbobject⟩ := (Option.any_eq_true _ _).1 hobject.1
    obtain ⟨kept, rfl⟩ := isObject_iff.1 hbobject
    obtain ⟨members, rfl⟩ := isObject_iff.1 hobject.2
    have hmissing : members.lookup name = none := by simpa [at?] using hname
    rw [if_pos rfl, at?_append, hb]
    simp only [Option.getD_some, overlay, at?, Option.bind_some]
    rw [lookup_overlayMembers_of_none hmissing]

/-! ## Canonical layers -/

theorem canonical_overlayMembers (hk : Canonical (.object kept))
    (hm : ∀ m ∈ members, ∀ {old : Json}, old.Canonical → (old.overlay m.2).Canonical)
    (hc : ∀ m ∈ members, m.2.Canonical) : Canonical (.object (overlayMembers kept members)) := by
  induction members generalizing kept with
  | nil => exact hk
  | cons m rest ih =>
    refine ih (hk.insertInto m.1 ?_) (fun m' h => hm m' (List.mem_cons_of_mem _ h))
      fun m' h => hc m' (List.mem_cons_of_mem _ h)
    cases hold : kept.lookup m.1 with
    | none => exact hc m List.mem_cons_self
    | some old => exact hm m List.mem_cons_self (hk.of_lookup hold)

theorem canonical_overlay (hb : base.Canonical) (hl : layer.Canonical) : (base.overlay layer).Canonical := by
  induction hl generalizing base with
  | object ascending each ih =>
    cases hb with
    | object ascending' each' => exact canonical_overlayMembers (.object ascending' each') ih each
    | null | bool | number | string | array => exact .object ascending each
  | null => exact .null
  | bool b => exact .bool b
  | number n => exact .number n
  | string s => exact .string s
  | array each => exact .array each

theorem overlayMembers_nil (h : Canonical (.object members)) : overlayMembers [] members = members := by
  have hover : Canonical (.object (overlayMembers [] members)) := canonical_overlay .empty h
  refine Keyed.eq_of_lookup_eq hover.ascending_of_object h.ascending_of_object fun name => ?_
  cases hw : members.lookup name with
  | none => exact lookup_overlayMembers_of_none hw []
  | some w =>
    rw [lookup_overlayMembers_of_some h.nodup_names hw, List.lookup_nil, Option.getD_none, overlay_of_not_object rfl]

/-- A layer laid over again changes nothing. -/
theorem overlay_overlay (hb : base.Canonical) (hl : layer.Canonical) :
    (base.overlay layer).overlay layer = base.overlay layer := by
  induction hl generalizing base with
  | @object members ascending each ih =>
    have hl : Canonical (.object members) := .object ascending each
    have hagain : ∀ {kept}, Canonical (.object kept) →
        overlayMembers (overlayMembers kept members) members = overlayMembers kept members := by
      intro kept hk
      have honce : Canonical (.object (overlayMembers kept members)) := canonical_overlay hk hl
      have htwice : Canonical (.object (overlayMembers (overlayMembers kept members) members)) :=
        canonical_overlay honce hl
      refine Keyed.eq_of_lookup_eq htwice.ascending_of_object honce.ascending_of_object fun name => ?_
      cases hw : members.lookup name with
      | none => rw [lookup_overlayMembers_of_none hw]
      | some w =>
        have hold : ((kept.lookup name).getD .null).Canonical := by
          cases hk' : kept.lookup name with
          | none => exact .null
          | some old => exact hk.of_lookup hk'
        rw [lookup_overlayMembers_of_some hl.nodup_names hw, lookup_overlayMembers_of_some hl.nodup_names hw,
          Option.getD_some, ih (name, w) ((Keyed.lookup_eq_some_iff_mem hl.nodup_names).1 hw) hold]
    cases hobject : base.isObject with
    | true =>
      obtain ⟨kept, rfl⟩ := isObject_iff.1 hobject
      simp only [overlay, hagain hb]
    | false =>
      -- Over what is no object the layer stands as it does over an empty one.
      have hempty := hagain .empty
      rw [overlayMembers_nil hl] at hempty
      have hover : base.overlay (object members) = object members := overlay_of_not_object (by rw [hobject]; rfl)
      rw [hover]
      exact congrArg object hempty
  | null | bool | number | string | array => rfl

/-! ## A stack of layers -/

variable {layers before after other : List Json}

theorem merge_concat (layers : List Json) (layer : Json) :
    merge (layers ++ [layer]) = if layer = .null then merge layers else (merge layers).overlay layer := by
  simp [merge]

theorem merge_append_congr (h : merge before = merge other) (after : List Json) :
    merge (before ++ after) = merge (other ++ after) := by
  unfold merge at *
  rw [List.foldl_append, List.foldl_append, h]

theorem canonical_merge (h : ∀ layer ∈ layers, layer.Canonical) : (merge layers).Canonical := by
  induction layers using List.reverseRecOn with
  | nil => exact .empty
  | append_singleton layers layer ih =>
    have hlayers := ih fun l hl => h l (List.mem_append_left _ hl)
    rw [merge_concat]
    split
    · exact hlayers
    · exact canonical_overlay hlayers (h layer (by simp))

/-- A layer given twice in a row counts once. -/
theorem merge_twice (hb : ∀ l ∈ before, l.Canonical) (hl : layer.Canonical) (after : List Json) :
    merge (before ++ layer :: layer :: after) = merge (before ++ layer :: after) := by
  have honce : merge ((before ++ [layer]) ++ [layer]) = merge (before ++ [layer]) := by
    rw [merge_concat (before ++ [layer]), merge_concat before]
    split
    · rfl
    · exact overlay_overlay (canonical_merge hb) hl
  simpa using merge_append_congr honce after

/-- An empty object changes nothing while the layers before it make an object. -/
theorem merge_empty (h : (merge before).isObject = true) (after : List Json) :
    merge (before ++ object [] :: after) = merge (before ++ after) := by
  obtain ⟨kept, hkept⟩ := isObject_iff.1 h
  have hempty : merge (before ++ [object []]) = merge before := by
    rw [merge_concat, hkept]
    rfl
  simpa using merge_append_congr hempty after

theorem merge_nulls (hnull : ∀ l ∈ after, l = .null) (before : List Json) :
    merge (before ++ after) = merge before := by
  induction after using List.reverseRecOn with
  | nil => rw [List.append_nil]
  | append_singleton after l ih =>
    rw [← List.append_assoc, merge_concat, if_pos (hnull l (by simp))]
    exact ih fun l hl => hnull l (List.mem_append_left _ hl)

/-- What a path leads to that is no object. -/
def LeafAt (v : Json) (path : List String) (leaf : Json) : Prop := v.at? path = some leaf ∧ leaf.isObject = false

theorem leafAt_merge {leaf : Json} (hl : layer.Canonical) (hnull : layer ≠ .null)
    (hlast : ∀ l ∈ after, l = .null) (hleaf : layer.LeafAt path leaf) (before : List Json) :
    (merge (before ++ layer :: after)).LeafAt path leaf := by
  have hmerge : merge (before ++ layer :: after) = (merge before).overlay layer := by
    rw [List.append_cons, merge_nulls hlast, merge_concat, if_neg hnull]
  refine ⟨?_, hleaf.2⟩
  rw [hmerge, at?_overlay_of_some hl hleaf.1, overlay_of_not_object (by simp [hleaf.2])]

/-! ## The last writer -/

/-- What a path leads to once `layer` lies over `base`, by what it leads to in each of them. -/
structure LastWriter (base layer : Json) (path : List String) : Prop where
  replaced : ∀ {v}, layer.at? path = some v → v.isObject = false → (base.overlay layer).at? path = some v
  added : ∀ {v}, layer.at? path = some v → base.objectAt path = false → (base.overlay layer).at? path = some v
  merged : ∀ {old v}, base.at? path = some old → layer.at? path = some v → old.isObject = true →
    v.isObject = true → (base.overlay layer).at? path = some (old.overlay v)
  /-- Nothing is there if the layer replaced what led to it. -/
  unwritten : layer.at? path = none → ∃ part, LongestDefined layer path part ∧
    (base.overlay layer).at? path = if base.objectAt part && layer.objectAt part then base.at? path else none

theorem lastWriter_overlay (hl : layer.Canonical) (base : Json) (path : List String) : LastWriter base layer path where
  replaced := fun h hv => by rw [at?_overlay_of_some hl h, overlay_of_not_object (by simp [hv])]
  added := fun {v} h hb => by
    have hover : (((base.at? path).getD .null).isObject && v.isObject) = false := by
      rw [objectAt] at hb
      cases hold : base.at? path with
      | none => rfl
      | some old => rw [hold, Option.any_some] at hb; rw [Option.getD_some, hb, Bool.false_and]
    rw [at?_overlay_of_some hl h, overlay_of_not_object hover]
  merged := fun hb h _ _ => by rw [at?_overlay_of_some hl h, hb, Option.getD_some]
  unwritten := fun h => by
    obtain ⟨part, name, rest, w, rfl, hw, hname⟩ := exists_split h
    have hpart : LongestDefined layer (part ++ name :: rest) part := longestDefined_of_split hw hname
    exact ⟨part, hpart, at?_overlay_of_none hl hpart h⟩

/-- At every path the last document that writes there decides. In a stack of layers, one that is
repeated counts once, an empty object over an object does not count, and every leaf of the last layer
is a leaf of what they make. -/
theorem last_writer_decides {before after : List Json} {layer : Json}
    (h : ∀ l ∈ before ++ layer :: after, l.Canonical) :
    (∀ base path, LastWriter base layer path) ∧
    merge (before ++ layer :: layer :: after) = merge (before ++ layer :: after) ∧
    ((merge before).isObject = true → merge (before ++ object [] :: after) = merge (before ++ after)) ∧
    (layer ≠ .null → (∀ l ∈ after, l = .null) →
      ∀ {path leaf}, layer.LeafAt path leaf → (merge (before ++ layer :: after)).LeafAt path leaf) := by
  have hbefore : ∀ l ∈ before, l.Canonical := fun l hl => h l (List.mem_append_left _ hl)
  have hlayer : layer.Canonical := h layer (List.mem_append_right _ List.mem_cons_self)
  refine ⟨lastWriter_overlay hlayer, merge_twice hbefore hlayer after, fun hobject => merge_empty hobject after, ?_⟩
  exact fun hnull hlast _ _ hleaf => leafAt_merge hlayer hnull hlast hleaf before

/-- A text takes the place of a section, a section keeps the members that no layer writes, and an
empty document lies on top. -/
theorem last_writer_decides_three_layers :
    let defaults := object [("bus", object [("capacity", string "16")]), ("store", object [("path", string "keep.db")])]
    let overrides := object [("bus", string "off"), ("store", object [("size", string "4")])]
    (∀ l ∈ [defaults] ++ overrides :: [.null], l.Canonical) ∧
      (merge ([defaults] ++ overrides :: [.null])).LeafAt ["bus"] (string "off") ∧
      (defaults.overlay overrides).at? ["bus", "capacity"] = none ∧
      (defaults.overlay overrides).at? ["store", "path"] = some (string "keep.db") := by
  intro defaults overrides
  have hcanonical : ∀ l ∈ [defaults] ++ overrides :: [.null], l.Canonical := by decide
  obtain ⟨hpaths, -, -, hleaf⟩ := last_writer_decides hcanonical
  refine ⟨hcanonical, hleaf nofun (by simp) ⟨rfl, rfl⟩, ?_, ?_⟩
  · obtain ⟨part, hpart, hat⟩ := (hpaths defaults ["bus", "capacity"]).unwritten rfl
    have hends : LongestDefined overrides (["bus"] ++ "capacity" :: []) ["bus"] := longestDefined_of_split rfl rfl
    obtain rfl := hpart.unique hends
    exact hat
  · obtain ⟨part, hpart, hat⟩ := (hpaths defaults ["store", "path"]).unwritten rfl
    have hends : LongestDefined overrides (["store"] ++ "path" :: []) ["store"] := longestDefined_of_split rfl rfl
    obtain rfl := hpart.unique hends
    exact hat

end TableEscrow.Json

/-! ## Layers that are read -/

namespace TableEscrow.LayeredConfig

theorem canonical_of_parse {texts : List String} {index : Nat} {layers : List Json}
    (h : parse index texts = .ok layers) : ∀ layer ∈ layers, layer.Canonical := by
  induction texts generalizing index layers with
  | nil =>
    cases h
    exact fun _ hlayer => absurd hlayer List.not_mem_nil
  | cons text rest ih =>
    rw [parse] at h
    split at h
    · next v hv =>
      cases hrest : parse (index + 1) rest with
      | error e => rw [hrest] at h; cases h
      | ok later =>
        rw [hrest] at h
        cases h
        intro layer hlayer
        rcases List.mem_cons.1 hlayer with rfl | hlater
        · exact Json.canonical_of_yaml hv
        · exact ih hrest layer hlater
    · cases h

theorem canonical_document {texts : List String} {c : LayeredConfig} (h : ofTexts texts = .ok c) :
    c.document.Canonical := by
  unfold ofTexts at h
  cases hlayers : parse 0 texts with
  | error e => rw [hlayers] at h; cases h
  | ok layers =>
    rw [hlayers] at h
    change ofLayers layers = .ok c at h
    simp only [ofLayers] at h
    split at h
    · cases h
    · cases h
      exact Json.canonical_merge (canonical_of_parse hlayers)

end TableEscrow.LayeredConfig
