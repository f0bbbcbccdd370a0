import Mathlib.Data.List.Lex
import TableEscrow.Proofs.Layers
/-!
# Paths through documents

A path goes down through objects and arrays, one step at a time (`Leads`), and the steps of each value
are in document order. A path splits into the names it starts with and the rest, which is empty or
begins in an array (`leads_iff_at?`): layers know nothing but the names. So a layer takes away what
a path leads to only if it has a value where its names end, or ends among them (`Covers`), and what is
covered by no later layer stays (`leads_merge`).
-/

namespace TableEscrow.Json

/-- One step down, to a member of an object or to an item of an array. -/
inductive Step where
  | member (name : String)
  | item (index : Nat)
  deriving DecidableEq

namespace Step

def text : Step → String
  | .member name => name
  | .item index => toString index

/-- Document order: names ascend, and items stand by their number. -/
def Before : Step → Step → Prop
  | .member name, .member other => name < other
  | .item index, .item other => index < other
  | _, _ => False

end Step

/-- A path as it is written after another one, a slash in front of each step. -/
def pathAfter (start : String) : List Step → String
  | [] => start
  | s :: rest => pathAfter (start ++ "/" ++ s.text) rest

/-- The values one step down, in document order. -/
def children : Json → List (Step × Json)
  | .object members => members.map fun m => (.member m.1, m.2)
  | .array items => items.zipIdx.map fun v => (.item v.2, v.1)
  | _ => []

/-- A path leads from one value to another. -/
inductive Leads : Json → List Step → Json → Prop
  | here (v : Json) : Leads v [] v
  | step {v w u : Json} {s : Step} {rest : List Step} (hs : (s, w) ∈ v.children) (hw : Leads w rest u) :
      Leads v (s :: rest) u

variable {v w u base layer : Json} {path : List Step}

theorem mem_children_object {members : List (String × Json)} {s : Step} :
    (s, w) ∈ (object members).children ↔ ∃ name, s = .member name ∧ (name, w) ∈ members := by
  simp [children, and_comm, eq_comm]

theorem mem_children_array {items : List Json} {s : Step} :
    (s, w) ∈ (array items).children ↔ ∃ index, s = .item index ∧ items[index]? = some w := by
  simp [children, List.mk_mem_zipIdx_iff_getElem?, and_comm, eq_comm]

theorem ascending_children (h : v.Canonical) : v.children.Pairwise fun a b => a.1.Before b.1 := by
  cases h with
  | null | bool | number | string => exact .nil
  | @array items =>
    have hindices : (items.zipIdx.map (·.2)).Pairwise (· < ·) := by
      rw [List.zipIdx_map_snd]
      exact List.pairwise_lt_range'
    exact List.pairwise_map.2 (List.pairwise_map.1 hindices :)
  | object ascending => exact List.pairwise_map.2 ascending

/-! ## The names a path starts with -/

def names : List Step → List String
  | .member name :: rest => name :: names rest
  | _ => []

/-- What is left of a path after the names it starts with. -/
def afterNames : List Step → List Step
  | .member _ :: rest => afterNames rest
  | path => path

theorem leads_iff_at? (h : v.Canonical) : v.Leads path u ↔ ∃ w, v.at? (names path) = some w ∧ w.Leads (afterNames path) u := by
  induction path generalizing v with
  | nil => exact ⟨fun hu => ⟨v, rfl, hu⟩, fun ⟨w, hw, hu⟩ => by cases hw; exact hu⟩
  | cons s rest ih =>
    cases s with
    | item index => exact ⟨fun hu => ⟨v, rfl, hu⟩, fun ⟨w, hw, hu⟩ => by cases hw; exact hu⟩
    | member name =>
      constructor
      · rintro (_ | ⟨hs, hu⟩)
        cases v with
        | object members =>
          obtain ⟨_, heq, hmem⟩ := mem_children_object.1 hs
          cases heq
          have hlookup := (Keyed.lookup_eq_some_iff_mem h.nodup_names).2 hmem
          simpa [names, afterNames, at?, hlookup] using (ih (h.of_lookup hlookup)).1 hu
        | array items => obtain ⟨_, heq, -⟩ := mem_children_array.1 hs; cases heq
        | null | bool | number | string => cases hs
      · rintro ⟨w, hw, hu⟩
        cases v with
        | object members =>
          obtain ⟨x, hlookup, hx⟩ := Option.bind_eq_some_iff.1 hw
          refine .step (mem_children_object.2 ⟨name, rfl, ?_⟩) ((ih (h.of_lookup hlookup)).2 ⟨w, hx, hu⟩)
          exact (Keyed.lookup_eq_some_iff_mem h.nodup_names).1 hlookup
        | null | bool | number | string | array => cases hw

/-- Only arrays and what is no collection stand where the names of a path to a text end. -/
theorem not_object_of_leads {s : String} (h : w.Leads (afterNames path) (.string s)) : w.isObject = false := by
  induction path with
  | nil => cases h; rfl
  | cons step rest ih =>
    cases step with
    | member name => exact ih h
    | item index =>
      obtain _ | ⟨hs, -⟩ := h
      cases w with
      | object members => obtain ⟨_, heq, -⟩ := mem_children_object.1 hs; cases heq
      | null | bool | number | string | array => rfl

/-! ## What later layers cover -/

/-- A layer has a value where some names lead, or something that is no object among them. -/
def Covers (layer : Json) (names : List String) : Prop :=
  layer.at? names ≠ none ∨ ∃ part leaf, part <+: names ∧ part ≠ names ∧ layer.LeafAt part leaf

theorem objectAt_of_prefix {part names : List String} (hpart : part <+: names) (hne : part ≠ names)
    (h : v.at? names ≠ none) : v.objectAt part = true := by
  obtain ⟨rest, rfl⟩ := hpart
  rw [at?_append] at h
  cases hw : v.at? part with
  | none => rw [hw] at h; exact absurd rfl h
  | some w =>
    cases rest with
    | nil => exact absurd (List.append_nil part).symm hne
    | cons name rest =>
      rw [objectAt, hw, Option.any_some]
      by_contra hobject
      rw [hw, Option.bind_some, at?_cons_of_not_object (by simpa using hobject)] at h
      exact h rfl

theorem leafAt_overlay {names : List String} {leaf : Json} (hl : layer.Canonical) (hleaf : base.LeafAt names leaf)
    (h : ¬ layer.Covers names) : (base.overlay layer).LeafAt names leaf := by
  have hnone : layer.at? names = none := by
    by_contra hsome
    exact h (.inl hsome)
  obtain ⟨part, name, rest, x, rfl, hx, hname⟩ := exists_split hnone
  have hpart : LongestDefined layer (part ++ name :: rest) part := longestDefined_of_split hx hname
  have hne : part ≠ part ++ name :: rest := by simp
  -- The layer knows the names up to `part`, so it covers them all unless an object stands there.
  have hlayer : layer.objectAt part = true := by
    by_contra hobject
    refine h (.inr ⟨part, x, hpart.within, hne, hx, ?_⟩)
    simpa [objectAt, hx] using hobject
  have hbase : base.objectAt part = true := objectAt_of_prefix hpart.within hne (by simp [hleaf.1])
  refine ⟨?_, hleaf.2⟩
  rw [at?_overlay_of_none hl hpart hnone, hbase, hlayer]
  exact hleaf.1

/-- A leaf of a layer stays if no later layer covers it. -/
theorem leafAt_merge_of_not_covers {before after : List Json} {names : List String} {leaf : Json}
    (hl : layer.Canonical) (hnull : layer ≠ .null) (hafter : ∀ l ∈ after, l.Canonical)
    (hleaf : layer.LeafAt names leaf) (h : ∀ l ∈ after, l ≠ .null → ¬ l.Covers names) :
    (merge (before ++ layer :: after)).LeafAt names leaf := by
  induction after using List.reverseRecOn with
  | nil => exact leafAt_merge hl hnull (by simp) hleaf before
  | append_singleton after l ih =>
    have hearlier := ih (fun l hl => hafter l (List.mem_append_left _ hl)) fun l hl => h l (List.mem_append_left _ hl)
    rw [← List.cons_append, ← List.append_assoc, merge_concat]
    split
    · exact hearlier
    · next hne => exact leafAt_overlay (hafter l (by simp)) hearlier (h l (by simp) hne)

/-- A text of a layer stays if no later layer covers the names that lead to it, or to the array it is in. -/
theorem leads_merge {before after : List Json} {s : String} (hcanonical : ∀ l ∈ before ++ layer :: after, l.Canonical)
    (hleads : layer.Leads path (.string s)) (h : ∀ l ∈ after, l ≠ .null → ¬ l.Covers (names path)) :
    (merge (before ++ layer :: after)).Leads path (.string s) := by
  have hlayer : layer.Canonical := hcanonical layer (by simp)
  have hnull : layer ≠ .null := by
    rintro rfl
    obtain _ | ⟨hs, -⟩ := hleads
    cases hs
  obtain ⟨w, hw, hrest⟩ := (leads_iff_at? hlayer).1 hleads
  have hleaf : (merge (before ++ layer :: after)).LeafAt (names path) w :=
    leafAt_merge_of_not_covers hlayer hnull (fun l hl => hcanonical l (by simp [hl]))
      ⟨hw, not_object_of_leads hrest⟩ h
  exact (leads_iff_at? (canonical_merge hcanonical)).2 ⟨w, hleaf.1, hrest⟩

end TableEscrow.Json
