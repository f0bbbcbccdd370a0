import TableEscrow.Proofs.Leaves
/-!
# What nodes have in them

A node has in it the items of a sequence, the last entry of each name of a mapping and what an alias
stands for, and what these have in them (`Holds`). To each scalar in a node the value of the node leads,
if it has one (`leads_of_holds`).
-/

namespace TableEscrow.Yaml.Document

variable {doc : Document} {n node : Node} {anchor : Option Nat} {tag : Option String} {isPlain : Bool} {text : String}
  {depth jumps jumps' : Nat} {v : Json}

/-- The text of a name. -/
def nameText? (doc : Document) : Node → Option String
  | .scalar _ _ _ text => some text
  | .alias number =>
    match doc.anchored.lookup number with
    | some (.scalar _ _ _ text) => some text
    | _ => none
  | _ => none

/-- An entry of a mapping that no later one replaces. -/
def LastEntry (doc : Document) (entries : List (Node × Node)) (key value : Node) : Prop :=
  ∃ before after, entries = before ++ (key, value) :: after ∧ ∀ e ∈ after, doc.nameText? e.1 ≠ doc.nameText? key

/-- A node is another one, or has it in it. -/
inductive Holds (doc : Document) : Node → Node → Prop
  | self (n : Node) : Holds doc n n
  | item {items : List Node} {item n : Node} (anchor : Option Nat) (tag : Option String) (mem : item ∈ items)
    (h : Holds doc item n) : Holds doc (.sequence anchor tag items) n
  | member {entries : List (Node × Node)} {key value n : Node} (anchor : Option Nat) (tag : Option String)
    (entry : doc.LastEntry entries key value) (h : Holds doc value n) : Holds doc (.mapping anchor tag entries) n
  | aliased {number : Nat} {target n : Node} (anchored : doc.anchored.lookup number = some target)
    (h : Holds doc target n) : Holds doc (.alias number) n

theorem Holds.trans {a b c : Node} (hab : doc.Holds a b) (hbc : doc.Holds b c) : doc.Holds a c := by
  induction hab with
  | self => exact hbc
  | item anchor tag mem _ ih => exact .item anchor tag mem (ih hbc)
  | member anchor tag entry _ ih => exact .member anchor tag entry (ih hbc)
  | aliased anchored _ ih => exact .aliased anchored (ih hbc)

theorem value?_alias {number : Nat} (h : doc.value? depth (.alias number) jumps = some (v, jumps')) :
    ∃ target, doc.anchored.lookup number = some target ∧ doc.value? depth target (jumps + 1) = some (v, jumps') := by
  by_cases hjumps : jumps < doc.maxJumps
  · cases htarget : doc.anchored.lookup number with
    | none => simp [value?, follow?, hjumps, htarget] at h
    | some target =>
      refine ⟨target, rfl, ?_⟩
      have hfollow : doc.follow? (.alias number) jumps = some (target, jumps + 1) := by simp [follow?, hjumps, htarget]
      rw [value?.eq_def, hfollow] at h
      cases target <;> cases depth <;> first | exact h | cases h
  · simp [value?, follow?, hjumps] at h

theorem value?_sequence {items : List Node} (h : doc.value? depth (.sequence anchor tag items) jumps = some (v, jumps')) :
    ∃ d, collection? doc (fun item jumps => doc.value? d item jumps) (.sequence anchor tag items) jumps = some (v, jumps') := by
  cases depth with
  | zero => cases h
  | succ d => exact ⟨d, h⟩

theorem value?_mapping {entries : List (Node × Node)}
    (h : doc.value? depth (.mapping anchor tag entries) jumps = some (v, jumps')) :
    ∃ d, collection? doc (fun item jumps => doc.value? d item jumps) (.mapping anchor tag entries) jumps =
      some (v, jumps') := by
  cases depth with
  | zero => cases h
  | succ d => exact ⟨d, h⟩

theorem value?_scalar (h : doc.value? depth (.scalar anchor tag isPlain text) jumps = some (v, jumps')) :
    Scalar.value? tag isPlain text = some v := by
  have hvalue : (Scalar.value? tag isPlain text).map (·, jumps) = some (v, jumps') := by
    cases depth <;> exact h
  obtain ⟨w, hw, heq⟩ := Option.map_eq_some_iff.1 hvalue
  cases heq
  exact hw

theorem nameText?_of_key {name : String} (h : doc.key? n jumps = some (name, jumps')) : doc.nameText? n = some name := by
  obtain ⟨⟨m, j⟩, hfollow, hm⟩ := Option.bind_eq_some_iff.1 h
  cases m <;> cases hm
  match n, hfollow with
  | .scalar .., hfollow => cases hfollow; rfl
  | .alias number, hfollow =>
    simp only [follow?] at hfollow
    split at hfollow
    · obtain ⟨target, htarget, heq⟩ := Option.map_eq_some_iff.1 hfollow
      cases heq
      simp only [nameText?, htarget]
    · cases hfollow

/-- Every item of an array is read, and its value kept. -/
theorem mem_of_items {inner : Node → Nat → Option (Json × Nat)} {items : List Node} {values values' : List Json}
    (h : items.foldlM (fun (values, jumps) item => do
      let (v, jumps) ← inner item jumps
      return (v :: values, jumps)) (values, jumps) = some (values', jumps')) :
    (∀ v ∈ values, v ∈ values') ∧ ∀ item ∈ items, ∃ j w j', inner item j = some (w, j') ∧ w ∈ values' := by
  induction items generalizing values jumps with
  | nil => cases h; exact ⟨fun v hv => hv, nofun⟩
  | cons first rest ih =>
    obtain ⟨⟨values₁, j₁⟩, hfirst, hrest⟩ := Option.bind_eq_some_iff.1 (by simpa using h)
    obtain ⟨⟨w, j⟩, hw, heq⟩ := Option.bind_eq_some_iff.1 hfirst
    cases heq
    obtain ⟨hkept, hitems⟩ := ih hrest
    refine ⟨fun v hv => hkept v (List.mem_cons_of_mem _ hv), fun item hitem => ?_⟩
    rcases List.mem_cons.1 hitem with rfl | hitem
    · exact ⟨_, w, _, hw, hkept w List.mem_cons_self⟩
    · exact hitems item hitem

/-- The members of a mapping read so far, and then one entry more. -/
def addEntry (doc : Document) (inner : Node → Nat → Option (Json × Nat)) :
    List (String × Json) × Nat → Node × Node → Option (List (String × Json) × Nat) :=
  fun (members, jumps) (key, item) => do
    let (k, jumps) ← key? doc key jumps
    let (v, jumps) ← inner item jumps
    return (Keyed.insertInto k v members, jumps)

variable {inner : Node → Nat → Option (Json × Nat)} {entries : List (Node × Node)} {members members' : List (String × Json)}
  {key value : Node}

theorem addEntry_of_some (h : doc.addEntry inner (members, jumps) (key, value) = some (members', jumps')) :
    ∃ name j w, doc.nameText? key = some name ∧ inner value j = some (w, jumps') ∧
      members' = Keyed.insertInto name w members := by
  obtain ⟨⟨name, j⟩, hname, h⟩ := Option.bind_eq_some_iff.1 h
  obtain ⟨⟨w, j'⟩, hw, heq⟩ := Option.bind_eq_some_iff.1 h
  cases heq
  exact ⟨name, j, w, nameText?_of_key hname, hw, rfl⟩

/-- Entries of other names leave what a name holds. -/
theorem lookup_of_entries {name : String} (hother : ∀ e ∈ entries, doc.nameText? e.1 ≠ some name)
    (h : entries.foldlM (doc.addEntry inner) (members, jumps) = some (members', jumps')) :
    members'.lookup name = members.lookup name := by
  induction entries generalizing members jumps with
  | nil => cases h; rfl
  | cons e rest ih =>
    obtain ⟨⟨members₁, j₁⟩, hfirst, hrest⟩ := Option.bind_eq_some_iff.1 (by simpa using h)
    obtain ⟨other, _, w, hname, -, rfl⟩ := addEntry_of_some hfirst
    have hne : name ≠ other := by
      rintro rfl
      exact hother e List.mem_cons_self hname
    rw [ih (fun e he => hother e (List.mem_cons_of_mem _ he)) hrest, Keyed.lookup_insertInto_other hne]

/-- The last entry of a name is what the name holds. -/
theorem lookup_of_lastEntry (hentry : doc.LastEntry entries key value)
    (h : entries.foldlM (doc.addEntry inner) (members, jumps) = some (members', jumps')) :
    ∃ name j w j', inner value j = some (w, j') ∧ members'.lookup name = some w := by
  obtain ⟨before, after, rfl, hafter⟩ := hentry
  rw [List.foldlM_append] at h
  obtain ⟨⟨members₁, j₁⟩, -, h⟩ := Option.bind_eq_some_iff.1 h
  obtain ⟨⟨members₂, j₂⟩, hentry, hrest⟩ := Option.bind_eq_some_iff.1 (by simpa using h)
  obtain ⟨name, j, w, hname, hw, rfl⟩ := addEntry_of_some hentry
  rw [hname] at hafter
  refine ⟨name, j, w, j₂, hw, ?_⟩
  rw [lookup_of_entries hafter hrest, Keyed.lookup_insertInto_self]

/-- What a node has in it, its value leads to. -/
theorem leads_of_holds (h : doc.Holds n (.scalar anchor tag isPlain text)) (hv : doc.value? depth n jumps = some (v, jumps')) :
    ∃ w path, Scalar.value? tag isPlain text = some w ∧ v.Leads path w := by
  -- Induction on where the scalar is; `item` and `member` put a step in front of the path, and an alias none.
  generalize hnode : Node.scalar anchor tag isPlain text = node at h
  induction h generalizing depth jumps v jumps' with
  | self =>
    subst hnode
    exact ⟨v, [], value?_scalar hv, .here v⟩
  | item _ tag mem _ ih =>
    obtain ⟨d, hcollection⟩ := value?_sequence hv
    simp only [collection?] at hcollection
    split at hcollection
    · cases hcollection
    · obtain ⟨⟨values, j⟩, hfold, heq⟩ := Option.bind_eq_some_iff.1 hcollection
      cases heq
      obtain ⟨_, w, _, hw, hmem⟩ := (mem_of_items hfold).2 _ mem
      obtain ⟨u, path, hu, hleads⟩ := ih hw hnode
      obtain ⟨index, hindex⟩ := List.mem_iff_getElem?.1 (List.mem_reverse.2 hmem)
      exact ⟨u, .item index :: path, hu, .step (Json.mem_children_array.2 ⟨index, rfl, hindex⟩) hleads⟩
  | member _ tag entry _ ih =>
    obtain ⟨d, hcollection⟩ := value?_mapping hv
    simp only [collection?] at hcollection
    split at hcollection
    · cases hcollection
    · obtain ⟨⟨members, j⟩, hfold, heq⟩ := Option.bind_eq_some_iff.1 hcollection
      cases heq
      obtain ⟨name, _, w, _, hw, hlookup⟩ := lookup_of_lastEntry entry hfold
      have hmem := (Keyed.lookup_eq_some_iff_mem (canonical_of_value hv).nodup_names).1 hlookup
      obtain ⟨u, path, hu, hleads⟩ := ih hw hnode
      exact ⟨u, .member name :: path, hu,
        .step (Json.mem_children_object.2 ⟨name, rfl, hmem⟩) hleads⟩
  | aliased anchored _ ih =>
    obtain ⟨target, htarget, hvalue⟩ := value?_alias hv
    obtain rfl := Option.some.inj (htarget.symm.trans anchored)
    exact ih hvalue hnode

/-- The document a root is read in. -/
def ofRoot (root : Node) : Document := ⟨root.anchored.reverse, 100 * root.eventCount⟩

end TableEscrow.Yaml.Document
