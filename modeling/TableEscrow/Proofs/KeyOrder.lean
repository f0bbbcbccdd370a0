import TableEscrow.Proofs.CompactTexts
import TableEscrow.Proofs.Layers
import TableEscrow.Proofs.Secrets
import TableEscrow.Config.UnusedKeys
/-!
# The order of keys

A document as it is written keeps the keys of every mapping in the order of the text
(`Yaml.Document.written?`). What is read is that with the keys of every object ascending
(`ofYaml?_eq_sorted`), so documents that differ in the order of their keys, at any depth, load alike, and
the canonical text of a configuration without fractions tells which configuration it is
(`text_identifies_configuration`).
-/

namespace TableEscrow

/-! ## Documents as they are written -/

namespace Yaml.Document

variable (doc : Document) (inner : Node → Nat → Option (Json × Nat))

/-- The items of a sequence, one after the other. -/
def writtenItems? : List Node → Nat → Option (List Json × Nat)
  | [], jumps => some ([], jumps)
  | item :: rest, jumps => do
    let (v, jumps) ← inner item jumps
    let (values, jumps) ← writtenItems? rest jumps
    return (v :: values, jumps)

/-- The members of a mapping, one after the other. -/
def writtenMembers? : List (Node × Node) → Nat → Option (List (String × Json) × Nat)
  | [], jumps => some ([], jumps)
  | (key, item) :: rest, jumps => do
    let (k, jumps) ← doc.key? key jumps
    let (v, jumps) ← inner item jumps
    let (members, jumps) ← writtenMembers? rest jumps
    return ((k, v) :: members, jumps)

/-- The value of a collection as it is written. -/
def writtenCollection? (n : Node) (jumps : Nat) : Option (Json × Nat) :=
  match n with
  | .sequence _ tag items =>
    if isLocal tag then none else (writtenItems? inner items jumps).map fun (values, jumps) => (.array values, jumps)
  | .mapping _ tag entries =>
    if isLocal tag then none
    else (doc.writtenMembers? inner entries jumps).map fun (members, jumps) => (.object members, jumps)
  | _ => none

/-- The value of a node with the keys of every mapping in it in the order they are written. -/
def written? (depth : Nat) (n : Node) (jumps : Nat) : Option (Json × Nat) :=
  match depth, doc.follow? n jumps with
  | _, none => none
  | _, some (.scalar _ tag isPlain text, jumps) => (Scalar.value? tag isPlain text).map (·, jumps)
  | 0, some _ => none
  | depth + 1, some (n, jumps) => doc.writtenCollection? (fun item jumps => written? depth item jumps) n jumps

end Yaml.Document

/-- The document a YAML text writes, key by key. -/
def Json.written? (text : String) : Option Json := do
  match ← Yaml.Node.ofTokens? (← Yaml.Token.ofText? text) with
  | none => some .null
  | some root =>
    let doc : Yaml.Document := ⟨root.anchored.reverse, 100 * root.eventCount⟩
    (doc.written? Yaml.Document.maxDepth root 0).map (·.1)

namespace Json

/-- Equal up to the order of keys, at any depth: two neighbours trade places unless they are values of
one key, whose last one counts. -/
inductive Reordered : Json → Json → Prop
  | refl (v : Json) : Reordered v v
  | trans {u v w : Json} (first : Reordered u v) (second : Reordered v w) : Reordered u w
  | swap (before : List (String × Json)) {k l : String} (v w : Json) (after : List (String × Json)) (distinct : k ≠ l) :
      Reordered (.object (before ++ (k, v) :: (l, w) :: after)) (.object (before ++ (l, w) :: (k, v) :: after))
  | member (before : List (String × Json)) (k : String) {v w : Json} (after : List (String × Json))
      (inside : Reordered v w) : Reordered (.object (before ++ (k, v) :: after)) (.object (before ++ (k, w) :: after))
  | item (before : List Json) {v w : Json} (after : List Json) (inside : Reordered v w) :
      Reordered (.array (before ++ v :: after)) (.array (before ++ w :: after))

/-- The keys of an object may stand in any order if none stands twice. -/
theorem reordered_of_perm {members others : List (String × Json)} (h : members.Perm others)
    (hnames : (members.map (·.1)).Nodup) (before : List (String × Json)) :
    Reordered (.object (before ++ members)) (.object (before ++ others)) := by
  induction h generalizing before with
  | nil => exact .refl _
  | cons m _ ih => simpa using ih (List.nodup_cons.1 hnames).2 (before ++ [m])
  | swap m n rest =>
    have hdistinct : n.1 ≠ m.1 := fun heq => (List.nodup_cons.1 hnames).1 (by simp [heq])
    exact .swap before n.2 m.2 rest hdistinct
  | trans hfirst _ ih ih' => exact .trans (ih hnames before) (ih' ((hfirst.map _).nodup_iff.1 hnames) before)

theorem sortedItems_eq_map (items : List Json) : sortedItems items = items.map sorted := by
  induction items with
  | nil => rfl
  | cons v rest ih => rw [sortedItems, ih, List.map_cons]

theorem sortedMembers_eq_map (members : List (String × Json)) :
    sortedMembers members = members.map fun m => (m.1, m.2.sorted) := by
  induction members with
  | nil => rfl
  | cons m rest ih => rw [sortedMembers, ih, List.map_cons]

theorem insertInto_comm {k l : String} (h : k ≠ l) (v w : Json) {members : List (String × Json)}
    (hm : members.Pairwise (·.1 < ·.1)) :
    Keyed.insertInto l w (Keyed.insertInto k v members) = Keyed.insertInto k v (Keyed.insertInto l w members) := by
  refine Keyed.eq_of_lookup_eq (Keyed.ascending_insertInto _ _ (Keyed.ascending_insertInto _ _ hm))
    (Keyed.ascending_insertInto _ _ (Keyed.ascending_insertInto _ _ hm)) fun name => ?_
  by_cases hk : name = k
  · subst hk
    rw [Keyed.lookup_insertInto_other h, Keyed.lookup_insertInto_self, Keyed.lookup_insertInto_self]
  · by_cases hl : name = l
    · subst hl
      rw [Keyed.lookup_insertInto_self, Keyed.lookup_insertInto_other hk, Keyed.lookup_insertInto_self]
    · simp only [Keyed.lookup_insertInto_other hk, Keyed.lookup_insertInto_other hl]

/-- Documents that differ in the order of their keys are read alike. -/
theorem sorted_eq_of_reordered {v w : Json} (h : Reordered v w) : v.sorted = w.sorted := by
  induction h with
  | refl => rfl
  | trans _ _ ih ih' => exact ih.trans ih'
  | swap before v w after distinct =>
    have hbefore : Canonical (sorted (.object before)) := canonical_sorted _
    simp only [sorted, ofMembers, sortedMembers_eq_map, List.map_append, List.map_cons, List.foldl_append,
      List.foldl_cons] at hbefore ⊢
    rw [insertInto_comm distinct _ _ hbefore.ascending_of_object]
  | member before k after _ ih => simp only [sorted, sortedMembers_eq_map, List.map_append, List.map_cons, ih]
  | item before after _ ih => simp only [sorted, sortedItems_eq_map, List.map_append, List.map_cons, ih]

end Json

/-! ## What is read of what is written -/

namespace Yaml.Document

open Json

/-- What is read of a value that is written, beside the aliases that were followed. -/
def readOf (read : Json × Nat) : Json × Nat := (read.1.sorted, read.2)

variable {doc : Document} {inner written : Node → Nat → Option (Json × Nat)}
  (hinner : ∀ item jumps, inner item jumps = (written item jumps).map readOf)
include hinner

theorem items_eq (items : List Node) (acc : List Json) (jumps : Nat) :
    (items.foldlM (fun (values, jumps) item => do
      let (v, jumps) ← inner item jumps
      return (v :: values, jumps)) (acc, jumps)) =
      (writtenItems? written items jumps).map fun (values, jumps) => ((sortedItems values).reverse ++ acc, jumps) := by
  induction items generalizing acc jumps with
  | nil => rfl
  | cons item rest ih =>
    rw [List.foldlM_cons, writtenItems?]
    dsimp only
    rw [hinner]
    cases written item jumps with
    | none => rfl
    | some read =>
      obtain ⟨v, jumps⟩ := read
      refine (ih (v.sorted :: acc) jumps).trans ?_
      cases hrest : writtenItems? written rest jumps with
      | none => simp [hrest]
      | some later => simp [hrest, sortedItems]

theorem members_eq (entries : List (Node × Node)) (acc : List (String × Json)) (jumps : Nat) :
    (entries.foldlM (fun (members, jumps) (key, item) => do
      let (k, jumps) ← doc.key? key jumps
      let (v, jumps) ← inner item jumps
      return (Keyed.insertInto k v members, jumps)) (acc, jumps)) =
      (doc.writtenMembers? written entries jumps).map fun (members, jumps) =>
        ((sortedMembers members).foldl (fun acc (k, v) => Keyed.insertInto k v acc) acc, jumps) := by
  induction entries generalizing acc jumps with
  | nil => rfl
  | cons entry rest ih =>
    obtain ⟨key, item⟩ := entry
    rw [List.foldlM_cons, writtenMembers?]
    dsimp only
    cases doc.key? key jumps with
    | none => rfl
    | some found =>
      obtain ⟨k, jumps⟩ := found
      simp only [Option.bind_eq_bind, Option.bind_some]
      rw [hinner]
      cases written item jumps with
      | none => rfl
      | some read =>
        obtain ⟨v, jumps⟩ := read
        refine (ih (Keyed.insertInto k v.sorted acc) jumps).trans ?_
        cases hrest : doc.writtenMembers? written rest jumps with
        | none => simp [hrest]
        | some later => simp [hrest, sortedMembers]

theorem collection?_eq (n : Node) (jumps : Nat) :
    doc.collection? inner n jumps = (doc.writtenCollection? written n jumps).map readOf := by
  rcases n with _ | ⟨_, tag, items⟩ | ⟨_, tag, entries⟩ | _
  · rfl
  · cases htag : isLocal tag with
    | true => simp [collection?, writtenCollection?, htag]
    | false =>
      simp only [collection?, writtenCollection?, htag, Bool.false_eq_true, if_false, items_eq hinner]
      cases writtenItems? written items jumps with
      | none => rfl
      | some read => simp [readOf, sorted]
  · cases htag : isLocal tag with
    | true => simp [collection?, writtenCollection?, htag]
    | false =>
      simp only [collection?, writtenCollection?, htag, Bool.false_eq_true, if_false, members_eq hinner]
      cases doc.writtenMembers? written entries jumps with
      | none => rfl
      | some read => simp [readOf, sorted, ofMembers]
  · rfl

omit hinner

theorem value?_eq (doc : Document) (depth : Nat) (n : Node) (jumps : Nat) :
    doc.value? depth n jumps = (doc.written? depth n jumps).map readOf := by
  fun_induction Document.value? doc depth n jumps with
  | case1 depth n jumps h => simp [Document.written?, h]
  | case2 depth n jumps _ tag isPlain text jumps' h =>
    have hwritten : doc.written? depth n jumps = (Scalar.value? tag isPlain text).map (·, jumps') := by
      rw [Document.written?.eq_def, h]
    rw [hwritten]
    cases hv : Scalar.value? tag isPlain text with
    | none => rfl
    | some v =>
      have hsorted : v.sorted = v := (sorted_eq_iff_canonical v).2 (Scalar.canonical_of_value hv)
      simp [readOf, hsorted]
  | case3 n jumps found hfollow hscalar =>
    obtain ⟨root, jumps'⟩ := found
    cases root <;> simp_all [Document.written?]
  | case4 n jumps depth found jumps' hfollow hscalar ih =>
    have hwritten : doc.written? (depth + 1) n jumps =
        doc.writtenCollection? (fun item jumps => doc.written? depth item jumps) found jumps' := by
      cases found <;> simp_all [Document.written?]
    rw [hwritten, collection?_eq ih]

end Yaml.Document

/-- What is read of a text is what it writes, with the keys of every object ascending. -/
theorem Json.ofYaml?_eq_sorted (text : String) : ofYaml? text = (written? text).map sorted := by
  unfold ofYaml? written?
  cases Yaml.Token.ofText? text with
  | none => rfl
  | some tokens =>
    simp only [Option.bind_eq_bind, Option.bind_some]
    cases Yaml.Node.ofTokens? tokens with
    | none => rfl
    | some root =>
      simp only [Option.bind_some]
      cases root with
      | none => rfl
      | some root => simp [Yaml.Document.value?_eq, Yaml.Document.readOf, Function.comp_def]

/-! ## What a configuration is known by -/

namespace LayeredConfig

open Json

/-- Texts that write the same documents up to the order of keys, or break alike. -/
def SameDocuments (texts others : List String) : Prop :=
  List.Forall₂ (fun text other => Option.Rel Reordered (written? text) (written? other)) texts others

theorem eq_ofDocument {texts : List String} {c : LayeredConfig} (h : ofTexts texts = .ok c) :
    c = ofDocument c.document := by
  cases hlayers : parse 0 texts with
  | error e =>
    rw [ofTexts, hlayers] at h
    cases h
  | ok layers =>
    rw [ofTexts_of_parse hlayers] at h
    cases hsecret : (merge layers).findSecret? "" with
    | none =>
      rw [ofLayers_of_not_find hsecret] at h
      cases h
      rfl
    | some found =>
      rw [ofLayers_of_find hsecret] at h
      cases h

theorem parse_eq_of_sameDocuments {texts others : List String} (h : SameDocuments texts others) (index : Nat) :
    parse index texts = parse index others := by
  induction h generalizing index with
  | nil => rfl
  | @cons text other _ _ hfirst _ ih =>
    have hread : ofYaml? text = ofYaml? other := by
      rw [ofYaml?_eq_sorted, ofYaml?_eq_sorted]
      generalize written? text = written at hfirst
      generalize written? other = written' at hfirst
      cases hfirst with
      | none => rfl
      | some hreordered => exact congrArg some (sorted_eq_of_reordered hreordered)
    simp only [parse, hread, ih]

/-- Layers that differ in the order of keys load alike. Of two configurations without fractions that
have one canonical text, one cannot be told from the other. -/
theorem text_identifies_configuration :
    (∀ {texts others : List String}, SameDocuments texts others → ofTexts texts = ofTexts others) ∧
    ∀ {texts others : List String} {c o : LayeredConfig}, ofTexts texts = .ok c → ofTexts others = .ok o →
      c.document.isWhole = true → o.document.isWhole = true → c.canonical = o.canonical →
        c.document = o.document ∧ c.config = o.config ∧
        ∀ role refuse, UnusedKeys.report role c.document refuse = UnusedKeys.report role o.document refuse := by
  refine ⟨fun h => ?_, fun {texts others c o} hc ho hwhole hwhole' htext => ?_⟩
  · rw [ofTexts, ofTexts, parse_eq_of_sameDocuments h]
  · rw [eq_ofDocument hc, eq_ofDocument ho] at htext
    have hsame : c.document = o.document :=
      eq_of_compact (canonical_document hc) (canonical_document ho) hwhole hwhole' htext
    exact ⟨hsame, by rw [config, config, hsame], fun role refuse => by rw [hsame]⟩

/-- Keys that trade places at two depths. -/
theorem text_identifies_configuration_two_depths :
    let texts := ["bus:\n  seats: -6\n  name: \"a\\nb\"\nhosts: [true]\n"]
    let others := ["hosts: [true]\nbus: \x7bname: \"a\\nb\", seats: -6\x7d\n"]
    SameDocuments texts others ∧ ofTexts texts = ofTexts others ∧
      ∃ c o, ofTexts texts = .ok c ∧ ofTexts others = .ok o ∧ c.document.isWhole = true ∧ o.document.isWhole = true ∧
        c.canonical = o.canonical ∧ c.document = o.document := by
  intro texts others
  let seats : String × Json := ("seats", .integer (-6))
  let name : String × Json := ("name", .string "a\nb")
  let hosts : String × Json := ("hosts", .array [.bool true])
  have hwritten : texts.map written? = [some (.object [("bus", .object [seats, name]), hosts])] := by decide +kernel
  have hother : others.map written? = [some (.object [hosts, ("bus", .object [name, seats])])] := by decide +kernel
  have hparse : parse 0 texts = .ok [.object [("bus", .object [name, seats]), hosts]] := by decide +kernel
  have hsame : SameDocuments texts others := by
    refine .cons ?_ .nil
    rw [(List.cons.inj hwritten).1, (List.cons.inj hother).1]
    have hinside : Reordered (.object [seats, name]) (.object [name, seats]) :=
      reordered_of_perm (.swap name seats []) (by decide) []
    exact .some (.trans (.member [] "bus" [hosts] hinside)
      (reordered_of_perm (.swap hosts ("bus", .object [name, seats]) []) (by decide) []))
  obtain ⟨hforward, hback⟩ := text_identifies_configuration
  have hloaded := (ofTexts_of_parse hparse).trans (ofLayers_of_not_find (by decide +kernel))
  have hloaded' := (hforward hsame).symm.trans hloaded
  exact ⟨hsame, hforward hsame, _, _, hloaded, hloaded', by decide +kernel, by decide +kernel, rfl,
    (hback hloaded hloaded' (by decide +kernel) (by decide +kernel) rfl).1⟩

end LayeredConfig

end TableEscrow
