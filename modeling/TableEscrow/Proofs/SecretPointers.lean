import TableEscrow.Proofs.Secrets
import TableEscrow.Proofs.Targets
/-!
# Where the secret guard points

A refusal writes the names on the way to a secret as they are, with a slash in front of each. That is a pointer to the
secret exactly if no name has a slash or a tilde (`pathAfter_eq_pointerTo_iff`), and two ways are written alike exactly
if they are the same once they are cut at every slash, those inside names too (`pathAfter_inj_iff`). What follows for
refusals is `secretFound_leaf_iff`.
-/

namespace TableEscrow.Pointer

variable {c : Char} {cs : List Char}

/-- A character that stands for itself in a token. -/
def isOrdinary (c : Char) : Bool := c != '~' && c != '/'

theorem escape_eq_self (h : cs.all isOrdinary = true) : escape cs = cs := by
  induction cs with
  | nil => rfl
  | cons c cs ih =>
    obtain ⟨hc, hcs⟩ := Bool.and_eq_true_iff.1 h
    obtain ⟨htilde, hslash⟩ : c ≠ '~' ∧ c ≠ '/' := by simpa [isOrdinary] using hc
    rw [escape, if_neg htilde, if_neg hslash, ih hcs]

/-- A token is longer than its key by a character for each one that is escaped. -/
theorem length_escape (cs : List Char) : (escape cs).length = cs.length + cs.countP (!isOrdinary ·) := by
  induction cs with
  | nil => rfl
  | cons c cs ih =>
    unfold escape
    by_cases htilde : c = '~'
    · simp [htilde, isOrdinary, ih]
      omega
    · by_cases hslash : c = '/'
      · simp [hslash, isOrdinary, ih]
        omega
      · simp [htilde, hslash, isOrdinary, ih]
        omega

end TableEscrow.Pointer

namespace TableEscrow.Json

open Pointer Text

variable {v w : Json} {path other : List Step} {start leaf : String} {kind : SecretKind}

/-- Nothing in the names of a path would be escaped. -/
def Plain (path : List Step) : Prop := ∀ s ∈ path, s.text.toList.all isOrdinary = true

/-- What is left of a path that is cut at every slash. -/
def pieces (path : List Step) : List (List Char) := path.flatMap fun s => splitOn '/' s.text.toList

theorem toList_pathAfter (start : String) (path : List Step) :
    (pathAfter start path).toList = start.toList ++ (path.map (·.text.toList)).flatMap ('/' :: ·) := by
  induction path generalizing start with
  | nil => simp [pathAfter]
  | cons s path ih => simp [pathAfter, ih]

theorem toList_pointerTo (path : List Step) :
    (pointerTo path).toList = (path.map fun s => escape s.text.toList).flatMap ('/' :: ·) := by
  rw [pointerTo, ofKeys, toList_foldl_below, String.toList_empty, List.nil_append, List.map_map]
  rfl

theorem pathAfter_inj_iff : pathAfter "" path = pathAfter "" other ↔ pieces path = pieces other := by
  have hpieces : ∀ path, splitOn '/' (pathAfter "" path).toList = [] :: pieces path := by
    intro path
    rw [toList_pathAfter, String.toList_empty, splitOn_flatMap, List.flatMap_map]
    rfl
  constructor
  · intro h
    exact List.tail_eq_of_cons_eq (by rw [← hpieces, ← hpieces, h])
  · intro h
    exact String.toList_inj.1 (splitOn_inj (by rw [hpieces, hpieces, h]))

theorem length_pointerTo (path : List Step) : (pointerTo path).toList.length =
    (pathAfter "" path).toList.length + (path.flatMap (·.text.toList)).countP (!isOrdinary ·) := by
  rw [toList_pointerTo, toList_pathAfter, String.toList_empty, List.nil_append]
  induction path with
  | nil => rfl
  | cons s path ih =>
    simp only [List.map_cons, List.flatMap_cons, List.length_append, List.length_cons, List.countP_append, length_escape, ih]
    omega

theorem pathAfter_eq_pointerTo_iff : pathAfter "" path = pointerTo path ↔ Plain path := by
  constructor
  · intro h s hs
    have hlength := length_pointerTo path
    rw [← h, Nat.left_eq_add, List.countP_eq_zero] at hlength
    have hname : ∀ c ∈ s.text.toList, c ∈ path.flatMap (·.text.toList) := fun c hc => List.mem_flatMap.2 ⟨s, hs, hc⟩
    simpa using fun c hc => hlength c (hname c hc)
  · intro hplain
    have hmap : path.map (fun s => escape s.text.toList) = path.map (·.text.toList) :=
      List.map_congr_left fun s hs => escape_eq_self (hplain s hs)
    apply String.toList_inj.1
    rw [toList_pathAfter, toList_pointerTo, hmap, String.toList_empty, List.nil_append]

theorem pieces_of_no_slash (h : ∀ s ∈ path, '/' ∉ s.text.toList) : pieces path = path.map (·.text.toList) := by
  induction path with
  | nil => rfl
  | cons s path ih =>
    obtain ⟨hs, hpath⟩ := List.forall_mem_cons.1 h
    rw [pieces, List.flatMap_cons, splitOn_eq_singleton hs, List.map_cons, ← ih hpath]
    rfl

/-- A text of a kind is where a pointer leads if and only if the pointer is that of a secret of the kind. -/
theorem resolve_secret_iff (h : v.Canonical) :
    (∃ s, resolve v leaf = some (.string s) ∧ SecretKind.ofText? s = some kind) ↔
      ∃ path, v.SecretAt path kind ∧ leaf = pointerTo path := by
  simp only [resolve_eq_some_iff h, SecretAt]
  constructor
  · rintro ⟨s, ⟨path, hleads, hleaf⟩, hkind⟩
    exact ⟨path, ⟨s, hleads, hkind⟩, hleaf⟩
  · rintro ⟨path, ⟨s, hleads, hkind⟩, hleaf⟩
    exact ⟨s, ⟨path, hleads, hleaf⟩, hkind⟩

end TableEscrow.Json

namespace TableEscrow.LayeredConfig

open Json

variable {texts others : List String} {layers otherLayers : List Json} {leaf otherLeaf : String}
  {kind otherKind : SecretKind}

/-- What a refusal says of the way to the first secret. It is the pointer to that secret exactly if no name on the way
has a slash or a tilde, and leads to no secret of the kind otherwise, unless a later one happens to have that pointer.
Two refusals say the same exactly if the two ways are the same once they are cut at every slash. So they differ for
two ways of different names, as long as no name has a slash. -/
theorem secretFound_leaf_iff (h : parse 0 texts = .ok layers) (hrefused : ofTexts texts = .error (.secretFound leaf kind))
    (ho : parse 0 others = .ok otherLayers) (horefused : ofTexts others = .error (.secretFound otherLeaf otherKind)) :
    ∃ path otherPath, First (merge layers).SecretAt path kind ∧ First (merge otherLayers).SecretAt otherPath otherKind ∧
      (leaf = pointerTo path ↔ Plain path) ∧
      ((∃ s, Pointer.resolve (merge layers) leaf = some (.string s) ∧ SecretKind.ofText? s = some kind) ↔
        Plain path ∨ ∃ later, List.Lex Step.Before path later ∧ (merge layers).SecretAt later kind ∧
          leaf = pointerTo later) ∧
      (leaf = otherLeaf ↔ pieces path = pieces otherPath) ∧
      ((∀ s ∈ path ++ otherPath, '/' ∉ s.text.toList) →
        (leaf = otherLeaf ↔ path.map Step.text = otherPath.map Step.text)) := by
  obtain ⟨path, rfl, hfirst⟩ := (guard_misses_no_leaf h).2.1 leaf kind hrefused
  obtain ⟨otherPath, rfl, hofirst⟩ := (guard_misses_no_leaf ho).2.1 otherLeaf otherKind horefused
  refine ⟨path, otherPath, hfirst, hofirst, pathAfter_eq_pointerTo_iff, ?_, pathAfter_inj_iff, fun hslash => ?_⟩
  · rw [resolve_secret_iff (canonical_merge (canonical_of_parse h))]
    constructor
    · rintro ⟨later, hsecret, hleaf⟩
      rcases hfirst.first hsecret with rfl | hlater
      · exact .inl (pathAfter_eq_pointerTo_iff.1 hleaf)
      · exact .inr ⟨later, hlater, hsecret, hleaf⟩
    · rintro (hplain | ⟨later, -, hsecret, hleaf⟩)
      · exact ⟨path, hfirst.found, pathAfter_eq_pointerTo_iff.2 hplain⟩
      · exact ⟨later, hsecret, hleaf⟩
  · rw [List.forall_mem_append] at hslash
    rw [pathAfter_inj_iff, pieces_of_no_slash hslash.1, pieces_of_no_slash hslash.2]
    have htexts : ∀ path : List Step, path.map (·.text.toList) = (path.map Step.text).map String.toList := by simp
    rw [htexts, htexts]
    exact (List.map_injective_iff.2 fun a b => String.toList_inj.1).eq_iff

/-- Two items of a list, told apart by what is said of them. -/
theorem secretFound_leaf_iff_two_items :
    let texts := ["keys:\n  - 1\n  - id: sk-0123456789abcdef\n"]
    let others := ["keys:\n  - id: sk-0123456789abcdef\n"]
    ∃ layers otherLayers path otherPath, parse 0 texts = .ok layers ∧ parse 0 others = .ok otherLayers ∧
      First (merge layers).SecretAt path .apiKey ∧ ofTexts texts = .error (.secretFound "/keys/1/id" .apiKey) ∧
      First (merge otherLayers).SecretAt otherPath .apiKey ∧ ofTexts others = .error (.secretFound "/keys/0/id" .apiKey) ∧
      pieces path ≠ pieces otherPath ∧
      ∃ s, Pointer.resolve (merge layers) "/keys/1/id" = some (.string s) ∧ SecretKind.ofText? s = some .apiKey := by
  intro texts others
  have hparse : parse 0 texts =
      .ok [object [("keys", array [.natural 1, object [("id", string "sk-0123456789abcdef")]])]] := by decide +kernel
  have hother : parse 0 others =
      .ok [object [("keys", array [object [("id", string "sk-0123456789abcdef")]])]] := by decide +kernel
  have hrefused : ofTexts texts = .error (.secretFound "/keys/1/id" .apiKey) :=
    (ofTexts_of_parse hparse).trans (ofLayers_of_find (by decide +kernel))
  have horefused : ofTexts others = .error (.secretFound "/keys/0/id" .apiKey) :=
    (ofTexts_of_parse hother).trans (ofLayers_of_find (by decide +kernel))
  obtain ⟨path, otherPath, hfirst, hofirst, -, -, hpieces, -⟩ :=
    secretFound_leaf_iff hparse hrefused hother horefused
  refine ⟨_, _, path, otherPath, hparse, hother, hfirst, hrefused, hofirst, horefused, ?_, ?_⟩
  · exact fun heq => absurd (hpieces.2 heq) (by decide)
  · exact ⟨"sk-0123456789abcdef", by decide +kernel, by decide +kernel⟩

theorem secretAt_singleton {v : Json} {name : String} {path : List Step} :
    SecretAt (object [(name, v)]) path kind ↔ ∃ rest, path = .member name :: rest ∧ v.SecretAt rest kind := by
  rw [secretAt_iff_below (by simp)]
  simp [SecretBelow, children]

/-- A secret under a name with a slash: the refusal points nowhere, and says the same of a secret one level deeper. -/
theorem secretFound_leaf_slash :
    let secret := string "sk-0123456789abcdef"
    let texts := ["a/b: sk-0123456789abcdef\n"]
    let others := ["a:\n  b: sk-0123456789abcdef\n"]
    ∃ layers otherLayers, parse 0 texts = .ok layers ∧ parse 0 others = .ok otherLayers ∧
      merge layers = object [("a/b", secret)] ∧ First (merge layers).SecretAt [.member "a/b"] .apiKey ∧
      merge otherLayers = object [("a", object [("b", secret)])] ∧
      First (merge otherLayers).SecretAt [.member "a", .member "b"] .apiKey ∧
      ofTexts texts = .error (.secretFound "/a/b" .apiKey) ∧ ofTexts others = .error (.secretFound "/a/b" .apiKey) ∧
      Pointer.resolve (merge layers) "/a/b" = none := by
  intro secret texts others
  have hparse : parse 0 texts = .ok [object [("a/b", secret)]] := by decide +kernel
  have hother : parse 0 others = .ok [object [("a", object [("b", secret)])]] := by decide +kernel
  have hkind : SecretKind.ofText? "sk-0123456789abcdef" = some .apiKey := by decide +kernel
  have hmerge : merge [object [("a/b", secret)]] = object [("a/b", secret)] := by decide +kernel
  have homerge : merge [object [("a", object [("b", secret)])]] = object [("a", object [("b", secret)])] := by
    decide +kernel
  refine ⟨_, _, hparse, hother, hmerge, ?_, homerge, ?_, (ofTexts_of_parse hparse).trans (ofLayers_of_find ?_),
    (ofTexts_of_parse hother).trans (ofLayers_of_find ?_), ?_⟩
  · rw [hmerge]
    refine ⟨by simp [secretAt_singleton, secret, secretAt_string, hkind], fun hother => .inl ?_⟩
    obtain ⟨rest, rfl, hrest⟩ := secretAt_singleton.1 hother
    rw [(secretAt_string.1 hrest).1]
  · rw [homerge]
    refine ⟨by simp [secretAt_singleton, secret, secretAt_string, hkind], fun hother => .inl ?_⟩
    obtain ⟨_, rfl, hbelow⟩ := secretAt_singleton.1 hother
    obtain ⟨_, rfl, hrest⟩ := secretAt_singleton.1 hbelow
    rw [(secretAt_string.1 hrest).1]
  all_goals decide +kernel

end TableEscrow.LayeredConfig
