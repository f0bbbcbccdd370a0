import TableEscrow.Proofs.Leaves
/-!
# What the secret guard finds

The guard finds the first secret of a document, in document order, and finds none only if there is
none (`answers_findSecret?`). So nothing that a layer says gets past it unless a later layer covers it
(`guard_misses_no_leaf`). What it reports depends on no text beyond what the text looks like
(`findSecret?_of_alike`), so a refusal says nothing about a secret but its kind and its place
(`refusal_reveals_kind_only`).
-/

namespace TableEscrow.Json

variable {v w : Json} {path : List Step} {kind : SecretKind} {start leaf : String}

/-- A path leads to a text that looks like a secret. -/
def SecretAt (v : Json) (path : List Step) (kind : SecretKind) : Prop :=
  ∃ s, v.Leads path (.string s) ∧ SecretKind.ofText? s = some kind

/-- A secret that all others come after. -/
structure First (secret : List Step → SecretKind → Prop) (path : List Step) (kind : SecretKind) : Prop where
  found : secret path kind
  first : ∀ {other otherKind}, secret other otherKind → other = path ∨ List.Lex Step.Before path other

/-! ## The search -/

/-- What a search answers for the values one step down. -/
def searchEach (start : String) (vs : List (Step × Json)) : Option (String × SecretKind) :=
  vs.findSome? fun c => c.2.findSecret? (start ++ "/" ++ c.1.text)

theorem searchEach_cons (start : String) (c : Step × Json) (vs : List (Step × Json)) :
    searchEach start (c :: vs) = (c.2.findSecret? (start ++ "/" ++ c.1.text)).or (searchEach start vs) := by
  rw [searchEach, List.findSome?_cons]
  cases c.2.findSecret? (start ++ "/" ++ c.1.text) <;> rfl

theorem findSecretMember?_eq (start : String) (members : List (String × Json)) :
    findSecretMember? start members = searchEach start (members.map fun m => (.member m.1, m.2)) := by
  induction members with
  | nil => rfl
  | cons m rest ih =>
    rw [findSecretMember?, ih, List.map_cons, searchEach_cons]
    rfl

theorem findSecretItem?_eq (start : String) (index : Nat) (items : List Json) :
    findSecretItem? start index items = searchEach start ((items.zipIdx index).map fun v => (.item v.2, v.1)) := by
  induction items generalizing index with
  | nil => rfl
  | cons v rest ih =>
    rw [findSecretItem?, ih, List.zipIdx_cons, List.map_cons, searchEach_cons]
    rfl

/-- The answer of a search is the first of the secrets that there are, and none only if there are none. -/
def Answers (secret : List Step → SecretKind → Prop) (start : String) : Option (String × SecretKind) → Prop
  | none => ∀ path kind, ¬ secret path kind
  | some (leaf, kind) => ∃ path, leaf = pathAfter start path ∧ First secret path kind

/-- A secret below one of the values one step down. -/
def SecretBelow (vs : List (Step × Json)) (path : List Step) (kind : SecretKind) : Prop :=
  ∃ s w rest, path = s :: rest ∧ (s, w) ∈ vs ∧ w.SecretAt rest kind

theorem secretAt_iff_below (h : ∀ s, v ≠ .string s) : v.SecretAt path kind ↔ SecretBelow v.children path kind := by
  constructor
  · rintro ⟨s, hleads, hkind⟩
    cases hleads with
    | here => exact absurd rfl (h s)
    | step hs hw => exact ⟨_, _, _, rfl, hs, s, hw, hkind⟩
  · rintro ⟨s, w, rest, rfl, hs, text, hw, hkind⟩
    exact ⟨text, .step hs hw, hkind⟩

theorem answers_searchEach {vs : List (Step × Json)} (hvs : vs.Pairwise fun a b => a.1.Before b.1)
    (each : ∀ c ∈ vs, ∀ start, Answers c.2.SecretAt start (c.2.findSecret? start)) (start : String) :
    Answers (SecretBelow vs) start (searchEach start vs) := by
  induction vs with
  | nil =>
    rintro path kind ⟨s, w, rest, -, hmem, -⟩
    cases hmem
  | cons c vs ih =>
    obtain ⟨s, v⟩ := c
    obtain ⟨hs, hrest⟩ := List.pairwise_cons.1 hvs
    have hv := each (s, v) List.mem_cons_self (start ++ "/" ++ s.text)
    have hlater := ih hrest fun c hc => each c (List.mem_cons_of_mem _ hc)
    rw [searchEach_cons]
    cases hfound : v.findSecret? (start ++ "/" ++ s.text) with
    | some found =>
      obtain ⟨leaf, kind⟩ := found
      rw [hfound] at hv
      obtain ⟨path, hleaf, hsecret, hfirst⟩ := hv
      refine ⟨s :: path, hleaf, ⟨s, v, path, rfl, List.mem_cons_self, hsecret⟩, ?_⟩
      rintro other otherKind ⟨t, w, rest, rfl, hmem, hother⟩
      rcases List.mem_cons.1 hmem with heq | hmem
      · cases heq
        exact (hfirst hother).imp (congrArg _) .cons
      · exact .inr (.rel (hs _ hmem))
    | none =>
      rw [hfound] at hv
      -- Nothing is below the first value, so the secrets are those below the others.
      have hbelow : SecretBelow ((s, v) :: vs) = SecretBelow vs := by
        funext path kind
        refine propext ⟨?_, fun ⟨t, w, rest, hpath, hmem, hsecret⟩ =>
          ⟨t, w, rest, hpath, List.mem_cons_of_mem _ hmem, hsecret⟩⟩
        rintro ⟨t, w, rest, hpath, hmem, hsecret⟩
        rcases List.mem_cons.1 hmem with heq | hmem
        · cases heq
          exact absurd hsecret (hv rest kind)
        · exact ⟨t, w, rest, hpath, hmem, hsecret⟩
      rw [hbelow]
      exact hlater

theorem secretAt_string {s : String} : SecretAt (.string s) path kind ↔ path = [] ∧ SecretKind.ofText? s = some kind := by
  constructor
  · rintro ⟨text, hleads, hkind⟩
    cases hleads with
    | here => exact ⟨rfl, hkind⟩
    | step hs => cases hs
  · rintro ⟨rfl, hkind⟩
    exact ⟨s, .here _, hkind⟩

/-- The search finds the first secret, and misses none. -/
theorem answers_findSecret? (h : v.Canonical) (start : String) : Answers v.SecretAt start (v.findSecret? start) := by
  have hbelow : ∀ {v : Json}, (∀ s, v ≠ .string s) → v.SecretAt = SecretBelow v.children :=
    fun hv => funext fun _ => funext fun _ => propext (secretAt_iff_below hv)
  induction h generalizing start with
  | null | bool | number =>
    rw [hbelow (by simp)]
    exact answers_searchEach .nil (by simp) start
  | string s =>
    rw [findSecret?]
    cases hkind : SecretKind.ofText? s with
    | none =>
      intro path kind hsecret
      rw [secretAt_string, hkind] at hsecret
      cases hsecret.2
    | some kind =>
      refine ⟨[], rfl, secretAt_string.2 ⟨rfl, hkind⟩, fun hother => ?_⟩
      exact .inl (secretAt_string.1 hother).1
  | array each ih =>
    rw [hbelow (by simp), findSecret?, findSecretItem?_eq]
    refine answers_searchEach (ascending_children (.array each)) (fun c hc => ?_) start
    obtain ⟨index, -, hindex⟩ := mem_children_array.1 hc
    exact ih c.2 (List.mem_of_getElem? hindex)
  | object ascending each ih =>
    rw [hbelow (by simp), findSecret?, findSecretMember?_eq]
    refine answers_searchEach (ascending_children (.object ascending each)) (fun c hc => ?_) start
    obtain ⟨name, -, hmem⟩ := mem_children_object.1 hc
    exact ih (name, c.2) hmem

/-! ## Documents that differ in secrets only -/

/-- Two documents with the same names, the same lengths of arrays and the same leaves, but for texts
that look like the same kind of secret or both like none. -/
inductive Alike : Json → Json → Prop
  | null : Alike .null .null
  | bool (b : Bool) : Alike (.bool b) (.bool b)
  | number (n : Number) : Alike (.number n) (.number n)
  | string {s t : String} (h : SecretKind.ofText? s = SecretKind.ofText? t) : Alike (.string s) (.string t)
  | array {items others : List Json} (h : List.Forall₂ Alike items others) : Alike (.array items) (.array others)
  | object {members others : List (String × Json)} (names : members.map (·.1) = others.map (·.1))
      (h : List.Forall₂ (fun m o => Alike m.2 o.2) members others) : Alike (.object members) (.object others)

mutual

theorem findSecret?_of_alike (start : String) : ∀ {v w : Json}, v.Alike w → v.findSecret? start = w.findSecret? start
  | .null, _, h => by cases h; rfl
  | .bool _, _, h => by cases h; rfl
  | .number _, _, h => by cases h; rfl
  | .string s, _, h => by
    cases h with
    | string hkind => rw [findSecret?, findSecret?, hkind]
  | .array items, _, h => by
    cases h with
    | array hitems => rw [findSecret?, findSecret?, findSecretItem?_of_alike start 0 hitems]
  | .object members, _, h => by
    cases h with
    | object hnames hmembers => rw [findSecret?, findSecret?, findSecretMember?_of_alike start hnames hmembers]

theorem findSecretItem?_of_alike (start : String) (index : Nat) : ∀ {items others : List Json},
    List.Forall₂ Alike items others → findSecretItem? start index items = findSecretItem? start index others
  | [], _, h => by cases h; rfl
  | v :: rest, _, h => by
    cases h with
    | cons hv hrest =>
      rw [findSecretItem?, findSecretItem?, findSecret?_of_alike _ hv, findSecretItem?_of_alike start (index + 1) hrest]

theorem findSecretMember?_of_alike (start : String) : ∀ {members others : List (String × Json)},
    members.map (·.1) = others.map (·.1) → List.Forall₂ (fun m o => Alike m.2 o.2) members others →
      findSecretMember? start members = findSecretMember? start others
  | [], _, _, h => by cases h; rfl
  | (name, v) :: rest, _, hnames, h => by
    cases h with
    | @cons _ other _ _ hv hrest =>
      obtain ⟨_, w⟩ := other
      obtain ⟨rfl, hlater⟩ := List.cons.inj hnames
      rw [findSecretMember?, findSecretMember?, findSecret?_of_alike _ hv, findSecretMember?_of_alike start hlater hrest]

end

end TableEscrow.Json

namespace TableEscrow.LayeredConfig

open Json

variable {texts others : List String} {layers otherLayers : List Json}

/-- Loading ends with a secret that was found. -/
def Refused (texts : List String) : Prop := ∃ leaf kind, ofTexts texts = .error (.secretFound leaf kind)

theorem ofTexts_of_parse (h : parse 0 texts = .ok layers) : ofTexts texts = ofLayers layers := by
  rw [ofTexts, h]
  rfl

theorem ofLayers_of_find {leaf : String} {kind : SecretKind} (h : (merge layers).findSecret? "" = some (leaf, kind)) :
    ofLayers layers = .error (.secretFound leaf kind) := by
  simp only [ofLayers, h]

theorem ofLayers_of_not_find (h : (merge layers).findSecret? "" = none) :
    ofLayers layers = .ok (ofDocument (merge layers)) := by
  simp only [ofLayers, h]

/-- Loading ends with the first secret of what the layers make, or with that document, which then
holds none. -/
theorem ofLayers_cases (h : ∀ l ∈ layers, l.Canonical) :
    (∃ path kind, First (merge layers).SecretAt path kind ∧
      ofLayers layers = .error (.secretFound (pathAfter "" path) kind)) ∨
    (∀ path kind, ¬ (merge layers).SecretAt path kind) ∧ ofLayers layers = .ok (ofDocument (merge layers)) := by
  have hanswers := answers_findSecret? (canonical_merge h) ""
  cases hfound : (merge layers).findSecret? "" with
  | none =>
    rw [hfound] at hanswers
    exact .inr ⟨hanswers, ofLayers_of_not_find hfound⟩
  | some found =>
    obtain ⟨leaf, kind⟩ := found
    rw [hfound] at hanswers
    obtain ⟨path, rfl, hfirst⟩ := hanswers
    exact .inl ⟨path, kind, hfirst, ofLayers_of_find hfound⟩

theorem refused_iff (h : parse 0 texts = .ok layers) :
    Refused texts ↔ ∃ path kind, (merge layers).SecretAt path kind := by
  rw [Refused, ofTexts_of_parse h]
  rcases ofLayers_cases (canonical_of_parse h) with ⟨path, kind, hfirst, hrefused⟩ | ⟨hnone, hloaded⟩
  · exact iff_of_true ⟨_, _, hrefused⟩ ⟨path, kind, hfirst.found⟩
  · refine iff_of_false ?_ fun ⟨path, kind, hsecret⟩ => hnone path kind hsecret
    rintro ⟨leaf, kind, hrefused⟩
    rw [hloaded] at hrefused
    cases hrefused

/-- Loading is refused exactly if a secret is somewhere in what the layers make, and the first one in
the document is named. A secret of the last layer that is no empty one always is; a secret of an
earlier layer is, unless a later layer covers it. -/
theorem guard_misses_no_leaf (h : parse 0 texts = .ok layers) :
    (Refused texts ↔ ∃ path kind, (merge layers).SecretAt path kind) ∧
    (∀ leaf kind, ofTexts texts = .error (.secretFound leaf kind) →
      ∃ path, leaf = pathAfter "" path ∧ First (merge layers).SecretAt path kind) ∧
    ∀ before layer after path kind, layers = before ++ layer :: after → layer.SecretAt path kind →
      ((∀ l ∈ after, l = .null) → Refused texts) ∧
      (¬ (merge layers).SecretAt path kind → ∃ l ∈ after, l ≠ .null ∧ l.Covers (names path)) := by
  have hcanonical := canonical_of_parse h
  refine ⟨refused_iff h, fun leaf kind hrefused => ?_, ?_⟩
  · rw [ofTexts_of_parse h] at hrefused
    rcases ofLayers_cases hcanonical with ⟨path, _, hfirst, hfound⟩ | ⟨-, hloaded⟩
    · rw [hfound] at hrefused
      cases hrefused
      exact ⟨path, rfl, hfirst⟩
    · rw [hloaded] at hrefused
      cases hrefused
  · rintro before layer after path kind rfl ⟨s, hleads, hkind⟩
    refine ⟨fun hnull => ?_, fun hgone => ?_⟩
    · have hkept := leads_merge hcanonical hleads fun l hl hne => absurd (hnull l hl) hne
      exact (refused_iff h).2 ⟨path, kind, s, hkept, hkind⟩
    · by_contra huncovered
      refine hgone ⟨s, leads_merge hcanonical hleads fun l hl hne hcovers => ?_, hkind⟩
      exact huncovered ⟨l, hl, hne, hcovers⟩

/-- An address that a later layer puts a text in place of is gone, and a key in a list of the last layer
that is no empty one is found. -/
theorem guard_misses_no_leaf_covered_address :
    let texts := ["db:\n  url: postgres://u:p@h/d\n", "db: off\nkeys:\n  - 1\n  - id: sk-0123456789abcdef\n", ""]
    let first := object [("db", object [("url", string "postgres://u:p@h/d")])]
    let second := object [("db", string "off"),
      ("keys", array [.natural 1, object [("id", string "sk-0123456789abcdef")]])]
    parse 0 texts = .ok ([] ++ first :: [second, .null]) ∧
      first.SecretAt [.member "db", .member "url"] .databaseUrl ∧ second.Covers ["db", "url"] ∧
      second.SecretAt [.member "keys", .item 1, .member "id"] .apiKey ∧ Refused texts := by
  intro texts first second
  have hparse : parse 0 texts = .ok ([] ++ first :: [second, .null]) := by decide +kernel
  have haddress : first.SecretAt [.member "db", .member "url"] .databaseUrl :=
    ⟨_, .step List.mem_cons_self (.step List.mem_cons_self (.here _)), by decide +kernel⟩
  have hkey : second.SecretAt [.member "keys", .item 1, .member "id"] .apiKey :=
    ⟨_, .step (List.mem_cons_of_mem _ List.mem_cons_self)
      (.step (List.mem_cons_of_mem _ List.mem_cons_self) (.step List.mem_cons_self (.here _))), by decide +kernel⟩
  obtain ⟨-, -, hlayer⟩ := guard_misses_no_leaf hparse
  have hgone : ¬ (merge ([] ++ first :: [second, .null])).SecretAt [.member "db", .member "url"] .databaseUrl := by
    rintro ⟨s, hleads, -⟩
    obtain ⟨w, hw, -⟩ := (leads_iff_at? (by decide +kernel)).1 hleads
    have hnone : (merge ([] ++ first :: [second, .null])).at? ["db", "url"] = none := by decide +kernel
    cases hw.symm.trans hnone
  obtain ⟨l, hl, hne, hcovers⟩ := (hlayer [] first [second, .null] _ _ rfl haddress).2 hgone
  have hsecond : l = second := by simpa [hne] using hl
  exact ⟨hparse, haddress, hsecond ▸ hcovers, hkey, (hlayer [first] second [.null] _ _ rfl hkey).1 (by simp)⟩

/-- Two configurations that make documents alike but for their secrets are both loaded, or are refused
in the same words: a refusal tells where the first secret is and what kind it is of. -/
theorem refusal_reveals_kind_only (h : parse 0 texts = .ok layers) (ho : parse 0 others = .ok otherLayers)
    (halike : (merge layers).Alike (merge otherLayers)) :
    (∃ c o, ofTexts texts = .ok c ∧ ofTexts others = .ok o) ∨
    ∃ path kind e, First (merge layers).SecretAt path kind ∧ ofTexts texts = .error e ∧ ofTexts others = .error e ∧
      e.message = "CONFIG_SECRET_DETECTED leaf=" ++ pathAfter "" path ++ " kind=" ++ kind.name ++ " value=REDACTED" := by
  have hsame := findSecret?_of_alike "" halike
  have hanswers := answers_findSecret? (canonical_merge (canonical_of_parse h)) ""
  rw [ofTexts_of_parse h, ofTexts_of_parse ho]
  cases hfound : (merge layers).findSecret? "" with
  | none => exact .inl ⟨_, _, ofLayers_of_not_find hfound, ofLayers_of_not_find (hsame ▸ hfound)⟩
  | some found =>
    obtain ⟨leaf, kind⟩ := found
    rw [hfound] at hanswers
    obtain ⟨path, rfl, hfirst⟩ := hanswers
    exact .inr ⟨path, kind, _, hfirst, ofLayers_of_find hfound, ofLayers_of_find (hsame ▸ hfound), rfl⟩

/-- Of two keys nothing is told but where they are. -/
theorem refusal_reveals_kind_only_two_keys :
    let texts := ["oracle:\n  api_key_env: sk-live-abc123secretvalue\n"]
    let others := ["oracle:\n  api_key_env: sk_test_another0001\n"]
    ∃ layers otherLayers e, parse 0 texts = .ok layers ∧ parse 0 others = .ok otherLayers ∧
      (merge layers).Alike (merge otherLayers) ∧ ofTexts texts = .error e ∧ ofTexts others = .error e ∧
      e.message = "CONFIG_SECRET_DETECTED leaf=/oracle/api_key_env kind=api_key value=REDACTED" := by
  intro texts others
  have hparse : parse 0 texts =
      .ok [object [("oracle", object [("api_key_env", string "sk-live-abc123secretvalue")])]] := by decide +kernel
  have hother : parse 0 others =
      .ok [object [("oracle", object [("api_key_env", string "sk_test_another0001")])]] := by decide +kernel
  have halike : (merge [object [("oracle", object [("api_key_env", string "sk-live-abc123secretvalue")])]]).Alike
      (merge [object [("oracle", object [("api_key_env", string "sk_test_another0001")])]]) :=
    .object rfl (.cons (.object rfl (.cons (.string (by decide +kernel)) .nil)) .nil)
  have hrefused : ofTexts texts = .error (.secretFound "/oracle/api_key_env" .apiKey) :=
    (ofTexts_of_parse hparse).trans (ofLayers_of_find (by decide +kernel))
  refine ⟨_, _, _, hparse, hother, halike, hrefused, ?_, by decide +kernel⟩
  rcases refusal_reveals_kind_only hparse hother halike with ⟨c, -, hloaded, -⟩ | ⟨_, _, e, -, herror, hsame, -⟩
  · rw [hrefused] at hloaded
    cases hloaded
  · rw [hrefused] at herror
    cases herror
    exact hsame

end TableEscrow.LayeredConfig
