import TableEscrow.Proofs.Targets
import TableEscrow.Proofs.UnusedKeys
/-!
# Where unused keys are

The report goes down a document and a shape together, and stops where they part. So what it reports is each member
that is there and unknown, below objects that are known (`UnknownAt`, `mem_below_iff`), once (`nodup_below`). In terms
of paths through the document: a pointer leads to such a member and to nothing else, no member above it is reported,
and none is left out (`reported_keys_outermost`).
-/

namespace TableEscrow.Json

variable {v w : Json} {path : List Step}

/-! ## Paths of names -/

theorem leads_members_iff (h : v.Canonical) {keys : List String} :
    v.Leads (keys.map Step.member) w ↔ v.at? keys = some w := by
  have hnames : names (keys.map Step.member) = keys ∧ afterNames (keys.map Step.member) = [] := by
    induction keys with
    | nil => exact ⟨rfl, rfl⟩
    | cons key keys ih => exact ⟨congrArg (key :: ·) ih.1, ih.2⟩
  rw [leads_iff_at? h, hnames.1, hnames.2]
  constructor
  · rintro ⟨u, hu, hend⟩
    cases hend
    exact hu
  · exact fun hw => ⟨w, hw, .here w⟩

theorem map_text_member (keys : List String) : (keys.map Step.member).map Step.text = keys := by
  simp [Function.comp_def, Step.text]

theorem eq_members_of_prefix {keys : List String} (h : path <+: keys.map Step.member) :
    path = (path.map Step.text).map Step.member := by
  have hmember : path.map (Step.member ∘ Step.text) = path.map id := by
    refine List.map_congr_left fun s hs => ?_
    obtain ⟨key, -, rfl⟩ := List.mem_map.1 (h.subset hs)
    rfl
  rw [List.map_map, hmember, List.map_id]

theorem objectAt_above {part keys : List String} (h : v.objectAt keys = true) (hpart : part <+: keys) :
    v.objectAt part = true := by
  by_cases heq : part = keys
  · exact heq ▸ h
  · refine objectAt_of_prefix hpart heq fun hnone => ?_
    rw [objectAt, hnone] at h
    cases h

theorem exists_leads_of_objectAt (hv : v.Canonical) {keys : List String} (h : v.objectAt keys = true) :
    ∃ u, v.Leads (keys.map Step.member) u ∧ u.isObject = true := by
  obtain ⟨hu, hobject⟩ := (Option.any_eq_true_iff_get _ _).1 h
  exact ⟨_, (leads_members_iff hv).2 (Option.some_get hu).symm, hobject⟩

/-- A path below objects only is one of names. -/
theorem Leads.eq_members (h : v.Canonical) (hleads : v.Leads path w)
    (habove : ∀ part, part <+: path → part ≠ path → ∃ u, v.Leads part u ∧ u.isObject = true) :
    path = (path.map Step.text).map Step.member := by
  induction hleads with
  | here v => rfl
  | @step v w _ s rest hs _ ih =>
    obtain ⟨u, hu, hobject⟩ := habove [] List.nil_prefix (by simp)
    cases hu
    obtain ⟨members, rfl⟩ := isObject_iff.1 hobject
    obtain ⟨name, rfl, -⟩ := mem_children_object.1 hs
    refine congrArg (Step.member name :: ·) (ih (h.of_child hs) fun part hpart hne => ?_)
    obtain ⟨u, hu, hobject⟩ := habove (.member name :: part) (List.cons_prefix_cons.2 ⟨rfl, hpart⟩) (by simpa using hne)
    obtain _ | ⟨hs', hu⟩ := hu
    obtain rfl := h.child_unique hs hs'
    exact ⟨u, hu, hobject⟩

end TableEscrow.Json

namespace TableEscrow.UnusedKeys

open Json

variable {g pointer : String} {v shape : Json} {names : List String}

/-! ## What the report goes by -/

/-- A member that is there and that the shape lacks, below members that it has. -/
inductive UnknownAt : Json → Json → List String → Prop
  | here {members known : List (String × Json)} {name : String} {w : Json} (hw : members.lookup name = some w)
      (hshape : known.lookup name = none) : UnknownAt (.object members) (.object known) [name]
  | deeper {members known : List (String × Json)} {name : String} {rest : List String} {w shape : Json}
      (hw : members.lookup name = some w) (hshape : known.lookup name = some shape) (h : UnknownAt w shape rest) :
      UnknownAt (.object members) (.object known) (name :: rest)

theorem mem_below_iff (hv : v.Canonical) :
    g ∈ below pointer v shape ↔ ∃ names, UnknownAt v shape names ∧ g = names.foldl Pointer.below pointer := by
  induction hv generalizing pointer shape with
  | null | bool | number | string | array =>
    refine iff_of_false (by simp [below]) ?_
    rintro ⟨names, ⟨⟩, -⟩
  | @object members ascending each ih =>
    have hlookup : ∀ {name w}, members.lookup name = some w ↔ (name, w) ∈ members :=
      Keyed.lookup_eq_some_iff_mem (Keyed.nodup_of_ascending ascending)
    cases shape with
    | null | bool | number | string | array =>
      refine iff_of_false (by simp [below]) ?_
      rintro ⟨names, ⟨⟩, -⟩
    | object known =>
      rw [below, belowMembers_eq, List.mem_flatMap]
      constructor
      · rintro ⟨m, hm, hg⟩
        unfold ofMember at hg
        split at hg
        · next hshape =>
          obtain ⟨names, hnames, rfl⟩ := (ih m hm).1 hg
          exact ⟨m.1 :: names, .deeper (hlookup.2 hm) hshape hnames, rfl⟩
        · next hshape => exact ⟨[m.1], .here (hlookup.2 hm) hshape, List.mem_singleton.1 hg⟩
      · rintro ⟨names, hnames, rfl⟩
        cases hnames with
        | @here _ _ name w hw hshape =>
          refine ⟨(name, w), hlookup.1 hw, ?_⟩
          simp [ofMember, hshape]
        | @deeper _ _ name rest w _ hw hshape hrest =>
          have hm : (name, w) ∈ members := hlookup.1 hw
          refine ⟨(name, w), hm, ?_⟩
          simpa [ofMember, hshape] using (ih (name, w) hm).2 ⟨rest, hrest, rfl⟩

theorem UnknownAt.at? (h : UnknownAt v shape names) : ∃ w, v.at? names = some w := by
  induction h with
  | @here _ _ _ w hw => exact ⟨w, by simp [Json.at?, hw]⟩
  | deeper hw _ _ ih =>
    obtain ⟨u, hu⟩ := ih
    exact ⟨u, by simp [Json.at?, hw, hu]⟩

theorem UnknownAt.ne_nil (h : UnknownAt v shape names) : names ≠ [] := by
  cases h <;> simp

/-- Below an unknown member, nothing is unknown. -/
theorem UnknownAt.outermost {more : List String} (h : UnknownAt v shape names)
    (hmore : UnknownAt v shape (names ++ more)) : more = [] := by
  induction h with
  | here _ hshape =>
    cases hmore with
    | here => rfl
    | deeper _ hshape' => cases hshape.symm.trans hshape'
  | deeper hw hshape h ih =>
    generalize hnames : _ ++ more = all at hmore
    cases hmore with
    | here _ hshape' =>
      obtain ⟨rfl, -⟩ := List.cons.inj hnames
      cases hshape.symm.trans hshape'
    | deeper hw' hshape' hmore =>
      obtain ⟨rfl, rfl⟩ := List.cons.inj hnames
      cases hw.symm.trans hw'
      cases hshape.symm.trans hshape'
      exact ih hmore

theorem unknownAt_concat_iff {above : List String} {name : String} : UnknownAt v shape (above ++ [name]) ↔
    v.at? (above ++ [name]) ≠ none ∧ shape.objectAt above = true ∧ shape.at? (above ++ [name]) = none := by
  induction above generalizing v shape with
  | nil =>
    constructor
    · rintro (⟨hw, hshape⟩ | ⟨-, -, ⟨⟩⟩)
      exact ⟨by simp [Json.at?, hw], rfl, by simp [Json.at?, hshape]⟩
    · rintro ⟨hw, hobject, hshape⟩
      obtain ⟨known, rfl⟩ := isObject_iff.1 (by simpa [objectAt, Json.at?] using hobject)
      cases v with
      | null | bool | number | string | array => exact absurd rfl hw
      | object members =>
        obtain ⟨w, hw⟩ := Option.ne_none_iff_exists'.1 hw
        exact .here (w := w) (by simpa [Json.at?] using hw) (by simpa [Json.at?] using hshape)
  | cons first above ih =>
    constructor
    · intro h
      generalize hnames : first :: above ++ [name] = names at h
      cases h with
      | here => simp at hnames
      | deeper hw hshape h =>
        obtain ⟨rfl, rfl⟩ := List.cons.inj hnames
        simpa [Json.at?, objectAt, hw, hshape] using ih.1 h
    · rintro ⟨hw, hobject, hshape⟩
      cases v with
      | null | bool | number | string | array => exact absurd rfl hw
      | object members =>
        cases shape with
        | null | bool | number | string | array => simp [objectAt, Json.at?] at hobject
        | object known =>
          cases hfirst : members.lookup first with
          | none => simp [Json.at?, hfirst] at hw
          | some w =>
            cases hknown : known.lookup first with
            | none => simp [objectAt, Json.at?, hknown] at hobject
            | some s =>
              refine .deeper hfirst hknown (ih.2 ⟨?_, ?_, ?_⟩)
              · simpa [Json.at?, hfirst] using hw
              · simpa [objectAt, Json.at?, hknown] using hobject
              · simpa [Json.at?, hknown] using hshape

theorem nodup_below (hv : v.Canonical) : (below pointer v shape).Nodup := by
  induction hv generalizing pointer shape with
  | null | bool | number | string | array => simp [below]
  | @object members ascending each ih =>
    cases shape with
    | null | bool | number | string | array => simp [below]
    | object known =>
      rw [below, belowMembers_eq, List.nodup_flatMap]
      refine ⟨fun m hm => ?_, ascending.imp fun {a b} hlt => ?_⟩
      · unfold ofMember
        split
        · exact ih m hm
        · exact List.nodup_singleton _
      · intro g ha hb
        have hname : a.1 = b.1 := Pointer.eq_of_beyond (beyond_of_mem_ofMember ha) (beyond_of_mem_ofMember hb)
        rw [hname] at hlt
        exact String.lt_irrefl _ hlt

/-! ## What is reported for a role -/

variable {d : Json} {role : Role} {path : List Step}

theorem at?_sections (role : Role) (top : String) (rest : List String) :
    (Json.object role.sections).at? (top :: rest) = if role.reads top then Config.shape.at? (top :: rest) else none := by
  obtain ⟨known, hshape⟩ := isObject_iff.1 (show Config.shape.isObject = true from rfl)
  simp only [Role.sections, hshape, Json.at?, Keyed.lookup_filter_name]
  split <;> rfl

theorem mem_keys_iff (hd : d.Canonical) (hobject : d.isObject = true) : g ∈ (ofDocument role d).keys ↔
    ∃ names, UnknownAt d (.object role.sections) names ∧ g = Pointer.ofKeys names := by
  obtain ⟨members, rfl⟩ := isObject_iff.1 hobject
  rw [keys_ofDocument, List.mem_mergeSort, mem_below_iff hd]
  rfl

theorem pairwise_mergeSort_le (texts : List String) : (texts.mergeSort (· ≤ ·)).Pairwise (· ≤ ·) := by
  refine List.Pairwise.imp (by simp) (List.pairwise_mergeSort ?_ ?_ _)
  · exact fun a b c hab hbc => by simpa using String.le_trans (by simpa using hab) (by simpa using hbc)
  · exact fun a b => by simpa using String.le_total a b

theorem ascending_keys (hd : d.Canonical) (hobject : d.isObject = true) (role : Role) :
    (ofDocument role d).keys.Pairwise (· < ·) := by
  obtain ⟨members, rfl⟩ := isObject_iff.1 hobject
  rw [keys_ofDocument]
  have hnodup : ((below "" (.object members) (.object role.sections)).mergeSort (· ≤ ·)).Nodup :=
    (List.mergeSort_perm _ _).nodup_iff.2 (nodup_below hd)
  refine (pairwise_mergeSort_le _).imp₂ (fun {a b} hab hne => ?_) hnodup
  exact String.not_le.1 fun hba => hne (String.le_antisymm hab hba)

theorem keys_eq_of_perm {members : List (String × Json)} {keys : List String}
    (h : (below "" (.object members) (.object role.sections)).Perm keys) (ascending : keys.Pairwise (· ≤ ·)) :
    (ofDocument role (.object members)).keys = keys := by
  rw [keys_ofDocument]
  refine List.Perm.eq_of_pairwise (fun a b _ _ => String.le_antisymm) (pairwise_mergeSort_le _) ascending ?_
  exact (List.mergeSort_perm _ _).trans h

/-- What is there is reported as the names it stands below say. -/
theorem pointerTo_mem_keys_iff (hd : d.Canonical) (hobject : d.isObject = true) (hleads : d.Leads path v) :
    pointerTo path ∈ (ofDocument role d).keys ↔
      ∃ names, path = names.map Step.member ∧ UnknownAt d (.object role.sections) names := by
  rw [mem_keys_iff hd hobject]
  constructor
  · rintro ⟨names, hunknown, hpointer⟩
    obtain ⟨w, hw⟩ := hunknown.at?
    refine ⟨names, eq_of_pointerTo hd hleads ((leads_members_iff hd).2 hw) ?_, hunknown⟩
    rw [hpointer, pointerTo, map_text_member]
  · rintro ⟨names, rfl, hunknown⟩
    exact ⟨names, hunknown, by rw [pointerTo, map_text_member]⟩

theorem unknownAt_top_iff {name : String} : UnknownAt d (.object role.sections) [name] ↔
    d.at? [name] ≠ none ∧ (Config.shape.at? [name] = none ∨ role.reads name = false) := by
  rw [← List.nil_append [name], unknownAt_concat_iff, List.nil_append, at?_sections]
  cases hreads : role.reads name <;> simp [objectAt, Json.at?, isObject]

theorem unknownAt_deeper_iff {top name : String} {more : List String} :
    UnknownAt d (.object role.sections) (top :: more ++ [name]) ↔ d.at? (top :: more ++ [name]) ≠ none ∧
      role.reads top = true ∧ Config.shape.objectAt (top :: more) = true ∧
        Config.shape.at? (top :: more ++ [name]) = none := by
  rw [unknownAt_concat_iff, objectAt, objectAt, List.cons_append, at?_sections, at?_sections]
  cases hreads : role.reads top <;> simp

/-- Where the unused keys of a document are. -/
structure Outermost (role : Role) (d : Json) (keys : List String) : Prop where
  ascending : keys.Pairwise (· < ·)
  /-- Each leads through objects to a member. -/
  sound : ∀ p ∈ keys, ∃ names v, Pointer.keys? p = some names ∧ names ≠ [] ∧ d.at? names = some v ∧
    Pointer.resolve d p = some v
  top_iff : ∀ name v, d.Leads [.member name] v →
    (pointerTo [.member name] ∈ keys ↔ Config.shape.at? [name] = none ∨ role.reads name = false)
  deeper_iff : ∀ top more name v, d.Leads (top :: more ++ [.member name]) v →
    (pointerTo (top :: more ++ [.member name]) ∈ keys ↔ role.reads top.text = true ∧
      (∀ part, part <+: top :: more → (∃ u, d.Leads part u ∧ u.isObject = true) ∧
        Config.shape.objectAt (part.map Step.text) = true) ∧
      Config.shape.at? ((top :: more).map Step.text ++ [name]) = none)
  /-- None leads below another. -/
  apart : ∀ names more, Pointer.ofKeys names ∈ keys → Pointer.ofKeys (names ++ more) ∈ keys → more = []

theorem outermost_keys (hd : d.Canonical) (hobject : d.isObject = true) (role : Role) :
    Outermost role d (ofDocument role d).keys where
  ascending := ascending_keys hd hobject role
  sound := by
    intro p hp
    obtain ⟨names, hunknown, rfl⟩ := (mem_keys_iff hd hobject).1 hp
    obtain ⟨w, hw⟩ := hunknown.at?
    refine ⟨names, w, Pointer.keys?_eq_some_iff.2 rfl, hunknown.ne_nil, hw, ?_⟩
    exact (resolve_eq_some_iff hd).2 ⟨_, (leads_members_iff hd).2 hw, by rw [pointerTo, map_text_member]⟩
  top_iff := by
    intro name v hleads
    rw [pointerTo_mem_keys_iff hd hobject hleads]
    have hat : d.at? [name] = some v := (leads_members_iff hd).1 hleads
    have hthere : d.at? [name] ≠ none := hat ▸ Option.some_ne_none v
    constructor
    · rintro ⟨names, hpath, hunknown⟩
      obtain rfl : [name] = names := by rw [← map_text_member names, ← hpath]; rfl
      exact (unknownAt_top_iff.1 hunknown).2
    · exact fun h => ⟨[name], rfl, unknownAt_top_iff.2 ⟨hthere, h⟩⟩
  deeper_iff := by
    intro top more name v hleads
    rw [pointerTo_mem_keys_iff hd hobject hleads]
    constructor
    · rintro ⟨names, hpath, hunknown⟩
      -- The path is one of names, and both the document and the shape have objects above its end.
      have hnames : (top :: more).map Step.text ++ [name] = names := by
        rw [← map_text_member names, ← hpath, List.map_append]
        rfl
      subst hnames
      obtain ⟨hthere, hreads, hobject, hshape⟩ := unknownAt_deeper_iff.1 hunknown
      have hobject' : d.objectAt ((top :: more).map Step.text) = true :=
        objectAt_of_prefix (List.prefix_append _ [name]) (by simp) hthere
      refine ⟨hreads, fun part hpart => ?_, hshape⟩
      have hmembers : part = (part.map Step.text).map Step.member :=
        eq_members_of_prefix (hpath ▸ hpart.trans (List.prefix_append _ _))
      refine ⟨?_, objectAt_above hobject (hpart.map _)⟩
      rw [hmembers]
      exact exists_leads_of_objectAt hd (objectAt_above hobject' (hpart.map _))
    · rintro ⟨hreads, habove, hshape⟩
      have hnames : (top :: more ++ [Step.member name]).map Step.text = top.text :: more.map Step.text ++ [name] := by
        rw [List.map_append]
        rfl
      -- Objects alone stand above, so no step is into a list.
      have hpath := hleads.eq_members hd fun part hpart hne => (habove part ?_).1
      · have hthere := (leads_members_iff hd).1 (hpath ▸ hleads)
        rw [hnames] at hpath hthere
        refine ⟨_, hpath, unknownAt_deeper_iff.2 ⟨hthere ▸ Option.some_ne_none v, hreads, ?_, hshape⟩⟩
        exact (habove (top :: more) (List.prefix_refl _)).2
      · exact (List.prefix_concat_iff.1 hpart).resolve_left hne
  apart := by
    intro names more hnames hmore
    obtain ⟨_, hunknown, heq⟩ := (mem_keys_iff hd hobject).1 hnames
    obtain rfl := Pointer.ofKeys_inj heq
    obtain ⟨_, hunknown', heq⟩ := (mem_keys_iff hd hobject).1 hmore
    obtain rfl := Pointer.ofKeys_inj heq
    exact hunknown.outermost hunknown'

theorem message_unusedKeys (role : Role) (keys : List String) : (ConfigError.unusedKeys role keys).message =
    "CONFIG_UNUSED_KEYS (role=" ++ role.name ++ ") unused=" ++ ",".intercalate keys :=
  rfl

/-- What is reported for a role are the outermost members that the configuration lacks or the role does not read, each
once and in order, by pointers that lead to them and to nothing else. No two members of a document have one pointer,
for every key is read back from its token. The report is refused exactly if it names a key, and then all of them are
said. -/
theorem reported_keys_outermost (hd : d.Canonical) (hobject : d.isObject = true) (role : Role) :
    Outermost role d (ofDocument role d).keys ∧
    (∀ key : String, Pointer.unescape (Pointer.token key).toList = key.toList) ∧
    (∀ path path' v v', d.Leads path v → d.Leads path' v' → pointerTo path = pointerTo path' → path = path') ∧
    report role d false = .ok ⟨role, (ofDocument role d).keys⟩ ∧
    (∀ e, report role d true = .error e ↔
      (ofDocument role d).keys ≠ [] ∧ e = .unusedKeys role (ofDocument role d).keys) ∧
    (ConfigError.unusedKeys role (ofDocument role d).keys).message =
      "CONFIG_UNUSED_KEYS (role=" ++ role.name ++ ") unused=" ++ ",".intercalate (ofDocument role d).keys := by
  refine ⟨outermost_keys hd hobject role, fun key => ?_, fun path path' v v' => eq_of_pointerTo hd, rfl, fun e => ?_, ?_⟩
  · rw [Pointer.token, String.toList_ofList, Pointer.unescape_escape]
  · simp only [report, isClean, Bool.true_and, Bool.not_eq_true', List.isEmpty_eq_false_iff]
    split
    · next hne => simp [hne, eq_comm]
    · next hnil => simp [hnil]
  · exact message_unusedKeys role _

/-- Keys with a slash, with a tilde and with what a slash is written as; a key inside a list and one below a number
are not for the report. -/
theorem reported_keys_outermost_slashes :
    let d := Json.object [("bus", .object [("x", .null)]),
      ("gateway", .object [("a/b", .null), ("a~1b", .object [("c", .null)]),
        ("base_url", .object [("x", .null)])]),
      ("reconcile", .object [("thresholds", .array [.object [("x", .null)]]), ("~", .null)])]
    let keys := ["/bus", "/gateway/a~01b", "/gateway/a~1b", "/reconcile/~0"]
    (ofDocument .cli d).keys = keys ∧ Outermost .cli d keys ∧
      (∃ names v, Pointer.keys? "/gateway/a~01b" = some names ∧ d.at? names = some v ∧
        v = .object [("c", .null)]) ∧
      report .cli d true = .error (.unusedKeys .cli keys) := by
  intro d keys
  have hd : d.Canonical := by decide
  have hkeys : (ofDocument .cli d).keys = keys := keys_eq_of_perm (by decide) (by decide)
  obtain ⟨houtermost, -, -, -, hrefused, -⟩ := reported_keys_outermost hd rfl .cli
  rw [hkeys] at houtermost hrefused
  obtain ⟨names, v, hnames, -, hv, hresolve⟩ := houtermost.sound "/gateway/a~01b" (by simp [keys])
  have hfound : Pointer.resolve d "/gateway/a~01b" = some (.object [("c", .null)]) := by decide +kernel
  refine ⟨hkeys, houtermost, ⟨names, v, hnames, hv, ?_⟩, (hrefused _).2 ⟨by simp [keys], rfl⟩⟩
  exact Option.some.inj (hresolve.symm.trans hfound)

end TableEscrow.UnusedKeys
