import TableEscrow.Proofs.Digits
import TableEscrow.Proofs.Leaves
import TableEscrow.Proofs.Pointers
/-!
# What pointers resolve to

A text is cut at a character in one way only (`splitOn_append`, `join_splitOn`), and a token without a slash is the
token of one key (`key?_eq_some_iff`). So a pointer says its keys (`keys?_eq_some_iff`), and what it resolves to is
what the path leads to whose steps have those texts (`resolve_eq_some_iff`): one path at most
(`Json.Leads.unique`).
-/

namespace TableEscrow.Text

variable {sep : Char} {cs piece : List Char} {pieces : List (List Char)}

theorem splitOn_ne_nil (sep : Char) (cs : List Char) : splitOn sep cs ≠ [] := by
  cases cs with
  | nil => simp [splitOn]
  | cons c cs =>
    unfold splitOn
    split
    · simp
    · split <;> simp

theorem splitOn_cons_of_ne {c : Char} (h : c ≠ sep) (hcs : splitOn sep cs = piece :: pieces) :
    splitOn sep (c :: cs) = (c :: piece) :: pieces := by
  rw [splitOn, if_neg h, hcs]

/-- A separator ends the pieces in front of it. -/
theorem splitOn_append (sep : Char) (before after : List Char) :
    splitOn sep (before ++ sep :: after) = splitOn sep before ++ splitOn sep after := by
  induction before with
  | nil => simp [splitOn]
  | cons c before ih =>
    by_cases hc : c = sep
    · simp [splitOn, hc, ih]
    · obtain ⟨piece, pieces, hbefore⟩ := List.exists_cons_of_ne_nil (splitOn_ne_nil sep before)
      rw [hbefore, List.cons_append] at ih
      rw [List.cons_append, splitOn_cons_of_ne hc ih, splitOn_cons_of_ne hc hbefore]
      rfl

theorem splitOn_flatMap (sep : Char) (start : List Char) (texts : List (List Char)) :
    splitOn sep (start ++ texts.flatMap (sep :: ·)) = splitOn sep start ++ texts.flatMap (splitOn sep) := by
  induction texts generalizing start with
  | nil => simp
  | cons text texts ih =>
    rw [List.flatMap_cons, List.flatMap_cons, List.cons_append, splitOn_append, ih]

theorem splitOn_eq_singleton (h : sep ∉ cs) : splitOn sep cs = [cs] := by
  induction cs with
  | nil => rfl
  | cons c cs ih =>
    rw [List.mem_cons, not_or] at h
    exact splitOn_cons_of_ne (Ne.symm h.1) (ih h.2)

/-- The pieces of a text, each without the separator, make the text. -/
theorem join_splitOn (sep : Char) (cs : List Char) : ∃ piece pieces, splitOn sep cs = piece :: pieces ∧
    cs = piece ++ pieces.flatMap (sep :: ·) ∧ ∀ p ∈ piece :: pieces, sep ∉ p := by
  induction cs with
  | nil => exact ⟨[], [], rfl, rfl, by simp⟩
  | cons c cs ih =>
    obtain ⟨piece, pieces, hsplit, hjoin, hfree⟩ := ih
    by_cases hc : c = sep
    · subst hc
      exact ⟨[], piece :: pieces, by simp [splitOn, hsplit], by simp [hjoin.symm], by simpa using hfree⟩
    · refine ⟨c :: piece, pieces, splitOn_cons_of_ne hc hsplit, by rw [List.cons_append, ← hjoin], ?_⟩
      simpa [Ne.symm hc] using hfree

theorem splitOn_inj {a b : List Char} (h : splitOn sep a = splitOn sep b) : a = b := by
  obtain ⟨piece, pieces, ha, hjoin, -⟩ := join_splitOn sep a
  obtain ⟨piece', pieces', hb, hjoin', -⟩ := join_splitOn sep b
  obtain ⟨rfl, rfl⟩ := List.cons.inj (ha.symm.trans (h.trans hb))
  exact hjoin.trans hjoin'.symm

end TableEscrow.Text

namespace TableEscrow.Pointer

open Text

variable {p key : String} {keys : List String} {cs : List Char}

/-! ## Keys and tokens -/

theorem isToken_cons {c : Char} (h : c ≠ '~') (cs : List Char) : isToken (c :: cs) = isToken cs := by
  rw [isToken.eq_def]
  split <;> simp_all

theorem isToken_escape (cs : List Char) : isToken (escape cs) = true := by
  induction cs with
  | nil => rfl
  | cons c cs ih =>
    unfold escape
    by_cases htilde : c = '~'
    · simp [htilde, isToken, ih]
    · by_cases hslash : c = '/'
      · simp [hslash, isToken, ih]
      · rw [if_neg htilde, if_neg hslash, isToken_cons htilde, ih]

theorem escape_unescape (h : isToken cs = true) (hslash : '/' ∉ cs) : escape (unescape cs) = cs := by
  fun_induction unescape cs with
  | case1 cs ih => simp_all [escape, isToken]
  | case2 cs ih => simp_all [escape, isToken]
  | case3 c cs h0 h1 ih =>
    have hc : c ≠ '~' := by
      rintro rfl
      unfold isToken at h
      split at h <;> grind
    rw [isToken_cons hc] at h
    rw [List.mem_cons, not_or] at hslash
    rw [escape, if_neg hc, if_neg (Ne.symm hslash.1), ih h hslash.2]
  | case4 => rfl

theorem key?_eq_some_iff (hslash : '/' ∉ cs) : key? cs = some key ↔ cs = escape key.toList := by
  unfold key?
  constructor
  · intro h
    split at h
    · next htoken =>
      cases h
      rw [String.toList_ofList, escape_unescape htoken hslash]
    · cases h
  · rintro rfl
    rw [if_pos (isToken_escape _), unescape_escape, String.ofList_toList]

theorem mapM_key?_eq_some_iff {tokens : List (List Char)} (hslash : ∀ cs ∈ tokens, '/' ∉ cs) :
    tokens.mapM key? = some keys ↔ tokens = keys.map fun key => escape key.toList := by
  induction tokens generalizing keys with
  | nil => cases keys <;> simp
  | cons cs tokens ih =>
    rw [List.forall_mem_cons] at hslash
    cases keys with
    | nil => simp [List.mapM_cons, Option.bind_eq_some_iff]
    | cons key keys => simp [List.mapM_cons, Option.bind_eq_some_iff, key?_eq_some_iff hslash.1, ih hslash.2]

theorem toList_foldl_below (p : String) (keys : List String) :
    (keys.foldl below p).toList = p.toList ++ (keys.map fun key => escape key.toList).flatMap ('/' :: ·) := by
  induction keys generalizing p with
  | nil => simp
  | cons key keys ih => simp [ih, toList_below]

/-- A pointer says its keys, and is made from them. -/
theorem keys?_eq_some_iff : keys? p = some keys ↔ p = ofKeys keys := by
  have hofKeys : (ofKeys keys).toList = (keys.map fun key => escape key.toList).flatMap ('/' :: ·) := by
    rw [ofKeys, toList_foldl_below, String.toList_empty, List.nil_append]
  obtain ⟨piece, tokens, hsplit, hjoin, hfree⟩ := join_splitOn '/' p.toList
  rw [List.forall_mem_cons] at hfree
  constructor
  · intro h
    unfold keys? at h
    rw [hsplit] at h
    cases piece with
    | nil => exact String.toList_inj.1 (by rw [hjoin, hofKeys, (mapM_key?_eq_some_iff hfree.2).1 h, List.nil_append])
    | cons c piece => cases h
  · rintro rfl
    -- A token has no slash, so cutting leaves it whole.
    have hkeys : (keys.map fun key => escape key.toList).flatMap (splitOn '/') = keys.map fun key => escape key.toList := by
      simp only [List.flatMap_map, splitOn_eq_singleton (slash_not_mem_escape _), ← List.map_eq_flatMap]
    have hpieces : splitOn '/' (ofKeys keys).toList = [] :: keys.map fun key => escape key.toList := by
      rw [hofKeys, ← List.nil_append (List.flatMap _ _), splitOn_flatMap, hkeys]
      rfl
    unfold keys?
    rw [hpieces]
    exact (mapM_key?_eq_some_iff (by simp [slash_not_mem_escape])).2 rfl

theorem ofKeys_inj {keys' : List String} (h : ofKeys keys = ofKeys keys') : keys = keys' :=
  Option.some.inj ((keys?_eq_some_iff.2 rfl).symm.trans (keys?_eq_some_iff.2 h))

theorem index?_eq_some_iff {n : Nat} : index? cs = some n ↔ cs = (toString n).toList := by
  rw [toList_toString]
  constructor
  · intro h
    cases cs with
    | nil => cases h
    | cons c cs =>
      by_cases hc : c = '0'
      · subst hc
        cases cs with
        | nil => cases h; rfl
        | cons d cs => cases h
      · have hdigits : natOfDigits? 10 (c :: cs) = some n := by
          rw [index?.eq_def] at h
          split at h <;> simp_all
        rw [natOfDigits?_ten (List.cons_ne_nil c cs)] at hdigits
        split at hdigits
        · next hall =>
          cases hdigits
          exact (toDigits_natOfDecimal hall hc).symm
        · cases hdigits
  · rintro rfl
    obtain ⟨hall, hvalue⟩ := decimal_toDigits n
    have hread : natOfDigits? 10 (Nat.toDigits 10 n) = some n := by
      rw [natOfDigits?_ten Nat.toDigits_ne_nil, if_pos hall, hvalue]
    rcases Nat.eq_zero_or_pos n with rfl | hpos
    · rfl
    · have hhead := head?_toDigits hpos
      rw [index?.eq_def]
      split
      · next heq => rw [heq] at hhead; exact absurd rfl hhead
      · exact hread

end TableEscrow.Pointer

/-! ## Paths and pointers -/

namespace TableEscrow.Json

open Pointer

variable {v w : Json} {path : List Step}

theorem Canonical.of_child (h : v.Canonical) {s : Step} (hs : (s, w) ∈ v.children) : w.Canonical := by
  cases h with
  | null | bool | number | string => cases hs
  | array each =>
    obtain ⟨index, -, hindex⟩ := mem_children_array.1 hs
    exact each w (List.mem_of_getElem? hindex)
  | object ascending each =>
    obtain ⟨name, -, hmem⟩ := mem_children_object.1 hs
    exact each (name, w) hmem

/-- The pointer to what a path leads to. -/
def pointerTo (path : List Step) : String := ofKeys (path.map Step.text)

theorem child?_eq_some_iff (h : v.Canonical) {key : String} :
    child? v key = some w ↔ ∃ s, (s, w) ∈ v.children ∧ s.text = key := by
  cases v with
  | null | bool | number | string => simp [child?, children]
  | object members =>
    rw [child?, Keyed.lookup_eq_some_iff_mem h.nodup_names]
    constructor
    · exact fun hmem => ⟨.member key, mem_children_object.2 ⟨key, rfl, hmem⟩, rfl⟩
    · rintro ⟨s, hs, rfl⟩
      obtain ⟨name, rfl, hmem⟩ := mem_children_object.1 hs
      exact hmem
  | array items =>
    rw [child?, Option.bind_eq_some_iff]
    constructor
    · rintro ⟨index, hindex, hitem⟩
      refine ⟨.item index, mem_children_array.2 ⟨index, rfl, hitem⟩, ?_⟩
      exact String.toList_inj.1 (index?_eq_some_iff.1 hindex).symm
    · rintro ⟨s, hs, rfl⟩
      obtain ⟨index, rfl, hitem⟩ := mem_children_array.1 hs
      exact ⟨index, index?_eq_some_iff.2 rfl, hitem⟩

theorem foldlM_child?_eq_some_iff (h : v.Canonical) {keys : List String} :
    keys.foldlM child? v = some w ↔ ∃ path, v.Leads path w ∧ path.map Step.text = keys := by
  induction keys generalizing v with
  | nil =>
    constructor
    · rintro ⟨⟩
      exact ⟨[], .here _, rfl⟩
    · rintro ⟨path, hleads, hpath⟩
      cases List.map_eq_nil_iff.1 hpath
      cases hleads
      rfl
  | cons key keys ih =>
    rw [List.foldlM_cons]
    constructor
    · intro hw
      obtain ⟨u, hu, hrest⟩ := Option.bind_eq_some_iff.1 hw
      obtain ⟨s, hs, rfl⟩ := (child?_eq_some_iff h).1 hu
      obtain ⟨path, hleads, rfl⟩ := (ih (h.of_child hs)).1 hrest
      exact ⟨s :: path, .step hs hleads, rfl⟩
    · rintro ⟨path, hleads, hpath⟩
      cases hleads with
      | here => cases hpath
      | step hs hleads =>
        obtain ⟨rfl, rfl⟩ := List.cons.inj hpath
        exact Option.bind_eq_some_iff.2 ⟨_, (child?_eq_some_iff h).2 ⟨_, hs, rfl⟩, (ih (h.of_child hs)).2 ⟨_, hleads, rfl⟩⟩

/-- A pointer resolves to what a path leads to that it is the pointer of. -/
theorem resolve_eq_some_iff (h : v.Canonical) {p : String} :
    resolve v p = some w ↔ ∃ path, v.Leads path w ∧ p = pointerTo path := by
  simp only [resolve, Option.bind_eq_some_iff, keys?_eq_some_iff, foldlM_child?_eq_some_iff h]
  constructor
  · rintro ⟨_, rfl, path, hleads, rfl⟩
    exact ⟨path, hleads, rfl⟩
  · rintro ⟨path, hleads, rfl⟩
    exact ⟨_, rfl, path, hleads, rfl⟩

/-- What stands one step down is told apart by the text of the step. -/
theorem eq_of_text {s s' : Step} {w' : Json} (hs : (s, w) ∈ v.children) (hs' : (s', w') ∈ v.children)
    (h : s.text = s'.text) : s = s' := by
  cases v with
  | null | bool | number | string => cases hs
  | object members =>
    obtain ⟨name, rfl, -⟩ := mem_children_object.1 hs
    obtain ⟨name', rfl, -⟩ := mem_children_object.1 hs'
    exact congrArg Step.member h
  | array items =>
    obtain ⟨index, rfl, -⟩ := mem_children_array.1 hs
    obtain ⟨index', rfl, -⟩ := mem_children_array.1 hs'
    have hindex : index? (toString index).toList = some index' := index?_eq_some_iff.2 (congrArg String.toList h)
    exact congrArg Step.item (Option.some.inj ((index?_eq_some_iff.2 rfl).symm.trans hindex))

theorem Canonical.child_unique (h : v.Canonical) {s : Step} {w' : Json} (hs : (s, w) ∈ v.children)
    (hs' : (s, w') ∈ v.children) : w = w' :=
  Option.some.inj (((child?_eq_some_iff h).2 ⟨s, hs, rfl⟩).symm.trans ((child?_eq_some_iff h).2 ⟨s, hs', rfl⟩))

theorem Leads.unique (h : v.Canonical) {path' : List Step} {w' : Json} (hleads : v.Leads path w)
    (hleads' : v.Leads path' w') (htext : path.map Step.text = path'.map Step.text) : path = path' := by
  induction hleads generalizing path' with
  | here v => exact (List.map_eq_nil_iff.1 htext.symm).symm
  | step hs _ ih =>
    cases hleads' with
    | here => cases htext
    | step hs' hleads' =>
      obtain ⟨hstep, hrest⟩ := List.cons.inj htext
      obtain rfl := eq_of_text hs hs' hstep
      obtain rfl := h.child_unique hs hs'
      rw [ih (h.of_child hs) hleads' hrest]

/-- Of two paths through one document, the pointers differ. -/
theorem eq_of_pointerTo (h : v.Canonical) {path' : List Step} {w' : Json} (hleads : v.Leads path w)
    (hleads' : v.Leads path' w') (hpointer : pointerTo path = pointerTo path') : path = path' :=
  hleads.unique h hleads' (ofKeys_inj hpointer)

end TableEscrow.Json
