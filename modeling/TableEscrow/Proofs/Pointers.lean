import Mathlib.Data.List.TakeWhile
import TableEscrow.Json.Pointer
/-!
# Where a pointer leads

A token has no slash and can be read back, so the text of a pointer tells every step of it apart: of
two different keys of one object, no pointer leads below both (`eq_of_beyond`). A value that no
pointer leads below keeps all its members when they are removed (`without_eq_self`).
-/

namespace TableEscrow.Pointer

variable {p g a b : String}

/-- A pointer leads below another. -/
def Within (p g : String) : Prop := ∃ rest, g.toList = p.toList ++ '/' :: rest

/-- A pointer leads where another does, or below. -/
def Beyond (p g : String) : Prop := g = p ∨ Within p g

/-! ## Tokens -/

theorem unescape_cons {c : Char} (h : c ≠ '~') (cs : List Char) : unescape (c :: cs) = c :: unescape cs := by
  rw [unescape.eq_def]
  split <;> simp_all

theorem unescape_escape (cs : List Char) : unescape (escape cs) = cs := by
  induction cs with
  | nil => rfl
  | cons c cs ih =>
    unfold escape
    by_cases htilde : c = '~'
    · subst htilde
      simp [unescape, ih]
    · by_cases hslash : c = '/'
      · subst hslash
        simp [unescape, ih]
      · rw [if_neg htilde, if_neg hslash, unescape_cons htilde, ih]

theorem slash_not_mem_escape (cs : List Char) : '/' ∉ escape cs := by
  induction cs with
  | nil => simp [escape]
  | cons c cs ih =>
    unfold escape
    by_cases htilde : c = '~'
    · simp [htilde, ih]
    · by_cases hslash : c = '/'
      · simp [hslash, ih]
      · simp [htilde, hslash, ih, Ne.symm hslash]

/-! ## Pointers below a pointer -/

theorem toList_below (p key : String) : (below p key).toList = p.toList ++ '/' :: escape key.toList := by
  simp [below, token]

theorem within_below (p key : String) : Within p (below p key) := ⟨_, toList_below p key⟩

theorem not_within_self (p : String) : ¬ Within p p := by
  rintro ⟨rest, h⟩
  simpa using congrArg List.length h

theorem Within.of_below {key : String} (h : Within (below p key) g) : Within p g := by
  obtain ⟨rest, hg⟩ := h
  exact ⟨escape key.toList ++ '/' :: rest, by rw [hg, toList_below]; simp⟩

theorem Beyond.within {key : String} (h : Beyond (below p key) g) : Within p g := by
  rcases h with rfl | h
  · exact within_below p key
  · exact h.of_below

/-- The characters up to the next slash are the token. -/
theorem Beyond.token {key : String} (h : Beyond (below p key) g) :
    (g.toList.drop (p.toList.length + 1)).takeWhile (· ≠ '/') = escape key.toList := by
  have htoken : ∀ c ∈ escape key.toList, decide (c ≠ '/') = true := by
    intro c hc
    rw [decide_eq_true_eq]
    rintro rfl
    exact slash_not_mem_escape _ hc
  -- What stands before the token is the same for all pointers below `p`.
  have hdrop : ∀ cs : List Char, (p.toList ++ '/' :: cs).drop (p.toList.length + 1) = cs := by simp
  rcases h with rfl | ⟨rest, hg⟩
  · rw [toList_below, hdrop, List.takeWhile_eq_self_iff.2 htoken]
  · rw [hg, toList_below, List.append_assoc, List.cons_append, hdrop, List.takeWhile_append_of_pos htoken]
    simp

theorem eq_of_beyond (ha : Beyond (below p a) g) (hb : Beyond (below p b) g) : a = b := by
  have hescape := ha.token.symm.trans hb.token
  have hlist := congrArg unescape hescape
  rw [unescape_escape, unescape_escape] at hlist
  exact String.toList_inj.1 hlist

end TableEscrow.Pointer

/-! ## Members that pointers lead to -/

namespace TableEscrow.Json

open Pointer

variable {gone : List String}

mutual

/-- A value, found at a pointer, without the members that some pointers lead to. -/
def without (gone : List String) (pointer : String) : Json → Json
  | .array items => .array (withoutItems gone pointer 0 items)
  | .object members => .object (withoutMembers gone pointer members)
  | v => v

def withoutItems (gone : List String) (pointer : String) (index : Nat) : List Json → List Json
  | [] => []
  | v :: rest => without gone (below pointer (toString index)) v :: withoutItems gone pointer (index + 1) rest

def withoutMembers (gone : List String) (pointer : String) : List (String × Json) → List (String × Json)
  | [] => []
  | (key, v) :: rest =>
    if below pointer key ∈ gone then withoutMembers gone pointer rest
    else (key, without gone (below pointer key) v) :: withoutMembers gone pointer rest

end

mutual

theorem without_eq_self {pointer : String} (h : ∀ g ∈ gone, ¬ Within pointer g) :
    ∀ v : Json, without gone pointer v = v
  | .null | .bool _ | .number _ | .string _ => rfl
  | .array items => by rw [without, withoutItems_eq_self h items]
  | .object members => by rw [without, withoutMembers_eq_self h members]

theorem withoutItems_eq_self {pointer : String} (h : ∀ g ∈ gone, ¬ Within pointer g) {index : Nat} :
    ∀ items : List Json, withoutItems gone pointer index items = items
  | [] => rfl
  | v :: rest => by
    rw [withoutItems, without_eq_self (fun g hg hw => h g hg hw.of_below) v, withoutItems_eq_self h rest]

theorem withoutMembers_eq_self {pointer : String} (h : ∀ g ∈ gone, ¬ Within pointer g) :
    ∀ members : List (String × Json), withoutMembers gone pointer members = members
  | [] => rfl
  | (key, v) :: rest => by
    have hkept : below pointer key ∉ gone := fun hg => h _ hg (within_below pointer key)
    rw [withoutMembers, if_neg hkept, without_eq_self (fun g hg hw => h g hg hw.of_below) v,
      withoutMembers_eq_self h rest]

end

end TableEscrow.Json
