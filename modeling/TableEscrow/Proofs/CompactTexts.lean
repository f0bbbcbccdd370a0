import Mathlib.Data.List.TakeWhile
import TableEscrow.Json.Printer
import TableEscrow.Proofs.Digits
import TableEscrow.Proofs.Documents
/-!
# Compact texts

A value whose numbers are read back from their numerals is read back from its compact text, whatever follows
the text (`value_compactChars`). Whole numbers are (`isLegible_of_isWhole`), so the text of a value without
fractions tells which value it was written for (`eq_of_compact`). A numeral ends where it would end alone
(`ofChars?_append`), and every character of a string is read as it was before it was escaped.
-/

namespace TableEscrow

/-! ## Numerals -/

namespace Numeral

variable {ds cs left rest : List Char}

/-- What follows does not go on with a numeral. -/
def Ends (rest : List Char) : Prop := ∀ c ∈ rest.head?, Text.isDigit c = false ∧ c ≠ '.' ∧ c ≠ 'e' ∧ c ≠ 'E'

theorem digits_append (cs : List Char) (hrest : Ends rest) :
    digits (cs ++ rest) = ((digits cs).1, (digits cs).2 ++ rest) := by
  induction cs with
  | nil =>
    cases rest with
    | nil => rfl
    | cons c rest => simp [digits, (hrest c rfl).1]
  | cons c cs ih =>
    simp only [digits, Prod.mk.injEq, List.cons_append, List.takeWhile_cons, List.dropWhile_cons] at ih ⊢
    cases Text.isDigit c with
    | true => exact ⟨congrArg (c :: ·) ih.1, ih.2⟩
    | false => exact ⟨rfl, rfl⟩

theorem fractionOf_ends (hrest : Ends rest) : fractionOf rest = some (none, rest) := by
  unfold fractionOf
  split
  · exact absurd rfl (hrest '.' rfl).2.1
  · rfl

theorem fractionOf_append {fraction : Option (List Char)} (h : fractionOf cs = some (fraction, left))
    (hrest : Ends rest) : fractionOf (cs ++ rest) = some (fraction, left ++ rest) := by
  unfold fractionOf at h
  split at h
  · next cs =>
    split at h
    · cases h
    · next ds tail hne hdigits =>
      cases h
      rw [List.cons_append]
      simp only [fractionOf, digits_append cs hrest, hdigits]
  · next hdot =>
    cases h
    cases cs with
    | nil => exact fractionOf_ends hrest
    | cons c cs =>
      unfold fractionOf
      split
      · next heq =>
        cases heq
        exact absurd rfl (hdot cs)
      · rfl

theorem exponentOf_ends (hrest : Ends rest) : exponentOf rest = some (none, rest) := by
  cases rest with
  | nil => rfl
  | cons c rest =>
    obtain ⟨-, -, hlower, hupper⟩ := hrest c rfl
    simp [exponentOf, hlower, hupper]

/-- The digits of an exponent. -/
def exponentDigits (isNegative : Bool) (cs : List Char) : Option (Option (Bool × List Char) × List Char) :=
  match digits cs with
  | ([], _) => none
  | (ds, rest) => some (some (isNegative, ds), rest)

theorem exponentDigits_append {isNegative : Bool} {exponent : Option (Bool × List Char)}
    (h : exponentDigits isNegative cs = some (exponent, left)) (hrest : Ends rest) :
    exponentDigits isNegative (cs ++ rest) = some (exponent, left ++ rest) := by
  rw [exponentDigits] at h ⊢
  rw [digits_append cs hrest]
  rcases hd : digits cs with ⟨_ | ⟨d, ds⟩, tail⟩ <;> rw [hd] at h <;> cases h
  rfl

theorem exponentOf_cons {c d : Char} (hc : (c = 'e' || c = 'E') = true) (cs : List Char) :
    exponentOf (c :: d :: cs) =
      if d = '+' then exponentDigits false cs
      else if d = '-' then exponentDigits true cs
      else exponentDigits false (d :: cs) := by
  by_cases hplus : d = '+'
  · simp only [exponentOf, hc, hplus, if_true]
    rfl
  · by_cases hminus : d = '-'
    · simp only [exponentOf, hc, hminus, if_true]
      rfl
    · rcases hdigits : digits (d :: cs) with ⟨_ | ⟨e, ds⟩, tail⟩ <;>
        simp [exponentOf, hc, hplus, hminus, exponentDigits, hdigits]

theorem exponentOf_append {exponent : Option (Bool × List Char)} (h : exponentOf cs = some (exponent, left))
    (hrest : Ends rest) : exponentOf (cs ++ rest) = some (exponent, left ++ rest) := by
  rcases cs with _ | ⟨c, cs⟩
  · cases h
    exact exponentOf_ends hrest
  · rw [List.cons_append]
    by_cases hc : (c = 'e' || c = 'E') = true
    · rcases cs with _ | ⟨d, cs⟩
      · simp [exponentOf, hc, digits] at h
      · rw [List.cons_append, exponentOf_cons hc]
        rw [exponentOf_cons hc] at h
        by_cases hplus : d = '+'
        · rw [if_pos hplus] at h ⊢
          exact exponentDigits_append h hrest
        · by_cases hminus : d = '-'
          · rw [if_neg hplus, if_pos hminus] at h ⊢
            exact exponentDigits_append h hrest
          · rw [if_neg hplus, if_neg hminus] at h ⊢
            exact exponentDigits_append h hrest
    · simp only [exponentOf, hc] at h ⊢
      cases h
      rfl

/-- A numeral without its sign. -/
def unsigned (isNegative : Bool) (cs : List Char) : Option (Numeral × List Char) :=
  match digits cs with
  | ([], _) => none
  | (whole, rest) =>
    if whole.head? = some '0' && whole.length != 1 then none
    else
      match fractionOf rest with
      | none => none
      | some (fraction, rest) =>
        match exponentOf rest with
        | none => none
        | some (exponent, rest) => some (⟨isNegative, whole, fraction, exponent⟩, rest)

theorem unsigned_append {isNegative : Bool} {n : Numeral} (h : unsigned isNegative cs = some (n, left))
    (hrest : Ends rest) : unsigned isNegative (cs ++ rest) = some (n, left ++ rest) := by
  rw [unsigned] at h ⊢
  rw [digits_append cs hrest]
  rcases hd : digits cs with ⟨_ | ⟨d, ds⟩, tail⟩ <;> rw [hd] at h
  · cases h
  · dsimp only at h ⊢
    split at h
    · cases h
    · next hlead =>
      rw [if_neg hlead]
      cases hfraction : fractionOf tail with
      | none => rw [hfraction] at h; cases h
      | some found =>
        obtain ⟨fraction, tail⟩ := found
        rw [fractionOf_append hfraction hrest]
        rw [hfraction] at h
        dsimp only at h ⊢
        cases hexponent : exponentOf tail with
        | none => rw [hexponent] at h; cases h
        | some found =>
          obtain ⟨exponent, tail⟩ := found
          rw [exponentOf_append hexponent hrest]
          rw [hexponent] at h
          cases h
          rfl

theorem ofChars?_cons (c : Char) (cs : List Char) :
    ofChars? (c :: cs) = if c = '-' then unsigned true cs else unsigned false (c :: cs) := by
  by_cases hminus : c = '-'
  · subst hminus
    rfl
  · rcases hdigits : digits (c :: cs) with ⟨_ | ⟨d, ds⟩, tail⟩
    · simp [ofChars?, hminus, unsigned, hdigits]
    · rcases hfraction : fractionOf tail with _ | ⟨fraction, tail⟩
      · simp [ofChars?, hminus, unsigned, hdigits, hfraction]
      · rcases hexponent : exponentOf tail with _ | ⟨exponent, tail⟩ <;>
          simp [ofChars?, hminus, unsigned, hdigits, hfraction, hexponent]

/-- A numeral ends where it would end without what follows. -/
theorem ofChars?_append {n : Numeral} (h : ofChars? cs = some (n, [])) (hrest : Ends rest) :
    ofChars? (cs ++ rest) = some (n, rest) := by
  rcases cs with _ | ⟨c, cs⟩
  · cases h
  · rw [ofChars?_cons] at h
    rw [List.cons_append, ofChars?_cons]
    by_cases hminus : c = '-'
    · rw [if_pos hminus] at h ⊢
      exact unsigned_append h hrest
    · rw [if_neg hminus] at h ⊢
      exact unsigned_append h hrest

/-- A numeral starts with its sign or with a digit. -/
theorem exists_cons_of_ofChars? {n : Numeral} (h : ofChars? cs = some (n, left)) :
    ∃ c more, cs = c :: more ∧ (c = '-' ∨ Text.isDigit c = true) := by
  rcases cs with _ | ⟨c, cs⟩
  · cases h
  · refine ⟨c, cs, rfl, ?_⟩
    by_contra hc
    obtain ⟨hminus, hdigit⟩ := not_or.1 hc
    simp [ofChars?_cons, hminus, unsigned, digits, hdigit] at h

/-- A whole numeral, with its sign in front, ends where its digits do. -/
theorem ofChars?_whole (isNegative : Bool) (hds : ds.all Text.isDigit = true) (hne : ds ≠ [])
    (hzero : ds.head? = some '0' → ds.length = 1) :
    ofChars? ((if isNegative then ['-'] else []) ++ ds) = some (⟨isNegative, ds, none, none⟩, []) := by
  obtain ⟨d, ds, rfl⟩ := List.exists_cons_of_ne_nil hne
  have hlead : (decide ((d :: ds).head? = some '0') && (d :: ds).length != 1) = false := by simpa using hzero
  have hminus : d ≠ '-' := by
    rintro rfl
    simp [Text.isDigit] at hds
  have hdigits : digits (d :: ds) = (d :: ds, []) := by
    have hall := List.all_eq_true.1 hds
    rw [digits, List.takeWhile_eq_self_iff.2 hall, List.dropWhile_eq_nil_iff.2 hall]
  have hunsigned : unsigned isNegative (d :: ds) = some (⟨isNegative, d :: ds, none, none⟩, []) := by
    simp only [unsigned, hdigits, hlead]
    rfl
  cases isNegative with
  | true => exact hunsigned
  | false => rwa [if_neg Bool.false_ne_true, List.nil_append, ofChars?_cons, if_neg hminus]

theorem le_foldl (ds : List Char) (n : Nat) : n ≤ ds.foldl (fun n c => n * 10 + (c.toNat - 48)) n := by
  induction ds generalizing n with
  | nil => exact Nat.le_refl n
  | cons d ds ih =>
    have hstep : n ≤ n * 10 + (d.toNat - 48) := by omega
    exact Nat.le_trans hstep (ih _)

/-- Digits that fit are gathered to the last. -/
theorem gather_eq {n : Nat} (h : ds.foldl (fun n c => n * 10 + (c.toNat - 48)) n < UInt64.size) :
    gather n ds = (ds.foldl (fun n c => n * 10 + (c.toNat - 48)) n, []) := by
  induction ds generalizing n with
  | nil => rfl
  | cons d ds ih =>
    have hfits : n * 10 + (d.toNat - 48) < UInt64.size := Nat.lt_of_le_of_lt (le_foldl ds _) h
    rw [gather]
    simp only [hfits, if_true]
    exact ih h

/-- A whole number is read back from what it is written as. -/
theorem value?_natural (n : UInt64) : value? ⟨false, Nat.toDigits 10 n.toNat, none, none⟩ = some (.natural n) := by
  have hvalue : Text.natOfDecimal (Nat.toDigits 10 n.toNat) = n.toNat := (Text.decimal_toDigits n.toNat).2
  have hgather : gather 0 (Nat.toDigits 10 n.toNat) = (n.toNat, []) := by
    rw [gather_eq] <;> rw [← Text.natOfDecimal, hvalue]
    exact n.toNat_lt
  simp [value?, hgather]

theorem value?_negative (n : Int64) (h : n < 0) :
    value? ⟨true, Nat.toDigits 10 n.toInt.natAbs, none, none⟩ = some (.negative n h) := by
  have hbound : -2 ^ 63 ≤ n.toInt := n.le_toInt
  have hneg : n.toInt < 0 := by simpa [Int64.lt_iff_toInt_lt] using h
  have hvalue := (Text.decimal_toDigits n.toInt.natAbs).2
  have hgather : gather 0 (Nat.toDigits 10 n.toInt.natAbs) = (n.toInt.natAbs, []) := by
    rw [gather_eq] <;> rw [← Text.natOfDecimal, hvalue]
    simp only [UInt64.size]
    omega
  have hfits : 0 < n.toInt.natAbs ∧ 2 * n.toInt.natAbs ≤ UInt64.size := by
    simp only [UInt64.size]
    omega
  have hword : Int64.ofInt (-(n.toInt.natAbs : Int)) = n := by
    rw [show -(n.toInt.natAbs : Int) = n.toInt by omega, Int64.ofInt_toInt]
  simp only [value?, hgather, if_true, hfits, and_self, hword, Number.ofInt64, h, dif_pos]

end Numeral

/-! ## Values that can be read back -/

/-- Whether a number is read back from what it is written as. A word is written with the digits nearest to it,
but it is read in steps that are rounded, so not every word is. -/
def Number.isLegible (n : Number) : Bool :=
  match Numeral.ofChars? (Json.numberText n) with
  | some (numeral, []) => numeral.value? = some n
  | _ => false

namespace Json

mutual

/-- Every number can be read back. -/
def isLegible : Json → Bool
  | .number n => n.isLegible
  | .array items => isLegibleItems items
  | .object members => isLegibleMembers members
  | _ => true

def isLegibleItems : List Json → Bool
  | [] => true
  | v :: rest => v.isLegible && isLegibleItems rest

def isLegibleMembers : List (String × Json) → Bool
  | [] => true
  | (_, v) :: rest => v.isLegible && isLegibleMembers rest

end

mutual

/-- Without a fraction anywhere. -/
def isWhole : Json → Bool
  | .number (.real _) => false
  | .array items => isWholeItems items
  | .object members => isWholeMembers members
  | _ => true

def isWholeItems : List Json → Bool
  | [] => true
  | v :: rest => v.isWhole && isWholeItems rest

def isWholeMembers : List (String × Json) → Bool
  | [] => true
  | (_, v) :: rest => v.isWhole && isWholeMembers rest

end

mutual

/-- How deep arrays and objects are nested. -/
def depth : Json → Nat
  | .array items => itemsDepth items + 1
  | .object members => membersDepth members + 1
  | _ => 0

def itemsDepth : List Json → Nat
  | [] => 0
  | v :: rest => max v.depth (itemsDepth rest)

def membersDepth : List (String × Json) → Nat
  | [] => 0
  | (_, v) :: rest => max v.depth (membersDepth rest)

end

/-- A number without a fraction is written with a sign and digits. -/
theorem isLegible_number {n : Number} (h : (Json.number n).isWhole = true) : n.isLegible = true := by
  have hzero : ∀ n : Nat, (Nat.toDigits 10 n).head? = some '0' → (Nat.toDigits 10 n).length = 1 := by
    intro n hhead
    cases n with
    | zero => rfl
    | succ n => exact absurd hhead (Text.head?_toDigits (Nat.succ_pos n))
  cases n with
  | natural n =>
    have hall := (Text.decimal_toDigits n.toNat).1
    have hread := Numeral.ofChars?_whole false hall Nat.toDigits_ne_nil (hzero _)
    have htext : numberText (.natural n) = Nat.toDigits 10 n.toNat := Text.toList_toString n.toNat
    rw [if_neg Bool.false_ne_true, List.nil_append] at hread
    simp only [Number.isLegible, htext, hread, Numeral.value?_natural, decide_true]
  | negative n hneg =>
    have hall := (Text.decimal_toDigits n.toInt.natAbs).1
    have hread := Numeral.ofChars?_whole true hall Nat.toDigits_ne_nil (hzero _)
    have htext : numberText (.negative n hneg) = '-' :: Nat.toDigits 10 n.toInt.natAbs := by
      have hlt : n.toInt < 0 := by simpa [Int64.lt_iff_toInt_lt] using hneg
      exact Text.toList_toString_of_neg hlt
    rw [if_pos rfl, List.singleton_append] at hread
    simp only [Number.isLegible, htext, hread, Numeral.value?_negative n hneg, decide_true]
  | real x => cases h

mutual

theorem isLegible_of_isWhole : ∀ v : Json, v.isWhole = true → v.isLegible = true
  | .null, _ | .bool _, _ | .string _, _ => rfl
  | .number _, h => isLegible_number h
  | .array items, h => isLegibleItems_of_isWholeItems items h
  | .object members, h => isLegibleMembers_of_isWholeMembers members h

theorem isLegibleItems_of_isWholeItems : ∀ items : List Json, isWholeItems items = true → isLegibleItems items = true
  | [], _ => rfl
  | v :: rest, h => by
    obtain ⟨hv, hrest⟩ := Bool.and_eq_true_iff.1 h
    exact Bool.and_eq_true_iff.2 ⟨isLegible_of_isWhole v hv, isLegibleItems_of_isWholeItems rest hrest⟩

theorem isLegibleMembers_of_isWholeMembers :
    ∀ members : List (String × Json), isWholeMembers members = true → isLegibleMembers members = true
  | [], _ => rfl
  | (_, v) :: rest, h => by
    obtain ⟨hv, hrest⟩ := Bool.and_eq_true_iff.1 h
    exact Bool.and_eq_true_iff.2 ⟨isLegible_of_isWhole v hv, isLegibleMembers_of_isWholeMembers rest hrest⟩

end

end Json

namespace Draft

open Json
open Numeral (Ends)

/-! ## Strings -/

section

variable {acc more : List Char} {usable : Bool} {a b c d : Char} {n : Nat}

/-- Four digits that write no number end a string wrongly, wherever another escape may follow. -/
theorem stringBody_unicode_none (h : hex4? a b c d = none) :
    stringBody acc usable ('\\' :: 'u' :: a :: b :: c :: d :: more) = none := by
  by_cases hpair : ∃ e f g h rest, more = '\\' :: 'u' :: e :: f :: g :: h :: rest
  · obtain ⟨e, f, g, h', rest, rfl⟩ := hpair
    rw [stringBody, h]
  · rw [stringBody, h]
    exact fun e f g h' rest heq => hpair ⟨e, f, g, h', rest, heq⟩

theorem stringBody_unicode (h : hex4? a b c d = some n) (hn : n < 0xD800) :
    stringBody acc usable ('\\' :: 'u' :: a :: b :: c :: d :: more) = stringBody (Char.ofNat n :: acc) usable more := by
  have hrange : ¬ 0xD800 ≤ n := by omega
  by_cases hpair : ∃ e f g h rest, more = '\\' :: 'u' :: e :: f :: g :: h :: rest
  · obtain ⟨e, f, g, h', rest, rfl⟩ := hpair
    rw [stringBody, h]
    cases hlow : hex4? e f g h' with
    | none => exact (stringBody_unicode_none hlow).symm
    | some lo => simp [hrange]
  · rw [stringBody, h]
    · simp [hrange]
    · exact fun e f g h' rest heq => hpair ⟨e, f, g, h', rest, heq⟩

/-- A character that is written in a string is read. -/
theorem stringBody_escapeChar (acc : List Char) (usable : Bool) (c : Char) (more : List Char) :
    stringBody acc usable (escapeChar c ++ more) = stringBody (c :: acc) usable more := by
  unfold escapeChar
  split
  · next h => subst h; simp [stringBody, escaped?]
  split
  · next h => subst h; simp [stringBody, escaped?]
  split
  · next h => subst h; simp [stringBody, escaped?]
  split
  · next h => subst h; simp [stringBody, escaped?]
  split
  · next h => subst h; simp [stringBody, escaped?]
  split
  · next h =>
    obtain rfl : c = Char.ofNat 8 := Char.toNat_inj.1 h
    simp [stringBody, escaped?]
  split
  · next h =>
    obtain rfl : c = Char.ofNat 12 := Char.toNat_inj.1 h
    simp [stringBody, escaped?]
  split
  · next h =>
    have hdigits : Text.natOfDigits? 16 (Text.hexDigits 4 c.toNat) = some c.toNat :=
      Text.natOfDigits?_hexDigits (by decide) (by omega)
    have hread : stringBody acc usable ('\\' :: 'u' :: Text.hexDigits 4 c.toNat ++ more) =
        stringBody (Char.ofNat c.toNat :: acc) usable more :=
      stringBody_unicode hdigits (by omega)
    rwa [Char.ofNat_toNat] at hread
  · next hquote hslash _ _ _ _ _ hplain =>
    rw [List.singleton_append, stringBody, if_neg hplain]
    · exact hquote
    · exact fun a b c d e f g h rest heq => absurd heq hslash
    · exact fun a b c d rest heq => absurd heq hslash
    · exact fun c rest heq => absurd heq hslash

theorem stringBody_escape (cs acc : List Char) (usable : Bool) (more : List Char) :
    stringBody acc usable (cs.flatMap escapeChar ++ more) = stringBody (cs.reverse ++ acc) usable more := by
  induction cs generalizing acc with
  | nil => rfl
  | cons c cs ih =>
    rw [List.flatMap_cons, List.append_assoc, stringBody_escapeChar, ih, List.reverse_cons, List.append_assoc]
    rfl

/-- A text that is quoted is read back, and what follows it is left. -/
theorem stringBody_quoted (s : String) (rest : List Char) :
    stringBody [] true (s.toList.flatMap escapeChar ++ '"' :: rest) = some (.string s, rest) := by
  rw [stringBody_escape, List.append_nil, stringBody, List.reverse_reverse, String.ofList_toList]
  rfl

end

/-! ## What values start with -/

variable {cs rest more : List Char} {d : Draft} {fuel room : Nat}

theorem skip_cons {c : Char} (h : isSpace c = false) (cs : List Char) : skip (c :: cs) = c :: cs := by
  simp [skip, h]

theorem bounded_of_pos (h : 0 < room) (d : Draft) : bounded room d = d := by
  rw [bounded, if_neg (Nat.ne_of_gt h)]

/-- The characters that a whole number starts with. -/
theorem ne_of_startsNumeral {c : Char} (h : c = '-' ∨ Text.isDigit c = true) :
    isSpace c = false ∧ c ≠ ']' ∧ c ≠ 'n' ∧ c ≠ 't' ∧ c ≠ 'f' ∧ c ≠ '"' ∧ c ≠ '[' ∧ c ≠ '\x7b' := by
  rcases h with rfl | h
  · decide
  · have hne : ∀ d, Text.isDigit d = false → c ≠ d := fun d hd heq => by simp [← heq, h] at hd
    simp only [isSpace, Bool.or_eq_false_iff, decide_eq_false_iff_not]
    refine ⟨⟨⟨⟨?_, ?_⟩, ?_⟩, ?_⟩, ?_, ?_, ?_, ?_, ?_, ?_, ?_⟩ <;> exact hne _ (by decide)

theorem value_numeral {c : Char} {cs : List Char} {n : Numeral} {v : Number} (hc : c = '-' ∨ Text.isDigit c = true)
    (hn : Numeral.ofChars? (c :: cs) = some (n, rest)) (hv : n.value? = some v) :
    value (fuel + 1) room (c :: cs) = (.number v, some rest) := by
  obtain ⟨hspace, -, hnull, htrue, hfalse, hquote, hopen, hbrace⟩ := ne_of_startsNumeral hc
  simp [value, skip_cons hspace, hnull, htrue, hfalse, hquote, hopen, hbrace, hn, hv]

/-- A number that can be read back ends where its numeral ends. -/
theorem exists_numeral {n : Number} (h : n.isLegible = true) (hrest : Ends rest) :
    ∃ c cs numeral, numberText n = c :: cs ∧ (c = '-' ∨ Text.isDigit c = true) ∧
      Numeral.ofChars? (c :: cs ++ rest) = some (numeral, rest) ∧ numeral.value? = some n := by
  unfold Number.isLegible at h
  split at h
  · next numeral hread =>
    obtain ⟨c, cs, htext, hc⟩ := Numeral.exists_cons_of_ofChars? hread
    exact ⟨c, cs, numeral, htext, hc, htext ▸ Numeral.ofChars?_append hread hrest, of_decide_eq_true h⟩
  · cases h

/-- What a value starts with that stands in an array. -/
def Starts (cs : List Char) : Prop := ∃ c more, cs = c :: more ∧ isSpace c = false ∧ c ≠ ']'

theorem starts_compactChars {v : Json} (h : v.isLegible = true) : Starts v.compactChars := by
  cases v with
  | null => exact ⟨'n', _, rfl, rfl, by decide⟩
  | bool b => cases b <;> exact ⟨_, _, rfl, rfl, by decide⟩
  | number n =>
    obtain ⟨c, cs, -, htext, hc, -⟩ := exists_numeral h (show Ends [] from nofun)
    exact ⟨c, cs, htext, (ne_of_startsNumeral hc).1, (ne_of_startsNumeral hc).2.1⟩
  | string s => exact ⟨'"', _, rfl, rfl, by decide⟩
  | array items => exact ⟨'[', _, rfl, rfl, by decide⟩
  | object members => exact ⟨'\x7b', _, rfl, rfl, by decide⟩

theorem Starts.append (h : Starts cs) (rest : List Char) : Starts (cs ++ rest) := by
  obtain ⟨c, more, rfl, hspace, hend⟩ := h
  exact ⟨c, more ++ rest, rfl, hspace, hend⟩

/-! ## One step of the reader -/

theorem value_array {items : List Draft} (hroom : 0 < room) (hcs : Starts cs)
    (h : elements fuel (room - 1) cs = (items, some rest)) :
    value (fuel + 1) room ('[' :: cs) = (.array items, some rest) := by
  obtain ⟨c, more, rfl, hspace, hend⟩ := hcs
  have hopen : skip ('[' :: c :: more) = '[' :: c :: more := skip_cons rfl _
  simp [value, hopen, skip_cons hspace, hend, h, bounded_of_pos hroom]

theorem value_object {members : List (String × Draft)} (hroom : 0 < room)
    (h : entries fuel (room - 1) ('"' :: cs) = (members, true, some rest)) :
    value (fuel + 1) room ('\x7b' :: '"' :: cs) = (.object members true, some rest) := by
  simp [value, skip_cons, isSpace, h, bounded_of_pos hroom]

theorem elements_last (h : value fuel room cs = (d, some (']' :: rest))) :
    elements (fuel + 1) room cs = ([d], some rest) := by
  simp [elements, h, skip_cons, isSpace]

theorem elements_more {items : List Draft} (h : value fuel room cs = (d, some (',' :: more)))
    (hmore : elements fuel room more = (items, some rest)) : elements (fuel + 1) room cs = (d :: items, some rest) := by
  simp [elements, h, hmore, skip_cons, isSpace]

theorem entries_last (key : String) (h : value fuel room cs = (d, some ('\x7d' :: rest))) :
    entries (fuel + 1) room (quote key ++ ':' :: cs) = ([(key, d)], true, some rest) := by
  simp [entries, quote, stringBody_quoted, h, skip_cons, isSpace]

theorem entries_more (key : String) {members : List (String × Draft)}
    (h : value fuel room cs = (d, some (',' :: more))) (hmore : entries fuel room more = (members, true, some rest)) :
    entries (fuel + 1) room (quote key ++ ':' :: cs) = ((key, d) :: members, true, some rest) := by
  simp [entries, quote, stringBody_quoted, h, hmore, skip_cons, isSpace]

/-! ## What is written is read -/

theorem ends_comma (rest : List Char) : Ends (',' :: rest) := by
  intro c hc
  cases hc
  decide

theorem ends_item (rest : List Char) : Ends (']' :: rest) := by
  intro c hc
  cases hc
  decide

theorem ends_member (rest : List Char) : Ends ('\x7d' :: rest) := by
  intro c hc
  cases hc
  decide

theorem ends_nil : Ends [] := nofun

theorem value_compactChars_scalar {v : Json} (hscalar : v.compactChars = scalarText v) (hlegible : v.isLegible = true)
    (hrest : Ends rest) : value (fuel + 1) room (v.compactChars ++ rest) = (ofJson v, some rest) := by
  cases v with
  | null => simp [compactChars, scalarText, value, skip_cons, isSpace, word?, Text.dropStart?, ofJson]
  | bool b => cases b <;> simp [compactChars, scalarText, value, skip_cons, isSpace, word?, Text.dropStart?, ofJson]
  | number n =>
    obtain ⟨c, cs, numeral, htext, hc, hread, hvalue⟩ := exists_numeral hlegible hrest
    simp only [compactChars, scalarText, htext, ofJson]
    exact value_numeral hc hread hvalue
  | string s =>
    simp [compactChars, scalarText, quote, value, skip_cons, isSpace, stringBody_quoted, ofJson]
  | array items => simp [compactChars, scalarText] at hscalar
  | object members => simp [compactChars, scalarText] at hscalar

theorem starts_compactItems {v : Json} (h : v.isLegible = true) (items : List Json) :
    Starts (compactItems (v :: items)) := by
  cases items with
  | nil => exact starts_compactChars h
  | cons w items => exact (starts_compactChars h).append _

theorem Starts.length_pos (h : Starts cs) : 0 < cs.length := by
  obtain ⟨c, more, rfl, -⟩ := h
  exact Nat.succ_pos _

mutual

/-- A value that is written is read back, if it is not nested too deep. -/
theorem value_compactChars : ∀ (v : Json) {fuel room : Nat} {rest : List Char}, v.isLegible = true → v.depth ≤ room →
    2 * v.compactChars.length ≤ fuel → Ends rest → value fuel room (v.compactChars ++ rest) = (ofJson v, some rest)
  | v, 0, _, _, hlegible, _, hfuel, _ => by
    have hpos := (starts_compactChars hlegible).length_pos
    omega
  | .array [], fuel + 1, room, rest, _, hdepth, _, _ => by
    simp only [depth] at hdepth
    have hroom : 0 < room := by omega
    simp [compactChars, compactItems, value, skip_cons, isSpace, ofJson, ofItems, bounded_of_pos hroom]
  | .array (v :: items), fuel + 1, room, rest, hlegible, hdepth, hfuel, _ => by
    simp only [isLegible, isLegibleItems, Bool.and_eq_true, depth, itemsDepth, compactChars, List.length_append,
      List.length_cons, List.length_nil] at hlegible hdepth hfuel
    have hitems : elements fuel (room - 1) (compactItems (v :: items) ++ ']' :: rest) =
        (ofItems (v :: items), some rest) :=
      elements_compactItems v items (by simpa [isLegibleItems] using hlegible) (by simp only [itemsDepth]; omega)
        (by omega)
    have hread := value_array (by omega) ((starts_compactItems hlegible.1 items).append _) hitems
    simpa [compactChars, ofJson] using hread
  | .object [], fuel + 1, room, rest, _, hdepth, _, _ => by
    simp only [depth] at hdepth
    have hroom : 0 < room := by omega
    simp [compactChars, compactMembers, value, skip_cons, isSpace, ofJson, ofMembers, bounded_of_pos hroom]
  | .object ((k, v) :: members), fuel + 1, room, rest, hlegible, hdepth, hfuel, _ => by
    simp only [isLegible, isLegibleMembers, Bool.and_eq_true, depth, membersDepth, compactChars, List.length_append,
      List.length_cons, List.length_nil] at hlegible hdepth hfuel
    have hmembers : entries fuel (room - 1) (compactMembers ((k, v) :: members) ++ '\x7d' :: rest) =
        (ofMembers ((k, v) :: members), true, some rest) :=
      entries_compactMembers k v members (by simpa [isLegibleMembers] using hlegible)
        (by simp only [membersDepth]; omega) (by omega)
    obtain ⟨cs, hcs⟩ : ∃ cs, compactMembers ((k, v) :: members) = '"' :: cs := by
      cases members <;> exact ⟨_, rfl⟩
    rw [hcs] at hmembers
    have hread := value_object (by omega) hmembers
    simpa [compactChars, ofJson, hcs] using hread
  | .null, fuel + 1, room, rest, hlegible, _, _, hrest => value_compactChars_scalar rfl hlegible hrest
  | .bool _, fuel + 1, room, rest, hlegible, _, _, hrest => value_compactChars_scalar rfl hlegible hrest
  | .number _, fuel + 1, room, rest, hlegible, _, _, hrest => value_compactChars_scalar rfl hlegible hrest
  | .string _, fuel + 1, room, rest, hlegible, _, _, hrest => value_compactChars_scalar rfl hlegible hrest

theorem elements_compactItems : ∀ (v : Json) (items : List Json) {fuel room : Nat} {rest : List Char},
    isLegibleItems (v :: items) = true → itemsDepth (v :: items) ≤ room →
    2 * (compactItems (v :: items)).length < fuel →
    elements fuel room (compactItems (v :: items) ++ ']' :: rest) = (ofItems (v :: items), some rest)
  | v, [], fuel + 1, room, rest, hlegible, hdepth, hfuel => by
    simp only [isLegibleItems, Bool.and_true, itemsDepth, compactItems] at hlegible hdepth hfuel
    exact elements_last (value_compactChars v hlegible (by omega) (by omega) (ends_item rest))
  | v, w :: items, fuel + 1, room, rest, hlegible, hdepth, hfuel => by
    obtain ⟨hv, hitems⟩ := Bool.and_eq_true_iff.1 hlegible
    rw [itemsDepth] at hdepth
    simp only [compactItems, List.length_append, List.length_cons] at hfuel
    have hmore : elements fuel room (compactItems (w :: items) ++ ']' :: rest) = (ofItems (w :: items), some rest) :=
      elements_compactItems w items hitems (Nat.le_trans (Nat.le_max_right _ _) hdepth) (by omega)
    have hfirst (more : List Char) : value fuel room (v.compactChars ++ ',' :: more) = (ofJson v, some (',' :: more)) :=
      value_compactChars v hv (Nat.le_trans (Nat.le_max_left _ _) hdepth) (by omega) (ends_comma more)
    rw [compactItems, List.append_assoc, List.cons_append]
    exact elements_more (hfirst _) hmore
  | v, _, 0, room, rest, hlegible, hdepth, hfuel => absurd hfuel (Nat.not_lt_zero _)

theorem entries_compactMembers : ∀ (k : String) (v : Json) (members : List (String × Json)) {fuel room : Nat}
    {rest : List Char},
    isLegibleMembers ((k, v) :: members) = true → membersDepth ((k, v) :: members) ≤ room →
    2 * (compactMembers ((k, v) :: members)).length < fuel →
    entries fuel room (compactMembers ((k, v) :: members) ++ '\x7d' :: rest) =
      (ofMembers ((k, v) :: members), true, some rest)
  | k, v, [], fuel + 1, room, rest, hlegible, hdepth, hfuel => by
    simp only [isLegibleMembers, Bool.and_true, membersDepth, compactMembers, List.length_append,
      List.length_cons] at hlegible hdepth hfuel
    have hread : value fuel room (v.compactChars ++ '\x7d' :: rest) = (ofJson v, some ('\x7d' :: rest)) :=
      value_compactChars v hlegible (by omega) (by omega) (ends_member rest)
    simpa [compactMembers, ofMembers] using entries_last k hread
  | k, v, (l, w) :: members, fuel + 1, room, rest, hlegible, hdepth, hfuel => by
    obtain ⟨hv, hmembers⟩ := Bool.and_eq_true_iff.1 hlegible
    rw [membersDepth] at hdepth
    simp only [compactMembers, List.length_append, List.length_cons] at hfuel
    have hmore : entries fuel room (compactMembers ((l, w) :: members) ++ '\x7d' :: rest) =
        (ofMembers ((l, w) :: members), true, some rest) :=
      entries_compactMembers l w members hmembers (Nat.le_trans (Nat.le_max_right _ _) hdepth) (by omega)
    have hfirst (more : List Char) : value fuel room (v.compactChars ++ ',' :: more) = (ofJson v, some (',' :: more)) :=
      value_compactChars v hv (Nat.le_trans (Nat.le_max_left _ _) hdepth) (by omega) (ends_comma more)
    rw [compactMembers, ofMembers]
    simpa using entries_more k (hfirst _) hmore
  | _, v, _, 0, room, rest, hlegible, hdepth, hfuel => absurd hfuel (Nat.not_lt_zero _)

end

variable {v w : Json}

/-- The document of a text that was written is the value it was written for. -/
theorem ofText_compact (hlegible : v.isLegible = true) (hdepth : v.depth ≤ maxDepth) : ofText v.compact = ofJson v := by
  have hread : value (2 * v.compactChars.length + 2) maxDepth (v.compactChars ++ []) = (ofJson v, some []) :=
    value_compactChars v hlegible hdepth (by omega) ends_nil
  rw [List.append_nil] at hread
  simp only [ofText, Json.compact, String.toList_ofList, hread]
  rfl

/-- A reader with room for both reads both. -/
theorem ofJson_eq_of_compact (hv : v.isLegible = true) (hw : w.isLegible = true) (h : v.compact = w.compact) :
    ofJson v = ofJson w := by
  have hchars : v.compactChars = w.compactChars := by simpa [Json.compact] using congrArg String.toList h
  have hread (u : Json) (hu : u.isLegible = true) (hdepth : u.depth ≤ max v.depth w.depth) :
      value (2 * u.compactChars.length) (max v.depth w.depth) (u.compactChars ++ []) = (ofJson u, some []) :=
    value_compactChars u hu hdepth (Nat.le_refl _) ends_nil
  have hreadv := hread v hv (Nat.le_max_left _ _)
  rw [hchars, hread w hw (Nat.le_max_right _ _)] at hreadv
  exact (congrArg Prod.fst hreadv).symm

end Draft

/-- The compact text of a value without fractions is that of no other such value. -/
theorem Json.eq_of_compact {v w : Json} (hv : v.Canonical) (hw : w.Canonical) (hwholev : v.isWhole = true)
    (hwholew : w.isWhole = true) (h : v.compact = w.compact) : v = w := by
  have hdocument := Draft.ofJson_eq_of_compact (isLegible_of_isWhole v hwholev) (isLegible_of_isWhole w hwholew) h
  have hsame : Decode.json (.ofJson v) = Decode.json (.ofJson w) := congrArg Decode.json hdocument
  rw [json_ofJson, json_ofJson, (sorted_eq_iff_canonical v).2 hv, (sorted_eq_iff_canonical w).2 hw] at hsame
  exact Except.ok.inj hsame

end TableEscrow
