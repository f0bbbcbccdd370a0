import TableEscrow.Config.SecretGuard
import TableEscrow.Yaml.Scalar
import TableEscrow.Proofs.Digits
import TableEscrow.Proofs.Magnitudes
/-!
# Signing keys as plain scalars

A key that nothing quotes is read as YAML reads its digits. It is a number if it is decimal digits
without a zero in front, digits around the letter of an exponent, bits after `0b`, or, after `0x`,
zeros but for the last sixteen digits (`Numeric`). Any other key is its own text, or is a number that
is too wide to be read (`value?_key`).
-/

namespace TableEscrow.SigningKey

open Yaml Yaml.Scalar Text

variable {c : Char} {cs body rest whole : List Char} {k : String}

/-- 64 hexadecimal digits, after `0x` or not. -/
inductive IsKey : List Char → Prop
  | bare {body : List Char} (length : body.length = 64) (digits : body.all isHexDigit = true) : IsKey body
  | based {body : List Char} (length : body.length = 64) (digits : body.all isHexDigit = true) :
    IsKey ('0' :: 'x' :: body)

theorem ne_of_hex {d : Char} (h : isHexDigit c = true) (hd : isHexDigit d = false := by decide) : c ≠ d := by
  rintro rfl
  rw [h] at hd
  cases hd

theorem hex_of_digit (h : isDigit c = true) : isHexDigit c = true := by
  rw [isHexDigit, h]
  rfl

theorem startsSigned_of_hex (h : cs.all isHexDigit = true) : startsSigned cs = false := by
  cases cs with
  | nil => rfl
  | cons c cs =>
    have hc := (Bool.and_eq_true_iff.1 h).1
    simp [startsSigned, ne_of_hex hc (d := '+'), ne_of_hex hc (d := '-')]

/-! ## Long scalars -/

theorem plain_of_long (h : 64 ≤ k.toList.length) : plain k =
    (integer? k.toList).getD (if isZeroPadded k.toList then .text else (real? k).getD .text) := by
  have hne : ∀ t : String, t.toList.length < 64 → k ≠ t := by
    rintro t ht rfl
    omega
  have hempty : k.isEmpty = false := by
    rw [Bool.eq_false_iff]
    intro hempty
    exact hne "" (by decide) (String.isEmpty_iff.1 hempty)
  have hnull : isNull k = false := by
    simp [isNull, hne "null" (by decide), hne "Null" (by decide), hne "NULL" (by decide), hne "~" (by decide)]
  have hbool : bool? k = none := by
    simp [bool?, hne "true" (by decide), hne "True" (by decide), hne "TRUE" (by decide), hne "false" (by decide),
      hne "False" (by decide), hne "FALSE" (by decide)]
  simp only [plain, hempty, hnull, hbool, Bool.or_self, Bool.false_eq_true, if_false]
  cases integer? k.toList <;> rfl

theorem real?_of_long (h : 64 ≤ k.toList.length) (hk : k.toList = c :: cs) (hplus : c ≠ '+') :
    real? k = (decimal? k.toList).bind fun x => if x.isFinite then some (.real x) else none := by
  have hne : ∀ t : String, t.toList.length < 64 → k ≠ t := by
    rintro t ht rfl
    omega
  have hword : String.ofList (c :: cs) = k := by rw [← hk, String.ofList_toList]
  simp [real?, hk, hplus, hword, hne ".inf" (by decide), hne ".Inf" (by decide), hne ".INF" (by decide),
    hne "-.inf" (by decide), hne "-.Inf" (by decide), hne "-.INF" (by decide), hne ".nan" (by decide),
    hne ".NaN" (by decide), hne ".NAN" (by decide)]
  cases decimal? (c :: cs) <;> rfl

/-! ## Decimals -/

theorem takeWhile_digits (h : whole.all isDigit = true) {rest : List Char} (hrest : rest.takeWhile isDigit = []) :
    (whole ++ rest).takeWhile isDigit = whole := by
  rw [List.takeWhile_append_of_pos (List.all_eq_true.1 h), hrest, List.append_nil]

theorem decimal?_digits (hne : whole ≠ []) (h : whole.all isDigit = true) :
    decimal? whole = some (.ofDecimal false (natOfDecimal whole) 0) := by
  have hwhole : whole.takeWhile isDigit = whole := by
    simpa using takeWhile_digits h (List.takeWhile_nil : [].takeWhile isDigit = [])
  cases whole with
  | nil => exact absurd rfl hne
  | cons d ds =>
    have hd := hex_of_digit (Bool.and_eq_true_iff.1 h).1
    simp [decimal?, hwhole, ne_of_hex hd (d := '-'), ne_of_hex hd (d := '+')]

/-- Digits and then a letter: a number only if the letter is that of an exponent. -/
theorem decimal?_letter (hwhole : whole.all isDigit = true) (hc : isHexDigit c = true ∨ c = 'x')
    (hletter : isDigit c = false) (hrest : rest.all isHexDigit = true) : decimal? (whole ++ c :: rest) =
      if whole = [] then none
      else if c = 'e' ∨ c = 'E' then
        (natOfDigits? 10 rest).map fun n => .ofDecimal false (natOfDecimal whole) n
      else none := by
  have hsplit : (whole ++ c :: rest).takeWhile isDigit = whole := takeWhile_digits hwhole (by simp [hletter])
  have hne {d : Char} (hd : isHexDigit d = false) (hx : 'x' ≠ d) : c ≠ d := by
    rcases hc with hc | rfl
    · exact ne_of_hex hc hd
    · exact hx
  have hdot : c ≠ '.' := hne (by decide) (by decide)
  cases whole with
  | nil =>
    rw [List.nil_append] at hsplit ⊢
    simp [decimal?, hsplit, hne (d := '-') (by decide) (by decide), hne (d := '+') (by decide) (by decide), hdot]
  | cons d ds =>
    have hd := hex_of_digit (Bool.and_eq_true_iff.1 hwhole).1
    rw [List.cons_append] at hsplit ⊢
    have hdrop : (ds ++ c :: rest).drop ds.length = c :: rest := List.drop_left
    cases rest with
    | nil => simp [decimal?, hsplit, ne_of_hex hd (d := '-'), ne_of_hex hd (d := '+'), hdot, natOfDigits?]
    | cons f more =>
      have hf := (Bool.and_eq_true_iff.1 hrest).1
      simp [decimal?, hsplit, ne_of_hex hd (d := '-'), ne_of_hex hd (d := '+'), hdot, ne_of_hex hf (d := '-'),
        ne_of_hex hf (d := '+')]
      cases natOfDigits? 10 (f :: more) <;> rfl

/-! ## Whole numbers -/

theorem integer?_of_natural {n : Nat} (h : natural? cs = some n) : integer? cs =
    if n < UInt64.size then some (.natural (.ofNat n))
    else if n < UInt64.size * UInt64.size then some .wide
    else none := by
  rw [integer?, h]

theorem integer?_of_hex (h : natural? (c :: cs) = none) (hc : isHexDigit c = true) : integer? (c :: cs) = none := by
  simp [integer?, h, negative?, ne_of_hex hc (d := '-')]

/-- A scalar with the sign of a base is a whole number or a text. -/
theorem plain_of_base {base : Nat} (hk : k.toList = '0' :: c :: body) (hlong : 64 ≤ k.toList.length)
    (hbase : based? k.toList = some (base, body)) (hc : isHexDigit c = true ∨ c = 'x') (hletter : isDigit c = false)
    (he : ¬ (c = 'e' ∨ c = 'E')) (hbody : body.all isHexDigit = true) (hne : body ≠ []) : plain k =
      if body.all (isDigitOf base) then
        if valueFrom base 0 body < UInt64.size then .natural (.ofNat (valueFrom base 0 body))
        else if valueFrom base 0 body < UInt64.size * UInt64.size then .wide
        else .text
      else .text := by
  have hnatural : natural? k.toList = if body.all (isDigitOf base) then some (valueFrom base 0 body) else none := by
    rw [hk] at hbase ⊢
    simp [natural?, hbase, startsSigned_of_hex hbody, natOfDigits?_eq hne]
  have hreal : real? k = none := by
    have hdecimal : decimal? k.toList = none := by
      rw [hk]
      have hletters : decimal? (['0'] ++ c :: body) = _ := decimal?_letter (by decide) hc hletter hbody
      rwa [if_neg (by simp), if_neg he] at hletters
    rw [real?_of_long hlong hk (by decide), hdecimal, Option.bind_none]
  rw [plain_of_long hlong, hreal]
  by_cases hall : body.all (isDigitOf base) = true
  · rw [if_pos hall] at hnatural
    rw [integer?_of_natural hnatural, if_pos hall]
    by_cases hword : valueFrom base 0 body < UInt64.size
    · simp only [hword, if_true, Option.getD_some]
    · by_cases hwide : valueFrom base 0 body < UInt64.size * UInt64.size
      · simp only [hword, hwide, if_true, if_false, Option.getD_some]
      · simp [hword, hwide]
  · rw [if_neg hall] at hnatural
    rw [hk] at hnatural ⊢
    rw [integer?_of_hex hnatural (by decide), if_neg hall]
    simp

/-! ## Decimal digits and letters -/

theorem based?_eq_none (h : ∀ d rest, cs = '0' :: d :: rest → d ≠ 'x' ∧ d ≠ 'o' ∧ d ≠ 'b') : based? cs = none := by
  unfold based?
  split
  · exact absurd rfl (h _ _ rfl).1
  · exact absurd rfl (h _ _ rfl).2.1
  · exact absurd rfl (h _ _ rfl).2.2
  · rfl

theorem isZeroPadded_of_hex {d : Char} (hc : isHexDigit c = true) :
    isZeroPadded (c :: d :: rest) = (decide (c = '0') && (d :: rest).all isDigit) := by
  by_cases hzero : c = '0'
  · subst hzero
    simp [isZeroPadded]
  · simp [isZeroPadded, ne_of_hex hc (d := '-'), ne_of_hex hc (d := '+'), hzero]

theorem natural?_of_hex (h : (c :: cs).all isHexDigit = true) (hbase : based? (c :: cs) = none) :
    natural? (c :: cs) = if isZeroPadded (c :: cs) then none else natOfDigits? 10 (c :: cs) := by
  have hplus := ne_of_hex (Bool.and_eq_true_iff.1 h).1 (d := '+')
  simp [natural?, hbase, startsSigned_of_hex h, hplus]

theorem finite_of_digits (h : cs.all isDigit = true) (hlength : cs.length ≤ 64) :
    (Binary64.ofDecimal false (natOfDecimal cs) 0).isFinite = true := by
  refine (Binary64.isFinite_ofDecimal_iff false (natOfDecimal cs) 0).2 ?_
  calc natOfDecimal cs * 10 ^ 0 = natOfDecimal cs := Nat.mul_one _
    _ < 10 ^ cs.length := natOfDecimal_lt h
    _ ≤ 10 ^ 64 := Nat.pow_le_pow_right (by decide) hlength
    _ ≤ Binary64.overflowBound := by decide +kernel

/-- Decimal digits have the sign of no base. -/
theorem based?_of_digits (h : cs.all isDigit = true) : based? cs = none := by
  refine based?_eq_none fun d tail heq => ?_
  have hd : isDigit d = true := List.all_eq_true.1 h d (by simp [heq])
  refine ⟨?_, ?_, ?_⟩ <;> (rintro rfl; cases hd)

/-- So many decimal digits are beyond two words. -/
theorem integer?_of_digits (hnatural : natural? (c :: cs) = some (natOfDecimal (c :: cs)))
    (h : (c :: cs).all isDigit = true) (nonzero : c ≠ '0') (hlength : cs.length = 63) : integer? (c :: cs) = none := by
  have hlarge := le_natOfDecimal h nonzero
  have hwide : UInt64.size * UInt64.size ≤ 10 ^ 63 := by decide +kernel
  have hword : UInt64.size ≤ 10 ^ 63 := by decide +kernel
  rw [hlength] at hlarge
  rw [integer?_of_natural hnatural, if_neg (Nat.not_lt.2 (Nat.le_trans hword hlarge)),
    if_neg (Nat.not_lt.2 (Nat.le_trans hwide hlarge))]

/-- Decimal digits are a fraction, but for a zero in front. -/
theorem plain_of_digits (hk : k.toList = c :: cs) (hlength : k.toList.length = 64) (h : k.toList.all isDigit = true) :
    plain k = if c = '0' then .text else .real (.ofDecimal false (natOfDecimal k.toList) 0) := by
  have hlong := Nat.le_of_eq hlength.symm
  obtain ⟨d, rest, rfl⟩ : ∃ d rest, cs = d :: rest := by
    cases cs with
    | nil => rw [hk] at hlength; cases hlength
    | cons d rest => exact ⟨d, rest, rfl⟩
  rw [hk] at h hlength
  obtain ⟨hc, hrest⟩ := Bool.and_eq_true_iff.1 h
  have hhex : (c :: d :: rest).all isHexDigit = true :=
    List.all_eq_true.2 fun c hc => hex_of_digit (List.all_eq_true.1 h c hc)
  have hpadded : isZeroPadded (c :: d :: rest) = decide (c = '0') := by
    rw [isZeroPadded_of_hex (hex_of_digit hc), hrest, Bool.and_true]
  have hnatural : natural? (c :: d :: rest) = if c = '0' then none else some (natOfDecimal (c :: d :: rest)) := by
    simp only [natural?_of_hex hhex (based?_of_digits h), hpadded, natOfDigits?_ten (List.cons_ne_nil _ _), h, if_true,
      decide_eq_true_eq]
  rw [plain_of_long hlong, hk]
  by_cases hzero : c = '0'
  · rw [if_pos hzero] at hnatural
    rw [integer?_of_hex hnatural (hex_of_digit hc), if_pos hzero]
    simp only [hpadded.trans (decide_eq_true hzero), if_true, Option.getD_none]
  · rw [if_neg hzero] at hnatural
    have hreal : real? k = some (.real (.ofDecimal false (natOfDecimal (c :: d :: rest)) 0)) := by
      rw [real?_of_long hlong hk (ne_of_hex (hex_of_digit hc)), hk, decimal?_digits (by simp) h]
      simp only [Option.bind_some, finite_of_digits h (Nat.le_of_eq hlength), if_true]
    simp [integer?_of_digits hnatural h hzero (Nat.succ.inj hlength), hpadded, hzero, hreal]

/-- The letter of an exponent that makes a finite fraction of the digits around it. -/
structure IsExponent (whole : List Char) (c : Char) (exponent : List Char) : Prop where
  letter : c = 'e' ∨ c = 'E'
  whole_digits : whole ≠ [] ∧ whole.all isDigit = true
  exponent_digits : exponent ≠ [] ∧ exponent.all isDigit = true
  finite : natOfDecimal whole * 10 ^ natOfDecimal exponent < Binary64.overflowBound

/-- A base has its sign after `0`, and of the letters of its sign `b` alone is a digit. -/
theorem based?_of_letter (hwhole : whole.all isDigit = true) (hletter : isDigit c = false)
    (hhex : (whole ++ c :: rest).all isHexDigit = true) (hb : ¬ (whole = ['0'] ∧ c = 'b')) :
    based? (whole ++ c :: rest) = none := by
  refine based?_eq_none fun d tail heq => ?_
  have hd : isHexDigit d = true := List.all_eq_true.1 hhex d (by simp [heq])
  refine ⟨ne_of_hex hd, ne_of_hex hd, ?_⟩
  rintro rfl
  match whole, heq with
  | [], heq => cases heq; cases hletter
  | [w], heq => cases heq; exact hb ⟨rfl, rfl⟩
  | _ :: w :: _, heq => cases heq; simp [isDigit] at hwhole

/-- Digits with a letter among them are no whole number. -/
theorem plain_of_fraction (hlong : 64 ≤ k.toList.length) (hhex : k.toList.all isHexDigit = true)
    (hdigits : k.toList.all isDigit = false) (hbase : based? k.toList = none) : plain k = (real? k).getD .text := by
  rw [plain_of_long hlong]
  match hcs : k.toList with
  | [] | [_] => rw [hcs] at hlong; simp at hlong
  | d :: e :: more =>
    rw [hcs] at hhex hdigits hbase
    have hd : isHexDigit d = true := (Bool.and_eq_true_iff.1 hhex).1
    have hnatural : natural? (d :: e :: more) = none := by
      rw [natural?_of_hex hhex hbase, natOfDigits?_ten (by simp), hdigits]
      simp
    have hpadded : isZeroPadded (d :: e :: more) = false := by
      rw [isZeroPadded_of_hex hd]
      by_cases hzero : d = '0'
      · subst hzero
        exact hdigits
      · rw [decide_eq_false hzero, Bool.false_and]
    rw [integer?_of_hex hnatural hd, hpadded]
    rfl

/-- Digits with a letter among them are a text, but for an exponent. -/
theorem plain_of_letter (hk : k.toList = whole ++ c :: rest) (hlong : 64 ≤ k.toList.length)
    (hwhole : whole.all isDigit = true) (hletter : isDigit c = false) (hhex : k.toList.all isHexDigit = true)
    (hb : ¬ (whole = ['0'] ∧ c = 'b')) :
    (IsExponent whole c rest → plain k = .real (.ofDecimal false (natOfDecimal whole) (natOfDecimal rest))) ∧
    (¬ IsExponent whole c rest → plain k = .text) := by
  have hother : k.toList.all isDigit = false := by
    rw [hk, List.all_append, List.all_cons, hletter, Bool.false_and, Bool.and_false]
  have hbase : based? k.toList = none := hk ▸ based?_of_letter hwhole hletter (hk ▸ hhex) hb
  obtain ⟨d, more, hcs, hd⟩ : ∃ d more, k.toList = d :: more ∧ isHexDigit d = true := by
    match hcs : k.toList with
    | [] => rw [hcs] at hlong; cases hlong
    | d :: more => exact ⟨d, more, rfl, (Bool.and_eq_true_iff.1 (hcs ▸ hhex)).1⟩
  obtain ⟨-, hc, hrest⟩ : whole.all isHexDigit = true ∧ isHexDigit c = true ∧ rest.all isHexDigit = true := by
    simpa only [hk, List.all_append, List.all_cons, Bool.and_eq_true_iff] using hhex
  rw [plain_of_fraction hlong hhex hother hbase, real?_of_long hlong hcs (ne_of_hex hd), hk,
    decimal?_letter hwhole (.inl hc) hletter hrest]
  constructor
  · rintro ⟨hexp, ⟨hne, -⟩, ⟨hsome, hdigits⟩, hsmall⟩
    have hfinite := (Binary64.isFinite_ofDecimal_iff false _ _).2 hsmall
    rw [if_neg hne, if_pos hexp, natOfDigits?_ten hsome, if_pos hdigits]
    simp only [Option.map_some, Option.bind_some, hfinite, if_true, Option.getD_some]
  · intro hno
    by_cases hne : whole = []
    · rw [if_pos hne]
      rfl
    by_cases hexp : c = 'e' ∨ c = 'E'
    · rw [if_neg hne, if_pos hexp]
      by_cases hsome : rest = []
      · rw [hsome]
        rfl
      rw [natOfDigits?_ten hsome]
      by_cases hdigits : rest.all isDigit = true
      · have hlarge : ¬ (Binary64.ofDecimal false (natOfDecimal whole) (natOfDecimal rest)).isFinite = true :=
          fun hfinite => hno ⟨hexp, ⟨hne, hwhole⟩, ⟨hsome, hdigits⟩, (Binary64.isFinite_ofDecimal_iff false _ _).1 hfinite⟩
        simp only [hdigits, if_true, Option.map_some, Option.bind_some, if_neg hlarge, Option.getD_none]
      · rw [if_neg hdigits]
        rfl
    · rw [if_neg hne, if_neg hexp]
      rfl

/-! ## Keys that are numbers -/

/-- A key that is read as a number if nothing quotes it. -/
inductive Numeric : List Char → Prop
  /-- All but the last sixteen digits are zeros. -/
  | short {low : List Char} (length : low.length = 16) : Numeric ('0' :: 'x' :: (List.replicate 48 '0' ++ low))
  | binary {bits : List Char} (digits : bits.all (isDigitOf 2) = true) : Numeric ('0' :: 'b' :: bits)
  | decimal {c : Char} {cs : List Char} (digits : (c :: cs).all isDigit = true) (nonzero : c ≠ '0') : Numeric (c :: cs)
  | exponent {whole exponent : List Char} {c : Char} (h : IsExponent whole c exponent) : Numeric (whole ++ c :: exponent)

/-- Digits are only that, or there is a first letter among them. -/
theorem exists_letter (cs : List Char) : cs.all isDigit = true ∨
    ∃ whole c rest, cs = whole ++ c :: rest ∧ whole.all isDigit = true ∧ isDigit c = false := by
  induction cs with
  | nil => exact .inl rfl
  | cons d ds ih =>
    cases hd : isDigit d with
    | false => exact .inr ⟨[], d, ds, rfl, rfl, hd⟩
    | true =>
      rcases ih with hds | ⟨whole, c, rest, rfl, hwhole, hc⟩
      · exact .inl (Bool.and_eq_true_iff.2 ⟨hd, hds⟩)
      · exact .inr ⟨d :: whole, c, rest, rfl, Bool.and_eq_true_iff.2 ⟨hd, hwhole⟩, hc⟩

theorem split_unique {others more : List Char} {d : Char} (hwhole : whole.all isDigit = true) (hc : isDigit c = false)
    (hothers : others.all isDigit = true) (hd : isDigit d = false) (h : whole ++ c :: rest = others ++ d :: more) :
    whole = others ∧ c = d ∧ rest = more := by
  have hsame : whole = others := by
    have hfirst : (whole ++ c :: rest).takeWhile isDigit = whole := takeWhile_digits hwhole (by simp [hc])
    rw [← hfirst, h, takeWhile_digits hothers (by simp [hd])]
  subst hsame
  exact ⟨rfl, List.cons.inj (List.append_cancel_left h)⟩

theorem IsExponent.not_digit (h : IsExponent whole c rest) : isDigit c = false := by
  rcases h.letter with rfl | rfl <;> rfl

theorem Numeric.of_based (h : Numeric ('0' :: 'x' :: body)) :
    ∃ low : List Char, low.length = 16 ∧ body = List.replicate 48 '0' ++ low := by
  generalize hcs : '0' :: 'x' :: body = cs at h
  cases h with
  | @short low length => exact ⟨low, length, (List.cons.inj (List.cons.inj hcs).2).2⟩
  | binary => simp at hcs
  | decimal digits =>
    rw [← hcs] at digits
    cases digits
  | exponent h =>
    obtain ⟨-, rfl, -⟩ := split_unique rfl rfl h.whole_digits.2 h.not_digit (show ['0'] ++ 'x' :: body = _ from hcs)
    exact absurd h.letter (by decide)

theorem Numeric.of_letter (h : Numeric (whole ++ c :: rest)) (hwhole : whole.all isDigit = true) (hletter : isDigit c = false)
    (hc : isHexDigit c = true) :
    (whole = ['0'] ∧ c = 'b' ∧ rest.all (isDigitOf 2) = true) ∨ IsExponent whole c rest := by
  generalize hcs : whole ++ c :: rest = cs at h
  cases h with
  | short length =>
    obtain ⟨-, rfl, -⟩ := split_unique hwhole hletter rfl rfl (show _ = ['0'] ++ 'x' :: _ from hcs)
    cases hc
  | binary digits =>
    obtain ⟨rfl, rfl, rfl⟩ := split_unique hwhole hletter rfl rfl (show _ = ['0'] ++ 'b' :: _ from hcs)
    exact .inl ⟨rfl, rfl, digits⟩
  | decimal digits =>
    rw [← hcs, List.all_append, List.all_cons, hletter, Bool.false_and, Bool.and_false] at digits
    cases digits
  | exponent h =>
    obtain ⟨rfl, rfl, rfl⟩ := split_unique hwhole hletter h.whole_digits.2 h.not_digit hcs
    exact .inr h

theorem Numeric.of_digits (h : Numeric (c :: cs)) (hdigits : (c :: cs).all isDigit = true) : c ≠ '0' := by
  generalize hds : c :: cs = ds at h
  cases h with
  | short => rw [hds] at hdigits; cases hdigits
  | binary => rw [hds] at hdigits; cases hdigits
  | decimal _ nonzero => cases hds; exact nonzero
  | exponent h =>
    rw [hds, List.all_append, List.all_cons, h.not_digit, Bool.false_and, Bool.and_false] at hdigits
    cases hdigits

/-- 64 hexadecimal digits fit a word if the first 48 are zeros. -/
theorem fits_word_iff (hlength : body.length = 64) (hbody : body.all (isDigitOf 16) = true) :
    valueFrom 16 0 body < UInt64.size ↔ ∃ low : List Char, low.length = 16 ∧ body = List.replicate 48 '0' ++ low := by
  have hsize : UInt64.size = 1 * 16 ^ 16 := by decide +kernel
  -- Sixteen digits are a word, so what is in front of the last sixteen has to be zero.
  rw [← List.take_append_drop 48 body] at hbody ⊢
  have hhigh : (body.take 48).length = 48 := by rw [List.length_take, hlength]; rfl
  have hlow : (body.drop 48).length = 16 := by rw [List.length_drop, hlength]
  generalize body.take 48 = high at hbody hhigh ⊢
  generalize body.drop 48 = low at hbody hlow ⊢
  obtain ⟨hhighs, hlows⟩ : high.all (isDigitOf 16) = true ∧ low.all (isDigitOf 16) = true := by
    simpa only [List.all_append, Bool.and_eq_true_iff] using hbody
  obtain ⟨hleast, hmost⟩ := valueFrom_bounds hlows (valueFrom 16 0 high)
  rw [valueFrom_append, hsize]
  rw [hlow] at hleast hmost
  constructor
  · intro hlt
    have hzero : valueFrom 16 0 high = 0 :=
      Nat.lt_one_iff.1 (Nat.lt_of_mul_lt_mul_right (Nat.lt_of_le_of_lt hleast hlt))
    obtain ⟨-, hzeros⟩ := eq_replicate_of_valueFrom (by decide) hzero hhighs
    exact ⟨low, hlow, by rw [← hhigh, ← hzeros]⟩
  · rintro ⟨last, hlast, heq⟩
    obtain ⟨rfl, -⟩ := List.append_inj heq (by rw [hhigh, List.length_replicate])
    exact hmost

/-- What a scalar means: a number if it is one of those, or else a text, or nothing that can be read. -/
def Decided (k : String) : Prop :=
  Numeric k.toList ∧ ((∃ n, plain k = .natural n) ∨ ∃ x, plain k = .real x) ∨
  ¬ Numeric k.toList ∧ (plain k = .wide ∨ plain k = .text)

theorem decided_based (hk : k.toList = '0' :: 'x' :: body) (hlength : body.length = 64)
    (hdigits : body.all isHexDigit = true) : Decided k := by
  have hall := (all_isDigitOf_sixteen body).trans hdigits
  have hplain := plain_of_base hk (by simp [hk, hlength]) (by rw [hk]; rfl) (.inr rfl) rfl (by decide) hdigits
    (by rintro rfl; cases hlength)
  rw [if_pos hall] at hplain
  rw [Decided, hk]
  by_cases hword : valueFrom 16 0 body < UInt64.size
  · obtain ⟨low, hlow, rfl⟩ := (fits_word_iff hlength hall).1 hword
    exact .inl ⟨.short hlow, .inl ⟨_, hplain.trans (if_pos hword)⟩⟩
  · rw [if_neg hword] at hplain
    refine .inr ⟨fun hn => hword ((fits_word_iff hlength hall).2 hn.of_based), ?_⟩
    split at hplain
    · exact .inl hplain
    · exact .inr hplain

theorem decided_digits (hk : k.toList = c :: cs) (hlength : k.toList.length = 64) (hdigits : k.toList.all isDigit = true) :
    Decided k := by
  have hplain := plain_of_digits hk hlength hdigits
  rw [hk] at hdigits
  rw [Decided, hk]
  by_cases hzero : c = '0'
  · exact .inr ⟨fun hn => hn.of_digits hdigits hzero, .inr (hplain.trans (if_pos hzero))⟩
  · exact .inl ⟨.decimal hdigits hzero, .inr ⟨_, hplain.trans (if_neg hzero)⟩⟩

theorem decided_binary (hk : k.toList = '0' :: 'b' :: rest) (hlength : rest.length = 62)
    (hdigits : rest.all isHexDigit = true) : Decided k := by
  have hplain := plain_of_base hk (by simp [hk, hlength]) (by rw [hk]; rfl) (.inl rfl) rfl (by decide) hdigits
    (by rintro rfl; cases hlength)
  rw [Decided, hk]
  by_cases hbits : rest.all (isDigitOf 2) = true
  · have hword : valueFrom 2 0 rest < UInt64.size := by
      have hbounds := (valueFrom_bounds hbits 0).2
      rw [hlength] at hbounds
      exact Nat.lt_trans hbounds (by decide +kernel)
    rw [if_pos hbits, if_pos hword] at hplain
    exact .inl ⟨.binary hbits, .inl ⟨_, hplain⟩⟩
  · rw [if_neg hbits] at hplain
    refine .inr ⟨fun hn => ?_, .inr hplain⟩
    rcases Numeric.of_letter (show Numeric (['0'] ++ 'b' :: rest) from hn) rfl rfl rfl with ⟨-, -, hbits'⟩ | hexp
    · exact hbits hbits'
    · exact absurd hexp.letter (by decide)

theorem decided_letter (hk : k.toList = whole ++ c :: rest) (hlong : 64 ≤ k.toList.length)
    (hwhole : whole.all isDigit = true) (hletter : isDigit c = false) (hhex : k.toList.all isHexDigit = true)
    (hb : ¬ (whole = ['0'] ∧ c = 'b')) : Decided k := by
  obtain ⟨hreal, htext⟩ := plain_of_letter hk hlong hwhole hletter hhex hb
  have hc : isHexDigit c = true := List.all_eq_true.1 hhex c (by simp [hk])
  rw [Decided, hk]
  by_cases hexp : IsExponent whole c rest
  · exact .inl ⟨.exponent hexp, .inr ⟨_, hreal hexp⟩⟩
  · refine .inr ⟨fun hn => ?_, .inr (htext hexp)⟩
    rcases hn.of_letter hwhole hletter hc with ⟨hzero, hletterb, -⟩ | hexp'
    · exact hb ⟨hzero, hletterb⟩
    · exact hexp hexp'

theorem decided_key (h : IsKey k.toList) : Decided k := by
  generalize hk : k.toList = cs at h
  cases h with
  | based hlength hdigits => exact decided_based hk hlength hdigits
  | bare hlength hdigits =>
    rcases exists_letter cs with hdecimal | ⟨whole, c, rest, rfl, hwhole, hletter⟩
    · obtain ⟨c, cs, rfl⟩ := List.exists_cons_of_length_pos (Nat.lt_of_lt_of_eq (by decide : 0 < 64) hlength.symm)
      exact decided_digits hk (hk ▸ hlength) (hk ▸ hdecimal)
    · -- `b` is the one letter of a base that is a digit itself.
      by_cases hb : whole = ['0'] ∧ c = 'b'
      · obtain ⟨rfl, rfl⟩ := hb
        have hrest : rest.all isHexDigit = true := List.all_eq_true.2 fun d hd => List.all_eq_true.1 hdigits d (by simp [hd])
        exact decided_binary hk (by simpa using hlength) hrest
      · exact decided_letter hk (Nat.le_of_eq (hk ▸ hlength.symm)) hwhole hletter (hk ▸ hdigits) hb

/-- A key without quotes is a number or it is its own text, if it is read at all. -/
theorem value?_key (h : IsKey k.toList) :
    (Numeric k.toList → ∃ n, value? none true k = some (.number n)) ∧
    (¬ Numeric k.toList → value? none true k = none ∨ value? none true k = some (.string k)) := by
  rcases decided_key h with ⟨hn, ⟨n, hplain⟩ | ⟨x, hplain⟩⟩ | ⟨hn, hplain | hplain⟩
  · exact ⟨fun _ => ⟨.natural n, by simp [value?, hplain, Json.natural]⟩, fun hno => absurd hn hno⟩
  · exact ⟨fun _ => ⟨.real x, by simp [value?, hplain]⟩, fun hno => absurd hn hno⟩
  · exact ⟨fun hyes => absurd hyes hn, fun _ => .inl (by simp [value?, hplain])⟩
  · exact ⟨fun hyes => absurd hyes hn, fun _ => .inr (by simp [value?, hplain])⟩

end TableEscrow.SigningKey
