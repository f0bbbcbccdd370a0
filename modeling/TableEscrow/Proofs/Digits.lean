import Mathlib.Algebra.Group.Nat.Defs
import Mathlib.Data.List.Induction
import TableEscrow.Text
/-!
# Digits

A text is read as a number exactly if it is digits of the base and not empty (`natOfDigits?_eq`), and
the number is then known between two multiples of a power of the base (`valueFrom_bounds`). Digits that a
number is written as are read as that number (`decimal_toDigits`, `natOfDigits?_hexDigits`).
-/

namespace TableEscrow.Text

variable {base : Nat} {c : Char} {cs : List Char}

/-! ## Classes of digits -/

def isDigitOf (base : Nat) (c : Char) : Bool := (digitValue? c).any (· < base)

theorem char_le_iff (a b : Char) : a ≤ b ↔ a.toNat ≤ b.toNat := by
  rw [Char.le_def, UInt32.le_iff_toNat_le]
  rfl

/-- The digits of base ten. -/
theorem isDigit_iff : isDigit c = true ↔ 48 ≤ c.toNat ∧ c.toNat ≤ 57 := by
  simp only [isDigit, Bool.and_eq_true, decide_eq_true_eq, char_le_iff]
  rfl

theorem isHexDigit_iff : isHexDigit c = true ↔
    48 ≤ c.toNat ∧ c.toNat ≤ 57 ∨ 97 ≤ c.toNat ∧ c.toNat ≤ 102 ∨ 65 ≤ c.toNat ∧ c.toNat ≤ 70 := by
  simp only [isHexDigit, Bool.or_eq_true, isDigit_iff, Bool.and_eq_true, decide_eq_true_eq, char_le_iff, or_assoc]
  rfl

theorem digitValue?_of_isDigit (h : isDigit c = true) : digitValue? c = some (c.toNat - 48) := by
  rw [digitValue?, if_pos h]

theorem digitValue?_cases (c : Char) :
    48 ≤ c.toNat ∧ c.toNat ≤ 57 ∧ digitValue? c = some (c.toNat - 48) ∨
    97 ≤ c.toNat ∧ c.toNat ≤ 102 ∧ digitValue? c = some (c.toNat - 87) ∨
    65 ≤ c.toNat ∧ c.toNat ≤ 70 ∧ digitValue? c = some (c.toNat - 55) ∨
    isHexDigit c = false ∧ digitValue? c = none := by
  have hletters : 'a'.toNat = 97 ∧ 'f'.toNat = 102 ∧ 'A'.toNat = 65 ∧ 'F'.toNat = 70 := by decide
  rw [← Bool.not_eq_true, isHexDigit_iff]
  simp only [digitValue?, isDigit_iff, Bool.and_eq_true, decide_eq_true_eq, char_le_iff, hletters]
  split
  · next h => exact .inl ⟨h.1, h.2, rfl⟩
  · split
    · next h => exact .inr (.inl ⟨h.1, h.2, rfl⟩)
    · split
      · next h => exact .inr (.inr (.inl ⟨h.1, h.2, rfl⟩))
      · exact .inr (.inr (.inr ⟨by omega, rfl⟩))

theorem isDigitOf_iff : isDigitOf base c = true ↔
    48 ≤ c.toNat ∧ c.toNat ≤ 57 ∧ c.toNat - 48 < base ∨ 97 ≤ c.toNat ∧ c.toNat ≤ 102 ∧ c.toNat - 87 < base ∨
    65 ≤ c.toNat ∧ c.toNat ≤ 70 ∧ c.toNat - 55 < base := by
  rw [isDigitOf]
  rcases digitValue?_cases c with ⟨hlow, hhigh, h⟩ | ⟨hlow, hhigh, h⟩ | ⟨hlow, hhigh, h⟩ | ⟨hno, h⟩
  all_goals simp only [h, Option.any_some, Option.any_none, decide_eq_true_eq, Bool.false_eq_true]
  · omega
  · omega
  · omega
  · rw [← Bool.not_eq_true, isHexDigit_iff] at hno
    exact iff_of_false id (by omega)

theorem isDigitOf_ten : isDigitOf 10 c = isDigit c := by
  rw [Bool.eq_iff_iff, isDigitOf_iff, isDigit_iff]
  omega

theorem isDigitOf_sixteen : isDigitOf 16 c = isHexDigit c := by
  rw [Bool.eq_iff_iff, isDigitOf_iff, isHexDigit_iff]
  omega

/-! ## What digits write -/

/-- The number that digits write behind a number that others have written. -/
def valueFrom (base n : Nat) (cs : List Char) : Nat := cs.foldl (fun n c => n * base + (digitValue? c).getD 0) n

theorem valueFrom_cons (base n : Nat) (c : Char) (cs : List Char) :
    valueFrom base n (c :: cs) = valueFrom base (n * base + (digitValue? c).getD 0) cs := rfl

theorem valueFrom_append (base n : Nat) (cs ds : List Char) :
    valueFrom base n (cs ++ ds) = valueFrom base (valueFrom base n cs) ds := List.foldl_append

/-- A number that has been read so far, and then one character more. -/
def addDigit? (base : Nat) (acc : Option Nat) (c : Char) : Option Nat := do
  let n ← acc
  let d ← digitValue? c
  if d < base then some (n * base + d) else none

theorem foldl_addDigit?_none (base : Nat) (cs : List Char) : cs.foldl (addDigit? base) none = none := by
  induction cs with
  | nil => rfl
  | cons c cs ih => exact ih

theorem foldl_addDigit?_some (cs : List Char) (n : Nat) : cs.foldl (addDigit? base) (some n) =
    if cs.all (isDigitOf base) then some (valueFrom base n cs) else none := by
  induction cs generalizing n with
  | nil => rfl
  | cons c cs ih =>
    rw [List.foldl_cons, List.all_cons, valueFrom_cons, isDigitOf]
    cases hd : digitValue? c with
    | none => simpa [addDigit?, hd] using foldl_addDigit?_none base cs
    | some d =>
      by_cases hlt : d < base
      · simpa [addDigit?, hd, hlt] using ih (n * base + d)
      · simpa [addDigit?, hd, hlt] using foldl_addDigit?_none base cs

theorem natOfDigits?_eq (h : cs ≠ []) :
    natOfDigits? base cs = if cs.all (isDigitOf base) then some (valueFrom base 0 cs) else none := by
  cases cs with
  | nil => exact absurd rfl h
  | cons c cs => exact foldl_addDigit?_some (c :: cs) 0

theorem digit_lt (h : isDigitOf base c = true) : (digitValue? c).getD 0 < base := by
  cases hd : digitValue? c with
  | none => simp [isDigitOf, hd] at h
  | some d => simpa [isDigitOf, hd] using h

/-- Digits behind a number keep it between two multiples of a power of the base. -/
theorem valueFrom_bounds (h : cs.all (isDigitOf base) = true) (n : Nat) :
    n * base ^ cs.length ≤ valueFrom base n cs ∧ valueFrom base n cs < (n + 1) * base ^ cs.length := by
  induction cs generalizing n with
  | nil => simp [valueFrom]
  | cons c cs ih =>
    obtain ⟨hc, hcs⟩ := Bool.and_eq_true_iff.1 h
    have hd := digit_lt hc
    obtain ⟨hlow, hhigh⟩ := ih hcs (n * base + (digitValue? c).getD 0)
    rw [valueFrom_cons, List.length_cons, Nat.pow_succ', ← Nat.mul_assoc, ← Nat.mul_assoc]
    refine ⟨Nat.le_trans (Nat.mul_le_mul_right _ (by omega)) hlow, Nat.lt_of_lt_of_le hhigh (Nat.mul_le_mul_right _ ?_)⟩
    rw [Nat.add_mul]
    omega

/-- Digits write zero only if all of them are zeros. -/
theorem eq_replicate_of_valueFrom (hbase : 0 < base) {n : Nat} (h : valueFrom base n cs = 0)
    (hcs : cs.all (isDigitOf base) = true) : n = 0 ∧ cs = List.replicate cs.length '0' := by
  induction cs generalizing n with
  | nil => exact ⟨h, rfl⟩
  | cons c cs ih =>
    obtain ⟨hc, hrest⟩ := Bool.and_eq_true_iff.1 hcs
    obtain ⟨hn, hzeros⟩ := ih h hrest
    have hd : (digitValue? c).getD 0 = 0 := (Nat.add_eq_zero_iff.1 hn).2
    have hzero : c.toNat = 48 := by
      rcases digitValue?_cases c with ⟨hlow, hhigh, h⟩ | ⟨hlow, hhigh, h⟩ | ⟨hlow, hhigh, h⟩ | ⟨_, h⟩
      all_goals rw [h] at hd; simp only [Option.getD_some, Option.getD_none] at hd
      · omega
      · omega
      · omega
      · simp [isDigitOf, h] at hc
    refine ⟨(Nat.mul_eq_zero.1 (Nat.add_eq_zero_iff.1 hn).1).resolve_right (Nat.ne_of_gt hbase), ?_⟩
    have hchar : c = '0' := Char.toNat_inj.1 hzero
    rw [List.length_cons, List.replicate_succ, ← hzeros, hchar]

/-- Decimal digits are read alike by both readers. -/
theorem valueFrom_ten (h : cs.all isDigit = true) : valueFrom 10 0 cs = natOfDecimal cs := by
  have hfold : ∀ n, valueFrom 10 n cs = cs.foldl (fun n c => n * 10 + (c.toNat - 48)) n := by
    induction cs with
    | nil => exact fun n => rfl
    | cons c cs ih =>
      obtain ⟨hc, hcs⟩ := Bool.and_eq_true_iff.1 h
      intro n
      rw [valueFrom_cons, digitValue?_of_isDigit hc, List.foldl_cons, ih hcs]
      rfl
  exact hfold 0

theorem all_isDigitOf_ten (cs : List Char) : cs.all (isDigitOf 10) = cs.all isDigit :=
  congrArg cs.all (funext fun _ => isDigitOf_ten)

theorem all_isDigitOf_sixteen (cs : List Char) : cs.all (isDigitOf 16) = cs.all isHexDigit :=
  congrArg cs.all (funext fun _ => isDigitOf_sixteen)

theorem natOfDigits?_ten (h : cs ≠ []) :
    natOfDigits? 10 cs = if cs.all isDigit then some (natOfDecimal cs) else none := by
  rw [natOfDigits?_eq h, all_isDigitOf_ten]
  split
  · next hdigits => rw [valueFrom_ten hdigits]
  · rfl

theorem natOfDecimal_lt (h : cs.all isDigit = true) : natOfDecimal cs < 10 ^ cs.length := by
  have hbounds := (valueFrom_bounds ((all_isDigitOf_ten cs).trans h) 0).2
  rwa [valueFrom_ten h, Nat.zero_add, Nat.one_mul] at hbounds

theorem le_natOfDecimal (h : (c :: cs).all isDigit = true) (hc : c ≠ '0') :
    10 ^ cs.length ≤ natOfDecimal (c :: cs) := by
  obtain ⟨hdigit, hcs⟩ := Bool.and_eq_true_iff.1 h
  have hlead : 1 ≤ c.toNat - 48 := by
    have hlow := (isDigit_iff.1 hdigit).1
    have hzero : c.toNat ≠ 48 := fun hzero => hc (Char.toNat_inj.1 hzero)
    omega
  have hbounds := (valueFrom_bounds ((all_isDigitOf_ten cs).trans hcs) (c.toNat - 48)).1
  have hvalue : valueFrom 10 (c.toNat - 48) cs = natOfDecimal (c :: cs) := by
    rw [← valueFrom_ten h, valueFrom_cons, digitValue?_of_isDigit hdigit, Nat.zero_mul, Nat.zero_add, Option.getD_some]
  rw [hvalue] at hbounds
  exact Nat.le_trans (Nat.le_mul_of_pos_left _ hlead) hbounds

/-! ## What a number is written as -/

theorem natOfDecimal_append (cs : List Char) (c : Char) :
    natOfDecimal (cs ++ [c]) = natOfDecimal cs * 10 + (c.toNat - 48) := by
  rw [natOfDecimal, List.foldl_append]
  rfl

theorem toNat_digitChar {d : Nat} (h : d < 10) : d.digitChar.toNat = 48 + d := by
  have hall : ∀ d < 10, d.digitChar.toNat = 48 + d := by decide
  exact hall d h

theorem isDigit_digitChar {d : Nat} (h : d < 10) : isDigit d.digitChar = true := by
  rw [isDigit_iff, toNat_digitChar h]
  omega

/-- A number is read back from its decimal digits. -/
theorem decimal_toDigits (n : Nat) :
    (Nat.toDigits 10 n).all isDigit = true ∧ natOfDecimal (Nat.toDigits 10 n) = n := by
  induction n using Nat.strongRecOn with
  | ind n ih =>
    by_cases hn : n < 10
    · rw [Nat.toDigits_of_lt_base hn, natOfDecimal, List.foldl_cons, toNat_digitChar hn]
      simp [isDigit_digitChar hn]
    · have hlast : n % 10 < 10 := Nat.mod_lt n (by decide)
      obtain ⟨hdigits, hvalue⟩ := ih (n / 10) (by omega)
      rw [Nat.toDigits_of_base_le (by decide) (by omega), List.all_append, natOfDecimal_append, hdigits, hvalue,
        toNat_digitChar hlast]
      refine ⟨by simp [isDigit_digitChar hlast], by omega⟩

/-- Only zero is written with a zero in front. -/
theorem head?_toDigits {n : Nat} (h : 0 < n) : (Nat.toDigits 10 n).head? ≠ some '0' := by
  induction n using Nat.strongRecOn with
  | ind n ih =>
    by_cases hn : n < 10
    · rw [Nat.toDigits_of_lt_base hn, List.head?_cons]
      intro hzero
      have hchar := congrArg (Option.map Char.toNat) hzero
      rw [Option.map_some, toNat_digitChar hn] at hchar
      have : 48 + n = 48 := Option.some.inj hchar
      omega
    · have hfirst := ih (n / 10) (by omega) (by omega)
      rw [Nat.toDigits_of_base_le (by decide) (by omega)]
      cases hdigits : Nat.toDigits 10 (n / 10) with
      | nil => exact absurd hdigits Nat.toDigits_ne_nil
      | cons c cs => rwa [hdigits] at hfirst

theorem digitChar_of_isDigit {c : Char} (h : isDigit c = true) : c.toNat - 48 < 10 ∧ (c.toNat - 48).digitChar = c := by
  have hrange := isDigit_iff.1 h
  have hlt : c.toNat - 48 < 10 := by omega
  refine ⟨hlt, Char.toNat_inj.1 ?_⟩
  rw [toNat_digitChar hlt]
  omega

/-- Digits with no zero in front are the digits that their number is written in. -/
theorem toDigits_natOfDecimal {c : Char} (h : (c :: cs).all isDigit = true) (hc : c ≠ '0') :
    Nat.toDigits 10 (natOfDecimal (c :: cs)) = c :: cs := by
  induction cs using List.reverseRecOn with
  | nil =>
    obtain ⟨hlt, hchar⟩ := digitChar_of_isDigit (by simpa using h)
    simp only [natOfDecimal, List.foldl_cons, List.foldl_nil, Nat.zero_mul, Nat.zero_add]
    rw [Nat.toDigits_of_lt_base hlt, hchar]
  | append_singleton cs d ih =>
    rw [← List.cons_append, List.all_append, Bool.and_eq_true] at h
    obtain ⟨hlt, hchar⟩ := digitChar_of_isDigit (c := d) (by simpa using h.2)
    have hpos : 0 < natOfDecimal (c :: cs) := Nat.lt_of_lt_of_le (Nat.pow_pos (by decide)) (le_natOfDecimal h.1 hc)
    rw [← List.cons_append, natOfDecimal_append, Nat.toDigits_of_base_le (by decide) (by omega)]
    have hfront : (natOfDecimal (c :: cs) * 10 + (d.toNat - 48)) / 10 = natOfDecimal (c :: cs) := by omega
    have hlast : (natOfDecimal (c :: cs) * 10 + (d.toNat - 48)) % 10 = d.toNat - 48 := by omega
    rw [hfront, hlast, ih h.1, hchar]

theorem toList_toString (n : Nat) : (toString n).toList = Nat.toDigits 10 n := by
  rw [Nat.toString_eq_repr, Nat.repr_eq_ofList_toDigits, String.toList_ofList]

theorem toList_toString_of_neg {n : Int} (h : n < 0) : (toString n).toList = '-' :: Nat.toDigits 10 n.natAbs := by
  cases n with
  | ofNat n => exact absurd h (Int.not_lt.2 (Int.natCast_nonneg n))
  | negSucc n =>
    change ("-" ++ toString (n + 1)).toList = _
    rw [String.toList_append, toList_toString]
    rfl

theorem length_hexDigits (width n : Nat) : (hexDigits width n).length = width := by
  induction width generalizing n with
  | zero => rfl
  | succ width ih => rw [hexDigits, List.length_append, ih]; rfl

theorem toNat_hexDigit {d : Nat} (h : d < 16) : digitValue? (hexDigit d) = some d := by
  have hall : ∀ d < 16, digitValue? (hexDigit d) = some d := by decide
  exact hall d h

/-- The last digits of a number in base sixteen, behind what is written before them. -/
theorem hexDigits_value (width n before : Nat) : (hexDigits width n).all (isDigitOf 16) = true ∧
    valueFrom 16 before (hexDigits width n) = before * 16 ^ width + n % 16 ^ width := by
  induction width generalizing n with
  | zero => simp [hexDigits, valueFrom, Nat.mod_one]
  | succ width ih =>
    have hlast : n % 16 < 16 := Nat.mod_lt n (by decide)
    obtain ⟨hdigits, hvalue⟩ := ih (n / 16)
    rw [hexDigits, List.all_append, hdigits, valueFrom_append, hvalue, valueFrom_cons, toNat_hexDigit hlast]
    refine ⟨by simp [isDigitOf, toNat_hexDigit hlast, hlast], ?_⟩
    change (before * 16 ^ width + n / 16 % 16 ^ width) * 16 + n % 16 = _
    rw [Nat.pow_succ', Nat.mod_mul]
    rw [Nat.add_mul, Nat.mul_assoc, Nat.mul_comm (16 ^ width) 16]
    omega

theorem natOfDigits?_hexDigits {width n : Nat} (hwidth : 0 < width) (h : n < 16 ^ width) :
    natOfDigits? 16 (hexDigits width n) = some n := by
  have hne : hexDigits width n ≠ [] := by
    intro hnil
    have hlength := length_hexDigits width n
    rw [hnil] at hlength
    exact absurd hlength (Nat.ne_of_lt hwidth)
  obtain ⟨hdigits, hvalue⟩ := hexDigits_value width n 0
  rw [natOfDigits?_eq hne, if_pos hdigits, hvalue, Nat.mod_eq_of_lt h]
  simp

end TableEscrow.Text
