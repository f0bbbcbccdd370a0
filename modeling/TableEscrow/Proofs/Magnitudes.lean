import Mathlib.Algebra.Group.Nat.Defs
import TableEscrow.Json.Binary64
/-!
# Large decimals

A whole number is rounded to 53 bits. It overflows exactly from `2 ^ 1024 - 2 ^ 970`, where it is as
near to `2 ^ 1024` as to the largest finite word, and the tie goes up (`isFinite_ofDecimal_iff`).
-/

namespace TableEscrow.Binary64

/-- The least whole number that is rounded to no finite word. -/
def overflowBound : Nat := 2 ^ 1024 - 2 ^ 970

theorem isFinite_pack_iff (isNegative : Bool) (m e : Nat) :
    (pack isNegative m e).isFinite = true ↔ m < 2 ^ 52 ∨ e < 2046 ∧ e * 2 ^ 52 + m < 2047 * 2 ^ 52 := by
  have hword : ∀ n ≤ 2047 * 2 ^ 52, (UInt64.ofNat ((if isNegative then 2 ^ 63 else 0) + n)).toNat / 2 ^ 52 % 2048 ≠ 2047 ↔
      n < 2047 * 2 ^ 52 := by
    intro n hn
    rw [UInt64.toNat_ofNat']
    cases isNegative <;> simp only [if_true, Bool.false_eq_true, if_false] <;> omega
  have hshift : 1 <<< 52 = 2 ^ 52 ∧ 1 <<< 63 = 2 ^ 63 ∧ 2047 <<< 52 = 2047 * 2 ^ 52 := by decide
  simp only [isFinite, exponentField, pack, hshift, bne_iff_ne, hword _ (Nat.min_le_right _ _), Nat.shiftLeft_eq]
  split
  · omega
  · split <;> omega

/-- A quotient between two powers of two, rounded: it reaches the upper one from a half below it. -/
theorem roundQuotient_of_lt {num den : Nat} (hlow : 2 ^ 52 * den ≤ num) (hhigh : num < 2 ^ 53 * den) :
    2 ^ 52 ≤ roundQuotient num den ∧ roundQuotient num den ≤ 2 ^ 53 ∧
      (roundQuotient num den = 2 ^ 53 ↔ (2 ^ 54 - 1) * den ≤ 2 * num) := by
  have hden : 0 < den := by omega
  have hsplit : den * (num / den) + num % den = num := Nat.div_add_mod num den
  have hrest : num % den < den := Nat.mod_lt _ hden
  have hq : 2 ^ 52 ≤ num / den := (Nat.le_div_iff_mul_le hden).2 hlow
  have hq' : num / den < 2 ^ 53 := (Nat.div_lt_iff_lt_mul hden).2 hhigh
  simp only [roundQuotient]
  generalize num / den = q at *
  generalize num % den = r at *
  by_cases htop : q = 2 ^ 53 - 1
  · subst htop
    split
    · omega
    · split <;> omega
  · have hbelow : den * (q + 1) ≤ den * (2 ^ 53 - 1) := Nat.mul_le_mul_left den (by omega)
    rw [Nat.mul_succ] at hbelow
    split
    · omega
    · split <;> omega

/-- A whole number in units of `2 ^ (e - 1074)`, as a quotient. -/
def inUnits (n e : Nat) : Nat × Nat := if 1074 ≤ e then (n, 1 <<< (e - 1074)) else (n <<< (1074 - e), 1)

theorem inUnits_bounds {n l e : Nat} (hlow : 2 ^ l ≤ n) (hhigh : n < 2 ^ (l + 1)) (he : e ≤ l + 1074) :
    2 ^ (l + 1074 - e) * (inUnits n e).2 ≤ (inUnits n e).1 ∧ (inUnits n e).1 < 2 ^ (l + 1074 - e + 1) * (inUnits n e).2 := by
  unfold inUnits
  split
  · next hunit =>
    rw [Nat.one_shiftLeft, ← Nat.pow_add, ← Nat.pow_add, show l + 1074 - e + (e - 1074) = l by omega,
      show l + 1074 - e + 1 + (e - 1074) = l + 1 by omega]
    exact ⟨hlow, hhigh⟩
  · next hunit =>
    rw [Nat.mul_one, Nat.mul_one, Nat.shiftLeft_eq, show l + 1074 - e = l + (1074 - e) by omega,
      show l + (1074 - e) + 1 = l + 1 + (1074 - e) by omega, Nat.pow_add, Nat.pow_add _ (l + 1)]
    have hpos : 0 < 2 ^ (1074 - e) := Nat.two_pow_pos _
    exact ⟨Nat.mul_le_mul_right _ hlow, Nat.mul_lt_mul_of_pos_right hhigh hpos⟩

/-- A whole number is rounded in units that leave 53 bits of it. -/
theorem ofRatio_eq_pack (isNegative : Bool) {n l : Nat} (hl : n.log2 = l) (hlow : 2 ^ l ≤ n) (hhigh : n < 2 ^ (l + 1)) :
    ofRatio isNegative n 1 =
      pack isNegative (roundQuotient (inUnits n (l + 1022)).1 (inUnits n (l + 1022)).2) (l + 1022) := by
  have hbits : l + 1074 - (l + 1021) = 53 := by omega
  have hbounds := (inUnits_bounds hlow hhigh (show l + 1021 ≤ l + 1074 by omega)).1
  rw [hbits] at hbounds
  have hunits : 0 < (inUnits n (l + 1021)).2 := by
    unfold inUnits
    split
    · rw [Nat.one_shiftLeft]
      exact Nat.two_pow_pos _
    · exact Nat.one_pos
  have hlarge : ¬ (inUnits n (l + 1021)).1 / (inUnits n (l + 1021)).2 < 1 <<< 53 := by
    rw [Nat.not_lt, Nat.one_shiftLeft]
    exact (Nat.le_div_iff_mul_le hunits).2 hbounds
  have hone : Nat.log2 1 = 0 := by decide
  have hplace : ((l : Int) - (0 : Nat) - 53 + 1074).toNat = l + 1021 := by omega
  unfold inUnits at hlarge
  simp only [ofRatio, hl, hone, hplace]
  rw [if_neg hlarge]
  rfl

theorem isFinite_ofRatio_iff (isNegative : Bool) (n : Nat) :
    (ofRatio isNegative n 1).isFinite = true ↔ n < overflowBound := by
  have hbound : overflowBound = (2 ^ 54 - 1) * 2 ^ 970 := by decide +kernel
  by_cases hzero : n = 0
  · subst hzero
    refine iff_of_true ?_ (by decide +kernel)
    cases isNegative <;> decide
  obtain ⟨l, hl⟩ : ∃ l, n.log2 = l := ⟨_, rfl⟩
  have hlow : 2 ^ l ≤ n := hl ▸ Nat.log2_self_le hzero
  have hhigh : n < 2 ^ (l + 1) := hl ▸ Nat.lt_log2_self
  have hbits : l + 1074 - (l + 1022) = 52 := by omega
  have hbounds := inUnits_bounds hlow hhigh (show l + 1022 ≤ l + 1074 by omega)
  rw [hbits] at hbounds
  obtain ⟨hleast, hmost, htop⟩ := roundQuotient_of_lt hbounds.1 hbounds.2
  rw [ofRatio_eq_pack isNegative hl hlow hhigh, isFinite_pack_iff, hbound]
  have hpower : (2 : Nat) ^ 1024 = 2 ^ 54 * 2 ^ 970 := by decide +kernel
  have hgrow (a b : Nat) (h : a ≤ b) : 2 ^ a ≤ 2 ^ b := Nat.pow_le_pow_right Nat.two_pos h
  -- With fewer bits than the largest finite word nothing overflows, with more everything does.
  rcases Nat.lt_trichotomy l 1023 with hlt | rfl | hgt
  · refine iff_of_true (.inr ⟨by omega, by omega⟩) ?_
    have hhalf : (2 : Nat) ^ 1023 = 2 ^ 53 * 2 ^ 970 := by decide +kernel
    have hle := Nat.le_trans (hgrow (l + 1) 1023 hlt) (Nat.le_of_eq hhalf)
    generalize (2 : Nat) ^ 970 = unit at *
    omega
  · have hunits : inUnits n (1023 + 1022) = (n, 2 * 2 ^ 970) := by
      have hunit : 1 <<< (1023 + 1022 - 1074) = 2 * 2 ^ 970 := by decide +kernel
      rw [inUnits, if_pos (by decide), hunit]
    rw [hunits] at hleast hmost htop ⊢
    generalize (2 : Nat) ^ 970 = unit at *
    generalize roundQuotient n (2 * unit) = m at *
    simp only at hleast hmost htop ⊢
    omega
  · refine iff_of_false (by omega) ?_
    have hle := Nat.le_trans (Nat.le_of_eq hpower.symm) (hgrow 1024 l hgt)
    generalize (2 : Nat) ^ 970 = unit at *
    omega

/-- A decimal is read as a finite word exactly if it is below the bound. -/
theorem isFinite_ofDecimal_iff (isNegative : Bool) (digits exponent : Nat) :
    (ofDecimal isNegative digits exponent).isFinite = true ↔ digits * 10 ^ exponent < overflowBound := by
  unfold ofDecimal
  by_cases hzero : digits = 0
  · rw [if_pos hzero, isFinite_ofRatio_iff, hzero, Nat.zero_mul]
  rw [if_neg hzero]
  have hlength : (toString digits).length = (Nat.toDigits 10 digits).length := by
    rw [Nat.toString_eq_ofList_toDigits, String.length_ofList]
  simp only [hlength]
  split
  · -- So many digits are beyond the bound.
    next hlarge =>
    refine iff_of_false (by rw [isFinite_pack_iff]; decide) (Nat.not_lt.2 ?_)
    have hleading : 10 ^ ((Nat.toDigits 10 digits).length - 1) ≤ digits := by
      refine Nat.not_lt.1 fun hlt => ?_
      rcases Nat.eq_zero_or_pos ((Nat.toDigits 10 digits).length - 1) with hone | hmore
      · rw [hone] at hlt
        omega
      · have hshort := (Nat.length_toDigits_le_iff (by decide) hmore).2 hlt
        omega
    calc overflowBound ≤ 10 ^ 400 := by decide +kernel
      _ ≤ 10 ^ ((Nat.toDigits 10 digits).length - 1 + exponent) := Nat.pow_le_pow_right (by decide) (by omega)
      _ = 10 ^ ((Nat.toDigits 10 digits).length - 1) * 10 ^ exponent := Nat.pow_add ..
      _ ≤ digits * 10 ^ exponent := Nat.mul_le_mul_right _ hleading
  · rw [if_neg (by omega), if_pos (by omega), Int.toNat_natCast, isFinite_ofRatio_iff]
    rfl

end TableEscrow.Binary64
