import Mathlib.Data.List.TakeWhile
import TableEscrow.Proofs.Calendar
import TableEscrow.Proofs.Digits
/-!
# Texts of instants

An instant of a year with four digits is read back from the text it is written as (`ofText?_render`), and
whatever text an instant is read from, it is one that can be written (`valid_of_ofText?`).
-/

namespace TableEscrow

namespace Text

theorem toList_padded (width n : Nat) :
    (padded width n).toList = List.replicate (width - (Nat.toDigits 10 n).length) '0' ++ Nat.toDigits 10 n := by
  simp only [padded, String.toList_append, String.toList_ofList, toList_toString, ← String.length_toList]

theorem natOfDecimal_zeros (k : Nat) (cs : List Char) :
    natOfDecimal (List.replicate k '0' ++ cs) = natOfDecimal cs := by
  induction k with
  | zero => rfl
  | succ k ih => exact ih

theorem natOfDecimal_append_zeros (cs : List Char) (k : Nat) :
    natOfDecimal (cs ++ List.replicate k '0') = natOfDecimal cs * 10 ^ k := by
  induction k with
  | zero => simp
  | succ k ih =>
    rw [List.replicate_succ', ← List.append_assoc, natOfDecimal_append, ih, Nat.pow_succ, Nat.mul_assoc]
    rfl

/-- A number that fits is written in as many digits as there is room for, and they are read as the number. -/
theorem padded_spec {width n : Nat} (hwidth : 0 < width) (hn : n < 10 ^ width) :
    (padded width n).toList.all isDigit = true ∧ (padded width n).toList.length = width ∧
      natOfDecimal (padded width n).toList = n := by
  obtain ⟨hdigits, hvalue⟩ := decimal_toDigits n
  have hlength := (Nat.length_toDigits_le_iff (by decide) hwidth).2 hn
  rw [toList_padded, natOfDecimal_zeros]
  refine ⟨?_, ?_, hvalue⟩
  · rw [List.all_append, hdigits, List.all_replicate]
    simp [isDigit]
  · rw [List.length_append, List.length_replicate]
    omega

end Text

namespace Instant

open Text

/-! ## Reading what is written -/

variable {width n : Nat}

theorem number?_padded (hwidth : 0 < width) (hn : n < 10 ^ width) (rest : List Char) :
    number? width ((padded width n).toList ++ rest) = some (n, rest) := by
  obtain ⟨hdigits, hlength, hvalue⟩ := padded_spec hwidth hn
  have htaken : ((padded width n).toList ++ rest).take width = (padded width n).toList := by
    rw [List.take_left' hlength]
  have hall : (padded width n).toList.takeWhile isDigit = (padded width n).toList := by
    exact List.takeWhile_eq_self_iff.2 (List.all_eq_true.1 hdigits)
  have hne : (padded width n).toList.isEmpty = false := by
    rw [List.isEmpty_eq_false_iff, ← List.length_pos_iff, hlength]
    exact hwidth
  simp only [number?, htaken, hall, hne, Bool.false_eq_true, if_false, hvalue, List.drop_left]

theorem isBlank_of_isDigit {c : Char} (h : isDigit c = true) : isBlank c = false := by
  have hrange := isDigit_iff.1 h
  simp only [isBlank, Bool.or_eq_false_iff, Bool.and_eq_false_iff, decide_eq_false_iff_not, beq_eq_false_iff_ne]
  omega

/-- A padded number starts with a digit. -/
theorem exists_padded (hwidth : 0 < width) (hn : n < 10 ^ width) :
    ∃ c cs, (padded width n).toList = c :: cs ∧ isDigit c = true := by
  obtain ⟨hdigits, hlength, -⟩ := padded_spec hwidth hn
  cases hcs : (padded width n).toList with
  | nil =>
    rw [hcs] at hlength
    exact absurd hlength (Nat.ne_of_lt hwidth)
  | cons c cs =>
    rw [hcs] at hdigits
    exact ⟨c, cs, rfl, (Bool.and_eq_true_iff.1 hdigits).1⟩

theorem trimStartList_padded (hwidth : 0 < width) (hn : n < 10 ^ width) (rest : List Char) :
    trimStartList ((padded width n).toList ++ rest) = (padded width n).toList ++ rest := by
  obtain ⟨c, cs, hcs, hc⟩ := exists_padded hwidth hn
  rw [hcs, List.cons_append, trimStartList, List.dropWhile_cons, isBlank_of_isDigit hc]
  rfl

theorem field?_padded (hwidth : 0 < width) (hn : n < 10 ^ width) (rest : List Char) :
    field? width ((padded width n).toList ++ rest) = some (n, rest) := by
  rw [field?, trimStartList_padded hwidth hn, number?_padded hwidth hn]

theorem year?_padded (hn : n < 10 ^ 4) (rest : List Char) :
    year? ((padded 4 n).toList ++ rest) = some ((n : Int), rest) := by
  obtain ⟨c, cs, hcs, hc⟩ := exists_padded (by decide) hn
  have hsigns : c ≠ '-' ∧ c ≠ '+' := by
    constructor <;> (rintro rfl; simp [isDigit] at hc)
  rw [year?, trimStartList_padded (by decide) hn]
  split
  · next h =>
    rw [hcs] at h
    exact absurd (List.cons.inj h).1 hsigns.1
  · next h =>
    rw [hcs] at h
    exact absurd (List.cons.inj h).1 hsigns.2
  · rw [number?_padded (by decide) hn]
    rfl

theorem mark?_self {mark : Char} (h : isBlank mark = false) (rest : List Char) :
    mark? mark (mark :: rest) = some rest := by
  simp [mark?, trimStartList, h]

/-- The digits of a fraction, up to the zone. -/
theorem fraction?_padded (width : Nat) (hwidth : 0 < width) (hmost : width ≤ 9) (hn : n < 10 ^ width) :
    fraction? ('.' :: (padded width n).toList ++ ['Z']) = some (n * 10 ^ (9 - width), ['Z']) := by
  obtain ⟨hdigits, hlength, hvalue⟩ := padded_spec hwidth hn
  have htaken : ((padded width n).toList ++ ['Z']).takeWhile isDigit = (padded width n).toList := by
    rw [List.takeWhile_append_of_pos (List.all_eq_true.1 hdigits)]
    simp [isDigit]
  have hkept : (padded width n).toList.take 9 = (padded width n).toList := List.take_of_length_le (by omega)
  rw [List.cons_append, fraction?, htaken]
  split
  · next hnil =>
    rw [hnil] at hlength
    exact absurd hlength (Nat.ne_of_lt hwidth)
  · dsimp only
    rw [hkept, natOfDecimal_append_zeros, hvalue, hlength, List.drop_left' hlength]

theorem fraction?_fractionText {nano : Nat} (h : nano < 1000000000) :
    fraction? ((fractionText nano).toList ++ ['Z']) = some (nano, ['Z']) := by
  unfold fractionText
  split
  · next hzero =>
    subst hzero
    rfl
  split
  · have hread := fraction?_padded 3 (n := nano / 1000000) (by decide) (by decide) (by omega)
    rw [show nano / 1000000 * 10 ^ (9 - 3) = nano by omega] at hread
    simpa using hread
  split
  · have hread := fraction?_padded 6 (n := nano / 1000) (by decide) (by decide) (by omega)
    rw [show nano / 1000 * 10 ^ (9 - 6) = nano by omega] at hread
    simpa using hread
  · have hread := fraction?_padded 9 (by decide) (by decide) h
    rw [show nano * 10 ^ (9 - 9) = nano by omega] at hread
    simpa using hread

theorem zone?_utc : zone? (trimStartList ['Z']) = some (0, []) := by decide

/-- What the fields of a text make, if they show a day that there is. -/
theorem ofText?_fields {year month day hour minute second nano : Nat} (hyear : year < 10 ^ 4) (hmonth : month < 10 ^ 2)
    (hday : day < 10 ^ 2) (hhour : hour < 24) (hminute : minute < 60) (hsecond : second < 61)
    (hnano : nano < 1000000000)
    (hdate : (Date.mk year month day).isValid = true) {t : Instant}
    (ht : t = ⟨(Date.mk year month day).toDays * 86400 + (hour * 3600 + minute * 60 + (second - second / 60) : Nat),
      nano + second / 60 * 1000000000⟩) (hcovered : Date.covered t.fields.1.year = true) :
    ofText? (padded 4 year ++ "-" ++ padded 2 month ++ "-" ++ padded 2 day ++ "T" ++ padded 2 hour ++ ":" ++
      padded 2 minute ++ ":" ++ padded 2 second ++ fractionText nano ++ "Z") = some t := by
  have htext : (padded 4 year ++ "-" ++ padded 2 month ++ "-" ++ padded 2 day ++ "T" ++ padded 2 hour ++ ":" ++
      padded 2 minute ++ ":" ++ padded 2 second ++ fractionText nano ++ "Z").toList =
      (padded 4 year).toList ++ '-' :: ((padded 2 month).toList ++ '-' :: ((padded 2 day).toList ++ 'T' ::
        ((padded 2 hour).toList ++ ':' :: ((padded 2 minute).toList ++ ':' :: ((padded 2 second).toList ++
          ((fractionText nano).toList ++ ['Z'])))))) := by
    simp [String.toList_append]
  have hdash : isBlank '-' = false := by decide
  have hcolon : isBlank ':' = false := by decide
  have htwo : 0 < 2 := by decide
  have hinside : (!(Date.mk year month day).isValid || decide (24 ≤ hour) || decide (60 ≤ minute) ||
      decide (61 ≤ second) || !([] : List Char).all isBlank) = false := by
    simp [hdate]
    omega
  rw [ofText?, htext]
  refine Option.bind_eq_some_iff.2 ⟨_, year?_padded hyear _, ?_⟩
  refine Option.bind_eq_some_iff.2 ⟨_, mark?_self hdash _, ?_⟩
  refine Option.bind_eq_some_iff.2 ⟨_, field?_padded htwo hmonth _, ?_⟩
  refine Option.bind_eq_some_iff.2 ⟨_, mark?_self hdash _, ?_⟩
  refine Option.bind_eq_some_iff.2 ⟨_, field?_padded htwo hday _, ?_⟩
  refine Option.bind_eq_some_iff.2 ⟨_, rfl, ?_⟩
  refine Option.bind_eq_some_iff.2 ⟨_, field?_padded htwo (show hour < 10 ^ 2 by omega) _, ?_⟩
  refine Option.bind_eq_some_iff.2 ⟨_, mark?_self hcolon _, ?_⟩
  refine Option.bind_eq_some_iff.2 ⟨_, field?_padded htwo (show minute < 10 ^ 2 by omega) _, ?_⟩
  refine Option.bind_eq_some_iff.2 ⟨_, mark?_self hcolon _, ?_⟩
  refine Option.bind_eq_some_iff.2 ⟨_, field?_padded htwo (show second < 10 ^ 2 by omega) _, ?_⟩
  refine Option.bind_eq_some_iff.2 ⟨_, fraction?_fractionText hnano, ?_⟩
  refine Option.bind_eq_some_iff.2 ⟨_, zone?_utc, ?_⟩
  dsimp only
  rw [if_neg (by rw [hinside]; exact Bool.false_ne_true), Int.sub_zero, ← ht, if_pos hcovered]

/-! ## Instants that are written -/

/-- The year an instant shows. -/
def year (t : Instant) : Int := t.fields.1.year

/-- A second has a thousand million nanoseconds, and the last one of a minute may be a leap second. -/
def Valid (t : Instant) : Prop := t.nano < 1000000000 ∨ t.nano < 2000000000 ∧ t.second % 60 = 59

/-- An instant of a year with four digits is read back. -/
theorem ofText?_render {t : Instant} (h : t.Valid) (hyear : 0 ≤ t.year ∧ t.year ≤ 9999) :
    ofText? t.render = some t := by
  have hcovered : Date.covered t.fields.1.year = true := by
    rw [year] at hyear
    simp only [Date.covered, Bool.and_eq_true, decide_eq_true_eq]
    omega
  obtain ⟨days, hdays⟩ : ∃ days, Int.fdiv t.second 86400 = days := ⟨_, rfl⟩
  have hof : days * 86400 ≤ t.second ∧ t.second < days * 86400 + 86400 := by
    rw [Int.fdiv_eq_ediv_of_nonneg _ (by decide)] at hdays
    omega
  obtain ⟨second, hsecond⟩ : ∃ second : Nat, t.second = days * 86400 + second :=
    ⟨(t.second - days * 86400).toNat, by omega⟩
  have hfields : t.fields = (Date.ofDays days, second, t.nano) := by
    rw [fields, hdays]
    simp only [hsecond]
    congr 2
    omega
  rw [year] at hyear
  rw [hfields] at hcovered hyear
  dsimp only at hcovered hyear
  have hvalid := Date.isValid_ofDays hcovered
  have hback := Date.toDays_ofDays days
  have hofSecond : second < 86400 := by omega
  have hrender : t.render = padded 4 (Date.ofDays days).year.toNat ++ "-" ++ padded 2 (Date.ofDays days).month ++ "-" ++
      padded 2 (Date.ofDays days).day ++ "T" ++ padded 2 (second / 3600) ++ ":" ++ padded 2 (second / 60 % 60) ++ ":" ++
      padded 2 (second % 60 + t.nano / 1000000000) ++ fractionText (t.nano % 1000000000) ++ "Z" := by
    rw [render, renderWith, hfields]
    simp only [yearText, hyear, and_self, if_true]
  have hyearBack : ((Date.ofDays days).year.toNat : Int) = (Date.ofDays days).year := Int.toNat_of_nonneg hyear.1
  have hdate : Date.mk (Date.ofDays days).year.toNat (Date.ofDays days).month (Date.ofDays days).day =
      Date.ofDays days := by rw [hyearBack]
  have hbounds := hvalid
  simp only [Date.isValid, Bool.and_eq_true, decide_eq_true_eq] at hbounds
  have hday : Date.daysInMonth (Date.ofDays days).year (Date.ofDays days).month ≤ 31 := by
    unfold Date.daysInMonth
    split
    · split <;> decide
    · split <;> decide
  have hleap : t.nano / 1000000000 = 0 ∨ t.nano / 1000000000 = 1 ∧ second % 60 = 59 := by
    rcases h with h | ⟨h, hlast⟩ <;> omega
  rw [hrender]
  refine ofText?_fields (by omega) (by omega) (by omega) (by omega) (by omega) (by omega) (by omega)
    (by rw [hdate]; exact hvalid) ?_ (by rw [hfields]; exact hcovered)
  rw [hdate, hback]
  obtain ⟨tsecond, nano⟩ := t
  simp only at hsecond hleap ⊢
  refine congr (congrArg Instant.mk ?_) ?_ <;> omega

/-! ## Instants that are read -/

theorem fraction?_lt {cs rest : List Char} {nano : Nat} (h : fraction? cs = some (nano, rest)) : nano < 1000000000 := by
  unfold fraction? at h
  split at h
  · next cs =>
    split at h
    · cases h
    · next ds hds =>
      cases h
      have hdigits : ((cs.takeWhile isDigit).take 9 ++
          List.replicate (9 - ((cs.takeWhile isDigit).take 9).length) '0').all isDigit = true := by
        have htaken : ∀ c ∈ (cs.takeWhile isDigit).take 9, isDigit c = true := fun c hc =>
          List.all_eq_true.1 List.all_takeWhile c (List.mem_of_mem_take hc)
        rw [List.all_append, List.all_eq_true.2 htaken, List.all_replicate]
        simp [isDigit]
      have hlength : ((cs.takeWhile isDigit).take 9 ++
          List.replicate (9 - ((cs.takeWhile isDigit).take 9).length) '0').length = 9 := by
        simp only [List.length_append, List.length_replicate, List.length_take]
        omega
      have hlt := natOfDecimal_lt hdigits
      rwa [hlength] at hlt
  · cases h
    decide

theorem offset?_minutes {sign : Int} {cs rest : List Char} {ahead : Int}
    (h : zone?.offset? sign cs = some (ahead, rest)) :
    ahead % 60 = 0 := by
  obtain ⟨⟨hours, cs⟩, -, h⟩ := Option.bind_eq_some_iff.1 h
  obtain ⟨⟨minutes, cs⟩, -, h⟩ := Option.bind_eq_some_iff.1 h
  simp only at h
  split at h
  · cases h
    have hwhole : ((hours * 3600 + minutes * 60 : Nat) : Int) = (hours * 60 + minutes : Nat) * 60 := by omega
    rw [hwhole, ← Int.mul_assoc, Int.mul_emod_left]
  · cases h

/-- A zone is ahead by whole minutes. -/
theorem zone?_minutes {cs rest : List Char} {ahead : Int} (h : zone? cs = some (ahead, rest)) : ahead % 60 = 0 := by
  unfold zone? at h
  split at h
  · cases h
    rfl
  · split at h
    · cases h
      rfl
    · cases h
      rfl
    · exact offset?_minutes h
    · exact offset?_minutes h
    · exact offset?_minutes h
    · cases h

theorem valid_of_fields (midnight : Int) (minutes : Nat) {ahead : Int} {second nano : Nat} (hsecond : second < 61)
    (hnano : nano < 1000000000) (hahead : ahead % 60 = 0) :
    Valid ⟨midnight * 86400 + (minutes * 60 + (second - second / 60) : Nat) - ahead,
      nano + second / 60 * 1000000000⟩ := by
  rcases Nat.lt_or_ge second 60 with hlt | hge
  · rw [Nat.div_eq_of_lt hlt]
    exact .inl (by simpa using hnano)
  · obtain rfl : second = 60 := by omega
    refine .inr ⟨by dsimp only; omega, ?_⟩
    dsimp only
    omega

/-- Whatever is read is a valid instant. -/
theorem valid_of_ofText? {s : String} {t : Instant} (h : ofText? s = some t) : t.Valid := by
  unfold ofText? at h
  obtain ⟨⟨year, _⟩, -, h⟩ := Option.bind_eq_some_iff.1 h
  obtain ⟨_, -, h⟩ := Option.bind_eq_some_iff.1 h
  obtain ⟨⟨month, _⟩, -, h⟩ := Option.bind_eq_some_iff.1 h
  obtain ⟨_, -, h⟩ := Option.bind_eq_some_iff.1 h
  obtain ⟨⟨day, _⟩, -, h⟩ := Option.bind_eq_some_iff.1 h
  simp only at h
  split at h
  case h_4 => cases h
  all_goals
    obtain ⟨_, -, h⟩ := Option.bind_eq_some_iff.1 h
    obtain ⟨⟨hour, _⟩, -, h⟩ := Option.bind_eq_some_iff.1 h
    obtain ⟨_, -, h⟩ := Option.bind_eq_some_iff.1 h
    obtain ⟨⟨minute, _⟩, -, h⟩ := Option.bind_eq_some_iff.1 h
    obtain ⟨_, -, h⟩ := Option.bind_eq_some_iff.1 h
    obtain ⟨⟨second, _⟩, -, h⟩ := Option.bind_eq_some_iff.1 h
    obtain ⟨⟨nano, _⟩, hnano, h⟩ := Option.bind_eq_some_iff.1 h
    obtain ⟨⟨ahead, _⟩, hahead, h⟩ := Option.bind_eq_some_iff.1 h
    have hfraction := fraction?_lt hnano
    have hminutes := zone?_minutes hahead
    simp only at h
    split at h
    · cases h
    · next hinside =>
      split at h
      · simp only [Bool.or_eq_true, not_or, decide_eq_true_eq] at hinside
        obtain ⟨⟨⟨-, -⟩, hsecond⟩, -⟩ := hinside
        cases h
        have hvalid := valid_of_fields (Date.mk year month day).toDays (hour * 60 + minute) (Nat.lt_of_not_le hsecond)
          hfraction hminutes
        rwa [show (hour * 60 + minute) * 60 = hour * 3600 + minute * 60 by omega] at hvalid
      · cases h

end Instant

end TableEscrow
