import TableEscrow.Instant
/-!
# The calendar

Four centuries have 146097 days, and each of these days is a day of a year that begins in March
(`InEra`). Counting days out into years, months and days is undone by counting them up again
(`toDays_ofDays`), and gives only days that their month has (`isValid_ofDays`).
-/

namespace TableEscrow.Date

/-- Day `n` of four centuries is day `day` of year `100 * century + 4 * cycle + year`. The last day of a
leap year is the only one with number 365. -/
structure InEra (n century cycle year day : Int) : Prop where
  sum : n = 36524 * century + 1461 * cycle + 365 * year + day
  centuries : 0 ≤ century ∧ century ≤ 3
  cycles : 0 ≤ cycle ∧ cycle ≤ 24
  years : 0 ≤ year ∧ year ≤ 3
  days : 0 ≤ day ∧ day ≤ 365
  leap : day = 365 → year = 3 ∧ (cycle < 24 ∨ century = 3)

theorem exists_inEra {n : Int} (h : 0 ≤ n ∧ n ≤ 146096) : ∃ century cycle year day, InEra n century cycle year day := by
  -- The last century, the last cycle and the last year take the day that is left over.
  obtain ⟨century, x, hn, hcentury, hx⟩ : ∃ century x, n = 36524 * century + x ∧ (0 ≤ century ∧ century ≤ 3) ∧
      0 ≤ x ∧ x ≤ 36524 ∧ (x = 36524 → century = 3) := by
    rcases Int.lt_or_le n 146096 with hlt | hge
    · exact ⟨n / 36524, n % 36524, by omega, by omega, by omega⟩
    · exact ⟨3, 36524, by omega, by omega, by omega⟩
  obtain ⟨cycle, w, hsplit, hcycle, hw⟩ : ∃ cycle w, x = 1461 * cycle + w ∧ (0 ≤ cycle ∧ cycle ≤ 24) ∧
      0 ≤ w ∧ w ≤ 1460 ∧ (w = 1460 → cycle < 24 ∨ century = 3) :=
    ⟨x / 1461, x % 1461, by omega, by omega, by omega⟩
  obtain ⟨year, day, hrest, hyear, hday⟩ : ∃ year day, w = 365 * year + day ∧ (0 ≤ year ∧ year ≤ 3) ∧
      0 ≤ day ∧ day ≤ 365 ∧ (day = 365 → year = 3 ∧ w = 1460) := by
    rcases Int.lt_or_le w 1460 with hlt | hge
    · exact ⟨w / 365, w % 365, by omega, by omega, by omega⟩
    · exact ⟨3, 365, by omega, by omega, by omega⟩
  exact ⟨century, cycle, year, day, by omega, hcentury, hcycle, hyear, ⟨hday.1, hday.2.1⟩,
    fun hlast => ⟨(hday.2.2 hlast).1, hw.2.2 (hday.2.2 hlast).2⟩⟩

namespace InEra

variable {n century cycle year day : Int}

/-- The year that the days before it are counted out into. -/
theorem yearOfEra_eq (h : InEra n century cycle year day) :
    (n - n / 1460 + n / 36524 - n / 146096) / 365 = 100 * century + 4 * cycle + year := by
  obtain ⟨hsum, hcentury, hcycle, hyear, hday, hleap⟩ := h
  have hcenturies : n / 36524 = century + if cycle = 24 ∧ day = 365 then 1 else 0 := by split <;> omega
  have heras : n / 146096 = if century = 3 ∧ cycle = 24 ∧ day = 365 then 1 else 0 := by split <;> omega
  have hcycles : n / 1460 = 25 * century + cycle + if year = 3 ∧ 365 ≤ day + cycle + 24 * century then 1 else 0 := by
    split <;> omega
  rw [hcenturies, heras, hcycles]
  split <;> split <;> split <;> omega

theorem start_eq (h : InEra n century cycle year day) :
    365 * (100 * century + 4 * cycle + year) + (100 * century + 4 * cycle + year) / 4 -
      (100 * century + 4 * cycle + year) / 100 = n - day := by
  obtain ⟨hsum, hcentury, hcycle, hyear, -, -⟩ := h
  have hfourths : (100 * century + 4 * cycle + year) / 4 = 25 * century + cycle := by omega
  have hhundredths : (100 * century + 4 * cycle + year) / 100 = century := by omega
  rw [hfourths, hhundredths]
  omega

end InEra

/-- The date of a day of a year that begins in March. -/
def ofMarch (year day : Int) : Date :=
  let month := (5 * day + 2) / 153
  ⟨if month < 10 then year else year + 1, (if month < 10 then month + 3 else month - 9).toNat,
    (day - (153 * month + 2) / 5 + 1).toNat⟩

theorem ofDays_eq (days : Int) : ∃ era n century cycle year day, days + 719468 = 146097 * era + n ∧
    InEra n century cycle year day ∧ ofDays days = ofMarch (400 * era + 100 * century + 4 * cycle + year) day := by
  obtain ⟨century, cycle, year, day, h⟩ := exists_inEra (n := (days + 719468) % 146097) (by omega)
  refine ⟨(days + 719468) / 146097, _, century, cycle, year, day, by omega, h, ?_⟩
  have hyear := h.yearOfEra_eq
  have hday := h.start_eq
  have hdays := h.days
  have hofEra : days + 719468 - Int.fdiv (days + 719468) 146097 * 146097 = (days + 719468) % 146097 := by
    rw [Int.fdiv_eq_ediv_of_nonneg _ (by decide)]
    omega
  have hofYear : (days + 719468) % 146097 - (365 * (100 * century + 4 * cycle + year) +
      (100 * century + 4 * cycle + year) / 4 - (100 * century + 4 * cycle + year) / 100) = day := by omega
  simp only [ofDays, hofEra, hyear, hofYear, ofMarch]
  rw [Int.fdiv_eq_ediv_of_nonneg _ (by decide)]
  congr 1
  split <;> split <;> omega

theorem toDays_ofMarch (year : Int) {day : Int} (h : 0 ≤ day ∧ day ≤ 365) :
    (ofMarch year day).toDays =
      year / 400 * 146097 + ((year % 400) * 365 + (year % 400) / 4 - (year % 400) / 100 + day) - 719468 := by
  have hofEra : year - Int.fdiv year 400 * 400 = year % 400 := by
    rw [Int.fdiv_eq_ediv_of_nonneg _ (by decide)]
    omega
  simp only [ofMarch]
  generalize hm : (5 * day + 2) / 153 = month
  have hmonth : 0 ≤ month ∧ month ≤ 11 := by omega
  have hstart : (153 * month + 2) / 5 ≤ day := by omega
  by_cases hlate : month < 10
  · have hnot : ¬ (month + 3).toNat ≤ 2 := by omega
    have hback : ((month + 3).toNat : Int) - 3 = month := by omega
    simp only [toDays, hlate, if_true, hnot, if_false, hback, hofEra]
    rw [Int.fdiv_eq_ediv_of_nonneg _ (by decide)]
    omega
  · have hearly : (month - 9).toNat ≤ 2 := by omega
    have hback : ((month - 9).toNat : Int) + 9 = month := by omega
    simp only [toDays, hlate, if_false, hearly, if_true, hback, Int.add_sub_cancel, hofEra]
    rw [Int.fdiv_eq_ediv_of_nonneg _ (by decide)]
    omega

/-- Days that are counted out are counted up again. -/
theorem toDays_ofDays (days : Int) : (ofDays days).toDays = days := by
  obtain ⟨era, n, century, cycle, year, day, hdays, h, hdate⟩ := ofDays_eq days
  obtain ⟨hsum, hcentury, hcycle, hyear, hday, -⟩ := h
  rw [hdate, toDays_ofMarch _ hday]
  have hera : (400 * era + 100 * century + 4 * cycle + year) / 400 = era := by omega
  have hofEra : (400 * era + 100 * century + 4 * cycle + year) % 400 = 100 * century + 4 * cycle + year := by omega
  have hfourths : (100 * century + 4 * cycle + year) / 4 = 25 * century + cycle := by omega
  have hhundredths : (100 * century + 4 * cycle + year) / 100 = century := by omega
  rw [hera, hofEra, hfourths, hhundredths]
  omega

/-- A day of a year that begins in March is one that its month has, if the last one is of a leap year. -/
theorem day_ofMarch (year : Int) {day : Int} (h : 0 ≤ day ∧ day ≤ 365)
    (hleap : day = 365 → isLeapYear (year + 1) = true) :
    1 ≤ (ofMarch year day).month ∧ (ofMarch year day).month ≤ 12 ∧ 1 ≤ (ofMarch year day).day ∧
      (ofMarch year day).day ≤ daysInMonth (ofMarch year day).year (ofMarch year day).month := by
  simp only [ofMarch]
  generalize hm : (5 * day + 2) / 153 = month
  have hmonth : 0 ≤ month ∧ month ≤ 11 := by omega
  by_cases hlate : month < 10
  · simp only [hlate, if_true, daysInMonth]
    refine ⟨by omega, by omega, by omega, ?_⟩
    split
    · omega
    · split <;> omega
  · simp only [hlate, if_false, daysInMonth]
    refine ⟨by omega, by omega, by omega, ?_⟩
    split
    · -- The last day of February is the last one of its year.
      split
      · omega
      · next hcommon =>
        have hlast : day ≠ 365 := fun heq => hcommon (hleap heq)
        omega
    · split <;> omega

theorem isValid_ofDays {days : Int} (hcovered : covered (ofDays days).year = true) : (ofDays days).isValid = true := by
  obtain ⟨era, n, century, cycle, year, day, -, h, hdate⟩ := ofDays_eq days
  obtain ⟨-, hcentury, hcycle, hyear, hday, hleap⟩ := h
  have hmonth := day_ofMarch (400 * era + 100 * century + 4 * cycle + year) hday fun hlast => by
    have hparts := hleap hlast
    simp only [isLeapYear, Bool.and_eq_true, Bool.or_eq_true, beq_iff_eq, bne_iff_ne]
    omega
  rw [hdate] at hcovered ⊢
  simp only [isValid, hcovered, Bool.true_and, Bool.and_eq_true, decide_eq_true_eq]
  exact ⟨⟨⟨hmonth.1, hmonth.2.1⟩, hmonth.2.2.1⟩, hmonth.2.2.2⟩

end TableEscrow.Date
