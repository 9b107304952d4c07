import Mathlib.Tactic

/-!
# The proleptic Gregorian calendar

Valid dates, the day after a date, and the date of a day counted from the first of March of the
year 0, by eras of 400 years. A year starts in March here wherever the leap day has to come last.
-/
namespace Gregorian

/-- The 4/100/400 rule. -/
def IsLeap (y : Nat) : Prop := y % 4 = 0 ∧ (y % 100 ≠ 0 ∨ y % 400 = 0)

instance (y : Nat) : Decidable (IsLeap y) := inferInstanceAs (Decidable (_ ∧ _))

def monthLength (y m : Nat) : Nat :=
  if m = 2 then if IsLeap y then 29 else 28
  else if m = 4 ∨ m = 6 ∨ m = 9 ∨ m = 11 then 30 else 31

theorem monthLength_pos (y m : Nat) : 1 ≤ monthLength y m := by
  unfold monthLength
  split_ifs <;> decide

theorem monthLength_le (y m : Nat) : monthLength y m ≤ 31 := by
  unfold monthLength
  split_ifs <;> decide

@[ext] structure Date where
  year : Nat
  month : Nat
  day : Nat
  month_pos : 1 ≤ month
  month_le : month ≤ 12
  day_pos : 1 ≤ day
  day_le : day ≤ monthLength year month

namespace Date

/-- The day after. -/
def next (d : Date) : Date :=
  if h : d.day < monthLength d.year d.month then
    { d with day := d.day + 1, day_pos := Nat.le_add_left 1 _, day_le := h }
  else if hm : d.month < 12 then
    { year := d.year
      month := d.month + 1
      day := 1
      month_pos := Nat.le_add_left 1 _
      month_le := hm
      day_pos := le_refl 1
      day_le := monthLength_pos _ _ }
  else
    { year := d.year + 1
      month := 1
      day := 1
      month_pos := le_refl 1
      month_le := by decide
      day_pos := le_refl 1
      day_le := monthLength_pos _ _ }

/-- The date `n` days later. -/
def after (d : Date) (n : Nat) : Date := next^[n] d

@[simp] theorem after_zero (d : Date) : d.after 0 = d := rfl

theorem after_succ (d : Date) (n : Nat) : d.after (n + 1) = (d.after n).next :=
  Function.iterate_succ_apply' next n d

end Date

/-! ## Counting days -/

/-- The days before the first of March of year `y`. -/
def yearStart (y : Nat) : Nat := 365 * y + y / 4 - y / 100 + y / 400

/-- The days of a year before its month `m`, where both are counted from March. -/
def monthStart (m : Nat) : Nat := (153 * m + 2) / 5

/-- A month of the civil year, counted from March. -/
def marchMonth (m : Nat) : Nat := (m + 9) % 12

theorem yearStart_succ (y : Nat) :
    yearStart (y + 1) = yearStart y + if IsLeap (y + 1) then 366 else 365 := by
  have step (b : Nat) (hb : 0 < b) : (y + 1) / b = y / b ∧ (y + 1) % b ≠ 0 ∨
      (y + 1) / b = y / b + 1 ∧ (y + 1) % b = 0 := by
    by_cases h : b ∣ y + 1
    · exact .inr ⟨by rw [Nat.succ_div, if_pos h], Nat.mod_eq_zero_of_dvd h⟩
    · exact .inl ⟨by rw [Nat.succ_div, if_neg h, Nat.add_zero], mt Nat.dvd_of_mod_eq_zero h⟩
  have hle : y / 100 ≤ y / 4 := Nat.div_le_div_left (by decide) (by decide)
  have h4 := step 4 (by decide)
  have h100 := step 100 (by decide)
  have h400 := step 400 (by decide)
  by_cases hl : IsLeap (y + 1)
  · rw [if_pos hl]
    simp only [yearStart, IsLeap] at *
    omega
  · rw [if_neg hl]
    simp only [yearStart, IsLeap] at *
    omega

theorem yearStart_mono {a b : Nat} (h : a ≤ b) : yearStart a ≤ yearStart b :=
  monotone_nat_of_le_succ (fun y => by rw [yearStart_succ]; exact Nat.le_add_right _ _) h

theorem monthStart_mono {a b : Nat} (h : a ≤ b) : monthStart a ≤ monthStart b := by
  unfold monthStart
  omega

/-- A monotone sequence has one step around a number. -/
theorem step_unique {f : Nat → Nat} (hf : ∀ {a b}, a ≤ b → f a ≤ f b) {a b n : Nat}
    (ha : f a ≤ n) (ha' : n < f (a + 1)) (hb : f b ≤ n) (hb' : n < f (b + 1)) : a = b := by
  rcases Nat.lt_trichotomy a b with hlt | heq | hlt
  · exact absurd (ha'.trans_le ((hf hlt).trans hb)) (lt_irrefl n)
  · exact heq
  · exact absurd (hb'.trans_le ((hf hlt).trans ha)) (lt_irrefl n)

/-- February apart, a month ends where the next one starts. -/
theorem monthLength_march (y : Nat) {m : Nat} (hm : 1 ≤ m) (hm' : m ≤ 12) (h2 : m ≠ 2) :
    monthStart (marchMonth m) + monthLength y m = monthStart (marchMonth m + 1) := by
  interval_cases m <;> first | rfl | exact absurd rfl h2

theorem monthLength_february (y : Nat) :
    monthStart (marchMonth 2) + monthLength y 2 = if IsLeap y then 366 else 365 := by
  simp only [monthStart, marchMonth, monthLength, if_pos]
  split_ifs <;> rfl

namespace Date

variable {d e : Date}

/-- The year that starts in March. -/
def marchYear (d : Date) : Nat := if d.month ≤ 2 then d.year - 1 else d.year

def dayOfYear (d : Date) : Nat := monthStart (marchMonth d.month) + (d.day - 1)

/-- Days since the first of March of the year 0. -/
def dayNumber (d : Date) : Nat := yearStart d.marchYear + d.dayOfYear

theorem yearStart_le (d : Date) : yearStart d.marchYear ≤ d.dayNumber := Nat.le_add_right _ _

theorem monthStart_le (d : Date) : monthStart (marchMonth d.month) ≤ d.dayOfYear :=
  Nat.le_add_right _ _

theorem dayOfYear_lt_month (d : Date) : d.dayOfYear < monthStart (marchMonth d.month + 1) := by
  have hpos := d.day_pos
  have hle := d.day_le
  by_cases h2 : d.month = 2
  · have hfeb := monthLength_february d.year
    rw [h2] at hle
    simp only [dayOfYear, h2]
    have hend : monthStart (marchMonth 2 + 1) = 367 := rfl
    split_ifs at hfeb <;> omega
  · have hend := monthLength_march d.year d.month_pos d.month_le h2
    unfold dayOfYear
    omega

theorem marchMonth_succ {m : Nat} (hm : 1 ≤ m) (hm' : m < 12) (h2 : m ≠ 2) :
    marchMonth (m + 1) = marchMonth m + 1 := by
  unfold marchMonth
  omega

/-- A date is before the first of March that ends its year. -/
theorem dayNumber_lt (hy : 0 < d.year) : d.dayNumber < yearStart (d.marchYear + 1) := by
  have hlt := d.dayOfYear_lt_month
  have hpos := d.month_pos
  have hle := d.month_le
  rw [yearStart_succ]
  refine Nat.add_lt_add_left ?_ _
  by_cases h2 : d.month = 2
  · have hend := monthLength_february d.year
    have hday := d.day_le
    have hpos := d.day_pos
    have hyear : d.marchYear + 1 = d.year := by
      rw [marchYear, h2, if_pos (le_refl 2), Nat.sub_add_cancel hy]
    rw [h2] at hday
    rw [hyear, ← hend, dayOfYear, h2]
    omega
  · have hend : monthStart (marchMonth d.month + 1) ≤ 337 := by
      simp only [monthStart, marchMonth]
      omega
    split_ifs <;> omega

theorem dayNumber_next (hy : 0 < d.year) : d.next.dayNumber = d.dayNumber + 1 := by
  have hpos := d.day_pos
  have hmonth := d.month_pos
  have hlen := d.day_le
  unfold next
  split
  · simp only [dayNumber, dayOfYear, marchYear]
    omega
  · rename_i hlast
    have hday : d.day = monthLength d.year d.month := by omega
    split
    · rename_i hm
      by_cases h2 : d.month = 2
      · have hend := monthLength_february d.year
        have hstart := yearStart_succ (d.year - 1)
        rw [Nat.sub_add_cancel hy, ← hend] at hstart
        simp only [dayNumber, dayOfYear, marchYear, hday, h2]
        have hmarch : monthStart (marchMonth (2 + 1)) = 0 := rfl
        rw [hmarch, if_neg (by decide), if_pos (by decide), hstart]
        have := monthLength_pos d.year 2
        omega
      · have hend := monthLength_march d.year d.month_pos d.month_le h2
        have hsame : (d.month + 1 ≤ 2) = (d.month ≤ 2) := by
          simp only [eq_iff_iff]
          omega
        simp only [dayNumber, dayOfYear, marchYear, hday, hsame, marchMonth_succ d.month_pos hm h2]
        omega
    · rename_i hm
      have h12 : d.month = 12 := Nat.le_antisymm d.month_le (by omega)
      have hend := monthLength_march d.year (m := 12) (by decide) (by decide) (by decide)
      have hjan : marchMonth 1 = marchMonth 12 + 1 := rfl
      simp only [dayNumber, dayOfYear, marchYear, hday, h12, hjan]
      rw [if_pos (by decide), if_neg (by decide), Nat.add_sub_cancel]
      have := monthLength_pos d.year 12
      omega

theorem year_next (hy : 0 < d.year) : 0 < d.next.year := by
  unfold next
  split
  · exact hy
  · split
    · exact hy
    · exact Nat.succ_pos _

theorem year_after (hy : 0 < d.year) (n : Nat) : 0 < (d.after n).year := by
  induction n with
  | zero => exact hy
  | succ n ih => rw [after_succ]; exact year_next ih

theorem dayNumber_after (hy : 0 < d.year) (n : Nat) :
    (d.after n).dayNumber = d.dayNumber + n := by
  induction n with
  | zero => rfl
  | succ n ih => rw [after_succ, dayNumber_next (year_after hy n), ih, Nat.add_assoc]

/-- A date is named by its day number. -/
theorem dayNumber_inj (hd : 0 < d.year) (he : 0 < e.year) (h : d.dayNumber = e.dayNumber) :
    d = e := by
  have hyear : d.marchYear = e.marchYear :=
    step_unique yearStart_mono d.yearStart_le (dayNumber_lt hd)
      (by rw [h]; exact e.yearStart_le) (by rw [h]; exact dayNumber_lt he)
  have hday : d.dayOfYear = e.dayOfYear := by
    rw [dayNumber, dayNumber, hyear] at h
    exact Nat.add_left_cancel h
  have hmonth : marchMonth d.month = marchMonth e.month :=
    step_unique monthStart_mono d.monthStart_le d.dayOfYear_lt_month
      (by rw [hday]; exact e.monthStart_le) (by rw [hday]; exact e.dayOfYear_lt_month)
  have hpos := d.month_pos
  have hle := d.month_le
  have hpos' := e.month_pos
  have hle' := e.month_le
  have hm : d.month = e.month := by
    unfold marchMonth at hmonth
    omega
  have hk := d.day_pos
  have hk' := e.day_pos
  rw [dayOfYear, dayOfYear, hm] at hday
  rw [marchYear, marchYear, hm] at hyear
  refine Date.ext ?_ hm (by omega)
  split_ifs at hyear <;> omega

end Date

/-! ## Eras -/

/-- The year of an era of 400 years, from the day of it. -/
def yearOfEra (doe : Nat) : Nat := (doe - doe / 1460 + doe / 36524 - doe / 146096) / 365

/-- An era is four centuries of 25 times four years; the leap days come last. -/
theorem era_split {doe : Nat} (h : doe < 146097) : ∃ c q a doy, c < 4 ∧ q < 25 ∧ a < 4 ∧
    doe = 36524 * c + 1461 * q + 365 * a + doy ∧ doy ≤ 365 ∧
    (doy = 365 → a = 3 ∧ (q < 24 ∨ c = 3)) := by
  obtain ⟨c, hc, hr⟩ : ∃ c < 4, 36524 * c ≤ doe ∧ doe ≤ 36524 * c + 36523 + c / 3 :=
    if hd : doe = 146096 then ⟨3, by omega⟩ else ⟨doe / 36524, by omega⟩
  obtain ⟨q, hq, ht⟩ : ∃ q < 25, 1461 * q ≤ doe - 36524 * c ∧ doe - 36524 * c ≤ 1461 * q + 1460 :=
    ⟨(doe - 36524 * c) / 1461, by omega⟩
  obtain ⟨a, ha, hd⟩ : ∃ a < 4, 365 * a ≤ doe - 36524 * c - 1461 * q ∧
      doe - 36524 * c - 1461 * q ≤ 365 * a + 364 + a / 3 :=
    if hd : doe - 36524 * c - 1461 * q = 1460 then ⟨3, by omega⟩
    else ⟨(doe - 36524 * c - 1461 * q) / 365, by omega⟩
  refine ⟨c, q, a, doe - 36524 * c - 1461 * q - 365 * a, hc, hq, ha, ?_, ?_, ?_⟩ <;> omega

theorem yearOfEra_split {c q a doy : Nat} (hc : c < 4) (hq : q < 25) (ha : a < 4)
    (hd : doy ≤ 365) (hl : doy = 365 → a = 3 ∧ (q < 24 ∨ c = 3)) :
    yearOfEra (36524 * c + 1461 * q + 365 * a + doy) = 100 * c + 4 * q + a := by
  simp only [yearOfEra]
  generalize hdoe : 36524 * c + 1461 * q + 365 * a + doy = doe
  obtain ⟨u, hu, hu1, hu0⟩ : ∃ u, doe / 1460 = 25 * c + q + u ∧ u ≤ 1 ∧
      (u = 0 → doy ≤ 364) ∧ (u = 1 → 1 ≤ doy) := by
    by_cases hr : 1460 ≤ 24 * c + q + 365 * a + doy
    · exact ⟨1, by omega⟩
    · exact ⟨0, by omega⟩
  obtain ⟨v, hv, hw⟩ : ∃ v, doe / 36524 = c + v ∧ doe / 146096 = v := by
    by_cases hr : doe = 146096
    · exact ⟨1, by omega⟩
    · exact ⟨0, by omega⟩
  rw [hu, hv, hw]
  omega

/-- The day of the year that starts in March, from the day of the era. -/
def dayOfEraYear (doe : Nat) : Nat :=
  doe - (365 * yearOfEra doe + yearOfEra doe / 4 - yearOfEra doe / 100)

theorem era_spec {doe : Nat} (h : doe < 146097) :
    yearOfEra doe < 400 ∧ dayOfEraYear doe ≤ 365 ∧
      365 * yearOfEra doe + yearOfEra doe / 4 - yearOfEra doe / 100 + dayOfEraYear doe = doe ∧
      (dayOfEraYear doe = 365 → IsLeap (yearOfEra doe + 1)) := by
  obtain ⟨c, q, a, doy, hc, hq, ha, rfl, hd, hl⟩ := era_split h
  have hyear := yearOfEra_split hc hq ha hd hl
  have h4 : (100 * c + 4 * q + a) / 4 = 25 * c + q := by omega
  have h100 : (100 * c + 4 * q + a) / 100 = c := by omega
  have hday : dayOfEraYear (36524 * c + 1461 * q + 365 * a + doy) = doy := by
    rw [dayOfEraYear, hyear, h4, h100]
    omega
  rw [hyear, hday, h4, h100]
  refine ⟨by omega, hd, by omega, fun h365 => ?_⟩
  obtain ⟨rfl, hlast⟩ := hl h365
  unfold IsLeap
  omega

theorem yearStart_era (era : Nat) {yoe : Nat} (h : yoe < 400) :
    yearStart (400 * era + yoe) = 146097 * era + (365 * yoe + yoe / 4 - yoe / 100) := by
  unfold yearStart
  omega

theorem isLeap_era (era y : Nat) : IsLeap (400 * era + y) ↔ IsLeap y := by
  unfold IsLeap
  omega

/-- The month around a day, counted from March, and the civil month it is. -/
def monthOfDay (doy : Nat) : Nat := (5 * doy + 2) / 153
def civilMonth (mp : Nat) : Nat := if mp < 10 then mp + 3 else mp - 9

theorem monthOfDay_spec {doy : Nat} (h : doy ≤ 365) :
    monthOfDay doy < 12 ∧ monthStart (monthOfDay doy) ≤ doy ∧
      doy < monthStart (monthOfDay doy + 1) := by
  unfold monthStart monthOfDay
  omega

theorem marchMonth_civil {mp : Nat} (h : mp < 12) :
    1 ≤ civilMonth mp ∧ civilMonth mp ≤ 12 ∧ marchMonth (civilMonth mp) = mp := by
  unfold civilMonth marchMonth
  split <;> omega

/-- The day of a month, where the month is one of a year that starts in March. -/
theorem dayOfMonth_le {y doy : Nat} (h : doy ≤ 365) (hl : doy = 365 → IsLeap y) :
    doy - monthStart (monthOfDay doy) + 1 ≤ monthLength y (civilMonth (monthOfDay doy)) := by
  obtain ⟨hmp, hle, hlt⟩ := monthOfDay_spec h
  obtain ⟨hpos, h12, hmarch⟩ := marchMonth_civil hmp
  by_cases h2 : civilMonth (monthOfDay doy) = 2
  · have hfeb := monthLength_february y
    rw [h2] at hmarch ⊢
    rw [hmarch] at hfeb
    split_ifs at hfeb with hy
    · omega
    · have : doy ≠ 365 := fun h365 => hy (hl h365)
      omega
  · have hend := monthLength_march y hpos h12 h2
    rw [hmarch] at hend
    omega

/-- The year that starts in March, the day of it and the month around a day. -/
def eraYear (n : Nat) : Nat := 400 * (n / 146097) + yearOfEra (n % 146097)
def eraDay (n : Nat) : Nat := dayOfEraYear (n % 146097)

theorem eraDay_spec (n : Nat) :
    eraDay n ≤ 365 ∧ yearStart (eraYear n) + eraDay n = n ∧
      (eraDay n = 365 → IsLeap (eraYear n + 1)) := by
  obtain ⟨hyoe, hdoy, hsum, hleap⟩ := era_spec (Nat.mod_lt n (by decide : 146097 > 0))
  refine ⟨hdoy, ?_, fun h => ?_⟩
  · rw [eraYear, eraDay, yearStart_era _ hyoe]
    have := Nat.div_add_mod n 146097
    omega
  · rw [eraYear, Nat.add_assoc, isLeap_era]
    exact hleap h

/-- The date `n` days after the first of March of the year 0. -/
def ofDays (n : Nat) : Date :=
  let m := civilMonth (monthOfDay (eraDay n))
  have hdoy := (eraDay_spec n).1
  have hmonth := marchMonth_civil (monthOfDay_spec hdoy).1
  { year := if m ≤ 2 then eraYear n + 1 else eraYear n
    month := m
    day := eraDay n - monthStart (monthOfDay (eraDay n)) + 1
    month_pos := hmonth.1
    month_le := hmonth.2.1
    day_pos := Nat.le_add_left 1 _
    day_le := dayOfMonth_le hdoy fun h => by
      -- The last day of a year that starts in March is in February.
      have h2 : m ≤ 2 := by
        show civilMonth (monthOfDay (eraDay n)) ≤ 2
        rw [h]
        decide
      rw [if_pos h2]
      exact (eraDay_spec n).2.2 h }

theorem dayNumber_ofDays (n : Nat) : (ofDays n).dayNumber = n := by
  obtain ⟨hdoy, hsum, -⟩ := eraDay_spec n
  obtain ⟨hmp, hle, -⟩ := monthOfDay_spec hdoy
  have hmarch := (marchMonth_civil hmp).2.2
  have hyear : (ofDays n).marchYear = eraYear n := by
    simp only [Date.marchYear, ofDays]
    split <;> rfl
  have hday : (ofDays n).dayOfYear = eraDay n := by
    simp only [Date.dayOfYear, ofDays, hmarch, Nat.add_sub_cancel]
    exact Nat.add_sub_cancel' hle
  rw [Date.dayNumber, hyear, hday, hsum]

/-- From the first of January of the year 1 on, the year is positive. -/
theorem year_ofDays {n : Nat} (h : 306 ≤ n) : 0 < (ofDays n).year := by
  obtain ⟨hdoy, hsum, -⟩ := eraDay_spec n
  obtain ⟨hmp, hle, hlt⟩ := monthOfDay_spec hdoy
  simp only [ofDays]
  split
  · exact Nat.succ_pos _
  · rename_i hm
    refine Nat.pos_of_ne_zero fun h0 => hm ?_
    have hstart : yearStart 0 = 0 := rfl
    rw [h0, hstart] at hsum
    unfold monthStart at hlt
    unfold civilMonth
    split <;> omega

/-- Counting days from a date is adding to its day number. -/
theorem ofDays_after {d : Date} (hy : 0 < d.year) (h : 306 ≤ d.dayNumber) (n : Nat) :
    ofDays (d.dayNumber + n) = d.after n :=
  Date.dayNumber_inj (year_ofDays (by omega)) (Date.year_after hy n)
    (by rw [dayNumber_ofDays, Date.dayNumber_after hy])

end Gregorian
