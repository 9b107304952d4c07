import X86Emu.Devices.Timers
import X86Emu.Lib.Gregorian

/-!
# The real-time clock

Dates of day numbers against the Gregorian calendar, and the clock registers a guest reads against
the seconds since 1970.
-/
namespace X86Emu

open Gregorian

namespace Cmos

theorem january_le : 1 ≤ 12 := by decide

/-- January 1st, 1970. -/
def unixEpoch : Date where
  year := 1970
  month := 1
  day := 1
  month_pos := Nat.one_pos
  month_le := january_le
  day_pos := Nat.one_pos
  day_le := by decide

theorem unixEpoch_dayNumber : unixEpoch.dayNumber = 719468 := by decide

/-! ## Dates of day numbers -/

/-- The year, month and day are those of a date. -/
structure Dated (r : U64 × U32 × U32) (d : Date) : Prop where
  year : r.1.toInt = d.year
  month : r.2.1.toNat = d.month
  day : r.2.2.toNat = d.day

theorem era_toNat {z : U64} (h : z.toNat < 2 ^ 63) :
    ((if z.slt 0 then z - 146096 else z).sdiv 146097).toNat = z.toNat / 146097 := by
  have hmsb : z.msb = false := BitVec.msb_eq_false_iff_two_mul_lt.2 (by omega)
  have hneg : z.slt 0 = false := by rw [BitVec.ofNat_eq_ofNat, BitVec.slt_zero_eq_msb, hmsb]
  rw [hneg, if_neg Bool.false_ne_true, BitVec.sdiv_eq, hmsb]
  rfl

theorem yearOfEra_toNat {doe : U64} (h : doe.toNat < 146097) :
    ((doe - doe / 1460 + doe / 36524 - doe / 146096) / 365).toNat = yearOfEra doe.toNat := by
  have ha : (doe / 1460).toNat = doe.toNat / 1460 := rfl
  have hb : (doe / 36524).toNat = doe.toNat / 36524 := rfl
  have hc : (doe / 146096).toNat = doe.toNat / 146096 := rfl
  have hsum : (doe - doe / 1460 + doe / 36524 - doe / 146096).toNat =
      doe.toNat - doe.toNat / 1460 + doe.toNat / 36524 - doe.toNat / 146096 := by
    rw [← ha, ← hb, ← hc]
    generalize doe / 1460 = a, doe / 36524 = b, doe / 146096 = c at *
    bv_omega
  rw [BitVec.toNat_udiv, hsum]
  rfl

theorem dayOfEraYear_toNat {doe yoe : U64} (h : doe.toNat < 146097)
    (hy : yoe.toNat = yearOfEra doe.toNat) :
    (doe - (365 * yoe + yoe / 4 - yoe / 100)).toNat = dayOfEraYear doe.toNat := by
  obtain ⟨hlt, -, hsum, -⟩ := era_spec h
  have ha : (yoe / 4).toNat = yoe.toNat / 4 := rfl
  have hb : (yoe / 100).toNat = yoe.toNat / 100 := rfl
  rw [← hy] at hlt hsum
  rw [dayOfEraYear, ← hy, ← ha, ← hb]
  generalize yoe / 4 = a, yoe / 100 = b at *
  have hstart : (365 * yoe + a - b).toNat = 365 * yoe.toNat + a.toNat - b.toNat := by bv_omega
  rw [← hstart]
  bv_omega

theorem monthOfDay_toNat {doy : U64} (h : doy.toNat ≤ 365) :
    ((5 * doy + 2) / 153).toNat = monthOfDay doy.toNat := by
  have hsum : (5 * doy + 2).toNat = 5 * doy.toNat + 2 := by bv_omega
  rw [BitVec.toNat_udiv, hsum]
  rfl

theorem monthStart_toNat {mp : U64} (h : mp.toNat < 12) :
    ((153 * mp + 2) / 5).toNat = monthStart mp.toNat := by
  have hsum : (153 * mp + 2).toNat = 153 * mp.toNat + 2 := by bv_omega
  rw [BitVec.toNat_udiv, hsum]
  rfl

theorem civilMonth_toNat {mp : U64} (h : mp.toNat < 12) :
    (u32 (if mp < 10 then mp + 3 else mp - 9)).toNat = civilMonth mp.toNat := by
  rw [civilMonth, BitVec.toNat_setWidth]
  split <;> split <;> bv_omega

/-- In 64 bits the computed date is that of the calendar, as long as the sum does not overflow. -/
theorem civilFromDays_dated {z : U64} (h : z.toNat + 719468 < 2 ^ 63) :
    Dated (civilFromDays z) (unixEpoch.after z.toNat) := by
  have hafter : unixEpoch.after z.toNat = ofDays (z.toNat + 719468) := by
    rw [Nat.add_comm, ← unixEpoch_dayNumber]
    exact (ofDays_after (by decide) (by decide) z.toNat).symm
  rw [hafter]
  unfold civilFromDays
  extract_lets w era doe yoe y doy mp d m
  have hw : w.toNat = z.toNat + 719468 := by
    simp only [w]
    bv_omega
  generalize z.toNat + 719468 = n at *
  have hera : era.toNat = n / 146097 := by
    rw [← hw]
    exact era_toNat (by omega)
  obtain ⟨hyoe', hdoy', hsum', -⟩ := era_spec (Nat.mod_lt n (by decide : 146097 > 0))
  have hdoe : doe.toNat = n % 146097 := by
    simp only [doe]
    bv_omega
  have hyoe : yoe.toNat = yearOfEra (n % 146097) := by
    rw [← hdoe]
    exact yearOfEra_toNat (by omega)
  have hy : y.toNat = eraYear n := by
    simp only [y, eraYear, ← hyoe]
    bv_omega
  have hdoy : doy.toNat = eraDay n := by
    rw [eraDay, ← hdoe]
    exact dayOfEraYear_toNat (by omega) (by rw [hyoe, hdoe])
  obtain ⟨hday, -, -⟩ := eraDay_spec n
  obtain ⟨hlt, hle, -⟩ := monthOfDay_spec hday
  have hmp : mp.toNat = monthOfDay (eraDay n) := by
    rw [← hdoy]
    exact monthOfDay_toNat (by omega)
  have hm : m.toNat = civilMonth (monthOfDay (eraDay n)) := by
    rw [← hmp]
    exact civilMonth_toNat (by omega)
  have hstart : ((153 * mp + 2) / 5).toNat = monthStart mp.toNat := monthStart_toNat (by omega)
  rw [hmp] at hstart
  refine ⟨?_, hm, ?_⟩
  · have hlt : y.toNat < 2 ^ 62 := by
      rw [hy, eraYear]
      omega
    rw [BitVec.toInt_eq_toNat_of_lt (by split <;> bv_omega)]
    simp only [ofDays, ← hm, ← hy]
    split <;> split <;> bv_omega
  · rw [← hstart, ← hdoy] at hle
    simp only [ofDays]
    rw [← hstart, ← hdoy]
    simp only [d, BitVec.toNat_setWidth]
    generalize (153 * mp + 2) / 5 = k at *
    bv_omega

theorem Dated.unique {r : U64 × U32 × U32} {d e : Date} (hd : Dated r d) (he : Dated r e) :
    d = e := by
  refine Date.ext ?_ (hd.month.symm.trans he.month) (hd.day.symm.trans he.day)
  have := hd.year.symm.trans he.year
  exact_mod_cast this

theorem epoch_le {d : Date} (h : 1970 ≤ d.year) : 719468 ≤ d.dayNumber := by
  have hpos := d.month_pos
  have hday := d.monthStart_le
  by_cases hm : d.month ≤ 2
  · have hyear : yearStart 1969 ≤ yearStart d.marchYear := by
      refine yearStart_mono ?_
      rw [Date.marchYear, if_pos hm]
      omega
    have hstart : yearStart 1969 = 719162 := by decide
    have hmonth : 306 ≤ monthStart (marchMonth d.month) := by
      unfold monthStart marchMonth
      omega
    unfold Date.dayNumber
    omega
  · have hyear : yearStart 1970 ≤ yearStart d.marchYear := by
      refine yearStart_mono ?_
      rw [Date.marchYear, if_neg hm]
      exact h
    have hstart : yearStart 1970 = 719527 := by decide
    unfold Date.dayNumber
    omega

/-- Every date from 1970 on, as far as 64 bits count days, has one day number. -/
theorem civilFromDays_unique {d : Date} (h : 1970 ≤ d.year) (hd : d.dayNumber < 2 ^ 63) :
    ∃! z : U64, z.toNat + 719468 < 2 ^ 63 ∧ Dated (civilFromDays z) d := by
  have hle := epoch_le h
  have hnum (n : Nat) : (unixEpoch.after n).dayNumber = 719468 + n := by
    rw [Date.dayNumber_after (by decide), unixEpoch_dayNumber]
  refine ⟨BitVec.ofNat 64 (d.dayNumber - 719468), ⟨?_, ?_⟩, ?_⟩
  · rw [BitVec.toNat_ofNat]
    omega
  · have hz : (BitVec.ofNat 64 (d.dayNumber - 719468)).toNat = d.dayNumber - 719468 := by
      rw [BitVec.toNat_ofNat]
      omega
    have hdate : unixEpoch.after (d.dayNumber - 719468) = d := by
      refine Date.dayNumber_inj (Date.year_after (by decide) _) (by omega) ?_
      rw [hnum]
      omega
    have := civilFromDays_dated (z := BitVec.ofNat 64 (d.dayNumber - 719468)) (by rw [hz]; omega)
    rwa [hz, hdate] at this
  · rintro z ⟨hz, hdated⟩
    have hdate := (civilFromDays_dated hz).unique hdated
    have := hnum z.toNat
    rw [hdate] at this
    refine BitVec.eq_of_toNat_eq ?_
    rw [BitVec.toNat_ofNat]
    omega

/-! ## The registers of a running clock -/

/-- Seconds since 1970. -/
def time (c : Cmos) : Nat := (c.epochSecs + c.elapsedSecs).toNat

/-- What a guest makes of the clock registers. -/
structure Reading where
  seconds : Nat
  minutes : Nat
  hours : Nat
  weekday : Nat
  day : Nat
  month : Nat
  year : Nat
  century : Nat

/-- Select a register through port 70h and read it through port 71h. -/
def readReg (i : U8) : StateM Cmos U8 := fun c => (c.writeIndex i).readData

/-- A register's number, in the format status B announces. -/
def decodeReg (status v : U8) : Nat :=
  if test status sbBinary then v.toNat else 10 * (v >>> 4).toNat + (v &&& 0x0F).toNat

/-- Read the format and the eight clock registers. -/
def readClock : StateM Cmos Reading := do
  let status ← readReg statusB
  let s ← readReg Cmos.seconds
  let mi ← readReg Cmos.minutes
  let h ← readReg Cmos.hours
  let wd ← readReg Cmos.weekday
  let d ← readReg Cmos.day
  let mo ← readReg Cmos.month
  let y ← readReg Cmos.year
  let ct ← readReg Cmos.century
  pure
    { seconds := decodeReg status s
      minutes := decodeReg status mi
      hours := decodeReg status h
      weekday := decodeReg status wd
      day := decodeReg status d
      month := decodeReg status mo
      year := decodeReg status y
      century := decodeReg status ct }

/-- The reading is the date, the weekday and the time of day `t` seconds after 1970. -/
structure Reading.Shows (r : Reading) (t : Nat) : Prop where
  year : 100 * r.century + r.year = (unixEpoch.after (t / 86400)).year
  month : r.month = (unixEpoch.after (t / 86400)).month
  day : r.day = (unixEpoch.after (t / 86400)).day
  -- January 1st, 1970 was a Thursday, the fifth day of the week.
  weekday : r.weekday = (t / 86400 + 4) % 7 + 1
  hours : r.hours < 24
  minutes : r.minutes < 60
  seconds : r.seconds < 60
  timeOfDay : 3600 * r.hours + 60 * r.minutes + r.seconds = t % 86400

/-- A reading shows one time. -/
theorem Reading.Shows.unique {r : Reading} {t u : Nat} (ht : r.Shows t) (hu : r.Shows u) :
    t = u := by
  have hdate : unixEpoch.after (t / 86400) = unixEpoch.after (u / 86400) :=
    Date.ext (ht.year.symm.trans hu.year) (ht.month.symm.trans hu.month)
      (ht.day.symm.trans hu.day)
  have hdays : t / 86400 = u / 86400 := by
    have hnum := congrArg Date.dayNumber hdate
    rw [Date.dayNumber_after (by decide), Date.dayNumber_after (by decide)] at hnum
    exact Nat.add_left_cancel hnum
  have hrem := ht.timeOfDay.symm.trans hu.timeOfDay
  rw [← Nat.div_add_mod t 86400, ← Nat.div_add_mod u 86400, hdays, hrem]

/-- The format of a clock register. -/
def encodeReg (status : U8) (v : U32) : U8 :=
  if test status sbBinary then u8 v else toBcd v

theorem decodeReg_encode (status : U8) {v : U32} (h : v.toNat < 160) :
    decodeReg status (encodeReg status v) = v.toNat := by
  unfold decodeReg encodeReg
  split
  · rw [BitVec.toNat_setWidth]
    omega
  · have hall : ∀ n < 160, 10 * (toBcd (BitVec.ofNat 32 n) >>> 4).toNat +
        (toBcd (BitVec.ofNat 32 n) &&& 0x0F).toNat = n := by decide +kernel
    have := hall v.toNat h
    rwa [BitVec.ofNat_toNat, BitVec.setWidth_eq] at this

theorem readReg_statusB (c : Cmos) : readReg statusB c = (c.ram statusB, c.writeIndex statusB) :=
  Prod.ext (congrArg c.ram (by decide : statusB &&& 0x7F &&& 0x7F = statusB)) rfl

/-- A clock register is read in the format of status B, and only the index moves. -/
theorem readReg_clock (c : Cmos) :
    readReg Cmos.seconds c =
      (encodeReg (c.ram statusB) c.civilTime.2.2.2.2.2.1, c.writeIndex Cmos.seconds) ∧
    readReg Cmos.minutes c =
      (encodeReg (c.ram statusB) c.civilTime.2.2.2.2.1, c.writeIndex Cmos.minutes) ∧
    readReg Cmos.hours c =
      (encodeReg (c.ram statusB) c.civilTime.2.2.2.1, c.writeIndex Cmos.hours) ∧
    readReg Cmos.weekday c =
      (encodeReg (c.ram statusB) (c.civilTime.2.2.2.2.2.2 + 1), c.writeIndex Cmos.weekday) ∧
    readReg Cmos.day c =
      (encodeReg (c.ram statusB) c.civilTime.2.2.1, c.writeIndex Cmos.day) ∧
    readReg Cmos.month c =
      (encodeReg (c.ram statusB) c.civilTime.2.1, c.writeIndex Cmos.month) ∧
    readReg Cmos.year c =
      (encodeReg (c.ram statusB) (c.civilTime.1 % 100), c.writeIndex Cmos.year) ∧
    readReg Cmos.century c =
      (encodeReg (c.ram statusB) (c.civilTime.1 / 100), c.writeIndex Cmos.century) :=
  ⟨rfl, rfl, rfl, rfl, rfl, rfl, rfl, rfl⟩

/-- Reading the clock changes nothing but the selected register. -/
theorem readClock_eq (c : Cmos) :
    readClock c =
      let dec v := decodeReg (c.ram statusB) (encodeReg (c.ram statusB) v)
      let (y, mo, d, h, mi, s, wd) := c.civilTime
      ({ seconds := dec s, minutes := dec mi, hours := dec h, weekday := dec (wd + 1), day := dec d
         month := dec mo, year := dec (y % 100), century := dec (y / 100) },
        c.writeIndex Cmos.century) := by
  simp only [readClock, bind, StateT.bind, readReg_statusB, readReg_clock]
  rfl

theorem Dated.year_toNat {r : U64 × U32 × U32} {d : Date} (h : Dated r d) :
    r.1.toNat = d.year := by
  have := h.year
  rw [BitVec.toInt_eq_toNat_cond] at this
  split at this <;> omega

/-- The weekday of a day number that is not negative. -/
theorem weekday_toNat {z : U64} (h : z.toNat + 4 < 2 ^ 63) :
    (u32 ((z + 4).srem 7)).toNat = (z.toNat + 4) % 7 := by
  have hsum : (z + 4).toNat = z.toNat + 4 := by bv_omega
  have hmsb : (z + 4).msb = false := BitVec.msb_eq_false_iff_two_mul_lt.2 (by omega)
  have hrem : (z + 4).srem 7 = (z + 4).umod 7 := by
    rw [BitVec.srem_eq, hmsb]
    rfl
  have hmod : ((z + 4).umod 7).toNat = (z + 4).toNat % 7 := rfl
  rw [hrem, BitVec.toNat_setWidth, hmod, hsum]
  omega

/-- The fields of the date and the time of day; the year is cut to its register. -/
theorem civilTime_spec (c : Cmos) :
    let d := unixEpoch.after (c.time / 86400)
    c.civilTime.1.toNat = d.year % 2 ^ 32 ∧ c.civilTime.2.1.toNat = d.month ∧
      c.civilTime.2.2.1.toNat = d.day ∧ c.civilTime.2.2.2.1.toNat = c.time % 86400 / 3600 ∧
      c.civilTime.2.2.2.2.1.toNat = c.time % 86400 % 3600 / 60 ∧
      c.civilTime.2.2.2.2.2.1.toNat = c.time % 86400 % 60 ∧
      c.civilTime.2.2.2.2.2.2.toNat = (c.time / 86400 + 4) % 7 := by
  have hdays : ((c.epochSecs + c.elapsedSecs) / 86400).toNat = c.time / 86400 := rfl
  have hrem : (u32 ((c.epochSecs + c.elapsedSecs) % 86400)).toNat = c.time % 86400 := by
    have hmod : ((c.epochSecs + c.elapsedSecs) % 86400).toNat = c.time % 86400 := rfl
    rw [BitVec.toNat_setWidth, hmod]
    omega
  have htime : c.time < 2 ^ 64 := BitVec.isLt _
  have hdated := civilFromDays_dated (z := (c.epochSecs + c.elapsedSecs) / 86400) (by omega)
  rw [hdays] at hdated
  refine ⟨?_, hdated.month, hdated.day, ?_, ?_, ?_, ?_⟩
  · rw [← hdated.year_toNat]
    exact BitVec.toNat_setWidth _ _
  · rw [← hrem]
    rfl
  · rw [← hrem]
    rfl
  · rw [← hrem]
    rfl
  · rw [← hdays]
    exact weekday_toNat (by omega)

/-- A date early enough has a year early enough. -/
theorem year_le {n : Nat} (h : n ≤ 2932897) : (unixEpoch.after n).year ≤ 10001 := by
  by_contra hlt
  have hnum := Date.dayNumber_after (d := unixEpoch) (by decide) n
  rw [unixEpoch_dayNumber] at hnum
  have hstart := (unixEpoch.after n).yearStart_le
  have hyear : yearStart 10001 ≤ yearStart (unixEpoch.after n).marchYear := by
    refine yearStart_mono ?_
    rw [Date.marchYear]
    split <;> omega
  have hten : yearStart 10001 = 3652790 := by decide
  omega

/-- Up to the first second of the year 10000 the registers show the time. -/
theorem readClock_shows {c : Cmos} (h : c.time ≤ 253402300800) :
    (readClock c).1.Shows c.time := by
  obtain ⟨hy, hmo, hd, hh, hmi, hs, hwd⟩ := c.civilTime_spec
  have hyear := year_le (n := c.time / 86400) (by omega)
  have hmonth := (unixEpoch.after (c.time / 86400)).month_le
  have hday := (unixEpoch.after (c.time / 86400)).day_le.trans (monthLength_le _ _)
  rw [readClock_eq]
  generalize c.civilTime = r at *
  obtain ⟨y, mo, d, h, mi, s, wd⟩ := r
  dsimp only at *
  have hcent : (y / 100).toNat = y.toNat / 100 := rfl
  have hyr : (y % 100).toNat = y.toNat % 100 := rfl
  have hwd1 : (wd + 1).toNat = wd.toNat + 1 := by bv_omega
  constructor <;> dsimp only
  · rw [decodeReg_encode _ (by omega), decodeReg_encode _ (by omega), hcent, hyr]
    omega
  · rw [decodeReg_encode _ (by omega), hmo]
  · rw [decodeReg_encode _ (by omega), hd]
  · rw [decodeReg_encode _ (by omega), hwd1, hwd]
  · rw [decodeReg_encode _ (by omega)]
    omega
  · rw [decodeReg_encode _ (by omega)]
    omega
  · rw [decodeReg_encode _ (by omega)]
    omega
  · rw [decodeReg_encode _ (by omega), decodeReg_encode _ (by omega),
      decodeReg_encode _ (by omega)]
    omega

theorem time_tickSecond {c : Cmos} (h : c.time + 1 < 2 ^ 64) :
    c.tickSecond.time = c.time + 1 := by
  simp only [time, tickSecond] at *
  bv_omega

/-- The dates of day numbers, and the clock registers up to the year 9999. -/
theorem shows_calendar {z : U64} (hz : z.toNat + 719468 < 2 ^ 63) {c : Cmos}
    (hc : c.time < 253402300800) :
    Dated (civilFromDays z) (unixEpoch.after z.toNat) ∧
      (z.toNat + 719469 < 2 ^ 63 →
        Dated (civilFromDays (z + 1)) (unixEpoch.after z.toNat).next) ∧
      (∀ d : Date, 1970 ≤ d.year → d.dayNumber < 2 ^ 63 →
        ∃! n : U64, n.toNat + 719468 < 2 ^ 63 ∧ Dated (civilFromDays n) d) ∧
      (∀ t, (readClock c).1.Shows t ↔ t = c.time) ∧
      (∀ t, (readClock c.tickSecond).1.Shows t ↔ t = c.time + 1) := by
  have htick : c.tickSecond.time = c.time + 1 := time_tickSecond (by omega)
  refine ⟨civilFromDays_dated hz, fun h => ?_, fun d => civilFromDays_unique, fun t => ?_,
    fun t => ?_⟩
  · have hone : (z + 1).toNat = z.toNat + 1 := by bv_omega
    rw [← Date.after_succ, ← hone]
    exact civilFromDays_dated (by omega)
  · have hshows := readClock_shows (c := c) hc.le
    exact ⟨fun h => h.unique hshows, fun h => h ▸ hshows⟩
  · have hshows := readClock_shows (c := c.tickSecond) (by omega)
    rw [htick] at hshows
    exact ⟨fun h => h.unique hshows, fun h => h ▸ hshows⟩

/-- The 29th of February 2000, and a clock at the start of 2024. -/
theorem shows_calendar_leap :
    Dated (civilFromDays 11016) (unixEpoch.after 11016) ∧
      (readClock (new 1704067200)).1.Shows 1704067200 := by
  have h := shows_calendar (z := 11016) (by decide) (c := new 1704067200) (by decide)
  exact ⟨h.1, (h.2.2.2.1 _).2 (by decide)⟩

/-- The last day number of 64 bits overflows the sum, and its year is negative. -/
theorem dayNumber_overflow :
    ¬ ∀ z : U64, z.slt 0 = false →
      ∃ d, Dated (civilFromDays z) d ∧ Dated (civilFromDays (z + 1)) d.next := by
  intro h
  obtain ⟨d, -, hnext⟩ := h 9223372036854775806 (by decide)
  have hneg : (civilFromDays (9223372036854775806 + 1)).1.toInt < 0 := by decide
  have := hnext.year
  omega

end Cmos
end X86Emu
