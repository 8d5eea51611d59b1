import Mathlib.Tactic.Common

/-!
# The alarm of the RTC

`setup_alarm` and `setup_wkalarm` of `rtc.c` read the clock, add some seconds and set
the alarm. They carry into the minutes only, and only from a sum above 60.
-/

namespace N32905.Rtc

/-! ## The model -/

/-- `struct rtc_time`: `tm_mon` counts from 0, `tm_year` from 1900. -/
structure RtcTime where
  tm_sec : Int
  tm_min : Int
  tm_hour : Int
  tm_mday : Int
  tm_mon : Int
  tm_year : Int
  deriving DecidableEq

structure RtcWkalrm where
  enabled : Int
  time : RtcTime
  deriving DecidableEq

/-- The time both functions compute from the one they have read. -/
def alarmTime (rtc_tm : RtcTime) (sec : Int) : RtcTime :=
  let rtc_tm := { rtc_tm with tm_sec := rtc_tm.tm_sec + sec }
  if 60 < rtc_tm.tm_sec then
    { rtc_tm with tm_sec := rtc_tm.tm_sec - 60, tm_min := rtc_tm.tm_min + 1 }
  else rtc_tm

/-- `setup_alarm`: what it passes to `RTC_ALM_SET`, unless `RTC_RD_TIME` fails. -/
def setupAlarm (rd_time : Option RtcTime) (sec : Int) : Option RtcTime :=
  rd_time.map fun rtc_tm => alarmTime rtc_tm sec

/-- `setup_wkalarm`: what it passes to `RTC_WKALM_SET`. -/
def setupWkalarm (rd_time : Option RtcTime) (sec : Int) : Option RtcWkalrm :=
  rd_time.map fun rtc_tm => { enabled := 1, time := alarmTime rtc_tm sec }

/-! ## The calendar -/

def isLeap (year : Int) : Bool := year % 4 = 0 && (year % 100 ≠ 0 || year % 400 = 0)

def monthDays (year mon : Int) : Int :=
  if mon = 1 then if isLeap year then 29 else 28
  else if mon = 3 ∨ mon = 5 ∨ mon = 8 ∨ mon = 10 then 30 else 31

def yearStart (year : Int) : Int :=
  365 * (year - 1) + (year - 1) / 4 - (year - 1) / 100 + (year - 1) / 400

def monthStart (year : Int) : Nat → Int
  | 0 => 0
  | mon + 1 => monthStart year mon + monthDays year mon

namespace RtcTime

def year (t : RtcTime) : Int := t.tm_year + 1900

structure Valid (t : RtcTime) : Prop where
  sec : 0 ≤ t.tm_sec ∧ t.tm_sec ≤ 59
  min : 0 ≤ t.tm_min ∧ t.tm_min ≤ 59
  hour : 0 ≤ t.tm_hour ∧ t.tm_hour ≤ 23
  mday : 1 ≤ t.tm_mday ∧ t.tm_mday ≤ monthDays t.year t.tm_mon
  mon : 0 ≤ t.tm_mon ∧ t.tm_mon ≤ 11

def days (t : RtcTime) : Int := yearStart t.year + monthStart t.year t.tm_mon.toNat + t.tm_mday

/-- The second a date and time denote. -/
def seconds (t : RtcTime) : Int := ((t.days * 24 + t.tm_hour) * 60 + t.tm_min) * 60 + t.tm_sec

end RtcTime

/-- `tm` is the valid time `sec` seconds after `t`. -/
def After (t : RtcTime) (sec : Int) (tm : RtcTime) : Prop :=
  tm.Valid ∧ tm.seconds = t.seconds + sec

/-! ## One time for each second -/

section Calendar
variable {year year' : Int} {mon mon' : Nat}

theorem monthDays_pos (year mon : Int) : 0 < monthDays year mon := by
  unfold monthDays
  split
  · split <;> decide
  · split <;> decide

theorem yearStart_succ (year : Int) : yearStart (year + 1) = yearStart year + monthStart year 12 := by
  have hmonths : monthStart year 12 = if isLeap year then 366 else 365 := by
    simp only [monthStart, monthDays]
    cases isLeap year <;> decide
  have hleap : isLeap year = true ↔ year % 4 = 0 ∧ (year % 100 ≠ 0 ∨ year % 400 = 0) := by
    simp [isLeap]
  rw [hmonths, yearStart, yearStart]
  split
  case isTrue h =>
    have := hleap.1 h
    omega
  case isFalse h =>
    have := mt hleap.2 h
    omega

theorem yearStart_mono (h : year ≤ year') : yearStart year ≤ yearStart year' := by
  unfold yearStart
  omega

theorem monthStart_mono (h : mon ≤ mon') : monthStart year mon ≤ monthStart year mon' := by
  induction h with
  | refl => exact Int.le_refl _
  | @step mon' _ ih =>
    have := monthDays_pos year mon'
    rw [monthStart]
    omega

end Calendar

namespace RtcTime

variable {t t' : RtcTime}

theorem Valid.days_bounds (h : t.Valid) :
    yearStart t.year + monthStart t.year t.tm_mon.toNat < t.days ∧
      t.days ≤ yearStart t.year + monthStart t.year (t.tm_mon.toNat + 1) ∧
      t.days ≤ yearStart (t.year + 1) := by
  have hmday := h.mday
  have hmon := h.mon
  have hcast : ((t.tm_mon.toNat : Nat) : Int) = t.tm_mon := Int.toNat_of_nonneg hmon.1
  have hyear : monthStart t.year (t.tm_mon.toNat + 1) ≤ monthStart t.year 12 :=
    monthStart_mono (by omega)
  have hend : t.days ≤ yearStart t.year + monthStart t.year (t.tm_mon.toNat + 1) := by
    rw [days, monthStart, hcast]
    omega
  refine ⟨by rw [days]; omega, hend, ?_⟩
  rw [yearStart_succ]
  omega

theorem Valid.days_lt_of_year (h : t.Valid) (h' : t'.Valid) (hlt : t.year < t'.year) :
    t.days < t'.days := by
  have hnext : yearStart (t.year + 1) ≤ yearStart t'.year := yearStart_mono hlt
  have hstart : (0 : Int) ≤ monthStart t'.year t'.tm_mon.toNat :=
    monthStart_mono (Nat.zero_le _)
  have := h.days_bounds
  have := h'.days_bounds
  omega

theorem Valid.days_lt_of_mon (h : t.Valid) (h' : t'.Valid) (hyear : t.year = t'.year)
    (hlt : t.tm_mon < t'.tm_mon) : t.days < t'.days := by
  have hmon := h.mon
  have hnext : monthStart t'.year (t.tm_mon.toNat + 1) ≤ monthStart t'.year t'.tm_mon.toNat :=
    monthStart_mono (by omega)
  have hbounds := h.days_bounds
  have := h'.days_bounds
  rw [hyear] at hbounds
  omega

/-- **Two valid times** that denote the same second are the same. -/
theorem Valid.eq_of_seconds (h : t.Valid) (h' : t'.Valid) (heq : t.seconds = t'.seconds) : t = t' := by
  have hsec := h.sec
  have hmin := h.min
  have hhour := h.hour
  have hsec' := h'.sec
  have hmin' := h'.min
  have hhour' := h'.hour
  unfold seconds at heq
  have hdays : t.days = t'.days := by omega
  have hyear : t.year = t'.year := by
    rcases Int.lt_trichotomy t.year t'.year with hlt | heq | hgt
    · have := h.days_lt_of_year h' hlt
      omega
    · exact heq
    · have := h'.days_lt_of_year h hgt
      omega
  have hmon : t.tm_mon = t'.tm_mon := by
    rcases Int.lt_trichotomy t.tm_mon t'.tm_mon with hlt | heq | hgt
    · have := h.days_lt_of_mon h' hyear hlt
      omega
    · exact heq
    · have := h'.days_lt_of_mon h hyear.symm hgt
      omega
  have hmday : t.tm_mday = t'.tm_mday := by
    rw [days, days, hyear, hmon] at hdays
    omega
  have htm_year : t.tm_year = t'.tm_year := by
    unfold year at hyear
    omega
  obtain ⟨sec, min, hour, mday, mon, year⟩ := t
  obtain ⟨sec', min', hour', mday', mon', year'⟩ := t'
  simp only at hmon hmday htm_year hsec hsec' hmin hmin' hhour hhour' heq
  simp only [mk.injEq]
  omega

end RtcTime

theorem After.unique {t tm tm' : RtcTime} {sec : Int} (h : After t sec tm) (h' : After t sec tm') :
    tm = tm' :=
  h.1.eq_of_seconds h'.1 (h.2.trans h'.2.symm)

/-! ## The carry -/

section Carry
variable {t : RtcTime} {sec : Int}

theorem alarmTime_le (h : t.tm_sec + sec ≤ 60) :
    alarmTime t sec = { t with tm_sec := t.tm_sec + sec } := by
  rw [alarmTime]
  simp only [if_neg (Int.not_lt.2 h)]

theorem alarmTime_gt (h : 60 < t.tm_sec + sec) :
    alarmTime t sec = { t with tm_sec := t.tm_sec + sec - 60, tm_min := t.tm_min + 1 } := by
  rw [alarmTime]
  simp only [if_pos h]

/-- **The value is always right**: a minute is 60 seconds. -/
theorem alarmTime_seconds : (alarmTime t sec).seconds = t.seconds + sec := by
  by_cases h : t.tm_sec + sec ≤ 60
  · rw [alarmTime_le h]
    simp only [RtcTime.seconds, RtcTime.days, RtcTime.year]
    omega
  · rw [alarmTime_gt (Int.not_le.1 h)]
    simp only [RtcTime.seconds, RtcTime.days, RtcTime.year]
    omega

theorem alarmTime_valid (ht : t.Valid) (h0 : 0 < sec) (h60 : sec < 60) :
    (alarmTime t sec).Valid ↔ t.tm_sec + sec < 60 ∨ 60 < t.tm_sec + sec ∧ t.tm_min < 59 := by
  have hsec := ht.sec
  have hmin := ht.min
  by_cases h : t.tm_sec + sec ≤ 60
  · rw [alarmTime_le h]
    refine ⟨fun hv => ?_, fun hlt => { ht with sec := by simp only; omega }⟩
    have hsec' := hv.sec
    simp only at hsec'
    omega
  · rw [alarmTime_gt (Int.not_le.1 h)]
    refine ⟨fun hv => ?_, fun hlt =>
      { ht with sec := by simp only; omega, min := by simp only; omega }⟩
    have hmin' := hv.min
    simp only at hmin'
    omega

theorem after_alarmTime (ht : t.Valid) (h0 : 0 < sec) (h60 : sec < 60) :
    After t sec (alarmTime t sec) ↔
      t.tm_sec + sec < 60 ∨ 60 < t.tm_sec + sec ∧ t.tm_min < 59 := by
  rw [After, alarmTime_valid ht h0 h60]
  exact and_iff_left alarmTime_seconds

end Carry

/-- **The alarm** is set to the right time unless the sum of the seconds is 60, or the last minute
of an hour overflows. -/
theorem alarm_after {t : RtcTime} {sec : Int} (ht : t.Valid) (h0 : 0 < sec) (h60 : sec < 60) :
    (∃ tm, setupAlarm (some t) sec = some tm ∧
      (After t sec tm ↔ t.tm_sec + sec < 60 ∨ 60 < t.tm_sec + sec ∧ t.tm_min < 59)) ∧
    ∃ alarm, setupWkalarm (some t) sec = some alarm ∧
      (After t sec alarm.time ↔
        t.tm_sec + sec < 60 ∨ 60 < t.tm_sec + sec ∧ t.tm_min < 59) :=
  ⟨⟨_, rfl, after_alarmTime ht h0 h60⟩, ⟨_, rfl, after_alarmTime ht h0 h60⟩⟩

/-- 29 February 2012, 12:34:56. -/
def leapDay : RtcTime where
  tm_sec := 56
  tm_min := 34
  tm_hour := 12
  tm_mday := 29
  tm_mon := 1
  tm_year := 112

theorem leapDay_valid : leapDay.Valid := by
  constructor <;> decide

/-- Five seconds later. -/
theorem alarm_after_leapDay :
    (∃ tm, setupAlarm (some leapDay) 5 = some tm ∧
      (After leapDay 5 tm ↔ leapDay.tm_sec + 5 < 60 ∨ 60 < leapDay.tm_sec + 5 ∧
        leapDay.tm_min < 59)) ∧
    ∃ alarm, setupWkalarm (some leapDay) 5 = some alarm ∧
      (After leapDay 5 alarm.time ↔ leapDay.tm_sec + 5 < 60 ∨ 60 < leapDay.tm_sec + 5 ∧
        leapDay.tm_min < 59) :=
  alarm_after leapDay_valid (by decide) (by decide)

/-- Four seconds later there would be a second 60. -/
theorem alarm_second_60 :
    leapDay.Valid ∧ ∃ tm, setupAlarm (some leapDay) 4 = some tm ∧ tm.tm_sec = 60 ∧
      ¬ After leapDay 4 tm ∧ setupWkalarm (some leapDay) 4 = some { enabled := 1, time := tm } := by
  refine ⟨leapDay_valid, _, rfl, rfl, ?_, rfl⟩
  rintro ⟨hv, -⟩
  have hsec := hv.sec.2
  revert hsec
  decide

end N32905.Rtc
