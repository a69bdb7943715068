import FreedosMicroPython.Lib.Calendar
import Mathlib.Tactic.IntervalCases
/-!
# Calendar to epoch

`port/time_real_uc386dos.c`: `days_from_civil`, and `mktime` and `gettimeofday` over it.
`daysFromCivil` is the formula over the integers and counts the days of the calendar;
`daysFromCivil32` is what the function computes with 32-bit `int` and `long`, and
`epoch_exact_iff` says up to which instant the seconds still fit.
-/

namespace FreedosMicroPython.TimeReal

open FreedosMicroPython.Lib.Calendar

/-! ## The formula -/

def daysFromCivil (y m d : Int) : Int :=
  let y := y - (if m ≤ 2 then 1 else 0)
  let era := y.tdiv 400
  let yoe := y - era * 400
  let mAdj := if m > 2 then m - 3 else m + 9
  let doy := (153 * mAdj + 2).tdiv 5 + d - 1
  let doe := yoe * 365 + yoe.tdiv 4 - yoe.tdiv 100 + doy
  era * 146097 + doe - 719468

/-- The days of the shifted years, which begin in March, in terms of the calendar's. -/
theorem shifted_years {y : Int} (hy : 0 ≤ y) {n : Nat} (hn : n = y + 1) :
    y.tdiv 400 * 146097 + ((y - y.tdiv 400 * 400) * 365 + (y - y.tdiv 400 * 400).tdiv 4 -
        (y - y.tdiv 400 * 400).tdiv 100) = daysBeforeYear n - 366 := by
  have hyears := daysBeforeYear_eq n
  rw [Int.tdiv_eq_ediv_of_nonneg hy, Int.tdiv_eq_ediv_of_nonneg (by omega),
    Int.tdiv_eq_ediv_of_nonneg (by omega)]
  omega

theorem isLeap_cases (y : Nat) : isLeap y = isLeap 0 ∨ isLeap y = isLeap 1 := by
  cases isLeap y <;> decide

/-- The days before a month that is not one of the first two, counted from the end of the
year, and by the linear formula for the months from March on. -/
theorem shifted_months (y : Nat) {m : Nat} (hm : 3 ≤ m) (hm' : m ≤ 12) :
    daysOfMonths y (m - 1) + 306 = yearLength y + (153 * (m - 3) + 2) / 5 := by
  rw [← daysOfMonths_twelve]
  rcases isLeap_cases y with h | h <;> rw [daysOfMonths_congr h, daysOfMonths_congr h] <;>
    interval_cases m <;> rfl

theorem daysFromCivil_eq (d : Date) (hyear : 1 ≤ d.year) :
    daysFromCivil d.year d.month d.day = d.dayNumber - 719528 := by
  have hmonth := d.month_pos
  have hday := d.day_pos
  unfold daysFromCivil Date.dayNumber
  by_cases hm : d.month ≤ 2
  · have hyears := shifted_years (y := (d.year : Int) - 1) (n := d.year) (by omega) (by omega)
    have hmonths : daysOfMonths d.year (d.month - 1) = 31 * (d.month - 1) := by
      obtain h | h : d.month = 1 ∨ d.month = 2 := by omega
      · rw [h]
        rfl
      · rw [h]
        rfl
    have hdoy : (153 * ((d.month : Int) + 9) + 2).tdiv 5 = (153 * (d.month + 9) + 2) / 5 :=
      Int.tdiv_eq_ediv_of_nonneg (by omega)
    rw [if_pos (by omega), if_neg (by omega)]
    dsimp only
    omega
  · have hyears := shifted_years (y := (d.year : Int) - 0) (n := d.year + 1) (by omega) (by omega)
    have hmonths := shifted_months d.year (Nat.not_le.mp hm) d.month_le
    rw [daysBeforeYear] at hyears
    have hdoy : (153 * ((d.month : Int) - 3) + 2).tdiv 5 = (153 * (d.month - 3) + 2) / 5 :=
      Int.tdiv_eq_ediv_of_nonneg (by omega)
    rw [if_neg (by omega), if_pos (by omega)]
    dsimp only
    omega

/-- The following day has the following number, from the year 1 on. -/
theorem daysFromCivil_counts :
    daysFromCivil 1970 1 1 = 0 ∧
      ∀ d : Date, 1 ≤ d.year →
        daysFromCivil d.next.year d.next.month d.next.day =
          daysFromCivil d.year d.month d.day + 1 := by
  refine ⟨by decide, fun d hyear => ?_⟩
  rw [daysFromCivil_eq d hyear, daysFromCivil_eq d.next (Nat.le_trans hyear d.year_le_next),
    dayNumber_next]
  omega

/-- The leap day of a century that has one. -/
theorem daysFromCivil_counts_leapDay :
    daysFromCivil 1970 1 1 = 0 ∧ daysFromCivil 2000 3 1 = daysFromCivil 2000 2 29 + 1 := by
  have hcount := daysFromCivil_counts.2 ⟨2000, 2, 29, by decide, by decide, by decide, by decide⟩
    (show 1 ≤ 2000 by decide)
  have hnext : (Date.next ⟨2000, 2, 29, by decide, by decide, by decide, by decide⟩) =
      ⟨2000, 3, 1, by decide, by decide, by decide, by decide⟩ := rfl
  rw [hnext] at hcount
  exact ⟨daysFromCivil_counts.1, hcount⟩

/-! ## In 32 bits -/

def daysFromCivil32 (y : Int32) (m d : UInt32) : Int32 :=
  let y := y - (if m ≤ 2 then 1 else 0)
  let era := y / 400
  let yoe := (y - era * 400).toUInt32
  let mAdj := if m > 2 then m - 3 else m + 9
  let doy := (153 * mAdj + 2) / 5 + d - 1
  let doe := yoe * 365 + yoe / 4 - yoe / 100 + doy
  era * 146097 + doe.toInt32 - 719468

/-- `long secs_today` of both callers. -/
def secsToday (hour min sec : Int32) : Int32 := hour * 3600 + min * 60 + sec

/-- `struct tm`, as far as `mktime` reads it. -/
structure Tm where
  tmYear : Int32
  tmMon : Int32
  tmMday : Int32
  tmHour : Int32
  tmMin : Int32
  tmSec : Int32

def mktime : Option Tm → Int32
  | none => -1
  | some tm =>
      let days := daysFromCivil32 (tm.tmYear + 1900) (tm.tmMon + 1).toUInt32 tm.tmMday.toUInt32
      days * 86400 + secsToday tm.tmHour tm.tmMin tm.tmSec

/-- `epoch_now`, where `raw` is what `dos_get_datetime` has stored. -/
def epochNow (raw : Vector UInt8 7) : Int32 :=
  let year := (raw[0].toUInt32 ||| raw[1].toUInt32 <<< 8).toInt32
  let days := daysFromCivil32 year raw[2].toUInt32 raw[3].toUInt32
  let secs := secsToday raw[4].toUInt32.toInt32 raw[5].toUInt32.toInt32 raw[6].toUInt32.toInt32
  days * 86400 + secs

structure Timeval where
  tvSec : Int32
  tvUsec : Int32
  deriving DecidableEq

def gettimeofday (raw : Vector UInt8 7) (tv : Option Timeval) : Option Timeval × Int32 :=
  (tv.map fun _ => ⟨epochNow raw, 0⟩, 0)

/-! ## The 32 bits of the day number

Only the divisions need their operands to be whole: the rest is the same in the ring of the
32-bit values.
-/

theorem ofNat_div_400 {z : Nat} (hz : z < 2 ^ 31) :
    Int32.ofNat z / 400 = Int32.ofNat (z / 400) := by
  apply Int32.toInt.inj
  have h400 : (400 : Int32).toInt = 400 := rfl
  rw [Int32.toInt_div_of_ne_right _ _ (by decide), Int32.toInt_ofNat_of_lt hz,
    Int32.toInt_ofNat_of_lt (by omega), h400, Int.tdiv_eq_ediv_of_nonneg (by omega)]
  omega

theorem yoe_eq {z : Nat} (hz : z < 2 ^ 31) :
    (Int32.ofNat z - Int32.ofNat z / 400 * 400).toUInt32 = UInt32.ofNat (z % 400) := by
  have hmod : z % 400 = z - z / 400 * 400 := by omega
  rw [ofNat_div_400 hz, hmod, UInt32.ofNat_sub (by omega), UInt32.ofNat_mul,
    Int32.toUInt32_sub, Int32.toUInt32_mul, Int32.toUInt32_ofNat', Int32.toUInt32_ofNat']
  rfl

theorem doy_eq {a day : Nat} (ha : a ≤ 11) (hday : 1 ≤ day) :
    (153 * UInt32.ofNat a + 2) / 5 + UInt32.ofNat day - 1 =
      UInt32.ofNat ((153 * a + 2) / 5 + day - 1) := by
  have hone : 1 ≤ (153 * a + 2) / 5 + day := by omega
  rw [UInt32.ofNat_sub hone, UInt32.ofNat_add, UInt32.ofNat_div (by omega) (by decide),
    UInt32.ofNat_add, UInt32.ofNat_mul]
  rfl

theorem doe_eq {n : Nat} (hn : n < 400) (k : Nat) :
    UInt32.ofNat n * 365 + UInt32.ofNat n / 4 - UInt32.ofNat n / 100 + UInt32.ofNat k =
      UInt32.ofNat (n * 365 + n / 4 - n / 100 + k) := by
  have hle : n / 100 ≤ n * 365 + n / 4 := by omega
  rw [UInt32.ofNat_add, UInt32.ofNat_sub hle, UInt32.ofNat_add, UInt32.ofNat_mul,
    UInt32.ofNat_div (by omega) (by decide), UInt32.ofNat_div (by omega) (by decide)]
  rfl

theorem days_eq (era doe : Nat) :
    Int32.ofNat era * 146097 + (UInt32.ofNat doe).toInt32 - 719468 =
      Int32.ofInt (era * 146097 + doe - 719468) := by
  rw [Int32.ofInt_sub, Int32.ofInt_add, Int32.ofInt_mul, UInt32.toInt32_ofNat',
    Int32.ofInt_eq_ofNat, Int32.ofInt_eq_ofNat]
  rfl

theorem shifted_eq {z a day : Nat} (hz : z < 2 ^ 31) (ha : a ≤ 11) (hday : 1 ≤ day) :
    let yoe := (Int32.ofNat z - Int32.ofNat z / 400 * 400).toUInt32
    let doy := (153 * UInt32.ofNat a + 2) / 5 + UInt32.ofNat day - 1
    let doe := yoe * 365 + yoe / 4 - yoe / 100 + doy
    let yoe' := (z : Int) - (z : Int).tdiv 400 * 400
    let doy' := (153 * (a : Int) + 2).tdiv 5 + day - 1
    let doe' := yoe' * 365 + yoe'.tdiv 4 - yoe'.tdiv 100 + doy'
    Int32.ofNat z / 400 * 146097 + doe.toInt32 - 719468 =
      Int32.ofInt ((z : Int).tdiv 400 * 146097 + doe' - 719468) := by
  dsimp only
  rw [yoe_eq hz, doy_eq ha hday, doe_eq (Nat.mod_lt _ (by decide)), ofNat_div_400 hz, days_eq,
    Int.tdiv_eq_ediv_of_nonneg (by omega), Int.tdiv_eq_ediv_of_nonneg (by omega),
    Int.tdiv_eq_ediv_of_nonneg (by omega), Int.tdiv_eq_ediv_of_nonneg (by omega)]
  congr 1
  omega

theorem daysFromCivil32_eq (d : Date) (hyear : 1 ≤ d.year) (hfits : d.year < 2 ^ 31) :
    daysFromCivil32 (Int32.ofNat d.year) (UInt32.ofNat d.month) (UInt32.ofNat d.day) =
      Int32.ofInt (daysFromCivil d.year d.month d.day) := by
  have hle := d.month_le
  have hlt : d.month < UInt32.size := Nat.lt_of_le_of_lt hle (by decide)
  have hm₂ : UInt32.ofNat d.month ≤ 2 ↔ d.month ≤ 2 := UInt32.ofNat_le_iff_le hlt (by decide)
  have hm₃ : UInt32.ofNat d.month > 2 ↔ d.month > 2 := UInt32.ofNat_lt_iff_lt (by decide) hlt
  unfold daysFromCivil32 daysFromCivil
  by_cases hm : d.month ≤ 2
  · have hy : Int32.ofNat d.year - 1 = Int32.ofNat (d.year - 1) := by
      have hadd := Int32.ofNat_add (d.year - 1) 1
      rw [Nat.sub_add_cancel hyear] at hadd
      rw [hadd]
      exact Int32.add_sub_cancel _ _
    have ha : UInt32.ofNat d.month + 9 = UInt32.ofNat (d.month + 9) := (UInt32.ofNat_add _ _).symm
    have hy' : (d.year : Int) - 1 = (d.year - 1 : Nat) := by omega
    rw [if_pos (hm₂.mpr hm), if_neg (by rw [hm₃]; omega), if_pos (by omega), if_neg (by omega),
      hy, ha, hy']
    exact shifted_eq (z := d.year - 1) (a := d.month + 9) (by omega) (by omega) d.day_pos
  · have h₃ : 3 ≤ d.month := Nat.not_le.mp hm
    have ha : UInt32.ofNat d.month - 3 = UInt32.ofNat (d.month - 3) := (UInt32.ofNat_sub h₃).symm
    have ha' : (d.month : Int) - 3 = (d.month - 3 : Nat) := by omega
    rw [if_neg (by rw [hm₂]; omega), if_pos (by rw [hm₃]; omega), if_neg (by omega),
      if_pos (by omega), Int32.sub_zero, Int.sub_zero, ha, ha']
    exact shifted_eq hfits (by omega) d.day_pos

/-! ## Dates of the clock -/

/-- What the DOS clock can show. -/
structure DosTime extends Instant where
  year_ge : 1980 ≤ year
  year_le : year ≤ 2099

/-- `struct tm` counts its years from 1900 and its months from 0. -/
def tm (t : DosTime) : Tm :=
  ⟨Int32.ofNat (t.year - 1900), Int32.ofNat (t.month - 1), Int32.ofNat t.day, Int32.ofNat t.hour,
    Int32.ofNat t.minute, Int32.ofNat t.second⟩

def dosGetDatetime (t : DosTime) : Vector UInt8 7 :=
  #v[UInt8.ofNat (t.year % 256), UInt8.ofNat (t.year / 256), UInt8.ofNat t.month,
    UInt8.ofNat t.day, UInt8.ofNat t.hour, UInt8.ofNat t.minute, UInt8.ofNat t.second]

def epoch : Instant where
  toDate := .newYear 1970
  hour := 0
  minute := 0
  second := 0
  hour_lt := by decide
  minute_lt := by decide
  second_lt := by decide

def sinceEpoch (t : Instant) : Int := t.seconds - epoch.seconds

/-- A second count that one of the two functions gives for `t`. -/
def Yields (t : DosTime) (s : Int32) : Prop :=
  mktime (some (tm t)) = s ∨ ∃ tv, gettimeofday (dosGetDatetime t) (some tv) = (some ⟨s, 0⟩, 0)

def Exact (t : DosTime) : Prop := ∀ s, Yields t s → s.toInt = sinceEpoch t.toInstant

/-- Whatever the functions give for `t` is smaller than what they give for `u`. -/
def Ordered (t u : DosTime) : Prop := ∀ s s', Yields t s → Yields u s' → s < s'

/-- 2038-01-19T03:14:07. -/
def lastInstant : Instant where
  toDate := { Date.newYear 2038 with day := 19, day_pos := by decide, day_le := by decide }
  hour := 3
  minute := 14
  second := 7
  hour_lt := by decide
  minute_lt := by decide
  second_lt := by decide

/-! ## The seconds -/

theorem epoch_seconds : epoch.seconds = 86400 * 719528 := by
  have hyears := daysBeforeYear_eq 1970
  simp only [epoch, Instant.seconds, dayNumber_newYear]
  generalize daysBeforeYear 1970 = days at hyears ⊢
  omega

/-- The day number and the time of day in the ring of the 32-bit values. -/
theorem seconds_eq (t : DosTime) :
    daysFromCivil32 (Int32.ofNat t.year) (UInt32.ofNat t.month) (UInt32.ofNat t.day) * 86400 +
        secsToday (Int32.ofNat t.hour) (Int32.ofNat t.minute) (Int32.ofNat t.second) =
      Int32.ofInt (sinceEpoch t.toInstant) := by
  have hge := t.year_ge
  have hle := t.year_le
  have hsplit : sinceEpoch t.toInstant = ((t.dayNumber : Int) - 719528) * 86400 +
      ((t.hour : Int) * 3600 + (t.minute : Int) * 60 + (t.second : Int)) := by
    rw [sinceEpoch, epoch_seconds, Instant.seconds]
    omega
  rw [daysFromCivil32_eq t.toDate (by omega) (by omega), daysFromCivil_eq t.toDate (by omega),
    hsplit, secsToday]
  simp only [Int32.ofInt_add, Int32.ofInt_mul, Int32.ofInt_eq_ofNat]
  rfl

theorem ofNat_sub_add {n k : Nat} (h : k ≤ n) :
    Int32.ofNat (n - k) + Int32.ofNat k = Int32.ofNat n := by
  rw [← Int32.ofNat_add, Nat.sub_add_cancel h]

theorem mktime_eq (t : DosTime) :
    mktime (some (tm t)) = Int32.ofInt (sinceEpoch t.toInstant) := by
  have hge := t.year_ge
  have hyear : Int32.ofNat (t.year - 1900) + 1900 = Int32.ofNat t.year :=
    ofNat_sub_add (k := 1900) (by omega)
  have hmonth : Int32.ofNat (t.month - 1) + 1 = Int32.ofNat t.month :=
    ofNat_sub_add (k := 1) t.month_pos
  rw [← seconds_eq]
  simp only [mktime, tm, hyear, hmonth, Int32.toUInt32_ofNat']

theorem toUInt32_ofNat {n : Nat} (h : n < 256) : (UInt8.ofNat n).toUInt32 = UInt32.ofNat n := by
  apply UInt32.toNat.inj
  rw [UInt8.toNat_toUInt32, UInt8.toNat_ofNat', UInt32.toNat_ofNat', Nat.mod_eq_of_lt h,
    Nat.mod_eq_of_lt (by omega)]

theorem year_eq {y : Nat} (h : y < 65536) :
    (UInt8.ofNat (y % 256)).toUInt32 ||| (UInt8.ofNat (y / 256)).toUInt32 <<< 8 =
      UInt32.ofNat y := by
  apply UInt32.toNat.inj
  have hlow : y % 256 < 2 ^ 8 := Nat.mod_lt _ (by decide)
  have hlo : (UInt32.ofNat (y % 256)).toNat = y % 256 :=
    UInt32.toNat_ofNat_of_lt (Nat.lt_trans hlow (by decide))
  have hhi : (UInt32.ofNat (y / 256)).toNat = y / 256 :=
    UInt32.toNat_ofNat_of_lt (show y / 256 < 4294967296 by omega)
  have hshift : (8 : UInt32).toNat % 32 = 8 := rfl
  have hwhole : (y / 256) <<< 8 % 2 ^ 32 = (y / 256) <<< 8 := by
    rw [Nat.shiftLeft_eq]
    omega
  rw [toUInt32_ofNat hlow, toUInt32_ofNat (by omega), UInt32.toNat_or, UInt32.toNat_shiftLeft,
    hlo, hhi, hshift, hwhole, Nat.or_comm, ← Nat.shiftLeft_add_eq_or_of_lt hlow, Nat.shiftLeft_eq,
    UInt32.toNat_ofNat_of_lt' (show y < 4294967296 by omega)]
  omega

theorem epochNow_eq (t : DosTime) :
    epochNow (dosGetDatetime t) = Int32.ofInt (sinceEpoch t.toInstant) := by
  have hle := t.year_le
  have hmonth := t.month_le
  have hday := Nat.le_trans t.day_le (monthLength_le _ _)
  have hhour := t.hour_lt
  have hminute := t.minute_lt
  have hsecond := t.second_lt
  have hyear := year_eq (y := t.year) (by omega)
  rw [← seconds_eq]
  simp only [epochNow, dosGetDatetime, Vector.getElem_mk, List.getElem_toArray,
    List.getElem_cons_zero, List.getElem_cons_succ]
  rw [hyear, toUInt32_ofNat (n := t.month) (by omega), toUInt32_ofNat (n := t.day) (by omega),
    toUInt32_ofNat (n := t.hour) (by omega), toUInt32_ofNat (n := t.minute) (by omega),
    toUInt32_ofNat (n := t.second) (by omega)]
  simp only [UInt32.toInt32_ofNat']

theorem yields_iff (t : DosTime) (s : Int32) :
    Yields t s ↔ s = Int32.ofInt (sinceEpoch t.toInstant) := by
  rw [Yields, mktime_eq]
  constructor
  · rintro (rfl | ⟨tv, h⟩)
    · rfl
    · rw [← epochNow_eq]
      injection h with hsome
      injection hsome with htv
      injection htv with hsec
      exact hsec.symm
  · rintro rfl
    exact .inl rfl

/-! ## Up to which instant -/

theorem sinceEpoch_bounds (t : DosTime) :
    0 ≤ sinceEpoch t.toInstant ∧ sinceEpoch t.toInstant < 2 ^ 32 := by
  have hle : daysBeforeYear (t.year + 1) ≤ daysBeforeYear 2100 :=
    daysBeforeYear_mono (Nat.succ_le_succ t.year_le)
  have hge := daysBeforeYear_mono t.year_ge
  have hday := dayNumber_lt_year t.toDate
  have hfirst := daysBeforeYear_eq 1980
  have hlast := daysBeforeYear_eq 2100
  have hhour := t.hour_lt
  have hminute := t.minute_lt
  have hsecond := t.second_lt
  have hnumber : daysBeforeYear t.year ≤ t.dayNumber := by
    rw [Date.dayNumber]
    omega
  rw [sinceEpoch, epoch_seconds, Instant.seconds]
  omega

theorem toInt_sinceEpoch (t : DosTime) :
    (Int32.ofInt (sinceEpoch t.toInstant)).toInt =
      if sinceEpoch t.toInstant < 2 ^ 31 then sinceEpoch t.toInstant
      else sinceEpoch t.toInstant - 2 ^ 32 := by
  have hbounds := sinceEpoch_bounds t
  generalize sinceEpoch t.toInstant = v at *
  rw [Int32.toInt_ofInt, show Int32.size = 2 ^ 32 from rfl, Int.bmod_def]
  split <;> split <;> omega

theorem fits_iff (t : Instant) : sinceEpoch t < 2 ^ 31 ↔ ¬lastInstant < t := by
  have hlast : lastInstant.seconds = epoch.seconds + 2147483647 := by
    have hyears := daysBeforeYear_eq 2038
    have hmonths : daysOfMonths 2038 (1 - 1) = 0 := rfl
    rw [epoch_seconds]
    simp only [lastInstant, Date.newYear, Instant.seconds, Date.dayNumber, hmonths]
    generalize daysBeforeYear 2038 = days at hyears ⊢
    omega
  rw [← Instant.seconds_lt_iff, hlast, sinceEpoch]
  omega

theorem sinceEpoch_lt {t u : Instant} (h : t < u) : sinceEpoch t < sinceEpoch u := by
  have hlt := Instant.seconds_lt h
  rw [sinceEpoch, sinceEpoch]
  omega

theorem exact_iff (t : DosTime) : Exact t ↔ ¬lastInstant < t.toInstant := by
  have hbounds := sinceEpoch_bounds t
  have htoInt := toInt_sinceEpoch t
  rw [← fits_iff]
  simp only [Exact, yields_iff, forall_eq, htoInt]
  split <;> omega

theorem ordered_iff {t u : DosTime} (hlt : t.toInstant < u.toInstant) :
    Ordered t u ↔ ¬lastInstant < u.toInstant ∨ lastInstant < t.toInstant := by
  have hbounds := sinceEpoch_bounds t
  have hbounds' := sinceEpoch_bounds u
  have horder := sinceEpoch_lt hlt
  have hlast : lastInstant < t.toInstant ↔ ¬sinceEpoch t.toInstant < 2 ^ 31 := by
    rw [fits_iff, not_not]
  have hpair : Ordered t u ↔ (Int32.ofInt (sinceEpoch t.toInstant)).toInt <
      (Int32.ofInt (sinceEpoch u.toInstant)).toInt := by
    rw [← Int32.lt_iff_toInt_lt]
    constructor
    · exact fun h => h _ _ ((yields_iff t _).mpr rfl) ((yields_iff u _).mpr rfl)
    · intro h s s' hs hs'
      rwa [(yields_iff t s).mp hs, (yields_iff u s').mp hs']
  rw [hpair, ← fits_iff, hlast, toInt_sinceEpoch, toInt_sinceEpoch]
  -- both counts wrap, or neither does, or only the later one
  split <;> split <;> omega

/-- The second counts are exact up to January of 2038. Those of two instants are in the
right order where both or none of them lies behind that. -/
theorem epoch_exact_iff (t : DosTime) :
    (Exact t ↔ ¬lastInstant < t.toInstant) ∧
      ∀ u : DosTime, t.toInstant < u.toInstant →
        (Ordered t u ↔ ¬lastInstant < u.toInstant ∨ lastInstant < t.toInstant) :=
  ⟨exact_iff t, fun _ hlt => ordered_iff hlt⟩

/-- The last second that fits. -/
def lastTime : DosTime := { lastInstant with year_ge := by decide, year_le := by decide }

def wrapped : DosTime := { lastTime with second := 8, second_lt := by decide }

theorem epoch_exact_iff_lastTime :
    (Exact lastTime ↔ ¬lastInstant < lastTime.toInstant) ∧
      (Ordered lastTime wrapped ↔
        ¬lastInstant < wrapped.toInstant ∨ lastInstant < lastTime.toInstant) :=
  ⟨(epoch_exact_iff lastTime).1, (epoch_exact_iff lastTime).2 wrapped (by decide)⟩

/-- The second behind the last one counts as a second of 1901, before all that came before. -/
theorem wrapped_goes_back : ¬Exact wrapped ∧ ¬Ordered lastTime wrapped := by
  constructor
  · rw [exact_iff]
    decide
  · rw [ordered_iff (by decide)]
    decide

end FreedosMicroPython.TimeReal
