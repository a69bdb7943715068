import Mathlib.Tactic.Common
/-!
# The proleptic Gregorian calendar

Dates with the leap rule of the calendar, the following day of each, and the number of a
day counted from the first of January of the year 0. `dayNumber_next` says that the count
is right and `dayNumber_lt` that it keeps the order; `daysBeforeYear_eq` is its closed form.
An `Instant` adds the time of day, without leap seconds.
-/

namespace FreedosMicroPython.Lib.Calendar

def isLeap (y : Nat) : Bool := y % 4 = 0 && (y % 100 ≠ 0 || y % 400 = 0)

def yearLength (y : Nat) : Nat := if isLeap y then 366 else 365

def monthLength (y m : Nat) : Nat :=
  if m = 2 then if isLeap y then 29 else 28
  else if m = 4 ∨ m = 6 ∨ m = 9 ∨ m = 11 then 30
  else 31

/-- A day of the calendar, months and days counted from 1. -/
@[ext] structure Date where
  year : Nat
  month : Nat
  day : Nat
  month_pos : 1 ≤ month
  month_le : month ≤ 12
  day_pos : 1 ≤ day
  day_le : day ≤ monthLength year month

theorem monthLength_ge (y m : Nat) : 28 ≤ monthLength y m := by
  unfold monthLength
  split_ifs <;> omega

theorem monthLength_le (y m : Nat) : monthLength y m ≤ 31 := by
  unfold monthLength
  split_ifs <;> omega

namespace Date

def newYear (y : Nat) : Date :=
  ⟨y, 1, 1, Nat.le_refl _, by decide, Nat.le_refl _, Nat.le_trans (by decide) (monthLength_ge _ _)⟩

def next (d : Date) : Date :=
  if h : d.day < monthLength d.year d.month then
    { d with day := d.day + 1, day_pos := Nat.le_add_left _ _, day_le := h }
  else if hm : d.month < 12 then
    ⟨d.year, d.month + 1, 1, Nat.le_add_left _ _, hm, Nat.le_refl _,
      Nat.le_trans (by decide) (monthLength_ge _ _)⟩
  else newYear (d.year + 1)

/-- The earlier of two days is the one with the smaller year, or month, or day. -/
instance : LT Date where
  lt d e := [d.year, d.month, d.day] < [e.year, e.month, e.day]

instance (d e : Date) : Decidable (d < e) :=
  inferInstanceAs (Decidable ([d.year, d.month, d.day] < [e.year, e.month, e.day]))

theorem lt_iff (d e : Date) :
    d < e ↔ d.year < e.year ∨ d.year = e.year ∧
      (d.month < e.month ∨ d.month = e.month ∧ d.day < e.day) := by
  change [d.year, d.month, d.day] < [e.year, e.month, e.day] ↔ _
  simp [List.cons_lt_cons_iff]

theorem lt_or_eq_or_gt (d e : Date) : d < e ∨ d = e ∨ e < d := by
  simp only [lt_iff, Date.ext_iff]
  omega

end Date

theorem Date.year_le_next (d : Date) : d.year ≤ d.next.year := by
  unfold Date.next
  split
  · exact Nat.le_refl _
  · split
    · exact Nat.le_refl _
    · exact Nat.le_succ _

/-! ## Counting days -/

def daysBeforeYear : Nat → Nat
  | 0 => 0
  | y + 1 => daysBeforeYear y + yearLength y

def daysOfMonths (y : Nat) : Nat → Nat
  | 0 => 0
  | m + 1 => daysOfMonths y m + monthLength y (m + 1)

def Date.dayNumber (d : Date) : Nat :=
  daysBeforeYear d.year + daysOfMonths d.year (d.month - 1) + (d.day - 1)

theorem daysOfMonths_congr {y z : Nat} (h : isLeap y = isLeap z) (m : Nat) :
    daysOfMonths y m = daysOfMonths z m := by
  induction m with
  | zero => rfl
  | succ m ih => rw [daysOfMonths, daysOfMonths, ih, monthLength, monthLength, h]

theorem daysOfMonths_twelve (y : Nat) : daysOfMonths y 12 = yearLength y := by
  cases h : isLeap y with
  | false => rw [daysOfMonths_congr (h.trans (show false = isLeap 1 from rfl)), yearLength, h]; rfl
  | true => rw [daysOfMonths_congr (h.trans (show true = isLeap 0 from rfl)), yearLength, h]; rfl

theorem dayNumber_newYear (y : Nat) : (Date.newYear y).dayNumber = daysBeforeYear y := rfl

theorem dayNumber_next (d : Date) : d.next.dayNumber = d.dayNumber + 1 := by
  have hday := d.day_pos
  have hle := d.day_le
  unfold Date.next
  split
  · simp only [Date.dayNumber]
    omega
  · rename_i hlast
    have hfull : daysOfMonths d.year (d.month - 1) + d.day = daysOfMonths d.year d.month := by
      obtain ⟨m, hm⟩ := Nat.exists_eq_add_of_le' d.month_pos
      rw [hm] at hle hlast ⊢
      rw [Nat.add_sub_cancel, daysOfMonths]
      omega
    split
    · simp only [Date.dayNumber, Nat.add_sub_cancel]
      omega
    · rename_i hyear
      have hmonth : d.month = 12 := Nat.le_antisymm d.month_le (Nat.not_lt.mp hyear)
      have hyear := hfull.trans (hmonth ▸ daysOfMonths_twelve d.year)
      rw [dayNumber_newYear, daysBeforeYear, Date.dayNumber]
      omega

theorem daysBeforeYear_mono {y z : Nat} (h : y ≤ z) : daysBeforeYear y ≤ daysBeforeYear z := by
  induction h with
  | refl => exact Nat.le_refl _
  | step _ ih => exact Nat.le_trans ih (Nat.le_add_right _ _)

theorem daysOfMonths_mono (y : Nat) {m n : Nat} (h : m ≤ n) :
    daysOfMonths y m ≤ daysOfMonths y n := by
  induction h with
  | refl => exact Nat.le_refl _
  | step _ ih => exact Nat.le_trans ih (Nat.le_add_right _ _)

theorem dayNumber_lt_month (d : Date) :
    d.dayNumber < daysBeforeYear d.year + daysOfMonths d.year d.month := by
  obtain ⟨m, hm⟩ := Nat.exists_eq_add_of_le' d.month_pos
  have hday := d.day_pos
  have hle := d.day_le
  rw [hm] at hle
  rw [Date.dayNumber, hm, Nat.add_sub_cancel, daysOfMonths]
  omega

theorem dayNumber_lt_year (d : Date) : d.dayNumber < daysBeforeYear (d.year + 1) := by
  have hmonth := dayNumber_lt_month d
  have hyear := daysOfMonths_mono d.year d.month_le
  rw [daysOfMonths_twelve] at hyear
  rw [daysBeforeYear]
  omega

theorem dayNumber_lt {d e : Date} (h : d < e) : d.dayNumber < e.dayNumber := by
  rcases (Date.lt_iff d e).mp h with hyear | ⟨hyear, hmonth | ⟨hmonth, hday⟩⟩
  · have hbefore := daysBeforeYear_mono (Nat.succ_le_of_lt hyear)
    have hd := dayNumber_lt_year d
    rw [Nat.succ_eq_add_one] at hbefore
    unfold Date.dayNumber at hd ⊢
    omega
  · have hbefore := daysOfMonths_mono d.year (Nat.le_sub_one_of_lt hmonth)
    have hd := dayNumber_lt_month d
    unfold Date.dayNumber at hd ⊢
    rw [← hyear]
    omega
  · have hpos := d.day_pos
    rw [Date.dayNumber, Date.dayNumber, hyear, hmonth]
    omega

/-- The leap rule in a sum: a day for every fourth year, but not for every hundredth, and yet
for every four hundredth. -/
theorem yearLength_add (y : Nat) :
    yearLength y + (if y % 100 = 0 then 1 else 0) =
      365 + (if y % 4 = 0 then 1 else 0) + if y % 400 = 0 then 1 else 0 := by
  have h₁₀₀ : y % 100 = 0 → y % 4 = 0 := by omega
  have h₄₀₀ : y % 400 = 0 → y % 100 = 0 := by omega
  by_cases hfour : y % 4 = 0 <;> by_cases hcentury : y % 100 = 0 <;>
    by_cases hfourth : y % 400 = 0 <;>
      simp_all [yearLength, isLeap]

theorem daysBeforeYear_eq (y : Nat) :
    daysBeforeYear y + (y + 99) / 100 = 365 * y + (y + 3) / 4 + (y + 399) / 400 := by
  induction y with
  | zero => rfl
  | succ y ih =>
      have hlength := yearLength_add y
      have h₄ : (y + 1 + 3) / 4 = (y + 3) / 4 + if y % 4 = 0 then 1 else 0 := by
        split <;> omega
      have h₁₀₀ : (y + 1 + 99) / 100 = (y + 99) / 100 + if y % 100 = 0 then 1 else 0 := by
        split <;> omega
      have h₄₀₀ : (y + 1 + 399) / 400 = (y + 399) / 400 + if y % 400 = 0 then 1 else 0 := by
        split <;> omega
      rw [daysBeforeYear, h₄, h₁₀₀, h₄₀₀, Nat.mul_add]
      omega

/-! ## Times of day -/

@[ext] structure Instant extends Date where
  hour : Nat
  minute : Nat
  second : Nat
  hour_lt : hour < 24
  minute_lt : minute < 60
  second_lt : second < 60

namespace Instant

def seconds (t : Instant) : Nat :=
  86400 * t.toDate.dayNumber + (3600 * t.hour + 60 * t.minute + t.second)

instance : LT Instant where
  lt t u := [t.year, t.month, t.day, t.hour, t.minute, t.second] <
    [u.year, u.month, u.day, u.hour, u.minute, u.second]

instance (t u : Instant) : Decidable (t < u) :=
  inferInstanceAs (Decidable ([t.year, t.month, t.day, t.hour, t.minute, t.second] <
    [u.year, u.month, u.day, u.hour, u.minute, u.second]))

theorem lt_iff (t u : Instant) :
    t < u ↔ t.toDate < u.toDate ∨ t.toDate = u.toDate ∧
      (t.hour < u.hour ∨ t.hour = u.hour ∧
        (t.minute < u.minute ∨ t.minute = u.minute ∧ t.second < u.second)) := by
  change [t.year, t.month, t.day, t.hour, t.minute, t.second] <
    [u.year, u.month, u.day, u.hour, u.minute, u.second] ↔ _
  simp only [List.cons_lt_cons_iff, Date.lt_iff, Date.ext_iff, List.not_lt_nil, and_false, or_false]
  tauto

theorem seconds_lt {t u : Instant} (h : t < u) : t.seconds < u.seconds := by
  have hhour := t.hour_lt
  have hminute := t.minute_lt
  have hsecond := t.second_lt
  have hminute' := u.minute_lt
  have hsecond' := u.second_lt
  unfold seconds
  rcases (lt_iff t u).mp h with hdate | ⟨hdate, htime⟩
  · have hday := dayNumber_lt hdate
    omega
  · rw [hdate]
    omega

theorem lt_or_eq_or_gt (t u : Instant) : t < u ∨ t = u ∨ u < t := by
  rcases Date.lt_or_eq_or_gt t.toDate u.toDate with hdate | hdate | hdate
  · exact .inl ((lt_iff t u).mpr (.inl hdate))
  · have hfields := Date.ext_iff.mp hdate
    simp only [lt_iff, Instant.ext_iff, hdate, true_and]
    omega
  · exact .inr (.inr ((lt_iff u t).mpr (.inl hdate)))

theorem seconds_lt_iff (t u : Instant) : t.seconds < u.seconds ↔ t < u := by
  constructor
  · intro hlt
    rcases lt_or_eq_or_gt t u with h | rfl | h
    · exact h
    · exact absurd hlt (Nat.lt_irrefl _)
    · exact absurd (seconds_lt h) (Nat.lt_asymm hlt)
  · exact seconds_lt

end Instant

end FreedosMicroPython.Lib.Calendar
