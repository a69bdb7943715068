import Mathlib.Algebra.Ring.Nat
import Mathlib.Data.Nat.GCD.Basic
import Mathlib.Order.Monotone.Basic
import Mathlib.Tactic.Common
/-!
# Delays and the clock

`mp_hal_delay_ms` and `mp_hal_delay_us` of `port/mphal_uc386dos.c` poll the BIOS tick
counter, which starts again from zero at midnight. `delay_kept_iff` says when neither can
return too early, whatever the times at which it polls. `mp_hal_ticks_ms`, and `sys_now` of
`port/lwip_uc386dos.c`, scale the same counter: `clock_advances_iff` says which two readings
differ by the time between them.
-/

namespace FreedosMicroPython.Mphal

/-! ## The counter -/

/-- The counter resets behind 0x1800AF. -/
def TICKS_PER_DAY : Nat := 0x1800B0

/-- `bios_ticks()`, `t` ticks after the counter stood at `start`. -/
def biosTicks (start : Fin TICKS_PER_DAY) (t : Nat) : UInt32 :=
  UInt32.ofNat ((start.val + t) % TICKS_PER_DAY)

/-! ## The delays -/

def BIOS_TICK_MS : UInt32 := 55

/-- The loop of `mp_hal_delay_ms`, up to the read behind which it ends. The reads of the
counter are numbered; the budget bounds how many there are. -/
def pollTicks (start ticksToWait : UInt32) (ticks : Nat → UInt32) : Nat → Nat → Option Nat
  | 0, _ => none
  | budget + 1, k =>
      if ticks k - start < ticksToWait then pollTicks start ticksToWait ticks budget (k + 1)
      else some (k + 1)

def ticksToWait (ms : UInt32) : UInt32 :=
  let ticks := (ms + BIOS_TICK_MS - 1) / BIOS_TICK_MS
  if ticks = 0 then 1 else ticks

/-- `mp_hal_delay_ms`: how often it has read the counter when it returns. -/
def mpHalDelayMs (ms : UInt32) (ticks : Nat → UInt32) (budget : Nat) : Option Nat :=
  if ms = 0 then some 0 else pollTicks (ticks 0) (ticksToWait ms) ticks budget 1

def mpHalDelayUs (us : UInt32) (ticks : Nat → UInt32) (budget : Nat) : Option Nat :=
  if us = 0 then some 0 else mpHalDelayMs ((us + 999) / 1000) ticks budget

/-! ## Delays that are kept -/

/-- A call whose reads of the counter take place at the times `time 0`, `time 1` and so on
lasts at least up to the last of its `r` reads. -/
def lasts (time : Nat → Nat) : Nat → Nat
  | 0 => 0
  | r + 1 => time r

/-- Called with the counter at `start`, the delay does not return before `n` ticks have
passed, whenever it reads the counter. -/
def Kept (start : Fin TICKS_PER_DAY) (delay : (Nat → UInt32) → Nat → Option Nat) (n : Nat) :
    Prop :=
  ∀ time : Nat → Nat, Monotone time → ∀ budget r,
    delay (fun k => biosTicks start (time k)) budget = some r → n ≤ lasts time r

/-- The least number of ticks that last `n` units of which a tick has `unit`. -/
def ticksFor (n unit : Nat) : Nat := (n + unit - 1) / unit

/-- A loop that ends has read a counter that is far enough from the start. -/
theorem pollTicks_ends {start wait : UInt32} {ticks : Nat → UInt32} {budget k r : Nat}
    (h : pollTicks start wait ticks budget k = some r) :
    ∃ j, k ≤ j ∧ r = j + 1 ∧ ¬ticks j - start < wait := by
  induction budget generalizing k with
  | zero => exact nomatch h
  | succ budget ih =>
      rw [pollTicks] at h
      split at h
      · obtain ⟨j, hkj, hr, hfar⟩ := ih h
        exact ⟨j, by omega, hr, hfar⟩
      · rename_i hfar
        exact ⟨k, Nat.le_refl k, (Option.some.inj h).symm, hfar⟩

theorem toNat_biosTicks (start : Fin TICKS_PER_DAY) (t : Nat) :
    (biosTicks start t).toNat = (start.val + t) % TICKS_PER_DAY := by
  have hlt : (start.val + t) % TICKS_PER_DAY < TICKS_PER_DAY := Nat.mod_lt _ (by decide)
  rw [biosTicks, UInt32.toNat_ofNat', Nat.mod_eq_of_lt (Nat.lt_trans hlt (by decide))]

theorem toNat_rounded (ms : UInt32) :
    ((ms + BIOS_TICK_MS - 1) / BIOS_TICK_MS).toNat = (ms.toNat + 54) % 2 ^ 32 / 55 := by
  have hlt := ms.toNat_lt
  rw [UInt32.toNat_div, UInt32.toNat_sub, UInt32.toNat_add]
  simp only [BIOS_TICK_MS, UInt32.reduceToNat]
  omega

theorem toNat_ticksToWait {ms : UInt32} (hpos : ms ≠ 0) (hms : ms.toNat + 54 < 2 ^ 32) :
    (ticksToWait ms).toNat = ticksFor ms.toNat 55 := by
  have hrounded := toNat_rounded ms
  rw [Nat.mod_eq_of_lt hms] at hrounded
  have hpos : 0 < ms.toNat := by
    apply Nat.pos_of_ne_zero
    intro hzero
    exact hpos (UInt32.toNat_inj.mp hzero)
  have hne : (ms + BIOS_TICK_MS - 1) / BIOS_TICK_MS ≠ 0 := by
    intro hzero
    rw [hzero, UInt32.toNat_zero] at hrounded
    omega
  rw [ticksToWait, if_neg hne, hrounded, ticksFor]
  rfl

theorem ticksToWait_of_overflow {ms : UInt32} (hms : 2 ^ 32 ≤ ms.toNat + 54) :
    ticksToWait ms = 1 := by
  have hlt := ms.toNat_lt
  have hzero : (ms + BIOS_TICK_MS - 1) / BIOS_TICK_MS = 0 := by
    apply UInt32.toNat_inj.mp
    rw [toNat_rounded, UInt32.toNat_zero]
    omega
  rw [ticksToWait, if_pos hzero]

/-! ## Milliseconds -/

theorem toNat_elapsed {start : Fin TICKS_PER_DAY} {t t' : Nat} (hle : t ≤ t')
    (hday : start.val + t' < TICKS_PER_DAY) :
    (biosTicks start t' - biosTicks start t).toNat = t' - t := by
  have hearlier : start.val + t < TICKS_PER_DAY := by omega
  rw [UInt32.toNat_sub, toNat_biosTicks, toNat_biosTicks, Nat.mod_eq_of_lt hday,
    Nat.mod_eq_of_lt hearlier]
  unfold TICKS_PER_DAY at hday
  omega

theorem pollTicks_at_once {start wait : UInt32} {ticks : Nat → UInt32} {k : Nat}
    (h : ¬ticks k - start < wait) : pollTicks start wait ticks 1 k = some (k + 1) := if_neg h

/-- Up to midnight the delay is kept, as long as its argument can be rounded up. -/
theorem mpHalDelayMs_kept {start : Fin TICKS_PER_DAY} {ms : UInt32}
    (hms : ms.toNat + 54 < 2 ^ 32)
    (hday : start.val + ticksFor ms.toNat 55 ≤ TICKS_PER_DAY) :
    Kept start (mpHalDelayMs ms) (ticksFor ms.toNat 55) := by
  intro time hmono budget r hr
  rw [mpHalDelayMs] at hr
  by_cases hzero : ms = 0
  · rw [hzero]
    exact Nat.zero_le _
  · rw [if_neg hzero] at hr
    obtain ⟨j, -, rfl, hfar⟩ := pollTicks_ends hr
    rw [UInt32.lt_iff_toNat_lt, toNat_ticksToWait hzero hms, Nat.not_lt] at hfar
    by_contra hshort
    have hj : time j < ticksFor ms.toNat 55 := Nat.not_le.mp hshort
    rw [toNat_elapsed (hmono (Nat.zero_le j)) (by omega)] at hfar
    omega

/-- The times of a first read before the counter is reset and of one just after. -/
def acrossReset (start : Fin TICKS_PER_DAY) : Nat → Nat
  | 0 => if start.val = 0 then 1 else 0
  | _ + 1 => TICKS_PER_DAY - start.val

theorem monotone_acrossReset (start : Fin TICKS_PER_DAY) : Monotone (acrossReset start) := by
  apply monotone_nat_of_le_succ
  have hstart := start.isLt
  intro k
  cases k with
  | zero =>
      simp only [acrossReset]
      split <;> omega
  | succ k => exact Nat.le_refl _

theorem toNat_acrossReset (start : Fin TICKS_PER_DAY) :
    2 ^ 32 - TICKS_PER_DAY <
      (biosTicks start (acrossReset start 1) - biosTicks start (acrossReset start 0)).toNat := by
  have hstart := start.isLt
  have hreset : (start.val + acrossReset start 1) % TICKS_PER_DAY = 0 := by
    rw [acrossReset, Nat.add_sub_cancel' hstart.le, Nat.mod_self]
  have hbefore : 0 < (start.val + acrossReset start 0) % TICKS_PER_DAY := by
    simp only [acrossReset, TICKS_PER_DAY] at *
    split <;> omega
  have hlt : (start.val + acrossReset start 0) % TICKS_PER_DAY < TICKS_PER_DAY :=
    Nat.mod_lt _ (by decide)
  rw [UInt32.toNat_sub, toNat_biosTicks, toNat_biosTicks, hreset]
  unfold TICKS_PER_DAY at *
  omega

/-- A wait that reaches past the reset ends at once behind it. -/
theorem mpHalDelayMs_short_of_reset {start : Fin TICKS_PER_DAY} {ms : UInt32}
    (hms : ms.toNat + 54 < 2 ^ 32)
    (hday : TICKS_PER_DAY < start.val + ticksFor ms.toNat 55) :
    ¬Kept start (mpHalDelayMs ms) (ticksFor ms.toNat 55) := by
  intro hkept
  have hstart := start.isLt
  have hpos : ms ≠ 0 := by
    rintro rfl
    simp only [ticksFor, UInt32.toNat_zero] at hday
    omega
  have hfar : ¬biosTicks start (acrossReset start 1) - biosTicks start (acrossReset start 0) <
      ticksToWait ms := by
    have hlong := toNat_acrossReset start
    have hlt := ms.toNat_lt
    rw [UInt32.lt_iff_toNat_lt, toNat_ticksToWait hpos hms]
    unfold ticksFor TICKS_PER_DAY at *
    omega
  have hr : mpHalDelayMs ms (fun k => biosTicks start (acrossReset start k)) 1 = some 2 := by
    rw [mpHalDelayMs, if_neg hpos]
    exact pollTicks_at_once hfar
  have hle := hkept _ (monotone_acrossReset start) 1 2 hr
  simp only [lasts, acrossReset] at hle
  omega

theorem mpHalDelayMs_short_of_overflow {start : Fin TICKS_PER_DAY} {ms : UInt32}
    (hms : 2 ^ 32 ≤ ms.toNat + 54) : ¬Kept start (mpHalDelayMs ms) (ticksFor ms.toNat 55) := by
  intro hkept
  have hpos : ms ≠ 0 := by
    rintro rfl
    exact absurd hms (by decide)
  have hfar : ¬biosTicks start 1 - biosTicks start 0 < ticksToWait ms := by
    have hstart := start.isLt
    rw [ticksToWait_of_overflow hms, UInt32.lt_iff_toNat_lt, UInt32.toNat_sub, toNat_biosTicks,
      toNat_biosTicks, UInt32.toNat_one]
    unfold TICKS_PER_DAY at *
    omega
  have hr : mpHalDelayMs ms (fun k => biosTicks start k) 1 = some 2 := by
    rw [mpHalDelayMs, if_neg hpos]
    exact pollTicks_at_once hfar
  have hle := hkept (fun k => k) monotone_id 1 2 hr
  simp only [lasts, ticksFor] at hle
  omega

theorem mpHalDelayMs_kept_iff (start : Fin TICKS_PER_DAY) (ms : UInt32) :
    Kept start (mpHalDelayMs ms) (ticksFor ms.toNat 55) ↔
      ms.toNat + 54 < 2 ^ 32 ∧ start.val + ticksFor ms.toNat 55 ≤ TICKS_PER_DAY := by
  constructor
  · intro hkept
    have hms : ms.toNat + 54 < 2 ^ 32 :=
      Nat.not_le.mp fun hover => mpHalDelayMs_short_of_overflow hover hkept
    exact ⟨hms, Nat.not_lt.mp fun hday => mpHalDelayMs_short_of_reset hms hday hkept⟩
  · exact fun ⟨hms, hday⟩ => mpHalDelayMs_kept hms hday

/-! ## Microseconds -/

theorem toNat_millis {us : UInt32} (hus : us.toNat + 999 < 2 ^ 32) :
    ((us + 999) / 1000).toNat = ticksFor us.toNat 1000 := by
  rw [UInt32.toNat_div, UInt32.toNat_add]
  simp only [UInt32.reduceToNat, ticksFor]
  omega

theorem ticksFor_ticksFor (n : Nat) : ticksFor (ticksFor n 1000) 55 = ticksFor n 55000 := by
  unfold ticksFor
  omega

theorem mpHalDelayUs_eq (us : UInt32) (hus : us.toNat + 999 < 2 ^ 32) :
    mpHalDelayUs us = mpHalDelayMs ((us + 999) / 1000) := by
  funext ticks budget
  by_cases hzero : us = 0
  · subst hzero
    rfl
  · exact if_neg hzero

theorem mpHalDelayUs_of_overflow {us : UInt32} (hus : 2 ^ 32 ≤ us.toNat + 999)
    (ticks : Nat → UInt32) (budget : Nat) : mpHalDelayUs us ticks budget = some 0 := by
  have hlt := us.toNat_lt
  have hzero : (us + 999) / 1000 = 0 := by
    apply UInt32.toNat_inj.mp
    rw [UInt32.toNat_div, UInt32.toNat_add]
    simp only [UInt32.reduceToNat]
    omega
  rw [mpHalDelayUs, hzero, mpHalDelayMs, if_pos rfl, ite_self]

theorem mpHalDelayUs_kept_iff (start : Fin TICKS_PER_DAY) (us : UInt32) :
    Kept start (mpHalDelayUs us) (ticksFor us.toNat 55000) ↔
      us.toNat + 999 < 2 ^ 32 ∧ start.val + ticksFor us.toNat 55000 ≤ TICKS_PER_DAY := by
  by_cases hus : us.toNat + 999 < 2 ^ 32
  · have hmillis := toNat_millis hus
    have hms : ((us + 999) / 1000).toNat + 54 < 2 ^ 32 := by
      have hlt := us.toNat_lt
      rw [hmillis, ticksFor]
      omega
    have hiff := mpHalDelayMs_kept_iff start ((us + 999) / 1000)
    rw [hmillis, ticksFor_ticksFor] at hiff
    rw [mpHalDelayUs_eq us hus, hiff]
    exact and_congr_left fun _ => iff_of_true (hmillis ▸ hms) hus
  · have hover := Nat.not_lt.mp hus
    apply iff_of_false
    · intro hkept
      have hle := hkept (fun k => k) monotone_id 0 0 (mpHalDelayUs_of_overflow hover _ 0)
      simp only [lasts, ticksFor] at hle
      omega
    · exact fun h => hus h.1

/-! ## Both delays -/

theorem delay_kept_iff (start : Fin TICKS_PER_DAY) (ms us : UInt32) :
    (Kept start (mpHalDelayMs ms) (ticksFor ms.toNat 55) ↔
        ms.toNat + 54 < 2 ^ 32 ∧ start.val + ticksFor ms.toNat 55 ≤ TICKS_PER_DAY) ∧
      (Kept start (mpHalDelayUs us) (ticksFor us.toNat 55000) ↔
        us.toNat + 999 < 2 ^ 32 ∧ start.val + ticksFor us.toNat 55000 ≤ TICKS_PER_DAY) :=
  ⟨mpHalDelayMs_kept_iff start ms, mpHalDelayUs_kept_iff start us⟩

/-- A delay of a second, five ticks before midnight. -/
theorem delay_cut_short : ¬Kept ⟨0x1800AB, by decide⟩ (mpHalDelayMs 1000) (ticksFor 1000 55) :=
  mpHalDelayMs_short_of_reset (by decide) (by decide)

/-! ## The clock -/

def mpHalTicksMs (ticks : UInt32) : UInt32 := ticks * BIOS_TICK_MS

def sysNow (ticks : UInt32) : UInt32 := ticks * 55

/-- The reading `n` ticks after the one at time `t` is later by the milliseconds between
them, up to the width of the clock. -/
def Advances (clock : UInt32 → UInt32) (start : Fin TICKS_PER_DAY) (t n : Nat) : Prop :=
  (clock (biosTicks start (t + n)) - clock (biosTicks start t)).toNat = 55 * n % 2 ^ 32

def midnights (start : Fin TICKS_PER_DAY) (t : Nat) : Nat := (start.val + t) / TICKS_PER_DAY

/-- What the clock gains and loses, in whole numbers: a reset takes a day away. -/
theorem biosTicks_add (start : Fin TICKS_PER_DAY) (t n : Nat) :
    (biosTicks start (t + n)).toNat +
        TICKS_PER_DAY * (midnights start (t + n) - midnights start t) =
      (biosTicks start t).toNat + n := by
  rw [toNat_biosTicks, toNat_biosTicks, midnights, midnights]
  unfold TICKS_PER_DAY
  omega

/-- A day is 16 times an odd number of milliseconds, so only 2^28 of them fill the clock. -/
theorem day_dvd_iff (m : Nat) : 2 ^ 32 ∣ 55 * (TICKS_PER_DAY * m) ↔ 2 ^ 28 ∣ m := by
  have hday : 55 * (TICKS_PER_DAY * m) = 2 ^ 4 * (5407325 * m) := by
    unfold TICKS_PER_DAY
    omega
  have hodd : Nat.Coprime (2 ^ 28) 5407325 := Nat.Coprime.pow_left 28 (by decide)
  rw [hday, show 2 ^ 32 = 2 ^ 4 * 2 ^ 28 from rfl, Nat.mul_dvd_mul_iff_left (by decide),
    hodd.dvd_mul_left]

theorem ofNat_eq_zero_iff (k : Nat) : UInt32.ofNat k = 0 ↔ 2 ^ 32 ∣ k := by
  rw [← UInt32.toNat_inj, UInt32.toNat_ofNat', UInt32.toNat_zero, Nat.dvd_iff_mod_eq_zero]

theorem mpHalTicksMs_advances_iff (start : Fin TICKS_PER_DAY) (t n : Nat) :
    Advances mpHalTicksMs start t n ↔ 2 ^ 28 ∣ midnights start (t + n) - midnights start t := by
  have hadd := biosTicks_add start t n
  rw [← day_dvd_iff, Advances]
  generalize biosTicks start t = c at hadd ⊢
  generalize biosTicks start (t + n) = c' at hadd ⊢
  generalize TICKS_PER_DAY * (midnights start (t + n) - midnights start t) = lost at hadd ⊢
  have hsum : c' + UInt32.ofNat lost = c + UInt32.ofNat n := by
    have hcast := congrArg UInt32.ofNat hadd
    rwa [UInt32.ofNat_add, UInt32.ofNat_add, UInt32.ofNat_toNat, UInt32.ofNat_toNat] at hcast
  -- in the ring of the clock's values, the readings differ by 55 * (n - lost)
  have htick : UInt32.ofNat 55 = BIOS_TICK_MS := rfl
  rw [← UInt32.toNat_ofNat', UInt32.toNat_inj, ← ofNat_eq_zero_iff, UInt32.ofNat_mul,
    UInt32.ofNat_mul, htick, mpHalTicksMs, mpHalTicksMs]
  constructor <;> intro h <;> grind

/-- Two readings of the millisecond clock tell the time between them unless midnights lie
between them whose number is no multiple of 2^28. -/
theorem clock_advances_iff (start : Fin TICKS_PER_DAY) (t n : Nat) :
    (Advances mpHalTicksMs start t n ↔
        2 ^ 28 ∣ midnights start (t + n) - midnights start t) ∧
      (Advances sysNow start t n ↔
        2 ^ 28 ∣ midnights start (t + n) - midnights start t) :=
  ⟨mpHalTicksMs_advances_iff start t n, mpHalTicksMs_advances_iff start t n⟩

/-- The tick that ends the day. -/
theorem clock_runs_backwards :
    ¬Advances mpHalTicksMs ⟨0x1800AF, by decide⟩ 0 1 ∧
      ¬Advances sysNow ⟨0x1800AF, by decide⟩ 0 1 := by
  unfold Advances
  decide

end FreedosMicroPython.Mphal
