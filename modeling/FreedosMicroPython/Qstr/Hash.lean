import Mathlib.Algebra.Ring.Nat
import FreedosMicroPython.Qstr.Literal
/-!
# The hash of the interpreter

The interpreter looks a name up by a djb2 hash that it computes in 32-bit words, cut to the
width of the pool's hash fields. `compute_hash` of `gen_qstrdefs.py` fills these fields with
unbounded integers and cuts only the result.
-/

namespace FreedosMicroPython.Qstr.Hash

open FreedosMicroPython.Qstr.Literal

def djb2Step (hash : UInt32) (b : UInt8) : UInt32 := (hash * 33) ^^^ b.toUInt32

def runtimeHash (data : List UInt8) (bytesHash : Nat) : UInt32 :=
  let hash := data.foldl djb2Step 5381 &&& UInt32.ofNat (2 ^ (8 * bytesHash) - 1)
  if hash = 0 then 1 else hash

theorem ofNat_step (h : Nat) (b : UInt8) :
    UInt32.ofNat ((h * 33) ^^^ b.toNat) = djb2Step (UInt32.ofNat h) b := by
  apply UInt32.toNat.inj
  have hbyte : b.toNat % 2 ^ 32 = b.toNat := Nat.mod_eq_of_lt (Nat.lt_trans b.toNat_lt (by decide))
  have hfactor : (33 : UInt32).toNat = 33 := rfl
  rw [djb2Step, UInt32.toNat_xor, UInt32.toNat_mul, UInt8.toNat_toUInt32, UInt32.toNat_ofNat',
    UInt32.toNat_ofNat', Nat.xor_mod_two_pow, hbyte, hfactor, Nat.mod_mul_mod]

/-- The words are the integers cut to 32 bits, after every byte. -/
theorem ofNat_hashLoop (data : List UInt8) (h : Nat) :
    UInt32.ofNat (hashLoop h data) = data.foldl djb2Step (UInt32.ofNat h) := by
  induction data generalizing h with
  | nil => rfl
  | cons b data ih =>
      rw [List.foldl_cons, ← ofNat_step]
      exact ih _

theorem and_mask (h : Nat) {w : Nat} (hw : w ≤ 32) :
    (UInt32.ofNat h &&& UInt32.ofNat (2 ^ w - 1)).toNat = h % 2 ^ w := by
  have hpow : 2 ^ w ≤ 2 ^ 32 := Nat.pow_le_pow_right (by decide) hw
  have hpos : 0 < 2 ^ w := Nat.two_pow_pos w
  have hmask : (UInt32.ofNat (2 ^ w - 1)).toNat = 2 ^ w - 1 :=
    UInt32.toNat_ofNat_of_lt' (show 2 ^ w - 1 < 2 ^ 32 by omega)
  rw [UInt32.toNat_and, hmask, Nat.and_two_pow_sub_one_eq_mod, UInt32.toNat_ofNat']
  exact Nat.mod_mod_of_dvd h (Nat.pow_dvd_pow 2 hw)

theorem toNat_runtimeHash (data : List UInt8) {bytesHash : Nat} (hle : bytesHash ≤ 4) :
    (runtimeHash data bytesHash).toNat =
      if hashLoop 5381 data % 2 ^ (8 * bytesHash) = 0 then 1
      else hashLoop 5381 data % 2 ^ (8 * bytesHash) := by
  have hmask := and_mask (hashLoop 5381 data) (show 8 * bytesHash ≤ 32 by omega)
  rw [ofNat_hashLoop] at hmask
  have hzero : (data.foldl djb2Step 5381 &&& UInt32.ofNat (2 ^ (8 * bytesHash) - 1)) = 0 ↔
      hashLoop 5381 data % 2 ^ (8 * bytesHash) = 0 := by
    rw [← hmask, ← UInt32.toNat_inj]
    rfl
  rw [runtimeHash]
  by_cases h : hashLoop 5381 data % 2 ^ (8 * bytesHash) = 0
  · rw [if_pos (hzero.mpr h), if_pos h]
    rfl
  · rw [if_neg (mt hzero.mp h), if_neg h]
    exact hmask

/-- The generator and the interpreter agree on every name and width, on a hash that is not 0
and fits. -/
theorem computeHash_runtime (qbytes : List UInt8) {bytesHash : Nat} (hpos : 1 ≤ bytesHash)
    (hle : bytesHash ≤ 4) :
    computeHash qbytes bytesHash = (runtimeHash qbytes bytesHash).toNat ∧
      computeHash qbytes bytesHash ≠ 0 ∧ computeHash qbytes bytesHash < 2 ^ (8 * bytesHash) := by
  have hne : bytesHash ≠ 0 := Nat.one_le_iff_ne_zero.mp hpos
  have hpow : 1 < 2 ^ (8 * bytesHash) := Nat.one_lt_two_pow (by omega)
  rw [toNat_runtimeHash qbytes hle, computeHash_eq qbytes hne]
  refine ⟨rfl, ?_, ?_⟩
  · split
    · exact Nat.one_ne_zero
    · assumption
  · split
    · exact hpow
    · exact Nat.mod_lt _ (Nat.zero_lt_of_lt hpow)

/-- `print`, at the width of the port. -/
theorem computeHash_runtime_print :
    computeHash [0x70, 0x72, 0x69, 0x6E, 0x74] 1 =
        (runtimeHash [0x70, 0x72, 0x69, 0x6E, 0x74] 1).toNat ∧
      computeHash [0x70, 0x72, 0x69, 0x6E, 0x74] 1 ≠ 0 ∧
      computeHash [0x70, 0x72, 0x69, 0x6E, 0x74] 1 < 2 ^ (8 * 1) :=
  computeHash_runtime _ (by decide) (by decide)

end FreedosMicroPython.Qstr.Hash
