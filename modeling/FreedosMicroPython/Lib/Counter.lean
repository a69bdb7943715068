import Mathlib.Data.List.Basic
import Mathlib.Data.Nat.Digits.Defs
import Mathlib.Tactic.Common
/-!
# Counter mode

A block of bytes as a big-endian counter, and the stream mode that xors data with
a block function applied to successive counters.
-/

namespace FreedosMicroPython.Lib.Counter

/-! ## Counters, least significant byte first -/

def valueLE (bs : List UInt8) : Nat := Nat.ofDigits 256 (bs.map UInt8.toNat)

def bytesLE : Nat → Nat → List UInt8
  | 0, _ => []
  | n + 1, v => UInt8.ofNat v :: bytesLE n (v / 256)

def bump : List UInt8 → List UInt8
  | [] => []
  | b :: bs => if b + 1 ≠ 0 then (b + 1) :: bs else (b + 1) :: bump bs

@[simp] theorem valueLE_nil : valueLE [] = 0 := rfl

@[simp] theorem valueLE_cons (b : UInt8) (bs : List UInt8) :
    valueLE (b :: bs) = b.toNat + 256 * valueLE bs := by
  simp [valueLE, Nat.ofDigits_cons]

theorem valueLE_lt (bs : List UInt8) : valueLE bs < 256 ^ bs.length := by
  induction bs with
  | nil => simp
  | cons b bs ih =>
      have hb := b.toNat_lt
      rw [valueLE_cons, List.length_cons, Nat.pow_succ]
      omega

@[simp] theorem length_bytesLE (n v : Nat) : (bytesLE n v).length = n := by
  induction n generalizing v with
  | zero => rfl
  | succ n ih => simp [bytesLE, ih]

theorem valueLE_bytesLE (n v : Nat) : valueLE (bytesLE n v) = v % 256 ^ n := by
  induction n generalizing v with
  | zero => simp [bytesLE, Nat.mod_one]
  | succ n ih =>
      have hpow : 256 ^ (n + 1) = 256 * 256 ^ n := by rw [Nat.pow_succ, Nat.mul_comm]
      rw [bytesLE, valueLE_cons, ih, UInt8.toNat_ofNat', hpow, Nat.mod_mul]

theorem bytesLE_valueLE (bs : List UInt8) : bytesLE bs.length (valueLE bs) = bs := by
  induction bs with
  | nil => rfl
  | cons b bs ih =>
      have hb := b.toNat_lt
      have hlow : UInt8.ofNat (b.toNat + 256 * valueLE bs) = b := by
        apply UInt8.toNat.inj
        rw [UInt8.toNat_ofNat']
        omega
      have hhigh : (b.toNat + 256 * valueLE bs) / 256 = valueLE bs := by omega
      rw [valueLE_cons, List.length_cons, bytesLE, hlow, hhigh, ih]

theorem valueLE_bump (bs : List UInt8) :
    valueLE (bump bs) = (valueLE bs + 1) % 256 ^ bs.length := by
  induction bs with
  | nil => simp [bump]
  | cons b bs ih =>
      have hb := b.toNat_lt
      have hbs := valueLE_lt bs
      have hsum : (b + 1).toNat = (b.toNat + 1) % 256 := by
        rw [UInt8.toNat_add]
        rfl
      have hzero : (0 : UInt8).toNat = 0 := rfl
      rw [bump, List.length_cons, Nat.pow_succ]
      by_cases hcarry : b + 1 = 0
      · have hmax : b.toNat = 255 := by
          rw [hcarry] at hsum
          omega
        rw [if_neg (not_not_intro hcarry)]
        calc
          valueLE ((b + 1) :: bump bs) = 256 * ((valueLE bs + 1) % 256 ^ bs.length) := by
            rw [valueLE_cons, ih, hcarry, hzero, Nat.zero_add]
          _ = 256 * (valueLE bs + 1) % (256 * 256 ^ bs.length) :=
            (Nat.mul_mod_mul_left 256 (valueLE bs + 1) (256 ^ bs.length)).symm
          _ = (valueLE (b :: bs) + 1) % (256 ^ bs.length * 256) := by
            rw [valueLE_cons, hmax, Nat.mul_comm (256 ^ bs.length)]
            congr 1
            omega
      · have hsmall : b.toNat + 1 < 256 := by
          by_contra hge
          apply hcarry
          apply UInt8.toNat.inj
          omega
        rw [if_pos hcarry, valueLE_cons, valueLE_cons, hsum, Nat.mod_eq_of_lt hsmall,
          Nat.mod_eq_of_lt (by omega)]
        omega

/-! ## Blocks -/

variable {n : Nat}

/-- The number a block stands for, most significant byte first. -/
def value (b : Vector UInt8 n) : Nat := valueLE b.toList.reverse

/-- The block that stands for `v` modulo `256 ^ n`. -/
def block (n v : Nat) : Vector UInt8 n :=
  ⟨(bytesLE n v).reverse.toArray, by simp⟩

@[simp] theorem toList_block (n v : Nat) : (block n v).toList = (bytesLE n v).reverse := rfl

theorem block_value (b : Vector UInt8 n) : block n (value b) = b := by
  apply Vector.toList_inj.mp
  have hbytes := bytesLE_valueLE b.toList.reverse
  rw [List.length_reverse, Vector.length_toList] at hbytes
  rw [toList_block, value, hbytes, List.reverse_reverse]

theorem value_block {v : Nat} (hv : v < 256 ^ n) : value (block n v) = v := by
  rw [value, toList_block, List.reverse_reverse, valueLE_bytesLE, Nat.mod_eq_of_lt hv]

/-- Any routine that carries from the last byte up adds one modulo `256 ^ n`. -/
theorem value_of_bump {b b' : Vector UInt8 n} (h : b'.toList.reverse = bump b.toList.reverse) :
    value b' = (value b + 1) % 256 ^ n := by
  rw [value, h, valueLE_bump, List.length_reverse, Vector.length_toList]
  rfl

theorem value_lt (b : Vector UInt8 n) : value b < 256 ^ n := by
  have h := valueLE_lt b.toList.reverse
  rwa [List.length_reverse, Vector.length_toList] at h

/-! ## Counter mode -/

def xorBytes (data stream : List UInt8) : List UInt8 := List.zipWith (· ^^^ ·) data stream

theorem xorBytes_append_left {a stream : List UInt8} (h : a.length = stream.length)
    (b stream' : List UInt8) :
    xorBytes (a ++ b) (stream ++ stream') = xorBytes a stream ++ xorBytes b stream' :=
  List.zipWith_append h

theorem xorBytes_append_right (data stream stream' : List UInt8) :
    xorBytes data (stream ++ stream') =
      xorBytes (data.take stream.length) stream ++ xorBytes (data.drop stream.length) stream' := by
  induction stream generalizing data with
  | nil => simp [xorBytes]
  | cons s stream ih =>
      cases data with
      | nil => simp [xorBytes]
      | cons d data => exact congrArg ((d ^^^ s) :: ·) (ih data)

theorem xorBytes_xorBytes {data stream : List UInt8} (h : data.length ≤ stream.length) :
    xorBytes (xorBytes data stream) stream = data := by
  induction data generalizing stream with
  | nil => simp [xorBytes]
  | cons d data ih =>
      cases stream with
      | nil => simp at h
      | cons s stream =>
          have hhead : d ^^^ s ^^^ s = d := by rw [UInt8.xor_assoc, UInt8.xor_self, UInt8.xor_zero]
          simp only [xorBytes, List.zipWith_cons_cons, hhead]
          exact congrArg (d :: ·) (ih (by simpa using h))

variable (E : Vector UInt8 n → Vector UInt8 n)

/-- `E(v) ‖ E(v + 1) ‖ …`, `k` blocks of it. The counter is taken modulo `256 ^ n`. -/
def keystream (v k : Nat) : List UInt8 :=
  (List.range k).flatMap fun i => (E (block n ((v + i) % 256 ^ n))).toList

/-- Data xored with as many blocks of the stream from `v` on as it needs. -/
def counterMode (v : Nat) (data : List UInt8) : List UInt8 :=
  xorBytes data (keystream E v ((data.length + n - 1) / n))

theorem keystream_succ (v k : Nat) :
    keystream E v (k + 1) = (E (block n (v % 256 ^ n))).toList ++ keystream E (v + 1) k := by
  simp only [keystream, List.range_succ_eq_map, List.flatMap_cons, List.flatMap_map, Nat.add_zero,
    Nat.succ_eq_add_one]
  congr 1
  apply List.flatMap_congr
  intro i _
  rw [Nat.add_assoc v 1 i, Nat.add_comm 1 i]

@[simp] theorem length_keystream (v k : Nat) : (keystream E v k).length = k * n := by
  induction k generalizing v with
  | zero => simp [keystream]
  | succ k ih =>
      rw [keystream_succ, List.length_append, Vector.length_toList, ih, Nat.succ_mul, Nat.add_comm]

theorem keystream_add (v j k : Nat) :
    keystream E v (j + k) = keystream E v j ++ keystream E (v + j) k := by
  induction j generalizing v with
  | zero => simp [keystream]
  | succ j ih =>
      rw [Nat.add_right_comm, keystream_succ, keystream_succ, ih, List.append_assoc,
        Nat.add_assoc v 1 j, Nat.add_comm 1 j]

theorem keystream_mod (v k : Nat) : keystream E (v % 256 ^ n) k = keystream E v k := by
  simp only [keystream, Nat.mod_add_mod]

theorem counterMode_mod (v : Nat) (data : List UInt8) :
    counterMode E (v % 256 ^ n) data = counterMode E v data := by
  rw [counterMode, counterMode, keystream_mod]

theorem le_blocks (hn : 0 < n) (m : Nat) : m ≤ (m + n - 1) / n * n := by
  have h := Nat.lt_mul_div_succ (m + n - 1) hn
  rw [Nat.mul_add, Nat.mul_one, Nat.mul_comm] at h
  omega

@[simp] theorem length_counterMode (hn : 0 < n) (v : Nat) (data : List UInt8) :
    (counterMode E v data).length = data.length := by
  rw [counterMode, xorBytes, List.length_zipWith, length_keystream]
  exact Nat.min_eq_left (le_blocks hn data.length)

/-- Data that fills whole blocks leaves the counter at the next one. -/
theorem counterMode_append (hn : 0 < n) (v j : Nat) {a : List UInt8} (ha : a.length = j * n)
    (b : List UInt8) :
    counterMode E v (a ++ b) = counterMode E v a ++ counterMode E (v + j) b := by
  have hsplit : ∀ m, (j * n + m + n - 1) / n = j + (m + n - 1) / n := by
    intro m
    rw [Nat.add_assoc, Nat.add_sub_assoc (by omega), Nat.add_comm, Nat.add_mul_div_right _ _ hn,
      Nat.add_comm]
  have hwhole : (j * n + n - 1) / n = j := by
    have h := hsplit 0
    rw [Nat.add_zero, Nat.zero_add, Nat.div_eq_of_lt (by omega : n - 1 < n)] at h
    exact h
  calc
    counterMode E v (a ++ b) = xorBytes (a ++ b)
        (keystream E v j ++ keystream E (v + j) ((b.length + n - 1) / n)) := by
      rw [counterMode, List.length_append, ha, hsplit, keystream_add]
    _ = xorBytes a (keystream E v j) ++
        xorBytes b (keystream E (v + j) ((b.length + n - 1) / n)) :=
      xorBytes_append_left (by rw [ha, length_keystream]) _ _
    _ = counterMode E v a ++ counterMode E (v + j) b := by
      rw [counterMode, counterMode, ha, hwhole]

theorem counterMode_counterMode (hn : 0 < n) (v : Nat) (data : List UInt8) :
    counterMode E v (counterMode E v data) = data := by
  rw [counterMode, length_counterMode E hn]
  apply xorBytes_xorBytes
  rw [length_keystream]
  exact le_blocks hn data.length

end FreedosMicroPython.Lib.Counter
