import Mathlib.Data.Nat.Digits.Defs
import Mathlib.Data.Nat.Size
import Mathlib.Tactic.Common
/-!
# Numbers as big-endian bytes

`ofBytes` is the number that bytes stand for, most significant byte first, and `toBytes`
the shortest bytes of a number. Without a leading zero byte the two are inverse, and the
bit length is that of the first byte and eight for every other one.
-/

namespace FreedosMicroPython.Lib.BigEndian

def ofBytes (bs : List UInt8) : Nat := Nat.ofDigits 256 (bs.reverse.map UInt8.toNat)

def toBytes (v : Nat) : List UInt8 := ((Nat.digits 256 v).map UInt8.ofNat).reverse

def Minimal (bs : List UInt8) : Prop := ∀ b ∈ bs.head?, b ≠ 0

@[simp] theorem ofBytes_nil : ofBytes [] = 0 := rfl

@[simp] theorem toBytes_zero : toBytes 0 = [] := rfl

theorem ofBytes_append (xs ys : List UInt8) :
    ofBytes (xs ++ ys) = ofBytes xs * 256 ^ ys.length + ofBytes ys := by
  rw [ofBytes, List.reverse_append, List.map_append, Nat.ofDigits_append, List.length_map,
    List.length_reverse, Nat.add_comm, Nat.mul_comm]
  rfl

theorem ofBytes_cons (b : UInt8) (bs : List UInt8) :
    ofBytes (b :: bs) = b.toNat * 256 ^ bs.length + ofBytes bs :=
  ofBytes_append [b] bs

theorem ofBytes_lt (bs : List UInt8) : ofBytes bs < 256 ^ bs.length := by
  have hdigits : ∀ d ∈ bs.reverse.map UInt8.toNat, d < 256 := by
    intro d hd
    obtain ⟨b, -, rfl⟩ := List.mem_map.mp hd
    exact b.toNat_lt
  have hlt := Nat.ofDigits_lt_base_pow_length (by decide) hdigits
  rwa [List.length_map, List.length_reverse] at hlt

theorem ofBytes_dropWhile (bs : List UInt8) : ofBytes (bs.dropWhile (· = 0)) = ofBytes bs := by
  induction bs with
  | nil => rfl
  | cons b bs ih =>
      by_cases hb : b = 0
      · rw [List.dropWhile_cons_of_pos (by simpa using hb), ih, ofBytes_cons, hb,
          UInt8.toNat_zero, Nat.zero_mul, Nat.zero_add]
      · rw [List.dropWhile_cons_of_neg (by simpa using hb)]

theorem minimal_dropWhile (bs : List UInt8) : Minimal (bs.dropWhile (· = 0)) := by
  intro b hb
  have hhead := List.head?_dropWhile_not (· = (0 : UInt8)) bs
  rw [hb] at hhead
  simpa using hhead

theorem toBytes_ofBytes {bs : List UInt8} (h : Minimal bs) : toBytes (ofBytes bs) = bs := by
  have hdigits : Nat.digits 256 (ofBytes bs) = bs.reverse.map UInt8.toNat := by
    apply Nat.digits_ofDigits 256 (by decide)
    · intro d hd
      obtain ⟨b, -, rfl⟩ := List.mem_map.mp hd
      exact b.toNat_lt
    · intro hne
      cases bs with
      | nil => exact absurd rfl hne
      | cons b bs =>
          have hb : b ≠ 0 := h b rfl
          simpa [← UInt8.toNat_inj] using hb
  rw [toBytes, hdigits, List.map_map, List.map_reverse, List.reverse_reverse]
  calc bs.map (UInt8.ofNat ∘ UInt8.toNat) = bs.map id := by
        apply List.map_congr_left
        exact fun b _ => UInt8.ofNat_toNat
    _ = bs := List.map_id bs

theorem size_ofBytes {b : UInt8} (hb : b ≠ 0) (bs : List UInt8) :
    Nat.size (ofBytes (b :: bs)) = 8 * bs.length + Nat.size b.toNat := by
  have hrest := ofBytes_lt bs
  have hpow : 256 ^ bs.length = 2 ^ (8 * bs.length) := by rw [Nat.pow_mul]
  have hpos : 0 < b.toNat := Nat.pos_of_ne_zero fun hzero => hb (UInt8.toNat_inj.mp hzero)
  obtain ⟨s, hs⟩ := Nat.exists_eq_add_one.mpr (Nat.size_pos.mpr hpos)
  have hlow : 2 ^ s ≤ b.toNat := Nat.lt_size.mp (by omega)
  have hhigh : b.toNat < 2 ^ (s + 1) := Nat.size_le.mp (by omega)
  rw [hpow] at hrest
  rw [ofBytes_cons, hpow, hs]
  apply Nat.le_antisymm
  · apply Nat.size_le.mpr
    calc b.toNat * 2 ^ (8 * bs.length) + ofBytes bs
        < b.toNat * 2 ^ (8 * bs.length) + 2 ^ (8 * bs.length) := Nat.add_lt_add_left hrest _
      _ = (b.toNat + 1) * 2 ^ (8 * bs.length) := (Nat.succ_mul _ _).symm
      _ ≤ 2 ^ (s + 1) * 2 ^ (8 * bs.length) := Nat.mul_le_mul_right _ hhigh
      _ = 2 ^ (8 * bs.length + (s + 1)) := by rw [← Nat.pow_add, Nat.add_comm]
  · apply Nat.succ_le_of_lt
    apply Nat.lt_size.mpr
    calc 2 ^ (8 * bs.length + s) = 2 ^ s * 2 ^ (8 * bs.length) := by
          rw [← Nat.pow_add, Nat.add_comm]
      _ ≤ b.toNat * 2 ^ (8 * bs.length) := Nat.mul_le_mul_right _ hlow
      _ ≤ b.toNat * 2 ^ (8 * bs.length) + ofBytes bs := Nat.le_add_right _ _

end FreedosMicroPython.Lib.BigEndian
