import Mathlib.Algebra.Ring.Nat
import Mathlib.Tactic.Common
/-!
# Bytes as six-bit digits

`sextets` cuts bytes into digits of six bits, most significant bit first, and fills the last
one with zero bits. `octets` collects bytes again from a stream of digits and drops the bits
that do not fill one.
-/

namespace FreedosMicroPython.Lib.Sextets

def sextets : List UInt8 → List Nat
  | a :: b :: c :: rest =>
      a.toNat / 4 :: (a.toNat % 4 * 16 + b.toNat / 16) :: (b.toNat % 16 * 4 + c.toNat / 64) ::
        c.toNat % 64 :: sextets rest
  | [a, b] => [a.toNat / 4, a.toNat % 4 * 16 + b.toNat / 16, b.toNat % 16 * 4]
  | [a] => [a.toNat / 4, a.toNat % 4 * 16]
  | [] => []

/-- The bytes of the digits behind `count` bits that are left over and have the value `left`. -/
def octets : Nat → Nat → List Nat → List UInt8
  | _, _, [] => []
  | left, count, d :: ds =>
      if 8 ≤ count + 6 then
        UInt8.ofNat ((left * 64 + d) / 2 ^ (count - 2)) ::
          octets ((left * 64 + d) % 2 ^ (count - 2)) (count - 2) ds
      else octets (left * 64 + d) (count + 6) ds

theorem sextets_lt (bs : List UInt8) : ∀ d ∈ sextets bs, d < 64 := by
  induction bs using sextets.induct with
  | case1 a b c rest ih =>
      have ha := a.toNat_lt
      have hb := b.toNat_lt
      have hc := c.toNat_lt
      simp only [sextets, List.forall_mem_cons]
      exact ⟨by omega, by omega, by omega, by omega, ih⟩
  | case2 a b =>
      have ha := a.toNat_lt
      have hb := b.toNat_lt
      simp only [sextets, List.forall_mem_cons]
      exact ⟨by omega, by omega, by omega, nofun⟩
  | case3 a =>
      have ha := a.toNat_lt
      simp only [sextets, List.forall_mem_cons]
      exact ⟨by omega, by omega, nofun⟩
  | case4 => exact nofun

/-! ## One digit

Between two digits 0, 2, 4 or 6 bits are left over.
-/

theorem octets_cons (left count d : Nat) (ds : List Nat) :
    octets left count (d :: ds) =
      if 8 ≤ count + 6 then
        UInt8.ofNat ((left * 64 + d) / 2 ^ (count - 2)) ::
          octets ((left * 64 + d) % 2 ^ (count - 2)) (count - 2) ds
      else octets (left * 64 + d) (count + 6) ds := rfl

theorem octets_zero (d : Nat) (ds : List Nat) : octets 0 0 (d :: ds) = octets d 6 ds := by
  rw [octets_cons, if_neg (by decide), Nat.zero_mul, Nat.zero_add]

theorem octets_six (left d : Nat) (ds : List Nat) :
    octets left 6 (d :: ds) =
      UInt8.ofNat ((left * 64 + d) / 16) :: octets ((left * 64 + d) % 16) 4 ds := by
  rw [octets_cons, if_pos (by decide)]
  rfl

theorem octets_four (left d : Nat) (ds : List Nat) :
    octets left 4 (d :: ds) =
      UInt8.ofNat ((left * 64 + d) / 4) :: octets ((left * 64 + d) % 4) 2 ds := by
  rw [octets_cons, if_pos (by decide)]
  rfl

theorem octets_two (left d : Nat) (ds : List Nat) :
    octets left 2 (d :: ds) = UInt8.ofNat (left * 64 + d) :: octets 0 0 ds := by
  rw [octets_cons, if_pos (by decide), Nat.pow_zero, Nat.div_one, Nat.mod_one]

theorem ofNat_eq {n : Nat} {b : UInt8} (h : n = b.toNat) : UInt8.ofNat n = b := by
  rw [h, UInt8.ofNat_toNat]

theorem octets_sextets (bs : List UInt8) : octets 0 0 (sextets bs) = bs := by
  induction bs using sextets.induct with
  | case1 a b c rest ih =>
      have hb := b.toNat_lt
      have hc := c.toNat_lt
      rw [sextets, octets_zero, octets_six, octets_four, octets_two, ih,
        ofNat_eq (b := a) (by omega), ofNat_eq (b := b) (by omega), ofNat_eq (b := c) (by omega)]
  | case2 a b =>
      have hb := b.toNat_lt
      rw [sextets, octets_zero, octets_six, octets_four, ofNat_eq (b := a) (by omega),
        ofNat_eq (b := b) (by omega)]
      rfl
  | case3 a =>
      rw [sextets, octets_zero, octets_six, ofNat_eq (b := a) (by omega)]
      rfl
  | case4 => rfl

end FreedosMicroPython.Lib.Sextets
