import Mathlib.Data.List.Basic
import Mathlib.Tactic.Common
/-!
# Flat memories

A memory gives one cell to every address. `slice` reads a block, `blit` writes
one. The lemmas below are all that the rest of the development uses: a block
reads back as written, and a block that a write does not reach is unchanged.
-/

namespace FreedosMicroPython.Lib.Memory

variable {α : Type}

abbrev Mem (α : Type) := Nat → α

def slice (m : Mem α) (off n : Nat) : List α :=
  (List.range n).map fun i => m (off + i)

def blit (m : Mem α) (off : Nat) (bs : List α) : Mem α := fun a =>
  if off ≤ a then (bs[a - off]?).getD (m a) else m a

@[simp] theorem length_slice (m : Mem α) (off n : Nat) :
    (slice m off n).length = n := by
  simp [slice]

theorem getElem?_slice (m : Mem α) (off n i : Nat) (hi : i < n) :
    (slice m off n)[i]? = some (m (off + i)) := by
  simp [slice, hi]

theorem slice_eq_iff {m : Mem α} {off : Nat} {bs : List α} :
    slice m off bs.length = bs ↔ ∀ i (hi : i < bs.length), m (off + i) = bs[i] := by
  constructor
  · intro h i hi
    have hget := getElem?_slice m off bs.length i hi
    rw [h, List.getElem?_eq_getElem hi] at hget
    exact (Option.some.inj hget).symm
  · intro h
    apply List.ext_getElem (length_slice m off bs.length)
    intro i hi₁ hi₂
    simpa [slice] using h i hi₂

theorem take_slice (m : Mem α) (off n k : Nat) :
    (slice m off n).take k = slice m off (min k n) := by
  simp [slice, ← List.map_take, List.take_range]

@[simp] theorem blit_nil (m : Mem α) (off : Nat) : blit m off [] = m := by
  funext a
  simp [blit]

theorem blit_of_lt (m : Mem α) {off a : Nat} (bs : List α) (h : a < off) :
    blit m off bs a = m a := by
  simp [blit, Nat.not_le.mpr h]

theorem blit_of_le (m : Mem α) {off a : Nat} {bs : List α} (h : off + bs.length ≤ a) :
    blit m off bs a = m a := by
  have hnone : bs[a - off]? = none := by
    rw [List.getElem?_eq_none_iff]
    omega
  simp [blit, hnone]

theorem blit_inside (m : Mem α) (off : Nat) {bs : List α} {i : Nat}
    (hi : i < bs.length) : blit m off bs (off + i) = bs[i] := by
  simp [blit, hi]

theorem slice_blit (m : Mem α) (off : Nat) (bs : List α) :
    slice (blit m off bs) off bs.length = bs :=
  slice_eq_iff.mpr fun _ hi => blit_inside m off hi

theorem slice_blit_of_le (m : Mem α) (off : Nat) {bs : List α} {n : Nat} (hn : n ≤ bs.length) :
    slice (blit m off bs) off n = bs.take n := by
  have htake := take_slice (blit m off bs) off bs.length n
  rw [slice_blit, Nat.min_eq_left hn] at htake
  exact htake.symm

theorem blit_cons (m : Mem α) (off : Nat) (b : α) (bs : List α) :
    blit (blit m off [b]) (off + 1) bs = blit m off (b :: bs) := by
  funext a
  rcases Nat.lt_or_ge a off with hlt | hge
  · rw [blit_of_lt _ _ (by omega), blit_of_lt _ _ hlt, blit_of_lt _ _ hlt]
  · obtain ⟨i, rfl⟩ := Nat.exists_eq_add_of_le hge
    cases i with
    | zero =>
        rw [blit_of_lt _ _ (Nat.lt_succ_self (off + 0))]
        simp [blit]
    | succ i => simp [blit, show off + (i + 1) - (off + 1) = i by omega]

theorem slice_succ (m : Mem α) (off n : Nat) :
    slice m off (n + 1) = m off :: slice m (off + 1) n := by
  simp only [slice, List.range_succ_eq_map, List.map_cons, List.map_map, Nat.add_zero]
  congr 1
  apply List.map_congr_left
  intro i _
  simp only [Function.comp_apply]
  congr 1
  omega

theorem slice_eq_slice_iff {m m' : Mem α} {off n : Nat} :
    slice m off n = slice m' off n ↔ ∀ a, off ≤ a → a < off + n → m a = m' a := by
  rw [slice, slice, List.map_inj_left]
  constructor
  · intro h a hge hlt
    have ha := h (a - off) (List.mem_range.mpr (by omega))
    rwa [Nat.add_sub_cancel' hge] at ha
  · intro h i hi
    have hi := List.mem_range.mp hi
    exact h (off + i) (by omega) (by omega)

theorem slice_add (m : Mem α) (off j k : Nat) :
    slice m off (j + k) = slice m off j ++ slice m (off + j) k := by
  simp only [slice, List.range_add, List.map_append, List.map_map, Nat.add_assoc]
  rfl

end FreedosMicroPython.Lib.Memory
