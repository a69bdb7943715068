import Mathlib.Data.Nat.ModEq
import Mathlib.Logic.Function.Basic
import FreedosMicroPython.Lib.Memory
/-!
# Ring buffers

A ring is a block of consecutive addresses whose end is followed by its start.
`ahead` counts around it, `distance` back. A memory is read and written through
the ring one cell after the other; a block reads back as written, and a block at
other distances is unchanged.
-/

namespace FreedosMicroPython.Lib

open FreedosMicroPython.Lib.Memory

/-- The addresses from `start` up to `start + size`. -/
structure Ring where
  start : Nat
  size : Nat
  pos : 0 < size

namespace Ring

variable (r : Ring)

def stop : Nat := r.start + r.size

def Inside (a : Nat) : Prop := r.start ≤ a ∧ a < r.stop

instance (a : Nat) : Decidable (r.Inside a) := inferInstanceAs (Decidable (_ ∧ _))

def next (a : Nat) : Nat := if a + 1 = r.stop then r.start else a + 1

def ahead (a k : Nat) : Nat := r.start + (a - r.start + k) % r.size

def distance (a b : Nat) : Nat := (b - r.start + (r.size - (a - r.start))) % r.size

theorem inside_ahead (a k : Nat) : r.Inside (r.ahead a k) := by
  have hlt := Nat.mod_lt (a - r.start + k) r.pos
  unfold Inside ahead stop
  omega

variable {r}

theorem ahead_zero {a : Nat} (ha : r.Inside a) : r.ahead a 0 = a := by
  unfold Inside stop at ha
  rw [ahead, Nat.add_zero, Nat.mod_eq_of_lt (by omega)]
  omega

theorem ahead_ahead (a j k : Nat) : r.ahead (r.ahead a j) k = r.ahead a (j + k) := by
  unfold ahead
  rw [Nat.add_sub_cancel_left, Nat.mod_add_mod, Nat.add_assoc]

theorem ahead_size {a : Nat} (ha : r.Inside a) : r.ahead a r.size = a := by
  have hzero := ahead_zero ha
  rw [ahead, Nat.add_zero] at hzero
  rw [ahead, Nat.add_mod_right, hzero]

theorem next_eq {a : Nat} (ha : r.Inside a) : r.next a = r.ahead a 1 := by
  unfold Inside at ha
  unfold next ahead
  unfold stop at ha ⊢
  by_cases h : a + 1 = r.start + r.size
  · rw [if_pos h, show a - r.start + 1 = r.size by omega, Nat.mod_self, Nat.add_zero]
  · rw [if_neg h, Nat.mod_eq_of_lt (by omega)]
    omega

theorem inside_next {a : Nat} (ha : r.Inside a) : r.Inside (r.next a) := by
  rw [next_eq ha]
  exact r.inside_ahead a 1

theorem ahead_inj {a j k : Nat} (hj : j < r.size) (hk : k < r.size)
    (h : r.ahead a j = r.ahead a k) : j = k := by
  unfold ahead at h
  have hmod : (a - r.start + j) % r.size = (a - r.start + k) % r.size := by omega
  have hcancel : j % r.size = k % r.size := Nat.ModEq.add_left_cancel' (a - r.start) hmod
  rwa [Nat.mod_eq_of_lt hj, Nat.mod_eq_of_lt hk] at hcancel

theorem distance_lt (a b : Nat) : r.distance a b < r.size := Nat.mod_lt _ r.pos

theorem ahead_distance {a b : Nat} (ha : r.Inside a) (hb : r.Inside b) :
    r.ahead a (r.distance a b) = b := by
  unfold Inside stop at ha hb
  unfold ahead distance
  rw [Nat.add_mod_mod, show a - r.start + (b - r.start + (r.size - (a - r.start))) =
    b - r.start + r.size by omega, Nat.add_mod_right, Nat.mod_eq_of_lt (by omega)]
  omega

theorem distance_ahead {a k : Nat} (ha : r.Inside a) (hk : k < r.size) :
    r.distance a (r.ahead a k) = k :=
  ahead_inj (distance_lt a _) hk (ahead_distance ha (r.inside_ahead a k))

/-! ## Memory -/

variable {α : Type}

variable (r) in
def load (m : Mem α) : Nat → Nat → List α
  | _, 0 => []
  | a, n + 1 => m a :: load m (r.next a) n

variable (r) in
def store (m : Mem α) : Nat → List α → Mem α
  | _, [] => m
  | a, x :: xs => store (Function.update m a x) (r.next a) xs

theorem load_eq (m : Mem α) {a : Nat} (ha : r.Inside a) (n : Nat) :
    r.load m a n = (List.range n).map fun k => m (r.ahead a k) := by
  induction n generalizing a with
  | zero => rfl
  | succ n ih =>
      rw [load, ih (inside_next ha), List.range_succ_eq_map, List.map_cons, List.map_map,
        ahead_zero ha, next_eq ha]
      congr 1
      apply List.map_congr_left
      intro k _
      rw [ahead_ahead, Function.comp_apply, Nat.add_comm 1 k]

@[simp] theorem length_load (m : Mem α) (a n : Nat) : (r.load m a n).length = n := by
  induction n generalizing a with
  | zero => rfl
  | succ n ih => rw [load, List.length_cons, ih]

theorem load_append (m : Mem α) {a : Nat} (ha : r.Inside a) (j k : Nat) :
    r.load m a (j + k) = r.load m a j ++ r.load m (r.ahead a j) k := by
  rw [load_eq m ha, load_eq m ha, load_eq m (r.inside_ahead a j), List.range_add, List.map_append,
    List.map_map]
  congr 1
  apply List.map_congr_left
  intro i _
  rw [ahead_ahead, Function.comp_apply]

theorem take_load (m : Mem α) {a j k : Nat} (ha : r.Inside a) (hjk : j ≤ k) :
    (r.load m a k).take j = r.load m a j := by
  rw [load_eq m ha, load_eq m ha, ← List.map_take, List.take_range, Nat.min_eq_left hjk]

theorem store_apart (m : Mem α) {a b : Nat} (ha : r.Inside a) {xs : List α}
    (h : ∀ k < xs.length, r.ahead a k ≠ b) : r.store m a xs b = m b := by
  induction xs generalizing m a with
  | nil => rfl
  | cons x xs ih =>
      rw [store, ih _ (inside_next ha) fun k hk => ?_]
      · have hfirst := h 0 (by simp)
        rw [ahead_zero ha] at hfirst
        exact Function.update_of_ne (Ne.symm hfirst) x m
      · rw [next_eq ha, ahead_ahead, Nat.add_comm]
        exact h (k + 1) (by simpa using hk)

theorem load_store (m : Mem α) {a : Nat} (ha : r.Inside a) {xs : List α}
    (hfit : xs.length ≤ r.size) : r.load (r.store m a xs) a xs.length = xs := by
  induction xs generalizing m a with
  | nil => rfl
  | cons x xs ih =>
      rw [List.length_cons] at hfit ⊢
      rw [store, load, ih _ (inside_next ha) (by omega)]
      congr 1
      have hfirst : ∀ k < xs.length, r.ahead (r.next a) k ≠ a := by
        intro k hk heq
        rw [next_eq ha, ahead_ahead] at heq
        have hzero := ahead_inj (by omega) r.pos (heq.trans (ahead_zero ha).symm)
        omega
      rw [store_apart _ (inside_next ha) hfirst, Function.update_self]

/-- What is read before the block, counted from one place, is unchanged by it. -/
theorem load_store_ahead (m : Mem α) {a i n : Nat} (ha : r.Inside a) {xs : List α} (hn : n ≤ i)
    (hfit : i + xs.length ≤ r.size) :
    r.load (r.store m (r.ahead a i) xs) a n = r.load m a n := by
  rw [load_eq _ ha, load_eq _ ha]
  apply List.map_congr_left
  intro j hj
  have hj := List.mem_range.mp hj
  refine store_apart m (r.inside_ahead a i) fun k hk heq => ?_
  rw [ahead_ahead] at heq
  have hij := ahead_inj (by omega) (by omega) heq
  omega

end Ring

end FreedosMicroPython.Lib
