import Mathlib.Data.List.Basic
import Mathlib.Tactic.Common
/-!
# Overwriting a stretch of a list

`overwrite gap c pos bs` is the contents `c` after the cells `bs` have been
stored from position `pos` on, extending it where needed. Positions between the
old end and `pos` get the cells `gap` names: what they hold is not specified by
the systems this models.
-/

namespace FreedosMicroPython.Lib.Splice

variable {α : Type} (gap : Nat → α)

def padTo (c : List α) (pos : Nat) : List α :=
  (c ++ (List.range' c.length (pos - c.length)).map gap).take pos

def overwrite (c : List α) (pos : Nat) (bs : List α) : List α :=
  padTo gap c pos ++ bs ++ c.drop (pos + bs.length)

@[simp] theorem length_padTo (c : List α) (pos : Nat) : (padTo gap c pos).length = pos := by
  simp [padTo]
  omega

theorem padTo_of_le {c : List α} {pos : Nat} (h : pos ≤ c.length) :
    padTo gap c pos = c.take pos := by
  simp [padTo, Nat.sub_eq_zero_of_le h]

@[simp] theorem length_overwrite (c : List α) (pos : Nat) (bs : List α) :
    (overwrite gap c pos bs).length = max c.length (pos + bs.length) := by
  simp [overwrite]
  omega

theorem take_overwrite (c : List α) (pos : Nat) (bs : List α) :
    (overwrite gap c pos bs).take (pos + bs.length) = padTo gap c pos ++ bs := by
  rw [overwrite]
  exact List.take_left' (by simp)

theorem drop_overwrite (c : List α) (pos : Nat) (bs : List α) {n : Nat}
    (h : pos + bs.length ≤ n) : (overwrite gap c pos bs).drop n = c.drop n := by
  obtain ⟨k, rfl⟩ := Nat.exists_eq_add_of_le h
  rw [overwrite, ← List.drop_drop, List.drop_left' (by simp), List.drop_drop]

theorem overwrite_overwrite (c : List α) (pos : Nat) (as bs : List α) :
    overwrite gap (overwrite gap c pos as) (pos + as.length) bs =
      overwrite gap c pos (as ++ bs) := by
  have hle : pos + as.length ≤ (overwrite gap c pos as).length := by
    rw [length_overwrite]
    omega
  rw [overwrite, padTo_of_le gap hle, take_overwrite, drop_overwrite gap c pos as (by omega),
    overwrite, List.length_append, List.append_assoc, ← Nat.add_assoc]
  simp only [List.append_assoc]

theorem overwrite_at_end (c bs : List α) : overwrite gap c c.length bs = c ++ bs := by
  simp [overwrite, padTo_of_le gap (Nat.le_refl c.length)]

theorem prefix_overwrite {as c : List α} (h : as <+: c) {pos : Nat} (hpos : as.length ≤ pos)
    (bs : List α) : as <+: overwrite gap c pos bs := by
  have hpad : as <+: padTo gap c pos :=
    List.prefix_take_iff.mpr ⟨h.trans (List.prefix_append _ _), hpos⟩
  rw [overwrite, List.append_assoc]
  exact hpad.trans (List.prefix_append _ _)

end FreedosMicroPython.Lib.Splice
