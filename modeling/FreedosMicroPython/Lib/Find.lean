import Mathlib.Data.List.Infix
import Mathlib.Tactic.Common
/-!
# The first occurrence of a list in another

`find` is the search from the front. `FirstAt` says that the needle stands at an index and at
no earlier one; an occurrence in a list is the first one in every longer list. `replace` puts
another list in the place of every occurrence, from the front on.
-/

namespace FreedosMicroPython.Lib.Find

variable {α : Type} [DecidableEq α]

/-- The first index at which `needle` stands. -/
def find (needle : List α) : List α → Option Nat
  | [] => if needle = [] then some 0 else none
  | c :: cs => if needle <+: c :: cs then some 0 else (find needle cs).map (· + 1)

omit [DecidableEq α] in
/-- `needle` stands in `s` behind `i` cells, and behind no fewer. -/
def FirstAt (needle s : List α) (i : Nat) : Prop :=
  needle <+: s.drop i ∧ ∀ j < i, ¬ needle <+: s.drop j

variable {needle s : List α} {i : Nat}

theorem firstAt_of_find (h : find needle s = some i) : FirstAt needle s i := by
  induction s generalizing i with
  | nil =>
      rw [find] at h
      split at h
      · next hempty =>
        cases h
        rw [hempty]
        exact ⟨List.nil_prefix, by simp⟩
      · cases h
  | cons c cs ih =>
      rw [find] at h
      split at h
      · next hhere =>
        cases h
        exact ⟨hhere, by simp⟩
      · next hhere =>
        obtain ⟨j, hj, rfl⟩ := Option.map_eq_some_iff.mp h
        obtain ⟨hstands, hearlier⟩ := ih hj
        refine ⟨hstands, fun k hk => ?_⟩
        cases k with
        | zero => exact hhere
        | succ k => exact hearlier k (by omega)

theorem not_prefix_of_find_eq_none (h : find needle s = none) (i : Nat) :
    ¬ needle <+: s.drop i := by
  induction s generalizing i with
  | nil =>
      rw [find] at h
      split at h
      · cases h
      · next hne =>
        rw [List.drop_nil, List.prefix_nil]
        exact hne
  | cons c cs ih =>
      rw [find] at h
      split at h
      · cases h
      · next hhere =>
        cases i with
        | zero => exact hhere
        | succ i => exact ih (Option.map_eq_none_iff.mp h) i

theorem find_eq_some_iff : find needle s = some i ↔ FirstAt needle s i := by
  refine ⟨firstAt_of_find, fun hfirst => ?_⟩
  cases hfind : find needle s with
  | none => exact absurd hfirst.1 (not_prefix_of_find_eq_none hfind i)
  | some j =>
      have hj := firstAt_of_find hfind
      rcases Nat.lt_trichotomy i j with hlt | rfl | hlt
      · exact absurd hfirst.1 (hj.2 i hlt)
      · rfl
      · exact absurd hj.1 (hfirst.2 j hlt)

omit [DecidableEq α] in
theorem FirstAt.length_le (h : FirstAt needle s i) (hne : needle ≠ []) :
    i + needle.length ≤ s.length := by
  have hlen := h.1.length_le
  have hpos := List.length_pos_iff.mpr hne
  rw [List.length_drop] at hlen
  omega

omit [DecidableEq α] in
theorem FirstAt.append (h : FirstAt needle s i) (hne : needle ≠ []) (t : List α) :
    FirstAt needle (s ++ t) i := by
  have hlen := h.length_le hne
  have hpos := List.length_pos_iff.mpr hne
  constructor
  · rw [List.drop_append_of_le_length (by omega)]
    exact h.1.trans (List.prefix_append _ _)
  · intro j hj hstands
    rw [List.drop_append_of_le_length (by omega)] at hstands
    refine h.2 j hj (List.prefix_of_prefix_length_le hstands (List.prefix_append _ _) ?_)
    rw [List.length_drop]
    omega

/-- An occurrence that was found stays the first one when more is read. -/
theorem find_append (h : find needle s = some i) (hne : needle ≠ []) (t : List α) :
    find needle (s ++ t) = some i :=
  find_eq_some_iff.mpr ((firstAt_of_find h).append hne t)

/-! ## Replacing -/

/-- `replace` behind an occurrence of which `skip` cells are still to come. -/
def replaceFrom (old new : List α) : Nat → List α → List α
  | _, [] => []
  | skip + 1, _ :: cs => replaceFrom old new skip cs
  | 0, c :: cs =>
      if old <+: c :: cs then new ++ replaceFrom old new (old.length - 1) cs
      else c :: replaceFrom old new 0 cs

/-- The occurrences of `old`, which is not empty, from the front on and without overlap, become
`new`. -/
def replace (old new s : List α) : List α := replaceFrom old new 0 s

theorem replaceFrom_append (old new skipped s : List α) :
    replaceFrom old new skipped.length (skipped ++ s) = replace old new s := by
  induction skipped with
  | nil => rfl
  | cons c cs ih => exact ih

@[simp] theorem replace_nil (old new : List α) : replace old new [] = [] := rfl

theorem replace_append {old : List α} (hne : old ≠ []) (new s : List α) :
    replace old new (old ++ s) = new ++ replace old new s := by
  obtain ⟨c, cs, rfl⟩ := List.exists_cons_of_ne_nil hne
  have hstands : c :: cs <+: c :: (cs ++ s) := List.prefix_append (c :: cs) s
  rw [replace, List.cons_append, replaceFrom, if_pos hstands]
  exact congrArg (new ++ ·) (replaceFrom_append (c :: cs) new cs s)

theorem replace_cons {old : List α} {c : α} {s : List α} (h : ¬ old <+: c :: s)
    (new : List α) : replace old new (c :: s) = c :: replace old new s := by
  rw [replace, replaceFrom, if_neg h, replace]

end FreedosMicroPython.Lib.Find
