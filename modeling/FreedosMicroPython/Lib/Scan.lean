import Mathlib.Data.List.TakeWhile
import Mathlib.Data.List.DropRight
import Mathlib.Tactic.Common
/-!
# Scanning a list by index

`scan` is the loop that moves an index forward while the cell under it satisfies
a predicate, and `segment` the cells between two indices. The lemmas turn an
argument about indices into one about `takeWhile` and `dropWhile`. `scanBack` is
the loop that looks for the last cell that satisfies it, and `LastView` what such
a loop finds.
-/

namespace FreedosMicroPython.Lib.Scan

variable {α : Type} (p : α → Bool)

def scanLoop : List α → Nat → Nat
  | [], pos => pos
  | c :: cs, pos => if p c then scanLoop cs (pos + 1) else pos

/-- The first index from `pos` on whose cell does not satisfy `p`, or the end. -/
def scan (s : List α) (pos : Nat) : Nat := scanLoop p (s.drop pos) pos

def segment (s : List α) (a b : Nat) : List α := (s.drop a).take (b - a)

theorem scanLoop_eq (s : List α) (pos : Nat) :
    scanLoop p s pos = pos + (s.takeWhile p).length := by
  induction s generalizing pos with
  | nil => rfl
  | cons c cs ih =>
      rw [scanLoop]
      cases hc : p c with
      | false => simp [hc]
      | true =>
          simp only [if_true, ih, List.takeWhile_cons_of_pos hc, List.length_cons]
          omega

theorem scan_eq (s : List α) (pos : Nat) :
    scan p s pos = pos + ((s.drop pos).takeWhile p).length :=
  scanLoop_eq p (s.drop pos) pos

theorem le_scan (s : List α) (pos : Nat) : pos ≤ scan p s pos := by
  rw [scan_eq]
  exact Nat.le_add_right _ _

theorem segment_scan (s : List α) (pos : Nat) :
    segment s pos (scan p s pos) = (s.drop pos).takeWhile p := by
  rw [segment, scan_eq, Nat.add_sub_cancel_left]
  exact List.prefix_iff_eq_take.mp (List.takeWhile_prefix p) |>.symm

theorem drop_scan (s : List α) (pos : Nat) :
    s.drop (scan p s pos) = (s.drop pos).dropWhile p := by
  have hsplit := List.takeWhile_append_dropWhile (p := p) (l := s.drop pos)
  have hdrop : ((s.drop pos).takeWhile p ++ (s.drop pos).dropWhile p).drop
      ((s.drop pos).takeWhile p).length = (s.drop pos).dropWhile p := List.drop_left
  rw [hsplit, List.drop_drop] at hdrop
  rw [scan_eq, hdrop]

theorem drop_of_drop {s xs ys : List α} {a : Nat} (h : s.drop a = xs ++ ys) :
    s.drop (a + xs.length) = ys := by
  rw [← List.drop_drop, h, List.drop_left]

theorem segment_of_drop {s xs ys : List α} {a b : Nat} (h : s.drop a = xs ++ ys)
    (hb : b = a + xs.length) : segment s a b = xs := by
  rw [segment, h, hb, Nat.add_sub_cancel_left, List.take_left]

theorem drop_take_of_drop {s xs ys : List α} {a b : Nat} (h : s.drop a = xs ++ ys)
    (hb : b = a + xs.length) : (s.take b).drop a = xs := by
  rw [List.drop_take, h, hb, Nat.add_sub_cancel_left, List.take_left]

theorem segment_self (s : List α) (a : Nat) : segment s a a = [] := by
  simp [segment]

theorem segment_length (s : List α) (a : Nat) : segment s a s.length = s.drop a := by
  rw [segment, List.take_of_length_le]
  simp

/-- A scan takes a block of cells that satisfy the predicate and stops behind it. -/
theorem takeWhile_append_of_stop {xs ys : List α} (hxs : ∀ x ∈ xs, p x = true)
    (hys : ∀ y ∈ ys.head?, p y = false) : (xs ++ ys).takeWhile p = xs := by
  rw [List.takeWhile_append_of_pos hxs]
  cases ys with
  | nil => simp
  | cons y ys => simp [hys y rfl]

theorem dropWhile_append_of_stop {xs ys : List α} (hxs : ∀ x ∈ xs, p x = true)
    (hys : ∀ y ∈ ys.head?, p y = false) : (xs ++ ys).dropWhile p = ys := by
  rw [List.dropWhile_append_of_pos hxs]
  cases ys with
  | nil => simp
  | cons y ys => simp [hys y rfl]

theorem scan_of_drop {s xs ys : List α} {pos : Nat} (h : s.drop pos = xs ++ ys)
    (hxs : ∀ x ∈ xs, p x = true) (hys : ∀ y ∈ ys.head?, p y = false) :
    scan p s pos = pos + xs.length := by
  rw [scan_eq, h, takeWhile_append_of_stop p hxs hys]

theorem head_dropWhile (xs : List α) : ∀ c ∈ (xs.dropWhile p).head?, p c = false := by
  intro c hc
  have hhead := List.head?_dropWhile_not p xs
  rw [Option.mem_def.mp hc] at hhead
  simpa using hhead

/-! ## Scanning from the end -/

/-- The last index from `start` on and below `n` whose cell satisfies `p`. -/
def scanBack (s : List α) (start : Nat) : Nat → Option Nat
  | 0 => none
  | i + 1 =>
      if i < start then none
      else if s[i]?.any p then some i
      else scanBack s start i

/-- A list seen from its end: no cell satisfies `p`, or there is a last one that does. -/
inductive LastView : List α → Prop
  | bare (ys : List α) (hys : ∀ y ∈ ys, p y = false) : LastView ys
  | split (xs : List α) (c : α) (ys : List α) (hc : p c = true) (hys : ∀ y ∈ ys, p y = false) :
      LastView (xs ++ c :: ys)

theorem lastView (s : List α) : LastView p s := by
  induction s with
  | nil => exact .bare [] (by simp)
  | cons c cs ih =>
      cases ih with
      | bare _ hcs =>
          cases hc : p c with
          | true => exact .split [] c cs hc hcs
          | false => exact .bare (c :: cs) (by simpa [hc] using hcs)
      | split xs d ys hd hys => exact .split (c :: xs) d ys hd hys

theorem scanBack_none {s : List α} {start n : Nat}
    (h : ∀ i, start ≤ i → i < n → s[i]?.any p = false) : scanBack p s start n = none := by
  induction n with
  | zero => rfl
  | succ n ih =>
      rw [scanBack]
      by_cases hn : n < start
      · rw [if_pos hn]
      · rw [if_neg hn, if_neg (by simp [h n (by omega) (by omega)])]
        exact ih fun i hi hin => h i hi (by omega)

theorem scanBack_some {s : List α} {start n i : Nat} (hi : start ≤ i) (hin : i < n)
    (hp : s[i]?.any p = true) (h : ∀ j, i < j → j < n → s[j]?.any p = false) :
    scanBack p s start n = some i := by
  induction n with
  | zero => omega
  | succ n ih =>
      rw [scanBack, if_neg (by omega : ¬ n < start)]
      rcases Nat.lt_or_eq_of_le (Nat.le_of_lt_succ hin) with hlt | rfl
      · rw [if_neg (by simp [h n hlt (by omega)])]
        exact ih hlt fun j hj hjn => h j hj (by omega)
      · rw [if_pos hp]

theorem any_getElem? {ys : List α} (hys : ∀ y ∈ ys, p y = false) (i : Nat) :
    ys[i]?.any p = false := by
  cases hy : ys[i]? with
  | none => rfl
  | some y => exact hys y (List.mem_of_getElem? hy)

theorem scanBack_bare (xs : List α) {ys : List α} (hys : ∀ y ∈ ys, p y = false) :
    scanBack p (xs ++ ys) xs.length (xs ++ ys).length = none := by
  refine scanBack_none p fun i hi _ => ?_
  rw [List.getElem?_append_right hi]
  exact any_getElem? p hys _

theorem scanBack_split {xs ys : List α} {c : α} {start : Nat} (hstart : start ≤ xs.length)
    (hc : p c = true) (hys : ∀ y ∈ ys, p y = false) :
    scanBack p (xs ++ c :: ys) start (xs ++ c :: ys).length = some xs.length := by
  refine scanBack_some p hstart (by simp) (by simp [hc]) fun j hj _ => ?_
  have hj : (xs ++ [c]).length ≤ j := by
    rw [List.length_append]
    exact hj
  rw [List.append_cons, List.getElem?_append_right hj]
  exact any_getElem? p hys _

theorem rtakeWhile_append_of_stop {xs ys : List α} (hxs : ∀ x ∈ xs.getLast?, p x = false)
    (hys : ∀ y ∈ ys, p y = true) : (xs ++ ys).rtakeWhile p = ys := by
  rw [List.rtakeWhile, List.reverse_append, takeWhile_append_of_stop p (by simpa using hys)
    (by simpa using hxs), List.reverse_reverse]

end FreedosMicroPython.Lib.Scan
