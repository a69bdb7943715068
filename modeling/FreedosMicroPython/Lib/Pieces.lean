import Mathlib.Data.List.TakeWhile
import Mathlib.Tactic.Common
/-!
# The pieces of a list

What `splitOnP` and `splitOn` make of a list, by induction on its separators. A text is read as its
words with `wordsOf`: the pieces that are not empty.
-/

namespace FreedosMicroPython.Lib.Pieces

variable {α β : Type} {p : α → Bool}

/-- A list has no separator, or it is a piece, a separator and a list. -/
theorem split_induction {motive : List α → Prop}
    (piece : ∀ s, (∀ c ∈ s, p c = false) → motive s)
    (more : ∀ s sep t, (∀ c ∈ s, p c = false) → p sep = true → motive t → motive (s ++ sep :: t))
    (s : List α) : motive s := by
  induction hk : s.length using Nat.strongRecOn generalizing s with
  | ind k ih =>
      have hfront : ∀ c ∈ s.takeWhile (fun c => !p c), p c = false := by
        intro c hc
        simpa using List.mem_takeWhile_imp hc
      have hsplit := List.takeWhile_append_dropWhile (p := fun c => !p c) (l := s)
      cases hrest : s.dropWhile (fun c => !p c) with
      | nil =>
          rw [hrest, List.append_nil] at hsplit
          rw [← hsplit]
          exact piece _ hfront
      | cons sep t =>
          have hsep : p sep = true := by
            have hhead := List.head?_dropWhile_not (fun c => !p c) s
            rw [hrest] at hhead
            simpa using hhead
          rw [hrest] at hsplit
          have hlen := congrArg List.length hsplit
          rw [List.length_append, List.length_cons] at hlen
          rw [← hsplit]
          exact more _ sep t hfront hsep (ih t.length (by omega) t rfl)

theorem splitOnP_more {s : List α} (h : ∀ c ∈ s, p c = false) {sep : α} (hsep : p sep = true)
    (t : List α) : (s ++ sep :: t).splitOnP p = s :: t.splitOnP p :=
  List.splitOnP_append_cons_of_forall_mem h sep hsep t

theorem of_mem_piece {s piece : List α} (h : piece ∈ s.splitOnP p) {c : α} (hc : c ∈ piece) :
    c ∈ s ∧ p c = false := by
  induction s using split_induction (p := p) with
  | piece s hs =>
      rw [List.splitOnP_eq_singleton hs, List.mem_singleton] at h
      rw [h] at hc
      exact ⟨hc, hs c hc⟩
  | more s sep t hs hsep ih =>
      rw [splitOnP_more hs hsep, List.mem_cons] at h
      rcases h with rfl | h
      · exact ⟨List.mem_append_left _ hc, hs c hc⟩
      · obtain ⟨hmem, hp⟩ := ih h
        exact ⟨List.mem_append_right s (List.mem_cons_of_mem sep hmem), hp⟩

theorem splitOnP_concat {c : α} (hc : p c = false) (s : List α) :
    ∃ init last, s.splitOnP p = init ++ [last] ∧
      (s ++ [c]).splitOnP p = init ++ [last ++ [c]] := by
  induction s using split_induction (p := p) with
  | piece s hs =>
      refine ⟨[], s, List.splitOnP_eq_singleton hs, List.splitOnP_eq_singleton ?_⟩
      intro d hd
      rcases List.mem_append.mp hd with hd | hd
      · exact hs d hd
      · rw [List.mem_singleton.mp hd]
        exact hc
  | more s sep t hs hsep ih =>
      obtain ⟨init, last, ht, hconcat⟩ := ih
      refine ⟨s :: init, last, ?_, ?_⟩
      · rw [splitOnP_more hs hsep, ht]
        rfl
      · rw [List.append_assoc, List.cons_append, splitOnP_more hs hsep, hconcat]
        rfl

theorem splitOnP_flatMap {q : β → Bool} {f : α → List β}
    (hsep : ∀ c, p c = true → ∃ d, f c = [d] ∧ q d = true)
    (hother : ∀ c, p c = false → ∀ d ∈ f c, q d = false) (s : List α) :
    (s.flatMap f).splitOnP q = (s.splitOnP p).map (·.flatMap f) := by
  have hpiece : ∀ {s : List α}, (∀ c ∈ s, p c = false) → ∀ d ∈ s.flatMap f, q d = false := by
    intro s hs d hd
    obtain ⟨c, hc, hd⟩ := List.mem_flatMap.mp hd
    exact hother c (hs c hc) d hd
  induction s using split_induction (p := p) with
  | piece s hs =>
      rw [List.splitOnP_eq_singleton hs, List.splitOnP_eq_singleton (hpiece hs)]
      rfl
  | more s sep t hs hsep' ih =>
      obtain ⟨d, hd, hq⟩ := hsep sep hsep'
      rw [splitOnP_more hs hsep', List.flatMap_append, List.flatMap_cons, hd,
        List.singleton_append, splitOnP_more (hpiece hs) hq, ih]
      rfl

theorem mem_intercalate {sep c : α} {pieces : List (List α)}
    (h : c ∈ [sep].intercalate pieces) : c = sep ∨ ∃ piece ∈ pieces, c ∈ piece := by
  induction pieces with
  | nil => cases h
  | cons piece pieces ih =>
      by_cases hnil : pieces = []
      · rw [hnil, List.intercalate_singleton] at h
        exact .inr ⟨piece, List.mem_cons_self, h⟩
      · rw [List.intercalate_cons_of_ne_nil hnil, List.mem_append, List.mem_append,
          List.mem_singleton] at h
        rcases h with (h | h) | h
        · exact .inr ⟨piece, List.mem_cons_self, h⟩
        · exact .inl h
        · obtain hsep | ⟨other, hother, hc⟩ := ih h
          · exact .inl hsep
          · exact .inr ⟨other, List.mem_cons_of_mem piece hother, hc⟩

/-! ## Words -/

variable (p)

def wordsOf (s : List α) : List (List α) := (s.splitOnP p).filter fun piece => !piece.isEmpty

variable {p}

@[simp] theorem wordsOf_nil : wordsOf p [] = [] := rfl

theorem wordsOf_append {sep : α} (hsep : p sep = true) (s t : List α) :
    wordsOf p (s ++ sep :: t) = wordsOf p s ++ wordsOf p t := by
  rw [wordsOf, List.splitOnP_append_cons s t hsep, List.filter_append]
  rfl

theorem wordsOf_lines {sep : α} (hsep : p sep = true) (lines : List (List α)) :
    wordsOf p (lines.flatMap fun line => line ++ [sep]) = lines.flatMap (wordsOf p) := by
  induction lines with
  | nil => rfl
  | cons line lines ih =>
      rw [List.flatMap_cons, List.append_assoc, List.singleton_append, wordsOf_append hsep, ih]
      rfl

theorem wordsOf_word {s : List α} (hne : s ≠ []) (h : ∀ c ∈ s, p c = false) :
    wordsOf p s = [s] := by
  rw [wordsOf, List.splitOnP_eq_singleton h]
  simp [hne]

theorem of_mem_word {s word : List α} (h : word ∈ wordsOf p s) {c : α} (hc : c ∈ word) :
    c ∈ s ∧ p c = false :=
  of_mem_piece (List.mem_filter.mp h).1 hc

end FreedosMicroPython.Lib.Pieces
