import Mathlib.Tactic.Common
/-!
# Regular expressions with anchors

Patterns as a backtracking matcher reads them. A position is the number of characters in front of
it and the text behind it, and `ends` lists the positions a match from there may end at, in the
order in which a greedy matcher tries them. The lemmas say which positions these are.
-/

namespace FreedosMicroPython.Lib.Regex

/-- `start` and `stop` are the anchors `^` and `$`, `one` is a class of characters, and `rep` is
the repetition with bounds. -/
inductive Expr (α : Type) where
  | start
  | stop
  | one (p : α → Bool)
  | seq (r s : Expr α)
  | rep (lo hi : Nat) (r : Expr α)

abbrev Pos (α : Type) := Nat × List α

/-- At least `lo` and at most `hi` steps, more of them first. -/
def repEnds {σ : Type} (step : σ → List σ) : Nat → Nat → σ → List σ
  | 0, 0, x => [x]
  | _ + 1, 0, _ => []
  | lo, hi + 1, x =>
      (step x).flatMap (repEnds step (lo - 1) hi) ++ if lo = 0 then [x] else []

variable {α : Type} [DecidableEq α] (nl : α)

/-- The pattern `stop` matches at the end and in front of an `nl` that is the last character. -/
def ends : Expr α → Pos α → List (Pos α)
  | .start, x => if x.1 = 0 then [x] else []
  | .stop, x => if x.2 = [] ∨ x.2 = [nl] then [x] else []
  | .one p, x =>
      match x.2 with
      | [] => []
      | c :: s => if p c then [(x.1 + 1, s)] else []
  | .seq r s, x => (ends r x).flatMap (ends s)
  | .rep lo hi r, x => repEnds (ends r) lo hi x

def Expr.matches (r : Expr α) (s : List α) : Bool := (ends nl r (0, s)).isEmpty = false

def Steps {σ : Type} (step : σ → List σ) : Nat → σ → σ → Prop
  | 0, x, y => y = x
  | n + 1, x, y => ∃ z ∈ step x, Steps step n z y

theorem mem_repEnds {σ : Type} {step : σ → List σ} {lo hi : Nat} {x y : σ} :
    y ∈ repEnds step lo hi x ↔ ∃ n, lo ≤ n ∧ n ≤ hi ∧ Steps step n x y := by
  induction hi generalizing lo x with
  | zero =>
      cases lo with
      | zero =>
          rw [repEnds, List.mem_singleton]
          constructor
          · exact fun h => ⟨0, Nat.le_refl 0, Nat.le_refl 0, h⟩
          · rintro ⟨n, -, hn, hsteps⟩
            obtain rfl : n = 0 := Nat.le_zero.mp hn
            exact hsteps
      | succ lo =>
          apply iff_of_false List.not_mem_nil
          rintro ⟨n, hlo, hn, -⟩
          omega
  | succ hi ih =>
      have hmore : y ∈ (step x).flatMap (repEnds step (lo - 1) hi) ↔
          ∃ n, lo ≤ n + 1 ∧ n ≤ hi ∧ Steps step (n + 1) x y := by
        rw [List.mem_flatMap]
        constructor
        · rintro ⟨z, hz, hy⟩
          obtain ⟨n, hlo, hn, hsteps⟩ := ih.mp hy
          exact ⟨n, by omega, hn, z, hz, hsteps⟩
        · rintro ⟨n, hlo, hn, z, hz, hsteps⟩
          exact ⟨z, hz, ih.mpr ⟨n, by omega, hn, hsteps⟩⟩
      have hnone : y ∈ (if lo = 0 then [x] else []) ↔ lo = 0 ∧ y = x := by
        split <;> simp [*]
      rw [repEnds, List.mem_append, hmore, hnone]
      constructor
      · rintro (⟨n, hlo, hn, hsteps⟩ | ⟨hlo, hy⟩)
        · exact ⟨n + 1, hlo, by omega, hsteps⟩
        · exact ⟨0, by omega, by omega, hy⟩
      · rintro ⟨n, hlo, hn, hsteps⟩
        cases n with
        | zero => exact .inr ⟨by omega, hsteps⟩
        | succ n => exact .inl ⟨n, hlo, by omega, hsteps⟩

variable {nl} {x y : Pos α}

theorem mem_ends_start : y ∈ ends nl .start x ↔ x.1 = 0 ∧ y = x := by
  change y ∈ (if x.1 = 0 then [x] else []) ↔ _
  split <;> simp [*]

theorem mem_ends_stop : y ∈ ends nl .stop x ↔ (x.2 = [] ∨ x.2 = [nl]) ∧ y = x := by
  change y ∈ (if x.2 = [] ∨ x.2 = [nl] then [x] else []) ↔ _
  split <;> simp [*]

theorem mem_ends_one {p : α → Bool} :
    y ∈ ends nl (.one p) x ↔ ∃ c s, x.2 = c :: s ∧ p c = true ∧ y = (x.1 + 1, s) := by
  rw [ends]
  cases x.2 with
  | nil => simp
  | cons c s => split <;> simp [*]

theorem mem_ends_seq {r s : Expr α} :
    y ∈ ends nl (.seq r s) x ↔ ∃ z ∈ ends nl r x, y ∈ ends nl s z :=
  List.mem_flatMap

theorem mem_ends_rep {lo hi : Nat} {r : Expr α} :
    y ∈ ends nl (.rep lo hi r) x ↔ ∃ n, lo ≤ n ∧ n ≤ hi ∧ Steps (ends nl r) n x y :=
  mem_repEnds

theorem mem_ends_opt {r : Expr α} :
    y ∈ ends nl (.rep 0 1 r) x ↔ y = x ∨ y ∈ ends nl r x := by
  rw [mem_ends_rep]
  constructor
  · rintro ⟨n, -, hn, hsteps⟩
    rcases Nat.le_one_iff_eq_zero_or_eq_one.mp hn with rfl | rfl
    · exact .inl hsteps
    · obtain ⟨z, hz, rfl⟩ := hsteps
      exact .inr hz
  · rintro (rfl | hy)
    · exact ⟨0, by omega, by omega, rfl⟩
    · exact ⟨1, by omega, by omega, y, hy, rfl⟩

theorem steps_one {p : α → Bool} {n : Nat} :
    Steps (ends nl (.one p)) n x y ↔
      ∃ w s, x.2 = w ++ s ∧ w.length = n ∧ (∀ c ∈ w, p c = true) ∧ y = (x.1 + n, s) := by
  induction n generalizing x with
  | zero =>
      constructor
      · intro h
        exact ⟨[], x.2, rfl, rfl, fun c hc => absurd hc List.not_mem_nil, h⟩
      · rintro ⟨w, s, hx, hw, -, rfl⟩
        rw [List.eq_nil_of_length_eq_zero hw] at hx
        exact Prod.ext rfl hx.symm
  | succ n ih =>
      constructor
      · rintro ⟨z, hz, hsteps⟩
        obtain ⟨c, t, hx, hc, rfl⟩ := mem_ends_one.mp hz
        obtain ⟨w, s, ht, hw, hp, rfl⟩ := ih.mp hsteps
        refine ⟨c :: w, s, ?_, by rw [List.length_cons, hw],
          List.forall_mem_cons.mpr ⟨hc, hp⟩, ?_⟩
        · rw [hx]
          exact congrArg (c :: ·) ht
        · rw [Nat.add_assoc, Nat.add_comm 1]
      · rintro ⟨w, s, hx, hw, hp, rfl⟩
        obtain ⟨c, w, rfl⟩ := List.exists_cons_of_length_eq_add_one hw
        obtain ⟨hc, hp⟩ := List.forall_mem_cons.mp hp
        refine ⟨(x.1 + 1, w ++ s), mem_ends_one.mpr ⟨c, w ++ s, hx, hc, rfl⟩, ih.mpr ?_⟩
        exact ⟨w, s, rfl, Nat.succ.inj hw, hp, by rw [Nat.add_assoc, Nat.add_comm 1]⟩

theorem mem_ends_rep_one {lo hi : Nat} {p : α → Bool} :
    y ∈ ends nl (.rep lo hi (.one p)) x ↔
      ∃ w s, x.2 = w ++ s ∧ (lo ≤ w.length ∧ w.length ≤ hi) ∧ (∀ c ∈ w, p c = true) ∧
        y = (x.1 + w.length, s) := by
  rw [mem_ends_rep]
  constructor
  · rintro ⟨n, hlo, hhi, hsteps⟩
    obtain ⟨w, s, hx, rfl, hp, hy⟩ := steps_one.mp hsteps
    exact ⟨w, s, hx, ⟨hlo, hhi⟩, hp, hy⟩
  · rintro ⟨w, s, hx, ⟨hlo, hhi⟩, hp, hy⟩
    exact ⟨w.length, hlo, hhi, steps_one.mpr ⟨w, s, hx, rfl, hp, hy⟩⟩

theorem matches_iff {r : Expr α} {s : List α} :
    r.matches nl s = true ↔ ∃ y, y ∈ ends nl r (0, s) := by
  rw [Expr.matches, decide_eq_true_eq, List.isEmpty_eq_false_iff_exists_mem]

end FreedosMicroPython.Lib.Regex
