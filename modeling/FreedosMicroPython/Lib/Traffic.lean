import FreedosMicroPython.Lib.Memory
/-!
# A memory shared with a second writer

A second writer keeps dropping *bursts*, blocks that overwrite the memory from
address 0 on, while a block is staged cell by cell and later fetched cell by
cell. `transfer_eq_iff` says exactly when the block survives: for each of its
cells, the last burst that reaches the cell between the moment it is staged and
the moment it is fetched carries the cell that was staged.
-/

namespace FreedosMicroPython.Lib.Traffic

open FreedosMicroPython.Lib.Memory

variable {α : Type}

def strikes (m : Mem α) (fs : List (List α)) : Mem α :=
  fs.foldl (fun m f => blit m 0 f) m

/-- What the last of the bursts `fs` that reaches address `a` leaves there. -/
def lastCover : List (List α) → Nat → Option α
  | [], _ => none
  | f :: fs, a => (lastCover fs a).or f[a]?

theorem lastCover_append (fs gs : List (List α)) (a : Nat) :
    lastCover (fs ++ gs) a = (lastCover gs a).or (lastCover fs a) := by
  induction fs with
  | nil => simp [lastCover]
  | cons f fs ih => simp [lastCover, ih, Option.or_assoc]

@[simp] theorem strikes_nil (m : Mem α) : strikes m [] = m := rfl

theorem strikes_apply (m : Mem α) (fs : List (List α)) (a : Nat) :
    strikes m fs a = (lastCover fs a).getD (m a) := by
  induction fs generalizing m with
  | nil => rfl
  | cons f fs ih =>
      change strikes (blit m 0 f) fs a = _
      rw [ih, lastCover]
      cases lastCover fs a <;> simp [blit]

def bursts (hits : Nat → List (List α)) (i n : Nat) : List (List α) :=
  (List.range' i n).flatMap hits

@[simp] theorem bursts_zero (hits : Nat → List (List α)) (i : Nat) :
    bursts hits i 0 = [] := rfl

theorem bursts_succ (hits : Nat → List (List α)) (i n : Nat) :
    bursts hits i (n + 1) = hits i ++ bursts hits (i + 1) n := by
  simp [bursts, List.range'_succ]

/-! ## Staging a block -/

/-- Store the cells of a block one by one at `off + i`, `off + i + 1`, …; the
bursts `hits k` strike just before cell `k` is stored. -/
def stage (hits : Nat → List (List α)) (off : Nat) : Nat → List α → Mem α → Mem α
  | _, [], m => m
  | i, b :: bs, m => stage hits off (i + 1) bs (blit (strikes m (hits i)) (off + i) [b])

theorem stage_outside (hits : Nat → List (List α)) (off : Nat) {i a : Nat}
    (bs : List α) (m : Mem α) (h : a < off + i ∨ off + i + bs.length ≤ a) :
    stage hits off i bs m a = (lastCover (bursts hits i bs.length) a).getD (m a) := by
  induction bs generalizing i m with
  | nil => simp [stage, lastCover]
  | cons b bs ih =>
      simp only [List.length_cons] at h
      have hblit : blit (strikes m (hits i)) (off + i) [b] a = strikes m (hits i) a := by
        rcases h with h | h
        · exact blit_of_lt _ _ h
        · exact blit_of_le _ (by simp only [List.length_singleton]; omega)
      rw [stage, ih _ (by omega), hblit, strikes_apply, List.length_cons, bursts_succ,
        lastCover_append]
      cases lastCover (bursts hits (i + 1) bs.length) a <;> rfl

theorem stage_inside (hits : Nat → List (List α)) (off i : Nat) {bs : List α}
    (m : Mem α) {j : Nat} (hj : j < bs.length) :
    stage hits off i bs m (off + i + j) =
      (lastCover (bursts hits (i + j + 1) (bs.length - (j + 1))) (off + i + j)).getD bs[j] := by
  induction bs generalizing i j m with
  | nil => simp at hj
  | cons b bs ih =>
      cases j with
      | zero =>
          rw [stage, stage_outside _ _ _ _ (by omega)]
          simp [blit]
      | succ j =>
          simp only [List.length_cons, Nat.add_lt_add_iff_right] at hj
          have hnext := ih (i + 1) (blit (strikes m (hits i)) (off + i) [b]) hj
          rw [stage, show off + i + (j + 1) = off + (i + 1) + j by omega, hnext]
          simp only [List.length_cons, List.getElem_cons_succ, Nat.add_sub_add_right,
            show i + 1 + j + 1 = i + (j + 1) + 1 by omega]

/-! ## Fetching a block -/

/-- Read `n` cells one by one from `off + i` on; the bursts `hits k` strike
just before cell `k` is read. -/
def fetch (hits : Nat → List (List α)) (off : Nat) : Nat → Nat → Mem α → List α × Mem α
  | _, 0, m => ([], m)
  | i, n + 1, m =>
      let m' := strikes m (hits i)
      let rest := fetch hits off (i + 1) n m'
      (m' (off + i) :: rest.1, rest.2)

/-- Read cells one by one until one satisfies `stop`, at most `fuel` of them. -/
def fetchUntil (stop : α → Bool) (hits : Nat → List (List α)) (off : Nat) :
    Nat → Nat → Mem α → List α × Mem α
  | _, 0, m => ([], m)
  | i, fuel + 1, m =>
      let m' := strikes m (hits i)
      if stop (m' (off + i)) then ([m' (off + i)], m')
      else
        let rest := fetchUntil stop hits off (i + 1) fuel m'
        (m' (off + i) :: rest.1, rest.2)

@[simp] theorem length_fetch (hits : Nat → List (List α)) (off i n : Nat) (m : Mem α) :
    (fetch hits off i n m).1.length = n := by
  induction n generalizing i m with
  | zero => rfl
  | succ n ih => simp [fetch, ih]

theorem getElem?_fetch (hits : Nat → List (List α)) (off i : Nat) {n j : Nat}
    (m : Mem α) (hj : j < n) :
    (fetch hits off i n m).1[j]? =
      some ((lastCover (bursts hits i (j + 1)) (off + i + j)).getD (m (off + i + j))) := by
  induction n generalizing i j m with
  | zero => omega
  | succ n ih =>
      cases j with
      | zero => simp [fetch, bursts_succ, strikes_apply]
      | succ j =>
          have hnext := ih (i + 1) (strikes m (hits i)) (Nat.lt_of_succ_lt_succ hj)
          simp only [fetch, List.getElem?_cons_succ]
          rw [hnext, bursts_succ hits i, lastCover_append, strikes_apply,
            show off + (i + 1) + j = off + i + (j + 1) by omega]
          cases lastCover (bursts hits (i + 1) (j + 1)) (off + i + (j + 1)) <;> rfl

/-- Reading up to a terminator sees the terminated block exactly when reading
its length does. -/
theorem fetchUntil_eq_iff {stop : α → Bool} (hits : Nat → List (List α)) (off : Nat)
    {i fuel : Nat} {bs : List α} {z : α} (m : Mem α)
    (hbs : ∀ b ∈ bs, stop b = false) (hz : stop z = true) (hfuel : bs.length < fuel) :
    (fetchUntil stop hits off i fuel m).1 = bs ++ [z] ↔
      (fetch hits off i (bs ++ [z]).length m).1 = bs ++ [z] := by
  induction bs generalizing i fuel m with
  | nil =>
      cases fuel with
      | zero => simp at hfuel
      | succ fuel =>
          simp only [fetchUntil, fetch, List.nil_append, List.length_singleton]
          split
          · rfl
          · rename_i hstop
            simp only [List.cons.injEq, and_true]
            constructor
            · rintro ⟨heq, -⟩
              exact heq
            · intro heq
              rw [heq] at hstop
              exact absurd hz hstop
  | cons b bs ih =>
      cases fuel with
      | zero => simp at hfuel
      | succ fuel =>
          have hb : stop b = false := hbs b (by simp)
          have hnext := ih (i := i + 1) (strikes m (hits i))
            (fun c hc => hbs c (by simp [hc])) (by simpa using hfuel)
          simp only [fetchUntil, fetch, List.cons_append, List.length_cons]
          split
          · rename_i hstop
            have hne : strikes m (hits i) (off + i) ≠ b := by
              rintro rfl
              simp [hb] at hstop
            simp [hne]
          · simp only [List.cons.injEq, hnext]

theorem fetch_quiet (off i n : Nat) (m : Mem α) :
    fetch (fun _ => []) off i n m = (slice m (off + i) n, m) := by
  induction n generalizing i with
  | zero => rfl
  | succ n ih => simp only [fetch, strikes_nil, ih, slice_succ, Nat.add_assoc]

/-! ## Staging, waiting and fetching -/

/-- The bursts between the moment cell `j` of a block of `n` cells is staged
(schedule `w`), the pause `gap` and the moment it is fetched (schedule `r`). -/
def after (w : Nat → List (List α)) (gap : List (List α)) (r : Nat → List (List α))
    (n j : Nat) : List (List α) :=
  bursts w (j + 1) (n - (j + 1)) ++ gap ++ bursts r 0 (j + 1)

/-- No burst leaves a cell of the block `bs` at `off` with a wrong content. -/
def Undisturbed (w : Nat → List (List α)) (gap : List (List α)) (r : Nat → List (List α))
    (off : Nat) (bs : List α) : Prop :=
  ∀ j, (hj : j < bs.length) → ∀ b ∈ lastCover (after w gap r bs.length j) (off + j), b = bs[j]

theorem transfer_eq_iff (w : Nat → List (List α)) (gap : List (List α))
    (r : Nat → List (List α)) (off : Nat) (bs : List α) (m : Mem α) :
    (fetch r off 0 bs.length (strikes (stage w off 0 bs m) gap)).1 = bs ↔
      Undisturbed w gap r off bs := by
  have hcell : ∀ j (hj : j < bs.length),
      (fetch r off 0 bs.length (strikes (stage w off 0 bs m) gap)).1[j]? =
        some ((lastCover (after w gap r bs.length j) (off + j)).getD bs[j]) := by
    intro j hj
    have hstage := stage_inside w off 0 m hj
    have hfetch := getElem?_fetch r off 0 (strikes (stage w off 0 bs m) gap) hj
    simp only [Nat.add_zero, Nat.zero_add] at hstage hfetch
    rw [hfetch, strikes_apply, hstage, after, lastCover_append, lastCover_append]
    cases lastCover (bursts r 0 (j + 1)) (off + j) <;> cases lastCover gap (off + j) <;> rfl
  constructor
  · intro heq j hj b hb
    have h := hcell j hj
    rw [heq, List.getElem?_eq_getElem hj, Option.mem_def.mp hb] at h
    exact (Option.some.inj h).symm
  · intro hclean
    apply List.ext_getElem?
    intro j
    by_cases hj : j < bs.length
    · rw [hcell j hj, List.getElem?_eq_getElem hj]
      cases hlast : lastCover (after w gap r bs.length j) (off + j) with
      | none => rfl
      | some b => rw [Option.getD_some, hclean j hj b hlast]
    · rw [List.getElem?_eq_none (by simpa using hj), List.getElem?_eq_none (by omega)]

end FreedosMicroPython.Lib.Traffic
