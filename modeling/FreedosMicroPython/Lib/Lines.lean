import FreedosMicroPython.Lib.Find
/-!
# Line endings

A line of a text ends at a `cr` behind which an `lf` stands, or at one of the two alone.
`pairEnds` writes the pair for every `lf`, whether a `cr` stands in front of it or not, and leaves
a `cr` alone that no `lf` follows.
-/

namespace FreedosMicroPython.Lib.Lines

open FreedosMicroPython.Lib.Find

variable {α : Type} [DecidableEq α] (cr lf : α)

/-- The lines of a text; a `cr` in front of an `lf` belongs to the same end. -/
def lines : List α → List (List α)
  | [] => [[]]
  | c :: s =>
      if c = cr ∧ s.head? = some lf then lines s
      else if c = cr ∨ c = lf then [] :: lines s
      else (lines s).modifyHead (c :: ·)

def pairEnds : List α → List α
  | [] => []
  | c :: s =>
      if c = cr ∧ s.head? = some lf then pairEnds s
      else if c = lf then cr :: lf :: pairEnds s
      else c :: pairEnds s

def CrPaired (s : List α) : Prop :=
  ∀ front back, s = front ++ cr :: back → back.head? = some lf

def LfPaired (s : List α) : Prop :=
  ∀ front back, s = front ++ lf :: back → front.getLast? = some cr

variable {cr lf}

/-! ## The shapes of a text -/

theorem lines_cons (c : α) (s : List α) :
    lines cr lf (c :: s) =
      if c = cr ∧ s.head? = some lf then lines cr lf s
      else if c = cr ∨ c = lf then [] :: lines cr lf s
      else (lines cr lf s).modifyHead (c :: ·) := rfl

theorem pairEnds_step (c : α) (s : List α) :
    pairEnds cr lf (c :: s) =
      if c = cr ∧ s.head? = some lf then pairEnds cr lf s
      else if c = lf then cr :: lf :: pairEnds cr lf s
      else c :: pairEnds cr lf s := rfl

theorem lines_lf (h : cr ≠ lf) (s : List α) : lines cr lf (lf :: s) = [] :: lines cr lf s := by
  rw [lines_cons, if_neg (fun hc => h hc.1.symm), if_pos (.inr rfl)]

theorem lines_cr_lf {s : List α} (hs : s.head? = some lf) :
    lines cr lf (cr :: s) = lines cr lf s := by
  rw [lines_cons, if_pos ⟨rfl, hs⟩]

theorem lines_cr {s : List α} (hs : s.head? ≠ some lf) :
    lines cr lf (cr :: s) = [] :: lines cr lf s := by
  rw [lines_cons, if_neg (fun hc => hs hc.2), if_pos (.inl rfl)]

theorem pairEnds_lf (h : cr ≠ lf) (s : List α) :
    pairEnds cr lf (lf :: s) = cr :: lf :: pairEnds cr lf s := by
  rw [pairEnds_step, if_neg (fun hc => h hc.1.symm), if_pos rfl]

theorem pairEnds_cr_lf {s : List α} (hs : s.head? = some lf) :
    pairEnds cr lf (cr :: s) = pairEnds cr lf s := by
  rw [pairEnds_step, if_pos ⟨rfl, hs⟩]

theorem pairEnds_cons {c : α} {s : List α} (hc : c ≠ lf) (hs : c = cr → s.head? ≠ some lf) :
    pairEnds cr lf (c :: s) = c :: pairEnds cr lf s := by
  rw [pairEnds_step, if_neg (fun h => hs h.1 h.2), if_neg hc]

/-- Every text is empty, or begins with an `lf`, with a `cr` in front of an `lf`, or with a
character that belongs to no pair. -/
theorem text_induction (cr lf : α) {motive : List α → Prop} (nil : motive [])
    (feed : ∀ s, motive s → motive (lf :: s))
    (pair : ∀ s, s.head? = some lf → motive s → motive (cr :: s))
    (other : ∀ c s, c ≠ lf → (c = cr → s.head? ≠ some lf) → motive s → motive (c :: s)) :
    ∀ s, motive s
  | [] => nil
  | c :: s => by
      have ih := text_induction cr lf nil feed pair other s
      by_cases hc : c = lf
      · rw [hc]
        exact feed s ih
      · by_cases hpair : c = cr ∧ s.head? = some lf
        · rw [hpair.1]
          exact pair s hpair.2 ih
        · exact other c s hc (fun h hs => hpair ⟨h, hs⟩) ih

/-! ## The pairs -/

theorem head_pairEnds (h : cr ≠ lf) (s : List α) : (pairEnds cr lf s).head? ≠ some lf := by
  induction s using text_induction cr lf with
  | nil => simp [pairEnds]
  | feed s ih =>
      rw [pairEnds_lf h]
      simpa using h
  | pair s hs ih =>
      rw [pairEnds_cr_lf hs]
      exact ih
  | other c s hc hs ih =>
      rw [pairEnds_cons hc hs]
      simpa using hc

theorem pairEnds_pair (h : cr ≠ lf) (s : List α) :
    pairEnds cr lf (cr :: lf :: s) = cr :: lf :: pairEnds cr lf s := by
  rw [pairEnds_cr_lf rfl, pairEnds_lf h]

theorem pairEnds_pairEnds (h : cr ≠ lf) (s : List α) :
    pairEnds cr lf (pairEnds cr lf s) = pairEnds cr lf s := by
  induction s using text_induction cr lf with
  | nil => rfl
  | feed s ih => rw [pairEnds_lf h, pairEnds_pair h, ih]
  | pair s hs ih => rw [pairEnds_cr_lf hs, ih]
  | other c s hc hs ih =>
      rw [pairEnds_cons hc hs, pairEnds_cons hc fun _ => head_pairEnds h s, ih]

theorem lines_pairEnds (h : cr ≠ lf) (s : List α) :
    lines cr lf (pairEnds cr lf s) = lines cr lf s := by
  induction s using text_induction cr lf with
  | nil => rfl
  | feed s ih => rw [pairEnds_lf h, lines_cr_lf rfl, lines_lf h, lines_lf h, ih]
  | pair s hs ih => rw [pairEnds_cr_lf hs, lines_cr_lf hs, ih]
  | other c s hc hs ih =>
      rw [pairEnds_cons hc hs]
      by_cases hcr : c = cr
      · rw [hcr, lines_cr (head_pairEnds h s), lines_cr (hs hcr), ih]
      · rw [lines_cons, lines_cons, ih]
        simp [hcr, hc]

theorem count_pairEnds (h : cr ≠ lf) {c : α} (hcr : c ≠ cr) (hlf : c ≠ lf) (s : List α) :
    (pairEnds cr lf s).count c = s.count c := by
  induction s using text_induction cr lf with
  | nil => rfl
  | feed s ih =>
      rw [pairEnds_lf h, List.count_cons_of_ne hcr.symm, List.count_cons_of_ne hlf.symm,
        List.count_cons_of_ne hlf.symm, ih]
  | pair s hs ih => rw [pairEnds_cr_lf hs, List.count_cons_of_ne hcr.symm, ih]
  | other d s hd hs ih => rw [pairEnds_cons hd hs, List.count_cons, List.count_cons, ih]

theorem mem_pairEnds (h : cr ≠ lf) {c : α} (hcr : c ≠ cr) (hlf : c ≠ lf) {s : List α} :
    c ∈ pairEnds cr lf s ↔ c ∈ s := by
  rw [← List.count_pos_iff, count_pairEnds h hcr hlf, List.count_pos_iff]

/-! ## Complete pairs -/

omit [DecidableEq α] in
theorem crPaired_nil : CrPaired cr lf [] := by
  intro front back h
  cases front <;> cases h

omit [DecidableEq α] in
theorem crPaired_cons {c : α} {s : List α} :
    CrPaired cr lf (c :: s) ↔ (c = cr → s.head? = some lf) ∧ CrPaired cr lf s := by
  constructor
  · intro h
    refine ⟨fun hc => h [] s (by rw [hc]; rfl), fun front back hs => ?_⟩
    exact h (c :: front) back (by rw [hs]; rfl)
  · rintro ⟨hhead, hs⟩ front back h
    cases front with
    | nil =>
        obtain ⟨hc, hback⟩ := List.cons.inj h
        rw [← hback]
        exact hhead hc
    | cons d front => exact hs front back (List.cons.inj h).2

omit [DecidableEq α] in
theorem crPaired_append {front : List α} (h : cr ∉ front) (s : List α) :
    CrPaired cr lf (front ++ s) ↔ CrPaired cr lf s := by
  induction front with
  | nil => rfl
  | cons c front ih =>
      rw [List.mem_cons, not_or] at h
      rw [List.cons_append, crPaired_cons, ih h.2]
      exact and_iff_right fun hc => absurd hc.symm h.1

omit [DecidableEq α] in
theorem lfPaired_nil : LfPaired cr lf [] := by
  intro front back h
  cases front <;> cases h

omit [DecidableEq α] in
theorem LfPaired.cons {c : α} {s : List α} (h : LfPaired cr lf s) (hc : c ≠ lf) :
    LfPaired cr lf (c :: s) := by
  intro front back hs
  cases front with
  | nil => exact absurd (List.cons.inj hs).1 hc
  | cons d front =>
      rw [List.getLast?_cons, h front back (List.cons.inj hs).2]
      rfl

omit [DecidableEq α] in
theorem LfPaired.pair {s : List α} (h : LfPaired cr lf s) (hne : cr ≠ lf) :
    LfPaired cr lf (cr :: lf :: s) := by
  intro front back hs
  cases front with
  | nil => exact absurd (List.cons.inj hs).1 hne
  | cons c front =>
      obtain ⟨rfl, hrest⟩ := List.cons.inj hs
      cases front with
      | nil => rfl
      | cons d front =>
          rw [List.getLast?_cons, List.getLast?_cons, h front back (List.cons.inj hrest).2]
          rfl

theorem lfPaired_pairEnds (h : cr ≠ lf) (s : List α) : LfPaired cr lf (pairEnds cr lf s) := by
  induction s using text_induction cr lf with
  | nil => exact lfPaired_nil
  | feed s ih =>
      rw [pairEnds_lf h]
      exact ih.pair h
  | pair s hs ih =>
      rw [pairEnds_cr_lf hs]
      exact ih
  | other c s hc hs ih =>
      rw [pairEnds_cons hc hs]
      exact ih.cons hc

theorem crPaired_pairEnds (h : cr ≠ lf) (s : List α) :
    CrPaired cr lf (pairEnds cr lf s) ↔ CrPaired cr lf s := by
  induction s using text_induction cr lf with
  | nil => rfl
  | feed s ih =>
      rw [pairEnds_lf h, crPaired_cons, crPaired_cons, crPaired_cons, ih]
      simp [h.symm]
  | pair s hs ih =>
      rw [pairEnds_cr_lf hs, ih, crPaired_cons]
      simp [hs]
  | other c s hc hs ih =>
      rw [pairEnds_cons hc hs, crPaired_cons, crPaired_cons, ih]
      exact and_congr_left fun _ =>
        forall_congr' fun hcr => iff_of_false (head_pairEnds h s) (hs hcr)

/-! ## Under a map -/

section

variable {β : Type} {cr' lf' : β} {f : α → β}

omit [DecidableEq α] in
theorem crPaired_map (hcr : ∀ c, f c = cr' ↔ c = cr) (hlf : ∀ c, f c = lf' ↔ c = lf)
    (s : List α) : CrPaired cr' lf' (s.map f) ↔ CrPaired cr lf s := by
  induction s with
  | nil => exact iff_of_true crPaired_nil crPaired_nil
  | cons c s ih =>
      have hhead : (s.map f).head? = some lf' ↔ s.head? = some lf := by
        cases s with
        | nil => simp
        | cons d s => simpa using hlf d
      rw [List.map_cons, crPaired_cons, crPaired_cons, hcr, hhead, ih]

omit [DecidableEq α] in
theorem lfPaired_map (hcr : ∀ c, f c = cr' ↔ c = cr) (hlf : ∀ c, f c = lf' ↔ c = lf)
    (s : List α) : LfPaired cr' lf' (s.map f) ↔ LfPaired cr lf s := by
  constructor
  · intro h front back hs
    have hlast := h (front.map f) (back.map f) (by simp [hs, (hlf lf).mpr rfl])
    rw [List.getLast?_map] at hlast
    obtain ⟨c, hc, hfc⟩ := Option.map_eq_some_iff.mp hlast
    rw [hc, (hcr c).mp hfc]
  · intro h front back hs
    obtain ⟨front', rest, hsplit, rfl, hrest⟩ := List.map_eq_append_iff.mp hs
    obtain ⟨c, back', rfl, hc, rfl⟩ := List.map_eq_cons_iff.mp hrest
    rw [(hlf c).mp hc] at hsplit
    rw [List.getLast?_map, h front' back' hsplit, Option.map_some, (hcr cr).mpr rfl]

end

/-! ## The two replacements -/

theorem replace_replace (h : cr ≠ lf) (s : List α) :
    replace [lf] [cr, lf] (replace [cr, lf] [lf] s) = pairEnds cr lf s := by
  have hlf : ∀ t, replace [lf] [cr, lf] (lf :: t) = cr :: lf :: replace [lf] [cr, lf] t :=
    replace_append (List.cons_ne_nil lf []) [cr, lf]
  have hpair : ∀ t, replace [cr, lf] [lf] (cr :: lf :: t) = lf :: replace [cr, lf] [lf] t :=
    replace_append (List.cons_ne_nil cr [lf]) [lf]
  have hother : ∀ {c t}, (c = cr → t.head? ≠ some lf) →
      replace [cr, lf] [lf] (c :: t) = c :: replace [cr, lf] [lf] t := by
    intro c t ht
    apply replace_cons
    rintro ⟨u, hu⟩
    obtain ⟨hc, htail⟩ := List.cons.inj hu
    exact ht hc.symm (by rw [← htail]; rfl)
  induction s using text_induction cr lf with
  | nil => rfl
  | feed s ih => rw [hother fun hc => absurd hc h.symm, hlf, pairEnds_lf h, ih]
  | pair s hs ih =>
      obtain ⟨t, rfl⟩ : ∃ t, s = lf :: t := List.head?_eq_some_iff.mp hs
      rw [hother fun hc => absurd hc h.symm] at ih
      rw [hpair, pairEnds_cr_lf hs, ih]
  | other c s hc hs ih =>
      have hnot : ¬ [lf] <+: c :: replace [cr, lf] [lf] s :=
        fun hlf => hc (List.cons_prefix_cons.mp hlf).1.symm
      rw [hother hs, replace_cons hnot, pairEnds_cons hc hs, ih]

end FreedosMicroPython.Lib.Lines
