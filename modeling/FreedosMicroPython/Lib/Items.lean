import Mathlib.Data.List.Basic
/-!
# Lists that are read item by item

Items are read off the front of a list until none stands there. How the list divides into
items is unique, and a reader that steps from item to item has gone through exactly them.
-/

namespace FreedosMicroPython.Lib.Items

variable {α ι σ ρ : Type}

/-- The items of a list: each is one piece of it, `Plain` are those that occur, and `Stops` are the
lists with something else at the front. -/
structure Grammar (α ι : Type) where
  render : ι → List α
  Plain : ι → Prop
  Stops : List α → Prop
  render_ne_nil : ∀ {i}, Plain i → render i ≠ []
  cut : ∀ xs, xs = [] ∨ Stops xs ∨ ∃ i rest, Plain i ∧ xs = render i ++ rest
  render_inj : ∀ {i j xs ys}, Plain i → Plain j → render i ++ xs = render j ++ ys → i = j
  not_stops : ∀ {i xs}, Plain i → ¬ Stops (render i ++ xs)
  not_stops_nil : ¬ Stops []

namespace Grammar

variable (items : Grammar α ι)

/-- `xs` are these items, and behind them comes its end or something else. -/
structure Divides (xs : List α) (is : List ι) (tail : List α) : Prop where
  eq : xs = is.flatMap items.render ++ tail
  plain : ∀ i ∈ is, items.Plain i
  tail : tail = [] ∨ items.Stops tail

variable {items} {xs tail tail' : List α} {i : ι} {is js : List ι}

theorem Divides.cons (h : items.Divides xs is tail) (hi : items.Plain i) :
    items.Divides (items.render i ++ xs) (i :: is) tail where
  eq := by
    rw [List.flatMap_cons, List.append_assoc, h.eq]
  plain := List.forall_mem_cons.mpr ⟨hi, h.plain⟩
  tail := h.tail

variable (items xs) in
theorem exists_divides : ∃ is tail, items.Divides xs is tail := by
  induction hn : xs.length using Nat.strongRecOn generalizing xs with
  | _ n ih =>
      obtain rfl | hstops | ⟨i, rest, hi, rfl⟩ := items.cut xs
      · exact ⟨[], [], rfl, by simp, .inl rfl⟩
      · exact ⟨[], xs, rfl, by simp, .inr hstops⟩
      · have hpos : 0 < (items.render i).length := List.length_pos_iff.mpr (items.render_ne_nil hi)
        have hlt : rest.length < n := by
          rw [List.length_append] at hn
          omega
        obtain ⟨is, tail, hdivides⟩ := ih rest.length hlt rest rfl
        exact ⟨i :: is, tail, hdivides.cons hi⟩

theorem Divides.not_item (h : tail = [] ∨ items.Stops tail) (hi : items.Plain i) :
    tail ≠ items.render i ++ xs := by
  rintro rfl
  obtain hnil | hstops := h
  · exact items.render_ne_nil hi (List.append_eq_nil_iff.mp hnil).1
  · exact items.not_stops hi hstops

theorem Divides.unique (h : items.Divides xs is tail) (h' : items.Divides xs js tail') :
    is = js ∧ tail = tail' := by
  induction is generalizing xs js with
  | nil =>
      cases js with
      | nil => exact ⟨rfl, h.eq.symm.trans h'.eq⟩
      | cons j js =>
          have heq' := h'.eq
          rw [List.flatMap_cons, List.append_assoc] at heq'
          exact absurd (h.eq.symm.trans heq')
            (Divides.not_item h.tail (h'.plain j List.mem_cons_self))
  | cons i is ih =>
      have hi := h.plain i List.mem_cons_self
      have heq := h.eq
      rw [List.flatMap_cons, List.append_assoc] at heq
      cases js with
      | nil => exact absurd (h'.eq.symm.trans heq) (Divides.not_item h'.tail hi)
      | cons j js =>
          have heq' := h'.eq
          rw [List.flatMap_cons, List.append_assoc] at heq'
          obtain rfl := items.render_inj hi (h'.plain j List.mem_cons_self) (heq.symm.trans heq')
          have hrest : is.flatMap items.render ++ tail = js.flatMap items.render ++ tail' :=
            List.append_cancel_left (heq.symm.trans heq')
          have hfront : items.Divides (is.flatMap items.render ++ tail) is tail :=
            ⟨rfl, fun k hk => h.plain k (List.mem_cons_of_mem i hk), h.tail⟩
          obtain ⟨rfl, rfl⟩ := ih hfront
            ⟨hrest, fun k hk => h'.plain k (List.mem_cons_of_mem i hk), h'.tail⟩
          exact ⟨rfl, rfl⟩

/-- A reader that takes a step for each item has come to the tail. -/
theorem Divides.run {read : σ → List α → ρ} {step : σ → ι → σ}
    (hstep : ∀ s i rest, items.Plain i → read s (items.render i ++ rest) = read (step s i) rest)
    (h : items.Divides xs is tail) (s : σ) : read s xs = read (is.foldl step s) tail := by
  induction is generalizing xs s with
  | nil =>
      rw [h.eq]
      rfl
  | cons i is ih =>
      have hi := h.plain i List.mem_cons_self
      rw [h.eq, List.flatMap_cons, List.append_assoc, hstep s i _ hi]
      exact ih ⟨rfl, fun k hk => h.plain k (List.mem_cons_of_mem i hk), h.tail⟩ (step s i)

end Grammar

end FreedosMicroPython.Lib.Items
