import Mathlib.Tactic.Common
/-!
# Runs of a deterministic system

A system is a step function from a state and an event to the next state. `run`
plays a list of events; `Meets ok` says that every step of the run is taken in a
state, and by an event, that `ok` allows. `run_invariant` is the one induction
that the safety results of this development use.
-/

namespace FreedosMicroPython.Lib.Runs

variable {S E : Type} (step : S → E → S)

def run (s : S) (es : List E) : S := es.foldl step s

/-- Every step of the run from `s` satisfies `ok` in the state it is taken in. -/
def Meets (ok : S → E → Prop) : S → List E → Prop
  | _, [] => True
  | s, e :: es => ok s e ∧ Meets ok (step s e) es

instance decidableMeets {ok : S → E → Prop} [∀ s e, Decidable (ok s e)] :
    (s : S) → (es : List E) → Decidable (Meets step ok s es)
  | _, [] => .isTrue trivial
  | s, e :: es =>
      @instDecidableAnd _ _ _ (decidableMeets (step s e) es)

@[simp] theorem run_nil (s : S) : run step s [] = s := rfl

@[simp] theorem run_cons (s : S) (e : E) (es : List E) :
    run step s (e :: es) = run step (step s e) es := rfl

/-- The second part of an allowed run starts where the first one ends. -/
theorem meets_append {ok : S → E → Prop} {s : S} {es fs : List E} :
    Meets step ok s (es ++ fs) ↔ Meets step ok s es ∧ Meets step ok (run step s es) fs := by
  induction es generalizing s with
  | nil => simp [Meets]
  | cons e es ih => rw [List.cons_append, Meets, ih, run_cons, Meets, and_assoc]

theorem meets_of_forall {ok : S → E → Prop} (h : ∀ s e, ok s e) (s : S) (es : List E) :
    Meets step ok s es := by
  induction es generalizing s with
  | nil => exact trivial
  | cons e es ih => exact ⟨h s e, ih (step s e)⟩

/-- What every allowed step preserves holds after every run of allowed steps. -/
theorem run_invariant {ok : S → E → Prop} {inv : S → Prop}
    (hstep : ∀ s e, inv s → ok s e → inv (step s e)) {s : S} {es : List E}
    (hs : inv s) (hok : Meets step ok s es) : inv (run step s es) := by
  induction es generalizing s with
  | nil => exact hs
  | cons e es ih => exact ih (hstep s e hs hok.1) hok.2

/-! ## What a run emits -/

variable {A : Type} (emit : S → E → List A)

/-- What the steps of a run emit, in order. -/
def emitted : S → List E → List A
  | _, [] => []
  | s, e :: es => emit s e ++ emitted (step s e) es

theorem emitted_append (s : S) (es fs : List E) :
    emitted step emit s (es ++ fs) =
      emitted step emit s es ++ emitted step emit (run step s es) fs := by
  induction es generalizing s with
  | nil => rfl
  | cons e es ih => rw [List.cons_append, emitted, emitted, ih, run_cons, List.append_assoc]

/-- What holds of all that a step emits in a state with the invariant holds of all that a
run emits. -/
theorem forall_emitted {inv : S → Prop} {Q : A → Prop}
    (hstep : ∀ s e, inv s → inv (step s e)) (hemit : ∀ s e, inv s → ∀ a ∈ emit s e, Q a)
    {s : S} (hs : inv s) (es : List E) : ∀ a ∈ emitted step emit s es, Q a := by
  induction es generalizing s with
  | nil => simp [emitted]
  | cons e es ih =>
      intro a ha
      rcases List.mem_append.mp ha with ha | ha
      · exact hemit s e hs a ha
      · exact ih (hstep s e hs) a ha

/-- What a system holds and takes in, it gives out or still holds: if every step keeps to
that, so does a run, and the order is kept. -/
theorem held_append_emitted {ok : S → E → Prop} {inv : S → Prop} (held : S → List A)
    (ins outs : S → E → List A)
    (hstep : ∀ s e, inv s → ok s e →
      inv (step s e) ∧ held s ++ ins s e = outs s e ++ held (step s e))
    {s : S} {es : List E} (hs : inv s) (hok : Meets step ok s es) :
    held s ++ emitted step ins s es = emitted step outs s es ++ held (run step s es) := by
  induction es generalizing s with
  | nil => simp [emitted]
  | cons e es ih =>
      obtain ⟨hinv, hkept⟩ := hstep s e hs hok.1
      calc held s ++ emitted step ins s (e :: es)
          = held s ++ ins s e ++ emitted step ins (step s e) es := by
            rw [emitted, List.append_assoc]
        _ = outs s e ++ (held (step s e) ++ emitted step ins (step s e) es) := by
            rw [hkept, List.append_assoc]
        _ = emitted step outs s (e :: es) ++ held (run step s (e :: es)) := by
            rw [ih hinv hok.2, emitted, run_cons, List.append_assoc]

end FreedosMicroPython.Lib.Runs
