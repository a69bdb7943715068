import Mathlib.Tactic.Common
/-!
# Runs with results

A system answers a command with a result and goes on in another state. Two systems
whose states stay related, and which give the same results while they are, cannot be
told apart by any sequence of commands.
-/

namespace FreedosMicroPython.Lib.Simulation

variable {S T C R : Type}

def play (step : S → C → R × S) : S → List C → List R × S
  | s, [] => ([], s)
  | s, c :: cs => ((step s c).1 :: (play step (step s c).2 cs).1, (play step (step s c).2 cs).2)

section
variable (step : S → C → R × S)

@[simp] theorem play_nil (s : S) : play step s [] = ([], s) := rfl

theorem play_cons (s : S) (c : C) (cs : List C) :
    play step s (c :: cs) =
      ((step s c).1 :: (play step (step s c).2 cs).1, (play step (step s c).2 cs).2) := rfl

end

/-- Every command keeps the relation, and answers the same on both sides. -/
structure Simulates (step : S → C → R × S) (spec : T → C → R × T) (rel : S → T → Prop) :
    Prop where
  result : ∀ s t c, rel s t → (step s c).1 = (spec t c).1
  related : ∀ s t c, rel s t → rel (step s c).2 (spec t c).2

/-- A simulated run gives the same results and ends related. -/
theorem Simulates.play {step : S → C → R × S} {spec : T → C → R × T} {rel : S → T → Prop}
    (h : Simulates step spec rel) {s : S} {t : T} (hst : rel s t) (cs : List C) :
    (play step s cs).1 = (play spec t cs).1 ∧ rel (play step s cs).2 (play spec t cs).2 := by
  induction cs generalizing s t with
  | nil => exact ⟨rfl, hst⟩
  | cons c cs ih =>
      obtain ⟨hresults, hrel⟩ := ih (h.related s t c hst)
      refine ⟨?_, hrel⟩
      rw [play_cons, play_cons, h.result s t c hst, hresults]

end FreedosMicroPython.Lib.Simulation
