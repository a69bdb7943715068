import Mathlib.Tactic.Common
/-!
# Actions with exceptions

An action ends in a value or an exception or does not come back, and leaves a state in
every case. What a sequence, `try … finally` and `try … except` do, with a rule for each:
triples, whose postcondition sees how the action ended, and relations between two runs.
-/

namespace FreedosMicroPython.Lib.Action

variable {ε σ α β : Type}

/-- How an action ends; `stuck` is in a call that does not come back. -/
inductive End (ε α : Type) where
  | value (x : α)
  | raised (e : ε)
  | stuck
  deriving DecidableEq, Repr

def Act (ε σ α : Type) : Type := σ → End ε α × σ

def andThen (a : Act ε σ α) (f : α → Act ε σ β) : Act ε σ β := fun s =>
  match a s with
  | (.value x, s) => f x s
  | (.raised e, s) => (.raised e, s)
  | (.stuck, s) => (.stuck, s)

instance : Monad (Act ε σ) where
  pure x := fun s => (.value x, s)
  bind := andThen

def raise (e : ε) : Act ε σ α := fun s => (.raised e, s)

def modify (f : σ → σ) : Act ε σ Unit := fun s => (.value (), f s)

def reads (f : σ → α) : Act ε σ α := fun s => (.value (f s), s)

/-- `try: body finally: final`; an exception of `final` replaces what `body` ended in. -/
def tryFinally (body : Act ε σ α) (final : Act ε σ Unit) : Act ε σ α := fun s =>
  match body s with
  | (.stuck, s) => (.stuck, s)
  | (r, s) =>
      match final s with
      | (.value _, s) => (r, s)
      | (.raised e, s) => (.raised e, s)
      | (.stuck, s) => (.stuck, s)

/-- `try: body except …`, with what is done about the exceptions that are caught. -/
def tryExcept (body : Act ε σ α) (handler : ε → Option (Act ε σ α)) : Act ε σ α :=
  fun s =>
    match body s with
    | (.raised e, s) =>
        match handler e with
        | some h => h s
        | none => (.raised e, s)
    | (r, s) => (r, s)

/-! ## Triples -/

/-- From a state with `P` the action ends, in whatever way, with `Q`. -/
def Triple (P : σ → Prop) (a : Act ε σ α) (Q : End ε α → σ → Prop) : Prop :=
  ∀ s, P s → Q (a s).1 (a s).2

variable {P P' : σ → Prop} {Q Q' : End ε α → σ → Prop} {R : End ε β → σ → Prop}
  {a : Act ε σ α} {f : α → Act ε σ β}

theorem Triple.weaken (h : Triple P a Q) (hpre : ∀ s, P' s → P s)
    (hpost : ∀ r s, Q r s → Q' r s) : Triple P' a Q' :=
  fun s hs => hpost _ _ (h s (hpre s hs))

theorem Triple.post (h : Triple P a Q) (hpost : ∀ r s, Q r s → Q' r s) : Triple P a Q' :=
  h.weaken (fun _ hs => hs) hpost

theorem Triple.pre (h : Triple P a Q) (hpre : ∀ s, P' s → P s) : Triple P' a Q :=
  h.weaken hpre fun _ _ hs => hs

theorem triple_of_fact {φ : Prop} (hP : ∀ s, P s → φ) (h : φ → Triple P a Q) : Triple P a Q :=
  fun s hs => h (hP s hs) s hs

theorem triple_pure {x : α} (h : ∀ s, P s → Q (.value x) s) : Triple P (pure x) Q := h

theorem triple_raise {e : ε} (h : ∀ s, P s → Q (.raised e) s) : Triple P (raise e) Q := h

theorem triple_modify {g : σ → σ} {Q : End ε Unit → σ → Prop}
    (h : ∀ s, P s → Q (.value ()) (g s)) : Triple P (modify g) Q := h

theorem triple_reads {g : σ → α} (h : ∀ s, P s → Q (.value (g s)) s) : Triple P (reads g) Q := h

/-- A sequence goes on from the values of its first part; every other end is its end. -/
theorem Triple.bind (ha : Triple P a Q) (hf : ∀ x, Triple (Q (.value x)) (f x) R)
    (hraise : ∀ e s, Q (.raised e) s → R (.raised e) s)
    (hstuck : ∀ s, Q .stuck s → R .stuck s) : Triple P (a >>= f) R := by
  intro s hs
  have h := ha s hs
  change R (andThen a f s).1 (andThen a f s).2
  unfold andThen
  rcases hcall : a s with ⟨x | e | _, s'⟩ <;> rw [hcall] at h
  · exact hf x s' h
  · exact hraise e s' h
  · exact hstuck s' h

/-- The last action runs unless the first one is stuck. -/
theorem Triple.finally {final : Act ε σ Unit} (ha : Triple P a Q)
    (hstuck : ∀ s, Q .stuck s → Q' .stuck s)
    (hfinal : ∀ r, r ≠ .stuck → Triple (Q r) final fun r' s =>
      match r' with
      | .value _ => Q' r s
      | .raised e => Q' (.raised e) s
      | .stuck => Q' .stuck s) : Triple P (tryFinally a final) Q' := by
  intro s hs
  have h := ha s hs
  unfold tryFinally
  rcases hcall : a s with ⟨x | e | _, s'⟩ <;> rw [hcall] at h
  · have h' := hfinal (.value x) (by simp) s' h
    rcases hcall' : final s' with ⟨u | e | _, s''⟩ <;> rw [hcall'] at h' <;>
      simpa only [hcall'] using h'
  · have h' := hfinal (.raised e) (by simp) s' h
    rcases hcall' : final s' with ⟨u | e | _, s''⟩ <;> rw [hcall'] at h' <;>
      simpa only [hcall'] using h'
  · exact hstuck s' h

/-- A handler goes on from the exceptions it takes. -/
theorem Triple.except {handler : ε → Option (Act ε σ α)} (ha : Triple P a Q)
    (hpass : ∀ r s, (∀ e, r = .raised e → handler e = none) → Q r s → Q' r s)
    (hcatch : ∀ e h, handler e = some h → Triple (Q (.raised e)) h Q') :
    Triple P (tryExcept a handler) Q' := by
  intro s hs
  have h := ha s hs
  unfold tryExcept
  rcases hcall : a s with ⟨x | e | _, s'⟩ <;> rw [hcall] at h
  · exact hpass _ s' (by simp) h
  · simp only
    cases hh : handler e with
    | none => exact hpass _ s' (by simpa using hh) h
    | some b => exact hcatch e b hh s' h
  · exact hpass _ s' (by simp) h

/-! ## Invariants -/

def Keeps (I : σ → Prop) (a : Act ε σ α) : Prop := Triple I a fun _ => I

variable {I : σ → Prop}

theorem keeps_pure (x : α) : Keeps I (pure x : Act ε σ α) := fun _ hs => hs

theorem keeps_raise (e : ε) : Keeps I (raise e : Act ε σ α) := fun _ hs => hs

theorem keeps_reads (g : σ → α) : Keeps I (reads g : Act ε σ α) := fun _ hs => hs

theorem keeps_modify {g : σ → σ} (h : ∀ s, I s → I (g s)) :
    Keeps I (modify g : Act ε σ Unit) := h

theorem Keeps.bind (ha : Keeps I a) (hf : ∀ x, Keeps I (f x)) : Keeps I (a >>= f) :=
  Triple.bind ha hf (fun _ _ hs => hs) fun _ hs => hs

theorem Keeps.finally {final : Act ε σ Unit} (ha : Keeps I a) (hfinal : Keeps I final) :
    Keeps I (tryFinally a final) := by
  refine Triple.finally ha (fun _ hs => hs) fun r _ => hfinal.post fun r' s hs => ?_
  cases r' <;> exact hs

theorem Keeps.except {handler : ε → Option (Act ε σ α)} (ha : Keeps I a)
    (hcatch : ∀ e h, handler e = some h → Keeps I h) : Keeps I (tryExcept a handler) :=
  Triple.except ha (fun _ _ _ hs => hs) hcatch

/-! ## Two runs -/

/-- Runs from related states end the same way, in related states. -/
def Respects (rel : σ → σ → Prop) (a : Act ε σ α) : Prop :=
  ∀ s t, rel s t → (a s).1 = (a t).1 ∧ rel (a s).2 (a t).2

variable {rel : σ → σ → Prop}

theorem respects_pure (x : α) : Respects rel (pure x : Act ε σ α) := fun _ _ h => ⟨rfl, h⟩

theorem respects_raise (e : ε) : Respects rel (raise e : Act ε σ α) := fun _ _ h => ⟨rfl, h⟩

theorem respects_modify {g : σ → σ} (h : ∀ s t, rel s t → rel (g s) (g t)) :
    Respects rel (modify g : Act ε σ Unit) := fun s t hst => ⟨rfl, h s t hst⟩

theorem respects_reads {g : σ → α} (h : ∀ s t, rel s t → g s = g t) :
    Respects rel (reads g : Act ε σ α) :=
  fun s t hst => ⟨congrArg End.value (h s t hst), hst⟩

theorem Respects.bind (ha : Respects rel a) (hf : ∀ x, Respects rel (f x)) :
    Respects rel (a >>= f) := by
  intro s t hst
  obtain ⟨hresult, hrel⟩ := ha s t hst
  change (andThen a f s).1 = (andThen a f t).1 ∧ rel (andThen a f s).2 (andThen a f t).2
  unfold andThen
  rcases hs : a s with ⟨r, s'⟩
  rcases ht : a t with ⟨r', t'⟩
  rw [hs, ht] at hresult hrel
  obtain rfl : r = r' := hresult
  cases r with
  | value x => exact hf x s' t' hrel
  | raised e => exact ⟨rfl, hrel⟩
  | stuck => exact ⟨rfl, hrel⟩

theorem Respects.finally {final : Act ε σ Unit} (ha : Respects rel a)
    (hfinal : Respects rel final) : Respects rel (tryFinally a final) := by
  intro s t hst
  obtain ⟨hresult, hrel⟩ := ha s t hst
  unfold tryFinally
  rcases hs : a s with ⟨r, s'⟩
  rcases ht : a t with ⟨r', t'⟩
  rw [hs, ht] at hresult hrel
  obtain rfl : r = r' := hresult
  obtain ⟨hresult', hrel'⟩ := hfinal s' t' hrel
  rcases hs' : final s' with ⟨u, s''⟩
  rcases ht' : final t' with ⟨u', t''⟩
  rw [hs', ht'] at hresult' hrel'
  obtain rfl : u = u' := hresult'
  cases r <;> cases u <;> first | exact ⟨rfl, hrel⟩ | simpa only [hs', ht', true_and] using hrel'

theorem Respects.except {handler : ε → Option (Act ε σ α)} (ha : Respects rel a)
    (hcatch : ∀ e h, handler e = some h → Respects rel h) :
    Respects rel (tryExcept a handler) := by
  intro s t hst
  obtain ⟨hresult, hrel⟩ := ha s t hst
  unfold tryExcept
  rcases hs : a s with ⟨r, s'⟩
  rcases ht : a t with ⟨r', t'⟩
  rw [hs, ht] at hresult hrel
  obtain rfl : r = r' := hresult
  cases r with
  | value x => exact ⟨rfl, hrel⟩
  | stuck => exact ⟨rfl, hrel⟩
  | raised e =>
      simp only
      cases hh : handler e with
      | none => exact ⟨rfl, hrel⟩
      | some b => exact hcatch e b hh s' t' hrel

/-! ## Repetition -/

def untilFalse (body : α → Act ε σ Bool) : List α → Act ε σ Unit
  | [] => pure ()
  | x :: xs => do
      if ← body x then untilFalse body xs else pure ()

end FreedosMicroPython.Lib.Action
