import Mathlib.Tactic.Common
/-!
# What a trace discloses

Two runs of a computation that appends to a trace, and the exact condition under
which their traces are equal. `Discloses f g P R` composes along `>>=`, and
`runs_disclose` carries it over a run of any length.
-/

namespace FreedosMicroPython.Lib.Disclosure

variable {β α α' γ γ' : Type}

/-! ## Traces that cannot be confused -/

/-- Equal traces that begin with `t` and with `t'` begin with the same part. -/
def Aligned (t t' : List β) : Prop := ∀ r r', t ++ r = t' ++ r' → t = t'

theorem aligned_of_length {t t' : List β} (h : t.length = t'.length) : Aligned t t' :=
  fun _ _ heq => (List.append_inj heq h).1

theorem aligned_self (t : List β) : Aligned t t := fun _ _ _ => rfl

theorem aligned_of_head_ne {b b' : β} (h : b ≠ b') (t t' : List β) :
    Aligned (b :: t) (b' :: t') := by
  intro r r' heq
  rw [List.cons_append, List.cons_append] at heq
  exact absurd (List.cons.inj heq).1 h

theorem Aligned.append_eq_iff {t t' u u' : List β} (h : Aligned t t') :
    t ++ u = t' ++ u' ↔ t = t' ∧ u = u' := by
  constructor
  · intro heq
    have ht := h u u' heq
    subst ht
    exact ⟨rfl, List.append_cancel_left heq⟩
  · rintro ⟨rfl, rfl⟩
    rfl

theorem Aligned.append {t t' u u' : List β} (h : Aligned t t') (hu : Aligned u u') :
    Aligned (t ++ u) (t' ++ u') := by
  intro r r' heq
  rw [List.append_assoc, List.append_assoc] at heq
  obtain ⟨rfl, hrest⟩ := h.append_eq_iff.mp heq
  rw [hu r r' hrest]

theorem Aligned.symm {t t' : List β} (h : Aligned t t') : Aligned t' t :=
  fun r r' heq => (h r' r heq.symm).symm

/-! ## Computations that append -/

/-- The result does not depend on the trace so far, which is only appended to. -/
def Appends (f : StateM (List β) α) : Prop := ∀ out, f out = ((f []).1, out ++ (f []).2)

theorem appends_pure (a : α) : Appends (pure a : StateM (List β) α) := by
  intro out
  exact Prod.ext rfl (List.append_nil out).symm

theorem Appends.bind {f : StateM (List β) α} {k : α → StateM (List β) γ} (hf : Appends f)
    (hk : Appends (k (f []).1)) : Appends (f >>= k) := by
  intro out
  have hrun : ∀ out, (f >>= k) out = k (f out).1 (f out).2 := fun _ => rfl
  rw [hrun, hrun, hf out, hk (out ++ (f []).2), hk (f []).2, List.append_assoc]

theorem Appends.bind_nil {f : StateM (List β) α} {k : α → StateM (List β) γ}
    (hk : Appends (k (f []).1)) :
    (f >>= k) [] = ((k (f []).1 []).1, (f []).2 ++ (k (f []).1 []).2) :=
  hk (f []).2

/-! ## Two runs -/

/-- The traces of `f` and `g` are equal exactly if `P`, and their results are related
by `R` in any case. -/
structure Discloses (f : StateM (List β) α) (g : StateM (List β) α') (P : Prop)
    (R : α → α' → Prop) : Prop where
  left : Appends f
  right : Appends g
  aligned : Aligned (f []).2 (g []).2
  traces : (f []).2 = (g []).2 ↔ P
  values : R (f []).1 (g []).1

theorem discloses_of_eq {f : StateM (List β) α} {g : StateM (List β) α'} {a : α} {a' : α'}
    {t t' : List β} {P : Prop} {R : α → α' → Prop} (hf : ∀ out, f out = (a, out ++ t))
    (hg : ∀ out, g out = (a', out ++ t')) (h : Aligned t t') (hP : t = t' ↔ P) (hR : R a a') :
    Discloses f g P R := by
  have hf' : f [] = (a, t) := hf []
  have hg' : g [] = (a', t') := hg []
  constructor
  · intro out
    rw [hf, hf']
  · intro out
    rw [hg, hg']
  · rwa [hf', hg']
  · rwa [hf', hg']
  · rwa [hf', hg']

theorem discloses_pure_of {a : α} {a' : α'} {P : Prop} {R : α → α' → Prop} (hP : P)
    (h : R a a') : Discloses (pure a : StateM (List β) α) (pure a' : StateM (List β) α') P R :=
  ⟨appends_pure a, appends_pure a', aligned_self [], iff_of_true rfl hP, h⟩

theorem discloses_pure {a : α} {a' : α'} {R : α → α' → Prop} (h : R a a') :
    Discloses (pure a : StateM (List β) α) (pure a' : StateM (List β) α') True R :=
  discloses_pure_of trivial h

theorem discloses_append {t t' : List β} (h : Aligned t t') :
    Discloses (modify (· ++ t) : StateM (List β) Unit) (modify (· ++ t')) (t = t')
      fun _ _ => True :=
  ⟨fun _ => rfl, fun _ => rfl, h, Iff.rfl, trivial⟩

theorem Discloses.congr {f : StateM (List β) α} {g : StateM (List β) α'} {P Q : Prop}
    {R S : α → α' → Prop} (h : Discloses f g P R) (hPQ : P ↔ Q) (hRS : ∀ a a', R a a' → S a a') :
    Discloses f g Q S :=
  ⟨h.left, h.right, h.aligned, h.traces.trans hPQ, hRS _ _ h.values⟩

theorem Discloses.bind {f : StateM (List β) α} {g : StateM (List β) α'} {P : Prop}
    {R : α → α' → Prop} {k : α → StateM (List β) γ} {k' : α' → StateM (List β) γ'}
    {Q : α → α' → Prop} {S : γ → γ' → Prop} (hf : Discloses f g P R)
    (hk : ∀ a a', R a a' → Discloses (k a) (k' a') (Q a a') S) :
    Discloses (f >>= k) (g >>= k') (P ∧ Q (f []).1 (g []).1) S := by
  have h := hk _ _ hf.values
  refine ⟨hf.left.bind h.left, hf.right.bind h.right, ?_, ?_, ?_⟩ <;>
    rw [h.left.bind_nil, h.right.bind_nil]
  · exact hf.aligned.append h.aligned
  · exact hf.aligned.append_eq_iff.trans (and_congr hf.traces h.traces)
  · exact h.values

theorem Discloses.symm {f : StateM (List β) α} {g : StateM (List β) α'} {P : Prop}
    {R : α → α' → Prop} (h : Discloses f g P R) : Discloses g f P fun a a' => R a' a :=
  ⟨h.right, h.left, h.aligned.symm, eq_comm.trans h.traces, h.values⟩

theorem Discloses.bind_right {f : StateM (List β) α} {g : StateM (List β) α'} {P : Prop}
    {R : α → α' → Prop} {k : α → StateM (List β) γ} {k' : α' → StateM (List β) γ'}
    {S : γ → γ' → Prop} (hf : Discloses f g True R)
    (hk : ∀ a a', R a a' → Discloses (k a) (k' a') P S) :
    Discloses (f >>= k) (g >>= k') P S :=
  (hf.bind hk).congr (iff_of_eq (true_and P)) fun _ _ h => h

theorem Discloses.bind_left {f : StateM (List β) α} {g : StateM (List β) α'} {P : Prop}
    {R : α → α' → Prop} {k : α → StateM (List β) γ} {k' : α' → StateM (List β) γ'}
    {S : γ → γ' → Prop} (hf : Discloses f g P R)
    (hk : ∀ a a', R a a' → Discloses (k a) (k' a') True S) :
    Discloses (f >>= k) (g >>= k') P S :=
  (hf.bind hk).congr (iff_of_eq (and_true P)) fun _ _ h => h

theorem Discloses.trace_eq_iff {f : StateM (List β) α} {g : StateM (List β) α'} {P : Prop}
    {R : α → α' → Prop} (h : Discloses f g P R) (out : List β) :
    (f out).2 = (g out).2 ↔ P := by
  rw [h.left out, h.right out, ← h.traces]
  exact List.append_right_inj out

/-! ## Runs -/

section
variable {W C D : Type} (step : W → C → StateM (List β) W) (disclosed : W → C → D)

def runs : W → List C → StateM (List β) W
  | w, [] => pure w
  | w, c :: cs => do
      let w ← step w c
      runs w cs

def disclosures : W → List C → List D
  | _, [] => []
  | w, c :: cs => disclosed w c :: disclosures (step w c []).1 cs

variable {step disclosed}

theorem runs_disclose {Agree : W → W → Prop} {Same : C → C → Prop}
    (hstep : ∀ w w' c c', Agree w w' → Same c c' →
      Discloses (step w c) (step w' c') (disclosed w c = disclosed w' c') Agree)
    {w w' : W} (hw : Agree w w') {cs cs' : List C} (hcs : List.Forall₂ Same cs cs') :
    Discloses (runs step w cs) (runs step w' cs')
      (disclosures step disclosed w cs = disclosures step disclosed w' cs') Agree := by
  induction hcs generalizing w w' with
  | nil => exact discloses_pure_of rfl hw
  | cons hc _ ih =>
      apply ((hstep _ _ _ _ hw hc).bind fun _ _ h => ih h).congr _ fun _ _ h => h
      exact List.cons_eq_cons.symm

end

end FreedosMicroPython.Lib.Disclosure
