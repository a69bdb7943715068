import FreedosMicroPython.Lib.Action
/-!
# A ledger of blocks

Actions on a heap that may refuse a request. An action takes blocks and gives blocks out:
what it takes and does not give out it has freed, and when it raises, all of it. The rules
follow the action, and what else is allocated stays as it is.
-/

namespace FreedosMicroPython.Lib.Ledger

open FreedosMicroPython.Lib.Action

/-- A block goes by the number of the request that it was allocated for. `misused` is set when
something is done with a block that is not allocated. -/
structure Heap where
  grants : Nat → Bool
  requests : Nat
  live : List Nat
  misused : Bool

namespace Heap

def empty (grants : Nat → Bool) : Heap := ⟨grants, 0, [], false⟩

variable (h : Heap)

def hold : Heap := { h with requests := h.requests + 1, live := h.requests :: h.live }

def refuse : Heap := { h with requests := h.requests + 1 }

def touch (p : Nat) : Heap := { h with misused := h.misused || !h.live.contains p }

def free (p : Nat) : Heap := { h.touch p with live := h.live.erase p }

end Heap

/-! ## Actions -/

variable {ε τ α β : Type}

/-- `none` where the request is refused. -/
def malloc : Act ε (Heap × τ) (Option Nat) := fun s =>
  if s.1.grants s.1.requests then (.value (some s.1.requests), s.1.hold, s.2)
  else (.value none, s.1.refuse, s.2)

/-- A request that is always met. -/
def hold : Act ε (Heap × τ) Nat := fun s => (.value s.1.requests, s.1.hold, s.2)

def free (p : Nat) : Act ε (Heap × τ) Unit := fun s => (.value (), s.1.free p, s.2)

/-- A block is read or written. -/
def touch (p : Nat) : Act ε (Heap × τ) Unit := fun s => (.value (), s.1.touch p, s.2)

/-- Something that has nothing to do with the heap. -/
def beside (f : τ → τ) : Act ε (Heap × τ) Unit := fun s => (.value (), s.1, f s.2)

/-! ## What is allocated -/

/-- Exactly the blocks `xs` are allocated, and none was ever misused. -/
structure Holds (xs : List Nat) (h : Heap) : Prop where
  perm : h.live.Perm xs
  nodup : xs.Nodup
  bounded : ∀ p ∈ xs, p < h.requests
  sound : h.misused = false

theorem holds_empty (grants : Nat → Bool) : Holds [] (Heap.empty grants) :=
  ⟨.nil, .nil, nofun, rfl⟩

variable {h : Heap} {xs ys : List Nat} {p : Nat}

theorem Holds.of_perm (hh : Holds xs h) (hperm : xs.Perm ys) : Holds ys h where
  perm := hh.perm.trans hperm
  nodup := hperm.nodup_iff.mp hh.nodup
  bounded p hp := hh.bounded p (hperm.mem_iff.mpr hp)
  sound := hh.sound

theorem Holds.hold (hh : Holds xs h) : Holds (h.requests :: xs) h.hold where
  perm := hh.perm.cons _
  nodup := List.nodup_cons.mpr ⟨fun hp => Nat.lt_irrefl _ (hh.bounded _ hp), hh.nodup⟩
  bounded p hp := by
    rcases List.mem_cons.mp hp with rfl | hp
    · exact Nat.lt_succ_self _
    · exact Nat.lt_succ_of_lt (hh.bounded p hp)
  sound := hh.sound

theorem Holds.refuse (hh : Holds xs h) : Holds xs h.refuse :=
  { hh with bounded := fun p hp => Nat.lt_succ_of_lt (hh.bounded p hp) }

theorem Holds.touch (hh : Holds xs h) (hp : p ∈ xs) : Holds xs (h.touch p) := by
  have hlive : p ∈ h.live := hh.perm.mem_iff.mpr hp
  refine { hh with sound := ?_ }
  simp [Heap.touch, hh.sound, hlive]

theorem Holds.free (hh : Holds (p :: xs) h) : Holds xs (h.free p) where
  perm := by
    have herase := hh.perm.erase p
    rwa [List.erase_cons_head] at herase
  nodup := (List.nodup_cons.mp hh.nodup).2
  bounded q hq := hh.bounded q (List.mem_cons_of_mem _ hq)
  sound := (hh.touch List.mem_cons_self).sound

/-! ## What an action takes and gives out -/

/-- The action ended, and beside `xs` the blocks of its value are allocated, or none. -/
def Ends (outs : α → List Nat) (fact : α → Prop) (xs : List Nat) : End ε α → Heap × τ → Prop
  | .value x, s => Holds (outs x ++ xs) s.1 ∧ fact x
  | .raised _, s => Holds xs s.1
  | .stuck, _ => False

/-- While the caller has the blocks `kept`, the action takes the blocks `ins` and gives out those
of its value, of which `fact` holds; when it raises, it has freed all that it took. -/
def Takes (kept ins : List Nat) (a : Act ε (Heap × τ) α) (outs : α → List Nat)
    (fact : α → Prop) : Prop :=
  ∀ xs, kept ⊆ xs → Triple (fun s => Holds (ins ++ xs) s.1) a (Ends outs fact xs)

variable {kept ins : List Nat} {a : Act ε (Heap × τ) α} {f : α → Act ε (Heap × τ) β}
  {outs mid : α → List Nat} {fact mids : α → Prop} {outs' : β → List Nat} {fact' : β → Prop}

theorem takes_pure {x : α} (houts : outs x = ins) (hfact : fact x) :
    Takes kept ins (pure x : Act ε (Heap × τ) α) outs fact := by
  intro xs _
  refine triple_pure fun s hs => ⟨?_, hfact⟩
  rwa [houts]

theorem takes_raise (e : ε) : Takes kept [] (raise e : Act ε (Heap × τ) α) outs fact :=
  fun _ _ => triple_raise fun _ hs => hs

/-- What the first part gives out, the second one takes. -/
theorem Takes.bind (ha : Takes kept ins a mid mids)
    (hf : ∀ x, mids x → Takes kept (mid x) (f x) outs' fact') :
    Takes kept ins (a >>= f) outs' fact' := by
  intro xs hkept
  refine Triple.bind (ha xs hkept) ?_ (fun _ _ hs => hs) fun _ hs => hs
  exact fun x s hs => hf x hs.2 xs hkept s hs.1

theorem takes_malloc : Takes kept ins (malloc : Act ε (Heap × τ) (Option Nat))
    (fun r => r.toList ++ ins) fun _ => True := by
  intro xs _ s hs
  unfold malloc
  split
  · exact ⟨hs.hold, trivial⟩
  · exact ⟨hs.refuse, trivial⟩

theorem takes_hold :
    Takes kept ins (hold : Act ε (Heap × τ) Nat) (fun p => p :: ins) fun _ => True :=
  fun _ _ _ hs => ⟨hs.hold, trivial⟩

theorem takes_free (hperm : ins.Perm (p :: ys)) :
    Takes kept ins (free p : Act ε (Heap × τ) Unit) (fun _ => ys) fun _ => True :=
  fun xs _ _ hs => ⟨(hs.of_perm (hperm.append_right xs)).free, trivial⟩

theorem takes_touch (hp : p ∈ ins ∨ p ∈ kept) :
    Takes kept ins (touch p : Act ε (Heap × τ) Unit) (fun _ => ins) fun _ => True := by
  refine fun xs hkept _ hs => ⟨hs.touch (List.mem_append.mpr ?_), trivial⟩
  exact hp.imp_right fun hp => hkept hp

theorem takes_beside (g : τ → τ) :
    Takes kept ins (beside g : Act ε (Heap × τ) Unit) (fun _ => ins) fun _ => True :=
  fun _ _ _ hs => ⟨hs, trivial⟩

/-! ## What an action does -/

/-- With the blocks `ins` in hand and `t` beside the heap, the action ends as `Q` says about how it
ended, the blocks it has in hand then and what stands beside the heap then. What else is allocated
stays as it is. -/
def Does (ins : List Nat) (t : τ) (a : Act ε (Heap × τ) α) (Q : End ε α → List Nat → τ → Prop) :
    Prop :=
  ∀ xs, Triple (fun s => Holds (ins ++ xs) s.1 ∧ s.2 = t) a
    fun r s => ∃ ys, Holds (ys ++ xs) s.1 ∧ Q r ys s.2

section
variable {t : τ} {P Q Q' : End ε α → List Nat → τ → Prop} {R : End ε β → List Nat → τ → Prop}

theorem Does.post (h : Does ins t a Q) (hpost : ∀ r ys t', Q r ys t' → Q' r ys t') :
    Does ins t a Q' :=
  fun xs => (h xs).post fun r s ⟨ys, hys, hQ⟩ => ⟨ys, hys, hpost r ys s.2 hQ⟩

theorem does_pure {x : α} (h : Q (.value x) ins t) : Does ins t (pure x) Q := by
  intro xs
  refine triple_pure fun s ⟨hs, ht⟩ => ⟨ins, hs, ?_⟩
  rwa [ht]

theorem does_raise {e : ε} (h : Q (.raised e) ins t) : Does ins t (raise e) Q := by
  intro xs
  refine triple_raise fun s ⟨hs, ht⟩ => ⟨ins, hs, ?_⟩
  rwa [ht]

theorem does_hold {Q : End ε Nat → List Nat → τ → Prop}
    (h : ∀ p, Q (.value p) (p :: ins) t) : Does ins t hold Q := by
  rintro xs s ⟨hs, rfl⟩
  exact ⟨_ :: ins, hs.hold, h _⟩

theorem does_free {Q : End ε Unit → List Nat → τ → Prop} (h : Q (.value ()) ins t) :
    Does (p :: ins) t (free p) Q := by
  rintro xs s ⟨hs, rfl⟩
  exact ⟨ins, hs.free, h⟩

theorem does_touch {Q : End ε Unit → List Nat → τ → Prop} (hp : p ∈ ins)
    (h : Q (.value ()) ins t) : Does ins t (touch p) Q := by
  rintro xs s ⟨hs, rfl⟩
  exact ⟨ins, hs.touch (List.mem_append_left _ hp), h⟩

theorem does_beside {g : τ → τ} {Q : End ε Unit → List Nat → τ → Prop}
    (h : Q (.value ()) ins (g t)) : Does ins t (beside g) Q := by
  rintro xs s ⟨hs, rfl⟩
  exact ⟨ins, hs, h⟩

theorem Does.bind (ha : Does ins t a P)
    (hvalue : ∀ x ys t', P (.value x) ys t' → Does ys t' (f x) R)
    (hraise : ∀ e ys t', P (.raised e) ys t' → R (.raised e) ys t')
    (hstuck : ∀ ys t', P .stuck ys t' → R .stuck ys t') : Does ins t (a >>= f) R := by
  intro xs
  refine Triple.bind (ha xs) ?_ ?_ ?_
  · rintro x s ⟨ys, hys, hP⟩
    exact hvalue x ys s.2 hP xs s ⟨hys, rfl⟩
  · exact fun e s ⟨ys, hys, hP⟩ => ⟨ys, hys, hraise e ys s.2 hP⟩
  · exact fun s ⟨ys, hys, hP⟩ => ⟨ys, hys, hstuck ys s.2 hP⟩

theorem Does.finally {final : Act ε (Heap × τ) Unit} (ha : Does ins t a P)
    (hstuck : ∀ ys t', P .stuck ys t' → Q .stuck ys t')
    (hfinal : ∀ r ys t', r ≠ .stuck → P r ys t' → Does ys t' final fun r' ys t' =>
      match r' with
      | .value _ => Q r ys t'
      | .raised e => Q (.raised e) ys t'
      | .stuck => Q .stuck ys t') : Does ins t (tryFinally a final) Q := by
  intro xs
  refine Triple.finally (ha xs) (fun s ⟨ys, hys, hP⟩ => ⟨ys, hys, hstuck ys s.2 hP⟩) ?_
  rintro r hr s ⟨ys, hys, hP⟩
  obtain ⟨zs, hzs, hQ⟩ := hfinal r ys s.2 hr hP xs s ⟨hys, rfl⟩
  revert hQ
  cases (final s).1 with
  | value u => exact fun hQ => ⟨zs, hzs, hQ⟩
  | raised e => exact fun hQ => ⟨zs, hzs, hQ⟩
  | stuck => exact fun hQ => ⟨zs, hzs, hQ⟩

theorem Does.except {handler : ε → Option (Act ε (Heap × τ) α)} (ha : Does ins t a P)
    (hpass : ∀ r ys t', (∀ e, r = .raised e → handler e = none) → P r ys t' → Q r ys t')
    (hcatch : ∀ e g ys t', handler e = some g → P (.raised e) ys t' → Does ys t' g Q) :
    Does ins t (tryExcept a handler) Q := by
  intro xs
  refine Triple.except (ha xs) (fun r s hr ⟨ys, hys, hP⟩ => ⟨ys, hys, hpass r ys s.2 hr hP⟩) ?_
  rintro e g hg s ⟨ys, hys, hP⟩
  exact hcatch e g ys s.2 hg hP xs s ⟨hys, rfl⟩

/-! The rules for a step in front of the rest of an action. -/

theorem does_hold_bind {f : Nat → Act ε (Heap × τ) β} (h : ∀ p, Does (p :: ins) t (f p) R) :
    Does ins t (hold >>= f) R := by
  refine Does.bind (P := fun r ys t' => (∃ p, r = .value p ∧ ys = p :: ins) ∧ t' = t)
    (does_hold fun p => ⟨⟨p, rfl, rfl⟩, rfl⟩) ?_ ?_ ?_
  · rintro x ys t' ⟨⟨p, hp, rfl⟩, rfl⟩
    cases hp
    exact h x
  · rintro e ys t' ⟨⟨p, hp, -⟩, -⟩
    cases hp
  · rintro ys t' ⟨⟨p, hp, -⟩, -⟩
    cases hp

theorem Does.bind_value {S : List Nat → τ → Prop} {x : α}
    (ha : Does ins t a fun r ys t' => r = .value x ∧ S ys t')
    (h : ∀ ys t', S ys t' → Does ys t' (f x) R) : Does ins t (a >>= f) R := by
  refine Does.bind ha ?_ ?_ ?_
  · rintro y ys t' ⟨hy, hS⟩
    cases hy
    exact h ys t' hS
  · rintro e ys t' ⟨he, -⟩
    cases he
  · rintro ys t' ⟨hr, -⟩
    cases hr

theorem Does.bind_raised {S : List Nat → τ → Prop} {e : ε}
    (ha : Does ins t a fun r ys t' => r = .raised e ∧ S ys t')
    (h : ∀ ys t', S ys t' → R (.raised e) ys t') : Does ins t (a >>= f) R := by
  refine Does.bind ha ?_ ?_ ?_
  · rintro y ys t' ⟨hy, -⟩
    cases hy
  · rintro e' ys t' ⟨he, hS⟩
    cases he
    exact h ys t' hS
  · rintro ys t' ⟨hr, -⟩
    cases hr

theorem Does.except_caught {S : List Nat → τ → Prop} {e : ε} {g : Act ε (Heap × τ) α}
    {handler : ε → Option (Act ε (Heap × τ) α)}
    (ha : Does ins t a fun r ys t' => r = .raised e ∧ S ys t') (hg : handler e = some g)
    (h : ∀ ys t', S ys t' → Does ys t' g Q) : Does ins t (tryExcept a handler) Q := by
  refine Does.except ha ?_ ?_
  · rintro r ys t' hnone ⟨rfl, -⟩
    rw [hnone e rfl] at hg
    cases hg
  · rintro e' g' ys t' hg' ⟨he, hS⟩
    cases he
    rw [hg] at hg'
    cases hg'
    exact h ys t' hS

theorem Does.except_passed {S : List Nat → τ → Prop} {r : End ε α}
    {handler : ε → Option (Act ε (Heap × τ) α)}
    (ha : Does ins t a fun r' ys t' => r' = r ∧ S ys t')
    (hr : ∀ e, r = .raised e → handler e = none) (h : ∀ ys t', S ys t' → Q r ys t') :
    Does ins t (tryExcept a handler) Q := by
  refine Does.except ha ?_ ?_
  · rintro r' ys t' - ⟨rfl, hS⟩
    exact h ys t' hS
  · rintro e g ys t' hg ⟨he, -⟩
    rw [hr e he.symm] at hg
    cases hg

/-- An action that can only return, with a fixed result beside the heap. -/
theorem Does.step {act : Act ε (Heap × τ) Unit} {f : Unit → Act ε (Heap × τ) β} {t' : τ}
    (ha : Does ins t act fun r zs u => r = .value () ∧ zs = ys ∧ u = t')
    (h : Does ys t' (f ()) R) : Does ins t (act >>= f) R := by
  refine ha.bind_value ?_
  rintro zs u ⟨rfl, rfl⟩
  exact h

theorem does_touch_bind {f : Unit → Act ε (Heap × τ) β} (hp : p ∈ ins)
    (h : Does ins t (f ()) R) : Does ins t (touch p >>= f) R :=
  Does.step (does_touch hp ⟨rfl, rfl, rfl⟩) h

theorem does_free_bind {f : Unit → Act ε (Heap × τ) β} (h : Does ins t (f ()) R) :
    Does (p :: ins) t (free p >>= f) R :=
  Does.step (does_free ⟨rfl, rfl, rfl⟩) h

theorem does_beside_bind {g : τ → τ} {f : Unit → Act ε (Heap × τ) β}
    (h : Does ins (g t) (f ()) R) : Does ins t (beside g >>= f) R :=
  Does.step (does_beside ⟨rfl, rfl, rfl⟩) h

end

end FreedosMicroPython.Lib.Ledger
