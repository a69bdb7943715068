import Mathlib.Tactic.Common
/-!
# Programs over I/O ports

A program reads a port and goes on as the value says, or writes one, or returns. What
answers its reads is a `Device` with a state of its own: a model of a card, or just a
stream of values. `run` keeps a log of the accesses.

`Within n` says that a program returns after at most `n` accesses whatever the device
does. It composes along `bind`, so the bound of a driver is the sum of those of its parts.
-/

namespace FreedosMicroPython.Lib.Ports

inductive Width where
  | byte
  | word
  deriving DecidableEq, Repr

def Width.size : Width → Nat
  | byte => 0x100
  | word => 0x10000

/-- `stuck` is where a loop without a bound of its own has used up its budget. -/
inductive Prog (α : Type) where
  | ret (a : α)
  | read (width : Width) (port : Nat) (k : Nat → Prog α)
  | write (width : Width) (port val : Nat) (k : Prog α)
  | stuck

inductive Access where
  | read (width : Width) (port val : Nat)
  | write (width : Width) (port val : Nat)
  deriving DecidableEq, Repr

def Access.port : Access → Nat
  | .read _ port _ => port
  | .write _ port _ => port

/-- What answers the accesses, over a state of its own. -/
structure Device (σ : Type) where
  read : Width → Nat → σ → Nat × σ
  write : Width → Nat → Nat → σ → σ

namespace Prog

variable {α β : Type}

def bind : Prog α → (α → Prog β) → Prog β
  | ret a, q => q a
  | read width port k, q => read width port fun v => (k v).bind q
  | write width port val k, q => write width port val (k.bind q)
  | stuck, _ => stuck

instance : Monad Prog where
  pure := ret
  bind := bind

end Prog

/-! ## Accesses -/

def inb (port : Nat) : Prog Nat := .read .byte port .ret

def outb (port val : Nat) : Prog Unit := .write .byte port val (.ret ())

def inw (port : Nat) : Prog Nat := .read .word port .ret

def outw (port val : Nat) : Prog Unit := .write .word port val (.ret ())

def insw (port : Nat) : Nat → Prog (List UInt8)
  | 0 => pure []
  | n + 1 => do
      let w ← inw port
      let rest ← insw port n
      pure (UInt8.ofNat w :: UInt8.ofNat (w / 256) :: rest)

/-- `rep outsw`: words made of the bytes in pairs. -/
def outsw (port : Nat) : List UInt8 → Prog Unit
  | lo :: hi :: bs => do
      outw port (lo.toNat + 256 * hi.toNat)
      outsw port bs
  | _ => pure ()

/-- `while (spin-- && !done(inb(port))) {}`: the unsigned counter behind the loop. -/
def poll (port : Nat) (done : Nat → Bool) : Nat → Prog Nat
  | 0 => pure 0xFFFFFFFF
  | spin + 1 => do
      let v ← inb port
      if done v then pure spin else poll port done spin

/-- `while (busy(inb(port))) {}`, as long as the budget lasts. -/
def wait (port : Nat) (busy : Nat → Bool) : Nat → Prog Unit
  | 0 => .stuck
  | budget + 1 => do
      let v ← inb port
      if busy v then wait port busy budget else pure ()

/-! ## Runs -/

variable {α β σ : Type} (d : Device σ)

def run : Prog α → σ → Option α × List Access × σ
  | .ret a, s => (some a, [], s)
  | .read width port k, s =>
      let r := run (k ((d.read width port s).1 % width.size)) (d.read width port s).2
      (r.1, .read width port ((d.read width port s).1 % width.size) :: r.2.1, r.2.2)
  | .write width port val k, s =>
      let r := run k (d.write width port (val % width.size) s)
      (r.1, .write width port (val % width.size) :: r.2.1, r.2.2)
  | .stuck, s => (none, [], s)

variable {d}

def after (log : List Access) (r : Option α × List Access × σ) :
    Option α × List Access × σ :=
  (r.1, log ++ r.2.1, r.2.2)

@[simp] theorem run_pure (a : α) (s : σ) : run d (pure a) s = (some a, [], s) := rfl

theorem run_bind (p : Prog α) (q : α → Prog β) (s : σ) :
    run d (p >>= q) s =
      match (run d p s).1 with
      | some a => after (run d p s).2.1 (run d (q a) (run d p s).2.2)
      | none => (none, (run d p s).2) := by
  change run d (p.bind q) s = _
  induction p generalizing s with
  | ret a => rfl
  | read width port k ih =>
      simp only [Prog.bind, run, ih]
      split <;> rfl
  | write width port val k ih =>
      simp only [Prog.bind, run, ih]
      split <;> rfl
  | stuck => rfl

theorem run_bind_of_some {p : Prog α} {s s' : σ} {a : α} {log : List Access}
    (h : run d p s = (some a, log, s')) (q : α → Prog β) :
    run d (p >>= q) s = after log (run d (q a) s') := by
  rw [run_bind, h]

theorem run_bind_of_none {p : Prog α} {s : σ} {r : List Access × σ}
    (h : run d p s = (none, r)) (q : α → Prog β) : run d (p >>= q) s = (none, r) := by
  rw [run_bind, h]

@[simp] theorem run_inb (port : Nat) (s : σ) :
    run d (inb port) s = (some ((d.read .byte port s).1 % 0x100),
      [.read .byte port ((d.read .byte port s).1 % 0x100)], (d.read .byte port s).2) := rfl

@[simp] theorem run_outb (port val : Nat) (s : σ) :
    run d (outb port val) s =
      (some (), [.write .byte port (val % 0x100)], d.write .byte port (val % 0x100) s) := rfl

/-! ## Results -/

/-- The program returns `a` and leaves the device in `s'`. -/
structure Returns (d : Device σ) (s : σ) (p : Prog α) (a : α) (s' : σ) : Prop where
  result : (run d p s).1 = some a
  state : (run d p s).2.2 = s'

namespace Returns

theorem pure (a : α) (s : σ) : Returns d s (Pure.pure a) a s := ⟨rfl, rfl⟩

theorem bind {s s₁ s₂ : σ} {p : Prog α} {q : α → Prog β} {a : α} {b : β}
    (hp : Returns d s p a s₁) (hq : Returns d s₁ (q a) b s₂) :
    Returns d s (p >>= q) b s₂ := by
  have hrun : run d p s = (some a, (run d p s).2.1, s₁) := by
    rw [← hp.result, ← hp.state]
  exact ⟨by rw [run_bind_of_some hrun]; exact hq.result,
    by rw [run_bind_of_some hrun]; exact hq.state⟩

theorem inb (port : Nat) {s s' : σ} {v : Nat} (h : d.read .byte port s = (v, s'))
    (hv : v < 0x100) : Returns d s (Ports.inb port) v s' := by
  constructor
  · rw [run_inb, h, Nat.mod_eq_of_lt hv]
  · rw [run_inb, h]

theorem outb (port val : Nat) (s : σ) :
    Returns d s (Ports.outb port val) () (d.write .byte port (val % 0x100) s) := ⟨rfl, rfl⟩

theorem poll {port v : Nat} (done : Nat → Bool) {s : σ} (h : d.read .byte port s = (v, s))
    (hv : v < 0x100) (spin : Nat) :
    Returns d s (Ports.poll port done (spin + 1)) (if done v then spin else 0xFFFFFFFF) s := by
  induction spin with
  | zero =>
      apply (Returns.inb port h hv).bind
      cases done v <;> exact Returns.pure _ s
  | succ spin ih =>
      apply (Returns.inb port h hv).bind
      cases hdone : done v with
      | true => exact Returns.pure _ s
      | false =>
          rw [hdone] at ih
          exact ih

theorem forM {τ : Type} {e : τ → σ} {f : Nat → Prog Unit} {step : τ → Nat → τ}
    {l : List Nat} (hf : ∀ t, ∀ i ∈ l, Returns d (e t) (f i) () (e (step t i))) (t : τ) :
    Returns d (e t) (l.forM f) () (e (l.foldl step t)) := by
  induction l generalizing t with
  | nil => exact Returns.pure () (e t)
  | cons i l ih =>
      have hrest := ih (fun t j hj => hf t j (List.mem_cons_of_mem i hj)) (step t i)
      exact (hf t i List.mem_cons_self).bind hrest

end Returns

/-! ## Bounds -/

/-- Whatever answers, the program returns after at most `n` accesses. -/
structure Within (n : Nat) (p : Prog α) : Prop where
  returns : ∀ {σ : Type} (d : Device σ) (s : σ),
    ∃ a log s', run d p s = (some a, log, s') ∧ log.length ≤ n

namespace Within

theorem mono {n n' : Nat} {p : Prog α} (h : Within n p) (hle : n ≤ n') : Within n' p := by
  constructor
  intro σ d s
  obtain ⟨a, log, s', hrun, hlog⟩ := h.returns d s
  exact ⟨a, log, s', hrun, Nat.le_trans hlog hle⟩

theorem pure (a : α) : Within 0 (Pure.pure a : Prog α) :=
  ⟨fun _ s => ⟨a, [], s, rfl, Nat.le_refl 0⟩⟩

theorem bind {n m : Nat} {p : Prog α} {q : α → Prog β} (hp : Within n p)
    (hq : ∀ a, Within m (q a)) : Within (n + m) (p >>= q) := by
  constructor
  intro σ d s
  obtain ⟨a, log, s₁, hrun, hlog⟩ := hp.returns d s
  obtain ⟨b, log', s₂, hrun', hlog'⟩ := (hq a).returns d s₁
  refine ⟨b, log ++ log', s₂, by rw [run_bind_of_some hrun, hrun']; rfl, ?_⟩
  rw [List.length_append]
  omega

theorem ite {n : Nat} {c : Prop} [Decidable c] {p q : Prog α} (hp : Within n p)
    (hq : Within n q) : Within n (if c then p else q) := by
  split
  · exact hp
  · exact hq

theorem inb (port : Nat) : Within 1 (Ports.inb port) :=
  ⟨fun _ _ => ⟨_, _, _, rfl, Nat.le_refl 1⟩⟩

theorem outb (port val : Nat) : Within 1 (Ports.outb port val) :=
  ⟨fun _ _ => ⟨_, _, _, rfl, Nat.le_refl 1⟩⟩

theorem inw (port : Nat) : Within 1 (Ports.inw port) :=
  ⟨fun _ _ => ⟨_, _, _, rfl, Nat.le_refl 1⟩⟩

theorem outw (port val : Nat) : Within 1 (Ports.outw port val) :=
  ⟨fun _ _ => ⟨_, _, _, rfl, Nat.le_refl 1⟩⟩

theorem insw (port n : Nat) : Within n (Ports.insw port n) := by
  induction n with
  | zero => exact Within.pure []
  | succ n ih =>
      have hstep : Within (1 + (n + 0)) (Ports.insw port (n + 1)) :=
        (Within.inw port).bind fun w => ih.bind fun rest => Within.pure _
      exact hstep.mono (by omega)

theorem outsw (port : Nat) : (bs : List UInt8) → Within (bs.length / 2) (Ports.outsw port bs)
  | [] => Within.pure ()
  | [_] => (Within.pure ()).mono (Nat.zero_le _)
  | lo :: hi :: bs => by
      have hstep : Within (1 + bs.length / 2) (Ports.outsw port (lo :: hi :: bs)) :=
        (Within.outw port _).bind fun _ => Within.outsw port bs
      apply hstep.mono
      simp only [List.length_cons]
      omega

theorem poll (port : Nat) (done : Nat → Bool) (spin : Nat) :
    Within spin (Ports.poll port done spin) := by
  induction spin with
  | zero => exact Within.pure _
  | succ spin ih =>
      have hstep : Within (1 + spin) (Ports.poll port done (spin + 1)) :=
        (Within.inb port).bind fun v => Within.ite ((Within.pure spin).mono (Nat.zero_le spin)) ih
      exact hstep.mono (by omega)

theorem forM {f : Nat → Prog Unit} {n : Nat} (hf : ∀ i, Within n (f i)) (l : List Nat) :
    Within (l.length * n) (l.forM f) := by
  induction l with
  | nil => exact (Within.pure ()).mono (Nat.zero_le _)
  | cons i l ih =>
      have hstep : Within (n + l.length * n) ((i :: l).forM f) := (hf i).bind fun _ => ih
      apply hstep.mono
      rw [List.length_cons, Nat.succ_mul]
      omega

end Within

/-! ## Postconditions -/

/-- Every run that returns, on whatever device, returns an `a` and leaves a log with `Q`. -/
structure Ensures (p : Prog α) (Q : α → List Access → Prop) : Prop where
  holds : ∀ {σ : Type} (d : Device σ) (s : σ) {a : α} {log : List Access} {s' : σ},
    run d p s = (some a, log, s') → Q a log

namespace Ensures

theorem pure {a : α} {Q : α → List Access → Prop} (h : Q a []) :
    Ensures (Pure.pure a : Prog α) Q := by
  constructor
  intro σ d s b log s' hrun
  rw [run_pure] at hrun
  obtain ⟨rfl, rfl, -⟩ := hrun
  exact h

theorem bind {p : Prog α} {q : α → Prog β} {Q : α → List Access → Prop}
    {R : β → List Access → Prop} (hp : Ensures p Q)
    (hq : ∀ a log, Q a log → Ensures (q a) fun b log' => R b (log ++ log')) :
    Ensures (p >>= q) R := by
  constructor
  intro σ d s b log s' hrun
  rw [run_bind] at hrun
  cases hr : run d p s with
  | mk res rest =>
      cases res with
      | none =>
          rw [hr] at hrun
          exact nomatch congrArg Prod.fst hrun
      | some a =>
          rw [hr] at hrun
          have hQ := hp.holds d s hr
          have hb : (run d (q a) rest.2).1 = some b := congrArg Prod.fst hrun
          have hlog : rest.1 ++ (run d (q a) rest.2).2.1 = log := congrArg (·.2.1) hrun
          rw [← hlog]
          exact (hq a rest.1 hQ).holds d rest.2 (Prod.ext hb rfl)

theorem last {p : Prog α} {q : α → Prog β} {P : β → Prop}
    (hq : ∀ a, Ensures (q a) fun b _ => P b) : Ensures (p >>= q) fun b _ => P b :=
  bind (Q := fun _ _ => True) ⟨fun _ _ _ _ _ _ => trivial⟩ fun a _ _ => hq a

end Ensures

def wordsTo (port : Nat) (log : List Access) : List UInt8 :=
  log.flatMap fun
    | .write .word p v => if p = port then [UInt8.ofNat v, UInt8.ofNat (v / 256)] else []
    | _ => []

theorem wordsTo_append (port : Nat) (log log' : List Access) :
    wordsTo port (log ++ log') = wordsTo port log ++ wordsTo port log' := List.flatMap_append

theorem ofNat_low (lo hi : UInt8) : UInt8.ofNat (lo.toNat + 256 * hi.toNat) = lo := by
  apply UInt8.toNat_inj.mp
  rw [UInt8.toNat_ofNat', Nat.add_mul_mod_self_left, Nat.mod_eq_of_lt lo.toNat_lt]

theorem ofNat_high (lo hi : UInt8) : UInt8.ofNat ((lo.toNat + 256 * hi.toNat) / 256) = hi := by
  apply UInt8.toNat_inj.mp
  have hlo := lo.toNat_lt
  have hhi := hi.toNat_lt
  rw [UInt8.toNat_ofNat']
  omega

/-- The words written to a port are made of these bytes. -/
abbrev Emits (port : Nat) (p : Prog α) (bs : List UInt8) : Prop :=
  Ensures p fun _ log => wordsTo port log = bs

namespace Emits

variable {port : Nat}

theorem pure (a : α) : Emits port (Pure.pure a : Prog α) [] := Ensures.pure rfl

theorem bind {p : Prog α} {q : α → Prog β} {bs bs' : List UInt8} (hp : Emits port p bs)
    (hq : ∀ a, Emits port (q a) bs') : Emits port (p >>= q) (bs ++ bs') := by
  apply Ensures.bind hp
  intro a log hlog
  constructor
  intro σ d s b log' s' hrun
  rw [wordsTo_append, hlog, (hq a).holds d s hrun]

theorem ite {c : Prop} [Decidable c] {p q : Prog α} {bs : List UInt8} (hp : Emits port p bs)
    (hq : Emits port q bs) : Emits port (if c then p else q) bs := by
  split
  · exact hp
  · exact hq

theorem inb (p : Nat) : Emits port (Ports.inb p) [] := by
  constructor
  intro σ d s a log s' hrun
  rw [run_inb] at hrun
  obtain ⟨-, rfl, -⟩ := hrun
  rfl

theorem outb (p val : Nat) : Emits port (Ports.outb p val) [] := by
  constructor
  intro σ d s a log s' hrun
  rw [run_outb] at hrun
  obtain ⟨-, rfl, -⟩ := hrun
  rfl

theorem poll (p : Nat) (done : Nat → Bool) (spin : Nat) :
    Emits port (Ports.poll p done spin) [] := by
  induction spin with
  | zero => exact Emits.pure _
  | succ spin ih => exact (Emits.inb p).bind fun v => Emits.ite (Emits.pure spin) ih

theorem wait (p : Nat) (busy : Nat → Bool) (budget : Nat) :
    Emits port (Ports.wait p busy budget) [] := by
  induction budget with
  | zero => exact ⟨fun _ _ _ _ _ hrun => nomatch congrArg Prod.fst hrun⟩
  | succ budget ih => exact (Emits.inb p).bind fun v => Emits.ite ih (Emits.pure ())

theorem outw (lo hi : UInt8) :
    Emits port (Ports.outw port (lo.toNat + 256 * hi.toNat)) [lo, hi] := by
  constructor
  intro σ d s a log s' hrun
  have hlt : lo.toNat + 256 * hi.toNat < 0x10000 := by
    have hlo := lo.toNat_lt
    have hhi := hi.toNat_lt
    omega
  have hlog : [Access.write .word port (lo.toNat + 256 * hi.toNat)] = log := by
    have hlog := congrArg (·.2.1) hrun
    simpa [Ports.outw, run, Width.size, Nat.mod_eq_of_lt hlt] using hlog
  rw [← hlog]
  simp [wordsTo, ofNat_high]

theorem outsw : (bs : List UInt8) → 2 ∣ bs.length → Emits port (Ports.outsw port bs) bs
  | [], _ => Emits.pure ()
  | [_], h => absurd h (by simp)
  | lo :: hi :: bs, h => by
      have hrest : 2 ∣ bs.length := by
        simp only [List.length_cons] at h
        omega
      exact (Emits.outw lo hi).bind fun _ => Emits.outsw bs hrest

end Emits

/-! ## A stream of values -/

/-- The `i`-th read answers `f i`, whatever it reads. -/
def stream (f : Nat → Nat) : Device Nat where
  read _ _ i := (f i, i + 1)
  write _ _ _ i := i

def reads (f : Nat → Nat) (port i n : Nat) : List Access :=
  (List.range n).map fun j => .read .byte port (f (i + j) % 0x100)

theorem reads_succ (f : Nat → Nat) (port i n : Nat) :
    reads f port i (n + 1) = .read .byte port (f i % 0x100) :: reads f port (i + 1) n := by
  simp only [reads, List.range_succ_eq_map, List.map_cons, List.map_map, Nat.add_zero]
  congr 1
  apply List.map_congr_left
  intro j _
  simp only [Function.comp_apply, Nat.succ_eq_add_one]
  rw [Nat.add_right_comm, Nat.add_assoc]

section Stream

variable {f : Nat → Nat} {port : Nat} {done busy : Nat → Bool}

theorem run_inb_stream (port i : Nat) :
    run (stream f) (inb port) i =
      (some (f i % 0x100), [.read .byte port (f i % 0x100)], i + 1) := rfl

theorem run_poll_succ (spin i : Nat) :
    run (stream f) (poll port done (spin + 1)) i =
      after [.read .byte port (f i % 0x100)]
        (if done (f i % 0x100) then (some spin, [], i + 1)
          else run (stream f) (poll port done spin) (i + 1)) := by
  rw [poll, run_bind_of_some (run_inb_stream port i)]
  split <;> rfl

theorem run_wait_succ (budget i : Nat) :
    run (stream f) (wait port busy (budget + 1)) i =
      after [.read .byte port (f i % 0x100)]
        (if busy (f i % 0x100) then run (stream f) (wait port busy budget) (i + 1)
          else (some (), [], i + 1)) := by
  rw [wait, run_bind_of_some (run_inb_stream port i)]
  split <;> rfl

/-- A bounded wait that sees the bit at its `k`-th read leaves the rest of the counter. -/
theorem run_poll_found {k spin : Nat} (hk : k < spin) {i : Nat}
    (hnot : ∀ j, j < k → done (f (i + j) % 0x100) = false)
    (hdone : done (f (i + k) % 0x100) = true) :
    run (stream f) (poll port done spin) i =
      (some (spin - k - 1), reads f port i (k + 1), i + k + 1) := by
  induction spin generalizing k i with
  | zero => omega
  | succ spin ih =>
      rw [run_poll_succ, reads_succ]
      cases k with
      | zero =>
          rw [Nat.add_zero] at hdone
          rw [if_pos hdone]
          rfl
      | succ k =>
          have hfirst : done (f i % 0x100) = false := hnot 0 (Nat.succ_pos k)
          have hrest := @ih k (by omega) (i + 1)
            (fun j hj => by rw [Nat.add_right_comm]; exact hnot (j + 1) (by omega))
            (by rw [Nat.add_right_comm]; exact hdone)
          rw [hfirst, if_neg Bool.false_ne_true, hrest]
          rw [show spin - k - 1 = spin + 1 - (k + 1) - 1 by omega, Nat.add_right_comm i 1 k]
          rfl

/-- One that never sees it leaves the counter below zero. -/
theorem run_poll_exhausted {spin i : Nat}
    (hnot : ∀ j, j < spin → done (f (i + j) % 0x100) = false) :
    run (stream f) (poll port done spin) i =
      (some 0xFFFFFFFF, reads f port i spin, i + spin) := by
  induction spin generalizing i with
  | zero => rfl
  | succ spin ih =>
      have hfirst : done (f i % 0x100) = false := hnot 0 (Nat.succ_pos spin)
      have hrest := @ih (i + 1)
        (fun j hj => by rw [Nat.add_right_comm]; exact hnot (j + 1) (by omega))
      rw [run_poll_succ, reads_succ, hfirst, if_neg Bool.false_ne_true, hrest,
        Nat.add_right_comm i 1 spin]
      rfl

/-- A wait ends at the first read that is not busy. -/
theorem run_wait_found {k budget : Nat} (hk : k < budget) {i : Nat}
    (hbusy : ∀ j, j < k → busy (f (i + j) % 0x100) = true)
    (hfree : busy (f (i + k) % 0x100) = false) :
    run (stream f) (wait port busy budget) i = (some (), reads f port i (k + 1), i + k + 1) := by
  induction budget generalizing k i with
  | zero => omega
  | succ budget ih =>
      rw [run_wait_succ, reads_succ]
      cases k with
      | zero =>
          rw [Nat.add_zero] at hfree
          rw [hfree, if_neg Bool.false_ne_true]
          rfl
      | succ k =>
          have hfirst : busy (f i % 0x100) = true := hbusy 0 (Nat.succ_pos k)
          have hrest := @ih k (by omega) (i + 1)
            (fun j hj => by rw [Nat.add_right_comm]; exact hbusy (j + 1) (by omega))
            (by rw [Nat.add_right_comm]; exact hfree)
          rw [if_pos hfirst, hrest, Nat.add_right_comm i 1 k]
          rfl

/-- Where every read is busy no budget ends it. -/
theorem run_wait_busy (hbusy : ∀ j, busy (f j % 0x100) = true) (budget i : Nat) :
    (run (stream f) (wait port busy budget) i).1 = none := by
  induction budget generalizing i with
  | zero => rfl
  | succ budget ih =>
      rw [run_wait_succ, if_pos (hbusy i)]
      exact ih (i + 1)

end Stream

end FreedosMicroPython.Lib.Ports
