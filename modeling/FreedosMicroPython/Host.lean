import FreedosMicroPython.Lib.Traffic
/-!
# The machine under the port

The real-mode side that `dosint21_uc386dos.c` and `pktdrv_uc386dos.c` share: the
preallocated bounce paragraph, the receiver stub in the thunk paragraph with its
three words, the interrupt mask of the slave PIC and the static variables of the
two files. A packet arrives as one whole receive interrupt (`receive`); a
schedule says which packets arrive before each byte that is copied.

The bounce paragraph is the memory behind its real-mode segment and behind its
linear address alike.
-/

namespace FreedosMicroPython.Host

open FreedosMicroPython.Lib.Memory FreedosMicroPython.Lib.Traffic

/-! ## Registers -/

structure Rmcs where
  edi : Nat := 0
  esi : Nat := 0
  ebp : Nat := 0
  reserved : Nat := 0
  ebx : Nat := 0
  edx : Nat := 0
  ecx : Nat := 0
  eax : Nat := 0
  flags : Nat := 0
  es : Nat := 0
  ds : Nat := 0
  fs : Nat := 0
  gs : Nat := 0
  ip : Nat := 0
  cs : Nat := 0
  sp : Nat := 0
  ss : Nat := 0
  deriving DecidableEq, Repr

namespace Rmcs

variable (rm : Rmcs)

def ah : Nat := rm.eax / 256 % 256

def ax : Nat := rm.eax % 0x10000

def cx : Nat := rm.ecx % 0x10000

def dx : Nat := rm.edx % 0x10000

def si : Nat := rm.esi % 0x10000

def carry : Bool := rm.flags &&& 1 ≠ 0

end Rmcs

theorem service_or (a x : Nat) : (a * 256 ||| x &&& 0xFF) / 256 = a := by
  have hx : x &&& 0xFF < 2 ^ 8 := Nat.and_lt_two_pow x (by omega)
  have hor : a * 256 ||| x &&& 0xFF = 2 ^ 8 * a + (x &&& 0xFF) := by
    rw [Nat.two_pow_add_eq_or_of_lt hx, Nat.mul_comm a]
  rw [hor]
  omega

/-! ## Frames and the receiver stub -/

def PKTDRV_MAX_FRAME : Nat := 1518

/-- A frame on the wire; its length is announced in a 16-bit register. -/
structure Frame where
  bytes : List UInt8
  fits : bytes.length < 0x10000
  deriving DecidableEq, Repr

/-- The words at `thunk:0x40`, `thunk:0x42` and `thunk:0x44`. -/
structure Stub where
  pending : Nat
  length : Nat
  bounceSeg : Nat
  deriving DecidableEq, Repr

namespace Stub

/-- `rcv_code` with `AX = 0`: the buffer it grants in `ES:DI`, `0:0` to drop. A
pending frame does not make it drop the next one. -/
def phase0 (cx : Nat) (s : Stub) : (Nat × Nat) × Stub :=
  if 1518 < cx then ((0, 0), s) else ((s.bounceSeg, 0), { s with length := cx })

/-- `rcv_code` with any other `AX`. -/
def phase1 (s : Stub) : Stub := { s with pending := 1 }

def accepts (s : Stub) (f : Frame) : Bool := f.bytes.length ≤ 1518 && s.bounceSeg ≠ 0

def receive (s : Stub) (f : Frame) : Stub :=
  if s.accepts f then (s.phase0 f.bytes.length).2.phase1 else (s.phase0 f.bytes.length).2

@[simp] theorem receive_bounceSeg (s : Stub) (f : Frame) :
    (s.receive f).bounceSeg = s.bounceSeg := by
  unfold receive phase0 phase1
  split <;> split <;> rfl

theorem receive_of_accepts {s : Stub} {f : Frame} (h : s.accepts f) :
    s.receive f = { s with pending := 1, length := f.bytes.length } := by
  have hlen : f.bytes.length ≤ 1518 := by
    simp only [accepts, Bool.and_eq_true, decide_eq_true_eq] at h
    exact h.1
  simp [receive, h, phase0, phase1, Nat.not_lt.mpr hlen]

theorem receive_of_not_accepts {s : Stub} {f : Frame} (h : s.accepts f = false)
    (hseg : s.bounceSeg ≠ 0) : s.receive f = s := by
  have hlen : 1518 < f.bytes.length := by
    simpa [accepts, hseg] using h
  simp [receive, h, phase0, hlen]

theorem receive_pending_of_not_accepts {s : Stub} {f : Frame} (h : s.accepts f = false) :
    (s.receive f).pending = s.pending := by
  unfold receive phase0
  split
  · simp_all
  · split <;> rfl

end Stub

def quiet : Nat → List Frame := fun _ => []

@[simp] theorem quiet_apply (i : Nat) : quiet i = [] := rfl

/-- The line the network card interrupts on. -/
inductive NicIrq where
  | irq9
  | irq11
  deriving DecidableEq, Repr

/-! ## The machine -/

/-- One entry into real mode: the registers, the bytes at `CS:IP`, and what the
service took from and stored at `DS:DX` or `DS:SI`. -/
structure Dispatch where
  rm : Rmcs
  code : List UInt8
  taken : List UInt8
  stored : List UInt8
  deriving DecidableEq, Repr

/-- The INT 21h thunk: where it was armed, and the bytes found there. -/
structure Int21Thunk where
  seg : Nat
  linear : Nat
  ready : Bool
  code : List UInt8
  deriving DecidableEq, Repr

structure Machine (σ : Type) where
  /-- The bounce paragraph, by offset. -/
  bounce : Mem UInt8
  stub : Stub
  nicIrq : NicIrq
  /-- The interrupt mask register of the slave PIC, port 0xA1. -/
  slaveImr : BitVec 8
  -- globals of main.c
  preallocBounceSeg : Nat
  preallocBounceLinear : Nat
  i21PreallocThunkSeg : Nat
  -- statics of dosint21_uc386dos.c
  i21Thunk : Int21Thunk
  rmStackSeg : Nat
  rmStackBytes : Nat
  -- statics of pktdrv_uc386dos.c
  ne2kInitialized : Bool
  intNum : Int
  handle : Int
  thunkSeg : Nat
  bounceSeg : Nat
  bounceLinear : Nat
  rxBuf : Mem UInt8
  rxPending : Bool
  rxLen : Nat
  /-- Every entry into real mode so far, oldest first. -/
  calls : List Dispatch
  world : σ

namespace Machine

variable {σ : Type} (m : Machine σ)

/-- The interrupt of the network card is masked at the slave PIC. -/
def masked : Bool :=
  match m.nicIrq with
  | .irq9 => m.slaveImr.getLsbD 1
  | .irq11 => m.slaveImr.getLsbD 3

/-- One receive interrupt: phase 0, the driver's copy to `ES:DI` unless that is
`0:0`, phase 1. -/
def receive (f : Frame) : Machine σ :=
  match m.stub.phase0 f.bytes.length with
  | ((es, di), stub) =>
      if es = 0 ∧ di = 0 then { m with stub := stub }
      else { m with bounce := blit m.bounce di f.bytes, stub := stub.phase1 }

/-- The frames that arrive at one point of the code; none while masked. -/
def interrupts (fs : List Frame) : Machine σ :=
  if m.masked then m else fs.foldl receive m

/-- What the frames that arrive at one point leave in the bounce, oldest first. -/
def accepted (fs : List Frame) : List (List UInt8) :=
  if m.masked then [] else (fs.filter m.stub.accepts).map Frame.bytes

@[simps -fullyApplied] def inWorld (w : σ) : Machine σ := { m with world := w }

/-- A service in real mode has run: the world after it, and one more entry. -/
@[simps -fullyApplied] def served (c : Dispatch) (w : σ) : Machine σ :=
  { m with world := w, calls := m.calls ++ [c] }

/-- `memcpy` into the bounce; `irqs i` arrive just before byte `i` is stored. -/
def storeBounce (irqs : Nat → List Frame) (off : Nat) :
    Nat → List UInt8 → Machine σ → Machine σ
  | _, [], m => m
  | i, b :: bs, m =>
      let m := m.interrupts (irqs i)
      storeBounce irqs off (i + 1) bs { m with bounce := blit m.bounce (off + i) [b] }

/-- `memcpy` out of the bounce; `irqs i` arrive just before byte `i` is read. -/
def loadBounce (irqs : Nat → List Frame) (off : Nat) :
    Nat → Nat → Machine σ → List UInt8 × Machine σ
  | _, 0, m => ([], m)
  | i, n + 1, m =>
      let m := m.interrupts (irqs i)
      let rest := loadBounce irqs off (i + 1) n m
      (m.bounce (off + i) :: rest.1, rest.2)

def loadAsciiz (irqs : Nat → List Frame) (off : Nat) :
    Nat → Nat → Machine σ → List UInt8 × Machine σ
  | _, 0, m => ([], m)
  | i, fuel + 1, m =>
      let m := m.interrupts (irqs i)
      if m.bounce (off + i) = 0 then ([m.bounce (off + i)], m)
      else
        let rest := loadAsciiz irqs off (i + 1) fuel m
        (m.bounce (off + i) :: rest.1, rest.2)

/-! ## What interrupts leave alone -/

@[simps -fullyApplied] def withMem (mem : Mem UInt8) (s : Stub) : Machine σ :=
  { m with bounce := mem, stub := s }

@[simp] theorem withMem_self : m.withMem m.bounce m.stub = m := rfl

@[simp] theorem withMem_withMem (mem mem' : Mem UInt8) (s s' : Stub) :
    (m.withMem mem s).withMem mem' s' = m.withMem mem' s' := rfl

@[simp] theorem accepted_nil : m.accepted [] = [] := by
  simp [accepted]

@[simp] theorem interrupts_nil : m.interrupts [] = m := by
  simp [interrupts]

theorem receive_eq (f : Frame) :
    m.receive f =
      m.withMem (if m.stub.accepts f then blit m.bounce 0 f.bytes else m.bounce)
        (m.stub.receive f) := by
  unfold receive withMem Stub.receive Stub.accepts Stub.phase0
  by_cases hlen : 1518 < f.bytes.length
  · simp [hlen, Nat.not_le.mpr hlen]
  · by_cases hseg : m.stub.bounceSeg = 0 <;> simp [hlen, hseg, Nat.not_lt.mp hlen]

theorem interrupts_singleton (f : Frame) :
    m.interrupts [f] = if m.masked then m else m.receive f := rfl

theorem accepted_congr {m m' : Machine σ} (fs : List Frame) (hnic : m'.nicIrq = m.nicIrq)
    (himr : m'.slaveImr = m.slaveImr) (hseg : m'.stub.bounceSeg = m.stub.bounceSeg) :
    m'.accepted fs = m.accepted fs := by
  have haccepts : m'.stub.accepts = m.stub.accepts := by
    funext f
    rw [Stub.accepts, Stub.accepts, hseg]
  have hmasked : m'.masked = m.masked := by
    rw [masked, masked, hnic, himr]
  rw [accepted, accepted, hmasked, haccepts]

theorem accepted_withMem (mem : Mem UInt8) {s : Stub} (h : s.bounceSeg = m.stub.bounceSeg)
    (irqs : Nat → List Frame) :
    (fun k => (m.withMem mem s).accepted (irqs k)) = fun k => m.accepted (irqs k) :=
  funext fun _ => accepted_congr _ rfl rfl h

/-- A burst of frames changes the bounce and the stub's flags, nothing else. -/
theorem interrupts_eq (fs : List Frame) :
    ∃ s : Stub, s.bounceSeg = m.stub.bounceSeg ∧
      m.interrupts fs = m.withMem (strikes m.bounce (m.accepted fs)) s := by
  unfold interrupts accepted
  cases m.masked with
  | true => exact ⟨m.stub, rfl, rfl⟩
  | false =>
      simp only [Bool.false_eq_true, if_false]
      induction fs generalizing m with
      | nil => exact ⟨m.stub, rfl, rfl⟩
      | cons f fs ih =>
          obtain ⟨s, hseg, hrest⟩ := ih (m.receive f)
          have haccepts : (m.receive f).stub.accepts = m.stub.accepts := by
            funext g
            simp [receive_eq, Stub.accepts]
          refine ⟨s, by rw [hseg, receive_eq, withMem_stub, Stub.receive_bounceSeg], ?_⟩
          rw [List.foldl_cons, hrest, haccepts, receive_eq, withMem_withMem]
          by_cases hf : m.stub.accepts f <;> simp [hf, strikes]

theorem storeBounce_eq (irqs : Nat → List Frame) (off i : Nat) (bs : List UInt8) :
    ∃ s : Stub, s.bounceSeg = m.stub.bounceSeg ∧
      storeBounce irqs off i bs m =
        m.withMem (stage (fun k => m.accepted (irqs k)) off i bs m.bounce) s := by
  induction bs generalizing i m with
  | nil => exact ⟨m.stub, rfl, rfl⟩
  | cons b bs ih =>
      obtain ⟨s₁, hseg₁, hirq⟩ := m.interrupts_eq (irqs i)
      obtain ⟨s₂, hseg₂, hrest⟩ := ih
        (m.withMem (blit (strikes m.bounce (m.accepted (irqs i))) (off + i) [b]) s₁) (i + 1)
      rw [accepted_withMem m _ hseg₁] at hrest
      refine ⟨s₂, hseg₂.trans hseg₁, ?_⟩
      rw [storeBounce]
      simp only [hirq]
      exact hrest

theorem storeBounce_interrupts_eq (irqs : Nat → List Frame) (off : Nat) (bs : List UInt8)
    (fs : List Frame) :
    ∃ s : Stub, s.bounceSeg = m.stub.bounceSeg ∧
      (storeBounce irqs off 0 bs m).interrupts fs =
        m.withMem (strikes (stage (fun k => m.accepted (irqs k)) off 0 bs m.bounce)
          (m.accepted fs)) s := by
  obtain ⟨s₁, hseg₁, hstore⟩ := m.storeBounce_eq irqs off 0 bs
  obtain ⟨s₂, hseg₂, hfs⟩ :=
    (m.withMem (stage (fun k => m.accepted (irqs k)) off 0 bs m.bounce) s₁).interrupts_eq fs
  refine ⟨s₂, hseg₂.trans hseg₁, ?_⟩
  have hacc : (m.withMem (stage (fun k => m.accepted (irqs k)) off 0 bs m.bounce) s₁).accepted fs =
      m.accepted fs := accepted_congr fs rfl rfl hseg₁
  rw [hstore, hfs, withMem_withMem, withMem_bounce, hacc]

theorem loadBounce_eq (irqs : Nat → List Frame) (off i n : Nat) :
    ∃ s : Stub, s.bounceSeg = m.stub.bounceSeg ∧
      loadBounce irqs off i n m =
        ((fetch (fun k => m.accepted (irqs k)) off i n m.bounce).1,
          m.withMem (fetch (fun k => m.accepted (irqs k)) off i n m.bounce).2 s) := by
  induction n generalizing i m with
  | zero => exact ⟨m.stub, rfl, rfl⟩
  | succ n ih =>
      obtain ⟨s₁, hseg₁, hirq⟩ := m.interrupts_eq (irqs i)
      obtain ⟨s₂, hseg₂, hrest⟩ :=
        ih (m.withMem (strikes m.bounce (m.accepted (irqs i))) s₁) (i + 1)
      rw [accepted_withMem m _ hseg₁] at hrest
      refine ⟨s₂, hseg₂.trans hseg₁, ?_⟩
      simp only [loadBounce, hirq, hrest]
      rfl

theorem loadAsciiz_eq (irqs : Nat → List Frame) (off i fuel : Nat) :
    ∃ s : Stub, s.bounceSeg = m.stub.bounceSeg ∧
      loadAsciiz irqs off i fuel m =
        ((fetchUntil (· = 0) (fun k => m.accepted (irqs k)) off i fuel m.bounce).1,
          m.withMem (fetchUntil (· = 0) (fun k => m.accepted (irqs k)) off i fuel m.bounce).2
            s) := by
  induction fuel generalizing i m with
  | zero => exact ⟨m.stub, rfl, rfl⟩
  | succ fuel ih =>
      obtain ⟨s₁, hseg₁, hirq⟩ := m.interrupts_eq (irqs i)
      obtain ⟨s₂, hseg₂, hrest⟩ :=
        ih (m.withMem (strikes m.bounce (m.accepted (irqs i))) s₁) (i + 1)
      rw [accepted_withMem m _ hseg₁] at hrest
      by_cases hz : strikes m.bounce (m.accepted (irqs i)) (off + i) = 0
      · exact ⟨s₁, hseg₁, by simp [loadAsciiz, hirq, fetchUntil, hz]⟩
      · refine ⟨s₂, hseg₂.trans hseg₁, ?_⟩
        simp only [loadAsciiz, hirq, hrest, fetchUntil, withMem_bounce, hz, decide_false,
          Bool.false_eq_true, if_false, withMem_withMem]

/-! ## Copies that no interrupt hits -/

theorem storeBounce_quiet (off i : Nat) (bs : List UInt8) :
    storeBounce quiet off i bs m = m.withMem (blit m.bounce (off + i) bs) m.stub := by
  induction bs generalizing i m with
  | nil => simp [storeBounce]
  | cons b bs ih =>
      rw [storeBounce]
      simp only [quiet_apply, interrupts_nil]
      rw [ih, ← Nat.add_assoc, blit_cons]
      rfl

theorem loadBounce_quiet (off i n : Nat) :
    loadBounce quiet off i n m = (slice m.bounce (off + i) n, m) := by
  induction n generalizing i with
  | zero => rfl
  | succ n ih =>
      rw [loadBounce]
      simp only [quiet_apply, interrupts_nil]
      rw [ih, slice_succ, ← Nat.add_assoc]

theorem loadAsciiz_quiet (off i fuel : Nat) : (loadAsciiz quiet off i fuel m).2 = m := by
  induction fuel generalizing i with
  | zero => rfl
  | succ fuel ih =>
      rw [loadAsciiz]
      simp only [quiet_apply, interrupts_nil]
      split
      · rfl
      · exact ih (i + 1)

end Machine

def newCalls {σ : Type} (m m' : Machine σ) : List Dispatch := m'.calls.drop m.calls.length

theorem newCalls_of_calls {σ : Type} {m m' : Machine σ} (h : m'.calls = m.calls) :
    newCalls m m' = [] := by
  simp [newCalls, h]

/-- A machine after start-up: the receiver is registered on the bounce paragraph
and no packet has arrived. -/
def booted {σ : Type} (w : σ) : Machine σ where
  bounce := fun _ => 0
  stub := ⟨0, 0, 0x3003⟩
  nicIrq := .irq9
  slaveImr := 0
  preallocBounceSeg := 0x3003
  preallocBounceLinear := 0x30030
  i21PreallocThunkSeg := 0x3088
  i21Thunk := ⟨0x3088, 0x30880, true, [0xCD, 0x21, 0xCB]⟩
  rmStackSeg := 0x3089
  rmStackBytes := 4096
  ne2kInitialized := false
  intNum := 0x60
  handle := 0
  thunkSeg := 0x3083
  bounceSeg := 0x3003
  bounceLinear := 0x30030
  rxBuf := fun _ => 0
  rxPending := false
  rxLen := 0
  calls := []
  world := w

end FreedosMicroPython.Host
