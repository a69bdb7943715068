import FreedosMicroPython.Dos.Int21
/-!
# The packet driver client

`port/pktdrv_uc386dos.c` on its real-mode path: `pktdrv_send` stages a frame in
the bounce paragraph and enters the packet driver through the `INT 60h` thunk,
`pktdrv_recv` drains the frame that the receiver stub left there.
-/

namespace FreedosMicroPython.Net.Pktdrv

open FreedosMicroPython.Lib FreedosMicroPython.Lib.Memory FreedosMicroPython.Host
open FreedosMicroPython.Dos.Int21 (toU32)

/-! ## What answers the calls -/

/-- The packet driver, the DPMI host and the network card, over a state of their
own. The last three serve the paths that do without the thunk. -/
structure Driver (σ : Type) where
  /-- The carry flag of the DPMI call that enters real mode. -/
  dpmi : Rmcs → σ → Bool × σ
  /-- The handler of one interrupt, given the bytes it finds at `DS:SI`. -/
  int : Nat → Rmcs → List UInt8 → σ → Rmcs × σ
  /-- What a driver answers to `send_pkt` depends on the registers, not on the frame. -/
  int_regs : ∀ v rm bs bs' s, (int v rm bs s).1 = (int v rm bs' s).1
  /-- The carry flag of the driver entered with a flat pointer to the frame. -/
  bareInt : Int → List UInt8 → σ → Bool × σ
  ne2kSendDirect : List UInt8 → σ → Int × σ
  ne2kPollRx : Nat → σ → List UInt8 × σ

variable {σ : Type} (n : Driver σ)

/-! ## Sending -/

def PKTDRV_BOUNCE_SIZE : Nat := 2048

/-- The packets that arrive during one send: before each byte of the staging
copy, before the mask is written, before each byte the driver reads, and after
the mask is restored. -/
structure SendIrqs where
  copy : Nat → List Frame
  enter : List Frame
  driver : Nat → List Frame
  leave : List Frame

def quietSend : SendIrqs := ⟨quiet, [], quiet, []⟩

/-- The driver takes `CX` bytes at `DS:SI` for `send_pkt`, and answers. -/
def serveInt (irqs : Nat → List Frame) (vector : Nat) (code : List UInt8) (rm : Rmcs)
    (m : Machine σ) : Rmcs × Machine σ :=
  let (taken, m) := if rm.ah = 0x04 then m.loadBounce irqs rm.si 0 rm.cx else ([], m)
  let (rm', s) := n.int vector rm taken m.world
  (rm', m.served ⟨rm, code, taken, []⟩ s)

/-- The registers `pktdrv_call_int60_thunk` enters the thunk with. -/
def thunkRegs (thunkSeg : Nat) (rm : Rmcs) : Rmcs :=
  { rm with cs := thunkSeg &&& 0xFFFF, ip := 0, ss := 0, sp := 0 }

def int60Code : List UInt8 := [0xCD, 0x60, 0xCB]

def pktdrvCallInt60Thunk (irqs : Nat → List Frame) (rm : Rmcs) (m : Machine σ) :
    Option Rmcs × Machine σ :=
  if m.thunkSeg = 0 then (none, m)
  else
    let rm := thunkRegs m.thunkSeg rm
    match n.dpmi rm m.world with
    | (true, s) => (none, m.inWorld s)
    | (false, s) =>
        let (rm, m) := serveInt n irqs 0x60 int60Code rm (m.inWorld s)
        (some rm, m)

/-- DPMI function 0300h, the way into the driver without a thunk. -/
def dpmi0300 (irqs : Nat → List Frame) (rm : Rmcs) (m : Machine σ) : Option Rmcs × Machine σ :=
  match n.dpmi rm m.world with
  | (true, s) => (none, m.inWorld s)
  | (false, s) =>
      let (rm, m) := serveInt n irqs (toU32 m.intNum &&& 0xFF) [] rm (m.inWorld s)
      (some rm, m)

def sendRegs (m : Machine σ) (len : Nat) : Rmcs :=
  { ebx := toU32 m.handle, ecx := len, eax := 0x0400, ds := m.bounceSeg &&& 0xFFFF }

def outImr (mask : BitVec 8) (m : Machine σ) : Machine σ := { m with slaveImr := mask }

def dispatchSend (irqs : Nat → List Frame) (rm : Rmcs) (m : Machine σ) :
    Option Rmcs × Machine σ :=
  if m.thunkSeg ≠ 0 then pktdrvCallInt60Thunk n irqs rm m else dpmi0300 n irqs rm m

def sendResult (rm : Option Rmcs) : Int :=
  match rm with
  | none => -1
  | some rm => if rm.carry then -1 else 0

def pktdrvSend (irqs : SendIrqs) (buf : List UInt8) (m : Machine σ) : Int × Machine σ :=
  if m.ne2kInitialized then
    let (r, s) := n.ne2kSendDirect buf m.world
    (r, m.inWorld s)
  else if m.intNum = 0 then (-1, m)
  else if PKTDRV_BOUNCE_SIZE < buf.length then (-1, m)
  else if m.bounceSeg = 0 then
    let (carry, s) := n.bareInt m.intNum buf m.world
    (if carry then -1 else 0, m.inWorld s)
  else
    let m := m.storeBounce irqs.copy 0 0 buf
    let rm := sendRegs m buf.length
    let m := m.interrupts irqs.enter
    let savedMask := m.slaveImr
    let m := outImr (savedMask ||| 0x0A) m
    let (rm, m) := dispatchSend n irqs.driver rm m
    let m := outImr savedMask m
    (sendResult rm, m.interrupts irqs.leave)

/-! ## Receiving -/

/-- `pktdrv_poll_rmstub`: drain the frame that the stub has pending. -/
def pktdrvPollRmstub (m : Machine σ) : Machine σ :=
  if m.thunkSeg = 0 then m
  else if m.rxPending then m
  else if m.stub.pending = 0 then m
  else
    let len := m.stub.length
    if len = 0 ∨ PKTDRV_MAX_FRAME < len then { m with stub := { m.stub with pending := 0 } }
    else
      let rxBuf := if m.bounceLinear ≠ 0 then blit m.rxBuf 0 (slice m.bounce 0 len) else m.rxBuf
      { m with
        rxBuf := rxBuf
        rxLen := len
        stub := { m.stub with pending := 0 }
        rxPending := true }

/-- `pktdrv_recv`: the bytes copied to the caller's buffer, none when there is no
frame. -/
def pktdrvRecv (maxlen : Nat) (m : Machine σ) : List UInt8 × Machine σ :=
  if m.ne2kInitialized then
    let (bs, s) := n.ne2kPollRx maxlen m.world
    (bs, m.inWorld s)
  else
    let m := pktdrvPollRmstub m
    if m.rxPending then
      (slice m.rxBuf 0 (min m.rxLen maxlen), { m with rxPending := false, rxLen := 0 })
    else ([], m)

structure Pending (bs : List UInt8) (m : Machine σ) : Prop where
  pending : m.stub.pending ≠ 0
  length : m.stub.length = bs.length
  fits : bs.length ≤ PKTDRV_MAX_FRAME
  slice : slice m.bounce 0 bs.length = bs

/-- The client is on the stub path and has no frame in its own buffer. -/
structure Draining (m : Machine σ) : Prop where
  ne2k : m.ne2kInitialized = false
  thunk : m.thunkSeg ≠ 0
  linear : m.bounceLinear ≠ 0
  rxPending : m.rxPending = false

theorem pktdrvRecv_of_not_pending {maxlen : Nat} {m : Machine σ} (hm : Draining m)
    (hpending : m.stub.pending = 0) : pktdrvRecv n maxlen m = ([], m) := by
  simp [pktdrvRecv, hm.ne2k, pktdrvPollRmstub, hm.thunk, hm.rxPending, hpending]

theorem pktdrvRecv_of_empty {maxlen : Nat} {m : Machine σ} (hm : Draining m)
    (hpending : m.stub.pending ≠ 0) (hlen : m.stub.length = 0) :
    pktdrvRecv n maxlen m = ([], { m with stub := { m.stub with pending := 0 } }) := by
  simp [pktdrvRecv, hm.ne2k, pktdrvPollRmstub, hm.thunk, hm.rxPending, hpending, hlen]

/-- A drain that no interrupt hits returns the pending bytes, cut at `maxlen`. -/
theorem pktdrvRecv_of_pending {maxlen : Nat} {bs : List UInt8} {m : Machine σ} (hm : Draining m)
    (hbs : Pending bs m) (hne : bs ≠ []) :
    pktdrvRecv n maxlen m = (bs.take maxlen, { m with
      rxBuf := blit m.rxBuf 0 bs
      rxLen := 0
      stub := { m.stub with pending := 0 }
      rxPending := false }) := by
  have hread : Memory.slice (blit m.rxBuf 0 bs) 0 (min bs.length maxlen) = bs.take maxlen := by
    rw [Nat.min_comm, ← take_slice, slice_blit]
  have hpos : bs.length ≠ 0 := fun h => hne (List.length_eq_zero_iff.mp h)
  simp [pktdrvRecv, hm.ne2k, pktdrvPollRmstub, hm.thunk, hm.rxPending, hbs.pending, hbs.length,
    hpos, Nat.not_lt.mpr hbs.fits, hm.linear, hbs.slice, hread]

def idleDriver : Driver σ where
  dpmi _ s := (false, s)
  int _ _ _ s := ({}, s)
  int_regs _ _ _ _ _ := rfl
  bareInt _ _ s := (false, s)
  ne2kSendDirect _ s := (0, s)
  ne2kPollRx _ s := ([], s)

end FreedosMicroPython.Net.Pktdrv
