import FreedosMicroPython.Net.Pktdrv
/-!
# Requests to the packet driver

`pktdrv_detect` looks for a packet driver at the vectors 0x60 to 0x7F. The requests of
`pktdrv_init` and `pktdrv_send` enter it through the code in the thunk paragraph or,
without one, through DPMI function 0300h; where that fails or a buffer is missing they
raise an interrupt in protected mode. The model follows every request to the place that
it arrives at.
-/

namespace FreedosMicroPython.Net.Requests

open FreedosMicroPython.Lib FreedosMicroPython.Lib.Memory
open FreedosMicroPython.Host FreedosMicroPython.Net.Pktdrv
open FreedosMicroPython.Dos.Int21 (toU32)

/-! ## Arrivals -/

structure Entry where
  ax : Nat
  bx : Nat
  cx : Nat
  dx : Nat
  si : Nat
  di : Nat
  es : Nat
  ds : Nat
  deriving DecidableEq, Repr

def entry (rm : Rmcs) : Entry :=
  ⟨rm.ax, rm.ebx % 0x10000, rm.cx, rm.dx, rm.si, rm.edi % 0x10000, rm.es, rm.ds⟩

structure Arrival where
  vector : Nat
  entry : Entry
  deriving DecidableEq, Repr

/-- Where an interrupt goes: to a handler in real mode, or through the gate of its number
in the interrupt table of protected mode, which knows nothing of the handlers. -/
inductive Place where
  | handler (a : Arrival)
  | gate (vector : Nat)
  | nowhere
  deriving DecidableEq, Repr

/-- A request that was carried out: where DPMI function 0300h at the detected vector
delivers it, and where it arrived. -/
structure Request where
  plain : Arrival
  reached : Place
  deriving DecidableEq, Repr

def Direct (r : Request) : Prop := r.reached = .handler r.plain

instance (r : Request) : Decidable (Direct r) := inferInstanceAs (Decidable (_ = _))

/-! ## The client -/

/-- What the client runs on: the calls of the driver's model, what detection and
set-up ask besides, and the addresses and segments it is built and started with. -/
structure Platform (σ : Type) extends Driver σ where
  forceCrynwr : Bool
  ne2kInitDirect : σ → Int × σ
  /-- DPMI function 0200h, the segment and offset of a real-mode vector. -/
  getVector : Nat → σ → Option (Nat × Nat) × σ
  /-- Flat memory. -/
  mem : σ → Mem UInt8
  /-- DPMI function 0303h. -/
  allocDpmiCallback : σ → Option (Nat × Nat) × σ
  /-- `pktdrv_int_invoke`, an interrupt in protected mode. -/
  intInvoke : Int → Rmcs → σ → Bool × Rmcs × σ
  preallocBounceSeg : Nat
  preallocThunkSeg : Nat
  receiver : Nat
  rxBuf : Nat
  rxPending : Nat
  rxLen : Nat

structure Client (σ : Type) where
  ne2kInitialized : Bool
  intNum : Int
  handle : Int
  handleArp : Int
  bounceSeg : Nat
  thunkSeg : Nat
  /-- The three bytes at the start of the thunk paragraph. -/
  thunkCode : List UInt8
  requests : List Request
  world : σ

def powerUp {σ : Type} (w : σ) : Client σ := ⟨false, 0, -1, -1, 0, 0, [], [], w⟩

variable {σ : Type} (p : Platform σ)

def Client.vector (c : Client σ) : Nat := toU32 c.intNum &&& 0xFF

/-- The handler of `vector` is entered, with the registers of `rm`. -/
def enter (plain : Arrival) (vector : Nat) (rm : Rmcs) (bytes : List UInt8) (c : Client σ) :
    Rmcs × Client σ :=
  let (rm', s) := p.int vector rm bytes c.world
  (rm', { c with
    requests := c.requests ++ [⟨plain, .handler ⟨vector, entry rm⟩⟩]
    world := s })

def dpmi0300 (rm : Rmcs) (bytes : List UInt8) (c : Client σ) : Option Rmcs × Client σ :=
  match p.dpmi rm c.world with
  | (true, s) => (none, { c with world := s })
  | (false, s) =>
      let (rm, c) := enter p ⟨c.vector, entry rm⟩ c.vector rm bytes { c with world := s }
      (some rm, c)

/-- The interrupt that the code raises before it returns: `INT v; RETF`. -/
def raised (code : List UInt8) : Option Nat :=
  match code with
  | [op, v, ret] => if op = 0xCD ∧ ret = 0xCB then some v.toNat else none
  | _ => none

def callInt60Thunk (rm : Rmcs) (bytes : List UInt8) (c : Client σ) : Option Rmcs × Client σ :=
  if c.thunkSeg = 0 then (none, c)
  else
    let plain : Arrival := ⟨c.vector, entry rm⟩
    let rm := thunkRegs c.thunkSeg rm
    match p.dpmi rm c.world with
    | (true, s) => (none, { c with world := s })
    | (false, s) =>
        match raised c.thunkCode with
        | some v =>
            let (rm, c) := enter p plain v rm bytes { c with world := s }
            (some rm, c)
        | none =>
            (some rm, { c with requests := c.requests ++ [⟨plain, .nowhere⟩], world := s })

/-- The choice that `pktdrv_access_one`, `pktdrv_get_addr` and `pktdrv_send` make alike. -/
def dispatch (rm : Rmcs) (bytes : List UInt8) (c : Client σ) : Option Rmcs × Client σ :=
  if c.thunkSeg ≠ 0 then callInt60Thunk p rm bytes c else dpmi0300 p rm bytes c

/-- An interrupt in protected mode at the detected vector, with `regs`, in place of a
request with the registers of `rm`. -/
def bareInt (rm regs : Rmcs) (c : Client σ) : Option Rmcs × Client σ :=
  let (carry, regs', s) := p.intInvoke c.intNum regs c.world
  (if carry then none else some regs',
    { c with requests := c.requests ++ [⟨⟨c.vector, entry rm⟩, .gate c.vector⟩], world := s })

/-! ## Detection -/

def driverInfo : Rmcs := { ebx := 0xFFFF, eax := 0x0100 }

/-- `pktdrv_simulate_real_int`: nothing where either carry flag is set. -/
def pktdrvSimulateRealInt (intNum : Nat) (rm : Rmcs) (s : σ) : Option Rmcs × σ :=
  match p.dpmi rm s with
  | (true, s) => (none, s)
  | (false, s) =>
      let (rm, s) := p.int (intNum &&& 0xFF) rm [] s
      (if rm.carry then none else some rm, s)

def isDriver (rm : Rmcs) : Bool :=
  let bx := rm.ebx &&& 0xFFFF
  let dh := (rm.edx >>> 8) &&& 0xFF
  0x0100 ≤ bx && bx ≤ 0x01FF && 0x01 ≤ dh && dh ≤ 0x20

def PKT_SIG : List UInt8 := [0x50, 0x4B, 0x54, 0x20, 0x44, 0x52, 0x56, 0x52]

def scanSignature (intNum : Nat) (s : σ) : Nat × σ :=
  match p.getVector (intNum &&& 0xFF) s with
  | (none, s) => (0, s)
  | (some (cx, dx), s) =>
      let linear := (cx &&& 0xFFFF) * 16 + (dx &&& 0xFFFF)
      if linear = 0 ∨ 0x110000 ≤ linear then (0, s)
      else if slice (p.mem s) (linear + 3) 8 = PKT_SIG then (linear, s) else (0, s)

def pktdrvProbeSlot (intNum : Nat) (s : σ) : Nat × σ :=
  match pktdrvSimulateRealInt p intNum driverInfo s with
  | (some rm, s) =>
      if isDriver rm then (intNum ||| 0x80000000, s) else scanSignature p intNum s
  | (none, s) => scanSignature p intNum s

/-- The loop of `pktdrv_detect`; 0 where no slot has a driver. -/
def firstDriver : List Nat → σ → Nat × σ
  | [], s => (0, s)
  | i :: is, s =>
      let (found, s) := pktdrvProbeSlot p i s
      if found ≠ 0 then (i, s) else firstDriver is s

def pktdrvDetect (c : Client σ) : Int × Client σ :=
  if c.intNum ≠ 0 then (c.intNum, c)
  else
    let (i, s) := firstDriver p (List.range' 0x60 0x20) c.world
    (i, { c with intNum := i, world := s })

/-! ## Set-up -/

def pktdrvAllocBounce (c : Client σ) : Int × Client σ :=
  if c.bounceSeg ≠ 0 then (0, c)
  else if p.preallocBounceSeg = 0 then (-1, c)
  else (0, { c with bounceSeg := p.preallocBounceSeg })

def pktdrvAllocThunk (c : Client σ) : Int × Client σ :=
  if c.thunkSeg ≠ 0 then (0, c)
  else if p.preallocThunkSeg = 0 then (-1, c)
  else (0, { c with thunkSeg := p.preallocThunkSeg, thunkCode := [0xCD, 0x60, 0xCB] })

def receiverLinear (c : Client σ) : Nat × Client σ :=
  let (callback, s) := p.allocDpmiCallback c.world
  let c := { c with world := s }
  if c.thunkSeg ≠ 0 then (toU32 (c.thunkSeg <<< 16) ||| 0x0010, c)
  else
    match callback with
    | some (seg, off) => ((seg &&& 0xFFFF) <<< 16 ||| off &&& 0xFFFF, c)
    | none => (p.receiver, c)

def accessRegs (linearReceiver typeOff : Nat) (c : Client σ) : Rmcs :=
  { edi := linearReceiver &&& 0xFFFF
    esi := typeOff
    ebx := 0xFFFF
    ecx := 2
    eax := 0x0201
    es := (linearReceiver >>> 16) &&& 0xFFFF
    ds := c.thunkSeg &&& 0xFFFF }

def pktdrvAccessOne (linearReceiver typeOff : Nat) (c : Client σ) : Option Int × Client σ :=
  if c.intNum = 0 then (none, c)
  else
    match dispatch p (accessRegs linearReceiver typeOff c) [] c with
    | (some rm, c) => (if rm.carry then none else some (rm.eax &&& 0xFFFF : Nat), c)
    | (none, c) =>
        let (regs, c) := bareInt p (accessRegs linearReceiver typeOff c)
          { eax := 0x0201, edi := linearReceiver } c
        (regs.map fun regs => (regs.eax &&& 0xFFFF : Nat), c)

def pktdrvAccess (linearReceiver : Nat) (c : Client σ) : Int × Client σ :=
  match pktdrvAccessOne p linearReceiver 6 c with
  | (none, c) => (-1, c)
  | (some handle, c) =>
      let (handleArp, c) := pktdrvAccessOne p linearReceiver 4 { c with handle := handle }
      (0, { c with handleArp := handleArp.getD (-1) })

def getAddrRegs (c : Client σ) : Rmcs :=
  { ebx := toU32 c.handle, ecx := 6, eax := 0x0600, es := c.bounceSeg &&& 0xFFFF }

/-- The status of `pktdrv_get_addr` for a MAC to be stored at `out`. -/
def pktdrvGetAddr (out : Nat) (c : Client σ) : Int × Client σ :=
  if c.intNum = 0 ∨ c.handle < 0 then (-1, c)
  else if c.bounceSeg = 0 then
    let (regs, c) :=
      bareInt p (getAddrRegs c) { eax := 0x0600, ebx := toU32 c.handle, ecx := 6, edi := out } c
    (if regs = none then -1 else 0, c)
  else
    match dispatch p (getAddrRegs c) [] c with
    | (none, c) => (-1, c)
    | (some rm, c) => (if rm.carry then -1 else 0, c)

def pollingRegs : Rmcs := { edi := p.rxBuf, esi := p.rxPending, ecx := p.rxLen, eax := 0x9900 }

def pktdrvRegisterPollingRx (c : Client σ) : Client σ :=
  if c.thunkSeg = 0 then (bareInt p (pollingRegs p) (pollingRegs p) c).2
  else
    match callInt60Thunk p driverInfo [] c with
    | (none, c) => c
    | (some info, c) =>
        if info.carry then c
        else if info.ecx &&& 0xFFFF ≠ 0x0202 then c
        else (callInt60Thunk p (pollingRegs p) [] c).2

def releaseRegs : Rmcs := { ebx := 0xFFFF, eax := 0x0300 }

def rcvModeRegs (c : Client σ) : Rmcs := { ebx := toU32 c.handle, ecx := 3, eax := 0x1400 }

/-- The paragraphs `pktdrv_init` takes over once it has found a driver. -/
def takePreallocated (c : Client σ) : Client σ :=
  (pktdrvAllocThunk p (pktdrvAllocBounce p c).2).2

def releaseAll (c : Client σ) : Client σ :=
  if c.thunkSeg ≠ 0 then (callInt60Thunk p releaseRegs [] c).2 else c

def setRcvMode (c : Client σ) : Client σ :=
  if c.thunkSeg ≠ 0 then (callInt60Thunk p (rcvModeRegs c) [] c).2 else c

def register (mac receiver : Nat) (c : Client σ) : Int × Client σ :=
  let (r, c) := pktdrvAccess p receiver c
  if r ≠ 0 then (-2, { c with intNum := 0 })
  else
    let (r, c) := pktdrvGetAddr p mac (setRcvMode p c)
    if r ≠ 0 then (-3, { c with intNum := 0 }) else (0, pktdrvRegisterPollingRx p c)

/-- `pktdrv_init` from the point where it has found a driver. -/
def attach (mac : Nat) (c : Client σ) : Int × Client σ :=
  let (receiver, c) := receiverLinear p (takePreallocated p c)
  register p mac receiver (releaseAll p c)

/-- What `pktdrv_init` tries first unless it is built without: the card itself. -/
def tryNe2k (c : Client σ) : Bool × Client σ :=
  if p.forceCrynwr then (false, c)
  else
    let (r, s) := p.ne2kInitDirect c.world
    if r = 0 then (true, { c with ne2kInitialized := true, intNum := -1, world := s })
    else (false, { c with world := s })

def pktdrvInit (mac : Nat) (c : Client σ) : Int × Client σ :=
  let (direct, c) := tryNe2k p c
  if direct then (0, c)
  else
    let (found, c) := pktdrvDetect p c
    if found = 0 then (-1, c) else attach p mac c

/-! ## Sending -/

def sendRegs (len : Nat) (c : Client σ) : Rmcs :=
  { ebx := toU32 c.handle, ecx := len, eax := 0x0400, ds := c.bounceSeg &&& 0xFFFF }

def pktdrvSend (addr : Nat) (buf : List UInt8) (c : Client σ) : Int × Client σ :=
  if c.ne2kInitialized then
    let (r, s) := p.ne2kSendDirect buf c.world
    (r, { c with world := s })
  else if c.intNum = 0 then (-1, c)
  else if PKTDRV_BOUNCE_SIZE < buf.length then (-1, c)
  else if c.bounceSeg = 0 then
    let (regs, c) :=
      bareInt p (sendRegs buf.length c) { eax := 0x0400, ecx := buf.length, esi := addr } c
    (if regs = none then -1 else 0, c)
  else
    let (rm, c) := dispatch p (sendRegs buf.length c) buf c
    (sendResult rm, c)

/-! ## Where requests arrive -/

def Wired (c : Client σ) : Prop := c.thunkSeg ≠ 0 → c.thunkCode = int60Code

/-- A request that a dispatch made while the detected vector was `v`: it has arrived with the
registers asked for, either where it should or through the thunk at 0x60. -/
def Sent (v : Nat) (r : Request) : Prop :=
  Direct r ∨ r.plain.vector = v ∧ r.reached = .handler ⟨0x60, r.plain.entry⟩

theorem sent_direct (v : Nat) (plain : Arrival) : Sent v ⟨plain, .handler plain⟩ := .inl rfl

theorem direct_of_sent {r : Request} (h : Sent 0x60 r) : Direct r := by
  rcases h with h | ⟨hvector, hreached⟩
  · exact h
  · rw [Direct, hreached, ← hvector]

theorem not_direct_gate (plain : Arrival) (v : Nat) : ¬Direct ⟨plain, .gate v⟩ := nofun

variable {S : Request → Prop}

/-- The requests from `c` to `c'` all have `S`. -/
def Grows (S : Request → Prop) (c c' : Client σ) : Prop :=
  ∃ new, c'.requests = c.requests ++ new ∧ ∀ r ∈ new, S r

theorem Grows.of_eq {c c' : Client σ} (h : c'.requests = c.requests) : Grows S c c' :=
  ⟨[], by simp [h], by simp⟩

theorem Grows.trans {c c' c'' : Client σ} (h : Grows S c c') (h' : Grows S c' c'') :
    Grows S c c'' := by
  obtain ⟨new, hnew, hS⟩ := h
  obtain ⟨new', hnew', hS'⟩ := h'
  refine ⟨new ++ new', by rw [hnew', hnew, List.append_assoc], ?_⟩
  intro r hr
  rcases List.mem_append.mp hr with hr | hr
  · exact hS r hr
  · exact hS' r hr

structure Follows (S : Request → Prop) (c c' : Client σ) : Prop where
  ne2k : c'.ne2kInitialized = c.ne2kInitialized
  intNum : c'.intNum = c.intNum
  bounceSeg : c'.bounceSeg = c.bounceSeg
  thunkSeg : c'.thunkSeg = c.thunkSeg
  thunkCode : c'.thunkCode = c.thunkCode
  requests : Grows S c c'

theorem Follows.refl (c : Client σ) : Follows S c c := ⟨rfl, rfl, rfl, rfl, rfl, .of_eq rfl⟩

theorem Follows.vector {c c' : Client σ} (h : Follows S c c') : c'.vector = c.vector := by
  rw [Client.vector, Client.vector, h.intNum]

theorem Follows.trans {c c' c'' : Client σ} (h : Follows S c c') (h' : Follows S c' c'') :
    Follows S c c'' :=
  ⟨h'.ne2k.trans h.ne2k, h'.intNum.trans h.intNum, h'.bounceSeg.trans h.bounceSeg,
    h'.thunkSeg.trans h.thunkSeg, h'.thunkCode.trans h.thunkCode, h.requests.trans h'.requests⟩

theorem Follows.wired {c c' : Client σ} (h : Follows S c c') (hc : Wired c) : Wired c' := by
  intro hseg
  rw [h.thunkCode]
  exact hc (h.thunkSeg ▸ hseg)

theorem Follows.request {c : Client σ} {r : Request} (hr : S r) (s : σ) :
    Follows S c { c with requests := c.requests ++ [r], world := s } :=
  ⟨rfl, rfl, rfl, rfl, rfl, [r], rfl, by simpa using hr⟩

theorem Follows.inWorld (c : Client σ) (s : σ) : Follows S c { c with world := s } :=
  ⟨rfl, rfl, rfl, rfl, rfl, .of_eq rfl⟩

/-- `S` holds of whatever a dispatch of the client sends. -/
def Covers (S : Request → Prop) (c : Client σ) : Prop := ∀ r, Sent c.vector r → S r

theorem Follows.covers {c c' : Client σ} (h : Follows S c c') (hS : Covers S c) : Covers S c' := by
  rw [Covers, h.vector]
  exact hS

theorem dpmi0300_follows (rm : Rmcs) (bytes : List UInt8) {c : Client σ} (hS : Covers S c) :
    Follows S c (dpmi0300 p rm bytes c).2 := by
  unfold dpmi0300
  split
  · exact Follows.inWorld c _
  · exact Follows.request (hS _ (sent_direct _ _)) _

theorem callInt60Thunk_follows (rm : Rmcs) (bytes : List UInt8) {c : Client σ} (hc : Wired c)
    (hS : Covers S c) : Follows S c (callInt60Thunk p rm bytes c).2 := by
  unfold callInt60Thunk
  split
  · exact Follows.refl c
  · rename_i hseg
    have hraised : raised c.thunkCode = some 0x60 := by
      rw [hc hseg]
      decide
    dsimp only
    split
    · exact Follows.inWorld c _
    · rw [hraised]
      exact Follows.request (hS _ (.inr ⟨rfl, rfl⟩)) _

theorem dispatch_follows (rm : Rmcs) (bytes : List UInt8) {c : Client σ} (hc : Wired c)
    (hS : Covers S c) : Follows S c (dispatch p rm bytes c).2 := by
  unfold dispatch
  split
  · exact callInt60Thunk_follows p rm bytes hc hS
  · exact dpmi0300_follows p rm bytes hS

theorem bareInt_follows (rm regs : Rmcs) (c : Client σ) (hbare : ∀ r, S r) :
    Follows S c (bareInt p rm regs c).2 :=
  Follows.request (hbare _) _

theorem pktdrvAccessOne_follows (linearReceiver typeOff : Nat) {c : Client σ} (hc : Wired c)
    (hS : Covers S c)
    (hbare : (dispatch p (accessRegs linearReceiver typeOff c) [] c).1 = none → ∀ r, S r) :
    Follows S c (pktdrvAccessOne p linearReceiver typeOff c).2 := by
  have hcall := dispatch_follows p (accessRegs linearReceiver typeOff c) [] hc hS
  unfold pktdrvAccessOne
  split
  · exact Follows.refl c
  · split
    · rename_i hdispatch
      rw [hdispatch] at hcall
      exact hcall
    · rename_i hdispatch
      rw [hdispatch] at hcall hbare
      exact hcall.trans (bareInt_follows p _ _ _ (hbare rfl))

theorem Follows.withHandles {c c' : Client σ} (h : Follows S c c') (handle handleArp : Int) :
    Follows S c { c' with handle := handle, handleArp := handleArp } :=
  ⟨h.ne2k, h.intNum, h.bounceSeg, h.thunkSeg, h.thunkCode, h.requests⟩

/-- `S` holds of every request where one of the two registrations is not dispatched. -/
def CoversAccess (S : Request → Prop) (linearReceiver : Nat) (c : Client σ) : Prop :=
  ((dispatch p (accessRegs linearReceiver 6 c) [] c).1 = none → ∀ r, S r) ∧
    ∀ handle, (pktdrvAccessOne p linearReceiver 6 c).1 = some handle →
      let c' := { (pktdrvAccessOne p linearReceiver 6 c).2 with handle := handle }
      (dispatch p (accessRegs linearReceiver 4 c') [] c').1 = none → ∀ r, S r

theorem pktdrvAccess_follows (linearReceiver : Nat) {c : Client σ} (hc : Wired c)
    (hS : Covers S c) (haccess : CoversAccess p S linearReceiver c) :
    Follows S c (pktdrvAccess p linearReceiver c).2 := by
  obtain ⟨hone, htwo⟩ := haccess
  have hfirst := pktdrvAccessOne_follows p linearReceiver 6 hc hS hone
  unfold pktdrvAccess
  split
  · rename_i haccess
    rw [haccess] at hfirst
    exact hfirst
  · rename_i handle c' haccess
    rw [haccess] at hfirst htwo
    have hhandle := hfirst.withHandles handle c'.handleArp
    have hsecond := pktdrvAccessOne_follows p linearReceiver 4 (hhandle.wired hc)
      (hhandle.covers hS) (htwo handle rfl)
    exact (hhandle.trans hsecond).withHandles _ _

theorem pktdrvGetAddr_follows (out : Nat) {c : Client σ} (hc : Wired c) (hS : Covers S c)
    (hbare : c.bounceSeg = 0 → ∀ r, S r) : Follows S c (pktdrvGetAddr p out c).2 := by
  have hcall := dispatch_follows p (getAddrRegs c) [] hc hS
  unfold pktdrvGetAddr
  split
  · exact Follows.refl c
  · split
    · rename_i hbounce
      exact bareInt_follows p _ _ c (hbare hbounce)
    · split
      · rename_i hdispatch
        rw [hdispatch] at hcall
        exact hcall
      · rename_i hdispatch
        rw [hdispatch] at hcall
        exact hcall

theorem pktdrvRegisterPollingRx_follows {c : Client σ} (hc : Wired c) (hS : Covers S c)
    (hbare : c.thunkSeg = 0 → ∀ r, S r) : Follows S c (pktdrvRegisterPollingRx p c) := by
  have hcall := callInt60Thunk_follows p driverInfo [] hc hS
  unfold pktdrvRegisterPollingRx
  split
  · rename_i hthunk
    exact bareInt_follows p _ _ c (hbare hthunk)
  · split
    · rename_i hinfo
      rw [hinfo] at hcall
      exact hcall
    · rename_i hinfo
      rw [hinfo] at hcall
      split
      · exact hcall
      · split
        · exact hcall
        · exact hcall.trans
            (callInt60Thunk_follows p _ [] (hcall.wired hc) (hcall.covers hS))

/-- A send that raises the interrupt itself. -/
def SendsBare (buf : List UInt8) (c : Client σ) : Prop :=
  c.ne2kInitialized = false ∧ c.intNum ≠ 0 ∧ buf.length ≤ PKTDRV_BOUNCE_SIZE ∧ c.bounceSeg = 0

theorem pktdrvSend_follows (addr : Nat) (buf : List UInt8) {c : Client σ} (hc : Wired c)
    (hS : Covers S c) (hbare : SendsBare buf c → ∀ r, S r) :
    Follows S c (pktdrvSend p addr buf c).2 := by
  unfold pktdrvSend
  split
  · exact Follows.inWorld c _
  · rename_i hne2k
    split
    · exact Follows.refl c
    · rename_i hnone
      split
      · exact Follows.refl c
      · rename_i hlong
        split
        · rename_i hbounce
          refine bareInt_follows p _ _ c (hbare ?_)
          exact ⟨Bool.eq_false_iff.mpr hne2k, hnone, Nat.not_lt.mp hlong, hbounce⟩
        · exact dispatch_follows p _ buf hc hS

/-! ## Set-up and what it leaves -/

/-- What `pktdrv_init` leaves of a client in which it has found a driver. -/
structure Leaves (S : Request → Prop) (c c' : Client σ) : Prop where
  ne2k : c'.ne2kInitialized = c.ne2kInitialized
  intNum : c'.intNum = c.intNum ∨ c'.intNum = 0
  wired : Wired c'
  requests : Grows S c c'

theorem Follows.leaves {c c' : Client σ} (h : Follows S c c') (hc : Wired c) : Leaves S c c' :=
  ⟨h.ne2k, .inl h.intNum, h.wired hc, h.requests⟩

theorem Follows.leaves_failed {c c' : Client σ} (h : Follows S c c') (hc : Wired c) :
    Leaves S c { c' with intNum := 0 } :=
  ⟨h.ne2k, .inr rfl, h.wired hc, h.requests⟩

theorem Follows.trans_leaves {c c' c'' : Client σ} (h : Follows S c c') (h' : Leaves S c' c'') :
    Leaves S c c'' :=
  ⟨h'.ne2k.trans h.ne2k, h.intNum ▸ h'.intNum, h'.wired, h.requests.trans h'.requests⟩

theorem setRcvMode_follows {c : Client σ} (hc : Wired c) (hS : Covers S c) :
    Follows S c (setRcvMode p c) := by
  unfold setRcvMode
  split
  · exact callInt60Thunk_follows p _ [] hc hS
  · exact Follows.refl c

theorem releaseAll_follows {c : Client σ} (hc : Wired c) (hS : Covers S c) :
    Follows S c (releaseAll p c) := by
  unfold releaseAll
  split
  · exact callInt60Thunk_follows p _ [] hc hS
  · exact Follows.refl c

/-- `S` holds of every request where `register` raises the interrupt itself. -/
structure CoversRegister (S : Request → Prop) (receiver : Nat) (c : Client σ) : Prop where
  access : CoversAccess p S receiver c
  bounce : (pktdrvAccess p receiver c).1 = 0 → c.bounceSeg = 0 → ∀ r, S r
  thunk : c.thunkSeg = 0 → ∀ r, S r

abbrev Any : Request → Prop := fun _ => True

theorem covers_any (c : Client σ) : Covers Any c := fun _ _ => trivial

theorem coversRegister_any (receiver : Nat) (c : Client σ) : CoversRegister p Any receiver c :=
  ⟨⟨fun _ _ => trivial, fun _ _ _ _ => trivial⟩, fun _ _ _ => trivial, fun _ _ => trivial⟩

theorem register_accessed_leaves (mac receiver : Nat) {c : Client σ} (hc : Wired c)
    (hS : Covers S c) (haccess : Follows S c (pktdrvAccess p receiver c).2)
    (hbounce : (pktdrvAccess p receiver c).1 = 0 → c.bounceSeg = 0 → ∀ r, S r)
    (hthunk : c.thunkSeg = 0 → ∀ r, S r) :
    Leaves S (pktdrvAccess p receiver c).2 (register p mac receiver c).2 := by
  have hwired := haccess.wired hc
  have hmode := setRcvMode_follows p hwired (haccess.covers hS)
  unfold register
  dsimp only
  split
  · exact (Follows.refl _).leaves_failed hwired
  · rename_i haccepted
    have haddr := hmode.trans (pktdrvGetAddr_follows p mac (hmode.wired hwired)
      (hmode.covers (haccess.covers hS)) fun hzero =>
        hbounce (not_not.mp haccepted) (haccess.bounceSeg ▸ hmode.bounceSeg ▸ hzero))
    split
    · exact haddr.leaves_failed hwired
    · have hpolling := haddr.trans (pktdrvRegisterPollingRx_follows p (haddr.wired hwired)
        (haddr.covers (haccess.covers hS)) fun hzero =>
          hthunk (haccess.thunkSeg ▸ haddr.thunkSeg ▸ hzero))
      exact hpolling.leaves hwired

theorem register_leaves (mac receiver : Nat) {c : Client σ} (hc : Wired c) (hS : Covers S c)
    (hregister : CoversRegister p S receiver c) :
    Leaves S c (register p mac receiver c).2 :=
  have haccess := pktdrvAccess_follows p receiver hc hS hregister.access
  haccess.trans_leaves (register_accessed_leaves p mac receiver hc hS haccess hregister.bounce
    hregister.thunk)

theorem takePreallocated_wired {c : Client σ} (hc : Wired c) : Wired (takePreallocated p c) := by
  have hbounce : Wired (pktdrvAllocBounce p c).2 := by
    unfold pktdrvAllocBounce
    split_ifs <;> exact hc
  unfold takePreallocated pktdrvAllocThunk
  split_ifs
  · exact hbounce
  · exact hbounce
  · exact fun _ => rfl

theorem takePreallocated_spec (c : Client σ) :
    (takePreallocated p c).ne2kInitialized = c.ne2kInitialized ∧
      (takePreallocated p c).intNum = c.intNum ∧
      (takePreallocated p c).requests = c.requests ∧
      (p.preallocThunkSeg ≠ 0 → (takePreallocated p c).thunkSeg ≠ 0) := by
  unfold takePreallocated pktdrvAllocThunk pktdrvAllocBounce
  split_ifs <;> simp_all

theorem receiverLinear_snd (c : Client σ) :
    (receiverLinear p c).2 = { c with world := (p.allocDpmiCallback c.world).2 } := by
  unfold receiverLinear
  dsimp only
  split
  · rfl
  · split <;> rfl

def ready (c : Client σ) : Client σ := (receiverLinear p (takePreallocated p c)).2

theorem ready_wired {c : Client σ} (hc : Wired c) : Wired (ready p c) := by
  rw [ready, receiverLinear_snd]
  exact takePreallocated_wired p hc

theorem ready_spec (c : Client σ) :
    (ready p c).ne2kInitialized = c.ne2kInitialized ∧ (ready p c).intNum = c.intNum ∧
      (ready p c).requests = c.requests ∧
      (p.preallocThunkSeg ≠ 0 → (ready p c).thunkSeg ≠ 0) := by
  rw [ready, receiverLinear_snd]
  exact takePreallocated_spec p c

def released (c : Client σ) : Client σ := releaseAll p (ready p c)

def registeredReceiver (c : Client σ) : Nat := (receiverLinear p (takePreallocated p c)).1

theorem attach_eq (mac : Nat) (c : Client σ) :
    attach p mac c = register p mac (registeredReceiver p c) (released p c) := by
  unfold attach registeredReceiver released ready
  rfl

theorem ready_vector (c : Client σ) : (ready p c).vector = c.vector := by
  rw [Client.vector, Client.vector, (ready_spec p c).2.1]

theorem ready_covers {c : Client σ} (hS : Covers S c) : Covers S (ready p c) := by
  rw [Covers, ready_vector]
  exact hS

theorem released_follows {c : Client σ} (hc : Wired c) (hS : Covers S c) :
    Follows S (ready p c) (released p c) :=
  releaseAll_follows p (ready_wired p hc) (ready_covers p hS)

theorem attach_leaves (mac : Nat) {c : Client σ} (hc : Wired c) (hS : Covers S c)
    (hregister : CoversRegister p S (registeredReceiver p c) (released p c)) :
    Leaves S c (attach p mac c).2 := by
  obtain ⟨hne2k, hintNum, hrequests, -⟩ := ready_spec p c
  have hreleased := released_follows p hc hS
  have hall := hreleased.trans_leaves (register_leaves p mac _
    (hreleased.wired (ready_wired p hc)) (hreleased.covers (ready_covers p hS))
    hregister)
  have hsame : Grows S c (ready p c) := .of_eq hrequests
  rw [attach_eq]
  refine ⟨hall.ne2k.trans hne2k, ?_, hall.wired, hsame.trans hall.requests⟩
  rw [← hintNum]
  exact hall.intNum

/-! ## The same send with its staging -/

/-- The client and the machine of the driver's model agree on what both have. -/
structure Agrees (c : Client σ) (m : Machine σ) : Prop where
  ne2k : c.ne2kInitialized = m.ne2kInitialized
  intNum : c.intNum = m.intNum
  handle : c.handle = m.handle
  bounceSeg : c.bounceSeg = m.bounceSeg
  thunkSeg : c.thunkSeg = m.thunkSeg
  world : c.world = m.world

theorem serveInt_quiet (v : Nat) (code : List UInt8) {rm : Rmcs} {m : Machine σ}
    {mem : Mem UInt8} {buf : List UInt8} (hmem : m.bounce = blit mem 0 buf) (hah : rm.ah = 0x04)
    (hsi : rm.si = 0) (hcx : rm.cx = buf.length) :
    serveInt p.toDriver quiet v code rm m =
      ((p.int v rm buf m.world).1, m.served ⟨rm, code, buf, []⟩ (p.int v rm buf m.world).2) := by
  have hslice : slice m.bounce 0 buf.length = buf := by rw [hmem, slice_blit]
  simp only [serveInt, hah, if_true, Machine.loadBounce_quiet, hsi, hcx, Nat.zero_add, hslice]

theorem Agrees.inWorld {c : Client σ} {m : Machine σ} (h : Agrees c m) (s : σ) :
    Agrees { c with world := s } (m.inWorld s) :=
  ⟨h.ne2k, h.intNum, h.handle, h.bounceSeg, h.thunkSeg, rfl⟩

/-- The handler of a vector is entered in the client as in the machine. -/
theorem Agrees.enter {c : Client σ} {m : Machine σ} (h : Agrees c m) {mem : Mem UInt8}
    {buf : List UInt8} (hmem : m.bounce = blit mem 0 buf) (rm : Rmcs) (hah : rm.ah = 0x04)
    (hsi : rm.si = 0) (hcx : rm.cx = buf.length) (plain : Arrival) (v : Nat) (code : List UInt8) :
    (enter p plain v rm buf c).1 = (serveInt p.toDriver quiet v code rm m).1 ∧
      Agrees (enter p plain v rm buf c).2 (serveInt p.toDriver quiet v code rm m).2 := by
  rw [serveInt_quiet p v code hmem hah hsi hcx, Requests.enter, h.world]
  exact ⟨rfl, h.ne2k, h.intNum, h.handle, h.bounceSeg, h.thunkSeg, rfl⟩

theorem dispatch_agrees {c : Client σ} {m : Machine σ} (h : Agrees c m) (hc : Wired c)
    {mem : Mem UInt8} {buf : List UInt8} (hmem : m.bounce = blit mem 0 buf) {rm : Rmcs}
    (hah : rm.ah = 0x04) (hsi : rm.si = 0) (hcx : rm.cx = buf.length) :
    (dispatch p rm buf c).1 = (dispatchSend p.toDriver quiet rm m).1 ∧
      Agrees (dispatch p rm buf c).2 (dispatchSend p.toDriver quiet rm m).2 := by
  have hvector : c.vector = toU32 m.intNum &&& 0xFF := by rw [Client.vector, h.intNum]
  have hworld := h.world
  by_cases hseg : m.thunkSeg = 0
  · rw [dispatch, dispatchSend, if_neg (by simp [h.thunkSeg, hseg]), if_neg (by simp [hseg]),
      dpmi0300, Pktdrv.dpmi0300, hworld]
    cases hdpmi : p.dpmi rm m.world with
    | mk carry s =>
        cases carry with
        | true => exact ⟨rfl, h.inWorld s⟩
        | false =>
            obtain ⟨hrm, hagrees⟩ := (h.inWorld s).enter p hmem rm hah hsi hcx
              ⟨c.vector, entry rm⟩ c.vector []
            rw [hvector] at hrm hagrees
            dsimp only
            rw [hvector]
            exact ⟨congrArg some hrm, hagrees⟩
  · have hseg' : c.thunkSeg ≠ 0 := h.thunkSeg ▸ hseg
    have hraised : raised c.thunkCode = some 0x60 := by
      rw [hc hseg']
      decide
    have hregs : thunkRegs c.thunkSeg rm = thunkRegs m.thunkSeg rm := by rw [h.thunkSeg]
    rw [dispatch, dispatchSend, if_pos hseg', if_pos hseg, callInt60Thunk, pktdrvCallInt60Thunk,
      if_neg hseg', if_neg hseg, hworld, hregs]
    dsimp only
    cases hdpmi : p.dpmi (thunkRegs m.thunkSeg rm) m.world with
    | mk carry s =>
        cases carry with
        | true => exact ⟨rfl, h.inWorld s⟩
        | false =>
            obtain ⟨hrm, hagrees⟩ := (h.inWorld s).enter p hmem
              (thunkRegs m.thunkSeg rm) hah hsi hcx ⟨c.vector, entry rm⟩ 0x60 int60Code
            dsimp only
            rw [hraised]
            exact ⟨congrArg some hrm, hagrees⟩

/-- On the real-mode path a send does what it does while no packet arrives. -/
theorem pktdrvSend_agrees {c : Client σ} {m : Machine σ} (h : Agrees c m) (hc : Wired c)
    (hbounce : m.bounceSeg ≠ 0) (addr : Nat) (buf : List UInt8) :
    (pktdrvSend p addr buf c).1 = (Pktdrv.pktdrvSend p.toDriver quietSend buf m).1 ∧
      Agrees (pktdrvSend p addr buf c).2 (Pktdrv.pktdrvSend p.toDriver quietSend buf m).2 := by
  by_cases hne2k : m.ne2kInitialized
  · rw [pktdrvSend, Pktdrv.pktdrvSend, if_pos hne2k, if_pos (h.ne2k.trans hne2k), h.world]
    exact ⟨rfl, h.inWorld _⟩
  · have hne2k' : ¬c.ne2kInitialized := by rwa [h.ne2k]
    rw [pktdrvSend, Pktdrv.pktdrvSend, if_neg hne2k, if_neg hne2k', h.intNum, h.bounceSeg]
    split_ifs with hnone hlong
    · exact ⟨rfl, h⟩
    · exact ⟨rfl, h⟩
    · have hregs : Pktdrv.sendRegs (m.withMem (blit m.bounce 0 buf) m.stub) buf.length =
          sendRegs buf.length c := by
        rw [Pktdrv.sendRegs, sendRegs, h.handle, h.bounceSeg]
        rfl
      have hcx : (sendRegs buf.length c).cx = buf.length :=
        Nat.mod_eq_of_lt (Nat.lt_of_le_of_lt (Nat.not_lt.mp hlong) (by decide))
      have hah : (sendRegs buf.length c).ah = 0x04 := by simp [sendRegs, Rmcs.ah]
      have hstaged : Agrees c (outImr (m.slaveImr ||| 0x0A)
          (m.withMem (blit m.bounce 0 buf) m.stub)) :=
        ⟨h.ne2k, h.intNum, h.handle, h.bounceSeg, h.thunkSeg, h.world⟩
      obtain ⟨hrm, hagrees⟩ := dispatch_agrees p hstaged hc rfl hah rfl hcx
      have hstore : m.storeBounce quietSend.copy 0 0 buf =
          m.withMem (blit m.bounce 0 buf) m.stub := m.storeBounce_quiet 0 0 buf
      rw [hstore]
      dsimp only [quietSend]
      rw [Machine.interrupts_nil, Machine.interrupts_nil, hregs]
      exact ⟨congrArg sendResult hrm, hagrees.ne2k, hagrees.intNum, hagrees.handle,
        hagrees.bounceSeg, hagrees.thunkSeg, hagrees.world⟩

end FreedosMicroPython.Net.Requests
