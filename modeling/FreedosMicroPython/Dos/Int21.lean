import FreedosMicroPython.Host
/-!
# DOS calls through the real-mode thunk

`port/dosint21_uc386dos.c`: each DOS service is entered through a three-byte
thunk in conventional memory by DPMI function 0301h, with `DS:DX` in the bounce
paragraph. A failing call is `Except.error` with the value of `*err_out`: the DOS
error code, or 0 when DOS was not reached.
-/

namespace FreedosMicroPython.Dos.Int21

open FreedosMicroPython.Host FreedosMicroPython.Lib.Memory

/-! ## What answers the calls -/

/-- The registers after `INT 21h` and the bytes DOS stored at `DS:DX`. -/
structure Reply where
  rm : Rmcs
  stored : List UInt8
  deriving DecidableEq, Repr

/-- DOS and the DPMI host below the port, over a state of their own. -/
structure World (σ : Type) where
  /-- The selector for a real-mode segment, unless the carry flag is set. -/
  dpmi0002 : Nat → σ → Option Nat × σ
  /-- `CX` and `DX`, the base of a selector, unless the carry flag is set. -/
  dpmi0006 : Nat → σ → Option (Nat × Nat) × σ
  /-- Bytes stored through this linear address read back. -/
  readsBack : Nat → σ → Bool
  /-- The carry flag of the far call into real mode. -/
  dpmi0301 : Rmcs → σ → Bool × σ
  /-- The service in `AH`, given the bytes it finds at `DS:DX`. -/
  int21 : Rmcs → List UInt8 → σ → Reply × σ
  stored_le : ∀ rm bs s, (int21 rm bs s).1.stored.length ≤ if rm.ah = 0x3F then rm.cx else 0
  stored_ax : ∀ rm bs s, rm.ah = 0x3F → (int21 rm bs s).1.rm.carry = false →
    (int21 rm bs s).1.stored.length = (int21 rm bs s).1.rm.ax

variable {σ : Type} (d : World σ)

/-- The packets that arrive during one call: before each byte of the staging
copy, before DOS is entered, before each byte DOS reads or stores, before it
returns, and before each byte of the copy back. -/
structure CallIrqs where
  copy : Nat → List Frame
  enter : List Frame
  dos : Nat → List Frame
  leave : List Frame
  out : Nat → List Frame

def quietCall : CallIrqs := ⟨quiet, [], quiet, [], quiet⟩

/-- A C string: no byte of it is NUL. -/
structure CString where
  bytes : List UInt8
  nonzero : ∀ b ∈ bytes, b ≠ 0
  deriving DecidableEq

def CString.asciiz (path : CString) : List UInt8 := path.bytes ++ [0]

def toU32 (x : Int) : Nat := (x % 0x100000000).toNat

def toLong (x : Nat) : Int := if x < 0x80000000 then x else (x : Int) - 0x100000000

/-! ## Arming the thunk -/

def thunkCode : List UInt8 := [0xCD, 0x21, 0xCB]

/-- The linear address of a segment by DPMI functions 0002h and 0006h, 0 when
one of them fails. -/
def linearDpmi (seg : Nat) (s : σ) : Nat × σ :=
  match d.dpmi0002 seg s with
  | (none, s) => (0, s)
  | (some ax, s) =>
      match d.dpmi0006 (ax &&& 0xFFFF) s with
      | (none, s) => (0, s)
      | (some (cx, dx), s) => (((cx &&& 0xFFFF) <<< 16) ||| (dx &&& 0xFFFF), s)

/-- Try one candidate address: write the thunk and read it back. -/
def armThunk (seg linear : Nat) (s : σ) : Option Int21Thunk :=
  if linear ≠ 0 ∧ d.readsBack linear s then some ⟨seg, linear, true, thunkCode⟩ else none

def thunkInit (seg : Nat) (t : Int21Thunk) (s : σ) : Bool × Int21Thunk × σ :=
  if t.ready then (true, t, s)
  else if seg = 0 then (false, t, s)
  else
    let (linear, s) := linearDpmi d seg s
    let linearShift := seg <<< 4
    match armThunk d seg linear s with
    | some t => (true, t, s)
    | none =>
        if linearShift = linear then (false, t, s)
        else
          match armThunk d seg linearShift s with
          | some t => (true, t, s)
          | none => (false, t, s)

def dosInt21ThunkInit (m : Machine σ) : Bool × Machine σ :=
  let (ok, t, s) := thunkInit d m.i21PreallocThunkSeg m.i21Thunk m.world
  (ok, { m with i21Thunk := t, world := s })

/-! ## The call gate -/

/-- The registers `dos_int21_call` enters real mode with: `CS:IP` at the thunk,
the preallocated stack if there is one, interrupts enabled. -/
def entryRegs (t : Int21Thunk) (rmStackSeg rmStackBytes : Nat) (rm : Rmcs) : Rmcs :=
  { rm with
    cs := t.seg &&& 0xFFFF
    ip := 0
    ss := if rmStackSeg ≠ 0 then rmStackSeg &&& 0xFFFF else 0
    sp := if rmStackSeg ≠ 0 then (rmStackBytes - 2) &&& 0xFFFF else 0
    flags := 0x0202 }

def repairThunk (t : Int21Thunk) : Int21Thunk :=
  if t.linear ≠ 0 ∧ t.code ≠ thunkCode then { t with code := thunkCode } else t

/-- How far DOS may read for the end of a path. -/
def asciizLimit : Nat := 0x10000

def takeOperand (irqs : Nat → List Frame) (rm : Rmcs) (m : Machine σ) :
    List UInt8 × Machine σ :=
  if rm.ah = 0x3D ∨ rm.ah = 0x3C then m.loadAsciiz irqs rm.dx 0 asciizLimit
  else if rm.ah = 0x40 then m.loadBounce irqs rm.dx 0 rm.cx
  else ([], m)

def int21 (irqs : CallIrqs) (rm : Rmcs) (m : Machine σ) : Rmcs × Machine σ :=
  let (taken, m) := takeOperand irqs.dos rm m
  let (reply, s) := d.int21 rm taken m.world
  let m := m.served ⟨rm, m.i21Thunk.code, taken, reply.stored⟩ s
  let m := m.storeBounce irqs.dos rm.dx 0 reply.stored
  (reply.rm, m.interrupts irqs.leave)

/-- The far call through DPMI function 0301h, on a stack of its own. -/
def dpmi0301CallShallow (irqs : CallIrqs) (rm : Rmcs) (m : Machine σ) :
    Option Rmcs × Machine σ :=
  match d.dpmi0301 rm m.world with
  | (true, s) => (none, { m with world := s }.interrupts irqs.enter)
  | (false, s) =>
      let (rm, m) := int21 d irqs rm ({ m with world := s }.interrupts irqs.enter)
      (some rm, m)

def dosInt21Call (irqs : CallIrqs) (rm : Rmcs) (m : Machine σ) : Option Rmcs × Machine σ :=
  match dosInt21ThunkInit d m with
  | (false, m) => (none, m)
  | (true, m) =>
      let rm := entryRegs m.i21Thunk m.rmStackSeg m.rmStackBytes rm
      dpmi0301CallShallow d irqs rm { m with i21Thunk := repairThunk m.i21Thunk }

/-! ## The services -/

def bounceMissing (m : Machine σ) : Bool :=
  m.preallocBounceSeg = 0 || m.preallocBounceLinear = 0

def result (rm : Option Rmcs) : Except Nat Rmcs :=
  match rm with
  | none => .error 0
  | some rm => if rm.carry then .error rm.ax else .ok rm

def openRegs (m : Machine σ) (dosAccessMode : Nat) : Rmcs :=
  { eax := 0x3D00 ||| (dosAccessMode &&& 0xFF), ds := m.preallocBounceSeg &&& 0xFFFF, edx := 0 }

def creatRegs (m : Machine σ) : Rmcs :=
  { eax := 0x3C00, ecx := 0, ds := m.preallocBounceSeg &&& 0xFFFF, edx := 0 }

/-- `dos_int21_open` and `dos_int21_creat` apart from their registers. -/
def pathCall (irqs : CallIrqs) (path : CString) (regs : Rmcs) (m : Machine σ) :
    Except Nat Nat × Machine σ :=
  if bounceMissing m then (.error 0, m)
  else if 1024 ≤ path.bytes.length then (.error 0, m)
  else
    let m := m.storeBounce irqs.copy 0 0 path.asciiz
    let (rm, m) := dosInt21Call d irqs regs m
    ((result rm).map Rmcs.ax, m)

def dosInt21Open (irqs : CallIrqs) (path : CString) (dosAccessMode : Nat) (m : Machine σ) :
    Except Nat Nat × Machine σ :=
  pathCall d irqs path (openRegs m dosAccessMode) m

def dosInt21Creat (irqs : CallIrqs) (path : CString) (m : Machine σ) :
    Except Nat Nat × Machine σ :=
  pathCall d irqs path (creatRegs m) m

def DOS_BOUNCE_DATA_OFFSET : Nat := 1024

def DOS_BOUNCE_DATA_MAX : Nat := 1024

def transferRegs (m : Machine σ) (ah : Nat) (fd : Int) (count : Nat) : Rmcs :=
  { eax := ah * 0x100
    ebx := toU32 fd
    ecx := count
    ds := m.preallocBounceSeg &&& 0xFFFF
    edx := DOS_BOUNCE_DATA_OFFSET }

/-- `dos_int21_read`: the bytes copied to the caller's buffer. -/
def dosInt21Read (irqs : CallIrqs) (fd : Int) (count : Nat) (m : Machine σ) :
    Except Nat (List UInt8) × Machine σ :=
  if bounceMissing m then (.error 0, m)
  else if count = 0 then (.ok [], m)
  else
    let count := min count DOS_BOUNCE_DATA_MAX
    let (rm, m) := dosInt21Call d irqs (transferRegs m 0x3F fd count) m
    match result rm with
    | .error e => (.error e, m)
    | .ok rm =>
        let (bs, m) := m.loadBounce irqs.out DOS_BOUNCE_DATA_OFFSET 0 (min rm.ax count)
        (.ok bs, m)

/-- `dos_int21_write`: the number of bytes DOS took. -/
def dosInt21Write (irqs : CallIrqs) (fd : Int) (buf : List UInt8) (m : Machine σ) :
    Except Nat Nat × Machine σ :=
  if bounceMissing m then (.error 0, m)
  else if buf = [] then (.ok 0, m)
  else
    let buf := buf.take DOS_BOUNCE_DATA_MAX
    let m := m.storeBounce irqs.copy DOS_BOUNCE_DATA_OFFSET 0 buf
    let (rm, m) := dosInt21Call d irqs (transferRegs m 0x40 fd buf.length) m
    ((result rm).map Rmcs.ax, m)

def dosInt21Close (irqs : CallIrqs) (fd : Int) (m : Machine σ) : Except Nat Unit × Machine σ :=
  let (rm, m) := dosInt21Call d irqs { eax := 0x3E00, ebx := toU32 fd } m
  ((result rm).map fun _ => (), m)

def dosInt21Lseek (irqs : CallIrqs) (fd : Int) (offset : Int) (whence : Nat) (m : Machine σ) :
    Except Nat Int × Machine σ :=
  let rm : Rmcs :=
    { eax := 0x4200 ||| (whence &&& 0xFF)
      ebx := toU32 fd
      ecx := (toU32 offset >>> 16) &&& 0xFFFF
      edx := toU32 offset &&& 0xFFFF }
  let (rm, m) := dosInt21Call d irqs rm m
  ((result rm).map fun rm => toLong (((rm.edx &&& 0xFFFF) <<< 16) ||| (rm.eax &&& 0xFFFF)), m)

/-- `dos_int21_fsize`; `none` is -1. -/
def dosInt21Fsize (irqs : CallIrqs) (fd : Int) (m : Machine σ) : Option Int × Machine σ :=
  match dosInt21Lseek d irqs fd 0 1 m with
  | (.error _, m) => (none, m)
  | (.ok cur, m) =>
      if cur < 0 then (none, m)
      else
        match dosInt21Lseek d irqs fd 0 2 m with
        | (.error _, m) => (none, m)
        | (.ok eof, m) =>
            if eof < 0 then (none, m)
            else
              let (_, m) := dosInt21Lseek d irqs fd cur 0 m
              (some eof, m)

/-! ## The registers of the services -/

theorem ah_openRegs (m : Machine σ) (mode : Nat) : (openRegs m mode).ah = 0x3D := by
  have h : (0x3D00 ||| mode &&& 0xFF) / 256 = 0x3D := service_or 0x3D mode
  simp only [openRegs, Rmcs.ah, h]

theorem ah_creatRegs (m : Machine σ) : (creatRegs m).ah = 0x3C := by
  simp [creatRegs, Rmcs.ah]

theorem ah_transferRegs (m : Machine σ) (ah : Nat) (fd : Int) (count : Nat) :
    (transferRegs m ah fd count).ah = ah % 256 := by
  simp [transferRegs, Rmcs.ah]

theorem cx_transferRegs (m : Machine σ) (ah : Nat) (fd : Int) {count : Nat}
    (h : count < 0x10000) : (transferRegs m ah fd count).cx = count := Nat.mod_eq_of_lt h

theorem dx_transferRegs (m : Machine σ) (ah : Nat) (fd : Int) (count : Nat) :
    (transferRegs m ah fd count).dx = DOS_BOUNCE_DATA_OFFSET := rfl

def idleDos : World Unit where
  dpmi0002 _ s := (none, s)
  dpmi0006 _ s := (none, s)
  readsBack _ _ := true
  dpmi0301 _ s := (false, s)
  int21 _ _ s := (⟨{}, []⟩, s)
  stored_le _ _ _ := Nat.zero_le _
  stored_ax _ _ _ _ _ := rfl

end FreedosMicroPython.Dos.Int21
