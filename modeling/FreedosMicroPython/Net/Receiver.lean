import FreedosMicroPython.Lib.Runs
import FreedosMicroPython.Net.Pktdrv
/-!
# The receiver in C

Reception without a thunk paragraph. The packet driver calls the receiver twice for a
packet, through the DPMI callback, and in between copies the packet to the real-mode
address that the first call has left in `ES:DI`. `pktdrv_recv` drains the one slot there
is, at any point.
-/

namespace FreedosMicroPython.Net.Receiver

open FreedosMicroPython.Lib.Memory FreedosMicroPython.Lib.Runs
open FreedosMicroPython.Host FreedosMicroPython.Net.Pktdrv

/-! ## The receiver -/

/-- Where the two buffers are, and which flat address is behind a real-mode one. -/
structure Layout where
  bounceSeg : Nat
  bounceLinear : Nat
  rxBuf : Nat
  flat : Nat → Nat

inductive Progress where
  | idle
  | granted (f : Frame)
  | copied (f : Frame)
  deriving DecidableEq

structure State where
  /-- Flat memory. -/
  mem : Mem UInt8
  /-- `pktdrv_rmcs`. -/
  rmcs : Rmcs
  rxPending : Bool
  rxLen : Nat
  driver : Progress

def start (mem : Mem UInt8) (rmcs : Rmcs) : State := ⟨mem, rmcs, false, 0, .idle⟩

variable (l : Layout)

def Layout.buffer (len : Nat) : Nat :=
  if l.bounceSeg ≠ 0 ∧ len ≤ PKTDRV_BOUNCE_SIZE then l.bounceLinear else l.rxBuf

def receiver (phase len : Nat) (s : State) : Nat × State :=
  if phase = 0 then
    if s.rxPending ∨ PKTDRV_MAX_FRAME < len then (0, s)
    else (l.buffer len, { s with rxLen := len })
  else
    let mem :=
      if l.bounceSeg ≠ 0 ∧ s.rxLen ≤ PKTDRV_MAX_FRAME then
        blit s.mem l.rxBuf (slice s.mem l.bounceLinear s.rxLen)
      else s.mem
    (0, { s with mem := mem, rxPending := true })

def dpmiThunkC (s : State) : State :=
  let phase := s.rmcs.eax &&& 0xFFFF
  let length := s.rmcs.ecx &&& 0xFFFF
  let (buf, s) := receiver l phase length s
  if phase = 0 ∧ buf ≠ 0 then
    { s with rmcs := { s.rmcs with
        es := (buf >>> 4) &&& 0xFFFF
        edi := (buf &&& 0xF) ||| (s.rmcs.edi &&& 0xFFFF0000) } }
  else s

def recv (maxlen : Nat) (s : State) : List UInt8 × State :=
  if s.rxPending then
    (slice s.mem l.rxBuf (min s.rxLen maxlen), { s with rxPending := false, rxLen := 0 })
  else ([], s)

/-! ## The packet driver -/

def called (ax cx : Nat) (rm : Rmcs) : Rmcs :=
  { rm with
    eax := rm.eax / 0x10000 * 0x10000 + ax
    ecx := rm.ecx / 0x10000 * 0x10000 + cx }

/-- The driver's copy to `ES:DI`, from its byte `i` on. -/
def driverCopy (rm : Rmcs) : Nat → List UInt8 → Mem UInt8 → Mem UInt8
  | _, [], mem => mem
  | i, b :: bs, mem =>
      driverCopy rm (i + 1) bs (blit mem (l.flat (rm.es * 16 + (rm.edi + i) % 0x10000)) [b])

/-- A step of the packet driver, with the other registers it calls with, or a poll. -/
inductive Event where
  | phase0 (rm : Rmcs) (f : Frame)
  | copy
  | phase1 (rm : Rmcs)
  | recv (maxlen : Nat)

def Grants (f : Frame) (s : State) : Prop := (receiver l 0 f.bytes.length s).1 ≠ 0

instance (f : Frame) (s : State) : Decidable (Grants l f s) := inferInstanceAs (Decidable (_ ≠ _))

def step (s : State) : Event → State
  | .phase0 rm f =>
      { dpmiThunkC l { s with rmcs := called 0 f.bytes.length rm } with
        driver := if Grants l f s then .granted f else .idle }
  | .copy =>
      match s.driver with
      | .granted f => { s with mem := driverCopy l s.rmcs 0 f.bytes s.mem, driver := .copied f }
      | _ => s
  | .phase1 rm => { dpmiThunkC l { s with rmcs := called 1 (rm.cx) rm } with driver := .idle }
  | .recv maxlen => (recv l maxlen s).2

/-- The driver takes its steps in turn, and the caller's buffer holds any frame. -/
def Allowed (s : State) : Event → Prop
  | .phase0 _ _ => s.driver = .idle
  | .copy => ∃ f, s.driver = .granted f
  | .phase1 _ => ∃ f, s.driver = .copied f
  | .recv maxlen => PKTDRV_MAX_FRAME ≤ maxlen

def nonempty (fs : List (List UInt8)) : List (List UInt8) := fs.filter (· ≠ [])

def granted (s : State) : Event → List (List UInt8)
  | .phase0 _ f => if Grants l f s then nonempty [f.bytes] else []
  | _ => []

def returned (s : State) : Event → List (List UInt8)
  | .recv maxlen => nonempty [(recv l maxlen s).1]
  | _ => []

/-- The frame that was granted a buffer and has not been drained. -/
def undrained (s : State) : List (List UInt8) :=
  match s.driver with
  | .idle => if s.rxPending then [slice s.mem l.rxBuf s.rxLen] else []
  | .granted f => [f.bytes]
  | .copied f => [f.bytes]

/-- The buffers that are granted lie below 1 MB, where flat and real-mode addresses are
the same. -/
def Conventional : Prop :=
  ∀ len ≤ PKTDRV_MAX_FRAME, l.buffer len ≠ 0 ∧ l.buffer len < 0x100000 ∧
    ∀ i < len, l.flat (l.buffer len + i) = l.buffer len + i

/-! ## The calls -/

def address (rm : Rmcs) : Nat := rm.es * 16 + rm.edi % 0x10000

theorem address_encoded (rm : Rmcs) {linear : Nat} (h : linear < 0x100000) :
    address { rm with
      es := (linear >>> 4) &&& 0xFFFF
      edi := (linear &&& 0xF) ||| (rm.edi &&& 0xFFFF0000) } = linear ∧
    ((linear &&& 0xF) ||| (rm.edi &&& 0xFFFF0000)) % 0x10000 < 16 := by
  have hes : (linear >>> 4) &&& 0xFFFF = linear / 16 := by
    rw [show (0xFFFF : Nat) = 2 ^ 16 - 1 from rfl, Nat.and_two_pow_sub_one_eq_mod,
      Nat.shiftRight_eq_div_pow]
    omega
  have hdi : ((linear &&& 0xF) ||| (rm.edi &&& 0xFFFF0000)) % 0x10000 = linear % 16 := by
    rw [show (0x10000 : Nat) = 2 ^ 16 from rfl, Nat.or_mod_two_pow,
      Nat.and_mod_two_pow (a := rm.edi), show (0xFFFF0000 : Nat) % 2 ^ 16 = 0 from rfl,
      Nat.and_zero, Nat.or_zero, show (0xF : Nat) = 2 ^ 4 - 1 from rfl,
      Nat.and_two_pow_sub_one_eq_mod]
    omega
  refine ⟨?_, by omega⟩
  show ((linear >>> 4) &&& 0xFFFF) * 16 + _ = linear
  rw [hes, hdi]
  omega

theorem called_ax {ax : Nat} (hax : ax < 0x10000) (cx : Nat) (rm : Rmcs) :
    (called ax cx rm).eax &&& 0xFFFF = ax := by
  rw [show (0xFFFF : Nat) = 2 ^ 16 - 1 from rfl, Nat.and_two_pow_sub_one_eq_mod]
  show (rm.eax / 0x10000 * 0x10000 + ax) % 0x10000 = ax
  omega

theorem called_cx (ax : Nat) {cx : Nat} (hcx : cx < 0x10000) (rm : Rmcs) :
    (called ax cx rm).ecx &&& 0xFFFF = cx := by
  rw [show (0xFFFF : Nat) = 2 ^ 16 - 1 from rfl, Nat.and_two_pow_sub_one_eq_mod]
  show (rm.ecx / 0x10000 * 0x10000 + cx) % 0x10000 = cx
  omega

variable {l}

theorem grants_iff (hl : Conventional l) {f : Frame} {s : State} :
    Grants l f s ↔ s.rxPending = false ∧ f.bytes.length ≤ PKTDRV_MAX_FRAME := by
  unfold Grants receiver
  rw [if_pos rfl]
  split
  · rename_i hrefused
    refine ⟨fun h => absurd rfl h, ?_⟩
    rintro ⟨hpending, hlen⟩
    rcases hrefused with h | h
    · rw [hpending] at h
      exact absurd h (by decide)
    · omega
  · rename_i hgranted
    obtain ⟨hpending, hlen⟩ := not_or.mp hgranted
    have hlen := Nat.not_lt.mp hlen
    exact ⟨fun _ => ⟨Bool.eq_false_iff.mpr hpending, hlen⟩, fun _ => (hl _ hlen).1⟩

/-- What the stub leaves behind when the receiver has answered. -/
theorem dpmiThunkC_eq (s s' : State) (buf : Nat) {phase length : Nat}
    (hphase : s.rmcs.eax &&& 0xFFFF = phase) (hlength : s.rmcs.ecx &&& 0xFFFF = length)
    (hcall : receiver l phase length s = (buf, s')) :
    dpmiThunkC l s =
      if phase = 0 ∧ buf ≠ 0 then
        { s' with rmcs := { s'.rmcs with
            es := (buf >>> 4) &&& 0xFFFF
            edi := (buf &&& 0xF) ||| (s'.rmcs.edi &&& 0xFFFF0000) } }
      else s' := by
  unfold dpmiThunkC
  rw [hphase, hlength]
  dsimp only
  rw [hcall]

theorem phase0_refused (hl : Conventional l) {f : Frame} {s : State} (h : ¬Grants l f s)
    (rm : Rmcs) :
    step l s (.phase0 rm f) =
      { s with rmcs := called 0 f.bytes.length rm, driver := .idle } := by
  have hrefused : s.rxPending ∨ PKTDRV_MAX_FRAME < f.bytes.length := by
    by_contra hgranted
    obtain ⟨hpending, hlen⟩ := not_or.mp hgranted
    exact h ((grants_iff hl).mpr ⟨Bool.eq_false_iff.mpr hpending, Nat.not_lt.mp hlen⟩)
  have hcall : receiver l 0 f.bytes.length { s with rmcs := called 0 f.bytes.length rm } =
      (0, { s with rmcs := called 0 f.bytes.length rm }) := by
    rw [receiver, if_pos rfl, if_pos hrefused]
  rw [step, if_neg h, dpmiThunkC_eq _ _ _ (called_ax (by decide) _ rm)
    (called_cx 0 f.fits rm) hcall, if_neg (by simp)]

theorem phase0_granted (hl : Conventional l) {f : Frame} {s : State} (h : Grants l f s)
    (rm : Rmcs) :
    ∃ rmcs, address rmcs = l.buffer f.bytes.length ∧ rmcs.edi % 0x10000 < 16 ∧
      step l s (.phase0 rm f) =
        { s with rmcs := rmcs, rxLen := f.bytes.length, driver := .granted f } := by
  obtain ⟨hpending, hlen⟩ := (grants_iff hl).mp h
  obtain ⟨hne, hlow, -⟩ := hl _ hlen
  obtain ⟨haddress, hdi⟩ := address_encoded (called 0 f.bytes.length rm) hlow
  have hgranted : ¬(s.rxPending ∨ PKTDRV_MAX_FRAME < f.bytes.length) :=
    not_or.mpr ⟨by simp [hpending], Nat.not_lt.mpr hlen⟩
  have hcall : receiver l 0 f.bytes.length { s with rmcs := called 0 f.bytes.length rm } =
      (l.buffer f.bytes.length,
        { s with rmcs := called 0 f.bytes.length rm, rxLen := f.bytes.length }) := by
    rw [receiver, if_pos rfl, if_neg hgranted]
  refine ⟨_, haddress, hdi, ?_⟩
  rw [step, if_pos h, dpmiThunkC_eq _ _ _ (called_ax (by decide) _ rm)
    (called_cx 0 f.fits rm) hcall, if_pos ⟨rfl, hne⟩]

/-- A second call takes the frame over from the bounce if that is in use. -/
theorem phase1_spec {f : Frame} {s : State} (hlen : s.rxLen = f.bytes.length)
    (hfits : f.bytes.length ≤ PKTDRV_MAX_FRAME)
    (hcopied : slice s.mem (l.buffer f.bytes.length) f.bytes.length = f.bytes) (rm : Rmcs) :
    (step l s (.phase1 rm)).driver = .idle ∧ (step l s (.phase1 rm)).rxPending = true ∧
      (step l s (.phase1 rm)).rxLen = f.bytes.length ∧
      slice (step l s (.phase1 rm)).mem l.rxBuf f.bytes.length = f.bytes := by
  have hbounce : f.bytes.length ≤ PKTDRV_BOUNCE_SIZE := Nat.le_trans hfits (by decide)
  rw [step, dpmiThunkC_eq _ _ _ (called_ax (by decide) _ rm)
    (called_cx 1 (Nat.mod_lt _ (by decide)) rm) (by rw [receiver, if_neg (by decide)]),
    if_neg (by simp)]
  by_cases hseg : l.bounceSeg = 0
  · rw [Layout.buffer, if_neg (by simp [hseg])] at hcopied
    simpa [hseg, hlen] using hcopied
  · rw [Layout.buffer, if_pos ⟨hseg, hbounce⟩] at hcopied
    have hblit := slice_blit s.mem l.rxBuf f.bytes
    simpa [hseg, hlen, hfits, hcopied] using hblit

theorem driverCopy_eq_blit {rm : Rmcs} {linear : Nat} (haddress : address rm = linear) (i : Nat)
    (bs : List UInt8) (hdi : rm.edi % 0x10000 + i + bs.length ≤ 0x10000)
    (hflat : ∀ j < i + bs.length, l.flat (linear + j) = linear + j) (mem : Mem UInt8) :
    driverCopy l rm i bs mem = blit mem (linear + i) bs := by
  induction bs generalizing i mem with
  | nil => simp [driverCopy]
  | cons b bs ih =>
      rw [List.length_cons] at hdi hflat
      have hat : rm.es * 16 + (rm.edi + i) % 0x10000 = linear + i := by
        have hmod : (rm.edi + i) % 0x10000 = rm.edi % 0x10000 + i := by omega
        rw [hmod, ← haddress, address]
        omega
      rw [driverCopy, hat, hflat i (by omega), ih (i + 1) (by omega)
        (fun j hj => hflat j (by omega)), ← Nat.add_assoc, blit_cons]

/-- `recv` is what `pktdrv_recv` of the driver's model does without a thunk. -/
theorem recv_eq_pktdrvRecv {σ : Type} (n : Driver σ) {m : Machine σ}
    (hne2k : m.ne2kInitialized = false) (hthunk : m.thunkSeg = 0) {s : State}
    (hbuf : ∀ i, m.rxBuf i = s.mem (l.rxBuf + i)) (hpending : m.rxPending = s.rxPending)
    (hlen : m.rxLen = s.rxLen) (maxlen : Nat) :
    (pktdrvRecv n maxlen m).1 = (recv l maxlen s).1 ∧
      (pktdrvRecv n maxlen m).2.rxPending = (recv l maxlen s).2.rxPending ∧
      (pktdrvRecv n maxlen m).2.rxLen = (recv l maxlen s).2.rxLen := by
  have hslice : slice m.rxBuf 0 (min m.rxLen maxlen) =
      slice s.mem l.rxBuf (min s.rxLen maxlen) := by
    simp [slice, hbuf, hlen]
  have hpoll : pktdrvPollRmstub m = m := if_pos hthunk
  cases hp : s.rxPending with
  | false => simp [pktdrvRecv, hne2k, hpoll, hpending, recv, hp, hlen]
  | true => simp [pktdrvRecv, hne2k, hpoll, hpending, recv, hp, hslice]

/-! ## What a step does -/

/-- The slot and the driver's registers are as far as the driver is. -/
def Consistent (l : Layout) (s : State) : Prop :=
  match s.driver with
  | .idle => s.rxPending = true → s.rxLen ≤ PKTDRV_MAX_FRAME
  | .granted f => s.rxPending = false ∧ s.rxLen = f.bytes.length ∧
      f.bytes.length ≤ PKTDRV_MAX_FRAME ∧ address s.rmcs = l.buffer f.bytes.length ∧
      s.rmcs.edi % 0x10000 < 16
  | .copied f => s.rxPending = false ∧ s.rxLen = f.bytes.length ∧
      f.bytes.length ≤ PKTDRV_MAX_FRAME ∧
      slice s.mem (l.buffer f.bytes.length) f.bytes.length = f.bytes

/-- The step keeps to the protocol and loses nothing. -/
def Keeps (l : Layout) (s : State) (e : Event) : Prop :=
  Consistent l (step l s e) ∧
    nonempty (undrained l s) ++ granted l s e =
      returned l s e ++ nonempty (undrained l (step l s e))

theorem keeps_phase0 (hl : Conventional l) {s : State} (hidle : s.driver = .idle)
    (hs : Consistent l s) (rm : Rmcs) (f : Frame) : Keeps l s (.phase0 rm f) := by
  by_cases hgrants : Grants l f s
  · obtain ⟨rmcs, haddress, hdi, hstep⟩ := phase0_granted hl hgrants rm
    obtain ⟨hpending, hlen⟩ := (grants_iff hl).mp hgrants
    rw [Keeps, hstep]
    refine ⟨⟨hpending, rfl, hlen, haddress, hdi⟩, ?_⟩
    simp [undrained, hidle, hpending, granted, hgrants, returned, nonempty]
  · have hstep := phase0_refused hl hgrants rm
    rw [Keeps, hstep]
    rw [Consistent, hidle] at hs
    refine ⟨hs, ?_⟩
    simp [undrained, hidle, granted, hgrants, returned]

theorem keeps_copy (hl : Conventional l) {s : State} {f : Frame} (hdriver : s.driver = .granted f)
    (hs : Consistent l s) : Keeps l s .copy := by
  rw [Consistent, hdriver] at hs
  obtain ⟨hpending, hrxLen, hlen, haddress, hdi⟩ := hs
  have hfits : f.bytes.length ≤ 1518 := hlen
  have hcopy := driverCopy_eq_blit haddress 0 f.bytes (by omega)
    (fun j hj => (hl _ hlen).2.2 j (by omega)) s.mem
  have hstep : step l s .copy =
      { s with mem := blit s.mem (l.buffer f.bytes.length) f.bytes, driver := .copied f } := by
    rw [step, hdriver]
    exact congrArg (fun mem => { s with mem := mem, driver := .copied f }) hcopy
  rw [Keeps, hstep]
  refine ⟨⟨hpending, hrxLen, hlen, slice_blit _ _ _⟩, ?_⟩
  simp [undrained, hdriver, granted, returned]

theorem keeps_phase1 {s : State} {f : Frame} (hdriver : s.driver = .copied f)
    (hs : Consistent l s) (rm : Rmcs) : Keeps l s (.phase1 rm) := by
  rw [Consistent, hdriver] at hs
  obtain ⟨hpending, hrxLen, hlen, hcopied⟩ := hs
  obtain ⟨hidle, hpending', hrxLen', hslice⟩ := phase1_spec hrxLen hlen hcopied rm
  rw [Keeps, Consistent, hidle]
  refine ⟨fun _ => hrxLen' ▸ hlen, ?_⟩
  simp only [undrained, hdriver, hidle, hpending', hrxLen', hslice, granted, returned, if_true,
    List.append_nil, List.nil_append]

theorem keeps_recv {s : State} {maxlen : Nat} (hmax : PKTDRV_MAX_FRAME ≤ maxlen)
    (hs : Consistent l s) : Keeps l s (.recv maxlen) := by
  cases hpending : s.rxPending with
  | false =>
      have hstep : step l s (.recv maxlen) = s := by simp [step, recv, hpending]
      rw [Keeps, hstep]
      refine ⟨hs, ?_⟩
      simp [granted, returned, recv, hpending, nonempty]
  | true =>
      cases hdriver : s.driver with
      | granted f =>
          rw [Consistent, hdriver] at hs
          exact absurd (hs.1.symm.trans hpending) (by decide)
      | copied f =>
          rw [Consistent, hdriver] at hs
          exact absurd (hs.1.symm.trans hpending) (by decide)
      | idle =>
          rw [Consistent, hdriver] at hs
          have hmin : min s.rxLen maxlen = s.rxLen :=
            Nat.min_eq_left (Nat.le_trans (hs hpending) hmax)
          have hstep : step l s (.recv maxlen) = { s with rxPending := false, rxLen := 0 } := by
            simp [step, recv, hpending]
          rw [Keeps, hstep, Consistent]
          dsimp only
          rw [hdriver]
          refine ⟨fun h => absurd h (by decide), ?_⟩
          simp [undrained, hdriver, hpending, granted, returned, recv, hmin, nonempty]

theorem keeps (hl : Conventional l) {s : State} (hs : Consistent l s) {e : Event}
    (hok : Allowed s e) : Keeps l s e := by
  cases e with
  | phase0 rm f => exact keeps_phase0 hl hok hs rm f
  | copy =>
      obtain ⟨f, hdriver⟩ := hok
      exact keeps_copy hl hdriver hs
  | phase1 rm =>
      obtain ⟨f, hdriver⟩ := hok
      exact keeps_phase1 hdriver hs rm
  | recv maxlen => exact keeps_recv hok hs

/-! ## Runs -/

/-- The first call made of an idle driver: the address that is granted is in `ES:DI`, and
a frame is refused for its length or for one before it. -/
theorem phase0_spec (hl : Conventional l) {s : State} (hidle : s.driver = .idle) (rm : Rmcs)
    (f : Frame) :
    (Grants l f s →
      address (step l s (.phase0 rm f)).rmcs = (receiver l 0 f.bytes.length s).1) ∧
    (¬Grants l f s → undrained l s ≠ [] ∨ PKTDRV_MAX_FRAME < f.bytes.length) := by
  constructor
  · intro h
    obtain ⟨rmcs, haddress, -, hstep⟩ := phase0_granted hl h rm
    obtain ⟨hpending, hlen⟩ := (grants_iff hl).mp h
    have hgranted : ¬(s.rxPending ∨ PKTDRV_MAX_FRAME < f.bytes.length) :=
      not_or.mpr ⟨by simp [hpending], Nat.not_lt.mpr hlen⟩
    rw [hstep, receiver, if_pos rfl, if_neg hgranted]
    exact haddress
  · intro h
    by_cases hlen : f.bytes.length ≤ PKTDRV_MAX_FRAME
    · left
      have hpending : s.rxPending = true := by
        by_contra hfree
        exact h ((grants_iff hl).mpr ⟨Bool.eq_false_iff.mpr hfree, hlen⟩)
      simp [undrained, hidle, hpending]
    · exact .inr (Nat.not_le.mp hlen)

/-- A poll between two packets returns the frame that waits, if one does. -/
theorem recv_spec {s : State} {maxlen : Nat} (hs : Consistent l s) (hidle : s.driver = .idle)
    (hmax : PKTDRV_MAX_FRAME ≤ maxlen) :
    returned l s (.recv maxlen) = nonempty (undrained l s) ∧
      undrained l (step l s (.recv maxlen)) = [] := by
  have hdrained : undrained l (step l s (.recv maxlen)) = [] := by
    cases hpending : s.rxPending <;> simp [step, recv, hpending, undrained, hidle]
  have hkept := (keeps_recv hmax hs).2
  rw [hdrained, show granted l s (.recv maxlen) = [] from rfl, List.append_nil] at hkept
  exact ⟨by simpa [nonempty] using hkept.symm, hdrained⟩

/-- The frames that `pktdrv_recv` returns are those for which a buffer was granted, in
order, but for the one that is not drained yet; a poll between two packets leaves none. -/
theorem granted_eq_returned (hl : Conventional l) (mem : Mem UInt8) (rmcs : Rmcs)
    {es : List Event} (hok : Meets (step l) Allowed (start mem rmcs) es) :
    emitted (step l) (granted l) (start mem rmcs) es =
      emitted (step l) (returned l) (start mem rmcs) es ++
        nonempty (undrained l (run (step l) (start mem rmcs) es)) ∧
    (undrained l (run (step l) (start mem rmcs) es)).length ≤ 1 ∧
    (∀ pre rm f post, es = pre ++ .phase0 rm f :: post →
      (Grants l f (run (step l) (start mem rmcs) pre) →
        address (run (step l) (start mem rmcs) (pre ++ [.phase0 rm f])).rmcs =
          (receiver l 0 f.bytes.length (run (step l) (start mem rmcs) pre)).1) ∧
      (¬Grants l f (run (step l) (start mem rmcs) pre) →
        undrained l (run (step l) (start mem rmcs) pre) ≠ [] ∨
          PKTDRV_MAX_FRAME < f.bytes.length)) ∧
    ∀ pre maxlen post, es = pre ++ .recv maxlen :: post →
      (run (step l) (start mem rmcs) pre).driver = .idle →
        returned l (run (step l) (start mem rmcs) pre) (.recv maxlen) =
            nonempty (undrained l (run (step l) (start mem rmcs) pre)) ∧
          undrained l (run (step l) (start mem rmcs) (pre ++ [.recv maxlen])) = [] := by
  have hstart : Consistent l (start mem rmcs) := fun h => absurd h Bool.false_ne_true
  have hkeeps : ∀ s e, Consistent l s → Allowed s e → Consistent l (step l s e) ∧
      nonempty (undrained l s) ++ granted l s e =
        returned l s e ++ nonempty (undrained l (step l s e)) :=
    fun s e hs hok => keeps hl hs hok
  refine ⟨?_, ?_, ?_, ?_⟩
  · have hheld := held_append_emitted (step l) (fun s => nonempty (undrained l s)) (granted l)
      (returned l) hkeeps hstart hok
    simpa [undrained, start, nonempty] using hheld
  · unfold undrained
    split
    · split <;> simp
    · simp
    · simp
  · rintro pre rm f post rfl
    obtain ⟨-, hidle, -⟩ := (meets_append (step l)).mp hok
    rw [show run (step l) (start mem rmcs) (pre ++ [.phase0 rm f]) =
      step l (run (step l) (start mem rmcs) pre) (.phase0 rm f) from List.foldl_append]
    exact phase0_spec hl hidle rm f
  · rintro pre maxlen post rfl hidle
    obtain ⟨hpre, hmax, -⟩ := (meets_append (step l)).mp hok
    have hconsistent : Consistent l (run (step l) (start mem rmcs) pre) :=
      run_invariant (step l) (fun s e hs hok => (hkeeps s e hs hok).1) hstart hpre
    rw [show run (step l) (start mem rmcs) (pre ++ [.recv maxlen]) =
      step l (run (step l) (start mem rmcs) pre) (.recv maxlen) from List.foldl_append]
    exact recv_spec hconsistent hidle hmax

/-- The bounce paragraph of a machine whose conventional memory is mapped as it is. -/
def lowBounce : Layout := ⟨0x3003, 0x30030, 0x200000, id⟩

theorem conventional_lowBounce : Conventional lowBounce := by
  intro len hlen
  have hbuffer : lowBounce.buffer len = 0x30030 :=
    if_pos ⟨by decide, Nat.le_trans hlen (by decide)⟩
  rw [hbuffer]
  exact ⟨by decide, by decide, fun _ _ => rfl⟩

/-- The second packet comes before the first one is drained. -/
def secondTooEarly : List Event :=
  [.phase0 {} ⟨[1, 2, 3], by decide⟩, .copy, .phase1 {}, .phase0 {} ⟨[4], by decide⟩,
    .recv 1518]

theorem granted_eq_returned_secondTooEarly :
    emitted (step lowBounce) (granted lowBounce) (start (fun _ => 0) {}) secondTooEarly =
      [[1, 2, 3]] ∧
    emitted (step lowBounce) (returned lowBounce) (start (fun _ => 0) {}) secondTooEarly =
      emitted (step lowBounce) (granted lowBounce) (start (fun _ => 0) {}) secondTooEarly ∧
    undrained lowBounce (run (step lowBounce) (start (fun _ => 0) {}) secondTooEarly) = [] := by
  obtain ⟨hreturned, -, -, hpoll⟩ := granted_eq_returned conventional_lowBounce (fun _ => 0) {}
    (show Meets (step lowBounce) Allowed (start (fun _ => 0) {}) secondTooEarly from
      ⟨rfl, ⟨_, rfl⟩, ⟨_, rfl⟩, rfl, Nat.le_refl _, trivial⟩)
  have hdrained : undrained lowBounce
      (run (step lowBounce) (start (fun _ => 0) {}) secondTooEarly) = [] :=
    (hpoll (secondTooEarly.take 4) 1518 [] rfl rfl).2
  rw [hdrained] at hreturned
  exact ⟨by decide, by simpa [nonempty] using hreturned.symm, hdrained⟩

end FreedosMicroPython.Net.Receiver
