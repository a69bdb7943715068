import Mathlib.Data.Nat.Find
import FreedosMicroPython.Lib.Ports
import FreedosMicroPython.Net.Ne2k
/-!
# The NE2000 driver at its ports

The routines of `port/pktdrv_uc386dos.c` as the accesses they make, whatever the card
answers: a card that is stuck, absent or slow answers as it likes. `reset_detected_iff`
says when the wait for the reset is decided as its comment means it, `routines_return_iff`
when every routine comes to an end.
-/

namespace FreedosMicroPython.Net.Ne2kPorts

open FreedosMicroPython.Lib.Memory FreedosMicroPython.Lib.Ports FreedosMicroPython.Net.Ne2k

def NE2K_BASE : Nat := 0x300
def NE2K_DATA : Nat := NE2K_BASE + 0x10
def NE2K_RESET : Nat := NE2K_BASE + 0x1F

def NE_TBCR0 : Nat := 0x05
def NE_TBCR1 : Nat := 0x06

structure Statics where
  ne2kMac : List UInt8
  ne2kInitialized : Bool

/-! ## Remote DMA -/

/-- What `ne2k_dma_read` and `ne2k_dma_write` have in common. -/
def remoteDma {α : Type} (command nicAddr byteCount : Nat) (transfer : Prog α) : Prog α := do
  outb (NE2K_BASE + NE_ISR) 0x40
  outb (NE2K_BASE + NE_RBCR0) (byteCount &&& 0xFF)
  outb (NE2K_BASE + NE_RBCR1) ((byteCount >>> 8) &&& 0xFF)
  outb (NE2K_BASE + NE_RSAR0) (nicAddr &&& 0xFF)
  outb (NE2K_BASE + NE_RSAR1) ((nicAddr >>> 8) &&& 0xFF)
  outb (NE2K_BASE + NE_CR) command
  let a ← transfer
  let _ ← poll (NE2K_BASE + NE_ISR) (fun isr => isr &&& 0x40 != 0) 100000
  outb (NE2K_BASE + NE_ISR) 0x40
  pure a

def ne2kDmaRead (nicAddr byteCount : Nat) : Prog (List UInt8) :=
  remoteDma 0x0A nicAddr byteCount (insw NE2K_DATA ((byteCount + 1) >>> 1))

def ne2kDmaWrite (nicAddr : Nat) (src : Mem UInt8) (byteCount : Nat) : Prog Unit :=
  remoteDma 0x12 nicAddr byteCount
    (outsw NE2K_DATA (slice src 0 (2 * ((byteCount + 1) >>> 1))))

/-! ## Initialisation -/

def initPage0 : Prog Unit := do
  outb (NE2K_BASE + NE_DCR) 0x49
  outb (NE2K_BASE + NE_RBCR0) 0
  outb (NE2K_BASE + NE_RBCR1) 0
  outb (NE2K_BASE + NE_RCR) 0x20
  outb (NE2K_BASE + NE_TCR) 0x02
  outb (NE2K_BASE + NE_TPSR) TX_PAGE_START
  outb (NE2K_BASE + NE_PSTART) RX_PAGE_START
  outb (NE2K_BASE + NE_PSTOP) RX_PAGE_STOP
  outb (NE2K_BASE + NE_BNRY) RX_PAGE_START
  outb (NE2K_BASE + NE_ISR) 0xFF
  outb (NE2K_BASE + NE_IMR) 0x00

def initPage1 (mac : List UInt8) : Prog Unit := do
  outb (NE2K_BASE + NE_CR) 0x61
  (List.range 6).forM fun i => outb (NE2K_BASE + NE_PAR0 + i) (mac.getD i 0).toNat
  outb (NE2K_BASE + NE_CURR) (RX_PAGE_START + 1)
  (List.range 8).forM fun i => outb (NE2K_BASE + 0x08 + i) 0
  outb (NE2K_BASE + NE_CR) 0x22
  outb (NE2K_BASE + NE_TCR) 0x00
  outb (NE2K_BASE + NE_RCR) 0x04

def initProbed : Prog (Int × List UInt8 × Statics) := do
  initPage0
  let prom ← ne2kDmaRead 0x0000 32
  let mac := (List.range 6).map fun i => prom.getD (2 * i) 0
  initPage1 mac
  let slaveImr ← inb 0xA1
  outb 0xA1 (slaveImr ||| 0x02)
  pure (0, mac, ⟨mac, true⟩)

def initDetected (st : Statics) : Prog (Int × List UInt8 × Statics) := do
  outb (NE2K_BASE + NE_CR) 0x21
  let crReadback ← inb (NE2K_BASE + NE_CR)
  if crReadback ≠ 0x21 then pure (-1, [], st) else initProbed

/-- `ne2k_init_direct`: its result, the MAC it fills in and the statics. -/
def ne2kInitDirect (st : Statics) : Prog (Int × List UInt8 × Statics) := do
  let resetVal ← inb NE2K_RESET
  outb NE2K_RESET resetVal
  let spin ← poll (NE2K_BASE + NE_ISR) (fun isr => isr &&& 0x80 != 0) 100000
  if spin = 0 then pure (-1, [], st) else initDetected st

/-! ## Sending and receiving -/

/-- The wait of `ne2k_send_direct` for PTX or TXE, and its result. -/
def awaitSent : Nat → Prog Int
  | 0 => pure (-1)
  | spin + 1 => do
      let isr ← inb (NE2K_BASE + NE_ISR)
      if isr &&& 0x0A ≠ 0 then do
        outb (NE2K_BASE + NE_ISR) (isr &&& 0x0A)
        pure (if isr &&& 0x02 ≠ 0 then 0 else -1)
      else awaitSent spin

/-- `ne2k_send_direct` behind the wait for the last transmission. -/
def transmit (buf : Mem UInt8) (len : Nat) : Prog Int := do
  ne2kDmaWrite (TX_PAGE_START <<< 8) buf len
  outb (NE2K_BASE + NE_TBCR0) (len &&& 0xFF)
  outb (NE2K_BASE + NE_TBCR1) ((len >>> 8) &&& 0xFF)
  outb (NE2K_BASE + NE_CR) 0x26
  awaitSent 1000000

/-- `ne2k_send_direct`, with a budget for the wait that has no bound. -/
def ne2kSendDirect (budget : Nat) (st : Statics) (buf : Mem UInt8) (len : Nat) : Prog Int :=
  if !st.ne2kInitialized then pure (-1)
  else
    let len := if len < 60 then 60 else len
    if 1518 < len then pure (-1)
    else do
      wait (NE2K_BASE + NE_CR) (fun cr => cr &&& 0x04 != 0) budget
      transmit buf len

def readBody (page len : Nat) (out : Mem UInt8) : Prog (Mem UInt8) :=
  if len ≠ 0 then do
    let bytes ← ne2kDmaRead ((page <<< 8) + 4) len
    pure (blit out 0 bytes)
  else pure out

def takePacket (page : Nat) (out : Mem UInt8) (maxlen : Nat) : Prog (Nat × Mem UInt8) := do
  let bytes ← ne2kDmaRead (page <<< 8) 4
  let hdr := readHeader bytes
  let len := copyLen hdr maxlen
  let out ← readBody page len out
  outb (NE2K_BASE + NE_BNRY) (bnryAfter hdr.nextPage)
  outb (NE2K_BASE + NE_ISR) 0x15
  pure (len, out)

def ne2kPollRx (st : Statics) (out : Mem UInt8) (maxlen : Nat) : Prog (Nat × Mem UInt8) :=
  if !st.ne2kInitialized then pure (0, out)
  else do
    let savedCr ← inb (NE2K_BASE + NE_CR)
    outb (NE2K_BASE + NE_CR) 0x62
    let curr ← inb (NE2K_BASE + NE_CURR)
    outb (NE2K_BASE + NE_CR) (savedCr ||| 0x02)
    let bnry ← inb (NE2K_BASE + NE_BNRY)
    let page := nextPktPage bnry
    if page = curr then pure (0, out) else takePacket page out maxlen

/-! ## Bounds -/

theorem within_remoteDma {α : Type} {n : Nat} {transfer : Prog α}
    (command nicAddr byteCount : Nat)
    (h : Within n transfer) :
    Within (n + 100007) (remoteDma command nicAddr byteCount transfer) := by
  have hall : Within (1 + (1 + (1 + (1 + (1 + (1 + (n + (100000 + (1 + 0)))))))))
      (remoteDma command nicAddr byteCount transfer) :=
    (Within.outb _ _).bind fun _ => (Within.outb _ _).bind fun _ => (Within.outb _ _).bind fun _ =>
      (Within.outb _ _).bind fun _ => (Within.outb _ _).bind fun _ =>
      (Within.outb _ _).bind fun _ => h.bind fun a => (Within.poll _ _ _).bind fun _ =>
      (Within.outb _ _).bind fun _ => Within.pure a
  exact hall.mono (by omega)

theorem within_ne2kDmaRead (nicAddr byteCount : Nat) :
    Within ((byteCount + 1) / 2 + 100007) (ne2kDmaRead nicAddr byteCount) :=
  within_remoteDma _ _ _ (Within.insw NE2K_DATA ((byteCount + 1) >>> 1))

theorem within_ne2kDmaWrite (nicAddr : Nat) (src : Mem UInt8) (byteCount : Nat) :
    Within ((byteCount + 1) / 2 + 100007) (ne2kDmaWrite nicAddr src byteCount) := by
  have hwords := Within.outsw NE2K_DATA (slice src 0 (2 * ((byteCount + 1) >>> 1)))
  rw [length_slice, Nat.mul_div_cancel_left _ Nat.two_pos, Nat.shiftRight_eq_div_pow] at hwords
  exact within_remoteDma _ _ _ hwords

theorem within_initPage0 : Within 11 initPage0 := by
  have hall : Within (1 + (1 + (1 + (1 + (1 + (1 + (1 + (1 + (1 + (1 + 1)))))))))) initPage0 :=
    (Within.outb _ _).bind fun _ => (Within.outb _ _).bind fun _ => (Within.outb _ _).bind fun _ =>
      (Within.outb _ _).bind fun _ => (Within.outb _ _).bind fun _ =>
      (Within.outb _ _).bind fun _ => (Within.outb _ _).bind fun _ =>
      (Within.outb _ _).bind fun _ => (Within.outb _ _).bind fun _ =>
      (Within.outb _ _).bind fun _ => Within.outb _ _
  exact hall

theorem within_initPage1 (mac : List UInt8) : Within 19 (initPage1 mac) := by
  have hmac := Within.forM (fun i => Within.outb (NE2K_BASE + NE_PAR0 + i) (mac.getD i 0).toNat)
    (List.range 6)
  have hmar := Within.forM (fun i => Within.outb (NE2K_BASE + 0x08 + i) 0) (List.range 8)
  have hall : Within (1 + (6 + (1 + (8 + (1 + (1 + 1)))))) (initPage1 mac) :=
    (Within.outb _ _).bind fun _ => hmac.bind fun _ => (Within.outb _ _).bind fun _ =>
      hmar.bind fun _ => (Within.outb _ _).bind fun _ => (Within.outb _ _).bind fun _ =>
      Within.outb _ _
  exact hall.mono (by omega)

theorem within_initProbed : Within 100055 initProbed := by
  have hall : Within (11 + ((32 + 1) / 2 + 100007 + (19 + (1 + (1 + 0))))) initProbed :=
    within_initPage0.bind fun _ => (within_ne2kDmaRead _ _).bind fun _ =>
      (within_initPage1 _).bind fun _ => (Within.inb _).bind fun _ =>
      (Within.outb _ _).bind fun _ => Within.pure _
  exact hall.mono (by omega)

theorem within_initDetected (st : Statics) : Within 100057 (initDetected st) := by
  have hall : Within (1 + (1 + 100055)) (initDetected st) :=
    (Within.outb _ _).bind fun _ => (Within.inb _).bind fun _ =>
      Within.ite ((Within.pure _).mono (Nat.zero_le _)) within_initProbed
  exact hall

theorem within_ne2kInitDirect (st : Statics) : Within 200059 (ne2kInitDirect st) := by
  have hall : Within (1 + (1 + (100000 + 100057))) (ne2kInitDirect st) :=
    (Within.inb _).bind fun _ => (Within.outb _ _).bind fun _ => (Within.poll _ _ _).bind fun _ =>
      Within.ite ((Within.pure _).mono (Nat.zero_le _)) (within_initDetected st)
  exact hall

theorem within_awaitSent (spin : Nat) : Within (spin + 1) (awaitSent spin) := by
  induction spin with
  | zero => exact (Within.pure (-1)).mono (Nat.zero_le 1)
  | succ spin ih =>
      have hack : ∀ isr : Nat, Within (1 + 0) (do
          outb (NE2K_BASE + NE_ISR) (isr &&& 0x0A)
          pure (if isr &&& 0x02 ≠ 0 then 0 else -1 : Int)) := fun isr =>
        (Within.outb _ _).bind fun _ => Within.pure _
      have hstep : Within (1 + (spin + 1)) (awaitSent (spin + 1)) :=
        (Within.inb _).bind fun isr => Within.ite ((hack isr).mono (by omega)) ih
      exact hstep.mono (by omega)

theorem within_transmit (buf : Mem UInt8) (len : Nat) :
    Within ((len + 1) / 2 + 1100011) (transmit buf len) := by
  have hall : Within ((len + 1) / 2 + 100007 + (1 + (1 + (1 + (1000000 + 1)))))
      (transmit buf len) :=
    (within_ne2kDmaWrite _ _ _).bind fun _ => (Within.outb _ _).bind fun _ =>
      (Within.outb _ _).bind fun _ => (Within.outb _ _).bind fun _ => within_awaitSent 1000000
  exact hall.mono (by omega)

theorem pktLen_lt (hdr : List UInt8) : (readHeader hdr).pktLen < 2 ^ 16 := by
  have hlo := (hdr.getD 2 0).toNat_lt
  have hhi := (hdr.getD 3 0).toNat_lt
  apply Nat.or_lt_two_pow
  · omega
  · rw [Nat.shiftLeft_eq]
    omega

theorem copyLen_lt (hdr : List UInt8) (maxlen : Nat) :
    copyLen (readHeader hdr) maxlen < 2 ^ 16 := by
  have hlt := pktLen_lt hdr
  unfold copyLen
  dsimp only
  split_ifs <;> omega

theorem within_readBody (page : Nat) {len : Nat} (hlen : len < 2 ^ 16) (out : Mem UInt8) :
    Within 132775 (readBody page len out) := by
  unfold readBody
  split
  · have hcopy : Within ((len + 1) / 2 + 100007 + 0) (do
        let bytes ← ne2kDmaRead ((page <<< 8) + 4) len
        pure (blit out 0 bytes)) :=
      (within_ne2kDmaRead _ _).bind fun _ => Within.pure _
    exact hcopy.mono (by omega)
  · exact (Within.pure out).mono (Nat.zero_le _)

theorem within_takePacket (page : Nat) (out : Mem UInt8) (maxlen : Nat) :
    Within 232786 (takePacket page out maxlen) := by
  have hall : Within ((4 + 1) / 2 + 100007 + (132775 + (1 + (1 + 0))))
      (takePacket page out maxlen) :=
    (within_ne2kDmaRead _ _).bind fun bytes =>
      (within_readBody page (copyLen_lt bytes maxlen) out).bind fun _ =>
      (Within.outb _ _).bind fun _ => (Within.outb _ _).bind fun _ => Within.pure _
  exact hall.mono (by omega)

theorem within_ne2kPollRx (st : Statics) (out : Mem UInt8) (maxlen : Nat) :
    Within 232791 (ne2kPollRx st out maxlen) := by
  have hall : Within (1 + (1 + (1 + (1 + (1 + 232786))))) (ne2kPollRx st out maxlen) :=
    Within.ite ((Within.pure _).mono (Nat.zero_le _)) <|
      (Within.inb _).bind fun _ => (Within.outb _ _).bind fun _ => (Within.inb _).bind fun _ =>
        (Within.outb _ _).bind fun _ => (Within.inb _).bind fun _ =>
        Within.ite ((Within.pure _).mono (Nat.zero_le _)) (within_takePacket _ _ _)
  exact hall

/-! ## The end of the reset -/

def Rst (f : Nat → Nat) (i : Nat) : Prop := (f (1 + i) % 0x100 &&& 0x80 != 0) = true

def initLog (st : Statics) (f : Nat → Nat) : List Access :=
  (run (stream f) (ne2kInitDirect st) 0).2.1

/-- The command register is untouched, and the result is -1. -/
structure TimedOut (st : Statics) (f : Nat → Nat) : Prop where
  result : (run (stream f) (ne2kInitDirect st) 0).1 = some (-1, [], st)
  untouched : ∀ a ∈ initLog st f, a.port ≠ NE2K_BASE + NE_CR

def Proceeds (st : Statics) (f : Nat → Nat) : Prop :=
  ∃ a ∈ initLog st f, a.port = NE2K_BASE + NE_CR

/-- The wait times out if none of its polls shows RST, and only then. -/
structure ResetDetected (st : Statics) (f : Nat → Nat) : Prop where
  timeout : TimedOut st f ↔ ∀ i, i < 100000 → ¬Rst f i
  proceeds : ∀ i, i < 100000 → Rst f i → Proceeds st f

theorem exists_least {P : Nat → Prop} {i : Nat} (h : P i) :
    ∃ k, k ≤ i ∧ P k ∧ ∀ j, j < k → ¬P j := by
  classical
  have hex : ∃ i, P i := ⟨i, h⟩
  exact ⟨Nat.find hex, Nat.find_min' hex h, Nat.find_spec hex, fun j hj => Nat.find_min hex hj⟩

/-- The accesses up to the end of the wait are not to the command register. -/
theorem run_ne2kInitDirect (st : Statics) {f : Nat → Nat} {spin n s : Nat}
    (h : run (stream f) (poll (NE2K_BASE + NE_ISR) (fun isr => isr &&& 0x80 != 0) 100000) 1 =
      (some spin, reads f (NE2K_BASE + NE_ISR) 1 n, s)) :
    ∃ log : List Access, (∀ a ∈ log, a.port ≠ NE2K_BASE + NE_CR) ∧
      run (stream f) (ne2kInitDirect st) 0 = after log
        (run (stream f) (if spin = 0 then pure (-1, [], st) else initDetected st) s) := by
  refine ⟨.read .byte NE2K_RESET (f 0 % 0x100) :: .write .byte NE2K_RESET (f 0 % 0x100 % 0x100) ::
    reads f (NE2K_BASE + NE_ISR) 1 n, ?_, ?_⟩
  · intro a ha
    simp only [reads, List.mem_cons, List.mem_map] at ha
    rcases ha with rfl | rfl | ⟨j, -, rfl⟩ <;>
      simp [Access.port, NE2K_RESET, NE2K_BASE, NE_CR, NE_ISR]
  · rw [ne2kInitDirect, run_bind_of_some (run_inb_stream _ 0),
      run_bind_of_some (run_outb _ _ _)]
    exact congrArg (after _ ∘ after _) (run_bind_of_some h _)

theorem proceeds_of_spin {st : Statics} {f : Nat → Nat} {spin n s : Nat}
    (h : run (stream f) (poll (NE2K_BASE + NE_ISR) (fun isr => isr &&& 0x80 != 0) 100000) 1 =
      (some spin, reads f (NE2K_BASE + NE_ISR) 1 n, s)) (hspin : spin ≠ 0) : Proceeds st f := by
  obtain ⟨log, -, hrun⟩ := run_ne2kInitDirect st h
  rw [if_neg hspin, initDetected, run_bind_of_some (run_outb _ _ _)] at hrun
  refine ⟨.write .byte (NE2K_BASE + NE_CR) 0x21, ?_, rfl⟩
  rw [initLog, hrun]
  simp [after]

theorem TimedOut.not_proceeds {st : Statics} {f : Nat → Nat} (h : TimedOut st f) :
    ¬Proceeds st f :=
  fun ⟨a, ha, hport⟩ => h.untouched a ha hport

/-- A wait that never sees RST goes on: its counter has wrapped. -/
theorem proceeds_of_clear (st : Statics) {f : Nat → Nat} (h : ∀ i, i < 100000 → ¬Rst f i) :
    Proceeds st f :=
  proceeds_of_spin (run_poll_exhausted fun i hi => by simpa [Rst] using h i hi) (by decide)

theorem proceeds_of_early (st : Statics) {f : Nat → Nat} {k : Nat} (hk : k < 99999)
    (hrst : Rst f k) (hfirst : ∀ j, j < k → ¬Rst f j) : Proceeds st f :=
  proceeds_of_spin (run_poll_found (k := k) (by omega)
    (fun j hj => by simpa [Rst] using hfirst j hj) hrst) (by omega)

/-- The last poll leaves the counter at zero, which is taken for the timeout. -/
theorem timedOut_of_last (st : Statics) {f : Nat → Nat} (hrst : Rst f 99999)
    (hfirst : ∀ j, j < 99999 → ¬Rst f j) : TimedOut st f := by
  obtain ⟨log, hlog, hrun⟩ := run_ne2kInitDirect st (run_poll_found (k := 99999)
    (by decide) (fun j hj => by simpa [Rst] using hfirst j hj) hrst)
  rw [if_pos rfl, run_pure] at hrun
  constructor
  · rw [hrun]
    rfl
  · rw [initLog, hrun]
    simpa [after] using hlog

theorem reset_detected_iff (st : Statics) (f : Nat → Nat) :
    ResetDetected st f ↔ ∃ i, i < 99999 ∧ Rst f i := by
  by_cases h : ∃ i, i < 100000 ∧ Rst f i
  · obtain ⟨i, hi, hri⟩ := h
    obtain ⟨k, hki, hrst, hfirst⟩ := exists_least hri
    have hk : k < 100000 := Nat.lt_of_le_of_lt hki hi
    by_cases hlast : k = 99999
    · subst hlast
      apply iff_of_false
      · intro hd
        exact hd.timeout.mp (timedOut_of_last st hrst hfirst) 99999 hk hrst
      · exact fun ⟨i, hi, hi'⟩ => hfirst i hi hi'
    · have hproceeds := proceeds_of_early st (by omega) hrst hfirst
      apply iff_of_true
      · refine ⟨iff_of_false (fun ht => ht.not_proceeds hproceeds) fun hclear => ?_, fun _ _ _ =>
          hproceeds⟩
        exact hclear k hk hrst
      · exact ⟨k, by omega, hrst⟩
  · have hclear : ∀ i, i < 100000 → ¬Rst f i := fun i hi hr => h ⟨i, hi, hr⟩
    apply iff_of_false
    · intro hd
      exact (hd.timeout.mpr hclear).not_proceeds (proceeds_of_clear st hclear)
    · exact fun ⟨i, hi, hr⟩ => hclear i (by omega) hr

/-- An absent card that answers zeros is taken for one that has been reset. -/
theorem reset_undetected : ¬ResetDetected ⟨[], false⟩ fun _ => 0 := by
  intro hd
  have hclear : ∀ i, i < 100000 → ¬Rst (fun _ => 0) i := fun _ _ hr => by
    simp [Rst] at hr
  exact (hd.timeout.mpr hclear).not_proceeds (proceeds_of_clear _ hclear)

/-! ## The end of every routine -/

def ReturnsWithin {α : Type} (n : Nat) (f : Nat → Nat) (p : Prog α) : Prop :=
  ∃ a log s', run (stream f) p 0 = (some a, log, s') ∧ log.length ≤ n

/-- The command register answers that a transmission is under way. -/
def Transmitting (f : Nat → Nat) (i : Nat) : Prop := (f i % 0x100 &&& 0x04 != 0) = true

/-- Each routine comes to an end after a bounded number of accesses; on the reads `f`, where
a wait without a bound depends on them. -/
structure RoutinesReturn (st : Statics) (buf out : Mem UInt8) (len maxlen nicAddr byteCount : Nat)
    (f : Nat → Nat) : Prop where
  init : Within 200059 (ne2kInitDirect st)
  pollRx : Within 232791 (ne2kPollRx st out maxlen)
  dmaRead : Within ((byteCount + 1) / 2 + 100007) (ne2kDmaRead nicAddr byteCount)
  dmaWrite : Within ((byteCount + 1) / 2 + 100007) (ne2kDmaWrite nicAddr buf byteCount)
  send : ∃ n budget, ReturnsWithin n f (ne2kSendDirect budget st buf len)

theorem ne2kSendDirect_refused {budget : Nat} {st : Statics} {buf : Mem UInt8} {len : Nat}
    (h : st.ne2kInitialized = false ∨ 1518 < len) :
    ne2kSendDirect budget st buf len = pure (-1) := by
  unfold ne2kSendDirect
  cases hinit : st.ne2kInitialized with
  | false => rfl
  | true =>
      rw [hinit] at h
      simp only [Bool.true_eq_false, false_or] at h
      simp [Nat.not_lt.mpr (show 60 ≤ len by omega), h]

def wireLen (len : Nat) : Nat := if len < 60 then 60 else len

theorem ne2kSendDirect_eq {budget : Nat} {st : Statics} {buf : Mem UInt8} {len : Nat}
    (hinit : st.ne2kInitialized = true) (hlen : len ≤ 1518) :
    ne2kSendDirect budget st buf len = (do
      wait (NE2K_BASE + NE_CR) (fun cr => cr &&& 0x04 != 0) budget
      transmit buf (wireLen len)) := by
  have hwire : ¬1518 < wireLen len := by
    unfold wireLen
    split <;> omega
  unfold ne2kSendDirect
  rw [hinit]
  exact if_neg hwire

/-- With the `k`-th read of the command register the first without TXP, the rest is bounded. -/
theorem returnsWithin_send {st : Statics} (hinit : st.ne2kInitialized = true) (buf : Mem UInt8)
    {len : Nat} (hlen : len ≤ 1518) {f : Nat → Nat} {k : Nat} (hfree : ¬Transmitting f k)
    (hbusy : ∀ j, j < k → Transmitting f j) :
    ReturnsWithin (k + 1100771) f (ne2kSendDirect (k + 1) st buf len) := by
  have hwait : run (stream f) (wait (NE2K_BASE + NE_CR) (fun cr => cr &&& 0x04 != 0) (k + 1)) 0 =
      (some (), reads f (NE2K_BASE + NE_CR) 0 (k + 1), 0 + k + 1) :=
    run_wait_found (Nat.lt_succ_self k) (fun j hj => by simpa [Transmitting] using hbusy j hj)
      (by simpa [Transmitting] using hfree)
  obtain ⟨r, log, s, hrun, hlog⟩ :=
    (within_transmit buf (wireLen len)).returns (stream f) (0 + k + 1)
  have hwire : wireLen len ≤ 1518 := by
    unfold wireLen
    split <;> omega
  refine ⟨r, reads f (NE2K_BASE + NE_CR) 0 (k + 1) ++ log, s, ?_, ?_⟩
  · rw [ne2kSendDirect_eq hinit hlen, run_bind_of_some hwait, hrun]
    rfl
  · simp only [reads, List.length_append, List.length_map, List.length_range]
    omega

theorem not_returnsWithin_send {st : Statics} (hinit : st.ne2kInitialized = true) (buf : Mem UInt8)
    {len : Nat} (hlen : len ≤ 1518) {f : Nat → Nat} (hbusy : ∀ i, Transmitting f i)
    (n budget : Nat) : ¬ReturnsWithin n f (ne2kSendDirect budget st buf len) := by
  rintro ⟨r, log, s, hrun, -⟩
  have hwait : (run (stream f) (wait (NE2K_BASE + NE_CR) (fun cr => cr &&& 0x04 != 0) budget)
      0).1 = none := run_wait_busy (by simpa only [Transmitting] using hbusy) budget 0
  rw [ne2kSendDirect_eq hinit hlen, run_bind_of_none (Prod.ext hwait rfl)] at hrun
  exact nomatch congrArg Prod.fst hrun

theorem routines_return_iff (st : Statics) (buf out : Mem UInt8)
    (len maxlen nicAddr byteCount : Nat) (f : Nat → Nat) :
    RoutinesReturn st buf out len maxlen nicAddr byteCount f ↔
      st.ne2kInitialized = false ∨ 1518 < len ∨ ∃ i, ¬Transmitting f i := by
  constructor
  · intro h
    by_contra hnot
    simp only [not_or, Bool.not_eq_false, Nat.not_lt, not_exists, not_not] at hnot
    obtain ⟨hinit, hlen, hbusy⟩ := hnot
    obtain ⟨n, budget, hsend⟩ := h.send
    exact not_returnsWithin_send hinit buf hlen hbusy n budget hsend
  · intro h
    refine ⟨within_ne2kInitDirect st, within_ne2kPollRx st out maxlen,
      within_ne2kDmaRead nicAddr byteCount, within_ne2kDmaWrite nicAddr buf byteCount, ?_⟩
    by_cases hrefused : st.ne2kInitialized = false ∨ 1518 < len
    · refine ⟨0, 0, -1, [], 0, ?_, Nat.le_refl 0⟩
      rw [ne2kSendDirect_refused hrefused, run_pure]
    · simp only [not_or, Bool.not_eq_false, Nat.not_lt] at hrefused
      obtain ⟨hinit, hlen⟩ := hrefused
      obtain ⟨i, hi⟩ : ∃ i, ¬Transmitting f i := by
        rcases h with hinit' | hlen' | hfree
        · exact absurd hinit (by simp [hinit'])
        · omega
        · exact hfree
      obtain ⟨k, -, hfree, hfirst⟩ := exists_least (P := fun i => ¬Transmitting f i) hi
      exact ⟨_, _, returnsWithin_send hinit buf hlen hfree fun j hj => not_not.mp (hfirst j hj)⟩

/-- A card that was taken out answers 0xFF. -/
theorem send_stuck :
    ¬RoutinesReturn ⟨[], true⟩ (fun _ => 0) (fun _ => 0) 60 1514 0x4000 60 fun _ => 0xFF := by
  intro h
  obtain ⟨n, budget, hsend⟩ := h.send
  have hbusy : ∀ i, Transmitting (fun _ => 0xFF) i := fun _ => by simp [Transmitting]
  exact not_returnsWithin_send rfl _ (by decide) hbusy n budget hsend

end FreedosMicroPython.Net.Ne2kPorts
