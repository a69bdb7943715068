import FreedosMicroPython.Lib.Ring
import FreedosMicroPython.Lib.Runs
/-!
# The NE2000 driver

The driver of `port/pktdrv_uc386dos.c` that talks to the card itself, and the card
as far as the driver can tell: a DP8390 whose registers lie in two pages, chosen by
the two upper bits of the command register, and the packet memory behind its remote
DMA. The DMA goes on at page 0x46 when it reaches page 0x80.
-/

namespace FreedosMicroPython.Net.Ne2k

open FreedosMicroPython.Lib FreedosMicroPython.Lib.Memory

/-! ## Registers -/

def NE_CR : Nat := 0x00
def NE_PSTART : Nat := 0x01
def NE_PSTOP : Nat := 0x02
def NE_BNRY : Nat := 0x03
def NE_TPSR : Nat := 0x04
def NE_ISR : Nat := 0x07
def NE_RSAR0 : Nat := 0x08
def NE_RSAR1 : Nat := 0x09
def NE_RBCR0 : Nat := 0x0A
def NE_RBCR1 : Nat := 0x0B
def NE_RCR : Nat := 0x0C
def NE_TCR : Nat := 0x0D
def NE_DCR : Nat := 0x0E
def NE_IMR : Nat := 0x0F

def NE_PAR0 : Nat := 0x01
def NE_CURR : Nat := 0x07

def TX_PAGE_START : Nat := 0x40
def RX_PAGE_START : Nat := 0x46
def RX_PAGE_STOP : Nat := 0x80

def rxRing : Ring := ⟨0x46, 58, by decide⟩

def dmaRing : Ring := ⟨0x4600, 0x3A00, by decide⟩

/-! ## The card -/

structure Nic where
  cr : Nat
  isr : Nat
  /-- The address and the byte count of the remote DMA. -/
  rsar : Nat
  rbcr : Nat
  /-- The other registers of the two pages, by offset. -/
  page0 : Nat → Nat
  page1 : Nat → Nat
  mem : Mem UInt8

namespace Nic

variable (nic : Nic)

def bnry : Nat := nic.page0 NE_BNRY

def curr : Nat := nic.page1 NE_CURR

/-- `ne2k_outb` to an offset from the base port: below 0x40 the command register selects
page 0, below 0x80 page 1. A bit of ISR is cleared by writing it. -/
def outb (port val : Nat) : Nic :=
  let b := val % 256
  if port = NE_CR then { nic with cr := b }
  else if nic.cr < 0x40 then
    if port = NE_ISR then { nic with isr := nic.isr &&& (0xFF ^^^ b) }
    else if port = NE_RSAR0 then { nic with rsar := nic.rsar / 256 * 256 + b }
    else if port = NE_RSAR1 then { nic with rsar := b * 256 + nic.rsar % 256 }
    else if port = NE_RBCR0 then { nic with rbcr := nic.rbcr / 256 * 256 + b }
    else if port = NE_RBCR1 then { nic with rbcr := b * 256 + nic.rbcr % 256 }
    else { nic with page0 := Function.update nic.page0 port b }
  else if nic.cr < 0x80 then { nic with page1 := Function.update nic.page1 port b }
  else nic

def inb (port : Nat) : Nat :=
  if port = NE_CR then nic.cr
  else if nic.cr < 0x40 then if port = NE_ISR then nic.isr else nic.page0 port
  else nic.page1 port

/-- Reading the reset port resets the card, which says so in ISR. -/
def reset : Nic := { nic with isr := 0x80 }

/-- `ne2k_insw` from the data port: the bytes of `wcount` words. The DMA is complete
when the byte count is used up. -/
def insw (wcount : Nat) : List UInt8 × Nic :=
  (dmaRing.load nic.mem nic.rsar (2 * wcount),
    { nic with
      rsar := dmaRing.next^[2 * wcount] nic.rsar
      rbcr := nic.rbcr - 2 * wcount
      isr := if nic.rbcr ≤ 2 * wcount then nic.isr ||| 0x40 else nic.isr })

end Nic

/-! ## The driver -/

/-- The card, the statics of the driver and the mask of the slave PIC. -/
structure State where
  nic : Nic
  initialized : Bool
  mac : List UInt8
  slaveImr : Nat

/-- `ne2k_dma_read`: what `insw` stores at `dst`. The wait for the end of the DMA only
reads ISR, and a wait in vain has no consequence. -/
def ne2kDmaRead (nicAddr byteCount : Nat) (nic : Nic) : List UInt8 × Nic :=
  let nic := nic.outb NE_ISR 0x40
  let nic := nic.outb NE_RBCR0 (byteCount &&& 0xFF)
  let nic := nic.outb NE_RBCR1 ((byteCount >>> 8) &&& 0xFF)
  let nic := nic.outb NE_RSAR0 (nicAddr &&& 0xFF)
  let nic := nic.outb NE_RSAR1 ((nicAddr >>> 8) &&& 0xFF)
  let nic := nic.outb NE_CR 0x0A
  let (bytes, nic) := nic.insw ((byteCount + 1) >>> 1)
  (bytes, nic.outb NE_ISR 0x40)

/-- `spin` behind the wait for a bit of ISR: reading changes nothing, so the first read
ends the wait or none does, and the counter wraps. -/
def spinLeft (mask : Nat) (nic : Nic) : Nat := if nic.isr &&& mask ≠ 0 then 99999 else 0xFFFFFFFF

/-- The writes of `ne2k_init_direct` to page 0, up to the read of the MAC. -/
def initPage0 (nic : Nic) : Nic :=
  let nic := nic.outb NE_DCR 0x49
  let nic := nic.outb NE_RBCR0 0
  let nic := nic.outb NE_RBCR1 0
  let nic := nic.outb NE_RCR 0x20
  let nic := nic.outb NE_TCR 0x02
  let nic := nic.outb NE_TPSR TX_PAGE_START
  let nic := nic.outb NE_PSTART RX_PAGE_START
  let nic := nic.outb NE_PSTOP RX_PAGE_STOP
  let nic := nic.outb NE_BNRY RX_PAGE_START
  let nic := nic.outb NE_ISR 0xFF
  nic.outb NE_IMR 0x00

def initPage1 (mac : List UInt8) (nic : Nic) : Nic :=
  let nic := nic.outb NE_CR 0x61
  let nic := (List.range 6).foldl (fun nic i => nic.outb (NE_PAR0 + i) (mac.getD i 0).toNat) nic
  let nic := nic.outb NE_CURR (RX_PAGE_START + 1)
  let nic := (List.range 8).foldl (fun nic i => nic.outb (0x08 + i) 0) nic
  let nic := nic.outb NE_CR 0x22
  let nic := nic.outb NE_TCR 0x00
  nic.outb NE_RCR 0x04

def ne2kInitDirect (s : State) : Int × List UInt8 × State :=
  let nic := s.nic.reset
  if spinLeft 0x80 nic = 0 then (-1, [], { s with nic := nic })
  else
    let nic := nic.outb NE_CR 0x21
    if nic.inb NE_CR ≠ 0x21 then (-1, [], { s with nic := nic })
    else
      let nic := initPage0 nic
      let (prom, nic) := ne2kDmaRead 0x0000 32 nic
      let mac := (List.range 6).map fun i => prom.getD (2 * i) 0
      (0, mac, ⟨initPage1 mac nic, true, mac, s.slaveImr ||| 0x02⟩)

/-- `hdr` as `ne2k_poll_rx` reads it. -/
structure Header where
  status : Nat
  nextPage : Nat
  pktLen : Nat

def readHeader (hdr : List UInt8) : Header where
  status := (hdr.getD 0 0).toNat
  nextPage := (hdr.getD 1 0).toNat
  pktLen := (hdr.getD 2 0).toNat ||| ((hdr.getD 3 0).toNat <<< 8)

def copyLen (hdr : Header) (maxlen : Nat) : Nat :=
  let len := if 4 < hdr.pktLen then hdr.pktLen - 4 else 0
  let len := if maxlen < len then maxlen else len
  if 0 < len ∧ hdr.status &&& 0x01 ≠ 0 then len else 0

/-- What `ne2k_poll_rx` writes to BNRY, `next_page - 1` in unsigned arithmetic. -/
def bnryAfter (nextPage : Nat) : Nat :=
  if nextPage = RX_PAGE_START then RX_PAGE_STOP - 1 else (nextPage + 0xFFFFFFFF) % 0x100000000

def nextPktPage (bnry : Nat) : Nat :=
  if RX_PAGE_STOP ≤ bnry + 1 then RX_PAGE_START else bnry + 1

/-- `ne2k_poll_rx`: its result, the buffer `out` and the state. -/
def ne2kPollRx (maxlen : Nat) (out : Mem UInt8) (s : State) : Nat × Mem UInt8 × State :=
  if !s.initialized then (0, out, s)
  else
    let savedCr := s.nic.inb NE_CR
    let nic := s.nic.outb NE_CR 0x62
    let curr := nic.inb NE_CURR
    let nic := nic.outb NE_CR (savedCr ||| 0x02)
    let page := nextPktPage (nic.inb NE_BNRY)
    if page = curr then (0, out, { s with nic := nic })
    else
      let (hdr, nic) := ne2kDmaRead (page <<< 8) 4 nic
      let hdr := readHeader hdr
      let len := copyLen hdr maxlen
      let (out, nic) :=
        if len ≠ 0 then
          let (bytes, nic) := ne2kDmaRead ((page <<< 8) + 4) len nic
          (blit out 0 bytes, nic)
        else (out, nic)
      let nic := nic.outb NE_BNRY (bnryAfter hdr.nextPage)
      let nic := nic.outb NE_ISR 0x15
      (len, out, { s with nic := nic })

/-! ## What the calls change -/

namespace Nic

/-- Nothing differs but the DMA registers, ISR and the command register, and page 0 stays
selected. -/
structure Same (nic nic' : Nic) : Prop where
  cr : nic'.cr < 0x40
  page0 : nic'.page0 = nic.page0
  page1 : nic'.page1 = nic.page1
  mem : nic'.mem = nic.mem

theorem Same.trans {nic nic' nic'' : Nic} (h : Same nic nic') (h' : Same nic' nic'') :
    Same nic nic'' :=
  ⟨h'.cr, h'.page0.trans h.page0, h'.page1.trans h.page1, h'.mem.trans h.mem⟩

end Nic

theorem low_byte (n : Nat) : (n &&& 0xFF) % 256 = n % 256 := by
  rw [show (0xFF : Nat) = 2 ^ 8 - 1 from rfl, Nat.and_two_pow_sub_one_eq_mod]
  omega

/-- A DMA read of the driver returns the words at an address and leaves the ring alone. -/
theorem ne2kDmaRead_spec {nic : Nic} (h : nic.cr < 0x40) {a : Nat} (ha : a < 0x10000) (n : Nat) :
    (ne2kDmaRead a n nic).1 = dmaRing.load nic.mem a (2 * ((n + 1) / 2)) ∧
      Nic.Same nic (ne2kDmaRead a n nic).2 := by
  have hshift : (n + 1) >>> 1 = (n + 1) / 2 := by rw [Nat.shiftRight_eq_div_pow]
  have haddr : (a >>> 8) % 256 * 256 + a % 256 = a := by
    rw [Nat.shiftRight_eq_div_pow]
    omega
  refine ⟨?_, ?_, ?_, ?_, ?_⟩ <;>
    simp [ne2kDmaRead, Nic.outb, Nic.insw, h, NE_CR, NE_ISR, NE_RBCR0, NE_RBCR1, NE_RSAR0,
      NE_RSAR1, low_byte, haddr, hshift]

theorem nextPktPage_le (bnry : Nat) : nextPktPage bnry ≤ 0x7F := by
  unfold nextPktPage RX_PAGE_STOP RX_PAGE_START
  split <;> omega

theorem select_page0 {nic : Nic} (h : nic.cr < 0x40) :
    (nic.outb NE_CR 0x62).inb NE_CURR = nic.curr ∧
      Nic.Same nic ((nic.outb NE_CR 0x62).outb NE_CR (nic.inb NE_CR ||| 0x02)) := by
  have hor : nic.cr ||| 0x02 < 2 ^ 6 := Nat.or_lt_two_pow h (by decide)
  refine ⟨rfl, ?_, rfl, rfl, rfl⟩
  exact Nat.lt_of_le_of_lt (Nat.mod_le _ _) hor

theorem inb_bnry {nic : Nic} (h : nic.cr < 0x40) : nic.inb NE_BNRY = nic.bnry := by
  simp [Nic.inb, Nic.bnry, h, NE_BNRY, NE_CR, NE_ISR]

theorem ne2kPollRx_of_empty {s : State} (hinit : s.initialized = true) (hcr : s.nic.cr < 0x40)
    (hempty : nextPktPage s.nic.bnry = s.nic.curr) (maxlen : Nat) (out : Mem UInt8) :
    ∃ nic, Nic.Same s.nic nic ∧ ne2kPollRx maxlen out s = (0, out, { s with nic := nic }) := by
  obtain ⟨hcurr, hsame⟩ := select_page0 hcr
  refine ⟨_, hsame, ?_⟩
  have hbnry := inb_bnry hsame.cr
  rw [Nic.bnry, hsame.page0, ← Nic.bnry] at hbnry
  simp only [ne2kPollRx, hinit, hcurr, hbnry, hempty, Bool.not_true, Bool.false_eq_true, if_false,
    if_true]

def headerAt (nic : Nic) : Header :=
  readHeader (dmaRing.load nic.mem (nextPktPage nic.bnry * 256) 4)

theorem copyBody {nic : Nic} (h : nic.cr < 0x40) {a : Nat} (ha : a < 0x10000) (len : Nat)
    (out : Mem UInt8) :
    ∃ nic', Nic.Same nic nic' ∧
      (if len ≠ 0 then
        let (bytes, nic) := ne2kDmaRead a len nic
        (blit out 0 bytes, nic)
      else (out, nic)) = (blit out 0 (dmaRing.load nic.mem a (2 * ((len + 1) / 2))), nic') := by
  by_cases hlen : len = 0
  · subst hlen
    refine ⟨nic, ⟨h, rfl, rfl, rfl⟩, ?_⟩
    simp [Ring.load]
  · obtain ⟨hbytes, hsame⟩ := ne2kDmaRead_spec h ha len
    refine ⟨_, hsame, ?_⟩
    rw [if_pos hlen, ← hbytes]

theorem advance {nic : Nic} (h : nic.cr < 0x40) (val : Nat) :
    ((nic.outb NE_BNRY val).outb NE_ISR 0x15).cr < 0x40 ∧
      ((nic.outb NE_BNRY val).outb NE_ISR 0x15).page0 =
        Function.update nic.page0 NE_BNRY (val % 256) ∧
      ((nic.outb NE_BNRY val).outb NE_ISR 0x15).page1 = nic.page1 ∧
      ((nic.outb NE_BNRY val).outb NE_ISR 0x15).mem = nic.mem := by
  simp [Nic.outb, h, NE_BNRY, NE_ISR, NE_CR, NE_RSAR0, NE_RSAR1, NE_RBCR0, NE_RBCR1]

/-- Where there is a packet behind BNRY, a poll copies as much of it as `copyLen` says, in
whole words, and moves BNRY as the header says. -/
theorem ne2kPollRx_of_packet {s : State} (hinit : s.initialized = true) (hcr : s.nic.cr < 0x40)
    (hpacket : nextPktPage s.nic.bnry ≠ s.nic.curr) (maxlen : Nat) (out : Mem UInt8) :
    ∃ nic, nic.cr < 0x40 ∧
      nic.page0 = Function.update s.nic.page0 NE_BNRY
        (bnryAfter (headerAt s.nic).nextPage % 256) ∧
      nic.page1 = s.nic.page1 ∧ nic.mem = s.nic.mem ∧
      ne2kPollRx maxlen out s =
        (copyLen (headerAt s.nic) maxlen,
          blit out 0 (dmaRing.load s.nic.mem (nextPktPage s.nic.bnry * 256 + 4)
            (2 * ((copyLen (headerAt s.nic) maxlen + 1) / 2))),
          { s with nic := nic }) := by
  obtain ⟨hcurr, hsame⟩ := select_page0 hcr
  have hbnry := inb_bnry hsame.cr
  rw [Nic.bnry, hsame.page0, ← Nic.bnry] at hbnry
  have hpage := nextPktPage_le s.nic.bnry
  have hshift : nextPktPage s.nic.bnry <<< 8 = nextPktPage s.nic.bnry * 256 := by
    rw [Nat.shiftLeft_eq]
  obtain ⟨hhdr, hsame₂⟩ := ne2kDmaRead_spec hsame.cr
    (a := nextPktPage s.nic.bnry * 256) (by omega) 4
  obtain ⟨nic₃, hsame₃, hbody⟩ := copyBody hsame₂.cr (a := nextPktPage s.nic.bnry * 256 + 4)
    (by omega) (copyLen (headerAt s.nic) maxlen) out
  have hall := (hsame.trans hsame₂).trans hsame₃
  obtain ⟨hcr', hpage0, hpage1, hmem⟩ :=
    advance hsame₃.cr (bnryAfter (headerAt s.nic).nextPage)
  refine ⟨_, hcr', by rw [hpage0, hall.page0], by rw [hpage1, hall.page1],
    by rw [hmem, hall.mem], ?_⟩
  have hread : readHeader (ne2kDmaRead (nextPktPage s.nic.bnry * 256) 4
      ((s.nic.outb NE_CR 0x62).outb NE_CR (s.nic.inb NE_CR ||| 0x02))).1 = headerAt s.nic := by
    rw [hhdr, hsame.mem]
    rfl
  rw [(hsame.trans hsame₂).mem] at hbody
  simp only [ne2kPollRx, hinit, hcurr, hbnry, Bool.not_true, Bool.false_eq_true, if_false,
    if_neg hpacket, hshift, hread, hbody]

/-! ## The initial ring -/

theorem foldl_outb (nic : Nic) (hcr : 0x40 ≤ nic.cr ∧ nic.cr < 0x80) (base : Nat)
    (val : Nat → Nat) (ports : List Nat)
    (hports : ∀ i ∈ ports, base + i ≠ NE_CR ∧ base + i ≠ NE_CURR) :
    (ports.foldl (fun nic i => nic.outb (base + i) (val i)) nic).cr = nic.cr ∧
      (ports.foldl (fun nic i => nic.outb (base + i) (val i)) nic).page0 = nic.page0 ∧
      (ports.foldl (fun nic i => nic.outb (base + i) (val i)) nic).curr = nic.curr := by
  induction ports generalizing nic with
  | nil => exact ⟨rfl, rfl, rfl⟩
  | cons i ports ih =>
      obtain ⟨hne, hcurr⟩ := hports i (by simp)
      have hout : nic.outb (base + i) (val i) =
          { nic with page1 := Function.update nic.page1 (base + i) (val i % 256) } := by
        simp [Nic.outb, hne, Nat.not_lt.mpr hcr.1, hcr.2]
      rw [List.foldl_cons, hout]
      obtain ⟨hcr', hpage0, hcurr'⟩ := ih
        { nic with page1 := Function.update nic.page1 (base + i) (val i % 256) } hcr
        fun j hj => hports j (by simp [hj])
      refine ⟨hcr', hpage0, hcurr'.trans ?_⟩
      exact Function.update_of_ne (Ne.symm hcurr) _ _

/-- The card at the end of `ne2k_init_direct`. -/
structure Ready (s : State) : Prop where
  initialized : s.initialized = true
  cr : s.nic.cr < 0x40
  bnry : s.nic.bnry = RX_PAGE_START
  curr : s.nic.curr = RX_PAGE_START + 1

theorem initPage0_spec {nic : Nic} (h : nic.cr = 0x21) :
    (initPage0 nic).cr = 0x21 ∧ (initPage0 nic).bnry = RX_PAGE_START := by
  simp [initPage0, Nic.outb, Nic.bnry, h, NE_DCR, NE_RBCR0, NE_RBCR1, NE_RCR, NE_TCR, NE_TPSR,
    NE_PSTART, NE_PSTOP, NE_BNRY, NE_ISR, NE_IMR, NE_CR, NE_RSAR0, NE_RSAR1, RX_PAGE_START,
    Function.update]

theorem initPage1_spec (mac : List UInt8) (nic : Nic) :
    (initPage1 mac nic).cr < 0x40 ∧ (initPage1 mac nic).bnry = nic.bnry ∧
      (initPage1 mac nic).curr = RX_PAGE_START + 1 := by
  unfold initPage1
  dsimp only
  rw [show nic.outb NE_CR 0x61 = { nic with cr := 0x61 } from rfl]
  -- the station address
  obtain ⟨hcr, hpage0, -⟩ := foldl_outb { nic with cr := 0x61 }
    ⟨by simp, by simp⟩ NE_PAR0 (fun i => (mac.getD i 0).toNat) (List.range 6) (by decide)
  generalize (List.range 6).foldl _ { nic with cr := 0x61 } = nic₁ at hcr hpage0 ⊢
  have hcurr : nic₁.outb NE_CURR (RX_PAGE_START + 1) =
      { nic₁ with page1 := Function.update nic₁.page1 NE_CURR (RX_PAGE_START + 1) } := by
    simp [Nic.outb, hcr, NE_CURR, NE_CR, RX_PAGE_START]
  rw [hcurr]
  -- the multicast filter
  obtain ⟨-, hpage0', hcurr'⟩ := foldl_outb
    { nic₁ with page1 := Function.update nic₁.page1 NE_CURR (RX_PAGE_START + 1) }
    ⟨by simp [hcr], by simp [hcr]⟩ 0x08 (fun _ => 0) (List.range 8) (by decide)
  generalize (List.range 8).foldl _ _ = nic₂ at hpage0' hcurr' ⊢
  refine ⟨by simp [Nic.outb, NE_CR, NE_TCR, NE_RCR, NE_ISR, NE_RSAR0, NE_RSAR1, NE_RBCR0, NE_RBCR1],
    ?_, ?_⟩
  · have hbnry : nic₂.page0 NE_BNRY = nic.page0 NE_BNRY := by rw [hpage0', hpage0]
    simpa [Nic.outb, Nic.bnry, NE_CR, NE_TCR, NE_RCR, NE_ISR, NE_RSAR0, NE_RSAR1, NE_RBCR0,
      NE_RBCR1, NE_BNRY] using hbnry
  · have hcurr : nic₂.page1 NE_CURR = RX_PAGE_START + 1 := by
      rw [show nic₂.page1 NE_CURR = nic₂.curr from rfl, hcurr']
      exact Function.update_self NE_CURR (RX_PAGE_START + 1) nic₁.page1
    simpa [Nic.outb, Nic.curr, NE_CR, NE_TCR, NE_RCR, NE_ISR, NE_RSAR0, NE_RSAR1, NE_RBCR0,
      NE_RBCR1, NE_CURR] using hcurr

/-- Whatever the card held before, the ring is empty and the driver polls it. -/
theorem ready_ne2kInitDirect (s : State) : Ready (ne2kInitDirect s).2.2 := by
  have hspin : spinLeft 0x80 s.nic.reset ≠ 0 := by simp [spinLeft, Nic.reset]
  have hprobe : (s.nic.reset.outb NE_CR 0x21).inb NE_CR = 0x21 := rfl
  obtain ⟨hcr, hbnry⟩ := initPage0_spec
    (show (s.nic.reset.outb NE_CR 0x21).cr = 0x21 from rfl)
  obtain ⟨mac, nic, hsame, hinit⟩ : ∃ mac nic,
      Nic.Same (initPage0 (s.nic.reset.outb NE_CR 0x21)) nic ∧
        (ne2kInitDirect s).2.2 = ⟨initPage1 mac nic, true, mac, s.slaveImr ||| 0x02⟩ := by
    refine ⟨(List.range 6).map fun i =>
      (ne2kDmaRead 0x0000 32 (initPage0 (s.nic.reset.outb NE_CR 0x21))).1.getD (2 * i) 0, _,
      (ne2kDmaRead_spec (a := 0x0000) (by rw [hcr]; decide) (by decide) 32).2, ?_⟩
    simp only [ne2kInitDirect, if_neg hspin, hprobe, ne_eq, not_true_eq_false, if_false]
  obtain ⟨hcr', hbnry', hcurr'⟩ := initPage1_spec mac nic
  rw [hinit]
  refine ⟨rfl, hcr', ?_, hcurr'⟩
  rw [hbnry', Nic.bnry, hsame.page0]
  exact hbnry

end FreedosMicroPython.Net.Ne2k
