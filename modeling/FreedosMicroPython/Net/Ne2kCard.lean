import FreedosMicroPython.Net.Ne2kPorts
/-!
# The card behind the ports

The card of `Net.Ne2k` and the mask of the slave PIC as a device. On it the accesses of
`ne2k_dma_read`, `ne2k_init_direct` and `ne2k_poll_rx` do what `Net.Ne2k` says of the
routines.
-/

namespace FreedosMicroPython.Net.Ne2kPorts

open FreedosMicroPython.Lib FreedosMicroPython.Lib.Memory FreedosMicroPython.Lib.Ports
open FreedosMicroPython.Net.Ne2k

abbrev Board := Nic × Nat

def inData (nic : Nic) : Nat × Nic :=
  let (bytes, nic) := nic.insw 1
  ((bytes.getD 0 0).toNat + 256 * (bytes.getD 1 0).toNat, nic)

def outData (val : Nat) (nic : Nic) : Nic :=
  { nic with
    mem := dmaRing.store nic.mem nic.rsar [UInt8.ofNat val, UInt8.ofNat (val / 256)]
    rsar := dmaRing.next^[2] nic.rsar
    rbcr := nic.rbcr - 2
    isr := if nic.rbcr ≤ 2 then nic.isr ||| 0x40 else nic.isr }

def card : Device Board where
  read _ port b :=
    if port = 0xA1 then (b.2, b)
    else if port = NE2K_RESET then (0, b.1.reset, b.2)
    else if port = NE2K_DATA then ((inData b.1).1, (inData b.1).2, b.2)
    else (b.1.inb (port - NE2K_BASE), b)
  write _ port val b :=
    if port = 0xA1 then (b.1, val)
    else if port = NE2K_RESET then b
    else if port = NE2K_DATA then (outData val b.1, b.2)
    else (b.1.outb (port - NE2K_BASE) val, b.2)

/-! ## Accesses -/

theorem card_read {offset : Nat} (h : offset < 0x10) (nic : Nic) (imr : Nat) :
    card.read .byte (NE2K_BASE + offset) (nic, imr) = (nic.inb offset, nic, imr) := by
  have hne : NE2K_BASE + offset ≠ 0xA1 ∧ NE2K_BASE + offset ≠ NE2K_RESET ∧
      NE2K_BASE + offset ≠ NE2K_DATA := by
    unfold NE2K_RESET NE2K_DATA NE2K_BASE
    omega
  simp only [card, hne, if_false, Nat.add_sub_cancel_left]

theorem card_write {offset : Nat} (h : offset < 0x10) (val : Nat) (nic : Nic) (imr : Nat) :
    card.write .byte (NE2K_BASE + offset) (val % 0x100) (nic, imr) =
      (nic.outb offset val, imr) := by
  have hne : NE2K_BASE + offset ≠ 0xA1 ∧ NE2K_BASE + offset ≠ NE2K_RESET ∧
      NE2K_BASE + offset ≠ NE2K_DATA := by
    unfold NE2K_RESET NE2K_DATA NE2K_BASE
    omega
  have hbyte : nic.outb offset (val % 0x100) = nic.outb offset val := by
    simp only [Nic.outb, Nat.mod_mod]
  simp only [card, hne, if_false, Nat.add_sub_cancel_left, hbyte]

theorem returns_inb {offset : Nat} (h : offset < 0x10) {nic : Nic} (hv : nic.inb offset < 0x100)
    (imr : Nat) : Returns card (nic, imr) (inb (NE2K_BASE + offset)) (nic.inb offset) (nic, imr) :=
  Returns.inb _ (card_read h nic imr) hv

theorem returns_outb {offset : Nat} (h : offset < 0x10) (val : Nat) (nic : Nic) (imr : Nat) :
    Returns card (nic, imr) (outb (NE2K_BASE + offset) val) () (nic.outb offset val, imr) := by
  have hout := Returns.outb (d := card) (NE2K_BASE + offset) val (nic, imr)
  rwa [card_write h] at hout

theorem inData_eq (nic : Nic) :
    inData nic = ((nic.mem nic.rsar).toNat + 256 * (nic.mem (dmaRing.next nic.rsar)).toNat,
      (nic.insw 1).2) := rfl

theorem returns_inw (nic : Nic) (imr : Nat) :
    Returns card (nic, imr) (inw NE2K_DATA) (inData nic).1 ((inData nic).2, imr) := by
  have hread : card.read .word NE2K_DATA (nic, imr) =
      ((inData nic).1, (inData nic).2, imr) := rfl
  have hword : (inData nic).1 < 0x10000 := by
    have hlo := (nic.mem nic.rsar).toNat_lt
    have hhi := (nic.mem (dmaRing.next nic.rsar)).toNat_lt
    rw [inData_eq]
    omega
  constructor
  · rw [inw, run, hread]
    exact congrArg some (Nat.mod_eq_of_lt hword)
  · rw [inw, run, hread]
    rfl

/-! ## Remote DMA -/

theorem insw_succ (nic : Nic) (n : Nat) :
    nic.insw (n + 2) = ((nic.insw 1).1 ++ ((nic.insw 1).2.insw (n + 1)).1,
      ((nic.insw 1).2.insw (n + 1)).2) := by
  have hload : dmaRing.load nic.mem nic.rsar (2 * (n + 2)) = dmaRing.load nic.mem nic.rsar 2 ++
      dmaRing.load nic.mem (dmaRing.next^[2] nic.rsar) (2 * (n + 1)) := rfl
  have hnext : dmaRing.next^[2 * (n + 2)] nic.rsar =
      dmaRing.next^[2 * (n + 1)] (dmaRing.next^[2] nic.rsar) := rfl
  have hisr : (if nic.rbcr - 2 ≤ 2 * (n + 1) then
        (if nic.rbcr ≤ 2 then nic.isr ||| 0x40 else nic.isr) ||| 0x40
      else if nic.rbcr ≤ 2 then nic.isr ||| 0x40 else nic.isr) =
      if nic.rbcr ≤ 2 * (n + 2) then nic.isr ||| 0x40 else nic.isr := by
    split_ifs <;> first | omega | rw [Nat.or_assoc, Nat.or_self]
  simp only [Nic.insw, hload, hnext, Nat.mul_one, hisr, Nat.sub_sub,
    show 2 + 2 * (n + 1) = 2 * (n + 2) by omega]

theorem returns_insw (n : Nat) (nic : Nic) (imr : Nat) :
    Returns card (nic, imr) (insw NE2K_DATA (n + 1)) (nic.insw (n + 1)).1
      ((nic.insw (n + 1)).2, imr) := by
  have hfirst := returns_inw nic imr
  rw [inData_eq] at hfirst
  have hbytes : (nic.insw 1).1 = [nic.mem nic.rsar, nic.mem (dmaRing.next nic.rsar)] := rfl
  induction n generalizing nic with
  | zero =>
      have hend := Returns.pure (d := card) (nic.insw 1).1 ((nic.insw 1).2, imr)
      rw [hbytes] at hend ⊢
      apply hfirst.bind
      rw [ofNat_low, ofNat_high]
      exact hend
  | succ n ih =>
      have hrest := ih (nic.insw 1).2 (returns_inw _ imr) rfl
      rw [insw_succ, hbytes]
      apply hfirst.bind
      apply hrest.bind
      rw [ofNat_low, ofNat_high]
      exact Returns.pure _ _

/-- ISR stays a byte: writing it clears bits, a transfer sets one. -/
theorem isr_insw_lt {nic : Nic} {wcount : Nat} (h : nic.isr < 0x100) :
    (nic.insw wcount).2.isr < 0x100 := by
  have hor : nic.isr ||| 0x40 < 2 ^ 8 := Nat.or_lt_two_pow h (by decide)
  simp only [Nic.insw]
  split
  · exact hor
  · exact h

theorem isr_outb_lt {nic : Nic} {port val : Nat} (h : nic.isr < 0x100) :
    (nic.outb port val).isr < 0x100 := by
  have hand : nic.isr &&& (0xFF ^^^ val % 256) < 0x100 := Nat.lt_of_le_of_lt Nat.and_le_left h
  unfold Nic.outb
  dsimp only
  split_ifs <;> first | exact hand | exact h

theorem inb_isr {nic : Nic} (hcr : nic.cr < 0x40) : nic.inb NE_ISR = nic.isr := by
  simp [Nic.inb, hcr, NE_ISR, NE_CR]

theorem returns_ne2kDmaRead {nic : Nic} (hisr : nic.isr < 0x100)
    (nicAddr : Nat) {byteCount : Nat} (hpos : 0 < byteCount) (imr : Nat) :
    Returns card (nic, imr) (ne2kDmaRead nicAddr byteCount)
      (Ne2k.ne2kDmaRead nicAddr byteCount nic).1
      ((Ne2k.ne2kDmaRead nicAddr byteCount nic).2, imr) := by
  obtain ⟨n, hn⟩ : ∃ n, (byteCount + 1) >>> 1 = n + 1 := by
    refine ⟨(byteCount + 1) / 2 - 1, ?_⟩
    rw [Nat.shiftRight_eq_div_pow]
    omega
  unfold ne2kDmaRead remoteDma Ne2k.ne2kDmaRead
  rw [hn]
  apply (returns_outb (by decide) _ _ imr).bind
  apply (returns_outb (by decide) _ _ imr).bind
  apply (returns_outb (by decide) _ _ imr).bind
  apply (returns_outb (by decide) _ _ imr).bind
  apply (returns_outb (by decide) _ _ imr).bind
  apply (returns_outb (by decide) _ _ imr).bind
  apply (returns_insw n _ imr).bind
  apply (Returns.poll _ (card_read (by decide) _ imr) _ _).bind
  apply (returns_outb (by decide) _ _ imr).bind
  · exact Returns.pure _ _
  · rw [inb_isr (by simp [Nic.insw, Nic.outb, NE_CR])]
    exact isr_insw_lt <| isr_outb_lt <| isr_outb_lt <| isr_outb_lt <| isr_outb_lt <|
      isr_outb_lt <| isr_outb_lt hisr

theorem isr_ne2kDmaRead_lt {nic : Nic} (h : nic.isr < 0x100) (nicAddr byteCount : Nat) :
    (Ne2k.ne2kDmaRead nicAddr byteCount nic).2.isr < 0x100 := by
  unfold Ne2k.ne2kDmaRead
  exact isr_outb_lt <| isr_insw_lt <| isr_outb_lt <| isr_outb_lt <| isr_outb_lt <|
    isr_outb_lt <| isr_outb_lt <| isr_outb_lt h

/-! ## Initialisation -/

theorem returns_initPage0 (nic : Nic) (imr : Nat) :
    Returns card (nic, imr) initPage0 () (Ne2k.initPage0 nic, imr) := by
  unfold initPage0 Ne2k.initPage0
  apply (returns_outb (by decide) _ _ imr).bind
  apply (returns_outb (by decide) _ _ imr).bind
  apply (returns_outb (by decide) _ _ imr).bind
  apply (returns_outb (by decide) _ _ imr).bind
  apply (returns_outb (by decide) _ _ imr).bind
  apply (returns_outb (by decide) _ _ imr).bind
  apply (returns_outb (by decide) _ _ imr).bind
  apply (returns_outb (by decide) _ _ imr).bind
  apply (returns_outb (by decide) _ _ imr).bind
  apply (returns_outb (by decide) _ _ imr).bind
  exact returns_outb (by decide) _ _ imr

theorem returns_forM {base n : Nat} (h : base + n ≤ 0x10) (val : Nat → Nat) (nic : Nic)
    (imr : Nat) :
    Returns card (nic, imr) ((List.range n).forM fun i => outb (NE2K_BASE + base + i) (val i)) ()
      ((List.range n).foldl (fun nic i => nic.outb (base + i) (val i)) nic, imr) := by
  apply Returns.forM (e := fun nic : Nic => (nic, imr))
  intro nic i hi
  have hi := List.mem_range.mp hi
  rw [Nat.add_assoc]
  exact returns_outb (by omega) _ _ imr

theorem returns_initPage1 (mac : List UInt8) (nic : Nic) (imr : Nat) :
    Returns card (nic, imr) (initPage1 mac) () (Ne2k.initPage1 mac nic, imr) := by
  unfold initPage1 Ne2k.initPage1
  apply (returns_outb (by decide) _ _ imr).bind
  apply (returns_forM (by decide) _ _ imr).bind
  apply (returns_outb (by decide) _ _ imr).bind
  apply (returns_forM (by decide) _ _ imr).bind
  apply (returns_outb (by decide) _ _ imr).bind
  apply (returns_outb (by decide) _ _ imr).bind
  exact returns_outb (by decide) _ _ imr

theorem isr_initPage0_lt {nic : Nic} (h : nic.isr < 0x100) : (Ne2k.initPage0 nic).isr < 0x100 := by
  unfold Ne2k.initPage0
  exact isr_outb_lt <| isr_outb_lt <| isr_outb_lt <| isr_outb_lt <| isr_outb_lt <| isr_outb_lt <|
    isr_outb_lt <| isr_outb_lt <| isr_outb_lt <| isr_outb_lt <| isr_outb_lt h

theorem returns_mask {nic : Nic} {imr : Nat} (h : imr < 0x100) :
    Returns card (nic, imr) (outb 0xA1 (imr ||| 0x02)) () (nic, imr ||| 0x02) := by
  have hor : imr ||| 0x02 < 0x100 := Nat.or_lt_two_pow (n := 8) h (by decide)
  have hout := Returns.outb (d := card) 0xA1 (imr ||| 0x02) (nic, imr)
  rwa [Nat.mod_eq_of_lt hor] at hout

/-- The accesses of `ne2k_init_direct` on a card whose page 0 is selected. -/
theorem returns_ne2kInitDirect {s : State} (hcr : s.nic.cr < 0x40) (himr : s.slaveImr < 0x100) :
    Returns card (s.nic, s.slaveImr) (ne2kInitDirect ⟨s.mac, s.initialized⟩)
      ((Ne2k.ne2kInitDirect s).1, (Ne2k.ne2kInitDirect s).2.1,
        ⟨(Ne2k.ne2kInitDirect s).2.2.mac, (Ne2k.ne2kInitDirect s).2.2.initialized⟩)
      ((Ne2k.ne2kInitDirect s).2.2.nic, (Ne2k.ne2kInitDirect s).2.2.slaveImr) := by
  have hprobe : (s.nic.reset.outb NE_CR 0x21).inb NE_CR = 0x21 := rfl
  have hinit : Ne2k.ne2kInitDirect s =
      let nic := Ne2k.initPage0 (s.nic.reset.outb NE_CR 0x21)
      let prom := Ne2k.ne2kDmaRead 0x0000 32 nic
      let mac := (List.range 6).map fun i => prom.1.getD (2 * i) 0
      (0, mac, ⟨Ne2k.initPage1 mac prom.2, true, mac, s.slaveImr ||| 0x02⟩) := by
    have hspin : spinLeft 0x80 s.nic.reset ≠ 0 := by simp [spinLeft, Nic.reset]
    simp only [Ne2k.ne2kInitDirect, if_neg hspin, hprobe, ne_eq, not_true_eq_false, if_false]
  have hisr : s.nic.reset.inb NE_ISR = 0x80 := inb_isr hcr
  have hreset : Returns card (s.nic, s.slaveImr) (inb NE2K_RESET) 0 (s.nic.reset, s.slaveImr) :=
    Returns.inb _ rfl (by decide)
  have hread : card.read .byte (NE2K_BASE + NE_ISR) (s.nic.reset, s.slaveImr) =
      (0x80, s.nic.reset, s.slaveImr) := by
    rw [card_read (by decide), hisr]
  have hpoll := Returns.poll (fun isr => isr &&& 0x80 != 0) hread (by decide) 99999
  have hbyte : (s.nic.reset.outb NE_CR 0x21).isr < 0x100 :=
    isr_outb_lt (show 0x80 < 0x100 by decide)
  rw [hinit]
  apply hreset.bind
  apply (Returns.outb _ _ _).bind
  apply hpoll.bind
  apply (returns_outb (by decide) _ _ _).bind
  apply (returns_inb (by decide) (Nat.lt_of_le_of_lt (Nat.le_of_eq hprobe) (by decide)) _).bind
  rw [hprobe]
  apply (returns_initPage0 _ _).bind
  apply (returns_ne2kDmaRead (isr_initPage0_lt hbyte) 0x0000 (by decide) _).bind
  apply (returns_initPage1 _ _ _).bind
  apply (Returns.inb 0xA1 rfl himr).bind
  apply (returns_mask himr).bind
  exact Returns.pure _ _

/-! ## Polling -/

/-- The registers a poll reads hold bytes, and page 0 is selected. -/
structure Bytes (nic : Nic) : Prop where
  cr : nic.cr < 0x40
  isr : nic.isr < 0x100
  bnry : nic.bnry < 0x100
  curr : nic.curr < 0x100

theorem returns_readBody {nic : Nic} (hisr : nic.isr < 0x100) (page len : Nat) (out : Mem UInt8)
    (imr : Nat) :
    Returns card (nic, imr) (readBody page len out)
      (if len ≠ 0 then blit out 0 (Ne2k.ne2kDmaRead ((page <<< 8) + 4) len nic).1 else out)
      (if len ≠ 0 then (Ne2k.ne2kDmaRead ((page <<< 8) + 4) len nic).2 else nic, imr) := by
  unfold readBody
  by_cases hlen : len ≠ 0
  · rw [if_pos hlen, if_pos hlen, if_pos hlen]
    apply (returns_ne2kDmaRead hisr _ (Nat.pos_of_ne_zero hlen) imr).bind
    exact Returns.pure _ _
  · rw [if_neg hlen, if_neg hlen, if_neg hlen]
    exact Returns.pure _ _

def looked (nic : Nic) : Nic := (nic.outb NE_CR 0x62).outb NE_CR (nic.inb NE_CR ||| 0x02)

theorem returns_look {nic : Nic} (h : Bytes nic) {imr : Nat} {mac : List UInt8} {out : Mem UInt8}
    {maxlen : Nat} {r : Nat × Mem UInt8} {b : Board}
    (hrest : Returns card (looked nic, imr)
      (if nextPktPage nic.bnry = nic.curr then pure (0, out)
        else takePacket (nextPktPage nic.bnry) out maxlen) r b) :
    Returns card (nic, imr) (ne2kPollRx ⟨mac, true⟩ out maxlen) r b := by
  obtain ⟨hcurr, hsame⟩ := select_page0 h.cr
  have hbnry := inb_bnry hsame.cr
  rw [Nic.bnry, hsame.page0, ← Nic.bnry] at hbnry
  have hcr : nic.inb NE_CR < 0x100 := Nat.lt_trans h.cr (by decide)
  rw [← hcurr] at hrest
  rw [← hbnry] at hrest
  apply (returns_inb (by decide) hcr imr).bind
  apply (returns_outb (by decide) _ _ imr).bind
  apply (returns_inb (by decide) (by rw [hcurr]; exact h.curr) imr).bind
  apply (returns_outb (by decide) _ _ imr).bind
  apply (returns_inb (by decide) (by rw [hbnry]; exact h.bnry) imr).bind
  exact hrest

theorem returns_takePacket {nic : Nic} (hisr : nic.isr < 0x100) (page : Nat) (out : Mem UInt8)
    (maxlen imr : Nat) :
    let head := Ne2k.ne2kDmaRead (page <<< 8) 4 nic
    let hdr := readHeader head.1
    let len := copyLen hdr maxlen
    let body := Ne2k.ne2kDmaRead ((page <<< 8) + 4) len head.2
    let nic' := if len ≠ 0 then body.2 else head.2
    Returns card (nic, imr) (takePacket page out maxlen)
      (len, if len ≠ 0 then blit out 0 body.1 else out)
      ((nic'.outb NE_BNRY (bnryAfter hdr.nextPage)).outb NE_ISR 0x15, imr) := by
  apply (returns_ne2kDmaRead hisr _ (by decide) imr).bind
  apply (returns_readBody (isr_ne2kDmaRead_lt hisr _ _) _ _ _ imr).bind
  apply (returns_outb (by decide) _ _ imr).bind
  apply (returns_outb (by decide) _ _ imr).bind
  exact Returns.pure _ _

/-- The accesses of `ne2k_poll_rx` on the card. -/
theorem returns_ne2kPollRx {s : State} (h : Bytes s.nic) (out : Mem UInt8) (maxlen : Nat) :
    Returns card (s.nic, s.slaveImr) (ne2kPollRx ⟨s.mac, s.initialized⟩ out maxlen)
      ((Ne2k.ne2kPollRx maxlen out s).1, (Ne2k.ne2kPollRx maxlen out s).2.1)
      ((Ne2k.ne2kPollRx maxlen out s).2.2.nic, s.slaveImr) := by
  unfold Ne2k.ne2kPollRx
  cases hinit : s.initialized with
  | false => exact Returns.pure _ _
  | true =>
      obtain ⟨hcurr, hsame⟩ := select_page0 h.cr
      have hbnry := inb_bnry hsame.cr
      rw [Nic.bnry, hsame.page0, ← Nic.bnry] at hbnry
      have hisr : (looked s.nic).isr < 0x100 := isr_outb_lt (isr_outb_lt h.isr)
      apply returns_look h
      simp only [hcurr, hbnry, Bool.not_true, Bool.false_eq_true, if_false]
      by_cases hempty : nextPktPage s.nic.bnry = s.nic.curr
      · rw [if_pos hempty, if_pos hempty]
        exact Returns.pure _ _
      · rw [if_neg hempty, if_neg hempty]
        have htake := returns_takePacket hisr (nextPktPage s.nic.bnry) out maxlen s.slaveImr
        unfold looked at *
        dsimp only at htake ⊢
        split_ifs at htake ⊢ <;> exact htake

end FreedosMicroPython.Net.Ne2kPorts
