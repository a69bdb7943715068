import FreedosMicroPython.Net.Ne2kPorts
/-!
# Frames on their way to the card

`uc386dos_eth_linkoutput` of `port/lwip_uc386dos.c` copies each frame over the last one, and
`ne2k_send_direct` sends at least 60 bytes of the buffer. `padding_same_iff` says when two
histories of frames are hidden from the card.
-/

namespace FreedosMicroPython.Net.Linkoutput

open FreedosMicroPython.Lib.Memory FreedosMicroPython.Lib.Ports
open FreedosMicroPython.Net.Ne2k FreedosMicroPython.Net.Ne2kPorts

inductive ErrT where
  | ERR_OK
  | ERR_IF
  deriving DecidableEq, Repr

structure Drivers where
  ne2k : Statics
  pktdrvIntNum : Int

/-- The ways of a frame that do without the NE2000: `pktdrv_send` behind its first branch
and `ethdrv_send`. They return, whatever answers them. -/
structure Others where
  pktdrvSend : Drivers → Mem UInt8 → Nat → Prog Int
  ethdrvSend : Drivers → Mem UInt8 → Nat → Prog Int
  bound : Nat
  within_pktdrvSend : ∀ dr buf len, Within bound (pktdrvSend dr buf len)
  within_ethdrvSend : ∀ dr buf len, Within bound (ethdrvSend dr buf len)

def pktdrvIsActive (dr : Drivers) : Bool :=
  dr.ne2k.ne2kInitialized || (dr.pktdrvIntNum != 0 && dr.pktdrvIntNum != -1)

def TX_BUF_SIZE : Nat := 1500 + 14

variable (o : Others) (budget : Nat)

def pktdrvSend (dr : Drivers) (buf : Mem UInt8) (len : Nat) : Prog Int :=
  if dr.ne2k.ne2kInitialized then ne2kSendDirect budget dr.ne2k buf len
  else o.pktdrvSend dr buf len

def send (dr : Drivers) (buf : Mem UInt8) (len : Nat) : Prog Int :=
  if pktdrvIsActive dr then pktdrvSend o budget dr buf len else o.ethdrvSend dr buf len

/-- `uc386dos_eth_linkoutput`: its result and the static buffer. -/
def uc386dosEthLinkoutput (dr : Drivers) (txBuf : Mem UInt8) (p : List UInt8) :
    Prog (ErrT × Mem UInt8) :=
  if TX_BUF_SIZE < p.length then pure (.ERR_IF, txBuf)
  else do
    let txBuf := blit txBuf 0 p
    let rc ← send o budget dr txBuf p.length
    pure (if rc ≠ 0 then .ERR_IF else .ERR_OK, txBuf)

/-! ## Histories -/

abbrev History := List (Drivers × List UInt8)

def sendAll : History → Mem UInt8 → Prog (Mem UInt8)
  | [], txBuf => pure txBuf
  | (dr, p) :: h, txBuf => do
      let r ← uc386dosEthLinkoutput o budget dr txBuf p
      sendAll h r.2

/-- The byte at `i` of the last frame that reached it; the buffer starts out as zeros. -/
def leftBehind (h : History) (i : Nat) : UInt8 :=
  h.foldl (fun b c => if TX_BUF_SIZE < c.2.length then b else c.2.getD i b) 0

/-- Behind the history `h` the card is handed `bytes` for the frame `p`, on some card. -/
def Handed (h : History) (dr : Drivers) (p bytes : List UInt8) : Prop :=
  ∃ (σ : Type) (d : Device σ) (s s₁ s₂ : σ) (budget : Nat) (txBuf : Mem UInt8)
    (r : ErrT × Mem UInt8) (log log' : List Access),
    run d (sendAll o budget h fun _ => 0) s = (some txBuf, log, s₁) ∧
      run d (uc386dosEthLinkoutput o budget dr txBuf p) s₁ = (some r, log', s₂) ∧
      wordsTo NE2K_DATA log' = bytes

/-- The card cannot tell the two histories apart by the frame `p`. -/
def PaddingSame (dr : Drivers) (p : List UInt8) (h h' : History) : Prop :=
  ∀ bytes bytes', Handed o h dr p bytes → Handed o h' dr p bytes' → bytes = bytes'

/-! ## What the calls write -/

theorem emits_ne2kDmaWrite (nicAddr : Nat) (src : Mem UInt8) (byteCount : Nat) :
    Emits NE2K_DATA (ne2kDmaWrite nicAddr src byteCount)
      (slice src 0 (2 * ((byteCount + 1) >>> 1))) := by
  have hwords : Emits NE2K_DATA (outsw NE2K_DATA (slice src 0 (2 * ((byteCount + 1) >>> 1))))
      (slice src 0 (2 * ((byteCount + 1) >>> 1))) :=
    Emits.outsw _ (by rw [length_slice]; exact Nat.dvd_mul_right 2 _)
  have hall : Emits NE2K_DATA (ne2kDmaWrite nicAddr src byteCount)
      ([] ++ ([] ++ ([] ++ ([] ++ ([] ++ ([] ++
        (slice src 0 (2 * ((byteCount + 1) >>> 1)) ++ ([] ++ ([] ++ []))))))))) :=
    (Emits.outb _ _).bind fun _ => (Emits.outb _ _).bind fun _ => (Emits.outb _ _).bind fun _ =>
      (Emits.outb _ _).bind fun _ => (Emits.outb _ _).bind fun _ => (Emits.outb _ _).bind fun _ =>
      hwords.bind fun _ => (Emits.poll _ _ _).bind fun _ => (Emits.outb _ _).bind fun _ =>
      Emits.pure ()
  simpa using hall

theorem emits_awaitSent (spin : Nat) : Emits NE2K_DATA (awaitSent spin) [] := by
  induction spin with
  | zero => exact Emits.pure (-1)
  | succ spin ih =>
      exact (Emits.inb _).bind fun isr =>
        Emits.ite ((Emits.outb _ _).bind fun _ => Emits.pure _) ih

theorem emits_ne2kSendDirect {st : Statics} (hinit : st.ne2kInitialized = true) (buf : Mem UInt8)
    {len : Nat} (hlen : len ≤ 1518) :
    Emits NE2K_DATA (ne2kSendDirect budget st buf len)
      (slice buf 0 (2 * ((wireLen len + 1) >>> 1))) := by
  rw [ne2kSendDirect_eq hinit hlen]
  have hall : Emits NE2K_DATA (transmit buf (wireLen len))
      (slice buf 0 (2 * ((wireLen len + 1) >>> 1)) ++ ([] ++ ([] ++ ([] ++ [])))) :=
    (emits_ne2kDmaWrite _ _ _).bind fun _ => (Emits.outb _ _).bind fun _ =>
      (Emits.outb _ _).bind fun _ => (Emits.outb _ _).bind fun _ => emits_awaitSent 1000000
  have hboth := (Emits.wait (NE2K_BASE + NE_CR) (fun cr => cr &&& 0x04 != 0) budget).bind
    fun _ => hall
  simpa using hboth

theorem emits_linkoutput {dr : Drivers} (hinit : dr.ne2k.ne2kInitialized = true)
    (txBuf : Mem UInt8) {p : List UInt8} (hp : p.length < 60) :
    Emits NE2K_DATA (uc386dosEthLinkoutput o budget dr txBuf p) (slice (blit txBuf 0 p) 0 60) := by
  have hfits : ¬TX_BUF_SIZE < p.length := by
    unfold TX_BUF_SIZE
    omega
  have hactive : pktdrvIsActive dr = true := by rw [pktdrvIsActive, hinit, Bool.true_or]
  have hsend : send o budget dr (blit txBuf 0 p) p.length =
      ne2kSendDirect budget dr.ne2k (blit txBuf 0 p) p.length := by
    rw [send, if_pos hactive, pktdrvSend, if_pos hinit]
  have hwire : wireLen p.length = 60 := if_pos hp
  have hlen : p.length ≤ 1518 := by omega
  have hemits := emits_ne2kSendDirect budget hinit (blit txBuf 0 p) hlen
  rw [hwire, ← hsend] at hemits
  rw [uc386dosEthLinkoutput, if_neg hfits]
  have hall := hemits.bind fun rc => Emits.pure
    ((if rc ≠ 0 then .ERR_IF else .ERR_OK, blit txBuf 0 p) : ErrT × Mem UInt8)
  rwa [List.append_nil] at hall

/-! ## What is left in the buffer -/

theorem ensures_linkoutput (dr : Drivers) (txBuf : Mem UInt8) (p : List UInt8) :
    Ensures (uc386dosEthLinkoutput o budget dr txBuf p) fun r _ =>
      ∀ i, r.2 i = if TX_BUF_SIZE < p.length then txBuf i else p.getD i (txBuf i) := by
  unfold uc386dosEthLinkoutput
  split
  · exact Ensures.pure fun _ => rfl
  · apply Ensures.last
    intro rc
    apply Ensures.pure
    intro i
    simp [blit, List.getD]

theorem ensures_sendAll (h : History) (txBuf : Mem UInt8) :
    Ensures (sendAll o budget h txBuf) fun buf _ => ∀ i, buf i =
      h.foldl (fun b c => if TX_BUF_SIZE < c.2.length then b else c.2.getD i b) (txBuf i) := by
  induction h generalizing txBuf with
  | nil => exact Ensures.pure fun _ => rfl
  | cons c h ih =>
      apply Ensures.bind (ensures_linkoutput o budget c.1 txBuf c.2)
      intro r _ hr
      constructor
      intro σ d s buf log s' hrun i
      rw [(ih r.2).holds d s hrun i, hr i, List.foldl_cons]

/-! ## What the card is handed -/

def padding (h : History) (p : List UInt8) : List UInt8 :=
  slice (leftBehind h) p.length (60 - p.length)

theorem slice_blit_short (m : Mem UInt8) {p : List UInt8} (hp : p.length < 60) :
    slice (blit m 0 p) 0 60 = p ++ slice m p.length (60 - p.length) := by
  have htail : slice (blit m 0 p) p.length (60 - p.length) = slice m p.length (60 - p.length) :=
    slice_eq_slice_iff.mpr fun a hge _ => blit_of_le m (by omega)
  rw [show 60 = p.length + (60 - p.length) by omega, slice_add, slice_blit, Nat.zero_add,
    Nat.add_sub_cancel_left, htail]

theorem handed_eq {h : History} {dr : Drivers} (hinit : dr.ne2k.ne2kInitialized = true)
    {p bytes : List UInt8} (hp : p.length < 60) (hh : Handed o h dr p bytes) :
    bytes = p ++ padding h p := by
  obtain ⟨σ, d, s, s₁, s₂, budget, txBuf, r, log, log', hall, hlast, hbytes⟩ := hh
  have hbuf : txBuf = leftBehind h := funext ((ensures_sendAll o budget h _).holds d s hall)
  have hemits := (emits_linkoutput o budget hinit txBuf hp).holds d s₁ hlast
  rw [← hbytes, hemits, hbuf, slice_blit_short _ hp, padding]

def ready : Device Unit where
  read _ _ _ := (0x42, ())
  write _ _ _ _ := ()

def Completes {α : Type} (p : Prog α) : Prop := ∃ a log, run ready p () = (some a, log, ())

theorem completes_of_within {α : Type} {n : Nat} {p : Prog α} (h : Within n p) : Completes p := by
  obtain ⟨a, log, s', hrun, -⟩ := h.returns ready ()
  exact ⟨a, log, hrun⟩

theorem Completes.bind {α β : Type} {p : Prog α} {q : α → Prog β} (hp : Completes p)
    (hq : ∀ a, Completes (q a)) : Completes (p >>= q) := by
  obtain ⟨a, log, hrun⟩ := hp
  obtain ⟨b, log', hrun'⟩ := hq a
  refine ⟨b, log ++ log', ?_⟩
  rw [run_bind_of_some hrun, hrun']
  rfl

theorem completes_ne2kSendDirect (st : Statics) (buf : Mem UInt8) (len : Nat) :
    Completes (ne2kSendDirect 1 st buf len) := by
  by_cases hrefused : st.ne2kInitialized = false ∨ 1518 < len
  · rw [ne2kSendDirect_refused hrefused]
    exact ⟨_, _, run_pure _ _⟩
  · simp only [not_or, Bool.not_eq_false, Nat.not_lt] at hrefused
    rw [ne2kSendDirect_eq hrefused.1 hrefused.2]
    have hwait : Completes (wait (NE2K_BASE + NE_CR) (fun cr => cr &&& 0x04 != 0) 1) :=
      ⟨(), _, rfl⟩
    exact hwait.bind fun _ => completes_of_within (within_transmit buf (wireLen len))

theorem completes_linkoutput (dr : Drivers) (txBuf : Mem UInt8) (p : List UInt8) :
    Completes (uc386dosEthLinkoutput o 1 dr txBuf p) := by
  unfold uc386dosEthLinkoutput
  split
  · exact ⟨_, _, run_pure _ _⟩
  · have hsend : Completes (send o 1 dr (blit txBuf 0 p) p.length) := by
      unfold send pktdrvSend
      split_ifs
      · exact completes_ne2kSendDirect _ _ _
      · exact completes_of_within (o.within_pktdrvSend _ _ _)
      · exact completes_of_within (o.within_ethdrvSend _ _ _)
    exact hsend.bind fun rc => ⟨_, _, run_pure _ _⟩

theorem completes_sendAll (h : History) (txBuf : Mem UInt8) :
    Completes (sendAll o 1 h txBuf) := by
  induction h generalizing txBuf with
  | nil => exact ⟨_, _, run_pure _ _⟩
  | cons c h ih => exact (completes_linkoutput o c.1 txBuf c.2).bind fun r => ih r.2

/-- Behind every history there is a card that is handed the frame. -/
theorem exists_handed (h : History) (dr : Drivers) (p : List UInt8) :
    ∃ bytes, Handed o h dr p bytes := by
  obtain ⟨txBuf, log, hall⟩ := completes_sendAll o h fun _ => 0
  obtain ⟨r, log', hlast⟩ := completes_linkoutput o dr txBuf p
  exact ⟨_, Unit, ready, (), (), (), 1, txBuf, r, log, log', hall, hlast, rfl⟩

theorem paddingSame_iff_padding {dr : Drivers} (hinit : dr.ne2k.ne2kInitialized = true)
    {p : List UInt8} (hp : p.length < 60) (h h' : History) :
    PaddingSame o dr p h h' ↔ padding h p = padding h' p := by
  constructor
  · intro hsame
    obtain ⟨bytes, hb⟩ := exists_handed o h dr p
    obtain ⟨bytes', hb'⟩ := exists_handed o h' dr p
    have heq := hsame bytes bytes' hb hb'
    rw [handed_eq o hinit hp hb, handed_eq o hinit hp hb'] at heq
    exact List.append_cancel_left heq
  · intro heq bytes bytes' hb hb'
    rw [handed_eq o hinit hp hb, handed_eq o hinit hp hb', heq]

theorem padding_same_iff {dr : Drivers} (hinit : dr.ne2k.ne2kInitialized = true)
    {p : List UInt8} (hp : p.length < 60) (h h' : History) :
    PaddingSame o dr p h h' ↔
      ∀ i, p.length ≤ i → i < 60 → leftBehind h i = leftBehind h' i := by
  rw [paddingSame_iff_padding o hinit hp, padding, padding, slice_eq_slice_iff,
    Nat.add_sub_cancel' hp.le]

/-! ## Two histories -/

def ne2kOnly : Others where
  pktdrvSend _ _ _ := pure (-1)
  ethdrvSend _ _ _ := pure (-1)
  bound := 0
  within_pktdrvSend _ _ _ := Within.pure (-1)
  within_ethdrvSend _ _ _ := Within.pure (-1)

def started : Drivers := ⟨⟨[], true⟩, -1⟩

theorem padding_same_ends :
    PaddingSame ne2kOnly started (List.replicate 42 0) [(started, List.replicate 60 0xAA)]
      [(started, List.replicate 41 0x55 ++ List.replicate 19 0xAA)] :=
  (padding_same_iff ne2kOnly rfl (by decide) _ _).mpr (by decide)

/-- An ARP request carries 18 bytes of the frame before it. -/
theorem padding_leaks :
    ¬PaddingSame ne2kOnly started (List.replicate 42 0)
      [(started, List.replicate 60 0xAA)] [] := by
  rw [paddingSame_iff_padding ne2kOnly rfl (by decide)]
  decide

end FreedosMicroPython.Net.Linkoutput
