import FreedosMicroPython.Dos.Calls
import FreedosMicroPython.Net.Pktdrv
/-!
# Sending while packets arrive

`pktdrv_send` masks the card's interrupt only after it has staged the frame in
the buffer the receive interrupt writes. `pktdrvSend_hands_iff` says exactly when
the driver is handed the caller's frame.
-/

namespace FreedosMicroPython.Net.Transmit

open FreedosMicroPython.Lib.Memory FreedosMicroPython.Lib.Traffic
open FreedosMicroPython.Host FreedosMicroPython.Dos.Calls FreedosMicroPython.Net.Pktdrv

variable {σ : Type} (n : Driver σ)

/-- The state in which `pktdrv_send` goes through the thunk. -/
structure ThunkPath (m : Machine σ) : Prop where
  ne2k : m.ne2kInitialized = false
  detected : m.intNum ≠ 0
  bounce : m.bounceSeg ≠ 0
  thunk : m.thunkSeg ≠ 0

/-- Of the calls between the two states there is one, and it handed the driver
`DS:SI` at the whole of `buf` with `CX` its length. -/
def Handed (buf : List UInt8) (m m' : Machine σ) : Prop :=
  ∃ c, newCalls m m' = [c] ∧ c.rm.ds = m.bounceSeg &&& 0xFFFF ∧ c.rm.si = 0 ∧
    c.rm.cx = buf.length ∧ c.taken = buf

def entryOf (m : Machine σ) (len : Nat) : Rmcs := thunkRegs m.thunkSeg (sendRegs m len)

theorem ah_entryOf (m : Machine σ) (len : Nat) : (entryOf m len).ah = 0x04 := by
  simp [entryOf, thunkRegs, sendRegs, Rmcs.ah]

/-- The DPMI host or the driver refuses, or no packet that arrives between the
staging of a byte and the moment the interrupt is masked leaves another byte
there. -/
def TransmitSafe (irqs : SendIrqs) (buf : List UInt8) (m : Machine σ) : Prop :=
  (n.dpmi (entryOf m buf.length) m.world).1 = true ∨
    (n.int 0x60 (entryOf m buf.length) [] (n.dpmi (entryOf m buf.length) m.world).2).1.carry =
      true ∨
    Undisturbed (hits m irqs.copy) (m.accepted irqs.enter) (fun _ => []) 0 buf

/-- With bits 1 and 3 of the mask set no packet arrives. -/
theorem accepted_outImr (m : Machine σ) (mask : BitVec 8) (fs : List Frame) :
    (outImr (mask ||| 0x0A) m).accepted fs = [] := by
  have hmasked : (outImr (mask ||| 0x0A) m).masked = true := by
    unfold Machine.masked outImr
    cases m.nicIrq <;> simp
  rw [Machine.accepted, if_pos hmasked]

/-! ## Entering the driver -/

theorem pktdrvCallInt60Thunk_of_refused {irqs : Nat → List Frame} {rm : Rmcs} {m : Machine σ}
    {s : σ} (hthunk : m.thunkSeg ≠ 0)
    (h : n.dpmi (thunkRegs m.thunkSeg rm) m.world = (true, s)) :
    pktdrvCallInt60Thunk n irqs rm m = (none, m.inWorld s) := by
  simp only [pktdrvCallInt60Thunk, if_neg hthunk, h]

theorem pktdrvCallInt60Thunk_of_entered {irqs : Nat → List Frame} {rm : Rmcs} {m : Machine σ}
    {s : σ} (hthunk : m.thunkSeg ≠ 0)
    (h : n.dpmi (thunkRegs m.thunkSeg rm) m.world = (false, s)) :
    pktdrvCallInt60Thunk n irqs rm m =
      (some (serveInt n irqs 0x60 int60Code (thunkRegs m.thunkSeg rm) (m.inWorld s)).1,
        (serveInt n irqs 0x60 int60Code (thunkRegs m.thunkSeg rm) (m.inWorld s)).2) := by
  simp only [pktdrvCallInt60Thunk, if_neg hthunk, h]

/-- The driver reads the staged frame undisturbed while the interrupt is masked. -/
theorem serveInt_masked (irqs : Nat → List Frame) (v : Nat) (code : List UInt8) {rm : Rmcs}
    {m : Machine σ} (hmasked : ∀ fs, m.accepted fs = []) (hah : rm.ah = 0x04) (hsi : rm.si = 0) :
    ∃ taken, taken = (fetch (fun _ => []) 0 0 rm.cx m.bounce).1 ∧
      (serveInt n irqs v code rm m).1 = (n.int v rm taken m.world).1 ∧
      (serveInt n irqs v code rm m).2.calls = m.calls ++ [⟨rm, code, taken, []⟩] := by
  obtain ⟨s, -, hload⟩ := m.loadBounce_eq irqs 0 0 rm.cx
  simp only [hmasked] at hload
  refine ⟨_, rfl, ?_, ?_⟩
  · simp [serveInt, hah, hsi, hload]
  · simp [serveInt, hah, hsi, hload]

/-- The bounce at the moment the interrupt is masked: the frame and what struck it. -/
def staged (irqs : SendIrqs) (buf : List UInt8) (m : Machine σ) : Mem UInt8 :=
  strikes (stage (hits m irqs.copy) 0 0 buf m.bounce) (m.accepted irqs.enter)

theorem pktdrvSend_masked (irqs : SendIrqs) {buf : List UInt8} {m : Machine σ}
    (hpath : ThunkPath m) (hlen : buf.length ≤ PKTDRV_BOUNCE_SIZE) :
    ∃ m', (m'.bounce = staged irqs buf m ∧ m'.thunkSeg = m.thunkSeg ∧ m'.world = m.world ∧
        m'.calls = m.calls) ∧
      (∀ fs, m'.accepted fs = []) ∧
      pktdrvSend n irqs buf m =
        (sendResult (pktdrvCallInt60Thunk n irqs.driver (sendRegs m buf.length) m').1,
          (outImr m.slaveImr (pktdrvCallInt60Thunk n irqs.driver (sendRegs m buf.length)
            m').2).interrupts irqs.leave) := by
  obtain ⟨s₁, -, hstore⟩ := m.storeBounce_eq irqs.copy 0 0 buf
  obtain ⟨s₂, -, henter⟩ := m.storeBounce_interrupts_eq irqs.copy 0 buf irqs.enter
  have hregs : sendRegs (m.storeBounce irqs.copy 0 0 buf) buf.length = sendRegs m buf.length := by
    rw [hstore]
    rfl
  have hdispatch : ∀ mask, dispatchSend n irqs.driver (sendRegs m buf.length)
      (outImr mask (m.withMem (staged irqs buf m) s₂)) =
        pktdrvCallInt60Thunk n irqs.driver (sendRegs m buf.length)
          (outImr mask (m.withMem (staged irqs buf m) s₂)) := by
    intro mask
    exact if_pos hpath.thunk
  refine ⟨outImr (m.slaveImr ||| 0x0A) (m.withMem (staged irqs buf m) s₂), ⟨rfl, rfl, rfl, rfl⟩,
    accepted_outImr _ _, ?_⟩
  unfold pktdrvSend
  simp only [hpath.ne2k, hpath.detected, Nat.not_lt.mpr hlen, hpath.bounce, Bool.false_eq_true,
    if_false, hregs, henter]
  rw [← staged, hdispatch]
  rfl

theorem newCalls_interrupts (m m' : Machine σ) (mask : BitVec 8) (fs : List Frame) :
    newCalls m ((outImr mask m').interrupts fs) = newCalls m m' := by
  obtain ⟨s, -, hfs⟩ := (outImr mask m').interrupts_eq fs
  rw [hfs]
  rfl

/-- What the driver takes is the frame, unless a packet struck it. -/
theorem fetch_staged_iff (irqs : SendIrqs) (buf : List UInt8) (m : Machine σ) :
    (fetch (fun _ => []) 0 0 buf.length (staged irqs buf m)).1 = buf ↔
      Undisturbed (hits m irqs.copy) (m.accepted irqs.enter) (fun _ => []) 0 buf :=
  transfer_eq_iff _ _ _ 0 buf m.bounce

/-! ## The transmitted frame -/

theorem pktdrvSend_hands_iff {irqs : SendIrqs} {buf : List UInt8} {m : Machine σ}
    (hpath : ThunkPath m) (hlen : buf.length ≤ PKTDRV_BOUNCE_SIZE) :
    ((pktdrvSend n irqs buf m).1 = 0 → Handed buf m (pktdrvSend n irqs buf m).2) ↔
      TransmitSafe n irqs buf m := by
  obtain ⟨m₁, ⟨hbounce, hthunk, hworld, hcalls₁⟩, hmasked, hsend⟩ :=
    pktdrvSend_masked n irqs hpath hlen
  have hentry : thunkRegs m₁.thunkSeg (sendRegs m buf.length) = entryOf m buf.length := by
    rw [hthunk, entryOf]
  have hthunk₁ : m₁.thunkSeg ≠ 0 := hthunk ▸ hpath.thunk
  unfold TransmitSafe
  rw [hsend]
  obtain ⟨⟨carry, w⟩, hdpmi⟩ : ∃ r, n.dpmi (entryOf m buf.length) m.world = r := ⟨_, rfl⟩
  have hgate : n.dpmi (thunkRegs m₁.thunkSeg (sendRegs m buf.length)) m₁.world = (carry, w) := by
    rw [hentry, hworld, hdpmi]
  rw [hdpmi]
  cases carry with
  | true =>
      rw [pktdrvCallInt60Thunk_of_refused n hthunk₁ hgate]
      simp [sendResult]
  | false =>
      rw [pktdrvCallInt60Thunk_of_entered n hthunk₁ hgate, hentry]
      have hcx : (entryOf m buf.length).cx = buf.length :=
        Nat.mod_eq_of_lt (Nat.lt_of_le_of_lt hlen (by decide))
      obtain ⟨taken, htaken, hrm, hcalls⟩ := serveInt_masked n irqs.driver 0x60 int60Code
        (m := m₁.inWorld w) hmasked (ah_entryOf m buf.length) rfl
      have htaken_iff : taken = buf ↔
          Undisturbed (hits m irqs.copy) (m.accepted irqs.enter) (fun _ => []) 0 buf := by
        rw [htaken, hcx, Machine.inWorld_bounce, hbounce]
        exact fetch_staged_iff irqs buf m
      have hanswer := hrm.trans (n.int_regs 0x60 (entryOf m buf.length) taken [] w)
      generalize serveInt n irqs.driver 0x60 int60Code (entryOf m buf.length)
        (m₁.inWorld w) = r at hanswer hcalls ⊢
      have hnew : ∀ mask fs, newCalls m ((outImr mask r.2).interrupts fs) =
          [⟨entryOf m buf.length, int60Code, taken, []⟩] := by
        intro mask fs
        rw [newCalls_interrupts, newCalls, hcalls, Machine.inWorld_calls, hcalls₁, List.drop_left]
      rw [← hanswer, ← htaken_iff]
      cases hcarry : r.1.carry with
      | true => simp [sendResult, hcarry]
      | false =>
          have hds : (entryOf m buf.length).ds = m.bounceSeg &&& 0xFFFF := rfl
          have hsi : (entryOf m buf.length).si = 0 := rfl
          simp [sendResult, hcarry, Handed, hnew, hds, hsi, hcx]

/-- A send of two bytes with no packet on the wire. -/
theorem pktdrvSend_hands_iff_idle :
    ((pktdrvSend idleDriver quietSend [1, 2] (booted ())).1 = 0 →
      Handed [1, 2] (booted ()) (pktdrvSend idleDriver quietSend [1, 2] (booted ())).2) ↔
      TransmitSafe idleDriver quietSend [1, 2] (booted ()) :=
  pktdrvSend_hands_iff idleDriver ⟨rfl, by decide, by decide, by decide⟩ (by decide)

/-- A packet that arrives between the copy and the mask is sent instead. -/
theorem pktdrvSend_sends_packet :
    (pktdrvSend idleDriver { quietSend with enter := [⟨[7], by decide⟩] } [1, 2] (booted ())).1 =
        0 ∧
      ¬Handed [1, 2] (booted ()) (pktdrvSend idleDriver
        { quietSend with enter := [⟨[7], by decide⟩] } [1, 2] (booted ())).2 := by
  refine ⟨by decide, ?_⟩
  rintro ⟨c, hnew, -, -, -, htaken⟩
  have hfirst : (newCalls (booted ()) (pktdrvSend idleDriver
      { quietSend with enter := [⟨[7], by decide⟩] } [1, 2] (booted ())).2).map
        Dispatch.taken = [[7, 2]] := by decide
  rw [hnew] at hfirst
  simp [htaken] at hfirst

end FreedosMicroPython.Net.Transmit
