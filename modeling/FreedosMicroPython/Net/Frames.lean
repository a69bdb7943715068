import Mathlib.Data.List.Forall2
import FreedosMicroPython.Dos.Calls
import FreedosMicroPython.Net.Pktdrv
import FreedosMicroPython.Lib.Runs
/-!
# Frames between calls

Runs in which whole receive interrupts alternate with whole calls of the packet
driver client and of the file layer, all of which use one bounce paragraph. As
long as no call writes over the bytes of a frame that is still pending, every
frame that `pktdrv_recv` returns is one that was delivered.
-/

namespace FreedosMicroPython.Net.Frames

open FreedosMicroPython.Lib.Memory FreedosMicroPython.Lib.Runs FreedosMicroPython.Host
open FreedosMicroPython.Dos.Int21 FreedosMicroPython.Dos.Calls FreedosMicroPython.Net.Pktdrv

variable {σ : Type} (d : World σ) (n : Driver σ)

/-! ## Runs -/

inductive Event where
  | packet (f : Frame)
  | recv (maxlen : Nat)
  | send (buf : List UInt8)
  | open_ (path : CString) (mode : Nat)
  | creat (path : CString)
  | read (fd : Int) (count : Nat)
  | write (fd : Int) (buf : List UInt8)

/-- The machine, the frames the driver has copied to the bounce, and the frames
`pktdrv_recv` has returned, each with the `maxlen` of its call. -/
structure History (σ : Type) where
  m : Machine σ
  delivered : List Frame
  returned : List (Nat × List UInt8)

def step (s : History σ) : Event → History σ
  | .packet f =>
      { s with
        m := s.m.interrupts [f]
        delivered := if s.m.masked || !s.m.stub.accepts f then s.delivered else s.delivered ++ [f] }
  | .recv maxlen =>
      let (bs, m) := pktdrvRecv n maxlen s.m
      { s with m := m, returned := if bs = [] then s.returned else s.returned ++ [(maxlen, bs)] }
  | .send buf => { s with m := (pktdrvSend n quietSend buf s.m).2 }
  | .open_ path mode => { s with m := (dosInt21Open d quietCall path mode s.m).2 }
  | .creat path => { s with m := (dosInt21Creat d quietCall path s.m).2 }
  | .read fd count => { s with m := (dosInt21Read d quietCall fd count s.m).2 }
  | .write fd buf => { s with m := (dosInt21Write d quietCall fd buf s.m).2 }

def footprint (m : Machine σ) : Event → Nat × List UInt8
  | .packet _ => (0, [])
  | .recv _ => (0, [])
  | .send buf =>
      if m.intNum = 0 ∨ PKTDRV_BOUNCE_SIZE < buf.length ∨ m.bounceSeg = 0 then (0, [])
      else (0, buf)
  | .open_ path _ | .creat path =>
      (0, if bounceMissing m ∨ 1024 ≤ path.bytes.length then [] else path.asciiz)
  | .read fd count =>
      if bounceMissing m ∨ count = 0 then (0, [])
      else
        match entered d (transferRegs m 0x3F fd (min count DOS_BOUNCE_DATA_MAX)) m with
        | none => (0, [])
        | some (rm, _, s) => (DOS_BOUNCE_DATA_OFFSET, (d.int21 rm [] s).1.stored)
  | .write _ buf =>
      (DOS_BOUNCE_DATA_OFFSET, if bounceMissing m then [] else buf.take DOS_BOUNCE_DATA_MAX)

/-- No frame is pending, or what the step writes leaves its bytes as they are. -/
def Spares (s : History σ) (e : Event) : Prop :=
  s.m.stub.pending = 0 ∨
    slice (blit s.m.bounce (footprint d s.m e).1 (footprint d s.m e).2) 0 s.m.stub.length =
      slice s.m.bounce 0 s.m.stub.length

/-! ## What one call does -/

/-- The call changes the bounce by one block and nothing else that the receive
side looks at. -/
structure Writes (off : Nat) (bs : List UInt8) (m m' : Machine σ) : Prop where
  bounce : m'.bounce = blit m.bounce off bs
  stub : m'.stub = m.stub
  ne2k : m'.ne2kInitialized = m.ne2kInitialized
  thunk : m'.thunkSeg = m.thunkSeg
  linear : m'.bounceLinear = m.bounceLinear
  rxPending : m'.rxPending = m.rxPending

theorem Writes.refl (off : Nat) (m : Machine σ) : Writes off [] m m :=
  ⟨(blit_nil _ _).symm, rfl, rfl, rfl, rfl, rfl⟩

theorem Writes.of_eq {off : Nat} {bs : List UInt8} {m m' : Machine σ}
    (h : m' = m.withMem (blit m.bounce off bs) m.stub) : Writes off bs m m' := by
  subst h
  exact ⟨rfl, rfl, rfl, rfl, rfl, rfl⟩

theorem Writes.trans_nil {off off' : Nat} {bs : List UInt8} {m₁ m₂ m₃ : Machine σ}
    (h₁₂ : Writes off bs m₁ m₂) (h₂₃ : Writes off' [] m₂ m₃) : Writes off bs m₁ m₃ where
  bounce := by rw [h₂₃.bounce, blit_nil, h₁₂.bounce]
  stub := h₂₃.stub.trans h₁₂.stub
  ne2k := h₂₃.ne2k.trans h₁₂.ne2k
  thunk := h₂₃.thunk.trans h₁₂.thunk
  linear := h₂₃.linear.trans h₁₂.linear
  rxPending := h₂₃.rxPending.trans h₁₂.rxPending

theorem writes_dosInt21Call_of_not_entered {rm : Rmcs} {m : Machine σ}
    (h : entered d rm m = none) : Writes 0 [] m (dosInt21Call d quietCall rm m).2 := by
  obtain ⟨t, s, fs, hfs, hcall⟩ := dosInt21Call_of_not_entered d quietCall h
  have hnil : fs = [] := by
    rcases hfs with rfl | rfl <;> rfl
  rw [hcall, hnil, Machine.interrupts_nil]
  exact ⟨(blit_nil _ _).symm, rfl, rfl, rfl, rfl, rfl⟩

theorem writes_dosInt21Call {rm : Rmcs} {m : Machine σ} (hah : rm.ah ≠ 0x3F) :
    Writes 0 [] m (dosInt21Call d quietCall rm m).2 := by
  cases h : entered d rm m with
  | none => exact writes_dosInt21Call_of_not_entered d h
  | some e =>
      obtain ⟨rm', t, s⟩ := e
      have hle := d.stored_le rm' (quietOperand rm' m.bounce) s
      rw [if_neg (by rw [(entered_regs d h).1]; exact hah)] at hle
      have hnil : (quietAnswer d rm' m s).1.stored = [] := List.length_eq_zero_iff.mp (by
        exact Nat.le_zero.mp hle)
      rw [dosInt21Call_quiet d h, hnil]
      exact ⟨by simp, rfl, rfl, rfl, rfl, rfl⟩

theorem writes_pathCall {path : CString} {regs : Rmcs} {m : Machine σ} (hah : regs.ah ≠ 0x3F) :
    Writes 0 (if bounceMissing m ∨ 1024 ≤ path.bytes.length then [] else path.asciiz) m
      (pathCall d quietCall path regs m).2 := by
  unfold pathCall
  by_cases hmissing : bounceMissing m = true
  · simpa [hmissing] using Writes.refl 0 m
  by_cases hlen : 1024 ≤ path.bytes.length
  · simpa [hlen, hmissing] using Writes.refl 0 m
  simp only [hmissing, hlen, or_self, if_false, Bool.false_eq_true]
  have hstore : Writes 0 path.asciiz m (m.storeBounce quietCall.copy 0 0 path.asciiz) :=
    .of_eq (m.storeBounce_quiet 0 0 path.asciiz)
  exact hstore.trans_nil (writes_dosInt21Call d hah)

theorem writes_dosInt21Write (fd : Int) (buf : List UInt8) (m : Machine σ) :
    Writes DOS_BOUNCE_DATA_OFFSET (if bounceMissing m then [] else buf.take DOS_BOUNCE_DATA_MAX) m
      (dosInt21Write d quietCall fd buf m).2 := by
  unfold dosInt21Write
  by_cases hmissing : bounceMissing m = true
  · simpa [hmissing] using Writes.refl _ m
  by_cases hbuf : buf = []
  · simpa [hmissing, hbuf] using Writes.refl _ m
  simp only [hmissing, hbuf, if_false, Bool.false_eq_true]
  have hstore := Writes.of_eq
    (m.storeBounce_quiet DOS_BOUNCE_DATA_OFFSET 0 (buf.take DOS_BOUNCE_DATA_MAX))
  exact hstore.trans_nil (writes_dosInt21Call d (by simp [ah_transferRegs]))

theorem dosInt21Read_quiet_snd {fd : Int} {count : Nat} {m : Machine σ}
    (hmissing : bounceMissing m = false) (hcount : count ≠ 0) :
    (dosInt21Read d quietCall fd count m).2 =
      (dosInt21Call d quietCall (transferRegs m 0x3F fd (min count DOS_BOUNCE_DATA_MAX)) m).2 := by
  have hload : ∀ off len (m : Machine σ), m.loadBounce quietCall.out off 0 len =
      (slice m.bounce off len, m) := fun off len m => m.loadBounce_quiet off 0 len
  simp only [dosInt21Read, hmissing, hcount, if_false, Bool.false_eq_true, hload]
  split <;> rfl

theorem writes_dosInt21Read (fd : Int) (count : Nat) (m : Machine σ) :
    Writes (footprint d m (.read fd count)).1 (footprint d m (.read fd count)).2 m
      (dosInt21Read d quietCall fd count m).2 := by
  rw [footprint]
  by_cases hmissing : bounceMissing m = true
  · simpa [hmissing, dosInt21Read] using Writes.refl _ m
  by_cases hcount : count = 0
  · simpa [hmissing, hcount, dosInt21Read] using Writes.refl _ m
  rw [dosInt21Read_quiet_snd d (by simpa using hmissing) hcount]
  simp only [hmissing, hcount, or_self, if_false, Bool.false_eq_true]
  cases h : entered d (transferRegs m 0x3F fd (min count DOS_BOUNCE_DATA_MAX)) m with
  | none => exact writes_dosInt21Call_of_not_entered d h
  | some e =>
      obtain ⟨rm, t, s⟩ := e
      have hah : rm.ah = 0x3F := (entered_regs d h).1.trans (ah_transferRegs m _ fd _)
      have hoperand : quietOperand rm m.bounce = [] := by
        simp [quietOperand, operand, hah]
      rw [dosInt21Call_quiet d h, quietAnswer, hoperand]
      exact ⟨rfl, rfl, rfl, rfl, rfl, rfl⟩

theorem writes_serveInt (v : Nat) (code : List UInt8) (rm : Rmcs) (m : Machine σ) :
    Writes 0 [] m (serveInt n quiet v code rm m).2 := by
  by_cases hah : rm.ah = 0x04 <;> simp only [serveInt, hah, if_true, if_false,
    Machine.loadBounce_quiet] <;> exact ⟨(blit_nil _ _).symm, rfl, rfl, rfl, rfl, rfl⟩

theorem writes_inWorld (m : Machine σ) (w : σ) : Writes 0 [] m (m.inWorld w) :=
  ⟨(blit_nil _ _).symm, rfl, rfl, rfl, rfl, rfl⟩

theorem writes_pktdrvCallInt60Thunk (rm : Rmcs) (m : Machine σ) :
    Writes 0 [] m (pktdrvCallInt60Thunk n quiet rm m).2 := by
  unfold pktdrvCallInt60Thunk
  split
  · exact Writes.refl 0 m
  · simp only
    split
    · exact writes_inWorld m _
    · exact (writes_inWorld m _).trans_nil (writes_serveInt n _ _ _ _)

theorem writes_dpmi0300 (rm : Rmcs) (m : Machine σ) :
    Writes 0 [] m (dpmi0300 n quiet rm m).2 := by
  unfold dpmi0300
  split
  · exact writes_inWorld m _
  · exact (writes_inWorld m _).trans_nil (writes_serveInt n _ _ _ _)

theorem writes_dispatchSend (rm : Rmcs) (m : Machine σ) :
    Writes 0 [] m (dispatchSend n quiet rm m).2 := by
  unfold dispatchSend
  split
  · exact writes_pktdrvCallInt60Thunk n rm m
  · exact writes_dpmi0300 n rm m

theorem writes_outImr (mask : BitVec 8) (m : Machine σ) : Writes 0 [] m (outImr mask m) :=
  ⟨(blit_nil _ _).symm, rfl, rfl, rfl, rfl, rfl⟩

theorem writes_pktdrvSend {buf : List UInt8} {m : Machine σ} (hne2k : m.ne2kInitialized = false) :
    Writes (footprint d m (.send buf)).1 (footprint d m (.send buf)).2 m
      (pktdrvSend n quietSend buf m).2 := by
  unfold pktdrvSend footprint
  by_cases hint : m.intNum = 0
  · simpa [hne2k, hint] using Writes.refl 0 m
  by_cases hlen : PKTDRV_BOUNCE_SIZE < buf.length
  · simpa [hne2k, hint, hlen] using Writes.refl 0 m
  by_cases hseg : m.bounceSeg = 0
  · simpa [hne2k, hint, hlen, hseg] using writes_inWorld m _
  have hleave : ∀ m : Machine σ, m.interrupts [] = m := Machine.interrupts_nil
  simp only [hne2k, hint, hlen, hseg, or_self, if_false, Bool.false_eq_true, quietSend,
    Machine.storeBounce_quiet, Nat.add_zero, hleave]
  have hstore := Writes.of_eq (rfl : m.withMem (blit m.bounce 0 buf) m.stub = _)
  have hmask := hstore.trans_nil (writes_outImr (m.slaveImr ||| 0x0A) _)
  exact (hmask.trans_nil (writes_dispatchSend n _ _)).trans_nil (writes_outImr _ _)

/-- Every call writes its footprint. -/
theorem writes_step {s : History σ} {e : Event} (hne2k : s.m.ne2kInitialized = false)
    (hpacket : ∀ f, e ≠ .packet f) (hrecv : ∀ maxlen, e ≠ .recv maxlen) :
    Writes (footprint d s.m e).1 (footprint d s.m e).2 s.m (step d n s e).m ∧
      (step d n s e).delivered = s.delivered ∧ (step d n s e).returned = s.returned := by
  cases e with
  | packet f => exact absurd rfl (hpacket f)
  | recv maxlen => exact absurd rfl (hrecv maxlen)
  | send buf => exact ⟨writes_pktdrvSend d n hne2k, rfl, rfl⟩
  | open_ path mode => exact ⟨writes_pathCall d (by simp [ah_openRegs]), rfl, rfl⟩
  | creat path => exact ⟨writes_pathCall d (by simp [ah_creatRegs]), rfl, rfl⟩
  | read fd count => exact ⟨writes_dosInt21Read d fd count s.m, rfl, rfl⟩
  | write fd buf => exact ⟨writes_dosInt21Write d fd buf s.m, rfl, rfl⟩

/-! ## The invariant -/

def Returns (r : Nat × List UInt8) (f : Frame) : Prop := r.2 = f.bytes.take r.1

/-- The returned frames are delivered frames, in order and each once. -/
def Faithful (returned : List (Nat × List UInt8)) (delivered : List Frame) : Prop :=
  ∃ fs, fs.Sublist delivered ∧ List.Forall₂ Returns returned fs

/-- Between two calls: a pending frame is the newest delivered one, none of the
returned frames is that delivery, and its bytes are in the bounce. -/
structure Inv (s : History σ) : Prop where
  draining : Draining s.m
  faithful : Faithful s.returned s.delivered
  slot : s.m.stub.pending ≠ 0 → s.m.stub.bounceSeg ≠ 0 ∧ ∃ earlier f,
    s.delivered = earlier ++ [f] ∧ Faithful s.returned earlier ∧ Pending f.bytes s.m

theorem Faithful.mono {returned : List (Nat × List UInt8)} {fs : List Frame}
    (h : Faithful returned fs) (gs : List Frame) : Faithful returned (fs ++ gs) := by
  obtain ⟨ks, hks, hall⟩ := h
  exact ⟨ks, hks.trans (List.sublist_append_left fs gs), hall⟩

theorem Faithful.snoc {returned : List (Nat × List UInt8)} {fs : List Frame}
    {r : Nat × List UInt8} {f : Frame} (h : Faithful returned fs) (hr : Returns r f) :
    Faithful (returned ++ [r]) (fs ++ [f]) := by
  obtain ⟨ks, hks, hall⟩ := h
  exact ⟨ks ++ [f], hks.append (List.Sublist.refl [f]),
    List.rel_append hall (List.Forall₂.cons hr .nil)⟩

theorem draining_of_writes {off : Nat} {bs : List UInt8} {m m' : Machine σ} (hm : Draining m)
    (h : Writes off bs m m') : Draining m' :=
  ⟨h.ne2k.trans hm.ne2k, h.thunk ▸ hm.thunk, h.linear ▸ hm.linear, h.rxPending.trans hm.rxPending⟩

/-- A call that spares the pending frame keeps the invariant. -/
theorem inv_of_writes {s s' : History σ} {off : Nat} {bs : List UInt8} (hs : Inv s)
    (hwrites : Writes off bs s.m s'.m) (hdelivered : s'.delivered = s.delivered)
    (hreturned : s'.returned = s.returned)
    (hspares : s.m.stub.pending = 0 ∨
      slice (blit s.m.bounce off bs) 0 s.m.stub.length = slice s.m.bounce 0 s.m.stub.length) :
    Inv s' where
  draining := draining_of_writes hs.draining hwrites
  faithful := by rw [hreturned, hdelivered]; exact hs.faithful
  slot hpending := by
    rw [hwrites.stub] at hpending ⊢
    obtain ⟨hseg, earlier, f, hlast, hfaithful, hslot⟩ := hs.slot hpending
    refine ⟨hseg, earlier, f, hdelivered.trans hlast, hreturned ▸ hfaithful, ?_⟩
    refine ⟨hwrites.stub ▸ hpending, hwrites.stub ▸ hslot.length, hslot.fits, ?_⟩
    rw [hwrites.bounce, ← hslot.length, hspares.resolve_left hpending, hslot.length, hslot.slice]

theorem inv_packet {s : History σ} {f : Frame} (hs : Inv s) : Inv (step d n s (.packet f)) := by
  have hwithMem : ∀ mem stub, Draining (s.m.withMem mem stub) := fun mem stub =>
    ⟨hs.draining.ne2k, hs.draining.thunk, hs.draining.linear, hs.draining.rxPending⟩
  cases hmasked : s.m.masked with
  | true => simpa [step, hmasked, Machine.interrupts_singleton] using hs
  | false =>
      cases haccepts : s.m.stub.accepts f with
      | false =>
          have hm : s.m.interrupts [f] = s.m.withMem s.m.bounce (s.m.stub.receive f) := by
            simp [Machine.interrupts_singleton, hmasked, Machine.receive_eq, haccepts]
          simp only [step, hmasked, haccepts, hm, Bool.false_or, Bool.not_false, if_true]
          refine ⟨hwithMem _ _, hs.faithful, fun hpending => ?_⟩
          rw [Machine.withMem_stub, Stub.receive_pending_of_not_accepts haccepts] at hpending
          have hslot := hs.slot hpending
          rwa [Stub.receive_of_not_accepts haccepts hslot.1, Machine.withMem_self]
      | true =>
          have hm : s.m.interrupts [f] =
              s.m.withMem (blit s.m.bounce 0 f.bytes)
                { s.m.stub with pending := 1, length := f.bytes.length } := by
            simp [Machine.interrupts_singleton, hmasked, Machine.receive_eq, haccepts,
              Stub.receive_of_accepts haccepts]
          obtain ⟨hlen, hseg⟩ : f.bytes.length ≤ 1518 ∧ s.m.stub.bounceSeg ≠ 0 := by
            simpa [Stub.accepts] using haccepts
          simp only [step, hmasked, haccepts, hm, Bool.not_true, Bool.or_self, if_false,
            Bool.false_eq_true]
          exact ⟨hwithMem _ _, hs.faithful.mono [f], fun _ => ⟨hseg, s.delivered, f, rfl,
            hs.faithful, by simp, rfl, hlen, slice_blit s.m.bounce 0 f.bytes⟩⟩

theorem inv_recv {s : History σ} {maxlen : Nat} (hs : Inv s) :
    Inv (step d n s (.recv maxlen)) := by
  have hdrained : ∀ stub, Draining { s.m with stub := stub } := fun stub =>
    ⟨hs.draining.ne2k, hs.draining.thunk, hs.draining.linear, hs.draining.rxPending⟩
  by_cases hpending : s.m.stub.pending = 0
  · simpa [step, pktdrvRecv_of_not_pending n hs.draining hpending] using hs
  obtain ⟨-, earlier, f, hlast, hfaithful, hslot⟩ := hs.slot hpending
  by_cases hempty : f.bytes = []
  · have hlen : s.m.stub.length = 0 := by rw [hslot.length, hempty, List.length_nil]
    simp only [step, pktdrvRecv_of_empty n hs.draining hpending hlen, if_true]
    exact ⟨hdrained _, hs.faithful, fun h => absurd rfl h⟩
  · -- the drain copies the newest delivered frame, which no earlier call returned
    simp only [step, pktdrvRecv_of_pending n hs.draining hslot hempty]
    refine ⟨⟨hs.draining.ne2k, hs.draining.thunk, hs.draining.linear, rfl⟩, ?_,
      fun h => absurd rfl h⟩
    split
    · exact hs.faithful
    · rw [hlast]
      exact hfaithful.snoc rfl

theorem inv_step {s : History σ} {e : Event} (hs : Inv s) (hok : Spares d s e) :
    Inv (step d n s e) := by
  have hcall : (∀ f, e ≠ .packet f) → (∀ maxlen, e ≠ .recv maxlen) → Inv (step d n s e) := by
    intro hpacket hrecv
    obtain ⟨hwrites, hdelivered, hreturned⟩ := writes_step d n hs.draining.ne2k hpacket hrecv
    exact inv_of_writes hs hwrites hdelivered hreturned hok
  cases e with
  | packet f => exact inv_packet d n hs
  | recv maxlen => exact inv_recv d n hs
  | _ => exact hcall (by simp) (by simp)

/-- The frame in the slot, if one is pending, is the newest delivered one. -/
def Unaltered (s : History σ) : Prop :=
  s.m.stub.pending ≠ 0 → ∃ f, s.delivered.getLast? = some f ∧
    slice s.m.bounce 0 s.m.stub.length = f.bytes

/-- When every call spares the pending frame, the frames that `pktdrv_recv`
returns are delivered frames, cut at `maxlen`, in order and each once, and a
frame that is not yet drained is unaltered. -/
theorem returned_frames_delivered {m : Machine σ} {es : List Event} (hm : Draining m)
    (hempty : m.stub.pending = 0) (hok : Meets (step d n) (Spares d) ⟨m, [], []⟩ es) :
    Faithful (run (step d n) ⟨m, [], []⟩ es).returned
        (run (step d n) ⟨m, [], []⟩ es).delivered ∧
      Unaltered (run (step d n) ⟨m, [], []⟩ es) := by
  have hinit : Inv (⟨m, [], []⟩ : History σ) :=
    ⟨hm, ⟨[], .slnil, .nil⟩, fun hpending => absurd hempty hpending⟩
  have hinv := run_invariant (step d n) (fun _ _ => inv_step d n) hinit hok
  refine ⟨hinv.faithful, fun hpending => ?_⟩
  obtain ⟨-, earlier, f, hlast, -, hslot⟩ := hinv.slot hpending
  exact ⟨f, by simp [hlast], hslot.length ▸ hslot.slice⟩

/-- A file is written while a frame is pending, and a frame is sent when it has been drained. -/
theorem returned_frames_delivered_writeSend :
    let es : List Event :=
      [.packet ⟨[1], by decide⟩, .write 5 [2, 3], .recv 100, .send [4],
        .packet ⟨[6, 7], by decide⟩, .recv 100]
    let s := run (step idleDos idleDriver) ⟨booted (), [], []⟩ es
    Faithful s.returned s.delivered ∧ Unaltered s ∧
      s.returned = [(100, [1]), (100, [6, 7])] ∧ slice s.m.bounce 1024 2 = [2, 3] := by
  intro es s
  have hsent : s.returned = [(100, [1]), (100, [6, 7])] ∧ slice s.m.bounce 1024 2 = [2, 3] := by
    decide +kernel
  have hspares : Meets (step idleDos idleDriver) (Spares idleDos) ⟨booted (), [], []⟩ es :=
    ⟨.inl rfl, .inr (by decide +kernel), .inr (by simp [footprint]), .inl (by decide +kernel),
      .inl (by decide +kernel), .inr (by simp [footprint]), trivial⟩
  obtain ⟨hfaithful, hunaltered⟩ :=
    returned_frames_delivered idleDos idleDriver ⟨rfl, by decide, by decide, rfl⟩ rfl hspares
  exact ⟨hfaithful, hunaltered, hsent⟩

/-- A send between a packet and its drain: `pktdrv_recv` returns the sent byte. -/
theorem recv_returns_sent_byte :
    ¬Faithful (run (step idleDos idleDriver) ⟨booted (), [], []⟩
        [.packet ⟨[1], by decide⟩, .send [2], .recv 100]).returned
      (run (step idleDos idleDriver) ⟨booted (), [], []⟩
        [.packet ⟨[1], by decide⟩, .send [2], .recv 100]).delivered := by
  have hreturned : (run (step idleDos idleDriver) ⟨booted (), [], []⟩
      [.packet ⟨[1], by decide⟩, .send [2], .recv 100]).returned = [(100, [2])] := by decide
  have hdelivered : (run (step idleDos idleDriver) ⟨booted (), [], []⟩
      [.packet ⟨[1], by decide⟩, .send [2], .recv 100]).delivered = [⟨[1], by decide⟩] := by decide
  rw [hreturned, hdelivered]
  rintro ⟨fs, hfs, hall⟩
  cases hall with
  | @cons _ f _ fs hr hrest =>
      have hmem : f = ⟨[1], by decide⟩ := by simpa using hfs.subset (List.mem_cons_self)
      simp [Returns, hmem] at hr

end FreedosMicroPython.Net.Frames
