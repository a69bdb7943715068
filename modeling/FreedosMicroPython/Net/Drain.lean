import FreedosMicroPython.Net.Frames
/-!
# The drain, step by step

`pktdrv_recv` with `pktdrv_poll_rmstub` inlined, as a machine that takes one step
of the code at a time, so that a whole receive interrupt may strike between any
two of them. `run_call` connects it to the uninterrupted `pktdrvRecv`.
-/

namespace FreedosMicroPython.Net.Drain

open FreedosMicroPython.Lib.Memory FreedosMicroPython.Lib.Runs FreedosMicroPython.Host
open FreedosMicroPython.Net.Pktdrv
open FreedosMicroPython.Net.Frames (Returns)

variable {σ : Type}

/-! ## The machine -/

inductive Pc where
  | idle
  | readPending
  | readLength
  | discard
  | copy (len : Nat)
  | storeLen (len : Nat)
  | clearPending
  | setRxPending
  | checkRxPending
  | readRxLen
  | copyOut (len : Nat)
  | clearRxPending (out : List UInt8)
  | clearRxLen (out : List UInt8)
  deriving DecidableEq, Repr

/-- The machine, where the client is in its current call, and what a watcher
notes: the frames the driver delivered, the newest of them that is not copied,
the frames the client copied, and the frames its calls returned. -/
structure State (σ : Type) where
  m : Machine σ
  pc : Pc
  maxlen : Nat
  delivered : List Frame
  uncopied : Option Frame
  copied : List Frame
  returned : List (Nat × List UInt8)

inductive Event where
  | packet (f : Frame)
  | call (maxlen : Nat)
  | advance

/-- A packet arrives, by one whole interrupt. A packet without bytes leaves
nothing to copy. -/
def packet (f : Frame) (s : State σ) : State σ :=
  if s.m.masked || !s.m.stub.accepts f then { s with m := s.m.interrupts [f] }
  else
    { s with
      m := s.m.interrupts [f]
      delivered := s.delivered ++ [f]
      uncopied := if f.bytes = [] then none else some f }

def advance (s : State σ) : State σ :=
  match s.pc with
  | .idle => s
  | .readPending =>
      if s.m.thunkSeg = 0 ∨ s.m.rxPending ∨ s.m.stub.pending = 0 then
        { s with pc := .checkRxPending }
      else { s with pc := .readLength }
  | .readLength =>
      if s.m.stub.length = 0 ∨ PKTDRV_MAX_FRAME < s.m.stub.length then { s with pc := .discard }
      else { s with pc := .copy s.m.stub.length }
  | .discard =>
      { s with
        m := { s.m with stub := { s.m.stub with pending := 0 } }
        pc := .checkRxPending }
  | .copy len =>
      let rxBuf :=
        if s.m.bounceLinear ≠ 0 then blit s.m.rxBuf 0 (slice s.m.bounce 0 len) else s.m.rxBuf
      { s with
        m := { s.m with rxBuf := rxBuf }
        pc := .storeLen len
        uncopied := none
        copied := s.copied ++ s.uncopied.toList }
  | .storeLen len => { s with m := { s.m with rxLen := len }, pc := .clearPending }
  | .clearPending =>
      { s with
        m := { s.m with stub := { s.m.stub with pending := 0 } }
        pc := .setRxPending }
  | .setRxPending => { s with m := { s.m with rxPending := true }, pc := .checkRxPending }
  | .checkRxPending => if s.m.rxPending then { s with pc := .readRxLen } else { s with pc := .idle }
  | .readRxLen => { s with pc := .copyOut (min s.m.rxLen s.maxlen) }
  | .copyOut len => { s with pc := .clearRxPending (slice s.m.rxBuf 0 len) }
  | .clearRxPending out => { s with m := { s.m with rxPending := false }, pc := .clearRxLen out }
  | .clearRxLen out =>
      { s with
        m := { s.m with rxLen := 0 }
        pc := .idle
        returned := s.returned ++ [(s.maxlen, out)] }

def step (s : State σ) : Event → State σ
  | .packet f => packet f s
  | .call maxlen => if s.pc = .idle then { s with pc := .readPending, maxlen := maxlen } else s
  | .advance => advance s

def start (m : Machine σ) : State σ := ⟨m, .idle, 0, [], none, [], []⟩

/-- A call that no interrupt strikes takes at most 11 steps. -/
def wholeCall (maxlen : Nat) : List Event := .call maxlen :: List.replicate 11 .advance

/-- Without interrupts the steps of a call do what `pktdrvRecv` does. -/
theorem run_call (n : Driver σ) {s : State σ} {maxlen : Nat} (hidle : s.pc = .idle)
    (hm : Draining s.m) :
    (run step s (wholeCall maxlen)).m = (pktdrvRecv n maxlen s.m).2 ∧
      (run step s (wholeCall maxlen)).pc = .idle ∧
      (run step s (wholeCall maxlen)).returned = s.returned ++
        if s.m.stub.pending = 0 ∨ s.m.stub.length = 0 ∨ PKTDRV_MAX_FRAME < s.m.stub.length then []
        else [(maxlen, (pktdrvRecv n maxlen s.m).1)] := by
  by_cases hpending : s.m.stub.pending = 0
  · simp [wholeCall, List.replicate, step, advance, hidle, pktdrvRecv, pktdrvPollRmstub, hm.ne2k,
      hm.thunk, hm.rxPending, hpending]
  by_cases hlen : s.m.stub.length = 0 ∨ PKTDRV_MAX_FRAME < s.m.stub.length
  · simp [wholeCall, List.replicate, step, advance, hidle, pktdrvRecv, pktdrvPollRmstub, hm.ne2k,
      hm.thunk, hm.rxPending, hpending, hlen]
  · simp [wholeCall, List.replicate, step, advance, hidle, pktdrvRecv, pktdrvPollRmstub, hm.ne2k,
      hm.thunk, hm.rxPending, hm.linear, hpending, hlen]

/-! ## What the steps preserve -/

def Returned (s : State σ) : Prop := List.Forall₂ Returns s.returned s.copied

/-- One more frame is copied than returned, and `held` is what the client has of it. -/
def Carries (held : List UInt8 → Prop) (s : State σ) : Prop :=
  ∃ before f, s.copied = before ++ [f] ∧ List.Forall₂ Returns s.returned before ∧ held f.bytes

/-- What the client holds at each point of a call. -/
def Holds (s : State σ) : Prop :=
  match s.pc with
  | .idle | .readPending | .readLength | .discard | .copy _ =>
      s.m.rxPending = false ∧ Returned s
  | .storeLen len => s.m.rxPending = false ∧ Carries (slice s.m.rxBuf 0 len = ·) s
  | .clearPending | .setRxPending =>
      s.m.rxPending = false ∧ Carries (slice s.m.rxBuf 0 s.m.rxLen = ·) s
  | .checkRxPending =>
      (s.m.rxPending = true → Carries (slice s.m.rxBuf 0 s.m.rxLen = ·) s) ∧
        (s.m.rxPending = false → Returned s)
  | .readRxLen => Carries (slice s.m.rxBuf 0 s.m.rxLen = ·) s
  | .copyOut len => Carries (fun bs => slice s.m.rxBuf 0 len = bs.take s.maxlen) s
  | .clearRxPending out => Carries (fun bs => out = bs.take s.maxlen) s
  | .clearRxLen out => s.m.rxPending = false ∧ Carries (fun bs => out = bs.take s.maxlen) s

/-- Past the read of the pending word the slot is not empty. -/
def Engaged (s : State σ) : Prop :=
  match s.pc with
  | .readLength => s.m.stub.pending ≠ 0
  | .copy len => s.m.stub.pending ≠ 0 ∧ len ≠ 0
  | _ => True

def Pc.clears : Pc → Prop
  | .discard | .storeLen _ | .clearPending => True
  | _ => False

/-- The stub's slot: a frame that is not copied is pending with all its bytes and
is not about to be cleared; a pending length is that of such a frame unless the
client has just copied it. -/
structure Slot (s : State σ) : Prop where
  kept : ∀ f ∈ s.uncopied, Pending f.bytes s.m ∧ f.bytes ≠ [] ∧ ¬s.pc.clears
  owned : s.m.stub.pending ≠ 0 → s.m.stub.length ≠ 0 → ¬s.pc.clears → s.uncopied ≠ none
  registered : s.m.stub.pending ≠ 0 → s.m.stub.bounceSeg ≠ 0
  fits : s.m.stub.pending ≠ 0 → s.m.stub.length ≤ PKTDRV_MAX_FRAME

structure Inv (s : State σ) : Prop where
  ne2k : s.m.ne2kInitialized = false
  thunk : s.m.thunkSeg ≠ 0
  linear : s.m.bounceLinear ≠ 0
  holds : Holds s
  engaged : Engaged s
  slot : Slot s
  once : (s.copied ++ s.uncopied.toList).Sublist s.delivered
  newest : ∀ f ∈ s.delivered.getLast?, f.bytes ≠ [] →
    f ∈ s.uncopied ∨ s.uncopied = none ∧ f ∈ s.copied.getLast?

/-- No packet with bytes arrives after the frame in the slot is copied or found
empty and before the pending word is cleared, and the copy finds the length word
as it was read. -/
def Clean (s : State σ) : Event → Prop
  | .packet f => s.m.masked = true ∨ s.m.stub.accepts f = false ∨ f.bytes = [] ∨ ¬s.pc.clears
  | .call _ => True
  | .advance =>
      match s.pc with
      | .copy len => s.m.stub.length = len
      | _ => True

theorem Slot.congr {s s' : State σ} (h : Slot s) (hstub : s'.m.stub = s.m.stub)
    (hbounce : s'.m.bounce = s.m.bounce) (huncopied : s'.uncopied = s.uncopied)
    (hclears : s'.pc.clears ↔ s.pc.clears) : Slot s' where
  kept f hf := by
    obtain ⟨hpending, hne, hpc⟩ := h.kept f (huncopied ▸ hf)
    refine ⟨⟨?_, ?_, hpending.fits, ?_⟩, hne, fun hpc' => hpc (hclears.mp hpc')⟩
    · exact hstub ▸ hpending.pending
    · exact hstub ▸ hpending.length
    · exact hbounce ▸ hpending.slice
  owned hpending hlen hpc := by
    rw [hstub] at hpending hlen
    rw [huncopied]
    exact h.owned hpending hlen fun hpc' => hpc (hclears.mpr hpc')
  registered hpending := by
    rw [hstub] at hpending ⊢
    exact h.registered hpending
  fits hpending := by
    rw [hstub] at hpending ⊢
    exact h.fits hpending

/-- Clearing the pending word loses no frame that is not copied. -/
theorem Slot.cleared {s s' : State σ} (h : Slot s) (hpc : s.pc.clears)
    (hpending : s'.m.stub.pending = 0) (huncopied : s'.uncopied = s.uncopied) : Slot s' where
  kept f hf := absurd hpc (h.kept f (huncopied ▸ hf)).2.2
  owned h' := absurd hpending h'
  registered h' := absurd hpending h'
  fits h' := absurd hpending h'

/-! ## The steps of the code -/

/-- A step that touches neither the slot nor the account of the frames. -/
structure SameSlot (s s' : State σ) : Prop where
  ne2k : s'.m.ne2kInitialized = s.m.ne2kInitialized
  thunk : s'.m.thunkSeg = s.m.thunkSeg
  linear : s'.m.bounceLinear = s.m.bounceLinear
  stub : s'.m.stub = s.m.stub
  bounce : s'.m.bounce = s.m.bounce
  uncopied : s'.uncopied = s.uncopied
  copied : s'.copied = s.copied
  delivered : s'.delivered = s.delivered

theorem Inv.of_same {s s' : State σ} (hs : Inv s) (h : SameSlot s s')
    (hclears : s'.pc.clears ↔ s.pc.clears) (hholds : Holds s') (hengaged : Engaged s') :
    Inv s' where
  ne2k := h.ne2k.trans hs.ne2k
  thunk := h.thunk ▸ hs.thunk
  linear := h.linear ▸ hs.linear
  holds := hholds
  engaged := hengaged
  slot := hs.slot.congr h.stub h.bounce h.uncopied hclears
  once := by
    rw [h.copied, h.uncopied, h.delivered]
    exact hs.once
  newest := by
    rw [h.copied, h.uncopied, h.delivered]
    exact hs.newest

theorem inv_readPending {s : State σ} (hs : Inv s) (hpc : s.pc = .readPending) :
    Inv (advance s) := by
  have hholds := hs.holds
  simp only [Holds, hpc] at hholds
  by_cases hpending : s.m.stub.pending = 0
  · have hnext : advance s = { s with pc := .checkRxPending } := by simp [advance, hpc, hpending]
    rw [hnext]
    exact hs.of_same ⟨rfl, rfl, rfl, rfl, rfl, rfl, rfl, rfl⟩ (by simp [hpc, Pc.clears])
      ⟨fun h => absurd (hholds.1.symm.trans h) Bool.false_ne_true, fun _ => hholds.2⟩ trivial
  · have hnext : advance s = { s with pc := .readLength } := by
      simp [advance, hpc, hpending, hs.thunk, hholds.1]
    rw [hnext]
    exact hs.of_same ⟨rfl, rfl, rfl, rfl, rfl, rfl, rfl, rfl⟩ (by simp [hpc, Pc.clears]) hholds
      hpending

theorem inv_readLength {s : State σ} (hs : Inv s) (hpc : s.pc = .readLength) :
    Inv (advance s) := by
  have hholds := hs.holds
  have hpending := hs.engaged
  simp only [Holds, hpc] at hholds
  simp only [Engaged, hpc] at hpending
  have hfits := hs.slot.fits hpending
  by_cases hlen : s.m.stub.length = 0
  · have hnext : advance s = { s with pc := .discard } := by simp [advance, hpc, hlen]
    rw [hnext]
    refine ⟨hs.ne2k, hs.thunk, hs.linear, hholds, trivial, ⟨fun f hf => ?_, fun _ hne => ?_,
      hs.slot.registered, hs.slot.fits⟩, hs.once, hs.newest⟩
    · obtain ⟨hslot, hne, -⟩ := hs.slot.kept f hf
      exact absurd (List.length_eq_zero_iff.mp (hslot.length.symm.trans hlen)) hne
    · exact absurd hlen hne
  · have hnext : advance s = { s with pc := .copy s.m.stub.length } := by
      simp [advance, hpc, hlen, Nat.not_lt.mpr hfits]
    rw [hnext]
    exact hs.of_same ⟨rfl, rfl, rfl, rfl, rfl, rfl, rfl, rfl⟩ (by simp [hpc, Pc.clears]) hholds
      ⟨hpending, hlen⟩

theorem inv_discard {s : State σ} (hs : Inv s) (hpc : s.pc = .discard) : Inv (advance s) := by
  have hholds := hs.holds
  simp only [Holds, hpc] at hholds
  have hnext : advance s = { s with
      m := { s.m with stub := { s.m.stub with pending := 0 } }, pc := .checkRxPending } := by
    simp [advance, hpc]
  rw [hnext]
  exact ⟨hs.ne2k, hs.thunk, hs.linear,
    ⟨fun h => absurd (hholds.1.symm.trans h) Bool.false_ne_true, fun _ => hholds.2⟩, trivial,
    hs.slot.cleared (by simp [hpc, Pc.clears]) rfl rfl, hs.once, hs.newest⟩

theorem inv_copy {s : State σ} {len : Nat} (hs : Inv s) (hpc : s.pc = .copy len)
    (hlen : s.m.stub.length = len) : Inv (advance s) := by
  have hholds := hs.holds
  have hengaged := hs.engaged
  simp only [Holds, hpc] at hholds
  simp only [Engaged, hpc] at hengaged
  have hsome := hs.slot.owned hengaged.1 (hlen ▸ hengaged.2) (by simp [hpc, Pc.clears])
  obtain ⟨f, hf⟩ := Option.ne_none_iff_exists'.mp hsome
  obtain ⟨hslot, -, -⟩ := hs.slot.kept f hf
  have hbytes : slice s.m.bounce 0 len = f.bytes := by
    rw [← hlen, hslot.length, hslot.slice]
  have hnext : advance s = { s with
      m := { s.m with rxBuf := blit s.m.rxBuf 0 f.bytes }
      pc := .storeLen len
      uncopied := none
      copied := s.copied ++ [f] } := by
    simp [advance, hpc, hs.linear, hbytes, hf]
  rw [hnext]
  refine ⟨hs.ne2k, hs.thunk, hs.linear, ⟨hholds.1, s.copied, f, rfl, hholds.2, ?_⟩, trivial,
    ⟨fun g hg => by simp at hg, fun _ _ hclears => absurd trivial hclears, hs.slot.registered,
      hs.slot.fits⟩, ?_, fun g hg hne => ?_⟩
  · rw [← hlen, hslot.length]
    exact slice_blit s.m.rxBuf 0 f.bytes
  · simpa [hf] using hs.once
  · rcases hs.newest g hg hne with h | h
    · obtain rfl : f = g := by simpa [hf] using h
      simp
    · simp [hf] at h

theorem inv_clearPending {s : State σ} (hs : Inv s) (hpc : s.pc = .clearPending) :
    Inv (advance s) := by
  have hholds := hs.holds
  simp only [Holds, hpc] at hholds
  have hnext : advance s = { s with
      m := { s.m with stub := { s.m.stub with pending := 0 } }, pc := .setRxPending } := by
    simp [advance, hpc]
  rw [hnext]
  exact ⟨hs.ne2k, hs.thunk, hs.linear, hholds, trivial,
    hs.slot.cleared (by simp [hpc, Pc.clears]) rfl rfl, hs.once, hs.newest⟩

theorem inv_return {s : State σ} (hs : Inv s) (hpc : s.pc = .setRxPending ∨
    s.pc = .checkRxPending ∨ s.pc = .readRxLen ∨ (∃ len, s.pc = .copyOut len) ∨
    (∃ out, s.pc = .clearRxPending out) ∨ ∃ out, s.pc = .clearRxLen out) : Inv (advance s) := by
  have hholds := hs.holds
  have hsame : SameSlot s (advance s) ∧ ((advance s).pc.clears ↔ s.pc.clears) ∧
      Engaged (advance s) := by
    rcases hpc with hpc | hpc | hpc | ⟨len, hpc⟩ | ⟨out, hpc⟩ | ⟨out, hpc⟩ <;>
      simp only [advance, hpc] <;> (try split) <;>
      exact ⟨⟨rfl, rfl, rfl, rfl, rfl, rfl, rfl, rfl⟩, by simp [Pc.clears], trivial⟩
  refine hs.of_same hsame.1 hsame.2.1 ?_ hsame.2.2
  rcases hpc with hpc | hpc | hpc | ⟨len, hpc⟩ | ⟨out, hpc⟩ | ⟨out, hpc⟩ <;>
    simp only [Holds, hpc] at hholds <;> simp only [advance, hpc]
  · exact ⟨fun _ => hholds.2, fun h => absurd h.symm Bool.false_ne_true⟩
  · by_cases hrx : s.m.rxPending = true
    · rw [if_pos hrx]
      exact hholds.1 hrx
    · rw [if_neg hrx]
      exact ⟨by simpa using hrx, hholds.2 (by simpa using hrx)⟩
  · obtain ⟨before, f, hcopied, hall, hbuf⟩ := hholds
    refine ⟨before, f, hcopied, hall, ?_⟩
    change slice s.m.rxBuf 0 (min s.m.rxLen s.maxlen) = f.bytes.take s.maxlen
    rw [← hbuf, take_slice, Nat.min_comm]
  · obtain ⟨before, f, hcopied, hall, hbuf⟩ := hholds
    exact ⟨before, f, hcopied, hall, hbuf⟩
  · exact ⟨rfl, hholds⟩
  · obtain ⟨hrx, before, f, hcopied, hall, hout⟩ := hholds
    refine ⟨hrx, ?_⟩
    rw [Returned, hcopied]
    exact List.rel_append hall (.cons hout .nil)

theorem inv_advance {s : State σ} (hs : Inv s) (hok : Clean s .advance) : Inv (advance s) := by
  have hreturn := inv_return hs
  cases hpc : s.pc with
  | idle =>
      have hnext : advance s = s := by simp [advance, hpc]
      rw [hnext]
      exact hs
  | readPending => exact inv_readPending hs hpc
  | readLength => exact inv_readLength hs hpc
  | discard => exact inv_discard hs hpc
  | copy len =>
      simp only [Clean, hpc] at hok
      exact inv_copy hs hpc hok
  | storeLen len =>
      have hholds := hs.holds
      simp only [Holds, hpc] at hholds
      have hnext : advance s = { s with m := { s.m with rxLen := len }, pc := .clearPending } := by
        simp [advance, hpc]
      rw [hnext]
      exact hs.of_same ⟨rfl, rfl, rfl, rfl, rfl, rfl, rfl, rfl⟩ (by simp [hpc, Pc.clears]) hholds
        trivial
  | clearPending => exact inv_clearPending hs hpc
  | setRxPending => exact hreturn (by simp [hpc])
  | checkRxPending => exact hreturn (by simp [hpc])
  | readRxLen => exact hreturn (by simp [hpc])
  | copyOut len => exact hreturn (by simp [hpc])
  | clearRxPending out => exact hreturn (by simp [hpc])
  | clearRxLen out => exact hreturn (by simp [hpc])

/-! ## Packets and calls -/

theorem inv_call {s : State σ} {maxlen : Nat} (hs : Inv s) : Inv (step s (.call maxlen)) := by
  by_cases hidle : s.pc = .idle
  · have hholds := hs.holds
    simp only [Holds, hidle] at hholds
    simp only [step, hidle, if_true]
    exact hs.of_same ⟨rfl, rfl, rfl, rfl, rfl, rfl, rfl, rfl⟩ (by simp [hidle, Pc.clears]) hholds
      trivial
  · simpa only [step, hidle, if_false] using hs

/-- What the client holds is out of the reach of a packet. -/
theorem holds_withMem {s s' : State σ} {mem : Mem UInt8} {stub : Stub} (h : Holds s)
    (hm : s'.m = s.m.withMem mem stub) (hpc : s'.pc = s.pc) (hmaxlen : s'.maxlen = s.maxlen)
    (hcopied : s'.copied = s.copied) (hreturned : s'.returned = s.returned) : Holds s' := by
  unfold Holds Returned Carries at h ⊢
  simp only [hm, hpc, hmaxlen, hcopied, hreturned]
  exact h

theorem engaged_withMem {s s' : State σ} {mem : Mem UInt8} {stub : Stub} (h : Engaged s)
    (hm : s'.m = s.m.withMem mem stub) (hpc : s'.pc = s.pc)
    (hpending : s.m.stub.pending ≠ 0 → stub.pending ≠ 0) : Engaged s' := by
  unfold Engaged at h ⊢
  rw [hpc, hm, Machine.withMem_stub]
  split at h
  · exact hpending h
  · exact ⟨hpending h.1, h.2⟩
  · trivial

theorem inv_packet {s : State σ} {f : Frame} (hs : Inv s) (hok : Clean s (.packet f)) :
    Inv (packet f s) := by
  cases hmasked : s.m.masked with
  | true => simpa [packet, hmasked, Machine.interrupts_singleton] using hs
  | false =>
      cases haccepts : s.m.stub.accepts f with
      | false =>
          have hnext : packet f s = { s with
              m := s.m.withMem s.m.bounce (s.m.stub.receive f) } := by
            simp [packet, Machine.interrupts_singleton, hmasked, Machine.receive_eq, haccepts]
          have hpending := Stub.receive_pending_of_not_accepts haccepts
          rw [hnext]
          by_cases hempty : s.m.stub.pending = 0
          · refine ⟨hs.ne2k, hs.thunk, hs.linear, holds_withMem hs.holds rfl rfl rfl rfl rfl,
              engaged_withMem hs.engaged rfl rfl fun h => absurd hempty h, ?_, hs.once, hs.newest⟩
            have hzero : (s.m.stub.receive f).pending = 0 := hpending.trans hempty
            exact ⟨fun g hg => absurd hempty (hs.slot.kept g hg).1.pending,
              fun h => absurd hzero h, fun h => absurd hzero h, fun h => absurd hzero h⟩
          · rw [Stub.receive_of_not_accepts haccepts (hs.slot.registered hempty),
              Machine.withMem_self]
            exact hs
      | true =>
          obtain ⟨hlen, hseg⟩ : f.bytes.length ≤ 1518 ∧ s.m.stub.bounceSeg ≠ 0 := by
            simpa [Stub.accepts] using haccepts
          have hclears : f.bytes = [] ∨ ¬s.pc.clears := by
            simpa [Clean, hmasked, haccepts] using hok
          have hnext : packet f s = { s with
              m := s.m.withMem (blit s.m.bounce 0 f.bytes)
                { s.m.stub with pending := 1, length := f.bytes.length }
              delivered := s.delivered ++ [f]
              uncopied := if f.bytes = [] then none else some f } := by
            simp [packet, Machine.interrupts_singleton, hmasked, Machine.receive_eq, haccepts,
              Stub.receive_of_accepts haccepts]
          rw [hnext]
          refine ⟨hs.ne2k, hs.thunk, hs.linear, holds_withMem hs.holds rfl rfl rfl rfl rfl,
            engaged_withMem hs.engaged rfl rfl fun _ => by simp, ?_, ?_, fun g hg hne => ?_⟩
          · by_cases hnil : f.bytes = []
            · simp only [hnil, if_true]
              exact ⟨by simp, fun _ h => absurd rfl h, fun _ => hseg, fun _ => Nat.zero_le _⟩
            · simp only [hnil, if_false]
              refine ⟨?_, fun _ _ _ => by simp, fun _ => hseg, fun _ => hlen⟩
              intro g hg
              obtain rfl : f = g := Option.some.inj hg
              exact ⟨⟨by simp, rfl, hlen, slice_blit s.m.bounce 0 _⟩, hnil,
                hclears.resolve_left hnil⟩
          · have hcopied := (List.sublist_append_left _ _).trans hs.once
            by_cases hnil : f.bytes = []
            · simpa [hnil] using hcopied.trans (List.sublist_append_left _ [f])
            · simpa [hnil] using hcopied.append (List.Sublist.refl [f])
          · obtain rfl : f = g := by simpa using hg
            simp [hne]

theorem inv_step {s : State σ} {e : Event} (hs : Inv s) (hok : Clean s e) : Inv (step s e) := by
  cases e with
  | packet f => exact inv_packet hs hok
  | call maxlen => exact inv_call hs
  | advance => exact inv_advance hs hok

/-! ## Whole runs -/

/-- Every returned frame is a copied one, each once and in order, and of the
copied frames at most the newest is still in the client's hands. -/
def Accounted (s : State σ) : Prop :=
  ∃ done inHand, s.copied = done ++ inHand ∧ List.Forall₂ Returns s.returned done ∧
    inHand.length ≤ 1 ∧ (s.pc = .idle → inHand = [])

theorem accounted_of_returned {s : State σ} (h : Returned s) : Accounted s :=
  ⟨s.copied, [], by simp, h, by simp, fun _ => rfl⟩

theorem accounted_of_carries {s : State σ} {held : List UInt8 → Prop} (h : Carries held s)
    (hpc : s.pc ≠ .idle) : Accounted s := by
  obtain ⟨before, f, hcopied, hall, -⟩ := h
  exact ⟨before, [f], hcopied, hall, by simp, fun hidle => absurd hidle hpc⟩

theorem accounted_of_inv {s : State σ} (hs : Inv s) : Accounted s := by
  have hholds := hs.holds
  cases hpc : s.pc with
  | idle | readPending | readLength | discard | copy len =>
      simp only [Holds, hpc] at hholds
      exact accounted_of_returned hholds.2
  | storeLen len | clearPending | setRxPending | clearRxLen out =>
      simp only [Holds, hpc] at hholds
      exact accounted_of_carries hholds.2 (by simp [hpc])
  | checkRxPending =>
      simp only [Holds, hpc] at hholds
      cases hrx : s.m.rxPending with
      | true => exact accounted_of_carries (hholds.1 hrx) (by simp [hpc])
      | false => exact accounted_of_returned (hholds.2 hrx)
  | readRxLen | copyOut len | clearRxPending out =>
      simp only [Holds, hpc] at hholds
      exact accounted_of_carries hholds (by simp [hpc])

/-- The frame in the slot is pending with all its bytes, and a client between two
calls gets it from the next call unless another packet arrives first. -/
def Kept (s : State σ) : Prop :=
  ∀ f ∈ s.uncopied, Pending f.bytes s.m ∧ (s.pc = .idle → ∀ maxlen,
    (run step s (wholeCall maxlen)).returned = s.returned ++ [(maxlen, f.bytes.take maxlen)])

theorem kept_of_inv {s : State σ} (hs : Inv s) : Kept s := by
  intro f hf
  obtain ⟨hslot, hne, -⟩ := hs.slot.kept f hf
  refine ⟨hslot, fun hidle maxlen => ?_⟩
  have hholds := hs.holds
  simp only [Holds, hidle] at hholds
  have hm : Draining s.m := ⟨hs.ne2k, hs.thunk, hs.linear, hholds.1⟩
  have hlen : s.m.stub.length ≠ 0 := fun h =>
    hne (List.length_eq_zero_iff.mp (hslot.length.symm.trans h))
  have hfits : ¬PKTDRV_MAX_FRAME < s.m.stub.length := by
    rw [hslot.length]
    exact Nat.not_lt.mpr hslot.fits
  rw [(run_call idleDriver hidle hm).2.2, pktdrvRecv_of_pending idleDriver hm hslot hne,
    if_neg (by simp [hslot.pending, hlen, hfits])]

/-- The client returns every frame it copies, each a delivered frame and each
once, the newest delivered frame is copied or still in the slot, and the slot is
kept until it is copied. -/
structure DrainSafe (s : State σ) : Prop where
  accounted : Accounted s
  once : (s.copied ++ s.uncopied.toList).Sublist s.delivered
  newest : ∀ f ∈ s.delivered.getLast?, f.bytes ≠ [] →
    f ∈ s.uncopied ∨ s.uncopied = none ∧ f ∈ s.copied.getLast?
  kept : Kept s

theorem drain_safe {m : Machine σ} {es : List Event} (hm : Draining m)
    (hempty : m.stub.pending = 0) (hok : Meets step Clean (start m) es) :
    DrainSafe (run step (start m) es) := by
  have hinit : Inv (start m) :=
    ⟨hm.ne2k, hm.thunk, hm.linear, ⟨hm.rxPending, .nil⟩, trivial,
      ⟨fun f hf => by simp [start] at hf, fun h => absurd hempty h, fun h => absurd hempty h,
        fun h => absurd hempty h⟩, List.Sublist.slnil, fun f hf => by simp [start] at hf⟩
  have hinv := run_invariant step (fun _ _ => inv_step) hinit hok
  exact ⟨accounted_of_inv hinv, hinv.once, hinv.newest, kept_of_inv hinv⟩

/-- A packet of two bytes and a call up to its copy. -/
theorem drain_safe_copied :
    DrainSafe (run step (start (booted ()))
      [.packet ⟨[1, 2], by decide⟩, .call 9, .advance, .advance, .advance]) :=
  drain_safe ⟨rfl, by decide, by decide, rfl⟩ rfl
    ⟨Or.inr (Or.inr (Or.inr id)), trivial, trivial, trivial, rfl, trivial⟩

/-- A longer packet between the read of the length and the copy: the call
returns two bytes of it, a frame that was never delivered. -/
theorem returns_torn_frame :
    ¬∀ r ∈ (run step (start (booted ())) ([.packet ⟨[1, 2], by decide⟩, .call 9, .advance, .advance,
        .packet ⟨[3, 4, 5], by decide⟩] ++ List.replicate 9 .advance)).returned,
      ∃ f ∈ (run step (start (booted ())) ([.packet ⟨[1, 2], by decide⟩, .call 9, .advance,
        .advance, .packet ⟨[3, 4, 5], by decide⟩] ++ List.replicate 9 .advance)).delivered,
        r.2 = f.bytes.take r.1 := by
  decide

end FreedosMicroPython.Net.Drain
