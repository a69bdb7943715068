import FreedosMicroPython.Host
import FreedosMicroPython.Lib.I8086
/-!
# The receiver stub

The hand-assembled `rcv_code` that `pktdrv_alloc_thunk` of `port/pktdrv_uc386dos.c` lays
into the thunk, executed. `rcvCode_spec` is what the packet driver gets from a call of it.
-/

namespace FreedosMicroPython.Net.Stub

open FreedosMicroPython.Lib.I8086

def rcvCode : List Byte :=
  [0x09, 0xC0,                                 -- or ax, ax
    0x75, 0x23,                                -- jnz .phase1
    0x2E, 0x83, 0x3E, 0x40, 0x00, 0x00,        -- cmp word [cs:0x40], 0
    0x90, 0x90,                                -- nop nop
    0x81, 0xF9, 0xEE, 0x05,                    -- cmp cx, 1518
    0x77, 0x0E,                                -- ja .drop
    0x2E, 0x89, 0x0E, 0x42, 0x00,              -- mov [cs:0x42], cx
    0x2E, 0xA1, 0x44, 0x00,                    -- mov ax, [cs:0x44]
    0x8E, 0xC0,                                -- mov es, ax
    0x31, 0xFF,                                -- xor di, di
    0xCB,                                      -- retf
    -- .drop
    0x31, 0xC0,                                -- xor ax, ax
    0x8E, 0xC0,                                -- mov es, ax
    0x31, 0xFF,                                -- xor di, di
    0xCB,                                      -- retf
    -- .phase1
    0x2E, 0xC7, 0x06, 0x40, 0x00, 0x01, 0x00,  -- mov word [cs:0x40], 1
    0xCB]                                      -- retf

def typeFilters : List Byte :=
  [0x08, 0x06, 0x08, 0x00, 0x86, 0xDD, 0, 0, 0, 0, 0, 0]

/-- The thunk as `pktdrv_alloc_thunk` lays it into its segment. -/
def pktdrvAllocThunk (seg : Word) (bounceSeg : BitVec 32) (m : Memory) : Memory :=
  let m := storeBytes m seg 0 [0xCD, 0x60, 0xCB]
  let m := storeBytes m seg 4 typeFilters
  let m := storeBytes m seg 0x10 rcvCode
  storeBytes m seg 0x40
    [0, 0, 0, 0, BitVec.ofNat 8 bounceSeg.toNat, BitVec.ofNat 8 (bounceSeg.toNat / 256)]

theorem codeAt_pktdrvAllocThunk (seg : Word) (bounceSeg : BitVec 32) (m : Memory) :
    CodeAt (pktdrvAllocThunk seg bounceSeg m) seg 0x10 rcvCode := by
  apply CodeAt.storeBytes (codeAt_storeBytes _ seg 0x10 (by decide))
  intro i hi k hk
  simp only [rcvCode, List.length_cons, List.length_nil] at hi hk
  bv_omega

/-! ## One call -/

def boundaries : List Nat := starts rcvCode rcvCode.length 0

structure Visited (s : State) (m : Memory) (t : State) : Prop where
  boundary : ∃ i ∈ boundaries, t.ip = 0x10 + BitVec.ofNat 16 i
  cs : t.cs = s.cs
  mem : t.mem = s.mem ∨ t.mem = m

/-- The registers that no way through the code touches. -/
def untouched (s : State) : List Word := [s.cx, s.dx, s.bx, s.bp, s.si, s.ss, s.ds]

structure FarReturned (s s' : State) : Prop where
  ip : s'.ip = loadWord s'.mem s.ss s.sp
  cs : s'.cs = loadWord s'.mem s.ss (s.sp + 2)
  sp : s'.sp = s.sp + 4
  kept : untouched s' = untouched s

/-- At the `i`-th byte of the code, with the memory `m`. -/
structure At (s : State) (m : Memory) (i : Nat) (t : State) : Prop where
  ip : t.ip = 0x10 + BitVec.ofNat 16 i
  cs : t.cs = s.cs
  sp : t.sp = s.sp
  kept : untouched t = untouched s
  mem : t.mem = m

structure Stage (s : State) (m' m : Memory) : Prop where
  code : CodeAt m s.cs 0x10 rcvCode
  mem : m = s.mem ∨ m = m'

section Steps

variable {s t : State} {m m' : Memory} {i n : Nat} {Q : State → Prop}

theorem At.cx (h : At s m i t) : t.cx = s.cx := (List.cons.inj h.kept).1

theorem At.ss (h : At s m i t) : t.ss = s.ss := by
  have hkept := h.kept
  simp only [untouched, List.cons.injEq] at hkept
  exact hkept.2.2.2.2.2.1

theorem At.visited (h : At s m i t) (hm : Stage s m' m) (hi : i ∈ boundaries) :
    Visited s m' t :=
  ⟨⟨i, hi, h.ip⟩, h.cs, h.mem ▸ hm.mem⟩

theorem At.fetch (h : At s m i t) (hm : Stage s m' m) {ins : Instr} {len : Nat}
    (hins : instrAt rcvCode i = some (ins, len)) :
    fetch t = some (ins, BitVec.ofNat 16 len) := by
  have hplaced : CodeAt t.mem t.cs 0x10 rcvCode := by
    rw [h.cs, h.mem]
    exact hm.code
  exact fetch_codeAt hplaced h.ip hins

theorem At.straight (h : At s m i t) (hm : Stage s m' m) (ins : Instr) (len : Nat) {m₁ : Memory}
    (hi : i ∈ boundaries) (hins : instrAt rcvCode i = some (ins, len)) (hne : ins ≠ .retf) :
    let t' := State.exec { t with ip := t.ip + BitVec.ofNat 16 len } ins
    t'.ip = t.ip + BitVec.ofNat 16 len → t'.cs = t.cs → t'.sp = t.sp →
      untouched t' = untouched t → t'.mem = m₁ →
      (∀ u, u = t' → At s m₁ (i + len) u → Returned (Visited s m') n u Q) →
      Returned (Visited s m') (n + 1) t Q := by
  intro t' hip hcs hsp hkept hmem hrest
  apply Returned.step (h.fetch hm hins) hne (h.visited hm hi)
  apply hrest _ rfl
  refine ⟨?_, hcs.trans h.cs, hsp.trans h.sp, hkept.trans h.kept, hmem⟩
  rw [hip, h.ip, BitVec.ofNat_add, BitVec.add_assoc]

theorem At.taken (h : At s m i t) (hm : Stage s m' m) (cc : Nat) (disp : Word) (len j : Nat)
    (hi : i ∈ boundaries) (hins : instrAt rcvCode i = some (.jcc cc disp, len))
    (hj : BitVec.ofNat 16 i + BitVec.ofNat 16 len + disp = BitVec.ofNat 16 j)
    (hcond : t.cond cc = true) (hrest : ∀ u, At s m j u → Returned (Visited s m') n u Q) :
    Returned (Visited s m') (n + 1) t Q := by
  apply Returned.step (h.fetch hm hins) (by simp) (h.visited hm hi)
  rw [State.exec_jcc_taken disp (by exact hcond)]
  apply hrest
  refine ⟨?_, h.cs, h.sp, h.kept, h.mem⟩
  show t.ip + BitVec.ofNat 16 len + disp = _
  rw [h.ip, ← hj, BitVec.add_assoc, BitVec.add_assoc, ← BitVec.add_assoc (BitVec.ofNat 16 i)]

theorem At.not_taken (h : At s m i t) (hm : Stage s m' m) (cc : Nat) (disp : Word) (len : Nat)
    (hi : i ∈ boundaries) (hins : instrAt rcvCode i = some (.jcc cc disp, len))
    (hcond : t.cond cc = false)
    (hrest : ∀ u, At s m (i + len) u → Returned (Visited s m') n u Q) :
    Returned (Visited s m') (n + 1) t Q := by
  apply Returned.step (h.fetch hm hins) (by simp) (h.visited hm hi)
  rw [State.exec_jcc_not_taken disp (by exact hcond)]
  apply hrest
  refine ⟨?_, h.cs, h.sp, h.kept, h.mem⟩
  show t.ip + BitVec.ofNat 16 len = _
  rw [h.ip, BitVec.ofNat_add, BitVec.add_assoc]

theorem At.retf (h : At s m i t) (hm : Stage s m' m) (hi : i ∈ boundaries)
    (hins : instrAt rcvCode i = some (.retf, 1))
    (hQ : ∀ u, FarReturned s u → u.es = t.es → u.di = t.di → u.mem = m → Q u) :
    Returned (Visited s m') (n + 1) t Q := by
  apply Returned.retf (h.fetch hm hins) (h.visited hm hi)
  have hret : FarReturned s (State.exec { t with ip := t.ip + BitVec.ofNat 16 1 } .retf) := by
    constructor
    · show loadWord t.mem t.ss t.sp = loadWord t.mem s.ss s.sp
      rw [h.ss, h.sp]
    · show loadWord t.mem t.ss (t.sp + 2) = loadWord t.mem s.ss (s.sp + 2)
      rw [h.ss, h.sp]
    · show t.sp + 4 = s.sp + 4
      rw [h.sp]
    · exact h.kept
  exact hQ _ hret rfl rfl h.mem

end Steps

/-! ## The three ways through the code -/

section Paths

variable {s : State} {m' : Memory} {n : Nat} {Q : State → Prop}

theorem enter (hip : s.ip = 0x10) (hs : Stage s m' s.mem)
    (hrest : ∀ t : State, At s s.mem 2 t → t.cond 5 = decide (s.ax ≠ 0) →
      Returned (Visited s m') n t Q) : Returned (Visited s m') (n + 1) s Q := by
  have hentry : At s s.mem 0 s := ⟨hip, rfl, rfl, rfl, rfl⟩
  refine hentry.straight hs (.alu .or (.reg .ax) (.reg .ax)) 2 (by decide) (by decide)
    (by decide) rfl rfl rfl rfl rfl fun t ht hjnz => hrest t hjnz ?_
  rw [ht]
  show (!(s.ax ||| s.ax == 0)) = decide (s.ax ≠ 0)
  rw [BitVec.or_self]
  exact decide_not.symm

/-- Phase 1 sets the word at `cs:0x40` and nothing else. -/
theorem phase1_returns (hip : s.ip = 0x10) (hax : s.ax ≠ 0) (hs : Stage s m' s.mem)
    (hm : Stage s m' (storeWord s.mem s.cs 0x40 1)) :
    Returned (Visited s m') 4 s fun s' =>
      FarReturned s s' ∧ s'.mem = storeWord s.mem s.cs 0x40 1 := by
  apply enter hip hs
  intro t ht hcond
  refine ht.taken hs 5 0x23 2 39 (by decide) (by decide) rfl
    (hcond.trans (decide_eq_true hax)) fun u hphase1 => ?_
  have hstored : storeWord u.mem u.cs 0x40 1 = storeWord s.mem s.cs 0x40 1 := by
    rw [hphase1.mem, hphase1.cs]
  refine hphase1.straight hs (.mov (.mem .cs [] 0x40) (.imm 1)) 7 (by decide) (by decide)
    (by decide) rfl rfl rfl rfl hstored fun v _ hend => ?_
  exact hend.retf hm (by decide) (by decide) fun s' hret _ _ hmem => ⟨hret, hmem⟩

/-- `ja` behind the comparison with 1518. -/
theorem above_iff (v : Word) :
    (!(v.usubOverflow 1518 || v - 1518 == 0)) = decide (1518 < v) := by
  have hzero : (v - 1518 == 0) = decide (v = 1518) := by
    by_cases hv : v = 1518
    · rw [hv]
      rfl
    · rw [decide_eq_false hv, beq_eq_false_iff_ne]
      bv_omega
  rw [hzero, BitVec.usubOverflow, Bool.eq_iff_iff]
  simp only [Bool.not_eq_true', Bool.or_eq_false_iff, decide_eq_false_iff_not, decide_eq_true_eq]
  constructor
  · rintro ⟨hge, hne⟩
    bv_omega
  · intro hlt
    constructor <;> bv_omega

theorem enter_phase0 (hip : s.ip = 0x10) (hax : s.ax = 0) (hs : Stage s m' s.mem)
    (hrest : ∀ t : State, At s s.mem 16 t → t.cond 7 = decide (1518 < s.cx) →
      Returned (Visited s m') n t Q) : Returned (Visited s m') (n + 6) s Q := by
  apply enter hip hs
  intro t ht hcond
  refine ht.not_taken hs 5 0x23 2 (by decide) (by decide)
    (hcond.trans (decide_eq_false (not_not.mpr hax))) fun u hpending => ?_
  refine hpending.straight hs (.alu .cmp (.mem .cs [] 0x40) (.imm 0)) 6 (by decide) (by decide)
    (by decide) rfl rfl rfl rfl hpending.mem fun v _ hnop => ?_
  refine hnop.straight hs .nop 1 (by decide) (by decide) (by decide) rfl rfl rfl rfl hnop.mem
    fun w _ hnop' => ?_
  refine hnop'.straight hs .nop 1 (by decide) (by decide) (by decide) rfl rfl rfl rfl hnop'.mem
    fun x _ hcmp => ?_
  refine hcmp.straight hs (.alu .cmp (.reg .cx) (.imm 1518)) 4 (by decide) (by decide)
    (by decide) rfl rfl rfl rfl hcmp.mem fun y hy hja => hrest y hja ?_
  rw [hy, ← hcmp.cx]
  exact above_iff x.cx

theorem drop_returns (hip : s.ip = 0x10) (hax : s.ax = 0) (hcx : 1518 < s.cx)
    (hs : Stage s m' s.mem) :
    Returned (Visited s m') 11 s fun s' =>
      FarReturned s s' ∧ s'.es = 0 ∧ s'.di = 0 ∧ s'.mem = s.mem := by
  apply enter_phase0 hip hax hs
  intro t ht hcond
  refine ht.taken hs 7 0x0E 2 32 (by decide) (by decide) rfl
    (hcond.trans (decide_eq_true hcx)) fun u hdrop => ?_
  refine hdrop.straight hs (.alu .xor (.reg .ax) (.reg .ax)) 2 (by decide) (by decide)
    (by decide) rfl rfl rfl rfl hdrop.mem fun v hv hes => ?_
  refine hes.straight hs (.movSeg .es (.reg .ax)) 2 (by decide) (by decide) (by decide)
    rfl rfl rfl rfl hes.mem fun w hw hdi => ?_
  refine hdi.straight hs (.alu .xor (.reg .di) (.reg .di)) 2 (by decide) (by decide) (by decide)
    rfl rfl rfl rfl hdi.mem fun x hx hend => ?_
  refine hend.retf hs (by decide) (by decide) fun s' hret hes' hdi' hmem =>
    ⟨hret, ?_, ?_, hmem⟩
  · have hzero : v.ax = 0 := by
      rw [hv]
      exact BitVec.xor_self
    rw [hes', hx, ← hzero]
    show w.es = v.ax
    rw [hw]
    rfl
  · rw [hdi', hx]
    exact BitVec.xor_self

/-- Any other length is stored, and the segment of the buffer handed out. -/
theorem grant_returns (hip : s.ip = 0x10) (hax : s.ax = 0) (hcx : s.cx ≤ 1518)
    (hs : Stage s m' s.mem) (hm : Stage s m' (storeWord s.mem s.cs 0x42 s.cx)) :
    Returned (Visited s m') 12 s fun s' =>
      FarReturned s s' ∧ s'.es = loadWord s.mem s.cs 0x44 ∧ s'.di = 0 ∧
        s'.mem = storeWord s.mem s.cs 0x42 s.cx := by
  apply enter_phase0 hip hax hs
  intro t ht hcond
  refine ht.not_taken hs 7 0x0E 2 (by decide) (by decide)
    (hcond.trans (decide_eq_false (BitVec.not_lt.mpr hcx))) fun u hgrant => ?_
  have hstored : storeWord u.mem u.cs 0x42 u.cx = storeWord s.mem s.cs 0x42 s.cx := by
    rw [hgrant.mem, hgrant.cs, hgrant.cx]
  refine hgrant.straight hs (.mov (.mem .cs [] 0x42) (.reg .cx)) 5 (by decide) (by decide)
    (by decide) rfl rfl rfl rfl hstored fun v _ hax => ?_
  refine hax.straight hm (.mov (.reg .ax) (.mem .cs [] 0x44)) 4 (by decide) (by decide)
    (by decide) rfl rfl rfl rfl hax.mem fun w hw hes => ?_
  refine hes.straight hm (.movSeg .es (.reg .ax)) 2 (by decide) (by decide) (by decide)
    rfl rfl rfl rfl hes.mem fun x hx hdi => ?_
  refine hdi.straight hm (.alu .xor (.reg .di) (.reg .di)) 2 (by decide) (by decide) (by decide)
    rfl rfl rfl rfl hdi.mem fun y hy hend => ?_
  refine hend.retf hm (by decide) (by decide) fun s' hret hes' hdi' hmem =>
    ⟨hret, ?_, ?_, hmem⟩
  · have hsegment : w.ax = loadWord s.mem s.cs 0x44 := by
      rw [hw]
      show loadWord v.mem v.cs 0x44 = _
      rw [hax.mem, hax.cs]
      exact loadWord_storeWord_apart (by decide) (by decide) (by decide)
    rw [hes', hy, ← hsegment]
    show x.es = w.ax
    rw [hx]
    rfl
  · rw [hdi', hy]
    exact BitVec.xor_self

end Paths

/-! ## The specification -/

/-- What a call does: the buffer it grants in `ES:DI`, or `0:0`, or the word it sets. -/
structure Spec (s s' : State) : Prop where
  granted : s.ax = 0 → s.cx ≤ 1518 → s'.es = loadWord s.mem s.cs 0x44 ∧ s'.di = 0 ∧
    s'.mem = storeWord s.mem s.cs 0x42 s.cx
  dropped : s.ax = 0 → 1518 < s.cx → s'.es = 0 ∧ s'.di = 0 ∧ s'.mem = s.mem
  filled : s.ax ≠ 0 → s'.mem = storeWord s.mem s.cs 0x40 1

/-- The words behind the code are not part of it. -/
theorem codeAt_store {s : State} (hcode : CodeAt s.mem s.cs 0x10 rcvCode) {off : Word}
    (hoff : off = 0x40 ∨ off = 0x42) (w : Word) :
    CodeAt (storeWord s.mem s.cs off w) s.cs 0x10 rcvCode := by
  apply hcode.storeWord <;> intro i hi <;>
    simp only [rcvCode, List.length_cons, List.length_nil] at hi <;>
    rcases hoff with rfl | rfl <;> bv_omega

/-- The far call of the code, for every machine that holds it at offset 0x10. -/
theorem rcvCode_spec {s : State} (hip : s.ip = 0x10) (hcode : CodeAt s.mem s.cs 0x10 rcvCode) :
    ∃ n ts s', callFar n s = some (ts, s') ∧ (∀ t ∈ ts, Visited s s'.mem t) ∧
      FarReturned s s' ∧ Spec s s' := by
  have hs : ∀ m', Stage s m' s.mem := fun m' => ⟨hcode, .inl rfl⟩
  by_cases hax : s.ax = 0
  · by_cases hcx : s.cx ≤ 1518
    · obtain ⟨ts, s', hcall, hall, hret, hes, hdi, hmem⟩ := grant_returns hip hax hcx (hs _)
        ⟨codeAt_store hcode (.inr rfl) s.cx, .inr rfl⟩
      exact ⟨12, ts, s', hcall, hmem ▸ hall, hret, fun _ _ => ⟨hes, hdi, hmem⟩,
        fun _ hgt => absurd hcx (BitVec.not_le.mpr hgt), fun h => absurd hax h⟩
    · obtain ⟨ts, s', hcall, hall, hret, hes, hdi, hmem⟩ :=
        drop_returns hip hax (BitVec.not_le.mp hcx) (hs s.mem)
      rw [← hmem] at hall
      exact ⟨11, ts, s', hcall, hall, hret, fun _ hle => absurd hle hcx,
        fun _ _ => ⟨hes, hdi, hmem⟩, fun h => absurd hax h⟩
  · obtain ⟨ts, s', hcall, hall, hret, hmem⟩ := phase1_returns hip hax (hs _)
      ⟨codeAt_store hcode (.inl rfl) 1, .inr rfl⟩
    exact ⟨4, ts, s', hcall, hmem ▸ hall, hret, fun h => absurd h hax, fun h => absurd h hax,
      fun _ => hmem⟩

/-- The driver announces a frame of 60 bytes to a thunk laid at 0x2000. -/
def announced : State where
  ax := 0
  cx := 60
  dx := 0
  bx := 0
  sp := 0x100
  bp := 0
  si := 0
  di := 0xFFFF
  es := 0
  cs := 0x2000
  ss := 0x3000
  ds := 0
  ip := 0x10
  cf := false
  pf := false
  zf := false
  sf := false
  of := false
  mem := pktdrvAllocThunk 0x2000 0x1234 fun _ => 0

theorem rcvCode_announced :
    ∃ n ts s', callFar n announced = some (ts, s') ∧
      (∀ t ∈ ts, Visited announced s'.mem t) ∧ FarReturned announced s' ∧ Spec announced s' :=
  rcvCode_spec rfl (codeAt_pktdrvAllocThunk 0x2000 0x1234 fun _ => 0)

/-! ## The words behind the code -/

/-- The three words as the rest of the driver knows them. -/
def stubAt (m : Memory) (seg : Word) : Host.Stub where
  pending := (loadWord m seg 0x40).toNat
  length := (loadWord m seg 0x42).toNat
  bounceSeg := (loadWord m seg 0x44).toNat

theorem stubAt_length (m : Memory) (seg w : Word) :
    stubAt (storeWord m seg 0x42 w) seg = { stubAt m seg with length := w.toNat } := by
  have hpending : loadWord (storeWord m seg 0x42 w) seg 0x40 = loadWord m seg 0x40 :=
    loadWord_storeWord_apart (by decide) (by decide) (by decide)
  have hbounce : loadWord (storeWord m seg 0x42 w) seg 0x44 = loadWord m seg 0x44 :=
    loadWord_storeWord_apart (by decide) (by decide) (by decide)
  rw [stubAt, hpending, hbounce, loadWord_storeWord, stubAt]

theorem stubAt_pending (m : Memory) (seg : Word) :
    stubAt (storeWord m seg 0x40 1) seg = (stubAt m seg).phase1 := by
  have hlength : loadWord (storeWord m seg 0x40 1) seg 0x42 = loadWord m seg 0x42 :=
    loadWord_storeWord_apart (by decide) (by decide) (by decide)
  have hbounce : loadWord (storeWord m seg 0x40 1) seg 0x44 = loadWord m seg 0x44 :=
    loadWord_storeWord_apart (by decide) (by decide) (by decide)
  rw [stubAt, hlength, hbounce, loadWord_storeWord, stubAt, Host.Stub.phase1]
  rfl

theorem Spec.phase0 {s s' : State} (h : Spec s s') (hax : s.ax = 0) :
    ((s'.es.toNat, s'.di.toNat), stubAt s'.mem s.cs) =
      (stubAt s.mem s.cs).phase0 s.cx.toNat := by
  by_cases hcx : s.cx ≤ 1518
  · obtain ⟨hes, hdi, hmem⟩ := h.granted hax hcx
    have hlen : ¬1518 < s.cx.toNat := Nat.not_lt.mpr hcx
    rw [Host.Stub.phase0, if_neg hlen, hes, hdi, hmem, stubAt_length]
    rfl
  · obtain ⟨hes, hdi, hmem⟩ := h.dropped hax (BitVec.not_le.mp hcx)
    have hlen : 1518 < s.cx.toNat := BitVec.not_le.mp hcx
    rw [Host.Stub.phase0, if_pos hlen, hes, hdi, hmem]
    rfl

theorem Spec.phase1 {s s' : State} (h : Spec s s') (hax : s.ax ≠ 0) :
    stubAt s'.mem s.cs = (stubAt s.mem s.cs).phase1 := by
  rw [h.filled hax, stubAt_pending]

end FreedosMicroPython.Net.Stub
