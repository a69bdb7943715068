import FreedosMicroPython.Dos.Calls
/-!
# The gate into real mode

`gate` is what `dos_int21_call` hands to `dpmi0301_call_shallow`, if it gets that far.
Every service of `port/dosint21_uc386dos.c` has the shape of `Service`: it may return
early, or it stages its operand, makes one call and looks at the registers.
-/

namespace FreedosMicroPython.Dos.Gate

open FreedosMicroPython.Lib.Memory
open FreedosMicroPython.Host FreedosMicroPython.Dos.Int21 FreedosMicroPython.Dos.Calls

variable {σ : Type} (d : World σ)

/-- The registers and the machine with which the call goes through the gate. -/
def gate (rm : Rmcs) (m : Machine σ) : Option (Rmcs × Machine σ) :=
  match dosInt21ThunkInit d m with
  | (false, _) => none
  | (true, m) =>
      some (entryRegs m.i21Thunk m.rmStackSeg m.rmStackBytes rm,
        { m with i21Thunk := repairThunk m.i21Thunk })

theorem dosInt21Call_eq_gate (irqs : CallIrqs) (rm : Rmcs) (m : Machine σ) :
    dosInt21Call d irqs rm m =
      match gate d rm m with
      | none => (none, (dosInt21ThunkInit d m).2)
      | some (rm, m) => dpmi0301CallShallow d irqs rm m := by
  unfold dosInt21Call gate
  generalize dosInt21ThunkInit d m = r
  obtain ⟨ok, m'⟩ := r
  cases ok <;> rfl

/-! ## The static variables -/

/-- The segments that are set before the first call, the bounce and the thunk. -/
structure SameStatics (m m' : Machine σ) : Prop where
  bounceSeg : m'.preallocBounceSeg = m.preallocBounceSeg
  bounceLinear : m'.preallocBounceLinear = m.preallocBounceLinear
  thunkSeg : m'.i21PreallocThunkSeg = m.i21PreallocThunkSeg
  thunk : m'.i21Thunk = m.i21Thunk

theorem SameStatics.refl (m : Machine σ) : SameStatics m m := ⟨rfl, rfl, rfl, rfl⟩

theorem SameStatics.trans {m m' m'' : Machine σ} (h : SameStatics m m')
    (h' : SameStatics m' m'') : SameStatics m m'' :=
  ⟨h'.bounceSeg.trans h.bounceSeg, h'.bounceLinear.trans h.bounceLinear,
    h'.thunkSeg.trans h.thunkSeg, h'.thunk.trans h.thunk⟩

theorem sameStatics_withMem (m : Machine σ) (mem : Mem UInt8) (s : Stub) :
    SameStatics m (m.withMem mem s) := ⟨rfl, rfl, rfl, rfl⟩

theorem sameStatics_inWorld (m : Machine σ) (s : σ) : SameStatics m { m with world := s } :=
  ⟨rfl, rfl, rfl, rfl⟩

theorem sameStatics_interrupts (m : Machine σ) (fs : List Frame) :
    SameStatics m (m.interrupts fs) := by
  obtain ⟨s, -, h⟩ := m.interrupts_eq fs
  rw [h]
  exact sameStatics_withMem m _ s

theorem sameStatics_int21 (irqs : CallIrqs) (rm : Rmcs) (m : Machine σ) :
    SameStatics m (int21 d irqs rm m).2 := by
  obtain ⟨mem, s, -, -, h⟩ := int21_eq d irqs rm m
  rw [h]
  exact ⟨rfl, rfl, rfl, rfl⟩

theorem sameStatics_dpmi0301 (irqs : CallIrqs) (rm : Rmcs) (m : Machine σ) :
    SameStatics m (dpmi0301CallShallow d irqs rm m).2 := by
  unfold dpmi0301CallShallow
  split
  · next s _ =>
      apply (sameStatics_inWorld m s).trans
      exact sameStatics_interrupts { m with world := s } irqs.enter
  · next s _ =>
      apply (sameStatics_inWorld m s).trans
      apply (sameStatics_interrupts { m with world := s } irqs.enter).trans
      exact sameStatics_int21 d irqs rm _

/-! ## Arming -/

/-- A thunk that counts as armed is at a linear address, in the segment allocated for it;
`main.c` keeps 16 bits of that segment. -/
structure ThunkInv (m : Machine σ) : Prop where
  linear : m.i21Thunk.ready = true → m.i21Thunk.linear ≠ 0
  seg : m.i21Thunk.ready = true → m.i21Thunk.seg = m.i21PreallocThunkSeg
  fits : m.i21PreallocThunkSeg < 0x10000

theorem SameStatics.thunkInv {m m' : Machine σ} (h : SameStatics m m') (hm : ThunkInv m) :
    ThunkInv m' where
  linear hready := by
    rw [h.thunk] at hready ⊢
    exact hm.linear hready
  seg hready := by
    rw [h.thunk] at hready ⊢
    rw [h.thunkSeg]
    exact hm.seg hready
  fits := by
    rw [h.thunkSeg]
    exact hm.fits

theorem armThunk_some {seg linear : Nat} {s : σ} {t : Int21Thunk}
    (h : armThunk d seg linear s = some t) :
    linear ≠ 0 ∧ d.readsBack linear s = true ∧ t = ⟨seg, linear, true, thunkCode⟩ := by
  unfold armThunk at h
  split at h
  · next hok => exact ⟨hok.1, hok.2, (Option.some.inj h).symm⟩
  · cases h

/-- What `dos_int21_thunk_init` does to a thunk that is not ready: it stays so, or it is
armed at an address that is not 0. -/
theorem thunkInit_of_not_ready (seg : Nat) {t : Int21Thunk} (ht : t.ready = false) (s : σ) :
    ∃ s', thunkInit d seg t s = (false, t, s') ∨
      ∃ linear, linear ≠ 0 ∧ thunkInit d seg t s = (true, ⟨seg, linear, true, thunkCode⟩, s') := by
  unfold thunkInit
  simp only [ht, Bool.false_eq_true, if_false]
  by_cases hseg : seg = 0
  · exact ⟨s, Or.inl (if_pos hseg)⟩
  · simp only [if_neg hseg]
    refine ⟨(linearDpmi d seg s).2, ?_⟩
    cases hdpmi : armThunk d seg (linearDpmi d seg s).1 (linearDpmi d seg s).2 with
    | some t' =>
        obtain ⟨hne, -, rfl⟩ := armThunk_some d hdpmi
        exact Or.inr ⟨_, hne, rfl⟩
    | none =>
        simp only
        by_cases hsame : seg <<< 4 = (linearDpmi d seg s).1
        · exact Or.inl (if_pos hsame)
        · simp only [if_neg hsame]
          cases hshift : armThunk d seg (seg <<< 4) (linearDpmi d seg s).2 with
          | some t' =>
              obtain ⟨hne, -, rfl⟩ := armThunk_some d hshift
              exact Or.inr ⟨_, hne, rfl⟩
          | none => exact Or.inl rfl

theorem dosInt21ThunkInit_cases (m : Machine σ) :
    (m.i21Thunk.ready = true ∧ dosInt21ThunkInit d m = (true, m)) ∨
    (m.i21Thunk.ready = false ∧ ∃ s, dosInt21ThunkInit d m = (false, { m with world := s })) ∨
    (m.i21Thunk.ready = false ∧ ∃ linear s, linear ≠ 0 ∧ dosInt21ThunkInit d m =
      (true, { m with
        i21Thunk := ⟨m.i21PreallocThunkSeg, linear, true, thunkCode⟩, world := s })) := by
  cases hready : m.i21Thunk.ready with
  | true =>
      refine Or.inl ⟨rfl, ?_⟩
      simp [dosInt21ThunkInit, thunkInit, hready]
  | false =>
      obtain ⟨s, hfail | ⟨linear, hne, harmed⟩⟩ :=
        thunkInit_of_not_ready d m.i21PreallocThunkSeg hready m.world
      · exact Or.inr (Or.inl ⟨rfl, s, by simp only [dosInt21ThunkInit, hfail]⟩)
      · exact Or.inr (Or.inr ⟨rfl, linear, s, hne, by simp only [dosInt21ThunkInit, harmed]⟩)

theorem dosInt21ThunkInit_fst (m : Machine σ) :
    (dosInt21ThunkInit d m).1 = (dosInt21ThunkInit d m).2.i21Thunk.ready := by
  rcases dosInt21ThunkInit_cases d m with ⟨hready, h⟩ | ⟨hready, s, h⟩ | ⟨-, linear, s, -, h⟩
  · rw [h, hready]
  · rw [h, hready]
  · rw [h]

theorem ThunkInv.arm {m : Machine σ} (hm : ThunkInv m) :
    ThunkInv (dosInt21ThunkInit d m).2 := by
  rcases dosInt21ThunkInit_cases d m with ⟨-, h⟩ | ⟨-, s, h⟩ | ⟨-, linear, s, hne, h⟩
  · rw [h]
    exact hm
  · rw [h]
    exact (sameStatics_inWorld m s).thunkInv hm
  · rw [h]
    exact ⟨fun _ => hne, fun _ => rfl, hm.fits⟩

/-! ## Through the gate -/

/-- The call enters real mode at the armed thunk and finds its three bytes there. -/
structure AtThunk (rm : Rmcs) (m : Machine σ) : Prop where
  ready : m.i21Thunk.ready = true
  linear : m.i21Thunk.linear ≠ 0
  seg : m.i21Thunk.seg = m.i21PreallocThunkSeg
  cs : rm.cs = m.i21Thunk.seg
  ip : rm.ip = 0
  code : m.i21Thunk.code = thunkCode

theorem repairThunk_eq {t : Int21Thunk} (h : t.linear ≠ 0) :
    repairThunk t = { t with code := thunkCode } := by
  unfold repairThunk
  by_cases hcode : t.code = thunkCode
  · rw [if_neg (fun hc => hc.2 hcode), ← hcode]
  · exact if_pos ⟨h, hcode⟩

theorem gate_eq_some {rm rm' : Rmcs} {m m' : Machine σ} (h : gate d rm m = some (rm', m')) :
    (dosInt21ThunkInit d m).2.i21Thunk.ready = true ∧
      rm' = entryRegs (dosInt21ThunkInit d m).2.i21Thunk (dosInt21ThunkInit d m).2.rmStackSeg
        (dosInt21ThunkInit d m).2.rmStackBytes rm ∧
      m' = { (dosInt21ThunkInit d m).2 with
        i21Thunk := repairThunk (dosInt21ThunkInit d m).2.i21Thunk } := by
  have hfst := dosInt21ThunkInit_fst d m
  unfold gate at h
  generalize dosInt21ThunkInit d m = r at h hfst ⊢
  obtain ⟨ok, m₁⟩ := r
  cases ok with
  | false => cases h
  | true =>
      simp only [Option.some.injEq, Prod.mk.injEq] at h
      exact ⟨hfst.symm, h.1.symm, h.2.symm⟩

theorem gate_eq_none {rm : Rmcs} {m : Machine σ} :
    gate d rm m = none ↔ (dosInt21ThunkInit d m).2.i21Thunk.ready = false := by
  have hfst := dosInt21ThunkInit_fst d m
  unfold gate
  generalize dosInt21ThunkInit d m = r at hfst ⊢
  obtain ⟨ok, m₁⟩ := r
  have hok : ok = m₁.i21Thunk.ready := hfst
  rw [← hok]
  cases ok <;> simp

/-- Whatever happened to the bytes of the thunk, a call goes through the gate at a good one. -/
theorem gate_atThunk {rm rm' : Rmcs} {m m' : Machine σ} (hm : ThunkInv m)
    (h : gate d rm m = some (rm', m')) : AtThunk rm' m' := by
  obtain ⟨hready, rfl, rfl⟩ := gate_eq_some d h
  have hinv := hm.arm d
  have hseg := hinv.seg hready
  rw [repairThunk_eq (hinv.linear hready)]
  refine ⟨hready, hinv.linear hready, hseg, ?_, rfl, rfl⟩
  show (dosInt21ThunkInit d m).2.i21Thunk.seg &&& 0xFFFF = (dosInt21ThunkInit d m).2.i21Thunk.seg
  rw [hseg, show (0xFFFF : Nat) = 2 ^ 16 - 1 from rfl, Nat.and_two_pow_sub_one_eq_mod]
  exact Nat.mod_eq_of_lt hinv.fits

theorem gate_thunkInv {rm rm' : Rmcs} {m m' : Machine σ} (hm : ThunkInv m)
    (h : gate d rm m = some (rm', m')) : ThunkInv m' := by
  have hat := gate_atThunk d hm h
  obtain ⟨-, -, rfl⟩ := gate_eq_some d h
  exact ⟨fun _ => hat.linear, fun _ => hat.seg, (hm.arm d).fits⟩

/-- After a call the thunk is ready exactly if the call went through the gate. -/
theorem ready_dosInt21Call (irqs : CallIrqs) (rm : Rmcs) (m : Machine σ) :
    (dosInt21Call d irqs rm m).2.i21Thunk.ready = (gate d rm m).isSome := by
  rw [dosInt21Call_eq_gate]
  cases h : gate d rm m with
  | none => exact (gate_eq_none d).mp h
  | some g =>
      obtain ⟨rm', m'⟩ := g
      have hsame := sameStatics_dpmi0301 d irqs rm' m'
      obtain ⟨hready, -, hg⟩ := gate_eq_some d h
      have hg' : m'.i21Thunk.ready = true := by
        rw [hg]
        unfold repairThunk
        split <;> exact hready
      simp only [hsame.thunk, hg', Option.isSome_some]

theorem ThunkInv.dosInt21Call {m : Machine σ} (hm : ThunkInv m) (irqs : CallIrqs) (rm : Rmcs) :
    ThunkInv (dosInt21Call d irqs rm m).2 := by
  rw [dosInt21Call_eq_gate]
  cases h : gate d rm m with
  | none => exact hm.arm d
  | some g => exact (sameStatics_dpmi0301 d irqs g.1 g.2).thunkInv (gate_thunkInv d hm h)

theorem dosInt21Call_of_not_ready (irqs : CallIrqs) (rm : Rmcs) {m : Machine σ}
    (h : (dosInt21Call d irqs rm m).2.i21Thunk.ready = false) :
    gate d rm m = none ∧ ∃ s, dosInt21Call d irqs rm m = (none, { m with world := s }) := by
  rw [ready_dosInt21Call, Option.isSome_eq_false_iff, Option.isNone_iff_eq_none] at h
  refine ⟨h, ?_⟩
  rw [dosInt21Call_eq_gate, h]
  have hready := (gate_eq_none d).mp h
  rcases dosInt21ThunkInit_cases d m with ⟨-, hinit⟩ | ⟨-, s, hinit⟩ | ⟨-, linear, s, -, hinit⟩
  · exact ⟨m.world, by rw [hinit]⟩
  · exact ⟨s, by rw [hinit]⟩
  · rw [hinit] at hready
    cases hready

/-! ## The services -/

/-- A service: it returns early, or it stages its operand, goes through the gate and looks
at the registers it gets back. -/
structure Service (σ α : Type) where
  irqs : CallIrqs
  early : Machine σ → Option (Except Nat α)
  regs : Machine σ → Rmcs
  stage : Machine σ → Machine σ
  finish : Rmcs → Machine σ → Except Nat α × Machine σ
  stage_eq : ∀ m, ∃ mem s, stage m = m.withMem mem s
  finish_eq : ∀ rm m, ∃ mem s, (finish rm m).2 = m.withMem mem s

namespace Service

variable {α : Type} (v : Service σ α)

def call (m : Machine σ) : Except Nat α × Machine σ :=
  match v.early m with
  | some r => (r, m)
  | none =>
      match dosInt21Call d v.irqs (v.regs m) (v.stage m) with
      | (none, m) => (.error 0, m)
      | (some rm, m) => v.finish rm m

def invocation (m : Machine σ) : Option (Rmcs × Machine σ) :=
  match v.early m with
  | some _ => none
  | none => gate d (v.regs m) (v.stage m)

theorem sameStatics_stage (m : Machine σ) : SameStatics m (v.stage m) := by
  obtain ⟨mem, s, h⟩ := v.stage_eq m
  rw [h]
  exact sameStatics_withMem m mem s

theorem sameStatics_finish (rm : Rmcs) (m : Machine σ) : SameStatics m (v.finish rm m).2 := by
  obtain ⟨mem, s, h⟩ := v.finish_eq rm m
  rw [h]
  exact sameStatics_withMem m mem s

theorem sameStatics_call {m : Machine σ} (h : v.early m = none) :
    SameStatics (dosInt21Call d v.irqs (v.regs m) (v.stage m)).2 (v.call d m).2 := by
  unfold call
  rw [h]
  generalize dosInt21Call d v.irqs (v.regs m) (v.stage m) = r
  obtain ⟨_ | rm, m₁⟩ := r
  · exact SameStatics.refl m₁
  · exact v.sameStatics_finish rm m₁

theorem thunkInv_call {m : Machine σ} (hm : ThunkInv m) : ThunkInv (v.call d m).2 := by
  cases h : v.early m with
  | some r =>
      unfold call
      rw [h]
      exact hm
  | none =>
      apply (v.sameStatics_call d h).thunkInv
      exact ((v.sameStatics_stage m).thunkInv hm).dosInt21Call d v.irqs (v.regs m)

theorem atThunk_of_mem {m : Machine σ} (hm : ThunkInv m) {g : Rmcs × Machine σ}
    (hg : g ∈ v.invocation d m) : AtThunk g.1 g.2 := by
  unfold invocation at hg
  split at hg
  · cases hg
  · exact gate_atThunk d ((v.sameStatics_stage m).thunkInv hm) hg

theorem ready_call {m : Machine σ} (h : m.i21Thunk.ready = true) :
    (v.call d m).2.i21Thunk.ready = true := by
  cases hearly : v.early m with
  | some r => simpa only [call, hearly] using h
  | none =>
      have hstage : (v.stage m).i21Thunk.ready = true := by rw [(v.sameStatics_stage m).thunk, h]
      rw [(v.sameStatics_call d hearly).thunk, ready_dosInt21Call, Option.isSome_iff_ne_none, ne_eq,
        gate_eq_none]
      rcases dosInt21ThunkInit_cases d (v.stage m) with ⟨-, h'⟩ | ⟨h', -⟩ | ⟨h', -⟩
      · rw [h', hstage]
        exact Bool.noConfusion
      · rw [hstage] at h'
        cases h'
      · rw [hstage] at h'
        cases h'

/-- A service that does not find the thunk armed and cannot arm it returns early or fails,
and does not go through the gate. -/
theorem call_of_not_ready {m : Machine σ} (h : (v.call d m).2.i21Thunk.ready = false) :
    v.invocation d m = none ∧ (v.call d m).2.calls = m.calls ∧
      (v.early m = some (v.call d m).1 ∨ (v.call d m).1 = .error 0) := by
  cases hearly : v.early m with
  | some r => simp [invocation, call, hearly]
  | none =>
      have hcall : (dosInt21Call d v.irqs (v.regs m) (v.stage m)).2.i21Thunk.ready = false := by
        rw [← (v.sameStatics_call d hearly).thunk]
        exact h
      obtain ⟨hgate, s, heq⟩ := dosInt21Call_of_not_ready d v.irqs (v.regs m) hcall
      have hcalls : (v.stage m).calls = m.calls := by
        obtain ⟨mem, stub, hstage⟩ := v.stage_eq m
        rw [hstage, Machine.withMem_calls]
      refine ⟨by simp only [invocation, hearly, hgate], ?_, ?_⟩
      · simp only [call, hearly, heq, hcalls]
      · simp only [call, hearly, heq, or_true]

end Service

theorem storeBounce_withMem (irqs : Nat → List Frame) (off : Nat) (bs : List UInt8)
    (m : Machine σ) : ∃ mem s, m.storeBounce irqs off 0 bs = m.withMem mem s := by
  obtain ⟨s, -, h⟩ := m.storeBounce_eq irqs off 0 bs
  exact ⟨_, s, h⟩

theorem self_withMem (m : Machine σ) : ∃ mem s, m = m.withMem mem s := ⟨m.bounce, m.stub, rfl⟩

/-- `dos_int21_open` and `dos_int21_creat` apart from their registers. -/
def pathService (irqs : CallIrqs) (path : CString) (regs : Machine σ → Rmcs) :
    Service σ Nat where
  irqs := irqs
  early m :=
    if bounceMissing m then some (.error 0)
    else if 1024 ≤ path.bytes.length then some (.error 0)
    else none
  regs := regs
  stage m := m.storeBounce irqs.copy 0 0 path.asciiz
  finish rm m := ((result (some rm)).map Rmcs.ax, m)
  stage_eq := storeBounce_withMem irqs.copy 0 path.asciiz
  finish_eq _ m := self_withMem m

theorem pathCall_eq_call (irqs : CallIrqs) (path : CString) (regs : Machine σ → Rmcs)
    (m : Machine σ) : pathCall d irqs path (regs m) m = (pathService irqs path regs).call d m := by
  unfold pathCall Service.call pathService
  dsimp only
  split
  · rfl
  · split
    · rfl
    · generalize dosInt21Call d irqs (regs m) (m.storeBounce irqs.copy 0 0 path.asciiz) = r
      obtain ⟨_ | rm, m₁⟩ := r <;> rfl

def readService (irqs : CallIrqs) (fd : Int) (count : Nat) : Service σ (List UInt8) where
  irqs := irqs
  early m :=
    if bounceMissing m then some (.error 0)
    else if count = 0 then some (.ok [])
    else none
  regs m := transferRegs m 0x3F fd (min count DOS_BOUNCE_DATA_MAX)
  stage m := m
  finish rm m :=
    match result (some rm) with
    | .error e => (.error e, m)
    | .ok rm =>
        let (bs, m) := m.loadBounce irqs.out DOS_BOUNCE_DATA_OFFSET 0
          (min rm.ax (min count DOS_BOUNCE_DATA_MAX))
        (.ok bs, m)
  stage_eq m := self_withMem m
  finish_eq rm m := by
    generalize result (some rm) = r
    cases r with
    | error e => exact self_withMem m
    | ok rm =>
        obtain ⟨s, -, h⟩ := m.loadBounce_eq irqs.out DOS_BOUNCE_DATA_OFFSET 0
          (min rm.ax (min count DOS_BOUNCE_DATA_MAX))
        exact ⟨_, s, congrArg Prod.snd h⟩

theorem dosInt21Read_eq_call (irqs : CallIrqs) (fd : Int) (count : Nat) (m : Machine σ) :
    dosInt21Read d irqs fd count m = (readService irqs fd count).call d m := by
  unfold dosInt21Read Service.call readService
  dsimp only
  split
  · rfl
  · split
    · rfl
    · generalize dosInt21Call d irqs (transferRegs m 0x3F fd (min count DOS_BOUNCE_DATA_MAX)) m = r
      obtain ⟨_ | rm, m₁⟩ := r <;> rfl

def writeService (irqs : CallIrqs) (fd : Int) (buf : List UInt8) : Service σ Nat where
  irqs := irqs
  early m :=
    if bounceMissing m then some (.error 0)
    else if buf = [] then some (.ok 0)
    else none
  regs m :=
    transferRegs (m.storeBounce irqs.copy DOS_BOUNCE_DATA_OFFSET 0 (buf.take DOS_BOUNCE_DATA_MAX))
      0x40 fd (buf.take DOS_BOUNCE_DATA_MAX).length
  stage m := m.storeBounce irqs.copy DOS_BOUNCE_DATA_OFFSET 0 (buf.take DOS_BOUNCE_DATA_MAX)
  finish rm m := ((result (some rm)).map Rmcs.ax, m)
  stage_eq := storeBounce_withMem irqs.copy DOS_BOUNCE_DATA_OFFSET (buf.take DOS_BOUNCE_DATA_MAX)
  finish_eq _ m := self_withMem m

theorem dosInt21Write_eq_call (irqs : CallIrqs) (fd : Int) (buf : List UInt8) (m : Machine σ) :
    dosInt21Write d irqs fd buf m = (writeService irqs fd buf).call d m := by
  unfold dosInt21Write Service.call writeService
  dsimp only
  split
  · rfl
  · split
    · rfl
    · generalize dosInt21Call d irqs _ (m.storeBounce irqs.copy DOS_BOUNCE_DATA_OFFSET 0 _) = r
      obtain ⟨_ | rm, m₁⟩ := r <;> rfl

def closeService (irqs : CallIrqs) (fd : Int) : Service σ Unit where
  irqs := irqs
  early _ := none
  regs _ := { eax := 0x3E00, ebx := toU32 fd }
  stage m := m
  finish rm m := ((result (some rm)).map fun _ => (), m)
  stage_eq m := self_withMem m
  finish_eq _ m := self_withMem m

theorem dosInt21Close_eq_call (irqs : CallIrqs) (fd : Int) (m : Machine σ) :
    dosInt21Close d irqs fd m = (closeService irqs fd).call d m := by
  unfold dosInt21Close Service.call closeService
  dsimp only
  generalize dosInt21Call d irqs { eax := 0x3E00, ebx := toU32 fd } m = r
  obtain ⟨_ | rm, m₁⟩ := r <;> rfl

def lseekService (irqs : CallIrqs) (fd : Int) (offset : Int) (whence : Nat) : Service σ Int where
  irqs := irqs
  early _ := none
  regs _ :=
    { eax := 0x4200 ||| (whence &&& 0xFF)
      ebx := toU32 fd
      ecx := (toU32 offset >>> 16) &&& 0xFFFF
      edx := toU32 offset &&& 0xFFFF }
  stage m := m
  finish rm m :=
    ((result (some rm)).map fun rm =>
      toLong (((rm.edx &&& 0xFFFF) <<< 16) ||| (rm.eax &&& 0xFFFF)), m)
  stage_eq m := self_withMem m
  finish_eq _ m := self_withMem m

theorem dosInt21Lseek_eq_call (irqs : CallIrqs) (fd : Int) (offset : Int) (whence : Nat)
    (m : Machine σ) :
    dosInt21Lseek d irqs fd offset whence m = (lseekService irqs fd offset whence).call d m := by
  unfold dosInt21Lseek Service.call lseekService
  dsimp only
  generalize dosInt21Call d irqs _ m = r
  obtain ⟨_ | rm, m₁⟩ := r <;> rfl

end FreedosMicroPython.Dos.Gate
