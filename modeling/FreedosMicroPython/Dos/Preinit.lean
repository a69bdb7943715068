import FreedosMicroPython.Dos.Gate
/-!
# Finding the bounce and the thunk at start-up

`dos_int21_thunk_preinit` turns two real-mode segments into pointers. DPMI reports
absolute linear addresses, and a pointer is an offset in the flat segment of the client:
`absolute` is where a pointer leads. `dos_bounce_resolve` takes the base of that segment
into account, `dos_int21_thunk_init` does not.
-/

namespace FreedosMicroPython.Dos.Preinit

open FreedosMicroPython.Lib.Memory
open FreedosMicroPython.Host FreedosMicroPython.Dos.Int21 FreedosMicroPython.Dos.Gate

/-! ## Addresses -/

/-- Where the offset `p` in a flat segment with this base leads. -/
def absolute (base p : Nat) : Nat := (base + p) % 0x100000000

theorem absolute_sub {base addr : Nat} (h : base ≤ addr) (haddr : addr < 0x100000000) :
    absolute base (addr - base) = addr :=
  calc
    (base + (addr - base)) % 0x100000000 = addr % 0x100000000 := by rw [Nat.add_sub_cancel' h]
    _ = addr := Nat.mod_eq_of_lt haddr

/-- An absolute address used as an offset leads to itself only from base 0. -/
theorem absolute_eq_self_iff {base addr : Nat} (hbase : base < 0x100000000)
    (haddr : addr < 0x100000000) : absolute base addr = addr ↔ base = 0 := by
  unfold absolute
  omega

def linearWord (cx dx : Nat) : Nat := ((cx &&& 0xFFFF) <<< 16) ||| (dx &&& 0xFFFF)

theorem linearWord_eq (cx dx : Nat) :
    linearWord cx dx = cx % 0x10000 * 0x10000 + dx % 0x10000 := by
  have hmask : ∀ x, x &&& 0xFFFF = x % 0x10000 := fun x => Nat.and_two_pow_sub_one_eq_mod x 16
  have hlow : dx % 0x10000 < 2 ^ 16 := Nat.mod_lt dx (by omega)
  calc
    linearWord cx dx = (cx % 0x10000) <<< 16 ||| dx % 0x10000 := by
      rw [linearWord, hmask, hmask]
    _ = (cx % 0x10000) <<< 16 + dx % 0x10000 :=
      (Nat.shiftLeft_add_eq_or_of_lt hlow (cx % 0x10000)).symm
    _ = cx % 0x10000 * 0x10000 + dx % 0x10000 := by
      rw [Nat.shiftLeft_eq]

theorem linearWord_lt (cx dx : Nat) : linearWord cx dx < 0x100000000 := by
  rw [linearWord_eq]
  omega

/-! ## The client -/

/-- What the start-up asks for beyond the calls of `World`. -/
structure Client (σ : Type) extends World σ where
  /-- `dos_get_ds_selector`. -/
  dsSelector : Nat
  /-- The segment of so many paragraphs of DOS memory, unless the carry flag is set. -/
  dpmi0100 : Nat → σ → Option Nat × σ
  /-- The current directory, which service 47h stores at `DS:SI`. -/
  curDir : σ → List UInt8

variable {σ : Type} (c : Client σ)

def dosClientBase (s : σ) : Nat × σ :=
  match c.dpmi0006 c.dsSelector s with
  | (none, s) => (0, s)
  | (some (cx, dx), s) => (linearWord cx dx, s)

/-- `dos_bounce_resolve`: whether it returns 0, and the machine after it. -/
def dosBounceResolve (m : Machine σ) : Bool × Machine σ :=
  let seg := m.preallocBounceSeg
  if seg = 0 then (false, m)
  else
    let linearShift := seg <<< 4
    let (linearDpmi, s) := linearDpmi c.toWorld seg m.world
    let chosen := if linearDpmi ≠ 0 then linearDpmi else linearShift
    let (base, s) := dosClientBase c s
    let m := { m with world := s }
    if base ≠ 0 ∧ chosen < base then (false, m)
    else
      let chosen := if base ≠ 0 then chosen - base else chosen
      if c.readsBack chosen s then
        (true, { m with
          preallocBounceLinear := chosen, bounce := blit m.bounce 0 [0x55, 0xAA] })
      else (false, m)

def stackParas : List Nat := [256, 128, 64, 32]

/-- The real-mode stack: the first of these sizes that DPMI grants. -/
def rmStackAlloc : List Nat → Machine σ → Machine σ
  | [], m => m
  | paras :: rest, m =>
      match c.dpmi0100 paras m.world with
      | (some ax, s) =>
          { m with rmStackSeg := ax &&& 0xFFFF, rmStackBytes := paras * 16, world := s }
      | (none, s) => rmStackAlloc rest { m with world := s }

def probeRegs (m : Machine σ) : Rmcs :=
  { eax := 0x4700, edx := 0, ds := m.preallocBounceSeg &&& 0xFFFF, esi := 0 }

/-- The mapping proof: poison the bounce and have DOS store its current directory there. -/
def mapProbe (irqs : CallIrqs) (m : Machine σ) : Machine σ :=
  let m := m.storeBounce irqs.copy 0 0 (List.replicate 8 0xEE)
  match dosInt21Call c.toWorld irqs (probeRegs m) m with
  | (none, m) => m
  | (some rm, m) =>
      if rm.carry then m else { m with bounce := blit m.bounce 0 (c.curDir m.world) }

def dosInt21ThunkPreinit (irqs : CallIrqs) (m : Machine σ) : Machine σ :=
  let (_, m) := dosBounceResolve c m
  let m := rmStackAlloc c stackParas m
  match dosInt21ThunkInit c.toWorld m with
  | (false, m) => m
  | (true, m) =>
      if m.preallocBounceLinear ≠ 0 ∧ m.i21Thunk.ready then mapProbe c irqs m else m

/-! ## What the start-up leaves alone -/

theorem sameStatics_rmStackAlloc (sizes : List Nat) (m : Machine σ) :
    SameStatics m (rmStackAlloc c sizes m) := by
  induction sizes generalizing m with
  | nil => exact SameStatics.refl m
  | cons paras rest ih =>
      unfold rmStackAlloc
      split
      · exact ⟨rfl, rfl, rfl, rfl⟩
      · next s _ => exact (sameStatics_inWorld m s).trans (ih { m with world := s })

/-- The address `dos_bounce_resolve` starts from: the one DPMI reports, unless that is 0. -/
def bounceChosen (m : Machine σ) : Nat :=
  if (linearDpmi c.toWorld m.preallocBounceSeg m.world).1 ≠ 0 then
    (linearDpmi c.toWorld m.preallocBounceSeg m.world).1
  else m.preallocBounceSeg <<< 4

/-- The base of the client's segment, as `dos_bounce_resolve` asks for it. -/
def bounceBase (m : Machine σ) : Nat × σ :=
  dosClientBase c (linearDpmi c.toWorld m.preallocBounceSeg m.world).2

def rebased (m : Machine σ) : Nat :=
  if (bounceBase c m).1 ≠ 0 then bounceChosen c m - (bounceBase c m).1 else bounceChosen c m

theorem rebased_eq (m : Machine σ) : rebased c m = bounceChosen c m - (bounceBase c m).1 := by
  unfold rebased
  split
  · rfl
  · omega

theorem dosBounceResolve_cases (m : Machine σ) :
    (∃ s, dosBounceResolve c m = (false, { m with world := s })) ∨
    ((bounceBase c m).1 ≤ bounceChosen c m ∧ m.preallocBounceSeg ≠ 0 ∧ dosBounceResolve c m =
      (true, { m with
        preallocBounceLinear := rebased c m
        bounce := blit m.bounce 0 [0x55, 0xAA]
        world := (bounceBase c m).2 })) := by
  have heq : dosBounceResolve c m =
      if m.preallocBounceSeg = 0 then (false, m)
      else if (bounceBase c m).1 ≠ 0 ∧ bounceChosen c m < (bounceBase c m).1 then
        (false, { m with world := (bounceBase c m).2 })
      else if c.readsBack (rebased c m) (bounceBase c m).2 then
        (true, { m with
          preallocBounceLinear := rebased c m
          bounce := blit m.bounce 0 [0x55, 0xAA]
          world := (bounceBase c m).2 })
      else (false, { m with world := (bounceBase c m).2 }) := rfl
  rw [heq]
  by_cases hseg : m.preallocBounceSeg = 0
  · exact Or.inl ⟨m.world, if_pos hseg⟩
  · rw [if_neg hseg]
    by_cases hbelow : (bounceBase c m).1 ≠ 0 ∧ bounceChosen c m < (bounceBase c m).1
    · exact Or.inl ⟨_, if_pos hbelow⟩
    · rw [if_neg hbelow]
      by_cases hback : c.readsBack (rebased c m) (bounceBase c m).2 = true
      · refine Or.inr ⟨by omega, hseg, ?_⟩
        rw [if_pos hback]
      · exact Or.inl ⟨_, if_neg hback⟩

theorem dosBounceResolve_thunk (m : Machine σ) :
    (dosBounceResolve c m).2.i21Thunk = m.i21Thunk ∧
      (dosBounceResolve c m).2.i21PreallocThunkSeg = m.i21PreallocThunkSeg := by
  rcases dosBounceResolve_cases c m with ⟨s, h⟩ | ⟨-, -, h⟩ <;> rw [h] <;> exact ⟨rfl, rfl⟩

def beforeArming (m : Machine σ) : Machine σ := rmStackAlloc c stackParas (dosBounceResolve c m).2

theorem beforeArming_thunk (m : Machine σ) :
    (beforeArming c m).i21Thunk = m.i21Thunk ∧
      (beforeArming c m).i21PreallocThunkSeg = m.i21PreallocThunkSeg ∧
      (beforeArming c m).preallocBounceLinear = (dosBounceResolve c m).2.preallocBounceLinear := by
  have hsame := sameStatics_rmStackAlloc c stackParas (dosBounceResolve c m).2
  obtain ⟨hthunk, hseg⟩ := dosBounceResolve_thunk c m
  exact ⟨hsame.thunk.trans hthunk, hsame.thunkSeg.trans hseg, hsame.bounceLinear⟩

theorem dosInt21Call_pointers (d : World σ) (irqs : CallIrqs) (rm : Rmcs) {m : Machine σ}
    (h : m.i21Thunk.ready = true) :
    (dosInt21Call d irqs rm m).2.preallocBounceLinear = m.preallocBounceLinear ∧
      (dosInt21Call d irqs rm m).2.i21Thunk.linear = m.i21Thunk.linear := by
  have hinit : dosInt21ThunkInit d m = (true, m) := by
    simp [dosInt21ThunkInit, thunkInit, h]
  have hsame := sameStatics_dpmi0301 d irqs
    (entryRegs m.i21Thunk m.rmStackSeg m.rmStackBytes rm)
    { m with i21Thunk := repairThunk m.i21Thunk }
  simp only [dosInt21Call, hinit]
  refine ⟨hsame.bounceLinear, ?_⟩
  rw [hsame.thunk]
  show (repairThunk m.i21Thunk).linear = m.i21Thunk.linear
  unfold repairThunk
  split <;> rfl

/-- The mapping proof has the shape of a service. -/
def probeService (irqs : CallIrqs) : Service σ Unit where
  irqs := irqs
  early _ := none
  regs m := probeRegs (m.storeBounce irqs.copy 0 0 (List.replicate 8 0xEE))
  stage m := m.storeBounce irqs.copy 0 0 (List.replicate 8 0xEE)
  finish rm m :=
    (.ok (), if rm.carry then m else { m with bounce := blit m.bounce 0 (c.curDir m.world) })
  stage_eq := storeBounce_withMem irqs.copy 0 (List.replicate 8 0xEE)
  finish_eq rm m := by
    by_cases hcarry : rm.carry
    · simp only [hcarry, if_true]
      exact self_withMem m
    · simp only [hcarry, Bool.false_eq_true, if_false]
      exact ⟨blit m.bounce 0 (c.curDir m.world), m.stub, rfl⟩

theorem mapProbe_eq_call (irqs : CallIrqs) (m : Machine σ) :
    mapProbe c irqs m = ((probeService c irqs).call c.toWorld m).2 := by
  unfold mapProbe Service.call probeService
  dsimp only
  generalize dosInt21Call c.toWorld irqs _ (m.storeBounce irqs.copy 0 0 _) = r
  obtain ⟨_ | rm, m₁⟩ := r <;> rfl

theorem mapProbe_pointers (irqs : CallIrqs) {m : Machine σ} (h : m.i21Thunk.ready = true) :
    (mapProbe c irqs m).preallocBounceLinear = m.preallocBounceLinear ∧
      (mapProbe c irqs m).i21Thunk.linear = m.i21Thunk.linear := by
  have hstage := (probeService c irqs).sameStatics_stage m
  have hsame := (probeService c irqs).sameStatics_call c.toWorld
    (show (probeService c irqs).early m = none from rfl)
  obtain ⟨hbounce, hthunk⟩ := dosInt21Call_pointers c.toWorld irqs ((probeService c irqs).regs m)
    (show ((probeService c irqs).stage m).i21Thunk.ready = true by rw [hstage.thunk, h])
  rw [mapProbe_eq_call]
  constructor
  · calc
      ((probeService c irqs).call c.toWorld m).2.preallocBounceLinear
      _ = (dosInt21Call c.toWorld irqs _ _).2.preallocBounceLinear := hsame.bounceLinear
      _ = ((probeService c irqs).stage m).preallocBounceLinear := hbounce
      _ = m.preallocBounceLinear := hstage.bounceLinear
  · rw [hsame.thunk, ← hstage.thunk]
    exact hthunk

theorem preinit_pointers (irqs : CallIrqs) (m : Machine σ)
    (h : (dosInt21ThunkPreinit c irqs m).i21Thunk.ready = true) :
    (dosInt21ThunkInit c.toWorld (beforeArming c m)).2.i21Thunk.ready = true ∧
      (dosInt21ThunkPreinit c irqs m).preallocBounceLinear =
        (dosBounceResolve c m).2.preallocBounceLinear ∧
      (dosInt21ThunkPreinit c irqs m).i21Thunk.linear =
        (dosInt21ThunkInit c.toWorld (beforeArming c m)).2.i21Thunk.linear := by
  have heq : dosInt21ThunkPreinit c irqs m =
      match dosInt21ThunkInit c.toWorld (beforeArming c m) with
      | (false, m) => m
      | (true, m) =>
          if m.preallocBounceLinear ≠ 0 ∧ m.i21Thunk.ready then mapProbe c irqs m else m := rfl
  have hok := dosInt21ThunkInit_fst c.toWorld (beforeArming c m)
  have hbounce : (dosInt21ThunkInit c.toWorld (beforeArming c m)).2.preallocBounceLinear =
      (dosBounceResolve c m).2.preallocBounceLinear := by
    rw [← (beforeArming_thunk c m).2.2]
    rcases dosInt21ThunkInit_cases c.toWorld (beforeArming c m) with
      ⟨-, hinit⟩ | ⟨-, s, hinit⟩ | ⟨-, linear, s, -, hinit⟩ <;> rw [hinit]
  rw [heq] at h ⊢
  rw [← hbounce]
  generalize dosInt21ThunkInit c.toWorld (beforeArming c m) = r at h hok ⊢
  obtain ⟨_ | _, m₁⟩ := r
  · exact ⟨h, rfl, rfl⟩
  · dsimp only at hok ⊢
    refine ⟨hok.symm, ?_⟩
    by_cases hprobe : m₁.preallocBounceLinear ≠ 0 ∧ m₁.i21Thunk.ready = true
    · rw [if_pos hprobe]
      exact mapProbe_pointers c irqs hprobe.2
    · rw [if_neg hprobe]
      exact ⟨rfl, rfl⟩

/-! ## Where the pointers lead -/

/-- DPMI calls 0002h and 0006h succeed and report the base `base` for the client and the
address `lin seg` for a real-mode segment. -/
structure Reports (base : Nat) (lin : Nat → Nat) : Prop where
  client : ∀ s, ∃ cx dx s', c.dpmi0006 c.dsSelector s = (some (cx, dx), s') ∧
    linearWord cx dx = base
  segment : ∀ seg s, seg < 0x10000 → ∃ ax s₁ cx dx s₂, c.dpmi0002 seg s = (some ax, s₁) ∧
    c.dpmi0006 (ax &&& 0xFFFF) s₁ = (some (cx, dx), s₂) ∧ linearWord cx dx = lin seg

/-- The state of the host when `dos_int21_thunk_init` has its first candidate address. -/
def armingWorld (m : Machine σ) : σ :=
  (linearDpmi c.toWorld m.i21PreallocThunkSeg (beforeArming c m).world).2

section

variable {c} {base : Nat} {lin : Nat → Nat} (hreports : Reports c base lin)

include hreports

theorem Reports.dosClientBase_fst (s : σ) : (dosClientBase c s).1 = base := by
  obtain ⟨cx, dx, s', hcall, hword⟩ := hreports.client s
  rw [dosClientBase, hcall]
  exact hword

theorem Reports.base_lt (s : σ) : base < 0x100000000 := by
  obtain ⟨cx, dx, s', -, hword⟩ := hreports.client s
  rw [← hword]
  exact linearWord_lt cx dx

theorem Reports.linearDpmi_fst {seg : Nat} (hseg : seg < 0x10000) (s : σ) :
    (linearDpmi c.toWorld seg s).1 = lin seg := by
  obtain ⟨ax, s₁, cx, dx, s₂, hdesc, hbase, hword⟩ := hreports.segment seg s hseg
  simp only [linearDpmi, hdesc, hbase]
  exact hword

theorem Reports.lin_lt {seg : Nat} (hseg : seg < 0x10000) (s : σ) : lin seg < 0x100000000 := by
  obtain ⟨ax, s₁, cx, dx, s₂, -, -, hword⟩ := hreports.segment seg s hseg
  rw [← hword]
  exact linearWord_lt cx dx

/-- The bounce pointer leads to the bounce unless DPMI puts that at address 0. -/
theorem Reports.bounce_aliases_iff {m : Machine σ} (hseg : m.preallocBounceSeg < 0x10000)
    (hok : (dosBounceResolve c m).1 = true) :
    absolute base (dosBounceResolve c m).2.preallocBounceLinear = lin m.preallocBounceSeg ↔
      lin m.preallocBounceSeg ≠ 0 := by
  have hlin := hreports.lin_lt hseg m.world
  rcases dosBounceResolve_cases c m with ⟨s, h⟩ | ⟨hle, hne, h⟩
  · rw [h] at hok
    cases hok
  · have hbase : (bounceBase c m).1 = base := hreports.dosClientBase_fst _
    have hchosen : bounceChosen c m =
        if lin m.preallocBounceSeg ≠ 0 then lin m.preallocBounceSeg
        else m.preallocBounceSeg * 16 := by
      rw [bounceChosen, hreports.linearDpmi_fst hseg, Nat.shiftLeft_eq]
    rw [h, rebased_eq]
    dsimp only
    rw [hbase] at hle ⊢
    by_cases hzero : lin m.preallocBounceSeg = 0
    · rw [hchosen, if_neg (not_not_intro hzero)] at hle ⊢
      rw [absolute_sub hle (by omega), hzero]
      omega
    · rw [hchosen, if_pos hzero] at hle ⊢
      exact iff_of_true (absolute_sub hle hlin) hzero

end

theorem thunkInit_linear (d : World σ) {seg : Nat} {t : Int21Thunk} (ht : t.ready = false) {s : σ}
    (h : (thunkInit d seg t s).2.1.ready = true) :
    (thunkInit d seg t s).2.1.linear =
      if (linearDpmi d seg s).1 ≠ 0 ∧ d.readsBack (linearDpmi d seg s).1 (linearDpmi d seg s).2
      then (linearDpmi d seg s).1 else seg <<< 4 := by
  unfold thunkInit at h ⊢
  simp only [ht, Bool.false_eq_true, if_false] at h ⊢
  by_cases hseg : seg = 0
  · rw [if_pos hseg, ht] at h
    cases h
  · simp only [if_neg hseg] at h ⊢
    by_cases hdpmi : (linearDpmi d seg s).1 ≠ 0 ∧
        d.readsBack (linearDpmi d seg s).1 (linearDpmi d seg s).2
    · simp only [armThunk, if_pos hdpmi]
    · simp only [armThunk, if_neg hdpmi] at h ⊢
      by_cases hsame : seg <<< 4 = (linearDpmi d seg s).1
      · rw [if_pos hsame, ht] at h
        cases h
      · rw [if_neg hsame] at h ⊢
        by_cases hshift : seg <<< 4 ≠ 0 ∧ d.readsBack (seg <<< 4) (linearDpmi d seg s).2
        · rw [if_pos hshift]
        · rw [if_neg hshift, ht] at h
          cases h

/-- The thunk pointer leads to the thunk in two cases: the address DPMI reports was taken
as it is and the base is 0, or the identity mapping was, and is right from this base. -/
theorem Reports.thunk_aliases_iff {base : Nat} {lin : Nat → Nat} (hreports : Reports c base lin)
    {m : Machine σ} (hseg : m.i21PreallocThunkSeg < 0x10000) (hready : m.i21Thunk.ready = false)
    (harmed : (dosInt21ThunkInit c.toWorld (beforeArming c m)).2.i21Thunk.ready = true) :
    absolute base (dosInt21ThunkInit c.toWorld (beforeArming c m)).2.i21Thunk.linear =
        lin m.i21PreallocThunkSeg ↔
      if lin m.i21PreallocThunkSeg ≠ 0 ∧
        c.readsBack (lin m.i21PreallocThunkSeg) (armingWorld c m)
      then base = 0
      else absolute base (m.i21PreallocThunkSeg <<< 4) = lin m.i21PreallocThunkSeg := by
  obtain ⟨hthunk, hthunkSeg, -⟩ := beforeArming_thunk c m
  have hlinear : (dosInt21ThunkInit c.toWorld (beforeArming c m)).2.i21Thunk.linear = _ :=
    thunkInit_linear c.toWorld (hthunk ▸ hready) harmed
  rw [hthunkSeg, hreports.linearDpmi_fst hseg] at hlinear
  have hbase := hreports.base_lt m.world
  have hlin := hreports.lin_lt hseg m.world
  rw [hlinear, armingWorld]
  split
  · exact absolute_eq_self_iff hbase hlin
  · exact Iff.rfl

/-- When the start-up ends with the bounce resolved and the thunk armed, both pointers lead
to their paragraphs exactly under this condition on the host. -/
theorem preinit_aliases_iff {base : Nat} {lin : Nat → Nat} (hreports : Reports c base lin)
    (irqs : CallIrqs) {m : Machine σ} (hready : m.i21Thunk.ready = false)
    (hbounceSeg : m.preallocBounceSeg < 0x10000) (hthunkSeg : m.i21PreallocThunkSeg < 0x10000)
    (hresolved : (dosBounceResolve c m).1 = true)
    (harmed : (dosInt21ThunkPreinit c irqs m).i21Thunk.ready = true) :
    (absolute base (dosInt21ThunkPreinit c irqs m).preallocBounceLinear =
        lin m.preallocBounceSeg ∧
      absolute base (dosInt21ThunkPreinit c irqs m).i21Thunk.linear =
        lin m.i21PreallocThunkSeg) ↔
      lin m.preallocBounceSeg ≠ 0 ∧
        if lin m.i21PreallocThunkSeg ≠ 0 ∧
          c.readsBack (lin m.i21PreallocThunkSeg) (armingWorld c m)
        then base = 0
        else absolute base (m.i21PreallocThunkSeg <<< 4) = lin m.i21PreallocThunkSeg := by
  obtain ⟨hinit, hbounce, hthunk⟩ := preinit_pointers c irqs m harmed
  rw [hbounce, hthunk, hreports.bounce_aliases_iff hbounceSeg hresolved,
    hreports.thunk_aliases_iff c hthunkSeg hready hinit]

/-- A host that maps DOS memory to itself and has one descriptor, for the segment asked for
last; the client's flat segment starts at `base`. -/
def identityHost (base : Nat) : Client Nat where
  dpmi0002 seg _ := (some 8, seg)
  dpmi0006 sel seg :=
    let addr := if sel = 8 then seg * 16 else base
    (some (addr / 0x10000, addr), seg)
  readsBack _ _ := true
  dpmi0301 _ s := (false, s)
  int21 _ _ s := (⟨{}, []⟩, s)
  stored_le _ _ _ := Nat.zero_le _
  stored_ax _ _ _ _ _ := rfl
  dsSelector := 16
  dpmi0100 _ s := (some 0x3089, s)
  curDir _ := [0]

theorem identityHost_reports {base : Nat} (h : base < 0x100000000) :
    Reports (identityHost base) base (· * 16) := by
  have hword : ∀ addr, addr < 0x100000000 → linearWord (addr / 0x10000) addr = addr := by
    intro addr haddr
    rw [linearWord_eq]
    omega
  constructor
  · intro s
    exact ⟨_, _, s, rfl, hword base h⟩
  · intro seg s hseg
    exact ⟨8, seg, _, _, seg, rfl, rfl, hword (seg * 16) (by omega)⟩

def starting : Machine Nat :=
  { booted 0 with i21Thunk := ⟨0, 0, false, [0, 0, 0]⟩, rmStackSeg := 0, rmStackBytes := 0 }

theorem preinit_aliases_identity :
    absolute 0 (dosInt21ThunkPreinit (identityHost 0) quietCall starting).preallocBounceLinear =
        0x3003 * 16 ∧
      absolute 0 (dosInt21ThunkPreinit (identityHost 0) quietCall starting).i21Thunk.linear =
        0x3088 * 16 :=
  (preinit_aliases_iff (identityHost 0) (identityHost_reports (by decide)) quietCall
    (m := starting) rfl (by decide) (by decide) (by decide) (by decide)).mpr
      ⟨by decide, by decide⟩

/-- A client that starts at 1000h writes its thunk 1000h bytes above the paragraph. -/
theorem preinit_misses_thunk :
    Reports (identityHost 0x1000) 0x1000 (· * 16) ∧
      (dosBounceResolve (identityHost 0x1000) starting).1 = true ∧
      (dosInt21ThunkPreinit (identityHost 0x1000) quietCall starting).i21Thunk.ready = true ∧
      absolute 0x1000
        (dosInt21ThunkPreinit (identityHost 0x1000) quietCall starting).i21Thunk.linear ≠
          starting.i21PreallocThunkSeg * 16 :=
  ⟨identityHost_reports (by decide), by decide, by decide, by decide⟩

end FreedosMicroPython.Dos.Preinit
