import FreedosMicroPython.Dos.Calls
import FreedosMicroPython.Dos.Disk
/-!
# One DOS call, from the port's side

`Performs` says that a call of `dosint21_uc386dos.c` has the effect of one
service: what passes through the bounce paragraph and the registers is exactly
the operand, the bytes and the number of the service. The second half says what
a service does under each outcome.
-/

namespace FreedosMicroPython.Dos.Syscall

open FreedosMicroPython.Lib.Memory FreedosMicroPython.Lib.Traffic FreedosMicroPython.Lib.Files
open FreedosMicroPython.Host
open FreedosMicroPython.Dos.Int21 FreedosMicroPython.Dos.Calls FreedosMicroPython.Dos.Disk

variable {κ : Type} [DecidableEq κ] (gap : Nat → UInt8) (resolve : List UInt8 → κ)

/-! ## Calls as services -/

/-- What the port sees of a service: 0 when the call is refused, else the result,
an error cut to `AX`. -/
def syscall {β : Type} (f : Answer → Lib.Files.Disk κ UInt8 → Except Nat β × Lib.Files.Disk κ UInt8)
    (w : DosState κ) : Except Nat β × DosState κ :=
  match w.script with
  | .refused :: rest => (.error 0, { w with script := rest })
  | _ => ((f w.answer w.disk).1.mapError (· % 0x10000), ⟨(f w.answer w.disk).2, w.script.tail⟩)

/-- `seekFile` with the position as the `long` that the port makes of it. -/
def seekLong (fd : Nat) (offset : Int) (whence : Nat) (a : Answer)
    (d : Lib.Files.Disk κ UInt8) : Except Nat Int × Lib.Files.Disk κ UInt8 :=
  ((seekFile fd offset whence a d).1.map fun x => toLong x, (seekFile fd offset whence a d).2)

/-- The machine can make DOS calls: the thunk is armed or has a paragraph to be
armed in, and the bounce is there. -/
structure CanCall (m : Machine (DosState κ)) : Prop where
  thunk : m.i21Thunk.ready = true ∨ m.i21PreallocThunkSeg ≠ 0
  bounce : bounceMissing m = false

/-- A call has the effect of one service, and the next call can be made. -/
structure Performs {β : Type}
    (f : Answer → Lib.Files.Disk κ UInt8 → Except Nat β × Lib.Files.Disk κ UInt8)
    (m : Machine (DosState κ)) (call : Except Nat β × Machine (DosState κ)) : Prop where
  result : call.1 = (syscall f m.world).1
  world : call.2.world = (syscall f m.world).2
  canCall : CanCall call.2

variable {m : Machine (DosState κ)}

theorem ready_repairThunk {t : Int21Thunk} (h : t.ready = true) :
    (repairThunk t).ready = true := by
  unfold repairThunk
  split <;> exact h

theorem thunkInit_dosWorld (hm : CanCall m) :
    ∃ t, t.ready = true ∧
      thunkInit (dosWorld gap resolve) m.i21PreallocThunkSeg m.i21Thunk m.world =
        (true, t, m.world) := by
  by_cases hready : m.i21Thunk.ready = true
  · exact ⟨m.i21Thunk, hready, by simp [thunkInit, hready]⟩
  · have hseg : m.i21PreallocThunkSeg ≠ 0 := hm.thunk.resolve_left hready
    have hshift : m.i21PreallocThunkSeg <<< 4 ≠ 0 := by
      rw [Nat.shiftLeft_eq]
      omega
    refine ⟨⟨m.i21PreallocThunkSeg, m.i21PreallocThunkSeg <<< 4, true, thunkCode⟩, rfl, ?_⟩
    simp [thunkInit, hready, hseg, linearDpmi, dosWorld, armThunk, hshift]

section
variable {w : DosState κ}

omit [DecidableEq κ]

theorem refuses_of_refused (hout : w.outcome 0 = .refused) :
    refuses w = (true, ⟨w.disk, w.script.tail⟩) := by
  rcases hscript : w.script with _ | ⟨o, rest⟩
  · simp [DosState.outcome, hscript] at hout
  · simp only [DosState.outcome, hscript, List.getElem?_cons_zero, Option.getD_some] at hout
    simp [refuses, hscript, hout]

theorem refuses_of_served {a : Answer} (hout : w.outcome 0 = .served a) :
    refuses w = (false, w) ∧ w.answer = a := by
  rcases hscript : w.script with _ | ⟨o, rest⟩
  · simp only [DosState.outcome, hscript, List.getElem?_nil, Option.getD_none,
      Outcome.served.injEq] at hout
    simp [refuses, DosState.answer, hscript, hout]
  · simp only [DosState.outcome, hscript, List.getElem?_cons_zero, Option.getD_some] at hout
    simp [refuses, DosState.answer, hscript, hout]

theorem syscall_eq {β : Type}
    (f : Answer → Lib.Files.Disk κ UInt8 → Except Nat β × Lib.Files.Disk κ UInt8) :
    syscall f w =
      if (refuses w).1 then (.error 0, (refuses w).2)
      else
        ((f w.answer w.disk).1.mapError (· % 0x10000),
          ⟨(f w.answer w.disk).2, w.script.tail⟩) := by
  unfold syscall refuses
  split <;> simp_all

theorem syscall_of_refused {β : Type} (hout : w.outcome 0 = .refused)
    (f : Answer → Lib.Files.Disk κ UInt8 → Except Nat β × Lib.Files.Disk κ UInt8) :
    syscall f w = (.error 0, ⟨w.disk, w.script.tail⟩) := by
  rw [syscall_eq, refuses_of_refused hout]
  rfl

theorem syscall_of_served {β : Type} {a : Answer} (hout : w.outcome 0 = .served a)
    (f : Answer → Lib.Files.Disk κ UInt8 → Except Nat β × Lib.Files.Disk κ UInt8) :
    syscall f w = ((f a w.disk).1.mapError (· % 0x10000), ⟨(f a w.disk).2, w.script.tail⟩) := by
  obtain ⟨hrefuses, hanswer⟩ := refuses_of_served hout
  rw [syscall_eq, hrefuses, hanswer]
  rfl

end

theorem dosInt21Call_of_refused (hm : CanCall m) (hout : m.world.outcome 0 = .refused) (rm : Rmcs) :
    ∃ m', dosInt21Call (dosWorld gap resolve) quietCall rm m = (none, m') ∧
      m'.world = ⟨m.world.disk, m.world.script.tail⟩ ∧ CanCall m' := by
  have hquiet : ∀ m : Machine (DosState κ), m.interrupts quietCall.enter = m :=
    Machine.interrupts_nil
  obtain ⟨t, ht, hinit⟩ := thunkInit_dosWorld gap resolve hm
  have hcall : dosInt21Call (dosWorld gap resolve) quietCall rm m =
      (none, { m with
        i21Thunk := repairThunk t
        world := ⟨m.world.disk, m.world.script.tail⟩ }) := by
    simp only [dosInt21Call, dosInt21ThunkInit, hinit, dpmi0301CallShallow]
    simp only [dosWorld, refuses_of_refused hout, hquiet]
  exact ⟨_, hcall, rfl, ⟨.inl (ready_repairThunk ht), hm.bounce⟩⟩

def reply (rm : Rmcs) (m : Machine (DosState κ)) : Reply × DosState κ :=
  serve gap resolve rm (quietOperand rm m.bounce) m.world

theorem dosInt21Call_of_served (hm : CanCall m) {a : Answer}
    (hout : m.world.outcome 0 = .served a) (rm : Rmcs) :
    ∃ m', dosInt21Call (dosWorld gap resolve) quietCall rm m =
        (some (reply gap resolve rm m).1.rm, m') ∧
      m'.world = (reply gap resolve rm m).2 ∧ CanCall m' ∧
      m'.bounce = blit m.bounce rm.dx (reply gap resolve rm m).1.stored := by
  obtain ⟨t, ht, hinit⟩ := thunkInit_dosWorld gap resolve hm
  have hentered : entered (dosWorld gap resolve) rm m =
      some (entryRegs t m.rmStackSeg m.rmStackBytes rm, repairThunk t, m.world) := by
    simp only [entered, hinit]
    simp only [dosWorld, (refuses_of_served hout).1]
  have hreply : quietAnswer (dosWorld gap resolve)
      (entryRegs t m.rmStackSeg m.rmStackBytes rm) m m.world = reply gap resolve rm m := rfl
  rw [dosInt21Call_quiet _ hentered, hreply]
  exact ⟨_, rfl, rfl, ⟨.inl (ready_repairThunk ht), hm.bounce⟩, rfl⟩

/-- A service that answers with a number: the port's view of it follows from the
registers it leaves. -/
theorem performs_number {β : Type} (hm : CanCall m) {rm : Rmcs}
    {f : Answer → Lib.Files.Disk κ UInt8 → Except Nat Nat × Lib.Files.Disk κ UInt8}
    (hserv : ∀ a d, service gap resolve rm (quietOperand rm m.bounce) a d =
      (numReply (f a d).1, (f a d).2))
    (back : Rmcs → β) (g : Nat → β)
    (hback : ∀ a d x, (f a d).1 = .ok x →
      back { eax := x % 0x10000, edx := x / 0x10000 } = g x) :
    Performs (fun a d => ((f a d).1.map g, (f a d).2)) m
      ((result (dosInt21Call (dosWorld gap resolve) quietCall rm m).1).map back,
        (dosInt21Call (dosWorld gap resolve) quietCall rm m).2) := by
  cases hout : m.world.outcome 0 with
  | refused =>
      obtain ⟨m', hcall, hworld, hcan⟩ := dosInt21Call_of_refused gap resolve hm hout rm
      rw [hcall]
      refine ⟨?_, by rw [syscall_of_refused hout, hworld], hcan⟩
      rw [syscall_of_refused hout]
      rfl
  | served a =>
      obtain ⟨m', hcall, hworld, hcan, -⟩ := dosInt21Call_of_served gap resolve hm hout rm
      rw [hcall]
      have hreply : reply gap resolve rm m =
          (numReply (f a m.world.disk).1, ⟨(f a m.world.disk).2, m.world.script.tail⟩) := by
        rw [reply, serve, hserv, (refuses_of_served hout).2]
      rw [hreply] at hworld
      refine ⟨?_, by rw [syscall_of_served hout, hworld], hcan⟩
      rw [syscall_of_served hout, hreply]
      cases hr : (f a m.world.disk).1 with
      | error e =>
          simp [numReply, failReply, result, Rmcs.carry, Rmcs.ax, Except.map, Except.mapError]
      | ok x =>
          simpa [numReply, result, Rmcs.carry, Except.map, Except.mapError] using hback _ _ x hr

theorem performs_ax (hm : CanCall m) {rm : Rmcs}
    {f : Answer → Lib.Files.Disk κ UInt8 → Except Nat Nat × Lib.Files.Disk κ UInt8}
    (hserv : ∀ a d, service gap resolve rm (quietOperand rm m.bounce) a d =
      (numReply (f a d).1, (f a d).2))
    (hlt : ∀ a d x, (f a d).1 = .ok x → x < 0x10000) :
    Performs f m ((result (dosInt21Call (dosWorld gap resolve) quietCall rm m).1).map Rmcs.ax,
      (dosInt21Call (dosWorld gap resolve) quietCall rm m).2) := by
  have hid : (fun a d => ((f a d).1.map id, (f a d).2)) = f := by
    funext a d
    cases h : f a d with
    | mk r d' => cases r <;> rfl
  have hperf := performs_number gap resolve hm hserv Rmcs.ax id fun a d x hx => by
    have := hlt a d x hx
    simp only [Rmcs.ax, id]
    omega
  rwa [hid] at hperf

/-! ## The services of the port -/

theorem quietOperand_path {rm : Rmcs} {path : CString} {mem : Mem UInt8}
    (hah : rm.ah = 0x3D ∨ rm.ah = 0x3C) (hdx : rm.dx = 0) (hlen : path.bytes.length < 1024) :
    quietOperand rm (blit mem 0 path.asciiz) = path.asciiz := by
  have hstop : ∀ b ∈ path.bytes, decide (b = 0) = false := fun b hb => by
    simpa using path.nonzero b hb
  rw [quietOperand, operand, if_pos hah, hdx]
  refine (fetchUntil_eq_iff _ 0 _ hstop (by simp) (by simp only [asciizLimit]; omega)).mpr ?_
  rw [fetch_quiet]
  exact slice_blit mem 0 path.asciiz

theorem takeWhile_asciiz (path : CString) : path.asciiz.takeWhile (· ≠ 0) = path.bytes := by
  have hall : ∀ b ∈ path.bytes, decide (b ≠ 0) = true := fun b hb => by
    simpa using path.nonzero b hb
  rw [CString.asciiz, List.takeWhile_append_of_pos hall]
  simp

theorem pathCall_performs (hm : CanCall m) {path : CString} (hlen : path.bytes.length < 1024)
    {regs : Rmcs}
    {f : Answer → Lib.Files.Disk κ UInt8 → Except Nat Nat × Lib.Files.Disk κ UInt8}
    (hah : regs.ah = 0x3D ∨ regs.ah = 0x3C) (hdx : regs.dx = 0)
    (hserv : ∀ a d, service gap resolve regs path.asciiz a d = (numReply (f a d).1, (f a d).2))
    (hlt : ∀ a d x, (f a d).1 = .ok x → x < 0x10000) :
    Performs f m (pathCall (dosWorld gap resolve) quietCall path regs m) := by
  have hcan : CanCall (m.withMem (blit m.bounce 0 path.asciiz) m.stub) := ⟨hm.thunk, hm.bounce⟩
  have hstore : m.storeBounce quietCall.copy 0 0 path.asciiz =
      m.withMem (blit m.bounce 0 path.asciiz) m.stub := m.storeBounce_quiet 0 0 path.asciiz
  have hperf := performs_ax gap resolve hcan (f := f) (fun a d => by
    rw [Machine.withMem_bounce, quietOperand_path hah hdx hlen, hserv]) hlt
  simp only [pathCall, hm.bounce, Bool.false_eq_true, if_false, Nat.not_le.mpr hlen, hstore]
  exact ⟨hperf.result, hperf.world, hperf.canCall⟩

theorem dosInt21Open_performs (hm : CanCall m) {path : CString} (hlen : path.bytes.length < 1024)
    (mode : Nat) :
    Performs (openFile (resolve path.bytes) (mode % 4)) m
      (dosInt21Open (dosWorld gap resolve) quietCall path mode m) := by
  have hmode : (openRegs m mode).eax % 4 = mode % 4 := by
    change (0x3D00 ||| mode &&& 0xFF) % 2 ^ 2 = mode % 2 ^ 2
    rw [Nat.or_mod_two_pow, Nat.and_two_pow_sub_one_eq_mod mode 8]
    simp [Nat.mod_mod_of_dvd]
  refine pathCall_performs gap resolve hm hlen (.inl (ah_openRegs m mode)) rfl (fun a d => ?_)
    fun a d x hx => ?_
  · rw [service, takeWhile_asciiz, if_pos (ah_openRegs m mode), hmode]
  · unfold openFile at hx
    split at hx
    · cases hx
    · split at hx
      · cases hx
      · split at hx
        · cases hx
        · cases hx
          exact Nat.lt_of_not_le ‹_›

theorem dosInt21Creat_performs (hm : CanCall m) {path : CString}
    (hlen : path.bytes.length < 1024) :
    Performs (creatFile (resolve path.bytes)) m
      (dosInt21Creat (dosWorld gap resolve) quietCall path m) := by
  refine pathCall_performs gap resolve hm hlen (.inr (ah_creatRegs m)) rfl (fun a d => ?_)
    fun a d x hx => ?_
  · rw [service, takeWhile_asciiz, if_neg (by simp [ah_creatRegs]), if_pos (ah_creatRegs m)]
  · unfold creatFile at hx
    split at hx
    · cases hx
    · split at hx
      · cases hx
      · cases hx
        exact Nat.lt_of_not_le ‹_›

theorem toU32_natCast {x : Nat} (h : x < 0x100000000) : toU32 x = x := by
  rw [toU32]
  omega

omit [DecidableEq κ] in
theorem ebx_transferRegs (m : Machine (DosState κ)) (ah : Nat) {fd : Nat} (hfd : fd < 0x10000)
    (count : Nat) : (transferRegs m ah fd count).ebx % 0x10000 = fd := by
  rw [transferRegs, toU32_natCast (by omega)]
  exact Nat.mod_eq_of_lt hfd

theorem dosInt21Write_performs (hm : CanCall m) {fd : Nat} (hfd : fd < 0x10000) {buf : List UInt8}
    (hbuf : buf ≠ []) :
    Performs (writeFile gap fd (buf.take DOS_BOUNCE_DATA_MAX)) m
      (dosInt21Write (dosWorld gap resolve) quietCall fd buf m) := by
  generalize hbs : buf.take DOS_BOUNCE_DATA_MAX = bs
  have hlen : bs.length < 0x10000 := by
    rw [← hbs, List.length_take, DOS_BOUNCE_DATA_MAX]
    omega
  have hcan : CanCall (m.withMem (blit m.bounce DOS_BOUNCE_DATA_OFFSET bs) m.stub) :=
    ⟨hm.thunk, hm.bounce⟩
  have hstore : m.storeBounce quietCall.copy DOS_BOUNCE_DATA_OFFSET 0 bs =
      m.withMem (blit m.bounce DOS_BOUNCE_DATA_OFFSET bs) m.stub := m.storeBounce_quiet _ 0 bs
  have hah : (transferRegs m 0x40 fd bs.length).ah = 0x40 := ah_transferRegs m 0x40 fd bs.length
  have hoperand : quietOperand (transferRegs m 0x40 fd bs.length)
      (blit m.bounce DOS_BOUNCE_DATA_OFFSET bs) = bs := by
    rw [quietOperand, operand, if_neg (by simp [hah]), if_pos hah, dx_transferRegs,
      cx_transferRegs _ _ _ hlen, fetch_quiet]
    exact slice_blit _ _ _
  have hserv : ∀ a d, service gap resolve (transferRegs m 0x40 fd bs.length)
      (quietOperand (transferRegs m 0x40 fd bs.length)
        (m.withMem (blit m.bounce DOS_BOUNCE_DATA_OFFSET bs) m.stub).bounce) a d =
      (numReply (writeFile gap fd bs a d).1, (writeFile gap fd bs a d).2) := fun a d => by
    rw [Machine.withMem_bounce, hoperand, service]
    simp only [hah, ebx_transferRegs m 0x40 hfd]
    rfl
  have hperf := performs_ax gap resolve hcan hserv fun a d x hx =>
    Nat.lt_of_le_of_lt (writeFile_le gap hx) hlen
  simp only [dosInt21Write, hm.bounce, hbuf, Bool.false_eq_true, if_false, hbs, hstore]
  exact ⟨hperf.result, hperf.world, hperf.canCall⟩

theorem displacement_eq (offset : Int) (rm : Rmcs)
    (hcx : rm.ecx = (toU32 offset >>> 16) &&& 0xFFFF) (hdx : rm.edx = toU32 offset &&& 0xFFFF) :
    displacement rm = toLong (toU32 offset) := by
  have hmask : ∀ x, x &&& 0xFFFF = x % 2 ^ 16 := fun x => Nat.and_two_pow_sub_one_eq_mod x 16
  have hshift : toU32 offset >>> 16 = toU32 offset / 2 ^ 16 := Nat.shiftRight_eq_div_pow _ _
  have hlt : toU32 offset < 0x100000000 := by
    rw [toU32]
    omega
  have hjoin : rm.cx * 0x10000 + rm.dx = toU32 offset := by
    rw [Rmcs.cx, Rmcs.dx, hcx, hdx, hmask, hmask, hshift]
    omega
  rw [displacement, hjoin]

theorem displacement_toU32 (offset : Int) (rm : Rmcs)
    (hcx : rm.ecx = (toU32 offset >>> 16) &&& 0xFFFF) (hdx : rm.edx = toU32 offset &&& 0xFFFF)
    (base : Nat) : toU32 (base + displacement rm) = toU32 (base + offset) := by
  rw [displacement_eq offset rm hcx hdx]
  unfold toLong toU32
  split <;> omega

theorem position_eq {x : Nat} (h : x < 0x100000000) :
    ((x / 0x10000 &&& 0xFFFF) <<< 16) ||| (x % 0x10000 &&& 0xFFFF) = x := by
  have hmask : ∀ x, x &&& 0xFFFF = x % 2 ^ 16 := fun x => Nat.and_two_pow_sub_one_eq_mod x 16
  rw [hmask, hmask, Nat.shiftLeft_eq, Nat.mul_comm,
    ← Nat.two_pow_add_eq_or_of_lt (Nat.mod_lt _ (by decide))]
  omega

theorem dosInt21Lseek_performs (hm : CanCall m) {fd : Nat} (hfd : fd < 0x10000) (offset : Int)
    (whence : Nat) (hwhence : whence < 256) :
    Performs (seekLong fd offset whence) m
      (dosInt21Lseek (dosWorld gap resolve) quietCall fd offset whence m) := by
  have hor : 0x4200 ||| (whence &&& 0xFF) = 0x4200 + whence := by
    rw [Nat.and_two_pow_sub_one_eq_mod whence 8, Nat.mod_eq_of_lt hwhence]
    exact (Nat.two_pow_add_eq_or_of_lt (i := 8) hwhence 0x42).symm
  let rm : Rmcs :=
    { eax := 0x4200 ||| (whence &&& 0xFF)
      ebx := toU32 fd
      ecx := (toU32 offset >>> 16) &&& 0xFFFF
      edx := toU32 offset &&& 0xFFFF }
  have hah : rm.ah = 0x42 := by
    change (0x4200 ||| (whence &&& 0xFF)) / 256 % 256 = 0x42
    omega
  have hal : rm.eax % 256 = whence := by
    change (0x4200 ||| (whence &&& 0xFF)) % 256 = whence
    omega
  have hfd' : rm.ebx % 0x10000 = fd := by
    change toU32 fd % 0x10000 = fd
    rw [toU32_natCast (by omega), Nat.mod_eq_of_lt hfd]
  have hserv : ∀ a d, service gap resolve rm (quietOperand rm m.bounce) a d =
      (numReply (seekFile fd offset whence a d).1, (seekFile fd offset whence a d).2) := by
    intro a d
    have hseek : seekFile fd (displacement rm) whence a d = seekFile fd offset whence a d := by
      simp only [seekFile, displacement_toU32 offset rm rfl rfl]
    rw [service, hfd', hal, hseek]
    simp [hah]
  exact performs_number gap resolve hm hserv _ (fun x => toLong x) fun a d x hx =>
    congrArg toLong (position_eq (seekFile_lt hx))

theorem dosInt21Close_performs (hm : CanCall m) {fd : Nat} (hfd : fd < 0x10000) :
    Performs (fun a d => ((closeFile fd a d).1.map fun _ => (), (closeFile fd a d).2)) m
      (dosInt21Close (dosWorld gap resolve) quietCall fd m) := by
  have hfd' : toU32 fd % 0x10000 = fd := by
    rw [toU32_natCast (by omega), Nat.mod_eq_of_lt hfd]
  have hserv : ∀ a d, service gap resolve { eax := 0x3E00, ebx := toU32 fd }
      (quietOperand { eax := 0x3E00, ebx := toU32 fd } m.bounce) a d =
      (numReply (closeFile fd a d).1, (closeFile fd a d).2) := fun a d => by
    simp [service, hfd', Rmcs.ah]
  exact performs_number gap resolve hm hserv _ (fun _ => ()) fun _ _ _ _ => rfl

theorem dosInt21Read_performs (hm : CanCall m) {fd : Nat} (hfd : fd < 0x10000) {count : Nat}
    (hcount : count ≠ 0) :
    Performs (readFile fd (min count DOS_BOUNCE_DATA_MAX)) m
      (dosInt21Read (dosWorld gap resolve) quietCall fd count m) := by
  generalize hn : min count DOS_BOUNCE_DATA_MAX = n
  have hlt : n < 0x10000 := by
    rw [← hn, DOS_BOUNCE_DATA_MAX]
    omega
  have hah : (transferRegs m 0x3F fd n).ah = 0x3F := ah_transferRegs m 0x3F fd n
  simp only [dosInt21Read, hm.bounce, hcount, Bool.false_eq_true, if_false, hn]
  cases hout : m.world.outcome 0 with
  | refused =>
      obtain ⟨m', hcall, hworld, hcan⟩ :=
        dosInt21Call_of_refused gap resolve hm hout (transferRegs m 0x3F fd n)
      rw [hcall]
      refine ⟨?_, by rw [syscall_of_refused hout, ← hworld]; rfl, hcan⟩
      rw [syscall_of_refused hout]
      rfl
  | served a =>
      obtain ⟨m', hcall, hworld, hcan, hbounce⟩ :=
        dosInt21Call_of_served gap resolve hm hout (transferRegs m 0x3F fd n)
      have hreply : reply gap resolve (transferRegs m 0x3F fd n) m =
          (bytesReply (readFile fd n a m.world.disk).1,
            ⟨(readFile fd n a m.world.disk).2, m.world.script.tail⟩) := by
        rw [reply, serve, service, (refuses_of_served hout).2]
        simp [hah, ebx_transferRegs m 0x3F hfd, cx_transferRegs m 0x3F fd hlt]
      rw [hreply] at hcall hworld hbounce
      rw [dx_transferRegs] at hbounce
      rw [hcall]
      cases hr : (readFile fd n a m.world.disk).1 with
      | error e =>
          refine ⟨?_, ?_, ?_⟩
          · rw [syscall_of_served hout, hr]
            simp [bytesReply, failReply, result, Rmcs.carry, Rmcs.ax, Except.mapError]
          · rw [syscall_of_served hout, ← hworld]
            simp [bytesReply, failReply, result, Rmcs.carry, Rmcs.ax]
          · simpa [bytesReply, failReply, result, Rmcs.carry, Rmcs.ax] using hcan
      | ok bs =>
          have hlen : bs.length ≤ n := length_readFile hr
          have hax : min (bs.length % 0x10000) n = bs.length := by omega
          have hload :
              m'.loadBounce quietCall.out DOS_BOUNCE_DATA_OFFSET 0 bs.length = (bs, m') := by
            rw [show quietCall.out = quiet from rfl, Machine.loadBounce_quiet, hbounce, hr]
            exact congrArg (·, m') (slice_blit _ _ bs)
          have hcarry : ({ eax := bs.length } : Rmcs).carry = false := by
            simp [Rmcs.carry]
          simp only [bytesReply, result, hcarry, Bool.false_eq_true, if_false, Rmcs.ax, hax, hload]
          refine ⟨?_, ?_, hcan⟩
          · rw [syscall_of_served hout, hr]
            rfl
          · rw [syscall_of_served hout, hworld]

/-! ## One outcome at a time -/

section
variable {w : DosState κ} {fd : Nat} {h : Handle κ}

omit [DecidableEq κ]

theorem grants_of_tail (w : DosState κ) (d' : Lib.Files.Disk κ UInt8) (i : Nat) :
    (⟨d', w.script.tail⟩ : DosState κ).grants i = w.grants (i + 1) := by
  simp [DosState.grants, DosState.outcome]

theorem granted_eq_ok {a : Answer} {n c : Nat} : granted a n = .ok c ↔ a.count n = some c := by
  cases a <;> simp [granted, Answer.count]

theorem syscall_of_not_granted {β : Type}
    {f : Answer → Lib.Files.Disk κ UInt8 → Except Nat β × Lib.Files.Disk κ UInt8}
    (hf : ∀ e, ∃ e', f (.fail e) w.disk = (.error e', w.disk)) (hgrants : w.grants 0 = false) :
    ∃ e, syscall f w = (.error e, ⟨w.disk, w.script.tail⟩) := by
  cases hout : w.outcome 0 with
  | refused => exact ⟨0, syscall_of_refused hout f⟩
  | served a =>
      cases a with
      | full => simp [DosState.grants, hout, Outcome.count, Answer.count] at hgrants
      | short k => simp [DosState.grants, hout, Outcome.count, Answer.count] at hgrants
      | fail e =>
          obtain ⟨e', he'⟩ := hf e
          exact ⟨e' % 0x10000, by rw [syscall_of_served hout, he']; rfl⟩

theorem granted_zero_of_grants (hgrants : w.grants 0 = true) :
    ∃ a, w.outcome 0 = .served a ∧ granted a 0 = .ok 0 := by
  cases hout : w.outcome 0 with
  | refused => simp [DosState.grants, hout, Outcome.count] at hgrants
  | served a =>
      refine ⟨a, rfl, ?_⟩
      cases a with
      | full => rfl
      | short k => simp [granted]
      | fail e => simp [DosState.grants, hout, Outcome.count, Answer.count] at hgrants

theorem syscall_openFile_of_grants (hgrants : w.grants 0 = true) (hnext : w.disk.next < 0x10000)
    {k : κ} (hk : w.disk.files k ≠ none) (access : Nat) :
    syscall (openFile k access) w =
      (.ok w.disk.next, ⟨(w.disk.openHandle k access).2, w.script.tail⟩) := by
  obtain ⟨a, hout, ha⟩ := granted_zero_of_grants hgrants
  rw [syscall_of_served hout]
  simp [openFile, ha, hk, Nat.not_le.mpr hnext, Except.mapError]

theorem syscall_openFile_of_not (h : w.grants 0 = false ∨ 0x10000 ≤ w.disk.next) (k : κ)
    (access : Nat) :
    ∃ e, syscall (openFile k access) w = (.error e, ⟨w.disk, w.script.tail⟩) := by
  cases hgrants : w.grants 0 with
  | false => exact syscall_of_not_granted (fun e => ⟨e, rfl⟩) hgrants
  | true =>
      obtain ⟨a, hout, ha⟩ := granted_zero_of_grants hgrants
      have hnext : 0x10000 ≤ w.disk.next := h.resolve_left (by simp [hgrants])
      rw [syscall_of_served hout]
      simp only [openFile, ha]
      split <;> exact ⟨_, rfl⟩

end

section
variable {w : DosState κ} {fd : Nat} {h : Handle κ}

theorem syscall_creatFile_of_grants (hgrants : w.grants 0 = true) (hnext : w.disk.next < 0x10000)
    (k : κ) :
    syscall (creatFile k) w = (.ok w.disk.next, ⟨(w.disk.create k 2).2, w.script.tail⟩) := by
  obtain ⟨a, hout, ha⟩ := granted_zero_of_grants hgrants
  rw [syscall_of_served hout]
  simp [creatFile, ha, Nat.not_le.mpr hnext, Except.mapError]

theorem syscall_creatFile_of_not (h : w.grants 0 = false ∨ 0x10000 ≤ w.disk.next) (k : κ) :
    ∃ e, syscall (creatFile k) w = (.error e, ⟨w.disk, w.script.tail⟩) := by
  cases hgrants : w.grants 0 with
  | false => exact syscall_of_not_granted (fun e => ⟨e, rfl⟩) hgrants
  | true =>
      obtain ⟨a, hout, ha⟩ := granted_zero_of_grants hgrants
      have hnext : 0x10000 ≤ w.disk.next := h.resolve_left (by simp [hgrants])
      rw [syscall_of_served hout]
      simp only [creatFile, ha, if_pos hnext]
      exact ⟨_, rfl⟩

theorem syscall_writeFile_of_some {gap : Nat → UInt8} (hfd : w.disk.handles fd = some h)
    (hacc : h.access ≠ 0) {bs : List UInt8} (hbs : bs ≠ []) {c : Nat}
    (hc : (w.outcome 0).count bs.length = some c) :
    syscall (writeFile gap fd bs) w =
      (.ok c, ⟨w.disk.writeHandle gap fd h (bs.take c), w.script.tail⟩) := by
  cases hout : w.outcome 0 with
  | refused => simp [hout, Outcome.count] at hc
  | served a =>
      rw [hout, Outcome.count, ← granted_eq_ok] at hc
      rw [syscall_of_served hout]
      simp [writeFile, hfd, hacc, hbs, hc, Except.mapError]

theorem syscall_writeFile_of_none (gap : Nat → UInt8) (hfd : w.disk.handles fd = some h)
    {bs : List UInt8} (hc : h.access = 0 ∨ (w.outcome 0).count bs.length = none) :
    ∃ e, syscall (writeFile gap fd bs) w = (.error e, ⟨w.disk, w.script.tail⟩) := by
  cases hout : w.outcome 0 with
  | refused => exact ⟨0, syscall_of_refused hout _⟩
  | served a =>
      rw [syscall_of_served hout]
      by_cases hacc : h.access = 0
      · exact ⟨5, by simp [writeFile, hfd, hacc, Except.mapError]⟩
      · have hnone := hc.resolve_left hacc
        cases a with
        | full => simp [hout, Outcome.count, Answer.count] at hnone
        | short k => simp [hout, Outcome.count, Answer.count] at hnone
        | fail e =>
            exact ⟨e % 0x10000, by simp [writeFile, hfd, hacc, granted, Except.mapError]⟩

omit [DecidableEq κ]

theorem syscall_seekLong_of_grants (hgrants : w.grants 0 = true)
    (hfd : w.disk.handles fd = some h) (offset : Int) {whence : Nat} (hwhence : whence ≤ 2) :
    syscall (seekLong fd offset whence) w =
      (.ok (toLong (toU32 (seekBase w.disk h whence + offset))),
        ⟨w.disk.setPos fd h (toU32 (seekBase w.disk h whence + offset)), w.script.tail⟩) := by
  obtain ⟨a, hout, ha⟩ := granted_zero_of_grants hgrants
  rw [syscall_of_served hout]
  simp [seekLong, seekFile, hfd, ha, Nat.not_lt.mpr hwhence, Except.map, Except.mapError]

theorem syscall_seekLong_of_not (hgrants : w.grants 0 = false) (fd : Nat) (offset : Int)
    (whence : Nat) :
    ∃ e, syscall (seekLong fd offset whence) w = (.error e, ⟨w.disk, w.script.tail⟩) := by
  refine syscall_of_not_granted (fun e => ?_) hgrants
  unfold seekLong seekFile
  cases w.disk.handles fd with
  | none => exact ⟨6, rfl⟩
  | some h => exact ⟨e, rfl⟩

theorem syscall_readFile_of_some (hfd : w.disk.handles fd = some h) (hacc : h.access ≠ 1)
    {n c : Nat} (hc : (w.outcome 0).count (min n (w.disk.remaining h).length) = some c) :
    syscall (readFile fd n) w =
      (.ok (w.disk.readHandle fd h c).1, ⟨(w.disk.readHandle fd h c).2, w.script.tail⟩) := by
  cases hout : w.outcome 0 with
  | refused => simp [hout, Outcome.count] at hc
  | served a =>
      rw [hout, Outcome.count, ← granted_eq_ok] at hc
      rw [syscall_of_served hout]
      simp [readFile, hfd, hacc, hc, Except.mapError]

theorem syscall_readFile_of_none (hfd : w.disk.handles fd = some h) {n : Nat}
    (hc : h.access = 1 ∨ (w.outcome 0).count (min n (w.disk.remaining h).length) = none) :
    ∃ e, syscall (readFile fd n) w = (.error e, ⟨w.disk, w.script.tail⟩) := by
  cases hout : w.outcome 0 with
  | refused => exact ⟨0, syscall_of_refused hout _⟩
  | served a =>
      rw [syscall_of_served hout]
      by_cases hacc : h.access = 1
      · exact ⟨5, by simp [readFile, hfd, hacc, Except.mapError]⟩
      · have hnone := hc.resolve_left hacc
        cases a with
        | full => simp [hout, Outcome.count, Answer.count] at hnone
        | short k => simp [hout, Outcome.count, Answer.count] at hnone
        | fail e =>
            exact ⟨e % 0x10000, by simp [readFile, hfd, hacc, granted, Except.mapError]⟩

end

/-! ## Calls that do not get through -/

/-- Without a thunk or a bounce, or with a path that does not fit, a call with a
path does not reach DOS. -/
theorem pathCall_of_not_reached {path : CString} (regs : Rmcs)
    (h : ¬CanCall m ∨ 1024 ≤ path.bytes.length) :
    ∃ m', pathCall (dosWorld gap resolve) quietCall path regs m = (.error 0, m') ∧
      m'.world = m.world ∧ (¬CanCall m' ∨ 1024 ≤ path.bytes.length) := by
  unfold pathCall
  by_cases hmissing : bounceMissing m = true
  · exact ⟨m, by rw [if_pos hmissing], rfl, h⟩
  · by_cases hlen : 1024 ≤ path.bytes.length
    · exact ⟨m, by rw [if_neg hmissing, if_pos hlen], rfl, h⟩
    · have hthunk : m.i21Thunk.ready = false ∧ m.i21PreallocThunkSeg = 0 := by
        by_contra hcon
        refine (h.resolve_right hlen) ⟨?_, by simpa using hmissing⟩
        by_cases hseg : m.i21PreallocThunkSeg = 0
        · exact .inl (by simpa [hseg] using hcon)
        · exact .inr hseg
      have hstore : m.storeBounce quietCall.copy 0 0 path.asciiz =
          m.withMem (blit m.bounce 0 path.asciiz) m.stub := m.storeBounce_quiet 0 0 path.asciiz
      rw [if_neg hmissing, if_neg hlen, hstore]
      simp only [dosInt21Call, dosInt21ThunkInit, thunkInit, Machine.withMem_i21Thunk,
        Machine.withMem_i21PreallocThunkSeg, hthunk.1, hthunk.2, Bool.false_eq_true, if_false,
        if_true]
      refine ⟨_, rfl, rfl, .inl fun hcan => ?_⟩
      simpa [hthunk] using hcan.thunk

theorem transfer_of_cannotCall (hm : ¬CanCall m) (fd : Int) {count : Nat} (hcount : count ≠ 0)
    {buf : List UInt8} (hbuf : buf ≠ []) :
    (∃ e m', dosInt21Read (dosWorld gap resolve) quietCall fd count m = (.error e, m') ∧
        m'.world = m.world) ∧
      ∃ e m', dosInt21Write (dosWorld gap resolve) quietCall fd buf m = (.error e, m') ∧
        m'.world = m.world := by
  unfold dosInt21Read dosInt21Write
  by_cases hmissing : bounceMissing m = true
  · simp [hmissing]
  · have hthunk : m.i21Thunk.ready = false ∧ m.i21PreallocThunkSeg = 0 := by
      by_contra hcon
      refine hm ⟨?_, by simpa using hmissing⟩
      by_cases hseg : m.i21PreallocThunkSeg = 0
      · exact .inl (by simpa [hseg] using hcon)
      · exact .inr hseg
    have hstore : m.storeBounce quietCall.copy DOS_BOUNCE_DATA_OFFSET 0
        (buf.take DOS_BOUNCE_DATA_MAX) =
        m.withMem (blit m.bounce DOS_BOUNCE_DATA_OFFSET (buf.take DOS_BOUNCE_DATA_MAX)) m.stub :=
      m.storeBounce_quiet _ 0 _
    simp only [if_neg hmissing, if_neg hcount, if_neg hbuf, hstore]
    simp [dosInt21Call, dosInt21ThunkInit, thunkInit, hthunk, result, Except.map]

/-! ## Opening -/

structure Open (fd : Nat) (h : Handle κ) (m : Machine (DosState κ)) : Prop where
  canCall : CanCall m
  fd_lt : fd < 0x10000
  handle : m.world.disk.handles fd = some h

variable {fd : Nat} {h : Handle κ}

theorem open_of_grants (hcan : CanCall m) {path : CString} (hlen : path.bytes.length < 1024)
    (hgrants : m.world.grants 0 = true) (hnext : m.world.disk.next < 0x10000)
    (hfile : m.world.disk.files (resolve path.bytes) ≠ none) (mode : Nat) :
    ∃ m', dosInt21Open (dosWorld gap resolve) quietCall path mode m =
        (.ok m.world.disk.next, m') ∧
      m'.world = ⟨(m.world.disk.openHandle (resolve path.bytes) (mode % 4)).2,
        m.world.script.tail⟩ ∧
      Open m.world.disk.next ⟨resolve path.bytes, 0, mode % 4⟩ m' := by
  obtain ⟨hresult, hworld, hcan'⟩ := dosInt21Open_performs gap resolve hcan hlen mode
  rw [syscall_openFile_of_grants hgrants hnext hfile] at hresult hworld
  exact ⟨_, Prod.ext hresult rfl, hworld, hcan', hnext, by simp [hworld]⟩

theorem open_of_not (hcan : CanCall m) {path : CString} (hlen : path.bytes.length < 1024)
    (h : m.world.grants 0 = false ∨ 0x10000 ≤ m.world.disk.next) (mode : Nat) :
    ∃ e m', dosInt21Open (dosWorld gap resolve) quietCall path mode m = (.error e, m') ∧
      m'.world = ⟨m.world.disk, m.world.script.tail⟩ ∧ CanCall m' := by
  obtain ⟨hresult, hworld, hcan'⟩ := dosInt21Open_performs gap resolve hcan hlen mode
  obtain ⟨e, he⟩ := syscall_openFile_of_not h (resolve path.bytes) (mode % 4)
  rw [he] at hresult hworld
  exact ⟨e, _, Prod.ext hresult rfl, hworld, hcan'⟩

theorem creat_of_grants (hcan : CanCall m) {path : CString} (hlen : path.bytes.length < 1024)
    (hgrants : m.world.grants 0 = true) (hnext : m.world.disk.next < 0x10000) :
    ∃ m', dosInt21Creat (dosWorld gap resolve) quietCall path m = (.ok m.world.disk.next, m') ∧
      m'.world = ⟨(m.world.disk.create (resolve path.bytes) 2).2, m.world.script.tail⟩ ∧
      Open m.world.disk.next ⟨resolve path.bytes, 0, 2⟩ m' := by
  obtain ⟨hresult, hworld, hcan'⟩ := dosInt21Creat_performs gap resolve hcan hlen
  rw [syscall_creatFile_of_grants hgrants hnext] at hresult hworld
  exact ⟨_, Prod.ext hresult rfl, hworld, hcan', hnext, by simp [hworld, Disk.create]⟩

theorem creat_of_not (hcan : CanCall m) {path : CString} (hlen : path.bytes.length < 1024)
    (h : m.world.grants 0 = false ∨ 0x10000 ≤ m.world.disk.next) :
    ∃ e m', dosInt21Creat (dosWorld gap resolve) quietCall path m = (.error e, m') ∧
      m'.world = ⟨m.world.disk, m.world.script.tail⟩ := by
  obtain ⟨hresult, hworld, -⟩ := dosInt21Creat_performs gap resolve hcan hlen
  obtain ⟨e, he⟩ := syscall_creatFile_of_not h (resolve path.bytes)
  rw [he] at hresult hworld
  exact ⟨e, _, Prod.ext hresult rfl, hworld⟩

/-! ## Calls on an open handle -/

theorem lseek_of_grants (hm : Open fd h m) (hgrants : m.world.grants 0 = true) (offset : Int)
    (whence : Nat) (hwhence : whence ≤ 2) {p : Nat}
    (hp : toU32 (seekBase m.world.disk h whence + offset) = p) :
    ∃ m', dosInt21Lseek (dosWorld gap resolve) quietCall fd offset whence m =
        (.ok (toLong p), m') ∧
      m'.world = ⟨m.world.disk.setPos fd h p, m.world.script.tail⟩ ∧
      Open fd { h with pos := p } m' := by
  obtain ⟨hresult, hworld, hcan⟩ :=
    dosInt21Lseek_performs gap resolve hm.canCall hm.fd_lt offset whence (by omega)
  rw [syscall_seekLong_of_grants hgrants hm.handle offset hwhence, hp] at hresult hworld
  exact ⟨_, Prod.ext hresult rfl, hworld, hcan, hm.fd_lt, by simp [hworld]⟩

theorem lseek_of_not (hm : Open fd h m) (hgrants : m.world.grants 0 = false) (offset : Int)
    (whence : Nat) (hwhence : whence < 256) :
    ∃ e m', dosInt21Lseek (dosWorld gap resolve) quietCall fd offset whence m = (.error e, m') ∧
      m'.world = ⟨m.world.disk, m.world.script.tail⟩ ∧ Open fd h m' := by
  obtain ⟨hresult, hworld, hcan⟩ :=
    dosInt21Lseek_performs gap resolve hm.canCall hm.fd_lt offset whence hwhence
  obtain ⟨e, he⟩ := syscall_seekLong_of_not hgrants fd offset whence
  rw [he] at hresult hworld
  exact ⟨e, _, Prod.ext hresult rfl, hworld, hcan, hm.fd_lt, by simp [hworld, hm.handle]⟩

theorem lseek_either (hm : Open fd h m) (offset : Int) (whence : Nat)
    (hwhence : whence ≤ 2) {p : Nat}
    (hp : toU32 (seekBase m.world.disk h whence + offset) = p) :
    ∃ r m', dosInt21Lseek (dosWorld gap resolve) quietCall fd offset whence m = (r, m') ∧
      m'.world = ⟨m.world.disk.setPos fd h (if m.world.grants 0 then p else h.pos),
        m.world.script.tail⟩ ∧
      Open fd { h with pos := if m.world.grants 0 then p else h.pos } m' := by
  cases hgrants : m.world.grants 0 with
  | false =>
      obtain ⟨e, m', hcall, hworld, hm'⟩ := lseek_of_not gap resolve hm
        hgrants offset whence (by omega)
      exact ⟨_, m', hcall, by simp [hworld, Disk.setPos_self _ hm.handle], hm'⟩
  | true =>
      obtain ⟨m', hcall, hworld, hm'⟩ := lseek_of_grants gap resolve hm
        hgrants offset whence hwhence hp
      exact ⟨_, m', hcall, hworld, hm'⟩

theorem read_of_some (hm : Open fd h m) (hacc : h.access ≠ 1) {count c : Nat} (hcount : count ≠ 0)
    (hc : (m.world.outcome 0).count
      (min (min count DOS_BOUNCE_DATA_MAX) (m.world.disk.remaining h).length) = some c) :
    ∃ m', dosInt21Read (dosWorld gap resolve) quietCall fd count m =
        (.ok (m.world.disk.readHandle fd h c).1, m') ∧
      m'.world = ⟨(m.world.disk.readHandle fd h c).2, m.world.script.tail⟩ ∧
      Open fd { h with pos := h.pos + (m.world.disk.readHandle fd h c).1.length } m' := by
  obtain ⟨hresult, hworld, hcan⟩ :=
    dosInt21Read_performs gap resolve hm.canCall hm.fd_lt hcount
  rw [syscall_readFile_of_some hm.handle hacc hc] at hresult hworld
  exact ⟨_, Prod.ext hresult rfl, hworld, hcan, hm.fd_lt, by simp [hworld, Disk.readHandle]⟩

theorem read_of_none (hm : Open fd h m) {count : Nat} (hcount : count ≠ 0)
    (hc : h.access = 1 ∨ (m.world.outcome 0).count
      (min (min count DOS_BOUNCE_DATA_MAX) (m.world.disk.remaining h).length) = none) :
    ∃ e m', dosInt21Read (dosWorld gap resolve) quietCall fd count m = (.error e, m') ∧
      m'.world = ⟨m.world.disk, m.world.script.tail⟩ ∧ Open fd h m' := by
  obtain ⟨hresult, hworld, hcan⟩ := dosInt21Read_performs gap resolve hm.canCall hm.fd_lt hcount
  obtain ⟨e, he⟩ := syscall_readFile_of_none hm.handle hc
  rw [he] at hresult hworld
  exact ⟨e, _, Prod.ext hresult rfl, hworld, hcan, hm.fd_lt, by simp [hworld, hm.handle]⟩

theorem write_of_some (hm : Open fd h m) (hacc : h.access ≠ 0) {buf : List UInt8} (hbuf : buf ≠ [])
    {c : Nat} (hc : (m.world.outcome 0).count (buf.take DOS_BOUNCE_DATA_MAX).length = some c) :
    ∃ m', dosInt21Write (dosWorld gap resolve) quietCall fd buf m = (.ok c, m') ∧
      m'.world = ⟨m.world.disk.writeHandle gap fd h ((buf.take DOS_BOUNCE_DATA_MAX).take c),
        m.world.script.tail⟩ ∧
      Open fd { h with pos := h.pos + ((buf.take DOS_BOUNCE_DATA_MAX).take c).length } m' := by
  have hne : buf.take DOS_BOUNCE_DATA_MAX ≠ [] := by
    simp [hbuf, DOS_BOUNCE_DATA_MAX]
  obtain ⟨hresult, hworld, hcan⟩ := dosInt21Write_performs gap resolve hm.canCall hm.fd_lt hbuf
  rw [syscall_writeFile_of_some hm.handle hacc hne hc] at hresult hworld
  exact ⟨_, Prod.ext hresult rfl, hworld, hcan, hm.fd_lt, by simp [hworld, Disk.writeHandle]⟩

theorem write_of_none (hm : Open fd h m) {buf : List UInt8} (hbuf : buf ≠ [])
    (hc : h.access = 0 ∨ (m.world.outcome 0).count (buf.take DOS_BOUNCE_DATA_MAX).length = none) :
    ∃ e m', dosInt21Write (dosWorld gap resolve) quietCall fd buf m = (.error e, m') ∧
      m'.world = ⟨m.world.disk, m.world.script.tail⟩ ∧ Open fd h m' := by
  obtain ⟨hresult, hworld, hcan⟩ := dosInt21Write_performs gap resolve hm.canCall hm.fd_lt hbuf
  obtain ⟨e, he⟩ := syscall_writeFile_of_none gap hm.handle hc
  rw [he] at hresult hworld
  exact ⟨e, _, Prod.ext hresult rfl, hworld, hcan, hm.fd_lt, by simp [hworld, hm.handle]⟩

end FreedosMicroPython.Dos.Syscall
