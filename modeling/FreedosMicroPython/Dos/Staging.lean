import FreedosMicroPython.Dos.Calls
/-!
# File calls while packets arrive

The paths and the data of the file calls are staged in the paragraph that every
received frame is copied to. The theorems say exactly when DOS is handed what the
caller passed and the caller gets what DOS stored.
-/

namespace FreedosMicroPython.Dos.Staging

open FreedosMicroPython.Lib.Memory FreedosMicroPython.Lib.Traffic
open FreedosMicroPython.Host FreedosMicroPython.Dos.Int21 FreedosMicroPython.Dos.Calls

variable {σ : Type} (d : World σ)

/-! ## What one call adds to the log -/

theorem newCalls_of_not_entered (irqs : CallIrqs) {rm : Rmcs} {m : Machine σ}
    (h : entered d rm m = none) : newCalls m (dosInt21Call d irqs rm m).2 = [] := by
  obtain ⟨t, s, fs, -, hcall⟩ := dosInt21Call_of_not_entered d irqs h
  obtain ⟨stub, -, hfs⟩ := ({ m with i21Thunk := t, world := s } : Machine σ).interrupts_eq fs
  apply newCalls_of_calls
  rw [hcall, hfs]
  rfl

theorem newCalls_of_entered (irqs : CallIrqs) {rm rm' : Rmcs} {m : Machine σ} {t : Int21Thunk}
    {s : σ} (h : entered d rm m = some (rm', t, s)) :
    newCalls m (dosInt21Call d irqs rm m).2 =
      [⟨rm', t.code, operandAt irqs rm' m, (answerAt d irqs rm' m s).1.stored⟩] := by
  obtain ⟨mem, stub, -, -, hcall⟩ := dosInt21Call_served d irqs h
  rw [hcall]
  simp [newCalls]

/-- The operand of an entered call is staged in a machine that differs from the
caller's in its memory only. -/
theorem newCalls_staged {irqs : CallIrqs} {rm : Rmcs} {m : Machine σ} {mem : Mem UInt8}
    {stub : Stub} (hseg : stub.bounceSeg = m.stub.bounceSeg) {taken : List UInt8} {Safe : Prop}
    (hoperand : ∀ rm', rm'.ah = rm.ah → rm'.cx = rm.cx → rm'.dx = rm.dx →
      (operand (hits m irqs.dos) rm' (strikes mem (m.accepted irqs.enter)) = taken ↔ Safe)) :
    (∀ c ∈ newCalls m (dosInt21Call d irqs rm (m.withMem mem stub)).2, c.taken = taken) ↔
      entered d rm m = none ∨ Safe := by
  have henter : entered d rm (m.withMem mem stub) = entered d rm m :=
    entered_congr d rm rfl rfl rfl rfl rfl
  have hacc : ∀ fs, (m.withMem mem stub).accepted fs = m.accepted fs := fun fs =>
    Machine.accepted_congr fs rfl rfl hseg
  change (∀ c ∈ newCalls (m.withMem mem stub) _, _) ↔ _
  cases h : entered d rm m with
  | none => simp [newCalls_of_not_entered d irqs (henter.trans h)]
  | some e =>
      obtain ⟨rm', t, s⟩ := e
      obtain ⟨hah, hcx, hdx⟩ := entered_regs d h
      rw [newCalls_of_entered d irqs (henter.trans h)]
      simp only [List.mem_singleton, forall_eq, operandAt, hacc, hits_withMem m mem hseg,
        Machine.withMem_bounce, hoperand rm' hah hcx hdx]
      simp

/-! ## Paths -/

/-- The path reaches DOS whole, or the call does not reach DOS: no packet that
arrives between the staging of a byte of the path and the moment DOS reads it
leaves another byte there. -/
def PathSafe (irqs : CallIrqs) (path : CString) (regs : Rmcs) (m : Machine σ) : Prop :=
  bounceMissing m = true ∨ 1024 ≤ path.bytes.length ∨ entered d regs m = none ∨
    Undisturbed (hits m irqs.copy) (m.accepted irqs.enter) (hits m irqs.dos) 0 path.asciiz

theorem operand_path {w r : Nat → List (List UInt8)} {gap : List (List UInt8)} {rm : Rmcs}
    {path : CString} {mem : Mem UInt8} (hah : rm.ah = 0x3D ∨ rm.ah = 0x3C) (hdx : rm.dx = 0)
    (hlen : path.bytes.length < 1024) :
    operand r rm (strikes (stage w 0 0 path.asciiz mem) gap) = path.asciiz ↔
      Undisturbed w gap r 0 path.asciiz := by
  have hstop : ∀ b ∈ path.bytes, decide (b = 0) = false := fun b hb => by
    simpa using path.nonzero b hb
  rw [operand, if_pos hah, hdx, ← transfer_eq_iff w gap r 0 path.asciiz mem]
  exact fetchUntil_eq_iff r 0 _ hstop (by simp) (by simp only [asciizLimit]; omega)

theorem pathCall_hands_iff {irqs : CallIrqs} {path : CString} {regs : Rmcs} {m : Machine σ}
    (hah : regs.ah = 0x3D ∨ regs.ah = 0x3C) (hdx : regs.dx = 0) :
    (∀ c ∈ newCalls m (pathCall d irqs path regs m).2, c.taken = path.asciiz) ↔
      PathSafe d irqs path regs m := by
  unfold pathCall PathSafe
  by_cases hmissing : bounceMissing m = true
  · simp [hmissing, newCalls]
  by_cases hlen : 1024 ≤ path.bytes.length
  · simp [hlen, newCalls]
  obtain ⟨s, hseg, hstore⟩ := m.storeBounce_eq irqs.copy 0 0 path.asciiz
  simp only [hmissing, hlen, Bool.false_eq_true, if_false, false_or, hstore]
  refine newCalls_staged d hseg fun rm' hah' _ hdx' => operand_path ?_ (hdx'.trans hdx) (by omega)
  rwa [hah']

/-! ## Data -/

def WriteSafe (irqs : CallIrqs) (fd : Int) (buf : List UInt8) (m : Machine σ) : Prop :=
  bounceMissing m = true ∨ buf = [] ∨
    entered d (transferRegs m 0x40 fd (buf.take DOS_BOUNCE_DATA_MAX).length) m = none ∨
    Undisturbed (hits m irqs.copy) (m.accepted irqs.enter) (hits m irqs.dos)
      DOS_BOUNCE_DATA_OFFSET (buf.take DOS_BOUNCE_DATA_MAX)

theorem dosInt21Write_hands_iff (irqs : CallIrqs) (fd : Int) (buf : List UInt8) (m : Machine σ) :
    (∀ c ∈ newCalls m (dosInt21Write d irqs fd buf m).2,
      c.taken = buf.take DOS_BOUNCE_DATA_MAX) ↔ WriteSafe d irqs fd buf m := by
  unfold dosInt21Write WriteSafe
  by_cases hmissing : bounceMissing m = true
  · simp [hmissing, newCalls]
  by_cases hbuf : buf = []
  · simp [hmissing, hbuf, newCalls]
  generalize hbs : buf.take DOS_BOUNCE_DATA_MAX = bs
  have hlen : bs.length < 0x10000 := by
    rw [← hbs, List.length_take, DOS_BOUNCE_DATA_MAX]
    omega
  obtain ⟨s, hseg, hstore⟩ := m.storeBounce_eq irqs.copy DOS_BOUNCE_DATA_OFFSET 0 bs
  simp only [hmissing, hbuf, Bool.false_eq_true, if_false, false_or, hstore]
  refine newCalls_staged d hseg fun rm' hah hcx hdx => ?_
  rw [ah_transferRegs] at hah
  rw [cx_transferRegs _ _ _ hlen] at hcx
  rw [dx_transferRegs] at hdx
  rw [operand, if_neg (by omega), if_pos hah, hcx, hdx]
  exact transfer_eq_iff _ _ _ _ bs m.bounce

/-- The caller gets the bytes DOS stored, or the call does not reach DOS or
fails there. -/
def ReadSafe (irqs : CallIrqs) (fd : Int) (count : Nat) (m : Machine σ) : Prop :=
  bounceMissing m = true ∨ count = 0 ∨
    ∀ e ∈ entered d (transferRegs m 0x3F fd (min count DOS_BOUNCE_DATA_MAX)) m,
      (d.int21 e.1 [] e.2.2).1.rm.carry = true ∨
        Undisturbed (hits m irqs.dos) (m.accepted irqs.leave) (hits m irqs.out)
          DOS_BOUNCE_DATA_OFFSET (d.int21 e.1 [] e.2.2).1.stored

theorem dosInt21Read_returns_iff (irqs : CallIrqs) (fd : Int) (count : Nat) (m : Machine σ) :
    (∀ c ∈ newCalls m (dosInt21Read d irqs fd count m).2,
      ∀ bs, (dosInt21Read d irqs fd count m).1 = .ok bs → bs = c.stored) ↔
        ReadSafe d irqs fd count m := by
  unfold dosInt21Read ReadSafe
  by_cases hmissing : bounceMissing m = true
  · simp [hmissing, newCalls]
  by_cases hcount : count = 0
  · simp [hmissing, hcount, newCalls]
  generalize hn : min count DOS_BOUNCE_DATA_MAX = n
  have hlt : n < 0x10000 := by
    rw [← hn, DOS_BOUNCE_DATA_MAX]
    omega
  simp only [hmissing, hcount, Bool.false_eq_true, if_false, false_or]
  cases h : entered d (transferRegs m 0x3F fd n) m with
  | none =>
      obtain ⟨t, s, fs, -, hcall⟩ := dosInt21Call_of_not_entered d irqs h
      have hnew := newCalls_of_not_entered d irqs h
      rw [hcall] at hnew ⊢
      simp [result, hnew]
  | some e =>
      obtain ⟨rm, t, s⟩ := e
      have hnew := newCalls_of_entered d irqs h
      obtain ⟨hah, hcx, -⟩ := entered_regs d h
      rw [ah_transferRegs] at hah
      rw [cx_transferRegs _ _ _ hlt] at hcx
      have hoperand : operandAt irqs rm m = [] := by
        rw [operandAt, operand, if_neg (by omega), if_neg (by omega)]
      obtain ⟨mem, stub, hseg, hmem, hcall⟩ := dosInt21Call_served d irqs h
      have hmem := hmem (ah_transferRegs m 0x3F fd n)
      rw [hcall] at hnew ⊢
      simp only [answerAt, hoperand, Option.mem_some, forall_eq'] at hnew hmem ⊢
      have hle := d.stored_le rm [] s
      rw [if_pos hah, hcx] at hle
      have hax := d.stored_ax rm [] s hah
      generalize d.int21 rm [] s = r at hle hax hnew hmem ⊢
      cases hcarry : r.1.rm.carry with
      | true => simp [result, hcarry]
      | false =>
          rw [dx_transferRegs] at hmem
          have hmin : min r.1.rm.ax n = r.1.stored.length := by
            rw [hax hcarry] at hle ⊢
            exact Nat.min_eq_left hle
          generalize hm' : (({ m with i21Thunk := t } : Machine σ).withMem mem stub).served
            ⟨rm, t.code, [], r.1.stored⟩ r.2 = m' at hnew ⊢
          have hbounce : m'.bounce = mem := by rw [← hm']; rfl
          have hhits : hits m' irqs.out = hits m irqs.out := by
            rw [← hm']
            exact funext fun k => Machine.accepted_congr _ rfl rfl hseg
          obtain ⟨stub', -, hload⟩ := m'.loadBounce_eq irqs.out DOS_BOUNCE_DATA_OFFSET 0
            r.1.stored.length
          have hcalls : ∀ mem', newCalls m (m'.withMem mem' stub') = newCalls m m' := fun _ => rfl
          simp only [result, hcarry, Bool.false_eq_true, if_false, hmin, hload, hcalls, hnew,
            List.mem_singleton, forall_eq, Except.ok.injEq, forall_eq', false_or]
          rw [hbounce, hmem]
          exact hhits ▸ transfer_eq_iff _ _ _ _ r.1.stored _

/-- `open` and `creat` hand DOS exactly the caller's path, `write` hands it
exactly the first bytes of the caller's buffer and `read` returns exactly what
DOS stored, each under its own condition on the packets that arrive. -/
theorem file_calls_under_traffic (irqs : CallIrqs) (path : CString) (mode : Nat) (fd : Int)
    (buf : List UInt8) (count : Nat) (m : Machine σ) :
    ((∀ c ∈ newCalls m (dosInt21Open d irqs path mode m).2, c.taken = path.asciiz) ↔
        PathSafe d irqs path (openRegs m mode) m) ∧
      ((∀ c ∈ newCalls m (dosInt21Creat d irqs path m).2, c.taken = path.asciiz) ↔
        PathSafe d irqs path (creatRegs m) m) ∧
      ((∀ c ∈ newCalls m (dosInt21Write d irqs fd buf m).2,
          c.taken = buf.take DOS_BOUNCE_DATA_MAX) ↔ WriteSafe d irqs fd buf m) ∧
      ((∀ c ∈ newCalls m (dosInt21Read d irqs fd count m).2,
          ∀ bs, (dosInt21Read d irqs fd count m).1 = .ok bs → bs = c.stored) ↔
        ReadSafe d irqs fd count m) :=
  ⟨pathCall_hands_iff d (Or.inl (ah_openRegs m mode)) rfl,
    pathCall_hands_iff d (Or.inr (ah_creatRegs m)) rfl,
    dosInt21Write_hands_iff d irqs fd buf m,
    dosInt21Read_returns_iff d irqs fd count m⟩

/-- A one-byte packet that arrives before DOS is entered replaces the path `A`. -/
theorem open_hands_packet :
    ¬∀ c ∈ newCalls (booted ()) (dosInt21Open idleDos
        { quietCall with enter := [⟨[0x42], by decide⟩] } ⟨[0x41], by simp⟩ 0 (booted ())).2,
      c.taken = [0x41, 0] := by
  decide

end FreedosMicroPython.Dos.Staging
