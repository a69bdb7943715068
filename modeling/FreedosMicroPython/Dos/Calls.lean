import FreedosMicroPython.Dos.Int21
/-!
# What a DOS call does to the machine

`entered` says how a call reaches real mode, if it does. `dosInt21Call_of_entered`
reduces a call to `int21` in that state. The rest of the module follows the
operands through the bounce paragraph while packets arrive.
-/

namespace FreedosMicroPython.Dos.Calls

open FreedosMicroPython.Lib.Memory FreedosMicroPython.Lib.Traffic
open FreedosMicroPython.Host FreedosMicroPython.Dos.Int21

variable {σ : Type} (d : World σ)

/-! ## Entering real mode -/

/-- The registers, the thunk and the world with which a call enters real mode;
`none` when the thunk cannot be armed or the DPMI host refuses. -/
def entered (rm : Rmcs) (m : Machine σ) : Option (Rmcs × Int21Thunk × σ) :=
  match thunkInit d m.i21PreallocThunkSeg m.i21Thunk m.world with
  | (false, _, _) => none
  | (true, t, s) =>
      let rm := entryRegs t m.rmStackSeg m.rmStackBytes rm
      match d.dpmi0301 rm s with
      | (true, _) => none
      | (false, s) => some (rm, repairThunk t, s)

theorem entered_congr {m m' : Machine σ} (rm : Rmcs)
    (hseg : m'.i21PreallocThunkSeg = m.i21PreallocThunkSeg) (hthunk : m'.i21Thunk = m.i21Thunk)
    (hstack : m'.rmStackSeg = m.rmStackSeg) (hbytes : m'.rmStackBytes = m.rmStackBytes)
    (hworld : m'.world = m.world) : entered d rm m' = entered d rm m := by
  simp only [entered, hseg, hthunk, hstack, hbytes, hworld]

theorem entered_regs {rm rm' : Rmcs} {m : Machine σ} {t : Int21Thunk} {s : σ}
    (h : entered d rm m = some (rm', t, s)) :
    rm'.ah = rm.ah ∧ rm'.cx = rm.cx ∧ rm'.dx = rm.dx := by
  unfold entered at h
  split at h
  · cases h
  · simp only at h
    split at h
    · cases h
    · simp only [Option.some.injEq, Prod.mk.injEq] at h
      obtain ⟨rfl, -, -⟩ := h
      exact ⟨rfl, rfl, rfl⟩

theorem dosInt21Call_of_entered {irqs : CallIrqs} {rm rm' : Rmcs} {m : Machine σ}
    {t : Int21Thunk} {s : σ} (h : entered d rm m = some (rm', t, s)) :
    dosInt21Call d irqs rm m =
      (some (int21 d irqs rm' ({ m with i21Thunk := t, world := s }.interrupts irqs.enter)).1,
        (int21 d irqs rm' ({ m with i21Thunk := t, world := s }.interrupts irqs.enter)).2) := by
  unfold entered at h
  split at h
  · cases h
  · rename_i t₀ s₀ hinit
    simp only at h
    split at h
    · cases h
    · rename_i s₁ hgate
      simp only [Option.some.injEq, Prod.mk.injEq] at h
      obtain ⟨rfl, rfl, rfl⟩ := h
      simp only [dosInt21Call, dosInt21ThunkInit, hinit, dpmi0301CallShallow]
      rw [hgate]

/-- A call that does not enter real mode changes the thunk, the world and what
interrupts change. -/
theorem dosInt21Call_of_not_entered (irqs : CallIrqs) {rm : Rmcs} {m : Machine σ}
    (h : entered d rm m = none) :
    ∃ t s fs, (fs = [] ∨ fs = irqs.enter) ∧ dosInt21Call d irqs rm m =
      (none, { m with i21Thunk := t, world := s }.interrupts fs) := by
  unfold entered at h
  split at h
  · rename_i t₀ s₀ hinit
    exact ⟨t₀, s₀, [], Or.inl rfl, by simp [dosInt21Call, dosInt21ThunkInit, hinit]⟩
  · rename_i t₀ s₀ hinit
    simp only at h
    split at h
    · rename_i s₁ hgate
      refine ⟨repairThunk t₀, s₁, irqs.enter, Or.inr rfl, ?_⟩
      simp only [dosInt21Call, dosInt21ThunkInit, hinit, dpmi0301CallShallow]
      rw [hgate]
    · cases h

/-! ## The operands -/

/-- What the service in `AH` finds at `DS:DX` while the bursts `hits` strike. -/
def operand (hits : Nat → List (List UInt8)) (rm : Rmcs) (mem : Mem UInt8) : List UInt8 :=
  if rm.ah = 0x3D ∨ rm.ah = 0x3C then (fetchUntil (· = 0) hits rm.dx 0 asciizLimit mem).1
  else if rm.ah = 0x40 then (fetch hits rm.dx 0 rm.cx mem).1
  else []

theorem takeOperand_eq (irqs : Nat → List Frame) (rm : Rmcs) (m : Machine σ) :
    ∃ mem s, s.bounceSeg = m.stub.bounceSeg ∧ (rm.ah = 0x3F → mem = m.bounce) ∧
      takeOperand irqs rm m =
        (operand (fun k => m.accepted (irqs k)) rm m.bounce, m.withMem mem s) := by
  unfold takeOperand operand
  by_cases hpath : rm.ah = 0x3D ∨ rm.ah = 0x3C
  · obtain ⟨s, hseg, hload⟩ := m.loadAsciiz_eq irqs rm.dx 0 asciizLimit
    rw [if_pos hpath, if_pos hpath, hload]
    exact ⟨_, s, hseg, by omega, rfl⟩
  · by_cases hwrite : rm.ah = 0x40
    · obtain ⟨s, hseg, hload⟩ := m.loadBounce_eq irqs rm.dx 0 rm.cx
      rw [if_neg hpath, if_neg hpath, if_pos hwrite, if_pos hwrite, hload]
      exact ⟨_, s, hseg, by omega, rfl⟩
    · rw [if_neg hpath, if_neg hpath, if_neg hwrite, if_neg hwrite]
      exact ⟨m.bounce, m.stub, rfl, fun _ => rfl, rfl⟩

def answer (hits : Nat → List (List UInt8)) (rm : Rmcs) (mem : Mem UInt8) (w : σ) : Reply × σ :=
  d.int21 rm (operand hits rm mem) w

def dispatch (hits : Nat → List (List UInt8)) (rm : Rmcs) (m : Machine σ) : Dispatch :=
  ⟨rm, m.i21Thunk.code, operand hits rm m.bounce, (answer d hits rm m.bounce m.world).1.stored⟩

/-- `INT 21h` logs one dispatch with the operand it found, and leaves in the
bounce what it stored and the packets that arrived. -/
theorem int21_eq (irqs : CallIrqs) (rm : Rmcs) (m : Machine σ) :
    ∃ mem s, s.bounceSeg = m.stub.bounceSeg ∧
      (rm.ah = 0x3F → mem = strikes (stage (fun k => m.accepted (irqs.dos k)) rm.dx 0
        (answer d (fun k => m.accepted (irqs.dos k)) rm m.bounce m.world).1.stored m.bounce)
          (m.accepted irqs.leave)) ∧
      int21 d irqs rm m =
        ((answer d (fun k => m.accepted (irqs.dos k)) rm m.bounce m.world).1.rm,
          (m.withMem mem s).served (dispatch d (fun k => m.accepted (irqs.dos k)) rm m)
            (answer d (fun k => m.accepted (irqs.dos k)) rm m.bounce m.world).2) := by
  obtain ⟨mem₁, s₁, hseg₁, hmem₁, htake⟩ := takeOperand_eq irqs.dos rm m
  generalize hreply : answer d (fun k => m.accepted (irqs.dos k)) rm m.bounce m.world = r
  have hdos : d.int21 rm (operand (fun k => m.accepted (irqs.dos k)) rm m.bounce) m.world = r :=
    hreply
  let m₁ := (m.withMem mem₁ s₁).served (dispatch d (fun k => m.accepted (irqs.dos k)) rm m) r.2
  have hacc : ∀ fs, m₁.accepted fs = m.accepted fs := fun fs =>
    Machine.accepted_congr fs rfl rfl hseg₁
  obtain ⟨s₂, hseg₂, hstore⟩ :=
    m₁.storeBounce_interrupts_eq irqs.dos rm.dx r.1.stored irqs.leave
  simp only [hacc] at hstore
  refine ⟨strikes (stage (fun k => m.accepted (irqs.dos k)) rm.dx 0 r.1.stored mem₁)
    (m.accepted irqs.leave), s₂, hseg₂.trans hseg₁, fun hread => by rw [hmem₁ hread], ?_⟩
  unfold int21
  simp only [htake, Machine.withMem_world, hdos]
  have hcode : (⟨rm, (m.withMem mem₁ s₁).i21Thunk.code, operand (fun k => m.accepted (irqs.dos k))
      rm m.bounce, r.1.stored⟩ : Dispatch) =
        dispatch d (fun k => m.accepted (irqs.dos k)) rm m := by
    rw [dispatch, hreply, Machine.withMem_i21Thunk]
  rw [hcode]
  exact congrArg (r.1.rm, ·) hstore

/-! ## The call as a whole -/

/-- The bursts that the packets of a schedule become in this state. -/
abbrev hits (m : Machine σ) (irqs : Nat → List Frame) : Nat → List (List UInt8) :=
  fun k => m.accepted (irqs k)

theorem hits_withMem (m : Machine σ) (mem : Mem UInt8) {s : Stub}
    (h : s.bounceSeg = m.stub.bounceSeg) (irqs : Nat → List Frame) :
    hits (m.withMem mem s) irqs = hits m irqs := Machine.accepted_withMem m mem h irqs

/-- The operand DOS finds when the call enters real mode with `rm`. -/
def operandAt (irqs : CallIrqs) (rm : Rmcs) (m : Machine σ) : List UInt8 :=
  operand (hits m irqs.dos) rm (strikes m.bounce (m.accepted irqs.enter))

def answerAt (irqs : CallIrqs) (rm : Rmcs) (m : Machine σ) (s : σ) : Reply × σ :=
  d.int21 rm (operandAt irqs rm m) s

/-- A call that enters real mode logs one dispatch, and only the bounce, the
stub's words, the thunk, the world and the log change. -/
theorem dosInt21Call_served (irqs : CallIrqs) {rm rm' : Rmcs} {m : Machine σ}
    {t : Int21Thunk} {s : σ} (h : entered d rm m = some (rm', t, s)) :
    ∃ mem stub, stub.bounceSeg = m.stub.bounceSeg ∧
      (rm.ah = 0x3F → mem = strikes (stage (hits m irqs.dos) rm.dx 0
        (answerAt d irqs rm' m s).1.stored (strikes m.bounce (m.accepted irqs.enter)))
          (m.accepted irqs.leave)) ∧
      dosInt21Call d irqs rm m =
        (some (answerAt d irqs rm' m s).1.rm,
          ({ m with i21Thunk := t }.withMem mem stub).served
            ⟨rm', t.code, operandAt irqs rm' m, (answerAt d irqs rm' m s).1.stored⟩
            (answerAt d irqs rm' m s).2) := by
  obtain ⟨hah, -, hdx⟩ := entered_regs d h
  obtain ⟨s₁, hseg₁, henter⟩ :=
    ({ m with i21Thunk := t, world := s } : Machine σ).interrupts_eq irqs.enter
  obtain ⟨mem, stub, hseg, hmem, hcall⟩ := int21_eq d irqs rm'
    (({ m with i21Thunk := t, world := s } : Machine σ).withMem
      (strikes m.bounce (m.accepted irqs.enter)) s₁)
  have hhits : ∀ fs, (({ m with i21Thunk := t, world := s } : Machine σ).withMem
      (strikes m.bounce (m.accepted irqs.enter)) s₁).accepted fs = m.accepted fs := fun fs =>
    Machine.accepted_congr fs rfl rfl hseg₁
  simp only [hhits] at hmem hcall
  refine ⟨mem, stub, hseg.trans hseg₁, fun hread => ?_, ?_⟩
  · rw [← hdx]
    exact hmem (hah.trans hread)
  · rw [dosInt21Call_of_entered d h, henter]
    exact congrArg (fun r : Rmcs × Machine σ => (some r.1, r.2)) hcall

/-! ## Calls that no packet hits -/

/-- What a service finds at `DS:DX` when no packet arrives. -/
def quietOperand (rm : Rmcs) (mem : Mem UInt8) : List UInt8 := operand (fun _ => []) rm mem

theorem takeOperand_quiet (rm : Rmcs) (m : Machine σ) :
    takeOperand quiet rm m = (quietOperand rm m.bounce, m) := by
  have hhits : hits m quiet = fun _ => [] := funext fun _ => m.accepted_nil
  obtain ⟨mem, s, -, -, htake⟩ := takeOperand_eq quiet rm m
  have hsnd : (takeOperand quiet rm m).2 = m := by
    unfold takeOperand
    split
    · exact m.loadAsciiz_quiet _ _ _
    · split
      · rw [Machine.loadBounce_quiet]
      · rfl
  refine Prod.ext ?_ hsnd
  rw [htake, quietOperand, ← hhits]

def quietAnswer (rm : Rmcs) (m : Machine σ) (s : σ) : Reply × σ :=
  d.int21 rm (quietOperand rm m.bounce) s

theorem dosInt21Call_quiet {rm rm' : Rmcs} {m : Machine σ} {t : Int21Thunk} {s : σ}
    (h : entered d rm m = some (rm', t, s)) :
    dosInt21Call d quietCall rm m =
      (some (quietAnswer d rm' m s).1.rm,
        ({ m with i21Thunk := t }.withMem
          (blit m.bounce rm.dx (quietAnswer d rm' m s).1.stored) m.stub).served
          ⟨rm', t.code, quietOperand rm' m.bounce, (quietAnswer d rm' m s).1.stored⟩
          (quietAnswer d rm' m s).2) := by
  have hstore : ∀ off bs (m : Machine σ), m.storeBounce quietCall.dos off 0 bs =
      m.withMem (blit m.bounce off bs) m.stub := fun off bs m => m.storeBounce_quiet off 0 bs
  have hleave : ∀ m : Machine σ, m.interrupts quietCall.leave = m := Machine.interrupts_nil
  rw [dosInt21Call_of_entered d h, show quietCall.enter = [] from rfl, Machine.interrupts_nil,
    ← (entered_regs d h).2.2]
  unfold int21
  rw [show quietCall.dos = quiet from rfl, takeOperand_quiet]
  simp only [← show quietCall.dos = quiet from rfl, hstore, hleave]
  rfl

end FreedosMicroPython.Dos.Calls
