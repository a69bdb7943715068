import Mathlib.Logic.Function.Basic
import Mathlib.Tactic.Common
/-!
# A part of the 8086

Real-mode addresses, registers and flags, and some of the instructions, from their bytes
to their effect. `callFar` runs a routine up to its far return. The flag AF is left out:
nothing here reads it.

`Returned P n s Q` says that the routine entered in `s` returns after at most `n`
instructions, that `P` held before each of them and `Q` holds afterwards.
-/

namespace FreedosMicroPython.Lib.I8086

abbrev Byte := BitVec 8
abbrev Word := BitVec 16

abbrev Memory := BitVec 20 → Byte

/-- The address `seg:off`, which wraps at the end of the megabyte. -/
def phys (seg off : Word) : BitVec 20 := BitVec.ofNat 20 (seg.toNat * 16 + off.toNat)

def wordOf (lo hi : Byte) : Word := BitVec.ofNat 16 (lo.toNat + 256 * hi.toNat)

/-- A word at the end of a segment continues at its start. -/
def loadWord (m : Memory) (seg off : Word) : Word :=
  wordOf (m (phys seg off)) (m (phys seg (off + 1)))

def storeWord (m : Memory) (seg off w : Word) : Memory :=
  Function.update (Function.update m (phys seg off) (BitVec.ofNat 8 w.toNat))
    (phys seg (off + 1)) (BitVec.ofNat 8 (w.toNat / 256))

/-! ## The machine -/

inductive Reg where
  | ax | cx | dx | bx | sp | bp | si | di
  deriving DecidableEq, Repr

inductive SegReg where
  | es | cs | ss | ds
  deriving DecidableEq, Repr

structure State where
  ax : Word
  cx : Word
  dx : Word
  bx : Word
  sp : Word
  bp : Word
  si : Word
  di : Word
  es : Word
  cs : Word
  ss : Word
  ds : Word
  ip : Word
  cf : Bool
  pf : Bool
  zf : Bool
  sf : Bool
  of : Bool
  mem : Memory

namespace State

variable (s : State)

def reg : Reg → Word
  | .ax => s.ax
  | .cx => s.cx
  | .dx => s.dx
  | .bx => s.bx
  | .sp => s.sp
  | .bp => s.bp
  | .si => s.si
  | .di => s.di

def setReg (v : Word) : Reg → State
  | .ax => { s with ax := v }
  | .cx => { s with cx := v }
  | .dx => { s with dx := v }
  | .bx => { s with bx := v }
  | .sp => { s with sp := v }
  | .bp => { s with bp := v }
  | .si => { s with si := v }
  | .di => { s with di := v }

def seg : SegReg → Word
  | .es => s.es
  | .cs => s.cs
  | .ss => s.ss
  | .ds => s.ds

def setSeg (v : Word) : SegReg → State
  | .es => { s with es := v }
  | .cs => { s with cs := v }
  | .ss => { s with ss := v }
  | .ds => { s with ds := v }

/-- The bytes at `cs:ip`, as many as the longest instruction here has. -/
def window : List Byte :=
  (List.range 7).map fun k => s.mem (phys s.cs (s.ip + BitVec.ofNat 16 k))

end State

/-! ## Instructions -/

inductive Operand where
  | reg (r : Reg)
  /-- At the sum of the registers and the displacement. -/
  | mem (seg : SegReg) (base : List Reg) (disp : Word)
  | imm (v : Word)
  deriving DecidableEq, Repr

inductive Alu where
  | add | or | and | sub | xor | cmp
  deriving DecidableEq, Repr

inductive Instr where
  | alu (op : Alu) (dst src : Operand)
  | mov (dst src : Operand)
  | movSeg (dst : SegReg) (src : Operand)
  /-- The condition by its code, the displacement from the next instruction. -/
  | jcc (cc : Nat) (disp : Word)
  | nop
  | retf
  deriving DecidableEq, Repr

namespace State

variable (s : State)

def offset (base : List Reg) (disp : Word) : Word := base.foldl (fun a r => a + s.reg r) disp

def load : Operand → Word
  | .reg r => s.reg r
  | .mem seg base disp => loadWord s.mem (s.seg seg) (s.offset base disp)
  | .imm v => v

def store (v : Word) : Operand → State
  | .reg r => s.setReg v r
  | .mem seg base disp =>
      { s with mem := storeWord s.mem (s.seg seg) (s.offset base disp) v }
  | .imm _ => s

/-- The parity flag looks at the low byte. -/
def parity (v : Word) : Bool := (List.range 8).foldl (fun p i => p ^^ v.getLsbD i) true

def setFlags (v : Word) (carry overflow : Bool) : State :=
  { s with cf := carry, pf := parity v, zf := v == 0, sf := v.msb, of := overflow }

def alu (op : Alu) (dst : Operand) (a b : Word) : State :=
  match op with
  | .add => (s.setFlags (a + b) (a.uaddOverflow b) (a.saddOverflow b)).store (a + b) dst
  | .or => (s.setFlags (a ||| b) false false).store (a ||| b) dst
  | .and => (s.setFlags (a &&& b) false false).store (a &&& b) dst
  | .sub => (s.setFlags (a - b) (a.usubOverflow b) (a.ssubOverflow b)).store (a - b) dst
  | .xor => (s.setFlags (a ^^^ b) false false).store (a ^^^ b) dst
  | .cmp => s.setFlags (a - b) (a.usubOverflow b) (a.ssubOverflow b)

def cond (cc : Nat) : Bool :=
  let holds := match cc / 2 with
    | 0 => s.of
    | 1 => s.cf
    | 2 => s.zf
    | 3 => s.cf || s.zf
    | 4 => s.sf
    | 5 => s.pf
    | 6 => s.sf ^^ s.of
    | _ => s.zf || (s.sf ^^ s.of)
  if cc % 2 = 0 then holds else !holds

def exec : Instr → State
  | .alu op dst src => s.alu op dst (s.load dst) (s.load src)
  | .mov dst src => s.store (s.load src) dst
  | .movSeg dst src => s.setSeg (s.load src) dst
  | .jcc cc disp => if s.cond cc then { s with ip := s.ip + disp } else s
  | .nop => s
  | .retf =>
      { s with
        ip := loadWord s.mem s.ss s.sp
        cs := loadWord s.mem s.ss (s.sp + 2)
        sp := s.sp + 4 }

end State

theorem State.exec_jcc_taken {s : State} {cc : Nat} (disp : Word) (h : s.cond cc = true) :
    s.exec (.jcc cc disp) = { s with ip := s.ip + disp } := if_pos h

theorem State.exec_jcc_not_taken {s : State} {cc : Nat} (disp : Word) (h : s.cond cc = false) :
    s.exec (.jcc cc disp) = s := by
  rw [exec, h, if_neg Bool.false_ne_true]

/-! ## Decoding -/

abbrev Decoder := StateT (List Byte) Option

def byte : Decoder Byte
  | [] => none
  | b :: bs => some (b, bs)

def imm16 : Decoder Word := do
  let lo ← byte
  let hi ← byte
  pure (wordOf lo hi)

def imm8 : Decoder Word := do
  let b ← byte
  pure (b.signExtend 16)

def Reg.ofCode : Nat → Reg
  | 0 => .ax
  | 1 => .cx
  | 2 => .dx
  | 3 => .bx
  | 4 => .sp
  | 5 => .bp
  | 6 => .si
  | _ => .di

/-- No instruction here loads `cs`. -/
def SegReg.ofCode : Nat → Option SegReg
  | 0 => some .es
  | 2 => some .ss
  | 3 => some .ds
  | _ => none

def Alu.ofCode : Nat → Option Alu
  | 0 => some .add
  | 1 => some .or
  | 4 => some .and
  | 5 => some .sub
  | 6 => some .xor
  | 7 => some .cmp
  | _ => none

def segPrefix : Nat → Option SegReg
  | 0x26 => some .es
  | 0x2E => some .cs
  | 0x36 => some .ss
  | 0x3E => some .ds
  | _ => none

def baseRegs : Nat → List Reg
  | 0 => [.bx, .si]
  | 1 => [.bx, .di]
  | 2 => [.bp, .si]
  | 3 => [.bp, .di]
  | 4 => [.si]
  | 5 => [.di]
  | 6 => [.bp]
  | _ => [.bx]

def baseOperand (override : Option SegReg) (base : List Reg) (disp : Word) : Operand :=
  .mem (override.getD (if .bp ∈ base then .ss else .ds)) base disp

/-- The ModR/M byte and its displacement: the register field and the operand. -/
def modRm (override : Option SegReg) : Decoder (Nat × Operand) := do
  let b ← byte
  let code := b.toNat / 8 % 8
  let rm := b.toNat % 8
  match b.toNat / 64 with
  | 3 => pure (code, .reg (Reg.ofCode rm))
  | 2 => do
      let disp ← imm16
      pure (code, baseOperand override (baseRegs rm) disp)
  | 1 => do
      let disp ← imm8
      pure (code, baseOperand override (baseRegs rm) disp)
  | _ =>
      if rm = 6 then do
        let disp ← imm16
        pure (code, baseOperand override [] disp)
      else pure (code, baseOperand override (baseRegs rm) 0)

def opcode (override : Option SegReg) (b : Nat) : Decoder Instr :=
  if b < 0x40 ∧ b % 8 = 1 then do
    let (code, dst) ← modRm override
    let op ← StateT.lift (Alu.ofCode (b / 8))
    pure (.alu op dst (.reg (Reg.ofCode code)))
  else if b / 16 = 7 then do
    let disp ← imm8
    pure (.jcc (b % 16) disp)
  else match b with
  | 0x81 => do
      let (code, dst) ← modRm override
      let op ← StateT.lift (Alu.ofCode code)
      let v ← imm16
      pure (.alu op dst (.imm v))
  | 0x83 => do
      let (code, dst) ← modRm override
      let op ← StateT.lift (Alu.ofCode code)
      let v ← imm8
      pure (.alu op dst (.imm v))
  | 0x89 => do
      let (code, dst) ← modRm override
      pure (.mov dst (.reg (Reg.ofCode code)))
  | 0x8E => do
      let (code, src) ← modRm override
      let dst ← StateT.lift (SegReg.ofCode code)
      pure (.movSeg dst src)
  | 0x90 => pure .nop
  | 0xA1 => do
      let disp ← imm16
      pure (.mov (.reg .ax) (baseOperand override [] disp))
  | 0xC7 => do
      let (code, dst) ← modRm override
      if code = 0 then do
        let v ← imm16
        pure (.mov dst (.imm v))
      else StateT.lift none
  | 0xCB => pure .retf
  | _ => StateT.lift none

/-- An instruction, with at most one segment prefix. -/
def instr : Decoder Instr := do
  let b ← byte
  match segPrefix b.toNat with
  | some seg => do
      let b ← byte
      opcode (some seg) b.toNat
  | none => opcode none b.toNat

def instrAt (code : List Byte) (i : Nat) : Option (Instr × Nat) :=
  (instr ((code.drop i).take 7)).map fun r =>
    (r.1, ((code.drop i).take 7).length - r.2.length)

/-- Where the instructions of a block begin when they are read one after the other. -/
def starts (code : List Byte) : Nat → Nat → List Nat
  | 0, _ => []
  | n + 1, i =>
      match instrAt code i with
      | none => []
      | some (_, len) => i :: starts code n (i + len)

/-! ## Running -/

def fetch (s : State) : Option (Instr × Word) :=
  (instr s.window).map fun r => (r.1, BitVec.ofNat 16 (s.window.length - r.2.length))

/-- Execute up to a far return: the states before each instruction, and the last one. -/
def callFar : Nat → State → Option (List State × State)
  | 0, _ => none
  | n + 1, s =>
      match fetch s with
      | none => none
      | some (ins, len) =>
          let t := State.exec { s with ip := s.ip + len } ins
          if ins = .retf then some ([s], t)
          else (callFar n t).map fun r => (s :: r.1, r.2)

def Returned (P : State → Prop) (n : Nat) (s : State) (Q : State → Prop) : Prop :=
  ∃ ts s', callFar n s = some (ts, s') ∧ (∀ t ∈ ts, P t) ∧ Q s'

section Rules

variable {P Q : State → Prop} {n : Nat} {s : State} {ins : Instr} {len : Word}

theorem Returned.retf (hfetch : fetch s = some (.retf, len)) (hP : P s)
    (hQ : Q (State.exec { s with ip := s.ip + len } .retf)) : Returned P (n + 1) s Q := by
  refine ⟨[s], _, ?_, by simpa using hP, hQ⟩
  simp only [callFar, hfetch, if_true]

theorem Returned.step (hfetch : fetch s = some (ins, len)) (hne : ins ≠ .retf) (hP : P s)
    (hrest : Returned P n (State.exec { s with ip := s.ip + len } ins) Q) :
    Returned P (n + 1) s Q := by
  obtain ⟨ts, s', hcall, hall, hQ⟩ := hrest
  refine ⟨s :: ts, s', ?_, ?_, hQ⟩
  · simp only [callFar, hfetch, if_neg hne, hcall, Option.map_some]
  · intro t ht
    rcases List.mem_cons.mp ht with rfl | ht
    · exact hP
    · exact hall t ht

end Rules

/-! ## Decoding does not look ahead -/

/-- What follows an instruction does not change how it is read. -/
def Stable {α : Type} (d : Decoder α) : Prop :=
  ∀ bs a rest tail, d bs = some (a, rest) → d (bs ++ tail) = some (a, rest ++ tail)

namespace Stable

variable {α β : Type}

theorem pure (a : α) : Stable (Pure.pure a : Decoder α) := by
  intro bs b rest tail h
  obtain ⟨rfl, rfl⟩ := Prod.mk.inj (Option.some.inj h)
  rfl

theorem bind {d : Decoder α} {e : α → Decoder β} (hd : Stable d) (he : ∀ a, Stable (e a)) :
    Stable (d >>= e) := by
  intro bs b rest tail h
  obtain ⟨⟨a, mid⟩, hfirst, hrest⟩ : ∃ r, d bs = some r ∧ e r.1 r.2 = some (b, rest) :=
    Option.bind_eq_some_iff.mp h
  have happend := hd bs a mid tail hfirst
  exact Option.bind_eq_some_iff.mpr ⟨(a, mid ++ tail), happend, he a mid b rest tail hrest⟩

theorem lift (o : Option α) : Stable (StateT.lift o : Decoder α) := by
  intro bs a rest tail h
  obtain ⟨b, ho, hb⟩ := Option.bind_eq_some_iff.mp h
  obtain ⟨rfl, rfl⟩ := Prod.mk.inj (Option.some.inj hb)
  exact Option.bind_eq_some_iff.mpr ⟨b, ho, rfl⟩

theorem byte : Stable I8086.byte := by
  intro bs a rest tail h
  cases bs with
  | nil => exact nomatch h
  | cons b bs =>
      obtain ⟨rfl, rfl⟩ := Prod.mk.inj (Option.some.inj h)
      rfl

theorem imm16 : Stable I8086.imm16 := byte.bind fun _ => byte.bind fun _ => Stable.pure _

theorem imm8 : Stable I8086.imm8 := byte.bind fun _ => Stable.pure _

theorem modRm (override : Option SegReg) : Stable (I8086.modRm override) := by
  apply byte.bind
  intro b
  dsimp only
  split
  · exact Stable.pure _
  · exact imm16.bind fun _ => Stable.pure _
  · exact imm8.bind fun _ => Stable.pure _
  · split
    · exact imm16.bind fun _ => Stable.pure _
    · exact Stable.pure _

theorem opcode (override : Option SegReg) (b : Nat) : Stable (I8086.opcode override b) := by
  have hrm := modRm override
  unfold I8086.opcode
  split
  · exact hrm.bind fun _ => (lift _).bind fun _ => Stable.pure _
  split
  · exact imm8.bind fun _ => Stable.pure _
  split
  · exact hrm.bind fun _ => (lift _).bind fun _ => imm16.bind fun _ => Stable.pure _
  · exact hrm.bind fun _ => (lift _).bind fun _ => imm8.bind fun _ => Stable.pure _
  · exact hrm.bind fun _ => Stable.pure _
  · exact hrm.bind fun _ => (lift _).bind fun _ => Stable.pure _
  · exact Stable.pure _
  · exact imm16.bind fun _ => Stable.pure _
  · apply hrm.bind
    intro r
    dsimp only
    split
    · exact imm16.bind fun _ => Stable.pure _
    · exact lift none
  · exact Stable.pure _
  · exact lift none

theorem instr : Stable I8086.instr := by
  apply byte.bind
  intro b
  split
  · exact byte.bind fun _ => opcode _ _
  · exact opcode _ _

end Stable

/-! ## Code in memory -/

def CodeAt (m : Memory) (seg off : Word) (code : List Byte) : Prop :=
  ∀ i (h : i < code.length), m (phys seg (off + BitVec.ofNat 16 i)) = code[i]

theorem window_codeAt {s : State} {off : Word} {code : List Byte} {i : Nat}
    (hcode : CodeAt s.mem s.cs off code) (hip : s.ip = off + BitVec.ofNat 16 i) :
    ∃ tail, s.window = (code.drop i).take 7 ++ tail := by
  refine ⟨s.window.drop ((code.drop i).take 7).length, ?_⟩
  have hlen : s.window.length = 7 := by simp [State.window]
  have htake : s.window.take ((code.drop i).take 7).length = (code.drop i).take 7 := by
    apply List.ext_getElem
    · simp only [List.length_take, hlen]
      omega
    · intro k hk hk'
      have hin : i + k < code.length := by
        simp only [List.length_take, List.length_drop] at hk'
        omega
      have hbyte := hcode (i + k) hin
      rw [BitVec.ofNat_add, ← BitVec.add_assoc, ← hip] at hbyte
      simp only [List.getElem_take, List.getElem_drop, State.window, List.getElem_map,
        List.getElem_range, hbyte]
  conv_lhs => rw [← List.take_append_drop ((code.drop i).take 7).length s.window, htake]

theorem fetch_codeAt {s : State} {off : Word} {code : List Byte} {i len : Nat} {ins : Instr}
    (hcode : CodeAt s.mem s.cs off code) (hip : s.ip = off + BitVec.ofNat 16 i)
    (hins : instrAt code i = some (ins, len)) :
    fetch s = some (ins, BitVec.ofNat 16 len) := by
  obtain ⟨tail, hwindow⟩ := window_codeAt hcode hip
  obtain ⟨⟨ins', rest⟩, hread, hpair⟩ := Option.map_eq_some_iff.mp hins
  obtain ⟨rfl, rfl⟩ := Prod.mk.inj hpair
  rw [fetch, hwindow, Stable.instr _ _ _ tail hread, Option.map_some]
  simp only [List.length_append, Nat.add_sub_add_right]

/-! ## Memory -/

theorem phys_inj {seg a b : Word} : phys seg a = phys seg b ↔ a = b := by
  constructor
  · intro h
    have hmod := congrArg BitVec.toNat h
    simp only [phys, BitVec.toNat_ofNat] at hmod
    apply BitVec.eq_of_toNat_eq
    have ha := a.isLt
    have hb := b.isLt
    omega
  · rintro rfl
    rfl

theorem storeWord_apart {m : Memory} {seg off w : Word} {a : BitVec 20} (hlo : a ≠ phys seg off)
    (hhi : a ≠ phys seg (off + 1)) : storeWord m seg off w a = m a := by
  rw [storeWord, Function.update_of_ne hhi, Function.update_of_ne hlo]

theorem loadWord_storeWord_apart {m : Memory} {seg a b w : Word} (h : a ≠ b) (hlo : a ≠ b + 1)
    (hhi : a + 1 ≠ b) : loadWord (storeWord m seg b w) seg a = loadWord m seg a := by
  have hne : ∀ {c d : Word}, c ≠ d → phys seg c ≠ phys seg d := fun h heq => h (phys_inj.mp heq)
  have hnext : a + 1 ≠ b + 1 := by bv_omega
  rw [loadWord, storeWord_apart (hne h) (hne hlo), storeWord_apart (hne hhi) (hne hnext), loadWord]

theorem loadWord_storeWord (m : Memory) (seg off w : Word) :
    loadWord (storeWord m seg off w) seg off = w := by
  have hne : off ≠ off + 1 := by bv_omega
  have hne : phys seg off ≠ phys seg (off + 1) := fun h => hne (phys_inj.mp h)
  rw [loadWord, storeWord, Function.update_self, Function.update_of_ne hne, Function.update_self]
  apply BitVec.eq_of_toNat_eq
  have hlt := w.isLt
  simp only [wordOf, BitVec.toNat_ofNat]
  omega

theorem CodeAt.storeWord {m : Memory} {seg off off' w : Word} {code : List Byte}
    (h : CodeAt m seg off code)
    (hlo : ∀ i < code.length, off + BitVec.ofNat 16 i ≠ off')
    (hhi : ∀ i < code.length, off + BitVec.ofNat 16 i ≠ off' + 1) :
    CodeAt (storeWord m seg off' w) seg off code := by
  intro i hi
  rw [storeWord_apart (fun heq => hlo i hi (phys_inj.mp heq))
    fun heq => hhi i hi (phys_inj.mp heq)]
  exact h i hi

def storeBytes (m : Memory) (seg off : Word) : List Byte → Memory
  | [] => m
  | b :: bs => storeBytes (Function.update m (phys seg off) b) seg (off + 1) bs

theorem storeBytes_apart {m : Memory} {seg off : Word} {bs : List Byte} {a : BitVec 20}
    (h : ∀ i < bs.length, a ≠ phys seg (off + BitVec.ofNat 16 i)) :
    storeBytes m seg off bs a = m a := by
  induction bs generalizing m off with
  | nil => rfl
  | cons b bs ih =>
      have hfirst : a ≠ phys seg off := by simpa using h 0 (by simp)
      rw [storeBytes, ih, Function.update_of_ne hfirst]
      intro i hi
      have hnext := h (i + 1) (by simpa using hi)
      rwa [Nat.add_comm, BitVec.ofNat_add, ← BitVec.add_assoc] at hnext

theorem codeAt_storeBytes (m : Memory) (seg off : Word) {bs : List Byte}
    (hlen : bs.length ≤ 0x10000) : CodeAt (storeBytes m seg off bs) seg off bs := by
  induction bs generalizing m off with
  | nil => exact fun i h => absurd h (Nat.not_lt_zero i)
  | cons b bs ih =>
      rw [List.length_cons] at hlen
      intro i hi
      cases i with
      | zero =>
          have hapart : ∀ k < bs.length, phys seg off ≠ phys seg (off + 1 + BitVec.ofNat 16 k) := by
            intro k hk heq
            have hoff := phys_inj.mp heq
            bv_omega
          rw [show off + BitVec.ofNat 16 0 = off from BitVec.add_zero off, storeBytes,
            storeBytes_apart hapart, Function.update_self, List.getElem_cons_zero]
      | succ i =>
          have hrest := ih (Function.update m (phys seg off) b) (off + 1) (by omega) i
            (by simpa using hi)
          have hoff : off + 1 + BitVec.ofNat 16 i = off + BitVec.ofNat 16 (i + 1) := by
            rw [BitVec.add_assoc, Nat.add_comm, BitVec.ofNat_add]
            rfl
          rw [hoff] at hrest
          exact hrest

/-- Writing elsewhere in the segment leaves code as it is. -/
theorem CodeAt.storeBytes {m : Memory} {seg off off' : Word} {code bs : List Byte}
    (h : CodeAt m seg off code)
    (hapart : ∀ i < code.length, ∀ k < bs.length,
      off + BitVec.ofNat 16 i ≠ off' + BitVec.ofNat 16 k) :
    CodeAt (storeBytes m seg off' bs) seg off code := by
  intro i hi
  rw [storeBytes_apart fun k hk heq => hapart i hi k hk (phys_inj.mp heq)]
  exact h i hi

end FreedosMicroPython.Lib.I8086
