import FreedosMicroPython.Lib.Runs
import FreedosMicroPython.Net.Requests
/-!
# Requests and the detected vector

Runs of `pktdrv_init` and `pktdrv_send`. Detection scans thirty-two vectors while the
thunk's code names one of them, and an interrupt raised in protected mode names none of
the handlers: what decides where the requests arrive is the vector that every
initialisation detects, and whether a request has to do without the thunk or the bounce.
-/

namespace FreedosMicroPython.Net.Requests

open FreedosMicroPython.Lib.Runs FreedosMicroPython.Host FreedosMicroPython.Net.Pktdrv
open FreedosMicroPython.Dos.Int21 (toU32)

variable {σ : Type} (p : Platform σ)

inductive Event where
  | init (mac : Nat)
  | send (addr : Nat) (buf : List UInt8)

def step (c : Client σ) : Event → Client σ
  | .init mac => (pktdrvInit p mac c).2
  | .send addr buf => (pktdrvSend p addr buf c).2

def searched (c : Client σ) : Client σ := (pktdrvDetect p (tryNe2k p c).2).2

def Answered (receiver typeOff : Nat) (c : Client σ) : Prop :=
  (p.dpmi (thunkRegs c.thunkSeg (accessRegs receiver typeOff c)) c.world).1 = false

def accessAnswer (receiver typeOff : Nat) (c : Client σ) : Rmcs × σ :=
  let rm := thunkRegs c.thunkSeg (accessRegs receiver typeOff c)
  p.int 0x60 rm [] (p.dpmi rm c.world).2

/-- The first registration is carried out, and if the driver accepts it so is the second, and
the address can be asked for through the bounce. -/
def Registers (receiver : Nat) (c : Client σ) : Prop :=
  Answered p receiver 6 c ∧ ((accessAnswer p receiver 6 c).1.carry = false →
    Answered p receiver 4 { c with world := (accessAnswer p receiver 6 c).2 } ∧ c.bounceSeg ≠ 0)

/-- The card answers itself, or no driver is found, or one at 0x60 that takes the registrations;
and a send to a packet driver goes through the bounce. -/
def Plain (c : Client σ) : Event → Prop
  | .init _ => (tryNe2k p c).1 = true ∨ (searched p c).intNum = 0 ∨
      (searched p c).intNum = 0x60 ∧
        Registers p (registeredReceiver p (searched p c)) (released p (searched p c))
  | .send _ buf => c.ne2kInitialized = true ∨ c.intNum = 0 ∨ PKTDRV_BOUNCE_SIZE < buf.length ∨
      c.bounceSeg ≠ 0

def Known (c : Client σ) : Prop := c.intNum = 0 ∨ c.intNum = -1 ∨ 0x60 ≤ c.intNum ∧ c.intNum < 0x80

theorem firstDriver_cases (is : List Nat) (s : σ) :
    (firstDriver p is s).1 = 0 ∨ (firstDriver p is s).1 ∈ is := by
  induction is generalizing s with
  | nil => exact .inl rfl
  | cons i is ih =>
      unfold firstDriver
      dsimp only
      split
      · exact .inr List.mem_cons_self
      · exact (ih _).imp_right (List.mem_cons_of_mem _)

theorem pktdrvDetect_spec (c : Client σ) :
    ∃ s, (pktdrvDetect p c).2 = { c with intNum := (pktdrvDetect p c).1, world := s } := by
  unfold pktdrvDetect
  split
  · exact ⟨c.world, rfl⟩
  · exact ⟨_, rfl⟩

theorem pktdrvDetect_known {c : Client σ} (hc : Known c) : Known (pktdrvDetect p c).2 := by
  unfold pktdrvDetect
  split
  · exact hc
  · rcases firstDriver_cases p (List.range' 0x60 0x20) c.world with h | h
    · left
      dsimp only
      rw [h]
      rfl
    · right
      right
      dsimp only
      rw [List.mem_range'_1] at h
      omega

theorem tryNe2k_cases (c : Client σ) :
    ((tryNe2k p c).1 = false ∧ ∃ s, (tryNe2k p c).2 = { c with world := s }) ∨
      ((tryNe2k p c).1 = true ∧ ∃ s,
        (tryNe2k p c).2 = { c with ne2kInitialized := true, intNum := -1, world := s }) := by
  unfold tryNe2k
  split
  · exact .inl ⟨rfl, c.world, rfl⟩
  · dsimp only
    split
    · exact .inr ⟨rfl, _, rfl⟩
    · exact .inl ⟨rfl, _, rfl⟩

/-- What `pktdrv_init` does: take the card, find no driver, or attach to the one found. -/
theorem pktdrvInit_cases (mac : Nat) (c : Client σ) :
    ((tryNe2k p c).1 = true ∧ ∃ s, (pktdrvInit p mac c).2 =
        { c with ne2kInitialized := true, intNum := -1, world := s }) ∨
      ((tryNe2k p c).1 = false ∧ (searched p c).intNum = 0 ∧
        (pktdrvInit p mac c).2 = searched p c) ∨
      ((tryNe2k p c).1 = false ∧ (searched p c).intNum ≠ 0 ∧
        (pktdrvInit p mac c).2 = (attach p mac (searched p c)).2) := by
  obtain ⟨s, hdetect⟩ := pktdrvDetect_spec p (tryNe2k p c).2
  have hintNum : (searched p c).intNum = (pktdrvDetect p (tryNe2k p c).2).1 := by
    rw [searched, hdetect]
  rcases tryNe2k_cases p c with ⟨hdirect, -⟩ | ⟨hdirect, s', hclient⟩
  · by_cases hfound : (searched p c).intNum = 0
    · refine .inr (.inl ⟨hdirect, hfound, ?_⟩)
      rw [hintNum] at hfound
      simp only [pktdrvInit, hdirect, hfound, Bool.false_eq_true, if_false, if_true, searched]
    · refine .inr (.inr ⟨hdirect, hfound, ?_⟩)
      rw [hintNum] at hfound
      simp only [pktdrvInit, hdirect, hfound, Bool.false_eq_true, if_false, searched]
  · refine .inl ⟨hdirect, s', ?_⟩
    simp only [pktdrvInit, hdirect, if_true, hclient]

theorem searched_spec {c : Client σ} (hdirect : (tryNe2k p c).1 = false) :
    (searched p c).ne2kInitialized = c.ne2kInitialized ∧
      (searched p c).requests = c.requests ∧
      (Wired c → Wired (searched p c)) ∧ (Known c → Known (searched p c)) := by
  rcases tryNe2k_cases p c with ⟨-, s, hclient⟩ | ⟨htrue, -⟩
  · obtain ⟨s', hdetect⟩ := pktdrvDetect_spec p (tryNe2k p c).2
    refine ⟨?_, ?_, fun hc => ?_, fun hc => ?_⟩
    · rw [searched, hdetect, hclient]
    · rw [searched, hdetect, hclient]
    · rw [searched, hdetect, hclient]
      exact hc
    · apply pktdrvDetect_known
      rw [hclient]
      exact hc
  · rw [hdirect] at htrue
    exact absurd htrue (by decide)

structure Sound (c : Client σ) : Prop where
  wired : Wired c
  known : Known c

theorem sound_powerUp (w : σ) : Sound (powerUp w) := ⟨fun h => absurd rfl h, .inl rfl⟩

theorem Leaves.sound {S : Request → Prop} {c c' : Client σ} (h : Leaves S c c') (hc : Known c) :
    Sound c' := by
  refine ⟨h.wired, ?_⟩
  rcases h.intNum with hintNum | hintNum
  · rw [Known, hintNum]
    exact hc
  · exact .inl hintNum

/-! ## Registrations -/

section
variable {c : Client σ} {rm : Rmcs} {receiver typeOff : Nat}

theorem dispatch_answered (hc : Wired c) (hseg : c.thunkSeg ≠ 0) (bytes : List UInt8)
    (hdpmi : (p.dpmi (thunkRegs c.thunkSeg rm) c.world).1 = false) :
    dispatch p rm bytes c =
      (some (p.int 0x60 (thunkRegs c.thunkSeg rm) bytes
        (p.dpmi (thunkRegs c.thunkSeg rm) c.world).2).1,
      { c with
        requests := c.requests ++ [⟨⟨c.vector, entry rm⟩, .handler ⟨0x60, entry rm⟩⟩]
        world := (p.int 0x60 (thunkRegs c.thunkSeg rm) bytes
          (p.dpmi (thunkRegs c.thunkSeg rm) c.world).2).2 }) := by
  have hraised : raised c.thunkCode = some 0x60 := by
    rw [hc hseg]
    decide
  rw [dispatch, if_pos hseg, callInt60Thunk, if_neg hseg]
  rcases hcall : p.dpmi (thunkRegs c.thunkSeg rm) c.world with ⟨carry, s⟩
  obtain rfl : carry = false := by rw [hcall] at hdpmi; exact hdpmi
  dsimp only
  rw [hcall, hraised]
  rfl

theorem dispatch_refused (hseg : c.thunkSeg ≠ 0) (bytes : List UInt8)
    (hdpmi : (p.dpmi (thunkRegs c.thunkSeg rm) c.world).1 ≠ false) :
    (dispatch p rm bytes c).1 = none := by
  rw [dispatch, if_pos hseg, callInt60Thunk, if_neg hseg]
  rcases hcall : p.dpmi (thunkRegs c.thunkSeg rm) c.world with ⟨carry, s⟩
  obtain rfl : carry = true := by rw [hcall] at hdpmi; exact eq_true_of_ne_false hdpmi
  dsimp only
  rw [hcall]

theorem pktdrvAccessOne_answered (hc : Wired c) (hseg : c.thunkSeg ≠ 0) (hintNum : c.intNum ≠ 0)
    (h : Answered p receiver typeOff c) :
    pktdrvAccessOne p receiver typeOff c =
      (if (accessAnswer p receiver typeOff c).1.carry then none
        else some (((accessAnswer p receiver typeOff c).1.eax &&& 0xFFFF : Nat) : Int),
      { c with
        requests := c.requests ++ [⟨⟨c.vector, entry (accessRegs receiver typeOff c)⟩,
          .handler ⟨0x60, entry (accessRegs receiver typeOff c)⟩⟩]
        world := (accessAnswer p receiver typeOff c).2 }) := by
  rw [pktdrvAccessOne, if_neg hintNum]
  dsimp only
  rw [dispatch_answered p hc hseg [] h]
  rfl

theorem pktdrvAccess_accepted (hc : Wired c) (hseg : c.thunkSeg ≠ 0) (hintNum : c.intNum ≠ 0)
    (h : Answered p receiver 6 c) (haccess : (pktdrvAccess p receiver c).1 = 0) :
    (accessAnswer p receiver 6 c).1.carry = false := by
  unfold pktdrvAccess at haccess
  rw [pktdrvAccessOne_answered p hc hseg hintNum h] at haccess
  cases hcarry : (accessAnswer p receiver 6 c).1.carry with
  | false => rfl
  | true =>
      rw [hcarry] at haccess
      cases haccess

theorem Registers.covers {S : Request → Prop} (hc : Wired c) (hseg : c.thunkSeg ≠ 0)
    (hintNum : c.intNum ≠ 0) (h : Registers p receiver c) : CoversRegister p S receiver c := by
  obtain ⟨hfirst, hrest⟩ := h
  refine ⟨⟨fun hnone => ?_, ?_⟩, fun haccess hzero => ?_, fun hzero => absurd hzero hseg⟩
  · rw [dispatch_answered p hc hseg [] hfirst] at hnone
    cases hnone
  · intro handle hhandle c' hnone
    have hone := pktdrvAccessOne_answered p hc hseg hintNum hfirst
    have hcarry : (accessAnswer p receiver 6 c).1.carry = false := by
      rw [hone] at hhandle
      by_contra hcarry
      rw [if_pos (eq_true_of_ne_false hcarry)] at hhandle
      cases hhandle
    have hsecond : Answered p receiver 4 c' := by
      simp only [c', hone]
      exact (hrest hcarry).1
    have hseg' : c'.thunkSeg ≠ 0 := by simpa only [c', hone] using hseg
    have hc' : Wired c' := by
      simp only [c', hone]
      exact hc
    rw [dispatch_answered p hc' hseg' [] hsecond] at hnone
    cases hnone
  · exact absurd hzero (hrest (pktdrvAccess_accepted p hc hseg hintNum hfirst haccess)).2

end

/-! ## Strays -/

def Strays (c : Client σ) : Prop := ∃ r ∈ c.requests, ¬Direct r

theorem Grows.strays {S : Request → Prop} {c c' : Client σ} (h : Grows S c c') (hc : Strays c) :
    Strays c' := by
  obtain ⟨r, hr, hnot⟩ := hc
  obtain ⟨new, hnew, -⟩ := h
  exact ⟨r, hnew ▸ List.mem_append_left _ hr, hnot⟩

theorem strays_bareInt (rm regs : Rmcs) (c : Client σ) : Strays (bareInt p rm regs c).2 :=
  ⟨_, List.mem_append_right _ (List.mem_singleton_self _), not_direct_gate _ _⟩

theorem strays_accessOne {receiver typeOff : Nat} {c : Client σ} (hseg : c.thunkSeg ≠ 0)
    (hintNum : c.intNum ≠ 0) (h : ¬Answered p receiver typeOff c) :
    Strays (pktdrvAccessOne p receiver typeOff c).2 := by
  have hnone := dispatch_refused p hseg [] h
  rw [pktdrvAccessOne, if_neg hintNum]
  dsimp only
  rcases hcall : dispatch p (accessRegs receiver typeOff c) [] c with ⟨_ | rm', c'⟩
  · exact strays_bareInt p _ _ c'
  · rw [hcall] at hnone
    cases hnone

theorem strays_getAddr (out : Nat) {c : Client σ} (hintNum : c.intNum ≠ 0) (hhandle : 0 ≤ c.handle)
    (hbounce : c.bounceSeg = 0) : Strays (pktdrvGetAddr p out c).2 := by
  rw [pktdrvGetAddr, if_neg (by omega), if_pos hbounce]
  exact strays_bareInt p _ _ c

theorem strays_send (addr : Nat) {buf : List UInt8} {c : Client σ} (h : SendsBare buf c) :
    Strays (pktdrvSend p addr buf c).2 := by
  obtain ⟨hne2k, hintNum, hlen, hbounce⟩ := h
  rw [pktdrvSend, if_neg (by simp [hne2k]), if_neg hintNum, if_neg (Nat.not_lt.mpr hlen),
    if_pos hbounce]
  exact strays_bareInt p _ _ c

theorem pktdrvAccess_grows (receiver : Nat) {c : Client σ} (hc : Wired c) :
    Grows Any (pktdrvAccessOne p receiver 6 c).2 (pktdrvAccess p receiver c).2 := by
  have hfirst : Follows Any c (pktdrvAccessOne p receiver 6 c).2 :=
    pktdrvAccessOne_follows p receiver 6 hc (covers_any c) fun _ _ => trivial
  unfold pktdrvAccess
  split
  · rename_i haccess
    rw [haccess]
    exact .of_eq rfl
  · rename_i handle c' haccess
    rw [haccess] at hfirst ⊢
    have hhandle := hfirst.withHandles handle c'.handleArp
    exact (pktdrvAccessOne_follows p receiver 4 (hhandle.wired hc) (covers_any _)
      fun _ _ => trivial).requests

theorem register_grows (mac receiver : Nat) {c : Client σ} (hc : Wired c) :
    Grows Any (pktdrvAccess p receiver c).2 (register p mac receiver c).2 := by
  obtain ⟨haccess, hbounce, hthunk⟩ := coversRegister_any p receiver c
  exact (register_accessed_leaves p mac receiver hc (covers_any c)
    (pktdrvAccess_follows p receiver hc (covers_any c) haccess) hbounce hthunk).requests

theorem callInt60Thunk_handle (rm : Rmcs) (bytes : List UInt8) (c : Client σ) :
    (callInt60Thunk p rm bytes c).2.handle = c.handle := by
  unfold callInt60Thunk
  split
  · rfl
  · dsimp only
    split
    · rfl
    · split <;> rfl

theorem dispatch_handle (rm : Rmcs) (bytes : List UInt8) (c : Client σ) :
    (dispatch p rm bytes c).2.handle = c.handle := by
  unfold dispatch dpmi0300
  split
  · exact callInt60Thunk_handle p rm bytes c
  · split <;> rfl

theorem pktdrvAccessOne_handle (receiver typeOff : Nat) (c : Client σ) :
    (pktdrvAccessOne p receiver typeOff c).2.handle = c.handle := by
  have hdispatch := dispatch_handle p (accessRegs receiver typeOff c) [] c
  unfold pktdrvAccessOne
  split
  · rfl
  · split
    · rename_i heq
      rw [heq] at hdispatch
      exact hdispatch
    · rename_i heq
      rw [heq] at hdispatch
      exact hdispatch

theorem setRcvMode_handle (c : Client σ) : (setRcvMode p c).handle = c.handle := by
  unfold setRcvMode
  split
  · exact callInt60Thunk_handle p _ [] c
  · rfl

theorem register_getAddr_grows (mac receiver : Nat) {c : Client σ} (hc : Wired c)
    (haccess : (pktdrvAccess p receiver c).1 = 0) :
    Grows Any (pktdrvGetAddr p mac (setRcvMode p (pktdrvAccess p receiver c).2)).2
      (register p mac receiver c).2 := by
  have hregister : Follows Any c (pktdrvAccess p receiver c).2 :=
    pktdrvAccess_follows p receiver hc (covers_any c) (coversRegister_any p receiver c).access
  have hmode := hregister.trans (setRcvMode_follows p (hregister.wired hc) (covers_any _))
  have haddr := hmode.trans (pktdrvGetAddr_follows p mac (hmode.wired hc) (covers_any _)
    fun _ _ => trivial)
  unfold register
  dsimp only
  rw [if_neg (not_not.mpr haccess)]
  split
  · exact .of_eq rfl
  · exact (pktdrvRegisterPollingRx_follows p (haddr.wired hc) (covers_any _)
      fun _ _ => trivial).requests

/-- Where the driver is not at 0x60, or a registration or the address cannot be dispatched, a
request goes astray. -/
theorem strays_register (mac : Nat) {receiver : Nat} {c : Client σ} (hc : Wired c)
    (hseg : c.thunkSeg ≠ 0) (hintNum : c.intNum ≠ 0)
    (h : ¬(c.vector = 0x60 ∧ Registers p receiver c)) :
    Strays (register p mac receiver c).2 := by
  have hregister := register_grows p mac receiver hc
  have haccess := pktdrvAccess_grows p receiver hc
  by_cases hfirst : Answered p receiver 6 c
  · have hone := pktdrvAccessOne_answered p hc hseg hintNum hfirst
    by_cases hvector : c.vector = 0x60
    · obtain ⟨hcarry, hsecond⟩ : (accessAnswer p receiver 6 c).1.carry = false ∧
          (Answered p receiver 4 { c with world := (accessAnswer p receiver 6 c).2 } →
            c.bounceSeg = 0) := by
        by_contra hnot
        exact h ⟨hvector, hfirst, fun hcarry => by
          by_contra hmissing
          exact hnot ⟨hcarry, fun hanswered => by
            by_contra hbounce
            exact hmissing ⟨hanswered, hbounce⟩⟩⟩
      rw [hcarry, if_neg Bool.false_ne_true] at hone
      by_cases hanswered : Answered p receiver 4 { c with world := (accessAnswer p receiver 6 c).2 }
      · have haccepted : (pktdrvAccess p receiver c).1 = 0 := by rw [pktdrvAccess, hone]
        have hfollows : Follows Any c (pktdrvAccess p receiver c).2 :=
          pktdrvAccess_follows p receiver hc (covers_any c) (coversRegister_any p receiver c).access
        have hmode := hfollows.trans (setRcvMode_follows p (hfollows.wired hc) (covers_any _))
        refine (register_getAddr_grows p mac receiver hc haccepted).strays
          (strays_getAddr p mac ?_ ?_ ?_)
        · rw [hmode.intNum]
          exact hintNum
        · rw [setRcvMode_handle, pktdrvAccess, hone]
          dsimp only
          rw [pktdrvAccessOne_handle]
          exact Int.natCast_nonneg _
        · rw [hmode.bounceSeg]
          exact hsecond hanswered
      · refine hregister.strays ?_
        rw [pktdrvAccess, hone]
        exact strays_accessOne p hseg hintNum hanswered
    · refine (haccess.trans hregister).strays ?_
      rw [hone]
      refine ⟨_, List.mem_append_right _ (List.mem_singleton_self _), fun hdirect => hvector ?_⟩
      exact (congrArg Arrival.vector (Place.handler.inj hdirect)).symm
  · exact (haccess.trans hregister).strays (strays_accessOne p hseg hintNum hfirst)

/-! ## Runs -/

theorem Sound.step {c : Client σ} (hc : Sound c) (e : Event) :
    Sound (step p c e) ∧ Grows Any c (step p c e) := by
  cases e with
  | send addr buf =>
      have hsend : Follows Any c (pktdrvSend p addr buf c).2 :=
        pktdrvSend_follows p addr buf hc.wired (covers_any c) fun _ _ => trivial
      exact ⟨(hsend.leaves hc.wired).sound hc.known, hsend.requests⟩
  | init mac =>
      show Sound (pktdrvInit p mac c).2 ∧ Grows Any c (pktdrvInit p mac c).2
      rcases pktdrvInit_cases p mac c with
        ⟨-, s, hinit⟩ | ⟨hdirect, -, hinit⟩ | ⟨hdirect, -, hinit⟩
      · rw [hinit]
        exact ⟨⟨hc.wired, .inr (.inl rfl)⟩, .of_eq rfl⟩
      · obtain ⟨-, hrequests, hwired, hknown⟩ := searched_spec p hdirect
        rw [hinit]
        exact ⟨⟨hwired hc.wired, hknown hc.known⟩, .of_eq hrequests⟩
      · obtain ⟨-, hrequests, hwired, hknown⟩ := searched_spec p hdirect
        have hattach := attach_leaves p mac (hwired hc.wired) (covers_any _)
          (coversRegister_any p _ _)
        have hsame : Grows Any c (searched p c) := .of_eq hrequests
        rw [hinit]
        exact ⟨hattach.sound (hknown hc.known), hsame.trans hattach.requests⟩

/-- What holds while every event is plain. -/
structure AllDirect (c : Client σ) : Prop where
  sound : Sound c
  intNum : c.ne2kInitialized = true ∨ c.intNum = 0 ∨ c.intNum = 0x60
  direct : ∀ r ∈ c.requests, Direct r

theorem Grows.direct {c c' : Client σ} (h : Grows Direct c c') (hc : ∀ r ∈ c.requests, Direct r) :
    ∀ r ∈ c'.requests, Direct r := by
  obtain ⟨new, hnew, hdirect⟩ := h
  intro r hr
  rw [hnew] at hr
  exact (List.mem_append.mp hr).elim (hc r) (hdirect r)

theorem vector_of_intNum {c : Client σ} (h : c.intNum = 0x60) : c.vector = 0x60 := by
  rw [Client.vector, h]
  decide

theorem covers_direct {c : Client σ} (h : c.intNum = 0x60) : Covers Direct c :=
  fun _ hr => direct_of_sent (vector_of_intNum h ▸ hr)

theorem pktdrvSend_requests (addr : Nat) (buf : List UInt8) {c : Client σ}
    (h : c.ne2kInitialized = true ∨ c.intNum = 0) :
    (pktdrvSend p addr buf c).2.requests = c.requests := by
  unfold pktdrvSend
  split
  · rfl
  · rename_i hne2k
    rw [if_pos (h.resolve_left hne2k)]

theorem not_sendsBare {buf : List UInt8} {c : Client σ} {addr : Nat}
    (h : Plain p c (.send addr buf)) : ¬SendsBare buf c := by
  rintro ⟨hne2k, hintNum, hlen, hbounce⟩
  rcases h with htrue | hnone | hlong | hpresent
  · rw [hne2k] at htrue
    exact absurd htrue (by decide)
  · exact hintNum hnone
  · omega
  · exact hpresent hbounce

theorem AllDirect.send {c : Client σ} (hc : AllDirect c) {addr : Nat} {buf : List UInt8}
    (hok : Plain p c (.send addr buf)) : AllDirect (pktdrvSend p addr buf c).2 := by
  have hsend : Follows Any c (pktdrvSend p addr buf c).2 :=
    pktdrvSend_follows p addr buf hc.sound.wired (covers_any c) fun _ _ => trivial
  refine ⟨(hsend.leaves hc.sound.wired).sound hc.sound.known, ?_, ?_⟩
  · rw [hsend.ne2k, hsend.intNum]
    exact hc.intNum
  · rcases or_assoc.mpr hc.intNum with hquiet | hfound
    · rw [pktdrvSend_requests p addr buf hquiet]
      exact hc.direct
    · have hdirect := pktdrvSend_follows p addr buf hc.sound.wired (covers_direct hfound)
        fun hbare => absurd hbare (not_sendsBare p hok)
      exact hdirect.requests.direct hc.direct

theorem released_spec {c : Client σ} (hc : Wired c) (hthunk : p.preallocThunkSeg ≠ 0) :
    Wired (released p c) ∧ (released p c).thunkSeg ≠ 0 ∧ (released p c).intNum = c.intNum := by
  obtain ⟨-, hintNum, -, hseg⟩ := ready_spec p c
  have hready := ready_wired p hc
  have hreleased : Follows Any (ready p c) (released p c) := released_follows p hc (covers_any c)
  exact ⟨hreleased.wired hready, hreleased.thunkSeg ▸ hseg hthunk, hreleased.intNum.trans hintNum⟩

theorem AllDirect.init {c : Client σ} (hc : AllDirect c) (hthunk : p.preallocThunkSeg ≠ 0)
    {mac : Nat} (hok : Plain p c (.init mac)) : AllDirect (pktdrvInit p mac c).2 := by
  have hsound : Sound (pktdrvInit p mac c).2 := (hc.sound.step p (.init mac)).1
  rcases pktdrvInit_cases p mac c with
    ⟨-, s, hinit⟩ | ⟨hdirect, hnone, hinit⟩ | ⟨hdirect, hfound, hinit⟩
  · rw [hinit] at hsound ⊢
    exact ⟨hsound, .inl rfl, hc.direct⟩
  · obtain ⟨-, hrequests, -, -⟩ := searched_spec p hdirect
    rw [hinit] at hsound ⊢
    exact ⟨hsound, .inr (.inl hnone), hrequests ▸ hc.direct⟩
  · obtain ⟨-, hrequests, hwired, -⟩ := searched_spec p hdirect
    obtain ⟨h60, hregisters⟩ : (searched p c).intNum = 0x60 ∧
        Registers p (registeredReceiver p (searched p c)) (released p (searched p c)) := by
      rcases hok with htrue | hnone | hregisters
      · rw [hdirect] at htrue
        exact absurd htrue (by decide)
      · exact absurd hnone hfound
      · exact hregisters
    have hwired := hwired hc.sound.wired
    obtain ⟨hreleased, hseg, hintNum⟩ := released_spec p hwired hthunk
    have hattach := attach_leaves p mac hwired (covers_direct h60)
      (hregisters.covers p hreleased hseg (hintNum ▸ hfound))
    rw [hinit] at hsound ⊢
    refine ⟨hsound, ?_, hattach.requests.direct (hrequests ▸ hc.direct)⟩
    rcases hattach.intNum with hsame | hforgotten
    · exact .inr (.inr (hsame.trans h60))
    · exact .inr (.inl hforgotten)

theorem AllDirect.step (hthunk : p.preallocThunkSeg ≠ 0) {c : Client σ} (e : Event)
    (hc : AllDirect c) (hok : Plain p c e) : AllDirect (step p c e) := by
  cases e with
  | init mac => exact hc.init p hthunk hok
  | send addr buf => exact hc.send p hok

theorem vector_ne {c : Client σ} (hc : Known c) (hzero : c.intNum ≠ 0) (h60 : c.intNum ≠ 0x60) :
    c.vector ≠ 0x60 := by
  rw [Client.vector, show (0xFF : Nat) = 2 ^ 8 - 1 from rfl, Nat.and_two_pow_sub_one_eq_mod]
  unfold toU32
  rcases hc with hzero' | hcard | ⟨hge, hlt⟩
  · exact absurd hzero' hzero
  · omega
  · omega

theorem strays_init {c : Client σ} (hc : Sound c) (hthunk : p.preallocThunkSeg ≠ 0) {mac : Nat}
    (h : ¬Plain p c (.init mac)) : Strays (pktdrvInit p mac c).2 := by
  obtain ⟨hcard, hother⟩ := not_or.mp h
  obtain ⟨hzero, h60⟩ := not_or.mp hother
  rcases pktdrvInit_cases p mac c with ⟨htrue, -⟩ | ⟨-, hnone, -⟩ | ⟨hdirect, -, hinit⟩
  · exact absurd htrue hcard
  · exact absurd hnone hzero
  · obtain ⟨-, -, hwired, hknown⟩ := searched_spec p hdirect
    obtain ⟨hreleased, hseg, hintNum⟩ := released_spec p (hwired hc.wired) hthunk
    rw [hinit, attach_eq]
    refine strays_register p mac hreleased hseg (hintNum ▸ hzero) ?_
    rintro ⟨hvector, hregisters⟩
    have hfound : (searched p c).vector = 0x60 := by
      rw [Client.vector, ← hintNum]
      exact hvector
    refine h60 ⟨?_, hregisters⟩
    by_contra hne
    exact vector_ne (hknown hc.known) hzero hne hfound

theorem strays_step {c : Client σ} (hc : Sound c) (hthunk : p.preallocThunkSeg ≠ 0) {e : Event}
    (h : ¬Plain p c e) : Strays (step p c e) := by
  cases e with
  | init mac => exact strays_init p hc hthunk h
  | send addr buf =>
      refine strays_send p addr ?_
      obtain ⟨hne2k, hrest⟩ := not_or.mp h
      obtain ⟨hintNum, hrest⟩ := not_or.mp hrest
      obtain ⟨hlen, hbounce⟩ := not_or.mp hrest
      exact ⟨Bool.eq_false_iff.mpr hne2k, hintNum, Nat.not_lt.mp hlen, not_not.mp hbounce⟩

theorem strays_run {c : Client σ} (hc : Sound c) (es : List Event) (h : Strays c) :
    Strays (run (step p) c es) := by
  induction es generalizing c with
  | nil => exact h
  | cons e es ih =>
      obtain ⟨hsound, hgrows⟩ := hc.step p e
      exact ih hsound (hgrows.strays h)

theorem meets_of_direct {c : Client σ} (hc : Sound c) (hthunk : p.preallocThunkSeg ≠ 0)
    {es : List Event} (hall : ∀ r ∈ (run (step p) c es).requests, Direct r) :
    Meets (step p) (Plain p) c es := by
  induction es generalizing c with
  | nil => exact trivial
  | cons e es ih =>
      have hsound := (hc.step p e).1
      refine ⟨?_, ih hsound hall⟩
      by_contra hplain
      obtain ⟨r, hr, hnot⟩ := strays_run p hsound es (strays_step p hc hthunk hplain)
      exact hnot (hall r hr)

/-- With a thunk paragraph, every request arrives where DPMI function 0300h delivers it, with the
same registers, exactly if every step is plain: what an initialisation finds is found at 0x60, and
no request has to be made by an interrupt in protected mode. -/
theorem requests_direct_iff (hthunk : p.preallocThunkSeg ≠ 0) (w : σ) (es : List Event) :
    (∀ r ∈ (run (step p) (powerUp w) es).requests, Direct r) ↔
      Meets (step p) (Plain p) (powerUp w) es := by
  have hstart : AllDirect (powerUp w) := ⟨sound_powerUp w, .inr (.inl rfl), by simp [powerUp]⟩
  refine ⟨meets_of_direct p (sound_powerUp w) hthunk, fun hok => ?_⟩
  exact (run_invariant (step p) (fun c e hc hok => hc.step p hthunk e hok) hstart hok).direct

instance (c : Client σ) : (e : Event) → Decidable (Plain p c e)
  | .init _ =>
      have : Decidable (Registers p (registeredReceiver p (searched p c))
          (released p (searched p c))) :=
        inferInstanceAs (Decidable (_ = _ ∧ (_ = _ → _ = _ ∧ _ ≠ _)))
      inferInstanceAs (Decidable (_ = _ ∨ _ = _ ∨ _ = _ ∧ _))
  | .send _ _ => inferInstanceAs (Decidable (_ = _ ∨ _ = _ ∨ _ < _ ∨ _ ≠ _))

def driverAt (v : Nat) : Platform Unit where
  dpmi _ s := (false, s)
  int vector rm _ s :=
    (if vector ≠ v then { rm with flags := 1 }
      else if rm.ah = 0x01 then { rm with ebx := 0x0110, edx := 0x0100 }
      else rm, s)
  int_regs _ _ _ _ _ := rfl
  bareInt _ _ s := (true, s)
  ne2kSendDirect _ s := (-1, s)
  ne2kPollRx _ s := ([], s)
  forceCrynwr := false
  ne2kInitDirect s := (-1, s)
  getVector _ s := (none, s)
  mem _ := fun _ => 0
  allocDpmiCallback s := (none, s)
  intInvoke _ regs s := (true, regs, s)
  preallocBounceSeg := 0x3003
  preallocThunkSeg := 0x3083
  receiver := 0
  rxBuf := 0
  rxPending := 0
  rxLen := 0

theorem requests_direct_iff_sixty :
    (run (step (driverAt 0x60)) (powerUp ()) [.init 0, .send 0 [1, 2]]).requests ≠ [] ∧
    ∀ r ∈ (run (step (driverAt 0x60)) (powerUp ()) [.init 0, .send 0 [1, 2]]).requests,
      Direct r :=
  ⟨by decide,
    (requests_direct_iff (driverAt 0x60) (by decide) () [.init 0, .send 0 [1, 2]]).mpr (by decide)⟩

/-- A driver at 0x61 is found, and none of the requests arrives there. -/
theorem not_direct_driverAt_61 :
    (searched (driverAt 0x61) (powerUp ())).intNum = 0x61 ∧
    (run (step (driverAt 0x61)) (powerUp ()) [.init 0]).requests ≠ [] ∧
    ∀ r ∈ (run (step (driverAt 0x61)) (powerUp ()) [.init 0]).requests, ¬Direct r := by
  decide

end FreedosMicroPython.Net.Requests
