import FreedosMicroPython.Net.Detected
/-!
# Registered receivers

The receivers that one call of `pktdrv_init` registers with the packet driver. Whatever
keeps account of them follows the calls of the driver: `access_type` adds one,
`release_type` takes them off and no other function does either.
-/

namespace FreedosMicroPython.Net.Requests

open FreedosMicroPython.Host FreedosMicroPython.Net.Pktdrv
open FreedosMicroPython.Dos.Int21 (toU32)

/-- The driver that calls a receiver, and the handle it gave out for it. -/
structure Receiver where
  vector : Nat
  handle : Nat
  deriving DecidableEq, Repr

/-- The receivers that are registered when the driver at `vector` has answered: `access_type`
registers one, and `release_type` releases a handle, or every handle for 0xFFFF. -/
def account (vector : Nat) (asked answered : Rmcs) (refused : Bool) (rs : List Receiver) :
    List Receiver :=
  if refused then rs
  else if asked.ah = 0x02 then rs ++ [⟨vector, answered.ax⟩]
  else if asked.ah = 0x03 then
    rs.filter fun r => ¬ (r.vector = vector ∧
      (asked.ebx % 0x10000 = 0xFFFF ∨ r.handle = asked.ebx % 0x10000))
  else rs

variable {σ : Type} (p : Platform σ)

/-- `mine` keeps account of the receivers: the packet drivers change them as they answer, and
nothing else does. -/
structure Observes (mine : σ → List Receiver) : Prop where
  int : ∀ v rm bytes s, mine (p.int v rm bytes s).2 =
    account v rm (p.int v rm bytes s).1 (p.int v rm bytes s).1.carry (mine s)
  intInvoke : ∀ v regs s, mine (p.intInvoke v regs s).2.2 =
    account (toU32 v &&& 0xFF) regs (p.intInvoke v regs s).2.1 (p.intInvoke v regs s).1 (mine s)
  dpmi : ∀ rm s, mine (p.dpmi rm s).2 = mine s
  getVector : ∀ v s, mine (p.getVector v s).2 = mine s
  allocDpmiCallback : ∀ s, mine (p.allocDpmiCallback s).2 = mine s
  ne2kInitDirect : ∀ s, mine (p.ne2kInitDirect s).2 = mine s

variable {p} {mine : σ → List Receiver}

/-! ## One request -/

def Idle (rm : Rmcs) : Prop := rm.ah ≠ 0x02 ∧ rm.ah ≠ 0x03

theorem account_idle {rm : Rmcs} (h : Idle rm) (vector : Nat) (answered : Rmcs) (refused : Bool)
    (rs : List Receiver) : account vector rm answered refused rs = rs := by
  rw [account, if_neg h.1, if_neg h.2, ite_self]

theorem account_nil_of_release {rm : Rmcs} (h : rm.ah = 0x03) (vector : Nat) (answered : Rmcs)
    (refused : Bool) : account vector rm answered refused [] = [] := by
  rw [account, if_neg (show rm.ah ≠ 0x02 by rw [h]; decide), if_pos h, List.filter_nil, ite_self]

theorem Observes.callInt60Thunk (hmine : Observes p mine) (rm : Rmcs) (bytes : List UInt8)
    {c : Client σ} (hc : Wired c) :
    ((Requests.callInt60Thunk p rm bytes c).1 = none ∧
      mine (Requests.callInt60Thunk p rm bytes c).2.world = mine c.world) ∨
    ∃ v rm', (Requests.callInt60Thunk p rm bytes c).1 = some rm' ∧
      mine (Requests.callInt60Thunk p rm bytes c).2.world =
        account v rm rm' rm'.carry (mine c.world) := by
  unfold Requests.callInt60Thunk
  split
  · exact .inl ⟨rfl, rfl⟩
  · next hseg =>
    have hraised : raised c.thunkCode = some 0x60 := by
      rw [hc hseg]
      decide
    have hdpmi := hmine.dpmi (thunkRegs c.thunkSeg rm) c.world
    dsimp only
    split
    · next s heq =>
      rw [heq] at hdpmi
      exact .inl ⟨rfl, hdpmi⟩
    · next s heq =>
      rw [heq] at hdpmi
      rw [hraised]
      refine .inr ⟨0x60, _, rfl, ?_⟩
      rw [← hdpmi]
      exact hmine.int 0x60 (thunkRegs c.thunkSeg rm) bytes s

theorem Observes.dpmi0300 (hmine : Observes p mine) (rm : Rmcs) (bytes : List UInt8)
    (c : Client σ) :
    ((Requests.dpmi0300 p rm bytes c).1 = none ∧
      mine (Requests.dpmi0300 p rm bytes c).2.world = mine c.world) ∨
    ∃ v rm', (Requests.dpmi0300 p rm bytes c).1 = some rm' ∧
      mine (Requests.dpmi0300 p rm bytes c).2.world =
        account v rm rm' rm'.carry (mine c.world) := by
  have hdpmi := hmine.dpmi rm c.world
  unfold Requests.dpmi0300
  split
  · next s heq =>
    rw [heq] at hdpmi
    exact .inl ⟨rfl, hdpmi⟩
  · next s heq =>
    rw [heq] at hdpmi
    refine .inr ⟨c.vector, _, rfl, ?_⟩
    rw [← hdpmi]
    exact hmine.int c.vector rm bytes s

theorem Observes.dispatch (hmine : Observes p mine) (rm : Rmcs) (bytes : List UInt8)
    {c : Client σ} (hc : Wired c) :
    ((Requests.dispatch p rm bytes c).1 = none ∧
      mine (Requests.dispatch p rm bytes c).2.world = mine c.world) ∨
    ∃ v rm', (Requests.dispatch p rm bytes c).1 = some rm' ∧
      mine (Requests.dispatch p rm bytes c).2.world =
        account v rm rm' rm'.carry (mine c.world) := by
  unfold Requests.dispatch
  split
  · exact hmine.callInt60Thunk rm bytes hc
  · exact hmine.dpmi0300 rm bytes c

theorem Observes.idle_callInt60Thunk (hmine : Observes p mine) {rm : Rmcs} (hidle : Idle rm)
    (bytes : List UInt8) {c : Client σ} (hc : Wired c) :
    mine (Requests.callInt60Thunk p rm bytes c).2.world = mine c.world := by
  rcases hmine.callInt60Thunk rm bytes hc with ⟨-, h⟩ | ⟨v, rm', -, h⟩
  · exact h
  · rw [h, account_idle hidle]

theorem Observes.idle_dispatch (hmine : Observes p mine) {rm : Rmcs} (hidle : Idle rm)
    (bytes : List UInt8) {c : Client σ} (hc : Wired c) :
    mine (Requests.dispatch p rm bytes c).2.world = mine c.world := by
  rcases hmine.dispatch rm bytes hc with ⟨-, h⟩ | ⟨v, rm', -, h⟩
  · exact h
  · rw [h, account_idle hidle]

theorem Observes.bareInt (hmine : Observes p mine) (rm regs : Rmcs) (c : Client σ) :
    ((Requests.bareInt p rm regs c).1 = none ∧
      mine (Requests.bareInt p rm regs c).2.world = mine c.world) ∨
    ∃ regs', (Requests.bareInt p rm regs c).1 = some regs' ∧
      mine (Requests.bareInt p rm regs c).2.world =
        account c.vector regs regs' false (mine c.world) := by
  have hint := hmine.intInvoke c.intNum regs c.world
  unfold Requests.bareInt
  dsimp only
  split
  · next hcarry =>
    rw [hcarry, account, if_pos rfl] at hint
    exact .inl ⟨rfl, hint⟩
  · next hcarry =>
    rw [Bool.eq_false_iff.mpr hcarry] at hint
    exact .inr ⟨_, rfl, hint⟩

theorem Observes.idle_bareInt (hmine : Observes p mine) (rm : Rmcs) {regs : Rmcs}
    (hidle : Idle regs)
    (c : Client σ) :
    mine (Requests.bareInt p rm regs c).2.world = mine c.world := by
  rcases hmine.bareInt rm regs c with ⟨-, h⟩ | ⟨regs', -, h⟩
  · exact h
  · rw [h, account_idle hidle]

/-! ## One stage of the set-up -/

theorem Observes.simulateRealInt (hmine : Observes p mine) (intNum : Nat) {rm : Rmcs}
    (hidle : Idle rm) (s : σ) : mine (pktdrvSimulateRealInt p intNum rm s).2 = mine s := by
  have hdpmi := hmine.dpmi rm s
  unfold pktdrvSimulateRealInt
  split
  · next s' heq =>
    rw [heq] at hdpmi
    exact hdpmi
  · next s' heq =>
    rw [heq] at hdpmi
    rw [← hdpmi]
    exact (hmine.int (intNum &&& 0xFF) rm [] s').trans (account_idle hidle _ _ _ _)

theorem idle_driverInfo : Idle driverInfo := ⟨by decide, by decide⟩

theorem idle_getAddrRegs (c : Client σ) : Idle (getAddrRegs c) :=
  ⟨by simp [getAddrRegs, Rmcs.ah], by simp [getAddrRegs, Rmcs.ah]⟩

theorem idle_rcvModeRegs (c : Client σ) : Idle (rcvModeRegs c) :=
  ⟨by simp [rcvModeRegs, Rmcs.ah], by simp [rcvModeRegs, Rmcs.ah]⟩

theorem Observes.probeSlot (hmine : Observes p mine) (intNum : Nat) (s : σ) :
    mine (pktdrvProbeSlot p intNum s).2 = mine s := by
  have hsignature (s : σ) : mine (scanSignature p intNum s).2 = mine s := by
    have hvector := hmine.getVector (intNum &&& 0xFF) s
    unfold scanSignature
    split
    · next heq =>
      rw [heq] at hvector
      exact hvector
    · next heq =>
      rw [heq] at hvector
      dsimp only
      split
      · exact hvector
      · split <;> exact hvector
  have hprobe := hmine.simulateRealInt intNum idle_driverInfo s
  unfold pktdrvProbeSlot
  split
  · next heq =>
    rw [heq] at hprobe
    split
    · exact hprobe
    · exact (hsignature _).trans hprobe
  · next heq =>
    rw [heq] at hprobe
    exact (hsignature _).trans hprobe

theorem Observes.firstDriver (hmine : Observes p mine) (is : List Nat) (s : σ) :
    mine (Requests.firstDriver p is s).2 = mine s := by
  induction is generalizing s with
  | nil => rfl
  | cons i is ih =>
      have hprobe := hmine.probeSlot i s
      unfold Requests.firstDriver
      dsimp only
      split
      · exact hprobe
      · exact (ih _).trans hprobe

theorem Observes.searched (hmine : Observes p mine) (c : Client σ) :
    mine (Requests.searched p c).world = mine c.world := by
  have hcard : mine (tryNe2k p c).2.world = mine c.world := by
    have hdirect := hmine.ne2kInitDirect c.world
    unfold tryNe2k
    split
    · rfl
    · dsimp only
      split <;> exact hdirect
  unfold Requests.searched pktdrvDetect
  split
  · exact hcard
  · exact (hmine.firstDriver _ _).trans hcard

theorem Observes.ready (hmine : Observes p mine) (c : Client σ) :
    mine (Requests.ready p c).world = mine c.world := by
  have htaken : (takePreallocated p c).world = c.world := by
    unfold takePreallocated pktdrvAllocThunk pktdrvAllocBounce
    split_ifs <;> rfl
  rw [Requests.ready, receiverLinear_snd, ← htaken]
  exact hmine.allocDpmiCallback _

/-- There is nothing of this call yet that the release could take off. -/
theorem Observes.releaseAll (hmine : Observes p mine) {c : Client σ} (hc : Wired c)
    (hnone : mine c.world = []) : mine (Requests.releaseAll p c).world = [] := by
  unfold Requests.releaseAll
  split
  · rcases hmine.callInt60Thunk releaseRegs [] hc with ⟨-, h⟩ | ⟨v, rm', -, h⟩
    · exact h.trans hnone
    · rw [h, hnone, account_nil_of_release rfl]
  · exact hnone

theorem Observes.accessOne (hmine : Observes p mine) (linearReceiver typeOff : Nat)
    {c : Client σ} (hc : Wired c) :
    ((pktdrvAccessOne p linearReceiver typeOff c).1 = none ∧
      mine (pktdrvAccessOne p linearReceiver typeOff c).2.world = mine c.world) ∨
    ∃ handle r, (pktdrvAccessOne p linearReceiver typeOff c).1 = some handle ∧
      mine (pktdrvAccessOne p linearReceiver typeOff c).2.world = mine c.world ++ [r] := by
  have hasked := hmine.dispatch (accessRegs linearReceiver typeOff c) [] hc
  have hah : (accessRegs linearReceiver typeOff c).ah = 0x02 := by
    simp [accessRegs, Rmcs.ah]
  unfold pktdrvAccessOne
  split
  · exact .inl ⟨rfl, rfl⟩
  · split
    · next rm' c' heq =>
      rw [heq] at hasked
      rcases hasked with ⟨hnone, -⟩ | ⟨v, answered, hsome, haccount⟩
      · cases hnone
      · cases hsome
        dsimp only at haccount ⊢
        rw [account, if_pos hah] at haccount
        split
        · next hcarry =>
          rw [if_pos hcarry] at haccount
          exact .inl ⟨rfl, haccount⟩
        · next hcarry =>
          rw [if_neg hcarry] at haccount
          exact .inr ⟨_, _, rfl, haccount⟩
    · next c' heq =>
      rw [heq] at hasked
      rcases hasked with ⟨-, hsame⟩ | ⟨v, answered, hsome, -⟩
      · rcases hmine.bareInt _ { eax := 0x0201, edi := linearReceiver } c' with
          ⟨hnone, h⟩ | ⟨regs', hsome, h⟩
        · dsimp only at hsame ⊢
          rw [hnone, ← hsame]
          exact .inl ⟨rfl, h⟩
        · dsimp only at hsame ⊢
          rw [account, if_neg Bool.false_ne_true,
            if_pos (show Rmcs.ah { eax := 0x0201, edi := linearReceiver } = 0x02 by
              simp [Rmcs.ah])] at h
          rw [hsome, ← hsame]
          exact .inr ⟨_, _, rfl, h⟩
      · cases hsome

/-- The call for IPv4 decides the result; the one for ARP may register a second receiver. -/
theorem Observes.access (hmine : Observes p mine) (linearReceiver : Nat) {c : Client σ}
    (hc : Wired c) :
    ((pktdrvAccess p linearReceiver c).1 ≠ 0 ∧
      mine (pktdrvAccess p linearReceiver c).2.world = mine c.world) ∨
    ((pktdrvAccess p linearReceiver c).1 = 0 ∧
      ∃ r rs, mine (pktdrvAccess p linearReceiver c).2.world = mine c.world ++ r :: rs) := by
  have hfirst := hmine.accessOne linearReceiver 6 hc
  have hfollows : Follows Any c (pktdrvAccessOne p linearReceiver 6 c).2 :=
    pktdrvAccessOne_follows p linearReceiver 6 hc (covers_any c) fun _ _ => trivial
  unfold pktdrvAccess
  split
  · next c' heq =>
    rw [heq] at hfirst
    rcases hfirst with ⟨-, hsame⟩ | ⟨handle, r, hsome, -⟩
    · exact .inl ⟨show (-1 : Int) ≠ 0 by decide, hsame⟩
    · cases hsome
  · next handle c' heq =>
    rw [heq] at hfirst hfollows
    have hwired : Wired { c' with handle := handle } :=
      (hfollows.withHandles handle c'.handleArp).wired hc
    rcases hfirst with ⟨hnone, -⟩ | ⟨handle', r, -, hr⟩
    · cases hnone
    · refine .inr ⟨rfl, ?_⟩
      rcases hmine.accessOne linearReceiver 4 hwired with ⟨-, h⟩ | ⟨handleArp, r', -, h⟩
      · exact ⟨r, [], h.trans hr⟩
      · refine ⟨r, [r'], h.trans ?_⟩
        rw [show mine ({ c' with handle := handle } : Client σ).world = mine c.world ++ [r] from hr,
          List.append_assoc, List.singleton_append]

theorem Observes.setRcvMode (hmine : Observes p mine) {c : Client σ} (hc : Wired c) :
    mine (Requests.setRcvMode p c).world = mine c.world := by
  unfold Requests.setRcvMode
  split
  · exact hmine.idle_callInt60Thunk (idle_rcvModeRegs c) [] hc
  · rfl

theorem Observes.getAddr (hmine : Observes p mine) (out : Nat) {c : Client σ} (hc : Wired c) :
    mine (pktdrvGetAddr p out c).2.world = mine c.world := by
  have hasked := hmine.idle_dispatch (idle_getAddrRegs c) [] hc
  unfold pktdrvGetAddr
  split
  · rfl
  · split
    · exact hmine.idle_bareInt _ ⟨by simp [Rmcs.ah], by simp [Rmcs.ah]⟩ c
    · split
      · next heq =>
        rw [heq] at hasked
        exact hasked
      · next heq =>
        rw [heq] at hasked
        exact hasked

/-! ## The whole set-up -/

variable (p) (mine)

def Client.pktdrvIsActive (c : Client σ) : Bool :=
  c.ne2kInitialized || (c.intNum != 0 && c.intNum != -1)

/-- `pktdrv_access` as `pktdrv_init` comes to it, its result and the client behind it. -/
def accessed (c : Client σ) : Int × Client σ :=
  pktdrvAccess p (receiverLinear p (takePreallocated p (searched p c))).1
    (releaseAll p (ready p (searched p c)))

def TakesReceiver (c : Client σ) : Prop :=
  (tryNe2k p c).1 = false ∧ (searched p c).intNum ≠ 0 ∧ (accessed p c).1 = 0

def TellsAddress (mac : Nat) (c : Client σ) : Prop :=
  (pktdrvGetAddr p mac (setRcvMode p (accessed p c).2)).1 = 0

/-- If `pktdrv_init` fails, the driver is not in use and no receiver of this call is left. -/
def LeavesNothing (mac : Nat) (c : Client σ) : Prop :=
  (pktdrvInit p mac c).1 ≠ 0 →
    (pktdrvInit p mac c).2.pktdrvIsActive = false ∧ mine (pktdrvInit p mac c).2.world = []

variable {p} {mine}

theorem pktdrvInit_direct (mac : Nat) {c : Client σ} (h : (tryNe2k p c).1 = true) :
    (pktdrvInit p mac c).1 = 0 := by
  simp only [pktdrvInit, h, if_true]

theorem pktdrvInit_eq (mac : Nat) {c : Client σ} (hdirect : (tryNe2k p c).1 = false) :
    pktdrvInit p mac c =
      if (searched p c).intNum = 0 then (-1, searched p c)
      else attach p mac (searched p c) := by
  obtain ⟨s, hdetect⟩ := pktdrvDetect_spec p (tryNe2k p c).2
  have hintNum : (searched p c).intNum = (pktdrvDetect p (tryNe2k p c).2).1 := by
    rw [searched, hdetect]
  rw [hintNum]
  simp only [pktdrvInit, hdirect, Bool.false_eq_true, if_false, searched]

/-- Behind the card, `pktdrv_init` ends in one of four ways. -/
theorem pktdrvInit_ends (mac : Nat) {c : Client σ} (hdirect : (tryNe2k p c).1 = false) :
    ((searched p c).intNum = 0 ∧ pktdrvInit p mac c = (-1, searched p c)) ∨
    ((searched p c).intNum ≠ 0 ∧ (accessed p c).1 ≠ 0 ∧
      pktdrvInit p mac c = (-2, { (accessed p c).2 with intNum := 0 })) ∨
    (TakesReceiver p c ∧ ¬ TellsAddress p mac c ∧
      pktdrvInit p mac c =
        (-3, { (pktdrvGetAddr p mac (setRcvMode p (accessed p c).2)).2 with intNum := 0 })) ∨
    (TakesReceiver p c ∧ TellsAddress p mac c ∧ (pktdrvInit p mac c).1 = 0) := by
  rw [pktdrvInit_eq mac hdirect]
  by_cases hfound : (searched p c).intNum = 0
  · rw [if_pos hfound]
    exact .inl ⟨hfound, rfl⟩
  · rw [if_neg hfound, attach_eq, registeredReceiver, released, register]
    by_cases haccess : (accessed p c).1 = 0
    · by_cases haddr : (pktdrvGetAddr p mac (setRcvMode p (accessed p c).2)).1 = 0
      · refine .inr (.inr (.inr ⟨⟨hdirect, hfound, haccess⟩, haddr, ?_⟩))
        rw [accessed] at haccess haddr
        simp only [haccess, haddr, ne_eq, not_true_eq_false, if_false]
      · refine .inr (.inr (.inl ⟨⟨hdirect, hfound, haccess⟩, haddr, ?_⟩))
        rw [accessed] at haccess haddr ⊢
        simp only [haccess, haddr, ne_eq, not_true_eq_false, not_false_eq_true, if_false, if_true]
    · refine .inr (.inl ⟨hfound, haccess, ?_⟩)
      rw [accessed] at haccess ⊢
      simp only [haccess, ne_eq, not_false_eq_true, if_true]

theorem releaseAll_ready (hmine : Observes p mine) {c : Client σ} (hc : Wired c)
    (hnone : mine c.world = []) (hdirect : (tryNe2k p c).1 = false) :
    Wired (releaseAll p (ready p (searched p c))) ∧
      (releaseAll p (ready p (searched p c))).ne2kInitialized = c.ne2kInitialized ∧
      mine (releaseAll p (ready p (searched p c))).world = [] := by
  obtain ⟨hne2k, -, hwired, -⟩ := searched_spec p hdirect
  have hready := ready_wired p (hwired hc)
  have hfollows := releaseAll_follows p hready (covers_any _)
  have hempty : mine (ready p (searched p c)).world = [] :=
    (hmine.ready _).trans ((hmine.searched c).trans hnone)
  exact ⟨hfollows.wired hready,
    hfollows.ne2k.trans ((ready_spec p (searched p c)).1.trans hne2k),
    hmine.releaseAll hready hempty⟩

theorem pktdrvIsActive_of_intNum_zero {c : Client σ} (h : c.intNum = 0) :
    c.pktdrvIsActive = c.ne2kInitialized := by
  rw [Client.pktdrvIsActive, h]
  exact Bool.or_false _

theorem leavesNothing_of_failed {mac : Nat} {c c' : Client σ} {r : Int}
    (hinit : pktdrvInit p mac c = (r, c')) (hr : r ≠ 0) (hintNum : c'.intNum = 0) :
    LeavesNothing p mine mac c ↔ c'.ne2kInitialized = false ∧ mine c'.world = [] := by
  rw [LeavesNothing, hinit, ← pktdrvIsActive_of_intNum_zero hintNum]
  exact ⟨fun h => h hr, fun h _ => h⟩

/-- Where no receiver is left, only an initialised card can be. -/
theorem leavesNothing_of_none {mac : Nat} {c c' : Client σ} {r : Int}
    (hinit : pktdrvInit p mac c = (r, c')) (hr : r ≠ 0) (hintNum : c'.intNum = 0)
    (hcard : c'.ne2kInitialized = c.ne2kInitialized) (hsame : mine c'.world = []) :
    LeavesNothing p mine mac c ↔ c.ne2kInitialized = false := by
  rw [leavesNothing_of_failed hinit hr hintNum, hcard]
  exact and_iff_left hsame

/-- The access_type calls leave the card alone. They register a receiver exactly when they
succeed, and nothing releases it up to the end of `get_address`. -/
theorem accessed_spec (hmine : Observes p mine) {c : Client σ} (hc : Wired c)
    (hnone : mine c.world = []) (hdirect : (tryNe2k p c).1 = false) (mac : Nat) :
    (accessed p c).2.ne2kInitialized = c.ne2kInitialized ∧
      ((accessed p c).1 ≠ 0 → mine (accessed p c).2.world = []) ∧
      ((accessed p c).1 = 0 →
        mine (pktdrvGetAddr p mac (setRcvMode p (accessed p c).2)).2.world ≠ []) := by
  obtain ⟨hready, hne2k, hempty⟩ := releaseAll_ready hmine hc hnone hdirect
  have haccess := hmine.access (receiverLinear p (takePreallocated p (searched p c))).1 hready
  have hfollows : Follows Any (releaseAll p (ready p (searched p c))) (accessed p c).2 :=
    pktdrvAccess_follows p _ hready (covers_any _) (coversRegister_any p _ _).access
  have hwired := hfollows.wired hready
  have hmode := (setRcvMode_follows p hwired (covers_any _)).wired hwired
  rw [hempty] at haccess
  refine ⟨hfollows.ne2k.trans hne2k, fun hrefused => ?_, fun htaken => ?_⟩
  · rcases haccess with ⟨-, h⟩ | ⟨h, -⟩
    · exact h
    · exact absurd h hrefused
  · rw [hmine.getAddr mac hmode, hmine.setRcvMode hwired]
    rcases haccess with ⟨h, -⟩ | ⟨-, r, rs, h⟩
    · exact absurd htaken h
    · rw [accessed, h]
      exact List.cons_ne_nil r rs

/-- A failing `pktdrv_init` leaves nothing behind exactly when it fails before the driver
takes the receiver for IPv4 and no card has been initialised before. -/
theorem pktdrvInit_leaves_nothing_iff (hmine : Observes p mine) {c : Client σ} (hc : Wired c)
    (hnone : mine c.world = []) (mac : Nat) :
    LeavesNothing p mine mac c ↔
      (tryNe2k p c).1 = true ∨ (TakesReceiver p c ∧ TellsAddress p mac c) ∨
        (c.ne2kInitialized = false ∧ ¬ TakesReceiver p c) := by
  cases hdirect : (tryNe2k p c).1 with
  | true => exact iff_of_true (fun h => absurd (pktdrvInit_direct mac hdirect) h) (.inl rfl)
  | false =>
      obtain ⟨hcard, hrefuses, hleft⟩ := accessed_spec hmine hc hnone hdirect mac
      rcases pktdrvInit_ends mac hdirect with
        ⟨hfound, hinit⟩ | ⟨hfound, hrefused, hinit⟩ | ⟨htakes, htells, hinit⟩ |
          ⟨htakes, htells, hinit⟩
      · have htakes : ¬ TakesReceiver p c := fun h => h.2.1 hfound
        rw [leavesNothing_of_none hinit (by decide) hfound (searched_spec p hdirect).1
          ((hmine.searched c).trans hnone)]
        simp [htakes]
      · have htakes : ¬ TakesReceiver p c := fun h => hrefused h.2.2
        rw [leavesNothing_of_none hinit (by decide) rfl hcard (hrefuses hrefused)]
        simp [htakes]
      · rw [leavesNothing_of_failed hinit (by decide) rfl]
        refine iff_of_false (fun h => hleft htakes.2.2 h.2) ?_
        simp [htakes, htells]
      · exact iff_of_true (fun h => absurd hinit h) (.inr (.inl ⟨htakes, htells⟩))

/-! ## A driver without an address -/

/-- No card, and a packet driver at 0x60 that takes receivers but does not answer
`get_address`. -/
def mute : Platform (List Receiver) where
  dpmi _ s := (false, s)
  int vector rm _ s :=
    let answered : Rmcs :=
      if vector ≠ 0x60 ∨ rm.ah = 0x06 then { rm with flags := 1 }
      else if rm.ah = 0x01 then { rm with ebx := 0x0110, edx := 0x0100 }
      else { rm with eax := rm.esi }
    (answered, account vector rm answered answered.carry s)
  int_regs _ _ _ _ _ := rfl
  bareInt _ _ s := (true, s)
  ne2kSendDirect _ s := (-1, s)
  ne2kPollRx _ s := ([], s)
  forceCrynwr := false
  ne2kInitDirect s := (-1, s)
  getVector _ s := (none, s)
  mem _ := fun _ => 0
  allocDpmiCallback s := (none, s)
  intInvoke _ regs s := (true, regs, s)
  preallocBounceSeg := 0x3003
  preallocThunkSeg := 0x3083
  receiver := 0
  rxBuf := 0
  rxPending := 0
  rxLen := 0

theorem observes_mute : Observes mute id where
  int _ _ _ _ := rfl
  intInvoke _ _ _ := (if_pos rfl).symm
  dpmi _ _ := rfl
  getVector _ _ := rfl
  allocDpmiCallback _ := rfl
  ne2kInitDirect _ := rfl

theorem pktdrvInit_leaves_nothing_iff_mute :
    LeavesNothing mute id 0 (powerUp []) ↔
      (tryNe2k mute (powerUp [])).1 = true ∨
        (TakesReceiver mute (powerUp []) ∧ TellsAddress mute 0 (powerUp [])) ∨
        ((powerUp ([] : List Receiver)).ne2kInitialized = false ∧
          ¬ TakesReceiver mute (powerUp [])) :=
  pktdrvInit_leaves_nothing_iff observes_mute (sound_powerUp []).wired rfl 0

theorem pktdrvInit_leaves_receivers :
    (pktdrvInit mute 0 (powerUp [])).1 = -3 ∧
      (pktdrvInit mute 0 (powerUp [])).2.world = [⟨0x60, 6⟩, ⟨0x60, 4⟩] ∧
      ¬ LeavesNothing mute id 0 (powerUp []) := by
  have hfails : (pktdrvInit mute 0 (powerUp [])).1 = -3 := by decide
  have hleft : (pktdrvInit mute 0 (powerUp [])).2.world = [⟨0x60, 6⟩, ⟨0x60, 4⟩] := by decide
  refine ⟨hfails, hleft, fun h => ?_⟩
  have hnone := (h (by rw [hfails]; decide)).2
  rw [id_eq, hleft] at hnone
  cases hnone

end FreedosMicroPython.Net.Requests
