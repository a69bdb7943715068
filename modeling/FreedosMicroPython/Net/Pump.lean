import FreedosMicroPython.Net.RxRing
import FreedosMicroPython.OsPath
/-!
# The receive pump

`uc386dos_eth_pump_rx` of `port/lwip_uc386dos.c`, one turn of its loop at a time, so that
packets may arrive between any two of them. What becomes of the pbufs does not depend on the
driver behind it; what it hands to lwIP is said for the NE2000.
-/

namespace FreedosMicroPython.Net.Pump

open FreedosMicroPython.Lib FreedosMicroPython.Lib.Memory FreedosMicroPython.Lib.Runs
open FreedosMicroPython.OsPath

/-! ## The loop -/

structure Drivers (σ : Type) where
  pktdrvIsActive : σ → Bool
  pktdrvRecv : Nat → Mem UInt8 → σ → Nat × Mem UInt8 × σ
  ethdrvRecv : Nat → Mem UInt8 → σ → Nat × Mem UInt8 × σ

/-- What lwIP answers about each frame, counted from 0: whether `pbuf_alloc` has a pbuf for it,
and whether `input` returns `ERR_OK`. -/
structure Lwip where
  pbufAlloc : Nat → Bool
  input : Nat → Bool

/-- The calls of lwIP; a pbuf goes by the number of the frame that it was allocated for. -/
inductive Call where
  | pbufAlloc (p : Nat) (len : Nat) (found : Bool)
  | pbufTake (p : Nat) (bytes : List UInt8)
  | input (p : Nat) (ok : Bool)
  | pbufFree (p : Nat)
  deriving DecidableEq

def RX_BUF_SIZE : Nat := 1500 + 14

variable {σ ε : Type}

/-- `pumping` is set while the loop runs, `out` is what it writes to the console. -/
structure State (σ : Type) where
  active : Bool
  world : σ
  rxBuf : Mem UInt8
  pumping : Bool
  frames : Nat
  calls : List Call
  out : List UInt8

def start (w : σ) : State σ := ⟨true, w, fun _ => 0, false, 0, [], []⟩

def lenText (len : Nat) : List UInt8 :=
  [1000, 100, 10, 1].map fun place => UInt8.ofNat (48 + len / place % 10)

variable (d : Drivers σ) (lw : Lwip)

def receive (s : State σ) : Nat × Mem UInt8 × σ :=
  if d.pktdrvIsActive s.world then d.pktdrvRecv RX_BUF_SIZE s.rxBuf s.world
  else d.ethdrvRecv RX_BUF_SIZE s.rxBuf s.world

/-- Calls of lwIP, and what is written to the console behind them. -/
def State.log (s : State σ) (calls : List Call) (text : List UInt8) : State σ :=
  { s with calls := s.calls ++ calls, out := s.out ++ text }

def handle (bytes : List UInt8) (s : State σ) : State σ :=
  let p := s.frames
  let s := { s with frames := p + 1 }.log [] (str "[ep:" ++ lenText bytes.length ++ str "]")
  let s := s.log [.pbufAlloc p (bytes.length % 0x10000) (lw.pbufAlloc p)] []
  if !lw.pbufAlloc p then s.log [] (str "[ep:noalloc]")
  else
    let s := s.log [.pbufTake p bytes, .input p (lw.input p)] []
    if !lw.input p then s.log [.pbufFree p] (str "[ep:iE]") else s.log [] (str "[ep:iO]")

def turn (s : State σ) : State σ :=
  let (len, rxBuf, world) := receive d s
  let s := { s with rxBuf := rxBuf, world := world }
  if len = 0 then { s with pumping := false } else handle lw (slice rxBuf 0 len) s

/-- Something happens to the world, the poll hook is called, or its loop goes on. -/
inductive Event (ε : Type) where
  | arrive (e : ε)
  | poll
  | turn

variable (arrive : σ → ε → σ)

def step (s : State σ) : Event ε → State σ
  | .arrive e => { s with world := arrive s.world e }
  | .poll => if s.active then { s with pumping := true } else s
  | .turn => if s.pumping then turn d lw s else s

def got (s : State σ) : Event ε → List (List UInt8)
  | .turn =>
      if s.pumping ∧ (receive d s).1 ≠ 0 then [slice (receive d s).2.1 0 (receive d s).1] else []
  | _ => []

/-! ## Ownership -/

inductive Owner where
  | pump
  | lwip
  | freed
  deriving DecidableEq

/-- Who owns the pbufs after a call; `none` is a call with a pbuf that the pump does not own. -/
def own (m : Nat → Option Owner) : Call → Option (Nat → Option Owner)
  | .pbufAlloc p _ found =>
      if !found then some m
      else if m p = none then some (Function.update m p (some .pump)) else none
  | .pbufTake p _ => if m p = some .pump then some m else none
  | .input p ok =>
      if m p ≠ some .pump then none
      else if ok then some (Function.update m p (some .lwip)) else some m
  | .pbufFree p => if m p = some .pump then some (Function.update m p (some .freed)) else none

def owners (calls : List Call) : Option (Nat → Option Owner) := calls.foldlM own fun _ => none

/-- Every call is one that its pbuf allows, and the pump owns none. -/
def Settled (s : State σ) : Prop :=
  ∃ m, owners s.calls = some m ∧ ∀ p, m p ≠ some .pump ∧ (s.frames ≤ p → m p = none)

theorem owners_append {calls more : List Call} {m : Nat → Option Owner}
    (h : owners calls = some m) : owners (calls ++ more) = more.foldlM own m := by
  rw [owners, List.foldlM_append, ← owners, h]
  rfl

def frameCalls (p : Nat) (bytes : List UInt8) : List Call :=
  .pbufAlloc p (bytes.length % 0x10000) (lw.pbufAlloc p) ::
    if !lw.pbufAlloc p then []
    else [.pbufTake p bytes, .input p (lw.input p)] ++ if !lw.input p then [.pbufFree p] else []

theorem handle_spec (bytes : List UInt8) (s : State σ) :
    ∃ out, handle lw bytes s = { s with
      frames := s.frames + 1, calls := s.calls ++ frameCalls lw s.frames bytes, out := out } := by
  refine ⟨(handle lw bytes s).out, ?_⟩
  cases halloc : lw.pbufAlloc s.frames <;> cases hinput : lw.input s.frames <;>
    simp [handle, frameCalls, State.log, halloc, hinput]

theorem own_frameCalls {m : Nat → Option Owner} {p : Nat} (hnew : m p = none)
    (bytes : List UInt8) : ∃ o ≠ some .pump,
      (frameCalls lw p bytes).foldlM own m = some (Function.update m p o) := by
  unfold frameCalls
  cases lw.pbufAlloc p with
  | false =>
      refine ⟨none, nofun, ?_⟩
      rw [← hnew, Function.update_eq_self]
      rfl
  | true =>
      cases lw.input p with
      | false => exact ⟨some .freed, by decide, by simp [own, hnew]⟩
      | true => exact ⟨some .lwip, by decide, by simp [own, hnew]⟩

/-- A frame is given to lwIP or its pbuf is freed, if there is a pbuf for it. -/
theorem settled_handle {s : State σ} (h : Settled s) (bytes : List UInt8) :
    Settled (handle lw bytes s) := by
  obtain ⟨m, hm, howner⟩ := h
  obtain ⟨out, hhandle⟩ := handle_spec lw bytes s
  obtain ⟨o, ho, hown⟩ := own_frameCalls lw ((howner s.frames).2 (Nat.le_refl _)) bytes
  rw [hhandle]
  refine ⟨Function.update m s.frames o, (owners_append hm).trans hown, fun p => ?_⟩
  by_cases hp : p = s.frames
  · subst hp
    rw [Function.update_self]
    exact ⟨ho, fun hle => absurd hle (Nat.not_succ_le_self _)⟩
  · rw [Function.update_of_ne hp]
    exact ⟨(howner p).1, fun hle => (howner p).2 (Nat.le_of_succ_le hle)⟩

/-- A turn that gets no frame ends the loop; another one settles its frame. -/
theorem turn_cases (s : State σ) :
    (receive d s).1 = 0 ∧ turn d lw s =
        { s with rxBuf := (receive d s).2.1, world := (receive d s).2.2, pumping := false } ∨
      (receive d s).1 ≠ 0 ∧ turn d lw s = handle lw
        (slice (receive d s).2.1 0 (receive d s).1)
        { s with rxBuf := (receive d s).2.1, world := (receive d s).2.2 } := by
  by_cases hlen : (receive d s).1 = 0
  · exact .inl ⟨hlen, if_pos hlen⟩
  · exact .inr ⟨hlen, if_neg hlen⟩

variable {d lw arrive}

theorem settled_step {s : State σ} (h : Settled s) (e : Event ε) :
    Settled (step d lw arrive s e) := by
  cases e with
  | arrive e => exact h
  | poll =>
      rw [step]
      split <;> exact h
  | turn =>
      rw [step]
      split
      · rcases turn_cases d lw s with ⟨-, hturn⟩ | ⟨-, hturn⟩ <;> rw [hturn]
        · exact h
        · apply settled_handle
          exact h
      · exact h

theorem settled_start (w : σ) : Settled (start w) :=
  ⟨fun _ => none, rfl, fun _ => ⟨nofun, fun _ => rfl⟩⟩

/-! ## What lwIP gets -/

def inputs : List Call → List (List UInt8)
  | [] => []
  | .pbufTake _ bytes :: calls => bytes :: inputs calls
  | _ :: calls => inputs calls

/-- The frames for which there is a pbuf, when `n` have come before. -/
def kept (lw : Lwip) : Nat → List (List UInt8) → List (List UInt8)
  | _, [] => []
  | n, bytes :: more => (if lw.pbufAlloc n then [bytes] else []) ++ kept lw (n + 1) more

theorem inputs_append (calls more : List Call) :
    inputs (calls ++ more) = inputs calls ++ inputs more := by
  fun_induction inputs calls with
  | case1 => rfl
  | case2 p bytes calls ih => rw [List.cons_append, inputs, ih, List.cons_append]
  | case3 c calls hc ih =>
      rw [List.cons_append, ← ih]
      cases c <;> first | rfl | exact absurd rfl (hc _ _)

theorem inputs_frameCalls (p : Nat) (bytes : List UInt8) :
    inputs (frameCalls lw p bytes) = kept lw p [bytes] := by
  cases halloc : lw.pbufAlloc p <;> cases hinput : lw.input p <;>
    simp [frameCalls, kept, inputs, halloc, hinput]

theorem kept_append (n : Nat) (fs more : List (List UInt8)) :
    kept lw n (fs ++ more) = kept lw n fs ++ kept lw (n + fs.length) more := by
  induction fs generalizing n with
  | nil => rfl
  | cons bytes fs ih =>
      rw [List.cons_append, kept, kept, ih, List.length_cons, List.append_assoc,
        Nat.add_right_comm, Nat.add_assoc]

variable (d lw arrive) in
theorem inputs_step (s : State σ) (e : Event ε) :
    (step d lw arrive s e).frames = s.frames + (got d s e).length ∧
      inputs (step d lw arrive s e).calls = inputs s.calls ++ kept lw s.frames (got d s e) := by
  have hsame : s.frames = s.frames + 0 ∧ inputs s.calls = inputs s.calls ++ kept lw s.frames [] :=
    ⟨rfl, (List.append_nil _).symm⟩
  cases e with
  | arrive e => exact hsame
  | poll =>
      rw [step]
      split <;> exact hsame
  | turn =>
      rw [step, got]
      cases hpumping : s.pumping with
      | false => exact hsame
      | true =>
          rcases turn_cases d lw s with ⟨hlen, hturn⟩ | ⟨hlen, hturn⟩
          · rw [if_pos rfl, hturn, if_neg fun h => h.2 hlen]
            exact hsame
          · obtain ⟨out, hhandle⟩ := handle_spec lw (slice (receive d s).2.1 0 (receive d s).1)
              { s with rxBuf := (receive d s).2.1, world := (receive d s).2.2 }
            rw [if_pos rfl, hturn, hhandle, if_pos ⟨rfl, hlen⟩]
            exact ⟨rfl, (inputs_append _ _).trans (congrArg _ (inputs_frameCalls _ _))⟩

variable (d lw arrive) in
/-- The frames of a run are counted, and those with a pbuf handed on in order. -/
theorem inputs_run (s : State σ) (es : List (Event ε)) :
    (run (step d lw arrive) s es).frames =
        s.frames + (emitted (step d lw arrive) (got d) s es).length ∧
      inputs (run (step d lw arrive) s es).calls = inputs s.calls ++
        kept lw s.frames (emitted (step d lw arrive) (got d) s es) := by
  induction es generalizing s with
  | nil => exact ⟨rfl, (List.append_nil _).symm⟩
  | cons e es ih =>
      obtain ⟨hframes, hinputs⟩ := inputs_step d lw arrive s e
      obtain ⟨hframes', hinputs'⟩ := ih (step d lw arrive s e)
      rw [run_cons, emitted, List.length_append, kept_append, hframes', hinputs', hframes, hinputs]
      exact ⟨Nat.add_assoc _ _ _, List.append_assoc _ _ _⟩

/-! ## The NE2000 -/

def ne2kDrivers (ethdrvRecv : Nat → Mem UInt8 → Ne2k.State → Nat × Mem UInt8 × Ne2k.State) :
    Drivers Ne2k.State :=
  ⟨fun s => s.initialized, Ne2k.ne2kPollRx, ethdrvRecv⟩

variable (ethdrvRecv : Nat → Mem UInt8 → Ne2k.State → Nat × Mem UInt8 × Ne2k.State)

def queue (s : Ne2k.State) (p : Ne2k.Packet) : Ne2k.State := Ne2k.step s (.queue p)

abbrev cardStep (lw : Lwip) : State Ne2k.State → Event Ne2k.Packet → State Ne2k.State :=
  step (ne2kDrivers ethdrvRecv) lw queue

/-- No packet is larger than the buffer, or than the room in the ring. -/
def Allowed (s : State Ne2k.State) : Event Ne2k.Packet → Prop
  | .arrive p => p.body.length ≤ RX_BUF_SIZE ∧ p.pages ≤ s.world.nic.room
  | _ => True

instance (s : State Ne2k.State) : (e : Event Ne2k.Packet) → Decidable (Allowed s e)
  | .arrive _ => inferInstanceAs (Decidable (_ ∧ _))
  | .poll => .isTrue trivial
  | .turn => .isTrue trivial

def arrived : List (Event Ne2k.Packet) → List Ne2k.Packet
  | [] => []
  | .arrive p :: es => p :: arrived es
  | _ :: es => arrived es

def ringEvents (s : State Ne2k.State) : Event Ne2k.Packet → List Ne2k.Event
  | .arrive p => [.queue p]
  | .poll => []
  | .turn => if s.pumping then [.poll RX_BUF_SIZE s.rxBuf] else []

/-- The turns of the loop that come to a packet in the ring. -/
def taken (s : State Ne2k.State) : Event Ne2k.Packet → List Unit
  | .turn => if s.pumping = true ∧ ¬Ne2k.Empty s.world.nic then [()] else []
  | _ => []

theorem initialized_step (s : Ne2k.State) (e : Ne2k.Event) :
    (Ne2k.step s e).initialized = s.initialized := by
  cases e with
  | queue p => rfl
  | poll maxlen out =>
      unfold Ne2k.step Ne2k.ne2kPollRx
      dsimp only
      split
      · rfl
      · split
        · rfl
        · rfl

theorem initialized_run (s : Ne2k.State) (es : List Ne2k.Event) :
    (run Ne2k.step s es).initialized = s.initialized := by
  induction es generalizing s with
  | nil => rfl
  | cons e es ih => rw [run_cons, ih, initialized_step]

variable {ethdrvRecv}

theorem receive_ne2k {s : State Ne2k.State} (hinit : s.world.initialized = true) :
    receive (ne2kDrivers ethdrvRecv) s = Ne2k.ne2kPollRx RX_BUF_SIZE s.rxBuf s.world := if_pos hinit

theorem world_handle (bytes : List UInt8) (s : State σ) : (handle lw bytes s).world = s.world := by
  obtain ⟨out, hhandle⟩ := handle_spec lw bytes s
  rw [hhandle]

variable (lw ethdrvRecv) in
/-- The world of the pump is the card behind the polls of its turns. -/
theorem ring_step {s : State Ne2k.State} (hinit : s.world.initialized = true)
    (e : Event Ne2k.Packet) :
    (cardStep ethdrvRecv lw s e).world = run Ne2k.step s.world (ringEvents s e) ∧
      got (ne2kDrivers ethdrvRecv) s e = Ne2k.results s.world (ringEvents s e) ∧
      taken s e = emitted Ne2k.step Ne2k.taken s.world (ringEvents s e) := by
  cases e with
  | arrive p => exact ⟨rfl, rfl, rfl⟩
  | poll =>
      refine ⟨?_, rfl, rfl⟩
      rw [cardStep, step]
      split <;> rfl
  | turn =>
      rw [cardStep, step, got, taken, ringEvents]
      cases hpumping : s.pumping with
      | false => exact ⟨rfl, rfl, rfl⟩
      | true =>
          have htaken : (if true = true ∧ ¬Ne2k.Empty s.world.nic then [()] else []) =
              emitted Ne2k.step Ne2k.taken s.world [.poll RX_BUF_SIZE s.rxBuf] := by
            rw [emitted, emitted, Ne2k.taken, List.append_nil]
            split <;> simp_all
          rw [if_pos rfl, if_pos rfl, Ne2k.results, emitted, emitted, Ne2k.result]
          rcases turn_cases (ne2kDrivers ethdrvRecv) lw s with ⟨hlen, hturn⟩ | ⟨hlen, hturn⟩ <;>
            rw [receive_ne2k hinit] at hlen hturn ⊢ <;> rw [hturn]
          · exact ⟨rfl, by simp [hlen], htaken⟩
          · exact ⟨world_handle _ _, by simp [hlen], htaken⟩

/-- The run of the pump as a run of the card. -/
theorem ring_run {s : State Ne2k.State} (hinit : s.world.initialized = true)
    {es : List (Event Ne2k.Packet)} (hok : Meets (cardStep ethdrvRecv lw) Allowed s es) :
    let res := emitted (cardStep ethdrvRecv lw) ringEvents s es
    (run (cardStep ethdrvRecv lw) s es).world = run Ne2k.step s.world res ∧
      emitted (cardStep ethdrvRecv lw) (got (ne2kDrivers ethdrvRecv)) s es =
        Ne2k.results s.world res ∧
      emitted (cardStep ethdrvRecv lw) taken s es = emitted Ne2k.step Ne2k.taken s.world res ∧
      Ne2k.queued res = arrived es ∧ Meets Ne2k.step (Ne2k.Allowed RX_BUF_SIZE) s.world res := by
  induction es generalizing s with
  | nil => exact ⟨rfl, rfl, rfl, rfl, trivial⟩
  | cons e es ih =>
      obtain ⟨hallowed, hrest⟩ := hok
      obtain ⟨hworld, hgot, htaken⟩ := ring_step lw ethdrvRecv hinit e
      have hinit' : (cardStep ethdrvRecv lw s e).world.initialized = true := by
        rw [hworld, initialized_run, hinit]
      obtain ⟨hrun, hgots, htakens, hqueued, hmeets⟩ := ih hinit' hrest
      rw [hworld] at hrun hgots htakens hmeets
      refine ⟨?_, ?_, ?_, ?_, ?_⟩
      · rw [run_cons, hrun]
        exact List.foldl_append.symm
      · rw [emitted, hgot, hgots]
        exact (emitted_append Ne2k.step Ne2k.result _ _ _).symm
      · rw [emitted, htaken, htakens]
        exact (emitted_append Ne2k.step Ne2k.taken _ _ _).symm
      · rw [emitted, Ne2k.queued, List.flatMap_append, ← Ne2k.queued, ← Ne2k.queued, hqueued]
        cases e with
        | arrive p => rfl
        | poll => rfl
        | turn =>
            rw [ringEvents]
            split <;> rfl
      · refine (meets_append Ne2k.step).mpr ⟨?_, hmeets⟩
        cases e with
        | arrive p => exact ⟨hallowed, trivial⟩
        | poll => exact trivial
        | turn =>
            rw [ringEvents]
            split
            · exact ⟨⟨by decide, Nat.le_refl _⟩, trivial⟩
            · exact trivial

variable (lw ethdrvRecv) in
def handled (s : State Ne2k.State) (es : List (Event Ne2k.Packet)) : Nat :=
  (emitted (cardStep ethdrvRecv lw) taken s es).length

/-- What the card holds behind a run from its initialisation on, and what lwIP was handed. -/
theorem fifo_run (s₀ : Ne2k.State) {es : List (Event Ne2k.Packet)}
    (hok : Meets (cardStep ethdrvRecv lw) Allowed (start (Ne2k.ne2kInitDirect s₀).2.2) es) :
    let s := run (cardStep ethdrvRecv lw) (start (Ne2k.ne2kInitDirect s₀).2.2) es
    let k := handled lw ethdrvRecv (start (Ne2k.ne2kInitDirect s₀).2.2) es
    k ≤ (arrived es).length ∧ Ne2k.Holds ((arrived es).drop k) s.world ∧
      s.frames = (Ne2k.bodies ((arrived es).take k)).length ∧
      inputs s.calls = kept lw 0 (Ne2k.bodies ((arrived es).take k)) := by
  have hready : Ne2k.Ready (start (Ne2k.ne2kInitDirect s₀).2.2).world :=
    Ne2k.ready_ne2kInitDirect s₀
  obtain ⟨hworld, hgot, htaken, hqueued, hmeets⟩ := ring_run hready.initialized hok
  have hdelivered := hready.holds.delivered (by simp) hmeets
  have hle := hdelivered.le
  have hresults := hdelivered.results
  have hholds := hdelivered.holds
  rw [List.nil_append, hqueued] at hle hresults hholds
  obtain ⟨hframes, hinputs⟩ := inputs_run (ne2kDrivers ethdrvRecv) lw queue
    (start (Ne2k.ne2kInitDirect s₀).2.2) es
  rw [hgot, hresults] at hframes hinputs
  rw [← hworld] at hholds
  rw [Ne2k.drained, ← htaken] at hle hholds hframes hinputs
  exact ⟨hle, hholds, hframes.trans (Nat.zero_add _), hinputs⟩

/-- Three packets, the second one damaged; the first is read before the others come. -/
def damagedSecond : List (Event Ne2k.Packet) :=
  [.arrive ⟨1, [1, 2, 3], [], 1, by decide⟩, .poll, .turn, .arrive ⟨2, [4], [], 1, by decide⟩,
    .arrive ⟨1, [5, 6], [], 1, by decide⟩, .turn]

/-- There is no pbuf for the second frame. -/
def onePbuf : Lwip := ⟨fun p => p == 0, fun _ => true⟩

/-- No frame comes from the other driver. -/
def noEthdrv (_ : Nat) (buf : Mem UInt8) (s : Ne2k.State) : Nat × Mem UInt8 × Ne2k.State :=
  (0, buf, s)

theorem allowed_damagedSecond : Meets (cardStep noEthdrv onePbuf) Allowed
    (start (Ne2k.ne2kInitDirect Ne2k.powerOn).2.2) damagedSecond := by
  decide +kernel

/-- From the initialisation of the card on, each turn of the loop that comes to a packet takes one
off the ring: lwIP is handed the bodies of the good ones in the order in which the card queued
them, each once and whole, but for those that had no pbuf; every pbuf is given to lwIP or freed,
once, and is not touched after that. -/
theorem pump_fifo (s₀ : Ne2k.State) {es : List (Event Ne2k.Packet)}
    (hok : Meets (cardStep ethdrvRecv lw) Allowed (start (Ne2k.ne2kInitDirect s₀).2.2) es) :
    let s := run (cardStep ethdrvRecv lw) (start (Ne2k.ne2kInitDirect s₀).2.2) es
    let k := handled lw ethdrvRecv (start (Ne2k.ne2kInitDirect s₀).2.2) es
    k ≤ (arrived es).length ∧ s.frames = (Ne2k.bodies ((arrived es).take k)).length ∧
      inputs s.calls = kept lw 0 (Ne2k.bodies ((arrived es).take k)) ∧ Settled s ∧
      (Ne2k.Empty s.world.nic ↔ k = (arrived es).length) := by
  obtain ⟨hle, hholds, hframes, hinputs⟩ := fifo_run s₀ hok
  refine ⟨hle, hframes, hinputs, ?_, ?_⟩
  · have hstep : ∀ s e, Settled s → True → Settled (cardStep ethdrvRecv lw s e) :=
      fun _ e h _ => settled_step h e
    have hany : Meets (cardStep ethdrvRecv lw) (fun _ _ => True) _ es :=
      meets_of_forall _ (fun _ _ => trivial) (start (Ne2k.ne2kInitDirect s₀).2.2) es
    exact run_invariant _ hstep (settled_start _) hany
  · rw [hholds.empty_iff, List.drop_eq_nil_iff]
    exact ⟨fun h => Nat.le_antisymm hle h, fun h => h ▸ Nat.le_refl _⟩

theorem pump_fifo_damagedSecond :
    inputs (run (cardStep noEthdrv onePbuf) (start (Ne2k.ne2kInitDirect Ne2k.powerOn).2.2)
      damagedSecond).calls = [[1, 2, 3]] := by
  obtain ⟨-, -, hinputs, -⟩ := pump_fifo Ne2k.powerOn allowed_damagedSecond
  have hhandled : handled onePbuf noEthdrv (start (Ne2k.ne2kInitDirect Ne2k.powerOn).2.2)
      damagedSecond = 2 := by
    decide +kernel
  rw [hhandled] at hinputs
  exact hinputs.trans (by decide)

/-! ## Until the ring is empty -/

variable (lw ethdrvRecv) in
theorem turn_poll {s : State Ne2k.State} (hinit : s.world.initialized = true)
    (hpumping : s.pumping = true) :
    (cardStep ethdrvRecv lw s .turn).world =
        Ne2k.step s.world (.poll RX_BUF_SIZE s.rxBuf) ∧
      (cardStep ethdrvRecv lw s .turn).active = s.active ∧
      ((cardStep ethdrvRecv lw s .turn).pumping = false ↔
        Ne2k.result s.world (.poll RX_BUF_SIZE s.rxBuf) = []) := by
  rw [cardStep, step, if_pos hpumping, Ne2k.result, Ne2k.step]
  rcases turn_cases (ne2kDrivers ethdrvRecv) lw s with ⟨hlen, hturn⟩ | ⟨hlen, hturn⟩ <;>
    rw [receive_ne2k hinit] at hlen hturn <;> rw [hturn]
  · exact ⟨rfl, rfl, by simp [hlen]⟩
  · obtain ⟨out, hhandle⟩ := handle_spec lw
      (slice (Ne2k.ne2kPollRx RX_BUF_SIZE s.rxBuf s.world).2.1 0
        (Ne2k.ne2kPollRx RX_BUF_SIZE s.rxBuf s.world).1)
      { s with
        rxBuf := (Ne2k.ne2kPollRx RX_BUF_SIZE s.rxBuf s.world).2.1
        world := (Ne2k.ne2kPollRx RX_BUF_SIZE s.rxBuf s.world).2.2 }
    rw [hhandle]
    exact ⟨rfl, rfl, by simp [hlen, hpumping]⟩

theorem turns_stopped {s : State Ne2k.State} (h : s.pumping = false) (n : Nat) :
    run (cardStep ethdrvRecv lw) s (List.replicate n .turn) = s := by
  induction n with
  | zero => rfl
  | succ n ih =>
      rw [List.replicate_succ, run_cons, cardStep, step, if_neg (by simp [h])]
      exact ih

/-- The packets behind the first one that is not to be delivered. -/
def behind (q : List Ne2k.Packet) : List Ne2k.Packet := (q.dropWhile Ne2k.Packet.delivered).tail

variable (lw ethdrvRecv) in
/-- The loop ends behind the first packet that is not to be delivered, or at the end of the
ring. -/
theorem turns_holds {q : List Ne2k.Packet} {s : State Ne2k.State} (h : Ne2k.Holds q s.world)
    (hq : ∀ p ∈ q, p.body.length ≤ RX_BUF_SIZE) (hpumping : s.pumping = true) {n : Nat}
    (hn : q.length < n) :
    let s' := run (cardStep ethdrvRecv lw) s (List.replicate n .turn)
    s'.pumping = false ∧ s'.active = s.active ∧ Ne2k.Holds (behind q) s'.world := by
  induction q generalizing s n with
  | nil =>
      obtain ⟨n, rfl⟩ := Nat.exists_eq_succ_of_ne_zero (Nat.ne_zero_of_lt hn)
      obtain ⟨hworld, hactive, hstops⟩ := turn_poll lw ethdrvRecv h.initialized hpumping
      obtain ⟨hresult, hholds⟩ := h.poll_empty RX_BUF_SIZE s.rxBuf
      rw [List.replicate_succ, run_cons, turns_stopped (hstops.mpr hresult)]
      exact ⟨hstops.mpr hresult, hactive, hworld ▸ hholds⟩
  | cons p q ih =>
      obtain ⟨n, rfl⟩ := Nat.exists_eq_succ_of_ne_zero (Nat.ne_zero_of_lt hn)
      obtain ⟨hworld, hactive, hstops⟩ := turn_poll lw ethdrvRecv h.initialized hpumping
      obtain ⟨hresult, hholds⟩ := h.poll_packet (hq p (by simp)) s.rxBuf
      rw [hresult] at hstops
      rw [← hworld] at hholds
      rw [List.replicate_succ, run_cons]
      cases hp : p.delivered with
      | false =>
          have hstop := hstops.mpr (by simp [Ne2k.bodies, hp])
          rw [turns_stopped hstop]
          exact ⟨hstop, hactive, by simpa [behind, hp] using hholds⟩
      | true =>
          have hgoes : (cardStep ethdrvRecv lw s .turn).pumping = true := by
            by_contra hstop
            have hnone := hstops.mp (Bool.eq_false_iff.mpr hstop)
            simp [Ne2k.bodies, hp] at hnone
          obtain ⟨hstop, hactive', hrest⟩ := ih hholds (fun p' hp' => hq p' (by simp [hp'])) hgoes
            (Nat.lt_of_succ_lt_succ hn)
          exact ⟨hstop, hactive'.trans hactive, by simpa [behind, hp] using hrest⟩

def undelivered (q : List Ne2k.Packet) : Nat := q.countP fun p => !p.delivered

theorem length_behind_le (q : List Ne2k.Packet) : (behind q).length ≤ q.length := by
  have hdrop := (List.dropWhile_sublist (l := q) Ne2k.Packet.delivered).length_le
  rw [behind, List.length_tail]
  omega

theorem mem_of_mem_behind {q : List Ne2k.Packet} {p : Ne2k.Packet} (hp : p ∈ behind q) : p ∈ q :=
  (List.dropWhile_sublist _).subset (List.mem_of_mem_tail hp)

/-- The loop leaves the ring empty, or one less of the packets that are not to be delivered. -/
theorem undelivered_behind (q : List Ne2k.Packet) :
    behind q = [] ∨ undelivered (behind q) + 1 = undelivered q := by
  induction q with
  | nil => exact .inl rfl
  | cons p q ih =>
      cases hp : p.delivered with
      | false => exact .inr (by simp [behind, undelivered, hp])
      | true => simpa [behind, undelivered, hp] using ih

/-- A call of the poll hook, with `n` turns of the loop. -/
def hookCall (n : Nat) : List (Event Ne2k.Packet) := .poll :: List.replicate n .turn

def hookCalls (m n : Nat) : List (Event Ne2k.Packet) := (List.replicate m (hookCall n)).flatten

variable (lw ethdrvRecv) in
theorem hookCalls_holds {q : List Ne2k.Packet} {s : State Ne2k.State}
    (h : Ne2k.Holds q s.world) (hq : ∀ p ∈ q, p.body.length ≤ RX_BUF_SIZE)
    (hactive : s.active = true) {m n : Nat} (hn : q.length < n) (hm : undelivered q < m) :
    let s' := run (cardStep ethdrvRecv lw) s (hookCalls m n)
    s'.pumping = false ∧ Ne2k.Holds [] s'.world := by
  induction m generalizing q s with
  | zero => exact absurd hm (Nat.not_lt_zero _)
  | succ m ih =>
      have hpoll : cardStep ethdrvRecv lw s .poll = { s with pumping := true } := if_pos hactive
      obtain ⟨hstop, hactive', hrest⟩ := turns_holds lw ethdrvRecv
        (s := cardStep ethdrvRecv lw s .poll) (hpoll ▸ h) hq (hpoll ▸ rfl) hn
      have hcall : run (cardStep ethdrvRecv lw) s (hookCalls (m + 1) n) =
          run (cardStep ethdrvRecv lw) (run (cardStep ethdrvRecv lw)
            (cardStep ethdrvRecv lw s .poll) (List.replicate n .turn)) (hookCalls m n) :=
        List.foldl_append
      rw [hcall]
      have hbehind := undelivered_behind q
      cases m with
      | zero =>
          have hnil : behind q = [] := hbehind.resolve_right (by omega)
          exact ⟨hstop, hnil ▸ hrest⟩
      | succ m =>
          have hless : undelivered (behind q) < m + 1 := by
            rcases hbehind with hnil | hless
            · rw [hnil]
              exact Nat.succ_pos m
            · omega
          refine ih hrest (fun p hp => hq p (mem_of_mem_behind hp)) ?_ ?_ hless
          · rw [hactive', hpoll]
            exact hactive
          · exact Nat.lt_of_le_of_lt (length_behind_le q) hn

theorem active_run {s : State σ} (h : s.active = true) (es : List (Event ε)) :
    (run (step d lw arrive) s es).active = true := by
  have hstep : ∀ (s : State σ) e, s.active = true → True →
      (step d lw arrive s e).active = true := by
    intro s e hs _
    cases e with
    | arrive e => exact hs
    | poll =>
        rw [step]
        split <;> exact hs
    | turn =>
        rw [step]
        split
        · rcases turn_cases d lw s with ⟨-, hturn⟩ | ⟨-, hturn⟩ <;> rw [hturn]
          · exact hs
          · obtain ⟨out, hhandle⟩ := handle_spec lw (slice (receive d s).2.1 0 (receive d s).1)
              { s with rxBuf := (receive d s).2.1, world := (receive d s).2.2 }
            rw [hhandle]
            exact hs
        · exact hs
  exact run_invariant _ hstep h (meets_of_forall _ (fun _ _ => trivial) s es)

theorem allowed_arrived {s : State Ne2k.State} {es : List (Event Ne2k.Packet)}
    (hok : Meets (cardStep ethdrvRecv lw) Allowed s es) :
    ∀ p ∈ arrived es, p.body.length ≤ RX_BUF_SIZE := by
  induction es generalizing s with
  | nil => simp [arrived]
  | cons e es ih =>
      cases e with
      | arrive p => exact List.forall_mem_cons.mpr ⟨hok.1.1, ih hok.2⟩
      | poll => exact ih hok.2
      | turn => exact ih hok.2

theorem arrived_append (es fs : List (Event Ne2k.Packet)) :
    arrived (es ++ fs) = arrived es ++ arrived fs := by
  induction es with
  | nil => rfl
  | cons e es ih => cases e <;> simp [arrived, ih]

theorem mem_hookCalls {m n : Nat} {e : Event Ne2k.Packet} (he : e ∈ hookCalls m n) :
    e = .poll ∨ e = .turn := by
  obtain ⟨call, hcall, he⟩ := List.mem_flatten.mp he
  rw [List.eq_of_mem_replicate hcall] at he
  rcases List.mem_cons.mp he with rfl | he
  · exact .inl rfl
  · exact .inr (List.eq_of_mem_replicate he)

theorem arrived_of_quiet {es : List (Event Ne2k.Packet)} (h : ∀ e ∈ es, e = .poll ∨ e = .turn) :
    arrived es = [] := by
  induction es with
  | nil => rfl
  | cons e es ih =>
      have hes := ih fun e' he' => h e' (List.mem_cons_of_mem _ he')
      rcases h e List.mem_cons_self with rfl | rfl <;> exact hes

theorem meets_of_quiet (s : State Ne2k.State) {es : List (Event Ne2k.Packet)}
    (h : ∀ e ∈ es, e = .poll ∨ e = .turn) : Meets (cardStep ethdrvRecv lw) Allowed s es := by
  induction es generalizing s with
  | nil => exact trivial
  | cons e es ih =>
      refine ⟨?_, ih _ fun e' he' => h e' (List.mem_cons_of_mem _ he')⟩
      rcases h e List.mem_cons_self with rfl | rfl <;> exact trivial

/-- When nothing arrives any more, one call of the poll hook for each packet that is not to be
delivered and another one, each with enough turns, empty the ring: lwIP has been handed every
frame that was to be delivered and had a pbuf. -/
theorem hookCalls_empty (s₀ : Ne2k.State) {es : List (Event Ne2k.Packet)}
    (hok : Meets (cardStep ethdrvRecv lw) Allowed (start (Ne2k.ne2kInitDirect s₀).2.2) es)
    {m n : Nat} (hn : (arrived es).length < n) (hm : undelivered (arrived es) < m) :
    let s := run (cardStep ethdrvRecv lw) (start (Ne2k.ne2kInitDirect s₀).2.2)
      (es ++ hookCalls m n)
    s.pumping = false ∧ Ne2k.Empty s.world.nic ∧
      inputs s.calls = kept lw 0 (Ne2k.bodies (arrived es)) := by
  obtain ⟨-, hholds, -⟩ := fifo_run s₀ hok
  have hsub := (arrived es).drop_sublist
    (handled lw ethdrvRecv (start (Ne2k.ne2kInitDirect s₀).2.2) es)
  have hquiet : ∀ e ∈ hookCalls m n, e = .poll ∨ e = .turn := fun _ => mem_hookCalls
  have hstop := hookCalls_holds lw ethdrvRecv (m := m) hholds
    (fun p hp => allowed_arrived hok p (hsub.subset hp)) (active_run rfl es)
    (Nat.lt_of_le_of_lt hsub.length_le hn) (Nat.lt_of_le_of_lt hsub.countP_le hm)
  have hall := (meets_append (cardStep ethdrvRecv lw)).mpr ⟨hok, meets_of_quiet _ hquiet⟩
  obtain ⟨-, hholds', -, hinputs⟩ := fifo_run s₀ hall
  have hsplit : ∀ s, run (cardStep ethdrvRecv lw) s (es ++ hookCalls m n) =
      run (cardStep ethdrvRecv lw) (run (cardStep ethdrvRecv lw) s es) (hookCalls m n) :=
    fun _ => List.foldl_append
  have hempty : Ne2k.Empty (run (cardStep ethdrvRecv lw) (start (Ne2k.ne2kInitDirect s₀).2.2)
      (es ++ hookCalls m n)).world.nic := by
    rw [hsplit]
    exact hstop.2.empty_iff.mpr rfl
  refine ⟨by rw [hsplit]; exact hstop.1, hempty, ?_⟩
  rw [hinputs, List.take_of_length_le (List.drop_eq_nil_iff.mp (hholds'.empty_iff.mp hempty)),
    arrived_append, arrived_of_quiet hquiet, List.append_nil]

theorem hookCalls_empty_damagedSecond :
    inputs (run (cardStep noEthdrv onePbuf) (start (Ne2k.ne2kInitDirect Ne2k.powerOn).2.2)
      (damagedSecond ++ hookCalls 2 4)).calls = [[1, 2, 3]] := by
  obtain ⟨-, -, hinputs⟩ := hookCalls_empty Ne2k.powerOn allowed_damagedSecond (m := 2) (n := 4)
    (by decide) (by decide)
  rw [hinputs]
  decide

end FreedosMicroPython.Net.Pump
