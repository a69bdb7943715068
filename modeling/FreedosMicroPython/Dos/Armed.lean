import FreedosMicroPython.Dos.Preinit
import FreedosMicroPython.Lib.Runs
/-!
# Real mode is entered at a good thunk

A run is a list of events: the start-up, the seven services, and something that walks over
the three bytes of the thunk. `invocations` lists how an event goes through the gate. The
host answers DPMI queries and read-backs as it likes.
-/

namespace FreedosMicroPython.Dos.Armed

open FreedosMicroPython.Lib.Runs
open FreedosMicroPython.Host FreedosMicroPython.Dos.Int21 FreedosMicroPython.Dos.Gate
open FreedosMicroPython.Dos.Preinit

variable {σ : Type} (c : Client σ)

/-! ## Events -/

inductive Event where
  | preinit (irqs : CallIrqs)
  | openFile (irqs : CallIrqs) (path : CString) (dosAccessMode : Nat)
  | creat (irqs : CallIrqs) (path : CString)
  | read (irqs : CallIrqs) (fd : Int) (count : Nat)
  | write (irqs : CallIrqs) (fd : Int) (buf : List UInt8)
  | close (irqs : CallIrqs) (fd : Int)
  | lseek (irqs : CallIrqs) (fd : Int) (offset : Int) (whence : Nat)
  | fsize (irqs : CallIrqs) (fd : Int)
  | corrupt (b₀ b₁ b₂ : UInt8)

def returned {α : Type} (value : α → Int) : Except Nat α → Int
  | .error _ => -1
  | .ok a => value a

namespace Event

def zeroLength : Event → Bool
  | read _ _ count => count = 0
  | write _ _ buf => buf = []
  | _ => false

/-- What the event returns, if it is a call that returns something, and the machine after it. -/
def exec : Event → Machine σ → Option Int × Machine σ
  | preinit irqs, m => (none, dosInt21ThunkPreinit c irqs m)
  | openFile irqs path mode, m =>
      let (r, m) := dosInt21Open c.toWorld irqs path mode m
      (some (returned Nat.cast r), m)
  | creat irqs path, m =>
      let (r, m) := dosInt21Creat c.toWorld irqs path m
      (some (returned Nat.cast r), m)
  | read irqs fd count, m =>
      let (r, m) := dosInt21Read c.toWorld irqs fd count m
      (some (returned (fun bs => bs.length) r), m)
  | write irqs fd buf, m =>
      let (r, m) := dosInt21Write c.toWorld irqs fd buf m
      (some (returned Nat.cast r), m)
  | close irqs fd, m =>
      let (r, m) := dosInt21Close c.toWorld irqs fd m
      (some (returned (fun _ => 0) r), m)
  | lseek irqs fd offset whence, m =>
      let (r, m) := dosInt21Lseek c.toWorld irqs fd offset whence m
      (some (returned id r), m)
  | fsize irqs fd, m =>
      let (size, m) := dosInt21Fsize c.toWorld irqs fd m
      (some (size.getD (-1)), m)
  | corrupt b₀ b₁ b₂, m => (none, { m with i21Thunk := { m.i21Thunk with code := [b₀, b₁, b₂] } })

def step (m : Machine σ) (e : Event) : Machine σ := (e.exec c m).2

end Event

/-- The registers and the machine of each invocation of `dpmi0301_call_shallow` by
`dos_int21_fsize`. -/
def fsizeInvocations (d : World σ) (irqs : CallIrqs) (fd : Int) (m : Machine σ) :
    List (Rmcs × Machine σ) :=
  ((lseekService irqs fd 0 1).invocation d m).toList ++
    match dosInt21Lseek d irqs fd 0 1 m with
    | (.error _, _) => []
    | (.ok cur, m) =>
        if cur < 0 then []
        else
          ((lseekService irqs fd 0 2).invocation d m).toList ++
            match dosInt21Lseek d irqs fd 0 2 m with
            | (.error _, _) => []
            | (.ok eof, m) =>
                if eof < 0 then [] else ((lseekService irqs fd cur 0).invocation d m).toList

def preinitInvocations (irqs : CallIrqs) (m : Machine σ) : List (Rmcs × Machine σ) :=
  match dosInt21ThunkInit c.toWorld (beforeArming c m) with
  | (false, _) => []
  | (true, m) =>
      if m.preallocBounceLinear ≠ 0 ∧ m.i21Thunk.ready then
        ((probeService c irqs).invocation c.toWorld m).toList
      else []

/-- The registers and the machine of each invocation of `dpmi0301_call_shallow` by an event. -/
def invocations (m : Machine σ) : Event → List (Rmcs × Machine σ)
  | .preinit irqs => preinitInvocations c irqs m
  | .openFile irqs path mode =>
      ((pathService irqs path (openRegs · mode)).invocation c.toWorld m).toList
  | .creat irqs path => ((pathService irqs path creatRegs).invocation c.toWorld m).toList
  | .read irqs fd count => ((readService irqs fd count).invocation c.toWorld m).toList
  | .write irqs fd buf => ((writeService irqs fd buf).invocation c.toWorld m).toList
  | .close irqs fd => ((closeService irqs fd).invocation c.toWorld m).toList
  | .lseek irqs fd offset whence =>
      ((lseekService irqs fd offset whence).invocation c.toWorld m).toList
  | .fsize irqs fd => fsizeInvocations c.toWorld irqs fd m
  | .corrupt _ _ _ => []

/-! ## From one machine to the next -/

/-- What leads from `m` to `m'` with these invocations keeps the invariant, goes through the
gate at a good thunk only, and without an armed thunk not at all. -/
structure Passage (m : Machine σ) (gs : List (Rmcs × Machine σ)) (m' : Machine σ) : Prop where
  inv : ThunkInv m → ThunkInv m'
  atThunk : ThunkInv m → ∀ g ∈ gs, AtThunk g.1 g.2
  ready : m.i21Thunk.ready = true → m'.i21Thunk.ready = true
  idle : m'.i21Thunk.ready = false → gs = [] ∧ m'.calls = m.calls

theorem Passage.of_same {m m' : Machine σ} (hthunk : m'.i21Thunk.ready = m.i21Thunk.ready)
    (hinv : ThunkInv m → ThunkInv m') (hcalls : m'.calls = m.calls) : Passage m [] m' where
  inv := hinv
  atThunk _ _ hg := by cases hg
  ready h := hthunk.trans h
  idle _ := ⟨rfl, hcalls⟩

theorem Passage.trans {m m' m'' : Machine σ} {gs gs' : List (Rmcs × Machine σ)}
    (h : Passage m gs m') (h' : Passage m' gs' m'') : Passage m (gs ++ gs') m'' where
  inv hm := h'.inv (h.inv hm)
  atThunk hm g hg := by
    rcases List.mem_append.mp hg with hg | hg
    · exact h.atThunk hm g hg
    · exact h'.atThunk (h.inv hm) g hg
  ready hm := h'.ready (h.ready hm)
  idle hm := by
    have hm' : m'.i21Thunk.ready = false := by
      by_contra hready
      rw [h'.ready (by simpa using hready)] at hm
      cases hm
    obtain ⟨hgs', hcalls'⟩ := h'.idle hm
    obtain ⟨hgs, hcalls⟩ := h.idle hm'
    exact ⟨by rw [hgs, hgs', List.append_nil], hcalls'.trans hcalls⟩

theorem passage_call {α : Type} (d : World σ) (v : Service σ α) (m : Machine σ) :
    Passage m (v.invocation d m).toList (v.call d m).2 where
  inv := v.thunkInv_call d
  atThunk hm g hg := v.atThunk_of_mem d hm (Option.mem_toList.mp hg)
  ready := v.ready_call d
  idle h := by
    obtain ⟨hnone, hcalls, -⟩ := v.call_of_not_ready d h
    exact ⟨by rw [hnone, Option.toList_none], hcalls⟩

theorem passage_lseek (d : World σ) (irqs : CallIrqs) (fd offset : Int) (whence : Nat)
    (m : Machine σ) : Passage m ((lseekService irqs fd offset whence).invocation d m).toList
      (dosInt21Lseek d irqs fd offset whence m).2 := by
  rw [dosInt21Lseek_eq_call]
  exact passage_call d _ m

theorem passage_fsize (d : World σ) (irqs : CallIrqs) (fd : Int) (m : Machine σ) :
    Passage m (fsizeInvocations d irqs fd m) (dosInt21Fsize d irqs fd m).2 := by
  have hcall := passage_lseek d irqs fd
  have hstay : ∀ m : Machine σ, Passage m [] m := fun m => Passage.of_same rfl id rfl
  unfold fsizeInvocations dosInt21Fsize
  have hcur := hcall 0 1 m
  generalize dosInt21Lseek d irqs fd 0 1 m = r at hcur ⊢
  obtain ⟨_ | cur, m₁⟩ := r
  · exact hcur.trans (hstay m₁)
  · dsimp only
    split
    · exact hcur.trans (hstay m₁)
    · apply hcur.trans
      have heof := hcall 0 2 m₁
      generalize dosInt21Lseek d irqs fd 0 2 m₁ = r at heof ⊢
      obtain ⟨_ | eof, m₂⟩ := r
      · exact heof.trans (hstay m₂)
      · dsimp only
        split
        · exact heof.trans (hstay m₂)
        · exact heof.trans (hcall cur 0 m₂)

theorem ready_of_lseek_ok (d : World σ) (irqs : CallIrqs) (fd offset : Int) (whence : Nat)
    {m m' : Machine σ} {pos : Int}
    (h : dosInt21Lseek d irqs fd offset whence m = (.ok pos, m')) :
    m'.i21Thunk.ready = true := by
  rw [dosInt21Lseek_eq_call] at h
  cases hready : m'.i21Thunk.ready with
  | true => rfl
  | false =>
      obtain ⟨-, -, hearly | herr⟩ :=
        (lseekService irqs fd offset whence).call_of_not_ready d (m := m) (by rw [h, hready])
      · cases hearly
      · rw [h] at herr
        cases herr

theorem fsize_of_not_ready (d : World σ) (irqs : CallIrqs) (fd : Int) {m : Machine σ}
    (h : (dosInt21Fsize d irqs fd m).2.i21Thunk.ready = false) :
    (dosInt21Fsize d irqs fd m).1 = none := by
  unfold dosInt21Fsize at h ⊢
  cases hcur : dosInt21Lseek d irqs fd 0 1 m with
  | mk r m₁ =>
    cases r with
    | error _ => rfl
    | ok cur =>
      have hready := ready_of_lseek_ok d irqs fd 0 1 hcur
      have heof := (passage_lseek d irqs fd 0 2 m₁).ready hready
      rw [hcur] at h
      dsimp only at h ⊢
      split
      · rfl
      · next hneg =>
          rw [if_neg hneg] at h
          generalize dosInt21Lseek d irqs fd 0 2 m₁ = r at h heof ⊢
          obtain ⟨_ | eof, m₂⟩ := r
          · rfl
          · dsimp only at h ⊢
            split
            · rfl
            · next hneg =>
                rw [if_neg hneg] at h
                have hset := (passage_lseek d irqs fd cur 0 m₂).ready heof
                rw [hset] at h
                cases h

theorem rmStackAlloc_calls (sizes : List Nat) (m : Machine σ) :
    (rmStackAlloc c sizes m).calls = m.calls := by
  induction sizes generalizing m with
  | nil => rfl
  | cons paras rest ih =>
      unfold rmStackAlloc
      split
      · rfl
      · next s _ => exact ih { m with world := s }

theorem passage_beforeArming (m : Machine σ) : Passage m [] (beforeArming c m) := by
  obtain ⟨hthunk, hseg, -⟩ := beforeArming_thunk c m
  have hcalls : (dosBounceResolve c m).2.calls = m.calls := by
    rcases dosBounceResolve_cases c m with ⟨s, h⟩ | ⟨-, -, h⟩ <;> rw [h]
  apply Passage.of_same (by rw [hthunk])
  · intro hm
    constructor
    · rw [hthunk]
      exact hm.linear
    · rw [hthunk, hseg]
      exact hm.seg
    · rw [hseg]
      exact hm.fits
  · exact (rmStackAlloc_calls c stackParas _).trans hcalls

theorem passage_thunkInit (d : World σ) (m : Machine σ) :
    Passage m [] (dosInt21ThunkInit d m).2 where
  inv hm := hm.arm d
  atThunk _ _ hg := by cases hg
  ready hm := by
    rcases dosInt21ThunkInit_cases d m with ⟨-, h⟩ | ⟨h, -⟩ | ⟨h, -⟩
    · rw [h, hm]
    · rw [hm] at h
      cases h
    · rw [hm] at h
      cases h
  idle _ := by
    rcases dosInt21ThunkInit_cases d m with ⟨-, h⟩ | ⟨-, s, h⟩ | ⟨-, linear, s, -, h⟩ <;> rw [h] <;>
      exact ⟨rfl, rfl⟩

theorem passage_preinit (irqs : CallIrqs) (m : Machine σ) :
    Passage m (preinitInvocations c irqs m) (dosInt21ThunkPreinit c irqs m) := by
  have hinit := (passage_beforeArming c m).trans
    (passage_thunkInit c.toWorld (beforeArming c m))
  have heq : dosInt21ThunkPreinit c irqs m =
      match dosInt21ThunkInit c.toWorld (beforeArming c m) with
      | (false, m) => m
      | (true, m) =>
          if m.preallocBounceLinear ≠ 0 ∧ m.i21Thunk.ready then mapProbe c irqs m else m := rfl
  rw [heq, preinitInvocations]
  generalize dosInt21ThunkInit c.toWorld (beforeArming c m) = r at hinit ⊢
  obtain ⟨_ | _, m₁⟩ := r
  · exact hinit
  · dsimp only
    split
    · rw [mapProbe_eq_call]
      exact hinit.trans (passage_call c.toWorld (probeService c irqs) m₁)
    · exact hinit

/-! ## One event -/

/-- What the event returns when the thunk is not armed. -/
def Event.Fails (e : Event) (r : Int) : Prop := r = -1 ∨ e.zeroLength = true ∧ r = 0

/-- One event is a passage, and fails when it ends without an armed thunk. -/
structure Safe (e : Event) (m : Machine σ) : Prop where
  passage : Passage m (invocations c m e) (e.step c m)
  fails : (e.step c m).i21Thunk.ready = false → ∀ r, (e.exec c m).1 = some r → e.Fails r

theorem safe_of_service {α : Type} (v : Service σ α) (value : α → Int) {e : Event}
    {m : Machine σ} (hinv : invocations c m e = (v.invocation c.toWorld m).toList)
    (hexec : e.exec c m = (some (returned value (v.call c.toWorld m).1), (v.call c.toWorld m).2))
    (hearly : ∀ r, v.early m = some r → e.Fails (returned value r)) : Safe c e m where
  passage := by
    rw [hinv, Event.step, hexec]
    exact passage_call c.toWorld v m
  fails h := by
    rw [Event.step, hexec] at h
    rw [hexec]
    rintro r ⟨⟩
    obtain ⟨-, -, hret | hret⟩ := v.call_of_not_ready c.toWorld h
    · exact hearly _ hret
    · rw [hret]
      exact Or.inl rfl

theorem early_cases {α : Type} {p q : Prop} [Decidable p] [Decidable q] {r r₀ : Except Nat α}
    (h : (if p then some (.error 0) else if q then some r₀ else none) = some r) :
    r = .error 0 ∨ q ∧ r = r₀ := by
  split at h
  · exact Or.inl (Option.some.inj h).symm
  · split at h
    · next hq => exact Or.inr ⟨hq, (Option.some.inj h).symm⟩
    · cases h

theorem pathService_early (irqs : CallIrqs) (path : CString) (regs : Machine σ → Rmcs)
    (m : Machine σ) (e : Event) : ∀ r, (pathService irqs path regs).early m = some r →
      e.Fails (returned Nat.cast r) := by
  intro r hr
  rcases early_cases hr with rfl | ⟨-, rfl⟩
  · exact Or.inl rfl
  · exact Or.inl rfl

theorem safe (e : Event) (m : Machine σ) : Safe c e m := by
  cases e with
  | preinit irqs => exact ⟨passage_preinit c irqs m, fun _ _ hr => by cases hr⟩
  | openFile irqs path mode =>
      refine safe_of_service c (pathService irqs path (openRegs · mode)) Nat.cast rfl ?_
        (pathService_early irqs path _ m _)
      rw [← pathCall_eq_call]
      rfl
  | creat irqs path =>
      refine safe_of_service c (pathService irqs path creatRegs) Nat.cast rfl ?_
        (pathService_early irqs path _ m _)
      rw [← pathCall_eq_call]
      rfl
  | read irqs fd count =>
      refine safe_of_service c (readService irqs fd count) (fun bs => bs.length) rfl ?_ ?_
      · rw [← dosInt21Read_eq_call]
        rfl
      · intro r hr
        rcases early_cases hr with rfl | ⟨hcount, rfl⟩
        · exact Or.inl rfl
        · exact Or.inr ⟨decide_eq_true hcount, rfl⟩
  | write irqs fd buf =>
      refine safe_of_service c (writeService irqs fd buf) Nat.cast rfl ?_ ?_
      · rw [← dosInt21Write_eq_call]
        rfl
      · intro r hr
        rcases early_cases hr with rfl | ⟨hbuf, rfl⟩
        · exact Or.inl rfl
        · exact Or.inr ⟨decide_eq_true hbuf, rfl⟩
  | close irqs fd =>
      refine safe_of_service c (closeService irqs fd) (fun _ => 0) rfl ?_ (fun _ hr => by cases hr)
      rw [← dosInt21Close_eq_call]
      rfl
  | lseek irqs fd offset whence =>
      refine safe_of_service c (lseekService irqs fd offset whence) id rfl ?_
        (fun _ hr => by cases hr)
      rw [← dosInt21Lseek_eq_call]
      rfl
  | fsize irqs fd =>
      refine ⟨passage_fsize c.toWorld irqs fd m, fun h => ?_⟩
      rintro r ⟨⟩
      exact Or.inl (congrArg (Option.getD · (-1)) (fsize_of_not_ready c.toWorld irqs fd h))
  | corrupt b₀ b₁ b₂ =>
      exact ⟨Passage.of_same rfl (fun hm => ⟨hm.linear, hm.seg, hm.fits⟩) rfl,
        fun _ _ hr => by cases hr⟩

/-! ## Every run -/

theorem thunkInv_of_not_ready {m : Machine σ} (hready : m.i21Thunk.ready = false)
    (hseg : m.i21PreallocThunkSeg < 0x10000) : ThunkInv m where
  linear h := by
    rw [hready] at h
    cases h
  seg h := by
    rw [hready] at h
    cases h
  fits := hseg

/-- In every run from a start with no thunk armed, each invocation of
`dpmi0301_call_shallow` is made at a good thunk, and an event that ends without an armed
thunk makes none, reaches DOS nowhere and fails. -/
theorem run_enters_armed {m : Machine σ} (hready : m.i21Thunk.ready = false)
    (hseg : m.i21PreallocThunkSeg < 0x10000) (es : List Event) :
    (∀ g ∈ emitted (Event.step c) (invocations c) m es, AtThunk g.1 g.2) ∧
      ∀ e : Event, (e.step c (run (Event.step c) m es)).i21Thunk.ready = false →
        invocations c (run (Event.step c) m es) e = [] ∧
        (e.step c (run (Event.step c) m es)).calls = (run (Event.step c) m es).calls ∧
        ∀ r, (e.exec c (run (Event.step c) m es)).1 = some r → e.Fails r := by
  constructor
  · exact forall_emitted _ _ (fun m e => (safe c e m).passage.inv)
      (fun m e => (safe c e m).passage.atThunk) (thunkInv_of_not_ready hready hseg) es
  · intro e hidle
    have hsafe := safe c e (run (Event.step c) m es)
    obtain ⟨hnone, hcalls⟩ := hsafe.passage.idle hidle
    exact ⟨hnone, hcalls, hsafe.fails hidle⟩

/-- Both calls of this run find the three bytes, though something walks over them between. -/
theorem run_enters_armed_repaired :
    (emitted (Event.step (identityHost 0)) (invocations (identityHost 0)) starting
      [.preinit quietCall, .corrupt 0 0 0, .close quietCall 5]).length = 2 ∧
    ∀ g ∈ emitted (Event.step (identityHost 0)) (invocations (identityHost 0)) starting
      [.preinit quietCall, .corrupt 0 0 0, .close quietCall 5], AtThunk g.1 g.2 :=
  ⟨by decide, (run_enters_armed (identityHost 0) rfl (by decide)
    [.preinit quietCall, .corrupt 0 0 0, .close quietCall 5]).1⟩

end FreedosMicroPython.Dos.Armed
