import FreedosMicroPython.Ssh.Objects
/-!
# No call with a freed handle

When every call of libssh2 in a run is made with a pointer that is alive: exactly
when a file or directory is used only while its SFTP and the Session are open, and
an SFTP only while the Session is.
-/

namespace FreedosMicroPython.Ssh.Lifetimes

open FreedosMicroPython.Lib.Runs FreedosMicroPython.Ssh.Channel FreedosMicroPython.Ssh.Objects

variable {s s' s'' : State}

/-! ## What is alive -/

/-- A pointer of an object is alive exactly while what it was created from is open. -/
structure Inv (s : State) : Prop where
  session : s.lib.session = s.session
  sftp : ∀ i p, s.sftps i = some p →
    i < s.nextSftp ∧ p < s.lib.nextSftp ∧ s.lib.sftps p = s.session
  sftp_inj : ∀ i j p, s.sftps i = some p → s.sftps j = some p → i = j
  handle : ∀ k i h, (s.handles k i).handle = some h →
    h < s.lib.nextHandle ∧ (s.handles k i).sftp < s.nextSftp ∧
      s.lib.handles h = (s.session && (s.sftps (s.handles k i).sftp).isSome) ∧
      ∀ p, s.sftps (s.handles k i).sftp = some p → s.lib.openedBy h = p
  handle_inj : ∀ k i k' i' h, (s.handles k i).handle = some h →
    (s.handles k' i').handle = some h → k = k' ∧ i = i'

theorem inv_created : Inv created := by
  constructor <;> simp [created]

theorem Inv.congr (hs : Inv s) {channel : Bool} (hlib : s'.lib = { s.lib with channel := channel })
    (hsession : s'.session = s.session) (hsftps : s'.sftps = s.sftps)
    (hhandles : s'.handles = s.handles) (hnext : s'.nextSftp = s.nextSftp) : Inv s' := by
  obtain ⟨h₁, h₂, h₃, h₄, h₅⟩ := hs
  constructor <;> simp only [hlib, hsession, hsftps, hhandles, hnext] <;> assumption

theorem Inv.newSftp (hs : Inv s) (hopen : s.session = true) :
    Inv { s with
      lib := s.lib.newSftp
      sftps := Function.update s.sftps s.nextSftp (some s.lib.nextSftp)
      nextSftp := s.nextSftp + 1 } := by
  obtain ⟨hsession, hsftp, hsinj, hhandle, hhinj⟩ := hs
  constructor <;> simp only [Libssh2.newSftp, Function.update_apply] <;> grind

theorem Inv.freeSftp (hs : Inv s) {i p : Nat} (hi : s.sftps i = some p) :
    Inv { s with lib := s.lib.freeSftp p, sftps := Function.update s.sftps i none } := by
  obtain ⟨hsession, hsftp, hsinj, hhandle, hhinj⟩ := hs
  refine ⟨hsession, ?_, ?_, ?_, hhinj⟩ <;> simp only [Libssh2.freeSftp, Function.update_apply]
  · grind
  · grind
  · intro k j h hh
    obtain ⟨hlt, hobj, hlive, hby⟩ := hhandle k j h hh
    refine ⟨hlt, hobj, ?_⟩
    by_cases hj : (s.handles k j).sftp = i
    · -- opened through the SFTP that is shut down
      rw [hj] at hby
      simp [hj, hby p hi]
    · cases hparent : s.sftps (s.handles k j).sftp with
      | none => simp [hj, hlive, hparent]
      | some q =>
          have hne : q ≠ p := by
            rintro rfl
            exact hj (hsinj _ _ q hparent hi)
          simp [hj, hlive, hparent, hby q hparent, hne]

theorem Inv.newHandle (hs : Inv s) {i p : Nat} (hi : s.sftps i = some p) (kind : Kind) :
    Inv { s with
      lib := s.lib.newHandle p
      handles := Function.update s.handles kind
        (Function.update (s.handles kind) (s.nextHandle kind) ⟨some s.lib.nextHandle, i⟩)
      nextHandle := Function.update s.nextHandle kind (s.nextHandle kind + 1) } := by
  obtain ⟨hsession, hsftp, hsinj, hhandle, hhinj⟩ := hs
  constructor <;> simp only [Libssh2.newHandle, Function.update_apply] <;> grind

theorem Inv.freeHandle (hs : Inv s) {kind : Kind} {i h : Nat}
    (hi : (s.handles kind i).handle = some h) :
    Inv { s with
      lib := s.lib.freeHandle h
      handles := Function.update s.handles kind
        (Function.update (s.handles kind) i { s.handles kind i with handle := none }) } := by
  obtain ⟨hsession, hsftp, hsinj, hhandle, hhinj⟩ := hs
  constructor <;> simp only [Libssh2.freeHandle, Function.update_apply] <;> grind

theorem Inv.freeSession (hs : Inv s) :
    Inv { s with lib := s.lib.freeSession, session := false } := by
  obtain ⟨hsession, hsftp, hsinj, hhandle, hhinj⟩ := hs
  constructor <;> simp only [Libssh2.freeSession] <;> grind

/-! ## What a method adds to the log -/

/-- The calls made between two states are all made with live pointers exactly if
`ok` holds. -/
def Adds (s s' : State) (ok : Prop) : Prop :=
  ∃ new, s'.calls = s.calls ++ new ∧ ((∀ c ∈ new, c.live = true) ↔ ok)

theorem Adds.refl (s : State) : Adds s s True := ⟨[], by simp⟩

theorem Adds.trans {ok ok' : Prop} (h : Adds s s' ok) (h' : Adds s' s'' ok') :
    Adds s s'' (ok ∧ ok') := by
  obtain ⟨new, hcalls, hok⟩ := h
  obtain ⟨new', hcalls', hok'⟩ := h'
  refine ⟨new ++ new', by rw [hcalls', hcalls, List.append_assoc], ?_⟩
  rw [← hok, ← hok', List.forall_mem_append]

theorem Adds.of_calls {ok : Prop} (h : Adds s s' ok) (hcalls : s''.calls = s'.calls) :
    Adds s s'' ok := by
  obtain ⟨new, hnew, hok⟩ := h
  exact ⟨new, hcalls.trans hnew, hok⟩

/-- Between two states there are only calls, and a channel comes or goes. -/
structure Only (s s' : State) (ok : Prop) : Prop where
  adds : Adds s s' ok
  lib : ∃ channel, s'.lib = { s.lib with channel := channel }
  session : s'.session = s.session
  sftps : s'.sftps = s.sftps
  handles : s'.handles = s.handles
  nextSftp : s'.nextSftp = s.nextSftp

theorem Only.refl (s : State) : Only s s True := ⟨.refl s, ⟨_, rfl⟩, rfl, rfl, rfl, rfl⟩

theorem Only.trans {ok ok' : Prop} (h : Only s s' ok) (h' : Only s' s'' ok') :
    Only s s'' (ok ∧ ok') := by
  obtain ⟨channel, hlib⟩ := h.lib
  obtain ⟨channel', hlib'⟩ := h'.lib
  exact ⟨h.adds.trans h'.adds, ⟨channel', by rw [hlib', hlib]⟩, h'.session.trans h.session,
    h'.sftps.trans h.sftps, h'.handles.trans h.handles, h'.nextSftp.trans h.nextSftp⟩

theorem Only.congr {ok ok' : Prop} (h : Only s s' ok) (hok : ok ↔ ok') : Only s s' ok' :=
  propext hok ▸ h

theorem Only.inv {ok : Prop} (h : Only s s' ok) (hs : Inv s) : Inv s' := by
  obtain ⟨channel, hlib⟩ := h.lib
  exact hs.congr hlib h.session h.sftps h.handles h.nextSftp

theorem only_callAll (s : State) (fns : List Fn) (ptr : Ptr) :
    Only s (s.callAll fns (some ptr)) (fns = [] ∨ s.lib.live ptr = true) := by
  refine ⟨⟨_, rfl, ?_⟩, ⟨_, rfl⟩, rfl, rfl, rfl, rfl⟩
  cases fns with
  | nil => simp
  | cons fn fns =>
      simp only [List.mem_map, forall_exists_index, and_imp, forall_apply_eq_imp_iff₂,
        Option.any_some, reduceCtorEq, false_or]
      exact ⟨fun h => h fn (by simp), fun h _ _ => h⟩

theorem only_call (s : State) (fn : Fn) (ptr : Ptr) :
    Only s (s.call fn (some ptr)) (s.lib.live ptr = true) :=
  (only_callAll s [fn] ptr).congr (by simp)

theorem only_sessionCall (hs : s.lib.session = s.session) (fn : Fn) :
    Only s (s.call fn s.sessionPtr) (s.session = true) := by
  refine ⟨⟨_, rfl, ?_⟩, ⟨_, rfl⟩, rfl, rfl, rfl, rfl⟩
  cases hsession : s.session <;> simp [State.sessionPtr, hsession, Libssh2.live, hs]

theorem only_raise {α : Type} (hs : s.lib.session = s.session) (e : LibError) (fallback : String) :
    Only s (sshRaiseSessionError (α := α) s e fallback).2 (s.session = true) :=
  only_sessionCall hs .sessionLastError

theorem only_freeChannel (s : State) : Only s s.freeChannel (s.lib.channel = true) := by
  have hcall := only_call s .channelFree .channel
  exact ⟨hcall.adds.of_calls rfl, ⟨false, rfl⟩, rfl, rfl, rfl, rfl⟩

theorem Only.raise {α : Type} {ok : Prop} (h : Only s s' ok) (hs : s'.lib.session = s'.session)
    (hopen : ok → s'.session = true) (e : LibError) (fallback : String) :
    Only s (sshRaiseSessionError (α := α) s' e fallback).2 ok := by
  apply (h.trans (only_raise hs e fallback)).congr
  exact and_iff_left_of_imp hopen

/-! ## Methods on the Session -/

theorem only_openSession (hs : s.lib.session = s.session) (hopen : s.session = true) (fn : Fn) :
    Only s (s.call fn s.sessionPtr) True :=
  (only_sessionCall hs fn).congr (iff_true_intro hopen)

theorem only_sessionMethod (hs : s.lib.session = s.session) (fn : Fn) (fallback : String)
    (r : Int) : Only s (sessionCall s fn fallback r).2 True := by
  unfold sessionCall
  cases hopen : s.session with
  | false => exact .refl s
  | true =>
      have hcall := only_openSession hs hopen fn
      by_cases hr : r = 0
      · simpa [hr] using hcall
      · simpa [hr] using hcall.raise (α := Unit) hs (fun _ => hopen) (.other r) fallback

theorem only_openChannel (hs : s.lib.session = s.session) (hopen : s.session = true) (fn : Fn) :
    Only s (s.call fn s.sessionPtr).openChannel True := by
  have hcall := only_openSession hs hopen fn
  exact ⟨hcall.adds.of_calls rfl, ⟨true, rfl⟩, rfl, rfl, rfl, rfl⟩

/-- The end of a method on its open channel makes no bad call. -/
theorem only_finish {α : Type} (hs : s.lib.session = s.session) (hopen : s.session = true)
    (hchannel : s.lib.channel = true) (closing : List Fn) (out : Outcome α × List Fn) :
    Only s (finish s closing out).2 True := by
  have hcalls : ∀ (s : State) fns, s.lib.channel = true →
      Only s (s.callAll fns (some .channel)) True := by
    intro s fns hchannel
    exact (only_callAll s fns .channel).congr (iff_true_intro (.inr hchannel))
  have hfree : ∀ s : State, s.lib.channel = true → Only s s.freeChannel True := by
    intro s hchannel
    exact (only_freeChannel s).congr (iff_true_intro hchannel)
  obtain ⟨out, fns⟩ := out
  have hloop := hcalls s fns hchannel
  have hclosed := (hloop.trans (hcalls _ closing hchannel)).trans (hfree _ hchannel)
  cases out with
  | raised e fallback =>
      have hfreed := hloop.trans (hfree _ hchannel)
      exact (hfreed.raise (α := α) hs (fun _ => hopen) e fallback).congr (and_self_iff)
  | running => exact hloop
  | returned value => exact hclosed.congr (by simp)
  | badf => exact hclosed.congr (by simp)

theorem only_exec (hs : s.lib.session = s.session) (opened : Bool) (r : Int) (reads : List Read) :
    Only s (sshSessionExec s opened r reads).2 True := by
  unfold sshSessionExec
  cases hopen : s.session with
  | false => exact .refl s
  | true =>
      have hcall := only_openSession hs hopen .channelOpenSession
      cases opened with
      | false => exact hcall.raise hs (fun _ => hopen) (.other (-1)) "channel_open_session"
      | true =>
          have hstart := only_openChannel hs hopen .channelOpenSession
          have hexec := (hstart.trans (only_call _ .channelExec .channel)).congr
            (iff_true_intro ⟨trivial, rfl⟩)
          by_cases hr : r = 0
          · have hend := only_finish
              (s := (s.call .channelOpenSession s.sessionPtr).openChannel.call .channelExec
                (some .channel)) hs hopen rfl [.channelClose] (execLoop [] reads)
            simpa [hr] using hexec.trans hend
          · have hfree := (hexec.trans (only_freeChannel _)).congr (iff_true_intro ⟨trivial, rfl⟩)
            simpa [hr] using hfree.raise (α := List UInt8) hs (fun _ => hopen) (.other r)
              "channel_exec"

theorem only_channelMethod {α : Type} (hs : s.lib.session = s.session) (hopen : s.session = true)
    (fn : Fn) (closing : List Fn) (out : Outcome α × List Fn) :
    Only s (finish (s.call fn s.sessionPtr).openChannel closing out).2 True := by
  have hstart := only_openChannel hs hopen fn
  have hend := only_finish (s := (s.call fn s.sessionPtr).openChannel) hs hopen rfl closing out
  exact (hstart.trans hend).congr and_self_iff

theorem only_scpRecv (hs : s.lib.session = s.session) (opened : Bool) (reads : List Read) :
    Only s (sshSessionScpRecv s opened reads).2 True := by
  unfold sshSessionScpRecv
  cases hopen : s.session with
  | false => exact .refl s
  | true =>
      have hcall := only_openSession hs hopen .scpRecv2
      cases opened with
      | false => exact hcall.raise hs (fun _ => hopen) (.other (-1)) "scp_recv2"
      | true => exact only_channelMethod hs hopen .scpRecv2 _ _

theorem only_scpSend (hs : s.lib.session = s.session) (opened : Bool) (len : Nat)
    (writes : List WriteResult) : Only s (sshSessionScpSend s opened len writes).2 True := by
  unfold sshSessionScpSend
  cases hopen : s.session with
  | false => exact .refl s
  | true =>
      have hcall := only_openSession hs hopen .scpSendEx
      cases opened with
      | false => exact hcall.raise hs (fun _ => hopen) (.other (-1)) "scp_send_ex"
      | true => exact only_channelMethod hs hopen .scpSendEx _ _

/-- A method called in a good state: what it adds to the log, and the state is good
again. -/
structure Steps (s s' : State) (ok : Prop) : Prop where
  adds : Adds s s' ok
  inv : Inv s'

theorem Only.steps {ok : Prop} (h : Only s s' ok) (hs : Inv s) : Steps s s' ok :=
  ⟨h.adds, h.inv hs⟩

theorem steps_sessionSftp (hs : Inv s) (opened : Bool) :
    Steps s (sshSessionSftp s opened).2 True := by
  unfold sshSessionSftp
  cases hopen : s.session with
  | false => exact (Only.refl s).steps hs
  | true =>
      have hcall := only_openSession hs.session hopen .sftpInit
      cases opened with
      | false =>
          exact (hcall.raise hs.session (fun _ => hopen) (.other (-1)) "sftp_init").steps hs
      | true => exact ⟨hcall.adds.of_calls rfl, (hcall.inv hs).newSftp hopen⟩

theorem steps_sessionClose (hs : Inv s) : Steps s (sshSessionClose s) True := by
  unfold sshSessionClose
  cases hopen : s.session with
  | false => exact (Only.refl s).steps hs
  | true =>
      have hdisconnect := only_openSession hs.session hopen .sessionDisconnect
      have hfree := only_openSession (s := s.call .sessionDisconnect s.sessionPtr) hs.session hopen
        .sessionFree
      have hboth := (hdisconnect.trans hfree).congr and_self_iff
      exact ⟨hboth.adds.of_calls rfl, (hboth.inv hs).freeSession⟩

/-! ## Methods on an SFTP -/

/-- The SFTP object is closed, or the Session is open. -/
def SftpUsable (s : State) (i : Nat) : Prop := s.sftps i = none ∨ s.session = true

theorem Inv.live_sftp (hs : Inv s) {i p : Nat} (hi : s.sftps i = some p) :
    s.lib.live (.sftp p) = true ↔ SftpUsable s i := by
  obtain ⟨-, -, hlive⟩ := hs.sftp i p hi
  simp [SftpUsable, hi, Libssh2.live, hlive]

theorem SftpUsable.session {i p : Nat} (h : SftpUsable s i) (hi : s.sftps i = some p) :
    s.session = true := h.resolve_left (by simp [hi])

theorem only_closedSftp {i : Nat} (hi : s.sftps i = none) : Only s s (SftpUsable s i) :=
  (Only.refl s).congr (iff_of_true trivial (.inl hi))

theorem only_callSftp (hs : Inv s) {i p : Nat} (hi : s.sftps i = some p) (fn : Fn) :
    Only s (s.call fn (some (.sftp p))) (SftpUsable s i) :=
  (only_call s fn (.sftp p)).congr (hs.live_sftp hi)

theorem only_sftpMethod (hs : Inv s) (fn : Fn) (fallback : String) (fails : Int → Bool) (i : Nat)
    (rc : Int) : Only s (sshSftpMethod s fn fallback fails i rc).2 (SftpUsable s i) := by
  unfold sshSftpMethod
  cases hi : s.sftps i with
  | none => exact only_closedSftp hi
  | some p =>
      have hcall := only_callSftp hs hi fn
      simp only
      split
      · exact hcall.raise hs.session (fun h => h.session hi) (.other rc) fallback
      · exact hcall

theorem steps_newHandle (hs : Inv s) (kind : Kind) (fn : Fn) (fallback : String) (i : Nat)
    (opened : Bool) :
    Steps s (sshSftpNewHandle s kind fn fallback i opened).2 (SftpUsable s i) := by
  unfold sshSftpNewHandle
  cases hi : s.sftps i with
  | none => exact (only_closedSftp hi).steps hs
  | some p =>
      have hcall := only_callSftp hs hi fn
      cases opened with
      | false =>
          have hraise := hcall.raise (α := Nat) hs.session (fun h => h.session hi) (.other (-1))
            fallback
          exact hraise.steps hs
      | true => exact ⟨hcall.adds.of_calls rfl, (hcall.inv hs).newHandle hi kind⟩

theorem steps_sftpClose (hs : Inv s) (i : Nat) : Steps s (sshSftpClose s i) (SftpUsable s i) := by
  unfold sshSftpClose
  cases hi : s.sftps i with
  | none => exact (only_closedSftp hi).steps hs
  | some p =>
      have hcall := only_callSftp hs hi .sftpShutdown
      exact ⟨hcall.adds.of_calls rfl, (hcall.inv hs).freeSftp hi⟩

/-! ## Methods on files and directories -/

/-- The file or directory object is closed, or the Session and its SFTP are open. -/
def HandleUsable (s : State) (kind : Kind) (i : Nat) : Prop :=
  (s.handles kind i).handle = none ∨
    s.session = true ∧ (s.sftps (s.handles kind i).sftp).isSome = true

theorem Inv.live_handle (hs : Inv s) {kind : Kind} {i h : Nat}
    (hi : (s.handles kind i).handle = some h) :
    s.lib.live (.handle h) = true ↔ HandleUsable s kind i := by
  obtain ⟨-, -, hlive, -⟩ := hs.handle kind i h hi
  simp [HandleUsable, hi, Libssh2.live, hlive]

theorem HandleUsable.session {kind : Kind} {i h : Nat} (hu : HandleUsable s kind i)
    (hi : (s.handles kind i).handle = some h) : s.session = true :=
  (hu.resolve_left (by simp [hi])).1

theorem only_closedHandle {kind : Kind} {i : Nat} (hi : (s.handles kind i).handle = none) :
    Only s s (HandleUsable s kind i) :=
  (Only.refl s).congr (iff_of_true trivial (.inl hi))

theorem only_callHandle (hs : Inv s) {kind : Kind} {i h : Nat}
    (hi : (s.handles kind i).handle = some h) (fns : List Fn) :
    Only s (s.callAll fns (some (.handle h))) (fns = [] ∨ HandleUsable s kind i) :=
  (only_callAll s fns (.handle h)).congr (or_congr_right (hs.live_handle hi))

theorem only_dirRead (hs : Inv s) (i : Nat) (rc : Int) :
    Only s (sshSftpDirRead s i rc).2 (HandleUsable s .dir i) := by
  unfold sshSftpDirRead
  cases hi : (s.handles .dir i).handle with
  | none => exact only_closedHandle hi
  | some h =>
      have hcall := (only_callHandle hs hi [.sftpReaddir]).congr (or_iff_right (by simp))
      simp only
      split
      · exact hcall.raise hs.session (fun hu => hu.session hi) (.other rc) "sftp_readdir"
      · exact hcall

/-- The end of a loop over a handle; a loop without calls does not raise. -/
theorem only_finishHandle {α : Type} (hs : Inv s) {kind : Kind} {i h : Nat}
    (hi : (s.handles kind i).handle = some h) (out : Outcome α × List Fn)
    (hraise : ∀ e fallback, out.1 = .raised e fallback → out.2 ≠ []) :
    Only s (finishHandle s h out).2 (out.2 = [] ∨ HandleUsable s kind i) := by
  obtain ⟨out, fns⟩ := out
  have hloop := only_callHandle hs hi fns
  cases out with
  | raised e fallback =>
      have hopen : fns = [] ∨ HandleUsable s kind i → s.session = true := by
        intro hu
        exact (hu.resolve_left (hraise e fallback rfl)).session hi
      exact hloop.raise hs.session hopen e fallback
  | returned value => exact hloop
  | badf => exact hloop
  | running => exact hloop

theorem sftpReadLoop_calls (maxLen : Int) (ns : List Int) : (sftpReadLoop maxLen ns).2 ≠ [] := by
  cases ns with
  | nil => simp [sftpReadLoop]
  | cons n ns =>
      unfold sftpReadLoop
      split
      · split
        · split <;> simp [before]
        · simp [before]
      · split <;> simp

theorem sftpWriteLoop_calls (len : Nat) (ns : List Int) :
    (sftpWriteLoop len ns).2 = [] ↔ len = 0 := by
  cases len with
  | zero => simp [sftpWriteLoop]
  | succ len =>
      cases ns with
      | nil => simp [sftpWriteLoop]
      | cons n ns =>
          unfold sftpWriteLoop
          split
          · simp
          · split <;> simp [before]

theorem only_fileRead (hs : Inv s) (i : Nat) (maxLen : Int) (ns : List Int) :
    Only s (sshSftpFileRead s i maxLen ns).2 (HandleUsable s .file i) := by
  unfold sshSftpFileRead
  cases hi : (s.handles .file i).handle with
  | none => exact only_closedHandle hi
  | some h =>
      have hcalls := sftpReadLoop_calls maxLen ns
      exact (only_finishHandle hs hi _ fun _ _ _ => hcalls).congr (or_iff_right hcalls)

theorem only_fileWrite (hs : Inv s) (i len : Nat) (ns : List Int) :
    Only s (sshSftpFileWrite s i len ns).2 (len = 0 ∨ HandleUsable s .file i) := by
  unfold sshSftpFileWrite
  cases hi : (s.handles .file i).handle with
  | none => exact (Only.refl s).congr (iff_of_true trivial (.inr (.inl hi)))
  | some h =>
      have hraise : ∀ e fallback, (sftpWriteLoop len ns).1 = .raised e fallback →
          (sftpWriteLoop len ns).2 ≠ [] := by
        intro e fallback hraised hnil
        rw [(sftpWriteLoop_calls len ns).mp hnil] at hraised
        simp [sftpWriteLoop] at hraised
      exact (only_finishHandle hs hi _ hraise).congr
        (or_congr_left (sftpWriteLoop_calls len ns))

theorem steps_handleClose (hs : Inv s) (kind : Kind) (fn : Fn) (i : Nat) :
    Steps s (sshSftpHandleClose s kind fn i) (HandleUsable s kind i) := by
  unfold sshSftpHandleClose
  cases hi : (s.handles kind i).handle with
  | none => exact (only_closedHandle hi).steps hs
  | some h =>
      have hcall := (only_callHandle hs hi [fn]).congr (or_iff_right (by simp))
      exact ⟨hcall.adds.of_calls rfl, (hcall.inv hs).freeHandle hi⟩

/-! ## Runs -/

/-- The object that a method is called on is closed, or everything it was created from
is open. -/
def ParentsOpen (s : State) : Op → Prop
  | .userauthPassword _ | .userauthPublickey _ | .exec .. | .sftp _ | .scpRecv .. | .scpSend ..
  | .close => True
  | .sftpMkdir i _ | .sftpRmdir i _ | .sftpUnlink i _ | .sftpRename i _ | .sftpStat i _
  | .sftpRealpath i _ | .sftpOpen i _ | .sftpOpendir i _ | .sftpClose i => SftpUsable s i
  | .fileRead i _ _ | .fileClose i => HandleUsable s .file i
  -- writing nothing calls nothing
  | .fileWrite i len _ => len = 0 ∨ HandleUsable s .file i
  | .dirRead i _ | .dirClose i => HandleUsable s .dir i

theorem steps_step (hs : Inv s) (op : Op) : Steps s (step s op) (ParentsOpen s op) := by
  cases op with
  | userauthPassword r => exact (only_sessionMethod hs.session _ _ r).steps hs
  | userauthPublickey r => exact (only_sessionMethod hs.session _ _ r).steps hs
  | exec opened r reads => exact (only_exec hs.session opened r reads).steps hs
  | sftp opened => exact steps_sessionSftp hs opened
  | scpRecv opened reads => exact (only_scpRecv hs.session opened reads).steps hs
  | scpSend opened len writes => exact (only_scpSend hs.session opened len writes).steps hs
  | close => exact steps_sessionClose hs
  | sftpMkdir i rc => exact (only_sftpMethod hs _ _ _ i rc).steps hs
  | sftpRmdir i rc => exact (only_sftpMethod hs _ _ _ i rc).steps hs
  | sftpUnlink i rc => exact (only_sftpMethod hs _ _ _ i rc).steps hs
  | sftpRename i rc => exact (only_sftpMethod hs _ _ _ i rc).steps hs
  | sftpStat i rc => exact (only_sftpMethod hs _ _ _ i rc).steps hs
  | sftpRealpath i rc => exact (only_sftpMethod hs _ _ _ i rc).steps hs
  | sftpOpen i opened => exact steps_newHandle hs _ _ _ i opened
  | sftpOpendir i opened => exact steps_newHandle hs _ _ _ i opened
  | sftpClose i => exact steps_sftpClose hs i
  | fileRead i maxLen ns => exact (only_fileRead hs i maxLen ns).steps hs
  | fileWrite i len ns => exact (only_fileWrite hs i len ns).steps hs
  | fileClose i => exact steps_handleClose hs _ _ i
  | dirRead i rc => exact (only_dirRead hs i rc).steps hs
  | dirClose i => exact steps_handleClose hs _ _ i

/-- A run adds live calls only, exactly if each of its steps does. -/
theorem run_adds (hs : Inv s) (ops : List Op) :
    Adds s (run step s ops) (Meets step ParentsOpen s ops) := by
  induction ops generalizing s with
  | nil => exact .refl s
  | cons op ops ih =>
      obtain ⟨hadds, hinv⟩ := steps_step hs op
      exact hadds.trans (ih hinv)

/-- Every call of libssh2 in a run from a new Session is made with a pointer that is
alive, exactly if each method is called while what its object was created from is open. -/
theorem run_calls_live_iff (ops : List Op) :
    (∀ c ∈ (run step created ops).calls, c.live = true) ↔ Meets step ParentsOpen created ops := by
  obtain ⟨new, hcalls, hlive⟩ := run_adds inv_created ops
  rw [hcalls, ← hlive]
  rfl

/-- Closing the Session frees the SFTP that `sftp.close()` then shuts down. -/
theorem sftpClose_after_close :
    ¬∀ ops, ∀ c ∈ (run step created ops).calls, c.live = true := by
  intro h
  exact absurd (h [.sftp true, .close, .sftpClose 0]) (by decide)

end FreedosMicroPython.Ssh.Lifetimes
