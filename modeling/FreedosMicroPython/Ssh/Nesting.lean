import FreedosMicroPython.Ssh.Client
import FreedosMicroPython.Ssh.Lifetimes
/-!
# What a client program has open

A program that closes what it opens is at one of four levels: nothing, a session, an SFTP in
it, a file or directory in that. At each level every method of every object may be called.
Here is what each method does to the level.
-/

namespace FreedosMicroPython.Ssh.Nesting

open FreedosMicroPython.Lib.Action FreedosMicroPython.Lib.Runs FreedosMicroPython.OsPath
open FreedosMicroPython.Ssh.Channel FreedosMicroPython.Ssh.Objects
open FreedosMicroPython.Ssh.Lifetimes FreedosMicroPython.Ssh.Client

/-! ## Levels -/

inductive Level where
  | nothing
  | connected
  | sftp (i : Nat)
  | handle (i : Nat) (kind : Kind) (h : Nat)
  deriving DecidableEq

namespace Level

def session : Level → Bool
  | nothing => false
  | connected | sftp _ | handle .. => true

def sftp? : Level → Option Nat
  | nothing | connected => none
  | sftp i | handle i .. => some i

def handle? : Level → Option (Kind × Nat)
  | nothing | connected | sftp _ => none
  | handle _ kind h => some (kind, h)

end Level

structure Sound (s : State) : Prop where
  inv : Inv s
  live : ∀ c ∈ s.calls, c.live = true

structure At (l : Level) (s : State) : Prop where
  sound : Sound s
  session : s.session = l.session
  sftps : ∀ i, (s.sftps i).isSome = true ↔ l.sftp? = some i
  handles : ∀ k i, (s.handles k i).handle.isSome = true ↔ l.handle? = some (k, i)
  parent : ∀ k i, l.handle? = some (k, i) → l.sftp? = some (s.handles k i).sftp

variable {l : Level} {s s' : State}

theorem inv_idle : Inv idle := by
  constructor <;> simp [idle, created]

theorem at_idle : At .nothing idle := by
  refine ⟨⟨inv_idle, by simp [idle, created]⟩, rfl, ?_, ?_, ?_⟩ <;>
    simp [idle, created, Level.sftp?, Level.handle?]

theorem Level.session_of_sftp {i : Nat} (h : l.sftp? = some i) : l.session = true := by
  cases l <;> simp_all [Level.sftp?, Level.session]

theorem At.sftpUsable (h : At l s) (i : Nat) : SftpUsable s i := by
  cases hi : s.sftps i with
  | none => exact .inl hi
  | some p =>
      have hsftp := (h.sftps i).mp (by simp [hi])
      exact .inr (h.session.trans (Level.session_of_sftp hsftp))

theorem At.handleUsable (h : At l s) (k : Kind) (i : Nat) : HandleUsable s k i := by
  cases hi : (s.handles k i).handle with
  | none => exact .inl hi
  | some p =>
      have hsftp := h.parent k i ((h.handles k i).mp (by simp [hi]))
      exact .inr ⟨h.session.trans (Level.session_of_sftp hsftp), (h.sftps _).mpr hsftp⟩

theorem Sound.adds {ok : Prop} (h : Sound s) (hadds : Adds s s' ok) (hok : ok) (hinv : Inv s') :
    Sound s' := by
  obtain ⟨new, hcalls, hlive⟩ := hadds
  refine ⟨hinv, ?_⟩
  rw [hcalls]
  exact List.forall_mem_append.mpr ⟨h.live, hlive.mpr hok⟩

theorem At.only {ok : Prop} (h : At l s) (honly : Only s s' ok) (hok : ok) : At l s' where
  sound := h.sound.adds honly.adds hok (honly.inv h.sound.inv)
  session := honly.session.trans h.session
  sftps := by simpa only [honly.sftps] using h.sftps
  handles := by simpa only [honly.handles] using h.handles
  parent := by simpa only [honly.handles] using h.parent

/-! ## Objects that come and go -/

theorem At.newSession (h : At .nothing s) : At .connected { created with calls := s.calls } := by
  refine ⟨⟨⟨?_, ?_, ?_, ?_, ?_⟩, h.sound.live⟩, rfl, ?_, ?_, ?_⟩ <;>
    simp [created, Level.sftp?, Level.handle?]

theorem At.closeSession (h : At .connected s) : At .nothing (sshSessionClose s) := by
  have hsteps := steps_sessionClose h.sound.inv
  have hopen : s.session = true := h.session
  refine ⟨h.sound.adds hsteps.adds trivial hsteps.inv, ?_, ?_, ?_, ?_⟩ <;>
    simp only [sshSessionClose, hopen, if_true]
  · rfl
  · exact h.sftps
  · exact h.handles
  · intro k i hi
    cases hi

theorem At.newSftp (h : At .connected s) {opened : Bool} {i : Nat}
    (hout : (sshSessionSftp s opened).1 = .returned i) :
    At (.sftp i) (sshSessionSftp s opened).2 := by
  have hsteps := steps_sessionSftp h.sound.inv opened
  have hopen : s.session = true := h.session
  have hsound := h.sound.adds hsteps.adds trivial hsteps.inv
  cases opened with
  | false => simp [sshSessionSftp, hopen, sshRaiseSessionError] at hout
  | true =>
      simp only [sshSessionSftp, hopen, if_true] at hout hsound ⊢
      obtain rfl : s.nextSftp = i := by simpa [State.call] using hout
      refine ⟨hsound, h.session, fun j => ?_, h.handles, fun k j hj => by cases hj⟩
      have hj := h.sftps j
      simp only [State.call, Function.update_apply, Level.sftp?, Option.some.injEq]
      split
      · next heq => simp [heq]
      · next hne => simpa [Level.sftp?, Ne.symm hne] using hj

theorem At.noSftp (h : At .connected s) {opened : Bool}
    (hout : ∀ i, (sshSessionSftp s opened).1 ≠ .returned i) :
    At .connected (sshSessionSftp s opened).2 := by
  have hopen : s.session = true := h.session
  cases opened with
  | true => simp [sshSessionSftp, hopen] at hout
  | false =>
      have hcall := only_openSession h.sound.inv.session hopen .sftpInit
      have honly := hcall.raise (α := Nat) h.sound.inv.session (fun _ => hopen) (.other (-1))
        "sftp_init"
      simp only [sshSessionSftp, hopen, if_true]
      exact h.only honly trivial

theorem At.closeSftp {i : Nat} (h : At (.sftp i) s) : At .connected (sshSftpClose s i) := by
  have hsteps := steps_sftpClose h.sound.inv i
  obtain ⟨p, hp⟩ := Option.isSome_iff_exists.mp ((h.sftps i).mpr rfl)
  have hsound := h.sound.adds hsteps.adds (h.sftpUsable i) hsteps.inv
  refine ⟨hsound, ?_, fun j => ?_, ?_, fun k j hj => by cases hj⟩ <;>
    simp only [sshSftpClose, hp]
  · exact h.session
  · have hj := h.sftps j
    simp only [Level.sftp?, Option.some.injEq] at hj
    simp only [State.call, Function.update_apply, Level.sftp?]
    split
    · simp
    · next hne => simp [hj, Ne.symm hne]
  · exact h.handles

theorem At.newHandle {i : Nat} (h : At (.sftp i) s) {kind : Kind} {fn : Fn} {fallback : String}
    {opened : Bool} {f : Nat}
    (hout : (sshSftpNewHandle s kind fn fallback i opened).1 = .returned f) :
    At (.handle i kind f) (sshSftpNewHandle s kind fn fallback i opened).2 := by
  have hsteps := steps_newHandle h.sound.inv kind fn fallback i opened
  have hsound := h.sound.adds hsteps.adds (h.sftpUsable i) hsteps.inv
  obtain ⟨p, hp⟩ := Option.isSome_iff_exists.mp ((h.sftps i).mpr rfl)
  cases opened with
  | false => simp [sshSftpNewHandle, hp, sshRaiseSessionError] at hout
  | true =>
      simp only [sshSftpNewHandle, hp, if_true] at hout hsound ⊢
      obtain rfl : s.nextHandle kind = f := by simpa [State.call] using hout
      refine ⟨hsound, h.session, h.sftps, fun k j => ?_, fun k j hj => ?_⟩
      · have hj := h.handles k j
        simp only [Level.handle?, reduceCtorEq, iff_false] at hj
        simp only [State.call, Function.update_apply, Level.handle?, Option.some.injEq,
          Prod.mk.injEq]
        by_cases hk : k = kind
        · subst hk
          by_cases hne : j = s.nextHandle k
          · simp [hne]
          · simp [hne, Ne.symm hne, hj]
        · simp [hk, Ne.symm hk, hj]
      · obtain ⟨rfl, rfl⟩ : kind = k ∧ s.nextHandle kind = j := by
          simpa [Level.handle?] using hj
        simp [State.call, Level.sftp?]

theorem At.noHandle {i : Nat} (h : At (.sftp i) s) {kind : Kind} {fn : Fn} {fallback : String}
    {opened : Bool} (hout : ∀ f, (sshSftpNewHandle s kind fn fallback i opened).1 ≠ .returned f) :
    At (.sftp i) (sshSftpNewHandle s kind fn fallback i opened).2 := by
  obtain ⟨p, hp⟩ := Option.isSome_iff_exists.mp ((h.sftps i).mpr rfl)
  cases opened with
  | true => simp [sshSftpNewHandle, hp] at hout
  | false =>
      have hcall := only_callSftp h.sound.inv hp fn
      have honly := hcall.raise (α := Nat) h.sound.inv.session (fun hu => hu.session hp)
        (.other (-1)) fallback
      simp only [sshSftpNewHandle, hp]
      exact h.only honly (h.sftpUsable i)

theorem At.closeHandle {i f : Nat} {kind : Kind} (h : At (.handle i kind f) s) (fn : Fn) :
    At (.sftp i) (sshSftpHandleClose s kind fn f) := by
  have hsteps := steps_handleClose h.sound.inv kind fn f
  have hsound := h.sound.adds hsteps.adds (h.handleUsable kind f) hsteps.inv
  obtain ⟨p, hp⟩ := Option.isSome_iff_exists.mp ((h.handles kind f).mpr rfl)
  refine ⟨hsound, ?_, ?_, fun k j => ?_, fun k j hj => by cases hj⟩ <;>
    simp only [sshSftpHandleClose, hp]
  · exact h.session
  · exact h.sftps
  · have hj := h.handles k j
    simp only [Level.handle?, Option.some.injEq, Prod.mk.injEq] at hj
    simp only [State.call, Function.update_apply, Level.handle?, reduceCtorEq, iff_false]
    by_cases hk : k = kind
    · subst hk
      by_cases hne : j = f
      · simp [hne]
      · simpa [hne, Ne.symm hne] using hj
    · simpa [hk, Ne.symm hk] using hj

/-! ## Ends of an action -/

section
variable {V α β : Type}

/-- A program at a level, with its own variables as they should be. -/
structure Stage (F : V → Prop) (l : Level) (w : World V) : Prop where
  level : At l w.ssh
  vars : F w.vars

/-- What holds where an action ends; in a call that does not come back no pointer is dead. -/
def Ends (Q : α → World V → Prop) (E : Exc → World V → Prop) : End Exc α → World V → Prop
  | .value x, w => Q x w
  | .raised e, w => E e w
  | .stuck, w => Sound w.ssh

def Raises (P : World V → Prop) (e : Exc) (w : World V) : Prop :=
  (∃ text, e = .osError text) ∧ P w

variable {P : World V → Prop} {Q Q' : α → World V → Prop} {R : β → World V → Prop}
  {E E' : Exc → World V → Prop} {a : Prog V α} {f : α → Prog V β}

theorem bind_ends (ha : Triple P a (Ends Q E)) (hf : ∀ x, Triple (Q x) (f x) (Ends R E)) :
    Triple P (a >>= f) (Ends R E) :=
  ha.bind hf (fun _ _ h => h) fun _ h => h

theorem finally_ends {final : Prog V Unit} (ha : Triple P a (Ends Q E))
    (hvalue : ∀ x, Triple (Q x) final (Ends (fun _ => Q' x) E'))
    (hraise : ∀ e, Triple (E e) final (Ends (fun _ => E' e) E')) :
    Triple P (tryFinally a final) (Ends Q' E') := by
  refine ha.finally (fun _ h => h) fun r hr => ?_
  cases r with
  | value x => exact (hvalue x).post fun r' w h => by cases r' <;> exact h
  | raised e => exact (hraise e).post fun r' w h => by cases r' <;> exact h
  | stuck => exact absurd rfl hr

theorem ends_weaken {E'' : Exc → World V → Prop} (ha : Triple P a (Ends Q E))
    (hvalue : ∀ x w, Q x w → Q' x w) (hraise : ∀ e w, E e w → E'' e w) :
    Triple P a (Ends Q' E'') := by
  refine ha.post fun r w h => ?_
  cases r with
  | value x => exact hvalue x w h
  | raised e => exact hraise e w h
  | stuck => exact h

theorem ends_of_raises {P' : World V → Prop} (ha : Triple P a (Ends Q (Raises P'))) :
    Triple P a (Ends Q fun _ => P') :=
  ends_weaken ha (fun _ _ h => h) fun _ _ h => h.2

theorem onOSError_ends {E' : Exc → World V → Prop} {body : Prog V α} {handler : Str → Prog V α}
    (hbody : Triple P body (Ends Q E))
    (hhandler : ∀ text, Triple (E (.osError text)) (handler text) (Ends Q E'))
    (hpass : ∀ e w, (∀ text, e ≠ .osError text) → E e w → E' e w) :
    Triple P (onOSError body handler) (Ends Q E') := by
  refine Triple.except hbody (fun r w hr h => ?_) fun e h he => ?_
  · cases r with
    | value x => exact h
    | raised e => exact hpass e w (fun text heq => by simpa [heq] using hr e rfl) h
    | stuck => exact h
  · cases e with
    | osError text =>
        cases he
        exact hhandler text
    | _ => cases he

/-- A method whose every end leaves one level or another. -/
theorem method_ends {peer : Peer} {isOpen : State → Bool} {r : Request}
    {m : Answer → World V → Outcome α × World V} {v : Answer → α → β} {F : V → Prop} {l : Level}
    {next : β → Level} (hvars : ∀ a w, (m a w).2.vars = w.vars)
    (hvalue : ∀ a w x, At l w.ssh → (m a w).1 = .returned x →
      At (next (v a x)) (m a w).2.ssh)
    (hraise : ∀ a w, At l w.ssh → (∀ x, (m a w).1 ≠ .returned x) → At l (m a w).2.ssh) :
    Triple (Stage F l) (method peer isOpen r m v)
      (Ends (fun y => Stage F (next y)) (Raises (Stage F l))) := by
  have hF : ∀ w : World V, Stage F l w →
      F (m (peer (w.requests ++ [r])) (w.asked r)).2.vars :=
    fun w hw => (hvars _ (w.asked r)).symm ▸ hw.vars
  have hsound : ∀ w : World V, Stage F l w →
      Sound (m (peer (w.requests ++ [r])) (w.asked r)).2.ssh := by
    intro w hw
    by_cases hout : ∃ x, (m (peer (w.requests ++ [r])) (w.asked r)).1 = .returned x
    · obtain ⟨x, hx⟩ := hout
      exact (hvalue _ (w.asked r) x hw.level hx).sound
    · exact (hraise _ (w.asked r) hw.level (not_exists.mp hout)).sound
  apply triple_method
  · exact fun w hw => ⟨⟨_, rfl⟩, hw⟩
  · exact hsound
  · exact fun w x hw hx => ⟨hvalue _ (w.asked r) x hw.level hx, hF w hw⟩
  · intro w hw hout
    have hlevel := hraise _ (w.asked r) hw.level hout
    exact ⟨⟨⟨_, rfl⟩, hlevel, hF w hw⟩, fun text => ⟨⟨text, rfl⟩, hlevel, hF w hw⟩⟩

theorem method_stays {peer : Peer} {isOpen : State → Bool} {r : Request}
    {m : Answer → World V → Outcome α × World V} {v : Answer → α → β} {F : V → Prop} {l : Level}
    (hvars : ∀ a w, (m a w).2.vars = w.vars)
    (honly : ∀ a w, At l w.ssh → ∃ ok, ok ∧ Only w.ssh (m a w).2.ssh ok) :
    Triple (Stage F l) (method peer isOpen r m v)
      (Ends (fun _ => Stage F l) (Raises (Stage F l))) := by
  have hstay : ∀ a (w : World V), At l w.ssh → At l (m a w).2.ssh := by
    intro a w hw
    obtain ⟨ok, hok, honly⟩ := honly a w hw
    exact hw.only honly hok
  exact method_ends hvars (fun a w _ hw _ => hstay a w hw) fun a w hw _ => hstay a w hw

/-! ## The methods -/

variable (peer : Peer) (gap : Nat → UInt8) {F : V → Prop} {l : Level}

theorem reads_ends (g : World V → α) : Triple P (reads g) (Ends (fun _ => P) E) :=
  triple_reads fun _ hw => hw

theorem ask_stays (r : Request) :
    Triple (Stage F l) (ask peer r) (Ends (fun _ => Stage F l) fun _ => Stage F l) := by
  intro w hw
  unfold ask
  simp only
  split
  · exact hw.level.sound
  · exact ⟨hw.level, hw.vars⟩

theorem checked_stays (r : Request) :
    Triple (Stage F l) (checked peer r) (Ends (fun _ => Stage F l) fun _ => Stage F l) := by
  refine bind_ends (ask_stays peer r) fun a => ?_
  split
  · exact triple_raise fun _ hw => hw
  · exact triple_pure fun _ hw => hw

theorem write_stays (s : Str) :
    Triple (Stage F l) (write s) (Ends (fun _ => Stage F l) E) :=
  triple_modify fun _ hw => ⟨hw.level, hw.vars⟩

theorem print_stays (s : Str) :
    Triple (Stage F l) (print s) (Ends (fun _ => Stage F l) E) :=
  write_stays (s ++ [0x0A])

theorem sessionSftp_opens : Triple (Stage F .connected) (sessionSftp peer)
    (Ends (fun i => Stage F (.sftp i)) (Raises (Stage F .connected))) :=
  method_ends (fun _ _ => rfl) (fun _ _ _ hw hout => hw.newSftp hout)
    fun _ _ hw hout => hw.noSftp hout

theorem sftpMethod_stays {r : Request} {fn : Fn} {fallback : String} {fails : Int → Bool} {i : Nat}
    {v : Answer → Int → α} :
    Triple (Stage F l)
      (method peer (isSftp i) r
        (fun a => onSsh fun s => sshSftpMethod s fn fallback fails i a.rc) v)
      (Ends (fun _ => Stage F l) (Raises (Stage F l))) :=
  method_stays (fun _ _ => rfl)
    fun _ _ hw => ⟨_, hw.sftpUsable i, only_sftpMethod hw.sound.inv _ _ _ i _⟩

theorem sftpMkdir_stays (i : Nat) (path : Str) (mode : Int) :
    Triple (Stage F l) (sftpMkdir peer i path mode)
      (Ends (fun _ => Stage F l) fun _ => Stage F l) := by
  refine bind_ends (reads_ends _) fun opened => ?_
  split
  · exact triple_raise fun _ hw => hw
  · exact ends_of_raises (sftpMethod_stays peer)

theorem sftpOpen_opens (i : Nat) (path mode : Str) :
    Triple (Stage F (.sftp i)) (sftpOpen peer i path mode)
      (Ends (fun f => Stage F (.handle i .file f)) (Raises (Stage F (.sftp i)))) :=
  method_ends (fun _ _ => rfl) (fun _ _ _ hw hout => hw.newHandle hout)
    fun _ _ hw hout => hw.noHandle hout

theorem sftpOpendir_opens (i : Nat) (path : Str) :
    Triple (Stage F (.sftp i)) (sftpOpendir peer i path)
      (Ends (fun d => Stage F (.handle i .dir d)) (Raises (Stage F (.sftp i)))) :=
  method_ends (fun _ _ => rfl) (fun _ _ _ hw hout => hw.newHandle hout)
    fun _ _ hw hout => hw.noHandle hout

theorem fileRead_stays (f : Nat) :
    Triple (Stage F l) (fileRead peer f) (Ends (fun _ => Stage F l) (Raises (Stage F l))) :=
  method_stays (fun _ _ => rfl)
    fun _ _ hw => ⟨_, hw.handleUsable .file f, only_fileRead hw.sound.inv f _ _⟩

theorem fileWrite_stays (f : Nat) (data : SftpFile.Buffer) :
    Triple (Stage F l) (fileWrite peer gap f data)
      (Ends (fun _ => Stage F l) (Raises (Stage F l))) :=
  method_stays (fun _ _ => rfl)
    fun _ _ hw => ⟨_, .inr (hw.handleUsable .file f), only_fileWrite hw.sound.inv f _ _⟩

theorem dirRead_stays (d : Nat) :
    Triple (Stage F l) (dirRead peer d) (Ends (fun _ => Stage F l) (Raises (Stage F l))) := by
  refine bind_ends (reads_ends _) fun entry => ?_
  refine bind_ends (method_stays (fun _ _ => rfl) fun _ _ hw => ?_) fun rc => ?_
  · exact ⟨_, hw.handleUsable .dir d, only_dirRead hw.sound.inv d _⟩
  · split <;> exact triple_pure fun _ hw => hw

theorem close_ends {isOpen : State → Bool} {r : Request} {close : State → State} {l' : Level}
    (hopen : ∀ s, At l s → isOpen s = true) (hclose : ∀ s, At l s → At l' (close s)) :
    Triple (Stage F l)
      (do
        if ← reads fun w => isOpen w.ssh then
          method peer isOpen r (fun _ => onSsh fun s => (.returned (), close s)) fun _ _ => ()
        else pure ())
      (Ends (fun _ => Stage F l') E) := by
  intro w hw
  have hisOpen := hopen w.ssh hw.level
  have hlevel := hclose w.ssh hw.level
  change Ends _ _ (andThen _ _ w).1 (andThen _ _ w).2
  simp only [andThen, reads, hisOpen, if_true, method, onSsh, endWith]
  split
  · exact hlevel.sound
  · exact ⟨hlevel, hw.vars⟩

theorem fileClose_closes (i f : Nat) :
    Triple (Stage F (.handle i .file f)) (fileClose peer f) (Ends (fun _ => Stage F (.sftp i)) E) :=
  close_ends peer (fun _ hs => (hs.handles .file f).mpr rfl)
    fun _ hs => hs.closeHandle .sftpCloseHandle

theorem dirClose_closes (i d : Nat) :
    Triple (Stage F (.handle i .dir d)) (dirClose peer d) (Ends (fun _ => Stage F (.sftp i)) E) :=
  close_ends peer (fun _ hs => (hs.handles .dir d).mpr rfl) fun _ hs => hs.closeHandle .sftpClosedir

theorem sftpClose_closes (i : Nat) :
    Triple (Stage F (.sftp i)) (sftpClose peer i) (Ends (fun _ => Stage F .connected) E) :=
  close_ends peer (fun _ hs => (hs.sftps i).mpr rfl) fun _ hs => hs.closeSftp

theorem readLocal_stays (path : Str) :
    Triple (Stage F l) (readLocal peer path)
      (Ends (fun _ => Stage F l) fun _ => Stage F l) := by
  refine bind_ends (checked_stays peer _) fun a => ?_
  refine bind_ends (reads_ends _) fun contents => ?_
  cases contents with
  | none => exact triple_raise fun _ hw => hw
  | some bytes =>
      refine bind_ends (checked_stays peer _) fun _ => ?_
      split
      · exact triple_pure fun _ hw => hw
      · exact triple_raise fun _ hw => hw

theorem setLocal_stays (path bytes : Str) :
    Triple (Stage F l) (setLocal path bytes) (Ends (fun _ => Stage F l) E) :=
  triple_modify fun _ hw => ⟨hw.level, hw.vars⟩

theorem writeLocal_stays (path data : Str) :
    Triple (Stage F l) (writeLocal peer path data)
      (Ends (fun _ => Stage F l) fun _ => Stage F l) := by
  refine bind_ends (checked_stays peer _) fun _ => ?_
  refine bind_ends (setLocal_stays path []) fun _ => ?_
  refine bind_ends (ask_stays peer _) fun a => ?_
  refine bind_ends (setLocal_stays path _) fun _ => ?_
  split
  · exact triple_raise fun _ hw => hw
  · exact triple_pure fun _ hw => hw

/-! ## Connecting -/

/-- The last thing that was asked for is the login, and it failed. -/
def AuthRefused (rs : List Request) : Prop :=
  ∃ pre user password, rs = pre ++ [.userauth user password, .lastError]

theorem not_authRefused_of_last (rs : List Request) {r : Request} (hr : r ≠ .lastError) :
    ¬AuthRefused (rs ++ [r]) := by
  rintro ⟨pre, user, password, heq⟩
  have hlast := congrArg List.getLast? heq
  simp only [List.getLast?_append_cons, List.getLast?_cons_cons, List.getLast?_singleton,
    Option.some.injEq] at hlast
  exact hr hlast

theorem not_authRefused_of_handshake (rs : List Request) :
    ¬AuthRefused (rs ++ [.handshake] ++ [.lastError]) := by
  rintro ⟨pre, user, password, heq⟩
  have hfront : rs ++ [.handshake] = pre ++ [.userauth user password] := by
    have hlasts : (rs ++ [.handshake]) ++ [.lastError] =
        (pre ++ [.userauth user password]) ++ [.lastError] := by
      rw [heq, List.append_assoc]
      rfl
    exact List.append_cancel_right hlasts
  have hlast := congrArg List.getLast? hfront
  simp at hlast

/-- Nothing is open but the session of a login that was refused. -/
def Finished (w : World V) : Prop :=
  At .nothing w.ssh ∧ ¬AuthRefused w.requests ∨ At .connected w.ssh ∧ AuthRefused w.requests

structure Closed (F : V → Prop) (w : World V) : Prop where
  stage : Stage F .nothing w
  requests : ¬AuthRefused w.requests

theorem Closed.finished {w : World V} (h : Closed F w) : Finished w :=
  .inl ⟨h.stage.level, h.requests⟩

theorem closed_ask {r : Request} (hr : r ≠ .lastError) :
    Triple (Closed F) (ask peer r) (Ends (fun _ => Closed F) fun _ => Closed F) := by
  intro w hw
  have hrequests := not_authRefused_of_last w.requests hr
  unfold ask
  simp only
  split
  · exact hw.stage.level.sound
  · exact ⟨⟨hw.stage.level, hw.stage.vars⟩, hrequests⟩

theorem closed_checked {r : Request} (hr : r ≠ .lastError) :
    Triple (Closed F) (checked peer r) (Ends (fun _ => Closed F) fun _ => Closed F) := by
  refine bind_ends (closed_ask peer hr) fun a => ?_
  split
  · exact triple_raise fun _ hw => hw
  · exact triple_pure fun _ hw => hw

theorem session_connects : Triple (Closed F) (session peer)
    (Ends (fun _ => Stage F .connected) fun _ => Closed F) := by
  have hask : Triple (Closed F) (ask peer .handshake)
      (Ends (fun _ w => Stage F .nothing w ∧ ∃ rs, w.requests = rs ++ [.handshake])
        fun _ => Closed F) := by
    intro w hw
    unfold ask
    simp only
    split
    · exact hw.stage.level.sound
    · exact ⟨⟨hw.stage.level, hw.stage.vars⟩, _, rfl⟩
  refine bind_ends hask fun a => ?_
  split
  · rintro w ⟨hw, rs, hrs⟩
    refine ⟨⟨hw.level, hw.vars⟩, ?_⟩
    change ¬AuthRefused (w.requests ++ [.lastError])
    rw [hrs]
    exact not_authRefused_of_handshake rs
  · exact triple_modify fun w hw => ⟨hw.1.level.newSession, hw.1.vars⟩

/-- A login that is refused raises and leaves the session open. -/
theorem userauthPassword_ends (user password : Str) :
    Triple (Stage F .connected) (userauthPassword peer user password)
      (Ends (fun _ => Stage F .connected) fun _ w => F w.vars ∧ Finished w) := by
  intro w hw
  have hopen : isSession w.ssh = true := hw.level.session
  unfold userauthPassword method
  simp only [hopen, if_true, onSsh]
  set a := peer (w.requests ++ [Request.userauth user password])
  have honly := only_sessionMethod hw.level.sound.inv.session .userauthPasswordEx
    "userauth_password" a.rc
  have hlevel := hw.level.only honly trivial
  split
  · exact hlevel.sound
  · by_cases hrc : a.rc = 0
    · have hout : (sshSessionUserauthPassword w.ssh a.rc).1 = .returned () := by
        simp [sshSessionUserauthPassword, sessionCall, isSession] at hopen ⊢
        simp [hopen, hrc]
      rw [hout]
      exact ⟨hlevel, hw.vars⟩
    · have hout : (sshSessionUserauthPassword w.ssh a.rc).1 =
          .raised (.other a.rc) "userauth_password" := by
        simp [sshSessionUserauthPassword, sessionCall, isSession] at hopen ⊢
        simp [hopen, hrc, sshRaiseSessionError]
      rw [hout]
      exact ⟨hw.vars, .inr ⟨hlevel, w.requests, user, password, List.append_assoc _ _ _⟩⟩

theorem connect_ends (host : Str) (port : Int) (user password : Str) :
    Triple (Closed F) (connect peer host port user password)
      (Ends (fun _ => Stage F .connected) fun _ w => F w.vars ∧ Finished w) := by
  have hfinish : ∀ (e : Exc) (w : World V), Closed F w → F w.vars ∧ Finished w :=
    fun _ _ hw => ⟨hw.stage.vars, hw.finished⟩
  unfold connect
  split
  · refine bind_ends (ends_weaken (closed_checked peer (by simp)) (fun _ _ h => h) hfinish)
      fun _ => ?_
    refine bind_ends (ends_weaken (closed_checked peer (by simp)) (fun _ _ h => h) hfinish)
      fun _ => ?_
    refine bind_ends (ends_weaken (session_connects peer) (fun _ _ h => h) hfinish) fun _ => ?_
    exact userauthPassword_ends peer user password
  · exact triple_raise fun w hw => hfinish .overflowError w hw

theorem sessionClose_closes :
    Triple (Stage F .connected) (sessionClose peer) (Ends (fun _ => Closed F) E) := by
  intro w hw
  have hopen : isSession w.ssh = true := hw.level.session
  have hrequests := not_authRefused_of_last w.requests (r := .disconnect) (by simp)
  change Ends _ _ (andThen _ _ w).1 (andThen _ _ w).2
  simp only [andThen, reads, hopen, if_true, method, onSsh, endWith]
  split
  · exact hw.level.closeSession.sound
  · exact ⟨⟨hw.level.closeSession, hw.vars⟩, hrequests⟩

/-! ## Whole programs -/

theorem At.closed {w : World V} (h : At l w.ssh) (hsftp : l.sftp? = none)
    (hhandle : l.handle? = none) :
    (∀ i, w.ssh.sftps i = none) ∧ ∀ k i, (w.ssh.handles k i).handle = none := by
  refine ⟨fun i => ?_, fun k i => ?_⟩
  · have hi := h.sftps i
    rw [hsftp] at hi
    simpa using hi
  · have hi := h.handles k i
    rw [hhandle] at hi
    simpa using hi

/-- What is left of a program that has come back, where only a refused login leaves a session. -/
structure LeftClosed (w : World V) : Prop where
  live : ∀ c ∈ w.ssh.calls, c.live = true
  sftps : ∀ i, w.ssh.sftps i = none
  handles : ∀ k i, (w.ssh.handles k i).handle = none
  session : w.ssh.session = true ↔ AuthRefused w.requests

theorem Finished.leftClosed {w : World V} (h : Finished w) : LeftClosed w := by
  rcases h with ⟨hl, hno⟩ | ⟨hl, hyes⟩
  · obtain ⟨hsftps, hhandles⟩ := hl.closed rfl rfl
    exact ⟨hl.sound.live, hsftps, hhandles, by simp [hl.session, Level.session, hno]⟩
  · obtain ⟨hsftps, hhandles⟩ := hl.closed rfl rfl
    exact ⟨hl.sound.live, hsftps, hhandles, by simp [hl.session, Level.session, hyes]⟩

theorem leaves_closed {a : Prog V α} {w : World V}
    (ha : Triple (Closed F) a (Ends (fun _ => Finished) fun _ => Finished)) (hssh : w.ssh = idle)
    (hrequests : w.requests = []) (hvars : F w.vars) :
    (∀ c ∈ (a w).2.ssh.calls, c.live = true) ∧ ((a w).1 ≠ .stuck → LeftClosed (a w).2) := by
  have hstart : Closed F w := by
    refine ⟨⟨hssh ▸ at_idle, hvars⟩, ?_⟩
    rw [hrequests]
    simp [AuthRefused]
  have hend := ha w hstart
  rcases hout : a w with ⟨r, w'⟩
  rw [hout] at hend
  cases r with
  | value x => exact ⟨hend.leftClosed.live, fun _ => hend.leftClosed⟩
  | raised e => exact ⟨hend.leftClosed.live, fun _ => hend.leftClosed⟩
  | stuck => exact ⟨Sound.live hend, fun h => absurd rfl h⟩

end

end FreedosMicroPython.Ssh.Nesting
