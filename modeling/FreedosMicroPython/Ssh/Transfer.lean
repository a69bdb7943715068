import FreedosMicroPython.Ssh.Client
import FreedosMicroPython.Ssh.Scp
/-!
# What a client program transfers

Methods leave the local files, the output and the variables of a program alone. What they give
where they return: the contents of a file that the server opened, how much of some data the
server took, a local file.
-/

namespace FreedosMicroPython.Ssh.Transfer

open FreedosMicroPython.Lib.Action FreedosMicroPython.Lib.Splice FreedosMicroPython.OsPath
open FreedosMicroPython.Ssh.Channel FreedosMicroPython.Ssh.Client
open FreedosMicroPython.Ssh.SftpFile

variable {V : Type} {peer : Peer} {gap : Nat → UInt8} {α β : Type}

/-! ## The loops on a server that may fail -/

theorem libssh2SftpRead_cases (f : Remote) (want : Nat) :
    (∃ e < 0, libssh2SftpRead f want = (e, [], f.answered e)) ∨
      ∃ n : Nat, libssh2SftpRead f want = ((n : Int), f.remaining.take n, f.advance n) ∧
        (n = 0 → want = 0 ∨ f.remaining = []) := by
  unfold libssh2SftpRead
  simp only
  split
  · next ha => exact .inl ⟨_, ha, rfl⟩
  · refine .inr ⟨_, rfl, fun h => ?_⟩
    by_cases hwant : want = 0
    · exact .inl hwant
    · exact .inr (List.eq_nil_of_length_eq_zero (by omega))

variable (gap) in
theorem libssh2SftpWrite_cases (f : Remote) {p : List UInt8} (hp : p ≠ []) :
    (∃ e ≤ 0, libssh2SftpWrite gap f p = (e, f.answered e)) ∨
      ∃ n : Nat, 0 < n ∧ n ≤ p.length ∧
        libssh2SftpWrite gap f p = ((n : Int), f.store gap (p.take n)) := by
  have hlen := List.length_pos_iff.mpr hp
  unfold libssh2SftpWrite
  simp only
  split
  · next ha => exact .inl ⟨_, ha, rfl⟩
  · exact .inr ⟨_, by omega, Nat.min_le_right _ _, rfl⟩

theorem readLoop_returned {f f' : Remote} {vstr bs : List UInt8}
    (h : readLoop vstr (-1) f = (.returned bs, f')) : bs = vstr ++ f.remaining := by
  have hwant : (if (-1 : Int) < 0 ∨ (1024 : Int) ≤ -1 then 1024 else (-1 : Int).toNat) = 1024 :=
    if_pos (.inl (by decide))
  induction hk : f.remaining.length using Nat.strongRecOn generalizing f vstr with
  | ind k ih =>
      subst hk
      have hcases := libssh2SftpRead_cases f 1024
      rw [← hwant] at hcases
      rcases hcases with ⟨e, he, hread⟩ | ⟨n, hread, hzero⟩
      · rw [readLoop, hread] at h
        dsimp only at h
        rw [dif_neg (by omega), if_neg (by omega)] at h
        cases h
      · by_cases hpos : 0 < n
        · rw [readLoop_of_some hread hpos, if_neg (by omega), if_neg (by decide)] at h
          have hshort : (f.advance n).remaining.length < f.remaining.length :=
            length_remaining_lt hread (by omega)
          rw [ih _ hshort h rfl, Remote.remaining_advance, List.append_assoc,
            List.take_append_drop]
        · obtain rfl : n = 0 := by omega
          rw [readLoop_of_none hread] at h
          cases h
          rw [hwant] at hzero
          rw [(hzero rfl).resolve_left (by decide), List.append_nil]

variable (gap) in
/-- However a write ends, the server took the front of the data; one that returns says how
much. -/
theorem writeLoop_took (p : List UInt8) (f : Remote) :
    ∃ n ≤ p.length, (writeLoop gap p f).2.contents = stored gap f.contents f.pos (p.take n) ∧
      (writeLoop gap p f).2.accepted = f.accepted ++ p.take n ∧
      ∀ rest, (writeLoop gap p f).1 = .returned rest → rest = p.length - n := by
  induction hk : p.length using Nat.strongRecOn generalizing f p with
  | ind k ih =>
      subst hk
      rw [writeLoop]
      by_cases hp : p = []
      · subst hp
        exact ⟨0, Nat.le_refl 0, rfl, (List.append_nil _).symm, fun rest h => by cases h; rfl⟩
      · rw [dif_neg hp]
        rcases libssh2SftpWrite_cases gap f hp with ⟨e, he, hwrite⟩ | ⟨m, hpos, hm, hwrite⟩
        · rw [hwrite]
          refine ⟨0, Nat.zero_le _, ?_⟩
          dsimp only
          split
          · exact ⟨rfl, (List.append_nil _).symm, fun rest h => by cases h⟩
          · rw [dif_pos (by omega)]
            exact ⟨rfl, (List.append_nil _).symm, fun rest h => by cases h; rfl⟩
        · have hlen := List.length_pos_iff.mpr hp
          have hne : p.take m ≠ [] := by
            intro h
            have htake : min m p.length = 0 := by rw [← List.length_take, h, List.length_nil]
            omega
          have hstore : (f.store gap (p.take m)).contents =
              stored gap f.contents f.pos (p.take m) := by
            rw [stored, if_neg hne]
            rfl
          obtain ⟨n, hn, hcontents, haccepted, hrest⟩ :=
            ih _ (by rw [List.length_drop]; omega) (p.drop m) (f.store gap (p.take m)) rfl
          rw [List.length_drop] at hn hrest
          rw [hwrite]
          dsimp only
          rw [if_neg (by omega), dif_neg (by omega), Int.toNat_natCast]
          refine ⟨m + n, by omega, ?_, ?_, fun rest h => ?_⟩
          · have hposition : (f.store gap (p.take m)).pos = f.pos + (p.take m).length := rfl
            rw [hcontents, hstore, hposition, stored_append, ← List.take_add]
          · rw [haccepted, List.take_add, ← List.append_assoc]
            rfl
          · rw [hrest rest h, Nat.sub_sub]

/-! ## The methods -/

/-- No local file, nothing that was printed and no variable has changed. -/
structure Frame (w₀ w : World V) : Prop where
  files : w.files = w₀.files
  out : w.out = w₀.out
  vars : w.vars = w₀.vars

/-- The action leaves all of these alone however it ends, and where it returns `Q` holds. -/
def Gives (w₀ : World V) (P : World V → Prop) (a : Prog V α)
    (Q : α → World V → Prop) : Prop :=
  Triple P a fun e w => Frame w₀ w ∧ ∀ x, e = .value x → Q x w

variable {w₀ : World V} {rs : List Request} {P : World V → Prop}
  {Q : α → World V → Prop} {R : β → World V → Prop}

theorem Gives.bind {a : Prog V α} {f : α → Prog V β} (ha : Gives w₀ P a Q)
    (hf : ∀ x, Gives w₀ (fun w => Frame w₀ w ∧ Q x w) (f x) R) : Gives w₀ P (a >>= f) R := by
  refine Triple.bind ha (fun x => ?_) (fun _ _ h => ⟨h.1, nofun⟩) fun _ h => ⟨h.1, nofun⟩
  exact (hf x).pre fun w hw => ⟨hw.1, hw.2 x rfl⟩

theorem gives_raise (e : Exc) (hP : ∀ w, P w → Frame w₀ w) : Gives w₀ P (raise e) Q :=
  triple_raise fun w hw => ⟨hP w hw, nofun⟩

theorem gives_pure {x : α} (hP : ∀ w, P w → Frame w₀ w ∧ Q x w) : Gives w₀ P (pure x) Q :=
  triple_pure fun w hw => ⟨(hP w hw).1, fun _ hy => End.value.inj hy ▸ (hP w hw).2⟩

theorem gives_reads (g : World V → α) (hP : ∀ w, P w → Frame w₀ w) :
    Gives w₀ P (Lib.Action.reads g) fun x w => P w ∧ x = g w :=
  triple_reads fun w hw => ⟨hP w hw, fun _ hx => ⟨hw, (End.value.inj hx).symm⟩⟩

theorem gives_method {isOpen : Objects.State → Bool} {r : Request}
    {m : Answer → World V → Outcome α × World V} {v : Answer → α → β}
    (hframe : ∀ w, P w → Frame w₀ w) (hm : ∀ a w, Frame w₀ w → Frame w₀ (m a w).2)
    (hvalue : ∀ w x, P w → (m (peer (w.requests ++ [r])) (w.asked r)).1 = .returned x →
      R (v (peer (w.requests ++ [r])) x) (m (peer (w.requests ++ [r])) (w.asked r)).2) :
    Gives w₀ P (method peer isOpen r m v) R := by
  have hkeep : ∀ w, P w → Frame w₀ (m (peer (w.requests ++ [r])) (w.asked r)).2 := by
    intro w hw
    have hw' := hframe w hw
    exact hm _ (w.asked r) ⟨hw'.files, hw'.out, hw'.vars⟩
  apply triple_method
  · exact fun w hw => ⟨hframe w hw, nofun⟩
  · exact fun w hw => ⟨hkeep w hw, nofun⟩
  · exact fun w x hw hx => ⟨hkeep w hw, fun y hy => End.value.inj hy ▸ hvalue w x hw hx⟩
  · intro w hw _
    have hw' := hkeep w hw
    exact ⟨⟨hw', nofun⟩, fun text => ⟨⟨hw'.files, hw'.out, hw'.vars⟩, nofun⟩⟩

/-- What the program has when its requests are `rs`. -/
abbrev Asked (w₀ : World V) (rs : List Request) (w : World V) : Prop :=
  Frame w₀ w ∧ w.requests = rs

variable (peer w₀ rs) in
theorem gives_ask (r : Request) : Gives w₀ (Asked w₀ rs) (ask peer r)
    fun a w => a = peer (rs ++ [r]) ∧ w.requests = rs ++ [r] := by
  rintro w ⟨hw, rfl⟩
  refine ⟨⟨hw.files, hw.out, hw.vars⟩, fun a ha => ?_⟩
  unfold ask at ha
  dsimp only at ha
  split at ha
  · cases ha
  · exact ⟨(End.value.inj ha).symm, rfl⟩

variable (peer w₀ rs) in
theorem gives_checked (r : Request) : Gives w₀ (Asked w₀ rs) (checked peer r)
    fun a w => a = peer (rs ++ [r]) ∧ w.requests = rs ++ [r] := by
  refine (gives_ask peer w₀ rs r).bind fun a => ?_
  split
  · exact gives_raise _ fun w hw => hw.1
  · exact gives_pure fun w hw => hw

variable (peer w₀ rs) in
theorem sftpOpen_spec (i : Nat) (path mode : Str) :
    Gives w₀ (Asked w₀ rs) (sftpOpen peer i path mode) fun f w => w.remotes f =
      (peer (rs ++ [.open_ (cStr path) (mode.head? = some 'w'.toUInt8)])).remote := by
  refine gives_method (fun _ hw => hw.1) (fun a w hw => ⟨hw.files, hw.out, hw.vars⟩) ?_
  rintro w f ⟨hw, rfl⟩ hf
  have hnext : f = w.ssh.nextHandle .file := by
    simp only [onSsh, Ssh.Objects.sshSftpOpen, Ssh.Objects.sshSftpNewHandle, World.asked] at hf
    split at hf
    · cases hf
    · split at hf
      · cases hf
        rfl
      · cases hf
  rw [hnext]
  exact Function.update_self _ _ _

variable (peer w₀) in
theorem fileRead_spec (f : Nat) (remote : Remote) :
    Gives w₀ (fun w => Frame w₀ w ∧ w.remotes f = remote) (fileRead peer f)
      fun data _ => data = remote.remaining := by
  refine gives_method (fun _ hw => hw.1) (fun a w hw => ⟨hw.files, hw.out, hw.vars⟩) ?_
  rintro w bs ⟨hw, rfl⟩ hbs
  rcases hloop : readLoop [] (-1) (w.remotes f) with ⟨out, f'⟩
  simp only [World.asked, hloop] at hbs
  rw [hbs] at hloop
  exact readLoop_returned hloop

def Took (gap : Nat → UInt8) (remote : Remote) (data : Str) (n : Nat) (remote' : Remote) : Prop :=
  n ≤ data.length ∧ remote'.contents = stored gap remote.contents remote.pos (data.take n) ∧
    remote'.accepted = remote.accepted ++ data.take n

variable (peer gap w₀) in
theorem fileWrite_spec (f : Nat) (data : Buffer) (remote : Remote) :
    Gives w₀ (fun w => Frame w₀ w ∧ w.remotes f = remote) (fileWrite peer gap f data)
      fun k w => ∃ n : Nat, k = n ∧ Took gap remote data.buf n (w.remotes f) := by
  refine gives_method (fun _ hw => hw.1) (fun a w hw => ⟨hw.files, hw.out, hw.vars⟩) ?_
  rintro w k ⟨hw, rfl⟩ hk
  obtain ⟨n, hn, hcontents, haccepted, hrest⟩ := writeLoop_took gap data.buf (w.remotes f)
  rcases hloop : writeLoop gap data.buf (w.remotes f) with ⟨out, f'⟩
  rw [hloop] at hcontents haccepted hrest
  simp only [World.asked, hloop, Function.update_self] at hk ⊢
  cases out with
  | returned rest =>
      have hlen := data.fits
      have hcount : data.buf.length - rest = n := by
        have := hrest rest rfl
        omega
      have hk' : mpObjNewSmallInt (data.buf.length - rest) = k := by simpa [Outcome.map] using hk
      rw [hcount, mpObjNewSmallInt_eq (by omega)] at hk'
      exact ⟨n, hk'.symm, hn, hcontents, haccepted⟩
  | badf => simp [Outcome.map] at hk
  | raised e fallback => simp [Outcome.map] at hk
  | running => simp [Outcome.map] at hk

variable (peer w₀) in
theorem fileClose_spec (f : Nat) {S : Remote → Prop} :
    Keeps (fun w => Frame w₀ w ∧ S (w.remotes f)) (fileClose peer f) := by
  refine (keeps_reads _).bind fun opened => ?_
  split
  · apply triple_method
    · exact fun _ hw => hw
    · exact fun w hw => ⟨⟨hw.1.files, hw.1.out, hw.1.vars⟩, hw.2⟩
    · exact fun w _ hw _ => ⟨⟨hw.1.files, hw.1.out, hw.1.vars⟩, hw.2⟩
    · intro w hw _
      exact ⟨⟨⟨hw.1.files, hw.1.out, hw.1.vars⟩, hw.2⟩,
        fun _ => ⟨⟨hw.1.files, hw.1.out, hw.1.vars⟩, hw.2⟩⟩
  · exact keeps_pure ()

variable (peer) in
/-- What is done with a file is done when it has been closed. -/
theorem gives_closed {f : Nat} {body : Prog V α} {S : α → Remote → Prop}
    (hbody : Gives w₀ P body fun x w => S x (w.remotes f)) :
    Gives w₀ P (tryFinally body (fileClose peer f)) fun x w => S x (w.remotes f) := by
  refine Triple.finally hbody (fun _ h => ⟨h.1, nofun⟩) fun r _ => ?_
  have hclose := fileClose_spec peer w₀ f
    (S := fun remote => ∀ x, r = .value x → S x remote)
  refine hclose.post fun r' w hw => ?_
  cases r' with
  | value u => exact hw
  | raised e => exact ⟨hw.1, nofun⟩
  | stuck => exact ⟨hw.1, nofun⟩

variable (peer w₀ rs) in
theorem readLocal_spec (path : Str) : Gives w₀ (Asked w₀ rs) (readLocal peer path)
    fun data w => w₀.files path = some data.buf ∧
      w.requests = rs ++ [.localOpen path false, .localRead path] := by
  refine (gives_checked peer w₀ rs _).bind fun a => ?_
  refine (gives_reads _ fun w hw => hw.1).bind fun contents => ?_
  cases contents with
  | none => exact gives_raise _ fun w hw => hw.1
  | some bytes =>
      refine triple_of_fact (φ := w₀.files path = some bytes)
        (fun w hw => by rw [← hw.1.files, ← hw.2.2]) fun hfile => ?_
      have hread := gives_checked peer w₀ (rs ++ [.localOpen path false]) (.localRead path)
      refine Gives.bind (Triple.pre hread fun w hw => ⟨hw.1, hw.2.1.2.2⟩) fun b => ?_
      split
      · refine gives_pure fun w hw => ⟨hw.1, hfile, ?_⟩
        rw [hw.2.2, List.append_assoc]
        rfl
      · exact gives_raise _ fun w hw => hw.1

/-- A local file is changed to the front of the data, if it is changed. -/
def Wrote (w₀ : World V) (path data : Str) (w : World V) : Prop :=
  w.out = w₀.out ∧
    (w.files = w₀.files ∨ ∃ n, w.files = Function.update w₀.files path (some (data.take n)))

/-- DOS has been told to make the file hold `bytes`. -/
structure Holds (w₀ : World V) (path bytes : Str) (w : World V) : Prop where
  files : w.files = Function.update w₀.files path (some bytes)
  out : w.out = w₀.out

theorem Holds.wrote {path data : Str} {n : Nat} {w : World V}
    (h : Holds w₀ path (data.take n) w) : Wrote w₀ path data w :=
  ⟨h.out, .inr ⟨n, h.files⟩⟩

theorem holds_setLocal {path bytes bytes' : Str} {w : World V} (h : Holds w₀ path bytes w) :
    Holds w₀ path bytes' { w with files := Function.update w.files path (some bytes') } := by
  refine ⟨?_, h.out⟩
  simp only [h.files, Function.update_idem]

def writeRequests (path data : Str) : List Request :=
  [.localOpen path true, .localWrite path data.length]

variable (peer w₀ rs) in
theorem writeLocal_spec (path data : Str) : Triple (Asked w₀ rs) (writeLocal peer path data)
    fun e w => Wrote w₀ path data w ∧ (e = .value () →
      w.requests = rs ++ writeRequests path data ∧ w.files = Function.update w₀.files path
        (some (data.take (peer (rs ++ writeRequests path data)).count))) := by
  refine Triple.bind (gives_checked peer w₀ rs _) (fun b => ?_)
    (fun _ _ h => ⟨⟨h.1.out, .inl h.1.files⟩, nofun⟩) fun _ h => ⟨⟨h.1.out, .inl h.1.files⟩, nofun⟩
  have hclear : Triple
      (fun w => Frame w₀ w ∧ ∀ x, End.value (ε := Exc) b = .value x →
        x = peer (rs ++ [.localOpen path true]) ∧ w.requests = rs ++ [.localOpen path true])
      (setLocal path [])
      fun _ w => Holds w₀ path (data.take 0) w ∧ w.requests = rs ++ [.localOpen path true] :=
    triple_modify fun w hw => ⟨⟨by rw [hw.1.files]; rfl, hw.1.out⟩, (hw.2 b rfl).2⟩
  refine hclear.bind (fun _ => ?_) (fun _ _ h => ⟨h.1.wrote, nofun⟩) fun _ h => ⟨h.1.wrote, nofun⟩
  have hask : Triple
      (fun w => Holds w₀ path (data.take 0) w ∧ w.requests = rs ++ [.localOpen path true])
      (ask peer (.localWrite path data.length))
      fun e w => Holds w₀ path (data.take 0) w ∧ w.requests = rs ++ writeRequests path data ∧
        ∀ a, e = .value a → a = peer (rs ++ writeRequests path data) := by
    rintro w ⟨hw, hrequests⟩
    have happend :
        w.requests ++ [.localWrite path data.length] = rs ++ writeRequests path data := by
      rw [hrequests, List.append_assoc]
      rfl
    refine ⟨⟨hw.files, hw.out⟩, happend, fun a ha => ?_⟩
    unfold ask at ha
    dsimp only at ha
    split at ha
    · cases ha
    · rw [← happend]
      exact (End.value.inj ha).symm
  refine hask.bind (fun a => ?_) (fun _ _ h => ⟨h.1.wrote, nofun⟩) fun _ h => ⟨h.1.wrote, nofun⟩
  refine triple_of_fact (φ := a = peer (rs ++ writeRequests path data)) (fun w hw => hw.2.2 a rfl)
    fun ha => ?_
  have hset : Triple
      (fun w => Holds w₀ path (data.take 0) w ∧ w.requests = rs ++ writeRequests path data ∧
        ∀ x, End.value (ε := Exc) a = .value x → x = peer (rs ++ writeRequests path data))
      (setLocal path (data.take a.count))
      fun _ w => Holds w₀ path (data.take a.count) w ∧ w.requests = rs ++ writeRequests path data :=
    triple_modify fun w hw => ⟨holds_setLocal hw.1, hw.2.1⟩
  refine hset.bind (fun _ => ?_) (fun _ _ h => ⟨h.1.wrote, nofun⟩) fun _ h => ⟨h.1.wrote, nofun⟩
  split
  · exact triple_raise fun w hw => ⟨hw.1.wrote, nofun⟩
  · exact triple_pure fun w hw => ⟨hw.1.wrote, fun _ => ⟨hw.2, ha ▸ hw.1.files⟩⟩

/-! ## A session -/

def connectRequests (host : Str) (port : Int) (user password : Str) : List Request :=
  [.getaddrinfo host port, .connect, .handshake, .userauth user password]

variable (peer w₀ rs) in
theorem session_spec : Gives w₀ (Asked w₀ rs) (session peer)
    fun _ w => w.requests = rs ++ [.handshake] := by
  refine (gives_ask peer w₀ rs .handshake).bind fun a => ?_
  split
  · exact fun w hw => ⟨⟨hw.1.files, hw.1.out, hw.1.vars⟩, nofun⟩
  · exact triple_modify fun w hw => ⟨⟨hw.1.files, hw.1.out, hw.1.vars⟩, fun _ _ => hw.2.2⟩

variable (peer w₀ rs) in
theorem connect_spec (host : Str) (port : Int) (user password : Str) :
    Gives w₀ (Asked w₀ rs) (connect peer host port user password)
      fun _ w => w.requests = rs ++ connectRequests host port user password := by
  unfold connect
  split
  · refine (gives_checked peer w₀ rs _).bind fun _ => ?_
    refine Gives.bind (Triple.pre (gives_checked peer w₀ (rs ++ [.getaddrinfo host port]) .connect)
      fun w hw => ⟨hw.1, hw.2.2⟩) fun _ => ?_
    refine Gives.bind (Triple.pre (session_spec peer w₀
      (rs ++ [.getaddrinfo host port] ++ [.connect])) fun w hw => ⟨hw.1, hw.2.2⟩) fun _ => ?_
    refine gives_method (fun _ hw => hw.1) (fun a w hw => ⟨hw.files, hw.out, hw.vars⟩) ?_
    rintro w x ⟨hw, hrequests⟩ -
    change w.requests ++ [.userauth user password] = _
    rw [hrequests]
    simp [connectRequests]
  · exact gives_raise _ fun w hw => hw.1

variable (peer w₀ rs) in
/-- What was received is what the loop over the stream makes of it. -/
theorem sessionScpRecv_spec (path : Str) :
    Gives w₀ (Asked w₀ rs) (sessionScpRecv peer path) fun data w =>
      scpReceived (peer (rs ++ [.scpRecv (cStr path)])).reads = .returned data ∧
        w.requests = rs ++ [.scpRecv (cStr path)] := by
  refine gives_method (fun _ hw => hw.1) (fun a w hw => ⟨hw.files, hw.out, hw.vars⟩) ?_
  rintro w data ⟨hw, rfl⟩ hdata
  refine ⟨?_, rfl⟩
  simp only [onSsh, Objects.sshSessionScpRecv] at hdata
  split at hdata
  · split at hdata
    · rwa [Scp.finish_fst] at hdata
    · cases hdata
  · cases hdata

variable (peer w₀ rs) in
theorem sessionScpSend_spec (path : Str) (mode : Nat) (data : Buffer) :
    Gives w₀ (Asked w₀ rs) (sessionScpSend peer path mode data) fun n _ =>
      (scpSent data.buf.length
        (peer (rs ++ [.scpSend (cStr path) mode data.buf.length])).writes).1 = .returned n := by
  refine gives_method (fun _ hw => hw.1) (fun a w hw => ⟨hw.files, hw.out, hw.vars⟩) ?_
  rintro w n ⟨hw, rfl⟩ hn
  simp only [onSsh, Objects.sshSessionScpSend] at hn
  split at hn
  · split at hn
    · rwa [Scp.finish_fst] at hn
    · cases hn
  · cases hn

end FreedosMicroPython.Ssh.Transfer
