import FreedosMicroPython.Scp.Program
import FreedosMicroPython.Ssh.Transfer
import FreedosMicroPython.Ssh.Upload
/-!
# What the scp program transfers

What `main` has done when it comes back, from the answers of the channel: what is in the local
file after a download, and what the server took of an upload.
-/

namespace FreedosMicroPython.Scp

open FreedosMicroPython.Lib.Action FreedosMicroPython.OsPath
open FreedosMicroPython.Ssh.Channel FreedosMicroPython.Ssh.Client FreedosMicroPython.Ssh.Scp
open FreedosMicroPython.Ssh.Transfer FreedosMicroPython.Ssh.Upload

variable {peer : Peer} {src dst : Str} {o : Opts} {argv : List Str} {w : World Unit}

def fetchRequests (src : Str) (o : Opts) : List Request :=
  connectRequests (splitRemote src).1 o.port o.user o.password ++
    [.scpRecv (cStr (splitRemote src).2)]

def putRequests (src dst : Str) (o : Opts) (data : Str) : List Request :=
  [.localOpen src false, .localRead src] ++
    connectRequests (splitRemote dst).1 o.port o.user o.password ++
    [.scpSend (cStr (splitRemote dst).2) 0o644 data.length]

def Local (P : (Str → Option Str) → Str → Prop) (w : World Unit) : Prop := P w.files w.out

theorem sessionClose_local (P : (Str → Option Str) → Str → Prop) :
    Keeps (Local P) (sessionClose peer) := by
  refine (keeps_reads _).bind fun opened => ?_
  split
  · apply triple_method
    · exact fun _ hw => hw
    · exact fun w hw => hw
    · exact fun w _ hw _ => hw
    · exact fun w hw _ => ⟨hw, fun _ => hw⟩
  · exact keeps_pure ()

theorem closed_spec {α : Type} {body : Prog Unit α} {P : World Unit → Prop}
    {S : End Exc α → (Str → Option Str) → Str → Prop}
    (hbody : Triple P body fun e w => S e w.files w.out)
    (hfail : ∀ x e files out, S x files out → S (.raised e) files out)
    (hstuck : ∀ x files out, S x files out → S .stuck files out) :
    Triple P (tryFinally body (sessionClose peer)) fun e w => S e w.files w.out := by
  refine Triple.finally hbody (fun _ h => h) fun r _ => ?_
  refine (sessionClose_local (S r)).post fun r' w hw => ?_
  cases r' with
  | value u => exact hw
  | raised e => exact hfail r e _ _ hw
  | stuck => exact hstuck r _ _ hw

/-! ## The report -/

def gotLine (src dst : Str) (n : Nat) : Str :=
  str "got " ++ Sftp.strInt n ++ str " bytes from " ++ src ++ str " to " ++ dst

def sentLine (src dst : Str) (n : Nat) : Str :=
  str "sent " ++ Sftp.strInt n ++ str " bytes from " ++ src ++ str " to " ++ dst

def reporting (a : Prog Unit Nat) (text : Nat → Str) : Prog Unit Int :=
  onOSError
    (do
      let n ← a
      print (text n)
      pure 0)
    fun t => do
      writeErr (str "scp: " ++ t ++ str "\n")
      pure 1

/-- How `main` ends around a transfer: 0 is returned after the line about it has been printed. -/
def Reports (S : End Exc Nat → (Str → Option Str) → Str → Prop) (text : Nat → Str)
    (e : End Exc Int) (w : World Unit) : Prop :=
  e = .value 0 ∧ (∃ n out, S (.value n) w.files out ∧ w.out = out ++ text n ++ [0x0A]) ∨
    e ≠ .value 0 ∧ S .stuck w.files w.out

theorem reports_spec {P : World Unit → Prop} {a : Prog Unit Nat}
    {S : End Exc Nat → (Str → Option Str) → Str → Prop}
    (ha : Triple P a fun e w => S e w.files w.out) (text : Nat → Str)
    (hfail : ∀ e files out, S (.raised e) files out → S .stuck files out) :
    Triple P (reporting a text) (Reports S text) := by
  have hprint : ∀ n, Triple (fun w : World Unit => S (.value n) w.files w.out) (print (text n))
      fun e w => e = .value () ∧
        ∃ out, S (.value n) w.files out ∧ w.out = out ++ text n ++ [0x0A] :=
    fun n => triple_modify fun w hw => ⟨rfl, w.out, hw, (List.append_assoc _ _ _).symm⟩
  have hbody : Triple P
      (do
        let n ← a
        print (text n)
        pure 0)
      (Reports S text) := by
    refine Triple.bind ha (fun n => ?_) (fun _ _ h => .inr ⟨nofun, hfail _ _ _ h⟩)
      fun _ h => .inr ⟨nofun, h⟩
    refine (hprint n).bind (fun _ => ?_) (fun _ _ h => nomatch h.1) fun _ h => nomatch h.1
    exact triple_pure fun w hw => .inl ⟨rfl, n, hw.2⟩
  refine Triple.except hbody (fun _ _ _ h => h) fun e h he => ?_
  cases e <;> cases he
  have herr : ∀ t, Triple (fun w : World Unit => S .stuck w.files w.out) (writeErr t)
      fun _ w => S .stuck w.files w.out :=
    fun t => triple_modify fun _ hw => hw
  refine ((herr _).pre fun w hw => ?_).bind (fun _ => ?_) (fun _ _ h => .inr ⟨nofun, h⟩)
    fun _ h => .inr ⟨nofun, h⟩
  · exact (hw.resolve_left fun h => nomatch h.1).2
  · exact triple_pure fun _ hw => .inr ⟨by decide, hw⟩

theorem main_fetch (hargv : parseArgs false {} argv = .opts o) (hpos : o.positional = [src, dst])
    (hsrc : ':'.toUInt8 ∈ src) (hdst : ':'.toUInt8 ∉ dst) (w : World Unit) :
    main peer argv w = reporting (fetch peer src dst o) (gotLine src dst) w := by
  rw [main, hargv]
  simp only [hpos]
  rw [transfer, if_pos ⟨hsrc, hdst⟩]
  rfl

theorem main_put (hargv : parseArgs false {} argv = .opts o) (hpos : o.positional = [src, dst])
    (hsrc : ':'.toUInt8 ∉ src) (hdst : ':'.toUInt8 ∈ dst) (w : World Unit) :
    main peer argv w = reporting (put peer src dst o) (sentLine src dst) w := by
  rw [main, hargv]
  simp only [hpos]
  rw [transfer, if_neg fun h => hsrc h.1, if_pos ⟨hdst, hsrc⟩]
  rfl

/-! ## Downloads -/

/-- How far a download of `p` has come: `dst` is not touched before the data is there, and a
download that returns has written what DOS took of it. -/
def Fetched (peer : Peer) (w : World Unit) (src dst : Str) (o : Opts) (p : Str)
    (e : End Exc Nat) (files : Str → Option Str) (out : Str) : Prop :=
  let rs := w.requests ++ fetchRequests src o
  out = w.out ∧
    (files = w.files ∨ ∃ data, data <+: p ∧ files = Function.update w.files dst (some data)) ∧
    ∀ n, e = .value n → ∃ data, data <+: p ∧ (data = p ∨ CutShort p (peer rs).reads) ∧
      n = data.length ∧ files = Function.update w.files dst
        (some (data.take (peer (rs ++ writeRequests dst data)).count))

theorem Fetched.fails {p : Str} {e e' : End Exc Nat} {files : Str → Option Str} {out : Str}
    (h : Fetched peer w src dst o p e files out) (he' : ∀ n, e' ≠ .value n) :
    Fetched peer w src dst o p e' files out :=
  ⟨h.1, h.2.1, fun n hn => absurd hn (he' n)⟩

theorem Fetched.before {p : Str} {e : End Exc Nat} {w' : World Unit} (h : Frame w w')
    (he : ∀ n, e ≠ .value n) : Fetched peer w src dst o p e w'.files w'.out :=
  ⟨h.out, .inl h.files, fun n hn => absurd hn (he n)⟩

variable (dst) in
theorem fetch_spec {p : Str}
    (hsent : dataOf (peer (w.requests ++ fetchRequests src o)).reads <+: p ++ [0]) :
    Triple (Asked w w.requests) (fetch peer src dst o)
      fun e w' => Fetched peer w src dst o p e w'.files w'.out := by
  refine Triple.bind (connect_spec peer w w.requests _ _ _ _) (fun _ => ?_)
    (fun _ _ h => .before h.1 nofun) fun _ h => .before h.1 nofun
  have hrs : w.requests ++ connectRequests (splitRemote src).1 o.port o.user o.password ++
      [.scpRecv (cStr (splitRemote src).2)] = w.requests ++ fetchRequests src o := by
    rw [List.append_assoc]
    rfl
  have hrecv := sessionScpRecv_spec peer w
    (w.requests ++ connectRequests (splitRemote src).1 o.port o.user o.password)
    (splitRemote src).2
  rw [hrs] at hrecv
  refine closed_spec (S := Fetched peer w src dst o p) ?_ (fun _ _ _ _ h => h.fails nofun)
    fun _ _ _ h => h.fails nofun
  refine Triple.bind (Triple.pre hrecv fun w' hw => ⟨hw.1, hw.2 () rfl⟩) (fun data => ?_)
    (fun _ _ h => .before h.1 nofun) fun _ h => .before h.1 nofun
  refine triple_of_fact
    (φ := scpReceived (peer (w.requests ++ fetchRequests src o)).reads = .returned data)
    (fun w' hw => (hw.2 data rfl).1) fun hreceived => ?_
  have hprefix := scpReceived_prefix hsent
  rw [hreceived] at hprefix
  obtain ⟨hdata, hwhole⟩ := hprefix
  have hfront : ∀ w' : World Unit, Wrote w dst data w' → w'.out = w.out ∧ (w'.files = w.files ∨
      ∃ bytes, bytes <+: p ∧ w'.files = Function.update w.files dst (some bytes)) :=
    fun w' hw => ⟨hw.1, hw.2.imp_right fun ⟨n, hn⟩ =>
      ⟨_, (List.take_prefix n data).trans hdata, hn⟩⟩
  have hwrite := writeLocal_spec peer w (w.requests ++ fetchRequests src o) dst data
  refine Triple.bind (Triple.pre hwrite fun w' hw => ⟨hw.1, (hw.2 data rfl).2⟩) (fun _ => ?_)
    (fun _ w' h => ?_) fun w' h => ?_
  · refine triple_pure fun w' hw => ⟨(hfront w' hw.1).1, (hfront w' hw.1).2, fun n hn => ?_⟩
    exact ⟨data, hdata, hwhole, (End.value.inj hn).symm, (hw.2 rfl).2⟩
  · exact ⟨(hfront w' h.1).1, (hfront w' h.1).2, nofun⟩
  · exact ⟨(hfront w' h.1).1, (hfront w' h.1).2, nofun⟩

def receive (peer : Peer) (src : Str) (o : Opts) : Prog Unit Str := do
  connect peer (splitRemote src).1 o.port o.user o.password
  sessionScpRecv peer (splitRemote src).2

variable (dst) in
/-- A download that receives no data changes no file. -/
theorem fetch_unreceived (h : ∀ data, (receive peer src o w).1 ≠ .value data) :
    Triple (fun w' => w' = w) (fetch peer src dst o) fun _ w' => w'.files = w.files := by
  have hconnect : Triple (fun w' => w' = w)
      (connect peer (splitRemote src).1 o.port o.user o.password) fun e w' =>
        Frame w w' ∧ connect peer (splitRemote src).1 o.port o.user o.password w = (e, w') := by
    rintro w' rfl
    exact ⟨(connect_spec peer w' w'.requests _ _ _ _ w' ⟨⟨rfl, rfl, rfl⟩, rfl⟩).1, rfl⟩
  refine hconnect.bind (fun _ => ?_) (fun _ _ hw => hw.1.files) fun _ hw => hw.1.files
  have hrecv : Triple (fun w' => Frame w w' ∧
        connect peer (splitRemote src).1 o.port o.user o.password w = (.value (), w'))
      (sessionScpRecv peer (splitRemote src).2)
      fun e w' => Frame w w' ∧ ∀ data, e ≠ .value data := by
    rintro w' ⟨hw', hconnected⟩
    refine ⟨(sessionScpRecv_spec peer w w'.requests _ w' ⟨hw', rfl⟩).1, fun data hdata => ?_⟩
    refine h data ?_
    change (andThen _ _ w).1 = _
    rw [andThen, hconnected]
    exact hdata
  refine closed_spec (S := fun _ files _ => files = w.files) ?_ (fun _ _ _ _ hs => hs)
    fun _ _ _ hs => hs
  refine hrecv.bind (fun data => ?_) (fun _ _ hw => hw.1.files) fun _ hw => hw.1.files
  exact fun w' hw => absurd rfl (hw.2 data)

/-- A download touches no local file but `dst`, and that only with the data at hand; it leaves a
front of the remote file `p` there if anything. Where it exits with 0 all that came of `p` was
given to DOS, which is all of `p` unless the receiver gave up before the whole stream was there. -/
theorem main_download {p : Str} (hargv : parseArgs false {} argv = .opts o)
    (hpos : o.positional = [src, dst]) (hsrc : ':'.toUInt8 ∈ src) (hdst : ':'.toUInt8 ∉ dst)
    (hsent : dataOf (peer (w.requests ++ fetchRequests src o)).reads <+: p ++ [0]) :
    let result := main peer argv w
    let rs := w.requests ++ fetchRequests src o
    (result.2.files = w.files ∨
        ∃ data, data <+: p ∧ result.2.files = Function.update w.files dst (some data)) ∧
      ((∀ data, (receive peer src o w).1 ≠ .value data) → result.2.files = w.files) ∧
      (result.1 = .value 0 → ∃ data, data <+: p ∧ (data = p ∨ CutShort p (peer rs).reads) ∧
        result.2.files = Function.update w.files dst
          (some (data.take (peer (rs ++ writeRequests dst data)).count)) ∧
        result.2.out = w.out ++ gotLine src dst data.length ++ [0x0A]) := by
  intro result rs
  have hmain : result = _ := main_fetch hargv hpos hsrc hdst w
  have hreports := reports_spec (fetch_spec dst hsent) (gotLine src dst)
    (fun _ _ _ h => h.fails nofun) w ⟨⟨rfl, rfl, rfl⟩, rfl⟩
  rw [← hmain] at hreports
  have hunreceived : (∀ data, (receive peer src o w).1 ≠ .value data) →
      result.2.files = w.files := by
    intro h
    rw [hmain]
    exact (reports_spec (S := fun _ files _ => files = w.files) (fetch_unreceived dst h)
      (gotLine src dst) (fun _ _ _ hs => hs) w rfl).elim (fun ⟨_, _, _, hs, _⟩ => hs) And.right
  rcases hreports with ⟨-, n, out, hfetched, hout⟩ | ⟨hne, hfetched⟩
  · refine ⟨hfetched.2.1, hunreceived, fun _ => ?_⟩
    obtain ⟨data, hdata, hwhole, rfl, hfiles⟩ := hfetched.2.2 n rfl
    exact ⟨data, hdata, hwhole, hfiles, by rw [hout, hfetched.1]⟩
  · exact ⟨hfetched.2.1, hunreceived, fun h => absurd h hne⟩

/-- A server that breaks off in a file of two bytes, and takes one byte and no terminator. -/
def breaking : Peer := fun requests =>
  match requests.getLast? with
  | some (.scpRecv _) => { reads := cutStream }
  | some (.scpSend _ _ _) => { writes := [.ok 1, .ok 1, .error (.other (-7))] }
  | some (.localWrite _ size) => { count := size }
  | _ => {}

theorem main_download_breaking :
    ∃ data, data <+: [1, 2] ∧
      (data = [1, 2] ∨ CutShort [1, 2] (breaking (fetchRequests (str "host:/x") {})).reads) ∧
      (main breaking [str "host:/x", str "X"] start).2.files =
        Function.update start.files (str "X") (some data) := by
  have hresult : (main breaking [str "host:/x", str "X"] start).1 = .value 0 := by decide
  have hparse : parseArgs false {} [str "host:/x", str "X"] =
      .opts { positional := [str "host:/x", str "X"] } := by
    decide
  obtain ⟨data, hdata, hwhole, hfiles, -⟩ := (main_download (p := [1, 2]) hparse rfl (by decide)
    (by decide) (show dataOf (breaking _).reads <+: _ by decide)).2.2 hresult
  have hcount : (breaking (start.requests ++ fetchRequests (str "host:/x")
      { positional := [str "host:/x", str "X"] } ++ writeRequests (str "X") data)).count =
        data.length :=
    rfl
  rw [hcount, List.take_length] at hfiles
  exact ⟨data, hdata, hwhole, hfiles⟩

/-! ## Uploads -/

theorem nulWrites_accepted (rs : List WriteResult) :
    acceptedBy (nulWrites rs) = [] ∨ acceptedBy (nulWrites rs) = [0] := by
  induction rs with
  | nil => exact .inl rfl
  | cons r rs ih =>
      by_cases hr : r = .error .eagain
      · simpa [nulWrites, hr, acceptedBy, Write.accepted, taken] using ih
      · have hone : acceptedBy (nulWrites (r :: rs)) = [0].take (taken r) := by
          simp [nulWrites, hr, acceptedBy, Write.accepted]
        rw [hone]
        cases taken r with
        | zero => exact .inl rfl
        | succ n => exact .inr (by rw [List.take_succ_cons, List.take_nil])

/-- A call that returns has sent all of the data, and may have sent the terminator. -/
theorem scpSent_accepted {p : List UInt8} {rs : List WriteResult}
    (h : Returns (scpSent p.length rs).1) :
    acceptedBy (scpWrites p rs) = p ∨ acceptedBy (scpWrites p rs) = p ++ [0] := by
  induction rs generalizing p with
  | nil =>
      cases p <;> simp [scpSent, scpSendLoop, scpSendNul, Outcome.map, Returns] at h
  | cons r rs ih =>
      cases p with
      | nil =>
          rw [scpWrites_nil]
          exact nulWrites_accepted _
      | cons b p =>
          by_cases hr : GoesOn r
          · rw [List.length_cons, scpSent_cons hr] at h
            have hrest := ih (p := (b :: p).drop (taken r))
              (by rwa [List.length_drop, List.length_cons])
            have hsplit : acceptedBy (scpWrites (b :: p) (r :: rs)) = (b :: p).take (taken r) ++
                acceptedBy (scpWrites ((b :: p).drop (taken r)) rs) := by
              rw [scpWrites_cons hr]
              rfl
            rw [hsplit]
            rcases hrest with hrest | hrest <;> rw [hrest]
            · exact .inl (List.take_append_drop _ _)
            · rw [← List.append_assoc, List.take_append_drop]
              exact .inr rfl
          · cases r with
            | ok n => exact absurd (.inl ⟨n, rfl⟩) hr
            | error e =>
                have he : e ≠ .eagain := fun h => hr (.inr (by rw [h]))
                exact absurd h (scpSent_error he rs)

theorem scpSent_returned {len n : Nat} {writes : List WriteResult}
    (h : (scpSent len writes).1 = .returned n) : n = len := by
  unfold scpSent at h
  split at h
  · next rest fns _ =>
      revert h
      rcases scpSendNul rest with ⟨out | _ | _ | _, fns'⟩ <;> simp [Outcome.map, eq_comm]
  · cases h
  · cases h
  · cases h

/-- An upload that returns has read the local file, and all of it has been sent. -/
def Sent (peer : Peer) (w : World Unit) (src dst : Str) (o : Opts) (e : End Exc Nat)
    (files : Str → Option Str) (out : Str) : Prop :=
  out = w.out ∧ files = w.files ∧ ∀ n, e = .value n → ∃ data, w.files src = some data ∧
    n = data.length ∧
      Returns (scpSent data.length (peer (w.requests ++ putRequests src dst o data)).writes).1

theorem Sent.fails {e e' : End Exc Nat} {files : Str → Option Str} {out : Str}
    (h : Sent peer w src dst o e files out) (he' : ∀ n, e' ≠ .value n) :
    Sent peer w src dst o e' files out :=
  ⟨h.1, h.2.1, fun n hn => absurd hn (he' n)⟩

theorem Sent.before {e : End Exc Nat} {w' : World Unit} (h : Frame w w')
    (he : ∀ n, e ≠ .value n) : Sent peer w src dst o e w'.files w'.out :=
  ⟨h.out, h.files, fun n hn => absurd hn (he n)⟩

variable (peer w src dst o) in
theorem put_spec : Triple (Asked w w.requests) (put peer src dst o)
    fun e w' => Sent peer w src dst o e w'.files w'.out := by
  refine Triple.bind (readLocal_spec peer w w.requests src) (fun data => ?_)
    (fun _ _ h => .before h.1 nofun) fun _ h => .before h.1 nofun
  refine triple_of_fact (φ := w.files src = some data.buf) (fun w' hw => (hw.2 data rfl).1)
    fun hfile => ?_
  have hconnect := connect_spec peer w (w.requests ++ [.localOpen src false, .localRead src])
    (splitRemote dst).1 o.port o.user o.password
  refine Triple.bind (Triple.pre hconnect fun w' hw => ⟨hw.1, (hw.2 data rfl).2⟩) (fun _ => ?_)
    (fun _ _ h => .before h.1 nofun) fun _ h => .before h.1 nofun
  have hsend := sessionScpSend_spec peer w
    (w.requests ++ [.localOpen src false, .localRead src] ++
      connectRequests (splitRemote dst).1 o.port o.user o.password)
    (splitRemote dst).2 0o644 data
  refine closed_spec (S := Sent peer w src dst o) ?_ (fun _ _ _ _ h => h.fails nofun)
    fun _ _ _ h => h.fails nofun
  refine (Triple.pre hsend fun w' hw => ⟨hw.1, hw.2 () rfl⟩).post fun e w' hw => ?_
  refine ⟨hw.1.out, hw.1.files, fun n hn => ⟨data.buf, hfile, ?_⟩⟩
  have hsent := hw.2 n hn
  rw [List.append_assoc, List.append_assoc] at hsent
  exact ⟨scpSent_returned hsent, n, hsent⟩

/-- The action gives nothing, and has made the requests `rs` in all. -/
def Stops {α : Type} (w : World Unit) (rs : List Request) (a : Prog Unit α) : Prop :=
  Triple (fun w' => w' = w) a fun e w' => (∀ x, e ≠ .value x) ∧ w'.requests = rs

theorem Stops.bind {α β : Type} {rs : List Request} {a : Prog Unit α} {f : α → Prog Unit β}
    (ha : Stops w rs a) : Stops w rs (a >>= f) :=
  Triple.bind ha (fun x _ hw => absurd rfl (hw.1 x)) (fun _ _ h => ⟨nofun, h.2⟩)
    fun _ h => ⟨nofun, h.2⟩

variable (peer) in
theorem stops_readLocal (h : w.files src = none) :
    Stops w (w.requests ++ [.localOpen src false]) (readLocal peer src) := by
  have hask : Triple (fun w' => w' = w) (ask peer (.localOpen src false))
      fun _ w' => w' = w.asked (.localOpen src false) := by
    rintro _ rfl
    rfl
  have hchecked : Triple (fun w' => w' = w) (checked peer (.localOpen src false))
      fun _ w' => w' = w.asked (.localOpen src false) := by
    refine hask.bind (fun a => ?_) (fun _ _ h => h) fun _ h => h
    split
    · exact triple_raise fun _ hw => hw
    · exact triple_pure fun _ hw => hw
  refine hchecked.bind (fun a => ?_) (fun _ _ hw => ⟨nofun, hw ▸ rfl⟩) fun _ hw => ⟨nofun, hw ▸ rfl⟩
  have hreads : Triple (fun w' => w' = w.asked (.localOpen src false))
      (reads fun w' => w'.files src : Prog Unit (Option Str))
      fun e w' => e = .value none ∧ w' = w.asked (.localOpen src false) :=
    triple_reads fun w' hw => ⟨by rw [hw]; exact congrArg End.value h, hw⟩
  refine hreads.bind (fun contents => ?_) (fun _ _ h => nomatch h.1) fun _ h => nomatch h.1
  refine triple_of_fact (φ := contents = none) (fun _ hw => End.value.inj hw.1) fun hnone => ?_
  subst hnone
  exact triple_raise fun _ hw => ⟨nofun, hw.2 ▸ rfl⟩

theorem stops_reporting {rs : List Request} {a : Prog Unit Nat} (ha : Stops w rs a)
    (text : Nat → Str) : (reporting a text w).2.requests = rs := by
  have hrun : Triple (fun w' => w' = w) (reporting a text) fun _ w' => w'.requests = rs := by
    refine Triple.except ha.bind (fun _ _ _ h => h.2) fun e h he => ?_
    cases e <;> cases he
    have hkeeps : ∀ t, Keeps (fun w' : World Unit => w'.requests = rs) (do
        writeErr t
        pure (1 : Int)) :=
      fun t => Keeps.bind (keeps_modify fun _ hw => hw) fun _ => keeps_pure _
    exact (hkeeps _).pre fun _ hw => hw.2
  exact hrun w rfl

/-- An upload changes no local file, and asks nothing of the network when there is no file `src`.
Where it exits with 0 the channel has taken the file byte for byte and in order; it has taken the
terminator as well exactly when it answered the terminator with 1. -/
theorem main_upload (hargv : parseArgs false {} argv = .opts o) (hpos : o.positional = [src, dst])
    (hsrc : ':'.toUInt8 ∉ src) (hdst : ':'.toUInt8 ∈ dst) :
    let result := main peer argv w
    result.2.files = w.files ∧
      (w.files src = none → result.2.requests = w.requests ++ [.localOpen src false]) ∧
      (result.1 = .value 0 → ∃ data, w.files src = some data ∧
        let writes := (peer (w.requests ++ putRequests src dst o data)).writes
        let accepted := acceptedBy (scpWrites data writes)
        (accepted = data ∨ accepted = data ++ [0]) ∧
          ((∀ c ∈ scpWrites data writes, c.Fits) →
            (accepted = data ++ [0] ↔ TerminatorTaken data.length writes)) ∧
          result.2.out = w.out ++ sentLine src dst data.length ++ [0x0A]) := by
  intro result
  have hmain : result = _ := main_put hargv hpos hsrc hdst w
  have hreports := reports_spec (put_spec peer src dst o w) (sentLine src dst)
    (fun _ _ _ h => h.fails nofun) w ⟨⟨rfl, rfl, rfl⟩, rfl⟩
  rw [← hmain] at hreports
  refine ⟨?_, fun hnone => ?_, ?_⟩
  · rcases hreports with ⟨-, n, out, hsent, -⟩ | ⟨-, hsent⟩ <;> exact hsent.2.1
  · have hput : Stops w (w.requests ++ [.localOpen src false]) (put peer src dst o) :=
      (stops_readLocal peer hnone).bind
    rw [hmain]
    exact stops_reporting hput _
  · intro hvalue
    rcases hreports with ⟨-, n, out, hsent, hout⟩ | ⟨hne, -⟩
    · obtain ⟨data, hfile, rfl, hreturns⟩ := hsent.2.2 n rfl
      refine ⟨data, hfile, scpSent_accepted hreturns, fun hfits => ?_, by rw [hout, hsent.1]⟩
      exact Iff.trans ⟨fun h _ => h, fun h => h hreturns⟩ (scpSent_complete_iff hfits)
    · exact absurd hvalue hne

theorem main_upload_breaking :
    ∃ data, start.files (str "AUTOEXEC.BAT") = some data ∧
      acceptedBy (scpWrites data [.ok 1, .ok 1, .error (.other (-7))]) = data := by
  have hresult :
      (main breaking [str "AUTOEXEC.BAT", str "host:/x"] start).1 = .value 0 := by decide
  have hparse : parseArgs false {} [str "AUTOEXEC.BAT", str "host:/x"] =
      .opts { positional := [str "AUTOEXEC.BAT", str "host:/x"] } := by
    decide
  obtain ⟨data, hfile, haccepted, -⟩ :=
    (main_upload hparse rfl (by decide) (by decide)).2.2 hresult
  obtain rfl : [1, 2] = data := Option.some.inj hfile
  exact ⟨[1, 2], hfile, haccepted.resolve_right (by decide)⟩

end FreedosMicroPython.Scp
