import FreedosMicroPython.Sftp.Shell
import FreedosMicroPython.Ssh.Nesting
/-!
# The scp program

`examples/scp.py`: one file is fetched or put over a session of its own. The session is closed
however the transfer ends, a fetched file is written when all of it has come, and a file to
put is read before anything is asked of the server.
-/

namespace FreedosMicroPython.Scp

open FreedosMicroPython.Lib.Action FreedosMicroPython.OsPath FreedosMicroPython.Wget
open FreedosMicroPython.Ssh FreedosMicroPython.Ssh.Channel FreedosMicroPython.Ssh.Client
open FreedosMicroPython.Ssh.Nesting

/-! ## The program -/

/-- `partition(":")`, without the user in front of an `@`. -/
def splitRemote (spec : Str) : Str × Str :=
  match cutFirst ':'.toUInt8 spec with
  | some (host, path) => (stripUserinfo host, path)
  | none => (stripUserinfo spec, [])

variable (peer : Peer)

def fetch (remoteSpec outPath : Str) (o : Opts) : Prog Unit Nat := do
  connect peer (splitRemote remoteSpec).1 o.port o.user o.password
  tryFinally
    (do
      let data ← sessionScpRecv peer (splitRemote remoteSpec).2
      writeLocal peer outPath data
      pure data.length)
    (sessionClose peer)

def put (localPath remoteSpec : Str) (o : Opts) : Prog Unit Nat := do
  let data ← readLocal peer localPath
  connect peer (splitRemote remoteSpec).1 o.port o.user o.password
  tryFinally (sessionScpSend peer (splitRemote remoteSpec).2 0o644 data) (sessionClose peer)

def transfer (src dst : Str) (o : Opts) : Prog Unit Int := do
  if ':'.toUInt8 ∈ src ∧ ':'.toUInt8 ∉ dst then
    let n ← fetch peer src dst o
    print (str "got " ++ Sftp.strInt n ++ str " bytes from " ++ src ++ str " to " ++ dst)
    pure 0
  else if ':'.toUInt8 ∈ dst ∧ ':'.toUInt8 ∉ src then
    let n ← put peer src dst o
    print (str "sent " ++ Sftp.strInt n ++ str " bytes from " ++ src ++ str " to " ++ dst)
    pure 0
  else
    writeErr (str "scp: exactly one of SRC/DST must be host:/path\n")
    pure 2

def main (argv : List Str) : Prog Unit Int :=
  match parseArgs false {} argv with
  | .badPort => raise .valueError
  | .help => do
      print (str "usage: scp.py [-P PORT] [-u USER] [-p PASS] SRC DST")
      print (str "       SRC or DST is host:/path; the other is a local file.")
      pure 0
  | .unknownFlag a => do
      writeErr (str "unknown flag: " ++ a ++ str "\n")
      pure 2
  | .opts o =>
      match o.positional with
      | [src, dst] =>
          onOSError (transfer peer src dst o) fun text => do
            writeErr (str "scp: " ++ text ++ str "\n")
            pure 1
      | _ => do
          writeErr (str "usage: scp.py [-P PORT] [-u USER] [-p PASS] SRC DST\n")
          pure 2

/-! ## What is open -/

section
variable {α : Type} {E : Exc → World Unit → Prop}

/-- Nothing is open, and no login was refused. -/
abbrev AllClosed : World Unit → Prop := Closed fun _ => True

def Quits (a : Prog Unit α) : Prop :=
  Triple AllClosed a (Ends (fun _ => Finished) fun _ => Finished)

theorem closed_readLocal (path : Str) :
    Triple AllClosed (readLocal peer path) (Ends (fun _ => AllClosed) fun _ => AllClosed) := by
  refine bind_ends (closed_checked peer (by simp)) fun a => ?_
  refine bind_ends (reads_ends _) fun contents => ?_
  cases contents with
  | none => exact triple_raise fun _ hw => hw
  | some bytes =>
      refine bind_ends (closed_checked peer (by simp)) fun _ => ?_
      split
      · exact triple_pure fun _ hw => hw
      · exact triple_raise fun _ hw => hw

theorem quits_connected {body : Prog Unit α}
    (hbody : Triple (Stage (fun _ => True) .connected) body
      (Ends (fun _ => Stage (fun _ => True) .connected)
        fun _ => Stage (fun _ => True) .connected))
    (host : Str) (o : Opts) : Quits (do
      connect peer host o.port o.user o.password
      tryFinally body (sessionClose peer)) := by
  have hconnect := ends_weaken (connect_ends (F := fun _ : Unit => True) peer host o.port o.user
    o.password) (fun _ _ h => h) fun _ _ h => h.2
  refine bind_ends hconnect fun _ => ?_
  refine ends_weaken (finally_ends hbody (fun _ => sessionClose_closes peer)
    fun _ => sessionClose_closes peer) (fun _ _ h => ?_) fun _ _ h => ?_
  · exact Closed.finished (F := fun _ => True) h
  · exact Closed.finished (F := fun _ => True) h

theorem quits_fetch (remoteSpec outPath : Str) (o : Opts) :
    Quits (fetch peer remoteSpec outPath o) := by
  refine quits_connected peer ?_ _ o
  have hrecv : Triple (Stage (fun _ : Unit => True) .connected)
      (sessionScpRecv peer (splitRemote remoteSpec).2)
      (Ends (fun _ => Stage (fun _ => True) .connected)
        (Raises (Stage (fun _ => True) .connected))) :=
    method_stays (fun _ _ => rfl) fun _ _ hw =>
      ⟨_, trivial, Lifetimes.only_scpRecv hw.sound.inv.session _ _⟩
  refine bind_ends (ends_of_raises hrecv) fun data => ?_
  exact bind_ends (writeLocal_stays peer _ _) fun _ => triple_pure fun _ hw => hw

theorem quits_put (localPath remoteSpec : Str) (o : Opts) :
    Quits (put peer localPath remoteSpec o) := by
  have hread := ends_weaken (closed_readLocal peer localPath) (fun _ _ h => h)
    fun _ _ (h : AllClosed _) => h.finished
  refine bind_ends hread fun data => quits_connected peer ?_ _ o
  have hsend : Triple (Stage (fun _ : Unit => True) .connected)
      (sessionScpSend peer (splitRemote remoteSpec).2 0o644 data)
      (Ends (fun _ => Stage (fun _ => True) .connected)
        (Raises (Stage (fun _ => True) .connected))) :=
    method_stays (fun _ _ => rfl) fun _ _ hw =>
      ⟨_, trivial, Lifetimes.only_scpSend hw.sound.inv.session _ _ _⟩
  exact ends_of_raises hsend

theorem finished_print {n : Int} (s : Str) :
    Triple (Finished (V := Unit)) (do print s; pure n)
      (Ends (fun _ => Finished) fun _ => Finished) :=
  bind_ends (Q := fun _ => Finished) (triple_modify fun _ hw => hw)
    fun _ => triple_pure fun _ hw => hw

theorem finished_writeErr {n : Int} (s : Str) :
    Triple (Finished (V := Unit)) (do writeErr s; pure n)
      (Ends (fun _ => Finished) fun _ => Finished) :=
  bind_ends (Q := fun _ => Finished) (triple_modify fun _ hw => hw)
    fun _ => triple_pure fun _ hw => hw

theorem quits_writeErr {n : Int} (s : Str) : Quits (do writeErr s; pure n) :=
  (finished_writeErr s).pre fun _ hw => hw.finished

theorem quits_transfer (src dst : Str) (o : Opts) : Quits (transfer peer src dst o) := by
  unfold transfer
  split
  · exact bind_ends (quits_fetch peer src dst o) fun n => finished_print _
  · split
    · exact bind_ends (quits_put peer src dst o) fun n => finished_print _
    · exact quits_writeErr _

theorem quits_main (argv : List Str) : Quits (main peer argv) := by
  unfold main
  split
  · exact triple_raise fun _ hw => hw.finished
  · refine bind_ends (Q := fun _ => Finished) ?_ fun _ => finished_print _
    exact triple_modify fun _ hw => hw.finished
  · exact quits_writeErr _
  · split
    · exact onOSError_ends (quits_transfer peer _ _ _) (fun _ => finished_writeErr _)
        fun _ _ _ hw => hw
    · exact quits_writeErr _

/-- Whatever the server, the network and the files do, `main` calls libssh2 with live pointers
only; when it comes back its session is closed, unless the login on it was refused. -/
theorem main_closes_session (argv : List Str) {w : World Unit} (hssh : w.ssh = idle)
    (hrequests : w.requests = []) :
    (∀ c ∈ (main peer argv w).2.ssh.calls, c.live = true) ∧
      ((main peer argv w).1 ≠ .stuck → LeftClosed (main peer argv w).2) :=
  leaves_closed (quits_main peer argv) hssh hrequests trivial

end

def start : World Unit :=
  ⟨idle, fun _ => ⟨[], 0, [], [], []⟩, fun _ => [],
    Function.update (fun _ => none) (str "AUTOEXEC.BAT") (some [1, 2]), [], [], [], ()⟩

def refusing : Peer := fun requests =>
  match requests.getLast? with
  | some (.scpRecv _) => { rc := -28 }
  | some (.scpSend _ _ _) => { rc := -28 }
  | _ => {}

theorem main_closes_session_refused :
    let out := main refusing [str "AUTOEXEC.BAT", str "host:/tmp/x"] start
    (∀ c ∈ out.2.ssh.calls, c.live = true) ∧ out.1 = .value 1 ∧ out.2.ssh.session = false := by
  obtain ⟨hlive, hclosed⟩ := main_closes_session refusing
    [str "AUTOEXEC.BAT", str "host:/tmp/x"] (w := start) rfl rfl
  have hvalue : (main refusing [str "AUTOEXEC.BAT", str "host:/tmp/x"] start).1 = .value 1 := by
    decide
  have hrequests : (main refusing [str "AUTOEXEC.BAT", str "host:/tmp/x"] start).2.requests =
      [.localOpen (str "AUTOEXEC.BAT") false, .localRead (str "AUTOEXEC.BAT"),
        .getaddrinfo (str "host") 22, .connect, .handshake,
        .userauth (str "testuser") (str "testpass"), .scpSend (str "/tmp/x") 0o644 2,
        .lastError] ++ [.disconnect] := by
    decide
  have hleft := hclosed (by rw [hvalue]; nofun)
  refine ⟨hlive, hvalue, Bool.eq_false_iff.mpr fun h => ?_⟩
  have hrefused := hleft.session.mp h
  rw [hrequests] at hrefused
  exact not_authRefused_of_last _ (by decide) hrefused

end FreedosMicroPython.Scp
