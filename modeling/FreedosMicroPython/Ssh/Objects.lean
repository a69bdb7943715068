import Mathlib.Logic.Function.Basic
import FreedosMicroPython.Lib.Runs
import FreedosMicroPython.Ssh.Channel
/-!
# The objects of the `_ssh` module

`port/modssh_uc386dos.c`: one Session and the SFTP, SFTPFile and SFTPDir objects
created from it, each with a pointer into libssh2 that only its own `close()`
clears. A ghost log records every call of libssh2 with the pointer it was given
and whether that was alive.
-/

namespace FreedosMicroPython.Ssh.Objects

open FreedosMicroPython.Lib.Runs FreedosMicroPython.Ssh.Channel

/-! ## libssh2 -/

inductive Ptr where
  | session
  | channel
  | sftp (p : Nat)
  | handle (h : Nat)
  deriving DecidableEq, Repr

/-- What is allocated, and the SFTP each file or directory handle was opened through. -/
structure Libssh2 where
  session : Bool
  channel : Bool
  sftps : Nat → Bool
  handles : Nat → Bool
  openedBy : Nat → Nat
  nextSftp : Nat
  nextHandle : Nat

namespace Libssh2

variable (l : Libssh2)

def live : Ptr → Bool
  | .session => l.session
  | .channel => l.channel
  | .sftp p => l.sftps p
  | .handle h => l.handles h

/-- `libssh2_session_free` frees what was opened through the session. -/
def freeSession : Libssh2 :=
  { l with session := false, channel := false, sftps := fun _ => false, handles := fun _ => false }

/-- `libssh2_sftp_shutdown` frees the handles opened through the SFTP. -/
def freeSftp (p : Nat) : Libssh2 :=
  { l with
    sftps := Function.update l.sftps p false
    handles := fun h => l.handles h && l.openedBy h != p }

def freeHandle (h : Nat) : Libssh2 := { l with handles := Function.update l.handles h false }

def newSftp : Libssh2 :=
  { l with sftps := Function.update l.sftps l.nextSftp true, nextSftp := l.nextSftp + 1 }

/-- What is opened through a freed SFTP is not alive. -/
def newHandle (p : Nat) : Libssh2 :=
  { l with
    handles := Function.update l.handles l.nextHandle (l.sftps p)
    openedBy := Function.update l.openedBy l.nextHandle p
    nextHandle := l.nextHandle + 1 }

end Libssh2

/-! ## The objects -/

/-- `mp_obj_ssh_sftp_file_t` and `mp_obj_ssh_sftp_dir_t`; `sftp` is the SFTP object. -/
structure HandleObj where
  handle : Option Nat
  sftp : Nat
  deriving DecidableEq, Repr

inductive Kind where
  | file
  | dir
  deriving DecidableEq, Repr

/-- One call of libssh2 with the pointer it was given. -/
structure Call where
  fn : Fn
  ptr : Option Ptr
  live : Bool
  deriving DecidableEq, Repr

/-- Objects that have not been created yet look closed. -/
structure State where
  lib : Libssh2
  /-- The Session object's pointer is not NULL. -/
  session : Bool
  sftps : Nat → Option Nat
  handles : Kind → Nat → HandleObj
  nextSftp : Nat
  nextHandle : Kind → Nat
  calls : List Call

namespace State

variable (s : State)

def sessionPtr : Option Ptr := if s.session then some .session else none

def call (fn : Fn) (ptr : Option Ptr) : State :=
  { s with calls := s.calls ++ [⟨fn, ptr, ptr.any s.lib.live⟩] }

def callAll (fns : List Fn) (ptr : Option Ptr) : State :=
  { s with calls := s.calls ++ fns.map fun fn => ⟨fn, ptr, ptr.any s.lib.live⟩ }

def withLib (lib : Libssh2) : State := { s with lib := lib }

def openChannel : State := s.withLib { s.lib with channel := true }

def freeChannel : State :=
  (s.call .channelFree (some .channel)).withLib { s.lib with channel := false }

end State

variable (s : State)

/-- `_ssh_raise_session_error` with the pointer the Session object has now. -/
def sshRaiseSessionError {α : Type} (err : LibError) (fallback : String) : Outcome α × State :=
  (.raised err fallback, s.call .sessionLastError s.sessionPtr)

/-! ## Session methods -/

/-- A method that makes one call on the session. -/
def sessionCall (fn : Fn) (fallback : String) (r : Int) : Outcome Unit × State :=
  if s.session then
    let s := s.call fn s.sessionPtr
    if r ≠ 0 then sshRaiseSessionError s (.other r) fallback else (.returned (), s)
  else (.badf, s)

def sshSessionUserauthPassword (r : Int) : Outcome Unit × State :=
  sessionCall s .userauthPasswordEx "userauth_password" r

def sshSessionUserauthPublickey (r : Int) : Outcome Unit × State :=
  sessionCall s .userauthPublickeyFrommemory "userauth_publickey" r

/-- The end of a method whose loop on its channel is over: an error frees the channel
and raises, else the calls `closing` come first. -/
def finish {α : Type} (closing : List Fn) (out : Outcome α × List Fn) : Outcome α × State :=
  let s := s.callAll out.2 (some .channel)
  match out.1 with
  | .raised e fallback => sshRaiseSessionError s.freeChannel e fallback
  | .running => (.running, s)
  | out => (out, (s.callAll closing (some .channel)).freeChannel)

def sshSessionExec (opened : Bool) (r : Int) (reads : List Read) :
    Outcome (List UInt8) × State :=
  if s.session then
    let s := s.call .channelOpenSession s.sessionPtr
    if opened then
      let s := s.openChannel.call .channelExec (some .channel)
      if r ≠ 0 then sshRaiseSessionError s.freeChannel (.other r) "channel_exec"
      else finish s [.channelClose] (execLoop [] reads)
    else sshRaiseSessionError s (.other (-1)) "channel_open_session"
  else (.badf, s)

def sshSessionSftp (opened : Bool) : Outcome Nat × State :=
  if s.session then
    let s := s.call .sftpInit s.sessionPtr
    if opened then
      (.returned s.nextSftp,
        { s with
          lib := s.lib.newSftp
          sftps := Function.update s.sftps s.nextSftp (some s.lib.nextSftp)
          nextSftp := s.nextSftp + 1 })
    else sshRaiseSessionError s (.other (-1)) "sftp_init"
  else (.badf, s)

def sshSessionScpRecv (opened : Bool) (reads : List Read) : Outcome (List UInt8) × State :=
  if s.session then
    let s := s.call .scpRecv2 s.sessionPtr
    if opened then
      finish s.openChannel [.channelClose] (scpReceived reads, (scpRecvLoop [] 0 reads).2)
    else sshRaiseSessionError s (.other (-1)) "scp_recv2"
  else (.badf, s)

def sshSessionScpSend (opened : Bool) (len : Nat) (writes : List WriteResult) :
    Outcome Nat × State :=
  if s.session then
    let s := s.call .scpSendEx s.sessionPtr
    if opened then finish s.openChannel [.channelSendEof, .channelClose] (scpSent len writes)
    else sshRaiseSessionError s (.other (-1)) "scp_send_ex"
  else (.badf, s)

def sshSessionClose : State :=
  if s.session then
    let s := s.call .sessionDisconnect s.sessionPtr
    let s := s.call .sessionFree s.sessionPtr
    { s with lib := s.lib.freeSession, session := false }
  else s

/-! ## SFTP methods -/

/-- Report an error through the Session object of an SFTP object. -/
def sshSftpMethod (fn : Fn) (fallback : String) (fails : Int → Bool) (i : Nat) (rc : Int) :
    Outcome Int × State :=
  match s.sftps i with
  | none => (.badf, s)
  | some p =>
      let s := s.call fn (some (.sftp p))
      if fails rc then sshRaiseSessionError s (.other rc) fallback else (.returned rc, s)

def sshSftpMkdir (i : Nat) (rc : Int) : Outcome Int × State :=
  sshSftpMethod s .sftpMkdir "sftp_mkdir" (· ≠ 0) i rc

def sshSftpRmdir (i : Nat) (rc : Int) : Outcome Int × State :=
  sshSftpMethod s .sftpRmdir "sftp_rmdir" (· ≠ 0) i rc

def sshSftpUnlink (i : Nat) (rc : Int) : Outcome Int × State :=
  sshSftpMethod s .sftpUnlink "sftp_unlink" (· ≠ 0) i rc

def sshSftpRename (i : Nat) (rc : Int) : Outcome Int × State :=
  sshSftpMethod s .sftpRename "sftp_rename" (· ≠ 0) i rc

def sshSftpStat (i : Nat) (rc : Int) : Outcome Int × State :=
  sshSftpMethod s .sftpStat "sftp_stat" (· ≠ 0) i rc

/-- `libssh2_sftp_realpath` returns a length, so only a negative result is an error. -/
def sshSftpRealpath (i : Nat) (rc : Int) : Outcome Int × State :=
  sshSftpMethod s .sftpRealpath "sftp_realpath" (· < 0) i rc

/-- Create a file or directory object for a handle opened through SFTP object `i`. -/
def sshSftpNewHandle (kind : Kind) (fn : Fn) (fallback : String) (i : Nat) (opened : Bool) :
    Outcome Nat × State :=
  match s.sftps i with
  | none => (.badf, s)
  | some p =>
      let s := s.call fn (some (.sftp p))
      if opened then
        (.returned (s.nextHandle kind),
          { s with
            lib := s.lib.newHandle p
            handles := Function.update s.handles kind
              (Function.update (s.handles kind) (s.nextHandle kind) ⟨some s.lib.nextHandle, i⟩)
            nextHandle := Function.update s.nextHandle kind (s.nextHandle kind + 1) })
      else sshRaiseSessionError s (.other (-1)) fallback

def sshSftpOpen (i : Nat) (opened : Bool) : Outcome Nat × State :=
  sshSftpNewHandle s .file .sftpOpen "sftp_open" i opened

def sshSftpOpendir (i : Nat) (opened : Bool) : Outcome Nat × State :=
  sshSftpNewHandle s .dir .sftpOpendir "sftp_opendir" i opened

def sshSftpClose (i : Nat) : State :=
  match s.sftps i with
  | none => s
  | some p =>
      let s := s.call .sftpShutdown (some (.sftp p))
      { s with lib := s.lib.freeSftp p, sftps := Function.update s.sftps i none }

/-! ## Methods of files and directories -/

def sshSftpHandleClose (kind : Kind) (fn : Fn) (i : Nat) : State :=
  match (s.handles kind i).handle with
  | none => s
  | some h =>
      let s := s.call fn (some (.handle h))
      { s with
        lib := s.lib.freeHandle h
        handles := Function.update s.handles kind
          (Function.update (s.handles kind) i { s.handles kind i with handle := none }) }

def sshSftpFileClose (i : Nat) : State := sshSftpHandleClose s .file .sftpCloseHandle i

def sshSftpDirClose (i : Nat) : State := sshSftpHandleClose s .dir .sftpClosedir i

/-- The loop of `ssh_sftp_file_read`: the results of its calls of `libssh2_sftp_read`
that it uses. `maxLen` is negative when no size was given. -/
def sftpReadLoop (maxLen : Int) : List Int → Outcome Unit × List Fn
  | [] => (.running, [.sftpRead])
  | n :: ns =>
      if 0 < n then
        if 0 < maxLen then
          if maxLen - n = 0 then (.returned (), [.sftpRead])
          else before [.sftpRead] (sftpReadLoop (maxLen - n) ns)
        else before [.sftpRead] (sftpReadLoop maxLen ns)
      else if n = 0 then (.returned (), [.sftpRead])
      else (.raised (.other n) "sftp_read", [.sftpRead])

def sftpWriteLoop : Nat → List Int → Outcome Nat × List Fn
  | 0, _ => (.returned 0, [])
  | _ + 1, [] => (.running, [.sftpWrite])
  | remaining + 1, n :: ns =>
      if n < 0 then (.raised (.other n) "sftp_write", [.sftpWrite])
      else if n = 0 then (.returned (remaining + 1), [.sftpWrite])
      else before [.sftpWrite] (sftpWriteLoop (remaining + 1 - n.toNat) ns)

def finishHandle {α : Type} (h : Nat) (out : Outcome α × List Fn) : Outcome α × State :=
  let s := s.callAll out.2 (some (.handle h))
  match out.1 with
  | .raised e fallback => sshRaiseSessionError s e fallback
  | out => (out, s)

def sshSftpFileRead (i : Nat) (maxLen : Int) (ns : List Int) : Outcome Unit × State :=
  match (s.handles .file i).handle with
  | none => (.badf, s)
  | some h => finishHandle s h (sftpReadLoop maxLen ns)

def sshSftpFileWrite (i : Nat) (len : Nat) (ns : List Int) : Outcome Nat × State :=
  match (s.handles .file i).handle with
  | none => (.badf, s)
  | some h =>
      let (out, s) := finishHandle s h (sftpWriteLoop len ns)
      (out.map (len - ·), s)

def sshSftpDirRead (i : Nat) (rc : Int) : Outcome Int × State :=
  match (s.handles .dir i).handle with
  | none => (.badf, s)
  | some h =>
      let s := s.call .sftpReaddir (some (.handle h))
      if rc < 0 then sshRaiseSessionError s (.other rc) "sftp_readdir" else (.returned rc, s)

/-! ## Runs -/

/-- One method call from Python, with what libssh2 answers during it. -/
inductive Op where
  | userauthPassword (r : Int)
  | userauthPublickey (r : Int)
  | exec (opened : Bool) (r : Int) (reads : List Read)
  | sftp (opened : Bool)
  | scpRecv (opened : Bool) (reads : List Read)
  | scpSend (opened : Bool) (len : Nat) (writes : List WriteResult)
  | close
  | sftpMkdir (i : Nat) (rc : Int)
  | sftpRmdir (i : Nat) (rc : Int)
  | sftpUnlink (i : Nat) (rc : Int)
  | sftpRename (i : Nat) (rc : Int)
  | sftpStat (i : Nat) (rc : Int)
  | sftpRealpath (i : Nat) (rc : Int)
  | sftpOpen (i : Nat) (opened : Bool)
  | sftpOpendir (i : Nat) (opened : Bool)
  | sftpClose (i : Nat)
  | fileRead (i : Nat) (maxLen : Int) (ns : List Int)
  | fileWrite (i : Nat) (len : Nat) (ns : List Int)
  | fileClose (i : Nat)
  | dirRead (i : Nat) (rc : Int)
  | dirClose (i : Nat)
  deriving DecidableEq

def step (s : State) : Op → State
  | .userauthPassword r => (sshSessionUserauthPassword s r).2
  | .userauthPublickey r => (sshSessionUserauthPublickey s r).2
  | .exec opened r reads => (sshSessionExec s opened r reads).2
  | .sftp opened => (sshSessionSftp s opened).2
  | .scpRecv opened reads => (sshSessionScpRecv s opened reads).2
  | .scpSend opened len writes => (sshSessionScpSend s opened len writes).2
  | .close => sshSessionClose s
  | .sftpMkdir i rc => (sshSftpMkdir s i rc).2
  | .sftpRmdir i rc => (sshSftpRmdir s i rc).2
  | .sftpUnlink i rc => (sshSftpUnlink s i rc).2
  | .sftpRename i rc => (sshSftpRename s i rc).2
  | .sftpStat i rc => (sshSftpStat s i rc).2
  | .sftpRealpath i rc => (sshSftpRealpath s i rc).2
  | .sftpOpen i opened => (sshSftpOpen s i opened).2
  | .sftpOpendir i opened => (sshSftpOpendir s i opened).2
  | .sftpClose i => sshSftpClose s i
  | .fileRead i maxLen ns => (sshSftpFileRead s i maxLen ns).2
  | .fileWrite i len ns => (sshSftpFileWrite s i len ns).2
  | .fileClose i => sshSftpFileClose s i
  | .dirRead i rc => (sshSftpDirRead s i rc).2
  | .dirClose i => sshSftpDirClose s i

def created : State where
  lib := ⟨true, false, fun _ => false, fun _ => false, fun _ => 0, 0, 0⟩
  session := true
  sftps _ := none
  handles _ _ := ⟨none, 0⟩
  nextSftp := 0
  nextHandle _ := 0
  calls := []

end FreedosMicroPython.Ssh.Objects
