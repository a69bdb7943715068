import Mathlib.Tactic.Common
/-!
# Loops over an SSH channel

The loops of `port/modssh_uc386dos.c` that read or write one channel. A schedule
lists what libssh2 answers, one entry for each read or write; at the end of a
schedule the loop is `running`, in a call that has not come back. Next to its
outcome each loop lists the libssh2 functions that it called.
-/

namespace FreedosMicroPython.Ssh.Channel

/-- The libssh2 functions the module calls, without their prefix. -/
inductive Fn where
  | sessionDisconnect
  | sessionFree
  | sessionLastError
  | userauthPasswordEx
  | userauthPublickeyFrommemory
  | channelOpenSession
  | channelExec
  | channelRead
  | channelEof
  | channelWrite
  | channelSendEof
  | channelClose
  | channelFree
  | scpRecv2
  | scpSendEx
  | sftpInit
  | sftpShutdown
  | sftpOpen
  | sftpOpendir
  | sftpCloseHandle
  | sftpClosedir
  | sftpRead
  | sftpWrite
  | sftpReaddir
  | sftpMkdir
  | sftpRmdir
  | sftpUnlink
  | sftpRename
  | sftpStat
  | sftpRealpath
  deriving DecidableEq, Repr

/-- The `LIBSSH2_ERROR_` codes the module tells apart. -/
inductive LibError where
  | eagain
  | socketRecv
  | socketDisconnect
  | other (code : Int)
  deriving DecidableEq, Repr

/-- What fits the buffer of one read. -/
structure Chunk where
  bytes : List UInt8
  nonempty : bytes ≠ []
  fits : bytes.length ≤ 256
  deriving DecidableEq

inductive ReadResult where
  | data (chunk : Chunk)
  | zero
  | fail (e : LibError)
  deriving DecidableEq

/-- One answer of `libssh2_channel_read`, and what `libssh2_channel_eof` says then. -/
structure Read where
  result : ReadResult
  eof : Bool
  deriving DecidableEq

def Read.bytes (r : Read) : List UInt8 :=
  match r.result with
  | .data chunk => chunk.bytes
  | _ => []

/-- How a call of the module ends, if it does: with a value, with `OSError(EBADF)`,
or with the error of libssh2 and the text used when libssh2 has none. -/
inductive Outcome (α : Type) where
  | returned (value : α)
  | badf
  | raised (e : LibError) (fallback : String)
  | running
  deriving DecidableEq, Repr

def before {α : Type} (fns : List Fn) (rest : Outcome α × List Fn) : Outcome α × List Fn :=
  (rest.1, fns ++ rest.2)

@[simp] theorem before_fst {α : Type} (fns : List Fn) (rest : Outcome α × List Fn) :
    (before fns rest).1 = rest.1 := rfl

/-! ## Reading -/

/-- The loop of `ssh_session_exec` with `vstr` captured so far. -/
def execLoop (vstr : List UInt8) : List Read → Outcome (List UInt8) × List Fn
  | [] => (.running, [.channelRead])
  | r :: rs =>
      match r.result with
      | .data chunk => before [.channelRead] (execLoop (vstr ++ chunk.bytes) rs)
      | .zero =>
          if r.eof then (.returned vstr, [.channelRead, .channelEof])
          else before [.channelRead, .channelEof] (execLoop vstr rs)
      | .fail e =>
          if vstr ≠ [] then (.returned vstr, [.channelRead])
          else if r.eof ∨ e = .socketRecv ∨ e = .socketDisconnect then
            (.returned vstr, [.channelRead, .channelEof])
          else (.raised e "channel_read", [.channelRead, .channelEof])

/-- The loop of `ssh_session_scp_recv` with `vstr` received so far. -/
def scpRecvLoop (vstr : List UInt8) (emptyPolls : Nat) :
    List Read → Outcome (List UInt8) × List Fn
  | [] => (.running, [.channelRead])
  | r :: rs =>
      match r.result with
      | .data chunk =>
          if r.eof then (.returned (vstr ++ chunk.bytes), [.channelRead, .channelEof])
          else before [.channelRead, .channelEof] (scpRecvLoop (vstr ++ chunk.bytes) 0 rs)
      | .zero => (.returned vstr, [.channelRead])
      | .fail .eagain =>
          if vstr = [] then before [.channelRead] (scpRecvLoop vstr emptyPolls rs)
          else if 20 < emptyPolls + 1 then (.returned vstr, [.channelRead])
          else before [.channelRead] (scpRecvLoop vstr (emptyPolls + 1) rs)
      | .fail .socketRecv => (.returned vstr, [.channelRead])
      | .fail .socketDisconnect => (.returned vstr, [.channelRead])
      | .fail (.other code) => (.raised (.other code) "scp_channel_read", [.channelRead])

/-- Drop the terminator that the server appends to the file, if it is there. -/
def stripTerminator (vstr : List UInt8) : List UInt8 :=
  if vstr.getLast? = some 0 then vstr.dropLast else vstr

def Outcome.map {α β : Type} (f : α → β) : Outcome α → Outcome β
  | .returned value => .returned (f value)
  | .badf => .badf
  | .raised e fallback => .raised e fallback
  | .running => .running

/-- What `ssh_session_scp_recv` makes of the answers to its reads. -/
def scpReceived (reads : List Read) : Outcome (List UInt8) :=
  (scpRecvLoop [] 0 reads).1.map stripTerminator

/-! ## Writing -/

abbrev WriteResult := Except LibError Nat

/-- The data loop of `ssh_session_scp_send` with `remaining` bytes to go. -/
def scpSendLoop : Nat → List WriteResult → Outcome Unit × List WriteResult × List Fn
  | 0, rs => (.returned (), rs, [])
  | _ + 1, [] => (.running, [], [.channelWrite])
  | remaining + 1, r :: rs =>
      match r with
      | .error .eagain =>
          let (out, rs, fns) := scpSendLoop (remaining + 1) rs
          (out, rs, .channelWrite :: fns)
      | .error e => (.raised e "scp_channel_write", rs, [.channelWrite])
      | .ok n =>
          let (out, rs, fns) := scpSendLoop (remaining + 1 - n) rs
          (out, rs, .channelWrite :: fns)

def scpSendNul : List WriteResult → Outcome Unit × List Fn
  | [] => (.running, [.channelWrite])
  | .ok _ :: _ => (.returned (), [.channelWrite])
  | .error .eagain :: rs =>
      let (out, fns) := scpSendNul rs
      (out, .channelWrite :: fns)
  | .error _ :: _ => (.returned (), [.channelWrite])

/-- What `ssh_session_scp_send` writes to its channel: the data, then the terminator. -/
def scpSent (len : Nat) (writes : List WriteResult) : Outcome Nat × List Fn :=
  match scpSendLoop len writes with
  | (.returned (), rest, fns) =>
      let (out, fns') := scpSendNul rest
      (out.map fun _ => len, fns ++ fns')
  | (.badf, _, fns) => (.badf, fns)
  | (.raised e fallback, _, fns) => (.raised e fallback, fns)
  | (.running, _, fns) => (.running, fns)

end FreedosMicroPython.Ssh.Channel
