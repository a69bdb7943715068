import FreedosMicroPython.Lib.Action
import FreedosMicroPython.Ssh.SftpFile
import FreedosMicroPython.Wget.Url
/-!
# What a client program uses

The Python side of `port/modssh_uc386dos.c` for the programs under `examples/`: methods of
Session, SFTP, SFTPFile and SFTPDir objects as actions that may raise `OSError`, sockets,
local files and `print`. The server, the network and DOS are one peer: its answer to a
request may depend on all requests before it.
-/

namespace FreedosMicroPython.Ssh.Client

open FreedosMicroPython.Lib.Action FreedosMicroPython.OsPath FreedosMicroPython.Wget
open FreedosMicroPython.Ssh.Channel FreedosMicroPython.Ssh.Objects

abbrev Str := List UInt8

/-- The exceptions the programs can meet; `text` is what `str(e)` gives. -/
inductive Exc where
  | osError (text : Str)
  | valueError
  | typeError
  | attributeError
  | nameError
  | memoryError
  | overflowError
  | recursionError
  deriving DecidableEq

/-! ## The peer -/

/-- `LIBSSH2_SFTP_ATTRIBUTES`; a field whose flag is not set is `none`. -/
structure LibAttrs where
  permissions : Option Nat := none
  filesize : Option Nat := none
  actime : Option (Nat × Nat) := none
  uidgid : Option (Nat × Nat) := none
  deriving DecidableEq

structure DirEntry where
  rc : Int
  name : Str
  attrs : LibAttrs
  deriving DecidableEq

inductive Request where
  | getaddrinfo (host : Str) (port : Int)
  | connect
  | handshake
  | userauth (user password : Str)
  | sftpInit
  | realpath (path : Str)
  | mkdir (path : Str) (mode : Int)
  | rmdir (path : Str)
  | unlink (path : Str)
  | rename (old new : Str)
  | stat (path : Str)
  | open_ (path : Str) (write : Bool)
  | opendir (path : Str)
  | read
  | write
  | readdir
  | closeHandle
  | closedir
  | shutdown
  | disconnect
  | scpRecv (path : Str)
  | scpSend (path : Str) (mode : Nat) (size : Nat)
  | lastError
  | localOpen (path : Str) (write : Bool)
  | localRead (path : Str)
  | localWrite (path : Str) (size : Nat)
  deriving DecidableEq

/-- `rc` is the result of a C function, `text` what it stored or the text of an error. An
open brings what the calls on its handle will return. -/
structure Answer where
  hangs : Bool := false
  rc : Int := 0
  text : Str := []
  attrs : LibAttrs := {}
  entries : List DirEntry := []
  remote : SftpFile.Remote := ⟨[], 0, [], [], []⟩
  reads : List Read := []
  writes : List WriteResult := []
  count : Nat := 0

/-- An answer for every request, after the ones before it. -/
abbrev Peer := List Request → Answer

/-! ## The state of a program -/

/-- The objects of the `_ssh` module with what their handles return, the local files, the
requests so far, the two output streams and the variables of the program. -/
structure World (V : Type) where
  ssh : Objects.State
  remotes : Nat → SftpFile.Remote
  dirs : Nat → List DirEntry
  files : Str → Option Str
  requests : List Request
  out : Str
  err : Str
  vars : V

abbrev Prog (V α : Type) := Act Exc (World V) α

def idle : Objects.State :=
  { created with lib := { created.lib with session := false }, session := false }

variable {V α β : Type} (peer : Peer) (gap : Nat → UInt8)

/-- Ask for something that may hang. -/
def ask (r : Request) : Prog V Answer := fun w =>
  let a := peer (w.requests ++ [r])
  (if a.hangs then .stuck else .value a, { w with requests := w.requests ++ [r] })

/-- Ask for something that may fail as well. -/
def checked (r : Request) : Prog V Answer := do
  let a ← ask peer r
  if a.rc < 0 then raise (.osError a.text) else pure a

/-- `except OSError as e`, with what `str(e)` gives. -/
def onOSError (body : Prog V α) (handler : Str → Prog V α) : Prog V α :=
  tryExcept body fun e =>
    match e with
    | .osError text => some (handler text)
    | _ => none

def write (s : Str) : Prog V Unit := modify fun w => { w with out := w.out ++ s }

def print (s : Str) : Prog V Unit := write (s ++ [0x0A])

def writeErr (s : Str) : Prog V Unit := modify fun w => { w with err := w.err ++ s }

/-! ## Methods of the `_ssh` module -/

def ebadf : Exc := .osError (str "[Errno 9] EBADF")

/-- `_ssh_raise_session_error` asks libssh2 for the text. -/
def raiseSessionError : Prog V α := fun w =>
  (.raised (.osError (peer (w.requests ++ [.lastError])).text),
    { w with requests := w.requests ++ [.lastError] })

def endWith (out : Outcome α) (v : α → β) : Prog V β :=
  match out with
  | .returned x => pure (v x)
  | .badf => raise ebadf
  | .raised _ _ => raiseSessionError peer
  | .running => fun w => (.stuck, w)

/-- A method of an object that is open: its request and its calls of libssh2, which have been
made also when one of them hangs. -/
def method (isOpen : Objects.State → Bool) (r : Request)
    (m : Answer → World V → Outcome α × World V) (v : Answer → α → β) : Prog V β := fun w =>
  if isOpen w.ssh then
    let a := peer (w.requests ++ [r])
    let (out, w) := m a { w with requests := w.requests ++ [r] }
    if a.hangs then (.stuck, w) else endWith peer out (v a) w
  else (.raised ebadf, w)

def World.asked (w : World V) (r : Request) : World V :=
  { w with requests := w.requests ++ [r] }

theorem triple_method {isOpen : Objects.State → Bool} {r : Request}
    {m : Answer → World V → Outcome α × World V} {v : Answer → α → β} {P : World V → Prop}
    {Q : End Exc β → World V → Prop} (hclosed : ∀ w, P w → Q (.raised ebadf) w)
    (hstuck : ∀ w, P w → Q .stuck (m (peer (w.requests ++ [r])) (w.asked r)).2)
    (hvalue : ∀ w x, P w → (m (peer (w.requests ++ [r])) (w.asked r)).1 = .returned x →
      Q (.value (v (peer (w.requests ++ [r])) x)) (m (peer (w.requests ++ [r])) (w.asked r)).2)
    (hraise : ∀ w, P w → (∀ x, (m (peer (w.requests ++ [r])) (w.asked r)).1 ≠ .returned x) →
      Q (.raised ebadf) (m (peer (w.requests ++ [r])) (w.asked r)).2 ∧
        ∀ text, Q (.raised (.osError text))
          ((m (peer (w.requests ++ [r])) (w.asked r)).2.asked .lastError)) :
    Triple P (method peer isOpen r m v) Q := by
  intro w hw
  have hstuck := hstuck w hw
  have hvalue := fun x => hvalue w x hw
  have hraise := hraise w hw
  unfold method
  split
  · change ∀ x, (m _ (w.asked r)).1 = _ → _ at hvalue
    rcases hcall : m (peer (w.requests ++ [r])) (w.asked r) with ⟨out, w'⟩
    rw [hcall] at hstuck hvalue hraise
    simp only [World.asked] at hcall
    simp only [hcall]
    split
    · exact hstuck
    · cases out with
      | returned x => exact hvalue x rfl
      | badf => exact (hraise (by simp)).1
      | raised e fallback => exact (hraise (by simp)).2 _
      | running => exact hstuck
  · exact hclosed w hw

/-- A method that only the objects know about. -/
def onSsh (f : Objects.State → Outcome α × Objects.State) (w : World V) : Outcome α × World V :=
  ((f w.ssh).1, { w with ssh := (f w.ssh).2 })

def isSession (s : Objects.State) : Bool := s.session

def isSftp (i : Nat) (s : Objects.State) : Bool := (s.sftps i).isSome

def isHandle (kind : Kind) (i : Nat) (s : Objects.State) : Bool := (s.handles kind i).handle.isSome

/-- The bytes of a `str` that C sees. -/
def cStr (s : Str) : Str := s.takeWhile (· ≠ 0)

def session : Prog V Unit := do
  let a ← ask peer .handshake
  if a.rc ≠ 0 then raiseSessionError peer
  else modify fun w => { w with ssh := { created with calls := w.ssh.calls } }

def userauthPassword (user password : Str) : Prog V Unit :=
  method peer isSession (.userauth user password)
    (fun a => onSsh fun s => sshSessionUserauthPassword s a.rc) fun _ _ => ()

def sessionSftp : Prog V Nat :=
  method peer isSession .sftpInit (fun a => onSsh fun s => sshSessionSftp s (a.rc = 0)) fun _ i => i

def sessionClose : Prog V Unit := do
  if ← reads fun w => isSession w.ssh then
    method peer isSession .disconnect
      (fun _ => onSsh fun s => (.returned (), sshSessionClose s)) fun _ _ => ()
  else pure ()

def sessionScpRecv (path : Str) : Prog V Str :=
  method peer isSession (.scpRecv (cStr path))
    (fun a => onSsh fun s => sshSessionScpRecv s (a.rc = 0) a.reads) fun _ bs => bs

def sessionScpSend (path : Str) (mode : Nat) (data : SftpFile.Buffer) : Prog V Nat :=
  method peer isSession (.scpSend (cStr path) mode data.buf.length)
    (fun a => onSsh fun s => sshSessionScpSend s (a.rc = 0) data.buf.length a.writes) fun _ n => n

def mpInt (n : Nat) : Int := (n : Int).bmod (2 ^ 32)

def isMpInt (n : Int) : Bool := -0x80000000 ≤ n && n < 0x80000000

structure Attrs where
  mode : Int
  size : Nat
  atime : Int
  mtime : Int
  uid : Int
  gid : Int
  deriving DecidableEq, Repr

/-- `_attrs_to_tuple`: what the server did not send reads as 0. -/
def attrsToTuple (a : LibAttrs) : Attrs where
  mode := mpInt (a.permissions.getD 0)
  size := a.filesize.getD 0
  atime := mpInt (a.actime.getD (0, 0)).1
  mtime := mpInt (a.actime.getD (0, 0)).2
  uid := mpInt (a.uidgid.getD (0, 0)).1
  gid := mpInt (a.uidgid.getD (0, 0)).2

def sftpRealpath (i : Nat) (path : Str) : Prog V Str :=
  method peer (isSftp i) (.realpath (cStr path)) (fun a => onSsh fun s => sshSftpRealpath s i a.rc)
    fun a _ => a.text

def sftpMkdir (i : Nat) (path : Str) (mode : Int) : Prog V Unit := do
  if (← reads fun w => isSftp i w.ssh) && !isMpInt mode then raise .overflowError
  else
    method peer (isSftp i) (.mkdir (cStr path) mode)
      (fun a => onSsh fun s => sshSftpMkdir s i a.rc) fun _ _ => ()

def sftpRmdir (i : Nat) (path : Str) : Prog V Unit :=
  method peer (isSftp i) (.rmdir (cStr path)) (fun a => onSsh fun s => sshSftpRmdir s i a.rc)
    fun _ _ => ()

def sftpUnlink (i : Nat) (path : Str) : Prog V Unit :=
  method peer (isSftp i) (.unlink (cStr path)) (fun a => onSsh fun s => sshSftpUnlink s i a.rc)
    fun _ _ => ()

def sftpRename (i : Nat) (old new : Str) : Prog V Unit :=
  method peer (isSftp i) (.rename (cStr old) (cStr new))
    (fun a => onSsh fun s => sshSftpRename s i a.rc) fun _ _ => ()

def sftpStat (i : Nat) (path : Str) : Prog V Attrs :=
  method peer (isSftp i) (.stat (cStr path)) (fun a => onSsh fun s => sshSftpStat s i a.rc)
    fun a _ => attrsToTuple a.attrs

/-- `sftp.open(path, mode)`; a mode that begins with a `w` creates or truncates. -/
def sftpOpen (i : Nat) (path mode : Str) : Prog V Nat :=
  method peer (isSftp i) (.open_ (cStr path) (mode.head? = some 'w'.toUInt8))
    (fun a w =>
      let f := w.ssh.nextHandle .file
      onSsh (fun s => sshSftpOpen s i (a.rc = 0))
        { w with remotes := Function.update w.remotes f a.remote })
    fun _ f => f

def sftpOpendir (i : Nat) (path : Str) : Prog V Nat :=
  method peer (isSftp i) (.opendir (cStr path))
    (fun a w =>
      let d := w.ssh.nextHandle .dir
      onSsh (fun s => sshSftpOpendir s i (a.rc = 0))
        { w with dirs := Function.update w.dirs d a.entries })
    fun _ d => d

def sftpClose (i : Nat) : Prog V Unit := do
  if ← reads fun w => isSftp i w.ssh then
    method peer (isSftp i) .shutdown (fun _ => onSsh fun s => (.returned (), sshSftpClose s i))
      fun _ _ => ()
  else pure ()

def newResults (f f' : SftpFile.Remote) : List Int := f'.results.drop f.results.length

/-- `file.read()`, to the end of the file. -/
def fileRead (f : Nat) : Prog V Str :=
  method peer (isHandle .file f) .read
    (fun _ w =>
      let (out, r) := SftpFile.readLoop [] (-1) (w.remotes f)
      (out, { w with
        ssh := (sshSftpFileRead w.ssh f (-1) (newResults (w.remotes f) r)).2
        remotes := Function.update w.remotes f r }))
    fun _ bs => bs

def fileWrite (f : Nat) (data : SftpFile.Buffer) : Prog V Int :=
  method peer (isHandle .file f) .write
    (fun _ w =>
      let (out, r) := SftpFile.writeLoop gap data.buf (w.remotes f)
      (out.map fun remaining => SftpFile.mpObjNewSmallInt (data.buf.length - remaining), { w with
        ssh := (sshSftpFileWrite w.ssh f data.buf.length (newResults (w.remotes f) r)).2
        remotes := Function.update w.remotes f r }))
    fun _ n => n

def fileClose (f : Nat) : Prog V Unit := do
  if ← reads fun w => isHandle .file f w.ssh then
    method peer (isHandle .file f) .closeHandle
      (fun _ => onSsh fun s => (.returned (), sshSftpFileClose s f)) fun _ _ => ()
  else pure ()

/-- `dir.read()`: the next name with its attributes, `None` at the end. -/
def dirRead (d : Nat) : Prog V (Option (Str × Attrs)) := do
  let entry ← reads fun w => (w.dirs d).head?.getD ⟨0, [], {}⟩
  let rc ← method peer (isHandle .dir d) .readdir
    (fun _ w => onSsh (fun s => sshSftpDirRead s d entry.rc)
      { w with dirs := Function.update w.dirs d (w.dirs d).tail })
    fun _ rc => rc
  if rc = 0 then pure none
  else pure (some (entry.name.take rc.toNat, attrsToTuple entry.attrs))

def dirClose (d : Nat) : Prog V Unit := do
  if ← reads fun w => isHandle .dir d w.ssh then
    method peer (isHandle .dir d) .closedir
      (fun _ => onSsh fun s => (.returned (), sshSftpDirClose s d)) fun _ _ => ()
  else pure ()

/-! ## Local files -/

/-- `with open(path, "rb") as f: data = f.read()`; a file from 1 GB on does not fit the heap. -/
def readLocal (path : Str) : Prog V SftpFile.Buffer := do
  let a ← checked peer (.localOpen path false)
  match ← reads fun w => w.files path with
  | none => raise (.osError a.text)
  | some bytes =>
      let _ ← checked peer (.localRead path)
      if h : bytes.length < 2 ^ 30 then pure ⟨bytes, h⟩ else raise .memoryError

def setLocal (path bytes : Str) : Prog V Unit :=
  modify fun w => { w with files := Function.update w.files path (some bytes) }

/-- `with open(path, "wb") as f: f.write(data)`; DOS takes as much as there is room for. -/
def writeLocal (path data : Str) : Prog V Unit := do
  let _ ← checked peer (.localOpen path true)
  setLocal path []
  let a ← ask peer (.localWrite path data.length)
  setLocal path (data.take a.count)
  if a.rc < 0 then raise (.osError a.text) else pure ()

/-! ## Connecting -/

/-- `_connect` of both programs: an exception after the session is made leaves it open. -/
def connect (host : Str) (port : Int) (user password : Str) : Prog V Unit := do
  if isMpInt port then
    let _ ← checked peer (.getaddrinfo host port)
    let _ ← checked peer .connect
    session peer
    userauthPassword peer user password
  else raise .overflowError

/-! ## The command line -/

structure Opts where
  port : Int := 22
  user : Str := str "testuser"
  password : Str := str "testpass"
  batch : Option Str := none
  positional : List Str := []
  deriving DecidableEq

inductive Parsed where
  | opts (o : Opts)
  | help
  | unknownFlag (a : Str)
  | badPort
  deriving DecidableEq

def plainArg (o : Opts) (a : Str) : Parsed :=
  if a = str "-h" ∨ a = str "--help" then .help
  else if str "-" <+: a then .unknownFlag a
  else .opts { o with positional := o.positional ++ [a] }

/-- The loop over `argv`; only one of the programs knows `-b`. -/
def parseArgs (hasBatch : Bool) (o : Opts) : List Str → Parsed
  | [] => .opts o
  | [a] => plainArg o a
  | a :: v :: rest =>
      if a = str "-P" then
        match pyInt v with
        | some port => parseArgs hasBatch { o with port := port } rest
        | none => .badPort
      else if a = str "-u" then parseArgs hasBatch { o with user := v } rest
      else if a = str "-p" then parseArgs hasBatch { o with password := v } rest
      else if hasBatch ∧ a = str "-b" then parseArgs hasBatch { o with batch := some v } rest
      else
        match plainArg o a with
        | .opts o => parseArgs hasBatch o (v :: rest)
        | done => done

end FreedosMicroPython.Ssh.Client
