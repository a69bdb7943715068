import FreedosMicroPython.Lib.Simulation
import FreedosMicroPython.Dos.Seek
import FreedosMicroPython.Dos.Mode
/-!
# Programs over files

What a program can observe of `file_uc386dos.c` while DOS serves every call: a store of
files and of objects with a file, a position and an access. DOS handles, the bounce
paragraph and its 1024-byte transfers do not show.
-/

namespace FreedosMicroPython.Dos.Program

open FreedosMicroPython.Lib.Simulation FreedosMicroPython.Lib.Splice FreedosMicroPython.Lib.Files
open FreedosMicroPython.Host FreedosMicroPython.Runtime
open FreedosMicroPython.Dos.Int21 FreedosMicroPython.Dos.Disk FreedosMicroPython.Dos.Syscall
open FreedosMicroPython.Dos.File FreedosMicroPython.Dos.Stream FreedosMicroPython.Dos.Seek
open FreedosMicroPython.Dos.Mode

variable {κ : Type} [DecidableEq κ] (gap : Nat → UInt8) (resolve : List UInt8 → κ)

/-! ## Programs -/

/-- One use of the file layer; `i` is the file object that the `i`-th successful `open`
returned. -/
inductive Op where
  | open_ (fname : CString) (modeS : Option (List Char))
  | read (i size : Nat)
  | write (i : Nat) (buf : List UInt8)
  | ioctl (i : Nat) (request : File.Request)
  | importStat (path : CString)
  | lexer (filename : CString)

/-- What the program sees of it. -/
inductive Result where
  | opened (type : FileType)
  | bytes (bs : List UInt8)
  | number (n : Int)
  | found (exists_ : Bool)
  | raised (e : MpErrno)
  | unbound
  deriving DecidableEq

def Result.ofExcept {α : Type} (f : α → Result) : Except MpErrno α → Result
  | .ok x => f x
  | .error e => .raised e

/-- The file objects in the order they were opened, and the machine. -/
structure Session (κ : Type) where
  objs : List FileObj
  machine : Machine (DosState κ)

def step (s : Session κ) : Op → Result × Session κ
  | .open_ fname modeS =>
      match uc386dosBuiltinOpen (dosWorld gap resolve) fname modeS s.machine with
      | (.ok o, m) => (.opened o.type, ⟨s.objs ++ [o], m⟩)
      | (.error e, m) => (.raised e, ⟨s.objs, m⟩)
  | .read i size =>
      match s.objs[i]? with
      | none => (.unbound, s)
      | some o =>
          let (r, m) := uc386dosFileRead (dosWorld gap resolve) o size s.machine
          (.ofExcept .bytes r, ⟨s.objs, m⟩)
  | .write i buf =>
      match s.objs[i]? with
      | none => (.unbound, s)
      | some o =>
          let (r, m) := uc386dosFileWrite (dosWorld gap resolve) o buf s.machine
          (.ofExcept (fun n => .number n) r, ⟨s.objs, m⟩)
  | .ioctl i request =>
      match s.objs[i]? with
      | none => (.unbound, s)
      | some o =>
          let (r, o, m) := uc386dosFileIoctl (dosWorld gap resolve) o request s.machine
          (.ofExcept .number r, ⟨s.objs.set i o, m⟩)
  | .importStat path =>
      let (r, m) := mpImportStat (dosWorld gap resolve) path s.machine
      (.found r, ⟨s.objs, m⟩)
  | .lexer filename =>
      let (r, m) := mpLexerNewFromFile (dosWorld gap resolve) filename s.machine
      (.ofExcept .bytes r, ⟨s.objs, m⟩)

/-! ## The store -/

/-- Files, the objects (`none` once closed), and how often DOS can still open a file. -/
structure Store (κ : Type) where
  files : κ → Option (List UInt8)
  objs : List (Option (Handle κ))
  left : Nat

namespace Store

variable (s : Store κ)

def contents (k : κ) : List UInt8 := (s.files k).getD []

def setFile (k : κ) (bs : List UInt8) : Store κ :=
  { s with files := Function.update s.files k (some bs) }

def setObj (i : Nat) (h : Option (Handle κ)) : Store κ := { s with objs := s.objs.set i h }

def newObj (h : Handle κ) : Store κ :=
  { s with objs := s.objs ++ [some h], left := s.left - 1 }

/-- `"w"`, and `"a"` when there is nothing to append to: an object for both directions. -/
def openNew (k : κ) (type : FileType) : Result × Store κ :=
  if s.left = 0 then (.raised .emfile, s)
  else (.opened type, (s.setFile k []).newObj ⟨k, 0, 2⟩)

def openOld (k : κ) (access : Nat) (type : FileType) : Result × Store κ :=
  if s.files k = none then (.raised .enoent, s)
  else if s.left = 0 then (.raised .emfile, s)
  else (.opened type, s.newObj ⟨k, 0, access⟩)

def openEnd (k : κ) (access : Nat) (type : FileType) : Result × Store κ :=
  if s.files k = none ∨ s.left = 0 then s.openNew k type
  else (.opened type, s.newObj ⟨k, toU32 (s.contents k).length, access⟩)

def open_ (fname : CString) (mode : File.Mode) : Result × Store κ :=
  if 1024 ≤ fname.bytes.length then (.raised .eio, s)
  else
    match request mode with
    | .creat => s.openNew (resolve fname.bytes) mode.type
    | .append access => s.openEnd (resolve fname.bytes) access mode.type
    | .open_ access => s.openOld (resolve fname.bytes) access mode.type

def read (i : Nat) (h : Handle κ) (size : Nat) : Result × Store κ :=
  if size = 0 then (.bytes [], s)
  else if h.access = 1 then (.raised .eio, s)
  else
    let bs := ((s.contents h.file).drop h.pos).take size
    (.bytes bs, s.setObj i (some { h with pos := h.pos + bs.length }))

def write (i : Nat) (h : Handle κ) (buf : List UInt8) : Result × Store κ :=
  if buf = [] then (.number 0, s)
  else if h.access = 0 then (.raised .eio, s)
  else
    (.number buf.length,
      (s.setFile h.file (overwrite gap (s.contents h.file) h.pos buf)).setObj i
        (some { h with pos := h.pos + buf.length }))

/-- A position from `2 ^ 31` on is reached, and reported as an error. -/
def seek (i : Nat) (h : Handle κ) (offset : Int) (whence : Nat) : Result × Store κ :=
  let base :=
    if whence % 256 = 0 then 0 else if whence % 256 = 1 then h.pos else (s.contents h.file).length
  let pos := toU32 (base + offset)
  if 2 < whence % 256 then (.raised .eio, s)
  else
    (if pos < 0x80000000 then .number pos else .raised .eio,
      s.setObj i (some { h with pos := pos }))

def ioctl (i : Nat) (h : Option (Handle κ)) : File.Request → Result × Store κ
  | .seek offset whence =>
      match h with
      | none => (.raised .ebadf, s)
      | some h => s.seek i h offset whence
  | .flush => (.number 0, s)
  | .close => (.number 0, s.setObj i none)
  | .other => (.raised .einval, s)

/-- A path under which there is a file that DOS can open. -/
def reachable (path : CString) : Bool :=
  path.bytes.length < 1024 && (s.files (resolve path.bytes)).isSome && s.left ≠ 0

/-- Opening a file for a moment uses up one of the opens that are left. -/
def used : Store κ := { s with left := s.left - 1 }

def importStat (path : CString) : Result × Store κ :=
  if s.reachable resolve path then (.found true, s.used) else (.found false, s)

def lexer (filename : CString) : Result × Store κ :=
  if s.reachable resolve filename then
    let bs := s.contents (resolve filename.bytes)
    (if toU32 bs.length < 0x80000000 then .bytes (bs.take (toU32 bs.length)) else .raised .eio,
      s.used)
  else (.raised .enoent, s)

def step : Op → Result × Store κ
  | .open_ fname modeS => s.open_ resolve fname (parseMode (modeS.getD ['r']))
  | .read i size =>
      match s.objs[i]? with
      | none => (.unbound, s)
      | some none => (.raised .ebadf, s)
      | some (some h) => s.read i h size
  | .write i buf =>
      match s.objs[i]? with
      | none => (.unbound, s)
      | some none => (.raised .ebadf, s)
      | some (some h) => s.write gap i h buf
  | .ioctl i request =>
      match s.objs[i]? with
      | none => (.unbound, s)
      | some h => s.ioctl i h request
  | .importStat path => s.importStat resolve path
  | .lexer filename => s.lexer resolve filename

end Store

def emptyDisk : Lib.Files.Disk Unit UInt8 where
  files _ := none
  handles _ := none
  next := 5

def twoObjects : List Op :=
  let a : CString := ⟨[0x41], by simp⟩
  [.open_ a (some ['w']), .write 0 [1, 2, 3], .open_ a (some ['r']), .read 1 2, .write 0 [4],
    .read 1 9, .ioctl 0 (.seek 1 0), .read 0 1, .ioctl 1 .close, .read 1 1, .lexer a]

end FreedosMicroPython.Dos.Program
