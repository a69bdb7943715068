import FreedosMicroPython.Dos.Int21
import FreedosMicroPython.Runtime
/-!
# File objects

`port/file_uc386dos.c`: the stream methods of a file object, `open()`, the import
hooks. No packet arrives during these calls.
-/

namespace FreedosMicroPython.Dos.File

open FreedosMicroPython.Host FreedosMicroPython.Dos.Int21 FreedosMicroPython.Runtime

variable {σ : Type} (d : World σ)

inductive FileType where
  | textio
  | fileio
  deriving DecidableEq, Repr

structure FileObj where
  type : FileType
  fd : Int
  deriving DecidableEq, Repr

/-! ## Stream methods -/

def fileReadLoop (fd : Int) (size : Nat) (got : List UInt8) (m : Machine σ) :
    Except MpErrno (List UInt8) × Machine σ :=
  if _h : got.length < size then
    match dosInt21Read d quietCall fd (size - got.length) m with
    | (.error _, m) => (.error .eio, m)
    | (.ok [], m) => (.ok got, m)
    | (.ok (b :: bs), m) => fileReadLoop fd size (got ++ b :: bs) m
  else (.ok got, m)
termination_by size - got.length
decreasing_by
  simp only [List.length_append, List.length_cons]
  omega

def uc386dosFileRead (o : FileObj) (size : Nat) (m : Machine σ) :
    Except MpErrno (List UInt8) × Machine σ :=
  if o.fd < 0 then (.error .ebadf, m) else fileReadLoop d o.fd size [] m

def fileWriteLoop (fd : Int) (buf : List UInt8) (total : Nat) (m : Machine σ) :
    Except MpErrno Nat × Machine σ :=
  if _h : total < buf.length then
    match dosInt21Write d quietCall fd (buf.drop total) m with
    | (.error _, m) => (.error .eio, m)
    | (.ok 0, m) => (.ok total, m)
    | (.ok (n + 1), m) => fileWriteLoop fd buf (total + (n + 1)) m
  else (.ok total, m)
termination_by buf.length - total

def uc386dosFileWrite (o : FileObj) (buf : List UInt8) (m : Machine σ) :
    Except MpErrno Nat × Machine σ :=
  if o.fd < 0 then (.error .ebadf, m) else fileWriteLoop d o.fd buf 0 m

inductive Request where
  | seek (offset : Int) (whence : Nat)
  | flush
  | close
  | other
  deriving DecidableEq, Repr

/-- A seek leaves the new position in its request; it is the result here. -/
def uc386dosFileIoctl (o : FileObj) (request : Request) (m : Machine σ) :
    Except MpErrno Int × FileObj × Machine σ :=
  match request with
  | .seek offset whence =>
      if o.fd < 0 then (.error .ebadf, o, m)
      else
        match dosInt21Lseek d quietCall o.fd offset whence m with
        | (.error _, m) => (.error .eio, o, m)
        | (.ok pos, m) => if pos < 0 then (.error .eio, o, m) else (.ok pos, o, m)
  | .flush => (.ok 0, o, m)
  | .close =>
      if 0 ≤ o.fd then
        let (_, m) := dosInt21Close d quietCall o.fd m
        (.ok 0, { o with fd := -1 }, m)
      else (.ok 0, o, m)
  | .other => (.error .einval, o, m)

/-! ## `open` -/

structure Mode where
  dosMode : Nat := 0
  wantCreate : Bool := false
  wantTrunc : Bool := false
  type : FileType := .textio
  deriving DecidableEq, Repr

def Mode.char (mode : Mode) (c : Char) : Mode :=
  match c with
  | 'r' => { mode with dosMode := 0 }
  | 'w' => { mode with dosMode := 1, wantCreate := true, wantTrunc := true }
  | 'a' => { mode with dosMode := 1, wantCreate := true }
  | '+' => { mode with dosMode := 2 }
  | 'b' => { mode with type := .fileio }
  | 't' => { mode with type := .textio }
  | _ => mode

/-- `s` is the C string of the mode object: its characters in front of the first NUL. -/
def parseMode (s : List Char) : Mode := s.foldl Mode.char {}

/-- The last calls of the append branch: start at the end of the file. -/
def seekEnd (fd : Nat) (m : Machine σ) : Machine σ := (dosInt21Lseek d quietCall fd 0 2 m).2

def openAppend (fname : CString) (dosMode : Nat) (m : Machine σ) : Except Nat Nat × Machine σ :=
  match dosInt21Open d quietCall fname dosMode m with
  | (.ok fd, m) => (.ok fd, seekEnd d fd m)
  | (.error _, m) =>
      match dosInt21Creat d quietCall fname m with
      | (.ok fd, m) => (.ok fd, seekEnd d fd m)
      | (.error err, m) => (.error err, m)

def openErrno (err : Nat) : MpErrno :=
  match err with
  | 0 => .eio
  | 4 => .emfile
  | 5 => .eacces
  | _ => .enoent

/-- `open(fname, mode)`; the mode is `"r"` when there is no second argument. -/
def uc386dosBuiltinOpen (fname : CString) (modeS : Option (List Char)) (m : Machine σ) :
    Except MpErrno FileObj × Machine σ :=
  let mode := parseMode (modeS.getD ['r'])
  let (fd, m) :=
    if mode.wantTrunc then dosInt21Creat d quietCall fname m
    else if mode.wantCreate then openAppend d fname mode.dosMode m
    else dosInt21Open d quietCall fname mode.dosMode m
  match fd with
  | .error err => (.error (openErrno err), m)
  | .ok fd => (.ok ⟨mode.type, fd⟩, m)

/-! ## The import hooks -/

/-- The read loop of `mp_lexer_new_from_file`: an error ends it like the end of
the file. -/
def lexerReadLoop (fd : Int) (size : Nat) (buf : List UInt8) (m : Machine σ) :
    List UInt8 × Machine σ :=
  if _h : buf.length < size then
    match dosInt21Read d quietCall fd (size - buf.length) m with
    | (.error _, m) => (buf, m)
    | (.ok [], m) => (buf, m)
    | (.ok (b :: bs), m) => lexerReadLoop fd size (buf ++ b :: bs) m
  else (buf, m)
termination_by size - buf.length
decreasing_by
  simp only [List.length_append, List.length_cons]
  omega

def lexerLoad (fd : Int) (m : Machine σ) : Except MpErrno (List UInt8) × Machine σ :=
  match dosInt21Fsize d quietCall fd m with
  | (none, m) => (.error .eio, (dosInt21Close d quietCall fd m).2)
  | (some size, m) =>
      let (buf, m) := lexerReadLoop d fd size.toNat [] m
      (.ok buf, (dosInt21Close d quietCall fd m).2)

/-- `mp_lexer_new_from_file`: the source text that the lexer gets. -/
def mpLexerNewFromFile (filename : CString) (m : Machine σ) :
    Except MpErrno (List UInt8) × Machine σ :=
  match dosInt21Open d quietCall filename 0 m with
  | (.error _, m) => (.error .enoent, m)
  | (.ok fd, m) => lexerLoad d fd m

def mpImportStat (path : CString) (m : Machine σ) : Bool × Machine σ :=
  match dosInt21Open d quietCall path 0 m with
  | (.error _, m) => (false, m)
  | (.ok fd, m) => (true, (dosInt21Close d quietCall fd m).2)

end FreedosMicroPython.Dos.File
