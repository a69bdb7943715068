import FreedosMicroPython.Lib.Pieces
import FreedosMicroPython.Ssh.Client
/-!
# The sftp program

`examples/sftp.py`: the commands of the prompt, the loop over the lines of a batch file or
of the keyboard, and `main`. What the program takes from the interpreter and not every build
of it has is a parameter.
-/

namespace FreedosMicroPython.Sftp

open FreedosMicroPython.Lib.Action FreedosMicroPython.Lib.Pieces FreedosMicroPython.OsPath
open FreedosMicroPython.Wget FreedosMicroPython.Ssh.Client

/-! ## Strings -/

/-- `[user@]host[:path]` as host and path. -/
def splitRemote (spec : Str) : Str × Option Str :=
  match cutFirst ':'.toUInt8 spec with
  | some (host, path) => (stripUserinfo host, if path = [] then none else some path)
  | none => (stripUserinfo spec, none)

def resolve (cwd : Str) (path : Option Str) : Str :=
  match path with
  | none => cwd
  | some path =>
      if path = [] then cwd
      else if str "/" <+: path then path
      else if path = str "." then cwd
      else if str "/" <:+ cwd then cwd ++ path
      else cwd ++ str "/" ++ path

def baseName (path : Str) : Str :=
  match cutLast '/'.toUInt8 path with
  | some (_, name) => name
  | none => path

/-- `_fmt_mode`; a negative number counts in two's complement. -/
def fmtMode (mode : Int) : Str :=
  let m := (mode % 0x10000).toNat
  let kind := m &&& 0o170000
  let first := if kind = 0o040000 then str "d" else if kind = 0o120000 then str "l" else str "-"
  let rwx := [6, 3, 0].flatMap fun shift =>
    let b := (m >>> shift) &&& 7
    (if b &&& 4 ≠ 0 then str "r" else str "-") ++ (if b &&& 2 ≠ 0 then str "w" else str "-") ++
      (if b &&& 1 ≠ 0 then str "x" else str "-")
  first ++ rwx

def numeral (base : Nat) (mark : Str) (n : Int) : Str :=
  (if n < 0 then str "-" else []) ++ mark ++ (Nat.toDigits base n.natAbs).map Char.toUInt8

def strInt (n : Int) : Str := numeral 10 [] n

def oct (n : Int) : Str := numeral 8 (str "0o") n

/-- The digits of an octal number, where an underscore may stand between two of them. -/
def octDigits (value : Nat) (afterDigit : Bool) : Str → Option Nat
  | [] => if afterDigit then some value else none
  | c :: cs =>
      if '0'.toUInt8 ≤ c ∧ c ≤ '7'.toUInt8 then octDigits (8 * value + (c.toNat - 48)) true cs
      else if c = '_'.toUInt8 ∧ afterDigit then octDigits value false cs
      else none

/-- What follows the sign of an octal number: the prefix `0o` may stand in front. -/
def octUnsigned (s : Str) : Option Nat :=
  if str "0o" <+: s ∨ str "0O" <+: s then
    if s.length = 2 then none else octDigits 0 true (s.drop 2)
  else octDigits 0 false s

/-- `int(s, 8)`; `none` is a `ValueError`. -/
def intOctal (s : Str) : Option Int :=
  match strip s with
  | [] => none
  | c :: cs =>
      if c = '-'.toUInt8 then (octUnsigned cs).map fun n => -(n : Int)
      else if c = '+'.toUInt8 then (octUnsigned cs).map fun n => (n : Int)
      else (octUnsigned (c :: cs)).map fun n => (n : Int)

/-! ## The shell -/

structure Shell where
  sftp : Nat
  cwd : Str
  lcwd : Str
  deriving DecidableEq

/-- `rjust` is `str.rjust`, if strings have it; `help` is what the loop of `cmd_help` over the
module's documentation prints, or the exception that it ends in. -/
structure Interp where
  rjust : Option (Str → Nat → Str)
  help : Except Exc (List Str)

variable (interp : Interp) (peer : Peer) (gap : Nat → UInt8)

def initShell (i : Nat) : Prog Shell Unit := do
  let cwd ← onOSError (sftpRealpath peer i (str ".")) fun _ => pure (str "/")
  modify fun w => { w with vars := ⟨i, cwd, []⟩ }

def shell : Prog Shell Shell := reads World.vars

/-- The loop over `d.read()`; no more reads are made than there are entries and an end. -/
def dirEntries (d : Nat) : Nat → Prog Shell (List (Str × Attrs))
  | 0 => pure []
  | n + 1 => do
      match ← dirRead peer d with
      | none => pure []
      | some entry => do
          let entries ← dirEntries d n
          pure (entry :: entries)

def printEntries : List (Str × Attrs) → Prog Shell Unit
  | [] => pure ()
  | (name, attrs) :: entries => do
      match interp.rjust with
      | none => raise .attributeError
      | some rjust => do
          print (fmtMode attrs.mode ++ str " " ++ rjust (strInt attrs.size) 10 ++ str " " ++ name)
          printEntries entries

def cmdLs (args : List Str) : Prog Shell Unit := do
  let sh ← shell
  let d ← sftpOpendir peer sh.sftp (resolve sh.cwd args.head?)
  let entries ← tryFinally
    (do
      let n ← reads fun w => (w.dirs d).length
      dirEntries peer d (n + 1))
    (dirClose peer d)
  printEntries interp entries

def cmdCd (args : List Str) : Prog Shell Unit := do
  let sh ← shell
  let new := match args with
    | [] => str "/"
    | path :: _ => resolve sh.cwd (some path)
  onOSError
    (do
      let cwd ← sftpRealpath peer sh.sftp new
      modify fun w => { w with vars := { w.vars with cwd := cwd } })
    fun text => print (str "cd: " ++ text)

def localName (sh : Shell) : Str := if sh.lcwd = [] then str "<cwd>" else sh.lcwd

def cmdLcd (args : List Str) : Prog Shell Unit := do
  modify fun w => { w with vars := { w.vars with lcwd := args.headD [] } }
  let sh ← shell
  print (str "local cwd: " ++ localName sh)

def cmdPwd : Prog Shell Unit := do
  let sh ← shell
  print (str "remote: " ++ sh.cwd)

def cmdLpwd : Prog Shell Unit := do
  let sh ← shell
  print (str "local: " ++ localName sh)

def underLcwd (sh : Shell) (path : Str) : Str :=
  if sh.lcwd ≠ [] ∧ ¬str "/" <+: path then sh.lcwd ++ str "/" ++ path else path

def getFile (remoteArg : Option Str) (localArg : Str) : Prog Shell Unit := do
  let sh ← shell
  let path := underLcwd sh localArg
  let f ← sftpOpen peer sh.sftp (resolve sh.cwd remoteArg) (str "r")
  let data ← tryFinally (fileRead peer f) (fileClose peer f)
  writeLocal peer path data
  print (str "got " ++ strInt data.length ++ str " bytes to " ++ path)

def cmdGet (args : List Str) : Prog Shell Unit :=
  match args with
  | [] => print (str "usage: get remote [local]")
  | [remote] => getFile peer (some remote) (baseName remote)
  | remote :: path :: _ => getFile peer (some remote) path

def putFile (localArg : Str) (rest : List (Option Str)) : Prog Shell Unit := do
  let sh ← shell
  let path := underLcwd sh localArg
  let remote := resolve sh.cwd (rest.headD (some (baseName path)))
  let data ← readLocal peer path
  let f ← sftpOpen peer sh.sftp remote (str "w")
  let n ← tryFinally (fileWrite peer gap f data) (fileClose peer f)
  print (str "sent " ++ strInt n ++ str " bytes to " ++ remote)

def cmdPut (args : List Str) : Prog Shell Unit :=
  match args with
  | [] => print (str "usage: put local [remote]")
  | path :: rest => putFile peer gap path (rest.map some)

def cmdMkdir (args : List Str) : Prog Shell Unit :=
  match args with
  | [] => print (str "usage: mkdir path [mode]")
  | path :: rest => do
      let sh ← shell
      match rest.head?.elim (some 0o755) intOctal with
      | none => raise .valueError
      | some mode => sftpMkdir peer sh.sftp (resolve sh.cwd (some path)) mode

def cmdRmdir (args : List Str) : Prog Shell Unit :=
  match args with
  | [] => print (str "usage: rmdir path")
  | path :: _ => do
      let sh ← shell
      sftpRmdir peer sh.sftp (resolve sh.cwd (some path))

def cmdRm (args : List Str) : Prog Shell Unit :=
  match args with
  | [] => print (str "usage: rm path")
  | path :: _ => do
      let sh ← shell
      sftpUnlink peer sh.sftp (resolve sh.cwd (some path))

def cmdMv (args : List Str) : Prog Shell Unit :=
  match args with
  | [old, new] => do
      let sh ← shell
      sftpRename peer sh.sftp (resolve sh.cwd (some old)) (resolve sh.cwd (some new))
  | _ => print (str "usage: mv old new")

def cmdChmod : Prog Shell Unit :=
  print (str "chmod: not implemented (libssh2 setstat not yet wrapped)")

def cmdStat (args : List Str) : Prog Shell Unit :=
  match args with
  | [] => print (str "usage: stat path")
  | path :: _ => do
      let sh ← shell
      let attrs ← sftpStat peer sh.sftp (resolve sh.cwd (some path))
      print (str "mode  " ++ oct attrs.mode ++ str "  (" ++ fmtMode attrs.mode ++ str ")")
      print (str "size  " ++ strInt attrs.size)
      print (str "atime " ++ strInt attrs.atime)
      print (str "mtime " ++ strInt attrs.mtime)
      print (str "uid   " ++ strInt attrs.uid)
      print (str "gid   " ++ strInt attrs.gid)

def cmdRealpath (args : List Str) : Prog Shell Unit :=
  match args with
  | [] => print (str "usage: realpath path")
  | path :: _ => do
      let sh ← shell
      let name ← sftpRealpath peer sh.sftp (resolve sh.cwd (some path))
      print name

def printLines : List Str → Prog Shell Unit
  | [] => pure ()
  | line :: lines => do
      print line
      printLines lines

def cmdHelp : Prog Shell Unit :=
  match interp.help with
  | .error e => raise e
  | .ok lines => printLines lines

/-! ## The command loop -/

inductive Command where
  | ls | cd | lcd | pwd | lpwd | get | put | mkdir | rmdir | rm | mv | chmod | stat | realpath
  | help
  deriving DecidableEq

def dispatch : List (Str × Command) :=
  [(str "ls", .ls), (str "cd", .cd), (str "lcd", .lcd), (str "pwd", .pwd), (str "lpwd", .lpwd),
    (str "get", .get), (str "put", .put), (str "mkdir", .mkdir), (str "rmdir", .rmdir),
    (str "rm", .rm), (str "del", .rm), (str "delete", .rm), (str "mv", .mv), (str "rename", .mv),
    (str "chmod", .chmod), (str "stat", .stat), (str "realpath", .realpath), (str "help", .help),
    (str "?", .help)]

/-- `getattr(shell, handler_name)(args)`. -/
def runCommand (args : List Str) : Command → Prog Shell Unit
  | .ls => cmdLs interp peer args
  | .cd => cmdCd peer args
  | .lcd => cmdLcd args
  | .pwd => cmdPwd
  | .lpwd => cmdLpwd
  | .get => cmdGet peer args
  | .put => cmdPut peer gap args
  | .mkdir => cmdMkdir peer args
  | .rmdir => cmdRmdir peer args
  | .rm => cmdRm peer args
  | .mv => cmdMv peer args
  | .chmod => cmdChmod
  | .stat => cmdStat peer args
  | .realpath => cmdRealpath peer args
  | .help => cmdHelp interp

def isQuit (line : Str) : Bool :=
  strip line = str "exit" || strip line = str "quit" || strip line = str "bye"

/-- `_execute_one`: whether the loop goes on. -/
def executeOne (line : Str) : Prog Shell Bool :=
  if strip line = [] ∨ str "#" <+: strip line then pure true
  else if isQuit line then pure false
  else
    match wordsOf isSpace (strip line) with
    | [] => pure true
    | cmd :: args =>
        match dispatch.lookup cmd with
        | none => do
            print (str "unknown command: " ++ cmd ++ str " (try 'help')")
            pure true
        | some command => do
            onOSError (runCommand interp peer gap args command) fun text =>
              print (cmd ++ str ": " ++ text)
            pure true

def fileLines : Str → List Str
  | [] => []
  | c :: s =>
      if c = 0x0A then [c] :: fileLines s
      else
        match fileLines s with
        | [] => [[c]]
        | line :: lines => (c :: line) :: lines

/-- `line.rstrip("\n").rstrip("\r")`. -/
def chomp (line : Str) : Str := (line.rdropWhile (· = 0x0A)).rdropWhile (· = 0x0D)

def interactiveBatch (source : List Str) : Prog Shell Unit :=
  untilFalse (fun line => do
    print (str "sftp> " ++ chomp line)
    executeOne interp peer gap (chomp line)) source

/-- The loop over the lines that are typed; the input ends behind them. -/
def interactiveTyped : List Str → Prog Shell Unit
  | [] => do
      write (str "sftp> ")
      print []
  | line :: lines => do
      write (str "sftp> ")
      if ← executeOne interp peer gap line then interactiveTyped lines else pure ()

/-! ## Entry point -/

def usageText : List Str :=
  [str "usage: sftp.py [-P PORT] [-u USER] [-p PASS] [-b BATCH]",
    str "               [user@]host                  # interactive",
    str "               host:/path local              # one-shot get",
    str "               local host:/path              # one-shot put",
    str "               get host:/path local          # explicit get",
    str "               put local host:/path          # explicit put"]

def withShell (body : Prog Shell Unit) : Prog Shell Unit :=
  tryFinally
    (do
      let i ← sessionSftp peer
      initShell peer i
      tryFinally body (sftpClose peer i))
    (sessionClose peer)

def explicitGet (o : Opts) (src dst : Str) : Prog Shell Int := do
  connect peer (splitRemote src).1 o.port o.user o.password
  withShell peer (getFile peer (splitRemote src).2 dst)
  pure 0

def explicitPut (o : Opts) (src dst : Str) : Prog Shell Int := do
  connect peer (splitRemote dst).1 o.port o.user o.password
  withShell peer (putFile peer gap src [(splitRemote dst).2])
  pure 0

/-- `with open(batch, "r") as f: interactive(shell, source=f)`. -/
def runBatch (batch : Str) : Prog Shell Unit := do
  let data ← readLocal peer batch
  interactiveBatch interp peer gap (fileLines data.buf)

/-- The part of `main` for a host to connect to, where `typed` is what comes from the keyboard. -/
def hostSession (typed : List Str) (o : Opts) : Prog Shell Int :=
  match o.positional with
  | [] => do
      writeErr (str "usage: sftp.py [opts] [user@]host  (try -h)\n")
      pure 2
  | spec :: _ => do
      let host := (splitRemote spec).1
      let connected ← onOSError
        (do
          connect peer host o.port o.user o.password
          pure true)
        fun text => do
          writeErr (str "sftp: connect: " ++ text ++ str "\n")
          pure false
      if connected then
        withShell peer
          (match o.batch with
          | some batch => runBatch interp peer gap batch
          | none => do
              print (str "Connected to " ++ host ++ str ".")
              interactiveTyped interp peer gap typed)
        pure 0
      else pure 1

/-- The arguments of the call that a one-shot transfer is turned into. -/
def explicitArgs (cmd : Str) (o : Opts) : List Str :=
  cmd :: o.positional ++ [str "-P", strInt o.port, str "-u", o.user, str "-p", o.password]

/-- `main(argv)`, which may call itself up to the depth that there is stack for. -/
def main (typed : List Str) : Nat → List Str → Prog Shell Int
  | 0, _ => raise .recursionError
  | depth + 1, argv =>
      match parseArgs true {} argv with
      | .badPort => raise .valueError
      | .help => do
          printLines usageText
          pure 0
      | .unknownFlag a => do
          writeErr (str "unknown flag: " ++ a ++ str "\n")
          pure 2
      | .opts o =>
          if o.positional.head? = some (str "get") then
            match o.positional with
            | [_, src, dst] => explicitGet peer o src dst
            | _ => do
                writeErr (str "usage: sftp.py get|put SRC DST\n")
                pure 2
          else if o.positional.head? = some (str "put") then
            match o.positional with
            | [_, src, dst] => explicitPut peer gap o src dst
            | _ => do
                writeErr (str "usage: sftp.py get|put SRC DST\n")
                pure 2
          else
            match o.positional with
            | [src, dst] =>
                if ':'.toUInt8 ∈ src ∧ ':'.toUInt8 ∉ dst then
                  main typed depth (explicitArgs (str "get") o)
                else if ':'.toUInt8 ∈ dst ∧ ':'.toUInt8 ∉ src then
                  main typed depth (explicitArgs (str "put") o)
                else hostSession interp peer gap typed o
            | _ => hostSession interp peer gap typed o

/-- What `main` can come to, whatever it is called with. -/
theorem main_induction {M : Prog Shell Int → Prop} (typed : List Str)
    (hraise : ∀ e, M (raise e)) (husage : M (do printLines usageText; pure 0))
    (hquit : ∀ s, M (do writeErr s; pure 2)) (hget : ∀ o src dst, M (explicitGet peer o src dst))
    (hput : ∀ o src dst, M (explicitPut peer gap o src dst))
    (hhost : ∀ o, M (hostSession interp peer gap typed o)) (depth : Nat) (argv : List Str) :
    M (main interp peer gap typed depth argv) := by
  induction depth generalizing argv with
  | zero => exact hraise _
  | succ depth ih =>
      unfold main
      split
      · exact hraise _
      · exact husage
      · exact hquit _
      · next o _ =>
        split
        · split
          · exact hget o _ _
          · exact hquit _
        · split
          · split
            · exact hput o _ _
            · exact hquit _
          · split
            · split
              · exact ih _
              · split
                · exact ih _
                · exact hhost o
            · exact hhost o

end FreedosMicroPython.Sftp
