import FreedosMicroPython.Sftp.Shell
/-!
# A property of every command

A property of programs that the primitives have, each request for good paths only, and that
sequences and handlers pass on, holds of every command and of both command loops.
-/

namespace FreedosMicroPython.Sftp

open FreedosMicroPython.Lib.Action FreedosMicroPython.Lib.Pieces FreedosMicroPython.OsPath
open FreedosMicroPython.Wget FreedosMicroPython.Ssh.Channel FreedosMicroPython.Ssh.Client

def PathsIn (G : Str → Prop) : Request → Prop
  | .mkdir path _ | .rmdir path | .unlink path | .stat path | .open_ path _ | .opendir path
  | .realpath path | .scpRecv path | .scpSend path _ _ => G path
  | .rename old new => G old ∧ G new
  | _ => True

/-- Paths are good if they come from a good working directory; where C sees their end does not
matter. -/
structure PathLaw (G : Str → Prop) : Prop where
  slash : G (str "/")
  resolve : ∀ cwd path, G cwd → G (resolve cwd path)
  cStr : ∀ path, G path → G (cStr path)

/-- What a method does to the world is its own: it leaves the variables and the requests, and
does not look at what was printed. -/
structure Plain {α : Type} (m : Answer → World Shell → Outcome α × World Shell) : Prop where
  vars : ∀ a w, (m a w).2.vars = w.vars
  requests : ∀ a w, (m a w).2.requests = w.requests
  blind : ∀ a w out, m a { w with out := out } = ((m a w).1, { (m a w).2 with out := out })

/-- A property of programs with a clause for each primitive and each way to combine them. -/
structure Rules (peer : Peer) (G : Str → Prop) (M : (α : Type) → Prog Shell α → Prop) :
    Prop where
  paths : PathLaw G
  pure : ∀ {α : Type} (x : α), M α (pure x)
  raise : ∀ {α : Type} (e : Exc), M α (raise e)
  bind : ∀ {α β : Type} (a : Prog Shell α) (f : α → Prog Shell β), M α a → (∀ x, M β (f x)) →
    M β (a >>= f)
  tryFinally : ∀ {α : Type} (a : Prog Shell α) (final : Prog Shell Unit), M α a → M Unit final →
    M α (Lib.Action.tryFinally a final)
  onOSError : ∀ {α : Type} (a : Prog Shell α) (handler : Str → Prog Shell α), M α a →
    (∀ text, M α (handler text)) → M α (onOSError a handler)
  write : ∀ s, M Unit (write s)
  reads : ∀ {α : Type} (g : World Shell → α), (∀ w out, g { w with out := out } = g w) →
    M α (reads g)
  shell : ∀ {α : Type} (f : Shell → Prog Shell α), (∀ sh, G sh.cwd → M α (f sh)) →
    M α (shell >>= f)
  lcwd : ∀ lcwd, M Unit (modify fun w => { w with vars := { w.vars with lcwd := lcwd } })
  cwd : ∀ i path, G path → M Unit (do
    let cwd ← sftpRealpath peer i path
    modify fun w => { w with vars := { w.vars with cwd := cwd } })
  ask : ∀ r, PathsIn G r → M Answer (ask peer r)
  method : ∀ {α β : Type} (isOpen : Ssh.Objects.State → Bool) (r : Request)
    (m : Answer → World Shell → Outcome α × World Shell) (v : Answer → α → β), PathsIn G r →
    Plain m → M β (method peer isOpen r m v)
  setLocal : ∀ path bytes, M Unit (setLocal path bytes)

namespace Rules

variable {interp : Interp} {peer : Peer} {gap : Nat → UInt8} {α : Type}
  {G : Str → Prop} {M : (α : Type) → Prog Shell α → Prop} (rules : Rules peer G M)

include rules

theorem path {sh : Shell} (hsh : G sh.cwd) (arg : Option Str) :
    G (cStr (resolve sh.cwd arg)) :=
  rules.paths.cStr _ (rules.paths.resolve _ _ hsh)

theorem print (s : Str) : M Unit (print s) := rules.write (s ++ [0x0A])

theorem checked (r : Request) (hr : PathsIn G r) : M Answer (checked peer r) := by
  refine rules.bind _ _ (rules.ask r hr) fun a => ?_
  split
  · exact rules.raise _
  · exact rules.pure a

theorem close (isOpen : Ssh.Objects.State → Bool) (r : Request)
    (close : Ssh.Objects.State → Ssh.Objects.State) (hr : PathsIn G r) :
    M Unit (do
      if ← Lib.Action.reads fun w => isOpen w.ssh then
        Ssh.Client.method peer isOpen r (fun _ => onSsh fun s => (.returned (), close s))
          fun _ _ => ()
      else Pure.pure ()) := by
  refine rules.bind _ _ (rules.reads _ fun _ _ => rfl) fun opened => ?_
  split
  · exact rules.method _ _ _ _ hr ⟨fun _ _ => rfl, fun _ _ => rfl, fun _ _ _ => rfl⟩
  · exact rules.pure ()

theorem dirRead (d : Nat) : M _ (dirRead peer d) := by
  refine rules.bind _ _ (rules.reads _ fun _ _ => rfl) fun entry => ?_
  refine rules.bind _ _ (rules.method _ _ _ _ trivial
    ⟨fun _ _ => rfl, fun _ _ => rfl, fun _ _ _ => rfl⟩) fun rc => ?_
  split <;> exact rules.pure _

theorem readLocal (path : Str) : M _ (readLocal peer path) := by
  refine rules.bind _ _ (rules.checked _ trivial) fun a => ?_
  refine rules.bind _ _ (rules.reads _ fun _ _ => rfl) fun contents => ?_
  cases contents with
  | none => exact rules.raise _
  | some bytes =>
      refine rules.bind _ _ (rules.checked _ trivial) fun _ => ?_
      split
      · exact rules.pure _
      · exact rules.raise _

theorem writeLocal (path data : Str) : M Unit (writeLocal peer path data) := by
  refine rules.bind _ _ (rules.checked _ trivial) fun _ => ?_
  refine rules.bind _ _ (rules.setLocal path []) fun _ => ?_
  refine rules.bind _ _ (rules.ask _ trivial) fun a => ?_
  refine rules.bind _ _ (rules.setLocal path _) fun _ => ?_
  split
  · exact rules.raise _
  · exact rules.pure ()

/-! ## The commands -/

theorem printEntries (entries : List (Str × Attrs)) : M Unit (printEntries interp entries) := by
  induction entries with
  | nil => exact rules.pure ()
  | cons entry entries ih =>
      unfold Sftp.printEntries
      cases interp.rjust with
      | none => exact rules.raise _
      | some rjust => exact rules.bind _ _ (rules.print _) fun _ => ih

theorem printLines (lines : List Str) : M Unit (printLines lines) := by
  induction lines with
  | nil => exact rules.pure ()
  | cons line lines ih => exact rules.bind _ _ (rules.print line) fun _ => ih

theorem dirEntries (d n : Nat) : M _ (dirEntries peer d n) := by
  induction n with
  | zero => exact rules.pure _
  | succ n ih =>
      refine rules.bind _ _ (rules.dirRead d) fun entry => ?_
      cases entry with
      | none => exact rules.pure _
      | some entry => exact rules.bind _ _ ih fun _ => rules.pure _

theorem cmdLs (args : List Str) : M Unit (cmdLs interp peer args) := by
  refine rules.shell _ fun sh hsh => ?_
  refine rules.bind _ _ (rules.method _ (.opendir _) _ _ (rules.path hsh _)
    ⟨fun _ _ => rfl, fun _ _ => rfl, fun _ _ _ => rfl⟩) fun d => ?_
  refine rules.bind _ _ (rules.tryFinally _ _ ?_ ?_) fun entries => rules.printEntries entries
  · exact rules.bind _ _ (rules.reads _ fun _ _ => rfl) fun n => rules.dirEntries d (n + 1)
  · exact rules.close _ _ _ trivial

theorem cmdCd (args : List Str) : M Unit (cmdCd peer args) := by
  refine rules.shell _ fun sh hsh => rules.onOSError _ _ (rules.cwd _ _ ?_) fun _ => rules.print _
  split
  · exact rules.paths.slash
  · exact rules.paths.resolve _ _ hsh

theorem cmdLcd (args : List Str) : M Unit (cmdLcd args) :=
  rules.bind _ _ (rules.lcwd _) fun _ => rules.shell _ fun _ _ => rules.print _

theorem withFile {sh : Shell} (hsh : G sh.cwd) (path : Option Str) (mode : Str)
    {use : Nat → Prog Shell α} (huse : ∀ f, M α (use f)) {rest : α → Prog Shell Unit}
    (hrest : ∀ x, M Unit (rest x)) :
    M Unit (do
      let f ← sftpOpen peer sh.sftp (resolve sh.cwd path) mode
      let x ← Lib.Action.tryFinally (use f) (fileClose peer f)
      rest x) := by
  refine rules.bind _ _ (rules.method _ (.open_ _ _) _ _ (rules.path hsh path)
    ⟨fun _ _ => rfl, fun _ _ => rfl, fun _ _ _ => rfl⟩) fun f => ?_
  exact rules.bind _ _ (rules.tryFinally _ _ (huse f) (rules.close _ _ _ trivial)) hrest

theorem getFile (remoteArg : Option Str) (localArg : Str) :
    M Unit (getFile peer remoteArg localArg) := by
  refine rules.shell _ fun sh hsh => rules.withFile hsh _ _ (fun f => ?_) fun data => ?_
  · exact rules.method _ _ _ _ trivial ⟨fun _ _ => rfl, fun _ _ => rfl, fun _ _ _ => rfl⟩
  · exact rules.bind _ _ (rules.writeLocal _ _) fun _ => rules.print _

theorem putFile (localArg : Str) (rest : List (Option Str)) :
    M Unit (putFile peer gap localArg rest) := by
  refine rules.shell _ fun sh hsh => rules.bind _ _ (rules.readLocal _) fun data => ?_
  refine rules.withFile hsh _ _ (fun f => ?_) fun n => rules.print _
  exact rules.method _ _ _ _ trivial ⟨fun _ _ => rfl, fun _ _ => rfl, fun _ _ _ => rfl⟩

theorem cmdGet (args : List Str) : M Unit (cmdGet peer args) := by
  unfold Sftp.cmdGet
  split
  · exact rules.print _
  · exact rules.getFile _ _
  · exact rules.getFile _ _

theorem cmdPut (args : List Str) : M Unit (cmdPut peer gap args) := by
  unfold Sftp.cmdPut
  split
  · exact rules.print _
  · exact rules.putFile _ _

theorem cmdMkdir (args : List Str) : M Unit (cmdMkdir peer args) := by
  unfold Sftp.cmdMkdir
  split
  · exact rules.print _
  · next path rest =>
    refine rules.shell _ fun sh hsh => ?_
    cases rest.head?.elim (some 0o755) intOctal with
    | none => exact rules.raise _
    | some mode =>
        refine rules.bind _ _ (rules.reads _ fun _ _ => rfl) fun opened => ?_
        split
        · exact rules.raise _
        · exact rules.method _ (.mkdir _ _) _ _ (rules.path hsh _)
            ⟨fun _ _ => rfl, fun _ _ => rfl, fun _ _ _ => rfl⟩

theorem cmdRmdir (args : List Str) : M Unit (cmdRmdir peer args) := by
  unfold Sftp.cmdRmdir
  split
  · exact rules.print _
  · exact rules.shell _ fun sh hsh => rules.method _ (.rmdir _) _ _ (rules.path hsh _)
      ⟨fun _ _ => rfl, fun _ _ => rfl, fun _ _ _ => rfl⟩

theorem cmdRm (args : List Str) : M Unit (cmdRm peer args) := by
  unfold Sftp.cmdRm
  split
  · exact rules.print _
  · exact rules.shell _ fun sh hsh => rules.method _ (.unlink _) _ _ (rules.path hsh _)
      ⟨fun _ _ => rfl, fun _ _ => rfl, fun _ _ _ => rfl⟩

theorem cmdMv (args : List Str) : M Unit (cmdMv peer args) := by
  unfold Sftp.cmdMv
  split
  · exact rules.shell _ fun sh hsh =>
      rules.method _ (.rename _ _) _ _ ⟨rules.path hsh _, rules.path hsh _⟩
        ⟨fun _ _ => rfl, fun _ _ => rfl, fun _ _ _ => rfl⟩
  · exact rules.print _

theorem cmdStat (args : List Str) : M Unit (cmdStat peer args) := by
  unfold Sftp.cmdStat
  split
  · exact rules.print _
  · refine rules.shell _ fun sh hsh => ?_
    refine rules.bind _ _ (rules.method _ (.stat _) _ _ (rules.path hsh _)
      ⟨fun _ _ => rfl, fun _ _ => rfl, fun _ _ _ => rfl⟩) fun attrs => ?_
    iterate 5 refine rules.bind _ _ (rules.print _) fun _ => ?_
    exact rules.print _

theorem cmdRealpath (args : List Str) : M Unit (cmdRealpath peer args) := by
  unfold Sftp.cmdRealpath
  split
  · exact rules.print _
  · refine rules.shell _ fun sh hsh => ?_
    refine rules.bind _ _ (rules.method _ (.realpath _) _ _ (rules.path hsh _)
      ⟨fun _ _ => rfl, fun _ _ => rfl, fun _ _ _ => rfl⟩) fun name => rules.print name

theorem runCommand (args : List Str) (command : Command) :
    M Unit (runCommand interp peer gap args command) := by
  cases command with
  | ls => exact rules.cmdLs args
  | cd => exact rules.cmdCd args
  | lcd => exact rules.cmdLcd args
  | pwd => exact rules.shell _ fun _ _ => rules.print _
  | lpwd => exact rules.shell _ fun _ _ => rules.print _
  | get => exact rules.cmdGet args
  | put => exact rules.cmdPut args
  | mkdir => exact rules.cmdMkdir args
  | rmdir => exact rules.cmdRmdir args
  | rm => exact rules.cmdRm args
  | mv => exact rules.cmdMv args
  | chmod => exact rules.print _
  | stat => exact rules.cmdStat args
  | realpath => exact rules.cmdRealpath args
  | help =>
      change M Unit (cmdHelp interp)
      unfold cmdHelp
      split
      · exact rules.raise _
      · exact rules.printLines _

/-! ## The loops -/

theorem executeOne (line : Str) : M Bool (executeOne interp peer gap line) := by
  unfold Sftp.executeOne
  split
  · exact rules.pure true
  · split
    · exact rules.pure false
    · split
      · exact rules.pure true
      · split
        · exact rules.bind _ _ (rules.print _) fun _ => rules.pure true
        · next command _ =>
          refine rules.bind _ _ ?_ fun _ => rules.pure true
          exact rules.onOSError _ _ (rules.runCommand _ command) fun _ => rules.print _

theorem interactiveBatch (source : List Str) :
    M Unit (interactiveBatch interp peer gap source) := by
  induction source with
  | nil => exact rules.pure ()
  | cons line lines ih =>
      refine rules.bind _ _ (rules.bind _ _ (rules.print _) fun _ => rules.executeOne _)
        fun go => ?_
      cases go with
      | true => exact ih
      | false => exact rules.pure ()

theorem interactiveTyped (lines : List Str) :
    M Unit (interactiveTyped interp peer gap lines) := by
  induction lines with
  | nil => exact rules.bind _ _ (rules.write _) fun _ => rules.print []
  | cons line lines ih =>
      refine rules.bind _ _ (rules.write _) fun _ => ?_
      refine rules.bind _ _ (rules.executeOne line) fun go => ?_
      cases go with
      | true => exact ih
      | false => exact rules.pure ()

theorem runBatch (batch : Str) : M Unit (runBatch interp peer gap batch) :=
  rules.bind _ _ (rules.readLocal batch) fun _ => rules.interactiveBatch _

end Rules

end FreedosMicroPython.Sftp
