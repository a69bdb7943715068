import FreedosMicroPython.Sftp.Shell
import FreedosMicroPython.Ssh.Nesting
/-!
# Every run of sftp closes what it opened

Each command of the prompt, however it ends, comes back with the SFTP open and nothing in
it. So `main` makes no call with a dead pointer and leaves nothing open, unless the login is
refused: the session it was tried on stays open.
-/

namespace FreedosMicroPython.Sftp

open FreedosMicroPython.Lib.Action FreedosMicroPython.Lib.Pieces FreedosMicroPython.OsPath
open FreedosMicroPython.Wget FreedosMicroPython.Ssh.Client FreedosMicroPython.Ssh.Nesting

variable (interp : Interp) (peer : Peer) (gap : Nat → UInt8)
variable {α : Type} {i : Nat} {E : Exc → World Shell → Prop}

/-- The program is in a shell with SFTP object `i`, and no file or directory is open. -/
def InSftp (i : Nat) : World Shell → Prop := Stage (fun sh => sh.sftp = i) (.sftp i)

/-- The action ends in the shell, whether it returns or raises. -/
def Stays (i : Nat) (a : Prog Shell α) : Prop :=
  Triple (InSftp i) a (Ends (fun _ => InSftp i) fun _ => InSftp i)

theorem stays_bind {β : Type} {a : Prog Shell α} {f : α → Prog Shell β} (ha : Stays i a)
    (hf : ∀ x, Stays i (f x)) : Stays i (a >>= f) :=
  bind_ends ha hf

theorem stays_pure (x : α) : Stays i (pure x) := triple_pure fun _ hw => hw

theorem stays_raise (e : Exc) : Stays i (raise e : Prog Shell α) := triple_raise fun _ hw => hw

theorem stays_print (s : Str) : Stays i (print s) := print_stays s

theorem stays_of_raises {a : Prog Shell α}
    (ha : Triple (InSftp i) a (Ends (fun _ => InSftp i) (Raises (InSftp i)))) : Stays i a :=
  ends_of_raises ha

theorem stays_shell {f : Shell → Prog Shell α} (hf : ∀ sh, sh.sftp = i → Stays i (f sh)) :
    Stays i (shell >>= f) :=
  fun w hw => hf w.vars hw.vars w hw

theorem stays_modify {g : Shell → Shell} (hg : ∀ sh, (g sh).sftp = sh.sftp) :
    Stays i (modify fun w => { w with vars := g w.vars }) :=
  triple_modify fun w hw => ⟨hw.level, (hg w.vars).trans hw.vars⟩

theorem stays_onOSError {body : Prog Shell α} {handler : Str → Prog Shell α}
    (hbody : Stays i body) (hhandler : ∀ text, Stays i (handler text)) :
    Stays i (onOSError body handler) :=
  onOSError_ends hbody hhandler fun _ _ _ hw => hw

/-! ## The commands -/

theorem stays_printEntries (entries : List (Str × Attrs)) :
    Stays i (printEntries interp entries) := by
  induction entries with
  | nil => exact stays_pure ()
  | cons entry entries ih =>
      unfold printEntries
      cases interp.rjust with
      | none => exact stays_raise _
      | some rjust => exact stays_bind (stays_print _) fun _ => ih

theorem stays_printLines (lines : List Str) : Stays i (printLines lines) := by
  induction lines with
  | nil => exact stays_pure ()
  | cons line lines ih => exact stays_bind (stays_print line) fun _ => ih

theorem dirEntries_stays {F : Shell → Prop} {l : Level} (d n : Nat) :
    Triple (Stage F l) (dirEntries peer d n)
      (Ends (fun _ => Stage F l) fun _ => Stage F l) := by
  induction n with
  | zero => exact triple_pure fun _ hw => hw
  | succ n ih =>
      have hread := ends_of_raises (dirRead_stays (F := F) (l := l) peer d)
      refine bind_ends hread fun entry => ?_
      cases entry with
      | none => exact triple_pure fun _ hw => hw
      | some entry => exact bind_ends ih fun _ => triple_pure fun _ hw => hw

theorem stays_cmdLs (args : List Str) : Stays i (cmdLs interp peer args) := by
  refine stays_shell fun sh hsh => ?_
  subst hsh
  have hopen := ends_of_raises (sftpOpendir_opens (F := fun s : Shell => s.sftp = sh.sftp) peer
    sh.sftp (resolve sh.cwd args.head?))
  refine bind_ends hopen fun d => ?_
  refine bind_ends (Q := fun _ => InSftp sh.sftp) ?_ fun entries =>
    stays_printEntries interp entries
  have hbody := bind_ends (reads_ends (P := Stage (fun s : Shell => s.sftp = sh.sftp)
    (.handle sh.sftp .dir d)) fun w => (w.dirs d).length) fun n => dirEntries_stays peer d (n + 1)
  exact finally_ends hbody (fun _ => dirClose_closes peer sh.sftp d)
    fun _ => dirClose_closes peer sh.sftp d

theorem stays_cmdCd (args : List Str) : Stays i (cmdCd peer args) := by
  refine stays_shell fun sh _ => ?_
  refine stays_onOSError ?_ fun _ => stays_print _
  refine stays_bind (stays_of_raises (sftpMethod_stays peer)) fun cwd => ?_
  exact stays_modify (g := fun sh => { sh with cwd := cwd }) fun _ => rfl

theorem stays_cmdLcd (args : List Str) : Stays i (cmdLcd args) :=
  stays_bind (stays_modify (g := fun sh => { sh with lcwd := args.headD [] }) fun _ => rfl)
    fun _ => stays_shell fun _ _ => stays_print _

theorem stays_withFile {sh : Shell} (hsh : sh.sftp = i) (path mode : Str)
    {use : Nat → Prog Shell α} (huse : ∀ f, Triple (Stage (fun s => s.sftp = i) (.handle i .file f))
      (use f) (Ends (fun _ => Stage (fun s => s.sftp = i) (.handle i .file f))
        (Raises (Stage (fun s => s.sftp = i) (.handle i .file f)))))
    {rest : α → Prog Shell Unit} (hrest : ∀ x, Stays i (rest x)) :
    Stays i (do
      let f ← sftpOpen peer sh.sftp path mode
      let x ← tryFinally (use f) (fileClose peer f)
      rest x) := by
  subst hsh
  have hopen := ends_of_raises (sftpOpen_opens (F := fun s : Shell => s.sftp = sh.sftp) peer
    sh.sftp path mode)
  refine bind_ends hopen fun f => ?_
  refine bind_ends (Q := fun _ => InSftp sh.sftp) ?_ hrest
  have hbody := ends_of_raises (huse f)
  exact finally_ends hbody (fun _ => fileClose_closes peer sh.sftp f)
    fun _ => fileClose_closes peer sh.sftp f

theorem stays_getFile (remoteArg : Option Str) (localArg : Str) :
    Stays i (getFile peer remoteArg localArg) := by
  refine stays_shell fun sh hsh => ?_
  refine stays_withFile peer hsh _ _ (fun f => fileRead_stays peer f) fun data => ?_
  exact stays_bind (writeLocal_stays peer _ _) fun _ => stays_print _

theorem stays_putFile (localArg : Str) (rest : List (Option Str)) :
    Stays i (putFile peer gap localArg rest) := by
  refine stays_shell fun sh hsh => ?_
  refine stays_bind (readLocal_stays peer _) fun data => ?_
  exact stays_withFile peer hsh _ _ (fun f => fileWrite_stays peer gap f data)
    fun _ => stays_print _

theorem stays_cmdMkdir (args : List Str) : Stays i (cmdMkdir peer args) := by
  unfold cmdMkdir
  cases args with
  | nil => exact stays_print _
  | cons path rest =>
      refine stays_shell fun sh _ => ?_
      cases rest.head?.elim (some 0o755) intOctal with
      | none => exact stays_raise _
      | some mode => exact sftpMkdir_stays peer _ _ mode

theorem stays_cmdStat (args : List Str) : Stays i (cmdStat peer args) := by
  unfold cmdStat
  cases args with
  | nil => exact stays_print _
  | cons path rest =>
      refine stays_shell fun sh _ => ?_
      refine stays_bind (stays_of_raises (sftpMethod_stays peer)) fun attrs => ?_
      iterate 5 refine stays_bind (stays_print _) fun _ => ?_
      exact stays_print _

theorem stays_runCommand (args : List Str) (command : Command) :
    Stays i (runCommand interp peer gap args command) := by
  cases command with
  | ls => exact stays_cmdLs interp peer args
  | cd => exact stays_cmdCd peer args
  | lcd => exact stays_cmdLcd args
  | pwd => exact stays_shell fun _ _ => stays_print _
  | lpwd => exact stays_shell fun _ _ => stays_print _
  | get =>
      change Stays i (cmdGet peer args)
      unfold cmdGet
      split
      · exact stays_print _
      · exact stays_getFile peer _ _
      · exact stays_getFile peer _ _
  | put =>
      change Stays i (cmdPut peer gap args)
      unfold cmdPut
      split
      · exact stays_print _
      · exact stays_putFile peer gap _ _
  | mkdir => exact stays_cmdMkdir peer args
  | rmdir =>
      change Stays i (cmdRmdir peer args)
      unfold cmdRmdir
      split
      · exact stays_print _
      · exact stays_shell fun _ _ => stays_of_raises (sftpMethod_stays peer)
  | rm =>
      change Stays i (cmdRm peer args)
      unfold cmdRm
      split
      · exact stays_print _
      · exact stays_shell fun _ _ => stays_of_raises (sftpMethod_stays peer)
  | mv =>
      change Stays i (cmdMv peer args)
      unfold cmdMv
      split
      · exact stays_shell fun _ _ => stays_of_raises (sftpMethod_stays peer)
      · exact stays_print _
  | chmod => exact stays_print _
  | stat => exact stays_cmdStat peer args
  | realpath =>
      change Stays i (cmdRealpath peer args)
      unfold cmdRealpath
      split
      · exact stays_print _
      · refine stays_shell fun _ _ => ?_
        exact stays_bind (stays_of_raises (sftpMethod_stays peer)) fun _ => stays_print _
  | help =>
      change Stays i (cmdHelp interp)
      unfold cmdHelp
      split
      · exact stays_raise _
      · exact stays_printLines _

theorem stays_executeOne (line : Str) : Stays i (executeOne interp peer gap line) := by
  unfold executeOne
  split
  · exact stays_pure true
  · split
    · exact stays_pure false
    · split
      · exact stays_pure true
      · split
        · exact stays_bind (stays_print _) fun _ => stays_pure true
        · next command _ =>
          refine stays_bind ?_ fun _ => stays_pure true
          exact stays_onOSError (stays_runCommand interp peer gap _ command) fun _ => stays_print _

/-! ## The loops -/

theorem stays_untilFalse {β : Type} {body : β → Prog Shell Bool} (hbody : ∀ x, Stays i (body x))
    (xs : List β) : Stays i (untilFalse body xs) := by
  induction xs with
  | nil => exact stays_pure ()
  | cons x xs ih =>
      refine stays_bind (hbody x) fun go => ?_
      cases go with
      | true => exact ih
      | false => exact stays_pure ()

theorem stays_interactiveBatch (source : List Str) :
    Stays i (interactiveBatch interp peer gap source) :=
  stays_untilFalse (fun _ => stays_bind (stays_print _) fun _ =>
    stays_executeOne interp peer gap _) source

theorem stays_interactiveTyped (lines : List Str) :
    Stays i (interactiveTyped interp peer gap lines) := by
  induction lines with
  | nil => exact stays_bind (write_stays _) fun _ => stays_print []
  | cons line lines ih =>
      refine stays_bind (write_stays _) fun _ => ?_
      refine stays_bind (stays_executeOne interp peer gap line) fun go => ?_
      cases go with
      | true => exact ih
      | false => exact stays_pure ()

theorem stays_runBatch (batch : Str) : Stays i (runBatch interp peer gap batch) :=
  stays_bind (readLocal_stays peer batch) fun _ => stays_interactiveBatch interp peer gap _

/-! ## Sessions -/

/-- Nothing is open, and no login was refused. -/
abbrev AllClosed : World Shell → Prop := Closed fun _ => True

theorem initShell_ends : Triple (Stage (fun _ => True) (.sftp i)) (initShell peer i)
    (Ends (fun _ => InSftp i) E) := by
  have hrealpath : Triple (Stage (fun _ => True) (.sftp i))
      (onOSError (sftpRealpath peer i (str ".")) fun _ => pure (str "/"))
      (Ends (fun _ => Stage (fun _ => True) (.sftp i)) E) := by
    refine onOSError_ends (sftpMethod_stays peer) (fun _ => ?_) fun e w hne he => ?_
    · exact triple_pure fun _ hw => hw.2
    · obtain ⟨⟨text, rfl⟩, -⟩ := he
      exact absurd rfl (hne text)
  exact bind_ends hrealpath fun cwd => triple_modify fun _ hw => ⟨hw.level, rfl⟩

/-- The shell is left and the session closed, however the commands end. -/
theorem withShell_ends {body : Prog Shell Unit} (hbody : ∀ i, Stays i body) :
    Triple (Stage (fun _ => True) .connected) (withShell peer body)
      (Ends (fun _ => AllClosed) fun _ => AllClosed) := by
  have hclose : ∀ i, Triple (InSftp i) (sftpClose peer i)
      (Ends (fun _ => Stage (fun _ => True) .connected)
        fun _ => Stage (fun _ => True) .connected) := by
    intro i
    refine (ends_weaken (sftpClose_closes peer i) (fun _ w h => ?_) fun _ w h => h)
    exact ⟨h.level, trivial⟩
  have hinner : Triple (Stage (fun _ => True) .connected)
      (do
        let i ← sessionSftp peer
        initShell peer i
        tryFinally body (sftpClose peer i))
      (Ends (fun _ => Stage (fun _ => True) .connected)
        fun _ => Stage (fun _ => True) .connected) := by
    have hsftp := ends_of_raises (sessionSftp_opens (F := fun _ : Shell => True) peer)
    refine bind_ends hsftp fun i => ?_
    refine bind_ends (initShell_ends peer) fun _ => ?_
    exact finally_ends (hbody i) (fun _ => hclose i) fun _ => hclose i
  exact finally_ends hinner (fun _ => sessionClose_closes peer) fun _ => sessionClose_closes peer

theorem connected_ends {body : Prog Shell Unit} (hbody : ∀ i, Stays i body) (host : Str)
    (o : Opts) : Triple AllClosed
      (do
        connect peer host o.port o.user o.password
        withShell peer body
        pure (0 : Int))
      (Ends (fun _ => Finished) fun _ => Finished) := by
  have hconnect := ends_weaken (connect_ends (F := fun _ : Shell => True) peer host o.port o.user
    o.password) (fun _ _ h => h) fun _ _ h => h.2
  have hfinish := ends_weaken (withShell_ends peer hbody) (fun _ _ h => h)
    fun _ _ (h : AllClosed _) => h.finished
  refine bind_ends hconnect fun _ => bind_ends hfinish fun _ => ?_
  exact triple_pure fun _ hw => hw.finished

def Quits (a : Prog Shell Int) : Prop :=
  Triple AllClosed a (Ends (fun _ => Finished) fun _ => Finished)

theorem quits_writeErr (s : Str) {n : Int} : Quits (do writeErr s; pure n) := by
  refine bind_ends (Q := fun _ => AllClosed) ?_ fun _ => triple_pure fun _ hw => hw.finished
  exact triple_modify fun _ hw => ⟨⟨hw.stage.level, trivial⟩, hw.requests⟩

theorem closed_printLines (lines : List Str) :
    Triple AllClosed (printLines lines) (Ends (fun _ => AllClosed) E) := by
  induction lines with
  | nil => exact triple_pure fun _ hw => hw
  | cons line lines ih =>
      refine bind_ends (triple_modify fun _ hw => ?_) fun _ => ih
      exact ⟨⟨hw.stage.level, trivial⟩, hw.requests⟩

theorem quits_hostSession (typed : List Str) (o : Opts) :
    Quits (hostSession interp peer gap typed o) := by
  unfold hostSession
  split
  · exact quits_writeErr _
  · next spec _ _ =>
    have hconnect : Triple AllClosed
        (onOSError
          (do
            connect peer (splitRemote spec).1 o.port o.user o.password
            pure true)
          fun text => do
            writeErr (str "sftp: connect: " ++ text ++ str "\n")
            pure false)
        (Ends (fun connected => if connected then Stage (fun _ => True) .connected else Finished)
          fun _ => Finished) := by
      have hbody := ends_weaken (connect_ends (F := fun _ : Shell => True) peer
        (splitRemote spec).1 o.port o.user o.password) (fun _ _ h => h) fun _ _ h => h.2
      refine onOSError_ends (E := fun _ => Finished) ?_ (fun text => ?_) fun _ _ _ hw => hw
      · exact bind_ends hbody fun _ => triple_pure fun _ hw => hw
      · refine bind_ends (Q := fun _ => Finished) (triple_modify fun _ hw => hw) fun _ => ?_
        exact triple_pure fun _ hw => hw
    refine bind_ends hconnect fun connected => ?_
    cases connected with
    | false => exact triple_pure fun _ hw => hw
    | true =>
        have hfinish : ∀ {body : Prog Shell Unit}, (∀ i, Stays i body) →
            Triple (Stage (fun _ => True) .connected) (withShell peer body)
              (Ends (fun _ => Finished) fun _ => Finished) := fun hbody =>
          ends_weaken (withShell_ends peer hbody) (fun _ _ (h : AllClosed _) => h.finished)
            fun _ _ (h : AllClosed _) => h.finished
        refine bind_ends (Q := fun _ => Finished) (hfinish fun i => ?_) fun _ =>
          triple_pure fun _ hw => hw
        cases o.batch with
        | some batch => exact stays_runBatch interp peer gap batch
        | none => exact stays_bind (stays_print _) fun _ => stays_interactiveTyped interp peer gap _

theorem quits_main (typed : List Str) (depth : Nat) (argv : List Str) :
    Quits (main interp peer gap typed depth argv) := by
  apply main_induction
  · exact fun e => triple_raise fun _ hw => hw.finished
  · exact bind_ends (closed_printLines _) fun _ => triple_pure fun _ hw => hw.finished
  · exact fun s => quits_writeErr s
  · exact fun o src dst => connected_ends peer (fun i => stays_getFile peer _ _) _ o
  · exact fun o src dst => connected_ends peer (fun i => stays_putFile peer gap _ _) _ o
  · exact fun o => quits_hostSession interp peer gap typed o

def start : World Shell :=
  ⟨idle, fun _ => ⟨[], 0, [], [], []⟩, fun _ => [], fun _ => none, [], [], [], ⟨0, [], []⟩⟩

end FreedosMicroPython.Sftp
