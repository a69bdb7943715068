import FreedosMicroPython.Sftp.Rules
import FreedosMicroPython.Sftp.Sessions
import FreedosMicroPython.Ssh.Asking
/-!
# Every path that sftp sends is absolute

The working directory of the shell is what the server answered to a `realpath`. As long as
these answers are absolute, so is every path in a request of any run of `main`, but for the
dot that asks for the first directory, right behind the start of SFTP.
-/

namespace FreedosMicroPython.Sftp

open FreedosMicroPython.Lib.Action FreedosMicroPython.OsPath FreedosMicroPython.Ssh.Client

variable {interp : Interp} {peer : Peer} {gap : Nat → UInt8} {α : Type}

def Absolute (path : Str) : Prop := str "/" <+: path

theorem absolute_append {path : Str} (h : Absolute path) (rest : Str) : Absolute (path ++ rest) :=
  h.trans (List.prefix_append path rest)

theorem absolute_resolve {cwd : Str} (path : Option Str) (hcwd : Absolute cwd) :
    Absolute (resolve cwd path) := by
  cases path with
  | none => exact hcwd
  | some path =>
      simp only [resolve]
      split_ifs with hnil habsolute hdot hslash
      · exact hcwd
      · exact habsolute
      · exact hcwd
      · exact absolute_append hcwd path
      · exact absolute_append (absolute_append hcwd _) path

theorem pathLaw_absolute : PathLaw Absolute where
  slash := List.prefix_rfl
  resolve _ path hcwd := absolute_resolve path hcwd
  cStr path h := by
    obtain ⟨rest, rfl⟩ := h
    exact ⟨cStr rest, rfl⟩

/-- The server answers each `realpath` that it serves with an absolute path. -/
def AnswersAbsolute (peer : Peer) : Prop :=
  ∀ requests path, 0 ≤ (peer (requests ++ [.realpath path])).rc →
    Absolute (peer (requests ++ [.realpath path])).text

/-- Every request so far has absolute paths, or is the dot right behind the start of SFTP. -/
def Rooted (rs : List Request) : Prop :=
  ∀ pre r post, rs = pre ++ r :: post →
    PathsIn Absolute r ∨ r = .realpath (str ".") ∧ pre.getLast? = some .sftpInit

theorem rooted_nil : Rooted [] := fun pre r post h => by simp at h

theorem Rooted.append {rs : List Request} (hrs : Rooted rs) {r : Request}
    (hr : PathsIn Absolute r ∨ r = .realpath (str ".") ∧ rs.getLast? = some .sftpInit) :
    Rooted (rs ++ [r]) := by
  intro pre r' post hsplit
  rcases List.eq_nil_or_concat' post with rfl | ⟨post, last, rfl⟩
  · obtain ⟨rfl, hlast⟩ := List.append_inj' hsplit rfl
    obtain rfl : r = r' := List.head_eq_of_cons_eq hlast
    exact hr
  · rw [← List.cons_append, ← List.append_assoc] at hsplit
    exact hrs pre r' post (List.append_inj' hsplit rfl).1

theorem allowed_of_pathsIn {r : Request} (hr : PathsIn Absolute r) : Allowed Rooted r :=
  fun _ hrs => hrs.append (.inl hr)

abbrev RootedIn : World Shell → Prop := Asks Rooted fun sh => Absolute sh.cwd

theorem sftpRealpath_absolute (hpeer : AnswersAbsolute peer) {F : Shell → Prop} (i : Nat)
    {path : Str} {P₀ : List Request → Prop} (hstay : ∀ rs, P₀ rs → Rooted rs)
    (hpath : ∀ rs, P₀ rs → Rooted (rs ++ [.realpath (cStr path)])) :
    Triple (Asks P₀ F) (sftpRealpath peer i path)
      (fun e w => Asks Rooted F w ∧ ∀ name, e = .value name → Absolute name) := by
  refine method_asks (G := fun name _ => Absolute name) hstay hpath (allowed_of_pathsIn trivial)
    (fun _ _ => rfl) (fun _ _ => rfl) fun rs w x hx => ?_
  apply hpeer
  simp only [onSsh, Ssh.Objects.sshSftpRealpath, Ssh.Objects.sshSftpMethod] at hx
  split at hx
  · cases hx
  · split at hx
    · cases hx
    · next hrc => simpa using hrc

theorem rules_rooted (hpeer : AnswersAbsolute peer) :
    Rules peer Absolute fun _ a => Keeps RootedIn a where
  paths := pathLaw_absolute
  pure x := keeps_pure x
  raise e := keeps_raise e
  bind _ _ ha hf := ha.bind hf
  tryFinally _ _ ha hfinal := ha.finally hfinal
  onOSError _ _ ha hhandler := keeps_onOSError ha hhandler
  write s := keeps_write s
  reads g _ := keeps_reads g
  shell _ hf w hw := hf w.vars hw.vars w hw
  lcwd _ := keeps_modify fun _ hw => ⟨hw.requests, hw.vars⟩
  cwd i path hpath := by
    have hrealpath := sftpRealpath_absolute hpeer (F := fun sh : Shell => Absolute sh.cwd) i
      (fun _ h => h) (allowed_of_pathsIn (r := .realpath _) (pathLaw_absolute.cStr _ hpath))
    refine Triple.bind hrealpath (fun cwd => ?_) (fun _ _ h => h.1) fun _ h => h.1
    exact triple_modify fun w hw => ⟨hw.1.requests, hw.2 cwd rfl⟩
  ask _ hr := keeps_ask (allowed_of_pathsIn hr)
  method _ _ _ _ hr hm :=
    keeps_method (allowed_of_pathsIn hr) (allowed_of_pathsIn trivial) hm.vars hm.requests
  setLocal _ _ := keeps_modify fun _ hw => ⟨hw.requests, hw.vars⟩

/-! ## Runs -/

abbrev AllRooted : World Shell → Prop := Asks Rooted fun _ => True

theorem allRooted_of_rootedIn {w : World Shell} (h : RootedIn w) : AllRooted w :=
  ⟨h.requests, trivial⟩

def JustStarted (rs : List Request) : Prop := Rooted rs ∧ rs.getLast? = some .sftpInit

theorem sessionSftp_rooted : Triple AllRooted (sessionSftp peer)
    (fun e w => AllRooted w ∧ ∀ i, e = .value i → w.requests.getLast? = some .sftpInit) :=
  method_asks (G := fun _ rs => rs.getLast? = some .sftpInit) (fun _ h => h)
    (allowed_of_pathsIn trivial) (allowed_of_pathsIn trivial) (fun _ _ => rfl) (fun _ _ => rfl)
    fun _ _ _ _ => List.getLast?_concat

theorem initShell_rooted (hpeer : AnswersAbsolute peer) (i : Nat) :
    Triple (Asks JustStarted fun _ => True) (initShell peer i)
      (fun e w => AllRooted w ∧ (e = .value () → RootedIn w)) := by
  have hdot : Triple (Asks JustStarted fun _ => True) (sftpRealpath peer i (str "."))
      (fun e w => AllRooted w ∧ ∀ name, e = .value name → Absolute name) :=
    sftpRealpath_absolute hpeer i (fun _ h => h.1) fun _ h => h.1.append (.inr ⟨rfl, h.2⟩)
  have hcwd : Triple (Asks JustStarted fun _ => True)
      (onOSError (sftpRealpath peer i (str ".")) fun _ => pure (str "/"))
      (fun e w => AllRooted w ∧ ∀ name, e = .value name → Absolute name) := by
    refine Triple.except hdot (fun _ _ _ h => h) ?_
    intro e h he
    cases e with
    | osError text =>
        cases he
        refine triple_pure fun w hw => ⟨hw.1, fun name hname => ?_⟩
        cases hname
        exact List.prefix_rfl
    | _ => cases he
  refine Triple.bind hcwd (fun cwd => ?_) (fun _ _ h => ⟨h.1, nofun⟩) fun _ h => ⟨h.1, nofun⟩
  exact triple_modify fun w hw => ⟨⟨hw.1.requests, trivial⟩, fun _ => ⟨hw.1.requests, hw.2 cwd rfl⟩⟩

theorem keeps_withShell (hpeer : AnswersAbsolute peer) {body : Prog Shell Unit}
    (hbody : Keeps RootedIn body) : Keeps AllRooted (withShell peer body) := by
  have hany : ∀ {r : Request}, PathsIn Absolute r → Allowed Rooted r := allowed_of_pathsIn
  refine Keeps.finally ?_ (keeps_close (hany trivial) (hany trivial))
  refine Triple.bind sessionSftp_rooted (fun i => ?_) (fun _ _ h => h.1) fun _ h => h.1
  refine Triple.bind (Triple.pre (initShell_rooted hpeer i) fun w hw =>
    ⟨⟨hw.1.requests, hw.2 i rfl⟩, trivial⟩) (fun _ => ?_) (fun _ _ h => h.1) fun _ h => h.1
  refine Triple.pre ?_ fun w hw => hw.2 rfl
  have hclose : Keeps RootedIn (sftpClose peer i) :=
    keeps_close (hany trivial) (hany trivial)
  exact (hbody.finally hclose).post fun _ _ h => allRooted_of_rootedIn h

theorem keeps_connectRooted (host : Str) (port : Int) (user password : Str) :
    Keeps AllRooted (connect peer host port user password) := by
  have hany : ∀ {r : Request}, PathsIn Absolute r → Allowed Rooted r := allowed_of_pathsIn
  exact keeps_connect _ _ _ _ (hany trivial) (hany trivial) (hany trivial) (hany trivial)
    (hany trivial)

theorem keeps_connected (hpeer : AnswersAbsolute peer) {body : Prog Shell Unit}
    (hbody : Keeps RootedIn body) (host : Str) (o : Opts) :
    Keeps AllRooted (do
      connect peer host o.port o.user o.password
      withShell peer body
      pure (0 : Int)) := by
  refine (keeps_connectRooted _ _ _ _).bind fun _ => ?_
  exact (keeps_withShell hpeer hbody).bind fun _ => keeps_pure 0

theorem keeps_quit (s : Str) (n : Int) :
    Keeps AllRooted (do writeErr s; pure n) :=
  (keeps_writeErr s).bind fun _ => keeps_pure n

theorem keeps_usage (lines : List Str) : Keeps AllRooted (printLines lines) := by
  induction lines with
  | nil => exact keeps_pure ()
  | cons line lines ih => exact (keeps_write _).bind fun _ => ih

theorem keeps_hostSession (hpeer : AnswersAbsolute peer) (typed : List Str) (o : Opts) :
    Keeps AllRooted (hostSession interp peer gap typed o) := by
  unfold hostSession
  split
  · exact keeps_quit _ 2
  · refine Keeps.bind (keeps_onOSError ?_ fun text => ?_) fun connected => ?_
    · exact (keeps_connectRooted _ _ _ _).bind fun _ => keeps_pure true
    · exact (keeps_writeErr _).bind fun _ => keeps_pure false
    · split
      · refine (keeps_withShell hpeer ?_).bind fun _ => keeps_pure 0
        cases o.batch with
        | some batch => exact (rules_rooted hpeer).runBatch batch
        | none =>
            exact (keeps_write _).bind fun _ => (rules_rooted hpeer).interactiveTyped typed
      · exact keeps_pure 1

theorem keeps_main (hpeer : AnswersAbsolute peer) (typed : List Str) (depth : Nat)
    (argv : List Str) : Keeps AllRooted (main interp peer gap typed depth argv) := by
  apply main_induction
  · exact fun e => keeps_raise e
  · exact (keeps_usage _).bind fun _ => keeps_pure 0
  · exact fun s => keeps_quit s 2
  · exact fun o src dst => keeps_connected hpeer ((rules_rooted hpeer).getFile _ _) _ o
  · exact fun o src dst => keeps_connected hpeer ((rules_rooted hpeer).putFile _ _) _ o
  · exact fun o => keeps_hostSession hpeer typed o

/-- If the server answers `realpath` with absolute paths, every path that a run of `main` sends
is absolute, whatever is typed; only the request right behind the start of SFTP asks for a dot,
the first directory. -/
theorem main_paths_absolute (hpeer : AnswersAbsolute peer) (typed : List Str) (depth : Nat)
    (argv : List Str) {w : World Shell} (hrequests : w.requests = []) :
    ∀ pre r post, (main interp peer gap typed depth argv w).2.requests = pre ++ r :: post →
      PathsIn Absolute r ∨ r = .realpath (str ".") ∧ pre.getLast? = some .sftpInit := by
  have hw : AllRooted w := ⟨hrequests ▸ rooted_nil, trivial⟩
  exact (keeps_main hpeer typed depth argv w hw).requests

def oneDirectory : Peer := fun _ => { text := str "/home" }

theorem main_paths_absolute_oneDirectory :
    .unlink (str "/home/y") ∈ (main ⟨none, .ok []⟩ oneDirectory (fun _ => 0)
        [str "cd x", str "rm y"] 2 [str "host"] start).2.requests ∧
      PathsIn Absolute (.unlink (str "/home/y")) := by
  have hpeer : AnswersAbsolute oneDirectory :=
    fun _ _ _ => List.prefix_append (str "/") (str "home")
  have hasked : .unlink (str "/home/y") ∈ (main ⟨none, .ok []⟩ oneDirectory (fun _ => 0)
      [str "cd x", str "rm y"] 2 [str "host"] start).2.requests := by
    decide +kernel
  obtain ⟨pre, post, hsplit⟩ := List.append_of_mem hasked
  have hpath := main_paths_absolute hpeer _ 2 _ rfl pre _ post hsplit
  exact ⟨hasked, hpath.resolve_right nofun⟩

end FreedosMicroPython.Sftp
