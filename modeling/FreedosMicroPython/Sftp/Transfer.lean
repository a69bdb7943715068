import FreedosMicroPython.Sftp.Shell
import FreedosMicroPython.Ssh.Transfer
/-!
# What get and put transfer

However the server cuts a file into answers, `get` writes the whole of it or leaves the local
files as they were, up to what DOS takes of the data; `put` never changes a local file, and
reports how much of its file the server took.
-/

namespace FreedosMicroPython.Sftp

open FreedosMicroPython.Lib.Action FreedosMicroPython.OsPath FreedosMicroPython.Ssh.Client
open FreedosMicroPython.Ssh.Transfer

variable {peer : Peer} {gap : Nat → UInt8}

/-- `get` leaves the local files as they were until it has the whole remote file. Where it
returns, the local file is the front of that file as far as DOS took it, and the size reported
is that of the remote file. -/
theorem getFile_exact (remoteArg : Option Str) (localArg : Str) (w : World Shell) :
    let out := getFile peer remoteArg localArg w
    let remote := resolve w.vars.cwd remoteArg
    let path := underLcwd w.vars localArg
    let data := (peer (w.requests ++ [.open_ (cStr remote) false])).remote.remaining
    (out.2.files = w.files ∨
        ∃ n, out.2.files = Function.update w.files path (some (data.take n))) ∧
      (out.1 = .value () →
        out.2.files =
            Function.update w.files path (some (data.take (peer out.2.requests).count)) ∧
          out.2.out = w.out ++ str "got " ++ strInt data.length ++ str " bytes to " ++ path ++
            [0x0A]) := by
  intro out remote path data
  have hopen := sftpOpen_spec peer w w.requests w.vars.sftp remote (str "r")
  have hrun : Triple (Asked w w.requests)
      (do
        let f ← sftpOpen peer w.vars.sftp remote (str "r")
        let bytes ← tryFinally (fileRead peer f) (fileClose peer f)
        writeLocal peer path bytes
        print (str "got " ++ strInt bytes.length ++ str " bytes to " ++ path))
      fun e w' => (w'.files = w.files ∨
          ∃ n, w'.files = Function.update w.files path (some (data.take n))) ∧
        (e = .value () →
          w'.files = Function.update w.files path (some (data.take (peer w'.requests).count)) ∧
            w'.out = w.out ++ str "got " ++ strInt data.length ++ str " bytes to " ++ path ++
              [0x0A]) := by
    refine Triple.bind hopen (fun f => ?_) (fun _ _ h => ⟨.inl h.1.files, nofun⟩)
      fun _ h => ⟨.inl h.1.files, nofun⟩
    have hread := gives_closed peer (f := f) (S := fun bytes _ => bytes = data)
      (fileRead_spec peer w f (peer (w.requests ++ [.open_ (cStr remote) false])).remote)
    refine Triple.bind (Triple.pre hread fun w' hw => ⟨hw.1, hw.2 f rfl⟩) (fun bytes => ?_)
      (fun _ _ h => ⟨.inl h.1.files, nofun⟩) fun _ h => ⟨.inl h.1.files, nofun⟩
    refine triple_of_fact (φ := bytes = data) (fun w' hw => hw.2 bytes rfl) fun hbytes => ?_
    rw [hbytes]
    have hwrite : Triple (Frame w) (writeLocal peer path data) fun e w' => Wrote w path data w' ∧
        (e = .value () → w'.files =
          Function.update w.files path (some (data.take (peer w'.requests).count))) := by
      intro w' hw'
      obtain ⟨hwrote, hvalue⟩ := writeLocal_spec peer w w'.requests path data w' ⟨hw', rfl⟩
      exact ⟨hwrote, fun he => (hvalue he).1 ▸ (hvalue he).2⟩
    refine Triple.bind (hwrite.pre fun w' hw => hw.1) (fun _ => ?_) (fun _ _ h => ⟨h.1.2, nofun⟩)
      fun _ h => ⟨h.1.2, nofun⟩
    refine triple_modify fun w'' hw'' => ⟨hw''.1.2, fun _ => ⟨hw''.2 rfl, ?_⟩⟩
    simp only [hw''.1.1, List.append_assoc]
  exact hrun w ⟨⟨rfl, rfl, rfl⟩, rfl⟩

/-- `put` never changes a local file. Where it returns it had read a local file, the server took
the front of that, at the place where the remote file was opened, and the size reported is what
the server took. -/
theorem putFile_exact (localArg : Str) (rest : List (Option Str)) (w : World Shell) :
    let out := putFile peer gap localArg rest w
    let path := underLcwd w.vars localArg
    let remote := resolve w.vars.cwd (rest.headD (some (baseName path)))
    let opened := (peer (w.requests ++
      [.localOpen path false, .localRead path, .open_ (cStr remote) true])).remote
    out.2.files = w.files ∧
      (out.1 = .value () →
        ∃ data f n, w.files path = some data ∧ Took gap opened data n (out.2.remotes f) ∧
          out.2.out = w.out ++ str "sent " ++ strInt n ++ str " bytes to " ++ remote ++
            [0x0A]) := by
  intro out path remote opened
  have hrun : Triple (Asked w w.requests)
      (do
        let data ← readLocal peer path
        let f ← sftpOpen peer w.vars.sftp remote (str "w")
        let n ← tryFinally (fileWrite peer gap f data) (fileClose peer f)
        print (str "sent " ++ strInt n ++ str " bytes to " ++ remote))
      fun e w' => w'.files = w.files ∧
        (e = .value () →
          ∃ data f n, w.files path = some data ∧ Took gap opened data n (w'.remotes f) ∧
            w'.out = w.out ++ str "sent " ++ strInt n ++ str " bytes to " ++ remote ++
              [0x0A]) := by
    refine Triple.bind (readLocal_spec peer w w.requests path) (fun data => ?_)
      (fun _ _ h => ⟨h.1.files, nofun⟩) fun _ h => ⟨h.1.files, nofun⟩
    refine triple_of_fact (φ := w.files path = some data.buf) (fun w₁ hw₁ => (hw₁.2 data rfl).1)
      fun hfile => ?_
    have hopen := sftpOpen_spec peer w (w.requests ++ [.localOpen path false, .localRead path])
      w.vars.sftp remote (str "w")
    refine Triple.bind (Triple.pre hopen fun w₁ hw₁ => ⟨hw₁.1, (hw₁.2 data rfl).2⟩) (fun f => ?_)
      (fun _ _ h => ⟨h.1.files, nofun⟩) fun _ h => ⟨h.1.files, nofun⟩
    have hwrite := gives_closed peer (f := f)
      (S := fun (k : Int) remote' => ∃ n : Nat, k = n ∧ Took gap opened data.buf n remote')
      (fileWrite_spec peer gap w f data opened)
    refine Triple.bind (Triple.pre hwrite fun w' hw => ⟨hw.1, ?_⟩) (fun k => ?_)
      (fun _ _ h => ⟨h.1.files, nofun⟩) fun _ h => ⟨h.1.files, nofun⟩
    · rw [hw.2 f rfl, List.append_assoc]
      rfl
    · refine triple_modify fun w' hw => ⟨hw.1.files, fun _ => ?_⟩
      obtain ⟨n, rfl, htook⟩ := hw.2 k rfl
      refine ⟨data.buf, f, n, hfile, htook, ?_⟩
      simp only [hw.1.out, List.append_assoc]
  exact hrun w ⟨⟨rfl, rfl, rfl⟩, rfl⟩

end FreedosMicroPython.Sftp
