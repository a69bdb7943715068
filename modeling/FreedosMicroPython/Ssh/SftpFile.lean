import FreedosMicroPython.Lib.Splice
import FreedosMicroPython.Ssh.Objects
import Mathlib.Algebra.Ring.Nat
/-!
# The bytes of an SFTP file

`ssh_sftp_file_read` and `ssh_sftp_file_write` of `port/modssh_uc386dos.c` on a file of the
server, which answers each call with as much as it likes. Without the bytes these are the
loops of the object model.
-/

namespace FreedosMicroPython.Ssh.SftpFile

open FreedosMicroPython.Lib.Runs FreedosMicroPython.Lib.Splice FreedosMicroPython.Ssh.Channel
open FreedosMicroPython.Ssh.Objects (sftpReadLoop sftpWriteLoop)

/-! ## The server -/

/-- A file that is open on the server. `answers` are what the next calls return where the
request and the file allow it, a negative one for an error; later calls are answered in full.
`results` lists what the calls did return, and `accepted` the bytes they took. -/
structure Remote where
  contents : List UInt8
  pos : Nat
  answers : List Int
  results : List Int
  accepted : List UInt8

namespace Remote

variable (f : Remote)

def remaining : List UInt8 := f.contents.drop f.pos

def answered (n : Int) : Remote :=
  { f with answers := f.answers.tail, results := f.results ++ [n] }

def advance (n : Nat) : Remote := { f.answered n with pos := f.pos + n }

/-- `bs` were written; `gap` is what a file holds that is extended beyond its end. -/
def store (gap : Nat → UInt8) (bs : List UInt8) : Remote :=
  { f.advance bs.length with
    contents := overwrite gap f.contents f.pos bs
    accepted := f.accepted ++ bs }

def Serves : Prop := ∀ a ∈ f.answers, 0 ≤ a

@[simp] theorem remaining_advance (n : Nat) : (f.advance n).remaining = f.remaining.drop n :=
  List.drop_drop.symm

end Remote

/-- `libssh2_sftp_read`: its result, what it stored in `buf` and the file afterwards. It
returns 0 at the end of the file only. -/
def libssh2SftpRead (f : Remote) (want : Nat) : Int × List UInt8 × Remote :=
  let avail := min want f.remaining.length
  let a := f.answers.head?.getD avail
  if a < 0 then (a, [], f.answered a)
  else
    let n := min (max a.toNat 1) avail
    (n, f.remaining.take n, f.advance n)

def libssh2SftpWrite (gap : Nat → UInt8) (f : Remote) (p : List UInt8) : Int × Remote :=
  let a := f.answers.head?.getD p.length
  if a ≤ 0 then (a, f.answered a)
  else
    let n := min a.toNat p.length
    (n, f.store gap (p.take n))

/-! ## The methods -/

theorem length_remaining_lt {f f' : Remote} {want : Nat} {n : Int} {buf : List UInt8}
    (h : libssh2SftpRead f want = (n, buf, f')) (hpos : 0 < n) :
    f'.remaining.length < f.remaining.length := by
  rw [libssh2SftpRead] at h
  split at h
  · next ha =>
      cases h
      exact absurd hpos (by omega)
  · next ha =>
      cases h
      rw [Remote.remaining_advance, List.length_drop]
      omega

/-- The loop of `ssh_sftp_file_read`; `maxLen` is negative when no size was given. -/
def readLoop (vstr : List UInt8) (maxLen : Int) (f : Remote) : Outcome (List UInt8) × Remote :=
  let want := if maxLen < 0 ∨ 1024 ≤ maxLen then 1024 else maxLen.toNat
  match _h : libssh2SftpRead f want with
  | (n, buf, f') =>
      if _hpos : 0 < n then
        if 0 < maxLen then
          if maxLen - n = 0 then (.returned (vstr ++ buf), f')
          else readLoop (vstr ++ buf) (maxLen - n) f'
        else readLoop (vstr ++ buf) maxLen f'
      else if n = 0 then (.returned vstr, f')
      else (.raised (.other n) "sftp_read", f')
termination_by f.remaining.length
decreasing_by all_goals exact length_remaining_lt _h _hpos

/-- `ssh_sftp_file_read`; a file object that is closed has no handle. -/
def sshSftpFileRead (handle : Option Remote) (size : Option Int) :
    Outcome (List UInt8) × Option Remote :=
  match handle with
  | none => (.badf, none)
  | some f => (readLoop [] (size.getD (-1)) f).map id some

/-- A number that `MP_OBJ_NEW_SMALL_INT` has put into 31 bits. -/
def mpObjNewSmallInt (n : Nat) : Int := (n : Int).bmod (2 ^ 31)

/-- The bytes of an object with the buffer protocol. -/
structure Buffer where
  buf : List UInt8
  fits : buf.length < 2 ^ 30

/-- The loop of `ssh_sftp_file_write`; the result is what `remaining` is in the end. -/
def writeLoop (gap : Nat → UInt8) (p : List UInt8) (f : Remote) : Outcome Nat × Remote :=
  if _hp : p = [] then (.returned 0, f)
  else
    match libssh2SftpWrite gap f p with
    | (n, f') =>
        if n < 0 then (.raised (.other n) "sftp_write", f')
        else if _hn : n = 0 then (.returned p.length, f')
        else writeLoop gap (p.drop n.toNat) f'
termination_by p.length
decreasing_by
  have hlen := List.length_pos_iff.mpr _hp
  rw [List.length_drop]
  omega

def sshSftpFileWrite (gap : Nat → UInt8) (handle : Option Remote) (bufinfo : Buffer) :
    Outcome Int × Option Remote :=
  match handle with
  | none => (.badf, none)
  | some f =>
      let (out, f') := writeLoop gap bufinfo.buf f
      (out.map fun remaining => mpObjNewSmallInt (bufinfo.buf.length - remaining), some f')

def nextBytes (maxLen : Int) (rest : List UInt8) : List UInt8 :=
  if maxLen < 0 then rest else rest.take maxLen.toNat

theorem results_libssh2SftpRead {f f' : Remote} {want : Nat} {n : Int} {buf : List UInt8}
    (h : libssh2SftpRead f want = (n, buf, f')) : f'.results = f.results ++ [n] := by
  rw [libssh2SftpRead] at h
  split at h <;> cases h <;> rfl

theorem results_libssh2SftpWrite {gap : Nat → UInt8} {f f' : Remote} {p : List UInt8} {n : Int}
    (h : libssh2SftpWrite gap f p = (n, f')) : f'.results = f.results ++ [n] := by
  rw [libssh2SftpWrite] at h
  split at h
  · cases h; rfl
  · cases h
    refine congrArg (fun n : Nat => f.results ++ [(n : Int)]) ?_
    rw [List.length_take]
    omega

/-- `bytes` were read from `f`, and no more. -/
structure ReadTo (f : Remote) (bytes : List UInt8) (f' : Remote) : Prop where
  contents : f'.contents = f.contents
  pos : f'.pos = f.pos + bytes.length
  accepted : f'.accepted = f.accepted
  serves : f'.Serves

theorem ReadTo.trans {f f' f'' : Remote} {bs cs : List UInt8} (h : ReadTo f bs f')
    (h' : ReadTo f' cs f'') : ReadTo f (bs ++ cs) f'' where
  contents := h'.contents.trans h.contents
  pos := by rw [h'.pos, h.pos, List.length_append, Nat.add_assoc]
  accepted := h'.accepted.trans h.accepted
  serves := h'.serves

/-- A call that brings something ends the loop where that was all, and shortens the rest of it
elsewhere. -/
theorem readLoop_of_some {f : Remote} {maxLen : Int} {n : Nat} {buf : List UInt8} {f' : Remote}
    (hread : libssh2SftpRead f (if maxLen < 0 ∨ 1024 ≤ maxLen then 1024 else maxLen.toNat) =
      ((n : Int), buf, f')) (hpos : 0 < n) (vstr : List UInt8) :
    readLoop vstr maxLen f =
      if maxLen = n then (.returned (vstr ++ buf), f')
      else readLoop (vstr ++ buf) (if 0 < maxLen then maxLen - n else maxLen) f' := by
  rw [readLoop]
  split
  next n' buf' f'' heq =>
    cases hread.symm.trans heq
    rw [dif_pos (by omega)]
    by_cases hmax : 0 < maxLen
    · rw [if_pos hmax, if_pos hmax]
      simp only [Int.sub_eq_zero]
    · rw [if_neg hmax, if_neg hmax, if_neg (by omega)]

theorem readLoop_of_none {f : Remote} {maxLen : Int} {buf : List UInt8} {f' : Remote}
    (hread : libssh2SftpRead f (if maxLen < 0 ∨ 1024 ≤ maxLen then 1024 else maxLen.toNat) =
      (0, buf, f')) (vstr : List UInt8) : readLoop vstr maxLen f = (.returned vstr, f') := by
  rw [readLoop]
  split
  next n' buf' f'' heq =>
    cases hread.symm.trans heq
    rw [dif_neg (by omega), if_pos rfl]

/-- The contents of a file behind a write; one that took nothing does not extend it. -/
def stored (gap : Nat → UInt8) (c : List UInt8) (pos : Nat) (bs : List UInt8) : List UInt8 :=
  if bs = [] then c else overwrite gap c pos bs

theorem stored_append (gap : Nat → UInt8) (c : List UInt8) (pos : Nat) (as bs : List UInt8) :
    stored gap (stored gap c pos as) (pos + as.length) bs = stored gap c pos (as ++ bs) := by
  by_cases has : as = []
  · rw [has, stored, stored, if_pos rfl, List.length_nil, Nat.add_zero, List.nil_append, stored]
  · by_cases hbs : bs = []
    · rw [hbs, List.append_nil, stored, if_pos rfl]
    · have hboth : as ++ bs ≠ [] := fun h => has (List.append_eq_nil_iff.mp h).1
      rw [stored, stored, stored, if_neg hbs, if_neg has, if_neg hboth, overwrite_overwrite]

/-- The server took `bytes`, in this order and at the position of the handle. -/
structure WroteTo (gap : Nat → UInt8) (f : Remote) (bytes : List UInt8) (f' : Remote) :
    Prop where
  contents : f'.contents = stored gap f.contents f.pos bytes
  pos : f'.pos = f.pos + bytes.length
  accepted : f'.accepted = f.accepted ++ bytes
  serves : f'.Serves

theorem WroteTo.trans {gap : Nat → UInt8} {f f' f'' : Remote} {bs cs : List UInt8}
    (h : WroteTo gap f bs f') (h' : WroteTo gap f' cs f'') : WroteTo gap f (bs ++ cs) f'' where
  contents := by rw [h'.contents, h.contents, h.pos, stored_append]
  pos := by rw [h'.pos, h.pos, List.length_append, Nat.add_assoc]
  accepted := by rw [h'.accepted, h.accepted, List.append_assoc]
  serves := h'.serves

theorem WroteTo.refl (gap : Nat → UInt8) {f : Remote} (hf : f.Serves) : WroteTo gap f [] f where
  contents := rfl
  pos := rfl
  accepted := (List.append_nil _).symm
  serves := hf

theorem mpObjNewSmallInt_eq {n : Nat} (hn : n < 2 ^ 30) : mpObjNewSmallInt n = n :=
  Int.bmod_eq_of_le (by omega) (by omega)

/-- What the object model makes of the results of the calls is how the method ends. -/
theorem sftpReadLoop_results (vstr : List UInt8) (maxLen : Int) (f : Remote) :
    ∃ ns, (readLoop vstr maxLen f).2.results = f.results ++ ns ∧
      (sftpReadLoop maxLen ns).1 = (readLoop vstr maxLen f).1.map fun _ => () := by
  fun_induction readLoop vstr maxLen f with
  | case1 vstr maxLen f want n buf f' h hpos hmax hlast =>
      refine ⟨[n], results_libssh2SftpRead h, ?_⟩
      rw [sftpReadLoop, if_pos hpos, if_pos hmax, if_pos hlast]
      rfl
  | case2 vstr maxLen f want n buf f' h hpos hmax hlast ih =>
      obtain ⟨ns, hresults, hloop⟩ := ih
      refine ⟨n :: ns, ?_, ?_⟩
      · rw [hresults, results_libssh2SftpRead h, List.append_assoc, List.singleton_append]
      · rw [sftpReadLoop, if_pos hpos, if_pos hmax, if_neg hlast, before_fst, hloop]
  | case3 vstr maxLen f want n buf f' h hpos hmax ih =>
      obtain ⟨ns, hresults, hloop⟩ := ih
      refine ⟨n :: ns, ?_, ?_⟩
      · rw [hresults, results_libssh2SftpRead h, List.append_assoc, List.singleton_append]
      · rw [sftpReadLoop, if_pos hpos, if_neg hmax, before_fst, hloop]
  | case4 vstr maxLen f want buf f' h hpos =>
      refine ⟨[0], results_libssh2SftpRead h, ?_⟩
      rw [sftpReadLoop, if_neg hpos, if_pos rfl]
      rfl
  | case5 vstr maxLen f want n buf f' h hpos hzero =>
      refine ⟨[n], results_libssh2SftpRead h, ?_⟩
      rw [sftpReadLoop, if_neg hpos, if_neg hzero]
      rfl

theorem sftpWriteLoop_results (gap : Nat → UInt8) (p : List UInt8) (f : Remote) :
    ∃ ns, (writeLoop gap p f).2.results = f.results ++ ns ∧
      (sftpWriteLoop p.length ns).1 = (writeLoop gap p f).1 := by
  fun_induction writeLoop gap p f with
  | case1 f => exact ⟨[], (List.append_nil _).symm, rfl⟩
  | case2 p f hp n f' h hneg =>
      obtain ⟨k, hk⟩ := Nat.exists_eq_add_one_of_ne_zero (mt List.eq_nil_of_length_eq_zero hp)
      refine ⟨[n], results_libssh2SftpWrite h, ?_⟩
      rw [hk, sftpWriteLoop, if_pos hneg]
  | case3 p f hp f' h hneg =>
      obtain ⟨k, hk⟩ := Nat.exists_eq_add_one_of_ne_zero (mt List.eq_nil_of_length_eq_zero hp)
      refine ⟨[0], results_libssh2SftpWrite h, ?_⟩
      rw [hk, sftpWriteLoop, if_neg hneg, if_pos rfl]
  | case4 p f hp n f' h hneg hzero ih =>
      obtain ⟨k, hk⟩ := Nat.exists_eq_add_one_of_ne_zero (mt List.eq_nil_of_length_eq_zero hp)
      obtain ⟨ns, hresults, hloop⟩ := ih
      refine ⟨n :: ns, ?_, ?_⟩
      · rw [hresults, results_libssh2SftpWrite h, List.append_assoc, List.singleton_append]
      · rw [hk, sftpWriteLoop, if_neg hneg, if_neg hzero, before_fst, ← hloop, List.length_drop,
          hk]

/-! ## Runs of calls -/

def reads (handle : Option Remote) (sizes : List (Option Int)) : List (Outcome (List UInt8)) :=
  emitted (fun handle size => (sshSftpFileRead handle size).2)
    (fun handle size => [(sshSftpFileRead handle size).1]) handle sizes

/-- Bytes cut into the pieces that reads of these sizes ask for. -/
def pieces (rest : List UInt8) : List (Option Int) → List (List UInt8)
  | [] => []
  | size :: sizes =>
      let piece := nextBytes (size.getD (-1)) rest
      piece :: pieces (rest.drop piece.length) sizes

end FreedosMicroPython.Ssh.SftpFile
