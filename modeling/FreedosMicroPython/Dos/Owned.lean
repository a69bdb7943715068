import FreedosMicroPython.Dos.Program
/-!
# Objects own their handles

Under every script of outcomes, with calls that fail, are cut short or are refused: an
open file object has a DOS handle of its own, open on the file it was opened for, and a
call on one object does not touch the handle of another.
-/

namespace FreedosMicroPython.Dos.Owned

open FreedosMicroPython.Lib.Simulation FreedosMicroPython.Lib.Files
open FreedosMicroPython.Host FreedosMicroPython.Runtime
open FreedosMicroPython.Dos.Int21 FreedosMicroPython.Dos.Disk FreedosMicroPython.Dos.Syscall
open FreedosMicroPython.Dos.File FreedosMicroPython.Dos.Seek FreedosMicroPython.Dos.Mode
open FreedosMicroPython.Dos.Program

variable {κ : Type} [DecidableEq κ] {gap : Nat → UInt8} {resolve : List UInt8 → κ}
variable {m m' m'' : Machine (DosState κ)} {fd : Nat}

/-! ## What a call does to the handles -/

/-- At most the position of handle `fd` changes. -/
structure Moves (fd : Nat) (d d' : Lib.Files.Disk κ UInt8) : Prop where
  next : d'.next = d.next
  others : ∀ n, n ≠ fd → d'.handles n = d.handles n
  same : ∀ h, d.handles fd = some h → ∃ pos, d'.handles fd = some { h with pos := pos }

section
omit [DecidableEq κ]
variable {d d' d'' : Lib.Files.Disk κ UInt8}

theorem Moves.refl (fd : Nat) (d : Lib.Files.Disk κ UInt8) : Moves fd d d :=
  ⟨rfl, fun _ _ => rfl, fun h hh => ⟨h.pos, hh⟩⟩

theorem Moves.trans (h : Moves fd d d') (h' : Moves fd d' d'') : Moves fd d d'' := by
  refine ⟨h'.next.trans h.next, fun n hn => (h'.others n hn).trans (h.others n hn), ?_⟩
  intro x hx
  obtain ⟨pos, hpos⟩ := h.same x hx
  obtain ⟨pos', hpos'⟩ := h'.same _ hpos
  exact ⟨pos', hpos'⟩

theorem moves_setPos {h : Handle κ} (hh : d.handles fd = some h) (pos : Nat)
    (hnext : d'.next = d.next) (hhandles : d'.handles = (d.setPos fd h pos).handles) :
    Moves fd d d' := by
  refine ⟨hnext, fun n hn => ?_, fun x hx => ?_⟩
  · rw [hhandles, Disk.handles_setPos, Function.update_of_ne hn]
  · rw [hh] at hx
    cases hx
    exact ⟨pos, by rw [hhandles, Disk.handles_setPos, Function.update_self]⟩

theorem moves_readFile (n : Nat) (a : Answer) (d : Lib.Files.Disk κ UInt8) :
    Moves fd d (readFile fd n a d).2 := by
  unfold readFile
  cases hfd : d.handles fd with
  | none => exact .refl fd d
  | some h =>
      simp only
      split
      · exact .refl fd d
      · split
        · exact .refl fd d
        · exact moves_setPos hfd _ rfl rfl

theorem moves_seekLong (offset : Int) (whence : Nat) (a : Answer) (d : Lib.Files.Disk κ UInt8) :
    Moves fd d (seekLong fd offset whence a d).2 := by
  unfold seekLong seekFile
  cases hfd : d.handles fd with
  | none => exact .refl fd d
  | some h =>
      simp only
      split
      · exact .refl fd d
      · split
        · exact .refl fd d
        · exact moves_setPos hfd _ rfl rfl

end

theorem moves_writeFile (bs : List UInt8) (a : Answer) (d : Lib.Files.Disk κ UInt8) :
    Moves fd d (writeFile gap fd bs a d).2 := by
  unfold writeFile
  cases hfd : d.handles fd with
  | none => exact .refl fd d
  | some h =>
      simp only
      split
      · exact .refl fd d
      · split
        · exact .refl fd d
        · split
          · exact ⟨rfl, fun _ _ => rfl, fun x hx => ⟨x.pos, hx⟩⟩
          · exact moves_setPos hfd _ rfl rfl

structure MovesOnly (fd : Nat) (m m' : Machine (DosState κ)) : Prop where
  canCall : CanCall m'
  moves : Moves fd m.world.disk m'.world.disk

section
omit [DecidableEq κ]

theorem MovesOnly.refl (hm : CanCall m) (fd : Nat) : MovesOnly fd m m := ⟨hm, .refl fd _⟩

theorem MovesOnly.trans (h : MovesOnly fd m m') (h' : MovesOnly fd m' m'') :
    MovesOnly fd m m'' := ⟨h'.canCall, h.moves.trans h'.moves⟩

/-- What a service does under every answer, a call does under every outcome. -/
theorem syscall_disk {β : Type} {R : Lib.Files.Disk κ UInt8 → Lib.Files.Disk κ UInt8 → Prop}
    (hrefl : ∀ d, R d d)
    {f : Answer → Lib.Files.Disk κ UInt8 → Except Nat β × Lib.Files.Disk κ UInt8}
    (hf : ∀ a d, R d (f a d).2) (w : DosState κ) : R w.disk (syscall f w).2.disk := by
  cases hout : w.outcome 0 with
  | refused =>
      rw [syscall_of_refused hout]
      exact hrefl w.disk
  | served a =>
      rw [syscall_of_served hout]
      exact hf a w.disk

theorem movesOnly_of_performs {β : Type}
    {f : Answer → Lib.Files.Disk κ UInt8 → Except Nat β × Lib.Files.Disk κ UInt8}
    (hf : ∀ a d, Moves fd d (f a d).2) {call : Except Nat β × Machine (DosState κ)}
    (hcall : Performs f m call) : MovesOnly fd m call.2 := by
  refine ⟨hcall.canCall, ?_⟩
  rw [hcall.world]
  exact syscall_disk (.refl fd) hf m.world

end

variable (gap resolve) in
theorem movesOnly_read (hm : CanCall m) (hfd : fd < 0x10000) {count : Nat} (hcount : count ≠ 0) :
    MovesOnly fd m (dosInt21Read (dosWorld gap resolve) quietCall fd count m).2 :=
  movesOnly_of_performs (fun a d => moves_readFile _ a d)
    (dosInt21Read_performs gap resolve hm hfd hcount)

variable (gap resolve) in
theorem movesOnly_write (hm : CanCall m) (hfd : fd < 0x10000) {buf : List UInt8}
    (hbuf : buf ≠ []) :
    MovesOnly fd m (dosInt21Write (dosWorld gap resolve) quietCall fd buf m).2 :=
  movesOnly_of_performs (fun a d => moves_writeFile _ a d)
    (dosInt21Write_performs gap resolve hm hfd hbuf)

variable (gap resolve) in
theorem movesOnly_lseek (hm : CanCall m) (hfd : fd < 0x10000) (offset : Int) (whence : Nat) :
    MovesOnly fd m (dosInt21Lseek (dosWorld gap resolve) quietCall fd offset whence m).2 := by
  rw [← dosInt21Lseek_mod]
  exact movesOnly_of_performs (fun a d => moves_seekLong offset (whence % 256) a d)
    (dosInt21Lseek_performs gap resolve hm hfd offset _ (Nat.mod_lt _ (by decide)))

variable (gap resolve) in
theorem movesOnly_fsize (hm : CanCall m) (hfd : fd < 0x10000) :
    MovesOnly fd m (dosInt21Fsize (dosWorld gap resolve) quietCall fd m).2 := by
  have hcur := movesOnly_lseek gap resolve hm hfd 0 1
  have heof := hcur.trans (movesOnly_lseek gap resolve hcur.canCall hfd 0 2)
  rw [dosInt21Fsize]
  rcases hcall : dosInt21Lseek (dosWorld gap resolve) quietCall fd 0 1 m with ⟨cur | cur, m₁⟩
  · rwa [hcall] at hcur
  · rw [hcall] at hcur heof
    simp only
    split
    · exact hcur
    · rcases hcall' : dosInt21Lseek (dosWorld gap resolve) quietCall fd 0 2 m₁ with ⟨eof | eof, m₂⟩
      · rwa [hcall'] at heof
      · rw [hcall'] at heof
        simp only
        split
        · exact heof
        · exact heof.trans (movesOnly_lseek gap resolve heof.canCall hfd cur 0)

/-! ## The loops -/

variable (gap resolve) in
theorem movesOnly_fileReadLoop (hm : CanCall m) (hfd : fd < 0x10000) (size : Nat)
    (got : List UInt8) :
    MovesOnly fd m (fileReadLoop (dosWorld gap resolve) fd size got m).2 := by
  fun_induction fileReadLoop (dosWorld gap resolve) fd size got m with
  | case1 got m hlt e m₁ hcall =>
      have hread := movesOnly_read gap resolve hm hfd (Nat.sub_ne_zero_of_lt hlt)
      rwa [hcall] at hread
  | case2 got m hlt m₁ hcall =>
      have hread := movesOnly_read gap resolve hm hfd (Nat.sub_ne_zero_of_lt hlt)
      rwa [hcall] at hread
  | case3 got m hlt b bs m₁ hcall ih =>
      have hread := movesOnly_read gap resolve hm hfd (Nat.sub_ne_zero_of_lt hlt)
      rw [hcall] at hread
      exact hread.trans (ih hread.canCall)
  | case4 got m hlt => exact .refl hm fd

variable (gap resolve) in
theorem movesOnly_fileWriteLoop (hm : CanCall m) (hfd : fd < 0x10000) (buf : List UInt8)
    (total : Nat) :
    MovesOnly fd m (fileWriteLoop (dosWorld gap resolve) fd buf total m).2 := by
  have hrest : ∀ {total}, total < buf.length → buf.drop total ≠ [] := by
    intro total hlt
    simpa using hlt
  fun_induction fileWriteLoop (dosWorld gap resolve) fd buf total m with
  | case1 total m hlt e m₁ hcall =>
      have hwrite := movesOnly_write gap resolve hm hfd (hrest hlt)
      rwa [hcall] at hwrite
  | case2 total m hlt m₁ hcall =>
      have hwrite := movesOnly_write gap resolve hm hfd (hrest hlt)
      rwa [hcall] at hwrite
  | case3 total m hlt n m₁ hcall ih =>
      have hwrite := movesOnly_write gap resolve hm hfd (hrest hlt)
      rw [hcall] at hwrite
      exact hwrite.trans (ih hwrite.canCall)
  | case4 total m hlt => exact .refl hm fd

variable (gap resolve) in
theorem movesOnly_lexerReadLoop (hm : CanCall m) (hfd : fd < 0x10000) (size : Nat)
    (buf : List UInt8) :
    MovesOnly fd m (lexerReadLoop (dosWorld gap resolve) fd size buf m).2 := by
  fun_induction lexerReadLoop (dosWorld gap resolve) fd size buf m with
  | case1 buf m hlt e m₁ hcall =>
      have hread := movesOnly_read gap resolve hm hfd (Nat.sub_ne_zero_of_lt hlt)
      rwa [hcall] at hread
  | case2 buf m hlt m₁ hcall =>
      have hread := movesOnly_read gap resolve hm hfd (Nat.sub_ne_zero_of_lt hlt)
      rwa [hcall] at hread
  | case3 buf m hlt b bs m₁ hcall ih =>
      have hread := movesOnly_read gap resolve hm hfd (Nat.sub_ne_zero_of_lt hlt)
      rw [hcall] at hread
      exact hread.trans (ih hread.canCall)
  | case4 buf m hlt => exact .refl hm fd

/-! ## Closing -/

structure Closes (fd : Nat) (d d' : Lib.Files.Disk κ UInt8) : Prop where
  next : d'.next = d.next
  others : ∀ n, n ≠ fd → d'.handles n = d.handles n

omit [DecidableEq κ] in
theorem closes_closeFile (a : Answer) (d : Lib.Files.Disk κ UInt8) :
    Closes fd d (closeFile fd a d).2 := by
  unfold closeFile
  cases hfd : d.handles fd with
  | none => exact ⟨rfl, fun _ _ => rfl⟩
  | some h =>
      simp only
      split
      · exact ⟨rfl, fun _ _ => rfl⟩
      · exact ⟨rfl, fun n hn => Function.update_of_ne hn _ _⟩

variable (gap resolve) in
theorem closes_close (hm : CanCall m) (hfd : fd < 0x10000) :
    CanCall (dosInt21Close (dosWorld gap resolve) quietCall fd m).2 ∧
      Closes fd m.world.disk
        (dosInt21Close (dosWorld gap resolve) quietCall fd m).2.world.disk := by
  have hperf := dosInt21Close_performs gap resolve hm hfd
  refine ⟨hperf.canCall, ?_⟩
  rw [hperf.world]
  apply syscall_disk (R := Closes fd) (fun d => ⟨rfl, fun _ _ => rfl⟩)
  exact fun a d => closes_closeFile a d

/-! ## Opening -/

/-- What an open leaves: a handle that was not in use before, at the file, or nothing new. -/
def Opens (k : κ) (d d' : Lib.Files.Disk κ UInt8) : Except Nat Nat → Prop
  | .ok fd => fd = d.next ∧ fd < 0x10000 ∧ d'.next = d.next + 1 ∧
      (∀ n, n ≠ fd → d'.handles n = d.handles n) ∧
      ∃ h, d'.handles fd = some h ∧ h.file = k
  | .error _ => d'.next = d.next ∧ d'.handles = d.handles

/-- A call that opens a file, and the machine after it. -/
structure OpensAt (k : κ) (m : Machine (DosState κ))
    (out : Except Nat Nat × Machine (DosState κ)) : Prop where
  canCall : CanCall out.2
  opens : Opens k m.world.disk out.2.world.disk out.1

omit [DecidableEq κ] in
theorem opens_openFile (k : κ) (access : Nat) (a : Answer) (d : Lib.Files.Disk κ UInt8) :
    Opens k d (openFile k access a d).2 (openFile k access a d).1 := by
  unfold openFile
  split
  · exact ⟨rfl, rfl⟩
  · split
    · exact ⟨rfl, rfl⟩
    · split
      · exact ⟨rfl, rfl⟩
      · exact ⟨rfl, by simp only [Disk.openHandle]; omega, rfl,
          fun n hn => Function.update_of_ne hn _ _, _, Function.update_self _ _ _, rfl⟩

theorem opens_creatFile (k : κ) (a : Answer) (d : Lib.Files.Disk κ UInt8) :
    Opens k d (creatFile k a d).2 (creatFile k a d).1 := by
  unfold creatFile
  split
  · exact ⟨rfl, rfl⟩
  · split
    · exact ⟨rfl, rfl⟩
    · exact ⟨rfl, by simp only [Disk.create, Disk.openHandle, Disk.setFile]; omega, rfl,
        fun n hn => Function.update_of_ne hn _ _, _, Function.update_self _ _ _, rfl⟩

omit [DecidableEq κ] in
theorem opensAt_of_performs {k : κ}
    {f : Answer → Lib.Files.Disk κ UInt8 → Except Nat Nat × Lib.Files.Disk κ UInt8}
    (hf : ∀ a d, Opens k d (f a d).2 (f a d).1) {call : Except Nat Nat × Machine (DosState κ)}
    (hcall : Performs f m call) : OpensAt k m call := by
  refine ⟨hcall.canCall, ?_⟩
  rw [hcall.world, hcall.result]
  cases hout : m.world.outcome 0 with
  | refused =>
      rw [syscall_of_refused hout]
      exact ⟨rfl, rfl⟩
  | served a =>
      rw [syscall_of_served hout]
      have hopens := hf a m.world.disk
      rcases hr : (f a m.world.disk).1 with e | fd
      · rw [hr] at hopens
        exact hopens
      · rw [hr] at hopens
        exact hopens

variable (gap resolve) in
theorem opensAt_open (hm : CanCall m) (path : CString) (access : Nat) :
    OpensAt (resolve path.bytes) m
      (dosInt21Open (dosWorld gap resolve) quietCall path access m) := by
  by_cases hlen : path.bytes.length < 1024
  · exact opensAt_of_performs (fun a d => opens_openFile _ _ a d)
      (dosInt21Open_performs gap resolve hm hlen access)
  · have hlong : dosInt21Open (dosWorld gap resolve) quietCall path access m = (.error 0, m) := by
      simp [dosInt21Open, pathCall, Nat.not_lt.mp hlen]
    rw [hlong]
    exact ⟨hm, rfl, rfl⟩

variable (gap resolve) in
theorem opensAt_creat (hm : CanCall m) (path : CString) :
    OpensAt (resolve path.bytes) m (dosInt21Creat (dosWorld gap resolve) quietCall path m) := by
  by_cases hlen : path.bytes.length < 1024
  · exact opensAt_of_performs (fun a d => opens_creatFile _ a d)
      (dosInt21Creat_performs gap resolve hm hlen)
  · have hlong : dosInt21Creat (dosWorld gap resolve) quietCall path m = (.error 0, m) := by
      simp [dosInt21Creat, pathCall, Nat.not_lt.mp hlen]
    rw [hlong]
    exact ⟨hm, rfl, rfl⟩

theorem OpensAt.seekEnd {k : κ} (h : OpensAt k m (.ok fd, m')) :
    OpensAt k m (.ok fd, seekEnd (dosWorld gap resolve) fd m') := by
  obtain ⟨hcan, hfd, hlt, hnext, hothers, x, hx, hfile⟩ := h
  obtain ⟨hcan', hnext', hothers', hsame⟩ := movesOnly_lseek gap resolve hcan hlt 0 2
  obtain ⟨pos, hpos⟩ := hsame x hx
  exact ⟨hcan', hfd, hlt, hnext'.trans hnext,
    fun n hn => (hothers' n hn).trans (hothers n hn), _, hpos, hfile⟩

omit [DecidableEq κ] in
theorem OpensAt.after {k : κ} {e : Nat} {out : Except Nat Nat × Machine (DosState κ)}
    (h : OpensAt k m (.error e, m')) (h' : OpensAt k m' out) : OpensAt k m out := by
  obtain ⟨-, hnext, hhandles⟩ := h
  obtain ⟨hcan, hopens⟩ := h'
  refine ⟨hcan, ?_⟩
  simp only at hnext hhandles
  rcases hr : out.1 with e' | fd
  · rw [hr] at hopens
    exact ⟨hopens.1.trans hnext, hopens.2.trans hhandles⟩
  · rw [hr] at hopens
    obtain ⟨hfd, hlt, hnext', hothers, hx⟩ := hopens
    refine ⟨by rw [hfd, hnext], hlt, by rw [hnext', hnext], fun n hn => ?_, hx⟩
    rw [hothers n hn, hhandles]

variable (gap resolve) in
theorem opensAt_send (hm : CanCall m) (fname : CString) (r : Mode.Request) :
    OpensAt (resolve fname.bytes) m (r.send (dosWorld gap resolve) fname m) := by
  cases r with
  | creat => exact opensAt_creat gap resolve hm fname
  | open_ access => exact opensAt_open gap resolve hm fname access
  | append access =>
      have hopen := opensAt_open gap resolve hm fname access
      rw [Request.send, openAppend]
      rcases hcall : dosInt21Open (dosWorld gap resolve) quietCall fname access m with
        ⟨e | fd, m₁⟩
      · rw [hcall] at hopen
        have hcreat := opensAt_creat gap resolve hopen.canCall fname
        simp only
        rcases hcall' : dosInt21Creat (dosWorld gap resolve) quietCall fname m₁ with ⟨e' | fd, m₂⟩
        · rw [hcall'] at hcreat
          exact hopen.after hcreat
        · rw [hcall'] at hcreat
          exact hopen.after hcreat.seekEnd
      · rw [hcall] at hopen
        exact hopen.seekEnd

/-! ## The invariant -/

variable {s : Session κ} {ks : List κ}

/-- Every object that is not closed has a handle that no other one has, open on its file;
`ks` are the files in the order of the objects. -/
structure Owns (s : Session κ) (ks : List κ) : Prop where
  canCall : CanCall s.machine
  length : s.objs.length = ks.length
  handle : ∀ (i : Nat) (o : FileObj), s.objs[i]? = some o → 0 ≤ o.fd →
    o.fd < s.machine.world.disk.next ∧ o.fd < 0x10000 ∧
      ∃ h, s.machine.world.disk.handles o.fd.toNat = some h ∧ ks[i]? = some h.file
  own : ∀ (i j : Nat) (o o' : FileObj), s.objs[i]? = some o → s.objs[j]? = some o' →
    0 ≤ o.fd → o.fd = o'.fd → i = j

section
omit [DecidableEq κ]

theorem Owns.moved (hs : Owns s ks) (hmoves : MovesOnly fd s.machine m') :
    Owns ⟨s.objs, m'⟩ ks := by
  refine ⟨hmoves.canCall, hs.length, fun i o hi hpos => ?_, hs.own⟩
  obtain ⟨hlt, hword, h, hh, hk⟩ := hs.handle i o hi hpos
  refine ⟨by rw [hmoves.moves.next]; exact hlt, hword, ?_⟩
  by_cases hfd : o.fd.toNat = fd
  · obtain ⟨pos, hpos⟩ := hmoves.moves.same h (hfd ▸ hh)
    exact ⟨{ h with pos := pos }, by simp only [hfd]; exact hpos, hk⟩
  · exact ⟨h, (hmoves.moves.others _ hfd).trans hh, hk⟩

theorem Owns.unowned (hs : Owns s ks) (hcan : CanCall m')
    (hnext : s.machine.world.disk.next ≤ m'.world.disk.next)
    (hothers : ∀ n < s.machine.world.disk.next,
      m'.world.disk.handles n = s.machine.world.disk.handles n) :
    Owns ⟨s.objs, m'⟩ ks := by
  refine ⟨hcan, hs.length, fun i o hi hpos => ?_, hs.own⟩
  obtain ⟨hlt, hword, h, hh, hk⟩ := hs.handle i o hi hpos
  exact ⟨by simp only; omega, hword, h, (hothers _ (by omega)).trans hh, hk⟩

theorem Owns.closed (hs : Owns s ks) {i n : Nat} {o : FileObj} (hi : s.objs[i]? = some o)
    (hfd : o.fd = n) (hcan : CanCall m')
    (hcloses : Closes n s.machine.world.disk m'.world.disk) :
    Owns ⟨s.objs.set i { o with fd := -1 }, m'⟩ ks := by
  have hother : ∀ (j : Nat) (p : FileObj),
      (s.objs.set i { o with fd := -1 })[j]? = some p → 0 ≤ p.fd →
        i ≠ j ∧ s.objs[j]? = some p := by
    intro j p hj hpos
    rw [List.getElem?_set] at hj
    split at hj
    · split at hj
      · cases hj
        simp only at hpos
        omega
      · cases hj
    · exact ⟨‹_›, hj⟩
  refine ⟨hcan, by simpa using hs.length, fun j p hj hpos => ?_, fun j k p q hj hk hpos hpq => ?_⟩
  · obtain ⟨hij, hj⟩ := hother j p hj hpos
    obtain ⟨hlt, hword, h, hh, hk⟩ := hs.handle j p hj hpos
    have hne : p.fd.toNat ≠ n := by
      intro heq
      exact hij (hs.own i j o p hi hj (by omega) (by omega))
    exact ⟨by rw [hcloses.next]; exact hlt, hword, h, (hcloses.others _ hne).trans hh, hk⟩
  · obtain ⟨-, hj⟩ := hother j p hj hpos
    obtain ⟨-, hk⟩ := hother k q hk (hpq ▸ hpos)
    exact hs.own j k p q hj hk hpos hpq

theorem Owns.opened (hs : Owns s ks) {k : κ} (hopens : OpensAt k s.machine (.ok fd, m'))
    (type : FileType) : Owns ⟨s.objs ++ [⟨type, fd⟩], m'⟩ (ks ++ [k]) := by
  obtain ⟨hcan, hfd, hword, hnext, hothers, x, hx, hfile⟩ := hopens
  simp only at hfd hnext hothers hx
  have hlength := hs.length
  have hcase : ∀ (j : Nat) (p : FileObj), (s.objs ++ [⟨type, fd⟩])[j]? = some p →
      s.objs[j]? = some p ∧ j < s.objs.length ∨ j = s.objs.length ∧ p = ⟨type, fd⟩ := by
    intro j p hj
    rw [List.getElem?_append] at hj
    split at hj
    · exact .inl ⟨hj, ‹_›⟩
    · rw [List.getElem?_singleton] at hj
      split at hj
      · cases hj
        exact .inr ⟨by omega, rfl⟩
      · cases hj
  refine ⟨hcan, by simp [hlength], fun j p hj hpos => ?_, fun j i p q hj hi hpos hpq => ?_⟩
  · rcases hcase j p hj with ⟨hj, hlt⟩ | ⟨rfl, rfl⟩
    · obtain ⟨hpnext, hpword, h, hh, hk⟩ := hs.handle j p hj hpos
      refine ⟨by simp only; omega, hpword, h, (hothers _ (by omega)).trans hh, ?_⟩
      rwa [List.getElem?_append_left (by omega)]
    · refine ⟨by simp only; omega, by simp only; omega, x, by simpa using hx, ?_⟩
      rw [hlength, List.getElem?_concat_length, hfile]
  · have hbelow : ∀ (j : Nat) (p : FileObj), s.objs[j]? = some p → 0 ≤ p.fd → p.fd < fd := by
      intro j p hj hpos
      obtain ⟨hlt, -⟩ := hs.handle j p hj hpos
      omega
    rcases hcase j p hj with ⟨hj, -⟩ | ⟨rfl, rfl⟩ <;>
      rcases hcase i q hi with ⟨hi, -⟩ | ⟨rfl, rfl⟩
    · exact hs.own j i p q hj hi hpos hpq
    · have := hbelow j p hj hpos
      simp only at hpq
      omega
    · have := hbelow i q hi (hpq ▸ hpos)
      simp only at hpq
      omega
    · rfl

end

/-! ## One step -/

def object : Op → Option Nat
  | .read i _ | .write i _ | .ioctl i _ => some i
  | .open_ .. | .importStat _ | .lexer _ => none

/-- The handles of other objects, and those that belong to none, are as before. -/
def Leaves (s : Session κ) (op : Op) (d' : Lib.Files.Disk κ UInt8) : Prop :=
  ∀ n < s.machine.world.disk.next,
    (∀ i o, object op = some i → s.objs[i]? = some o → o.fd ≠ (n : Int)) →
    d'.handles n = s.machine.world.disk.handles n

def newFile (resolve : List UInt8 → κ) : Op → Result → Option κ
  | .open_ fname _, .opened _ => some (resolve fname.bytes)
  | _, _ => none

omit [DecidableEq κ] in
theorem leaves_of_others {op : Op} {i : Nat} {o : FileObj} {n : Nat} (hop : object op = some i)
    (hi : s.objs[i]? = some o) (hfd : o.fd = n) {d' : Lib.Files.Disk κ UInt8}
    (hothers : ∀ k, k ≠ n → d'.handles k = s.machine.world.disk.handles k) : Leaves s op d' := by
  intro k _ hk
  apply hothers
  rintro rfl
  exact hk i o hop hi hfd

section
omit [DecidableEq κ]

theorem owns_moved (hs : Owns s ks) {op : Op} {i : Nat} {o : FileObj} (hop : object op = some i)
    (hi : s.objs[i]? = some o) (hpos : 0 ≤ o.fd)
    (hmoves : ∀ n : Nat, n < 0x10000 → o.fd = n → MovesOnly n s.machine m') :
    Owns ⟨s.objs, m'⟩ ks ∧ Leaves s op m'.world.disk := by
  obtain ⟨n, hn⟩ := Int.eq_ofNat_of_zero_le hpos
  obtain ⟨-, hword, -⟩ := hs.handle i o hi hpos
  have hm' := hmoves n (by omega) hn
  exact ⟨hs.moved hm', leaves_of_others hop hi hn hm'.moves.others⟩

theorem owns_transient (hs : Owns s ks) {k : κ} (hopens : OpensAt k s.machine (.ok fd, m'))
    (hmoves : MovesOnly fd m' m'') (hcan : CanCall m)
    (hcloses : Closes fd m''.world.disk m.world.disk) (op : Op) :
    Owns ⟨s.objs, m⟩ ks ∧ Leaves s op m.world.disk := by
  obtain ⟨-, hfd, hword, hnext, hothers, -⟩ := hopens
  simp only at hfd hnext hothers
  have hsame : ∀ n < s.machine.world.disk.next,
      m.world.disk.handles n = s.machine.world.disk.handles n := by
    intro n hn
    have hne : n ≠ fd := by omega
    rw [hcloses.others n hne, hmoves.moves.others n hne, hothers n hne]
  refine ⟨hs.unowned hcan ?_ hsame, fun n hn _ => hsame n hn⟩
  rw [hcloses.next, hmoves.moves.next, hnext]
  omega

theorem owns_notOpened (hs : Owns s ks) {k : κ} {e : Nat}
    (hopens : OpensAt k s.machine (.error e, m')) (op : Op) :
    Owns ⟨s.objs, m'⟩ ks ∧ Leaves s op m'.world.disk := by
  obtain ⟨hcan, hnext, hhandles⟩ := hopens
  simp only at hnext hhandles
  exact ⟨hs.unowned hcan (by omega) fun n _ => by rw [hhandles], fun n _ _ => by rw [hhandles]⟩

end

variable (gap resolve) in
theorem owns_lexer (hs : Owns s ks) (filename : CString) :
    Owns (step gap resolve s (.lexer filename)).2 ks ∧
      Leaves s (.lexer filename) (step gap resolve s (.lexer filename)).2.machine.world.disk := by
  have hopen := opensAt_open gap resolve hs.canCall filename 0
  simp only [step, mpLexerNewFromFile]
  rcases hcall : dosInt21Open (dosWorld gap resolve) quietCall filename 0 s.machine with
    ⟨e | fd, m₁⟩
  · rw [hcall] at hopen
    exact owns_notOpened hs hopen _
  · rw [hcall] at hopen
    have ⟨hcan, _, hword, _⟩ := hopen
    have hsize := movesOnly_fsize gap resolve hcan hword
    simp only [lexerLoad]
    rcases hcall' : dosInt21Fsize (dosWorld gap resolve) quietCall fd m₁ with ⟨size | size, m₂⟩
    · rw [hcall'] at hsize
      obtain ⟨hcan', hcloses⟩ := closes_close gap resolve hsize.canCall hword
      exact owns_transient hs hopen hsize hcan' hcloses _
    · rw [hcall'] at hsize
      have hloop := hsize.trans
        (movesOnly_lexerReadLoop gap resolve hsize.canCall hword size.toNat [])
      obtain ⟨hcan', hcloses⟩ := closes_close gap resolve hloop.canCall hword
      exact owns_transient hs hopen hloop hcan' hcloses _

variable (gap resolve) in
theorem owns_importStat (hs : Owns s ks) (path : CString) :
    Owns (step gap resolve s (.importStat path)).2 ks ∧
      Leaves s (.importStat path) (step gap resolve s (.importStat path)).2.machine.world.disk := by
  have hopen := opensAt_open gap resolve hs.canCall path 0
  simp only [step, mpImportStat]
  rcases hcall : dosInt21Open (dosWorld gap resolve) quietCall path 0 s.machine with ⟨e | fd, m₁⟩
  · rw [hcall] at hopen
    exact owns_notOpened hs hopen _
  · rw [hcall] at hopen
    have ⟨hcan, _, hword, _⟩ := hopen
    obtain ⟨hcan', hcloses⟩ := closes_close gap resolve hcan hword
    exact owns_transient hs hopen (.refl hcan fd) hcan' hcloses _

variable (gap resolve) in
theorem owns_open (hs : Owns s ks) (fname : CString) (modeS : Option (List Char)) :
    Owns (step gap resolve s (.open_ fname modeS)).2
        (ks ++ (newFile resolve (.open_ fname modeS)
          (step gap resolve s (.open_ fname modeS)).1).toList) ∧
      Leaves s (.open_ fname modeS)
        (step gap resolve s (.open_ fname modeS)).2.machine.world.disk := by
  have hsome : uc386dosBuiltinOpen (dosWorld gap resolve) fname modeS s.machine =
      uc386dosBuiltinOpen (dosWorld gap resolve) fname (some (modeS.getD ['r'])) s.machine := by
    cases modeS <;> rfl
  have hsend := opensAt_send gap resolve hs.canCall fname
    (request (parseMode (modeS.getD ['r'])))
  simp only [step, hsome, uc386dosBuiltinOpen_eq]
  rcases hcall : (request (parseMode (modeS.getD ['r']))).send (dosWorld gap resolve) fname
    s.machine with ⟨e | fd, m₁⟩
  · rw [hcall] at hsend
    simpa [newFile] using owns_notOpened hs hsend _
  · rw [hcall] at hsend
    refine ⟨hs.opened hsend _, fun n hn _ => ?_⟩
    obtain ⟨-, hfd, -, -, hothers, -⟩ := hsend
    simp only at hfd hothers
    exact hothers n (by omega)

variable (gap resolve) in
theorem owns_ioctl (hs : Owns s ks) (i : Nat) (request : File.Request) :
    Owns (step gap resolve s (.ioctl i request)).2 ks ∧
      Leaves s (.ioctl i request) (step gap resolve s (.ioctl i request)).2.machine.world.disk := by
  have hstill : Owns s ks ∧ Leaves s (.ioctl i request) s.machine.world.disk :=
    ⟨hs, fun _ _ _ => rfl⟩
  cases hi : s.objs[i]? with
  | none => simpa only [step, hi] using hstill
  | some o =>
      have hset : s.objs.set i o = s.objs := by
        obtain ⟨hlt, rfl⟩ := List.getElem?_eq_some_iff.mp hi
        exact List.set_getElem_self hlt
      simp only [step, hi]
      cases request with
      | flush => simpa only [uc386dosFileIoctl, hset] using hstill
      | other => simpa only [uc386dosFileIoctl, hset] using hstill
      | close =>
          rw [uc386dosFileIoctl]
          split
          · rename_i hpos
            obtain ⟨n, hn⟩ := Int.eq_ofNat_of_zero_le hpos
            obtain ⟨-, hword, -⟩ := hs.handle i o hi hpos
            have hlt : n < 0x10000 := by omega
            obtain ⟨hcan, hcloses⟩ := closes_close gap resolve hs.canCall hlt
            simp only [hn]
            exact ⟨hs.closed hi hn hcan hcloses, leaves_of_others rfl hi hn hcloses.others⟩
          · simpa only [hset] using hstill
      | seek offset whence =>
          have hseek : 0 ≤ o.fd → Owns ⟨s.objs, (dosInt21Lseek (dosWorld gap resolve) quietCall o.fd
              offset whence s.machine).2⟩ ks ∧ Leaves s (.ioctl i (.seek offset whence))
                (dosInt21Lseek (dosWorld gap resolve) quietCall o.fd offset whence
                  s.machine).2.world.disk := by
            intro hpos
            apply owns_moved hs rfl hi hpos
            intro n hlt hn
            rw [hn]
            exact movesOnly_lseek gap resolve hs.canCall hlt offset whence
          rw [uc386dosFileIoctl]
          split
          · simpa only [hset] using hstill
          · have hseek := hseek (by omega)
            rcases hcall : dosInt21Lseek (dosWorld gap resolve) quietCall o.fd offset whence
              s.machine with ⟨e | pos, m₁⟩
            · rw [hcall] at hseek
              simpa only [hset] using hseek
            · rw [hcall] at hseek
              simp only
              split <;> simpa only [hset] using hseek

variable (gap resolve) in
theorem owns_step (hs : Owns s ks) (op : Op) :
    Owns (step gap resolve s op).2
        (ks ++ (newFile resolve op (step gap resolve s op).1).toList) ∧
      Leaves s op (step gap resolve s op).2.machine.world.disk := by
  have hstill : Owns s ks ∧ Leaves s op s.machine.world.disk := ⟨hs, fun _ _ _ => rfl⟩
  cases op with
  | open_ fname modeS => exact owns_open gap resolve hs fname modeS
  | importStat path => simpa [newFile] using owns_importStat gap resolve hs path
  | lexer filename => simpa [newFile] using owns_lexer gap resolve hs filename
  | ioctl i request => simpa [newFile] using owns_ioctl gap resolve hs i request
  | read i size =>
      simp only [newFile, Option.toList_none, List.append_nil]
      cases hi : s.objs[i]? with
      | none => simpa only [step, hi] using hstill
      | some o =>
          simp only [step, hi, uc386dosFileRead]
          split
          · exact hstill
          · apply owns_moved hs rfl hi (by omega)
            intro n hlt hn
            rw [hn]
            exact movesOnly_fileReadLoop gap resolve hs.canCall hlt size []
  | write i buf =>
      simp only [newFile, Option.toList_none, List.append_nil]
      cases hi : s.objs[i]? with
      | none => simpa only [step, hi] using hstill
      | some o =>
          simp only [step, hi, uc386dosFileWrite]
          split
          · exact hstill
          · apply owns_moved hs rfl hi (by omega)
            intro n hlt hn
            rw [hn]
            exact movesOnly_fileWriteLoop gap resolve hs.canCall hlt buf 0

/-! ## Runs -/

def openedFiles (resolve : List UInt8 → κ) (ops : List Op) (rs : List Result) : List κ :=
  (ops.zip rs).flatMap fun x => (newFile resolve x.1 x.2).toList

variable (gap resolve) in
theorem owns_play (hs : Owns s ks) (ops : List Op) :
    Owns (play (step gap resolve) s ops).2
      (ks ++ openedFiles resolve ops (play (step gap resolve) s ops).1) := by
  induction ops generalizing s ks with
  | nil => simpa [openedFiles] using hs
  | cons op ops ih =>
      have hrest := ih (owns_step gap resolve hs op).1
      rw [play_cons]
      simpa only [openedFiles, List.zip_cons_cons, List.flatMap_cons, List.append_assoc] using hrest

/-- Whatever becomes of the DOS calls of a program, every file object that is not closed has
a handle that is open on the file the object was opened for and that no other object has,
and the next operation changes no handle but that of the object it is called on. -/
theorem objects_own_handles (hm : CanCall m) (ops : List Op) :
    let s := play (step gap resolve) ⟨[], m⟩ ops
    (∀ (i : Nat) (o : FileObj), s.2.objs[i]? = some o → 0 ≤ o.fd →
      ∃ h, s.2.machine.world.disk.handles o.fd.toNat = some h ∧
        (openedFiles resolve ops s.1)[i]? = some h.file) ∧
      (∀ (i j : Nat) (o o' : FileObj), s.2.objs[i]? = some o → s.2.objs[j]? = some o' →
        0 ≤ o.fd → o.fd = o'.fd → i = j) ∧
      ∀ op, Leaves s.2 op (step gap resolve s.2 op).2.machine.world.disk := by
  have hstart : Owns ⟨[], m⟩ [] := ⟨hm, rfl, by simp, by simp⟩
  have hs := owns_play gap resolve hstart ops
  rw [List.nil_append] at hs
  refine ⟨fun i o hi hpos => ?_, hs.own, fun op => (owns_step gap resolve hs op).2⟩
  obtain ⟨-, -, h, hh, hk⟩ := hs.handle i o hi hpos
  exact ⟨h, hh, hk⟩

/-- The second call is refused and the fourth one cut short. -/
theorem objects_own_handles_twoObjects :
    let s := play (step (fun _ => 0) fun _ => ()) ⟨[], booted ⟨emptyDisk,
      [.served .full, .refused, .served .full, .served (.short 1)]⟩⟩ twoObjects
    (∀ (i : Nat) (o : FileObj), s.2.objs[i]? = some o → 0 ≤ o.fd →
      ∃ h, s.2.machine.world.disk.handles o.fd.toNat = some h ∧
        (openedFiles (fun _ => ()) twoObjects s.1)[i]? = some h.file) ∧
      (∀ (i j : Nat) (o o' : FileObj), s.2.objs[i]? = some o → s.2.objs[j]? = some o' →
        0 ≤ o.fd → o.fd = o'.fd → i = j) ∧
      ∀ op, Leaves s.2 op (step (fun _ => 0) (fun _ => ()) s.2 op).2.machine.world.disk :=
  objects_own_handles ⟨.inl rfl, rfl⟩ twoObjects

end FreedosMicroPython.Dos.Owned
