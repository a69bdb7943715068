import FreedosMicroPython.Dos.Program
/-!
# The file layer refines the store

While DOS serves every call, a program over file objects and the same program over the
store give the same results and leave the same files, and DOS keeps a file open exactly
for every object that is not closed.
-/

namespace FreedosMicroPython.Dos.Refine

open FreedosMicroPython.Lib.Simulation FreedosMicroPython.Lib.Splice FreedosMicroPython.Lib.Files
open FreedosMicroPython.Host FreedosMicroPython.Runtime
open FreedosMicroPython.Dos.Int21 FreedosMicroPython.Dos.Disk FreedosMicroPython.Dos.Syscall
open FreedosMicroPython.Dos.File FreedosMicroPython.Dos.Stream FreedosMicroPython.Dos.Seek
open FreedosMicroPython.Dos.Mode FreedosMicroPython.Dos.Program

variable {κ : Type} [DecidableEq κ] {gap : Nat → UInt8} {resolve : List UInt8 → κ}

/-! ## Calls that DOS serves -/

/-- DOS calls can be made, and every one is served in full. -/
structure Served (d : Lib.Files.Disk κ UInt8) (m : Machine (DosState κ)) : Prop where
  canCall : CanCall m
  world : m.world = ⟨d, []⟩

variable {m m' : Machine (DosState κ)} {d : Lib.Files.Disk κ UInt8} {fd : Nat} {h : Handle κ}

omit [DecidableEq κ] in
theorem Served.performs {β : Type} (hm : Served d m)
    {f : Answer → Lib.Files.Disk κ UInt8 → Except Nat β × Lib.Files.Disk κ UInt8}
    {call : Except Nat β × Machine (DosState κ)} (hcall : Performs f m call) :
    call.1 = (f .full d).1.mapError (· % 0x10000) ∧ Served (f .full d).2 call.2 := by
  obtain ⟨hresult, hworld, hcan⟩ := hcall
  rw [hm.world] at hresult hworld
  exact ⟨hresult, hcan, hworld⟩

omit [DecidableEq κ] in
theorem Served.serving (hm : Served d m) (hlt : fd < 0x10000) (hh : d.handles fd = some h) :
    Serving fd h d m := ⟨⟨hm.canCall, hlt, by rw [hm.world]; exact hh⟩, hm.world⟩

omit [DecidableEq κ] in
theorem served_of_serving (hm : Serving fd h d m) : Served d m := ⟨hm.opened.canCall, hm.world⟩

theorem pathCall_long {path : CString} (hlen : 1024 ≤ path.bytes.length) (regs : Rmcs)
    (m : Machine (DosState κ)) :
    pathCall (dosWorld gap resolve) quietCall path regs m = (.error 0, m) := by
  simp [pathCall, hlen]

variable (gap resolve) in
theorem Served.open_ (hm : Served d m) {path : CString} (hlen : path.bytes.length < 1024)
    {access : Nat} (haccess : access ≤ 2) :
    ∃ r m', dosInt21Open (dosWorld gap resolve) quietCall path access m = (r, m') ∧
      (d.files (resolve path.bytes) = none → r = .error 2 ∧ Served d m') ∧
      (d.files (resolve path.bytes) ≠ none → 0x10000 ≤ d.next → r = .error 4 ∧ Served d m') ∧
      (d.files (resolve path.bytes) ≠ none → d.next < 0x10000 → r = .ok d.next ∧
        Served (d.openHandle (resolve path.bytes) access).2 m') := by
  have hmod : access % 4 = access := by omega
  obtain ⟨hresult, hserved⟩ :=
    hm.performs (dosInt21Open_performs gap resolve hm.canCall hlen access)
  rw [hmod] at hresult hserved
  refine ⟨_, _, rfl, fun hnone => ?_, fun hsome hfull => ?_, fun hsome hroom => ?_⟩
  · simp only [openFile, granted, hnone, if_true] at hresult hserved
    exact ⟨hresult, hserved⟩
  · simp only [openFile, granted, hsome, if_false, if_pos hfull] at hresult hserved
    exact ⟨hresult, hserved⟩
  · simp only [openFile, granted, hsome, if_false, if_neg (Nat.not_le.mpr hroom)] at hresult hserved
    exact ⟨hresult, hserved⟩

variable (gap resolve) in
theorem Served.creat (hm : Served d m) {path : CString} (hlen : path.bytes.length < 1024) :
    ∃ r m', dosInt21Creat (dosWorld gap resolve) quietCall path m = (r, m') ∧
      (0x10000 ≤ d.next → r = .error 4 ∧ Served d m') ∧
      (d.next < 0x10000 → r = .ok d.next ∧
        Served (d.create (resolve path.bytes) 2).2 m') := by
  obtain ⟨hresult, hserved⟩ := hm.performs (dosInt21Creat_performs gap resolve hm.canCall hlen)
  refine ⟨_, _, rfl, fun hfull => ?_, fun hroom => ?_⟩
  · simp only [creatFile, granted, if_pos hfull] at hresult hserved
    exact ⟨hresult, hserved⟩
  · simp only [creatFile, granted, if_neg (Nat.not_le.mpr hroom)] at hresult hserved
    exact ⟨hresult, hserved⟩

variable (gap resolve) in
theorem Served.close (hm : Served d m) (hlt : fd < 0x10000) (hh : d.handles fd = some h) :
    Served (d.close fd) (dosInt21Close (dosWorld gap resolve) quietCall fd m).2 := by
  obtain ⟨-, hserved⟩ := hm.performs (dosInt21Close_performs gap resolve hm.canCall hlt)
  simpa only [closeFile, granted, hh] using hserved

variable (gap resolve) in
theorem seek_serving (hm : Serving fd h d m) (offset : Int) (whence : Nat)
    (hwhence : whence % 256 ≤ 2) :
    ∃ m', dosInt21Lseek (dosWorld gap resolve) quietCall fd offset whence m =
        (.ok (toLong (target d h offset whence)), m') ∧
      Serving fd { h with pos := target d h offset whence }
        (d.setPos fd h (target d h offset whence)) m' := by
  rw [← dosInt21Lseek_mod]
  obtain ⟨m', hcall, hworld, hm'⟩ := lseek_of_grants gap resolve hm.opened
    (by rw [hm.world]; rfl) offset (whence % 256) hwhence rfl
  rw [hm.world] at hcall hworld hm'
  exact ⟨m', hcall, hm', hworld⟩

variable (gap resolve) in
theorem seek_unknown (hm : Serving fd h d m) (offset : Int) {whence : Nat}
    (hwhence : 2 < whence % 256) :
    ∃ m', dosInt21Lseek (dosWorld gap resolve) quietCall fd offset whence m = (.error 1, m') ∧
      Serving fd h d m' := by
  rw [← dosInt21Lseek_mod]
  obtain ⟨hresult, hserved⟩ := (served_of_serving hm).performs
    (dosInt21Lseek_performs gap resolve hm.opened.canCall hm.opened.fd_lt offset (whence % 256)
      (Nat.mod_lt _ (by decide)))
  simp only [seekLong, seekFile, hm.handle, granted, if_pos hwhence] at hresult hserved
  exact ⟨_, Prod.ext hresult rfl, hserved.serving hm.opened.fd_lt hm.handle⟩

/-! ## Transfers in the wrong direction -/

variable (gap resolve) in
theorem read_denied (hm : Serving fd h d m) (hacc : h.access = 1) (type : FileType) {size : Nat}
    (hsize : size ≠ 0) :
    ∃ m', uc386dosFileRead (dosWorld gap resolve) ⟨type, fd⟩ size m = (.error .eio, m') ∧
      Served d m' := by
  obtain ⟨e, m', hcall, hworld, hm'⟩ := read_of_none gap resolve hm.opened hsize (.inl hacc)
  rw [hm.world] at hworld
  refine ⟨m', ?_, hm'.canCall, hworld⟩
  rw [uc386dosFileRead, if_neg (by simp), fileReadLoop]
  simp [Nat.pos_of_ne_zero hsize, hcall]

variable (gap resolve) in
theorem write_denied (hm : Serving fd h d m) (hacc : h.access = 0) (type : FileType)
    {buf : List UInt8} (hbuf : buf ≠ []) :
    ∃ m', uc386dosFileWrite (dosWorld gap resolve) ⟨type, fd⟩ buf m = (.error .eio, m') ∧
      Served d m' := by
  obtain ⟨e, m', hcall, hworld, hm'⟩ := write_of_none gap resolve hm.opened hbuf (.inl hacc)
  rw [hm.world] at hworld
  refine ⟨m', ?_, hm'.canCall, hworld⟩
  rw [uc386dosFileWrite, if_neg (by simp), fileWriteLoop]
  simp [List.length_pos_iff.mpr hbuf, hcall]

/-! ## The lexer's copy of a file -/

theorem lexerReadLoop_of_fileReadLoop {σ : Type} {w : World σ} {fd : Int} {size : Nat}
    {got bs : List UInt8} {m m' : Machine σ}
    (hloop : fileReadLoop w fd size got m = (.ok bs, m')) :
    lexerReadLoop w fd size got m = (bs, m') := by
  fun_induction fileReadLoop w fd size got m with
  | case1 got m hlt e m₁ hcall => cases hloop
  | case2 got m hlt m₁ hcall =>
      cases hloop
      rw [lexerReadLoop, dif_pos hlt, hcall]
  | case3 got m hlt b bs m₁ hcall ih =>
      rw [lexerReadLoop, dif_pos hlt, hcall]
      exact ih hloop
  | case4 got m hlt =>
      cases hloop
      rw [lexerReadLoop, dif_neg hlt]

variable (gap resolve) in
theorem fsize_serving (hm : Serving fd h d m) (hpos : h.pos = 0) {size : Nat}
    (hsize : toU32 (d.contents h.file).length = size) :
    ∃ r m', dosInt21Fsize (dosWorld gap resolve) quietCall fd m = (r, m') ∧
      (size < 0x80000000 → r = some (size : Int) ∧ Serving fd h d m') ∧
      (0x80000000 ≤ size → r = none ∧ ∃ h', Serving fd h' (d.setPos fd h h'.pos) m') := by
  have hstart : target d h 0 1 = 0 := by
    simp [target, seekBase, hpos, toU32]
  have hend : target d h 0 2 = size := by
    simp [target, seekBase, ← hsize]
  have hlt : size < 0x100000000 := hend ▸ target_lt d h 0 2
  obtain ⟨m₁, hcall₁, hm₁⟩ := seek_serving gap resolve hm 0 1 (by decide)
  rw [hstart, ← hpos, Disk.setPos_self _ hm.handle] at hm₁
  obtain ⟨m₂, hcall₂, hm₂⟩ := seek_serving gap resolve hm₁ 0 2 (by decide)
  rw [hend] at hcall₂ hm₂
  rw [hstart, toLong_of_lt (by decide)] at hcall₁
  simp only [dosInt21Fsize, hcall₁, hcall₂]
  by_cases hlong : size < 0x80000000
  · have hback : target (d.setPos fd h size) { h with pos := size } 0 0 = 0 := by
      simp [target, seekBase, toU32]
    obtain ⟨m₃, hcall₃, hm₃⟩ := seek_serving gap resolve hm₂ 0 0 (by decide)
    rw [hback, Disk.setPos_setPos, ← hpos, Disk.setPos_self _ hm.handle] at hm₃
    have hsign : ¬(size : Int) < 0 := by omega
    refine ⟨some (size : Int), m₃, ?_, fun _ => ⟨rfl, hm₃⟩,
      fun hlarge => absurd hlong (Nat.not_lt.mpr hlarge)⟩
    simp [toLong_of_lt hlong, hsign, hcall₃]
  · have hneg := toLong_neg (Nat.le_of_not_lt hlong) hlt
    refine ⟨none, m₂, ?_, fun hsmall => absurd hsmall hlong, fun _ => ⟨rfl, _, hm₂⟩⟩
    simp [hneg]

/-! ## The relation -/

/-- A closed object has no handle; an open one has the handle that stands for its file,
position and access. -/
def Tracks (d : Lib.Files.Disk κ UInt8) (o : FileObj) : Option (Handle κ) → Prop
  | none => o.fd = -1
  | some h => ∃ n : Nat, o.fd = n ∧ n < d.next ∧ d.handles n = some h

/-- A session and the store it implements; `d₀` is the disk from before the program. -/
structure Refines (d₀ : Lib.Files.Disk κ UInt8) (s : Session κ) (t : Store κ) : Prop where
  served : Served s.machine.world.disk s.machine
  files : s.machine.world.disk.files = t.files
  left : s.machine.world.disk.next + t.left = 0x10000
  base : d₀.next ≤ s.machine.world.disk.next
  length : s.objs.length = t.objs.length
  objs : ∀ (i : Nat) (o : FileObj) (x : Option (Handle κ)), s.objs[i]? = some o →
    t.objs[i]? = some x → Tracks s.machine.world.disk o x
  /-- Two objects have two handles, and none from before the program. -/
  own : ∀ (i j : Nat) (o o' : FileObj), s.objs[i]? = some o → s.objs[j]? = some o' →
    0 ≤ o.fd → o.fd = o'.fd → i = j
  new : ∀ o ∈ s.objs, 0 ≤ o.fd → (d₀.next : Int) ≤ o.fd
  rest : ∀ n : Nat, (∀ o ∈ s.objs, o.fd ≠ n) → s.machine.world.disk.handles n = d₀.handles n

variable {d₀ : Lib.Files.Disk κ UInt8} {s : Session κ} {t : Store κ}

section
omit [DecidableEq κ]

theorem Refines.lookup (hr : Refines d₀ s t) {i : Nat} {o : FileObj} (hi : s.objs[i]? = some o) :
    ∃ x, t.objs[i]? = some x ∧ Tracks s.machine.world.disk o x := by
  have hlt : i < t.objs.length := hr.length ▸ (List.getElem?_eq_some_iff.mp hi).1
  exact ⟨t.objs[i], List.getElem?_eq_getElem hlt, hr.objs i o _ hi (List.getElem?_eq_getElem hlt)⟩

theorem Refines.unbound (hr : Refines d₀ s t) {i : Nat} (hi : s.objs[i]? = none) :
    t.objs[i]? = none := by
  rw [List.getElem?_eq_none_iff] at hi ⊢
  rwa [← hr.length]

theorem Refines.still (hr : Refines d₀ s t) (hm' : Served s.machine.world.disk m') :
    Refines d₀ ⟨s.objs, m'⟩ t := by
  have hdisk : m'.world.disk = s.machine.world.disk := by rw [hm'.world]
  constructor <;> simp only [hdisk]
  · exact hm'
  · exact hr.files
  · exact hr.left
  · exact hr.base
  · exact hr.length
  · exact hr.objs
  · exact hr.own
  · exact hr.new
  · exact hr.rest

/-- A call on an object changes the handle of that object and nothing else about handles. -/
theorem Refines.change (hr : Refines d₀ s t) (hfresh : ∀ n, d₀.next ≤ n → d₀.handles n = none)
    {i : Nat} {o o' : FileObj} (hi : s.objs[i]? = some o) {n : Nat} (hfd : o.fd = n)
    {x : Option (Handle κ)} (hm' : Served d m')
    (hhandles : d.handles = Function.update s.machine.world.disk.handles n x)
    (hnext : d.next = s.machine.world.disk.next) (hlt : n < d.next)
    (ho' : x = none ∧ o'.fd = -1 ∨ x ≠ none ∧ o'.fd = n) :
    Refines d₀ ⟨s.objs.set i o', m'⟩ ⟨d.files, t.objs.set i x, t.left⟩ := by
  have hdisk : m'.world.disk = d := by rw [hm'.world]
  have hmem : o ∈ s.objs := List.mem_of_getElem? hi
  constructor <;> simp only [hdisk]
  · exact hm'
  · rw [hnext]; exact hr.left
  · rw [hnext]; exact hr.base
  · simpa using hr.length
  · intro j p y hj hy
    rw [List.getElem?_set] at hj hy
    have hlen := (List.getElem?_eq_some_iff.mp hi).1
    have hlength := hr.length
    by_cases hij : i = j
    · simp only [if_pos hij, hlen, hlength ▸ hlen, if_true, Option.some.injEq] at hj hy
      subst hj hy
      rcases ho' with ⟨rfl, hclosed⟩ | ⟨hx, hfd'⟩
      · exact hclosed
      · obtain ⟨h', rfl⟩ := Option.ne_none_iff_exists'.mp hx
        exact ⟨n, hfd', hlt, by rw [hhandles, Function.update_self]⟩
    · rw [if_neg hij] at hj hy
      have htracks := hr.objs j p y hj hy
      have hne : ∀ k : Nat, p.fd = k → k ≠ n := by
        rintro k hk rfl
        exact hij (hr.own i j o p hi hj (by omega) (by omega))
      cases y with
      | none => exact htracks
      | some h' =>
          obtain ⟨k, hk, hklt, hkh⟩ := htracks
          exact ⟨k, hk, by omega, by rw [hhandles, Function.update_of_ne (hne k hk)]; exact hkh⟩
  · intro j k p q hj hk hp hpq
    have hown := hr.own
    rw [List.getElem?_set] at hj hk
    grind
  · intro p hp hpos
    rcases List.mem_or_eq_of_mem_set hp with hp | rfl
    · exact hr.new p hp hpos
    · have := hr.new o hmem (by omega)
      omega
  · intro k hk
    by_cases hkn : k = n
    · subst hkn
      have hbase := hr.new o hmem (by omega)
      have hlen := (List.getElem?_eq_some_iff.mp hi).1
      have hx : x = none := by
        rcases ho' with ⟨hx, -⟩ | ⟨-, hfd'⟩
        · exact hx
        · exact absurd hfd' (hk o' (List.mem_set hlen _))
      rw [hhandles, Function.update_self, hx, hfresh k (by omega)]
    · rw [hhandles, Function.update_of_ne hkn]
      refine hr.rest k fun p hp => ?_
      obtain ⟨j, hj⟩ := List.mem_iff_getElem?.mp hp
      by_cases hij : i = j
      · subst hij
        rw [hi] at hj
        cases hj
        omega
      · refine hk p (List.mem_iff_getElem?.mpr ⟨j, ?_⟩)
        rw [List.getElem?_set, if_neg hij, hj]

theorem Refines.opened (hr : Refines d₀ s t) {o : FileObj} {h : Handle κ}
    (hfd : o.fd = s.machine.world.disk.next) (hm' : Served d m')
    (hhandles : d.handles =
      Function.update s.machine.world.disk.handles s.machine.world.disk.next (some h))
    (hnext : d.next = s.machine.world.disk.next + 1) (hleft : t.left ≠ 0) :
    Refines d₀ ⟨s.objs ++ [o], m'⟩ ⟨d.files, t.objs ++ [some h], t.left - 1⟩ := by
  have hdisk : m'.world.disk = d := by rw [hm'.world]
  have hbelow : ∀ p ∈ s.objs, p.fd < s.machine.world.disk.next := by
    intro p hp
    obtain ⟨j, hj⟩ := List.mem_iff_getElem?.mp hp
    obtain ⟨y, -, htracks⟩ := hr.lookup hj
    cases y with
    | none =>
        simp only [Tracks] at htracks
        omega
    | some h' =>
        obtain ⟨k, hk, hklt, -⟩ := htracks
        omega
  have hleft' := hr.left
  have hbase := hr.base
  have hlength := hr.length
  constructor <;> simp only [hdisk]
  · exact hm'
  · omega
  · omega
  · simpa using hr.length
  · intro j p y hj hy
    rw [List.getElem?_append] at hj hy
    by_cases hlt : j < s.objs.length
    · rw [if_pos hlt] at hj
      rw [if_pos (by omega)] at hy
      have htracks := hr.objs j p y hj hy
      cases y with
      | none => exact htracks
      | some h' =>
          obtain ⟨k, hk, hklt, hkh⟩ := htracks
          refine ⟨k, hk, by omega, ?_⟩
          rw [hhandles, Function.update_of_ne (by omega), hkh]
    · rw [if_neg hlt] at hj
      rw [if_neg (by omega)] at hy
      simp only [List.getElem?_singleton, hlength] at hj hy
      split at hj
      · cases hj
        simp only [if_pos ‹_›, Option.some.injEq] at hy
        subst hy
        exact ⟨_, hfd, by omega, by rw [hhandles, Function.update_self]⟩
      · cases hj
  · intro j k p q hj hk hp hpq
    have hown := hr.own
    have hmem : ∀ (j : Nat) (p : FileObj), s.objs[j]? = some p → p.fd < s.machine.world.disk.next :=
      fun j p hj => hbelow p (List.mem_of_getElem? hj)
    rw [List.getElem?_append] at hj hk
    grind
  · intro p hp hpos
    rcases List.mem_append.mp hp with hp | hp
    · exact hr.new p hp hpos
    · rw [List.mem_singleton.mp hp]
      omega
  · intro k hk
    have hne : k ≠ s.machine.world.disk.next := by
      rintro rfl
      exact hk o (by simp) hfd
    rw [hhandles, Function.update_of_ne hne]
    exact hr.rest k fun p hp => hk p (List.mem_append_left _ hp)

theorem Refines.used (hr : Refines d₀ s t) (hfresh : ∀ n, d₀.next ≤ n → d₀.handles n = none)
    (hm' : Served d m') (hfiles : d.files = s.machine.world.disk.files)
    (hhandles : d.handles =
      Function.update s.machine.world.disk.handles s.machine.world.disk.next none)
    (hnext : d.next = s.machine.world.disk.next + 1) (hleft : t.left ≠ 0) :
    Refines d₀ ⟨s.objs, m'⟩ t.used := by
  have hdisk : m'.world.disk = d := by rw [hm'.world]
  have hleft' := hr.left
  have hbase := hr.base
  constructor <;> simp only [hdisk, Store.used]
  · exact hm'
  · rw [hfiles]; exact hr.files
  · omega
  · omega
  · exact hr.length
  · intro j p y hj hy
    have htracks := hr.objs j p y hj hy
    cases y with
    | none => exact htracks
    | some h' =>
        obtain ⟨k, hk, hklt, hkh⟩ := htracks
        refine ⟨k, hk, by omega, ?_⟩
        rw [hhandles, Function.update_of_ne (by omega), hkh]
  · exact hr.own
  · exact hr.new
  · intro k hk
    by_cases hkn : k = s.machine.world.disk.next
    · rw [hhandles, hkn, Function.update_self, hfresh _ (by omega)]
    · rw [hhandles, Function.update_of_ne hkn]
      exact hr.rest k hk

end

/-! ## One step -/

theorem set_self {α : Type} {l : List α} {i : Nat} {x : α} (hi : l[i]? = some x) :
    l.set i x = l := by
  obtain ⟨hlt, rfl⟩ := List.getElem?_eq_some_iff.mp hi
  exact List.set_getElem_self hlt

/-- A step gives the result of the store and keeps the relation. -/
def Matches (d₀ : Lib.Files.Disk κ UInt8) (out : Result × Session κ) (spec : Result × Store κ) :
    Prop := out.1 = spec.1 ∧ Refines d₀ out.2 spec.2

omit [DecidableEq κ] in
theorem Refines.serving (hr : Refines d₀ s t) {i : Nat} {o : FileObj} {h : Handle κ}
    (hi : s.objs[i]? = some o) (hx : t.objs[i]? = some (some h)) :
    ∃ n : Nat, o.fd = n ∧ n < s.machine.world.disk.next ∧
      Serving n h s.machine.world.disk s.machine := by
  obtain ⟨n, hn, hlt, hh⟩ := hr.objs i o (some h) hi hx
  have hleft := hr.left
  exact ⟨n, hn, hlt, hr.served.serving (by omega) hh⟩

section
variable (hfresh : ∀ n, d₀.next ≤ n → d₀.handles n = none)
include hfresh

omit [DecidableEq κ] in
theorem Refines.moved (hr : Refines d₀ s t) {i : Nat} {o : FileObj} (hi : s.objs[i]? = some o)
    {n : Nat} (hfd : o.fd = n) (hlt : n < s.machine.world.disk.next) {h' : Handle κ}
    {files : κ → Option (List UInt8)} (hm' : Served d m') (hfiles : d.files = files)
    (hhandles : d.handles = Function.update s.machine.world.disk.handles n (some h'))
    (hnext : d.next = s.machine.world.disk.next) :
    Refines d₀ ⟨s.objs, m'⟩ ⟨files, t.objs.set i (some h'), t.left⟩ := by
  have hown : some h' = none ∧ o.fd = -1 ∨ some h' ≠ none ∧ o.fd = n := .inr ⟨by simp, hfd⟩
  have hchange := hr.change hfresh hi hfd hm' hhandles hnext (by omega) hown
  rwa [set_self hi, hfiles] at hchange

theorem matches_read (hr : Refines d₀ s t) (i size : Nat) :
    Matches d₀ (step gap resolve s (.read i size)) (t.step gap resolve (.read i size)) := by
  cases hi : s.objs[i]? with
  | none =>
      simp only [step, Store.step, hi, hr.unbound hi]
      exact ⟨rfl, hr⟩
  | some o =>
      obtain ⟨x, hx, htracks⟩ := hr.lookup hi
      cases x with
      | none =>
          have hclosed : o.fd < 0 := by
            simp only [Tracks] at htracks
            omega
          simp only [step, Store.step, hi, hx, uc386dosFileRead, if_pos hclosed]
          exact ⟨rfl, hr⟩
      | some h =>
          obtain ⟨type, fd⟩ := o
          obtain ⟨n, hfd, hlt, hserving⟩ := hr.serving hi hx
          simp only at hfd
          subst hfd
          simp only [step, Store.step, hi, hx]
          by_cases hsize : size = 0
          · have hnone : uc386dosFileRead (dosWorld gap resolve) ⟨type, n⟩ 0 s.machine =
                (.ok [], s.machine) := by
              rw [uc386dosFileRead, if_neg (by simp), fileReadLoop]
              rfl
            rw [hsize, hnone, Store.read, if_pos rfl]
            exact ⟨rfl, hr⟩
          · rw [Store.read, if_neg hsize]
            by_cases hacc : h.access = 1
            · obtain ⟨m', hcall, hm'⟩ := read_denied gap resolve hserving
                hacc type hsize
              rw [hcall, if_pos hacc]
              exact ⟨rfl, hr.still hm'⟩
            · obtain ⟨m', hcall, hm'⟩ :=
                uc386dosFileRead_serving gap resolve hserving hacc type size
              have hbytes : (s.machine.world.disk.readHandle n h size).1 =
                  ((t.contents h.file).drop h.pos).take size := by
                rw [Disk.readHandle, Disk.remaining, Disk.contents, hr.files, Store.contents]
              rw [hcall, if_neg hacc, hbytes]
              rw [hbytes] at hm'
              exact ⟨rfl, hr.moved hfresh hi rfl hlt (served_of_serving hm') hr.files
                (by simp [Disk.readHandle, Disk.remaining, Disk.contents, hr.files,
                  Store.contents]) rfl⟩

theorem matches_write (hr : Refines d₀ s t) (i : Nat) (buf : List UInt8) :
    Matches d₀ (step gap resolve s (.write i buf)) (t.step gap resolve (.write i buf)) := by
  cases hi : s.objs[i]? with
  | none =>
      simp only [step, Store.step, hi, hr.unbound hi]
      exact ⟨rfl, hr⟩
  | some o =>
      obtain ⟨x, hx, htracks⟩ := hr.lookup hi
      cases x with
      | none =>
          have hclosed : o.fd < 0 := by
            simp only [Tracks] at htracks
            omega
          simp only [step, Store.step, hi, hx, uc386dosFileWrite, if_pos hclosed]
          exact ⟨rfl, hr⟩
      | some h =>
          obtain ⟨type, fd⟩ := o
          obtain ⟨n, hfd, hlt, hserving⟩ := hr.serving hi hx
          simp only at hfd
          subst hfd
          simp only [step, Store.step, hi, hx]
          by_cases hbuf : buf = []
          · have hnone : uc386dosFileWrite (dosWorld gap resolve) ⟨type, n⟩ [] s.machine =
                (.ok 0, s.machine) := by
              rw [uc386dosFileWrite, if_neg (by simp), fileWriteLoop]
              rfl
            rw [hbuf, hnone, Store.write, if_pos rfl]
            exact ⟨rfl, hr⟩
          · rw [Store.write, if_neg hbuf]
            by_cases hacc : h.access = 0
            · obtain ⟨m', hcall, hm'⟩ := write_denied gap resolve hserving
                hacc type hbuf
              rw [hcall, if_pos hacc]
              exact ⟨rfl, hr.still hm'⟩
            · obtain ⟨m', hcall, hm'⟩ :=
                uc386dosFileWrite_serving gap resolve hserving hacc type buf
              rw [hcall, if_neg hacc]
              rw [Disk.storeHandle_of_ne_nil _ hbuf] at hm'
              refine ⟨rfl, hr.moved hfresh hi rfl hlt (served_of_serving hm') ?_ rfl rfl⟩
              simp [Disk.writeHandle, Store.setFile, Disk.contents, Store.contents, hr.files]

theorem matches_ioctl (hr : Refines d₀ s t) (i : Nat) (request : File.Request) :
    Matches d₀ (step gap resolve s (.ioctl i request)) (t.step gap resolve (.ioctl i request)) := by
  cases hi : s.objs[i]? with
  | none =>
      simp only [step, Store.step, hi, hr.unbound hi]
      exact ⟨rfl, hr⟩
  | some o =>
      obtain ⟨x, hx, htracks⟩ := hr.lookup hi
      have hself : s.objs.set i o = s.objs := set_self hi
      simp only [step, Store.step, hi, hx]
      cases request with
      | flush => exact ⟨rfl, by simpa only [uc386dosFileIoctl, hself, Store.ioctl] using hr⟩
      | other => exact ⟨rfl, by simpa only [uc386dosFileIoctl, hself, Store.ioctl] using hr⟩
      | close =>
          cases x with
          | none =>
              have hclosed : ¬0 ≤ o.fd := by
                simp only [Tracks] at htracks
                omega
              have hxself : t.objs.set i none = t.objs := set_self hx
              simp only [uc386dosFileIoctl, if_neg hclosed, hself, Store.ioctl, Store.setObj,
                hxself]
              exact ⟨rfl, hr⟩
          | some h =>
              obtain ⟨type, fd⟩ := o
              obtain ⟨n, hfd, hlt, hserving⟩ := hr.serving hi hx
              simp only at hfd
              subst hfd
              have hm' := hr.served.close gap resolve hserving.opened.fd_lt
                hserving.handle
              simp only [uc386dosFileIoctl, if_pos (Int.natCast_nonneg n)]
              refine ⟨rfl, ?_⟩
              have hfree : (none : Option (Handle κ)) = none ∧ (⟨type, -1⟩ : FileObj).fd = -1 ∨
                  (none : Option (Handle κ)) ≠ none ∧ (⟨type, -1⟩ : FileObj).fd = n :=
                .inl ⟨rfl, rfl⟩
              have hclosed := hr.change hfresh hi rfl hm' rfl rfl hlt hfree
              rwa [Disk.files_close, hr.files] at hclosed
      | seek offset whence =>
          cases x with
          | none =>
              have hclosed : o.fd < 0 := by
                simp only [Tracks] at htracks
                omega
              simp only [uc386dosFileIoctl, if_pos hclosed, hself]
              exact ⟨rfl, hr⟩
          | some h =>
              obtain ⟨type, fd⟩ := o
              obtain ⟨n, hfd, hlt, hserving⟩ := hr.serving hi hx
              simp only at hfd
              subst hfd
              have hbase : seekBase s.machine.world.disk h (whence % 256) =
                  if whence % 256 = 0 then 0 else if whence % 256 = 1 then h.pos
                    else (t.contents h.file).length := by
                rw [seekBase, Disk.contents, hr.files, Store.contents]
              simp only [uc386dosFileIoctl, Store.ioctl, Store.seek, ← hbase,
                if_neg (Int.not_lt.mpr (Int.natCast_nonneg n))]
              by_cases hwhence : 2 < whence % 256
              · obtain ⟨m', hcall, hm'⟩ := seek_unknown gap resolve hserving
                  offset hwhence
                rw [hcall, if_pos hwhence]
                simp only [hself]
                exact ⟨rfl, hr.still (served_of_serving hm')⟩
              · obtain ⟨m', hcall, hm'⟩ := seek_serving gap resolve hserving
                  offset whence (Nat.le_of_not_lt hwhence)
                have hmoved := hr.moved hfresh hi rfl hlt (served_of_serving hm') hr.files rfl rfl
                rw [hcall, if_neg hwhence]
                by_cases hlong : target s.machine.world.disk h offset whence < 0x80000000
                · have hsign : ¬(target s.machine.world.disk h offset whence : Int) < 0 := by omega
                  simp only [toLong_of_lt hlong, if_neg hsign, hself]
                  refine ⟨?_, hmoved⟩
                  rw [target] at hlong
                  simp only [if_pos hlong]
                  rfl
                · have hneg := toLong_neg (Nat.le_of_not_lt hlong) (target_lt _ _ _ _)
                  simp only [if_pos hneg, hself]
                  refine ⟨?_, hmoved⟩
                  rw [target] at hlong
                  simp only [if_neg hlong]
                  rfl

end

/-! ## Opening -/

omit [DecidableEq κ] in
theorem Refines.room (hr : Refines d₀ s t) :
    t.left ≠ 0 ↔ s.machine.world.disk.next < 0x10000 := by
  have hleft := hr.left
  omega

omit [DecidableEq κ] in
theorem Refines.full (hr : Refines d₀ s t) (hleft : t.left = 0) :
    0x10000 ≤ s.machine.world.disk.next :=
  Nat.not_lt.mp (mt hr.room.mpr (not_not.mpr hleft))

def openOut (type : FileType) (s : Session κ) :
    Except Nat Nat × Machine (DosState κ) → Result × Session κ
  | (.ok fd, m) => (.opened type, ⟨s.objs ++ [⟨type, fd⟩], m⟩)
  | (.error err, m) => (.raised (openErrno err), ⟨s.objs, m⟩)

theorem step_open (s : Session κ) (fname : CString) (modeS : Option (List Char)) :
    step gap resolve s (.open_ fname modeS) =
      openOut (parseMode (modeS.getD ['r'])).type s
        ((request (parseMode (modeS.getD ['r']))).send (dosWorld gap resolve) fname s.machine) := by
  have hsome : uc386dosBuiltinOpen (dosWorld gap resolve) fname modeS s.machine =
      uc386dosBuiltinOpen (dosWorld gap resolve) fname (some (modeS.getD ['r'])) s.machine := by
    cases modeS <;> rfl
  rw [step, hsome, uc386dosBuiltinOpen_eq]
  rcases (request (parseMode (modeS.getD ['r']))).send (dosWorld gap resolve) fname s.machine with
    ⟨fd | fd, m⟩ <;> rfl

theorem send_long {fname : CString} (hlen : 1024 ≤ fname.bytes.length) (r : Mode.Request)
    (m : Machine (DosState κ)) :
    r.send (dosWorld gap resolve) fname m = (.error 0, m) := by
  cases r with
  | creat => exact pathCall_long hlen _ m
  | open_ dosMode => exact pathCall_long hlen _ m
  | append dosMode =>
      have hopen : dosInt21Open (dosWorld gap resolve) quietCall fname dosMode m = (.error 0, m) :=
        pathCall_long hlen _ m
      have hcreat : dosInt21Creat (dosWorld gap resolve) quietCall fname m = (.error 0, m) :=
        pathCall_long hlen _ m
      rw [Request.send, openAppend, hopen]
      simp only [hcreat]

variable (gap resolve) in
theorem seekEnd_serving (hm : Serving fd h d m) :
    Serving fd { h with pos := toU32 (d.contents h.file).length }
      (d.setPos fd h (toU32 (d.contents h.file).length))
      (seekEnd (dosWorld gap resolve) fd m) := by
  have hend : target d h 0 2 = toU32 (d.contents h.file).length := by
    simp [target, seekBase]
  obtain ⟨m', hcall, hm'⟩ := seek_serving gap resolve hm 0 2 (by decide)
  rw [hend] at hm'
  rw [seekEnd, hcall]
  exact hm'

theorem seekEnd_empty (hm : Serving fd h d m) (hempty : d.contents h.file = [])
    (hpos : h.pos = 0) : Served d (seekEnd (dosWorld gap resolve) fd m) := by
  have hend := seekEnd_serving gap resolve hm
  have hsame : toU32 (d.contents h.file).length = h.pos := by
    simp [hempty, hpos, toU32]
  rw [hsame, Disk.setPos_self _ hm.handle] at hend
  exact served_of_serving hend

def creatThen (gap : Nat → UInt8) (resolve : List UInt8 → κ) (fname : CString)
    (after : Nat → Machine (DosState κ) → Machine (DosState κ)) (m : Machine (DosState κ)) :
    Except Nat Nat × Machine (DosState κ) :=
  match dosInt21Creat (dosWorld gap resolve) quietCall fname m with
  | (.ok fd, m) => (.ok fd, after fd m)
  | (.error err, m) => (.error err, m)

theorem send_creat (fname : CString) (m : Machine (DosState κ)) :
    Request.creat.send (dosWorld gap resolve) fname m =
      creatThen gap resolve fname (fun _ m => m) m := by
  rw [Request.send, creatThen]
  rcases dosInt21Creat (dosWorld gap resolve) quietCall fname m with ⟨fd | fd, m⟩ <;> rfl

theorem send_append_of_error {fname : CString} {access e : Nat}
    (hcall : dosInt21Open (dosWorld gap resolve) quietCall fname access m = (.error e, m')) :
    (Request.append access).send (dosWorld gap resolve) fname m =
      creatThen gap resolve fname (seekEnd (dosWorld gap resolve)) m' := by
  simp only [Request.send, openAppend, hcall, creatThen]
  rcases dosInt21Creat (dosWorld gap resolve) quietCall fname m' with ⟨fd | fd, m⟩ <;> rfl

theorem send_append_of_ok {fname : CString} {access fd : Nat}
    (hcall : dosInt21Open (dosWorld gap resolve) quietCall fname access m = (.ok fd, m')) :
    (Request.append access).send (dosWorld gap resolve) fname m =
      (.ok fd, seekEnd (dosWorld gap resolve) fd m') := by
  rw [Request.send, openAppend, hcall]

theorem matches_creat (hr : Refines d₀ s t) (hm : Served s.machine.world.disk m)
    {fname : CString} (hlen : fname.bytes.length < 1024) (type : FileType)
    (after : Nat → Machine (DosState κ) → Machine (DosState κ))
    (hafter : ∀ {fd h d m}, Serving (κ := κ) fd h d m → d.contents h.file = [] → h.pos = 0 →
      Served d (after fd m)) :
    Matches d₀ (openOut type s (creatThen gap resolve fname after m))
      (t.openNew (resolve fname.bytes) type) := by
  obtain ⟨r, m', hcall, hfull, hroom⟩ := hm.creat gap resolve hlen
  rw [creatThen, hcall, Store.openNew]
  by_cases hleft : t.left = 0
  · obtain ⟨rfl, hm'⟩ := hfull (hr.full hleft)
    rw [if_pos hleft]
    exact ⟨rfl, hr.still hm'⟩
  · obtain ⟨rfl, hm'⟩ := hroom (hr.room.mp hleft)
    rw [if_neg hleft]
    refine ⟨rfl, ?_⟩
    have hserving : Serving s.machine.world.disk.next ⟨resolve fname.bytes, 0, 2⟩
        (s.machine.world.disk.create (resolve fname.bytes) 2).2 m' :=
      hm'.serving (hr.room.mp hleft) (by simp [Disk.create])
    have hdone := hafter hserving (by simp [Disk.create, Disk.contents]) rfl
    have hopened := hr.opened (o := ⟨type, s.machine.world.disk.next⟩) rfl hdone rfl rfl hleft
    simp only [Disk.create, Disk.files_openHandle, Disk.files_setFile, hr.files] at hopened
    exact hopened

theorem matches_open (hr : Refines d₀ s t) (fname : CString) (modeS : Option (List Char)) :
    Matches d₀ (step gap resolve s (.open_ fname modeS))
      (t.step gap resolve (.open_ fname modeS)) := by
  have hle : (parseMode (modeS.getD ['r'])).dosMode ≤ 2 :=
    Append.dosMode_foldl_le _ (Nat.zero_le 2)
  rw [step_open, Store.step, Store.open_]
  generalize parseMode (modeS.getD ['r']) = mode at hle
  by_cases hlen : 1024 ≤ fname.bytes.length
  · rw [if_pos hlen, send_long hlen]
    exact ⟨rfl, hr⟩
  · rw [if_neg hlen]
    rw [Nat.not_le] at hlen
    obtain ⟨r, m', hcall, hmissing, hfull, hroom⟩ :=
      hr.served.open_ gap resolve hlen hle
    rw [hr.files] at hmissing hfull hroom
    unfold request
    split
    · rw [send_creat]
      exact matches_creat hr hr.served hlen mode.type _ fun hm _ _ => served_of_serving hm
    · split
      · have hcreat : ∀ e m', dosInt21Open (dosWorld gap resolve) quietCall fname mode.dosMode
              s.machine = (.error e, m') → Served s.machine.world.disk m' →
            Matches d₀ (openOut mode.type s ((Request.append mode.dosMode).send
              (dosWorld gap resolve) fname s.machine)) (t.openNew (resolve fname.bytes)
                mode.type) := by
          intro e m' hcall hm'
          rw [send_append_of_error hcall]
          exact matches_creat hr hm' hlen mode.type _ seekEnd_empty
        simp only [Store.openEnd]
        by_cases hfile : t.files (resolve fname.bytes) = none
        · obtain ⟨rfl, hm'⟩ := hmissing hfile
          rw [if_pos (.inl hfile)]
          exact hcreat _ _ hcall hm'
        · by_cases hleft : t.left = 0
          · obtain ⟨rfl, hm'⟩ := hfull hfile (hr.full hleft)
            rw [if_pos (.inr hleft)]
            exact hcreat _ _ hcall hm'
          · obtain ⟨rfl, hm'⟩ := hroom hfile (hr.room.mp hleft)
            rw [if_neg (not_or.mpr ⟨hfile, hleft⟩), send_append_of_ok hcall]
            refine ⟨rfl, ?_⟩
            have hend := seekEnd_serving gap resolve
              (hm'.serving (hr.room.mp hleft)
                (h := ⟨resolve fname.bytes, 0, mode.dosMode⟩) (by simp))
            have hopened := hr.opened (o := ⟨mode.type, s.machine.world.disk.next⟩) rfl
              (served_of_serving hend) (by simp [Disk.setPos]; rfl) rfl hleft
            simp only [Disk.files_setPos, Disk.files_openHandle, Disk.contents, hr.files] at hopened
            exact hopened
      · simp only [Request.send, hcall, Store.openOld]
        by_cases hfile : t.files (resolve fname.bytes) = none
        · obtain ⟨rfl, hm'⟩ := hmissing hfile
          rw [if_pos hfile]
          exact ⟨rfl, hr.still hm'⟩
        · rw [if_neg hfile]
          by_cases hleft : t.left = 0
          · obtain ⟨rfl, hm'⟩ := hfull hfile (hr.full hleft)
            rw [if_pos hleft]
            exact ⟨rfl, hr.still hm'⟩
          · obtain ⟨rfl, hm'⟩ := hroom hfile (hr.room.mp hleft)
            rw [if_neg hleft]
            refine ⟨rfl, ?_⟩
            have hopened := hr.opened (o := ⟨mode.type, s.machine.world.disk.next⟩) rfl hm' rfl rfl
              hleft
            simp only [Disk.files_openHandle, hr.files] at hopened
            exact hopened

/-! ## Imports -/

variable (gap resolve) in
theorem Refines.reach (hr : Refines d₀ s t) (path : CString) :
    (t.reachable resolve path = true ∧ t.left ≠ 0 ∧ ∃ m',
        dosInt21Open (dosWorld gap resolve) quietCall path 0 s.machine =
          (.ok s.machine.world.disk.next, m') ∧
        Serving s.machine.world.disk.next ⟨resolve path.bytes, 0, 0⟩
          (s.machine.world.disk.openHandle (resolve path.bytes) 0).2 m') ∨
      (t.reachable resolve path = false ∧ ∃ e m',
        dosInt21Open (dosWorld gap resolve) quietCall path 0 s.machine = (.error e, m') ∧
        Served s.machine.world.disk m') := by
  unfold Store.reachable
  by_cases hlen : 1024 ≤ path.bytes.length
  · exact .inr ⟨by simp [Nat.not_lt.mpr hlen], 0, s.machine, pathCall_long hlen _ _, hr.served⟩
  · rw [Nat.not_le] at hlen
    obtain ⟨r, m', hcall, hmissing, hfull, hroom⟩ :=
      hr.served.open_ gap resolve hlen (Nat.zero_le 2)
    rw [hr.files] at hmissing hfull hroom
    by_cases hfile : t.files (resolve path.bytes) = none
    · obtain ⟨rfl, hm'⟩ := hmissing hfile
      exact .inr ⟨by simp [hfile], _, m', hcall, hm'⟩
    · have hsome : (t.files (resolve path.bytes)).isSome = true :=
        Option.isSome_iff_ne_none.mpr hfile
      by_cases hleft : t.left = 0
      · obtain ⟨rfl, hm'⟩ := hfull hfile (hr.full hleft)
        exact .inr ⟨by simp [hleft], _, m', hcall, hm'⟩
      · obtain ⟨rfl, hm'⟩ := hroom hfile (hr.room.mp hleft)
        exact .inl ⟨by simp [hlen, hsome, hleft], hleft, m', hcall,
          hm'.serving (hr.room.mp hleft) (by simp)⟩

theorem Refines.closed (hr : Refines d₀ s t)
    (hfresh : ∀ n, d₀.next ≤ n → d₀.handles n = none) (hleft : t.left ≠ 0) {k : κ} {access : Nat}
    (hm : Serving s.machine.world.disk.next h d m)
    (hd : ∃ h' pos, d = (s.machine.world.disk.openHandle k access).2.setPos
      s.machine.world.disk.next h' pos) :
    Refines d₀ ⟨s.objs, (dosInt21Close (dosWorld gap resolve) quietCall s.machine.world.disk.next
      m).2⟩ t.used := by
  obtain ⟨h', pos, rfl⟩ := hd
  have hclose := (served_of_serving hm).close gap resolve
    hm.opened.fd_lt hm.handle
  exact hr.used hfresh hclose rfl (by simp [Disk.close]) rfl hleft

theorem matches_importStat (hr : Refines d₀ s t)
    (hfresh : ∀ n, d₀.next ≤ n → d₀.handles n = none) (path : CString) :
    Matches d₀ (step gap resolve s (.importStat path)) (t.step gap resolve (.importStat path)) := by
  simp only [step, Store.step, Store.importStat, mpImportStat]
  rcases hr.reach gap resolve path with
    ⟨hreach, hleft, m', hcall, hm'⟩ | ⟨hreach, e, m', hcall, hm'⟩
  · simp only [hcall, hreach, if_true]
    exact ⟨rfl, hr.closed hfresh hleft hm' ⟨_, _, (Disk.setPos_self _ hm'.handle).symm⟩⟩
  · simp only [hcall, hreach, Bool.false_eq_true, if_false]
    exact ⟨rfl, hr.still hm'⟩

theorem matches_lexer (hr : Refines d₀ s t)
    (hfresh : ∀ n, d₀.next ≤ n → d₀.handles n = none) (filename : CString) :
    Matches d₀ (step gap resolve s (.lexer filename)) (t.step gap resolve (.lexer filename)) := by
  simp only [step, Store.step, Store.lexer, mpLexerNewFromFile]
  rcases hr.reach gap resolve filename with
    ⟨hreach, hleft, m₁, hcall, hm₁⟩ | ⟨hreach, e, m₁, hcall, hm₁⟩
  · have hcontents : (s.machine.world.disk.openHandle (resolve filename.bytes) 0).2.contents
        (resolve filename.bytes) = t.contents (resolve filename.bytes) := by
      simp [Disk.contents, Store.contents, hr.files]
    simp only [hcall, hreach, if_true, lexerLoad]
    obtain ⟨r, m₂, hsize, hsmall, hlarge⟩ :=
      fsize_serving gap resolve hm₁ rfl (congrArg (toU32 ·.length) hcontents)
    simp only [hsize]
    by_cases hlong : toU32 (t.contents (resolve filename.bytes)).length < 0x80000000
    · obtain ⟨rfl, hm₂⟩ := hsmall hlong
      obtain ⟨m₃, hloop, hm₃⟩ := fileReadLoop_serving gap resolve hm₂ (show 0 ≠ 1 by decide) []
        (Nat.sub_zero (toU32 (t.contents (resolve filename.bytes)).length))
      simp only [Int.toNat_natCast, lexerReadLoop_of_fileReadLoop hloop, if_pos hlong]
      refine ⟨?_, hr.closed hfresh hleft hm₃ ⟨_, _, rfl⟩⟩
      simp [Result.ofExcept, Disk.readHandle, Disk.remaining, hcontents]
    · obtain ⟨rfl, h', hm₂⟩ := hlarge (Nat.le_of_not_lt hlong)
      simp only [if_neg hlong]
      exact ⟨rfl, hr.closed hfresh hleft hm₂ ⟨_, _, rfl⟩⟩
  · simp only [hcall, hreach, Bool.false_eq_true, if_false]
    exact ⟨rfl, hr.still hm₁⟩

/-! ## Runs -/

variable (gap resolve) in
theorem simulates (hfresh : ∀ n, d₀.next ≤ n → d₀.handles n = none) :
    Simulates (step gap resolve) (Store.step gap resolve) (Refines d₀) := by
  have hmatches : ∀ (s : Session κ) (t : Store κ) (op : Op), Refines d₀ s t →
      Matches d₀ (step gap resolve s op) (t.step gap resolve op) := by
    intro s t op hr
    cases op with
    | open_ fname modeS => exact matches_open hr fname modeS
    | read i size => exact matches_read hfresh hr i size
    | write i buf => exact matches_write hfresh hr i buf
    | ioctl i request => exact matches_ioctl hfresh hr i request
    | importStat path => exact matches_importStat hr hfresh path
    | lexer filename => exact matches_lexer hr hfresh filename
  exact ⟨fun s t op hr => (hmatches s t op hr).1, fun s t op hr => (hmatches s t op hr).2⟩

omit [DecidableEq κ] in
theorem refines_start (hm : Served d m) (hnext : d.next ≤ 0x10000) :
    Refines d ⟨[], m⟩ ⟨d.files, [], 0x10000 - d.next⟩ := by
  have hdisk : m.world.disk = d := by rw [hm.world]
  constructor <;> simp [hdisk, hm]
  omega

variable (gap resolve) in
/-- On a machine that can make DOS calls, and while DOS serves them in full, a program over
file objects gives the results of the same program over the store and leaves the same
files; DOS then has open what it had open before, and for each object that is not closed a
handle of its own that was not open before, at the position that the store has for it. -/
theorem program_refines_store (hm : Served d m) (hnext : d.next ≤ 0x10000)
    (hfresh : ∀ n, d.next ≤ n → d.handles n = none) (ops : List Op) :
    let s := play (step gap resolve) ⟨[], m⟩ ops
    let t := play (Store.step gap resolve) ⟨d.files, [], 0x10000 - d.next⟩ ops
    s.1 = t.1 ∧ s.2.machine.world.disk.files = t.2.files ∧
      s.2.objs.length = t.2.objs.length ∧
      (∀ (i : Nat) (o : FileObj), s.2.objs[i]? = some o → 0 ≤ o.fd →
        ∃ h, t.2.objs[i]? = some (some h) ∧
          s.2.machine.world.disk.handles o.fd.toNat = some h) ∧
      (∀ (i j : Nat) (o o' : FileObj), s.2.objs[i]? = some o → s.2.objs[j]? = some o' →
        0 ≤ o.fd → o.fd = o'.fd → i = j) ∧
      (∀ o ∈ s.2.objs, 0 ≤ o.fd → d.handles o.fd.toNat = none) ∧
      ∀ n : Nat, (∀ o ∈ s.2.objs, o.fd ≠ n) →
        s.2.machine.world.disk.handles n = d.handles n := by
  obtain ⟨hresults, hr⟩ := (simulates gap resolve hfresh).play
    (refines_start hm hnext) ops
  refine ⟨hresults, hr.files, hr.length, fun i o hi hopen => ?_, hr.own, fun o ho hopen => ?_,
    hr.rest⟩
  · obtain ⟨x, hx, htracks⟩ := hr.lookup hi
    cases x with
    | none =>
        simp only [Tracks] at htracks
        omega
    | some h =>
        obtain ⟨n, hn, -, hh⟩ := htracks
        exact ⟨h, hx, by rw [hn, Int.toNat_natCast, hh]⟩
  · have hnew := hr.new o ho hopen
    exact hfresh _ (by omega)

theorem program_refines_store_twoObjects :
    (play (step (fun _ => 0) fun _ => ()) ⟨[], booted ⟨emptyDisk, []⟩⟩ twoObjects).1 =
      [.opened .textio, .number 3, .opened .textio, .bytes [1, 2], .number 1, .bytes [3, 4],
        .number 1, .bytes [2], .number 0, .raised .ebadf, .bytes [1, 2, 3, 4]] := by
  have hm : Served emptyDisk (booted ⟨emptyDisk, []⟩) := ⟨⟨.inl rfl, rfl⟩, rfl⟩
  have hrefines := program_refines_store (fun _ => 0) (fun _ => ()) hm
    (by decide) (fun _ _ => rfl) twoObjects
  rw [hrefines.1]
  decide

end FreedosMicroPython.Dos.Refine
