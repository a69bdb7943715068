import FreedosMicroPython.Lib.Files
import FreedosMicroPython.Runtime
/-!
# The `shutil` module

`port/shutil_uc386dos.c` over the libc calls it makes. The libc side is an
environment: a disk, and for each kind of call a queue of answers that decides
which calls fail and how short the others come. `resolve` says which file a path
names, so that two paths may name one file.
-/

namespace FreedosMicroPython.Shutil

open FreedosMicroPython.Lib.Splice FreedosMicroPython.Lib.Files FreedosMicroPython.Runtime

/-- What the operating system answers, one queue for each kind of call. An
exhausted queue answers in full. -/
structure Answers where
  renames : List Bool
  opens : List Bool
  reads : List Answer
  writes : List Answer
  unlinks : List Bool
  deriving DecidableEq, Repr

structure Libc (κ : Type) where
  disk : Disk κ UInt8
  answers : Answers
  gap : Nat → UInt8

variable {κ : Type} [DecidableEq κ]

/-! ## The libc calls -/

def O_CREAT : Nat := 0x40

def O_TRUNC : Nat := 0x200

namespace Libc

def popRename (w : Libc κ) : Libc κ :=
  { w with answers := { w.answers with renames := w.answers.renames.tail } }

def popOpen (w : Libc κ) : Libc κ :=
  { w with answers := { w.answers with opens := w.answers.opens.tail } }

def popRead (w : Libc κ) : Libc κ :=
  { w with answers := { w.answers with reads := w.answers.reads.tail } }

def popWrite (w : Libc κ) : Libc κ :=
  { w with answers := { w.answers with writes := w.answers.writes.tail } }

def popUnlink (w : Libc κ) : Libc κ :=
  { w with answers := { w.answers with unlinks := w.answers.unlinks.tail } }

/-- The handle an `open` that the system grants gets: with `O_TRUNC` an existing
file is emptied, with `O_CREAT` a missing one is created. -/
def granted (k : κ) (flags : Nat) (d : Disk κ UInt8) : Option (Nat × Disk κ UInt8) :=
  match d.files k with
  | some _ =>
      if flags &&& O_TRUNC ≠ 0 then some (d.create k (flags &&& 3))
      else some (d.openHandle k (flags &&& 3))
  | none => if flags &&& O_CREAT ≠ 0 then some (d.create k (flags &&& 3)) else none

/-- `open(path, flags)`; `none` is -1. -/
def open_ (k : κ) (flags : Nat) (w : Libc κ) : Option Nat × Libc κ :=
  if w.answers.opens.head?.getD true then
    match granted k flags w.disk with
    | some (fd, d) => (some fd, { w.popOpen with disk := d })
    | none => (none, w.popOpen)
  else (none, w.popOpen)

/-- `read(fd, buf, n)`: the bytes read, `none` for -1. A read that is not at the
end of the file and does not fail returns at least one byte. -/
def read (fd n : Nat) (w : Libc κ) : Option (List UInt8) × Libc κ :=
  match w.disk.handles fd with
  | none => (none, w.popRead)
  | some h =>
      let avail := min n (w.disk.remaining h).length
      match (w.answers.reads.head?.getD .full).count avail with
      | none => (none, w.popRead)
      | some c =>
          let got := w.disk.readHandle fd h (min (max c 1) avail)
          (some got.1, { w.popRead with disk := got.2 })

/-- `write(fd, buf, n)`: the number of bytes stored, `none` for -1. -/
def write (fd : Nat) (bs : List UInt8) (w : Libc κ) : Option Nat × Libc κ :=
  match w.disk.handles fd with
  | none => (none, w.popWrite)
  | some h =>
      if h.access = 0 then (none, w.popWrite)
      else
        match (w.answers.writes.head?.getD .full).count bs.length with
        | none => (none, w.popWrite)
        | some c =>
            (some c, { w.popWrite with disk := w.disk.writeHandle w.gap fd h (bs.take c) })

def close (fd : Nat) (w : Libc κ) : Libc κ := { w with disk := w.disk.close fd }

/-- `rename(src, dst) == 0`. The call fails and changes nothing when `dst` exists. -/
def rename (k k' : κ) (w : Libc κ) : Bool × Libc κ :=
  if w.answers.renames.head?.getD true && (w.disk.files k).isSome && (w.disk.files k').isNone then
    (true, { w.popRename with disk := (w.disk.setFile k' (w.disk.files k)).setFile k none })
  else (false, w.popRename)

def unlink (k : κ) (w : Libc κ) : Bool × Libc κ :=
  if w.answers.unlinks.head?.getD true && (w.disk.files k).isSome then
    (true, { w.popUnlink with disk := w.disk.setFile k none })
  else (false, w.popUnlink)

end Libc

/-! ## The module's functions -/

def SHUTIL_COPY_BUF_SIZE : Nat := 4096

/-- The inner loop of `copy_stream`: write what is left of one buffer. -/
def copyStreamWrite (dstFd : Nat) (pending : List UInt8) (w : Libc κ) :
    Except MpErrno Unit × Libc κ :=
  if _h : pending = [] then (.ok (), w)
  else
    match w.write dstFd pending with
    | (none, w) => (.error .eio, w)
    | (some 0, w) => (.error .eio, w)
    | (some (n + 1), w) => copyStreamWrite dstFd (pending.drop (n + 1)) w
termination_by pending.length
decreasing_by
  have hpos := List.length_pos_iff.mpr _h
  simp only [List.length_drop]
  omega

/-- `copy_stream`, `none` when the rounds of its outer loop exceed `fuel`. -/
def copyStream (srcFd dstFd : Nat) : Nat → Libc κ → Option (Except MpErrno Unit × Libc κ)
  | 0, _ => none
  | fuel + 1, w =>
      match w.read srcFd SHUTIL_COPY_BUF_SIZE with
      | (none, w) => some (.error .eio, w)
      | (some [], w) => some (.ok (), w)
      | (some buf, w) =>
          match copyStreamWrite dstFd buf w with
          | (.error e, w) => some (.error e, w)
          | (.ok (), w) => copyStream srcFd dstFd fuel w

variable {Path : Type} (resolve : Path → κ)

def shutilCopyfile (fuel : Nat) (src dst : Path) (w : Libc κ) :
    Option (Except MpErrno Unit × Libc κ) :=
  match w.open_ (resolve src) 0 with
  | (none, w) => some (.error .enoent, w)
  | (some srcFd, w) =>
      match w.open_ (resolve dst) 0x241 with
      | (none, w) => some (.error .eio, w.close srcFd)
      | (some dstFd, w) =>
          match copyStream srcFd dstFd fuel w with
          | none => none
          | some (.error e, w) => some (.error e, w)
          | some (.ok (), w) => some (.ok (), (w.close srcFd).close dstFd)

def shutilMove (fuel : Nat) (src dst : Path) (w : Libc κ) :
    Option (Except MpErrno Unit × Libc κ) :=
  match w.rename (resolve src) (resolve dst) with
  | (true, w) => some (.ok (), w)
  | (false, w) =>
      match shutilCopyfile resolve fuel src dst w with
      | none => none
      | some (.error e, w) => some (.error e, w)
      | some (.ok (), w) =>
          match w.unlink (resolve src) with
          | (true, w) => some (.ok (), w)
          | (false, w) => some (.error .eio, w)

/-! ## Answers to a copy -/

/-- The answers left once `n` bytes have been written, `none` if a write fails or
stores nothing. -/
def bufferWritten : Nat → List Answer → Option (List Answer)
  | 0, as => some as
  | _ + 1, [] => some []
  | n + 1, a :: as =>
      match a.count (n + 1) with
      | some (k + 1) => bufferWritten (n - k) as
      | _ => none

/-- No read of the copy of `left` bytes fails, and no write fails or stores nothing. -/
def streamCopied (left : Nat) (reads writes : List Answer) : Bool :=
  match (reads.head?.getD .full).count (min SHUTIL_COPY_BUF_SIZE left) with
  | none => false
  | some c =>
      if left = 0 then true
      else
        match bufferWritten (min (max c 1) (min SHUTIL_COPY_BUF_SIZE left)) writes with
        | none => false
        | some writes =>
            streamCopied (left - min (max c 1) (min SHUTIL_COPY_BUF_SIZE left)) reads.tail writes
termination_by left
decreasing_by
  rw [SHUTIL_COPY_BUF_SIZE]
  omega

theorem bufferWritten_step {n : Nat} (hn : n ≠ 0) (as : List Answer) :
    bufferWritten n as =
      match (as.head?.getD .full).count n with
      | some (k + 1) => bufferWritten (n - (k + 1)) as.tail
      | _ => none := by
  obtain ⟨n, rfl⟩ := Nat.exists_eq_succ_of_ne_zero hn
  cases as with
  | nil => simp [bufferWritten, Answer.count]
  | cons a as => simp [bufferWritten]

/-! ## What one call does -/

namespace Libc

theorem write_cases {fd : Nat} {w w' : Libc κ} {h : Handle κ} {bs : List UInt8}
    {stored : Option Nat} (hfd : w.disk.handles fd = some h) (hacc : h.access ≠ 0)
    (hcall : w.write fd bs = (stored, w')) :
    (w.answers.writes.head?.getD .full).count bs.length = stored ∧
      w'.answers = { w.answers with writes := w.answers.writes.tail } ∧
      w'.disk = stored.elim w.disk fun c => w.disk.writeHandle w.gap fd h (bs.take c) := by
  unfold write at hcall
  cases hc : (w.answers.writes.head?.getD .full).count bs.length with
  | none =>
      simp only [hfd, hacc, hc, popWrite] at hcall
      cases hcall
      exact ⟨rfl, rfl, rfl⟩
  | some c =>
      simp only [hfd, hacc, hc, popWrite] at hcall
      cases hcall
      exact ⟨rfl, rfl, rfl⟩

omit [DecidableEq κ] in
/-- A read that does not fail takes cells from the position on, and none of them
only at the end of the file. -/
theorem read_spec {fd : Nat} {w : Libc κ} {h : Handle κ} (hfd : w.disk.handles fd = some h)
    (n : Nat) :
    (w.read fd n).2.answers = w.popRead.answers ∧
      match (w.answers.reads.head?.getD .full).count (min n (w.disk.remaining h).length) with
      | none => (w.read fd n).1 = none ∧ (w.read fd n).2.disk = w.disk
      | some c =>
          (w.read fd n).1 = some ((w.disk.remaining h).take
            (min (max c 1) (min n (w.disk.remaining h).length))) ∧
          (w.read fd n).2.disk = w.disk.setPos fd h
            (h.pos + min (max c 1) (min n (w.disk.remaining h).length)) := by
  unfold read
  generalize havail : min n (w.disk.remaining h).length = avail
  cases hc : (w.answers.reads.head?.getD .full).count avail with
  | none => simp [hfd, havail, hc, popRead]
  | some c =>
      have hle : min (max c 1) avail ≤ (w.disk.remaining h).length := by omega
      simp [hfd, havail, hc, Disk.readHandle, popRead, hle]

theorem open_refused {k : κ} {flags : Nat} {w : Libc κ}
    (h : w.answers.opens.head?.getD true = false) : w.open_ k flags = (none, w.popOpen) := by
  simp [open_, h]

theorem open_existing {k : κ} {c : List UInt8} {w : Libc κ}
    (h : w.answers.opens.head?.getD true = true) (hk : w.disk.files k = some c) :
    ∃ w', w.open_ k 0 = (some w.disk.next, w') ∧ w'.disk = (w.disk.openHandle k 0).2 ∧
      w'.answers = w.popOpen.answers :=
  ⟨{ w.popOpen with disk := (w.disk.openHandle k 0).2 }, by simp [open_, h, granted, hk], rfl, rfl⟩

theorem open_truncate {k : κ} {w : Libc κ} (h : w.answers.opens.head?.getD true = true) :
    ∃ w', w.open_ k 0x241 = (some w.disk.next, w') ∧ w'.disk = (w.disk.create k 1).2 ∧
      w'.answers = w.popOpen.answers := by
  have hgranted : granted k 0x241 w.disk = some (w.disk.create k 1) := by
    unfold granted
    cases w.disk.files k <;> rfl
  exact ⟨{ w.popOpen with disk := (w.disk.create k 1).2 }, by simp [open_, h, hgranted], rfl, rfl⟩

theorem rename_spec (k k' : κ) (w : Libc κ) :
    w.rename k k' = (false, w.popRename) ∨
      (w.disk.files k' = none ∧ w.rename k k' =
        (true, { w.popRename with
          disk := (w.disk.setFile k' (w.disk.files k)).setFile k none })) := by
  unfold rename
  split
  · rename_i h
    simp only [Bool.and_eq_true, Option.isNone_iff_eq_none] at h
    exact Or.inr ⟨h.2, rfl⟩
  · exact Or.inl rfl

theorem unlink_spec (k : κ) (w : Libc κ) :
    w.unlink k = (false, w.popUnlink) ∨
      w.unlink k = (true, { w.popUnlink with disk := w.disk.setFile k none }) := by
  unfold unlink
  split
  · exact Or.inr rfl
  · exact Or.inl rfl

end Libc

/-- Nothing but file `k` and handle `fd` changes. -/
structure OnlyTouches (k : κ) (fd : Nat) (w w' : Libc κ) : Prop where
  files : ∀ j, j ≠ k → w'.disk.files j = w.disk.files j
  handles : ∀ f, f ≠ fd → w'.disk.handles f = w.disk.handles f

omit [DecidableEq κ] in
theorem OnlyTouches.of_disk {k : κ} {fd : Nat} {w w' : Libc κ} (h : w'.disk = w.disk) :
    OnlyTouches k fd w w' := by
  constructor <;> intros <;> rw [h]

omit [DecidableEq κ] in
theorem OnlyTouches.trans {k : κ} {fd : Nat} {w₁ w₂ w₃ : Libc κ}
    (h₁₂ : OnlyTouches k fd w₁ w₂) (h₂₃ : OnlyTouches k fd w₂ w₃) : OnlyTouches k fd w₁ w₃ where
  files j hj := (h₂₃.files j hj).trans (h₁₂.files j hj)
  handles f hf := (h₂₃.handles f hf).trans (h₁₂.handles f hf)

theorem OnlyTouches.writeHandle {k : κ} {fd : Nat} {h : Handle κ} {w w' : Libc κ}
    {bs : List UInt8} (hk : h.file = k)
    (hw : w'.disk = w.disk.writeHandle w.gap fd h bs) : OnlyTouches k fd w w' := by
  subst hk
  constructor
  · intro j hj
    simp [hw, Disk.writeHandle, Function.update_of_ne hj]
  · intro f hf
    simp [hw, Disk.writeHandle, Function.update_of_ne hf]

/-- The inner loop appends the whole buffer, or raises when a write fails or stores
nothing; it touches nothing but the destination. -/
theorem copyStreamWrite_spec {dstFd : Nat} {k : κ} {w : Libc κ} {c : List UInt8}
    (hfd : w.disk.handles dstFd = some ⟨k, c.length, 1⟩) (hfile : w.disk.files k = some c)
    (pending : List UInt8) :
    OnlyTouches k dstFd w (copyStreamWrite dstFd pending w).2 ∧
      (copyStreamWrite dstFd pending w).2.disk.next = w.disk.next ∧
      match bufferWritten pending.length w.answers.writes with
      | none => (copyStreamWrite dstFd pending w).1 ≠ .ok ()
      | some rest => (copyStreamWrite dstFd pending w).1 = .ok () ∧
          (copyStreamWrite dstFd pending w).2.answers = { w.answers with writes := rest } ∧
          (copyStreamWrite dstFd pending w).2.disk.files k = some (c ++ pending) ∧
          (copyStreamWrite dstFd pending w).2.disk.handles dstFd =
            some ⟨k, (c ++ pending).length, 1⟩ := by
  have hwritten {w : Libc κ} {pending : List UInt8} (hne : pending ≠ []) :=
    bufferWritten_step (n := pending.length) (by simpa using hne) w.answers.writes
  fun_induction copyStreamWrite dstFd pending w generalizing c with
  | case1 w => simpa [bufferWritten] using ⟨.of_disk rfl, hfile, hfd⟩
  | case2 pending w hne w' hwrite =>
      obtain ⟨hcount, -, hdisk⟩ := Libc.write_cases hfd (by simp) hwrite
      rw [hwritten hne, hcount]
      exact ⟨.of_disk hdisk, congrArg Disk.next hdisk, by simp⟩
  | case3 pending w hne w' hwrite =>
      obtain ⟨hcount, -, hdisk⟩ := Libc.write_cases hfd (by simp) hwrite
      rw [hwritten hne, hcount]
      exact ⟨.writeHandle rfl hdisk, by rw [hdisk]; rfl, by simp⟩
  | case4 pending w hne n w' hwrite ih =>
      obtain ⟨hcount, hanswers, hdisk⟩ := Libc.write_cases hfd (by simp) hwrite
      rw [hwritten hne, hcount]
      rw [Option.elim_some] at hdisk
      have hfile' : w'.disk.files k = some (c ++ pending.take (n + 1)) := by
        simp [hdisk, Disk.writeHandle, Disk.contents_of_files _ hfile, overwrite_at_end]
      have hfd' : w'.disk.handles dstFd =
          some ⟨k, (c ++ pending.take (n + 1)).length, 1⟩ := by
        simp [hdisk, Disk.writeHandle]
      obtain ⟨htouch, hnext, hrest⟩ := ih hfd' hfile'
      refine ⟨(OnlyTouches.writeHandle rfl hdisk).trans htouch, ?_, ?_⟩
      · rw [hnext, hdisk]
        rfl
      · rw [hanswers, List.length_drop] at hrest
        simpa [List.append_assoc] using hrest

/-- Between two rounds of the outer loop the first `p` bytes are copied. -/
structure Copying (srcFd dstFd : Nat) (k k' : κ) (orig : List UInt8) (p : Nat) (w : Libc κ) :
    Prop where
  src : w.disk.handles srcFd = some ⟨k, p, 0⟩
  dst : w.disk.handles dstFd = some ⟨k', (orig.take p).length, 1⟩
  srcFile : w.disk.files k = some orig
  dstFile : w.disk.files k' = some (orig.take p)

/-- A round that has read `n` bytes writes them behind those that are there, or raises. -/
theorem Copying.round {srcFd dstFd : Nat} {k k' : κ} {orig : List UInt8} {p n : Nat}
    {w w₁ : Libc κ} (hw : Copying srcFd dstFd k k' orig p w) (hfd : srcFd ≠ dstFd) (hk : k ≠ k')
    (hdisk : w₁.disk = w.disk.setPos srcFd ⟨k, p, 0⟩ (p + n))
    (hlen : ((orig.drop p).take n).length = n) :
    (copyStreamWrite dstFd ((orig.drop p).take n) w₁).2.disk.files k = some orig ∧
      (copyStreamWrite dstFd ((orig.drop p).take n) w₁).2.disk.next = w.disk.next ∧
      (copyStreamWrite dstFd ((orig.drop p).take n) w₁).2.disk.handles srcFd ≠ none ∧
      match bufferWritten n w₁.answers.writes with
      | none => (copyStreamWrite dstFd ((orig.drop p).take n) w₁).1 ≠ .ok ()
      | some rest => (copyStreamWrite dstFd ((orig.drop p).take n) w₁).1 = .ok () ∧
          (copyStreamWrite dstFd ((orig.drop p).take n) w₁).2.answers =
            { w₁.answers with writes := rest } ∧
          Copying srcFd dstFd k k' orig (p + n)
            (copyStreamWrite dstFd ((orig.drop p).take n) w₁).2 := by
  have hdst₁ : w₁.disk.handles dstFd = some ⟨k', (orig.take p).length, 1⟩ := by
    simpa [hdisk, Function.update_of_ne (Ne.symm hfd)] using hw.dst
  have hfile₁ : w₁.disk.files k' = some (orig.take p) := by
    simpa [hdisk] using hw.dstFile
  obtain ⟨htouch, hnext, hrest⟩ := copyStreamWrite_spec hdst₁ hfile₁ ((orig.drop p).take n)
  rw [hlen, ← List.take_add] at hrest
  have hsrc₂ := htouch.files k hk
  rw [hdisk, Disk.files_setPos, hw.srcFile] at hsrc₂
  have hhandle₂ := htouch.handles srcFd hfd
  rw [hdisk, Disk.handles_setPos, Function.update_self] at hhandle₂
  rw [hdisk] at hnext
  refine ⟨hsrc₂, hnext, by simp [hhandle₂], ?_⟩
  cases hall : bufferWritten n w₁.answers.writes with
  | none =>
      rw [hall] at hrest
      exact hrest
  | some rest =>
      rw [hall] at hrest
      obtain ⟨hok, hanswers, hfile₂, hdst₂⟩ := hrest
      exact ⟨hok, hanswers, hhandle₂, hdst₂, hsrc₂, hfile₂⟩

omit [DecidableEq κ] in
theorem Copying.read {srcFd dstFd : Nat} {k k' : κ} {orig : List UInt8} {p : Nat}
    {w w₁ : Libc κ} {got : Option (List UInt8)} (hw : Copying srcFd dstFd k k' orig p w)
    (hcall : w.read srcFd SHUTIL_COPY_BUF_SIZE = (got, w₁)) :
    w₁.answers = { w.answers with reads := w.answers.reads.tail } ∧
      match (w.answers.reads.head?.getD .full).count
        (min SHUTIL_COPY_BUF_SIZE (orig.length - p)) with
      | none => got = none ∧ w₁.disk = w.disk
      | some c =>
          got = some ((orig.drop p).take
            (min (max c 1) (min SHUTIL_COPY_BUF_SIZE (orig.length - p)))) ∧
          w₁.disk = w.disk.setPos srcFd ⟨k, p, 0⟩
            (p + min (max c 1) (min SHUTIL_COPY_BUF_SIZE (orig.length - p))) := by
  have hrem : w.disk.remaining ⟨k, p, 0⟩ = orig.drop p := by
    simp [Disk.remaining, Disk.contents_of_files _ hw.srcFile]
  have hread := Libc.read_spec hw.src SHUTIL_COPY_BUF_SIZE
  rw [hrem, List.length_drop, hcall] at hread
  exact hread

omit [DecidableEq κ] in
theorem Copying.atEnd {srcFd dstFd : Nat} {k k' : κ} {orig : List UInt8} {p n : Nat}
    {w w₁ : Libc κ} (hw : Copying srcFd dstFd k k' orig p w)
    (hdisk : w₁.disk = w.disk.setPos srcFd ⟨k, p, 0⟩ (p + n)) (hend : orig.length - p = 0) :
    w₁.disk.files k = some orig ∧ w₁.disk.files k' = some orig ∧
      w₁.disk.next = w.disk.next ∧ w₁.disk.handles srcFd ≠ none := by
  have htake : orig.take p = orig := List.take_of_length_le (by omega)
  refine ⟨by simpa [hdisk] using hw.srcFile, by simpa [hdisk, htake] using hw.dstFile, ?_, ?_⟩
  · rw [hdisk]
    rfl
  · simp [hdisk]

/-- `copy_stream` between two different files ends, leaves the source alone and,
unless it raises, has copied all of it. It raises when a call fails or stores nothing. -/
theorem copyStream_spec {srcFd dstFd : Nat} {k k' : κ} {orig : List UInt8} {p fuel : Nat}
    {w : Libc κ} (hfd : srcFd ≠ dstFd) (hk : k ≠ k') (hw : Copying srcFd dstFd k k' orig p w)
    (hfuel : orig.length - p < fuel) :
    ∃ r w', copyStream srcFd dstFd fuel w = some (r, w') ∧ w'.disk.files k = some orig ∧
      (r = .ok () → w'.disk.files k' = some orig) ∧
      w'.disk.next = w.disk.next ∧ w'.disk.handles srcFd ≠ none ∧
      (r = .ok () ↔ streamCopied (orig.length - p) w.answers.reads w.answers.writes = true) := by
  induction fuel generalizing p w with
  | zero => omega
  | succ fuel ih =>
      rw [copyStream, streamCopied]
      obtain ⟨⟨got, w₁⟩, hcall⟩ : ∃ r, w.read srcFd SHUTIL_COPY_BUF_SIZE = r := ⟨_, rfl⟩
      obtain ⟨hanswers₁, hread⟩ := hw.read hcall
      rw [hcall]
      generalize hleft : orig.length - p = left at hread ⊢
      cases hc : (w.answers.reads.head?.getD .full).count (min SHUTIL_COPY_BUF_SIZE left) with
      | none =>
          rw [hc] at hread
          obtain ⟨rfl, hdisk⟩ := hread
          replace hdisk : w₁.disk = w.disk := hdisk
          exact ⟨_, _, rfl, by rw [hdisk]; exact hw.srcFile, by simp, by rw [hdisk],
            by simp [hdisk, hw.src], by simp⟩
      | some c =>
          rw [hc] at hread
          obtain ⟨rfl, hdisk⟩ := hread
          replace hdisk : w₁.disk = w.disk.setPos srcFd ⟨k, p, 0⟩
            (p + min (max c 1) (min SHUTIL_COPY_BUF_SIZE left)) := hdisk
          generalize hn : min (max c 1) (min SHUTIL_COPY_BUF_SIZE left) = n at hdisk ⊢
          have hlen : ((orig.drop p).take n).length = n := by
            rw [List.length_take, List.length_drop]
            omega
          cases hbuf : (orig.drop p).take n with
          | nil =>
              have hend : left = 0 := by
                rw [hbuf] at hlen
                simp only [List.length_nil, SHUTIL_COPY_BUF_SIZE] at hlen hn
                omega
              obtain ⟨hkeep, hdone, hnext, hopen⟩ := hw.atEnd hdisk (hleft.trans hend)
              exact ⟨_, _, rfl, hkeep, fun _ => hdone, hnext, hopen, by simp [hend]⟩
          | cons b bs =>
              have hpos : 0 < n ∧ left ≠ 0 := by
                rw [hbuf, List.length_cons] at hlen
                omega
              have hround := hw.round hfd hk hdisk hlen
              rw [hbuf, hanswers₁] at hround
              obtain ⟨⟨r, w₂⟩, hloop⟩ : ∃ r, copyStreamWrite dstFd (b :: bs) w₁ = r := ⟨_, rfl⟩
              rw [hloop] at hround
              obtain ⟨hkeep, hnext, hopen, hok⟩ := hround
              cases hall : bufferWritten n w.answers.writes with
              | none =>
                  rw [hall] at hok
                  cases r with
                  | error e =>
                      exact ⟨.error e, w₂, by simp [hloop], hkeep, by simp, hnext, hopen,
                        by simp [hpos.2, hn, hall]⟩
                  | ok u => exact absurd rfl hok
              | some rest =>
                  rw [hall] at hok
                  obtain ⟨rfl, hanswers₂, hw₂⟩ := hok
                  obtain ⟨r, w', hrun, hkeep', hdone, hnext', hopen', hiff⟩ :=
                    ih hw₂ (by omega)
                  refine ⟨r, w', by simp [hloop, hrun], hkeep', hdone, hnext'.trans hnext,
                    hopen', ?_⟩
                  rw [hiff, hanswers₂, show orig.length - (p + n) = left - n by omega]
                  simp [hpos.2, hn, hall]

theorem shutilCopyfile_cases (src dst : Path) {orig : List UInt8} (fuel : Nat) {w : Libc κ}
    (hsrc : w.disk.files (resolve src) = some orig) :
    (w.answers.opens.head?.getD true = false ∧
      shutilCopyfile resolve fuel src dst w = some (.error .enoent, w.popOpen)) ∨
    (w.answers.opens.head?.getD true = true ∧ w.answers.opens.tail.head?.getD true = false ∧
      ∃ w', shutilCopyfile resolve fuel src dst w = some (.error .eio, w') ∧
        w'.disk = (w.disk.openHandle (resolve src) 0).2.close w.disk.next ∧
        w'.answers = w.popOpen.popOpen.answers) ∨
    (w.answers.opens.head?.getD true = true ∧ w.answers.opens.tail.head?.getD true = true ∧
      ∃ w', w'.disk = ((w.disk.openHandle (resolve src) 0).2.create (resolve dst) 1).2 ∧
        w'.answers = w.popOpen.popOpen.answers ∧
        shutilCopyfile resolve fuel src dst w =
          match copyStream w.disk.next (w.disk.next + 1) fuel w' with
          | none => none
          | some (.error e, w) => some (.error e, w)
          | some (.ok (), w₁) =>
              some (.ok (), (w₁.close w.disk.next).close (w.disk.next + 1))) := by
  unfold shutilCopyfile
  cases hopen : w.answers.opens.head?.getD true with
  | false => exact .inl ⟨rfl, by rw [Libc.open_refused hopen]⟩
  | true =>
      obtain ⟨w₁, hcall₁, hdisk₁, hans₁⟩ := Libc.open_existing hopen hsrc
      have htail : w₁.answers.opens = w.answers.opens.tail := by
        rw [hans₁]
        rfl
      have hpop : w₁.popOpen.answers = w.popOpen.popOpen.answers := by
        rw [Libc.popOpen, hans₁]
        rfl
      rw [hcall₁, ← htail]
      cases htrunc : w₁.answers.opens.head?.getD true with
      | false =>
          refine .inr (.inl ⟨rfl, rfl, w₁.popOpen.close w.disk.next,
            by simp only [Libc.open_refused htrunc], ?_, hpop⟩)
          rw [← hdisk₁]
          rfl
      | true =>
          obtain ⟨w₂, hcall₂, hdisk₂, hans₂⟩ := Libc.open_truncate (k := resolve dst) htrunc
          have hnext : w₁.disk.next = w.disk.next + 1 := by
            rw [hdisk₁]
            rfl
          refine .inr (.inr ⟨rfl, rfl, w₂, by rw [hdisk₂, hdisk₁], hans₂.trans hpop, ?_⟩)
          simp only [hcall₂, hnext]

theorem Copying.start {k k' : κ} {orig : List UInt8} {w w' : Libc κ} (hne : k ≠ k')
    (hsrc : w.disk.files k = some orig)
    (hdisk : w'.disk = ((w.disk.openHandle k 0).2.create k' 1).2) :
    Copying w.disk.next (w.disk.next + 1) k k' orig 0 w' := by
  constructor <;> simp [hdisk, Disk.create, Function.update_of_ne hne, hsrc]

/-- Copying between two different files keeps the source and, unless it raises,
leaves its bytes in the destination. -/
theorem shutilCopyfile_spec {src dst : Path} {orig : List UInt8} {fuel : Nat} {w : Libc κ}
    (hne : resolve src ≠ resolve dst) (hsrc : w.disk.files (resolve src) = some orig)
    (hfuel : orig.length < fuel) :
    ∃ r w', shutilCopyfile resolve fuel src dst w = some (r, w') ∧
      w'.disk.files (resolve src) = some orig ∧
      (r = .ok () → w'.disk.files (resolve dst) = some orig) := by
  obtain ⟨-, hrun⟩ | ⟨-, -, w', hrun, hdisk, -⟩ | ⟨-, -, w₂, hdisk, -, hrun⟩ :=
    shutilCopyfile_cases resolve src dst fuel hsrc
  · exact ⟨.error .enoent, w.popOpen, hrun, hsrc, by simp⟩
  · exact ⟨.error .eio, w', hrun, by rw [hdisk]; exact hsrc, by simp⟩
  · obtain ⟨r, w', hcopy, hkeep, hcopied, -⟩ :=
      copyStream_spec (Nat.ne_of_lt (Nat.lt_succ_self _)) hne (Copying.start hne hsrc hdisk)
        (show orig.length - 0 < fuel by omega)
    rw [hrun, hcopy]
    cases r with
    | error e => exact ⟨.error e, w', rfl, hkeep, by simp⟩
    | ok u => exact ⟨.ok (), _, rfl, hkeep, fun _ => hcopied rfl⟩

/-! ## Moving a file -/

/-- What `move` needs of its arguments and of the answers to keep the bytes: the
two paths name different files, or the fallback copy is refused before it
truncates the file, or the file is empty and is not removed afterwards. -/
def MoveKeeps (src dst : Path) (orig : List UInt8) (a : Answers) : Prop :=
  resolve src ≠ resolve dst ∨
    a.opens.head?.getD true = false ∨ a.opens.tail.head?.getD true = false ∨
    (orig = [] ∧ ((a.reads.head?.getD .full).count 0 = none ∨ a.unlinks.head?.getD true = false))

/-- The bytes that were under `src` are still stored under `src` or `dst`. -/
def Stored (src dst : Path) (orig : List UInt8) (w : Libc κ) : Prop :=
  w.disk.files (resolve src) = some orig ∨ w.disk.files (resolve dst) = some orig

theorem shutilMove_stored_of_ne {src dst : Path} {orig : List UInt8} {fuel : Nat} {w : Libc κ}
    (hne : resolve src ≠ resolve dst) (hsrc : w.disk.files (resolve src) = some orig)
    (hfuel : orig.length < fuel) :
    ∃ r w', shutilMove resolve fuel src dst w = some (r, w') ∧ Stored resolve src dst orig w' := by
  unfold shutilMove
  rcases Libc.rename_spec (resolve src) (resolve dst) w with hren | ⟨-, hren⟩
  · rw [hren]
    obtain ⟨r, w₁, hrun, hkeep, hcopied⟩ :=
      shutilCopyfile_spec resolve hne (w := w.popRename) hsrc hfuel
    cases r with
    | error e => exact ⟨.error e, w₁, by simp only [hrun], Or.inl hkeep⟩
    | ok u =>
        rcases Libc.unlink_spec (resolve src) w₁ with hun | hun
        · exact ⟨.error .eio, w₁.popUnlink, by simp only [hrun, hun], Or.inl hkeep⟩
        · refine ⟨.ok (), { w₁.popUnlink with disk := w₁.disk.setFile (resolve src) none },
            by simp only [hrun, hun], Or.inr ?_⟩
          simpa [Function.update_of_ne (Ne.symm hne)] using hcopied rfl
  · rw [hren]
    refine ⟨.ok (), _, rfl, Or.inr ?_⟩
    simp [Function.update_of_ne (Ne.symm hne), hsrc]

def OpensGranted (a : Answers) : Prop :=
  a.opens.head?.getD true = true ∧ a.opens.tail.head?.getD true = true

/-- When both paths name one file, `copyfile` empties it before it reads. -/
theorem shutilCopyfile_same {src dst : Path} {orig : List UInt8} (fuel : Nat) {w : Libc κ}
    (heq : resolve dst = resolve src) (hsrc : w.disk.files (resolve src) = some orig) :
    ∃ r w', shutilCopyfile resolve (fuel + 1) src dst w = some (r, w') ∧
      w'.answers.unlinks = w.answers.unlinks ∧
      (¬OpensGranted w.answers ∧ r ≠ .ok () ∧ w'.disk.files (resolve src) = some orig ∨
        OpensGranted w.answers ∧ w'.disk.files (resolve src) = some [] ∧
          (r = .ok () ↔ (w.answers.reads.head?.getD .full).count 0 ≠ none)) := by
  unfold OpensGranted
  obtain ⟨hopen, hrun⟩ | ⟨-, htrunc, w', hrun, hdisk, hans⟩ |
      ⟨hopen, htrunc, w₂, hdisk, hans, hrun⟩ := shutilCopyfile_cases resolve src dst (fuel + 1) hsrc
  · exact ⟨.error .enoent, w.popOpen, hrun, rfl, .inl ⟨by simp [hopen], by simp, hsrc⟩⟩
  · exact ⟨.error .eio, w', hrun, by rw [hans]; rfl,
      .inl ⟨fun hgranted => absurd htrunc (by rw [hgranted.2]; simp), by simp,
        by rw [hdisk]; exact hsrc⟩⟩
  · rw [heq] at hdisk
    have hempty : w₂.disk.files (resolve src) = some [] := by
      simp [hdisk, Disk.create]
    have hfd : w₂.disk.handles w.disk.next = some ⟨resolve src, 0, 0⟩ := by
      simp [hdisk, Disk.create]
    rw [hrun]
    -- both handles are open on the file that is now empty: the first read decides
    cases hread : (w.answers.reads.head?.getD .full).count 0 with
    | none =>
        have hcall : w₂.read w.disk.next SHUTIL_COPY_BUF_SIZE = (none, w₂.popRead) := by
          simp [Libc.read, hfd, Disk.remaining, Disk.contents, hempty, hans, Libc.popOpen, hread]
        refine ⟨.error .eio, w₂.popRead, by simp only [copyStream, hcall], ?_,
          .inr ⟨⟨hopen, htrunc⟩, hempty, by simp⟩⟩
        simp [Libc.popRead, hans, Libc.popOpen]
    | some c =>
        obtain ⟨w₃, hcall, hfiles, hans₃⟩ :
            ∃ w₃, w₂.read w.disk.next SHUTIL_COPY_BUF_SIZE = (some [], w₃) ∧
              w₃.disk.files = w₂.disk.files ∧ w₃.answers = w₂.popRead.answers := by
          refine ⟨{ w₂.popRead with disk :=
            (w₂.disk.readHandle w.disk.next ⟨resolve src, 0, 0⟩ 0).2 }, ?_, rfl, rfl⟩
          simp [Libc.read, hfd, Disk.remaining, Disk.contents, hempty, hans, Libc.popOpen,
            hread, Disk.readHandle]
        refine ⟨.ok (), (w₃.close w.disk.next).close (w.disk.next + 1),
          by simp only [copyStream, hcall], ?_, .inr ⟨⟨hopen, htrunc⟩, ?_, by simp⟩⟩
        · simp [Libc.close, hans₃, Libc.popRead, hans, Libc.popOpen]
        · simpa [Libc.close, hfiles] using hempty

/-- When both paths name one file, `rename` refuses, the fallback copy empties
the file and `unlink` removes it. -/
theorem shutilMove_stored_of_eq {src dst : Path} {orig : List UInt8} {fuel : Nat} {w : Libc κ}
    (heq : resolve dst = resolve src) (hsrc : w.disk.files (resolve src) = some orig) :
    ∃ r w', shutilMove resolve (fuel + 1) src dst w = some (r, w') ∧
      (Stored resolve src dst orig w' ↔ MoveKeeps resolve src dst orig w.answers) := by
  have hren : w.rename (resolve src) (resolve dst) = (false, w.popRename) := by
    rcases Libc.rename_spec (resolve src) (resolve dst) w with hren | ⟨hnone, -⟩
    · exact hren
    · simp [heq, hsrc] at hnone
  obtain ⟨r, w₁, hrun, hunlinks, hcases⟩ :=
    shutilCopyfile_same resolve fuel (w := w.popRename) heq hsrc
  unfold shutilMove Stored MoveKeeps
  rw [hren]
  simp only [hrun, heq, or_self, ne_eq, not_true_eq_false, false_or]
  change (¬OpensGranted w.answers ∧ _ ∨ OpensGranted w.answers ∧ _) at hcases
  rcases hcases with ⟨hrefused, hr, hfile⟩ | ⟨hgranted, hfile, hr⟩
  · cases r with
    | error e =>
        refine ⟨.error e, w₁, rfl, ?_⟩
        simp only [hfile, true_iff]
        by_contra hkeeps
        simp only [not_or, Bool.not_eq_false] at hkeeps
        exact hrefused ⟨hkeeps.1, hkeeps.2.1⟩
    | ok u => exact absurd rfl hr
  · simp only [hgranted.1, hgranted.2, Bool.true_eq_false, false_or]
    cases r with
    | error e =>
        refine ⟨.error e, w₁, rfl, ?_⟩
        have hnone : (w.answers.reads.head?.getD .full).count 0 = none := by
          by_contra hne
          exact absurd (hr.mpr hne) (by simp)
        simp only [hfile, hnone, Option.some.injEq, true_or, and_true]
        exact eq_comm
    | ok u =>
        have hsome : (w.answers.reads.head?.getD .full).count 0 ≠ none := hr.mp rfl
        have hqueue : w₁.answers.unlinks = w.answers.unlinks := hunlinks
        cases hun : w.answers.unlinks.head?.getD true with
        | false =>
            refine ⟨.error .eio, w₁.popUnlink, by simp [Libc.unlink, hqueue, hun], ?_⟩
            simp only [Libc.popUnlink, hfile, Option.some.injEq, or_true, and_true]
            exact eq_comm
        | true =>
            refine ⟨.ok (), { w₁.popUnlink with disk := w₁.disk.setFile (resolve src) none },
              by simp [Libc.unlink, hqueue, hun, hfile], ?_⟩
            simp [hsome]

/-- `move` keeps the bytes of the file exactly under `MoveKeeps`. -/
theorem shutilMove_stored_iff {src dst : Path} {orig : List UInt8} {fuel : Nat} {w : Libc κ}
    (hsrc : w.disk.files (resolve src) = some orig) (hfuel : orig.length < fuel) :
    ∃ r w', shutilMove resolve fuel src dst w = some (r, w') ∧
      (Stored resolve src dst orig w' ↔ MoveKeeps resolve src dst orig w.answers) := by
  by_cases heq : resolve dst = resolve src
  · obtain ⟨n, rfl⟩ := Nat.exists_eq_succ_of_ne_zero (by omega : fuel ≠ 0)
    exact shutilMove_stored_of_eq resolve heq hsrc
  · have hne : resolve src ≠ resolve dst := Ne.symm heq
    obtain ⟨r, w', hrun, hstored⟩ := shutilMove_stored_of_ne resolve hne hsrc hfuel
    exact ⟨r, w', hrun, iff_of_true hstored (Or.inl hne)⟩

/-- A file system in which `0` names a file of one byte. -/
def oneFile : Libc Nat where
  disk := ⟨fun k => if k = 0 then some [7] else none, fun _ => none, 5⟩
  answers := ⟨[], [], [], [], []⟩
  gap := fun _ => 0

theorem shutilMove_stored_iff_oneFile :
    ∃ r w', shutilMove id 2 0 1 oneFile = some (r, w') ∧
      (Stored id 0 1 [7] w' ↔ MoveKeeps id 0 1 [7] oneFile.answers) :=
  shutilMove_stored_iff id (by rfl) (by decide)

/-- Moving a file onto itself removes it, and reports success. -/
theorem shutilMove_onto_itself :
    ∃ w', shutilMove id 2 0 0 oneFile = some (.ok (), w') ∧ ¬Stored id 0 0 [7] w' := by
  refine ⟨_, rfl, ?_⟩
  simp [Stored, oneFile]

end FreedosMicroPython.Shutil
