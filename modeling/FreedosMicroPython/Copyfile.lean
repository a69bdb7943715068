import FreedosMicroPython.Shutil
/-!
# What `copyfile` leaves behind

`shutil_copyfile` copies exactly and keeps its source. It closes the descriptors it
has opened on each of its own paths, but an error inside `copy_stream` leaves past
them.
-/

namespace FreedosMicroPython.Copyfile

open FreedosMicroPython.Lib.Files FreedosMicroPython.Runtime FreedosMicroPython.Shutil

variable {κ : Type}

/-- Every descriptor opened between the two states is closed in the second. -/
def AllClosed (w w' : Libc κ) : Prop :=
  ∀ fd, w.disk.next ≤ fd → fd < w'.disk.next → w'.disk.handles fd = none

/-- A copy that has left nothing behind but the destination, whole if it returned. -/
structure Exact (src dst : κ) (w w' : Libc κ) (r : Except MpErrno Unit) : Prop where
  copied : r = .ok () → w'.disk.files dst = w.disk.files src
  kept : w'.disk.files src = w.disk.files src
  closed : AllClosed w w'

/-- One of the files does not open, or no read fails after that, and no write fails or
stores nothing. -/
def Undisturbed (src : κ) (w : Libc κ) : Prop :=
  w.disk.files src = none ∨ w.answers.opens.head?.getD true = false ∨
    w.answers.opens.tail.head?.getD true = false ∨
    streamCopied (w.disk.contents src).length w.answers.reads w.answers.writes = true

theorem exact_of_disk {src dst : κ} {w w' : Libc κ} (hdisk : w'.disk = w.disk) (e : MpErrno) :
    Exact src dst w w' (.error e) where
  copied := by simp
  kept := by rw [hdisk]
  closed := by
    intro fd hle hlt
    rw [hdisk] at hlt
    omega

theorem exact_of_refused {k k' : κ} {w w' : Libc κ}
    (hdisk : w'.disk = (w.disk.openHandle k 0).2.close w.disk.next) (e : MpErrno) :
    Exact k k' w w' (.error e) where
  copied := by simp
  kept := by rw [hdisk]; rfl
  closed := by
    intro fd hle hlt
    have hnext : fd < w.disk.next + 1 := by
      rw [hdisk] at hlt
      exact hlt
    obtain rfl : fd = w.disk.next := by omega
    rw [hdisk]
    exact Function.update_self ..

theorem exact_of_copied {k k' : κ} {orig : List UInt8} {w w₁ : Libc κ}
    (hsrc : w.disk.files k = some orig) (hkeep : w₁.disk.files k = some orig)
    (hcopied : w₁.disk.files k' = some orig) (hnext : w₁.disk.next = w.disk.next + 2) :
    Exact k k' w ((w₁.close w.disk.next).close (w.disk.next + 1)) (.ok ()) where
  copied := fun _ => hcopied.trans hsrc.symm
  kept := hkeep.trans hsrc.symm
  closed := by
    intro fd hle hlt
    have hlt' : fd < w.disk.next + 2 := by
      rw [← hnext]
      exact hlt
    rcases (show fd = w.disk.next ∨ fd = w.disk.next + 1 by omega) with rfl | rfl <;>
      simp [Libc.close, Disk.close]

variable [DecidableEq κ] {Path : Type} (resolve : Path → κ)

theorem shutilCopyfile_missing {src dst : Path} (fuel : Nat) {w : Libc κ}
    (hsrc : w.disk.files (resolve src) = none) :
    shutilCopyfile resolve fuel src dst w = some (.error .enoent, w.popOpen) := by
  have hopen : w.open_ (resolve src) 0 = (none, w.popOpen) := by
    have hgranted : Libc.granted (resolve src) 0 w.disk = none := by simp [Libc.granted, hsrc]
    unfold Libc.open_
    split
    · rw [hgranted]
    · rfl
  rw [shutilCopyfile, hopen]

/-- Between two different files, an existing source or none, `copyfile` ends, and it is
exact unless the copy itself is disturbed. -/
theorem shutilCopyfile_exact_iff {src dst : Path} {fuel : Nat} {w : Libc κ}
    (hne : resolve src ≠ resolve dst) (hfuel : (w.disk.contents (resolve src)).length < fuel) :
    ∃ r w', shutilCopyfile resolve fuel src dst w = some (r, w') ∧
      (Exact (resolve src) (resolve dst) w w' r ↔ Undisturbed (resolve src) w) := by
  unfold Undisturbed
  have hsame : w.popOpen.disk = w.disk := rfl
  cases hsrc : w.disk.files (resolve src) with
  | none =>
      exact ⟨_, _, shutilCopyfile_missing resolve fuel hsrc,
        iff_of_true (exact_of_disk hsame _) (.inl rfl)⟩
  | some orig =>
      rw [Disk.contents_of_files _ hsrc] at hfuel ⊢
      obtain ⟨hopen, hrun⟩ | ⟨-, htrunc, w', hrun, hdisk, -⟩ |
          ⟨hopen, htrunc, w₂, hdisk, hans, hrun⟩ := shutilCopyfile_cases resolve src dst fuel hsrc
      · exact ⟨_, _, hrun, iff_of_true (exact_of_disk hsame _) (.inr (.inl hopen))⟩
      · exact ⟨_, _, hrun, iff_of_true (exact_of_refused hdisk _) (.inr (.inr (.inl htrunc)))⟩
      · obtain ⟨r, w', hcopy, hkeep, hcopied, hnext, hheld, hiff⟩ :=
          copyStream_spec (Nat.ne_of_lt (Nat.lt_succ_self _)) hne (Copying.start hne hsrc hdisk)
            (show orig.length - 0 < fuel by omega)
        have hnext' : w'.disk.next = w.disk.next + 2 := by
          rw [hnext, hdisk]
          rfl
        rw [Nat.sub_zero, hans] at hiff
        replace hiff : r = .ok () ↔
          streamCopied orig.length w.answers.reads w.answers.writes = true := hiff
        rw [hrun, hcopy]
        simp only [hopen, htrunc, ← hiff]
        cases r with
        | error e =>
            -- the error skips both calls of `close`
            refine ⟨.error e, w', rfl, iff_of_false ?_ (by simp)⟩
            intro hexact
            exact hheld (hexact.closed _ (Nat.le_refl _) (by omega))
        | ok u =>
            exact ⟨.ok (), _, rfl,
              iff_of_true (exact_of_copied hsrc hkeep (hcopied rfl) hnext') (by simp)⟩

theorem shutilCopyfile_exact_iff_oneFile :
    ∃ r w', shutilCopyfile id 2 0 1 oneFile = some (r, w') ∧
      (Exact 0 1 oneFile w' r ↔ Undisturbed 0 oneFile) :=
  shutilCopyfile_exact_iff id (by decide) (by decide)

/-- The first read of the source fails. -/
def unreadable : Libc Nat := { oneFile with answers := { oneFile.answers with reads := [.fail 5] } }

/-- Both descriptors stay open. -/
theorem shutilCopyfile_leaks :
    ¬∀ r w', shutilCopyfile id 2 0 1 unreadable = some (r, w') → Exact 0 1 unreadable w' r := by
  intro hclaim
  have hexact := hclaim _ _ rfl
  have hclosed := hexact.closed 5 (by decide) (by decide)
  exact absurd hclosed (by decide)

end FreedosMicroPython.Copyfile
