import FreedosMicroPython.Dos.Stream
/-!
# Seeking

Positions go up to `2 ^ 32 - 1` in DOS and up to `2 ^ 31 - 1` in a `long`, whose sign
the port takes for an error. What `dos_int21_lseek`, `dos_int21_fsize` and the seek
request of a file object do at any position and under any outcome of their calls.
-/

namespace FreedosMicroPython.Dos.Seek

open FreedosMicroPython.Lib.Files FreedosMicroPython.Host FreedosMicroPython.Runtime
open FreedosMicroPython.Dos.Int21 FreedosMicroPython.Dos.Disk FreedosMicroPython.Dos.Syscall
open FreedosMicroPython.Dos.File FreedosMicroPython.Dos.Stream

variable {κ : Type} [DecidableEq κ] (gap : Nat → UInt8) (resolve : List UInt8 → κ)
variable {fd : Nat} {h : Handle κ} {m : Machine (DosState κ)}

/-! ## The registers of a seek -/

def lseekRegs (fd offset : Int) (whence : Nat) : Rmcs where
  eax := 0x4200 ||| (whence &&& 0xFF)
  ebx := toU32 fd
  ecx := (toU32 offset >>> 16) &&& 0xFFFF
  edx := toU32 offset &&& 0xFFFF

theorem dosInt21Lseek_eq {σ : Type} (d : World σ) (irqs : CallIrqs) (fd offset : Int)
    (whence : Nat) (m : Machine σ) :
    dosInt21Lseek d irqs fd offset whence m =
      ((result (dosInt21Call d irqs (lseekRegs fd offset whence) m).1).map fun rm =>
        toLong (((rm.edx &&& 0xFFFF) <<< 16) ||| (rm.eax &&& 0xFFFF)),
        (dosInt21Call d irqs (lseekRegs fd offset whence) m).2) := rfl

theorem displacement_lseekRegs (fd : Int) {offset : Int} (hlow : -0x80000000 ≤ offset)
    (hhigh : offset < 0x80000000) (whence : Nat) :
    displacement (lseekRegs fd offset whence) = offset := by
  rw [displacement_eq offset (lseekRegs fd offset whence) rfl rfl]
  unfold toLong toU32
  split <;> omega

theorem dosInt21Lseek_mod {σ : Type} (d : World σ) (irqs : CallIrqs) (fd offset : Int)
    (whence : Nat) (m : Machine σ) :
    dosInt21Lseek d irqs fd offset (whence % 256) m = dosInt21Lseek d irqs fd offset whence m := by
  have hbyte : (whence % 256) &&& 0xFF = whence &&& 0xFF := by
    rw [Nat.and_two_pow_sub_one_eq_mod (whence % 256) 8, Nat.and_two_pow_sub_one_eq_mod whence 8]
    omega
  simp only [dosInt21Lseek_eq, lseekRegs, hbyte]

/-! ## A seek -/

/-- DOS performs the seek: it does not fail and knows the origin. -/
def Performed (w : DosState κ) (whence : Nat) : Prop :=
  w.grants 0 = true ∧ whence % 256 ≤ 2

def target (d : Lib.Files.Disk κ UInt8) (h : Handle κ) (offset : Int) (whence : Nat) : Nat :=
  toU32 (seekBase d h (whence % 256) + offset)

theorem lseek_unknown (hm : Open fd h m) (hgrants : m.world.grants 0 = true) (offset : Int)
    {whence : Nat} (hwhence : 2 < whence) (hbyte : whence < 256) :
    ∃ e m', dosInt21Lseek (dosWorld gap resolve) quietCall fd offset whence m = (.error e, m') ∧
      m'.world.disk = m.world.disk := by
  obtain ⟨hresult, hworld, -⟩ :=
    dosInt21Lseek_performs gap resolve hm.canCall hm.fd_lt offset whence hbyte
  obtain ⟨a, hout, ha⟩ := granted_zero_of_grants hgrants
  rw [syscall_of_served hout] at hresult hworld
  simp only [seekLong, seekFile, hm.handle, ha, hwhence, if_true] at hresult hworld
  exact ⟨_, _, Prod.ext hresult rfl, by rw [hworld]⟩

/-- A seek that DOS performs ends where it should and reports that as a `long`; any
other one reports an error and moves nothing. -/
theorem lseek_spec (hm : Open fd h m) (offset : Int) (whence : Nat) :
    (Performed m.world whence ∧ ∃ m',
        dosInt21Lseek (dosWorld gap resolve) quietCall fd offset whence m =
          (.ok (toLong (target m.world.disk h offset whence)), m') ∧
        m'.world.disk = m.world.disk.setPos fd h (target m.world.disk h offset whence)) ∨
      (¬Performed m.world whence ∧ ∃ e m',
        dosInt21Lseek (dosWorld gap resolve) quietCall fd offset whence m = (.error e, m') ∧
        m'.world.disk = m.world.disk) := by
  rw [← dosInt21Lseek_mod]
  unfold Performed
  cases hgrants : m.world.grants 0 with
  | false =>
      obtain ⟨e, m', hcall, hworld, -⟩ := lseek_of_not gap resolve hm hgrants offset (whence % 256)
        (Nat.mod_lt _ (by decide))
      exact .inr ⟨by simp, e, m', hcall, by rw [hworld]⟩
  | true =>
      by_cases hwhence : whence % 256 ≤ 2
      · obtain ⟨m', hcall, hworld, -⟩ :=
          lseek_of_grants gap resolve hm hgrants offset (whence % 256) hwhence rfl
        exact .inl ⟨⟨rfl, hwhence⟩, m', hcall, by rw [hworld]; rfl⟩
      · obtain ⟨e, m', hcall, hdisk⟩ := lseek_unknown gap resolve hm hgrants offset
          (Nat.lt_of_not_le hwhence) (Nat.mod_lt _ (by decide))
        exact .inr ⟨by simp [hwhence], e, m', hcall, hdisk⟩

theorem toLong_of_lt {x : Nat} (h : x < 0x80000000) : toLong x = x := if_pos h

theorem toLong_neg {x : Nat} (h : 0x80000000 ≤ x) (hlt : x < 0x100000000) : toLong x < 0 := by
  rw [toLong, if_neg (Nat.not_lt.mpr h)]
  omega

omit [DecidableEq κ] in
theorem target_lt (d : Lib.Files.Disk κ UInt8) (h : Handle κ) (offset : Int) (whence : Nat) :
    target d h offset whence < 0x100000000 := by
  rw [target, toU32]
  omega

/-- The seek request of a file object hands on what `dos_int21_lseek` reports, if its
sign is right. -/
theorem ioctl_seek_spec (hm : Open fd h m) (type : FileType) (offset : Int) (whence : Nat) :
    ∃ r m', uc386dosFileIoctl (dosWorld gap resolve) ⟨type, fd⟩ (.seek offset whence) m =
        (r, ⟨type, fd⟩, m') ∧
      (Performed m.world whence →
        m'.world.disk = m.world.disk.setPos fd h (target m.world.disk h offset whence) ∧
        r = if target m.world.disk h offset whence < 0x80000000
          then .ok (target m.world.disk h offset whence : Int) else .error .eio) ∧
      (¬Performed m.world whence → m'.world.disk = m.world.disk ∧ r = .error .eio) := by
  rw [uc386dosFileIoctl, if_neg (by simp)]
  rcases lseek_spec gap resolve hm offset whence with ⟨hperf, m', hcall, hdisk⟩ |
    ⟨hnot, e, m', hcall, hdisk⟩
  · rw [hcall]
    by_cases hlong : target m.world.disk h offset whence < 0x80000000
    · refine ⟨.ok (target m.world.disk h offset whence : Int), m', ?_, fun _ => ⟨hdisk, ?_⟩,
        fun hnot => absurd hperf hnot⟩
      · simp only [toLong_of_lt hlong]
        rw [if_neg (by omega)]
      · rw [if_pos hlong]
    · have hneg := toLong_neg (Nat.le_of_not_lt hlong) (target_lt _ _ _ _)
      exact ⟨.error .eio, m', by simp only [if_pos hneg], fun _ => ⟨hdisk, by rw [if_neg hlong]⟩,
        fun hnot => absurd hperf hnot⟩
  · rw [hcall]
    exact ⟨.error .eio, m', rfl, fun hperf => absurd hperf hnot, fun _ => ⟨hdisk, rfl⟩⟩

/-! ## The size of a file -/

theorem tail_tail_tail {α : Type} (l : List α) : l.tail.tail.tail = l.drop 3 := by
  simp [← List.drop_one]

/-- The first seek of `dos_int21_fsize`; a position from `2 ^ 31` on comes back negative. -/
theorem seekCur_spec (hm : Open fd h m) (hpos : h.pos < 0x100000000)
    (hcur : m.world.grants 0 = true) :
    ∃ m', dosInt21Lseek (dosWorld gap resolve) quietCall fd 0 1 m = (.ok (toLong h.pos), m') ∧
      m'.world = ⟨m.world.disk, m.world.script.tail⟩ ∧ Open fd h m' := by
  have hstay : toU32 (seekBase m.world.disk h 1 + 0) = h.pos := by
    change toU32 (h.pos + 0) = h.pos
    rw [Int.add_zero, toU32_natCast hpos]
  obtain ⟨m', hcall, hworld, hm'⟩ := lseek_of_grants gap resolve hm hcur 0 1 (by decide) hstay
  rw [Disk.setPos_self _ hm.handle] at hworld
  exact ⟨m', hcall, hworld, hm'⟩

theorem seekEof_spec (hm : Open fd h m) {size : Nat}
    (hsize : (m.world.disk.contents h.file).length = size) (hfits : size < 0x100000000)
    (heof : m.world.grants 0 = true) :
    ∃ m', dosInt21Lseek (dosWorld gap resolve) quietCall fd 0 2 m = (.ok (toLong size), m') ∧
      m'.world = ⟨m.world.disk.setPos fd h size, m.world.script.tail⟩ ∧
      Open fd { h with pos := size } m' := by
  have hend : toU32 (seekBase m.world.disk h 2 + 0) = size := by
    change toU32 ((m.world.disk.contents h.file).length + 0) = size
    rw [hsize, Int.add_zero, toU32_natCast hfits]
  exact lseek_of_grants gap resolve hm heof 0 2 (by decide) hend

section
variable {size : Nat} (hm : Open fd h m) (hpos : h.pos < 0x100000000)
  (hsize : (m.world.disk.contents h.file).length = size) (hfits : size < 0x100000000)
include hm hpos

/-- An error of one of the first two seeks, or a position from `2 ^ 31` on, ends
`dos_int21_fsize` where it began. -/
theorem fsize_of_stopped (hstop : m.world.grants 0 = false ∨ 0x80000000 ≤ h.pos ∨
    m.world.grants 1 = false) :
    ∃ m', dosInt21Fsize (dosWorld gap resolve) quietCall fd m = (none, m') ∧
      m'.world.disk = m.world.disk := by
  cases hcur : m.world.grants 0 with
  | false =>
      obtain ⟨e, m₁, hcall, hworld, -⟩ := lseek_of_not gap resolve hm hcur 0 1 (by decide)
      exact ⟨m₁, by rw [dosInt21Fsize, hcall], by rw [hworld]⟩
  | true =>
      obtain ⟨m₁, hcall₁, hworld₁, hm₁⟩ := seekCur_spec gap resolve hm hpos hcur
      by_cases hlong : h.pos < 0x80000000
      · have heof : m₁.world.grants 0 = false := by
          rw [hworld₁, grants_of_tail]
          simpa [hcur, Nat.not_le.mpr hlong] using hstop
        obtain ⟨e, m₂, hcall₂, hworld₂, -⟩ := lseek_of_not gap resolve hm₁ heof 0 2 (by decide)
        have hsign : ¬(h.pos : Int) < 0 := by omega
        exact ⟨m₂, by simp [dosInt21Fsize, hcall₁, toLong_of_lt hlong, hsign, hcall₂],
          by rw [hworld₂, hworld₁]⟩
      · have hneg := toLong_neg (Nat.le_of_not_lt hlong) hpos
        exact ⟨m₁, by simp [dosInt21Fsize, hcall₁, hneg], by rw [hworld₁]⟩

include hsize hfits

theorem fsize_seeks (hlong : h.pos < 0x80000000) (hcur : m.world.grants 0 = true)
    (heof : m.world.grants 1 = true) :
    ∃ m₁ m₂, dosInt21Lseek (dosWorld gap resolve) quietCall fd 0 1 m = (.ok (h.pos : Int), m₁) ∧
      dosInt21Lseek (dosWorld gap resolve) quietCall fd 0 2 m₁ = (.ok (toLong size), m₂) ∧
      m₂.world = ⟨m.world.disk.setPos fd h size, m.world.script.tail.tail⟩ ∧
      Open fd { h with pos := size } m₂ := by
  obtain ⟨m₁, hcall₁, hworld₁, hm₁⟩ := seekCur_spec gap resolve hm hpos hcur
  rw [toLong_of_lt hlong] at hcall₁
  have heof₁ : m₁.world.grants 0 = true := by
    rw [hworld₁, grants_of_tail]
    exact heof
  have hsize₁ : (m₁.world.disk.contents h.file).length = size := by
    rw [hworld₁]
    exact hsize
  obtain ⟨m₂, hcall₂, hworld₂, hm₂⟩ := seekEof_spec gap resolve hm₁ hsize₁ hfits heof₁
  exact ⟨m₁, m₂, hcall₁, hcall₂, by rw [hworld₂, hworld₁], hm₂⟩

theorem fsize_of_large (hlong : h.pos < 0x80000000) (hcur : m.world.grants 0 = true)
    (heof : m.world.grants 1 = true) (hlarge : 0x80000000 ≤ size) :
    ∃ m', dosInt21Fsize (dosWorld gap resolve) quietCall fd m = (none, m') ∧
      m'.world.disk = m.world.disk.setPos fd h size := by
  obtain ⟨m₁, m₂, hcall₁, hcall₂, hworld₂, -⟩ :=
    fsize_seeks gap resolve hm hpos hsize hfits hlong hcur heof
  have hsign : ¬(h.pos : Int) < 0 := by omega
  exact ⟨m₂, by simp [dosInt21Fsize, hcall₁, hsign, hcall₂, toLong_neg hlarge hfits],
    by rw [hworld₂]⟩

/-- A size below `2 ^ 31` is reported, and the last seek, whose result is ignored, restores
the position if it is granted. -/
theorem fsize_of_sized (hlong : h.pos < 0x80000000) (hcur : m.world.grants 0 = true)
    (heof : m.world.grants 1 = true) (hsmall : size < 0x80000000) :
    ∃ m', dosInt21Fsize (dosWorld gap resolve) quietCall fd m = (some (size : Int), m') ∧
      m'.world = ⟨m.world.disk.setPos fd h (if m.world.grants 2 then h.pos else size),
        m.world.script.drop 3⟩ ∧
      Open fd { h with pos := if m.world.grants 2 then h.pos else size } m' := by
  obtain ⟨m₁, m₂, hcall₁, hcall₂, hworld₂, hm₂⟩ :=
    fsize_seeks gap resolve hm hpos hsize hfits hlong hcur heof
  have hback : toU32 (seekBase m₂.world.disk { h with pos := size } 0 + (h.pos : Int)) = h.pos := by
    simp only [seekBase, if_true]
    rw [← Int.natCast_add, Nat.zero_add, toU32_natCast hpos]
  obtain ⟨r, m₃, hcall₃, hworld₃, hm₃⟩ := lseek_either gap resolve hm₂ h.pos 0 (by decide) hback
  have hgrants₂ : m₂.world.grants 0 = m.world.grants 2 := by
    rw [hworld₂, grants_of_tail (w := ⟨m.world.disk, m.world.script.tail⟩), grants_of_tail]
  have hsign : ¬(h.pos : Int) < 0 := by omega
  have hsign' : ¬(size : Int) < 0 := by omega
  refine ⟨m₃, ?_, ?_, ?_⟩
  · simp [dosInt21Fsize, hcall₁, hsign, hcall₂, toLong_of_lt hsmall, hsign', hcall₃]
  · rw [hworld₃, hgrants₂, hworld₂]
    simp [tail_tail_tail]
  · rw [hgrants₂] at hm₃
    exact hm₃

end

/-! ## Exactness -/

/-- `dos_int21_fsize` leaves everything in place, and what it reports is the size. -/
def SizeKept (k : κ) (d d' : Lib.Files.Disk κ UInt8) (r : Option Int) : Prop :=
  d' = d ∧ ∀ size, r = some size → size = (d.contents k).length

/-- If the first two seeks of `dos_int21_fsize` are granted and the position is a `long`,
the size is one as well, and the last seek is granted or has nothing to restore. -/
def Sizeable (w : DosState κ) (h : Handle κ) : Prop :=
  w.grants 0 = true → h.pos < 0x80000000 → w.grants 1 = true →
    (w.disk.contents h.file).length < 0x80000000 ∧
      (w.grants 2 = true ∨ h.pos = (w.disk.contents h.file).length)

omit [DecidableEq κ] in
theorem setPos_eq_iff {d : Lib.Files.Disk κ UInt8} (hfd : d.handles fd = some h) (pos : Nat) :
    d.setPos fd h pos = d ↔ pos = h.pos := by
  constructor
  · intro heq
    have hhandle := congrArg (fun d => d.handles fd) heq
    simp only [Disk.handles_setPos, Function.update_self, hfd, Option.some.injEq] at hhandle
    rw [← hhandle]
  · rintro rfl
    exact Disk.setPos_self d hfd

theorem fsize_kept_iff (hm : Open fd h m) (hpos : h.pos < 0x100000000)
    (hfits : (m.world.disk.contents h.file).length < 0x100000000) :
    ∃ r m', dosInt21Fsize (dosWorld gap resolve) quietCall fd m = (r, m') ∧
      (SizeKept h.file m.world.disk m'.world.disk r ↔ Sizeable m.world h) := by
  unfold SizeKept Sizeable
  by_cases hstop : m.world.grants 0 = false ∨ 0x80000000 ≤ h.pos ∨ m.world.grants 1 = false
  · obtain ⟨m', hcall, hdisk⟩ := fsize_of_stopped gap resolve hm hpos hstop
    refine ⟨none, m', hcall, iff_of_true ⟨hdisk, by simp⟩ fun hcur hlong heof => ?_⟩
    simp only [hcur, heof, Nat.not_le.mpr hlong, Bool.true_eq_false, or_self] at hstop
  · simp only [not_or, Bool.not_eq_false, Nat.not_le] at hstop
    obtain ⟨hcur, hlong, heof⟩ := hstop
    simp only [hcur, hlong, heof, forall_const]
    by_cases hlarge : 0x80000000 ≤ (m.world.disk.contents h.file).length
    · obtain ⟨m', hcall, hdisk⟩ :=
        fsize_of_large gap resolve hm hpos rfl hfits hlong hcur heof hlarge
      refine ⟨none, m', hcall, iff_of_false ?_ (by omega)⟩
      rw [hdisk, setPos_eq_iff hm.handle]
      omega
    · obtain ⟨m', hcall, hworld, -⟩ := fsize_of_sized gap resolve hm hpos rfl hfits hlong hcur heof
        (Nat.lt_of_not_le hlarge)
      refine ⟨_, m', hcall, ?_⟩
      rw [hworld, setPos_eq_iff hm.handle]
      simp only [Nat.lt_of_not_le hlarge, true_and]
      cases m.world.grants 2 <;> simp [eq_comm]

/-- A seek passes its offset to DOS as it is. A seek that DOS performs is reported exactly
when it ends below `2 ^ 31`, and `dos_int21_fsize` is exact, or an error that changes
nothing, exactly when the size is below and what has to be restored can be. -/
theorem seek_exact_iff (hm : Open fd h m) (hpos : h.pos < 0x100000000)
    (hfits : (m.world.disk.contents h.file).length < 0x100000000) :
    (∀ offset : Int, -0x80000000 ≤ offset → offset < 0x80000000 → ∀ whence,
        displacement (lseekRegs fd offset whence) = offset) ∧
      (∀ type offset whence, ∃ r m',
        uc386dosFileIoctl (dosWorld gap resolve) ⟨type, fd⟩ (.seek offset whence) m =
          (r, ⟨type, fd⟩, m') ∧
        ((Performed m.world whence →
            m'.world.disk = m.world.disk.setPos fd h (target m.world.disk h offset whence) ∧
            r = .ok (target m.world.disk h offset whence : Int)) ↔
          (Performed m.world whence → target m.world.disk h offset whence < 0x80000000))) ∧
      ∃ r m', dosInt21Fsize (dosWorld gap resolve) quietCall fd m = (r, m') ∧
        (SizeKept h.file m.world.disk m'.world.disk r ↔ Sizeable m.world h) := by
  refine ⟨fun offset hlow hhigh whence => displacement_lseekRegs fd hlow hhigh whence,
    fun type offset whence => ?_, fsize_kept_iff gap resolve hm hpos hfits⟩
  obtain ⟨r, m', hcall, hperf, -⟩ := ioctl_seek_spec gap resolve hm type offset whence
  refine ⟨r, m', hcall, forall_congr' fun hp => ?_⟩
  obtain ⟨hdisk, hr⟩ := hperf hp
  by_cases hlong : target m.world.disk h offset whence < 0x80000000
  · rw [if_pos hlong] at hr
    exact iff_of_true ⟨hdisk, hr⟩ hlong
  · rw [if_neg hlong] at hr
    exact iff_of_false (by simp [hr]) hlong

theorem seek_exact_iff_fresh :
    (∀ offset : Int, -0x80000000 ≤ offset → offset < 0x80000000 → ∀ whence,
        displacement (lseekRegs (5 : Nat) offset whence) = offset) ∧
      (∀ type offset whence, ∃ r m',
        uc386dosFileIoctl (dosWorld (fun _ => 0) fun _ => ()) ⟨type, (5 : Nat)⟩
            (.seek offset whence) (booted ⟨freshDisk, []⟩) = (r, ⟨type, (5 : Nat)⟩, m') ∧
        ((Performed (⟨freshDisk, []⟩ : DosState Unit) whence →
            m'.world.disk = freshDisk.setPos 5 ⟨(), 0, 2⟩
              (target freshDisk ⟨(), 0, 2⟩ offset whence) ∧
            r = .ok (target freshDisk ⟨(), 0, 2⟩ offset whence : Int)) ↔
          (Performed (⟨freshDisk, []⟩ : DosState Unit) whence →
            target freshDisk ⟨(), 0, 2⟩ offset whence < 0x80000000))) ∧
      ∃ r m', dosInt21Fsize (dosWorld (fun _ => 0) fun _ => ()) quietCall (5 : Nat)
          (booted ⟨freshDisk, []⟩) = (r, m') ∧
        (SizeKept () freshDisk m'.world.disk r ↔
          Sizeable (⟨freshDisk, []⟩ : DosState Unit) ⟨(), 0, 2⟩) :=
  seek_exact_iff (fun _ => 0) (fun _ => ()) serving_freshDisk.opened (by decide) (by decide)

/-- An empty file whose handle 5 stands one byte before position `2 ^ 31`. -/
def farDisk : Lib.Files.Disk Unit UInt8 := freshDisk.setPos 5 ⟨(), 0, 2⟩ 0x7FFFFFFF

/-- DOS moves on to position `2 ^ 31`, and the seek is reported as an error. -/
theorem ioctl_seek_hides_position :
    ¬∀ r m', uc386dosFileIoctl (dosWorld (fun _ => 0) fun _ => ()) ⟨.fileio, (5 : Nat)⟩
        (.seek 1 1) (booted ⟨farDisk, []⟩) = (r, ⟨.fileio, (5 : Nat)⟩, m') →
      Performed (⟨farDisk, []⟩ : DosState Unit) 1 → r = .ok 0x80000000 := by
  have hm : Open 5 ⟨(), 0x7FFFFFFF, 2⟩ (booted ⟨farDisk, []⟩) :=
    ⟨⟨.inl rfl, rfl⟩, by decide, rfl⟩
  have hperf : Performed (⟨farDisk, []⟩ : DosState Unit) 1 := ⟨rfl, by decide⟩
  obtain ⟨r, m', hcall, hr, -⟩ :=
    ioctl_seek_spec (fun _ => 0) (fun _ => ()) hm .fileio 1 1
  intro hclaim
  have herror := (hr hperf).2
  rw [hclaim r m' hcall hperf] at herror
  revert herror
  decide

end FreedosMicroPython.Dos.Seek
