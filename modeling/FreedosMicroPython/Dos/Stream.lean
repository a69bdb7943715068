import Mathlib.Algebra.GroupWithZero.Nat
import FreedosMicroPython.Dos.Syscall
import FreedosMicroPython.Dos.File
/-!
# File objects over a DOS that serves every call

The 1 KB window of `dos_int21_read` and `dos_int21_write` is not to be seen from
outside: a read or a write of a file object is one transfer of any size.
-/

namespace FreedosMicroPython.Dos.Stream

open FreedosMicroPython.Lib.Files FreedosMicroPython.Lib.Splice
open FreedosMicroPython.Host FreedosMicroPython.Runtime
open FreedosMicroPython.Dos.Int21 FreedosMicroPython.Dos.Disk FreedosMicroPython.Dos.Syscall
open FreedosMicroPython.Dos.File

variable {κ : Type} [DecidableEq κ] (gap : Nat → UInt8) (resolve : List UInt8 → κ)

/-- Handle `fd` is open as `h`, on the disk `d`, and DOS serves every call in full. -/
structure Serving (fd : Nat) (h : Handle κ) (d : Lib.Files.Disk κ UInt8)
    (m : Machine (DosState κ)) : Prop where
  opened : Open fd h m
  world : m.world = ⟨d, []⟩

variable {fd : Nat} {h : Handle κ} {d : Lib.Files.Disk κ UInt8}
  {m : Machine (DosState κ)}

omit [DecidableEq κ] in
theorem Serving.handle (hm : Serving fd h d m) : d.handles fd = some h := by
  simpa [hm.world] using hm.opened.handle

/-! ## One call -/

theorem read_serving (hm : Serving fd h d m) (hacc : h.access ≠ 1) {count : Nat}
    (hcount : count ≠ 0) :
    ∃ m', dosInt21Read (dosWorld gap resolve) quietCall fd count m =
        (.ok (d.readHandle fd h (min count DOS_BOUNCE_DATA_MAX)).1, m') ∧
      Serving fd
        { h with pos := h.pos + (d.readHandle fd h (min count DOS_BOUNCE_DATA_MAX)).1.length }
        (d.readHandle fd h (min count DOS_BOUNCE_DATA_MAX)).2 m' := by
  have hfull : (m.world.outcome 0).count
      (min (min count DOS_BOUNCE_DATA_MAX) (m.world.disk.remaining h).length) =
      some (min (min count DOS_BOUNCE_DATA_MAX) (m.world.disk.remaining h).length) := by
    rw [hm.world]
    rfl
  obtain ⟨m', hcall, hworld, hm'⟩ := read_of_some gap resolve hm.opened hacc
    hcount hfull
  rw [Disk.readHandle_min, hm.world] at hcall hworld hm'
  exact ⟨m', hcall, hm', hworld⟩

theorem write_serving (hm : Serving fd h d m) (hacc : h.access ≠ 0) {buf : List UInt8}
    (hbuf : buf ≠ []) :
    ∃ m', dosInt21Write (dosWorld gap resolve) quietCall fd buf m =
        (.ok (buf.take DOS_BOUNCE_DATA_MAX).length, m') ∧
      Serving fd { h with pos := h.pos + (buf.take DOS_BOUNCE_DATA_MAX).length }
        (d.storeHandle gap fd h (buf.take DOS_BOUNCE_DATA_MAX)) m' := by
  have hne : buf.take DOS_BOUNCE_DATA_MAX ≠ [] := by
    simp [hbuf, DOS_BOUNCE_DATA_MAX]
  have hfull : (m.world.outcome 0).count (buf.take DOS_BOUNCE_DATA_MAX).length =
      some (buf.take DOS_BOUNCE_DATA_MAX).length := by
    rw [hm.world]
    rfl
  obtain ⟨m', hcall, hworld, hm'⟩ := write_of_some gap resolve hm.opened hacc
    hbuf hfull
  rw [List.take_length, hm.world] at hworld
  rw [List.take_length] at hm'
  exact ⟨m', hcall, hm', by rw [hworld, Disk.storeHandle_of_ne_nil d hne]; rfl⟩

/-! ## The loops -/

/-- The read loop makes up one read of what is still wanted. -/
theorem fileReadLoop_serving (hm : Serving fd h d m) (hacc : h.access ≠ 1) {size : Nat}
    (got : List UInt8) {n : Nat} (hn : size - got.length = n) :
    ∃ m', fileReadLoop (dosWorld gap resolve) fd size got m =
        (.ok (got ++ (d.readHandle fd h n).1), m') ∧
      Serving fd { h with pos := h.pos + (d.readHandle fd h n).1.length }
        (d.readHandle fd h n).2 m' := by
  induction n using Nat.strongRecOn generalizing got h d m with
  | _ n ih =>
      rw [fileReadLoop]
      by_cases hlt : got.length < size
      · obtain ⟨m₁, hcall, hm₁⟩ := read_serving gap resolve hm hacc
          (show n ≠ 0 by omega)
        rw [dif_pos hlt, hn, hcall]
        generalize hc : min n DOS_BOUNCE_DATA_MAX = c at hm₁
        have hpos : c ≠ 0 := by
          rw [← hc, DOS_BOUNCE_DATA_MAX]
          omega
        cases hbs : (d.readHandle fd h c).1 with
        | nil =>
            have hrem : d.remaining h = [] := by
              have hlen := d.length_readHandle fd h c
              rw [hbs, List.length_nil] at hlen
              exact List.length_eq_zero_iff.mp (by omega)
            simp only [Disk.readHandle_of_remaining_nil _ hrem, List.append_nil] at hm₁ ⊢
            exact ⟨m₁, rfl, hm₁⟩
        | cons b bs =>
            have hlen : (b :: bs).length = min c (d.remaining h).length := by
              rw [← hbs, Disk.length_readHandle]
            have hread : d.readHandle fd h (b :: bs).length = d.readHandle fd h c := by
              rw [hlen, Disk.readHandle_min]
            have hadd := d.readHandle_add fd h (b :: bs).length (n - (b :: bs).length)
            rw [Nat.add_sub_cancel' (by omega), hread, hbs] at hadd
            rw [hbs] at hm₁
            obtain ⟨m₂, hrest, hm₂⟩ := ih (n - (b :: bs).length)
              (by simp only [List.length_cons]; omega) hm₁ hacc
              (got ++ b :: bs) (by simp only [List.length_append]; omega)
            rw [hadd]
            refine ⟨m₂, ?_, ?_⟩
            · simpa only [List.append_assoc] using hrest
            · simpa only [List.length_append, Nat.add_assoc] using hm₂
      · obtain rfl : n = 0 := by omega
        rw [dif_neg hlt]
        refine ⟨m, by simp [Disk.readHandle], ?_⟩
        simpa [Disk.readHandle, Disk.setPos_self d hm.handle] using hm

/-- The write loop makes up one write of what is left. -/
theorem fileWriteLoop_serving (hm : Serving fd h d m) (hacc : h.access ≠ 0) {buf : List UInt8}
    {total : Nat} {rest : List UInt8} (hrest : buf.drop total = rest)
    (htotal : total ≤ buf.length) :
    ∃ m', fileWriteLoop (dosWorld gap resolve) fd buf total m = (.ok buf.length, m') ∧
      Serving fd { h with pos := h.pos + rest.length }
        (d.storeHandle gap fd h rest) m' := by
  induction hn : rest.length using Nat.strongRecOn generalizing total rest h d m with
  | _ n ih =>
      subst hn
      rw [fileWriteLoop]
      by_cases hlt : total < buf.length
      · have hne : rest ≠ [] := by
          rw [← hrest]
          simpa using hlt
        obtain ⟨m₁, hcall, hm₁⟩ := write_serving gap resolve hm hacc hne
        rw [dif_pos hlt, hrest, hcall]
        have hsplit : rest.take DOS_BOUNCE_DATA_MAX ++ rest.drop DOS_BOUNCE_DATA_MAX = rest :=
          List.take_append_drop _ _
        have hchunk : rest.take DOS_BOUNCE_DATA_MAX ≠ [] := by
          simp [hne, DOS_BOUNCE_DATA_MAX]
        generalize rest.take DOS_BOUNCE_DATA_MAX = chunk at hsplit hchunk hm₁ ⊢
        generalize rest.drop DOS_BOUNCE_DATA_MAX = tail at hsplit
        subst hsplit
        obtain ⟨k, hk⟩ : ∃ k, chunk.length = k + 1 :=
          Nat.exists_eq_add_one.mpr (List.length_pos_iff.mpr hchunk)
        have hlen : buf.length = total + (chunk ++ tail).length := by
          rw [← hrest, List.length_drop]
          omega
        have htail : buf.drop (total + (k + 1)) = tail := by
          rw [← List.drop_drop, hrest, ← hk, List.drop_left]
        rw [List.length_append] at hlen
        simp only [hk]
        obtain ⟨m₂, hcalls, hm₂⟩ := ih tail.length
          (by simp only [List.length_append]; omega) hm₁ hacc htail (by omega) rfl
        refine ⟨m₂, hcalls, ?_⟩
        rw [Disk.storeHandle_append] at hm₂
        simpa only [List.length_append, Nat.add_assoc] using hm₂
      · obtain rfl : rest = [] := by
          rw [← hrest]
          simpa using hlt
        rw [dif_neg hlt]
        exact ⟨m, by rw [show total = buf.length by omega], hm⟩

/-! ## Stream methods -/

theorem uc386dosFileRead_serving (hm : Serving fd h d m) (hacc : h.access ≠ 1) (type : FileType)
    (size : Nat) :
    ∃ m', uc386dosFileRead (dosWorld gap resolve) ⟨type, fd⟩ size m =
        (.ok (d.readHandle fd h size).1, m') ∧
      Serving fd { h with pos := h.pos + (d.readHandle fd h size).1.length }
        (d.readHandle fd h size).2 m' := by
  rw [uc386dosFileRead, if_neg (by simp)]
  exact fileReadLoop_serving gap resolve hm hacc [] (Nat.sub_zero size)

theorem uc386dosFileWrite_serving (hm : Serving fd h d m) (hacc : h.access ≠ 0)
    (type : FileType) (buf : List UInt8) :
    ∃ m', uc386dosFileWrite (dosWorld gap resolve) ⟨type, fd⟩ buf m = (.ok buf.length, m') ∧
      Serving fd { h with pos := h.pos + buf.length } (d.storeHandle gap fd h buf) m' := by
  rw [uc386dosFileWrite, if_neg (by simp)]
  exact fileWriteLoop_serving gap resolve hm hacc rfl (Nat.zero_le _)

theorem rewind_serving (hm : Serving fd h d m) (type : FileType) :
    ∃ m', uc386dosFileIoctl (dosWorld gap resolve) ⟨type, fd⟩ (.seek 0 0) m =
        (.ok 0, ⟨type, fd⟩, m') ∧
      Serving fd { h with pos := 0 } (d.setPos fd h 0) m' := by
  obtain ⟨m', hcall, hworld, hm'⟩ := lseek_of_grants gap resolve hm.opened
    (by rw [hm.world]; rfl) 0 0 (p := 0) (by decide) rfl
  rw [hm.world] at hworld
  refine ⟨m', ?_, hm', hworld⟩
  rw [uc386dosFileIoctl, if_neg (by simp), hcall]
  rfl

/-! ## Any number of reads and writes -/

section
variable {σ : Type} (w : World σ)

def writePieces (o : FileObj) : List (List UInt8) → Machine σ → Except MpErrno Unit × Machine σ
  | [], m => (.ok (), m)
  | buf :: bufs, m =>
      match uc386dosFileWrite w o buf m with
      | (.error e, m) => (.error e, m)
      | (.ok _, m) => writePieces o bufs m

def readPieces (o : FileObj) : List Nat → Machine σ → Except MpErrno (List UInt8) × Machine σ
  | [], m => (.ok [], m)
  | size :: sizes, m =>
      match uc386dosFileRead w o size m with
      | (.error e, m) => (.error e, m)
      | (.ok bs, m) =>
          let (rest, m) := readPieces o sizes m
          (rest.map (bs ++ ·), m)

def writeSeekRead (o : FileObj) (bufs : List (List UInt8)) (sizes : List Nat) (m : Machine σ) :
    Except MpErrno (List UInt8) :=
  match writePieces w o bufs m with
  | (.error e, _) => .error e
  | (.ok (), m) =>
      match uc386dosFileIoctl w o (.seek 0 0) m with
      | (.error e, _, _) => .error e
      | (.ok _, o, m) => (readPieces w o sizes m).1

end

theorem writePieces_serving (hm : Serving fd h d m) (hacc : h.access ≠ 0) (type : FileType)
    (bufs : List (List UInt8)) :
    ∃ m', writePieces (dosWorld gap resolve) ⟨type, fd⟩ bufs m = (.ok (), m') ∧
      Serving fd { h with pos := h.pos + bufs.flatten.length }
        (d.storeHandle gap fd h bufs.flatten) m' := by
  induction bufs generalizing h d m with
  | nil => exact ⟨m, rfl, hm⟩
  | cons buf bufs ih =>
      obtain ⟨m₁, hcall, hm₁⟩ := uc386dosFileWrite_serving gap resolve hm hacc
        type buf
      obtain ⟨m₂, hrest, hm₂⟩ := ih hm₁ hacc
      rw [Disk.storeHandle_append] at hm₂
      refine ⟨m₂, by rw [writePieces, hcall]; exact hrest, ?_⟩
      simpa only [List.flatten_cons, List.length_append, Nat.add_assoc] using hm₂

theorem readPieces_serving (hm : Serving fd h d m) (hacc : h.access ≠ 1) (type : FileType)
    (sizes : List Nat) :
    ∃ m', readPieces (dosWorld gap resolve) ⟨type, fd⟩ sizes m =
        (.ok (d.readHandle fd h sizes.sum).1, m') ∧
      Serving fd { h with pos := h.pos + (d.readHandle fd h sizes.sum).1.length }
        (d.readHandle fd h sizes.sum).2 m' := by
  induction sizes generalizing h d m with
  | nil =>
      refine ⟨m, by simp [readPieces, Disk.readHandle], ?_⟩
      simpa [Disk.readHandle, Disk.setPos_self d hm.handle] using hm
  | cons size sizes ih =>
      obtain ⟨m₁, hcall, hm₁⟩ := uc386dosFileRead_serving gap resolve hm hacc
        type size
      obtain ⟨m₂, hrest, hm₂⟩ := ih hm₁ hacc
      rw [List.sum_cons, Disk.readHandle_add]
      refine ⟨m₂, by rw [readPieces, hcall]; simp only [hrest]; rfl, ?_⟩
      simpa only [List.length_append, Nat.add_assoc] using hm₂

/-- A read returns the bytes from the position on, as many as asked for and there,
and moves the position behind them; a write replaces the bytes from the position
on, extending the file where needed, and returns the length of its buffer; what
was written to an empty file in any pieces is read back in any pieces. -/
theorem stream_transfers_exactly (hm : Serving fd h d m) (type : FileType) :
    (h.access ≠ 1 → ∀ size, ∃ m',
        uc386dosFileRead (dosWorld gap resolve) ⟨type, fd⟩ size m =
          (.ok (((d.contents h.file).drop h.pos).take size), m') ∧
        m'.world.disk = d.setPos fd h
          (h.pos + min size ((d.contents h.file).length - h.pos))) ∧
      (h.access ≠ 0 → ∀ buf, ∃ m',
        uc386dosFileWrite (dosWorld gap resolve) ⟨type, fd⟩ buf m = (.ok buf.length, m') ∧
        m'.world.disk = if buf = [] then d else
          (d.setFile h.file (some (overwrite gap (d.contents h.file) h.pos buf))).setPos fd h
            (h.pos + buf.length)) ∧
      (h.access = 2 → h.pos = 0 → d.contents h.file = [] → ∀ bufs sizes,
        bufs.flatten.length ≤ List.sum sizes →
        writeSeekRead (dosWorld gap resolve) ⟨type, fd⟩ bufs sizes m = .ok bufs.flatten) := by
  refine ⟨fun hacc size => ?_, fun hacc buf => ?_, fun hacc hpos hempty bufs sizes hsum => ?_⟩
  · obtain ⟨m', hcall, hm'⟩ := uc386dosFileRead_serving gap resolve hm hacc
      type size
    refine ⟨m', hcall, ?_⟩
    rw [hm'.world]
    simp [Disk.readHandle, Disk.remaining]
  · obtain ⟨m', hcall, hm'⟩ := uc386dosFileWrite_serving gap resolve hm hacc
      type buf
    refine ⟨m', hcall, ?_⟩
    rw [hm'.world]
    simp [Disk.storeHandle, Disk.writeHandle]
  · obtain ⟨m₁, hwrite, hm₁⟩ := writePieces_serving gap resolve hm
      (by omega) type bufs
    obtain ⟨m₂, hseek, hm₂⟩ := rewind_serving gap resolve hm₁ type
    obtain ⟨m₃, hread, -⟩ := readPieces_serving gap resolve hm₂
      (by simp only; omega) type sizes
    have hcontents := d.contents_storeHandle_of_empty hempty hpos gap fd bufs.flatten
    have hall : (((d.storeHandle gap fd h bufs.flatten).setPos fd
        { h with pos := h.pos + bufs.flatten.length } 0).readHandle fd { h with pos := 0 }
          sizes.sum).1 = bufs.flatten := by
      rw [Disk.readHandle, Disk.remaining_setPos, Disk.remaining, hcontents, List.drop_zero,
        List.take_of_length_le hsum]
    simp only [writeSeekRead, hwrite, hseek, hread, hall]

def freshDisk : Lib.Files.Disk Unit UInt8 where
  files _ := some []
  handles f := if f = 5 then some ⟨(), 0, 2⟩ else none
  next := 6

theorem serving_freshDisk :
    Serving 5 ⟨(), 0, 2⟩ freshDisk (booted ⟨freshDisk, []⟩) where
  opened := ⟨⟨.inl rfl, rfl⟩, by decide, rfl⟩
  world := rfl

theorem stream_transfers_exactly_fresh :
    (∃ m', uc386dosFileRead (dosWorld (fun _ => 0) fun _ => ()) ⟨.fileio, 5⟩ 4
        (booted ⟨freshDisk, []⟩) = (.ok [], m') ∧
      m'.world.disk = freshDisk.setPos 5 ⟨(), 0, 2⟩ 0) ∧
    (∃ m', uc386dosFileWrite (dosWorld (fun _ => 0) fun _ => ()) ⟨.fileio, 5⟩ [7, 8]
        (booted ⟨freshDisk, []⟩) = (.ok 2, m') ∧
      m'.world.disk = (freshDisk.setFile () (some [7, 8])).setPos 5 ⟨(), 0, 2⟩ 2) ∧
    writeSeekRead (dosWorld (fun _ => 0) fun _ => ()) ⟨.fileio, 5⟩ [[7], [], [8, 9]] [2, 0, 4]
      (booted ⟨freshDisk, []⟩) = .ok [7, 8, 9] :=
  have h := stream_transfers_exactly (fun _ => 0) (fun _ => ())
    serving_freshDisk .fileio
  ⟨h.1 (by decide) 4, h.2.1 (by decide) [7, 8],
    h.2.2 rfl rfl rfl [[7], [], [8, 9]] [2, 0, 4] (by decide)⟩

end FreedosMicroPython.Dos.Stream
