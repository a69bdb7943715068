import FreedosMicroPython.Dos.Stream
/-!
# What a file object reports of its progress

A read or a write of a file object is a row of DOS calls of at most 1 KB each. The
two theorems say when the count it reports is the number of bytes that DOS moved.
-/

namespace FreedosMicroPython.Dos.Progress

open FreedosMicroPython.Lib.Files
open FreedosMicroPython.Host FreedosMicroPython.Runtime
open FreedosMicroPython.Dos.Int21 FreedosMicroPython.Dos.Disk FreedosMicroPython.Dos.Syscall
open FreedosMicroPython.Dos.File FreedosMicroPython.Dos.Stream

variable {κ : Type} [DecidableEq κ] (gap : Nat → UInt8) (resolve : List UInt8 → κ)

/-! ## Outcomes of a request -/

/-- What the next call of a request for `want` bytes moves, where no more than `avail`
can be; `none` if it fails. -/
def moved (want avail : Nat) (o : Outcome) : Option Nat :=
  o.count (min (min want DOS_BOUNCE_DATA_MAX) avail)

def someFails (want avail : Nat) : List Outcome → Bool
  | [] => false
  | o :: os =>
      if want = 0 then false
      else
        match moved want avail o with
        | none => true
        | some 0 => false
        | some (k + 1) => someFails (want - (k + 1)) (avail - (k + 1)) os

/-- A call of the request fails after an earlier one has moved bytes. -/
def failsLater (want avail : Nat) : List Outcome → Bool
  | [] => false
  | o :: os =>
      if want = 0 then false
      else
        match moved want avail o with
        | some (k + 1) => someFails (want - (k + 1)) (avail - (k + 1)) os
        | _ => false

/-- The count that the caller sees; an error counts as 0. -/
def reported {α : Type} (count : α → Nat) : Except MpErrno α → Nat
  | .error _ => 0
  | .ok x => count x

/-- The first `k` bytes of `buf` have been stored at the position of the handle, and
nothing else. -/
def Stored (fd : Nat) (h : Handle κ) (buf : List UInt8) (k : Nat) (d d' : Lib.Files.Disk κ UInt8) :
    Prop :=
  k ≤ buf.length ∧ (d' = d.writeHandle gap fd h (buf.take k) ∨ k = 0 ∧ d' = d)

theorem someFails_zero (avail : Nat) (os : List Outcome) : someFails 0 avail os = false := by
  cases os <;> rfl

omit [DecidableEq κ] in
theorem someFails_step {want : Nat} (hwant : want ≠ 0) (avail : Nat) (w : DosState κ) :
    someFails want avail w.script =
      match moved want avail (w.outcome 0) with
      | none => true
      | some 0 => false
      | some (k + 1) => someFails (want - (k + 1)) (avail - (k + 1)) w.script.tail := by
  rcases hscript : w.script with _ | ⟨o, os⟩
  · simp only [DosState.outcome, hscript, List.getElem?_nil, Option.getD_none, moved,
      Outcome.count, Answer.count, someFails, List.tail_nil]
    split <;> simp_all
  · simp [DosState.outcome, hscript, someFails, hwant]

omit [DecidableEq κ] in
theorem failsLater_step {want : Nat} (hwant : want ≠ 0) (avail : Nat) (w : DosState κ) :
    failsLater want avail w.script =
      match moved want avail (w.outcome 0) with
      | some (k + 1) => someFails (want - (k + 1)) (avail - (k + 1)) w.script.tail
      | _ => false := by
  rcases hscript : w.script with _ | ⟨o, os⟩
  · simp only [DosState.outcome, hscript, List.getElem?_nil, Option.getD_none, moved,
      Outcome.count, Answer.count, failsLater, List.tail_nil]
    split <;> simp_all [someFails]
  · simp [DosState.outcome, hscript, failsLater, hwant]

/-! ## Results -/

section
omit [DecidableEq κ]
variable {want avail : Nat} {w : DosState κ}

/-- What the result of a loop that has `total` bytes says about the `k` bytes that its
further calls move. -/
def Tells (want avail : Nat) (os : List Outcome) (total k : Nat) : Except MpErrno Nat → Prop
  | .error _ => someFails want avail os = true ∧ (k = 0 ↔ failsLater want avail os = false)
  | .ok n => someFails want avail os = false ∧ n = total + k

theorem tells_done (os : List Outcome) (total : Nat) : Tells 0 avail os total 0 (.ok total) :=
  ⟨someFails_zero avail os, rfl⟩

theorem tells_error (hwant : want ≠ 0) (hmoved : moved want avail (w.outcome 0) = none)
    (total : Nat) (e : MpErrno) : Tells want avail w.script total 0 (.error e) := by
  refine ⟨by rw [someFails_step hwant, hmoved], ?_⟩
  rw [failsLater_step hwant, hmoved]
  simp

theorem tells_end (hwant : want ≠ 0) (hmoved : moved want avail (w.outcome 0) = some 0)
    (total : Nat) : Tells want avail w.script total 0 (.ok total) :=
  ⟨by rw [someFails_step hwant, hmoved], rfl⟩

theorem tells_step (hwant : want ≠ 0) {j k total : Nat}
    (hmoved : moved want avail (w.outcome 0) = some (j + 1)) {r : Except MpErrno Nat}
    (hrest : Tells (want - (j + 1)) (avail - (j + 1)) w.script.tail (total + (j + 1)) k r) :
    Tells want avail w.script total (j + 1 + k) r := by
  cases r with
  | error e =>
      refine ⟨by rw [someFails_step hwant, hmoved]; exact hrest.1, ?_⟩
      rw [failsLater_step hwant, hmoved]
      simp [hrest.1]
  | ok n =>
      refine ⟨by rw [someFails_step hwant, hmoved]; exact hrest.1, ?_⟩
      rw [hrest.2]
      omega

theorem failsLater_of_not_someFails {os : List Outcome} (h : someFails want avail os = false) :
    failsLater want avail os = false := by
  cases os with
  | nil => rfl
  | cons o os =>
      by_cases hwant : want = 0
      · simp [failsLater, hwant]
      · cases hmoved : moved want avail o with
        | none => simp [failsLater, hwant, hmoved]
        | some c => cases c <;> simp_all [failsLater, someFails]

/-- A whole request reports what it has moved exactly when no call of it fails later. -/
theorem Tells.reported_iff {os : List Outcome} {k : Nat} {r : Except MpErrno Nat}
    (h : Tells want avail os 0 k r) : k = reported id r ↔ failsLater want avail os = false := by
  cases r with
  | error e => exact h.2
  | ok n =>
      refine iff_of_true ?_ (failsLater_of_not_someFails h.1)
      have hn := h.2
      simp only [reported, id]
      omega

end

variable {fd : Nat} {h : Handle κ} {m : Machine (DosState κ)}

/-! ## Reading -/

theorem read_moved (hm : Open fd h m) (hacc : h.access ≠ 1) {want c : Nat} (hwant : want ≠ 0)
    (hmoved : moved want (m.world.disk.remaining h).length (m.world.outcome 0) = some c) :
    ∃ bs m', dosInt21Read (dosWorld gap resolve) quietCall fd want m = (.ok bs, m') ∧
      bs.length = c ∧ m'.world = ⟨m.world.disk.setPos fd h (h.pos + c), m.world.script.tail⟩ ∧
      Open fd { h with pos := h.pos + c } m' := by
  obtain ⟨m', hcall, hworld, hm'⟩ := read_of_some gap resolve hm hacc hwant hmoved
  have hcount := Outcome.count_le hmoved
  have hlen : (m.world.disk.readHandle fd h c).1.length = c := by
    rw [Disk.length_readHandle]
    omega
  rw [hlen] at hm'
  refine ⟨_, m', hcall, hlen, ?_, hm'⟩
  simp only [Disk.readHandle] at hlen hworld
  rw [hworld, hlen]

/-- The rest of a read, at any point of its loop. -/
theorem fileReadLoop_tells (hm : Open fd h m) (hacc : h.access ≠ 1) {size want : Nat}
    {got : List UInt8} (hwant : got.length + want = size) :
    ∃ k r m', fileReadLoop (dosWorld gap resolve) fd size got m = (r, m') ∧
      m'.world.disk = m.world.disk.setPos fd h (h.pos + k) ∧
      Tells want (m.world.disk.remaining h).length m.world.script got.length k
        (r.map List.length) := by
  induction want using Nat.strongRecOn generalizing got h m with
  | _ want ih =>
      have hsame : m.world.disk = m.world.disk.setPos fd h (h.pos + 0) :=
        (Disk.setPos_self _ hm.handle).symm
      rw [fileReadLoop]
      by_cases hzero : want = 0
      · rw [dif_neg (by omega), hzero]
        exact ⟨0, _, m, rfl, hsame, tells_done _ _⟩
      · rw [dif_pos (by omega), show size - got.length = want by omega]
        cases hmoved : moved want (m.world.disk.remaining h).length (m.world.outcome 0) with
        | none =>
            obtain ⟨e, m₁, hcall, hworld, -⟩ := read_of_none gap resolve hm hzero (.inr hmoved)
            rw [hcall]
            exact ⟨0, _, m₁, rfl, by rw [hworld]; exact hsame, tells_error hzero hmoved _ _⟩
        | some c =>
            obtain ⟨bs, m₁, hcall, rfl, hworld, hm₁⟩ :=
              read_moved gap resolve hm hacc hzero hmoved
            rw [hcall]
            cases bs with
            | nil => exact ⟨0, _, m₁, rfl, by rw [hworld]; rfl, tells_end hzero hmoved _⟩
            | cons b bs =>
                have hgot : (got ++ b :: bs).length = got.length + (bs.length + 1) := by
                  rw [List.length_append, List.length_cons]
                have hcount := Nat.le_trans (Outcome.count_le hmoved) (Nat.min_le_left _ _)
                rw [List.length_cons] at hmoved hworld hm₁ hcount
                have hleft : (got ++ b :: bs).length + (want - (bs.length + 1)) = size := by
                  omega
                obtain ⟨k, r, m₂, hrest, hdisk, htells⟩ :=
                  ih (want - (bs.length + 1)) (by omega) hm₁ hacc hleft
                rw [hworld] at hdisk htells
                rw [Disk.remaining_setPos, Disk.remaining_advance, List.length_drop, hgot] at htells
                refine ⟨bs.length + 1 + k, r, m₂, hrest, ?_, tells_step hzero hmoved htells⟩
                rw [hdisk, Disk.setPos_setPos, Nat.add_assoc]

/-! ## Writing -/

theorem Stored.step {rest : List UInt8} {c k : Nat} {d d' : Lib.Files.Disk κ UInt8}
    (hc : c ≤ rest.length)
    (hstored : Stored gap fd { h with pos := h.pos + c } (rest.drop c) k
      (d.writeHandle gap fd h (rest.take c)) d') :
    Stored gap fd h rest (c + k) d d' := by
  obtain ⟨hk, hdisk⟩ := hstored
  rw [List.length_drop] at hk
  refine ⟨by omega, ?_⟩
  rcases hdisk with rfl | ⟨rfl, rfl⟩
  · have hlen : (rest.take c).length = c := List.length_take_of_le hc
    have happend := d.writeHandle_append gap fd h (rest.take c) ((rest.drop c).take k)
    rw [hlen, ← List.take_add] at happend
    exact .inl happend
  · exact .inl rfl

omit [DecidableEq κ] in
theorem moved_write {rest : List UInt8} {w : DosState κ} :
    moved rest.length rest.length (w.outcome 0) =
      (w.outcome 0).count (rest.take DOS_BOUNCE_DATA_MAX).length := by
  rw [moved, List.length_take, Nat.min_comm rest.length, Nat.min_eq_left (Nat.min_le_right _ _)]

theorem write_moved (hm : Open fd h m) (hacc : h.access ≠ 0) {rest : List UInt8}
    (hne : rest ≠ []) {c : Nat}
    (hmoved : moved rest.length rest.length (m.world.outcome 0) = some c) :
    c ≤ rest.length ∧
      ∃ m', dosInt21Write (dosWorld gap resolve) quietCall fd rest m = (.ok c, m') ∧
        m'.world = ⟨m.world.disk.writeHandle gap fd h (rest.take c), m.world.script.tail⟩ ∧
        Open fd { h with pos := h.pos + c } m' := by
  rw [moved_write] at hmoved
  have hcount := Outcome.count_le hmoved
  rw [List.length_take] at hcount
  obtain ⟨m', hcall, hworld, hm'⟩ := write_of_some gap resolve hm hacc hne hmoved
  have htake : (rest.take DOS_BOUNCE_DATA_MAX).take c = rest.take c := by
    rw [List.take_take, Nat.min_eq_left (by omega)]
  rw [htake] at hworld hm'
  rw [List.length_take_of_le (by omega)] at hm'
  exact ⟨by omega, m', hcall, hworld, hm'⟩

/-- The rest of a write, at any point of its loop. -/
theorem fileWriteLoop_tells (hm : Open fd h m) (hacc : h.access ≠ 0) {buf rest : List UInt8}
    {total : Nat} (hrest : buf.drop total = rest) (htotal : total ≤ buf.length) :
    ∃ k r m', fileWriteLoop (dosWorld gap resolve) fd buf total m = (r, m') ∧
      Stored gap fd h rest k m.world.disk m'.world.disk ∧
      Tells rest.length rest.length m.world.script total k r := by
  induction hn : rest.length using Nat.strongRecOn generalizing total rest h m with
  | _ n ih =>
      subst hn
      have hlength : buf.length = total + rest.length := by
        rw [← hrest, List.length_drop]
        omega
      rw [fileWriteLoop]
      by_cases hzero : rest.length = 0
      · rw [dif_neg (by omega), hzero]
        exact ⟨0, _, m, rfl, ⟨Nat.zero_le _, .inr ⟨rfl, rfl⟩⟩, tells_done _ _⟩
      · have hne : rest ≠ [] := fun hnil => hzero (List.length_eq_zero_iff.mpr hnil)
        rw [dif_pos (by omega), hrest]
        cases hmoved : moved rest.length rest.length (m.world.outcome 0) with
        | none =>
            obtain ⟨e, m₁, hcall, hworld, -⟩ :=
              write_of_none gap resolve hm hne (.inr (moved_write ▸ hmoved))
            rw [hcall]
            exact ⟨0, _, m₁, rfl, ⟨Nat.zero_le _, .inr ⟨rfl, by rw [hworld]⟩⟩,
              tells_error hzero hmoved _ _⟩
        | some c =>
            obtain ⟨hc, m₁, hcall, hworld, hm₁⟩ := write_moved gap resolve hm hacc hne hmoved
            rw [hcall]
            cases c with
            | zero =>
                exact ⟨0, _, m₁, rfl, ⟨Nat.zero_le _, .inl (by rw [hworld])⟩,
                  tells_end hzero hmoved _⟩
            | succ j =>
                have hdrop : buf.drop (total + (j + 1)) = rest.drop (j + 1) := by
                  rw [← List.drop_drop, hrest]
                obtain ⟨k, r, m₂, hloop, hstored, htells⟩ :=
                  ih (rest.length - (j + 1)) (by omega) hm₁ hacc hdrop (by omega)
                    List.length_drop
                rw [hworld] at hstored htells
                exact ⟨j + 1 + k, r, m₂, hloop, hstored.step gap hc, tells_step hzero hmoved htells⟩

/-! ## The requests -/

theorem reported_map {α : Type} (count : α → Nat) (r : Except MpErrno α) :
    reported id (r.map count) = reported count r := by
  cases r <;> rfl

theorem fileReadLoop_of_error {size : Nat}
    (hfirst : size ≠ 0 → ∃ e m', dosInt21Read (dosWorld gap resolve) quietCall fd size m =
      (.error e, m') ∧ m'.world.disk = m.world.disk) :
    ∃ r m', fileReadLoop (dosWorld gap resolve) fd size [] m = (r, m') ∧
      m'.world.disk = m.world.disk ∧ reported List.length r = 0 := by
  rw [fileReadLoop]
  by_cases hsize : size = 0
  · exact ⟨_, m, by rw [dif_neg (by simp [hsize])], rfl, rfl⟩
  · obtain ⟨e, m', hcall, hdisk⟩ := hfirst hsize
    rw [dif_pos (by simp; omega), List.length_nil, Nat.sub_zero, hcall]
    exact ⟨_, m', rfl, hdisk, rfl⟩

theorem fileWriteLoop_of_error {buf : List UInt8}
    (hfirst : buf ≠ [] → ∃ e m', dosInt21Write (dosWorld gap resolve) quietCall fd buf m =
      (.error e, m') ∧ m'.world.disk = m.world.disk) :
    ∃ r m', fileWriteLoop (dosWorld gap resolve) fd buf 0 m = (r, m') ∧
      m'.world.disk = m.world.disk ∧ reported id r = 0 := by
  rw [fileWriteLoop]
  by_cases hbuf : buf = []
  · exact ⟨_, m, by rw [dif_neg (by simp [hbuf])], rfl, rfl⟩
  · obtain ⟨e, m', hcall, hdisk⟩ := hfirst hbuf
    rw [dif_pos (List.length_pos_iff.mpr hbuf), List.drop_zero, hcall]
    exact ⟨_, m', rfl, hdisk, rfl⟩

theorem read_refused (hfd : fd < 0x10000) (hopen : m.world.disk.handles fd = some h)
    (hmoves : ¬(CanCall m ∧ h.access ≠ 1)) {size : Nat} (hsize : size ≠ 0) :
    ∃ e m', dosInt21Read (dosWorld gap resolve) quietCall fd size m = (.error e, m') ∧
      m'.world.disk = m.world.disk := by
  by_cases hcan : CanCall m
  · obtain ⟨e, m', hcall, hworld, -⟩ := read_of_none gap resolve ⟨hcan, hfd, hopen⟩ hsize
      (.inl (by simpa [hcan] using hmoves))
    exact ⟨e, m', hcall, by rw [hworld]⟩
  · obtain ⟨⟨e, m', hcall, hworld⟩, -⟩ := transfer_of_cannotCall gap resolve hcan fd hsize
      (List.cons_ne_nil (0 : UInt8) [])
    exact ⟨e, m', hcall, by rw [hworld]⟩

theorem write_refused (hfd : fd < 0x10000) (hopen : m.world.disk.handles fd = some h)
    (hmoves : ¬(CanCall m ∧ h.access ≠ 0)) {buf : List UInt8} (hbuf : buf ≠ []) :
    ∃ e m', dosInt21Write (dosWorld gap resolve) quietCall fd buf m = (.error e, m') ∧
      m'.world.disk = m.world.disk := by
  by_cases hcan : CanCall m
  · obtain ⟨e, m', hcall, hworld, -⟩ := write_of_none gap resolve ⟨hcan, hfd, hopen⟩ hbuf
      (.inl (by simpa [hcan] using hmoves))
    exact ⟨e, m', hcall, by rw [hworld]⟩
  · obtain ⟨-, e, m', hcall, hworld⟩ :=
      transfer_of_cannotCall gap resolve hcan fd Nat.one_ne_zero hbuf
    exact ⟨e, m', hcall, by rw [hworld]⟩

theorem read_reported_iff (hfd : fd < 0x10000) (hopen : m.world.disk.handles fd = some h)
    (type : FileType) (size : Nat) :
    ∃ k r m', uc386dosFileRead (dosWorld gap resolve) ⟨type, fd⟩ size m = (r, m') ∧
      m'.world.disk = m.world.disk.setPos fd h (h.pos + k) ∧
      (k = reported List.length r ↔ ¬(CanCall m ∧ h.access ≠ 1 ∧
        failsLater size (m.world.disk.remaining h).length m.world.script = true)) := by
  rw [uc386dosFileRead, if_neg (by simp)]
  by_cases hmoves : CanCall m ∧ h.access ≠ 1
  · have hm : Open fd h m := ⟨hmoves.1, hfd, hopen⟩
    obtain ⟨k, r, m', hcall, hdisk, htells⟩ := fileReadLoop_tells gap resolve hm hmoves.2
      (show ([] : List UInt8).length + size = size from Nat.zero_add size)
    refine ⟨k, r, m', hcall, hdisk, ?_⟩
    rw [← reported_map, htells.reported_iff]
    simp [hmoves.1, hmoves.2]
  · obtain ⟨r, m', hcall, hdisk, hr⟩ :=
      fileReadLoop_of_error gap resolve fun hsize => read_refused gap resolve hfd hopen hmoves hsize
    refine ⟨0, r, m', hcall, ?_, by rw [hr]; simp; tauto⟩
    rw [hdisk]
    exact (Disk.setPos_self _ hopen).symm

theorem write_reported_iff (hfd : fd < 0x10000) (hopen : m.world.disk.handles fd = some h)
    (type : FileType) (buf : List UInt8) :
    ∃ k r m', uc386dosFileWrite (dosWorld gap resolve) ⟨type, fd⟩ buf m = (r, m') ∧
      Stored gap fd h buf k m.world.disk m'.world.disk ∧
      (k = reported id r ↔ ¬(CanCall m ∧ h.access ≠ 0 ∧
        failsLater buf.length buf.length m.world.script = true)) := by
  rw [uc386dosFileWrite, if_neg (by simp)]
  by_cases hmoves : CanCall m ∧ h.access ≠ 0
  · have hm : Open fd h m := ⟨hmoves.1, hfd, hopen⟩
    obtain ⟨k, r, m', hcall, hstored, htells⟩ := fileWriteLoop_tells gap resolve hm hmoves.2
      (show buf.drop 0 = buf from List.drop_zero) (Nat.zero_le _)
    refine ⟨k, r, m', hcall, hstored, ?_⟩
    rw [htells.reported_iff]
    simp [hmoves.1, hmoves.2]
  · obtain ⟨r, m', hcall, hdisk, hr⟩ :=
      fileWriteLoop_of_error gap resolve fun hbuf => write_refused gap resolve hfd hopen hmoves hbuf
    exact ⟨0, r, m', hcall, ⟨Nat.zero_le _, .inr ⟨rfl, hdisk⟩⟩, by rw [hr]; simp; tauto⟩

/-- A call that reads or writes reports the number of bytes moved unless a DOS call
fails after an earlier one has moved some. -/
theorem progress_reported_iff (hfd : fd < 0x10000) (hopen : m.world.disk.handles fd = some h)
    (type : FileType) :
    (∀ size, ∃ k r m', uc386dosFileRead (dosWorld gap resolve) ⟨type, fd⟩ size m = (r, m') ∧
        m'.world.disk = m.world.disk.setPos fd h (h.pos + k) ∧
        (k = reported List.length r ↔ ¬(CanCall m ∧ h.access ≠ 1 ∧
          failsLater size (m.world.disk.remaining h).length m.world.script = true))) ∧
      ∀ buf, ∃ k r m', uc386dosFileWrite (dosWorld gap resolve) ⟨type, fd⟩ buf m = (r, m') ∧
        Stored gap fd h buf k m.world.disk m'.world.disk ∧
        (k = reported id r ↔ ¬(CanCall m ∧ h.access ≠ 0 ∧
          failsLater buf.length buf.length m.world.script = true)) :=
  ⟨fun size => read_reported_iff gap resolve hfd hopen type size,
    fun buf => write_reported_iff gap resolve hfd hopen type buf⟩

/-- The first call takes one byte, and the second fails. -/
def faultScript : List Outcome := [.served (.short 1), .served (.fail 5)]

theorem progress_reported_iff_fresh :
    (∀ size, ∃ k r m', uc386dosFileRead (dosWorld (fun _ => 0) fun _ => ()) ⟨.fileio, (5 : Nat)⟩
        size (booted ⟨freshDisk, faultScript⟩) = (r, m') ∧
        m'.world.disk = freshDisk.setPos 5 ⟨(), 0, 2⟩ (0 + k) ∧
        (k = reported List.length r ↔ ¬(CanCall (booted ⟨freshDisk, faultScript⟩) ∧ 2 ≠ 1 ∧
          failsLater size (freshDisk.remaining ⟨(), 0, 2⟩).length faultScript = true))) ∧
      ∀ buf, ∃ k r m', uc386dosFileWrite (dosWorld (fun _ => 0) fun _ => ()) ⟨.fileio, (5 : Nat)⟩
        buf (booted ⟨freshDisk, faultScript⟩) = (r, m') ∧
        Stored (fun _ => 0) 5 ⟨(), 0, 2⟩ buf k freshDisk m'.world.disk ∧
        (k = reported id r ↔ ¬(CanCall (booted ⟨freshDisk, faultScript⟩) ∧ 2 ≠ 0 ∧
          failsLater buf.length buf.length faultScript = true)) :=
  progress_reported_iff (fun _ => 0) (fun _ => ()) (m := booted ⟨freshDisk, faultScript⟩)
    (by decide) (h := ⟨(), 0, 2⟩) rfl .fileio

/-- One byte of two is stored, and an error is reported. -/
theorem fileWrite_hides_progress :
    ¬∀ k r m', uc386dosFileWrite (dosWorld (fun _ => 0) fun _ => ()) ⟨.fileio, (5 : Nat)⟩ [7, 8]
        (booted ⟨freshDisk, faultScript⟩) = (r, m') →
      Stored (fun _ => 0) 5 ⟨(), 0, 2⟩ [7, 8] k freshDisk m'.world.disk → k = reported id r := by
  have hm : Open 5 ⟨(), 0, 2⟩ (booted ⟨freshDisk, faultScript⟩) :=
    ⟨⟨.inl rfl, rfl⟩, by decide, rfl⟩
  obtain ⟨k, r, m', hcall, hstored, htells⟩ := fileWriteLoop_tells (fun _ => 0) (fun _ => ()) hm
    (by decide) (show [7, 8].drop 0 = [7, 8] from rfl) (Nat.zero_le _)
  intro hclaim
  have hexact := htells.reported_iff.mp (hclaim k r m' hcall hstored)
  exact absurd hexact (by decide)

end FreedosMicroPython.Dos.Progress
