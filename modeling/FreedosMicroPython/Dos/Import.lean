import FreedosMicroPython.Dos.Seek
/-!
# Loading a module

`mp_lexer_new_from_file` under every script of outcomes: when the lexer gets the
whole file, or nothing because the import raises.
-/

namespace FreedosMicroPython.Dos.Import

open FreedosMicroPython.Lib.Files FreedosMicroPython.Host FreedosMicroPython.Runtime
open FreedosMicroPython.Dos.Int21 FreedosMicroPython.Dos.Disk FreedosMicroPython.Dos.Syscall
open FreedosMicroPython.Dos.File FreedosMicroPython.Dos.Seek

variable {κ : Type} [DecidableEq κ] (gap : Nat → UInt8) (resolve : List UInt8 → κ)
variable {fd : Nat} {h : Handle κ} {m : Machine (DosState κ)}

/-! ## The size of the file -/

/-- Where the last seek of `dos_int21_fsize`, whose result is ignored, leaves the
position. -/
def restored (w : DosState κ) (size : Nat) : Nat := if w.grants 2 then 0 else size

theorem fsize_of_opened (hm : Open fd h m) (hpos : h.pos = 0) {size : Nat}
    (hsize : (m.world.disk.contents h.file).length = size) (hlong : size < 0x80000000)
    (hcur : m.world.grants 0 = true) (heof : m.world.grants 1 = true) :
    ∃ m', dosInt21Fsize (dosWorld gap resolve) quietCall fd m = (some (size : Int), m') ∧
      m'.world = ⟨m.world.disk.setPos fd h (restored m.world size), m.world.script.drop 3⟩ ∧
      Open fd { h with pos := restored m.world size } m' := by
  obtain ⟨m', hcall, hworld, hm'⟩ := fsize_of_sized gap resolve hm (by omega) hsize (by omega)
    (by omega) hcur heof hlong
  rw [hpos] at hworld hm'
  exact ⟨m', hcall, hworld, hm'⟩

theorem fsize_of_not_sized (hm : Open fd h m) (hpos : h.pos = 0) {size : Nat}
    (hsize : (m.world.disk.contents h.file).length = size) (hfits : size < 0x100000000)
    (hnot : m.world.grants 0 = false ∨ m.world.grants 1 = false ∨ 0x80000000 ≤ size) :
    ∃ m', dosInt21Fsize (dosWorld gap resolve) quietCall fd m = (none, m') := by
  by_cases hseeks : m.world.grants 0 = true ∧ m.world.grants 1 = true
  · have hlarge : 0x80000000 ≤ size := by simpa [hseeks.1, hseeks.2] using hnot
    obtain ⟨m', hcall, -⟩ := fsize_of_large gap resolve hm (by omega) hsize hfits (by omega)
      hseeks.1 hseeks.2 hlarge
    exact ⟨m', hcall⟩
  · have hstop : m.world.grants 0 = false ∨ 0x80000000 ≤ h.pos ∨ m.world.grants 1 = false := by
      cases hcur : m.world.grants 0 with
      | false => exact .inl rfl
      | true => exact .inr (.inr (by simpa [hcur] using hseeks))
    obtain ⟨m', hcall, -⟩ := fsize_of_stopped gap resolve hm (by omega) hstop
    exact ⟨m', hcall⟩

/-! ## The read loop -/

/-- Every read before `n` bytes are there is granted and brings something. -/
def readsThrough : List Outcome → Nat → Bool
  | _, 0 => true
  | [], _ => true
  | o :: os, n + 1 =>
      match o.count (min (n + 1) DOS_BOUNCE_DATA_MAX) with
      | some (c + 1) => readsThrough os (n + 1 - (c + 1))
      | _ => false

@[simp] theorem readsThrough_zero (script : List Outcome) : readsThrough script 0 = true := by
  cases script <;> rfl

omit [DecidableEq κ] in
theorem readsThrough_of_some {w : DosState κ} {n c : Nat} (hn : n ≠ 0)
    (hc : (w.outcome 0).count (min n DOS_BOUNCE_DATA_MAX) = some c) :
    readsThrough w.script n = true ↔ c ≠ 0 ∧ readsThrough w.script.tail (n - c) = true := by
  obtain ⟨n, rfl⟩ := Nat.exists_eq_succ_of_ne_zero hn
  rcases hscript : w.script with _ | ⟨o, os⟩
  · have hfull : min (n + 1) DOS_BOUNCE_DATA_MAX = c := by
      simpa [DosState.outcome, hscript, Outcome.count, Answer.count] using hc
    have hpos : c ≠ 0 := by
      rw [← hfull, DOS_BOUNCE_DATA_MAX]
      omega
    have hnil : ∀ k, readsThrough [] k = true := fun k => by cases k <;> rfl
    simp [hnil, hpos]
  · simp only [DosState.outcome, hscript, List.getElem?_cons_zero, Option.getD_some] at hc
    cases c with
    | zero => simp [readsThrough, hc]
    | succ c => simp [readsThrough, hc]

omit [DecidableEq κ] in
theorem readsThrough_of_none {w : DosState κ} {n : Nat} (hn : n ≠ 0)
    (hc : (w.outcome 0).count (min n DOS_BOUNCE_DATA_MAX) = none) :
    readsThrough w.script n = false := by
  obtain ⟨n, rfl⟩ := Nat.exists_eq_succ_of_ne_zero hn
  rcases hscript : w.script with _ | ⟨o, os⟩
  · simp [DosState.outcome, hscript, Outcome.count, Answer.count] at hc
  · simp only [DosState.outcome, hscript, List.getElem?_cons_zero, Option.getD_some] at hc
    simp [readsThrough, hc]

theorem lexerReadLoop_at_end (hm : Open fd h m) (hacc : h.access ≠ 1)
    (hrem : m.world.disk.remaining h = []) (size : Nat) (buf : List UInt8) :
    (lexerReadLoop (dosWorld gap resolve) fd size buf m).1 = buf := by
  rw [lexerReadLoop]
  by_cases hlt : buf.length < size
  · rw [dif_pos hlt]
    have hcount : size - buf.length ≠ 0 := by omega
    cases hc : (m.world.outcome 0).count (min (min (size - buf.length) DOS_BOUNCE_DATA_MAX)
        (m.world.disk.remaining h).length) with
    | none =>
        obtain ⟨e, m', hcall, -, -⟩ := read_of_none gap resolve hm hcount (.inr hc)
        rw [hcall]
    | some c =>
        obtain ⟨m', hcall, -, -⟩ := read_of_some gap resolve hm hacc hcount hc
        rw [hcall, Disk.readHandle_of_remaining_nil _ hrem]
  · rw [dif_neg hlt]

theorem read_inside (hm : Open fd h m) (hacc : h.access ≠ 1) {c : List UInt8}
    (hc : m.world.disk.contents h.file = c) {n k : Nat} (hn : c.length - h.pos = n) (hn0 : n ≠ 0)
    (hcount : (m.world.outcome 0).count (min n DOS_BOUNCE_DATA_MAX) = some k) :
    ∃ m', dosInt21Read (dosWorld gap resolve) quietCall fd n m =
        (.ok ((c.drop h.pos).take k), m') ∧
      m'.world.disk.contents h.file = c ∧ m'.world.script = m.world.script.tail ∧
      Open fd { h with pos := h.pos + ((c.drop h.pos).take k).length } m' := by
  have hrem : m.world.disk.remaining h = c.drop h.pos := by
    rw [Disk.remaining, hc]
  have hmin : min (min n DOS_BOUNCE_DATA_MAX) (m.world.disk.remaining h).length =
      min n DOS_BOUNCE_DATA_MAX := by
    rw [hrem, List.length_drop]
    omega
  obtain ⟨m', hcall, hworld, hm'⟩ := read_of_some gap resolve hm hacc hn0
    (by rw [hmin]; exact hcount)
  simp only [Disk.readHandle, hrem] at hcall hm'
  refine ⟨m', hcall, ?_, by rw [hworld], hm'⟩
  rw [hworld]
  exact hc

/-- From a position whose bytes have been read, the loop gets the whole file
exactly when every read brings something. -/
theorem lexerReadLoop_whole_iff (hm : Open fd h m) (hacc : h.access ≠ 1) {c : List UInt8}
    (hc : m.world.disk.contents h.file = c) (hpos : h.pos ≤ c.length) :
    (lexerReadLoop (dosWorld gap resolve) fd c.length (c.take h.pos) m).1 = c ↔
      readsThrough m.world.script (c.length - h.pos) = true := by
  induction hn : c.length - h.pos using Nat.strongRecOn generalizing h m with
  | _ n ih =>
      have hlen : (c.take h.pos).length = h.pos := List.length_take_of_le hpos
      rw [lexerReadLoop]
      by_cases hn0 : n = 0
      · have hall : c.take h.pos = c := List.take_of_length_le (by omega)
        rw [dif_neg (by omega), hn0]
        exact iff_of_true hall (readsThrough_zero _)
      · have hshort : c.take h.pos ≠ c := by
          intro heq
          rw [heq] at hlen
          omega
        rw [dif_pos (by omega), hlen, hn]
        cases hcount : (m.world.outcome 0).count (min n DOS_BOUNCE_DATA_MAX) with
        | none =>
            have hrem : (m.world.disk.remaining h).length = n := by
              rw [Disk.remaining, hc, List.length_drop, hn]
            have hmin : min (min n DOS_BOUNCE_DATA_MAX) (m.world.disk.remaining h).length =
                min n DOS_BOUNCE_DATA_MAX := by omega
            obtain ⟨e, m', hcall, -, -⟩ := read_of_none gap resolve hm hn0
              (.inr (by rw [hmin]; exact hcount))
            rw [hcall, readsThrough_of_none hn0 hcount]
            exact iff_of_false hshort Bool.false_ne_true
        | some k =>
            obtain ⟨m', hcall, hc', hscript, hm'⟩ :=
              read_inside gap resolve hm hacc hc hn hn0 hcount
            have hk := Outcome.count_le hcount
            have hbslen : ((c.drop h.pos).take k).length = k := by
              rw [List.length_take, List.length_drop]
              omega
            have htake : c.take h.pos ++ (c.drop h.pos).take k = c.take (h.pos + k) :=
              List.take_add.symm
            rw [hcall, readsThrough_of_some hn0 hcount]
            rw [hbslen] at hm'
            cases hbs : (c.drop h.pos).take k with
            | nil =>
                obtain rfl : k = 0 := by rw [← hbslen, hbs, List.length_nil]
                exact iff_of_false hshort (by simp)
            | cons b bs =>
                have hk0 : k ≠ 0 := by
                  rw [← hbslen, hbs]
                  simp
                have hnext := ih (n - k) (by omega) hm' hacc hc'
                  (show h.pos + k ≤ c.length by omega)
                  (show c.length - (h.pos + k) = n - k by omega)
                rw [hbs] at htake
                rw [hscript] at hnext
                simpa only [htake, hk0, ne_eq, not_false_eq_true, true_and] using hnext

/-! ## The whole file or an exception -/

/-- After the file is open: it cannot be sized, or is empty; else the seek back to
the start and every read before the end get through. -/
theorem lexerLoad_whole_iff (hm : Open fd h m) (hacc : h.access ≠ 1) (hpos : h.pos = 0)
    (file : DosFile) (hfile : m.world.disk.contents h.file = file.bytes) :
    (∀ src, (lexerLoad (dosWorld gap resolve) fd m).1 = .ok src → src = file.bytes) ↔
      m.world.grants 0 = false ∨ m.world.grants 1 = false ∨ 0x80000000 ≤ file.bytes.length ∨
        file.bytes = [] ∨
        m.world.grants 2 = true ∧
          readsThrough (m.world.script.drop 3) file.bytes.length = true := by
  unfold lexerLoad
  by_cases hnot : m.world.grants 0 = false ∨ m.world.grants 1 = false ∨
      0x80000000 ≤ file.bytes.length
  · obtain ⟨m₁, hcall⟩ := fsize_of_not_sized gap resolve hm hpos (congrArg List.length hfile)
      file.fits hnot
    rw [hcall]
    apply iff_of_true (by simp)
    tauto
  · obtain ⟨hcur, heof, hlong⟩ : m.world.grants 0 = true ∧ m.world.grants 1 = true ∧
        file.bytes.length < 0x80000000 := by
      simpa only [not_or, Bool.not_eq_false, Nat.not_le] using hnot
    obtain ⟨m₁, hcall, hworld, hm₁⟩ := fsize_of_opened gap resolve hm hpos
      (congrArg List.length hfile) hlong hcur heof
    have hcontents : m₁.world.disk.contents h.file = file.bytes := by
      rw [hworld]
      exact hfile
    simp only [hcall, Int.toNat_natCast, Except.ok.injEq, forall_eq', hcur, heof,
      Bool.true_eq_false, Nat.not_le.mpr hlong, false_or]
    cases hrestore : m.world.grants 2 with
    | true =>
        have hstart : restored m.world file.bytes.length = 0 := by
          simp [restored, hrestore]
        rw [hstart] at hm₁ hworld
        have hloop := lexerReadLoop_whole_iff gap resolve hm₁ hacc hcontents
          (Nat.zero_le _)
        rw [List.take_zero, hworld] at hloop
        have hempty : file.bytes = [] →
            readsThrough (m.world.script.drop 3) file.bytes.length = true := by
          intro hnil
          rw [hnil]
          exact readsThrough_zero _
        rw [hloop]
        simp only [true_and]
        exact (or_iff_right_of_imp hempty).symm
    | false =>
        have hend : restored m.world file.bytes.length = file.bytes.length := by
          simp [restored, hrestore]
        rw [hend] at hm₁ hworld
        have hrem : m₁.world.disk.remaining { h with pos := file.bytes.length } = [] := by
          rw [Disk.remaining, hcontents]
          exact List.drop_length
        rw [lexerReadLoop_at_end gap resolve hm₁ hacc hrem]
        simp only [Bool.false_eq_true, false_and, or_false]
        exact eq_comm

/-- No DOS call can be made, the file cannot be opened or sized, or is empty; else
the seek back to the start and every read before the end get through. -/
def LoadsWhole (path : CString) (file : DosFile) (m : Machine (DosState κ)) : Prop :=
  ¬CanCall m ∨ 1024 ≤ path.bytes.length ∨ 0x10000 ≤ m.world.disk.next ∨
    m.world.grants 0 = false ∨ m.world.grants 1 = false ∨ m.world.grants 2 = false ∨
    0x80000000 ≤ file.bytes.length ∨ file.bytes = [] ∨
    m.world.grants 3 = true ∧ readsThrough (m.world.script.drop 4) file.bytes.length = true

/-- The lexer never gets less than the file exactly under `LoadsWhole`. -/
theorem mpLexerNewFromFile_whole_iff {path : CString} (file : DosFile)
    (hfile : m.world.disk.files (resolve path.bytes) = some file.bytes) :
    (∀ src, (mpLexerNewFromFile (dosWorld gap resolve) path m).1 = .ok src → src = file.bytes) ↔
      LoadsWhole path file m := by
  unfold mpLexerNewFromFile LoadsWhole
  by_cases hreach : ¬CanCall m ∨ 1024 ≤ path.bytes.length
  · obtain ⟨m', hcall, -, -⟩ := pathCall_of_not_reached gap resolve (openRegs m 0) hreach
    rw [dosInt21Open, hcall]
    refine iff_of_true (by simp) ?_
    rcases hreach with h | h
    · exact .inl h
    · exact .inr (.inl h)
  · obtain ⟨hcan, hlen⟩ := not_or.mp hreach
    rw [not_not] at hcan
    rw [Nat.not_le] at hlen
    by_cases hopen : m.world.grants 0 = false ∨ 0x10000 ≤ m.world.disk.next
    · obtain ⟨e, m', hcall, -, -⟩ := open_of_not gap resolve hcan hlen hopen 0
      rw [hcall]
      refine iff_of_true (by simp) ?_
      tauto
    · obtain ⟨hgrants, hnext⟩ := not_or.mp hopen
      rw [Bool.not_eq_false] at hgrants
      rw [Nat.not_le] at hnext
      obtain ⟨m₁, hcall, hworld₁, hm₁⟩ := open_of_grants gap resolve hcan hlen
        hgrants hnext (by simp [hfile]) 0
      have hload := lexerLoad_whole_iff gap resolve hm₁ (by simp) rfl
        file (by simp [hworld₁, Disk.contents, hfile])
      rw [hworld₁, grants_of_tail, grants_of_tail, grants_of_tail] at hload
      rw [hcall]
      simp only [hload, hcan, not_true_eq_false, Nat.not_le.mpr hlen, Nat.not_le.mpr hnext,
        hgrants, Bool.true_eq_false, false_or, List.drop_tail]

def oneFile (bytes : List UInt8) : Lib.Files.Disk Unit UInt8 where
  files _ := some bytes
  handles _ := none
  next := 5

/-- Four calls get through, the read fails. -/
def readFails : List Outcome :=
  [.served .full, .served .full, .served .full, .served .full, .served (.fail 5)]

/-- The read of a one-byte file fails: the import gets an empty module. -/
theorem mpLexerNewFromFile_drops_file :
    ¬∀ src, (mpLexerNewFromFile (dosWorld (fun _ => 0) fun _ => ()) ⟨[0x41], by simp⟩
      (booted ⟨oneFile [0x78], readFails⟩)).1 = .ok src → src = [0x78] := by
  intro hall
  have hlen : (⟨[0x41], by simp⟩ : CString).bytes.length < 1024 := by decide
  obtain ⟨m₁, hcall, hworld, hm₁⟩ := open_of_grants (fun _ => 0) (fun _ => ())
    (m := booted ⟨oneFile [0x78], readFails⟩)
    ⟨.inl rfl, rfl⟩ hlen rfl (by decide) (Option.some_ne_none _) 0
  have hload := (lexerLoad_whole_iff (fun _ => 0) (fun _ => ()) hm₁
    (by decide) rfl ⟨[0x78], by decide⟩ (by rw [hworld]; rfl)).mp fun src hsrc =>
      hall src (by rw [mpLexerNewFromFile, hcall]; exact hsrc)
  rw [hworld] at hload
  revert hload
  decide

theorem mpLexerNewFromFile_whole_iff_oneFile :
    (∀ src, (mpLexerNewFromFile (dosWorld (fun _ => 0) fun _ => ()) ⟨[0x41], by simp⟩
      (booted ⟨oneFile [0x78], []⟩)).1 = .ok src → src = [0x78]) ↔
      LoadsWhole ⟨[0x41], by simp⟩ ⟨[0x78], by decide⟩
        (booted (⟨oneFile [0x78], []⟩ : DosState Unit)) :=
  mpLexerNewFromFile_whole_iff _ _ ⟨[0x78], by decide⟩ rfl

end FreedosMicroPython.Dos.Import
