import FreedosMicroPython.Dos.Syscall
import FreedosMicroPython.Dos.File
/-!
# Opening for append

Under every script of outcomes: when the old contents of a file stay in front of
whatever is written through an object that was opened to append to it.
-/

namespace FreedosMicroPython.Dos.Append

open FreedosMicroPython.Lib.Splice FreedosMicroPython.Lib.Files
open FreedosMicroPython.Host FreedosMicroPython.Runtime
open FreedosMicroPython.Dos.Int21 FreedosMicroPython.Dos.Disk FreedosMicroPython.Dos.Syscall
open FreedosMicroPython.Dos.File

variable {κ : Type} [DecidableEq κ] (gap : Nat → UInt8) (resolve : List UInt8 → κ)

/-! ## Modes that append -/

/-- The mode asks for append: an `a`, and no `w` that would truncate. -/
def SelectsAppend (mode : List Char) : Prop := 'a' ∈ mode ∧ 'w' ∉ mode
  deriving Decidable

theorem wantTrunc_char (mode : Mode) (c : Char) :
    (mode.char c).wantTrunc = true ↔ mode.wantTrunc = true ∨ c = 'w' := by
  unfold Mode.char
  split <;> simp_all

theorem wantCreate_char (mode : Mode) (c : Char) :
    (mode.char c).wantCreate = true ↔ mode.wantCreate = true ∨ c = 'a' ∨ c = 'w' := by
  unfold Mode.char
  split <;> simp_all

theorem dosMode_char_le {mode : Mode} (h : mode.dosMode ≤ 2) (c : Char) :
    (mode.char c).dosMode ≤ 2 := by
  unfold Mode.char
  split <;> simp [h]

theorem wantTrunc_foldl (s : List Char) (mode : Mode) :
    (s.foldl Mode.char mode).wantTrunc = true ↔ mode.wantTrunc = true ∨ 'w' ∈ s := by
  induction s generalizing mode with
  | nil => simp
  | cons c s ih => rw [List.foldl_cons, ih, wantTrunc_char, List.mem_cons, or_assoc, @eq_comm _ c]

theorem wantCreate_foldl (s : List Char) (mode : Mode) :
    (s.foldl Mode.char mode).wantCreate = true ↔
      mode.wantCreate = true ∨ 'a' ∈ s ∨ 'w' ∈ s := by
  induction s generalizing mode with
  | nil => simp
  | cons c s ih =>
      rw [List.foldl_cons, ih, wantCreate_char, List.mem_cons, List.mem_cons, @eq_comm _ c,
        @eq_comm _ c]
      tauto

theorem dosMode_foldl_le (s : List Char) {mode : Mode} (h : mode.dosMode ≤ 2) :
    (s.foldl Mode.char mode).dosMode ≤ 2 := by
  induction s generalizing mode with
  | nil => exact h
  | cons c s ih => exact ih (dosMode_char_le h c)

theorem parseMode_append {mode : List Char} (h : SelectsAppend mode) :
    (parseMode mode).wantTrunc = false ∧ (parseMode mode).wantCreate = true ∧
      (parseMode mode).dosMode % 4 = (parseMode mode).dosMode := by
  have hle : (parseMode mode).dosMode ≤ 2 := dosMode_foldl_le mode (by decide)
  refine ⟨?_, ?_, by omega⟩
  · rw [Bool.eq_false_iff, parseMode, ne_eq, wantTrunc_foldl]
    simp [h.2]
  · rw [parseMode, wantCreate_foldl]
    exact .inr (.inl h.1)

/-! ## What is written later -/

def rescript (m : Machine (DosState κ)) (script : List Outcome) : Machine (DosState κ) :=
  m.inWorld ⟨m.world.disk, script⟩

/-- The states that writes through a handle lead to, each write under any script. -/
inductive Wrote (fd : Int) : Machine (DosState κ) → Machine (DosState κ) → Prop where
  | refl (m : Machine (DosState κ)) : Wrote fd m m
  | step {m m' : Machine (DosState κ)} (script : List Outcome) (buf : List UInt8)
      (h : Wrote fd m m') :
      Wrote fd m (dosInt21Write (dosWorld gap resolve) quietCall fd buf (rescript m' script)).2

variable {gap resolve} {m : Machine (DosState κ)}

theorem Wrote.write {fd : Int} {m m' : Machine (DosState κ)} (h : Wrote gap resolve fd m m')
    (buf : List UInt8) :
    Wrote gap resolve fd m (dosInt21Write (dosWorld gap resolve) quietCall fd buf m').2 :=
  .step m'.world.script buf h

theorem Wrote.fileWriteLoop {fd : Int} {m m' : Machine (DosState κ)}
    (h : Wrote gap resolve fd m m') (buf : List UInt8) (total : Nat) :
    Wrote gap resolve fd m (File.fileWriteLoop (dosWorld gap resolve) fd buf total m').2 := by
  fun_induction File.fileWriteLoop (dosWorld gap resolve) fd buf total m' with
  | case1 total m' hlt e m'' hcall =>
      have hnext := h.write (buf.drop total)
      rwa [hcall] at hnext
  | case2 total m' hlt m'' hcall =>
      have hnext := h.write (buf.drop total)
      rwa [hcall] at hnext
  | case3 total m' hlt n m'' hcall ih =>
      have hnext := h.write (buf.drop total)
      rw [hcall] at hnext
      exact ih hnext
  | case4 total m' hlt => exact h

theorem Wrote.fileWrite {o : FileObj} {m m' : Machine (DosState κ)}
    (h : Wrote gap resolve o.fd m m') (buf : List UInt8) :
    Wrote gap resolve o.fd m (uc386dosFileWrite (dosWorld gap resolve) o buf m').2 := by
  unfold uc386dosFileWrite
  split
  · exact h
  · exact h.fileWriteLoop buf 0

/-- The file still begins with `c`: the handle cannot write, or is behind `c`. -/
structure Keeps (fd : Nat) (c : List UInt8) (k : κ) (h : Handle κ) (m : Machine (DosState κ)) :
    Prop where
  opened : Open fd h m
  file : h.file = k
  stored : c <+: m.world.disk.contents k
  behind : h.access = 0 ∨ c.length ≤ h.pos

theorem Keeps.write {fd : Nat} {c : List UInt8} {k : κ} {h : Handle κ} (hm : Keeps fd c k h m)
    (buf : List UInt8) :
    ∃ h', Keeps fd c k h' (dosInt21Write (dosWorld gap resolve) quietCall fd buf m).2 := by
  by_cases hbuf : buf = []
  · exact ⟨h, by simpa [dosInt21Write, hm.opened.canCall.bounce, hbuf] using hm⟩
  · by_cases hcut : h.access = 0 ∨
        (m.world.outcome 0).count (buf.take DOS_BOUNCE_DATA_MAX).length = none
    · obtain ⟨e, m', hcall, hworld, hm'⟩ :=
        write_of_none gap resolve hm.opened hbuf hcut
      rw [hcall]
      exact ⟨h, hm', hm.file, by rw [hworld]; exact hm.stored, hm.behind⟩
    · obtain ⟨hacc, hsome⟩ := not_or.mp hcut
      obtain ⟨n, hn⟩ := Option.ne_none_iff_exists'.mp hsome
      obtain ⟨m', hcall, hworld, hm'⟩ :=
        write_of_some gap resolve hm.opened hacc hbuf hn
      rw [hcall]
      have hbehind := hm.behind.resolve_left hacc
      refine ⟨_, hm', hm.file, ?_, .inr (by simp only; omega)⟩
      rw [hworld, ← hm.file, Disk.writeHandle]
      simp only [Disk.contents, Disk.files_setPos, Disk.files_setFile, Function.update_self,
        Option.getD_some]
      exact prefix_overwrite gap (hm.file ▸ hm.stored) hbehind _

theorem Keeps.wrote {fd : Nat} {c : List UInt8} {k : κ} {m' : Machine (DosState κ)}
    (hm : ∃ h, Keeps fd c k h m) (hwrote : Wrote gap resolve fd m m') : ∃ h, Keeps fd c k h m' := by
  induction hwrote with
  | refl => exact hm
  | step script buf _ ih =>
      obtain ⟨h, hopen, hfile, hstored, hbehind⟩ := ih
      have hrescript : Keeps fd c k h (rescript _ script) :=
        ⟨⟨⟨hopen.canCall.thunk, hopen.canCall.bounce⟩, hopen.fd_lt, hopen.handle⟩, hfile, hstored,
          hbehind⟩
      exact hrescript.write buf

/-! ## Opening -/

variable (gap resolve)

/-- The file begins with its old contents, after `open` and after any writes
through the object it returned. -/
def KeepsContents (path : CString) (mode : List Char) (file : DosFile)
    (m : Machine (DosState κ)) : Prop :=
  file.bytes <+: (uc386dosBuiltinOpen (dosWorld gap resolve) path (some mode)
      m).2.world.disk.contents (resolve path.bytes) ∧
    ∀ o, (uc386dosBuiltinOpen (dosWorld gap resolve) path (some mode) m).1 = .ok o →
      ∀ m', Wrote gap resolve o.fd
          (uc386dosBuiltinOpen (dosWorld gap resolve) path (some mode) m).2 m' →
        file.bytes <+: m'.world.disk.contents (resolve path.bytes)

/-- Nothing is opened, or there is nothing to lose, or the file is opened and the
seek to its end gets through or the object is for reading. -/
def AppendSafe (path : CString) (mode : List Char) (file : DosFile)
    (m : Machine (DosState κ)) : Prop :=
  ¬CanCall m ∨ 1024 ≤ path.bytes.length ∨ 0x10000 ≤ m.world.disk.next ∨ file.bytes = [] ∨
    m.world.grants 0 = true ∧ (m.world.grants 1 = true ∨ (parseMode mode).dosMode = 0) ∨
    m.world.grants 0 = false ∧ m.world.grants 1 = false

theorem keepsContents_of_error {path : CString} {mode : List Char} {file : DosFile}
    (hmode : SelectsAppend mode) {e : Nat} {m' : Machine (DosState κ)}
    (h : openAppend (dosWorld gap resolve) path (parseMode mode).dosMode m = (.error e, m'))
    (hstored : m'.world.disk.files (resolve path.bytes) = some file.bytes) :
    KeepsContents gap resolve path mode file m := by
  obtain ⟨htrunc, hcreate, -⟩ := parseMode_append hmode
  have hopen : uc386dosBuiltinOpen (dosWorld gap resolve) path (some mode) m =
      (.error (openErrno e), m') := by
    simp [uc386dosBuiltinOpen, htrunc, hcreate, h]
  rw [KeepsContents, hopen]
  exact ⟨by simp [Disk.contents_of_files _ hstored], by simp⟩

theorem keepsContents_of_ok {path : CString} {mode : List Char} {file : DosFile}
    (hmode : SelectsAppend mode) {fd : Nat} {m' : Machine (DosState κ)}
    (h : openAppend (dosWorld gap resolve) path (parseMode mode).dosMode m = (.ok fd, m')) :
    KeepsContents gap resolve path mode file m ↔
      ∀ m'', Wrote gap resolve fd m' m'' →
        file.bytes <+: m''.world.disk.contents (resolve path.bytes) := by
  obtain ⟨htrunc, hcreate, -⟩ := parseMode_append hmode
  have hopen : uc386dosBuiltinOpen (dosWorld gap resolve) path (some mode) m =
      (.ok ⟨(parseMode mode).type, fd⟩, m') := by
    simp [uc386dosBuiltinOpen, htrunc, hcreate, h]
  rw [KeepsContents, hopen]
  simp only [Except.ok.injEq, forall_eq']
  exact ⟨fun hkeeps => hkeeps.2, fun hkeeps => ⟨hkeeps m' (.refl m'), hkeeps⟩⟩

/-- The seek to the end of a file just opened, whether it gets through or not. -/
theorem seekEnd_spec {fd : Nat} {h : Handle κ} (hm : Open fd h m) (file : DosFile)
    (hfile : m.world.disk.contents h.file = file.bytes) :
    (∀ k, (seekEnd (dosWorld gap resolve) fd m).world.disk.contents k =
        m.world.disk.contents k) ∧
      Open fd { h with pos := if m.world.grants 0 then file.bytes.length else h.pos }
        (seekEnd (dosWorld gap resolve) fd m) := by
  have hend : toU32 (seekBase m.world.disk h 2 + 0) = file.bytes.length := by
    change toU32 ((m.world.disk.contents h.file).length + 0) = file.bytes.length
    rw [hfile, Int.add_zero, toU32_natCast file.fits]
  obtain ⟨r, m', hcall, hworld, hm'⟩ := lseek_either gap resolve hm 0 2
    (by decide) hend
  rw [seekEnd, hcall]
  refine ⟨?_, hm'⟩
  intro k
  rw [hworld]
  rfl

theorem overwrites_of_start {fd : Nat} {h : Handle κ} (hm : Open fd h m) (hacc : h.access ≠ 0)
    (hpos : h.pos = 0) {c : List UInt8} (hc : m.world.disk.contents h.file = c) (hne : c ≠ []) :
    ∃ m', Wrote gap resolve fd m m' ∧ ¬c <+: m'.world.disk.contents h.file := by
  obtain ⟨b, bs, rfl⟩ := List.exists_cons_of_ne_nil hne
  have hm₀ : Open fd h (rescript m []) :=
    ⟨⟨hm.canCall.thunk, hm.canCall.bounce⟩, hm.fd_lt, hm.handle⟩
  obtain ⟨m', hcall, hworld, -⟩ := write_of_some gap resolve hm₀ hacc
    (List.cons_ne_nil (b + 1) []) (c := 1) rfl
  refine ⟨m', ?_, ?_⟩
  · have hwrote : Wrote gap resolve fd m
        (dosInt21Write (dosWorld gap resolve) quietCall fd [b + 1] (rescript m [])).2 :=
      (Wrote.refl m).step [] [b + 1]
    rwa [hcall] at hwrote
  · have hcontents : m'.world.disk.contents h.file = (b + 1) :: bs := by
      have hold : (rescript m []).world.disk.contents h.file = b :: bs := hc
      rw [hworld, Disk.writeHandle, hold, hpos]
      simp [Disk.contents, overwrite, padTo, DOS_BOUNCE_DATA_MAX]
    rw [hcontents]
    simp

theorem keepsContents_of_opened {path : CString} {mode : List Char} {file : DosFile}
    (hmode : SelectsAppend mode)
    (hfile : m.world.disk.files (resolve path.bytes) = some file.bytes) (hcan : CanCall m)
    (hlen : path.bytes.length < 1024) (hnext : m.world.disk.next < 0x10000)
    (hgrants : m.world.grants 0 = true) :
    KeepsContents gap resolve path mode file m ↔
      file.bytes = [] ∨ m.world.grants 1 = true ∨ (parseMode mode).dosMode = 0 := by
  obtain ⟨-, -, hdos⟩ := parseMode_append hmode
  obtain ⟨m₁, hcall, hworld, hm₁⟩ := open_of_grants gap resolve hcan hlen
    hgrants hnext (by simp [hfile]) (parseMode mode).dosMode
  have hcontents : m₁.world.disk.contents (resolve path.bytes) = file.bytes := by
    simp [hworld, Disk.contents, hfile]
  have hgrants₁ : m₁.world.grants 0 = m.world.grants 1 := by
    rw [hworld, grants_of_tail]
  obtain ⟨hsame, hopen⟩ := seekEnd_spec gap resolve hm₁ file hcontents
  have hcontents' := (hsame (resolve path.bytes)).trans hcontents
  rw [hgrants₁] at hopen
  have happend : openAppend (dosWorld gap resolve) path (parseMode mode).dosMode m =
      (.ok m.world.disk.next, seekEnd (dosWorld gap resolve) m.world.disk.next m₁) := by
    rw [openAppend, hcall]
  rw [keepsContents_of_ok gap resolve hmode happend]
  constructor
  · intro hkeeps
    by_contra hcon
    obtain ⟨hne, hlost⟩ := not_or.mp hcon
    obtain ⟨hseek, hacc⟩ := not_or.mp hlost
    rw [Bool.not_eq_true] at hseek
    simp only [hseek, Bool.false_eq_true, if_false] at hopen
    obtain ⟨m'', hwrote, hlost⟩ := overwrites_of_start gap resolve hopen
      (by simp only; omega) rfl hcontents' hne
    exact hlost (hkeeps m'' hwrote)
  · intro hsafe m'' hwrote
    have hkeeps : ∃ h', Keeps m.world.disk.next file.bytes (resolve path.bytes) h'
        (seekEnd (dosWorld gap resolve) m.world.disk.next m₁) := by
      refine ⟨_, hopen, rfl, by simp [hcontents'], ?_⟩
      rcases hsafe with hnil | hseek | hread
      · exact .inr (by simp [hnil])
      · exact .inr (by simp [hseek])
      · exact .inl (by simp [hread])
    obtain ⟨h', hkept⟩ := Keeps.wrote hkeeps hwrote
    exact hkept.stored

/-- An existing file that could not be opened is created, which empties it. -/
theorem keepsContents_of_not_opened {path : CString} {mode : List Char} {file : DosFile}
    (hmode : SelectsAppend mode)
    (hfile : m.world.disk.files (resolve path.bytes) = some file.bytes) (hcan : CanCall m)
    (hlen : path.bytes.length < 1024)
    (hgrants : m.world.grants 0 = false ∨ 0x10000 ≤ m.world.disk.next) :
    KeepsContents gap resolve path mode file m ↔
      file.bytes = [] ∨ 0x10000 ≤ m.world.disk.next ∨ m.world.grants 1 = false := by
  obtain ⟨e, m₁, hcall, hworld, hcan₁⟩ := open_of_not gap resolve hcan hlen
    hgrants (parseMode mode).dosMode
  have hgrants₁ : m₁.world.grants 0 = m.world.grants 1 := by
    rw [hworld, grants_of_tail]
  have hnext₁ : m₁.world.disk.next = m.world.disk.next := by rw [hworld]
  by_cases hcreat : m₁.world.grants 0 = false ∨ 0x10000 ≤ m₁.world.disk.next
  · obtain ⟨e', m₂, hcall₂, hworld₂⟩ := creat_of_not gap resolve hcan₁ hlen
      hcreat
    have happend : openAppend (dosWorld gap resolve) path (parseMode mode).dosMode m =
        (.error e', m₂) := by
      simp [openAppend, hcall, hcall₂]
    rw [hgrants₁, hnext₁] at hcreat
    have hstored : m₂.world.disk.files (resolve path.bytes) = some file.bytes := by
      rw [hworld₂, hworld]
      exact hfile
    exact iff_of_true (keepsContents_of_error gap resolve hmode happend hstored)
      (.inr hcreat.symm)
  · obtain ⟨hgranted, hnext⟩ := not_or.mp hcreat
    rw [Bool.not_eq_false] at hgranted
    rw [Nat.not_le] at hnext
    obtain ⟨m₂, hcall₂, hworld₂, hm₂⟩ := creat_of_grants gap resolve hcan₁
      hlen hgranted hnext
    have hempty : m₂.world.disk.contents (resolve path.bytes) = [] := by
      simp [hworld₂, Disk.create, Disk.contents]
    obtain ⟨hsame, -⟩ := seekEnd_spec gap resolve hm₂ ⟨[], by decide⟩ hempty
    have hempty' := (hsame (resolve path.bytes)).trans hempty
    have happend : openAppend (dosWorld gap resolve) path (parseMode mode).dosMode m =
        (.ok m₁.world.disk.next, seekEnd (dosWorld gap resolve) m₁.world.disk.next m₂) := by
      simp [openAppend, hcall, hcall₂]
    rw [hgrants₁] at hgranted
    rw [hnext₁] at hnext
    rw [keepsContents_of_ok gap resolve hmode happend]
    simp only [hgranted, Bool.true_eq_false, Nat.not_le.mpr hnext, or_false]
    constructor
    · intro hkeeps
      have hstored := hkeeps _ (.refl _)
      rwa [hempty', List.prefix_nil] at hstored
    · intro hnil m'' _
      rw [hnil]
      exact List.nil_prefix

/-- Opening to append and writing never changes the old contents exactly under
`AppendSafe`. -/
theorem builtinOpen_append_keeps_iff {path : CString} {mode : List Char} {file : DosFile}
    (hmode : SelectsAppend mode)
    (hfile : m.world.disk.files (resolve path.bytes) = some file.bytes) :
    KeepsContents gap resolve path mode file m ↔ AppendSafe path mode file m := by
  unfold AppendSafe
  by_cases hreach : ¬CanCall m ∨ 1024 ≤ path.bytes.length
  · obtain ⟨m₁, hcall, hworld, hreach₁⟩ := pathCall_of_not_reached gap resolve
      (openRegs m (parseMode mode).dosMode) hreach
    obtain ⟨m₂, hcall₂, hworld₂, -⟩ := pathCall_of_not_reached gap resolve (creatRegs m₁) hreach₁
    have happend : openAppend (dosWorld gap resolve) path (parseMode mode).dosMode m =
        (.error 0, m₂) := by
      simp [openAppend, dosInt21Open, dosInt21Creat, hcall, hcall₂]
    refine iff_of_true
      (keepsContents_of_error gap resolve hmode happend (by rw [hworld₂, hworld]; exact hfile)) ?_
    exact hreach.imp_right .inl
  · obtain ⟨hcan, hlen⟩ := not_or.mp hreach
    rw [not_not] at hcan
    rw [Nat.not_le] at hlen
    simp only [hcan, not_true_eq_false, Nat.not_le.mpr hlen, false_or]
    by_cases hopen : m.world.grants 0 = false ∨ 0x10000 ≤ m.world.disk.next
    · rw [keepsContents_of_not_opened gap resolve hmode hfile hcan hlen hopen]
      cases hgrants : m.world.grants 0 with
      | false => simp [or_left_comm]
      | true => simp [hopen.resolve_left (by simp [hgrants])]
    · obtain ⟨hgrants, hnext⟩ := not_or.mp hopen
      rw [Bool.not_eq_false] at hgrants
      rw [Nat.not_le] at hnext
      rw [keepsContents_of_opened gap resolve hmode hfile hcan hlen hnext hgrants]
      simp [hgrants, Nat.not_le.mpr hnext]

/-- A disk whose only file holds one byte. -/
def oneByte : Lib.Files.Disk Unit UInt8 where
  files _ := some [7]
  handles _ := none
  next := 5

/-- DOS refuses the open for lack of a sharing lock and grants the creat. -/
theorem builtinOpen_append_truncates :
    ¬KeepsContents (fun _ => 0) (fun _ => ()) ⟨[0x41], by simp⟩ ['a'] ⟨[7], by decide⟩
      (booted ⟨oneByte, [.served (.fail 32)]⟩) := by
  intro hkeeps
  revert hkeeps
  rw [keepsContents_of_not_opened _ _ (by decide) rfl ⟨.inl rfl, rfl⟩ (by decide) (.inl rfl)]
  decide

theorem builtinOpen_append_keeps_iff_oneByte :
    KeepsContents (fun _ => 0) (fun _ => ()) ⟨[0x41], by simp⟩ ['a', 'b'] ⟨[7], by decide⟩
        (booted ⟨oneByte, []⟩) ↔
      AppendSafe ⟨[0x41], by simp⟩ ['a', 'b'] ⟨[7], by decide⟩
        (booted (⟨oneByte, []⟩ : DosState Unit)) :=
  builtinOpen_append_keeps_iff _ _ ⟨by decide, by decide⟩ rfl

end FreedosMicroPython.Dos.Append
