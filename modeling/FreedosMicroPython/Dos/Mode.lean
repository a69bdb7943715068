import FreedosMicroPython.Dos.Append
/-!
# The mode of `open`

The loop of `uc386dos_builtin_open` over its mode string keeps the access mode that it
saw last. For which orders of the same characters DOS gets the same request, and when a
`+` yields a handle for reading and writing.
-/

namespace FreedosMicroPython.Dos.Mode

open FreedosMicroPython.Lib.Files FreedosMicroPython.Host FreedosMicroPython.Runtime
open FreedosMicroPython.Dos.Int21 FreedosMicroPython.Dos.Disk FreedosMicroPython.Dos.Syscall
open FreedosMicroPython.Dos.File FreedosMicroPython.Dos.Append

/-! ## Mode strings -/

inductive Letter where
  | r
  | w
  | a
  deriving DecidableEq, Repr

namespace Letter

def char : Letter → Char
  | r => 'r'
  | w => 'w'
  | a => 'a'

def dosMode : Letter → Nat
  | r => 0
  | w => 1
  | a => 1

end Letter

def IsModifier (c : Char) : Prop := c = '+' ∨ c = 'b' ∨ c = 't'

/-- One letter with modifiers before and behind it, not both `b` and `t`. -/
structure ModeString where
  front : List Char
  letter : Letter
  back : List Char
  modifiers : ∀ c ∈ front ++ back, IsModifier c
  unmixed : 'b' ∉ front ++ back ∨ 't' ∉ front ++ back

def ModeString.chars (s : ModeString) : List Char := s.front ++ s.letter.char :: s.back

/-! ## What the loop chooses -/

inductive Request where
  | creat
  | append (dosMode : Nat)
  | open_ (dosMode : Nat)
  deriving DecidableEq, Repr

def request (mode : File.Mode) : Request :=
  if mode.wantTrunc then .creat
  else if mode.wantCreate then .append mode.dosMode
  else .open_ mode.dosMode

section
variable {σ : Type} (d : World σ)

def Request.send (fname : CString) (m : Machine σ) : Request → Except Nat Nat × Machine σ
  | creat => dosInt21Creat d quietCall fname m
  | append dosMode => openAppend d fname dosMode m
  | open_ dosMode => dosInt21Open d quietCall fname dosMode m

theorem uc386dosBuiltinOpen_eq (fname : CString) (s : List Char) (m : Machine σ) :
    uc386dosBuiltinOpen d fname (some s) m =
      match (request (parseMode s)).send d fname m with
      | (.error err, m) => (.error (openErrno err), m)
      | (.ok fd, m) => (.ok ⟨(parseMode s).type, fd⟩, m) := by
  have hsend : (request (parseMode s)).send d fname m =
      if (parseMode s).wantTrunc then dosInt21Creat d quietCall fname m
      else if (parseMode s).wantCreate then openAppend d fname (parseMode s).dosMode m
      else dosInt21Open d quietCall fname (parseMode s).dosMode m := by
    unfold request
    split
    · rfl
    · split <;> rfl
  rcases hcall : (request (parseMode s)).send d fname m with ⟨fd, m'⟩
  rw [hcall] at hsend
  simp only [uc386dosBuiltinOpen, Option.getD_some, ← hsend]
  cases fd <;> rfl

end

/-! ## The loop -/

theorem dosMode_modifiers {l : List Char} (hl : ∀ c ∈ l, IsModifier c) (mode : File.Mode) :
    (l.foldl Mode.char mode).dosMode = if '+' ∈ l then 2 else mode.dosMode := by
  induction l generalizing mode with
  | nil => simp
  | cons c l ih =>
      rw [List.foldl_cons, ih fun c' hc' => hl c' (List.mem_cons_of_mem _ hc')]
      rcases hl c (by simp) with rfl | rfl | rfl <;> simp [Mode.char]

theorem type_char (mode : File.Mode) (c : Char) :
    (mode.char c).type =
      if c = 'b' then .fileio else if c = 't' then .textio else mode.type := by
  unfold Mode.char
  split <;> simp_all

theorem type_foldl_of_not_t {l : List Char} (hl : 't' ∉ l) (mode : File.Mode) :
    (l.foldl Mode.char mode).type = if 'b' ∈ l then .fileio else mode.type := by
  induction l generalizing mode with
  | nil => simp
  | cons c l ih =>
      rw [List.mem_cons, not_or] at hl
      rw [List.foldl_cons, ih hl.2, type_char, if_neg (Ne.symm hl.1)]
      by_cases hb : 'b' ∈ l
      · simp [hb]
      · simp [hb, eq_comm]

theorem type_foldl_of_not_b {l : List Char} (hl : 'b' ∉ l) {mode : File.Mode}
    (htext : mode.type = .textio) : (l.foldl Mode.char mode).type = .textio := by
  induction l generalizing mode with
  | nil => exact htext
  | cons c l ih =>
      rw [List.mem_cons, not_or] at hl
      refine ih hl.2 ?_
      rw [type_char, if_neg (Ne.symm hl.1), htext, ite_self]

namespace ModeString

variable (s : ModeString)

theorem modifier_ne_letter {c : Char} (hc : IsModifier c) (letter : Letter) : c ≠ letter.char := by
  rcases hc with rfl | rfl | rfl <;> cases letter <;> decide

theorem mem_chars {c : Char} : c ∈ s.chars ↔ c ∈ s.front ++ s.back ∨ c = s.letter.char := by
  simp only [chars, List.mem_append, List.mem_cons]
  tauto

theorem letter_mem_iff (letter : Letter) : letter.char ∈ s.chars ↔ letter = s.letter := by
  rw [mem_chars]
  constructor
  · rintro (hmem | heq)
    · exact absurd rfl (modifier_ne_letter (s.modifiers _ hmem) letter)
    · revert heq
      cases letter <;> cases s.letter <;> decide
  · rintro rfl
    exact .inr rfl

theorem dosMode_parseMode :
    (parseMode s.chars).dosMode = if '+' ∈ s.back then 2 else s.letter.dosMode := by
  have hback : ∀ c ∈ s.back, IsModifier c := fun c hc => s.modifiers c (by simp [hc])
  rw [parseMode, chars, List.foldl_append, List.foldl_cons, dosMode_modifiers hback]
  cases s.letter <;> rfl

theorem type_parseMode : (parseMode s.chars).type = if 'b' ∈ s.chars then .fileio else .textio := by
  have hchars {c : Char} (hc : ∀ letter : Letter, c ≠ letter.char) (h : c ∉ s.front ++ s.back) :
      c ∉ s.chars := by
    rw [mem_chars]
    exact not_or.mpr ⟨h, hc _⟩
  rcases s.unmixed with hb | ht
  · have hb' : 'b' ∉ s.chars := hchars (by intro l; cases l <;> decide) hb
    rw [if_neg hb']
    exact type_foldl_of_not_b hb' rfl
  · exact type_foldl_of_not_t (hchars (by intro l; cases l <;> decide) ht) {}

theorem request_parseMode :
    request (parseMode s.chars) =
      match s.letter with
      | .r => .open_ (if '+' ∈ s.back then 2 else 0)
      | .w => .creat
      | .a => .append (if '+' ∈ s.back then 2 else 1) := by
  have htrunc : (parseMode s.chars).wantTrunc = true ↔ .w = s.letter := by
    rw [parseMode, wantTrunc_foldl, ← s.letter_mem_iff]
    simp [Letter.char]
  have hcreate : (parseMode s.chars).wantCreate = true ↔ .a = s.letter ∨ .w = s.letter := by
    rw [parseMode, wantCreate_foldl, ← s.letter_mem_iff, ← s.letter_mem_iff]
    simp [Letter.char]
  unfold request
  cases hletter : s.letter with
  | r => simp_all [dosMode_parseMode, Letter.dosMode]
  | w => simp_all
  | a => simp_all [dosMode_parseMode, Letter.dosMode]

end ModeString

/-! ## Orders of the same characters -/

def decision (mode : File.Mode) : Request × FileType := (request mode, mode.type)

theorem letter_eq_of_perm {s s' : ModeString} (hperm : s.chars.Perm s'.chars) :
    s.letter = s'.letter :=
  (s'.letter_mem_iff s.letter).mp (hperm.mem_iff.mp ((s.letter_mem_iff s.letter).mpr rfl))

theorem decision_eq_iff {s s' : ModeString} (hperm : s.chars.Perm s'.chars) :
    decision (parseMode s.chars) = decision (parseMode s'.chars) ↔
      s.letter = .w ∨ ('+' ∈ s.back ↔ '+' ∈ s'.back) := by
  have htype : (parseMode s.chars).type = (parseMode s'.chars).type := by
    rw [s.type_parseMode, s'.type_parseMode]
    simp only [hperm.mem_iff]
  rw [decision, decision, Prod.mk.injEq, and_iff_left htype, s.request_parseMode,
    s'.request_parseMode, ← letter_eq_of_perm hperm]
  cases s.letter with
  | w => simp
  | r => by_cases h : '+' ∈ s.back <;> by_cases h' : '+' ∈ s'.back <;> simp [h, h']
  | a => by_cases h : '+' ∈ s.back <;> by_cases h' : '+' ∈ s'.back <;> simp [h, h']

/-! ## The handle -/

variable {κ : Type} [DecidableEq κ] (gap : Nat → UInt8) (resolve : List UInt8 → κ)
variable {m : Machine (DosState κ)}

omit [DecidableEq κ] in
theorem openFile_ok {k : κ} {access fd : Nat} {a : Answer} {d : Lib.Files.Disk κ UInt8}
    (h : (openFile k access a d).1 = .ok fd) :
    fd = d.next ∧ d.next < 0x10000 ∧ (openFile k access a d).2 = (d.openHandle k access).2 := by
  unfold openFile at h ⊢
  cases hgranted : granted a 0 with
  | error e => simp [hgranted] at h
  | ok c =>
      by_cases hk : d.files k = none
      · simp [hgranted, hk] at h
      · by_cases hnext : 0x10000 ≤ d.next
        · simp [hgranted, hk, hnext] at h
        · simp only [hgranted, hk, hnext, if_false, Except.ok.injEq] at h ⊢
          exact ⟨h.symm, Nat.lt_of_not_le hnext, trivial⟩

theorem creatFile_ok {k : κ} {fd : Nat} {a : Answer} {d : Lib.Files.Disk κ UInt8}
    (h : (creatFile k a d).1 = .ok fd) :
    fd = d.next ∧ d.next < 0x10000 ∧ (creatFile k a d).2 = (d.create k 2).2 := by
  unfold creatFile at h ⊢
  cases hgranted : granted a 0 with
  | error e => simp [hgranted] at h
  | ok c =>
      by_cases hnext : 0x10000 ≤ d.next
      · simp [hgranted, hnext] at h
      · simp only [hgranted, hnext, if_false, Except.ok.injEq] at h ⊢
        exact ⟨h.symm, Nat.lt_of_not_le hnext, trivial⟩

omit [DecidableEq κ] in
theorem syscall_ok {β : Type} {w : DosState κ} {x : β}
    {f : Answer → Lib.Files.Disk κ UInt8 → Except Nat β × Lib.Files.Disk κ UInt8}
    (h : (syscall f w).1 = .ok x) :
    ∃ a, (f a w.disk).1 = .ok x ∧ (syscall f w).2.disk = (f a w.disk).2 := by
  cases hout : w.outcome 0 with
  | refused => simp [syscall_of_refused hout] at h
  | served a =>
      rw [syscall_of_served hout] at h ⊢
      refine ⟨a, ?_, rfl⟩
      cases hr : (f a w.disk).1 with
      | error e => simp [hr, Except.mapError] at h
      | ok y => simpa [hr, Except.mapError] using h

theorem canCall_of_pathCall {path : CString} {regs : Rmcs} {fd : Nat} {m' : Machine (DosState κ)}
    (hcall : pathCall (dosWorld gap resolve) quietCall path regs m = (.ok fd, m')) :
    CanCall m ∧ path.bytes.length < 1024 := by
  by_contra hnot
  have hreached : ¬CanCall m ∨ 1024 ≤ path.bytes.length := by
    rw [not_and_or, Nat.not_lt] at hnot
    exact hnot
  obtain ⟨m'', herror, -⟩ := pathCall_of_not_reached gap resolve regs hreached
  rw [hcall] at herror
  cases congrArg Prod.fst herror

theorem open_ok {path : CString} {mode fd : Nat} {m' : Machine (DosState κ)}
    (hcall : dosInt21Open (dosWorld gap resolve) quietCall path mode m = (.ok fd, m')) :
    Open fd ⟨resolve path.bytes, 0, mode % 4⟩ m' := by
  obtain ⟨hcan, hlen⟩ := canCall_of_pathCall gap resolve hcall
  obtain ⟨hresult, hworld, hcan'⟩ := dosInt21Open_performs gap resolve hcan hlen mode
  rw [hcall] at hresult hworld hcan'
  obtain ⟨a, hok, hdisk⟩ := syscall_ok hresult.symm
  obtain ⟨rfl, hlt, hopened⟩ := openFile_ok hok
  refine ⟨hcan', hlt, ?_⟩
  rw [show m'.world.disk = _ from (congrArg DosState.disk hworld).trans hdisk, hopened]
  simp

theorem creat_ok {path : CString} {fd : Nat} {m' : Machine (DosState κ)}
    (hcall : dosInt21Creat (dosWorld gap resolve) quietCall path m = (.ok fd, m')) :
    Open fd ⟨resolve path.bytes, 0, 2⟩ m' := by
  obtain ⟨hcan, hlen⟩ := canCall_of_pathCall gap resolve hcall
  obtain ⟨hresult, hworld, hcan'⟩ := dosInt21Creat_performs gap resolve hcan hlen
  rw [hcall] at hresult hworld hcan'
  obtain ⟨a, hok, hdisk⟩ := syscall_ok hresult.symm
  obtain ⟨rfl, hlt, hopened⟩ := creatFile_ok hok
  refine ⟨hcan', hlt, ?_⟩
  rw [show m'.world.disk = _ from (congrArg DosState.disk hworld).trans hdisk, hopened]
  simp [Disk.create]

theorem seekEnd_access {fd : Nat} {h : Handle κ} (hm : Open fd h m) :
    ∃ pos, Open fd { h with pos := pos } (seekEnd (dosWorld gap resolve) fd m) := by
  obtain ⟨r, m', hcall, -, hm'⟩ := lseek_either gap resolve hm 0 2 (by decide) rfl
  rw [seekEnd, hcall]
  exact ⟨_, hm'⟩

/-- Whatever DOS answers, an object that `open` returns reads and writes. -/
def AlwaysReadWrite (mode : List Char) : Prop :=
  ∀ (path : CString) (m m' : Machine (DosState κ)) (o : FileObj),
    uc386dosBuiltinOpen (dosWorld gap resolve) path (some mode) m = (.ok o, m') →
    ∃ fd h, o.fd = (fd : Nat) ∧ Open fd h m' ∧ h.access = 2

theorem openAppend_ok {path : CString} {dosMode fd : Nat} {m' : Machine (DosState κ)}
    (hcall : openAppend (dosWorld gap resolve) path dosMode m = (.ok fd, m')) :
    ∃ h, Open fd h m' ∧ (h.access = dosMode % 4 ∨ h.access = 2) := by
  unfold openAppend at hcall
  rcases hopen : dosInt21Open (dosWorld gap resolve) quietCall path dosMode m with ⟨r, m₁⟩
  rw [hopen] at hcall
  cases r with
  | ok fd₁ =>
      obtain ⟨rfl, rfl⟩ : fd₁ = fd ∧ seekEnd (dosWorld gap resolve) fd₁ m₁ = m' := by
        simpa using hcall
      obtain ⟨pos, hm'⟩ := seekEnd_access gap resolve (open_ok gap resolve hopen)
      exact ⟨_, hm', .inl rfl⟩
  | error e =>
      rcases hcreat : dosInt21Creat (dosWorld gap resolve) quietCall path m₁ with ⟨r, m₂⟩
      simp only [hcreat] at hcall
      cases r with
      | error e' => simp at hcall
      | ok fd₂ =>
          obtain ⟨rfl, rfl⟩ : fd₂ = fd ∧ seekEnd (dosWorld gap resolve) fd₂ m₂ = m' := by
            simpa using hcall
          obtain ⟨pos, hm'⟩ := seekEnd_access gap resolve (creat_ok gap resolve hcreat)
          exact ⟨_, hm', .inr rfl⟩

/-- What a handle allows that was opened by a request with access mode 2, or created. -/
theorem send_ok {q : Request} {path : CString} {fd : Nat} {m' : Machine (DosState κ)}
    (hcall : q.send (dosWorld gap resolve) path m = (.ok fd, m'))
    (hq : q = .creat ∨ q = .append 2 ∨ q = .open_ 2) : ∃ h, Open fd h m' ∧ h.access = 2 := by
  rcases hq with rfl | rfl | rfl
  · exact ⟨_, creat_ok gap resolve hcall, rfl⟩
  · obtain ⟨h, hm', hacc⟩ := openAppend_ok gap resolve hcall
    exact ⟨h, hm', by omega⟩
  · exact ⟨_, open_ok gap resolve hcall, rfl⟩

theorem alwaysReadWrite_of_plus {s : ModeString} (h : s.letter = .w ∨ '+' ∈ s.back) :
    AlwaysReadWrite gap resolve s.chars := by
  intro path m m' o hcall
  have hq : request (parseMode s.chars) = .creat ∨ request (parseMode s.chars) = .append 2 ∨
      request (parseMode s.chars) = .open_ 2 := by
    rw [s.request_parseMode]
    cases hletter : s.letter <;> simp_all
  rw [uc386dosBuiltinOpen_eq] at hcall
  rcases hsend : (request (parseMode s.chars)).send (dosWorld gap resolve) path m with ⟨r, m₁⟩
  rw [hsend] at hcall
  cases r with
  | error e => simp at hcall
  | ok fd =>
      obtain ⟨rfl, rfl⟩ : ⟨(parseMode s.chars).type, fd⟩ = o ∧ m₁ = m' := by simpa using hcall
      obtain ⟨h, hm', hacc⟩ := send_ok gap resolve hsend hq
      exact ⟨fd, h, rfl, hm', hacc⟩

/-- Every path names an empty file, and DOS serves every call. -/
def everywhere (κ : Type) : DosState κ := ⟨⟨fun _ => some [], fun _ => none, 5⟩, []⟩

def emptyPath : CString := ⟨[], by simp⟩

/-- Without a `+` behind its letter a mode opens an existing file with the letter's access. -/
theorem send_everywhere {s : ModeString} (hw : s.letter ≠ .w) (hback : '+' ∉ s.back) :
    ∃ h m', (request (parseMode s.chars)).send (dosWorld gap resolve) emptyPath
        (booted (everywhere κ)) = (.ok 5, m') ∧ Open 5 h m' ∧ h.access = s.letter.dosMode := by
  have hcan : CanCall (booted (everywhere κ)) := ⟨.inl rfl, rfl⟩
  have hlen : emptyPath.bytes.length < 1024 := by decide
  have hnext : (booted (everywhere κ)).world.disk.next < 0x10000 := show 5 < 0x10000 by decide
  obtain ⟨m₁, hcall, -, hm₁⟩ := open_of_grants gap resolve hcan hlen rfl hnext
    (Option.some_ne_none []) s.letter.dosMode
  rw [s.request_parseMode]
  cases hletter : s.letter with
  | r =>
      rw [hletter] at hcall hm₁
      simp only [hback, if_false]
      exact ⟨_, m₁, hcall, hm₁, rfl⟩
  | w => exact absurd hletter hw
  | a =>
      rw [hletter] at hcall hm₁
      obtain ⟨pos, hm'⟩ := seekEnd_access gap resolve hm₁
      simp only [hback, if_false]
      have hopen : dosInt21Open (dosWorld gap resolve) quietCall emptyPath 1
          (booted (everywhere κ)) = (.ok 5, m₁) := hcall
      refine ⟨_, _, ?_, hm', rfl⟩
      rw [Request.send, openAppend, hopen]
      rfl

/-- A `+` yields a handle for reading and writing exactly behind the letter, or with a `w`. -/
theorem alwaysReadWrite_iff (s : ModeString) :
    AlwaysReadWrite gap resolve s.chars ↔ s.letter = .w ∨ '+' ∈ s.back := by
  refine ⟨fun halways => ?_, alwaysReadWrite_of_plus gap resolve⟩
  by_contra hnot
  obtain ⟨hw, hback⟩ := not_or.mp hnot
  obtain ⟨h, m', hsend, hm', hacc⟩ := send_everywhere gap resolve hw hback
  have hopen : uc386dosBuiltinOpen (dosWorld gap resolve) emptyPath (some s.chars)
      (booted (everywhere κ)) = (.ok ⟨(parseMode s.chars).type, (5 : Nat)⟩, m') := by
    rw [uc386dosBuiltinOpen_eq, hsend]
  obtain ⟨fd, h', hfd, hm'', hacc'⟩ := halways _ _ _ _ hopen
  obtain rfl : 5 = fd := Int.ofNat.inj hfd
  have hsame : h' = h := Option.some.inj (hm''.handle.symm.trans hm'.handle)
  rw [hsame, hacc] at hacc'
  revert hacc'
  cases s.letter <;> decide

/-- The same characters in another order decide the same exactly when the letter is a
`w`, or neither order or both have a `+` behind it; and so a `+` makes a handle for
reading and writing. -/
theorem mode_order_iff {s s' : ModeString} (hperm : s.chars.Perm s'.chars) :
    (decision (parseMode s.chars) = decision (parseMode s'.chars) ↔
        s.letter = .w ∨ ('+' ∈ s.back ↔ '+' ∈ s'.back)) ∧
      (('+' ∈ s.chars → AlwaysReadWrite gap resolve s.chars) ↔
        ('+' ∈ s.chars → s.letter = .w ∨ '+' ∈ s.back)) :=
  ⟨decision_eq_iff hperm, imp_congr_right fun _ => alwaysReadWrite_iff gap resolve s⟩

def plusBehind : ModeString where
  front := []
  letter := .r
  back := ['b', '+']
  modifiers := by simp [IsModifier]
  unmixed := by decide

def plusBefore : ModeString where
  front := ['+']
  letter := .r
  back := ['b']
  modifiers := by simp [IsModifier]
  unmixed := by decide

theorem mode_order_iff_plus :
    (decision (parseMode plusBehind.chars) = decision (parseMode plusBefore.chars) ↔
        plusBehind.letter = .w ∨ ('+' ∈ plusBehind.back ↔ '+' ∈ plusBefore.back)) ∧
      (('+' ∈ plusBehind.chars →
          AlwaysReadWrite (κ := Unit) (fun _ => 0) (fun _ => ()) plusBehind.chars) ↔
        ('+' ∈ plusBehind.chars → plusBehind.letter = .w ∨ '+' ∈ plusBehind.back)) :=
  mode_order_iff (fun _ => 0) (fun _ => ())
    (show plusBehind.chars.Perm plusBefore.chars by decide)

/-- `rb+` opens for reading and writing, `+rb` for reading. -/
theorem mode_order_matters :
    ¬(plusBehind.chars.Perm plusBefore.chars →
      decision (parseMode plusBehind.chars) = decision (parseMode plusBefore.chars)) := by
  decide

end FreedosMicroPython.Dos.Mode
