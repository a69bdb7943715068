import FreedosMicroPython.Dos.Int21
import FreedosMicroPython.Lib.Files
/-!
# A DOS with a disk

The services the file layer uses, over a disk, with a script of outcomes: what
becomes of the next calls. An exhausted script serves every call in full.
-/

namespace FreedosMicroPython.Dos.Disk

open FreedosMicroPython.Lib.Splice FreedosMicroPython.Lib.Files
open FreedosMicroPython.Host FreedosMicroPython.Dos.Int21

variable {κ : Type} [DecidableEq κ]

/-- What becomes of one call: DOS answers it, or the DPMI host refuses it. -/
inductive Outcome where
  | served (a : Answer)
  | refused
  deriving DecidableEq, Repr

structure DosState (κ : Type) where
  disk : Lib.Files.Disk κ UInt8
  script : List Outcome

/-- A file of a FAT file system: its directory entry has 32 bits for the size. -/
structure DosFile where
  bytes : List UInt8
  fits : bytes.length < 0x100000000
  deriving DecidableEq

def Outcome.count (n : Nat) : Outcome → Option Nat
  | .served a => a.count n
  | .refused => none

theorem Outcome.count_le {o : Outcome} {n c : Nat} (h : o.count n = some c) : c ≤ n := by
  cases o with
  | served a => exact Answer.count_le h
  | refused => cases h

namespace DosState

variable (w : DosState κ)

def outcome (i : Nat) : Outcome := (w.script[i]?).getD (.served .full)

def grants (i : Nat) : Bool := ((w.outcome i).count 0).isSome

end DosState

/-! ## The services -/

/-- How many of `n` cells an answer lets through, or its error code. -/
def granted (a : Answer) (n : Nat) : Except Nat Nat :=
  match a with
  | .full => .ok n
  | .short k => .ok (min k n)
  | .fail e => .error e

theorem granted_le {a : Answer} {n c : Nat} (h : granted a n = .ok c) : c ≤ n := by
  cases a <;> simp only [granted, Except.ok.injEq, reduceCtorEq] at h <;> omega

/-- AH=3Dh, open an existing file. `AX` has room for a handle below 65536. -/
def openFile (k : κ) (access : Nat) (a : Answer) (d : Lib.Files.Disk κ UInt8) :
    Except Nat Nat × Lib.Files.Disk κ UInt8 :=
  match granted a 0 with
  | .error e => (.error e, d)
  | .ok _ =>
      if d.files k = none then (.error 2, d)
      else if 0x10000 ≤ d.next then (.error 4, d)
      else (.ok (d.openHandle k access).1, (d.openHandle k access).2)

/-- AH=3Ch, create or truncate a file. -/
def creatFile (k : κ) (a : Answer) (d : Lib.Files.Disk κ UInt8) :
    Except Nat Nat × Lib.Files.Disk κ UInt8 :=
  match granted a 0 with
  | .error e => (.error e, d)
  | .ok _ =>
      if 0x10000 ≤ d.next then (.error 4, d) else (.ok (d.create k 2).1, (d.create k 2).2)

/-- AH=3Fh, read at the position of a handle. -/
def readFile (fd n : Nat) (a : Answer) (d : Lib.Files.Disk κ UInt8) :
    Except Nat (List UInt8) × Lib.Files.Disk κ UInt8 :=
  match d.handles fd with
  | none => (.error 6, d)
  | some h =>
      if h.access = 1 then (.error 5, d)
      else
        match granted a (min n (d.remaining h).length) with
        | .error e => (.error e, d)
        | .ok c => (.ok (d.readHandle fd h c).1, (d.readHandle fd h c).2)

variable (gap : Nat → UInt8)

/-- AH=40h, write at the position of a handle; no bytes cut the file there. -/
def writeFile (fd : Nat) (bs : List UInt8) (a : Answer) (d : Lib.Files.Disk κ UInt8) :
    Except Nat Nat × Lib.Files.Disk κ UInt8 :=
  match d.handles fd with
  | none => (.error 6, d)
  | some h =>
      if h.access = 0 then (.error 5, d)
      else
        match granted a bs.length with
        | .error e => (.error e, d)
        | .ok c =>
            if bs = [] then (.ok 0, d.setFile h.file (some (padTo gap (d.contents h.file) h.pos)))
            else (.ok c, d.writeHandle gap fd h (bs.take c))

theorem writeFile_le {fd : Nat} {bs : List UInt8} {a : Answer} {d : Lib.Files.Disk κ UInt8}
    {x : Nat} (h : (writeFile gap fd bs a d).1 = .ok x) : x ≤ bs.length := by
  unfold writeFile at h
  split at h
  · cases h
  · split at h
    · cases h
    · split at h
      · cases h
      · split at h
        · cases h
          exact Nat.zero_le _
        · cases h
          exact granted_le ‹_›

/-- Where `whence` 0, 1 or 2 counts from. -/
def seekBase (d : Lib.Files.Disk κ UInt8) (h : Handle κ) (whence : Nat) : Nat :=
  if whence = 0 then 0 else if whence = 1 then h.pos else (d.contents h.file).length

/-- AH=42h, move the position of a handle. A position has 32 bits and wraps. -/
def seekFile (fd : Nat) (offset : Int) (whence : Nat) (a : Answer) (d : Lib.Files.Disk κ UInt8) :
    Except Nat Nat × Lib.Files.Disk κ UInt8 :=
  match d.handles fd with
  | none => (.error 6, d)
  | some h =>
      match granted a 0 with
      | .error e => (.error e, d)
      | .ok _ =>
          if 2 < whence then (.error 1, d)
          else
            let pos := toU32 (seekBase d h whence + offset)
            (.ok pos, d.setPos fd h pos)

omit [DecidableEq κ] in
theorem seekFile_lt {fd : Nat} {offset : Int} {whence : Nat} {a : Answer}
    {d : Lib.Files.Disk κ UInt8} {x : Nat} (h : (seekFile fd offset whence a d).1 = .ok x) :
    x < 0x100000000 := by
  unfold seekFile at h
  split at h
  · cases h
  · split at h
    · cases h
    · split at h
      · cases h
      · cases h
        rw [toU32]
        omega

def closeFile (fd : Nat) (a : Answer) (d : Lib.Files.Disk κ UInt8) :
    Except Nat Nat × Lib.Files.Disk κ UInt8 :=
  match d.handles fd with
  | none => (.error 6, d)
  | some _ =>
      match granted a 0 with
      | .error e => (.error e, d)
      | .ok _ => (.ok 0, d.close fd)

/-! ## DOS as the world of the calls -/

variable (resolve : List UInt8 → κ)

def failReply (e : Nat) : Reply := ⟨{ eax := e, flags := 1 }, []⟩

def numReply (r : Except Nat Nat) : Reply :=
  match r with
  | .error e => failReply e
  | .ok x => ⟨{ eax := x % 0x10000, edx := x / 0x10000 }, []⟩

def bytesReply (r : Except Nat (List UInt8)) : Reply :=
  match r with
  | .error e => failReply e
  | .ok bs => ⟨{ eax := bs.length }, bs⟩

def displacement (rm : Rmcs) : Int := toLong (rm.cx * 0x10000 + rm.dx)

def service (rm : Rmcs) (taken : List UInt8) (a : Answer) (d : Lib.Files.Disk κ UInt8) :
    Reply × Lib.Files.Disk κ UInt8 :=
  let path := resolve (taken.takeWhile (· ≠ 0))
  let fd := rm.ebx % 0x10000
  if rm.ah = 0x3D then
    let (r, d) := openFile path (rm.eax % 4) a d
    (numReply r, d)
  else if rm.ah = 0x3C then
    let (r, d) := creatFile path a d
    (numReply r, d)
  else if rm.ah = 0x3E then
    let (r, d) := closeFile fd a d
    (numReply r, d)
  else if rm.ah = 0x3F then
    let (r, d) := readFile fd rm.cx a d
    (bytesReply r, d)
  else if rm.ah = 0x40 then
    let (r, d) := writeFile gap fd taken a d
    (numReply r, d)
  else if rm.ah = 0x42 then
    let (r, d) := seekFile fd (displacement rm) (rm.eax % 256) a d
    (numReply r, d)
  else (failReply 1, d)

def DosState.answer (w : DosState κ) : Answer :=
  match w.script with
  | .served a :: _ => a
  | _ => .full

def serve (rm : Rmcs) (taken : List UInt8) (w : DosState κ) : Reply × DosState κ :=
  let (r, d) := service gap resolve rm taken w.answer w.disk
  (r, ⟨d, w.script.tail⟩)

def refuses (w : DosState κ) : Bool × DosState κ :=
  match w.script with
  | .refused :: rest => (true, { w with script := rest })
  | _ => (false, w)

omit [DecidableEq κ] in
theorem length_readFile {fd n : Nat} {a : Answer} {d : Lib.Files.Disk κ UInt8}
    {bs : List UInt8} (h : (readFile fd n a d).1 = .ok bs) : bs.length ≤ n := by
  unfold readFile at h
  cases hfd : d.handles fd with
  | none => simp [hfd] at h
  | some hd =>
      by_cases hacc : hd.access = 1
      · simp [hfd, hacc] at h
      · cases hc : granted a (min n (d.remaining hd).length) with
        | error e => simp [hfd, hacc, hc] at h
        | ok c =>
            simp only [hfd, hacc, hc, if_false, Except.ok.injEq, Disk.readHandle] at h
            have hle := granted_le hc
            rw [← h, List.length_take]
            omega

theorem stored_numReply (r : Except Nat Nat) : (numReply r).stored = [] := by
  cases r <;> rfl

theorem stored_service (rm : Rmcs) (taken : List UInt8) (a : Answer)
    (d : Lib.Files.Disk κ UInt8) :
    (service gap resolve rm taken a d).1.stored = [] ∧ rm.ah ≠ 0x3F ∨
      rm.ah = 0x3F ∧ (service gap resolve rm taken a d).1 =
        bytesReply (readFile (rm.ebx % 0x10000) rm.cx a d).1 := by
  by_cases hread : rm.ah = 0x3F
  · exact Or.inr ⟨hread, by simp [service, hread]⟩
  · refine Or.inl ⟨?_, hread⟩
    simp only [service, hread, if_false, apply_ite Prod.fst, apply_ite Reply.stored,
      stored_numReply, failReply, ite_self]

theorem stored_serve_le (rm : Rmcs) (taken : List UInt8) (w : DosState κ) :
    (serve gap resolve rm taken w).1.stored.length ≤ if rm.ah = 0x3F then rm.cx else 0 := by
  rcases stored_service gap resolve rm taken w.answer w.disk with ⟨hnil, -⟩ | ⟨hread, heq⟩
  · simp [serve, hnil]
  · rw [if_pos hread]
    cases hr : (readFile (rm.ebx % 0x10000) rm.cx w.answer w.disk).1 with
    | error e => simp [serve, heq, hr, bytesReply, failReply]
    | ok bs => simpa [serve, heq, hr, bytesReply] using length_readFile hr

theorem stored_serve_ax {rm : Rmcs} {taken : List UInt8} {w : DosState κ} (hread : rm.ah = 0x3F)
    (hcarry : (serve gap resolve rm taken w).1.rm.carry = false) :
    (serve gap resolve rm taken w).1.stored.length = (serve gap resolve rm taken w).1.rm.ax := by
  rcases stored_service gap resolve rm taken w.answer w.disk with ⟨-, hne⟩ | ⟨-, heq⟩
  · exact absurd hread hne
  · cases hr : (readFile (rm.ebx % 0x10000) rm.cx w.answer w.disk).1 with
    | error e => simp [serve, heq, hr, bytesReply, failReply, Rmcs.carry] at hcarry
    | ok bs =>
        have hlen := length_readFile hr
        have hcx : rm.cx < 0x10000 := Nat.mod_lt _ (by decide)
        simp only [serve, heq, hr, bytesReply, Rmcs.ax]
        omega

/-- DOS and a DPMI host without real-mode selectors: a thunk is armed through the
address of its segment. -/
def dosWorld : World (DosState κ) where
  dpmi0002 _ s := (none, s)
  dpmi0006 _ s := (none, s)
  readsBack _ _ := true
  dpmi0301 _ := refuses
  int21 := serve gap resolve
  stored_le := stored_serve_le gap resolve
  stored_ax _ _ _ := stored_serve_ax gap resolve

end FreedosMicroPython.Dos.Disk
