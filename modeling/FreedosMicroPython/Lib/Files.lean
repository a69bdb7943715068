import Mathlib.Logic.Function.Basic
import FreedosMicroPython.Lib.Splice
/-!
# Files and open handles

A disk maps file identities to contents and handle numbers to open files with a
position. The operations are the fault-free ones; whoever answers the calls of a
program (an operating system) decides by an `Answer` which of them happens and
how far.
-/

namespace FreedosMicroPython.Lib.Files

open FreedosMicroPython.Lib.Splice

/-- How one call is answered: in full, with at most `k` cells, or with an error. -/
inductive Answer where
  | full
  | short (k : Nat)
  | fail (code : Nat)
  deriving DecidableEq, Repr

/-- The number of cells an answer lets through of the `n` that could be. -/
def Answer.count (n : Nat) : Answer → Option Nat
  | .full => some n
  | .short k => some (min k n)
  | .fail _ => none

theorem Answer.count_le {a : Answer} {n k : Nat} (h : a.count n = some k) : k ≤ n := by
  cases a with
  | full => exact Nat.le_of_eq (Option.some.inj h).symm
  | short m =>
      have hk : min m n = k := Option.some.inj h
      omega
  | fail code => exact absurd h (by simp [count])

/-- An open file; `access` is 0 for reading, 1 for writing and 2 for both. -/
structure Handle (κ : Type) where
  file : κ
  pos : Nat
  access : Nat
  deriving DecidableEq, Repr

structure Disk (κ α : Type) where
  files : κ → Option (List α)
  handles : Nat → Option (Handle κ)
  next : Nat

namespace Disk

variable {κ α : Type} (d : Disk κ α)

def contents (k : κ) : List α := (d.files k).getD []

def openHandle (k : κ) (access : Nat) : Nat × Disk κ α :=
  (d.next, { d with
    handles := Function.update d.handles d.next (some ⟨k, 0, access⟩)
    next := d.next + 1 })

def setFile [DecidableEq κ] (k : κ) (c : Option (List α)) : Disk κ α :=
  { d with files := Function.update d.files k c }

/-- Create the file, or truncate the one that exists, and open it. -/
def create [DecidableEq κ] (k : κ) (access : Nat) : Nat × Disk κ α :=
  (d.setFile k (some [])).openHandle k access

def setPos (fd : Nat) (h : Handle κ) (pos : Nat) : Disk κ α :=
  { d with handles := Function.update d.handles fd (some { h with pos := pos }) }

def close (fd : Nat) : Disk κ α :=
  { d with handles := Function.update d.handles fd none }

def remaining (h : Handle κ) : List α := (d.contents h.file).drop h.pos

def readHandle (fd : Nat) (h : Handle κ) (n : Nat) : List α × Disk κ α :=
  ((d.remaining h).take n, d.setPos fd h (h.pos + ((d.remaining h).take n).length))

def writeHandle [DecidableEq κ] (gap : Nat → α) (fd : Nat) (h : Handle κ) (bs : List α) :
    Disk κ α :=
  (d.setFile h.file (some (overwrite gap (d.contents h.file) h.pos bs))).setPos fd h
    (h.pos + bs.length)

/-- As `writeHandle`, but storing nothing does not extend the file either. -/
def storeHandle [DecidableEq κ] (gap : Nat → α) (fd : Nat) (h : Handle κ) (bs : List α) :
    Disk κ α :=
  if bs.isEmpty then d else d.writeHandle gap fd h bs

/-! ## What the operations leave alone -/

@[simp] theorem files_openHandle (k : κ) (access : Nat) :
    (d.openHandle k access).2.files = d.files := rfl

@[simp] theorem files_setPos (fd : Nat) (h : Handle κ) (pos : Nat) :
    (d.setPos fd h pos).files = d.files := rfl

@[simp] theorem files_close (fd : Nat) : (d.close fd).files = d.files := rfl

@[simp] theorem files_setFile [DecidableEq κ] (k : κ) (c : Option (List α)) :
    (d.setFile k c).files = Function.update d.files k c := rfl

@[simp] theorem handles_setFile [DecidableEq κ] (k : κ) (c : Option (List α)) :
    (d.setFile k c).handles = d.handles := rfl

@[simp] theorem handles_openHandle (k : κ) (access : Nat) :
    (d.openHandle k access).2.handles = Function.update d.handles d.next (some ⟨k, 0, access⟩) :=
  rfl

@[simp] theorem openHandle_fst (k : κ) (access : Nat) : (d.openHandle k access).1 = d.next := rfl

@[simp] theorem handles_setPos (fd : Nat) (h : Handle κ) (pos : Nat) :
    (d.setPos fd h pos).handles = Function.update d.handles fd (some { h with pos := pos }) := rfl

@[simp] theorem next_openHandle (k : κ) (access : Nat) :
    (d.openHandle k access).2.next = d.next + 1 := rfl

@[simp] theorem next_setFile [DecidableEq κ] (k : κ) (c : Option (List α)) :
    (d.setFile k c).next = d.next := rfl

@[simp] theorem create_fst [DecidableEq κ] (k : κ) (access : Nat) :
    (d.create k access).1 = d.next := rfl

@[simp] theorem setPos_setPos (fd : Nat) (h : Handle κ) (pos pos' : Nat) :
    (d.setPos fd h pos).setPos fd { h with pos := pos } pos' = d.setPos fd h pos' := by
  simp [setPos]

theorem setPos_self {fd : Nat} {h : Handle κ} (hfd : d.handles fd = some h) :
    d.setPos fd h h.pos = d := by
  have hupdate : Function.update d.handles fd (some { h with pos := h.pos }) = d.handles := by
    rw [← hfd, Function.update_eq_self]
  rw [setPos, hupdate]

@[simp] theorem remaining_setPos (fd : Nat) (h h' : Handle κ) (pos : Nat) :
    (d.setPos fd h pos).remaining h' = d.remaining h' := rfl

theorem remaining_advance (h : Handle κ) (n : Nat) :
    d.remaining { h with pos := h.pos + n } = (d.remaining h).drop n := by
  simp [remaining]

@[simp] theorem length_readHandle (fd : Nat) (h : Handle κ) (n : Nat) :
    (d.readHandle fd h n).1.length = min n (d.remaining h).length := List.length_take

theorem readHandle_of_remaining_nil {h : Handle κ} (hrem : d.remaining h = []) (fd n : Nat) :
    d.readHandle fd h n = ([], d.setPos fd h h.pos) := by
  simp [readHandle, hrem]

theorem readHandle_min (fd : Nat) (h : Handle κ) (n : Nat) :
    d.readHandle fd h (min n (d.remaining h).length) = d.readHandle fd h n := by
  simp [readHandle]

/-! ## Adjacent transfers are one transfer -/

theorem readHandle_add (fd : Nat) (h : Handle κ) (n n' : Nat) :
    d.readHandle fd h (n + n') =
      ((d.readHandle fd h n).1 ++ ((d.readHandle fd h n).2.readHandle fd
          { h with pos := h.pos + (d.readHandle fd h n).1.length } n').1,
        ((d.readHandle fd h n).2.readHandle fd
          { h with pos := h.pos + (d.readHandle fd h n).1.length } n').2) := by
  have hdrop : (d.remaining h).drop ((d.remaining h).take n).length = (d.remaining h).drop n := by
    rw [List.length_take]
    rcases Nat.le_total n (d.remaining h).length with hle | hle
    · rw [Nat.min_eq_left hle]
    · rw [Nat.min_eq_right hle, List.drop_length, List.drop_eq_nil_of_le hle]
  have htake : (d.remaining h).take (n + n') =
      (d.remaining h).take n ++ ((d.remaining h).drop n).take n' := List.take_add
  simp only [readHandle, remaining_setPos, remaining_advance, hdrop, setPos_setPos, htake,
    List.length_append, Nat.add_assoc]

theorem writeHandle_append [DecidableEq κ] (gap : Nat → α) (fd : Nat) (h : Handle κ)
    (as bs : List α) :
    (d.writeHandle gap fd h as).writeHandle gap fd { h with pos := h.pos + as.length } bs =
      d.writeHandle gap fd h (as ++ bs) := by
  simp only [writeHandle, setPos, setFile, contents, Function.update_self, Option.getD_some,
    overwrite_overwrite, Function.update_idem, List.length_append, Nat.add_assoc]

@[simp] theorem storeHandle_nil [DecidableEq κ] (gap : Nat → α) (fd : Nat) (h : Handle κ) :
    d.storeHandle gap fd h [] = d := rfl

theorem storeHandle_of_ne_nil [DecidableEq κ] {gap : Nat → α} {fd : Nat} {h : Handle κ}
    {bs : List α} (hbs : bs ≠ []) : d.storeHandle gap fd h bs = d.writeHandle gap fd h bs := by
  simp [storeHandle, hbs]

theorem storeHandle_append [DecidableEq κ] (gap : Nat → α) (fd : Nat) (h : Handle κ)
    (as bs : List α) :
    (d.storeHandle gap fd h as).storeHandle gap fd { h with pos := h.pos + as.length } bs =
      d.storeHandle gap fd h (as ++ bs) := by
  by_cases has : as = []
  · simp [has]
  · by_cases hbs : bs = []
    · simp [hbs]
    · rw [storeHandle_of_ne_nil _ has, storeHandle_of_ne_nil _ hbs, writeHandle_append,
        storeHandle_of_ne_nil _ (by simp [has])]

theorem contents_of_files {k : κ} {c : List α} (h : d.files k = some c) : d.contents k = c := by
  simp [contents, h]

theorem contents_storeHandle_of_empty [DecidableEq κ] {h : Handle κ}
    (hempty : d.contents h.file = []) (hpos : h.pos = 0) (gap : Nat → α) (fd : Nat) (bs : List α) :
    (d.storeHandle gap fd h bs).contents h.file = bs := by
  by_cases hbs : bs = []
  · rw [hbs, storeHandle_nil, hempty]
  · rw [storeHandle_of_ne_nil d hbs, writeHandle, hempty, hpos]
    simpa [contents] using overwrite_at_end gap [] bs

end Disk

end FreedosMicroPython.Lib.Files
