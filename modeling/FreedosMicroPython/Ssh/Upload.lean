import Mathlib.Algebra.Ring.Nat
import FreedosMicroPython.Ssh.Scp
/-!
# Sending a file over SCP

The writes of `ssh_session_scp_send` with the bytes it passes to the channel. Its
data loop raises at an error, but the loop that writes the terminator leaves at
one, and the call returns then as well.
-/

namespace FreedosMicroPython.Ssh.Upload

open FreedosMicroPython.Ssh.Channel FreedosMicroPython.Ssh.Objects FreedosMicroPython.Ssh.Scp

/-! ## The writes -/

def taken : WriteResult → Nat
  | .ok n => n
  | .error _ => 0

/-- A call of `libssh2_channel_write`: the bytes it is given, and its answer. -/
structure Write where
  buf : List UInt8
  answer : WriteResult
  deriving DecidableEq

namespace Write

variable (w : Write)

def accepted : List UInt8 := w.buf.take (taken w.answer)

/-- The channel takes no more than it is given. -/
def Fits : Prop := taken w.answer ≤ w.buf.length

instance : DecidablePred Fits := fun w =>
  inferInstanceAs (Decidable (taken w.answer ≤ w.buf.length))

end Write

def acceptedBy (ws : List Write) : List UInt8 := ws.flatMap Write.accepted

/-- The calls of the data loop when `p` is still to be written. -/
def dataWrites : List UInt8 → List WriteResult → List Write
  | [], _ => []
  | _ :: _, [] => []
  | b :: p, r :: rs =>
      match r with
      | .error .eagain => ⟨b :: p, r⟩ :: dataWrites (b :: p) rs
      | .error _ => [⟨b :: p, r⟩]
      | .ok n => ⟨b :: p, r⟩ :: dataWrites ((b :: p).drop n) rs

def nulWrites : List WriteResult → List Write
  | [] => []
  | r :: rs => if r = .error .eagain then ⟨[0], r⟩ :: nulWrites rs else [⟨[0], r⟩]

/-- All calls of `ssh_session_scp_send`, the terminator after the data. -/
def scpWrites (data : List UInt8) (writes : List WriteResult) : List Write :=
  dataWrites data writes ++
    match scpSendLoop data.length writes with
    | (.returned (), rest, _) => nulWrites rest
    | _ => []

theorem dataWrites_answers (p : List UInt8) (rs : List WriteResult) :
    (dataWrites p rs).map Write.answer ++ (scpSendLoop p.length rs).2.1 = rs := by
  induction rs generalizing p with
  | nil => cases p <;> simp [dataWrites, scpSendLoop]
  | cons r rs ih =>
      cases p with
      | nil => simp [dataWrites, scpSendLoop]
      | cons b p =>
          cases r with
          | ok n => simpa [dataWrites, scpSendLoop] using ih ((b :: p).drop n)
          | error e =>
              cases e with
              | eagain => simpa [dataWrites, scpSendLoop] using ih (b :: p)
              | _ => simp [dataWrites, scpSendLoop]

theorem nulWrites_answers (rs : List WriteResult) : (nulWrites rs).map Write.answer <+: rs := by
  induction rs with
  | nil => simp [nulWrites]
  | cons r rs ih =>
      unfold nulWrites
      split <;> simp [ih]

theorem scpWrites_answers (data : List UInt8) (writes : List WriteResult) :
    (scpWrites data writes).map Write.answer <+: writes := by
  have hdata := dataWrites_answers data writes
  unfold scpWrites
  rcases hloop : scpSendLoop data.length writes with ⟨out, rest, fns⟩
  rw [hloop] at hdata
  have happend {ws : List Write} (hws : ws.map Write.answer <+: rest) :
      (dataWrites data writes ++ ws).map Write.answer <+: writes := by
    have hboth := (List.prefix_append_right_inj ((dataWrites data writes).map Write.answer)).mpr hws
    rwa [hdata, ← List.map_append] at hboth
  cases out with
  | returned value => exact happend (nulWrites_answers rest)
  | _ => exact happend List.nil_prefix

/-! ## Schedules -/

/-- The answer to the terminator, once `len` bytes have been taken, is that it has been
taken: the first answer then other than `EAGAIN`, where no other error came before. -/
def TerminatorTaken (len : Nat) (writes : List WriteResult) : Prop :=
  ∀ pre r post, writes = pre ++ r :: post → (pre.map taken).sum = len →
    (∀ e, .error e ∈ pre → e = .eagain) → r ≠ .error .eagain → r = .ok 1

def GoesOn (r : WriteResult) : Prop := (∃ n, r = .ok n) ∨ r = .error .eagain

theorem terminatorTaken_nil (len : Nat) : TerminatorTaken len [] := by
  intro pre r post hsplit
  simp at hsplit

theorem terminatorTaken_cons {len n : Nat} {r : WriteResult} {rs : List WriteResult}
    (hr : GoesOn r) (hn : taken r + n = len)
    (hfirst : len = 0 → r = .error .eagain) :
    TerminatorTaken len (r :: rs) ↔ TerminatorTaken n rs := by
  constructor
  · intro h pre r' post hsplit hsum herrors hr'
    refine h (r :: pre) r' post (by simp [hsplit]) (by simpa [hsum] using hn) ?_ hr'
    intro e hmem
    rcases List.mem_cons.mp hmem with heq | hmem
    · rcases hr with ⟨k, rfl⟩ | rfl
      · cases heq
      · exact Except.error.inj heq
    · exact herrors e hmem
  · intro h pre r' post hsplit hsum herrors hr'
    cases pre with
    | nil =>
        obtain ⟨rfl, -⟩ := List.cons.inj hsplit
        exact absurd (hfirst (by simpa using hsum.symm)) hr'
    | cons r'' pre =>
        obtain ⟨rfl, hrs⟩ := List.cons.inj hsplit
        rw [List.map_cons, List.sum_cons] at hsum
        exact h pre r' post hrs (by omega) (fun e hmem => herrors e (by simp [hmem])) hr'

theorem terminatorTaken_error {len : Nat} (hlen : 0 < len) {e : LibError} (he : e ≠ .eagain)
    (rs : List WriteResult) : TerminatorTaken len (.error e :: rs) := by
  intro pre r post hsplit hsum herrors hr
  cases pre with
  | nil =>
      have hzero : 0 = len := by simpa using hsum
      omega
  | cons r' pre =>
      obtain ⟨rfl, -⟩ := List.cons.inj hsplit
      exact absurd (herrors e (by simp)) he

theorem terminatorTaken_zero {r : WriteResult} (hr : r ≠ .error .eagain) (rs : List WriteResult) :
    TerminatorTaken 0 (r :: rs) ↔ r = .ok 1 := by
  constructor
  · intro h
    exact h [] r rs rfl rfl (by simp) hr
  · rintro rfl pre r' post hsplit hsum - -
    cases pre with
    | nil => exact (List.cons.inj hsplit).1.symm
    | cons r'' pre =>
        obtain ⟨rfl, -⟩ := List.cons.inj hsplit
        simp [taken] at hsum

/-! ## The loops -/

def Returns {α : Type} (out : Outcome α) : Prop := ∃ value, out = .returned value

theorem returns_map {α β : Type} (f : α → β) (out : Outcome α) :
    Returns (out.map f) ↔ Returns out := by
  cases out <;> simp [Returns, Outcome.map]

theorem scpSendNul_cons {r : WriteResult} (hr : r ≠ .error .eagain) (rs : List WriteResult) :
    (scpSendNul (r :: rs)).1 = .returned () := by
  cases r with
  | ok n => rfl
  | error e =>
      cases e with
      | eagain => exact absurd rfl hr
      | _ => rfl

theorem accepted_nul_iff {r : WriteResult} (hfit : taken r ≤ 1) :
    (Write.mk [0] r).accepted = [0] ↔ r = .ok 1 := by
  cases r with
  | ok n =>
      have hn : n ≤ 1 := hfit
      rcases (show n = 0 ∨ n = 1 by omega) with rfl | rfl <;> simp [Write.accepted, taken]
  | error e => simp [Write.accepted, taken]

/-- Only the count 1 makes the loop of the terminator leave with the NUL accepted. -/
theorem scpSendNul_complete_iff {rs : List WriteResult} (hfits : ∀ w ∈ nulWrites rs, w.Fits) :
    (Returns (scpSendNul rs).1 → acceptedBy (nulWrites rs) = [0]) ↔ TerminatorTaken 0 rs := by
  induction rs with
  | nil => simp [scpSendNul, Returns, terminatorTaken_nil]
  | cons r rs ih =>
      by_cases hr : r = .error .eagain
      · have hrest := ih fun w hw => hfits w (by simp [nulWrites, hr, hw])
        rw [terminatorTaken_cons (n := 0) (.inr hr) (by simp [hr, taken]) (fun _ => hr), ← hrest]
        simp [hr, scpSendNul, nulWrites, acceptedBy, Write.accepted, taken]
      · have hfit : taken r ≤ 1 := by
          simpa [nulWrites, hr, Write.Fits] using hfits
        have hreturns : Returns (scpSendNul (r :: rs)).1 := ⟨(), scpSendNul_cons hr rs⟩
        rw [terminatorTaken_zero hr, ← accepted_nul_iff hfit]
        simp [hreturns, nulWrites, hr, acceptedBy]

theorem scpWrites_nil (writes : List WriteResult) : scpWrites [] writes = nulWrites writes := by
  cases writes <;> rfl

theorem scpSent_zero (writes : List WriteResult) :
    Returns (scpSent 0 writes).1 ↔ Returns (scpSendNul writes).1 := by
  have hloop : scpSendLoop 0 writes = (.returned (), writes, []) := by cases writes <;> rfl
  rw [scpSent, hloop]
  exact returns_map _ _

theorem dataWrites_cons {b : UInt8} {p : List UInt8} {r : WriteResult} (hr : GoesOn r)
    (rs : List WriteResult) :
    dataWrites (b :: p) (r :: rs) = ⟨b :: p, r⟩ :: dataWrites ((b :: p).drop (taken r)) rs := by
  rcases hr with ⟨n, rfl⟩ | rfl <;> rfl

theorem scpSendLoop_cons {m : Nat} {r : WriteResult} (hr : GoesOn r) (rs : List WriteResult) :
    scpSendLoop (m + 1) (r :: rs) =
      ((scpSendLoop (m + 1 - taken r) rs).1, (scpSendLoop (m + 1 - taken r) rs).2.1,
        .channelWrite :: (scpSendLoop (m + 1 - taken r) rs).2.2) := by
  rcases hr with ⟨n, rfl⟩ | rfl <;> rfl

theorem scpWrites_cons {b : UInt8} {p : List UInt8} {r : WriteResult} (hr : GoesOn r)
    (rs : List WriteResult) :
    scpWrites (b :: p) (r :: rs) = ⟨b :: p, r⟩ :: scpWrites ((b :: p).drop (taken r)) rs := by
  unfold scpWrites
  rw [dataWrites_cons hr, List.length_cons, scpSendLoop_cons hr, List.length_drop,
    List.length_cons, List.cons_append]
  rcases scpSendLoop (p.length + 1 - taken r) rs with ⟨out, rest, fns⟩
  cases out <;> rfl

theorem scpSent_cons {m : Nat} {r : WriteResult} (hr : GoesOn r) (rs : List WriteResult) :
    Returns (scpSent (m + 1) (r :: rs)).1 ↔ Returns (scpSent (m + 1 - taken r) rs).1 := by
  unfold scpSent
  rw [scpSendLoop_cons hr]
  rcases scpSendLoop (m + 1 - taken r) rs with ⟨out, rest, fns⟩
  cases out with
  | returned value => exact (returns_map _ _).trans (returns_map _ _).symm
  | _ => simp [Returns]

theorem scpSent_error {m : Nat} {e : LibError} (he : e ≠ .eagain) (rs : List WriteResult) :
    ¬Returns (scpSent (m + 1) (.error e :: rs)).1 := by
  cases e with
  | eagain => exact absurd rfl he
  | _ => simp [scpSent, scpSendLoop, Returns]

/-- The bytes of the data are accepted one by one, and then the terminator decides. -/
theorem scpSent_complete_iff {p : List UInt8} {rs : List WriteResult}
    (hfits : ∀ w ∈ scpWrites p rs, w.Fits) :
    (Returns (scpSent p.length rs).1 → acceptedBy (scpWrites p rs) = p ++ [0]) ↔
      TerminatorTaken p.length rs := by
  induction rs generalizing p with
  | nil =>
      cases p <;> simp [scpSent, scpSendLoop, scpSendNul, Outcome.map, Returns, terminatorTaken_nil]
  | cons r rs ih =>
      cases p with
      | nil =>
          rw [scpWrites_nil] at hfits ⊢
          rw [List.length_nil, scpSent_zero]
          exact scpSendNul_complete_iff hfits
      | cons b p =>
          by_cases hr : GoesOn r
          · rw [scpWrites_cons hr] at hfits ⊢
            have hfit : taken r ≤ (b :: p).length := hfits ⟨b :: p, r⟩ (by simp)
            have hrest := ih fun w hw => hfits w (List.mem_cons_of_mem _ hw)
            have hlength : ((b :: p).drop (taken r)).length = p.length + 1 - taken r := by simp
            rw [hlength] at hrest
            rw [List.length_cons, scpSent_cons hr,
              terminatorTaken_cons (n := p.length + 1 - taken r) hr
                (by rw [List.length_cons] at hfit; omega) (by simp), ← hrest]
            refine imp_congr_right fun _ => ?_
            have hsplit : (b :: p) ++ [0] =
                (b :: p).take (taken r) ++ ((b :: p).drop (taken r) ++ [0]) := by
              rw [← List.append_assoc, List.take_append_drop]
            rw [hsplit]
            exact List.append_right_inj _
          · cases r with
            | ok n => exact absurd (.inl ⟨n, rfl⟩) hr
            | error e =>
                have he : e ≠ .eagain := fun h => hr (.inr (by rw [h]))
                exact iff_of_true (fun h => absurd h (scpSent_error he rs))
                  (terminatorTaken_error (by simp) he rs)

/-! ## The call -/

/-- A call that returns has sent the data and the terminator, each byte once and in
order, exactly when the terminator has been taken. -/
theorem sshSessionScpSend_complete_iff {data : List UInt8} {writes : List WriteResult}
    (hfits : ∀ w ∈ scpWrites data writes, w.Fits) (s : State) (opened : Bool) :
    (∀ n, (sshSessionScpSend s opened data.length writes).1 = .returned n →
        acceptedBy (scpWrites data writes) = data ++ [0]) ↔
      (s.session = true → opened = true → TerminatorTaken data.length writes) := by
  rw [← scpSent_complete_iff hfits]
  unfold sshSessionScpSend
  cases hsession : s.session with
  | false => simp
  | true =>
      cases opened with
      | false => simp [sshRaiseSessionError]
      | true => simp [finish_fst, Returns]

/-- The two bytes of a file are taken one at a time, then the terminator. -/
def wholeUpload : List WriteResult := [.error .eagain, .ok 1, .ok 1, .ok 1]

theorem sshSessionScpSend_complete_iff_whole :
    (∀ n, (sshSessionScpSend created true [1, 2].length wholeUpload).1 = .returned n →
        acceptedBy (scpWrites [1, 2] wholeUpload) = [1, 2] ++ [0]) ↔
      (created.session = true → true = true → TerminatorTaken [1, 2].length wholeUpload) :=
  sshSessionScpSend_complete_iff
    (show ∀ w ∈ scpWrites [1, 2] wholeUpload, w.Fits by decide) created true

def cutUpload : List WriteResult := [.ok 1, .error (.other (-7))]

theorem sshSessionScpSend_loses_terminator :
    ¬((∀ w ∈ scpWrites [1] cutUpload, w.Fits) →
      ∀ n, (sshSessionScpSend created true [1].length cutUpload).1 = .returned n →
        acceptedBy (scpWrites [1] cutUpload) = [1] ++ [0]) := by
  have hreturned : (sshSessionScpSend created true [1].length cutUpload).1 = .returned 1 := by
    decide
  have haccepted : acceptedBy (scpWrites [1] cutUpload) = [1] := by decide
  intro hcomplete
  have hclaim := hcomplete (by decide) 1 hreturned
  simp [haccepted] at hclaim

end FreedosMicroPython.Ssh.Upload
