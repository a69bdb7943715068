import FreedosMicroPython.Ssh.Objects
/-!
# Receiving a file over SCP

`ssh_session_scp_recv` has no file size to go by. The theorem says what it makes
of a stream that is cut: a prefix of the file, and the whole file unless one of
the four ways in which it gives up comes before the terminator.
-/

namespace FreedosMicroPython.Ssh.Scp

open FreedosMicroPython.Ssh.Channel FreedosMicroPython.Ssh.Objects

/-! ## Schedules -/

def dataOf (rs : List Read) : List UInt8 := rs.flatMap Read.bytes

@[simp] theorem dataOf_append (rs rs' : List Read) :
    dataOf (rs ++ rs') = dataOf rs ++ dataOf rs' := by
  simp [dataOf]

theorem dataOf_isPrefix (rs rs' : List Read) : dataOf rs <+: dataOf (rs ++ rs') := by
  rw [dataOf_append]
  exact List.prefix_append _ _

@[simp] theorem dataOf_singleton (r : Read) : dataOf [r] = Read.bytes r := by
  simp [dataOf]

def idle (rs : List Read) : Nat :=
  (rs.reverse.takeWhile fun r => r.result = .fail .eagain).length

theorem idle_append_eagain {rs : List Read} {r : Read} (h : r.result = .fail .eagain) :
    idle (rs ++ [r]) = idle rs + 1 := by
  simp [idle, h]

theorem idle_append_data {rs : List Read} {r : Read} {chunk : Chunk} (h : r.result = .data chunk) :
    idle (rs ++ [r]) = 0 := by
  simp [idle, h]

/-- The answer `r` after `rs` makes the receiver return what it has: the end-of-file
flag with data, a 0, an error of the socket, or the 21st `EAGAIN` in a row since some
data. -/
def GivesUp (rs : List Read) (r : Read) : Prop :=
  match r.result with
  | .data _ => r.eof = true
  | .zero => True
  | .fail .eagain => dataOf rs ≠ [] ∧ 20 ≤ idle rs
  | .fail .socketRecv => True
  | .fail .socketDisconnect => True
  | .fail (.other _) => False

/-- The receiver gives up before the whole stream of the file `p` is there. -/
def CutShort (p : List UInt8) (rs : List Read) : Prop :=
  ∃ pre r post, rs = pre ++ r :: post ∧ GivesUp pre r ∧ dataOf (pre ++ [r]) ≠ p ++ [0]

/-! ## The loop -/

/-- What the loop has been through: `emptyPolls` counts the `EAGAIN`s since data. -/
def Polled (pre : List Read) (emptyPolls : Nat) : Prop := dataOf pre ≠ [] → emptyPolls = idle pre

theorem Polled.data {pre : List Read} {r : Read} {chunk : Chunk} (h : r.result = .data chunk) :
    Polled (pre ++ [r]) 0 := fun _ => (idle_append_data h).symm

theorem scpRecvLoop_cons {pre : List Read} {emptyPolls : Nat} (hpolls : Polled pre emptyPolls)
    (r : Read) (rs : List Read) :
    (GivesUp pre r ∧ (scpRecvLoop (dataOf pre) emptyPolls (r :: rs)).1 =
        .returned (dataOf (pre ++ [r]))) ∨
      (∃ code, r.result = .fail (.other code) ∧
        (scpRecvLoop (dataOf pre) emptyPolls (r :: rs)).1 =
          .raised (.other code) "scp_channel_read") ∨
      (¬GivesUp pre r ∧ (∀ code, r.result ≠ .fail (.other code)) ∧
        ∃ polls, Polled (pre ++ [r]) polls ∧
          (scpRecvLoop (dataOf pre) emptyPolls (r :: rs)).1 =
            (scpRecvLoop (dataOf (pre ++ [r])) polls rs).1) := by
  rw [scpRecvLoop, dataOf_append, dataOf_singleton]
  unfold GivesUp Read.bytes
  cases hr : r.result with
  | data chunk =>
      cases heof : r.eof with
      | true => simp
      | false => exact .inr (.inr ⟨by simp, by simp, 0, .data hr, by simp⟩)
  | zero => simp
  | fail e =>
      cases e with
      | eagain =>
          by_cases hnil : dataOf pre = []
          · refine .inr (.inr ⟨by simp [hnil], by simp, emptyPolls, fun h => ?_, by simp [hnil]⟩)
            exact absurd hnil (by simpa [Read.bytes, hr] using h)
          · have hidle := hpolls hnil
            by_cases hmany : 20 ≤ idle pre
            · refine .inl ⟨⟨hnil, hmany⟩, ?_⟩
              simp [hnil, show 20 < emptyPolls + 1 by omega]
            · refine .inr (.inr ⟨by simp [hmany], by simp, emptyPolls + 1, fun _ => ?_, ?_⟩)
              · rw [idle_append_eagain hr, hidle]
              · simp [hnil, show ¬20 < emptyPolls + 1 by omega]
      | socketRecv => simp
      | socketDisconnect => simp
      | other code => exact .inr (.inl ⟨code, rfl, rfl⟩)

/-- The loop returns what has arrived when it gives up, raises at another error,
and otherwise reads on. -/
theorem scpRecvLoop_spec {pre : List Read} {emptyPolls : Nat}
    (hpolls : Polled pre emptyPolls) (rs : List Read) :
    match (scpRecvLoop (dataOf pre) emptyPolls rs).1 with
    | .returned v => ∃ mid r post, rs = mid ++ r :: post ∧ GivesUp (pre ++ mid) r ∧
        v = dataOf (pre ++ mid ++ [r])
    | .badf => False
    | .raised e _ => ∃ code, e = .other code ∧ ∃ r ∈ rs, r.result = .fail e
    | .running => ∀ mid r post, rs = mid ++ r :: post → ¬GivesUp (pre ++ mid) r ∧
        ∀ code, r.result ≠ .fail (.other code) := by
  induction rs generalizing pre emptyPolls with
  | nil => simp [scpRecvLoop]
  | cons r rs ih =>
      rcases scpRecvLoop_cons hpolls r rs with ⟨hup, heq⟩ | ⟨code, hr, heq⟩ |
        ⟨hon, hother, polls, hpolls', heq⟩
      · rw [heq]
        exact ⟨[], r, rs, rfl, by simpa using hup, by simp⟩
      · rw [heq]
        exact ⟨code, rfl, r, by simp, hr⟩
      · rw [heq]
        have hrest := ih hpolls'
        generalize (scpRecvLoop (dataOf (pre ++ [r])) polls rs).1 = out at hrest ⊢
        cases out with
        | returned v =>
            obtain ⟨mid, r', post, rfl, hup, hv⟩ := hrest
            exact ⟨r :: mid, r', post, rfl, by simpa using hup, by simpa using hv⟩
        | badf => exact hrest
        | raised e fallback =>
            obtain ⟨code, he, r', hmem, hr'⟩ := hrest
            exact ⟨code, he, r', by simp [hmem], hr'⟩
        | running =>
            intro mid r' post hsplit
            cases mid with
            | nil =>
                obtain ⟨rfl, -⟩ := List.cons.inj hsplit
                exact ⟨by simpa using hon, hother⟩
            | cons r'' mid =>
                obtain ⟨rfl, hrs⟩ := List.cons.inj hsplit
                simpa using hrest mid r' post hrs

/-! ## The received file -/

/-- The terminator goes, and what is cut before it loses at most a NUL. -/
theorem stripTerminator_prefix {p v : List UInt8} (h : v <+: p ++ [0]) :
    stripTerminator v <+: p ∧ (v = p ++ [0] → stripTerminator v = p) := by
  have hwhole : stripTerminator (p ++ [0]) = p := by
    simp [stripTerminator]
  rcases List.prefix_concat_iff.mp h with rfl | hv
  · exact ⟨by simp [hwhole], fun _ => hwhole⟩
  · refine ⟨?_, fun heq => by rw [heq, hwhole]⟩
    unfold stripTerminator
    split
    · exact (List.dropLast_prefix v).trans hv
    · exact hv

theorem scpReceived_prefix {p : List UInt8} {rs : List Read} (hsent : dataOf rs <+: p ++ [0]) :
    match scpReceived rs with
    | .returned bs => bs <+: p ∧ (bs = p ∨ CutShort p rs)
    | .badf => False
    | .raised e _ => ∃ code, e = .other code ∧ ∃ r ∈ rs, r.result = .fail e
    | .running => ∀ mid r post, rs = mid ++ r :: post → ¬GivesUp mid r ∧
        ∀ code, r.result ≠ .fail (.other code) := by
  have hpolls : Polled [] 0 := fun _ => rfl
  have hspec := scpRecvLoop_spec hpolls rs
  unfold scpReceived
  rw [show dataOf [] = [] from rfl] at hspec
  generalize (scpRecvLoop [] 0 rs).1 = out at hspec
  cases out with
  | returned v =>
      obtain ⟨mid, r, post, rfl, hup, rfl⟩ := hspec
      have harrived : dataOf (mid ++ [r]) <+: dataOf (mid ++ r :: post) := by
        rw [List.append_cons mid r post]
        exact dataOf_isPrefix _ _
      obtain ⟨hreceived, hwhole⟩ := stripTerminator_prefix (harrived.trans hsent)
      refine ⟨hreceived, ?_⟩
      by_cases hall : dataOf (mid ++ [r]) = p ++ [0]
      · exact .inl (hwhole hall)
      · exact .inr ⟨mid, r, post, rfl, hup, hall⟩
  | badf => exact hspec
  | raised e fallback => exact hspec
  | running => exact hspec

theorem finish_fst {α : Type} (s : State) (closing : List Fn) (out : Outcome α × List Fn) :
    (finish s closing out).1 = out.1 := by
  obtain ⟨out, fns⟩ := out
  cases out <;> rfl

/-- Whatever becomes of the connection, a call that ends raises or returns a prefix
of the file, all of it unless the receiver gave up before the whole stream was there;
and it ends when the receiver gives up or a read fails otherwise. -/
theorem sshSessionScpRecv_prefix {p : List UInt8} {reads : List Read}
    (hsent : dataOf reads <+: p ++ [0]) (s : State) (opened : Bool) :
    match (sshSessionScpRecv s opened reads).1 with
    | .returned bs => bs <+: p ∧ (bs = p ∨ CutShort p reads)
    | .badf => s.session = false
    | .raised e _ => opened = false ∨ ∃ code, e = .other code ∧ ∃ r ∈ reads, r.result = .fail e
    | .running => ∀ mid r post, reads = mid ++ r :: post → ¬GivesUp mid r ∧
        ∀ code, r.result ≠ .fail (.other code) := by
  unfold sshSessionScpRecv
  cases hsession : s.session with
  | false => rfl
  | true =>
      cases opened with
      | false => exact .inl rfl
      | true =>
          have hspec := scpReceived_prefix hsent
          simp only [if_true, finish_fst]
          generalize scpReceived reads = out at hspec ⊢
          cases out with
          | returned bs => exact hspec
          | badf => exact hspec.elim
          | raised e fallback => exact .inr hspec
          | running => exact hspec

def cutStream : List Read :=
  [⟨.data ⟨[1], by decide, by decide⟩, false⟩, ⟨.fail .socketRecv, false⟩]

theorem sshSessionScpRecv_loses_byte :
    ¬(dataOf cutStream <+: [1, 2] ++ [0] →
      (sshSessionScpRecv created true cutStream).1 = .returned [1, 2] ∨
        ∃ e fallback, (sshSessionScpRecv created true cutStream).1 = .raised e fallback) := by
  have hreceived : (sshSessionScpRecv created true cutStream).1 = .returned [1] := by decide
  intro hexact
  have hclaim := hexact (by decide)
  simp [hreceived] at hclaim

theorem sshSessionScpRecv_prefix_cut :
    match (sshSessionScpRecv created true cutStream).1 with
    | .returned bs => bs <+: [1, 2] ∧ (bs = [1, 2] ∨ CutShort [1, 2] cutStream)
    | .badf => created.session = false
    | .raised e _ => true = false ∨
        ∃ code, e = .other code ∧ ∃ r ∈ cutStream, r.result = .fail e
    | .running => ∀ mid r post, cutStream = mid ++ r :: post → ¬GivesUp mid r ∧
        ∀ code, r.result ≠ .fail (.other code) :=
  sshSessionScpRecv_prefix (show dataOf cutStream <+: [1, 2] ++ [0] by decide) created true

end FreedosMicroPython.Ssh.Scp
