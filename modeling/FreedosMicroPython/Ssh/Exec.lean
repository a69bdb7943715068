import FreedosMicroPython.Ssh.Scp
/-!
# The output of a command

`ssh_session_exec` reads its channel until an answer ends the loop: a 0 with the
end-of-file flag, or an error. The theorem says what the bytes returned then are.
-/

namespace FreedosMicroPython.Ssh.Exec

open FreedosMicroPython.Ssh.Channel FreedosMicroPython.Ssh.Objects FreedosMicroPython.Ssh.Scp

/-! ## Schedules -/

def ends (r : Read) : Bool :=
  match r.result with
  | .data _ => false
  | .zero => r.eof
  | .fail _ => true

/-- The codes that the loop takes for the end of the stream. -/
def socketError (e : LibError) : Prop := e = .socketRecv ∨ e = .socketDisconnect

instance : DecidablePred socketError := fun e =>
  inferInstanceAs (Decidable (e = .socketRecv ∨ e = .socketDisconnect))

/-- The reads deliver the output of the command in order, and the end-of-file flag
of the channel is up only when nothing is left to read. -/
structure Sent (output : List UInt8) (reads : List Read) : Prop where
  delivered : dataOf reads <+: output
  whole_of_eof : ∀ pre r post, reads = pre ++ r :: post → r.eof = true →
    dataOf (pre ++ [r]) = output

/-- The error `e` is the first answer that ends the loop, and it comes after `pre`. -/
def FailsAfter (reads pre : List Read) (e : LibError) : Prop :=
  ∃ r post, reads = pre ++ r :: post ∧ (∀ r' ∈ pre, ends r' = false) ∧ r.result = .fail e

def CutBySocket (reads : List Read) (bs : List UInt8) : Prop :=
  ∃ pre e, FailsAfter reads pre e ∧ socketError e ∧ bs = dataOf pre ∧ bs ≠ []

/-- A read fails before the whole output is there, with an error of the socket when
nothing has been captured and with another one when something has. -/
def CutOtherwise (output : List UInt8) (reads : List Read) : Prop :=
  ∃ pre e, FailsAfter reads pre e ∧ dataOf pre ≠ output ∧ (socketError e ↔ dataOf pre = [])

/-! ## The loop -/

theorem execLoop_append {pre : List Read} (hpre : ∀ r ∈ pre, ends r = false)
    (vstr : List UInt8) (rs : List Read) :
    (execLoop vstr (pre ++ rs)).1 = (execLoop (vstr ++ dataOf pre) rs).1 := by
  induction pre generalizing vstr with
  | nil => simp [dataOf]
  | cons r pre ih =>
      have hr : ends r = false := hpre r (by simp)
      have hrest := ih fun r' hr' => hpre r' (by simp [hr'])
      unfold ends at hr
      rw [List.cons_append, execLoop]
      cases hresult : r.result with
      | data chunk => simp [hrest, dataOf, Read.bytes, hresult]
      | zero =>
          have heof : r.eof = false := by simpa [hresult] using hr
          simp [hrest, heof, dataOf, Read.bytes, hresult]
      | fail e => simp [hresult] at hr

theorem execLoop_running {reads : List Read} (hreads : ∀ r ∈ reads, ends r = false)
    (vstr : List UInt8) : (execLoop vstr reads).1 = .running := by
  have happend := execLoop_append hreads vstr []
  rwa [List.append_nil] at happend

/-- Only an error that comes before any output makes the loop raise. -/
theorem execLoop_fail {r : Read} {e : LibError} (hr : r.result = .fail e)
    (vstr : List UInt8) (post : List Read) :
    (execLoop vstr (r :: post)).1 =
      if vstr = [] ∧ r.eof = false ∧ ¬socketError e then .raised e "channel_read"
      else .returned vstr := by
  rw [execLoop]
  simp only [hr]
  unfold socketError
  by_cases hnil : vstr = [] <;> cases r.eof <;> by_cases hsocket : e = .socketRecv <;>
    by_cases hdisconnect : e = .socketDisconnect <;> simp [*]

theorem exists_first (reads : List Read) :
    (∀ r ∈ reads, ends r = false) ∨ ∃ pre r post, reads = pre ++ r :: post ∧
      (∀ r' ∈ pre, ends r' = false) ∧ ends r = true := by
  cases hfind : reads.find? ends with
  | none => exact .inl (by simpa using List.find?_eq_none.mp hfind)
  | some r =>
      obtain ⟨hr, pre, post, hsplit, hpre⟩ := List.find?_eq_some_iff_append.mp hfind
      exact .inr ⟨pre, r, post, hsplit, by simpa using hpre, hr⟩

theorem cutBySocket_prefix {output bs : List UInt8} {reads : List Read}
    (hsent : Sent output reads) (hcut : CutBySocket reads bs) : bs <+: output := by
  obtain ⟨pre, e, ⟨r, post, rfl, -, -⟩, -, rfl, -⟩ := hcut
  exact (dataOf_isPrefix pre (r :: post)).trans hsent.delivered

theorem cut_of_not_raises {output : List UInt8} {pre post : List Read} {r : Read} {e : LibError}
    (hsent : Sent output (pre ++ r :: post)) (hpre : ∀ r' ∈ pre, ends r' = false)
    (hr : r.result = .fail e) (hraises : ¬(dataOf pre = [] ∧ r.eof = false ∧ ¬socketError e)) :
    dataOf pre = output ∨ CutBySocket (pre ++ r :: post) (dataOf pre) ∨
      CutOtherwise output (pre ++ r :: post) := by
  have hfails : FailsAfter (pre ++ r :: post) pre e := ⟨r, post, rfl, hpre, hr⟩
  by_cases hwhole : dataOf pre = output
  · exact .inl hwhole
  · have hdown : r.eof = false := by
      -- the flag is up only when the whole output has been read
      cases heof : r.eof with
      | false => rfl
      | true =>
          have hread := hsent.whole_of_eof pre r post rfl heof
          exact absurd (by simpa [Read.bytes, hr] using hread) hwhole
    by_cases hnil : dataOf pre = []
    · have hsocket : socketError e := by simpa [hnil, hdown] using hraises
      exact .inr (.inr ⟨pre, e, hfails, hwhole, by simp [hnil, hsocket]⟩)
    · by_cases hsocket : socketError e
      · exact .inr (.inl ⟨pre, e, hfails, hsocket, rfl, hnil⟩)
      · exact .inr (.inr ⟨pre, e, hfails, hwhole, by simp [hnil, hsocket]⟩)

/-- What the first answer that ends the loop makes of the bytes captured by then. -/
theorem execLoop_spec {output : List UInt8} {reads : List Read} (hsent : Sent output reads) :
    match (execLoop [] reads).1 with
    | .returned bs => bs = output ∨ CutBySocket reads bs ∨ CutOtherwise output reads
    | .badf => False
    | .raised e _ => ∃ pre, FailsAfter reads pre e ∧ dataOf pre = [] ∧ ¬socketError e
    | .running => ∀ r ∈ reads, ends r = false := by
  rcases exists_first reads with hon | ⟨pre, r, post, rfl, hpre, hends⟩
  · rw [execLoop_running hon]
    exact hon
  · have hlast := execLoop_append hpre [] (r :: post)
    rw [List.nil_append] at hlast
    rw [hlast]
    unfold ends at hends
    cases hr : r.result with
    | data chunk => simp [hr] at hends
    | zero =>
        have heof : r.eof = true := by simpa [hr] using hends
        have hwhole : dataOf pre = output := by
          simpa [Read.bytes, hr] using hsent.whole_of_eof pre r post rfl heof
        simpa [execLoop, hr, heof] using Or.inl hwhole
    | fail e =>
        rw [execLoop_fail hr]
        by_cases hraises : dataOf pre = [] ∧ r.eof = false ∧ ¬socketError e
        · rw [if_pos hraises]
          exact ⟨pre, ⟨r, post, rfl, hpre, hr⟩, hraises.1, hraises.2.2⟩
        · rw [if_neg hraises]
          exact cut_of_not_raises hsent hpre hr hraises

/-! ## The call -/

/-- However the connection goes, a call that ends raises or returns the whole output,
unless an error comes before the whole output is there: what was captured by then is
returned when it is an error of the socket and some output has been captured. -/
theorem sshSessionExec_output {output : List UInt8} {reads : List Read}
    (hsent : Sent output reads) (s : State) (opened : Bool) (r : Int) :
    match (sshSessionExec s opened r reads).1 with
    | .returned bs => bs = output ∨ (CutBySocket reads bs ∧ bs <+: output) ∨
        CutOtherwise output reads
    | .badf => s.session = false
    | .raised e _ => opened = false ∨ r ≠ 0 ∨
        ∃ pre, FailsAfter reads pre e ∧ dataOf pre = [] ∧ ¬socketError e
    | .running => ∀ r ∈ reads, ends r = false := by
  unfold sshSessionExec
  cases hsession : s.session with
  | false => rfl
  | true =>
      cases opened with
      | false => exact .inl rfl
      | true =>
          by_cases hr : r = 0
          · have hspec := execLoop_spec hsent
            simp only [hr, if_true, ne_eq, not_true_eq_false, if_false, finish_fst]
            generalize (execLoop [] reads).1 = out at hspec ⊢
            cases out with
            | returned bs =>
                rcases hspec with hwhole | hsocket | hother
                · exact .inl hwhole
                · exact .inr (.inl ⟨hsocket, cutBySocket_prefix hsent hsocket⟩)
                · exact .inr (.inr hother)
            | badf => exact hspec.elim
            | raised e fallback => exact .inr (.inr hspec)
            | running => exact hspec
          · simp only [hr, if_true, ne_eq, not_false_eq_true]
            exact .inr (.inl trivial)

theorem sent_cutStream : Sent [1, 2] cutStream where
  delivered := by decide
  whole_of_eof pre r post hsplit heof := by
    have hmem : r ∈ cutStream := by simp [hsplit]
    have hdown : ∀ r ∈ cutStream, r.eof = false := by decide
    simp [hdown r hmem] at heof

theorem sshSessionExec_loses_byte :
    ¬(Sent [1, 2] cutStream →
      (sshSessionExec created true 0 cutStream).1 = .returned [1, 2] ∨
        ∃ e fallback, (sshSessionExec created true 0 cutStream).1 = .raised e fallback) := by
  have hreturned : (sshSessionExec created true 0 cutStream).1 = .returned [1] := by decide
  intro hexact
  have hclaim := hexact sent_cutStream
  simp [hreturned] at hclaim

theorem sshSessionExec_output_cut :
    match (sshSessionExec created true 0 cutStream).1 with
    | .returned bs => bs = [1, 2] ∨ (CutBySocket cutStream bs ∧ bs <+: [1, 2]) ∨
        CutOtherwise [1, 2] cutStream
    | .badf => created.session = false
    | .raised e _ => true = false ∨ (0 : Int) ≠ 0 ∨
        ∃ pre, FailsAfter cutStream pre e ∧ dataOf pre = [] ∧ ¬socketError e
    | .running => ∀ r ∈ cutStream, ends r = false :=
  sshSessionExec_output sent_cutStream created true 0

end FreedosMicroPython.Ssh.Exec
