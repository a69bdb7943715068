import FreedosMicroPython.Ssh.Exec
import FreedosMicroPython.Ssh.Upload
/-!
# Transfers whose peer has gone

Once the peer has closed the connection, `_ssh_recv_cb` turns the end of file into
`EAGAIN`, and a channel answers `EAGAIN` or 0 for ever, with its end-of-file flag
down. Each of the three loops ends only at some of these answers.
-/

namespace FreedosMicroPython.Ssh.PeerGone

open FreedosMicroPython.Ssh.Channel FreedosMicroPython.Ssh.Objects FreedosMicroPython.Ssh.Scp
  FreedosMicroPython.Ssh.Exec FreedosMicroPython.Ssh.Upload

/-! ## Schedules -/

/-- What a channel call answers when the peer has gone. -/
inductive Gone where
  | eagain
  | zero
  deriving DecidableEq, Repr

namespace Gone

def read : Gone → Read
  | eagain => ⟨.fail .eagain, false⟩
  | zero => ⟨.zero, false⟩

def write : Gone → WriteResult
  | eagain => .error .eagain
  | zero => .ok 0

end Gone

def firsts (tail : Nat → Gone) (n : Nat) : List Gone := (List.range n).map tail

theorem mem_firsts {tail : Nat → Gone} {n : Nat} {g : Gone} :
    g ∈ firsts tail n ↔ ∃ i < n, tail i = g := by
  simp [firsts]

/-- A property of some answer shows in a finite part of the tail. -/
theorem exists_mem_firsts {tail : Nat → Gone} {g : Gone} :
    (∃ n, g ∈ firsts tail n) ↔ ∃ n, tail n = g := by
  constructor
  · rintro ⟨n, hmem⟩
    obtain ⟨i, -, hi⟩ := mem_firsts.mp hmem
    exact ⟨i, hi⟩
  · rintro ⟨n, hn⟩
    exact ⟨n + 1, mem_firsts.mpr ⟨n, by omega, hn⟩⟩

/-! ## `ssh_session_exec` -/

theorem execLoop_running_iff (vstr : List UInt8) (reads : List Read) :
    (execLoop vstr reads).1 = .running ↔ ∀ r ∈ reads, ends r = false := by
  constructor
  · intro hrunning
    rcases exists_first reads with hon | ⟨pre, r, post, rfl, hpre, hends⟩
    · exact hon
    · rw [execLoop_append hpre, execLoop] at hrunning
      unfold ends at hends
      cases hr : r.result with
      | data chunk => simp [hr] at hends
      | zero => simp_all
      | fail e =>
          simp only [hr] at hrunning
          split at hrunning
          · cases hrunning
          · split at hrunning <;> cases hrunning
  · exact fun hreads => execLoop_running hreads vstr

theorem ends_read (g : Gone) : ends g.read = false ↔ g ≠ .eagain := by
  cases g <;> simp [ends, Gone.read]

/-- After the peer has gone, the loop of `ssh_session_exec` ends at the first `EAGAIN`. -/
theorem execLoop_gone {reads : List Read} (hreached : (execLoop [] reads).1 = .running)
    (gone : List Gone) :
    (execLoop [] (reads ++ gone.map Gone.read)).1 ≠ .running ↔ Gone.eagain ∈ gone := by
  rw [execLoop_running_iff] at hreached
  rw [ne_eq, execLoop_running_iff]
  constructor
  · intro hends
    by_contra hnone
    refine hends fun r hr => ?_
    rcases List.mem_append.mp hr with hr | hr
    · exact hreached r hr
    · obtain ⟨g, hg, rfl⟩ := List.mem_map.mp hr
      exact (ends_read g).mpr fun heq => hnone (heq ▸ hg)
  · intro hmem hall
    have heagain := hall Gone.eagain.read
      (List.mem_append.mpr (.inr (List.mem_map.mpr ⟨.eagain, hmem, rfl⟩)))
    exact (ends_read .eagain).mp heagain rfl

/-! ## `ssh_session_scp_recv` -/

/-- No answer so far has made the receiver give up or raise. -/
def StillPolls (rs : List Read) : Prop :=
  ∀ mid r post, rs = mid ++ r :: post → ¬GivesUp mid r ∧ ∀ code, r.result ≠ .fail (.other code)

theorem scpRecvLoop_running_iff (rs : List Read) :
    (scpRecvLoop [] 0 rs).1 = .running ↔ StillPolls rs := by
  have hpolls : Polled [] 0 := fun _ => rfl
  have hspec := scpRecvLoop_spec hpolls rs
  rw [show dataOf [] = [] from rfl] at hspec
  unfold StillPolls
  generalize (scpRecvLoop [] 0 rs).1 = out at hspec ⊢
  cases out with
  | returned v =>
      obtain ⟨mid, r, post, rfl, hup, -⟩ := hspec
      exact iff_of_false (by simp) fun h => (h mid r post rfl).1 hup
  | badf => exact hspec.elim
  | raised e fallback =>
      obtain ⟨code, rfl, r, hmem, hr⟩ := hspec
      obtain ⟨mid, post, rfl⟩ := List.append_of_mem hmem
      exact iff_of_false (by simp) fun h => (h mid r post rfl).2 code hr
  | running => exact iff_of_true rfl hspec

theorem stillPolls_append {rs : List Read} {r : Read} :
    StillPolls (rs ++ [r]) ↔
      StillPolls rs ∧ ¬GivesUp rs r ∧ ∀ code, r.result ≠ .fail (.other code) := by
  constructor
  · intro h
    refine ⟨fun mid r' post hsplit => h mid r' (post ++ [r]) (by simp [hsplit]), ?_⟩
    exact h rs r [] rfl
  · rintro ⟨hbefore, hlast⟩ mid r' post hsplit
    rcases List.eq_nil_or_concat post with rfl | ⟨post', r'', rfl⟩
    · obtain ⟨rfl, hr⟩ := List.append_inj' hsplit rfl
      obtain rfl : r = r' := by simpa using hr
      exact hlast
    · rw [List.concat_eq_append, ← List.cons_append, ← List.append_assoc] at hsplit
      obtain ⟨hrs, -⟩ := List.append_inj' hsplit rfl
      exact hbefore mid r' post' hrs

theorem dataOf_gone (gone : List Gone) : dataOf (gone.map Gone.read) = [] := by
  induction gone with
  | nil => rfl
  | cons g gone ih => cases g <;> simpa [dataOf, Gone.read, Read.bytes] using ih

theorem givesUp_gone {rs : List Read} (g : Gone) :
    GivesUp rs g.read ↔ g = .zero ∨ (dataOf rs ≠ [] ∧ 20 ≤ idle rs) := by
  cases g <;> simp [GivesUp, Gone.read]

theorem idle_eagains (rs : List Read) (n : Nat) :
    idle (rs ++ (List.replicate n Gone.eagain).map Gone.read) = idle rs + n := by
  induction n with
  | zero => simp
  | succ n ih =>
      rw [List.replicate_succ', List.map_append, ← List.append_assoc, List.map_singleton,
        idle_append_eagain rfl, ih]
      omega

theorem stillPolls_eagains {reads : List Read} (hreached : StillPolls reads)
    (hnil : dataOf reads = []) (n : Nat) :
    StillPolls (reads ++ (List.replicate n Gone.eagain).map Gone.read) := by
  induction n with
  | zero => simpa using hreached
  | succ n ih =>
      rw [List.replicate_succ', List.map_append, ← List.append_assoc, List.map_singleton]
      refine stillPolls_append.mpr ⟨ih, ?_, by simp [Gone.read]⟩
      rw [givesUp_gone, dataOf_append, hnil, dataOf_gone]
      simp

theorem not_stillPolls_of_data {reads : List Read} (hdata : dataOf reads ≠ []) :
    ¬StillPolls (reads ++ (List.replicate 21 Gone.eagain).map Gone.read) := by
  rw [show 21 = 20 + 1 from rfl, List.replicate_succ', List.map_append, ← List.append_assoc,
    List.map_singleton, stillPolls_append, givesUp_gone, idle_eagains, dataOf_append]
  rintro ⟨-, hgoesOn, -⟩
  exact hgoesOn (.inr ⟨by simp [hdata], by omega⟩)

theorem not_stillPolls_of_zero (reads : List Read) {gone : List Gone} (hzero : Gone.zero ∈ gone) :
    ¬StillPolls (reads ++ gone.map Gone.read) := by
  obtain ⟨pre, post, rfl⟩ := List.append_of_mem hzero
  intro hpolls
  have hgoesOn := (hpolls (reads ++ pre.map Gone.read) Gone.zero.read (post.map Gone.read)
    (by simp)).1
  exact hgoesOn ((givesUp_gone .zero).mpr (.inl rfl))

theorem firsts_eq_replicate {tail : Nat → Gone} {g g' : Gone} (hne : ∀ h, h ≠ g → h = g')
    (hnone : ∀ n, tail n ≠ g) (n : Nat) : firsts tail n = List.replicate n g' := by
  refine List.eq_replicate_iff.mpr ⟨by simp [firsts], fun h hmem => ?_⟩
  obtain ⟨i, -, rfl⟩ := mem_firsts.mp hmem
  exact hne _ (hnone i)

/-- After the peer has gone, the loop of `ssh_session_scp_recv` ends exactly when some
data had been received or some read answers 0. -/
theorem scpRecvLoop_gone {reads : List Read}
    (hreached : (scpRecvLoop [] 0 reads).1 = .running) (tail : Nat → Gone) :
    (∃ n, (scpRecvLoop [] 0 (reads ++ (firsts tail n).map Gone.read)).1 ≠ .running) ↔
      dataOf reads ≠ [] ∨ ∃ n, tail n = .zero := by
  rw [scpRecvLoop_running_iff] at hreached
  simp only [ne_eq, scpRecvLoop_running_iff]
  by_cases hzero : ∃ n, tail n = .zero
  · obtain ⟨n, hmem⟩ := exists_mem_firsts.mpr hzero
    exact iff_of_true ⟨n, not_stillPolls_of_zero reads hmem⟩ (.inr hzero)
  · have heagains : ∀ n, firsts tail n = List.replicate n .eagain :=
      firsts_eq_replicate (g := .zero) (by intro h; cases h <;> simp) (not_exists.mp hzero)
    simp only [heagains, hzero, or_false]
    constructor
    · rintro ⟨n, hends⟩ hnil
      exact hends (stillPolls_eagains hreached hnil n)
    · exact fun hdata => ⟨21, not_stillPolls_of_data hdata⟩

/-! ## `ssh_session_scp_send` -/

theorem map_running {α β : Type} (f : α → β) (out : Outcome α) :
    out.map f = .running ↔ out = .running := by
  cases out <;> simp [Outcome.map]

theorem scpSent_zero_running (rs : List WriteResult) :
    (scpSent 0 rs).1 = .running ↔ ∀ r ∈ rs, r = .error .eagain := by
  have hloop : scpSendLoop 0 rs = (.returned (), rs, []) := by cases rs <;> rfl
  rw [scpSent, hloop]
  refine (map_running _ _).trans ?_
  induction rs with
  | nil => simp [scpSendNul]
  | cons r rs ih =>
      by_cases hr : r = .error .eagain
      · have hrest := ih (by cases rs <;> rfl)
        simpa [hr, scpSendNul] using hrest
      · simp [scpSendNul_cons hr, hr]

theorem scpSent_cons_running {m : Nat} {r : WriteResult} (hr : GoesOn r)
    (rs : List WriteResult) :
    (scpSent (m + 1) (r :: rs)).1 = .running ↔
      (scpSent (m + 1 - taken r) rs).1 = .running := by
  unfold scpSent
  rw [scpSendLoop_cons hr]
  rcases scpSendLoop (m + 1 - taken r) rs with ⟨out, rest, fns⟩
  cases out with
  | returned value => exact (map_running _ _).trans (map_running _ _).symm
  | _ => simp

theorem goesOn_of_running {m : Nat} {r : WriteResult} {rs : List WriteResult}
    (hrunning : (scpSent (m + 1) (r :: rs)).1 = .running) : GoesOn r := by
  cases r with
  | ok n => exact .inl ⟨n, rfl⟩
  | error e =>
      cases e with
      | eagain => exact .inr rfl
      | _ => simp [scpSent, scpSendLoop] at hrunning

theorem scpSent_append {len : Nat} {ws : List WriteResult}
    (hreached : (scpSent len ws).1 = .running) (rs : List WriteResult) :
    (scpSent len (ws ++ rs)).1 = .running ↔
      (scpSent (len - (ws.map taken).sum) rs).1 = .running := by
  induction ws generalizing len with
  | nil => simp
  | cons r ws ih =>
      cases len with
      | zero =>
          rw [scpSent_zero_running] at hreached
          rw [Nat.zero_sub, scpSent_zero_running, scpSent_zero_running]
          simp only [List.cons_append, List.mem_cons, List.mem_append]
          constructor
          · exact fun hall r' hr' => hall r' (.inr (.inr hr'))
          · rintro hall r' (rfl | hr' | hr')
            · exact hreached r' (by simp)
            · exact hreached r' (by simp [hr'])
            · exact hall r' hr'
      | succ m =>
          have hr := goesOn_of_running hreached
          rw [scpSent_cons_running hr] at hreached
          rw [List.cons_append, scpSent_cons_running hr, ih hreached, List.map_cons,
            List.sum_cons, Nat.sub_sub]

/-- The data loop makes no progress, and the terminator's ends at the first 0. -/
theorem scpSent_gone (len : Nat) (gone : List Gone) :
    (scpSent len (gone.map Gone.write)).1 = .running ↔ len ≠ 0 ∨ Gone.zero ∉ gone := by
  cases len with
  | zero =>
      rw [scpSent_zero_running]
      constructor
      · intro hall
        refine .inr fun hmem => ?_
        have hzero := hall _ (List.mem_map.mpr ⟨.zero, hmem, rfl⟩)
        cases hzero
      · intro hnone r hr
        obtain ⟨g, hg, rfl⟩ := List.mem_map.mp hr
        cases g with
        | eagain => rfl
        | zero => simp [hg] at hnone
  | succ m =>
      refine iff_of_true ?_ (.inl (by omega))
      induction gone with
      | nil => rfl
      | cons g gone ih =>
          have hon : GoesOn g.write := by cases g <;> simp [GoesOn, Gone.write]
          have htaken : taken g.write = 0 := by cases g <;> rfl
          rw [List.map_cons, scpSent_cons_running hon, htaken]
          exact ih

/-! ## The calls -/

/-- A call of the three, with what it has been answered so far. -/
inductive Transfer where
  | exec (r : Int) (reads : List Read)
  | scpRecv (reads : List Read)
  | scpSend (len : Nat) (writes : List WriteResult)

namespace Transfer

variable (s : State) (opened : Bool)

def Runs (gone : List Gone) : Transfer → Prop
  | exec r reads => (sshSessionExec s opened r (reads ++ gone.map Gone.read)).1 = .running
  | scpRecv reads => (sshSessionScpRecv s opened (reads ++ gone.map Gone.read)).1 = .running
  | scpSend len writes =>
      (sshSessionScpSend s opened len (writes ++ gone.map Gone.write)).1 = .running

/-- An answer of the tail ends the loop: an `EAGAIN` that of `ssh_session_exec`, a 0 those of
the others, that of `ssh_session_scp_send` only when all data has been taken, and that of
`ssh_session_scp_recv` ends anyway when some data has been received. -/
def CanEnd (tail : Nat → Gone) : Transfer → Prop
  | exec _ _ => ∃ n, tail n = .eagain
  | scpRecv reads => dataOf reads ≠ [] ∨ ∃ n, tail n = .zero
  | scpSend len writes => len ≤ (writes.map taken).sum ∧ ∃ n, tail n = .zero

end Transfer

theorem sshSessionExec_running (s : State) (opened : Bool) (r : Int) (reads : List Read) :
    (sshSessionExec s opened r reads).1 = .running ↔
      (s.session = true ∧ opened = true ∧ r = 0) ∧ (execLoop [] reads).1 = .running := by
  unfold sshSessionExec
  cases s.session with
  | false => simp
  | true =>
      cases opened with
      | false => simp [sshRaiseSessionError]
      | true =>
          by_cases hr : r = 0
          · simp [hr, finish_fst]
          · simp [hr, sshRaiseSessionError]

theorem sshSessionScpRecv_running (s : State) (opened : Bool) (reads : List Read) :
    (sshSessionScpRecv s opened reads).1 = .running ↔
      (s.session = true ∧ opened = true) ∧ (scpRecvLoop [] 0 reads).1 = .running := by
  unfold sshSessionScpRecv
  cases s.session with
  | false => simp
  | true =>
      cases opened with
      | false => simp [sshRaiseSessionError]
      | true => simp [finish_fst, scpReceived, map_running]

theorem sshSessionScpSend_running (s : State) (opened : Bool) (len : Nat)
    (writes : List WriteResult) :
    (sshSessionScpSend s opened len writes).1 = .running ↔
      (s.session = true ∧ opened = true) ∧ (scpSent len writes).1 = .running := by
  unfold sshSessionScpSend
  cases s.session with
  | false => simp
  | true =>
      cases opened with
      | false => simp [sshRaiseSessionError]
      | true => simp [finish_fst]

/-- A call that is in its loop ends after the peer has gone exactly when it can. -/
theorem transfer_ends_iff {s : State} {opened : Bool} {t : Transfer}
    (hreached : t.Runs s opened []) (tail : Nat → Gone) :
    (∃ n, ¬t.Runs s opened (firsts tail n)) ↔ t.CanEnd tail := by
  cases t with
  | exec r reads =>
      simp only [Transfer.Runs, List.map_nil, List.append_nil, sshSessionExec_running] at hreached
      simp only [Transfer.Runs, sshSessionExec_running, hreached.1, and_true, true_and,
        execLoop_gone hreached.2]
      exact exists_mem_firsts
  | scpRecv reads =>
      simp only [Transfer.Runs, List.map_nil, List.append_nil,
        sshSessionScpRecv_running] at hreached
      simp only [Transfer.Runs, sshSessionScpRecv_running, hreached.1, and_true, true_and,
        ← ne_eq]
      exact scpRecvLoop_gone hreached.2 tail
  | scpSend len writes =>
      simp only [Transfer.Runs, List.map_nil, List.append_nil,
        sshSessionScpSend_running] at hreached
      simp only [Transfer.Runs, sshSessionScpSend_running, hreached.1, and_true, true_and,
        scpSent_append hreached.2, scpSent_gone, not_or, not_not, Nat.sub_eq_zero_iff_le,
        exists_and_left, exists_mem_firsts]
      rfl

def oneByte : List Read := cutStream.take 1

theorem transfer_ends_iff_oneByte :
    (∃ n, ¬(Transfer.scpRecv oneByte).Runs created true (firsts (fun _ => .eagain) n)) ↔
      (Transfer.scpRecv oneByte).CanEnd fun _ => .eagain :=
  transfer_ends_iff (show (Transfer.scpRecv oneByte).Runs created true [] from
    (sshSessionScpRecv_running created true _).mpr ⟨by decide, by decide⟩) fun _ => .eagain

/-- A receiver to which the peer has sent nothing polls for ever. -/
theorem scpRecv_spins :
    ¬((Transfer.scpRecv []).Runs created true [] →
      ∃ n, ¬(Transfer.scpRecv []).Runs created true (firsts (fun _ => .eagain) n)) := by
  have hreached : (scpRecvLoop [] 0 []).1 = .running := rfl
  have hrun : (Transfer.scpRecv []).Runs created true [] :=
    (sshSessionScpRecv_running created true _).mpr ⟨⟨rfl, rfl⟩, hreached⟩
  intro hclaim
  obtain ⟨n, hends⟩ := hclaim hrun
  have hgone := (scpRecvLoop_gone hreached fun _ => .eagain).mp
    ⟨n, fun h => hends ((sshSessionScpRecv_running created true _).mpr ⟨⟨rfl, rfl⟩, h⟩)⟩
  simp [dataOf] at hgone

end FreedosMicroPython.Ssh.PeerGone
