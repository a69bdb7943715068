import FreedosMicroPython.Lib.Find
import FreedosMicroPython.Tls.Socket
import FreedosMicroPython.Wget.Url
/-!
# Reading a response in wget

`_read_headers` of `examples/wget.py`. A read returns what has arrived: `Sock.cuts` says how many
bytes that are, for every number of bytes that are still to come. `Link.response` is what the bytes
say as a whole.
-/

namespace FreedosMicroPython.Wget

open FreedosMicroPython.Lib.Find FreedosMicroPython.OsPath

/-- An exception. An `OSError` has a text, a text with the `repr` of some bytes, a text that is
formatted with a number, or an `errno`. -/
inductive Exn where
  | osError (text : String)
  | osErrorRepr (text : String) (bytes : List UInt8)
  | osErrorNum (text : String) (n : Int)
  | errno (code : Int)
  | valueError
  | unicodeError
  | typeError
  deriving DecidableEq, Repr

theorem bind_ok {α β : Type} {x : Except Exn α} {f : α → Except Exn β} {b : β}
    (h : x >>= f = .ok b) : ∃ v, x = .ok v ∧ f v = .ok b := by
  cases x with
  | error e => cases h
  | ok v => exact ⟨v, rfl, h⟩

/-! ## The connection -/

inductive VerifyMode where
  | certNone
  | certRequired
  deriving DecidableEq, Repr

structure Context where
  verifyMode : VerifyMode
  cadata : Option (List UInt8)
  deriving DecidableEq, Repr

/-- How a connection ends behind its last byte. -/
inductive Ending where
  | closed
  | lost (errno : Int)
  | failed (e : Exn)
  deriving DecidableEq, Repr

/-- The other end of a connection: the bytes that come from it, how it ends behind them, and the
error of sending it a request. -/
structure Peer where
  pending : List UInt8
  ending : Ending
  sendError : List UInt8 → Option Exn

structure Link extends Peer where
  context : Option Context

structure Sock extends Link where
  cuts : Nat → Nat

/-- A read behind the last byte. `ssl_socket_read` returns no bytes for a lost connection as for
one that was closed; a socket of lwIP raises an error. -/
def Link.atEnd (l : Link) : Except Exn Unit :=
  match l.ending with
  | .closed => .ok ()
  | .lost errno => if l.context.isSome then .ok () else .error (.errno errno)
  | .failed e => .error e

/-- How many bytes a read of `n` bytes returns when more are to come. -/
def Sock.arrived (s : Sock) (n : Nat) : Nat := min n (max 1 (s.cuts s.pending.length))

def Sock.read (s : Sock) (n : Nat) : Except Exn (List UInt8 × Sock) :=
  if s.pending = [] then s.atEnd.map fun () => ([], s)
  else
    let k := s.arrived n
    .ok (s.pending.take k, { s with pending := s.pending.drop k })

structure Link.Continues (l l' : Link) : Prop where
  context : l'.context = l.context
  ending : l'.ending = l.ending

theorem Link.Continues.refl (l : Link) : l.Continues l := ⟨rfl, rfl⟩

theorem Link.Continues.trans {l l' l'' : Link} (h : l.Continues l') (h' : l'.Continues l'') :
    l.Continues l'' :=
  ⟨h'.context.trans h.context, h'.ending.trans h.ending⟩

theorem Link.Continues.atEnd {l l' : Link} (h : l.Continues l') : l'.atEnd = l.atEnd := by
  simp only [Link.atEnd, h.context, h.ending]

variable {s s' : Sock} {n : Nat} {chunk : List UInt8}

theorem Sock.read_ok (h : s.read n = .ok (chunk, s')) :
    s.pending = chunk ++ s'.pending ∧ s.toLink.Continues s'.toLink := by
  rw [Sock.read] at h
  split at h
  · next hnil =>
    cases hend : s.atEnd with
    | error e =>
        rw [hend] at h
        cases h
    | ok =>
        rw [hend] at h
        cases h
        exact ⟨rfl, .refl _⟩
  · cases h
    exact ⟨(List.take_append_drop _ _).symm, rfl, rfl⟩

theorem Sock.read_nil (hn : 0 < n) (h : s.read n = .ok ([], s')) :
    s.pending = [] ∧ s.atEnd = .ok () := by
  rw [Sock.read] at h
  split at h
  · next hnil =>
    cases hend : s.atEnd with
    | error e =>
        rw [hend] at h
        cases h
    | ok => exact ⟨hnil, rfl⟩
  · next hne =>
    have htake := congrArg List.length (congrArg Prod.fst (Except.ok.inj h))
    have hpos := List.length_pos_iff.mpr hne
    rw [List.length_take, List.length_nil] at htake
    rw [Sock.arrived] at htake
    omega

theorem Sock.read_error {e : Exn} (h : s.read n = .error e) :
    s.pending = [] ∧ s.atEnd = .error e := by
  rw [Sock.read] at h
  split at h
  · next hnil =>
    cases hend : s.atEnd with
    | error e' =>
        rw [hend] at h
        cases h
        exact ⟨hnil, rfl⟩
    | ok =>
        rw [hend] at h
        cases h
  · cases h

theorem Sock.read_decreases (h : s.read n = .ok (chunk, s')) (hne : chunk ≠ []) :
    s'.pending.length < s.pending.length := by
  have hpos := List.length_pos_iff.mpr hne
  rw [(Sock.read_ok h).1, List.length_append]
  omega

def Ending.answer : Ending → Option Int
  | .closed => some Tls.Socket.SSL_CLOSE_NOTIFY
  | .lost _ => some Tls.Socket.SSL_ERROR_CONN_LOST
  | .failed _ => none

theorem Link.atEnd_of_answer {l : Link} (hcontext : l.context.isSome = true) {r : Int}
    (h : l.ending.answer = some r) :
    (r = Tls.Socket.SSL_CLOSE_NOTIFY ∨ r = Tls.Socket.SSL_ERROR_CONN_LOST) ∧ l.atEnd = .ok () := by
  rw [Link.atEnd]
  cases hending : l.ending with
  | closed =>
      rw [hending] at h
      exact ⟨.inl (Option.some.inj h).symm, rfl⟩
  | lost errno =>
      rw [hending] at h
      exact ⟨.inr (Option.some.inj h).symm, if_pos hcontext⟩
  | failed e =>
      rw [hending] at h
      cases h

/-- A wrapped socket reads as `ssl_socket_read` does where axtls has no byte left. -/
theorem Link.atEnd_of_sslRead {l : Link} (hcontext : l.context.isSome = true)
    {o : Tls.Socket.State} {a : Tls.Socket.SslRead} {as : List Tls.Socket.SslRead}
    (hopen : o.o.sslSock = true) (hleft : o.o.bytesLeft = 0) (hincoming : o.incoming = a :: as)
    (ha : l.ending.answer = some a.r) (size : Nat) :
    Tls.Socket.sslSocketRead size o = some (.bytes [], o.receive a as) ∧ l.atEnd = .ok () := by
  obtain ⟨hcloses, hend⟩ := Link.atEnd_of_answer hcontext ha
  exact ⟨Tls.Socket.sslSocketRead_of_closes hopen hleft hincoming hcloses size, hend⟩

/-! ## The head of a response -/

def crlf : List UInt8 := ['\r'.toUInt8, '\n'.toUInt8]

def separator : List UInt8 := crlf ++ crlf

/-- `split(b"\r\n")`. -/
def splitCrlf : List UInt8 → List (List UInt8)
  | c :: d :: cs =>
      if c = '\r'.toUInt8 ∧ d = '\n'.toUInt8 then [] :: splitCrlf cs
      else (splitCrlf (d :: cs)).modifyHead (c :: ·)
  | [c] => [[c]]
  | [] => [[]]

/-- `decode("ascii", "replace")`: the replacement character for a byte that is no ASCII. -/
def decodeAscii (bytes : List UInt8) : List UInt8 :=
  bytes.flatMap fun c => if c < 0x80 then [c] else [0xEF, 0xBF, 0xBD]

abbrev Headers := List (List UInt8 × List UInt8)

def addHeader (hdrs : Headers) (ln : List UInt8) : Headers :=
  match cutFirst ':'.toUInt8 ln with
  | none => hdrs
  | some (key, val) => (decodeAscii (lower (strip key)), decodeAscii (strip val)) :: hdrs

def statusOf (line : List UInt8) : Except Exn Int :=
  match cutFirst ' '.toUInt8 line with
  | none => .error (.osErrorRepr "malformed HTTP status line: " line)
  | some (_, rest) =>
      let status := rest.takeWhile (· ≠ ' '.toUInt8)
      match pyInt status with
      | none => .error (.osErrorRepr "non-numeric HTTP status: " status)
      | some status => .ok status

def parseHead (hdrBytes : List UInt8) : Except Exn (Int × Headers) := do
  let lines := splitCrlf hdrBytes
  let status ← statusOf (lines.headD [])
  return (status, lines.tail.foldl addHeader [])

def fillHeaders (s : Sock) (buf : List UInt8) : Except Exn (List UInt8 × Sock) :=
  match find separator buf with
  | some _ => .ok (buf, s)
  | none =>
      match _ : s.read 512 with
      | .error e => .error e
      | .ok (chunk, s') =>
          if _ : chunk = [] then .ok (buf, s')
          else fillHeaders s' (buf ++ chunk)
termination_by s.pending.length
decreasing_by exact Sock.read_decreases (by assumption) (by assumption)

def noTerminator : Exn := .osError "incomplete HTTP response (no header terminator)"

def readHeaders (s : Sock) : Except Exn (Int × Headers × List UInt8 × Sock) := do
  let (buf, s) ← fillHeaders s []
  match find separator buf with
  | none => throw noTerminator
  | some sep =>
      let (status, hdrs) ← parseHead (buf.take sep)
      return (status, hdrs, buf.drop (sep + 4), s)

/-! ## The response as a whole -/

/-- The status, the headers and the body of everything that comes from the peer. -/
def Link.response (l : Link) : Except Exn (Int × Headers × List UInt8) := do
  match find separator l.pending with
  | none =>
      l.atEnd
      throw noTerminator
  | some sep =>
      let (status, hdrs) ← parseHead (l.pending.take sep)
      return (status, hdrs, l.pending.drop (sep + 4))

theorem separator_ne_nil : separator ≠ [] := by decide

/-- The body of a response stands behind the first separator. -/
theorem Link.response_ok {l : Link} {status : Int} {hdrs : Headers} {body : List UInt8}
    (h : l.response = .ok (status, hdrs, body)) :
    ∃ sep, FirstAt separator l.pending sep ∧ l.pending.drop (sep + 4) = body := by
  rw [Link.response] at h
  cases hfind : find separator l.pending with
  | none =>
      rw [hfind] at h
      obtain ⟨-, -, h⟩ := bind_ok h
      cases h
  | some sep =>
      rw [hfind] at h
      obtain ⟨⟨status', hdrs'⟩, -, h⟩ := bind_ok h
      cases h
      exact ⟨sep, firstAt_of_find hfind, rfl⟩

/-- The loop keeps all bytes, and stops without a separator only at the end. -/
theorem fillHeaders_ok {buf buf' : List UInt8} (h : fillHeaders s buf = .ok (buf', s')) :
    buf' ++ s'.pending = buf ++ s.pending ∧ s.toLink.Continues s'.toLink ∧
      (find separator buf' = none → s'.pending = [] ∧ s.atEnd = .ok ()) := by
  fun_induction fillHeaders s buf with
  | case1 s buf sep hfind =>
      cases h
      exact ⟨rfl, .refl _, by simp [hfind]⟩
  | case2 s buf hfind e hread => cases h
  | case3 s buf hfind s'' hread =>
      cases h
      obtain ⟨hpending, hcont⟩ := Sock.read_ok hread
      obtain ⟨hnil, hend⟩ := Sock.read_nil (by decide) hread
      have hempty : s'.pending = [] := by
        rw [← hnil, hpending, List.nil_append]
      exact ⟨by rw [hnil, hempty], hcont, fun _ => ⟨hempty, hend⟩⟩
  | case4 s buf hfind chunk s'' hread hchunk ih =>
      obtain ⟨hpending, hcont⟩ := Sock.read_ok hread
      obtain ⟨hbytes, hcont', hstop⟩ := ih h
      refine ⟨?_, hcont.trans hcont', fun hnone => ?_⟩
      · rw [hbytes, hpending, List.append_assoc]
      · rw [← hcont.atEnd]
        exact hstop hnone

theorem fillHeaders_error {buf : List UInt8} {e : Exn} (h : fillHeaders s buf = .error e) :
    s.atEnd = .error e ∧ find separator (buf ++ s.pending) = none := by
  fun_induction fillHeaders s buf with
  | case1 s buf sep hfind => cases h
  | case2 s buf hfind e' hread =>
      cases h
      obtain ⟨hnil, hend⟩ := Sock.read_error hread
      rw [hnil, List.append_nil]
      exact ⟨hend, hfind⟩
  | case3 s buf hfind s'' hread => cases h
  | case4 s buf hfind chunk s'' hread hchunk ih =>
      obtain ⟨hpending, hcont⟩ := Sock.read_ok hread
      obtain ⟨hend, hnone⟩ := ih h
      rw [hpending, ← List.append_assoc, ← hcont.atEnd]
      exact ⟨hend, hnone⟩

/-- The head of a response does not depend on how much was read with it. -/
theorem response_of_find {buf : List UInt8} {sep : Nat}
    (hbytes : s.pending = buf ++ s'.pending) (hfind : find separator buf = some sep) :
    s.response = (parseHead (buf.take sep)).map fun (status, hdrs) =>
      (status, hdrs, buf.drop (sep + 4) ++ s'.pending) := by
  have hlen : sep + 4 ≤ buf.length := (firstAt_of_find hfind).length_le separator_ne_nil
  rw [Link.response, hbytes, find_append hfind separator_ne_nil]
  simp only [List.take_append_of_le_length (by omega : sep ≤ buf.length),
    List.drop_append_of_le_length hlen]
  cases parseHead (buf.take sep) <;> rfl

/-- What `_read_headers` returns is the response as a whole: the body is what is left over with
what is still to come. -/
theorem readHeaders_response (s : Sock) :
    ((readHeaders s).map fun (status, hdrs, leftover, s') =>
      (status, hdrs, leftover ++ s'.pending)) = s.response := by
  rw [readHeaders]
  cases hfill : fillHeaders s [] with
  | error e =>
      obtain ⟨hend, hnone⟩ := fillHeaders_error hfill
      rw [List.nil_append] at hnone
      rw [Link.response, hnone, hend]
      rfl
  | ok filled =>
      obtain ⟨buf, s'⟩ := filled
      obtain ⟨hbytes, -, hstop⟩ := fillHeaders_ok hfill
      rw [List.nil_append] at hbytes
      cases hfind : find separator buf with
      | none =>
          obtain ⟨hnil, hend⟩ := hstop hfind
          rw [hnil, List.append_nil] at hbytes
          rw [Link.response, ← hbytes, hfind, hend]
          simp only [bind, Except.bind, hfind]
          rfl
      | some sep =>
          rw [response_of_find hbytes.symm hfind]
          simp only [bind, Except.bind, hfind]
          cases parseHead (buf.take sep) <;> rfl

theorem readHeaders_continues {status : Int} {hdrs : Headers} {leftover : List UInt8}
    (h : readHeaders s = .ok (status, hdrs, leftover, s')) : s.toLink.Continues s'.toLink := by
  obtain ⟨⟨buf, s''⟩, hfill, h⟩ := bind_ok h
  cases hfind : find separator buf with
  | none =>
      simp only [hfind] at h
      cases h
  | some sep =>
      simp only [hfind] at h
      obtain ⟨⟨status', hdrs'⟩, -, h⟩ := bind_ok h
      cases h
      exact (fillHeaders_ok hfill).2.1

theorem readHeaders_error {e : Exn} (h : readHeaders s = .error e) : s.response = .error e := by
  rw [← readHeaders_response, h]
  rfl

theorem readHeaders_ok {status : Int} {hdrs : Headers} {leftover : List UInt8}
    (h : readHeaders s = .ok (status, hdrs, leftover, s')) :
    s.response = .ok (status, hdrs, leftover ++ s'.pending) ∧
      s.toLink.Continues s'.toLink := by
  refine ⟨?_, readHeaders_continues h⟩
  rw [← readHeaders_response, h]
  rfl

end FreedosMicroPython.Wget
