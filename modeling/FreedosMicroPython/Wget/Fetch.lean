import FreedosMicroPython.Wget.Response
/-!
# fetch

`fetch` of `examples/wget.py`, with `_connect` and `_build_request`. How a read splits the bytes of
the `k`-th connection is `cuts k`. `follow` is the same chain of redirects over whole responses, and
`fetch` does what `finish` makes of its end.
-/

namespace FreedosMicroPython.Wget

open FreedosMicroPython.Lib.Find FreedosMicroPython.OsPath

/-! ## The arguments and the world -/

/-- The arguments of `fetch` behind the URL. -/
structure Args where
  out : Option (List UInt8)
  headers : List (List UInt8 × List UInt8)
  verify : Bool
  caCerts : Option (List UInt8)
  bufSize : Nat
  maxRedirects : Int
  bufSize_pos : 0 < bufSize

/-- What `fetch` finds: `ssl` says that the module is there, `tcp` and `wrap` are what the `k`-th
connection to a host and a port and its handshake come to, `readFile` reads the certificates,
`load` takes them as a text or as bytes, and `openError` is the error of opening a file. -/
structure World where
  ssl : Bool
  tcp : Nat → List UInt8 → Int → Except Exn Peer
  wrap : Nat → Context → Option (List UInt8) → Except Exn Peer
  readFile : List UInt8 → Except Exn (List UInt8)
  load : Bool → List UInt8 → Except Exn Unit
  openError : List UInt8 → Option Exn

/-- The files, and every byte that was written to one with the context of the connection it came
over. A write takes all bytes. -/
structure Disk where
  files : List UInt8 → Option (List UInt8)
  written : List (Option Context × UInt8)

def Disk.create (d : Disk) (sink : List UInt8) : Disk :=
  { d with files := fun file => if file = sink then some [] else d.files file }

def Disk.write (d : Disk) (sink : List UInt8) (context : Option Context) (data : List UInt8) :
    Disk where
  files file := if file = sink then (d.files file).map (· ++ data) else d.files file
  written := d.written ++ data.map fun c => (context, c)

/-! ## The connection -/

/-- `encode("ascii")` and `decode("ascii")`. -/
def ascii (s : List UInt8) : Except Exn (List UInt8) :=
  if s.all (· < 0x80) then .ok s else .error .unicodeError

/-- `load_verify_locations` for the bytes of the file: as a text where they hold a certificate in
PEM, as they are where that raises a `TypeError` or a `ValueError`. -/
def loadCerts (w : World) (cadata : List UInt8) : Except Exn Unit :=
  if str "-----BEGIN" <:+: cadata then
    match ascii cadata >>= w.load true with
    | .ok () => .ok ()
    | .error e =>
        if e = .typeError ∨ e = .valueError ∨ e = .unicodeError then w.load false cadata
        else .error e
  else w.load false cadata

def makeContext (w : World) (a : Args) : Except Exn Context :=
  if a.verify then
    match a.caCerts with
    | none => .ok ⟨.certRequired, none⟩
    | some file => do
        let cadata ← w.readFile file
        loadCerts w cadata
        return ⟨.certRequired, some cadata⟩
  else .ok ⟨.certNone, none⟩

/-- `wrap_socket`, without the name of the server where it does not take one. -/
def wrapSocket (w : World) (k : Nat) (context : Context) (host : List UInt8) : Except Exn Peer :=
  match w.wrap k context (some host) with
  | .error .typeError => w.wrap k context none
  | result => result

def connect (w : World) (a : Args) (k : Nat) (scheme host : List UInt8) (port : Int) :
    Except Exn Link := do
  let peer ← w.tcp k host port
  if scheme ≠ str "https" then
    return { toPeer := peer, context := none }
  if !w.ssl then
    throw (.osError "ssl module not available — build with MICROPY_PY_SSL=1")
  let context ← makeContext w a
  let peer ← wrapSocket w k context host
  return { toPeer := peer, context := some context }

def buildRequest (host path : List UInt8) (headers : List (List UInt8 × List UInt8)) :
    Except Exn (List UInt8) := do
  let path ← ascii path
  let host ← ascii host
  let more ← headers.mapM fun (k, v) => return (← ascii k) ++ str ": " ++ (← ascii v)
  let lines := [
    str "GET " ++ path ++ str " HTTP/1.0",
    str "Host: " ++ host,
    str "User-Agent: uc386-wget/1.0",
    str "Accept: */*",
    str "Connection: close"] ++ more
  return (lines.intersperse crlf).flatten ++ separator

def Link.send (l : Link) (request : List UInt8) : Except Exn Unit :=
  match l.sendError request with
  | some e => .error e
  | none => .ok ()

/-- The turn of the loop of `fetch` up to the response: the target and the connection. -/
def request (w : World) (a : Args) (k : Nat) (url : List UInt8) : Except Exn (Target × Link) := do
  let t := splitUrl url
  match t.port with
  | none => throw .valueError
  | some port =>
      let link ← connect w a k t.scheme t.host port
      link.send (← buildRequest t.host t.path a.headers)
      return (t, link)

/-! ## The loops -/

structure Result where
  status : Int
  total : Nat
  path : List UInt8
  deriving DecidableEq, Repr

def redirectOf (status : Int) (hdrs : Headers) : Option (List UInt8) :=
  if 300 ≤ status ∧ status < 400 then hdrs.lookup (str "location") else none

def tooMany (a : Args) : Exn := .osErrorNum "too many redirects (%d)" a.maxRedirects

def httpStatus (status : Int) : Exn := .osErrorNum "HTTP %d" status

def sinkOf (a : Args) (path : List UInt8) : List UInt8 :=
  match a.out with
  | some out => out
  | none =>
      let name :=
        match cutLast '/'.toUInt8 path with
        | some (_, name) => name
        | none => path
      if name = [] then str "index.html" else name

def bodyLoop (n : Nat) (sink : List UInt8) (s : Sock) (total : Nat) (d : Disk) :
    Except Exn Nat × Disk :=
  match _ : s.read n with
  | .error e => (.error e, d)
  | .ok (chunk, s') =>
      if _ : chunk = [] then (.ok total, d)
      else bodyLoop n sink s' (total + chunk.length) (d.write sink s.context chunk)
termination_by s.pending.length
decreasing_by exact Sock.read_decreases (by assumption) (by assumption)

/-- `fetch` behind the headers of a response that is saved. -/
def save (w : World) (a : Args) (path : List UInt8) (status : Int) (leftover : List UInt8)
    (s : Sock) (d : Disk) : Except Exn Result × Disk :=
  let sink := sinkOf a path
  match w.openError sink with
  | some e => (.error e, d)
  | none =>
      let d := (d.create sink).write sink s.context leftover
      let (total, d) := bodyLoop a.bufSize sink s leftover.length d
      (total.map fun total => ⟨status, total, sink⟩, d)

/-- The loop of `fetch`, where `left` more redirects are followed. -/
def fetchFrom (w : World) (a : Args) (cuts : Nat → Nat → Nat) (left k : Nat) (url : List UInt8)
    (d : Disk) : Except Exn Result × Disk :=
  match request w a k url with
  | .error e => (.error e, d)
  | .ok (t, link) =>
      match readHeaders { toLink := link, cuts := cuts k } with
      | .error e => (.error e, d)
      | .ok (status, hdrs, leftover, s) =>
          match redirectOf status hdrs, left with
          | some _, 0 => (.error (tooMany a), d)
          | some location, left + 1 =>
              fetchFrom w a cuts left (k + 1) (resolveRedirect t.scheme t.host t.path location) d
          | none, _ =>
              if status ≠ 200 then (.error (httpStatus status), d)
              else save w a t.path status leftover s d

def fetch (w : World) (a : Args) (cuts : Nat → Nat → Nat) (url : List UInt8) (d : Disk) :
    Except Exn Result × Disk :=
  fetchFrom w a cuts a.maxRedirects.toNat 0 url d

/-! ## Whole responses -/

/-- A response with the status 200: what was requested, the connection as it was opened, the
headers and the body. -/
structure Answer where
  target : Target
  link : Link
  hdrs : Headers
  body : List UInt8

/-- How a chain of redirects ends: with an exception, or with an answer behind the locations that
were followed. -/
inductive Final where
  | raised (e : Exn)
  | answered (via : List (List UInt8)) (r : Answer)

def Final.behind (location : List UInt8) : Final → Final
  | .raised e => .raised e
  | .answered via r => .answered (location :: via) r

def follow (w : World) (a : Args) (left k : Nat) (url : List UInt8) : Final :=
  match request w a k url with
  | .error e => .raised e
  | .ok (t, link) =>
      match link.response with
      | .error e => .raised e
      | .ok (status, hdrs, body) =>
          match redirectOf status hdrs, left with
          | some _, 0 => .raised (tooMany a)
          | some location, left + 1 =>
              (follow w a left (k + 1)
                (resolveRedirect t.scheme t.host t.path location)).behind location
          | none, _ =>
              if status ≠ 200 then .raised (httpStatus status)
              else .answered [] ⟨t, link, hdrs, body⟩

def final (w : World) (a : Args) (url : List UInt8) : Final := follow w a a.maxRedirects.toNat 0 url

/-- The end of `fetch`: the body goes into the file, and the end of the connection decides whether
that was a success. -/
def finish (w : World) (a : Args) (d : Disk) : Final → Except Exn Result × Disk
  | .raised e => (.error e, d)
  | .answered _ r =>
      let sink := sinkOf a r.target.path
      match w.openError sink with
      | some e => (.error e, d)
      | none =>
          (r.link.atEnd.map fun () => ⟨200, r.body.length, sink⟩,
            (d.create sink).write sink r.link.context r.body)

/-! ## Reading a body -/

theorem Disk.write_nil (d : Disk) (sink : List UInt8) (context : Option Context) :
    d.write sink context [] = d := by
  simp [Disk.write]

theorem Disk.write_append (d : Disk) (sink : List UInt8) (context : Option Context)
    (xs ys : List UInt8) :
    (d.write sink context xs).write sink context ys = d.write sink context (xs ++ ys) := by
  simp only [Disk.write, List.map_append, List.append_assoc, Disk.mk.injEq, and_true]
  funext file
  by_cases hfile : file = sink
  · simp only [if_pos hfile, Option.map_map]
    congr 1
    funext content
    exact List.append_assoc content xs ys
  · simp only [if_neg hfile]

/-- The loop writes all bytes that are still to come, however they are split. -/
theorem bodyLoop_eq {n : Nat} (hn : 0 < n) (sink : List UInt8) (s : Sock) (total : Nat)
    (d : Disk) :
    bodyLoop n sink s total d =
      (s.atEnd.map fun () => total + s.pending.length, d.write sink s.context s.pending) := by
  fun_induction bodyLoop n sink s total d with
  | case1 s total d e hread =>
      obtain ⟨hnil, hend⟩ := Sock.read_error hread
      rw [hnil, hend, Disk.write_nil]
      rfl
  | case2 s total d s' hread =>
      obtain ⟨hnil, hend⟩ := Sock.read_nil hn hread
      rw [hnil, hend, Disk.write_nil]
      rfl
  | case3 s total d chunk s' hread hchunk ih =>
      obtain ⟨hpending, hcont⟩ := Sock.read_ok hread
      rw [ih, hcont.atEnd, hcont.context, Disk.write_append, hpending, List.length_append,
        Nat.add_assoc]

theorem save_eq (w : World) (a : Args) (path : List UInt8) (status : Int)
    (leftover : List UInt8) (s : Sock) (d : Disk) :
    save w a path status leftover s d =
      match w.openError (sinkOf a path) with
      | some e => (.error e, d)
      | none =>
          (s.atEnd.map fun () => ⟨status, (leftover ++ s.pending).length, sinkOf a path⟩,
            (d.create (sinkOf a path)).write (sinkOf a path) s.context
              (leftover ++ s.pending)) := by
  rw [save]
  cases w.openError (sinkOf a path) with
  | some e => rfl
  | none =>
      simp only [bodyLoop_eq a.bufSize_pos, Disk.write_append, List.length_append]
      cases s.atEnd <;> rfl

/-! ## The chain of redirects -/

theorem finish_behind (w : World) (a : Args) (d : Disk) (location : List UInt8) (f : Final) :
    finish w a d (f.behind location) = finish w a d f := by
  cases f <;> rfl

theorem fetchFrom_eq_finish (w : World) (a : Args) (cuts : Nat → Nat → Nat) (left k : Nat)
    (url : List UInt8) (d : Disk) :
    fetchFrom w a cuts left k url d = finish w a d (follow w a left k url) := by
  fun_induction fetchFrom w a cuts left k url d with
  | case1 left k url e hrequest =>
      rw [follow, hrequest]
      rfl
  | case2 left k url t link hrequest e hread =>
      rw [follow, hrequest]
      simp only [readHeaders_error hread]
      rfl
  | case3 k url t link hrequest status hdrs leftover s hread location hredirect =>
      rw [follow, hrequest]
      simp only [(readHeaders_ok hread).1, hredirect]
      rfl
  | case4 k url t link hrequest status hdrs leftover s hread location left hredirect ih =>
      conv_rhs => rw [follow, hrequest]
      simp only [(readHeaders_ok hread).1, hredirect, finish_behind]
      exact ih
  | case5 left k url t link hrequest status hdrs leftover s hread hredirect hstatus =>
      rw [follow, hrequest]
      simp only [(readHeaders_ok hread).1, hredirect, if_pos hstatus]
      rfl
  | case6 left k url t link hrequest status hdrs leftover s hread hredirect hstatus =>
      obtain ⟨hresponse, hcont⟩ := readHeaders_ok hread
      rw [follow, hrequest]
      simp only [hresponse, hredirect, if_neg hstatus]
      rw [save_eq, not_not.mp hstatus, hcont.atEnd, hcont.context]
      rfl

theorem fetch_eq_finish (w : World) (a : Args) (cuts : Nat → Nat → Nat) (url : List UInt8)
    (d : Disk) : fetch w a cuts url d = finish w a d (final w a url) :=
  fetchFrom_eq_finish w a cuts _ 0 url d

theorem finish_ok {w : World} {a : Args} {d d' : Disk} {f : Final} {result : Result}
    (h : finish w a d f = (.ok result, d')) :
    ∃ via r, f = .answered via r ∧ w.openError (sinkOf a r.target.path) = none ∧
      r.link.atEnd = .ok () ∧ result = ⟨200, r.body.length, sinkOf a r.target.path⟩ ∧
      d' = (d.create result.path).write result.path r.link.context r.body := by
  cases f with
  | raised e => cases h
  | answered via r =>
      rw [finish] at h
      cases hopen : w.openError (sinkOf a r.target.path) with
      | some e =>
          simp only [hopen] at h
          cases h
      | none =>
          simp only [hopen] at h
          cases hend : r.link.atEnd with
          | error e =>
              rw [hend] at h
              cases h
          | ok =>
              rw [hend] at h
              cases h
              exact ⟨via, r, rfl, hopen, hend, rfl, rfl⟩

theorem connect_context {w : World} {a : Args} {k : Nat} {scheme host : List UInt8} {port : Int}
    {link : Link} (h : connect w a k scheme host port = .ok link) :
    (scheme ≠ str "https" ∧ link.context = none) ∨
      scheme = str "https" ∧ ∃ context, makeContext w a = .ok context ∧
        link.context = some context := by
  obtain ⟨peer, -, h⟩ := bind_ok h
  by_cases hscheme : scheme = str "https"
  · refine .inr ⟨hscheme, ?_⟩
    rw [if_neg (not_not.mpr hscheme)] at h
    by_cases hssl : (!w.ssl) = true
    · rw [if_pos hssl] at h
      cases h
    · rw [if_neg hssl] at h
      obtain ⟨context, hcontext, h⟩ := bind_ok h
      obtain ⟨peer', -, h⟩ := bind_ok h
      cases h
      exact ⟨context, hcontext, rfl⟩
  · rw [if_pos hscheme] at h
    cases h
    exact .inl ⟨hscheme, rfl⟩

theorem request_ok {w : World} {a : Args} {k : Nat} {url : List UInt8} {t : Target}
    {link : Link} (h : request w a k url = .ok (t, link)) :
    t = splitUrl url ∧
      ∃ port, t.port = some port ∧ connect w a k t.scheme t.host port = .ok link := by
  rw [request] at h
  cases hport : (splitUrl url).port with
  | none =>
      simp only [hport] at h
      cases h
  | some port =>
      simp only [hport] at h
      obtain ⟨link', hconnect, h⟩ := bind_ok h
      obtain ⟨bytes, -, h⟩ := bind_ok h
      obtain ⟨-, -, h⟩ := bind_ok h
      cases h
      exact ⟨rfl, port, hport, hconnect⟩

theorem Final.behind_eq_answered {location : List UInt8} {f : Final}
    {via : List (List UInt8)} {r : Answer} (h : f.behind location = .answered via r) :
    ∃ via', via = location :: via' ∧ f = .answered via' r := by
  cases f with
  | raised e => cases h
  | answered via' r' =>
      cases h
      exact ⟨via', rfl, rfl⟩

/-- An answer comes over a connection that was opened for its target: the URL behind all locations
that were followed. -/
theorem follow_answered {w : World} {a : Args} {left k : Nat} {url : List UInt8}
    {via : List (List UInt8)} {r : Answer} (h : follow w a left k url = .answered via r) :
    (∃ k', request w a k' (via.foldl nextUrl url) = .ok (r.target, r.link)) ∧
      r.link.response = .ok (200, r.hdrs, r.body) := by
  fun_induction follow w a left k url generalizing via with
  | case1 => cases h
  | case2 => cases h
  | case3 => cases h
  | case4 k url t link hrequest status hdrs body hresponse location left hredirect ih =>
      obtain ⟨via', rfl, hfollow⟩ := Final.behind_eq_answered h
      rw [List.foldl_cons, nextUrl, ← (request_ok hrequest).1]
      exact ih hfollow
  | case5 => cases h
  | case6 left k url t link hrequest status hdrs body hresponse hredirect hstatus =>
      cases h
      rw [← not_not.mp hstatus]
      exact ⟨⟨k, hrequest⟩, hresponse⟩

/-- However the reads split what the peers send, the headers, the results and the files are the
same, and a file that was saved holds what stands behind the first separator. -/
theorem fetch_split_independent (w : World) (a : Args) (url : List UInt8) (d : Disk) :
    (∀ (l : Link) (cuts cuts' : Nat → Nat),
      ((readHeaders ⟨l, cuts⟩).map fun (status, hdrs, _) => (status, hdrs)) =
        (readHeaders ⟨l, cuts'⟩).map fun (status, hdrs, _) => (status, hdrs)) ∧
      (∀ cuts cuts', fetch w a cuts url d = fetch w a cuts' url d) ∧
      ∀ cuts result d', fetch w a cuts url d = (.ok result, d') →
        ∃ via r sep, final w a url = .answered via r ∧ FirstAt separator r.link.pending sep ∧
          result.status = 200 ∧
          d'.files result.path = some (r.link.pending.drop (sep + 4)) ∧
          result.total = (r.link.pending.drop (sep + 4)).length := by
  refine ⟨fun l cuts cuts' => ?_, fun cuts cuts' => ?_, fun cuts result d' h => ?_⟩
  · have hhead : ∀ s : Sock, ((readHeaders s).map fun (status, hdrs, _) => (status, hdrs)) =
        s.response.map fun (status, hdrs, _) => (status, hdrs) := by
      intro s
      rw [← readHeaders_response s]
      cases readHeaders s <;> rfl
    rw [hhead, hhead]
  · rw [fetch_eq_finish, fetch_eq_finish]
  · rw [fetch_eq_finish] at h
    obtain ⟨via, r, hfinal, -, -, rfl, rfl⟩ := finish_ok h
    obtain ⟨sep, hfirst, hbody⟩ := Link.response_ok (follow_answered hfinal).2
    refine ⟨via, r, sep, hfinal, hfirst, rfl, ?_, by rw [hbody]⟩
    simp [Disk.write, Disk.create, hbody]

def scripted (responses : List String) (ending : Ending) : World where
  ssl := true
  tcp k _ _ := .ok ⟨str (responses.getD k ""), ending, fun _ => none⟩
  wrap k _ _ := .ok ⟨str (responses.getD k ""), ending, fun _ => none⟩
  readFile _ := .error (.errno 2)
  load _ _ := .ok ()
  openError _ := none

def toFile (verify : Bool) : Args := ⟨some (str "out"), [], verify, none, 4096, 5, by decide⟩

def emptyDisk : Disk := ⟨fun _ => none, []⟩

/-- Read byte by byte. -/
theorem fetch_split_independent_bytewise :
    ∃ body, (fetch (scripted ["HTTP/1.0 200 OK\r\n\r\nhi"] .closed) (toFile false) (fun _ _ => 1)
      (str "http://a/f") emptyDisk).2.files (str "out") = some body ∧ 2 = body.length := by
  have hfetch : (fetch (scripted ["HTTP/1.0 200 OK\r\n\r\nhi"] .closed) (toFile false)
      (fun _ _ => 1) (str "http://a/f") emptyDisk).1 = .ok ⟨200, 2, str "out"⟩ := by
    rw [fetch_eq_finish]
    decide
  obtain ⟨_, _, _, -, -, -, hfile, htotal⟩ := (fetch_split_independent _ _ _ _).2.2 _ _ _
    (Prod.ext hfetch rfl)
  exact ⟨_, hfile, htotal⟩

end FreedosMicroPython.Wget
