import FreedosMicroPython.Lib.Ledger
import FreedosMicroPython.Wget.Fetch
/-!
# The sockets of fetch

`fetch` of `examples/wget.py` with every socket and file that it opens and closes. It ends as the
`fetch` over whole connections does, with the same files. Its `finally` closes the socket of a turn
before the next one is opened; only a socket that `_connect` has opened and could not connect or
wrap is left open.
-/

namespace FreedosMicroPython.Wget.Sockets

open FreedosMicroPython.Lib.Action FreedosMicroPython.Lib.Ledger FreedosMicroPython.OsPath

/-! ## The network and the files -/

/-- What `fetch` finds: what each step towards the `k`-th connection comes to, what closing its
socket raises, and the certificates and the files as they are in `World`. -/
structure Net (Addr : Type) where
  ssl : Bool
  getaddrinfo : Nat → List UInt8 → Int → Except Exn Addr
  socket : Nat → Option Exn
  connect : Nat → Addr → Except Exn Peer
  wrap : Nat → Context → Option (List UInt8) → Except Exn Peer
  close : Nat → Option Exn
  openRead : List UInt8 → Option Exn
  read : List UInt8 → Except Exn (List UInt8)
  load : Bool → List UInt8 → Except Exn Unit
  openError : List UInt8 → Option Exn

variable {Addr : Type} (net : Net Addr)

def Net.world : World where
  ssl := net.ssl
  tcp k host port := do
    let addr ← net.getaddrinfo k host port
    match net.socket k with
    | some e => throw e
    | none => net.connect k addr
  wrap := net.wrap
  readFile file :=
    match net.openRead file with
    | some e => .error e
    | none => net.read file
  load := net.load
  openError := net.openError

/-- The files, and what was written to `sys.stdout` and `sys.stderr`. -/
structure Machine where
  disk : Disk
  out : List UInt8
  err : List UInt8

def Machine.onDisk (m : Machine) (f : Disk → Disk) : Machine := { m with disk := f m.disk }

abbrev Prog (α : Type) : Type := Act Exn (Heap × Machine) α

variable {α β : Type}

def ofExcept : Except Exn α → Prog α
  | .ok x => pure x
  | .error e => raise e

def onDisk (f : Disk → Disk) : Prog Unit := beside fun m => m.onDisk f

/-! ## fetch -/

variable (a : Args) (cuts : Nat → Nat → Nat)

def close (k sock : Nat) : Prog Unit := do
  free sock
  match net.close k with
  | some e => raise e
  | none => pure ()

def withFile (openError : Option Exn) (body : Nat → Prog α) : Prog α :=
  match openError with
  | some e => raise e
  | none => do
      let f ← hold
      tryFinally (body f) (free f)

def makeContext : Prog Context :=
  if a.verify then
    match a.caCerts with
    | none => pure ⟨.certRequired, none⟩
    | some file => do
        let cadata ← withFile (net.openRead file) fun f => do
          touch f
          ofExcept (net.read file)
        ofExcept (loadCerts net.world cadata)
        pure ⟨.certRequired, some cadata⟩
  else pure ⟨.certNone, none⟩

def secure (k : Nat) (scheme host : List UInt8) (sock : Nat) (peer : Peer) : Prog (Nat × Link) :=
  if scheme ≠ str "https" then
    pure (sock, { toPeer := peer, context := none })
  else if !net.ssl then do
    close net k sock
    raise (.osError "ssl module not available — build with MICROPY_PY_SSL=1")
  else do
    let context ← makeContext net a
    touch sock
    let peer ← ofExcept (wrapSocket net.world k context host)
    pure (sock, { toPeer := peer, context := some context })

def connect (k : Nat) (scheme host : List UInt8) (port : Int) : Prog (Nat × Link) := do
  let addr ← ofExcept (net.getaddrinfo k host port)
  match net.socket k with
  | some e => raise e
  | none => do
      let sock ← hold
      touch sock
      let peer ← ofExcept (net.connect k addr)
      secure net a k scheme host sock peer

def bodyLoop (sock f n : Nat) (sink : List UInt8) (s : Sock) (total : Nat) : Prog Nat :=
  match _ : s.read n with
  | .error e => do
      touch sock
      raise e
  | .ok (chunk, s') =>
      if _ : chunk = [] then do
        touch sock
        pure total
      else do
        touch sock
        touch f
        onDisk fun d => d.write sink s.context chunk
        bodyLoop sock f n sink s' (total + chunk.length)
termination_by s.pending.length
decreasing_by exact Sock.read_decreases (by assumption) (by assumption)

def save (sock : Nat) (path : List UInt8) (status : Int) (leftover : List UInt8) (s : Sock) :
    Prog Result :=
  let sink := sinkOf a path
  withFile (net.openError sink) fun f => do
    onDisk fun d => d.create sink
    if leftover ≠ [] then do
      touch f
      onDisk fun d => d.write sink s.context leftover
    let total ← bodyLoop sock f a.bufSize sink s leftover.length
    pure ⟨status, total, sink⟩

/-- How a turn of the loop ends: with another URL, or with the result. -/
inductive Turn where
  | again (url : List UInt8)
  | done (result : Result)

def exchange (left k sock : Nat) (t : Target) (link : Link) : Prog Turn := do
  touch sock
  let bytes ← ofExcept (buildRequest t.host t.path a.headers)
  ofExcept (link.send bytes)
  touch sock
  let (status, hdrs, leftover, s) ← ofExcept (readHeaders { toLink := link, cuts := cuts k })
  match redirectOf status hdrs, left with
  | some _, 0 => raise (tooMany a)
  | some location, _ + 1 => pure (.again (resolveRedirect t.scheme t.host t.path location))
  | none, _ =>
      if status ≠ 200 then raise (httpStatus status)
      else do
        let result ← save net a sock t.path status leftover s
        pure (.done result)

/-- `try: sock.close() except Exception: pass`. -/
def closeQuietly (k sock : Nat) : Prog Unit :=
  tryExcept (close net k sock) fun _ => some (pure ())

def turn (left k : Nat) (url : List UInt8) : Prog Turn := do
  let t := splitUrl url
  match t.port with
  | none => raise .valueError
  | some port => do
      let (sock, link) ← connect net a k t.scheme t.host port
      tryFinally (exchange net a cuts left k sock t link) (closeQuietly net k sock)

def fetchFrom : Nat → Nat → List UInt8 → Prog Result
  | 0, k, url => do
      match ← turn net a cuts 0 k url with
      | .done result => pure result
      -- does not occur: `exchange` raises where no redirect is left
      | .again _ => raise (tooMany a)
  | left + 1, k, url => do
      match ← turn net a cuts (left + 1) k url with
      | .done result => pure result
      | .again url => fetchFrom left (k + 1) url

def fetch (url : List UInt8) : Prog Result := fetchFrom net a cuts a.maxRedirects.toNat 0 url

/-! ## Whole connections -/

/-- The body of the `try` statement over a whole connection, behind the request. -/
def answerEnd (w : World) (left k : Nat) (t : Target) (link : Link) (d : Disk) :
    Except Exn Turn × Disk :=
  match readHeaders { toLink := link, cuts := cuts k } with
  | .error e => (.error e, d)
  | .ok (status, hdrs, leftover, s) =>
      match redirectOf status hdrs, left with
      | some _, 0 => (.error (tooMany a), d)
      | some location, _ + 1 =>
          (.ok (.again (resolveRedirect t.scheme t.host t.path location)), d)
      | none, _ =>
          if status ≠ 200 then (.error (httpStatus status), d)
          else
            let saved := Wget.save w a t.path status leftover s d
            (saved.1.map .done, saved.2)

def exchangeEnd (w : World) (left k : Nat) (t : Target) (link : Link) (d : Disk) :
    Except Exn Turn × Disk :=
  match buildRequest t.host t.path a.headers >>= link.send with
  | .error e => (.error e, d)
  | .ok () => answerEnd a cuts w left k t link d

def turnEnd (w : World) (left k : Nat) (url : List UInt8) (d : Disk) : Except Exn Turn × Disk :=
  let t := splitUrl url
  match t.port with
  | none => (.error .valueError, d)
  | some port =>
      match Wget.connect w a k t.scheme t.host port with
      | .error e => (.error e, d)
      | .ok link => exchangeEnd a cuts w left k t link d

/-- `_connect` has opened a socket and raises while it is open. -/
def abandons (k : Nat) (scheme host : List UInt8) (port : Int) : Bool :=
  match net.getaddrinfo k host port, net.socket k with
  | .ok addr, none =>
      match net.connect k addr with
      | .error _ => true
      | .ok _ =>
          scheme = str "https" && net.ssl &&
            !(Wget.makeContext net.world a >>= fun context =>
              wrapSocket net.world k context host).isOk
  | _, _ => false

def abandonsAt (k : Nat) (url : List UInt8) : Bool :=
  match (splitUrl url).port with
  | none => false
  | some port => abandons net a k (splitUrl url).scheme (splitUrl url).host port

def redirected (k : Nat) (url : List UInt8) : Option (List UInt8) :=
  match request net.world a k url with
  | .error _ => none
  | .ok (t, link) =>
      match link.response with
      | .error _ => none
      | .ok (status, hdrs, _) =>
          (redirectOf status hdrs).map (resolveRedirect t.scheme t.host t.path)

def leaks : Nat → Nat → List UInt8 → Bool
  | 0, k, url => abandonsAt net a k url
  | left + 1, k, url =>
      match redirected net a k url with
      | some next => leaks left (k + 1) next
      | none => abandonsAt net a k url

/-! ## What an action gives -/

def ending : Except Exn α → End Exn α
  | .ok x => .value x
  | .error e => .raised e

theorem ok_bind (x : α) (g : α → Except Exn β) : (Except.ok x >>= g) = g x := rfl

/-- With the objects `ins` open at the beginning and at the end, the action ends as `r` and makes
`m'` of `m`. -/
def Gives (ins : List Nat) (m : Machine) (act : Prog α) (r : Except Exn α) (m' : Machine) : Prop :=
  Does ins m act fun r' ys t => r' = ending r ∧ ys = ins ∧ t = m'

variable {ins : List Nat} {m m' m'' : Machine} {act : Prog α} {f : α → Prog β}
  {Q : End Exn β → List Nat → Machine → Prop}

theorem gives_ofExcept (r : Except Exn α) : Gives ins m (ofExcept r) r m := by
  cases r with
  | ok x => exact does_pure ⟨rfl, rfl, rfl⟩
  | error e => exact does_raise ⟨rfl, rfl, rfl⟩

theorem Gives.bind_ok {x : α} (ha : Gives ins m act (.ok x) m') (h : Does ins m' (f x) Q) :
    Does ins m (act >>= f) Q := by
  refine Does.bind_value ha ?_
  rintro ys t ⟨rfl, rfl⟩
  exact h

theorem Gives.bind_error {e : Exn} (ha : Gives ins m act (.error e) m')
    (h : Q (.raised e) ins m') : Does ins m (act >>= f) Q := by
  refine Does.bind_raised ha ?_
  rintro ys t ⟨rfl, rfl⟩
  exact h

theorem Gives.bind {r : Except Exn α} {g : α → Except Exn β} (ha : Gives ins m act r m)
    (h : ∀ x, Gives ins m (f x) (g x) m) : Gives ins m (act >>= f) (r >>= g) m := by
  cases r with
  | ok x => exact Gives.bind_ok ha (h x)
  | error e => exact Gives.bind_error ha ⟨rfl, rfl, rfl⟩

/-- The file of a `with` statement is closed however its body ends. -/
theorem gives_withFile {body : Nat → Prog α} {r : Except Exn α}
    (h : ∀ f, Gives (f :: ins) m (body f) r m') : Gives ins m (withFile none body) r m' := by
  refine does_hold_bind fun f => Does.finally (h f) ?_ ?_
  · rintro ys t ⟨hr, -⟩
    cases r <;> cases hr
  · rintro r' ys t - ⟨rfl, rfl, rfl⟩
    exact does_free ⟨rfl, rfl, rfl⟩

/-! ## The steps -/

theorem makeContext_gives : Gives ins m (makeContext net a) (Wget.makeContext net.world a) m := by
  unfold makeContext Wget.makeContext
  split
  · cases hcerts : a.caCerts with
    | none => exact does_pure ⟨rfl, rfl, rfl⟩
    | some file =>
        refine Gives.bind ?_ fun cadata => Gives.bind (gives_ofExcept _) fun _ =>
          does_pure ⟨rfl, rfl, rfl⟩
        have hread : net.world.readFile file = match net.openRead file with
          | some e => .error e
          | none => net.read file := rfl
        rw [hread]
        cases hopen : net.openRead file with
        | some e => exact does_raise ⟨rfl, rfl, rfl⟩
        | none =>
            exact gives_withFile fun f => does_touch_bind List.mem_cons_self (gives_ofExcept _)
  · exact does_pure ⟨rfl, rfl, rfl⟩

theorem close_does {k sock : Nat} {Q : End Exn Unit → List Nat → Machine → Prop}
    (h : Q (match net.close k with
      | some e => .raised e
      | none => .value ()) ins m) : Does (sock :: ins) m (close net k sock) Q := by
  refine does_free_bind ?_
  cases hclose : net.close k with
  | some e =>
      rw [hclose] at h
      exact does_raise h
  | none =>
      rw [hclose] at h
      exact does_pure h

theorem closeQuietly_does {k sock : Nat} {Q : End Exn Unit → List Nat → Machine → Prop}
    (h : Q (.value ()) ins m) : Does (sock :: ins) m (closeQuietly net k sock) Q := by
  refine Does.except (P := fun r ys t => r ≠ .stuck ∧ ys = ins ∧ t = m) ?_ ?_ ?_
  · refine close_does net ⟨?_, rfl, rfl⟩
    split <;> simp
  · rintro r ys t hr ⟨hne, rfl, rfl⟩
    cases r with
    | value u => exact h
    | raised e => simpa using hr e rfl
    | stuck => exact absurd rfl hne
  · rintro e g ys t hg ⟨-, rfl, rfl⟩
    cases hg
    exact does_pure h

/-! `_connect` behind a TCP connection. -/

section
variable {net a} {k : Nat} {scheme host : List UInt8} {port : Int} {peer : Peer}
  (hpeer : net.world.tcp k host port = .ok peer)

include hpeer

theorem connect_plain (hscheme : scheme ≠ str "https") :
    Wget.connect net.world a k scheme host port = .ok { toPeer := peer, context := none } := by
  rw [Wget.connect, hpeer]
  exact if_pos hscheme

theorem connect_noSsl (hscheme : scheme = str "https") (hssl : net.ssl = false) :
    Wget.connect net.world a k scheme host port =
      .error (.osError "ssl module not available — build with MICROPY_PY_SSL=1") := by
  have hworld : (!net.world.ssl) = true := congrArg not hssl
  rw [Wget.connect, hpeer]
  simp only [ok_bind, if_neg (not_not.mpr hscheme), if_pos hworld]
  rfl

theorem connect_tls (hscheme : scheme = str "https") (hssl : net.ssl = true) :
    Wget.connect net.world a k scheme host port = (do
      let context ← Wget.makeContext net.world a
      let peer ← wrapSocket net.world k context host
      pure { toPeer := peer, context := some context }) := by
  have hworld : ¬ (!net.world.ssl) = true := by simp [Net.world, hssl]
  rw [Wget.connect, hpeer]
  simp only [ok_bind, if_neg (not_not.mpr hscheme), if_neg hworld]

end

theorem abandons_of_connect {k : Nat} {scheme host : List UInt8} {port : Int} {link : Link}
    (h : Wget.connect net.world a k scheme host port = .ok link) :
    abandons net a k scheme host port = false := by
  obtain ⟨peer, hpeer, -⟩ := bind_ok h
  obtain ⟨addr, haddr, hopened⟩ := bind_ok hpeer
  simp only [abandons, haddr]
  cases hsocket : net.socket k with
  | some e => rfl
  | none =>
      rw [hsocket] at hopened
      simp only [hopened]
      by_cases htls : scheme = str "https" ∧ net.ssl = true
      · rw [connect_tls hpeer htls.1 htls.2] at h
        obtain ⟨context, hcontext, h⟩ := bind_ok h
        obtain ⟨peer', hwrap, -⟩ := bind_ok h
        simp [hcontext, hwrap, ok_bind, Except.isOk, Except.toBool]
      · have hplain : (decide (scheme = str "https") && net.ssl) = false := by
          simpa using htls
        rw [hplain, Bool.false_and]

def Connects (k : Nat) (scheme host : List UInt8) (port : Int) (m : Machine)
    (r : End Exn (Nat × Link)) (ys : List Nat) (t : Machine) : Prop :=
  t = m ∧
    match r with
    | .value (sock, link) => ys = [sock] ∧
        Wget.connect net.world a k scheme host port = .ok link
    | .raised e => ys.length = (abandons net a k scheme host port).toNat ∧
        Wget.connect net.world a k scheme host port = .error e
    | .stuck => False

theorem secure_does (hclose : net.ssl = false → ∀ k, net.close k = none) (k : Nat)
    (scheme host : List UInt8) (port : Int) (sock : Nat) {peer : Peer}
    (hpeer : net.world.tcp k host port = .ok peer)
    (hwrapped : abandons net a k scheme host port = (scheme = str "https" && net.ssl &&
      !(Wget.makeContext net.world a >>= fun context =>
        wrapSocket net.world k context host).isOk)) :
    Does [sock] m (secure net a k scheme host sock peer)
      (Connects net a k scheme host port m) := by
  unfold secure Connects
  rw [hwrapped]
  by_cases hscheme : scheme = str "https"
  · rw [if_neg (not_not.mpr hscheme)]
    cases hssl : net.ssl with
    | false =>
        rw [connect_noSsl hpeer hscheme hssl]
        refine Does.step (close_does net ⟨?_, rfl, rfl⟩) (does_raise ⟨rfl, ?_, rfl⟩)
        · rw [hclose hssl k]
        · simp
    | true =>
        rw [connect_tls hpeer hscheme hssl]
        have hcontext : Gives [sock] m (makeContext net a) (Wget.makeContext net.world a) m :=
          makeContext_gives net a
        cases hmade : Wget.makeContext net.world a with
        | error e =>
            rw [hmade] at hcontext
            refine Gives.bind_error hcontext ⟨rfl, ?_, rfl⟩
            simp [hscheme, Except.isOk, Except.toBool, bind, Except.bind]
        | ok context =>
            rw [hmade] at hcontext
            refine Gives.bind_ok hcontext (does_touch_bind List.mem_cons_self ?_)
            cases hwrap : wrapSocket net.world k context host with
            | error e =>
                refine Gives.bind_error (gives_ofExcept _) ⟨rfl, ?_, ?_⟩
                · simp [hscheme, hwrap, Except.isOk, Except.toBool, bind, Except.bind]
                · simp only [ok_bind, hwrap]
                  rfl
            | ok peer' =>
                refine Gives.bind_ok (gives_ofExcept _) (does_pure ⟨rfl, rfl, ?_⟩)
                simp only [ok_bind, hwrap]
                rfl
  · rw [if_pos hscheme]
    exact does_pure ⟨rfl, rfl, connect_plain hpeer hscheme⟩

theorem connect_does (hclose : net.ssl = false → ∀ k, net.close k = none) (k : Nat)
    (scheme host : List UInt8) (port : Int) :
    Does [] m (connect net a k scheme host port) (Connects net a k scheme host port m) := by
  unfold connect
  cases haddr : net.getaddrinfo k host port with
  | error e =>
      refine Gives.bind_error (gives_ofExcept _) ⟨rfl, ?_, ?_⟩
      · simp [abandons, haddr]
      · simp only [Wget.connect, Net.world, haddr]
        rfl
  | ok addr =>
      refine Gives.bind_ok (gives_ofExcept _) ?_
      cases hsocket : net.socket k with
      | some e =>
          refine does_raise ⟨rfl, ?_, ?_⟩
          · simp [abandons, haddr, hsocket]
          · simp only [Wget.connect, Net.world, haddr, hsocket]
            rfl
      | none =>
          have htcp : net.world.tcp k host port = net.connect k addr := by
            simp only [Net.world, haddr, hsocket]
            rfl
          refine does_hold_bind fun sock => does_touch_bind List.mem_cons_self ?_
          cases hpeer : net.connect k addr with
          | error e =>
              refine Gives.bind_error (gives_ofExcept _) ⟨rfl, ?_, ?_⟩
              · simp [abandons, haddr, hsocket, hpeer]
              · simp only [Wget.connect, htcp, hpeer]
                rfl
          | ok peer =>
              refine Gives.bind_ok (gives_ofExcept _) ?_
              refine secure_does net a hclose k scheme host port sock (htcp.trans hpeer) ?_
              simp only [abandons, haddr, hsocket, hpeer]

theorem Machine.onDisk_onDisk (m : Machine) (f g : Disk → Disk) :
    (m.onDisk f).onDisk g = m.onDisk fun d => g (f d) := rfl

theorem bodyLoop_gives {sock f n : Nat} (hn : 0 < n) (hsock : sock ∈ ins) (hf : f ∈ ins)
    (sink : List UInt8) (s : Sock) (total : Nat) :
    Gives ins m (bodyLoop sock f n sink s total)
      (s.atEnd.map fun () => total + s.pending.length)
      (m.onDisk fun d => d.write sink s.context s.pending) := by
  fun_induction bodyLoop sock f n sink s total generalizing m with
  | case1 s total e hread =>
      obtain ⟨hnil, hend⟩ := Sock.read_error hread
      simp only [hnil, hend, Disk.write_nil]
      exact does_touch_bind hsock (does_raise ⟨rfl, rfl, rfl⟩)
  | case2 s total s' hread =>
      obtain ⟨hnil, hend⟩ := Sock.read_nil hn hread
      simp only [hnil, hend, Disk.write_nil]
      exact does_touch_bind hsock (does_pure ⟨rfl, rfl, rfl⟩)
  | case3 s total chunk s' hread hchunk ih =>
      obtain ⟨hpending, hcont⟩ := Sock.read_ok hread
      refine does_touch_bind hsock (does_touch_bind hf (does_beside_bind ?_))
      have hloop := ih (m := m.onDisk fun d => d.write sink s.context chunk)
      rw [hcont.atEnd, hcont.context, Machine.onDisk_onDisk] at hloop
      simp only [Disk.write_append, Nat.add_assoc, ← List.length_append, ← hpending] at hloop
      exact hloop

theorem save_gives {sock : Nat} (hsock : sock ∈ ins) (path : List UInt8) (status : Int)
    (leftover : List UInt8) (s : Sock) :
    Gives ins m (save net a sock path status leftover s)
      (Wget.save net.world a path status leftover s m.disk).1
      (m.onDisk fun d => (Wget.save net.world a path status leftover s d).2) := by
  have hworld : net.world.openError (sinkOf a path) = net.openError (sinkOf a path) := rfl
  simp only [save_eq, hworld, save]
  cases hopen : net.openError (sinkOf a path) with
  | some e => exact does_raise ⟨rfl, rfl, rfl⟩
  | none =>
      refine gives_withFile fun f => does_beside_bind ?_
      have hloop : ∀ m : Machine, Does (f :: ins) m (do
          let total ← bodyLoop sock f a.bufSize (sinkOf a path) s leftover.length
          pure (⟨status, total, sinkOf a path⟩ : Result)) fun r ys t =>
            r = ending (s.atEnd.map fun () =>
              ⟨status, (leftover ++ s.pending).length, sinkOf a path⟩) ∧ ys = f :: ins ∧
            t = m.onDisk fun d => d.write (sinkOf a path) s.context s.pending := by
        intro m
        have hbody := bodyLoop_gives (m := m) a.bufSize_pos (List.mem_cons_of_mem f hsock)
          List.mem_cons_self (sinkOf a path) s leftover.length
        cases hend : s.atEnd with
        | error e =>
            rw [hend] at hbody
            exact Gives.bind_error hbody ⟨rfl, rfl, rfl⟩
        | ok =>
            rw [hend] at hbody
            refine Gives.bind_ok hbody (does_pure ⟨?_, rfl, rfl⟩)
            rw [List.length_append]
            rfl
      split
      · refine does_touch_bind List.mem_cons_self (does_beside_bind ?_)
        refine (hloop _).post fun r ys t ⟨hr, hys, ht⟩ => ⟨hr, hys, ?_⟩
        rw [ht]
        simp only [Machine.onDisk_onDisk, Disk.write_append]
      · next hnil =>
        rw [not_not.mp hnil] at hloop ⊢
        exact hloop _

theorem exchange_gives {sock : Nat} (hsock : sock ∈ ins) (left k : Nat) (t : Target)
    (link : Link) :
    Gives ins m (exchange net a cuts left k sock t link)
      (exchangeEnd a cuts net.world left k t link m.disk).1
      (m.onDisk fun d => (exchangeEnd a cuts net.world left k t link d).2) := by
  unfold exchange exchangeEnd answerEnd
  refine does_touch_bind hsock ?_
  cases hbytes : buildRequest t.host t.path a.headers with
  | error e => exact Gives.bind_error (gives_ofExcept _) ⟨rfl, rfl, rfl⟩
  | ok bytes =>
      refine Gives.bind_ok (gives_ofExcept _) ?_
      simp only [ok_bind]
      cases hsend : link.send bytes with
      | error e => exact Gives.bind_error (gives_ofExcept _) ⟨rfl, rfl, rfl⟩
      | ok =>
          refine Gives.bind_ok (gives_ofExcept _) (does_touch_bind hsock ?_)
          cases hread : readHeaders { toLink := link, cuts := cuts k } with
          | error e => exact Gives.bind_error (gives_ofExcept _) ⟨rfl, rfl, rfl⟩
          | ok head =>
              obtain ⟨status, hdrs, leftover, s⟩ := head
              refine Gives.bind_ok (gives_ofExcept _) ?_
              simp only
              split
              · exact does_raise ⟨rfl, rfl, rfl⟩
              · exact does_pure ⟨rfl, rfl, rfl⟩
              · by_cases hstatus : status ≠ 200
                · simp only [if_pos hstatus]
                  exact does_raise ⟨rfl, rfl, rfl⟩
                · simp only [if_neg hstatus]
                  have hsave := save_gives net a (m := m) hsock t.path status leftover s
                  cases hsaved : (Wget.save net.world a t.path status leftover s m.disk).1 with
                  | error e =>
                      rw [hsaved] at hsave
                      exact Gives.bind_error hsave ⟨rfl, rfl, rfl⟩
                  | ok result =>
                      rw [hsaved] at hsave
                      exact Gives.bind_ok hsave (does_pure ⟨rfl, rfl, rfl⟩)

/-- A turn closes its socket, or abandons it. -/
theorem turn_does (hclose : net.ssl = false → ∀ k, net.close k = none) (left k : Nat)
    (url : List UInt8) :
    Does [] m (turn net a cuts left k url) fun r ys t =>
      r = ending (turnEnd a cuts net.world left k url m.disk).1 ∧
        t = (m.onDisk fun d => (turnEnd a cuts net.world left k url d).2) ∧
        ys.length = (abandonsAt net a k url).toNat := by
  simp only [turn, turnEnd, abandonsAt]
  cases hport : (splitUrl url).port with
  | none => exact does_raise ⟨rfl, rfl, rfl⟩
  | some port =>
      refine Does.bind (connect_does net a hclose k _ _ port) ?_ ?_ ?_
      · rintro ⟨sock, link⟩ ys t ⟨rfl, rfl, hlink⟩
        simp only [hlink, abandons_of_connect net a hlink]
        refine Does.finally (exchange_gives net a cuts List.mem_cons_self left k _ link) ?_ ?_
        · rintro ys t ⟨hr, -⟩
          cases hend : (exchangeEnd a cuts net.world left k (splitUrl url) link _).1 <;>
            rw [hend] at hr <;> cases hr
        · rintro r ys t - ⟨rfl, rfl, rfl⟩
          exact closeQuietly_does net ⟨rfl, rfl, rfl⟩
      · rintro e ys t ⟨rfl, hlen, herror⟩
        simp only [herror]
        exact ⟨rfl, rfl, hlen⟩
      · rintro ys t ⟨-, hstuck⟩
        exact hstuck.elim

/-! ## The loop -/

theorem turnEnd_request (w : World) (left k : Nat) (url : List UInt8) (d : Disk) :
    turnEnd a cuts w left k url d =
      match request w a k url with
      | .error e => (.error e, d)
      | .ok (t, link) => answerEnd a cuts w left k t link d := by
  simp only [turnEnd, exchangeEnd, request]
  cases hport : (splitUrl url).port with
  | none => rfl
  | some port =>
      cases hconnect : Wget.connect w a k (splitUrl url).scheme (splitUrl url).host port with
      | error e => simp only [hconnect]; rfl
      | ok link =>
          simp only [hconnect, ok_bind]
          cases hbytes : buildRequest (splitUrl url).host (splitUrl url).path a.headers with
          | error e => rfl
          | ok bytes =>
              simp only [ok_bind]
              cases link.send bytes <;> rfl

/-- `fetch` over whole connections, turn by turn. -/
theorem fetchFrom_turnEnd (w : World) (left k : Nat) (url : List UInt8) (d : Disk) :
    Wget.fetchFrom w a cuts left k url d =
      match turnEnd a cuts w left k url d with
      | (.error e, d) => (.error e, d)
      | (.ok (.done result), d) => (.ok result, d)
      | (.ok (.again url), d) => Wget.fetchFrom w a cuts (left - 1) (k + 1) url d := by
  fun_induction Wget.fetchFrom w a cuts left k url d with
  | case1 left k url e hrequest => simp only [turnEnd_request, hrequest]
  | case2 left k url t link hrequest e hread =>
      simp only [turnEnd_request, hrequest, answerEnd, hread]
  | case3 k url t link hrequest status hdrs leftover s hread location hredirect =>
      simp only [turnEnd_request, hrequest, answerEnd, hread, hredirect]
  | case4 k url t link hrequest status hdrs leftover s hread location left hredirect ih =>
      simp only [turnEnd_request, hrequest, answerEnd, hread, hredirect, Nat.succ_sub_one]
  | case5 left k url t link hrequest status hdrs leftover s hread hredirect hstatus =>
      simp only [turnEnd_request, hrequest, answerEnd, hread, hredirect, if_pos hstatus]
  | case6 left k url t link hrequest status hdrs leftover s hread hredirect hstatus =>
      simp only [turnEnd_request, hrequest, answerEnd, hread, hredirect, if_neg hstatus]
      rcases Wget.save w a t.path status leftover s d with ⟨_ | _, d'⟩ <;> rfl

theorem abandonsAt_of_request {k : Nat} {url : List UInt8} {t : Target} {link : Link}
    (h : request net.world a k url = .ok (t, link)) : abandonsAt net a k url = false := by
  obtain ⟨rfl, port, hport, hconnect⟩ := request_ok h
  simp only [abandonsAt, hport]
  exact abandons_of_connect net a hconnect

theorem redirected_turnEnd (left k : Nat) (url : List UInt8) (d : Disk) :
    redirected net a k url =
      match (turnEnd a cuts net.world (left + 1) k url d).1 with
      | .ok (.again next) => some next
      | _ => none := by
  rw [turnEnd_request, redirected]
  cases hrequest : request net.world a k url with
  | error e => rfl
  | ok sent =>
      obtain ⟨t, link⟩ := sent
      simp only [answerEnd]
      cases hread : readHeaders { toLink := link, cuts := cuts k } with
      | error e => rw [readHeaders_error hread]
      | ok head =>
          obtain ⟨status, hdrs, leftover, s⟩ := head
          rw [(readHeaders_ok hread).1]
          simp only
          cases redirectOf status hdrs with
          | some location => rfl
          | none =>
              by_cases hstatus : status ≠ 200
              · simp only [if_pos hstatus]
                rfl
              · simp only [if_neg hstatus]
                rcases Wget.save net.world a t.path status leftover s d with ⟨_ | _, d'⟩ <;> rfl

theorem abandonsAt_of_turnEnd {left k : Nat} {url : List UInt8} {d : Disk} {x : Turn}
    (h : (turnEnd a cuts net.world left k url d).1 = .ok x) : abandonsAt net a k url = false := by
  rw [turnEnd_request] at h
  cases hrequest : request net.world a k url with
  | error e =>
      rw [hrequest] at h
      cases h
  | ok sent => exact abandonsAt_of_request net a hrequest

theorem turnEnd_again {w : World} {left k : Nat} {url next : List UInt8} {d : Disk}
    (h : (turnEnd a cuts w left k url d).1 = .ok (.again next)) :
    (turnEnd a cuts w left k url d).2 = d ∧ left ≠ 0 := by
  rw [turnEnd_request] at h ⊢
  cases hrequest : request w a k url with
  | error e =>
      rw [hrequest] at h
      cases h
  | ok sent =>
      obtain ⟨t, link⟩ := sent
      simp only [hrequest, answerEnd] at h ⊢
      cases hread : readHeaders { toLink := link, cuts := cuts k } with
      | error e =>
          rw [hread] at h
          cases h
      | ok head =>
          obtain ⟨status, hdrs, leftover, s⟩ := head
          simp only [hread] at h ⊢
          cases hredirect : redirectOf status hdrs with
          | some location =>
              cases left with
              | zero =>
                  simp only [hredirect] at h
                  cases h
              | succ left => exact ⟨rfl, Nat.succ_ne_zero left⟩
          | none =>
              simp only [hredirect] at h
              split at h
              · cases h
              · cases hsaved : (Wget.save w a t.path status leftover s d).1 <;>
                  rw [hsaved] at h <;> cases h

theorem leaks_succ (left k : Nat) (url : List UInt8) :
    leaks net a (left + 1) k url =
      match redirected net a k url with
      | some next => leaks net a left (k + 1) next
      | none => abandonsAt net a k url := (rfl)

theorem leaks_turnEnd (left k : Nat) (url : List UInt8) (d : Disk) :
    leaks net a left k url =
      match (turnEnd a cuts net.world left k url d).1 with
      | .ok (.again next) => leaks net a (left - 1) (k + 1) next
      | _ => abandonsAt net a k url := by
  cases left with
  | zero =>
      rcases hturn : (turnEnd a cuts net.world 0 k url d).1 with e | (next | result)
      · rfl
      · exact absurd rfl (turnEnd_again a cuts hturn).2
      · rfl
  | succ left =>
      rw [leaks_succ, redirected_turnEnd net a cuts left k url d]
      rcases (turnEnd a cuts net.world (left + 1) k url d).1 with e | (next | result) <;> rfl

theorem Machine.onDisk_congr {f g : Disk → Disk} (h : f m.disk = g m.disk) :
    m.onDisk f = m.onDisk g := by
  rw [Machine.onDisk, Machine.onDisk, h]

/-- The end of `fetch` over whole connections, with the socket that is left open. -/
def Fetches (left k : Nat) (url : List UInt8) (m : Machine) (r : End Exn Result)
    (ys : List Nat) (t : Machine) : Prop :=
  r = ending (Wget.fetchFrom net.world a cuts left k url m.disk).1 ∧
    t = (m.onDisk fun d => (Wget.fetchFrom net.world a cuts left k url d).2) ∧
    ys.length = (leaks net a left k url).toNat

theorem turn_bind (hclose : net.ssl = false → ∀ k, net.close k = none) {left k : Nat}
    {url : List UInt8} {act : Turn → Prog Result}
    (h : ∀ x d, turnEnd a cuts net.world left k url m.disk = (.ok x, d) →
      Does [] (m.onDisk fun _ => d) (act x) (Fetches net a cuts left k url m)) :
    Does [] m (turn net a cuts left k url >>= act) (Fetches net a cuts left k url m) := by
  refine Does.bind (turn_does net a cuts hclose left k url) ?_ ?_ ?_
  · rintro x ys t ⟨hr, rfl, hlen⟩
    cases hturn : turnEnd a cuts net.world left k url m.disk with
    | mk r d =>
        cases r with
        | error e =>
            rw [hturn] at hr
            cases hr
        | ok y =>
            rw [hturn] at hr
            cases hr
            rw [abandonsAt_of_turnEnd net a cuts (congrArg Prod.fst hturn)] at hlen
            rw [List.length_eq_zero_iff.mp hlen,
              Machine.onDisk_congr (g := fun _ => d) (congrArg Prod.snd hturn)]
            exact h x d hturn
  · rintro e ys t ⟨hr, rfl, hlen⟩
    cases hturn : turnEnd a cuts net.world left k url m.disk with
    | mk r d =>
        cases r with
        | ok x =>
            rw [hturn] at hr
            cases hr
        | error e' =>
            rw [hturn] at hr
            cases hr
            have hfetch : Wget.fetchFrom net.world a cuts left k url m.disk = (.error e, d) := by
              rw [fetchFrom_turnEnd, hturn]
            refine ⟨congrArg (ending ∘ Prod.fst) hfetch.symm, Machine.onDisk_congr ?_, ?_⟩
            · rw [hturn, hfetch]
            · rw [hlen, leaks_turnEnd net a cuts left k url m.disk, hturn]
  · rintro ys t ⟨hr, -⟩
    cases hturn : (turnEnd a cuts net.world left k url m.disk).1 <;> rw [hturn] at hr <;> cases hr

theorem fetches_done {left k : Nat} {url : List UInt8} {result : Result} {d : Disk}
    (hturn : turnEnd a cuts net.world left k url m.disk = (.ok (.done result), d)) :
    Fetches net a cuts left k url m (.value result) [] (m.onDisk fun _ => d) := by
  have hfetch : Wget.fetchFrom net.world a cuts left k url m.disk = (.ok result, d) := by
    rw [fetchFrom_turnEnd, hturn]
  refine ⟨congrArg (ending ∘ Prod.fst) hfetch.symm, Machine.onDisk_congr ?_, ?_⟩
  · rw [hfetch]
  · rw [leaks_turnEnd net a cuts left k url m.disk, hturn,
      abandonsAt_of_turnEnd net a cuts (congrArg Prod.fst hturn)]
    rfl

theorem fetchFrom_does (hclose : net.ssl = false → ∀ k, net.close k = none) (left k : Nat)
    (url : List UInt8) :
    Does [] m (fetchFrom net a cuts left k url) (Fetches net a cuts left k url m) := by
  induction left generalizing k url m with
  | zero =>
      refine turn_bind net a cuts hclose fun x d hturn => ?_
      cases x with
      | done result => exact does_pure (fetches_done net a cuts hturn)
      | again next => exact absurd rfl (turnEnd_again a cuts (congrArg Prod.fst hturn)).2
  | succ left ih =>
      refine turn_bind net a cuts hclose fun x d hturn => ?_
      cases x with
      | done result => exact does_pure (fetches_done net a cuts hturn)
      | again next =>
          have hdisk := (turnEnd_again a cuts (congrArg Prod.fst hturn)).1
          rw [hturn] at hdisk
          obtain rfl : d = m.disk := hdisk
          have hfetch : Wget.fetchFrom net.world a cuts (left + 1) k url m.disk =
              Wget.fetchFrom net.world a cuts left (k + 1) next m.disk := by
            rw [fetchFrom_turnEnd, hturn]
            rfl
          refine (ih (m := m) (k + 1) next).post fun r ys t ⟨hr, ht, hlen⟩ => ⟨?_, ?_, ?_⟩
          · rw [hfetch]
            exact hr
          · rw [ht]
            exact Machine.onDisk_congr (congrArg Prod.snd hfetch.symm)
          · rw [leaks_turnEnd net a cuts (left + 1) k url m.disk, hturn]
            exact hlen

theorem leaks_of_turns {left k : Nat} {url : List UInt8} {d d' : Disk} {result : Result}
    (h : Wget.fetchFrom net.world a cuts left k url d = (.ok result, d'))
    (hnext : ∀ next, left ≠ 0 → ∀ d,
      Wget.fetchFrom net.world a cuts (left - 1) (k + 1) next d = (.ok result, d') →
        leaks net a (left - 1) (k + 1) next = false) :
    leaks net a left k url = false := by
  rw [fetchFrom_turnEnd] at h
  rw [leaks_turnEnd net a cuts left k url d]
  rcases hturn : turnEnd a cuts net.world left k url d with ⟨e | x, d''⟩
  · rw [hturn] at h
    cases h
  · rw [hturn] at h
    cases x with
    | done result' => exact abandonsAt_of_turnEnd net a cuts (congrArg Prod.fst hturn)
    | again next => exact hnext next (turnEnd_again a cuts (congrArg Prod.fst hturn)).2 d'' h

theorem leaks_of_ok {left k : Nat} {url : List UInt8} {d d' : Disk} {result : Result}
    (h : Wget.fetchFrom net.world a cuts left k url d = (.ok result, d')) :
    leaks net a left k url = false := by
  induction left generalizing k url d with
  | zero => exact leaks_of_turns net a cuts h fun next hleft => absurd rfl hleft
  | succ left ih => exact leaks_of_turns net a cuts h fun next hleft d hnext => ih hnext

/-! ## fetch -/

/-- However the network behaves: `fetch` ends as it does over whole connections, with the same
files, and what is open then that was not open before is at most one socket. It is one exactly if
`_connect` abandons the socket of the last turn, and none where `fetch` returns. No socket or file
is used or closed when it is closed already. -/
theorem fetch_closes_sockets (hclose : net.ssl = false → ∀ k, net.close k = none)
    (url : List UInt8) {h : Heap} {xs : List Nat} (hopen : Holds xs h) (m : Machine) :
    ∃ ys h', fetch net a cuts url (h, m) =
        (ending (Wget.fetch net.world a cuts url m.disk).1, h',
          m.onDisk fun d => (Wget.fetch net.world a cuts url d).2) ∧
      Holds (ys ++ xs) h' ∧ ys.length = (leaks net a a.maxRedirects.toNat 0 url).toNat ∧
      ∀ result, (Wget.fetch net.world a cuts url m.disk).1 = .ok result → ys = [] := by
  obtain ⟨ys, hys, hr, ht, hlen⟩ :=
    fetchFrom_does net a cuts hclose a.maxRedirects.toNat 0 url xs (h, m) ⟨hopen, rfl⟩
  refine ⟨ys, _, Prod.ext hr (Prod.ext rfl ht), hys, hlen, fun result hresult => ?_⟩
  have hkept := leaks_of_ok net a cuts (Prod.ext hresult rfl)
  rw [hkept] at hlen
  exact List.length_eq_zero_iff.mp hlen

/-- A network without TLS; the `k`-th connection brings the `k`-th response, and behind the last
one it is refused. -/
def plainNet (responses : List String) : Net Unit where
  ssl := false
  getaddrinfo _ _ _ := .ok ()
  socket _ := none
  connect k _ :=
    match responses[k]? with
    | some response => .ok ⟨str response, .closed, fun _ => none⟩
    | none => .error (.errno 111)
  wrap _ _ _ := .error .typeError
  close _ := none
  openRead _ := some (.errno 2)
  read _ := .ok []
  load _ _ := .ok ()
  openError _ := none

def redirecting : Net Unit := plainNet ["HTTP/1.0 302 Found\r\nLocation: /g\r\n\r\n"]

def noOutput : Machine := ⟨emptyDisk, [], []⟩

/-- The first socket is closed, the second one cannot be connected and stays open. -/
theorem fetch_closes_sockets_refused :
    ∃ sock h', (fetch redirecting (toFile false) (fun _ _ => 7) (str "http://a/f")
        (Heap.empty fun _ => true, noOutput)).1 = .raised (.errno 111) ∧
      (fetch redirecting (toFile false) (fun _ _ => 7) (str "http://a/f")
        (Heap.empty fun _ => true, noOutput)).2.1 = h' ∧ Holds [sock] h' := by
  obtain ⟨ys, h', hrun, hys, hlen, -⟩ := fetch_closes_sockets redirecting (toFile false)
    (fun _ _ => 7) (fun _ _ => rfl) (str "http://a/f") (holds_empty fun _ => true) noOutput
  have hleaks : leaks redirecting (toFile false) 5 0 (str "http://a/f") = true := by decide
  rw [hrun]
  obtain ⟨sock, rfl⟩ := List.length_eq_one_iff.mp (hlen.trans (congrArg Bool.toNat hleaks))
  refine ⟨sock, h', ?_, rfl, hys⟩
  rw [fetch_eq_finish]
  rfl

end FreedosMicroPython.Wget.Sockets
