import FreedosMicroPython.Lib.Ledger
import FreedosMicroPython.Tls.Context
import Mathlib.Data.List.Perm.Basic
/-!
# Sessions and wrapped sockets

The SSL sockets of `port/modtls_axtls_uc386dos.c` over whole runs: which sessions of axtls are
allocated, and what the wrapped sockets are told. A session is freed when its socket is closed
or collected; a wrap that fails behind `ssl_client_new` leaves a socket that only the collector
has.
-/

namespace FreedosMicroPython.Tls.Sessions

open FreedosMicroPython.Lib.Ledger FreedosMicroPython.Lib.Runs
open FreedosMicroPython.Tls.Context FreedosMicroPython.Tls.Socket

/-! ## The sockets -/

/-- `mp_obj_ssl_socket_t`. The pointer `ssl_sock` is `ptr` while `stream.o.sslSock` holds and null
otherwise. `closes` counts how often the wrapped socket was closed through this one. -/
structure SslObj where
  ptr : Nat
  stream : Socket.State
  sock : Option Nat
  collected : Bool
  closes : Nat

def SslObj.isOpen (o : SslObj) : Bool := o.stream.o.sslSock

structure State where
  heap : Heap
  ctxs : List SslContext
  objs : List SslObj

def start (grants : Nat → Bool) : State := ⟨Heap.empty grants, [], []⟩

/-- What axtls will answer to the reads and the writes of a socket. -/
structure Answers where
  incoming : List SslRead
  outgoing : List SslWrite

/-- A new socket, whose wrap made a session or not, and returned or raised. -/
def newObj (ptr : Nat) (hasSession returned : Bool) (sock : Nat) (answers : Answers) : SslObj where
  ptr := ptr
  stream :=
    ⟨⟨hasSession, 0, 0, true⟩, fun _ => 0, answers.incoming, answers.outgoing, false, [], []⟩
  sock := if returned then some sock else none
  collected := false
  closes := 0

variable (ax : Axtls)

/-- `ssl_server_new` or `ssl_client_new` is called. -/
def reachesSession (ctx : SslContext) (serverSide : Bool) (serverHostname : Obj) : Bool :=
  (loadCredentials ax ctx).1.isOk &&
    (serverSide || serverHostname = .none || (mpObjStrGetData serverHostname).isOk)

/-- `ssl_socket_make_new`. The object is there whatever becomes of the wrap, cleared by the
collector that allocates it. Where axtls refuses the session, `ptr` is not allocated. -/
def wrapSocket (sock : Nat) (serverSide doHandshakeOnConnect : Bool) (serverHostname : Obj)
    (handshake : Int) (answers : Answers) (c : Nat) (ctx : SslContext) (s : State) : State :=
  let reached := reachesSession ax ctx serverSide serverHostname
  let ptr := s.heap.requests
  let hasSession := reached && s.heap.grants ptr
  let heap :=
    if hasSession then s.heap.hold else if reached then s.heap.refuse else s.heap
  -- The handshake is asked for without a test for NULL.
  let heap :=
    if reached && !serverSide && doHandshakeOnConnect then heap.touch ptr else heap
  let made := sslSocketMakeNew ax serverSide doHandshakeOnConnect serverHostname handshake ctx
  let o := newObj ptr hasSession made.1.isOk sock answers
  { s with heap := heap, ctxs := s.ctxs.set c made.2, objs := s.objs ++ [o] }

def SslObj.callsAxtls (o : SslObj) : Socket.Call → Bool
  | .read _ => o.isOpen && o.stream.o.bytesLeft = 0
  | .write _ => o.isOpen

def transfer (method : Socket.Call) (heap : Heap) (o : SslObj) : Heap × SslObj :=
  (if o.callsAxtls method then heap.touch o.ptr else heap,
    { o with stream := Socket.step o.stream method })

inductive Request where
  | close
  | other (request arg : Nat)

def SslObj.setNull (o : SslObj) : SslObj :=
  { o with stream := { o.stream with o := { o.stream.o with sslSock := false } } }

def SslObj.ask (o : SslObj) : Request → SslObj
  | .close => if o.sock.isSome then { o with closes := o.closes + 1 } else o
  | .other _ _ => o

def sslSocketIoctl (request : Request) (heap : Heap) (o : SslObj) : Heap × SslObj :=
  match request with
  | .close =>
      if !o.isOpen then (heap, o)
      else (heap.free o.ptr, o.setNull.ask request)
  | .other _ _ => (heap, o.ask request)

def sslSocketSetblocking (flag : Bool) (heap : Heap) (o : SslObj) : Heap × SslObj :=
  (heap, { o with stream := { o.stream with o := { o.stream.o with blocking := flag } } })

/-- `__del__`. -/
def collect (heap : Heap) (o : SslObj) : Heap × SslObj :=
  ((sslSocketIoctl .close heap o).1, { (sslSocketIoctl .close heap o).2 with collected := true })

inductive Event where
  | makeContext
  | storeVerifyMode (c : Nat) (value : Obj)
  | loadCertChain (c : Nat) (cert pkey : Obj)
  | wrapSocket (c sock : Nat) (serverSide doHandshakeOnConnect : Bool) (serverHostname : Obj)
      (handshake : Int) (answers : Answers)
  | transfer (i : Nat) (method : Socket.Call)
  | ioctl (i : Nat) (request : Request)
  | setblocking (i : Nat) (flag : Bool)
  | collect (i : Nat)

def State.update (s : State) (i : Nat) (f : Heap → SslObj → Heap × SslObj) : State :=
  match s.objs[i]? with
  | none => s
  | some o => { s with heap := (f s.heap o).1, objs := s.objs.set i (f s.heap o).2 }

/-- A method of the object at `i`, if the program has it: its wrap succeeded, and it is not
collected. -/
def State.method (s : State) (i : Nat) (f : Heap → SslObj → Heap × SslObj) : State :=
  s.update i fun heap o => if o.sock.isSome && !o.collected then f heap o else (heap, o)

def State.setting (s : State) (c : Nat) (setting : Context.Call) : State :=
  match s.ctxs[c]? with
  | none => s
  | some ctx => { s with ctxs := s.ctxs.set c (Context.step ax ctx setting) }

def step (s : State) : Event → State
  | .makeContext => { s with ctxs := s.ctxs ++ [sslContextMakeNew] }
  | .storeVerifyMode c value => s.setting ax c (.storeVerifyMode value)
  | .loadCertChain c cert pkey => s.setting ax c (.loadCertChain cert pkey)
  | .wrapSocket c sock serverSide doHandshakeOnConnect serverHostname handshake answers =>
      match s.ctxs[c]? with
      | none => s
      | some ctx =>
          wrapSocket ax sock serverSide doHandshakeOnConnect serverHostname handshake answers c ctx
            s
  | .transfer i method => s.method i (transfer method)
  | .ioctl i request => s.method i (sslSocketIoctl request)
  | .setblocking i flag => s.method i (sslSocketSetblocking flag)
  | .collect i => s.update i collect

/-- A wrap that asks axtls for a session gets one. -/
def Granted (s : State) : Event → Prop
  | .wrapSocket c _ serverSide _ serverHostname _ _ =>
      ∀ ctx, s.ctxs[c]? = some ctx → reachesSession ax ctx serverSide serverHostname = true →
        s.heap.grants s.heap.requests = true
  | _ => True

/-! ## What is allocated -/

def sessions (objs : List SslObj) : List Nat := (objs.filter SslObj.isOpen).map SslObj.ptr

/-- The wrapped socket is closed once, when the socket is closed that got hold of it, and a
collected socket has no session. -/
structure SslObj.Proper (o : SslObj) : Prop where
  closes : o.closes = if o.sock.isSome && !o.isOpen then 1 else 0
  collected : o.collected = true → o.isOpen = false

structure Owned (s : State) : Prop where
  holds : Holds (sessions s.objs) s.heap
  proper : ∀ o ∈ s.objs, o.Proper

theorem sessions_perm {objs objs' : List SslObj} (h : objs.Perm objs') :
    (sessions objs).Perm (sessions objs') := (h.filter _).map _

/-! ### Reads and writes -/

theorem fill_sslSock {as : List SslRead} {s s' : Socket.State} {r : Fill}
    (h : fill as s = some (r, s')) : s'.o.sslSock = s.o.sslSock := by
  induction as generalizing s with
  | nil =>
      rw [fill] at h
      split at h
      · rw [← (Prod.mk.inj (Option.some.inj h)).2]
      · cases h
  | cons a as ih =>
      rw [fill] at h
      simp only at h
      split at h
      · rw [← (Prod.mk.inj (Option.some.inj h)).2]
      · split at h
        · split at h
          · have hrest := ih h
            exact hrest
          · rw [← (Prod.mk.inj (Option.some.inj h)).2]
            rfl
        · split at h
          · split at h
            · rw [← (Prod.mk.inj (Option.some.inj h)).2]
              rfl
            · split at h <;> rw [← (Prod.mk.inj (Option.some.inj h)).2] <;> rfl
          · rw [← (Prod.mk.inj (Option.some.inj h)).2]
            rfl

theorem read_sslSock {size : Nat} {s s' : Socket.State} {outcome : Outcome}
    (h : sslSocketRead size s = some (outcome, s')) : s'.o.sslSock = s.o.sslSock := by
  rw [sslSocketRead] at h
  split at h
  · rw [← (Prod.mk.inj (Option.some.inj h)).2]
  · split at h
    · cases h
    all_goals
      next hfill =>
        rw [← (Prod.mk.inj (Option.some.inj h)).2, ← fill_sslSock hfill]

theorem writeLoop_sslSock {data : List UInt8} {ws : List SslWrite} {s s' : Socket.State} {r : Int}
    (h : writeLoop data ws s = some (r, s')) : s'.o.sslSock = s.o.sslSock := by
  induction ws generalizing s with
  | nil => cases h
  | cons w ws ih =>
      rw [writeLoop] at h
      simp only at h
      split at h
      · split at h
        · have hrest := ih h
          exact hrest
        · rw [← (Prod.mk.inj (Option.some.inj h)).2]
      · rw [← (Prod.mk.inj (Option.some.inj h)).2]

theorem write_sslSock {data : List UInt8} {s s' : Socket.State} {outcome : Outcome}
    (h : sslSocketWrite data s = some (outcome, s')) : s'.o.sslSock = s.o.sslSock := by
  rw [sslSocketWrite] at h
  split at h
  · rw [← (Prod.mk.inj (Option.some.inj h)).2]
  · split at h
    · cases h
    · next hwrite =>
        rw [← writeLoop_sslSock hwrite]
        split at h
        · split at h
          · rw [← (Prod.mk.inj (Option.some.inj h)).2]
          · split at h <;> rw [← (Prod.mk.inj (Option.some.inj h)).2]
        · rw [← (Prod.mk.inj (Option.some.inj h)).2]

theorem step_sslSock (s : Socket.State) (method : Socket.Call) :
    (Socket.step s method).o.sslSock = s.o.sslSock := by
  unfold Socket.step
  split
  · rfl
  · split
    · rfl
    · next outcome s' hcall =>
        cases method with
        | read size =>
            have hsame := read_sslSock hcall
            exact hsame
        | write data =>
            have hsame := write_sslSock hcall
            exact hsame

/-! ### Objects -/

theorem sessions_singleton (o : SslObj) :
    sessions [o] = if o.isOpen = true then [o.ptr] else [] := by
  unfold sessions
  cases h : o.isOpen <;> simp [h]

theorem sessions_congr {o o' : SslObj} (hopen : o'.isOpen = o.isOpen) (hptr : o'.ptr = o.ptr) :
    sessions [o'] = sessions [o] := by
  rw [sessions_singleton, sessions_singleton, hopen, hptr]

/-- What may be done with an object: beside the other sessions that of the object stays allocated
for as long as the object is open. -/
def Handles (f : Heap → SslObj → Heap × SslObj) : Prop :=
  ∀ heap o rest, Holds (sessions [o] ++ rest) heap → o.Proper →
    Holds (sessions [(f heap o).2] ++ rest) (f heap o).1 ∧ (f heap o).2.Proper

theorem handles_transfer (method : Socket.Call) : Handles (transfer method) := by
  intro heap o rest hholds hproper
  have hopen : (transfer method heap o).2.isOpen = o.isOpen := step_sslSock o.stream method
  refine ⟨?_, ?_, ?_⟩
  · rw [sessions_congr hopen rfl]
    unfold transfer
    split
    · next hcalls =>
        have hisOpen : o.isOpen = true := by
          cases method with
          | read size => exact (Bool.and_eq_true_iff.mp hcalls).1
          | write data => exact hcalls
        apply hholds.touch
        rw [sessions_singleton, if_pos hisOpen]
        exact List.mem_cons_self
    · exact hholds
  · rw [hopen]
    exact hproper.closes
  · rw [hopen]
    exact hproper.collected

@[simp] theorem isOpen_ask (o : SslObj) (request : Request) :
    (o.ask request).isOpen = o.isOpen := by
  cases request with
  | close =>
      simp only [SslObj.ask]
      split <;> rfl
  | other request arg => rfl

theorem proper_setNull_ask {o : SslObj} (h : o.Proper) (hopen : o.isOpen = true) :
    (o.setNull.ask .close).Proper := by
  have hcloses := h.closes
  rw [hopen, Bool.not_true, Bool.and_false] at hcloses
  refine ⟨?_, fun _ => isOpen_ask _ _⟩
  rw [isOpen_ask]
  cases hsock : o.sock with
  | none => simp [SslObj.ask, SslObj.setNull, hsock, hcloses]
  | some sock => simp [SslObj.ask, SslObj.setNull, SslObj.isOpen, hsock, hcloses]

theorem handles_ioctl (request : Request) : Handles (sslSocketIoctl request) := by
  intro heap o rest hholds hproper
  cases request with
  | other request arg => exact ⟨hholds, hproper⟩
  | close =>
      unfold sslSocketIoctl
      cases hopen : o.isOpen with
      | false => exact ⟨hholds, hproper⟩
      | true =>
          rw [sessions_singleton, if_pos hopen] at hholds
          refine ⟨?_, proper_setNull_ask hproper hopen⟩
          have hclosed : (o.setNull.ask .close).isOpen = false := isOpen_ask _ _
          have hnone : sessions [o.setNull.ask .close] = [] := by
            rw [sessions_singleton, hclosed]
            rfl
          change Holds (sessions [o.setNull.ask .close] ++ rest) (heap.free o.ptr)
          rw [hnone]
          exact hholds.free

theorem handles_setblocking (flag : Bool) : Handles (sslSocketSetblocking flag) := by
  intro heap o rest hholds hproper
  have hsame : sessions [(sslSocketSetblocking flag heap o).2] = sessions [o] :=
    sessions_congr rfl rfl
  refine ⟨?_, hproper.closes, hproper.collected⟩
  rw [hsame]
  exact hholds

theorem handles_collect : Handles collect := by
  intro heap o rest hholds hproper
  obtain ⟨hholds', hproper'⟩ := handles_ioctl .close heap o rest hholds hproper
  have hsame : sessions [(collect heap o).2] = sessions [(sslSocketIoctl .close heap o).2] :=
    sessions_congr rfl rfl
  refine ⟨?_, hproper'.closes, fun _ => ?_⟩
  · rw [hsame]
    exact hholds'
  · change (sslSocketIoctl .close heap o).2.isOpen = false
    unfold sslSocketIoctl
    cases hopen : o.isOpen with
    | false => exact hopen
    | true => exact isOpen_ask _ _

/-! ### Steps -/

theorem sessions_cons (o : SslObj) (objs : List SslObj) :
    sessions (o :: objs) = sessions [o] ++ sessions objs := by
  unfold sessions
  rw [← List.map_append, ← List.filter_append, List.singleton_append]

theorem Owned.update {s : State} (hs : Owned s) (i : Nat) {f : Heap → SslObj → Heap × SslObj}
    (hf : Handles f) : Owned (s.update i f) := by
  unfold State.update
  split
  · exact hs
  · next o ho =>
      obtain ⟨hi, hget⟩ := List.getElem?_eq_some_iff.mp ho
      have hbefore : s.objs.Perm (o :: s.objs.eraseIdx i) := by
        have hperm := List.getElem_cons_eraseIdx_perm hi
        rw [hget] at hperm
        exact hperm.symm
      have hafter := List.set_perm_cons_eraseIdx hi (f s.heap o).2
      have hholds := hs.holds.of_perm (sessions_perm hbefore)
      rw [sessions_cons] at hholds
      obtain ⟨hholds', hproper⟩ := hf s.heap o _ hholds (hs.proper o (List.mem_of_getElem? ho))
      rw [← sessions_cons] at hholds'
      refine ⟨hholds'.of_perm (sessions_perm hafter.symm), fun o' ho' => ?_⟩
      rcases List.mem_or_eq_of_mem_set ho' with hold | rfl
      · exact hs.proper o' hold
      · exact hproper

theorem Owned.method {s : State} (hs : Owned s) (i : Nat) {f : Heap → SslObj → Heap × SslObj}
    (hf : Handles f) : Owned (s.method i f) := by
  apply hs.update
  intro heap o rest hholds hproper
  simp only
  split
  · exact hf heap o rest hholds hproper
  · exact ⟨hholds, hproper⟩

theorem Owned.setting {s : State} (hs : Owned s) (c : Nat) (setting : Context.Call) :
    Owned (s.setting ax c setting) := by
  unfold State.setting
  split
  · exact hs
  · exact ⟨hs.holds, hs.proper⟩

theorem reachesSession_of_ok {ctx : SslContext} {serverSide doHandshakeOnConnect : Bool}
    {serverHostname : Obj} {handshake : Int}
    (h : (sslSocketMakeNew ax serverSide doHandshakeOnConnect serverHostname handshake ctx).1.isOk
      = true) : reachesSession ax ctx serverSide serverHostname = true := by
  unfold sslSocketMakeNew at h
  unfold reachesSession
  rcases hload : loadCredentials ax ctx with ⟨e | u, ctx'⟩ <;> rw [hload] at h
  · cases h
  · cases serverSide with
    | true => rfl
    | false =>
        cases serverHostname with
        | none => rfl
        | str name => rfl
        | int v => cases h
        | other => cases h

theorem Owned.add {s : State} (hs : Owned s) {heap : Heap} {ctxs : List SslContext} {o : SslObj}
    (hholds : Holds (sessions [o] ++ sessions s.objs) heap) (hproper : o.Proper) :
    Owned ⟨heap, ctxs, s.objs ++ [o]⟩ := by
  rw [← sessions_cons] at hholds
  refine ⟨hholds.of_perm (sessions_perm (List.perm_append_singleton o s.objs).symm), ?_⟩
  exact List.forall_mem_append.mpr ⟨hs.proper, List.forall_mem_singleton.mpr hproper⟩

theorem proper_newObj {ptr sock : Nat} {hasSession returned : Bool} {answers : Answers}
    (h : returned = true → hasSession = true) :
    (newObj ptr hasSession returned sock answers).Proper := by
  refine ⟨?_, nofun⟩
  cases returned with
  | false => rfl
  | true =>
      rw [h rfl]
      rfl

theorem Owned.wrapSocket {s : State} (hs : Owned s) (sock : Nat)
    (serverSide doHandshakeOnConnect : Bool) (serverHostname : Obj) (handshake : Int)
    (answers : Answers) (c : Nat) (ctx : SslContext)
    (hgranted : reachesSession ax ctx serverSide serverHostname = true →
      s.heap.grants s.heap.requests = true) :
    Owned (wrapSocket ax sock serverSide doHandshakeOnConnect serverHostname handshake answers c ctx
      s) := by
  refine hs.add ?_ (proper_newObj fun hok => ?_)
  · cases hreached : reachesSession ax ctx serverSide serverHostname with
    | false => exact hs.holds
    | true =>
        simp only [hgranted hreached, Bool.and_self, if_true, Bool.true_and]
        change Holds (s.heap.requests :: sessions s.objs) _
        split
        · exact hs.holds.hold.touch List.mem_cons_self
        · exact hs.holds.hold
  · have hreached := reachesSession_of_ok ax hok
    rw [hreached, hgranted hreached]
    rfl

theorem owned_step {s : State} (hs : Owned s) {e : Event} (hgranted : Granted ax s e) :
    Owned (step ax s e) := by
  cases e with
  | makeContext => exact ⟨hs.holds, hs.proper⟩
  | storeVerifyMode c value => exact hs.setting ax c _
  | loadCertChain c cert pkey => exact hs.setting ax c _
  | wrapSocket c sock serverSide doHandshakeOnConnect serverHostname handshake answers =>
      rw [step]
      split
      · exact hs
      · next ctx hctx => exact hs.wrapSocket ax _ _ _ _ _ _ c ctx (hgranted ctx hctx)
  | transfer i method => exact hs.method i (handles_transfer method)
  | ioctl i request => exact hs.method i (handles_ioctl request)
  | setblocking i flag => exact hs.method i (handles_setblocking flag)
  | collect i => exact hs.update i handles_collect

theorem owned_start (grants : Nat → Bool) : Owned (start grants) :=
  ⟨holds_empty grants, nofun⟩

/-- Whatever a program does with its contexts and sockets, and whenever the collector runs, while
axtls refuses no session: the sessions that are allocated are those of the open sockets, each of
them one, and axtls is never called with a session that is null or freed, nor frees one twice. A
wrapped socket is closed once when its SSL socket is closed or collected, and never where the wrap
failed; a collected socket has no session. -/
theorem sessions_owned (grants : Nat → Bool) {es : List Event}
    (hgranted : Meets (step ax) (Granted ax) (start grants) es) :
    let s := run (step ax) (start grants) es
    s.heap.live.Perm ((s.objs.filter SslObj.isOpen).map SslObj.ptr) ∧
      ((s.objs.filter SslObj.isOpen).map SslObj.ptr).Nodup ∧ s.heap.misused = false ∧
      ∀ o ∈ s.objs, (o.closes = if o.sock.isSome && !o.isOpen then 1 else 0) ∧
        (o.collected = true → o.isOpen = false) := by
  have hstep : ∀ s e, Owned s → Granted ax s e → Owned (step ax s e) :=
    fun _ _ hs hok => owned_step ax hs hok
  have howned := run_invariant _ hstep (owned_start grants) hgranted
  exact ⟨howned.holds.perm, howned.holds.nodup, howned.holds.sound,
    fun o ho => ⟨(howned.proper o ho).closes, (howned.proper o ho).collected⟩⟩

def twoClients : List Event :=
  [.makeContext, .wrapSocket 0 7 false true .none 0 ⟨[], []⟩, .transfer 0 (.write [1]),
    .wrapSocket 0 8 false true .none 0 ⟨[], []⟩, .ioctl 0 .close]

theorem sessions_owned_twoClients :
    let s := run (step oneByte) (start (decide <| · < 2)) twoClients
    s.heap.live.Perm [1] ∧ s.heap.misused = false := by
  obtain ⟨hlive, -, hsound, -⟩ := sessions_owned oneByte (decide <| · < 2)
    (show Meets (step oneByte) (Granted oneByte) (start (decide <| · < 2)) twoClients from
      ⟨trivial, fun _ _ _ => rfl, trivial, fun _ _ _ => rfl, trivial, trivial⟩)
  exact ⟨hlive, hsound⟩

/-- A session that is refused, and asked for its handshake. -/
example : (run (step oneByte) (start fun _ => false) (twoClients.take 2)).heap.misused = true := by
  decide

end FreedosMicroPython.Tls.Sessions
