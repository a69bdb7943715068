import FreedosMicroPython.Lib.Memory
import FreedosMicroPython.Lib.Runs
/-!
# Reading and writing a TLS socket

`ssl_socket_read` and `ssl_socket_write` of `port/modtls_axtls_uc386dos.c`. axtls has
one record buffer for each session: `ssl_read` decrypts a record in it and hands out
a pointer into it, `ssl_write` builds the outgoing record in it. The socket keeps
that pointer and a count for the bytes that are not read yet.
-/

namespace FreedosMicroPython.Tls.Socket

open FreedosMicroPython.Lib.Memory
open FreedosMicroPython.Lib.Runs

def SSL_OK : Int := 0
def SSL_CLOSE_NOTIFY : Int := -3
def SSL_EAGAIN : Int := -4
def SSL_ERROR_CONN_LOST : Int := -256
def MP_EAGAIN : Int := 11
def EBADF : Int := 9

/-! ## axtls -/

/-- What a call of `ssl_read` returns, the pointer it leaves as an index into the record
buffer, and what that buffer holds then. -/
structure SslRead where
  r : Int
  off : Nat
  record : Mem UInt8

def SslRead.payload (a : SslRead) : List UInt8 := slice a.record a.off a.r.toNat

def SslRead.Closes (a : SslRead) : Prop := a.r = SSL_CLOSE_NOTIFY ∨ a.r = SSL_ERROR_CONN_LOST

abbrev SslWrite := List UInt8 → Mem UInt8 → Int × Mem UInt8

/-! ## The socket -/

/-- `mp_obj_ssl_socket_t`. `sslSock` is false once the socket is closed. -/
structure SslSocket where
  sslSock : Bool
  buf : Nat
  bytesLeft : Nat
  blocking : Bool

inductive Call where
  | read (size : Nat)
  | write (data : List UInt8)

/-- What a call returns. An `error` is `MP_STREAM_ERROR` with its `errcode`. -/
inductive Outcome where
  | bytes (data : List UInt8)
  | wrote (n : Int)
  | error (errcode : Int)

/-- The socket, the record buffer, and what axtls will answer. A call that waits for an
answer that never comes does not return: `waiting` is set and nothing more happens.
`arrived` and `log` record the past. -/
structure State where
  o : SslSocket
  record : Mem UInt8
  incoming : List SslRead
  outgoing : List SslWrite
  waiting : Bool
  arrived : List SslRead
  log : List (Call × Outcome)

def State.receive (s : State) (a : SslRead) (as : List SslRead) : State :=
  { s with
    o := { s.o with buf := a.off }
    record := a.record
    incoming := as
    arrived := s.arrived ++ [a] }

inductive Fill where
  | ready
  | closed
  | error (errcode : Int)

/-- The loop of `ssl_socket_read` that runs until bytes are left. -/
def fill : List SslRead → State → Option (Fill × State)
  | [], s => if s.o.bytesLeft ≠ 0 then some (.ready, s) else none
  | a :: as, s =>
      if s.o.bytesLeft ≠ 0 then some (.ready, s)
      else
        let s := s.receive a as
        if a.r = SSL_OK then
          if s.o.blocking then fill as s else some (.error MP_EAGAIN, s)
        else if a.r < 0 then
          if a.r = SSL_CLOSE_NOTIFY ∨ a.r = SSL_ERROR_CONN_LOST then some (.closed, s)
          else if a.r = SSL_EAGAIN then some (.error MP_EAGAIN, s)
          else some (.error a.r, s)
        else some (.ready, { s with o := { s.o with bytesLeft := a.r.toNat } })

def sslSocketRead (size : Nat) (s : State) : Option (Outcome × State) :=
  if !s.o.sslSock then some (.error EBADF, s)
  else
    match fill s.incoming s with
    | none => none
    | some (.closed, s) => some (.bytes [], s)
    | some (.error errcode, s) => some (.error errcode, s)
    | some (.ready, s) =>
        let size := if size > s.o.bytesLeft then s.o.bytesLeft else size
        let data := slice s.record s.o.buf size
        let o := { s.o with buf := s.o.buf + size, bytesLeft := s.o.bytesLeft - size }
        some (.bytes data, { s with o := o })

def writeLoop (data : List UInt8) : List SslWrite → State → Option (Int × State)
  | [], _ => none
  | w :: ws, s =>
      let (r, record) := w data s.record
      let s := { s with record := record, outgoing := ws }
      if r = 0 then
        if s.o.blocking then writeLoop data ws s else some (SSL_EAGAIN, s)
      else some (r, s)

def sslSocketWrite (data : List UInt8) (s : State) : Option (Outcome × State) :=
  if !s.o.sslSock then some (.error EBADF, s)
  else
    match writeLoop data s.outgoing s with
    | none => none
    | some (r, s) =>
        if r < 0 then
          if r = SSL_CLOSE_NOTIFY ∨ r = SSL_ERROR_CONN_LOST then some (.wrote 0, s)
          else if r = SSL_EAGAIN then some (.error MP_EAGAIN, s)
          else some (.error r, s)
        else some (.wrote r, s)

def call : Call → State → Option (Outcome × State)
  | .read size => sslSocketRead size
  | .write data => sslSocketWrite data

def step (s : State) (c : Call) : State :=
  if s.waiting then s
  else
    match call c s with
    | none => { s with waiting := true }
    | some (outcome, s) => { s with log := s.log ++ [(c, outcome)] }

theorem sslSocketRead_of_closes {s : State} {a : SslRead} {as : List SslRead}
    (hopen : s.o.sslSock = true) (hleft : s.o.bytesLeft = 0) (hincoming : s.incoming = a :: as)
    (hcloses : a.Closes) (size : Nat) :
    sslSocketRead size s = some (.bytes [], s.receive a as) := by
  have hne : a.r ≠ SSL_OK := by
    obtain h | h := hcloses <;> rw [h] <;> decide
  have hneg : a.r < 0 := by
    obtain h | h := hcloses <;> rw [h] <;> decide
  have hfill : fill s.incoming s = some (.closed, s.receive a as) := by
    rw [hincoming, fill, if_neg (not_not.mpr hleft)]
    simp only [if_neg hne, if_pos hneg]
    exact if_pos hcloses
  simp [sslSocketRead, hopen, hfill]

/-! ## The byte stream -/

def payloads (as : List SslRead) : List UInt8 := as.flatMap SslRead.payload

def received (log : List (Call × Outcome)) : List UInt8 :=
  log.flatMap fun
    | (.read _, .bytes data) => data
    | _ => []

def State.leftOver (s : State) : List UInt8 := slice s.record s.o.buf s.o.bytesLeft

/-- A read that asked for bytes and got none came after the end. -/
def EndsClosed (s : State) : Prop :=
  ∀ size, (Call.read size, Outcome.bytes []) ∈ s.log → 0 < size → ∃ a ∈ s.arrived, a.Closes

/-- The reads return the payloads of the answers `all` in order, and no bytes only at the
end. -/
structure Delivers (all : List SslRead) (s : State) : Prop where
  stream : received s.log <+: payloads all
  closed : EndsClosed s

/-- What is returned and what is left over are what has arrived. -/
structure Streams (all : List SslRead) (s : State) : Prop where
  answers : s.arrived ++ s.incoming = all
  stream : received s.log ++ s.leftOver = payloads s.arrived
  closed : EndsClosed s

theorem Streams.delivers {all : List SslRead} {s : State} (h : Streams all s) : Delivers all s := by
  refine ⟨?_, h.closed⟩
  rw [← h.answers, payloads, List.flatMap_append]
  have hreceived : received s.log <+: payloads s.arrived := by
    rw [← h.stream]
    exact List.prefix_append _ _
  exact hreceived.trans (List.prefix_append _ _)

theorem leftOver_of_none {s : State} (h : s.o.bytesLeft = 0) : s.leftOver = [] := by
  rw [State.leftOver, h]
  rfl

theorem payload_of_le {a : SslRead} (h : a.r ≤ 0) : a.payload = [] := by
  rw [SslRead.payload, Int.toNat_of_nonpos h]
  rfl

theorem payloads_snoc (as : List SslRead) (a : SslRead) :
    payloads (as ++ [a]) = payloads as ++ a.payload := by
  rw [payloads, List.flatMap_append]
  simp [payloads]

theorem Streams.receive {all : List SslRead} {s : State} (h : Streams all s)
    (hnone : s.o.bytesLeft = 0) {a : SslRead} {as : List SslRead} (has : s.incoming = a :: as)
    (ha : a.r ≤ 0) : Streams all (s.receive a as) := by
  constructor
  · rw [← h.answers, has]
    simp [State.receive]
  · have hstream := h.stream
    rw [leftOver_of_none hnone] at hstream
    have hleft : (s.receive a as).leftOver = [] := leftOver_of_none hnone
    rw [hleft]
    change received s.log ++ [] = payloads (s.arrived ++ [a])
    rw [payloads_snoc, payload_of_le ha, hstream, List.append_nil]
  · intro size hmem hsize
    obtain ⟨a', ha', hcloses⟩ := h.closed size hmem hsize
    exact ⟨a', List.mem_append_left _ ha', hcloses⟩

theorem Streams.record {all : List SslRead} {s : State} (h : Streams all s)
    (hnone : s.o.bytesLeft = 0) {a : SslRead} {as : List SslRead} (has : s.incoming = a :: as)
    {s' : State} (hs' : s' = { s.receive a as with
      o := { (s.receive a as).o with bytesLeft := a.r.toNat } }) : Streams all s' := by
  subst hs'
  constructor
  · rw [← h.answers, has]
    simp [State.receive]
  · have hstream := h.stream
    rw [leftOver_of_none hnone, List.append_nil] at hstream
    change received s.log ++ a.payload = payloads (s.arrived ++ [a])
    rw [payloads_snoc, hstream]
  · intro size hmem hsize
    obtain ⟨a', ha', hcloses⟩ := h.closed size hmem hsize
    exact ⟨a', List.mem_append_left _ ha', hcloses⟩

structure Filled (all : List SslRead) (s : State) (result : Fill) (s' : State) : Prop where
  streams : Streams all s'
  log : s'.log = s.log
  ready : result = .ready → 0 < s'.o.bytesLeft
  closed : result = .closed → ∃ a ∈ s'.arrived, a.Closes

theorem fill_spec {all as : List SslRead} {s s' : State} {result : Fill} (h : Streams all s)
    (has : s.incoming = as) (hfill : fill as s = some (result, s')) :
    Filled all s result s' := by
  induction as generalizing s with
  | nil =>
      rw [fill] at hfill
      split at hfill
      · next hleft =>
          obtain ⟨rfl, rfl⟩ := Prod.mk.inj (Option.some.inj hfill)
          exact ⟨h, rfl, fun _ => Nat.pos_of_ne_zero hleft, fun hc => Fill.noConfusion hc⟩
      · cases hfill
  | cons a as ih =>
      rw [fill] at hfill
      by_cases hleft : s.o.bytesLeft = 0
      · rw [if_neg (not_not_intro hleft)] at hfill
        by_cases hok : a.r = SSL_OK
        · have hquiet := h.receive hleft has (by rw [hok]; decide)
          rw [if_pos hok] at hfill
          split at hfill
          · have hrest := ih hquiet rfl hfill
            exact ⟨hrest.streams, hrest.log, hrest.ready, hrest.closed⟩
          · obtain ⟨rfl, rfl⟩ := Prod.mk.inj (Option.some.inj hfill)
            exact ⟨hquiet, rfl, fun hc => Fill.noConfusion hc, fun hc => Fill.noConfusion hc⟩
        rw [if_neg hok] at hfill
        by_cases herror : a.r < 0
        · have hquiet := h.receive hleft has (Int.le_of_lt herror)
          rw [if_pos herror] at hfill
          by_cases hcloses : a.r = SSL_CLOSE_NOTIFY ∨ a.r = SSL_ERROR_CONN_LOST
          · rw [if_pos hcloses] at hfill
            obtain ⟨rfl, rfl⟩ := Prod.mk.inj (Option.some.inj hfill)
            exact ⟨hquiet, rfl, fun hc => Fill.noConfusion hc,
              fun _ => ⟨a, List.mem_append_right _ (List.mem_singleton_self a), hcloses⟩⟩
          · rw [if_neg hcloses] at hfill
            split at hfill <;> obtain ⟨rfl, rfl⟩ := Prod.mk.inj (Option.some.inj hfill) <;>
              exact ⟨hquiet, rfl, fun hc => Fill.noConfusion hc, fun hc => Fill.noConfusion hc⟩
        · rw [if_neg herror] at hfill
          obtain ⟨rfl, rfl⟩ := Prod.mk.inj (Option.some.inj hfill)
          have hpos : 0 < a.r := by
            have hok' : a.r ≠ 0 := hok
            omega
          refine ⟨h.record hleft has rfl, rfl, fun _ => ?_, fun hc => Fill.noConfusion hc⟩
          exact Int.pos_iff_toNat_pos.mp hpos
      · rw [if_pos hleft] at hfill
        obtain ⟨rfl, rfl⟩ := Prod.mk.inj (Option.some.inj hfill)
        exact ⟨h, rfl, fun _ => Nat.pos_of_ne_zero hleft, fun hc => Fill.noConfusion hc⟩

def State.logged (s : State) (e : Call × Outcome) : State := { s with log := s.log ++ [e] }

theorem received_snoc (log : List (Call × Outcome)) (e : Call × Outcome) :
    received (log ++ [e]) = received log ++ received [e] := by
  rw [received, List.flatMap_append]
  rfl

theorem Streams.logged {all : List SslRead} {s : State} (h : Streams all s) {e : Call × Outcome}
    (hbytes : received [e] = [])
    (hend : ∀ size, e = (.read size, .bytes []) → 0 < size → ∃ a ∈ s.arrived, a.Closes) :
    Streams all (s.logged e) := by
  refine ⟨h.answers, ?_, ?_⟩
  · change received (s.log ++ [e]) ++ s.leftOver = payloads s.arrived
    rw [received_snoc, hbytes, List.append_nil, h.stream]
  · intro size hmem hsize
    obtain hold | hnew := List.mem_append.mp hmem
    · exact h.closed size hold hsize
    · exact hend size (List.mem_singleton.mp hnew).symm hsize

theorem Streams.taken {all : List SslRead} {s : State} (h : Streams all s) {size k : Nat}
    (hk : k ≤ s.o.bytesLeft) (hpos : 0 < size → 0 < k) :
    Streams all ({ s with o := { s.o with
      buf := s.o.buf + k
      bytesLeft := s.o.bytesLeft - k } }.logged
        (.read size, .bytes (slice s.record s.o.buf k))) := by
  refine ⟨h.answers, ?_, ?_⟩
  · have hsplit : slice s.record s.o.buf k ++ slice s.record (s.o.buf + k) (s.o.bytesLeft - k) =
        slice s.record s.o.buf s.o.bytesLeft := by
      rw [← slice_add, Nat.add_sub_cancel' hk]
    have hnew : received [(.read size, .bytes (slice s.record s.o.buf k))] =
        slice s.record s.o.buf k := List.append_nil _
    calc
      received (s.log ++ [(.read size, .bytes (slice s.record s.o.buf k))]) ++
          slice s.record (s.o.buf + k) (s.o.bytesLeft - k)
      _ = received s.log ++ (slice s.record s.o.buf k ++
          slice s.record (s.o.buf + k) (s.o.bytesLeft - k)) := by
        rw [received_snoc, hnew, List.append_assoc]
      _ = received s.log ++ s.leftOver := by
        rw [hsplit, State.leftOver]
      _ = payloads s.arrived := h.stream
  · intro size' hmem hsize'
    obtain hold | hnew := List.mem_append.mp hmem
    · exact h.closed size' hold hsize'
    · exfalso
      obtain ⟨hread, hbytes⟩ := Prod.mk.inj (List.mem_singleton.mp hnew)
      have hlen := congrArg List.length (Outcome.bytes.inj hbytes)
      rw [length_slice, List.length_nil] at hlen
      have hsize : size' = size := Call.read.inj hread
      have hk' := hpos (hsize ▸ hsize')
      omega

theorem read_streams {all : List SslRead} {s s' : State} {size : Nat} {outcome : Outcome}
    (h : Streams all s) (hread : sslSocketRead size s = some (outcome, s')) :
    Streams all (s'.logged (.read size, outcome)) := by
  rw [sslSocketRead] at hread
  split at hread
  · obtain ⟨rfl, rfl⟩ := Prod.mk.inj (Option.some.inj hread)
    exact h.logged rfl fun _ he => Outcome.noConfusion (Prod.mk.inj he).2
  · split at hread
    · cases hread
    · next t hfill =>
        obtain ⟨rfl, rfl⟩ := Prod.mk.inj (Option.some.inj hread)
        have hfilled := fill_spec h rfl hfill
        exact hfilled.streams.logged rfl fun _ _ _ => hfilled.closed rfl
    · next errcode t hfill =>
        obtain ⟨rfl, rfl⟩ := Prod.mk.inj (Option.some.inj hread)
        exact (fill_spec h rfl hfill).streams.logged rfl
          fun _ he => Outcome.noConfusion (Prod.mk.inj he).2
    · next t hfill =>
        obtain ⟨rfl, rfl⟩ := Prod.mk.inj (Option.some.inj hread)
        have hfilled := fill_spec h rfl hfill
        have hready := hfilled.ready rfl
        apply hfilled.streams.taken
        · split <;> omega
        · intro hsize
          split <;> omega

/-- A write reaches nothing but the record buffer. -/
theorem writeLoop_frame {data : List UInt8} {ws : List SslWrite} {s s' : State} {r : Int}
    (hloop : writeLoop data ws s = some (r, s')) :
    ∃ record rest, s' = { s with record := record, outgoing := rest } := by
  induction ws generalizing s with
  | nil => cases hloop
  | cons w ws ih =>
      simp only [writeLoop] at hloop
      split at hloop
      · split at hloop
        · obtain ⟨record, rest, hs'⟩ := ih hloop
          exact ⟨record, rest, hs'⟩
        · obtain ⟨rfl, rfl⟩ := Prod.mk.inj (Option.some.inj hloop)
          exact ⟨_, _, rfl⟩
      · obtain ⟨rfl, rfl⟩ := Prod.mk.inj (Option.some.inj hloop)
        exact ⟨_, _, rfl⟩

theorem Streams.rerecord {all : List SslRead} {s : State} (h : Streams all s)
    (hleft : s.o.bytesLeft = 0) (record : Mem UInt8) (rest : List SslWrite) :
    Streams all { s with record := record, outgoing := rest } := by
  refine ⟨h.answers, ?_, h.closed⟩
  have hstream := h.stream
  rw [leftOver_of_none hleft] at hstream
  rw [leftOver_of_none (by exact hleft)]
  exact hstream

theorem write_streams {all : List SslRead} {s s' : State} {data : List UInt8} {outcome : Outcome}
    (h : Streams all s) (hleft : s.o.sslSock = true → s.o.bytesLeft = 0)
    (hwrite : sslSocketWrite data s = some (outcome, s')) :
    Streams all (s'.logged (.write data, outcome)) := by
  have hlogged : ∀ {t : State}, Streams all t → Streams all (t.logged (.write data, outcome)) :=
    fun ht => ht.logged rfl fun _ he => Call.noConfusion (Prod.mk.inj he).1
  rw [sslSocketWrite] at hwrite
  split at hwrite
  · obtain ⟨rfl, rfl⟩ := Prod.mk.inj (Option.some.inj hwrite)
    exact hlogged h
  · next hopen =>
      split at hwrite
      · cases hwrite
      · next r t hloop =>
          obtain ⟨record, rest, rfl⟩ := writeLoop_frame hloop
          have hrest := h.rerecord (hleft (by simpa using hopen)) record rest
          have hs' : s' = { s with record := record, outgoing := rest } := by
            repeat' split at hwrite
            all_goals exact (Prod.mk.inj (Option.some.inj hwrite)).2.symm
          rw [hs']
          exact hlogged hrest

/-- No write on an open socket while bytes of a record are left over. -/
def NoneLeftOver (s : State) : Call → Prop
  | .read _ => True
  | .write _ => s.o.sslSock = true → s.o.bytesLeft = 0

theorem step_streams {all : List SslRead} {s : State} (c : Call) (h : Streams all s)
    (hc : NoneLeftOver s c) : Streams all (step s c) := by
  rw [step]
  split
  · exact h
  · split
    · exact ⟨h.answers, h.stream, h.closed⟩
    · next outcome s' hcall =>
        cases c with
        | read size => exact read_streams h hcall
        | write data => exact write_streams h hc hcall

structure Fresh (s : State) : Prop where
  bytesLeft : s.o.bytesLeft = 0
  arrived : s.arrived = []
  log : s.log = []

theorem Fresh.streams {s : State} (h : Fresh s) : Streams s.incoming s := by
  constructor
  · rw [h.arrived, List.nil_append]
  · rw [h.log, h.arrived, leftOver_of_none h.bytesLeft]
    rfl
  · intro size hmem
    rw [h.log] at hmem
    cases hmem

theorem run_delivers {s : State} (hs : Fresh s) {calls : List Call}
    (hok : Meets step NoneLeftOver s calls) : Delivers s.incoming (run step s calls) :=
  (run_invariant step (fun _ c h hc => step_streams c h hc) hs.streams hok).delivers

/-- A record after an empty result, the next one while the peer closes, and a write that
fills the record buffer. -/
def threeAnswers : State where
  o := ⟨true, 0, 0, true⟩
  record := fun _ => 0
  incoming := [⟨0, 21, fun _ => 0⟩, ⟨4, 21, blit (fun _ => 0) 21 [0x61, 0x62, 0x63, 0x64]⟩,
    ⟨SSL_CLOSE_NOTIFY, 21, fun _ => 0⟩]
  outgoing := [fun data record => (data.length, blit record 21 data)]
  waiting := false
  arrived := []
  log := []

theorem run_delivers_write :
    Delivers threeAnswers.incoming
      (run step threeAnswers [.read 2, .read 9, .write [0x78, 0x79, 0x7A, 0x7B], .read 2]) :=
  run_delivers ⟨rfl, rfl, rfl⟩ ⟨trivial, trivial, fun _ => rfl, trivial, trivial⟩

/-- The write comes between two reads of one record. -/
theorem run_overwritten :
    ¬Delivers threeAnswers.incoming
      (run step threeAnswers [.read 2, .write [0x78, 0x79, 0x7A, 0x7B], .read 2]) := by
  intro h
  have hstream := h.stream
  revert hstream
  decide

/-- Whatever is left over, a write may change every byte of it. -/
theorem leftOver_changed {s : State} (hleft : s.o.bytesLeft ≠ 0) (data : List UInt8) :
    ∃ w : SslWrite, ∀ ws s' r, writeLoop data (w :: ws) s = some (r, s') →
      s'.leftOver ≠ s.leftOver := by
  refine ⟨fun _ record => (1, fun i => record i + 1), fun ws s' r hloop => ?_⟩
  obtain ⟨-, rfl⟩ := Prod.mk.inj (Option.some.inj hloop)
  intro heq
  have hfirst := congrArg (·[0]?) heq
  simp only [State.leftOver, getElem?_slice _ _ _ 0 (Nat.pos_of_ne_zero hleft),
    Option.some.injEq] at hfirst
  simp at hfirst

end FreedosMicroPython.Tls.Socket
