import FreedosMicroPython.Lib.Runs
import FreedosMicroPython.Tls.Socket
/-!
# One TLS context for many connections

`ssl_context_make_new`, `ssl_context_attr`, `ssl_context_load_cert_chain` and
`ssl_socket_make_new` of `port/modtls_axtls_uc386dos.c`. All sockets of a context
share one `SSL_CTX`, and each wrap patches it: `sessions_asExpected_iff` says when a client
session sees the settings of the context and nothing of earlier wraps.
-/

namespace FreedosMicroPython.Tls.Context

open FreedosMicroPython.Lib.Runs
open FreedosMicroPython.Tls.Socket

def CERT_NONE : Int := 0
def CERT_REQUIRED : Int := 2
def MP_ENOTCONN : Int := 107

inductive Raised where
  | typeError
  | valueError (text : String)
  | osError (errcode : Int)

/-- A Python object as these functions tell them apart. -/
inductive Obj where
  | none
  | int (v : Int)
  | str (data : List UInt8)
  | other
  deriving DecidableEq

def mpObjStrGetData : Obj → Except Raised (List UInt8)
  | .str data => .ok data
  | _ => .error .typeError

def mpObjGetInt : Obj → Except Raised Int
  | .int v => .ok v
  | _ => .error .typeError

/-! ## axtls -/

/-- The option bits that the port touches. -/
structure Options where
  serverVerifyLater : Bool
  connectInParts : Bool
  noDefaultKey : Bool
  deriving DecidableEq

structure SslCtx where
  options : Options
  rsaKey : Option (List UInt8)
  certs : List (List UInt8)
  deriving DecidableEq

/-- The keys and certificates that axtls can parse, and the length of the certificate
list of a context. -/
structure Axtls where
  keyOk : List UInt8 → Bool
  certOk : List UInt8 → Bool
  maxCerts : Nat

def sslCtxNew : SslCtx := ⟨⟨true, false, false⟩, none, []⟩

variable (ax : Axtls)

/-- `ssl_obj_memory_load` of an `SSL_OBJ_RSA_KEY`. -/
def loadRsaKey (data : List UInt8) (ctx : SslCtx) : Bool × SslCtx :=
  if ax.keyOk data then (true, { ctx with rsaKey := some data }) else (false, ctx)

/-- `ssl_obj_memory_load` of an `SSL_OBJ_X509_CERT`. -/
def loadX509Cert (data : List UInt8) (ctx : SslCtx) : Bool × SslCtx :=
  if ax.certOk data && decide (ctx.certs.length < ax.maxCerts) then
    (true, { ctx with certs := ctx.certs ++ [data] })
  else (false, ctx)

/-! ## The context -/

/-- What a client session was made with, and what axtls saw then. -/
structure Session where
  verifyMode : Int
  doHandshakeOnConnect : Bool
  key : Obj
  cert : Obj
  seen : SslCtx

/-- `mp_obj_ssl_context_t`. `sessions` records the client sessions made so far. -/
structure SslContext where
  key : Obj
  cert : Obj
  verifyMode : Int
  sslCtx : SslCtx
  sessions : List Session

def sslContextMakeNew : SslContext := ⟨.none, .none, CERT_NONE, sslCtxNew, []⟩

def sslContextAttr (value : Obj) (s : SslContext) : Except Raised Unit × SslContext :=
  match mpObjGetInt value with
  | .error e => (.error e, s)
  | .ok v =>
      if v ≠ CERT_NONE ∧ v ≠ CERT_REQUIRED then
        (.error (.valueError "verify_mode must be CERT_NONE or CERT_REQUIRED"), s)
      else (.ok (), { s with verifyMode := v })

def sslContextLoadCertChain (cert pkey : Obj) (s : SslContext) :
    Except Raised Unit × SslContext :=
  (.ok (), { s with cert := cert, key := pkey })

/-- The key and the certificate of the context, put into its `SSL_CTX`. -/
def loadCredentials (s : SslContext) : Except Raised Unit × SslContext :=
  if s.key = .none then (.ok (), s)
  else
    match mpObjStrGetData s.key with
    | .error e => (.error e, s)
    | .ok data =>
        let (ok, ctx) := loadRsaKey ax data s.sslCtx
        let s := { s with sslCtx := ctx }
        if !ok then (.error (.valueError "invalid key"), s)
        else
          match mpObjStrGetData s.cert with
          | .error e => (.error e, s)
          | .ok data =>
              let (ok, ctx) := loadX509Cert ax data s.sslCtx
              let s := { s with sslCtx := ctx }
              if !ok then (.error (.valueError "invalid cert"), s) else (.ok (), s)

def patchOptions (s : SslContext) (doHandshakeOnConnect : Bool) (options : Options) : Options :=
  let options :=
    if s.verifyMode = CERT_REQUIRED then { options with serverVerifyLater := false }
    else { options with serverVerifyLater := true }
  let options :=
    if !doHandshakeOnConnect then { options with connectInParts := true }
    else { options with connectInParts := false }
  if s.key ≠ .none then { options with noDefaultKey := true } else options

/-- The end of the handshake with the status `r`. -/
def handshakeResult (r : Int) : Except Raised Unit :=
  if r = SSL_OK then .ok ()
  else if r = SSL_CLOSE_NOTIFY then .error (.osError MP_ENOTCONN)
  else if r = SSL_EAGAIN then .error (.osError MP_EAGAIN)
  else .error (.osError r)

/-- The status of the handshake is an argument. -/
def sslSocketMakeNew (serverSide doHandshakeOnConnect : Bool) (serverHostname : Obj)
    (handshake : Int) (s : SslContext) : Except Raised Unit × SslContext :=
  match loadCredentials ax s with
  | (.error e, s) => (.error e, s)
  | (.ok (), s) =>
      if serverSide then (.ok (), s)
      else
        match if serverHostname ≠ .none then (mpObjStrGetData serverHostname).map fun _ => ()
          else .ok () with
        | .error e => (.error e, s)
        | .ok () =>
            let options := patchOptions s doHandshakeOnConnect s.sslCtx.options
            let ctx := { s.sslCtx with options := options }
            let session := ⟨s.verifyMode, doHandshakeOnConnect, s.key, s.cert, ctx⟩
            let s := { s with sslCtx := ctx, sessions := s.sessions ++ [session] }
            if doHandshakeOnConnect then (handshakeResult handshake, s) else (.ok (), s)

inductive Call where
  | storeVerifyMode (value : Obj)
  | loadCertChain (cert pkey : Obj)
  | wrapSocket (serverSide doHandshakeOnConnect : Bool) (serverHostname : Obj) (handshake : Int)

def call : Call → SslContext → Except Raised Unit × SslContext
  | .storeVerifyMode value => sslContextAttr value
  | .loadCertChain cert pkey => sslContextLoadCertChain cert pkey
  | .wrapSocket serverSide doHandshakeOnConnect serverHostname handshake =>
      sslSocketMakeNew ax serverSide doHandshakeOnConnect serverHostname handshake

def step (s : SslContext) (c : Call) : SslContext := (call ax c s).2

/-! ## What a client session should see -/

def dataOf : Obj → List UInt8
  | .str data => data
  | _ => []

/-- The settings that a context without a past would give a client session. -/
def expected (verifyMode : Int) (doHandshakeOnConnect : Bool) (key cert : Obj) : SslCtx where
  options := ⟨verifyMode ≠ CERT_REQUIRED, !doHandshakeOnConnect, key ≠ .none⟩
  rsaKey := if key = .none then none else some (dataOf key)
  certs := if key = .none then [] else [dataOf cert]

def Session.AsExpected (x : Session) : Prop :=
  x.seen = expected x.verifyMode x.doHandshakeOnConnect x.key x.cert

def CanLoad (s : SslContext) : Prop :=
  s.key = .none ∨ ∃ key cert, s.key = .str key ∧ ax.keyOk key = true ∧ s.cert = .str cert ∧
    ax.certOk cert = true ∧ s.sslCtx.certs.length < ax.maxCerts

def CreatesClient (s : SslContext) : Call → Prop
  | .wrapSocket serverSide _ serverHostname _ =>
      CanLoad ax s ∧ serverSide = false ∧
        (serverHostname = .none ∨ ∃ name, serverHostname = .str name)
  | _ => False

/-- No certificate is in the `SSL_CTX`, and where the context has no key, no key and no
`SSL_NO_DEFAULT_KEY` either. -/
def Clean (s : SslContext) : Prop :=
  s.sslCtx.certs = [] ∧
    (s.key = .none → s.sslCtx.rsaKey = none ∧ s.sslCtx.options.noDefaultKey = false)

theorem patchOptions_eq (s : SslContext) (doHandshakeOnConnect : Bool) (options : Options) :
    patchOptions s doHandshakeOnConnect options =
      ⟨s.verifyMode ≠ CERT_REQUIRED, !doHandshakeOnConnect,
        decide (s.key ≠ .none) || options.noDefaultKey⟩ := by
  unfold patchOptions
  by_cases hverify : s.verifyMode = CERT_REQUIRED <;> by_cases hkey : s.key = .none <;>
    cases doHandshakeOnConnect <;> simp [hverify, hkey]

def loadedCtx (s : SslContext) : SslCtx :=
  if s.key = .none then s.sslCtx
  else { s.sslCtx with
    rsaKey := some (dataOf s.key)
    certs := s.sslCtx.certs ++ [dataOf s.cert] }

theorem loadCredentials_of_canLoad {s : SslContext} (h : CanLoad ax s) :
    loadCredentials ax s = (.ok (), { s with sslCtx := loadedCtx s }) := by
  obtain hnone | ⟨key, cert, hkey, hkeyOk, hcert, hcertOk, hroom⟩ := h
  · rw [loadCredentials, if_pos hnone, loadedCtx, if_pos hnone]
  · have hsome : s.key ≠ .none := by
      rw [hkey]
      exact Obj.noConfusion
    rw [loadCredentials, if_neg hsome, loadedCtx, if_neg hsome]
    simp [hkey, hcert, mpObjStrGetData, loadRsaKey, hkeyOk, loadX509Cert, hcertOk, hroom, dataOf]

theorem sslContextAttr_sessions (value : Obj) (s : SslContext) :
    (sslContextAttr value s).2.sessions = s.sessions := by
  unfold sslContextAttr
  split
  · rfl
  · split <;> rfl

theorem loadCredentials_sessions (s : SslContext) :
    (loadCredentials ax s).2.sessions = s.sessions := by
  unfold loadCredentials
  split
  · rfl
  · split
    · rfl
    · simp only
      split
      · rfl
      · split
        · rfl
        · split <;> rfl

theorem canLoad_of_loadCredentials {s : SslContext} (h : (loadCredentials ax s).1 = .ok ()) :
    CanLoad ax s := by
  unfold loadCredentials at h
  cases hkey : s.key with
  | none => exact .inl hkey
  | int v => simp [hkey, mpObjStrGetData] at h
  | other => simp [hkey, mpObjStrGetData] at h
  | str key =>
      cases hkeyOk : ax.keyOk key with
      | false => simp [hkey, mpObjStrGetData, loadRsaKey, hkeyOk] at h
      | true =>
          cases hcert : s.cert with
          | none => simp [hkey, hcert, mpObjStrGetData, loadRsaKey, hkeyOk] at h
          | int v => simp [hkey, hcert, mpObjStrGetData, loadRsaKey, hkeyOk] at h
          | other => simp [hkey, hcert, mpObjStrGetData, loadRsaKey, hkeyOk] at h
          | str cert =>
              by_cases hload : ax.certOk cert = true ∧ s.sslCtx.certs.length < ax.maxCerts
              · exact .inr ⟨key, cert, hkey, hkeyOk, hcert, hload.1, hload.2⟩
              · simp [hkey, hcert, mpObjStrGetData, loadRsaKey, hkeyOk, loadX509Cert, hload] at h

theorem wrap_sessions (s : SslContext) (serverSide doHandshakeOnConnect : Bool)
    (serverHostname : Obj) (handshake : Int) :
    (CreatesClient ax s (.wrapSocket serverSide doHandshakeOnConnect serverHostname handshake) ∧
      (sslSocketMakeNew ax serverSide doHandshakeOnConnect serverHostname handshake s).2.sessions =
        s.sessions ++ [⟨s.verifyMode, doHandshakeOnConnect, s.key, s.cert,
          { loadedCtx s with
            options := patchOptions s doHandshakeOnConnect s.sslCtx.options }⟩]) ∨
    (¬CreatesClient ax s (.wrapSocket serverSide doHandshakeOnConnect serverHostname handshake) ∧
      (sslSocketMakeNew ax serverSide doHandshakeOnConnect serverHostname handshake s).2.sessions =
        s.sessions) := by
  by_cases hload : CanLoad ax s
  · have hoptions : (loadedCtx s).options = s.sslCtx.options := by
      unfold loadedCtx
      split <;> rfl
    rw [sslSocketMakeNew, loadCredentials_of_canLoad ax hload]
    cases serverSide with
    | true => exact .inr ⟨fun h => Bool.noConfusion h.2.1, rfl⟩
    | false =>
        cases serverHostname with
        | none =>
            refine .inl ⟨⟨hload, rfl, .inl rfl⟩, ?_⟩
            cases doHandshakeOnConnect <;> simp [hoptions, patchOptions_eq]
        | str name =>
            refine .inl ⟨⟨hload, rfl, .inr ⟨name, rfl⟩⟩, ?_⟩
            cases doHandshakeOnConnect <;>
              simp [hoptions, patchOptions_eq, mpObjStrGetData, Except.map]
        | int v => exact .inr ⟨fun h => by simpa using h.2.2, rfl⟩
        | other => exact .inr ⟨fun h => by simpa using h.2.2, rfl⟩
  · refine .inr ⟨fun h => hload h.1, ?_⟩
    rw [← loadCredentials_sessions ax s, sslSocketMakeNew]
    split
    · next heq => rw [heq]
    · next heq =>
        apply absurd (canLoad_of_loadCredentials ax _) hload
        rw [heq]

theorem asExpected_iff_clean (s : SslContext) (doHandshakeOnConnect : Bool) :
    Session.AsExpected ⟨s.verifyMode, doHandshakeOnConnect, s.key, s.cert, { loadedCtx s with
      options := patchOptions s doHandshakeOnConnect s.sslCtx.options }⟩ ↔ Clean s := by
  rw [Session.AsExpected, patchOptions_eq]
  unfold loadedCtx expected Clean
  by_cases hkey : s.key = .none
  · simp only [hkey, if_true, SslCtx.mk.injEq, Options.mk.injEq, true_and, ne_eq, not_true,
      decide_false, Bool.false_or, forall_const]
    constructor
    · rintro ⟨hoptions, hrsaKey, hcerts⟩
      exact ⟨hcerts, hrsaKey, hoptions⟩
    · rintro ⟨hcerts, hrsaKey, hoptions⟩
      exact ⟨hoptions, hrsaKey, hcerts⟩
  · simp [hkey]

/-! ## Runs -/

/-- A call adds at most one session, and that is as expected exactly if the context was
clean. -/
theorem step_asExpected_iff (s : SslContext) (c : Call) :
    (∀ x ∈ (step ax s c).sessions, x.AsExpected) ↔
      (∀ x ∈ s.sessions, x.AsExpected) ∧ (CreatesClient ax s c → Clean s) := by
  cases c with
  | storeVerifyMode value =>
      change (∀ x ∈ (sslContextAttr value s).2.sessions, _) ↔ _
      rw [sslContextAttr_sessions]
      exact ⟨fun h => ⟨h, False.elim⟩, And.left⟩
  | loadCertChain cert pkey => exact ⟨fun h => ⟨h, False.elim⟩, And.left⟩
  | wrapSocket serverSide doHandshakeOnConnect serverHostname handshake =>
      obtain ⟨hcreates, hsessions⟩ | ⟨hnone, hsessions⟩ :=
        wrap_sessions ax s serverSide doHandshakeOnConnect serverHostname handshake
      · have hall : (∀ x ∈ s.sessions ++ [⟨s.verifyMode, doHandshakeOnConnect, s.key, s.cert,
            { loadedCtx s with options := patchOptions s doHandshakeOnConnect s.sslCtx.options }⟩],
            x.AsExpected) ↔ (∀ x ∈ s.sessions, x.AsExpected) ∧ Clean s := by
          rw [List.forall_mem_append, List.forall_mem_singleton, asExpected_iff_clean]
        change (∀ x ∈ (sslSocketMakeNew ax _ _ _ _ s).2.sessions, _) ↔ _
        rw [hsessions, hall]
        exact and_congr_right fun _ => ⟨fun h _ => h, fun h => h hcreates⟩
      · change (∀ x ∈ (sslSocketMakeNew ax _ _ _ _ s).2.sessions, _) ↔ _
        rw [hsessions]
        exact ⟨fun h => ⟨h, fun hc => absurd hc hnone⟩, And.left⟩

theorem run_asExpected_iff (s : SslContext) (calls : List Call) :
    (∀ x ∈ (run (step ax) s calls).sessions, x.AsExpected) ↔
      (∀ x ∈ s.sessions, x.AsExpected) ∧
        Meets (step ax) (fun s c => CreatesClient ax s c → Clean s) s calls := by
  induction calls generalizing s with
  | nil => exact (iff_of_eq (and_true _)).symm
  | cons c calls ih => rw [run_cons, ih, step_asExpected_iff, and_assoc, Meets]

theorem sessions_asExpected_iff (calls : List Call) :
    (∀ x ∈ (run (step ax) sslContextMakeNew calls).sessions, x.AsExpected) ↔
      Meets (step ax) (fun s c => CreatesClient ax s c → Clean s) sslContextMakeNew calls := by
  rw [run_asExpected_iff]
  apply and_iff_right
  intro x hx
  cases hx

def Session.FlagsAsExpected (x : Session) : Prop :=
  x.seen.options.serverVerifyLater = decide (x.verifyMode ≠ CERT_REQUIRED) ∧
    x.seen.options.connectInParts = !x.doHandshakeOnConnect

theorem sessions_flags (calls : List Call) :
    ∀ x ∈ (run (step ax) sslContextMakeNew calls).sessions, x.FlagsAsExpected := by
  have hstep : ∀ s c, (∀ x ∈ s.sessions, Session.FlagsAsExpected x) → True →
      ∀ x ∈ (step ax s c).sessions, x.FlagsAsExpected := by
    intro s c hs _ x hx
    cases c with
    | storeVerifyMode value =>
        change x ∈ (sslContextAttr value s).2.sessions at hx
        rw [sslContextAttr_sessions] at hx
        exact hs x hx
    | loadCertChain cert pkey => exact hs x hx
    | wrapSocket serverSide doHandshakeOnConnect serverHostname handshake =>
        change x ∈ (sslSocketMakeNew ax _ _ _ _ s).2.sessions at hx
        obtain ⟨-, hsessions⟩ | ⟨-, hsessions⟩ :=
          wrap_sessions ax s serverSide doHandshakeOnConnect serverHostname handshake
        · rw [hsessions] at hx
          obtain hold | hnew := List.mem_append.mp hx
          · exact hs x hold
          · rw [List.mem_singleton.mp hnew]
            rw [Session.FlagsAsExpected, patchOptions_eq]
            exact ⟨rfl, rfl⟩
        · rw [hsessions] at hx
          exact hs x hx
  exact run_invariant (step ax) hstep (fun x hx => by cases hx)
    (meets_of_forall (step ax) (fun _ _ => trivial) _ calls)

def oneByte : Axtls := ⟨fun key => key.length == 1, fun cert => cert.length == 1, 2⟩

/-- The second socket with the same credentials sees the certificate twice. -/
theorem sessions_twice :
    ¬∀ x ∈ (run (step oneByte) sslContextMakeNew [.loadCertChain (.str [1]) (.str [2]),
      .wrapSocket false true .none SSL_OK, .wrapSocket false true .none SSL_OK]).sessions,
      x.AsExpected := by
  intro h
  have hlast := h ⟨CERT_NONE, true, .str [2], .str [1], ⟨⟨true, false, true⟩, some [2], [[1], [1]]⟩⟩
    (by simp [run, step, call, sslContextLoadCertChain, sslSocketMakeNew, loadCredentials,
      sslContextMakeNew, sslCtxNew, mpObjStrGetData, loadRsaKey, loadX509Cert, oneByte,
      patchOptions_eq, CERT_NONE, CERT_REQUIRED])
  revert hlast
  unfold Session.AsExpected
  decide

end FreedosMicroPython.Tls.Context
