import FreedosMicroPython.Wget.Fetch
/-!
# What a successful fetch promises

Whether the bytes that `fetch` wrote are all that the response announced, and whether they came over
a connection whose peer was verified.
-/

namespace FreedosMicroPython.Wget

open FreedosMicroPython.OsPath

def Answer.contentLength (r : Answer) : Option Int :=
  (r.hdrs.lookup (str "content-length")).bind pyInt

/-- `fetch` returns for this answer: its file can be opened, and nothing is raised at the end of
its connection. -/
def Saved (w : World) (a : Args) (r : Answer) : Prop :=
  w.openError (sinkOf a r.target.path) = none ∧ r.link.atEnd = .ok ()

def Disk.since (d' d : Disk) : List (Option Context × UInt8) := d'.written.drop d.written.length

theorem since_write_create (d : Disk) (sink : List UInt8) (context : Option Context)
    (data : List UInt8) :
    ((d.create sink).write sink context data).since d = data.map fun c => (context, c) :=
  List.drop_left

variable {w : World} {a : Args} {url : List UInt8}

/-- A success is an answer that is saved, and what it has written is the body. -/
theorem saved_of_fetch {cuts : Nat → Nat → Nat} {d d' : Disk} {result : Result}
    (h : fetch w a cuts url d = (.ok result, d')) :
    ∃ via r, final w a url = .answered via r ∧ Saved w a r ∧
      d'.since d = r.body.map fun c => (r.link.context, c) := by
  rw [fetch_eq_finish] at h
  obtain ⟨via, r, hfinal, hopen, hend, -, rfl⟩ := finish_ok h
  exact ⟨via, r, hfinal, ⟨hopen, hend⟩, since_write_create _ _ _ _⟩

theorem fetch_of_saved {via : List (List UInt8)} {r : Answer}
    (hfinal : final w a url = .answered via r) (hsaved : Saved w a r) (cuts : Nat → Nat → Nat)
    (d : Disk) :
    ∃ result d', fetch w a cuts url d = (.ok result, d') ∧
      d'.since d = r.body.map fun c => (r.link.context, c) := by
  have hfetch := fetch_eq_finish w a cuts url d
  rw [hfinal, finish] at hfetch
  simp only [hsaved.1, hsaved.2] at hfetch
  exact ⟨_, _, hfetch, since_write_create _ _ _ _⟩

/-! ## The length -/

/-- Every success that carries a length `n` has written `n` bytes. -/
def Complete (w : World) (a : Args) (cuts : Nat → Nat → Nat) (url : List UInt8) (d : Disk) : Prop :=
  ∀ via r, final w a url = .answered via r → ∀ n : Nat, r.contentLength = some n →
    ∀ result d', fetch w a cuts url d = (.ok result, d') → (d'.since d).length = n

/-- A connection that brings an answer with a length `n` ends behind `n` bytes of body, or with an
error. -/
def Delivers (w : World) (a : Args) (url : List UInt8) : Prop :=
  ∀ via r, final w a url = .answered via r → ∀ n : Nat, r.contentLength = some n →
    r.body.length = n ∨ ¬ Saved w a r

theorem Complete.length_eq {cuts : Nat → Nat → Nat} {d : Disk} (h : Complete w a cuts url d)
    {via : List (List UInt8)} {r : Answer} (hfinal : final w a url = .answered via r)
    (hsaved : Saved w a r) {n : Nat} (hn : r.contentLength = some n) : r.body.length = n := by
  obtain ⟨result, d', hfetch, hsince⟩ := fetch_of_saved hfinal hsaved cuts d
  have hlen := h via r hfinal n hn result d' hfetch
  rwa [hsince, List.length_map] at hlen

theorem fetch_complete_iff (cuts : Nat → Nat → Nat) (d : Disk) :
    Complete w a cuts url d ↔ Delivers w a url := by
  constructor
  · intro h via r hfinal n hn
    by_cases hsaved : Saved w a r
    · exact .inl (h.length_eq hfinal hsaved hn)
    · exact .inr hsaved
  · intro h via r hfinal n hn result d' hfetch
    obtain ⟨via', r', hfinal', hsaved, hsince⟩ := saved_of_fetch hfetch
    rw [hfinal] at hfinal'
    cases hfinal'
    rw [hsince, List.length_map]
    exact (h via r hfinal n hn).resolve_right (not_not.mpr hsaved)

/-- Two bytes are announced, and the connection is lost behind them. -/
theorem fetch_complete_iff_lost :
    Complete (scripted ["HTTP/1.0 200 OK\r\nContent-Length: 2\r\n\r\nhi"] (.lost 104))
      (toFile false) (fun _ _ => 1) (str "https://a/f") emptyDisk := by
  refine (fetch_complete_iff _ _).mpr fun via r hfinal n hn => .inl ?_
  change Final.answered _ _ = _ at hfinal
  cases hfinal
  have hlength : ((2 : Nat) : Int) = n := Option.some.inj hn
  rw [← Int.ofNat.inj hlength]
  rfl

def cutShort (ending : Ending) : World :=
  scripted ["HTTP/1.0 200 OK\r\nContent-Length: 5\r\n\r\nhi"] ending

/-- Over TLS the connection is lost behind the second byte, over TCP the server closes it there:
`fetch` returns. -/
theorem fetch_returns_truncated :
    ¬ Complete (cutShort (.lost 104)) (toFile false) (fun _ _ => 512) (str "https://a/f")
        emptyDisk ∧
      (fetch (cutShort (.lost 104)) (toFile false) (fun _ _ => 512) (str "https://a/f")
        emptyDisk).1 = .ok ⟨200, 2, str "out"⟩ ∧
      ¬ Complete (cutShort .closed) (toFile false) (fun _ _ => 512) (str "http://a/f")
        emptyDisk := by
  refine ⟨fun h => ?_, ?_, fun h => ?_⟩
  · exact absurd (h.length_eq rfl ⟨rfl, rfl⟩ (n := 5) rfl) (by decide)
  · rw [fetch_eq_finish]
    decide
  · exact absurd (h.length_eq rfl ⟨rfl, rfl⟩ (n := 5) rfl) (by decide)

/-! ## The verification -/

/-- Every success has written bytes of verified connections only. -/
def Verified (w : World) (a : Args) (cuts : Nat → Nat → Nat) (url : List UInt8) (d : Disk) : Prop :=
  ∀ result d', fetch w a cuts url d = (.ok result, d') →
    ∀ p ∈ d'.since d, ∃ context, p.1 = some context ∧ context.verifyMode = .certRequired

/-- The scheme that the locations that were followed lead to: that of the last one in which `://`
stands. -/
def schemeBehind (scheme : List UInt8) (via : List (List UInt8)) : List UInt8 :=
  via.foldl (fun scheme location =>
    if str "://" <:+: location then (splitUrl location).scheme else scheme) scheme

/-- Where a body is saved, the locations did not lead away from https. -/
def StaysHttps (w : World) (a : Args) (url : List UInt8) : Prop :=
  ∀ via r, final w a url = .answered via r → Saved w a r → r.body ≠ [] →
    schemeBehind (splitUrl url).scheme via = str "https"

theorem schemeBehind_eq (url : List UInt8) (via : List (List UInt8)) :
    (splitUrl (via.foldl nextUrl url)).scheme = schemeBehind (splitUrl url).scheme via := by
  induction via generalizing url with
  | nil => rfl
  | cons location via ih =>
      rw [List.foldl_cons, ih, nextUrl_scheme]
      rfl

theorem makeContext_verifyMode {context : Context} (hverify : a.verify = true)
    (h : makeContext w a = .ok context) : context.verifyMode = .certRequired := by
  rw [makeContext, if_pos hverify] at h
  cases hcerts : a.caCerts with
  | none =>
      rw [hcerts] at h
      cases h
      rfl
  | some file =>
      rw [hcerts] at h
      obtain ⟨cadata, -, h⟩ := bind_ok h
      obtain ⟨-, -, h⟩ := bind_ok h
      cases h
      rfl

/-- A connection is verified where its target has the scheme https, and unwrapped elsewhere. -/
theorem context_of_answered (hverify : a.verify = true) {left k : Nat}
    {via : List (List UInt8)} {r : Answer} (h : follow w a left k url = .answered via r) :
    (∃ context, r.link.context = some context ∧ context.verifyMode = .certRequired) ↔
      schemeBehind (splitUrl url).scheme via = str "https" := by
  obtain ⟨⟨k', hrequest⟩, -⟩ := follow_answered h
  obtain ⟨htarget, port, -, hconnect⟩ := request_ok hrequest
  rw [← schemeBehind_eq, ← htarget]
  obtain ⟨hscheme, hnone⟩ | ⟨hscheme, context, hmake, hsome⟩ := connect_context hconnect
  · refine iff_of_false ?_ hscheme
    rintro ⟨context, hcontext, -⟩
    rw [hnone] at hcontext
    cases hcontext
  · exact iff_of_true ⟨context, hsome, makeContext_verifyMode hverify hmake⟩ hscheme

theorem Verified.context {cuts : Nat → Nat → Nat} {d : Disk} (h : Verified w a cuts url d)
    {via : List (List UInt8)} {r : Answer} (hfinal : final w a url = .answered via r)
    (hsaved : Saved w a r) (hbody : r.body ≠ []) :
    ∃ context, r.link.context = some context ∧ context.verifyMode = .certRequired := by
  obtain ⟨result, d', hfetch, hsince⟩ := fetch_of_saved hfinal hsaved cuts d
  obtain ⟨c, cs, hcons⟩ := List.exists_cons_of_ne_nil hbody
  refine h result d' hfetch (r.link.context, c) ?_
  rw [hsince, hcons]
  exact List.mem_cons_self

theorem fetch_verified_iff (hverify : a.verify = true) (cuts : Nat → Nat → Nat) (d : Disk) :
    Verified w a cuts url d ↔ StaysHttps w a url := by
  constructor
  · intro h via r hfinal hsaved hbody
    rw [← context_of_answered hverify hfinal]
    exact h.context hfinal hsaved hbody
  · intro h result d' hfetch p hp
    obtain ⟨via, r, hfinal, hsaved, hsince⟩ := saved_of_fetch hfetch
    rw [hsince] at hp
    obtain ⟨c, hc, rfl⟩ := List.mem_map.mp hp
    rw [context_of_answered hverify hfinal]
    exact h via r hfinal hsaved (List.ne_nil_of_mem hc)

/-- A redirect to another server with the scheme https. -/
theorem fetch_verified_iff_https :
    Verified (scripted ["HTTP/1.0 302 Found\r\nLocation: https://b/x\r\n\r\n",
      "HTTP/1.0 200 OK\r\n\r\nhi"] .closed) (toFile true) (fun _ _ => 1) (str "https://a/")
      emptyDisk := by
  refine (fetch_verified_iff rfl _ _).mpr fun via r hfinal _ _ => ?_
  change Final.answered _ _ = _ at hfinal
  cases hfinal
  decide

/-- A server with a certificate redirects to a URL with the scheme http: the body comes over TCP,
and nothing is verified. -/
theorem fetch_loses_verification :
    ¬ Verified (scripted ["HTTP/1.0 302 Found\r\nLocation: http://b/x\r\n\r\n",
        "HTTP/1.0 200 OK\r\n\r\nhi"] .closed) (toFile true) (fun _ _ => 512) (str "https://a/")
        emptyDisk ∧
      (fetch (scripted ["HTTP/1.0 302 Found\r\nLocation: http://b/x\r\n\r\n",
        "HTTP/1.0 200 OK\r\n\r\nhi"] .closed) (toFile true) (fun _ _ => 512) (str "https://a/")
        emptyDisk).1 = .ok ⟨200, 2, str "out"⟩ := by
  refine ⟨fun h => ?_, ?_⟩
  · obtain ⟨context, hcontext, -⟩ := h.context rfl ⟨rfl, rfl⟩ (List.cons_ne_nil _ _)
    cases hcontext
  · rw [fetch_eq_finish]
    decide

end FreedosMicroPython.Wget
