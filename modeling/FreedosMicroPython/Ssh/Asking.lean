import FreedosMicroPython.Ssh.Client
/-!
# What a client program asks for

Each method makes one request, and one for the text of an error where it fails. What the
requests so far have, and keep with each request that is allowed, they have in every run.
-/

namespace FreedosMicroPython.Ssh.Client

open FreedosMicroPython.Lib.Action FreedosMicroPython.OsPath
open FreedosMicroPython.Ssh.Channel FreedosMicroPython.Ssh.Objects

variable {V α β : Type} {peer : Peer} {gap : Nat → UInt8} {P P₀ : List Request → Prop}
  {F : V → Prop}

/-- The requests so far and the variables are as they should be. -/
structure Asks (P : List Request → Prop) (F : V → Prop) (w : World V) : Prop where
  requests : P w.requests
  vars : F w.vars

def Allowed (P : List Request → Prop) (r : Request) : Prop := ∀ rs, P rs → P (rs ++ [r])

theorem Asks.ask {w : World V} (hw : Asks P F w) {r : Request} (hr : Allowed P r) :
    Asks P F (w.asked r) :=
  ⟨hr _ hw.requests, hw.vars⟩

theorem keeps_ask {r : Request} (hr : Allowed P r) : Keeps (Asks P F) (ask peer r) :=
  fun _ hw => hw.ask hr

theorem keeps_checked {r : Request} (hr : Allowed P r) : Keeps (Asks P F) (checked peer r) := by
  refine (keeps_ask hr).bind fun a => ?_
  split
  · exact keeps_raise _
  · exact keeps_pure a

theorem keeps_write (s : Str) : Keeps (Asks P F) (write s) :=
  keeps_modify fun _ hw => ⟨hw.requests, hw.vars⟩

theorem keeps_writeErr (s : Str) : Keeps (Asks P F) (writeErr s) :=
  keeps_modify fun _ hw => ⟨hw.requests, hw.vars⟩

theorem keeps_onOSError {body : Prog V α} {handler : Str → Prog V α}
    (hbody : Keeps (Asks P F) body) (hhandler : ∀ text, Keeps (Asks P F) (handler text)) :
    Keeps (Asks P F) (onOSError body handler) := by
  refine hbody.except fun e h he => ?_
  cases e with
  | osError text =>
      cases he
      exact hhandler text
  | _ => cases he

/-- What a method does, with the value it returns and the requests behind it. -/
theorem method_asks {isOpen : State → Bool} {r : Request} {G : β → List Request → Prop}
    {m : Answer → World V → Outcome α × World V} {v : Answer → α → β}
    (hstay : ∀ rs, P₀ rs → P rs) (hr : ∀ rs, P₀ rs → P (rs ++ [r]))
    (herror : Allowed P .lastError) (hvars : ∀ a w, (m a w).2.vars = w.vars)
    (hrequests : ∀ a w, (m a w).2.requests = w.requests)
    (hgood : ∀ rs w x, (m (peer (rs ++ [r])) w).1 = .returned x →
      G (v (peer (rs ++ [r])) x) (rs ++ [r])) :
    Triple (Asks P₀ F) (method peer isOpen r m v)
      (fun e w => Asks P F w ∧ ∀ y, e = .value y → G y w.requests) := by
  have hplain : ∀ w : World V, Asks P₀ F w →
      Asks P F (m (peer (w.requests ++ [r])) (w.asked r)).2 := by
    intro w hw
    exact ⟨(hrequests _ (w.asked r)).symm ▸ hr _ hw.requests,
      (hvars _ (w.asked r)).symm ▸ hw.vars⟩
  apply triple_method
  · exact fun w hw => ⟨⟨hstay _ hw.requests, hw.vars⟩, nofun⟩
  · exact fun w hw => ⟨hplain w hw, nofun⟩
  · intro w x hw hx
    refine ⟨hplain w hw, fun y hy => ?_⟩
    cases hy
    rw [hrequests]
    exact hgood w.requests _ x hx
  · exact fun w hw _ => ⟨⟨hplain w hw, nofun⟩, fun text => ⟨(hplain w hw).ask herror, nofun⟩⟩

theorem keeps_method {isOpen : State → Bool} {r : Request}
    {m : Answer → World V → Outcome α × World V} {v : Answer → α → β}
    (hr : Allowed P r) (herror : Allowed P .lastError) (hvars : ∀ a w, (m a w).2.vars = w.vars)
    (hrequests : ∀ a w, (m a w).2.requests = w.requests) :
    Keeps (Asks P F) (method peer isOpen r m v) := by
  exact (method_asks (G := fun _ _ => True) (fun _ h => h) hr herror hvars hrequests
    fun _ _ _ _ => trivial).post fun _ _ h => h.1

theorem keeps_close {isOpen : State → Bool} {r : Request} {close : State → State}
    (hr : Allowed P r) (herror : Allowed P .lastError) :
    Keeps (Asks P F) (do
      if ← reads fun w => isOpen w.ssh then
        method peer isOpen r (fun _ => onSsh fun s => (.returned (), close s)) fun _ _ => ()
      else pure ()) := by
  refine (keeps_reads _).bind fun opened => ?_
  split
  · exact keeps_method hr herror (fun _ _ => rfl) fun _ _ => rfl
  · exact keeps_pure ()

theorem keeps_session (hr : Allowed P .handshake) (herror : Allowed P .lastError) :
    Keeps (Asks P F) (session peer) := by
  refine (keeps_ask hr).bind fun a => ?_
  split
  · exact fun _ hw => hw.ask herror
  · exact keeps_modify fun _ hw => ⟨hw.requests, hw.vars⟩

theorem keeps_connect (host : Str) (port : Int) (user password : Str)
    (hhost : Allowed P (.getaddrinfo host port)) (hconnect : Allowed P .connect)
    (hhandshake : Allowed P .handshake) (hauth : Allowed P (.userauth user password))
    (herror : Allowed P .lastError) :
    Keeps (Asks P F) (connect peer host port user password) := by
  unfold connect
  split
  · refine (keeps_checked hhost).bind fun _ => (keeps_checked hconnect).bind fun _ => ?_
    refine (keeps_session hhandshake herror).bind fun _ => ?_
    exact keeps_method hauth herror (fun _ _ => rfl) fun _ _ => rfl
  · exact keeps_raise _

end FreedosMicroPython.Ssh.Client
