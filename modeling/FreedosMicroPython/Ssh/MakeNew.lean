import FreedosMicroPython.Lib.Runs
import Mathlib.Data.List.Nodup
import Mathlib.Data.List.ReduceOption
/-!
# Opening SSH sessions

`ssh_session_make_new` of `port/modssh_uc386dos.c`, with the sessions that libssh2 has
allocated and the pointers to them in the Session objects. Every way out that fails behind
`libssh2_session_init` clears the pointer first.
-/

namespace FreedosMicroPython.Ssh.MakeNew

open FreedosMicroPython.Lib.Runs

/-! ## The constructor -/

/-- What libssh2 answers during one call: whether there is a stream to talk through, whether
`libssh2_session_init` returned a session, and the results of the calls that follow. -/
structure Answers where
  stream : Bool
  init : Bool
  hostkey : Int
  kex : Int
  cryptCs : Int
  cryptSc : Int
  macCs : Int
  macSc : Int
  handshake : Int
  deriving DecidableEq, Repr

/-- The sessions that are allocated, and `self->session` of each object created so far. -/
structure World where
  live : List Nat
  next : Nat
  objects : List (Option Nat)
  deriving DecidableEq, Repr

inductive Result where
  | object (self : Nat)
  | notStream
  | enomem
  | raised (err : Int) (fallback : String)
  deriving DecidableEq, Repr

namespace World

variable (w : World)

def sessionInit : World := { w with live := w.next :: w.live, next := w.next + 1 }

def newObject (session : Option Nat) : World := { w with objects := w.objects ++ [session] }

/-- The sessions that an object still points to. -/
def held : List Nat := w.objects.reduceOption

end World

/-- `self->session = NULL`, and `_ssh_raise_session_error` with the pointer it had. -/
def detachAndRaise (w : World) (r : Int) (fallback : String) : Result × World :=
  (.raised r fallback, w.newObject none)

/-- Two preferences; the second is only asked for when the first was accepted. -/
def bothPrefs (r r' : Int) : Int := if r = 0 then r' else r

def sshSessionMakeNew (w : World) (a : Answers) : Result × World :=
  if ¬ a.stream then (.notStream, w)
  else if ¬ a.init then (.enomem, w.newObject none)
  else
    let session := w.next
    let w := w.sessionInit
    if a.hostkey ≠ 0 then detachAndRaise w a.hostkey "session_method_pref hostkey"
    else if a.kex ≠ 0 then detachAndRaise w a.kex "session_method_pref kex"
    else
      let r := bothPrefs a.cryptCs a.cryptSc
      if r ≠ 0 then detachAndRaise w r "session_method_pref crypt"
      else
        let r := bothPrefs a.macCs a.macSc
        if r ≠ 0 then detachAndRaise w r "session_method_pref mac"
        else if a.handshake ≠ 0 then detachAndRaise w a.handshake "session_handshake"
        else (.object w.objects.length, w.newObject (some session))

def sshSessionClose (w : World) (self : Nat) : World :=
  match w.objects[self]?.join with
  | none => w
  | some session =>
      { w with live := w.live.erase session, objects := w.objects.set self none }

/-! ## Runs -/

inductive Event where
  | makeNew (a : Answers)
  | close (self : Nat)

def step (w : World) : Event → World
  | .makeNew a => (sshSessionMakeNew w a).2
  | .close self => sshSessionClose w self

def imported : World := ⟨[], 0, []⟩

/-- Each method preference and the handshake succeed, if there is a session for them. -/
def Accepted (a : Answers) : Prop :=
  a.stream = true → a.init = true →
    a.hostkey = 0 ∧ a.kex = 0 ∧ a.cryptCs = 0 ∧ a.cryptSc = 0 ∧ a.macCs = 0 ∧ a.macSc = 0 ∧
      a.handshake = 0

instance decidableAccepted (a : Answers) : Decidable (Accepted a) :=
  inferInstanceAs (Decidable (_ → _ → _))

/-- The session of this call is not lost when it raises: it was freed, or an object points to
it. -/
def Kept (w : World) (a : Answers) : Prop :=
  ∀ err fallback, (sshSessionMakeNew w a).1 = .raised err fallback →
    w.next ∉ (sshSessionMakeNew w a).2.live ∨ w.next ∈ (sshSessionMakeNew w a).2.held

def Fails (a : Answers) : Prop := ∀ w self, (sshSessionMakeNew w a).1 ≠ .object self

/-- The calls of the constructor in a run that were not accepted. -/
def refusals (es : List Event) : Nat :=
  es.countP fun e => match e with
    | .makeNew a => !decide (Accepted a)
    | .close _ => false

/-! ## What a call does -/

theorem bothPrefs_eq_zero {r r' : Int} : bothPrefs r r' = 0 ↔ r = 0 ∧ r' = 0 := by
  by_cases hr : r = 0
  · rw [bothPrefs, if_pos hr, and_iff_right hr]
  · rw [bothPrefs, if_neg hr]
    exact ⟨fun h => absurd h hr, fun h => absurd h.1 hr⟩

theorem sshSessionMakeNew_cases (w : World) (a : Answers) :
    (Accepted a ∧ sshSessionMakeNew w a = (.notStream, w)) ∨
    (Accepted a ∧ sshSessionMakeNew w a = (.enomem, w.newObject none)) ∨
    (Accepted a ∧ sshSessionMakeNew w a =
      (.object w.objects.length, w.sessionInit.newObject (some w.next))) ∨
    (¬ Accepted a ∧ ∃ r fallback,
      sshSessionMakeNew w a = (.raised r fallback, w.sessionInit.newObject none)) := by
  by_cases hstream : a.stream = true
  · by_cases hinit : a.init = true
    · right; right
      rw [sshSessionMakeNew, if_neg (not_not.mpr hstream), if_neg (not_not.mpr hinit)]
      dsimp only
      split
      · next h => exact .inr ⟨fun ok => h (ok hstream hinit).1, _, _, rfl⟩
      · next hhostkey =>
        split
        · next h => exact .inr ⟨fun ok => h (ok hstream hinit).2.1, _, _, rfl⟩
        · next hkex =>
          split
          · next h =>
            refine .inr ⟨fun ok => h ?_, _, _, rfl⟩
            obtain ⟨-, -, hcs, hsc, -⟩ := ok hstream hinit
            exact bothPrefs_eq_zero.mpr ⟨hcs, hsc⟩
          · next hcrypt =>
            split
            · next h =>
              refine .inr ⟨fun ok => h ?_, _, _, rfl⟩
              obtain ⟨-, -, -, -, hcs, hsc, -⟩ := ok hstream hinit
              exact bothPrefs_eq_zero.mpr ⟨hcs, hsc⟩
            · next hmac =>
              split
              · next h =>
                exact .inr ⟨fun ok => h (ok hstream hinit).2.2.2.2.2.2, _, _, rfl⟩
              · next hhandshake =>
                obtain ⟨hcryptCs, hcryptSc⟩ := bothPrefs_eq_zero.mp (not_not.mp hcrypt)
                obtain ⟨hmacCs, hmacSc⟩ := bothPrefs_eq_zero.mp (not_not.mp hmac)
                exact .inl ⟨fun _ _ => ⟨not_not.mp hhostkey, not_not.mp hkex, hcryptCs,
                  hcryptSc, hmacCs, hmacSc, not_not.mp hhandshake⟩, rfl⟩
    · refine .inr (.inl ⟨fun _ h => absurd h hinit, ?_⟩)
      rw [sshSessionMakeNew, if_neg (not_not.mpr hstream), if_pos hinit]
  · refine .inl ⟨fun h => absurd h hstream, ?_⟩
    rw [sshSessionMakeNew, if_pos hstream]

/-! ## What a run keeps -/

@[simp] theorem held_newObject_none (w : World) : (w.newObject none).held = w.held := by
  rw [World.held, World.newObject, List.reduceOption_append]
  exact List.append_nil _

@[simp] theorem held_newObject_some (w : World) (session : Nat) :
    (w.newObject (some session)).held = w.held ++ [session] := by
  rw [World.held, World.newObject, List.reduceOption_append]
  rfl

@[simp] theorem held_sessionInit (w : World) : w.sessionInit.held = w.held := rfl

/-- `lost` sessions are allocated that no object points to, and those that one does point to
are allocated. -/
structure Lost (lost : Nat) (w : World) : Prop where
  fresh : ∀ session ∈ w.live, session < w.next
  nodup : w.held.Nodup
  held_live : ∀ session ∈ w.held, session ∈ w.live
  length : w.live.length = w.held.length + lost

theorem Lost.newObject_none {lost : Nat} {w : World} (h : Lost lost w) :
    Lost lost (w.newObject none) where
  fresh := h.fresh
  nodup := by rw [held_newObject_none]; exact h.nodup
  held_live := by rw [held_newObject_none]; exact h.held_live
  length := by rw [held_newObject_none]; exact h.length

theorem Lost.next_not_held {lost : Nat} {w : World} (h : Lost lost w) : w.next ∉ w.held :=
  fun hheld => Nat.lt_irrefl _ (h.fresh _ (h.held_live _ hheld))

theorem Lost.sessionInit {lost : Nat} {w : World} (h : Lost lost w) :
    Lost (lost + 1) w.sessionInit where
  fresh session hsession := by
    rcases List.mem_cons.mp hsession with rfl | hold
    · exact Nat.lt_succ_self _
    · exact Nat.lt_succ_of_lt (h.fresh session hold)
  nodup := h.nodup
  held_live session hsession := List.mem_cons_of_mem _ (h.held_live session hsession)
  length := congrArg (· + 1) h.length

theorem Lost.newObject_some {lost : Nat} {w : World} (h : Lost lost w) :
    Lost lost (w.sessionInit.newObject (some w.next)) where
  fresh := h.sessionInit.fresh
  nodup := by
    rw [held_newObject_some, held_sessionInit]
    exact List.nodup_append.mpr ⟨h.nodup, List.nodup_singleton _, fun x hx y hy heq =>
      h.next_not_held (List.mem_singleton.mp hy ▸ heq ▸ hx)⟩
  held_live session hsession := by
    rw [held_newObject_some, held_sessionInit] at hsession
    rcases List.mem_append.mp hsession with hold | hnew
    · exact List.mem_cons_of_mem _ (h.held_live session hold)
    · rw [List.mem_singleton.mp hnew]
      exact List.mem_cons_self
  length := by
    rw [held_newObject_some, held_sessionInit, List.length_append]
    have hlength := h.sessionInit.length
    rw [held_sessionInit] at hlength
    exact hlength.trans (by rw [List.length_singleton]; omega)

/-- What a pointer in the table is to the sessions that are held, and what they are without
it. -/
theorem held_eq_of_pointer {w : World} {self session : Nat}
    (h : w.objects[self]?.join = some session) :
    ∃ front back, w.held = front ++ session :: back ∧
      (w.objects.set self none).reduceOption = front ++ back := by
  obtain ⟨hself, hget⟩ := List.getElem?_eq_some_iff.mp (Option.join_eq_some_iff.mp h)
  have hsplit : w.objects = w.objects.take self ++ some session :: w.objects.drop (self + 1) := by
    rw [← hget, List.getElem_cons_drop, List.take_append_drop]
  refine ⟨(w.objects.take self).reduceOption, (w.objects.drop (self + 1)).reduceOption, ?_, ?_⟩
  · calc w.held
        = (w.objects.take self ++ some session :: w.objects.drop (self + 1)).reduceOption :=
          congrArg List.reduceOption hsplit
      _ = (w.objects.take self).reduceOption ++
            session :: (w.objects.drop (self + 1)).reduceOption := by
          rw [List.reduceOption_append, List.reduceOption_cons_of_some]
  · rw [List.set_eq_take_append_cons_drop, if_pos hself, List.reduceOption_append,
      List.reduceOption_cons_of_none]

theorem Lost.close {lost : Nat} {w : World} (h : Lost lost w) (self : Nat) :
    Lost lost (sshSessionClose w self) := by
  rw [sshSessionClose]
  split
  · exact h
  · next session hsession =>
    obtain ⟨front, back, hheld, hcleared⟩ := held_eq_of_pointer hsession
    have hnodup : (front ++ session :: back).Nodup := hheld ▸ h.nodup
    have hlive : session ∈ w.live :=
      h.held_live session (hheld ▸ List.mem_append_right front List.mem_cons_self)
    obtain ⟨hsession', hrest⟩ := List.nodup_cons.mp (List.nodup_middle.mp hnodup)
    have hclosed : World.held ⟨w.live.erase session, w.next, w.objects.set self none⟩ =
        front ++ back := hcleared
    refine ⟨fun s hs => h.fresh s (List.mem_of_mem_erase hs), ?_, fun s hs => ?_, ?_⟩
    · rw [hclosed]
      exact hrest
    · rw [hclosed] at hs
      have hne : s ≠ session := fun heq => hsession' (heq ▸ hs)
      refine (List.mem_erase_of_ne hne).mpr (h.held_live s ?_)
      rw [hheld]
      exact List.perm_middle.mem_iff.mpr (List.mem_cons_of_mem session hs)
    · have hlength := h.length
      rw [hheld] at hlength
      rw [hclosed, List.length_erase_of_mem hlive, hlength]
      simp only [List.length_append, List.length_cons]
      omega

theorem Lost.step {lost : Nat} {w : World} (h : Lost lost w) (e : Event) :
    Lost (lost + refusals [e]) (step w e) := by
  cases e with
  | close self => exact h.close self
  | makeNew a =>
      have hcount : refusals [.makeNew a] = if Accepted a then 0 else 1 := by
        by_cases ha : Accepted a <;> simp [refusals, ha]
      rw [hcount, MakeNew.step]
      rcases sshSessionMakeNew_cases w a with
        ⟨ha, hcall⟩ | ⟨ha, hcall⟩ | ⟨ha, hcall⟩ | ⟨ha, r, fallback, hcall⟩
      · rw [if_pos ha, hcall]; exact h
      · rw [if_pos ha, hcall]; exact h.newObject_none
      · rw [if_pos ha, hcall]; exact h.newObject_some
      · rw [if_neg ha, hcall]; exact h.sessionInit.newObject_none

theorem refusals_cons (e : Event) (es : List Event) :
    refusals (e :: es) = refusals [e] + refusals es := by
  rw [← List.singleton_append, refusals, List.countP_append]
  rfl

theorem lost_run {lost : Nat} {w : World} (h : Lost lost w) (es : List Event) :
    Lost (lost + refusals es) (run step w es) := by
  induction es generalizing lost w with
  | nil => exact h
  | cons e es ih =>
      rw [refusals_cons, ← Nat.add_assoc, run_cons]
      exact ih (h.step e)

theorem lost_imported : Lost 0 imported :=
  ⟨fun _ h => absurd h List.not_mem_nil, List.nodup_nil, fun _ h => h, rfl⟩

theorem kept_iff_accepted {lost : Nat} {w : World} (h : Lost lost w) (a : Answers) :
    Kept w a ↔ Accepted a := by
  have hnext := h.next_not_held
  rw [Kept]
  rcases sshSessionMakeNew_cases w a with
    ⟨ha, hcall⟩ | ⟨ha, hcall⟩ | ⟨ha, hcall⟩ | ⟨ha, r, fallback, hcall⟩
  · simp [hcall, ha]
  · simp [hcall, ha]
  · simp [hcall, ha]
  · refine iff_of_false (fun hkept => ?_) ha
    rw [hcall] at hkept
    rcases hkept r fallback rfl with hfreed | hheld
    · exact hfreed List.mem_cons_self
    · rw [held_newObject_none] at hheld
      exact hnext hheld

theorem held_run_failed (w : World) {attempts : List Answers} (hfails : ∀ a ∈ attempts, Fails a) :
    (run step w (attempts.map .makeNew)).held = w.held := by
  induction attempts generalizing w with
  | nil => rfl
  | cons a attempts ih =>
      obtain ⟨ha, hrest⟩ := List.forall_mem_cons.mp hfails
      rw [List.map_cons, run_cons, ih _ hrest, step]
      rcases sshSessionMakeNew_cases w a with
        ⟨-, hcall⟩ | ⟨-, hcall⟩ | ⟨-, hcall⟩ | ⟨-, r, fallback, hcall⟩
      · rw [hcall]
      · rw [hcall, held_newObject_none]
      · exact absurd (congrArg Prod.fst hcall) (ha w w.objects.length)
      · rw [hcall, held_newObject_none, held_sessionInit]

theorem refusals_eq_zero {attempts : List Answers} :
    refusals (attempts.map .makeNew) = 0 ↔ ∀ a ∈ attempts, Accepted a := by
  simp [refusals, List.countP_eq_zero]

/-- The constructor loses a session exactly when libssh2 gave it one and refused what came
after. Each such call leaves one session behind that no object points to, so failed attempts
add no session exactly when none of them is such a call. -/
theorem sshSessionMakeNew_keeps_iff (es : List Event) :
    (∀ a, Kept (run step imported es) a ↔ Accepted a) ∧
    (run step imported es).live.length =
      (run step imported es).held.length + refusals es ∧
    ∀ attempts : List Answers, (∀ a ∈ attempts, Fails a) →
      ((run step (run step imported es) (attempts.map .makeNew)).live.length =
          (run step imported es).live.length ↔
        ∀ a ∈ attempts, Accepted a) := by
  have hlost := lost_run lost_imported es
  rw [Nat.zero_add] at hlost
  refine ⟨kept_iff_accepted hlost, hlost.length, fun attempts hfails => ?_⟩
  have hafter := (lost_run hlost (attempts.map .makeNew)).length
  rw [held_run_failed _ hfails] at hafter
  rw [hafter, hlost.length, ← refusals_eq_zero]
  omega

def noSession : Answers := ⟨true, false, 0, 0, 0, 0, 0, 0, 0⟩

theorem sshSessionMakeNew_keeps_iff_noSession :
    (run step (run step imported [])
      ([noSession, noSession].map .makeNew)).live.length = (run step imported []).live.length := by
  have hfails : ∀ a ∈ [noSession, noSession], Fails a := by
    intro a ha w self h
    have heq : a = noSession := by simpa using ha
    rw [heq] at h
    cases h
  refine ((sshSessionMakeNew_keeps_iff []).2.2 _ hfails).mpr fun a ha => ?_
  have heq : a = noSession := by simpa using ha
  rw [heq]
  decide

/-- The peer closes the connection during the handshake. -/
def droppedHandshake : Answers := ⟨true, true, 0, 0, 0, 0, 0, 0, -43⟩

theorem sshSessionMakeNew_loses_session :
    (sshSessionMakeNew imported droppedHandshake).1 = .raised (-43) "session_handshake" ∧
    (sshSessionMakeNew imported droppedHandshake).2.live = [0] ∧
    (sshSessionMakeNew imported droppedHandshake).2.held = [] ∧
    ¬ ∀ es a, Kept (run step imported es) a := by
  refine ⟨rfl, rfl, rfl, fun hall => ?_⟩
  rcases hall [] droppedHandshake (-43) "session_handshake" rfl with hfreed | hheld
  · exact hfreed List.mem_cons_self
  · exact List.not_mem_nil hheld

end FreedosMicroPython.Ssh.MakeNew
