import Mathlib.Data.List.Basic
import Mathlib.Tactic.Common
/-!
# Percent-encoding

`port/urllib_parse_uc386dos.c`: `quote_inner`, which encodes a byte string with a
set of safe bytes, and `do_unquote`, which decodes one. A `str` is its bytes. What
a builder of bytes is turned into a `str` with, `mp_obj_new_str_from_vstr`,
raises `UnicodeError` on bytes that the check of the interpreter refuses; that
check is the parameter `utf8Check`.
-/

namespace FreedosMicroPython.Urllib.Quote

/-- What the functions of the module raise. -/
inductive Raised where
  | typeError
  | valueError (message : String)
  | unicodeError
  deriving DecidableEq, Repr

/-- A Python object, as far as its type matters here. -/
inductive Obj where
  /-- A `str` or `bytes`. -/
  | str (data : List UInt8)
  /-- Any other object with the buffer protocol, and its `str()`. -/
  | buffer (data text : List UInt8)
  /-- An object without it, and its `str()`. -/
  | other (text : List UInt8)
  deriving DecidableEq, Repr

def mpGetBufferRaise : Obj → Except Raised (List UInt8)
  | .str data => .ok data
  | .buffer data _ => .ok data
  | .other _ => .error .typeError

variable (utf8Check : List UInt8 → Bool)

def mpObjNewStrFromVstr (vstr : List UInt8) : Except Raised (List UInt8) :=
  if utf8Check vstr then .ok vstr else .error .unicodeError

def mpObjNewStr (data : List UInt8) : Except Raised (List UInt8) :=
  if utf8Check data then .ok data else .error .unicodeError

/-- What this module relies on: an ASCII byte stands for itself in UTF-8 and
separates what is around it. -/
structure Utf8Law : Prop where
  nil : utf8Check [] = true
  ascii : ∀ a c b, c < 0x80 → utf8Check (a ++ c :: b) = (utf8Check a && utf8Check b)

variable {utf8Check} in
/-- A text that stops before an ASCII byte can be checked apart from the rest. -/
theorem Utf8Law.append (h : Utf8Law utf8Check) (a : List UInt8) {b : List UInt8}
    (hb : ∀ c ∈ b.head?, c < 0x80) : utf8Check (a ++ b) = (utf8Check a && utf8Check b) := by
  cases b with
  | nil => simp [h.nil]
  | cons c b =>
      have hcut := h.ascii [] c b (hb c rfl)
      rw [List.nil_append, h.nil, Bool.true_and] at hcut
      rw [h.ascii a c b (hb c rfl), hcut]

variable {utf8Check} in
theorem Utf8Law.of_ascii (h : Utf8Law utf8Check) {bs : List UInt8} (hbs : ∀ b ∈ bs, b < 0x80) :
    utf8Check bs = true := by
  induction bs with
  | nil => exact h.nil
  | cons b bs ih =>
      have hsplit := h.ascii [] b bs (hbs b (by simp))
      rw [List.nil_append] at hsplit
      rw [hsplit, h.nil, ih fun x hx => hbs x (by simp [hx])]
      rfl

def asciiOnly (bs : List UInt8) : Bool := bs.all (· < 0x80)

theorem asciiOnly_law : Utf8Law asciiOnly where
  nil := rfl
  ascii a c b hc := by simp [asciiOnly, hc]

/-! ## Encoding -/

def isUnreserved (c : Nat) : Bool :=
  ('A'.toNat ≤ c && c ≤ 'Z'.toNat) || ('a'.toNat ≤ c && c ≤ 'z'.toNat) ||
    ('0'.toNat ≤ c && c ≤ '9'.toNat) ||
    c = '-'.toNat || c = '_'.toNat || c = '.'.toNat || c = '~'.toNat

/-- `hex_value`; `none` is -1. -/
def hexValue (c : Nat) : Option Nat :=
  if '0'.toNat ≤ c ∧ c ≤ '9'.toNat then some (c - '0'.toNat)
  else if 'A'.toNat ≤ c ∧ c ≤ 'F'.toNat then some (c - 'A'.toNat + 10)
  else if 'a'.toNat ≤ c ∧ c ≤ 'f'.toNat then some (c - 'a'.toNat + 10)
  else none

def hex (n : Nat) : UInt8 :=
  if n < 10 then UInt8.ofNat ('0'.toNat + n) else UInt8.ofNat ('A'.toNat + n - 10)

def pct (byte : Nat) : List UInt8 :=
  ['%'.toUInt8, hex ((byte >>> 4) &&& 0x0F), hex (byte &&& 0x0F)]

def safeBytes : Option Obj → List UInt8
  | some (.str data) => data
  | _ => []

/-- A byte that is copied as it is. -/
def passthrough (safe : List UInt8) (plus : Bool) (c : UInt8) : Bool :=
  let defaultSafeSlash := !plus && safe.length = 0
  isUnreserved c.toNat || (defaultSafeSlash && c = '/'.toUInt8) || safe.any (c = ·)

def quoteByte (safe : List UInt8) (plus : Bool) (c : UInt8) : List UInt8 :=
  if plus && c = ' '.toUInt8 then ['+'.toUInt8]
  else if passthrough safe plus c then [c]
  else pct c.toNat

def quoteBytes (safe : List UInt8) (plus : Bool) (src : List UInt8) : List UInt8 :=
  src.flatMap (quoteByte safe plus)

/-- `quote_inner`; `safe_in` is `none` for `mp_const_none`. -/
def quoteInner (string : Obj) (safe : Option Obj) (plus : Bool) : Except Raised (List UInt8) := do
  let src ← mpGetBufferRaise string
  mpObjNewStrFromVstr utf8Check (quoteBytes (safeBytes safe) plus src)

/-! ## Decoding -/

/-- The loop of `do_unquote`; `%` starts an escape only where two more bytes follow. -/
def unquoteBytes (plus : Bool) : List UInt8 → List UInt8
  | c :: h :: l :: rest =>
      if plus && c = '+'.toUInt8 then ' '.toUInt8 :: unquoteBytes plus (h :: l :: rest)
      else if c = '%'.toUInt8 then
        match hexValue h.toNat, hexValue l.toNat with
        | some hi, some lo => UInt8.ofNat (hi <<< 4 ||| lo) :: unquoteBytes plus rest
        -- a malformed escape is passed through
        | _, _ => c :: unquoteBytes plus (h :: l :: rest)
      else c :: unquoteBytes plus (h :: l :: rest)
  | c :: rest =>
      (if plus && c = '+'.toUInt8 then ' '.toUInt8 else c) :: unquoteBytes plus rest
  | [] => []

def doUnquote (s : Obj) (plus : Bool) : Except Raised (List UInt8) := do
  let src ← mpGetBufferRaise s
  mpObjNewStrFromVstr utf8Check (unquoteBytes plus src)

/-! ## One byte there and back -/

theorem hexValue_hex : ∀ n < 16, hexValue (hex n).toNat = some n := by decide

theorem isUnreserved_hex : ∀ n < 16, isUnreserved (hex n).toNat = true := by decide

theorem high_nibble (b : Nat) (h : b < 256) : (b >>> 4) &&& 0x0F = b / 16 := by
  rw [Nat.shiftRight_eq_div_pow, Nat.and_two_pow_sub_one_eq_mod _ 4]
  omega

theorem low_nibble (b : Nat) : b &&& 0x0F = b % 16 :=
  Nat.and_two_pow_sub_one_eq_mod b 4

theorem nibbles_or (b : Nat) : (b / 16) <<< 4 ||| b % 16 = b := by
  have hlow : b % 16 < 2 ^ 4 := Nat.mod_lt b (by decide)
  rw [Nat.shiftLeft_eq, Nat.mul_comm, ← Nat.two_pow_add_eq_or_of_lt hlow]
  exact Nat.div_add_mod b 16

theorem unquoteBytes_cons {plus : Bool} {c : UInt8} (hpct : c ≠ '%'.toUInt8)
    (hplus : plus = true → c ≠ '+'.toUInt8) (rest : List UInt8) :
    unquoteBytes plus (c :: rest) = c :: unquoteBytes plus rest := by
  have hc : (plus && decide (c = '+'.toUInt8)) = false := by
    cases plus with
    | false => rfl
    | true => simpa using hplus rfl
  match rest with
  | [] => simp [unquoteBytes, hc]
  | [a] => simp [unquoteBytes, hc]
  | h :: l :: tail => simp [unquoteBytes, hc, hpct]

theorem unquoteBytes_plus (rest : List UInt8) :
    unquoteBytes true ('+'.toUInt8 :: rest) = ' '.toUInt8 :: unquoteBytes true rest := by
  match rest with
  | [] => rfl
  | [a] => rfl
  | h :: l :: tail => simp [unquoteBytes]

theorem unquoteBytes_pct (plus : Bool) (c : UInt8) (rest : List UInt8) :
    unquoteBytes plus (pct c.toNat ++ rest) = c :: unquoteBytes plus rest := by
  have hlt : c.toNat < 256 := c.toNat_lt
  have hhi := hexValue_hex (c.toNat / 16) (by omega)
  have hlo := hexValue_hex (c.toNat % 16) (by omega)
  have hplus : ¬ '%'.toUInt8 = '+'.toUInt8 := by decide
  simp only [pct, high_nibble _ hlt, low_nibble, List.cons_append, List.nil_append, unquoteBytes,
    hhi, hlo, hplus, nibbles_or, decide_false, Bool.and_false, Bool.false_eq_true, if_false,
    if_true, UInt8.ofNat_toNat]

/-- The bytes that encoding with this safe set and mode can be undone for. -/
structure Reversible (safe : List UInt8) (plus : Bool) : Prop where
  pct : '%'.toUInt8 ∉ safe
  plus : plus = true → '+'.toUInt8 ∉ safe

theorem not_passthrough {safe : List UInt8} {plus : Bool} {c : UInt8}
    (hreserved : isUnreserved c.toNat = false) (hslash : c ≠ '/'.toUInt8) (hsafe : c ∉ safe) :
    passthrough safe plus c = false := by
  simp only [passthrough, hreserved, hslash, decide_false, Bool.and_false, Bool.or_self,
    Bool.false_or, List.any_eq_false, decide_eq_true_eq]
  rintro x hx rfl
  exact hsafe hx

theorem unquoteBytes_quoteByte {safe : List UInt8} {plus : Bool} (hrev : Reversible safe plus)
    (c : UInt8) (rest : List UInt8) :
    unquoteBytes plus (quoteByte safe plus c ++ rest) = c :: unquoteBytes plus rest := by
  unfold quoteByte
  split
  · rename_i hspace
    simp only [Bool.and_eq_true, decide_eq_true_eq] at hspace
    obtain ⟨rfl, rfl⟩ := hspace
    exact unquoteBytes_plus rest
  · split
    · rename_i hpass
      apply unquoteBytes_cons
      · rintro rfl
        rw [not_passthrough (by decide) (by decide) hrev.pct] at hpass
        cases hpass
      · rintro hmode rfl
        rw [not_passthrough (by decide) (by decide) (hrev.plus hmode)] at hpass
        cases hpass
    · exact unquoteBytes_pct plus c rest

theorem unquoteBytes_quoteBytes_append {safe : List UInt8} {plus : Bool}
    (hrev : Reversible safe plus) (s rest : List UInt8) :
    unquoteBytes plus (quoteBytes safe plus s ++ rest) = s ++ unquoteBytes plus rest := by
  induction s with
  | nil => rfl
  | cons c s ih =>
      rw [quoteBytes, List.flatMap_cons, List.append_assoc, unquoteBytes_quoteByte hrev]
      exact congrArg (c :: ·) ih

theorem unquoteBytes_quoteBytes {safe : List UInt8} {plus : Bool} (hrev : Reversible safe plus)
    (s : List UInt8) : unquoteBytes plus (quoteBytes safe plus s) = s := by
  have h := unquoteBytes_quoteBytes_append hrev s []
  rwa [List.append_nil, unquoteBytes, List.append_nil] at h

/-! ## Round trips -/

/-- The check of the interpreter set aside. -/
def unchecked : List UInt8 → Bool := fun _ => true

theorem quoteInner_str (s : List UInt8) (safe : Option Obj) (plus : Bool) :
    quoteInner utf8Check (.str s) safe plus =
      mpObjNewStrFromVstr utf8Check (quoteBytes (safeBytes safe) plus s) := rfl

theorem doUnquote_str (s : List UInt8) (plus : Bool) :
    doUnquote utf8Check (.str s) plus = mpObjNewStrFromVstr utf8Check (unquoteBytes plus s) := rfl

/-- Quoting and unquoting in one mode gives the string back. -/
theorem unquote_of_reversible (s : List UInt8) {safe : Option Obj} {plus : Bool}
    (hrev : Reversible (safeBytes safe) plus) :
    (quoteInner unchecked (.str s) safe plus >>= fun q => doUnquote unchecked (.str q) plus) =
      .ok s := by
  have hback := unquoteBytes_quoteBytes hrev s
  simp only [quoteInner_str, doUnquote_str, mpObjNewStrFromVstr, unchecked, if_true]
  exact congrArg Except.ok hback

theorem doUnquote_quoteInner (s : List UInt8) (safe : Option Obj)
    (hpct : '%'.toUInt8 ∉ safeBytes safe) :
    (quoteInner unchecked (.str s) safe false >>= fun q => doUnquote unchecked (.str q) false) =
        .ok s ∧
      ('+'.toUInt8 ∉ safeBytes safe →
        (quoteInner unchecked (.str s) safe true >>= fun q => doUnquote unchecked (.str q) true) =
          .ok s) := by
  constructor
  · apply unquote_of_reversible
    exact ⟨hpct, by simp⟩
  · intro hplus
    apply unquote_of_reversible
    exact ⟨hpct, fun _ => hplus⟩

/-- A percent sign, a space and a slash, with the slash safe. -/
theorem doUnquote_quoteInner_slash :
    (quoteInner unchecked (.str [0x25, 0x20, 0x2F]) (some (.str [0x2F])) false >>= fun q =>
        doUnquote unchecked (.str q) false) = .ok [0x25, 0x20, 0x2F] ∧
      (quoteInner unchecked (.str [0x25, 0x20, 0x2F]) (some (.str [0x2F])) true >>= fun q =>
        doUnquote unchecked (.str q) true) = .ok [0x25, 0x20, 0x2F] :=
  ⟨(doUnquote_quoteInner [0x25, 0x20, 0x2F] (some (.str [0x2F])) (by decide)).1,
    (doUnquote_quoteInner [0x25, 0x20, 0x2F] (some (.str [0x2F])) (by decide)).2 (by decide)⟩

/-! ## The functions of the module -/

def urllibQuote (string : Obj) (safe : Option Obj) : Except Raised (List UInt8) :=
  quoteInner utf8Check string safe false

def urllibQuotePlus (string : Obj) (safe : Option Obj) : Except Raised (List UInt8) :=
  quoteInner utf8Check string safe true

def urllibUnquote (s : Obj) : Except Raised (List UInt8) := doUnquote utf8Check s false

def urllibUnquotePlus (s : Obj) : Except Raised (List UInt8) := doUnquote utf8Check s true

/-! ## The safe set -/

def upperHex (n : Nat) : UInt8 := n.digitChar.toUpper.toUInt8

def quotedByte (safe : List UInt8) (c : UInt8) : List UInt8 :=
  if isUnreserved c.toNat ∨ c ∈ safe then [c]
  else ['%'.toUInt8, upperHex (c.toNat / 16), upperHex (c.toNat % 16)]

def quoted (safe s : List UInt8) : List UInt8 := s.flatMap (quotedByte safe)

theorem hex_eq_upperHex : ∀ n < 16, hex n = upperHex n := by decide

theorem pct_eq (c : UInt8) :
    pct c.toNat = ['%'.toUInt8, upperHex (c.toNat / 16), upperHex (c.toNat % 16)] := by
  have hlt : c.toNat < 256 := c.toNat_lt
  rw [pct, high_nibble _ hlt, low_nibble, hex_eq_upperHex _ (by omega),
    hex_eq_upperHex _ (by omega)]

/-- The default does no harm next to a set that is not empty, or to another byte. -/
theorem quoteByte_explicit {safe : List UInt8} {c : UInt8} (h : safe ≠ [] ∨ c ≠ '/'.toUInt8) :
    quoteByte safe false c = quotedByte safe c := by
  have hdefault : ¬(safe = [] ∧ c = '/'.toUInt8) := fun ⟨hnil, hc⟩ =>
    h.elim (fun hne => hne hnil) (fun hne => hne hc)
  have hpass : passthrough safe false c = true ↔ isUnreserved c.toNat ∨ c ∈ safe := by
    simp [passthrough, hdefault]
  by_cases hc : isUnreserved c.toNat ∨ c ∈ safe
  · rw [quoteByte, if_neg (by simp), if_pos (hpass.mpr hc), quotedByte, if_pos hc]
  · rw [quoteByte, if_neg (by simp), if_neg (mt hpass.mp hc), quotedByte, if_neg hc, pct_eq]

theorem quoteByte_default (c : UInt8) : quoteByte [] false c = quotedByte ['/'.toUInt8] c := by
  have hpass : passthrough [] false c = passthrough ['/'.toUInt8] false c := by
    simp [passthrough]
  rw [← quoteByte_explicit (.inl (List.cons_ne_nil _ _)), quoteByte, quoteByte, hpass]

theorem quoteBytes_explicit {safe s : List UInt8} (h : safe ≠ [] ∨ '/'.toUInt8 ∉ s) :
    quoteBytes safe false s = quoted safe s := by
  apply List.flatMap_congr
  intro c hc
  apply quoteByte_explicit
  exact h.imp_right fun hslash heq => hslash (heq ▸ hc)

theorem quoteBytes_default (s : List UInt8) : quoteBytes [] false s = quoted ['/'.toUInt8] s :=
  List.flatMap_congr fun c _ => quoteByte_default c

theorem not_mem_of_quoteBytes {s : List UInt8} (h : quoteBytes [] false s = quoted [] s) :
    '/'.toUInt8 ∉ s := by
  induction s with
  | nil => exact List.not_mem_nil
  | cons c s ih =>
      rw [quoteBytes, quoted, List.flatMap_cons, List.flatMap_cons] at h
      by_cases hc : c = '/'.toUInt8
      · rw [hc] at h
        exact absurd (List.cons.inj h).1 (by decide)
      · rw [quoteByte_explicit (.inr hc)] at h
        have hrest := ih (List.append_cancel_left h)
        simp only [List.mem_cons, not_or]
        exact ⟨Ne.symm hc, hrest⟩

theorem isUnreserved_ascii {c : UInt8} (h : isUnreserved c.toNat = true) : c < 0x80 := by
  simp only [isUnreserved, Bool.or_eq_true, Bool.and_eq_true, decide_eq_true_eq] at h
  rw [UInt8.lt_iff_toNat_lt]
  simp only [Char.reduceToNat, UInt8.reduceToNat] at h ⊢
  omega

theorem upperHex_ascii : ∀ n < 16, upperHex n < 0x80 := by decide

theorem quoted_ascii {safe : List UInt8} (hsafe : ∀ c ∈ safe, c < 0x80) (s : List UInt8) :
    ∀ b ∈ quoted safe s, b < 0x80 := by
  intro b hb
  obtain ⟨c, -, hb⟩ := List.mem_flatMap.mp hb
  have hlt : c.toNat < 256 := c.toNat_lt
  rw [quotedByte] at hb
  split at hb
  · rename_i hc
    rw [List.mem_singleton.mp hb]
    exact hc.elim isUnreserved_ascii (hsafe c)
  · simp only [List.mem_cons, List.not_mem_nil, or_false] at hb
    rcases hb with rfl | rfl | rfl
    · decide
    · exact upperHex_ascii _ (by omega)
    · exact upperHex_ascii _ (by omega)

variable {utf8Check} in
/-- A safe set that is passed is honoured unless it is empty and the string has a slash.
Where none is passed, the slash is safe. -/
theorem urllibQuote_safe_iff (hutf8 : Utf8Law utf8Check) (s : List UInt8) :
    (∀ safe, urllibQuote utf8Check (.str s) (some (.str safe)) =
        mpObjNewStrFromVstr utf8Check (quoted safe s) ↔ safe ≠ [] ∨ '/'.toUInt8 ∉ s) ∧
      urllibQuote utf8Check (.str s) none =
        mpObjNewStrFromVstr utf8Check (quoted ['/'.toUInt8] s) := by
  constructor
  · intro safe
    rw [urllibQuote, quoteInner_str]
    constructor
    · intro h
      by_cases hsafe : safe = []
      · subst hsafe
        have hslash : ∀ c ∈ ['/'.toUInt8], c < 0x80 := by
          intro c hc
          rw [List.mem_singleton.mp hc]
          decide
        have hcode : utf8Check (quoteBytes [] false s) = true := by
          rw [quoteBytes_default]
          exact hutf8.of_ascii (quoted_ascii hslash s)
        have hclaim : utf8Check (quoted [] s) = true := hutf8.of_ascii (quoted_ascii (by simp) s)
        rw [safeBytes, mpObjNewStrFromVstr, mpObjNewStrFromVstr, if_pos hcode, if_pos hclaim] at h
        exact .inr (not_mem_of_quoteBytes (Except.ok.inj h))
      · exact .inl hsafe
    · intro h
      rw [safeBytes, quoteBytes_explicit h]
  · have hnone : safeBytes none = [] := rfl
    rw [urllibQuote, quoteInner_str, hnone, quoteBytes_default]

theorem urllibQuote_safe_iff_ascii :
    (∀ safe, urllibQuote asciiOnly (.str [0x2F]) (some (.str safe)) =
        mpObjNewStrFromVstr asciiOnly (quoted safe [0x2F]) ↔ safe ≠ [] ∨ '/'.toUInt8 ∉ [0x2F]) ∧
      urllibQuote asciiOnly (.str [0x2F]) none =
        mpObjNewStrFromVstr asciiOnly (quoted ['/'.toUInt8] [0x2F]) :=
  urllibQuote_safe_iff asciiOnly_law [0x2F]

/-- With no safe byte at all, a slash stays one. -/
theorem urllibQuote_ignores_empty :
    ¬∀ safe, urllibQuote asciiOnly (.str [0x2F]) (some (.str safe)) =
      mpObjNewStrFromVstr asciiOnly (quoted safe [0x2F]) := by
  intro h
  exact absurd (h []) (by decide)

end FreedosMicroPython.Urllib.Quote
