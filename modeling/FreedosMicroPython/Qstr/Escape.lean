import Mathlib.Tactic.Common
/-!
# Escaped qstr names

`unescape` of `gen_qstrdefs.py` against upstream's `qstr_escape`. A `str` is the
list of its characters. The table `codepoint2name` belongs to upstream and is a
parameter; `NamesLaw` is what the script's comments rely on it for.
-/

namespace FreedosMicroPython.Qstr.Escape

abbrev Str := List Char

def isIdent (c : Char) : Bool := c.isAlphanum || c = '_'

/-! ## The two directions -/

def fmt02x (n : Nat) : Str :=
  let digits := Nat.toDigits 16 n
  if digits.length < 2 then '0' :: digits else digits

/-- `"0x%02x" % n`. -/
def hex02 (n : Nat) : Str := '0' :: 'x' :: fmt02x n

def hexDigit (c : Char) : Option Nat :=
  if '0'.toNat ≤ c.toNat ∧ c.toNat ≤ '9'.toNat then some (c.toNat - '0'.toNat)
  else if 'a'.toNat ≤ c.toNat ∧ c.toNat ≤ 'f'.toNat then some (c.toNat - 'a'.toNat + 10)
  else none

def hexByte : Str → Option Char
  | ['0', 'x', a, b] =>
      match hexDigit a, hexDigit b with
      | some x, some y => some (Char.ofNat (16 * x + y))
      | _, _ => none
  | _ => none

/-- The characters that `name2char` has names for. -/
def escapable : List Char :=
  ((List.range 95).map fun i => Char.ofNat (32 + i)).filter fun c => !isIdent c

variable (codepoint2name : Nat → Option Str)

def name2char (name : Str) : Option Char :=
  escapable.find? fun c => codepoint2name c.toNat = some name

/-- The character that a candidate between two underscores stands for. -/
def decode (candidate : Str) : Option Char :=
  (name2char codepoint2name candidate).or (hexByte candidate)

/-- The search for the closing underscore, with `candidate` read so far: what the
first frame stands for, and the number of characters to its end. -/
def frame (candidate : Str) : Str → Option (Char × Nat)
  | [] => none
  | c :: rest =>
      if c = '_' then
        match decode codepoint2name candidate with
        | some ch => some (ch, candidate.length + 1)
        | none => frame (candidate ++ [c]) rest
      else frame (candidate ++ [c]) rest

def Framed (s : Str) : Prop :=
  ∃ w rest, s = w ++ '_' :: rest ∧ decode codepoint2name w ≠ none

/-- The loop of `unescape`, `skip` characters before its index. -/
def unescapeFrom : Nat → Str → Str
  | _, [] => []
  | skip + 1, _ :: rest => unescapeFrom skip rest
  | 0, c :: rest =>
      if c ≠ '_' then c :: unescapeFrom 0 rest
      else
        match frame codepoint2name [] rest with
        | some (ch, skip) => ch :: unescapeFrom skip rest
        | none => '_' :: unescapeFrom 0 rest

def unescape (macroTail : Str) : Str := unescapeFrom codepoint2name 0 macroTail

/-- What upstream puts between the underscores for a character. -/
def escName (c : Char) : Str := (codepoint2name c.toNat).getD (hex02 c.toNat)

def qstrEscape (s : Str) : Str :=
  s.flatMap fun c => if isIdent c then [c] else '_' :: escName codepoint2name c ++ ['_']

/-! ## The table -/

/-- What `unescape` relies on: names are identifiers that begin with a letter, no two
printable characters share one, control characters have none, and no part of a name
between two of its underscores, or between one and an end, is a name or `0xNN`. -/
structure NamesLaw : Prop where
  ident : ∀ cp w, codepoint2name cp = some w → ∀ c ∈ w, isIdent c
  letter : ∀ cp w, codepoint2name cp = some w → ∀ c ∈ w.head?, c.isAlpha
  injective : ∀ c ∈ escapable, ∀ c' ∈ escapable, ∀ w,
    codepoint2name c.toNat = some w → codepoint2name c'.toNat = some w → c = c'
  control : ∀ cp, cp < 32 ∨ cp = 127 → codepoint2name cp = none
  noPrefix : ∀ cp w a b, codepoint2name cp = some w → w = a ++ '_' :: b →
    decode codepoint2name a = none
  noInner : ∀ cp w a b, codepoint2name cp = some w → w = a ++ '_' :: b →
    ¬Framed codepoint2name (b ++ ['_'])

/-! ## The loop -/

variable {codepoint2name : Nat → Option Str}

theorem unescapeFrom_eq (skip : Nat) (s : Str) :
    unescapeFrom codepoint2name skip s = unescape codepoint2name (s.drop skip) := by
  induction s generalizing skip with
  | nil => cases skip <;> simp [unescape, unescapeFrom]
  | cons c s ih =>
      cases skip with
      | zero => rfl
      | succ skip =>
          rw [unescapeFrom, ih]
          rfl

@[simp] theorem unescape_nil : unescape codepoint2name [] = [] := rfl

theorem unescape_cons {c : Char} (hc : c ≠ '_') (s : Str) :
    unescape codepoint2name (c :: s) = c :: unescape codepoint2name s := by
  simp [unescape, unescapeFrom, hc]

theorem frame_append {w : Str} {ch : Char} (hw : decode codepoint2name w = some ch)
    (hfirst : ∀ a b, w = a ++ '_' :: b → decode codepoint2name a = none)
    (pre post : Str) (hsplit : w = pre ++ post) (rest : Str) :
    frame codepoint2name pre (post ++ '_' :: rest) = some (ch, w.length + 1) := by
  induction post generalizing pre with
  | nil =>
      rw [List.append_nil] at hsplit
      subst hsplit
      simp [frame, hw]
  | cons c post ih =>
      have hrest := ih (pre ++ [c]) (by simp [hsplit])
      rw [List.cons_append, frame]
      by_cases hc : c = '_'
      · rw [if_pos hc, hfirst pre post (by rw [hsplit, hc])]
        exact hrest
      · rw [if_neg hc]
        exact hrest

theorem frame_cases (codepoint2name : Nat → Option Str) (pre s : Str) :
    (frame codepoint2name pre s = none ∧
        ∀ b rest, s = b ++ '_' :: rest → decode codepoint2name (pre ++ b) = none) ∨
      ∃ b ch rest, s = b ++ '_' :: rest ∧ decode codepoint2name (pre ++ b) = some ch ∧
        frame codepoint2name pre s = some (ch, (pre ++ b).length + 1) := by
  induction s generalizing pre with
  | nil => exact .inl ⟨rfl, by simp⟩
  | cons c s ih =>
      rw [frame]
      by_cases hc : c = '_'
      · subst hc
        rw [if_pos rfl]
        cases hpre : decode codepoint2name pre with
        | some ch => exact .inr ⟨[], ch, s, rfl, by simpa using hpre, by simp⟩
        | none =>
            rcases ih (pre ++ ['_']) with ⟨hnone, hall⟩ | ⟨b, ch, rest, rfl, hb, hsome⟩
            · refine .inl ⟨hnone, fun b rest hs => ?_⟩
              cases b with
              | nil => simpa using hpre
              | cons d b =>
                  obtain ⟨rfl, htail⟩ := List.cons.inj hs
                  simpa using hall b rest htail
            · exact .inr ⟨'_' :: b, ch, rest, rfl, by simpa using hb, by simpa using hsome⟩
      · rw [if_neg hc]
        rcases ih (pre ++ [c]) with ⟨hnone, hall⟩ | ⟨b, ch, rest, rfl, hb, hsome⟩
        · refine .inl ⟨hnone, fun b rest hs => ?_⟩
          cases b with
          | nil => exact absurd (List.cons.inj hs).1 hc
          | cons d b =>
              obtain ⟨rfl, htail⟩ := List.cons.inj hs
              simpa using hall b rest htail
        · exact .inr ⟨c :: b, ch, rest, rfl, by simpa using hb, by simpa using hsome⟩

theorem not_framed_of_frame {s : Str} (hs : frame codepoint2name [] s = none) :
    ¬Framed codepoint2name s := by
  rintro ⟨w, rest, hsplit, hw⟩
  rcases frame_cases codepoint2name [] s with ⟨-, hall⟩ | ⟨b, ch, r, -, -, hsome⟩
  · exact hw (hall w rest hsplit)
  · rw [hs] at hsome
    exact Option.some_ne_none _ hsome.symm

theorem unescape_underscore {s : Str} (hs : ¬Framed codepoint2name s) :
    unescape codepoint2name ('_' :: s) = '_' :: unescape codepoint2name s := by
  rcases frame_cases codepoint2name [] s with ⟨hnone, -⟩ | ⟨b, ch, rest, hsplit, hb, -⟩
  · simp [unescape, unescapeFrom, hnone]
  · refine absurd ⟨b, rest, hsplit, ?_⟩ hs
    rw [show b = [] ++ b from rfl, hb]
    exact Option.some_ne_none ch

theorem unescape_frame {w : Str} {ch : Char} (hw : decode codepoint2name w = some ch)
    (hfirst : ∀ a b, w = a ++ '_' :: b → decode codepoint2name a = none) (rest : Str) :
    unescape codepoint2name ('_' :: w ++ '_' :: rest) = ch :: unescape codepoint2name rest := by
  have hframe := frame_append hw hfirst [] w rfl rest
  rw [List.cons_append, unescape, unescapeFrom, if_neg (by simp), hframe]
  simp only [unescapeFrom_eq]
  rw [← List.drop_drop, List.drop_left]
  rfl

theorem unescape_of_framed {s : Str} (hs : Framed codepoint2name s) :
    ∃ w ch rest, s = w ++ '_' :: rest ∧ decode codepoint2name w ≠ none ∧
      unescape codepoint2name ('_' :: s) = ch :: unescape codepoint2name rest := by
  obtain ⟨w, rest, hsplit, hw⟩ := hs
  rcases frame_cases codepoint2name [] s with
    ⟨-, hall⟩ | ⟨b, ch, rest', rfl, hb, hsome⟩
  · exact absurd (hall w rest hsplit) hw
  · refine ⟨b, ch, rest', rfl, ?_, ?_⟩
    · rw [show b = [] ++ b from rfl, hb]
      exact Option.some_ne_none ch
    · rw [unescape, unescapeFrom, if_neg (by simp), hsome]
      simp only [unescapeFrom_eq, List.nil_append]
      rw [← List.drop_drop, List.drop_left]
      rfl

/-! ## What `qstr_escape` writes -/

theorem ne_underscore_of_not_isIdent {c : Char} (hc : isIdent c = false) : c ≠ '_' := by
  rintro rfl
  exact absurd hc (by decide)

@[simp] theorem qstrEscape_nil : qstrEscape codepoint2name [] = [] := rfl

theorem qstrEscape_cons_ident {c : Char} (hc : isIdent c) (s : Str) :
    qstrEscape codepoint2name (c :: s) = c :: qstrEscape codepoint2name s := by
  simp [qstrEscape, hc]

theorem qstrEscape_cons_escaped {c : Char} (hc : isIdent c = false) (s : Str) :
    qstrEscape codepoint2name (c :: s) =
      '_' :: escName codepoint2name c ++ '_' :: qstrEscape codepoint2name s := by
  simp [qstrEscape, hc]

/-- The characters of an ASCII string that `qstr_escape` replaces. -/
def Escaped (c : Char) : Prop := isIdent c = false ∧ c.toNat < 128

set_option maxRecDepth 4000 in
theorem toNat_ofNat : ∀ n < 256, (Char.ofNat n).toNat = n := by decide

theorem hexByte_hex02 : ∀ n < 256, hexByte (hex02 n) = some (Char.ofNat n) := by decide +kernel

theorem hex02_chars : ∀ n < 256, ∀ c ∈ hex02 n, isIdent c ∧ c ≠ '_' := by
  have hall : ∀ n < 256, (hex02 n).all fun c => isIdent c ∧ c ≠ '_' := by decide +kernel
  intro n hn
  simpa using hall n hn

theorem lt_of_all {s : Str} {n : Nat} (h : s.all fun c => c.toNat < n) : ∀ c ∈ s, c.toNat < n := by
  simpa using h

theorem mem_escapable {c : Char} :
    c ∈ escapable ↔ isIdent c = false ∧ 32 ≤ c.toNat ∧ c.toNat ≤ 126 := by
  unfold escapable
  rw [List.mem_filter, List.mem_map, Bool.not_eq_true', and_comm]
  refine and_congr_right fun _ => ⟨?_, fun hc => ?_⟩
  · rintro ⟨i, hi, rfl⟩
    have hi := List.mem_range.mp hi
    rw [toNat_ofNat (32 + i) (by omega)]
    omega
  · refine ⟨c.toNat - 32, List.mem_range.mpr (by omega), ?_⟩
    rw [show 32 + (c.toNat - 32) = c.toNat by omega, Char.ofNat_toNat]

theorem name2char_of_name (h : NamesLaw codepoint2name) {c : Char} (hc : Escaped c) {w : Str}
    (hw : codepoint2name c.toNat = some w) : name2char codepoint2name w = some c := by
  have hprint : 32 ≤ c.toNat ∧ c.toNat ≤ 126 := by
    by_contra hctl
    have hnone := h.control c.toNat (by have := hc.2; omega)
    rw [hw] at hnone
    exact Option.some_ne_none w hnone
  have hmem : c ∈ escapable := mem_escapable.mpr ⟨hc.1, hprint⟩
  cases hfind : name2char codepoint2name w with
  | none =>
      have hno := List.find?_eq_none.mp hfind c hmem
      simp [hw] at hno
  | some c' =>
      have hname : codepoint2name c'.toNat = some w := by simpa using List.find?_some hfind
      rw [h.injective c' (List.mem_of_find?_eq_some hfind) c hmem w hname hw]

theorem decode_hex02 (h : NamesLaw codepoint2name) {n : Nat} (hn : n < 256) :
    decode codepoint2name (hex02 n) = some (Char.ofNat n) := by
  have hname : name2char codepoint2name (hex02 n) = none := by
    refine List.find?_eq_none.mpr fun c _ hname => ?_
    have halpha := h.letter c.toNat (hex02 n) (by simpa using hname) '0' rfl
    exact absurd halpha (by decide)
  rw [decode, hname, hexByte_hex02 n hn]
  rfl

theorem not_mem_hex02 {n : Nat} (hn : n < 256) {a b : Str} : hex02 n ≠ a ++ '_' :: b := by
  intro hsplit
  exact absurd rfl (hex02_chars n hn '_' (by simp [hsplit])).2

/-- What may be left of the name of an escaped character when a frame has ended in its
midst: identifier characters between which no other frame stands. -/
structure Leftover (codepoint2name : Nat → Option Str) (n : Str) : Prop where
  ident : ∀ c ∈ n, isIdent c
  unframed : ∀ a b, n = a ++ '_' :: b → ¬Framed codepoint2name b

theorem Leftover.nil : Leftover codepoint2name [] := ⟨by simp, by simp⟩

theorem Leftover.of_append {a n : Str} (h : Leftover codepoint2name (a ++ n)) :
    Leftover codepoint2name n where
  ident c hc := h.ident c (List.mem_append_right a hc)
  unframed a' b hn := h.unframed (a ++ a') b (by simp [hn])

theorem Leftover.of_name {w : Str} (hident : ∀ c ∈ w, isIdent c)
    (hinner : ∀ a b, w = a ++ '_' :: b → ¬Framed codepoint2name (b ++ ['_'])) :
    Leftover codepoint2name (w ++ ['_']) where
  ident c hc := by
    rcases List.mem_append.mp hc with hc | hc
    · exact hident c hc
    · rw [List.mem_singleton.mp hc]
      rfl
  unframed a b hn := by
    rcases List.eq_nil_or_concat b with rfl | ⟨b, d, rfl⟩
    · rintro ⟨w, rest, hnil, -⟩
      simp at hnil
    · rw [List.concat_eq_append, ← List.cons_append, ← List.append_assoc] at hn
      obtain ⟨hw, hd⟩ := List.append_inj' hn rfl
      rw [List.concat_eq_append, ← (List.cons.inj hd).1]
      exact hinner a b hw

/-- The name of an escaped character reads back as the character, and at no underscore
before its end. -/
theorem decode_escName (h : NamesLaw codepoint2name) {c : Char} (hc : Escaped c) :
    decode codepoint2name (escName codepoint2name c) = some c ∧
      ∀ a b, escName codepoint2name c = a ++ '_' :: b → decode codepoint2name a = none := by
  unfold escName
  cases hw : codepoint2name c.toNat with
  | some w =>
      refine ⟨?_, fun a b hsplit => h.noPrefix c.toNat w a b hw hsplit⟩
      simp [decode, name2char_of_name h hc hw]
  | none =>
      have hbyte : c.toNat < 256 := by have := hc.2; omega
      rw [Option.getD_none, decode_hex02 h hbyte, Char.ofNat_toNat]
      exact ⟨rfl, fun a b hsplit => absurd hsplit (not_mem_hex02 hbyte)⟩

theorem leftover_escName (h : NamesLaw codepoint2name) {c : Char} (hc : Escaped c) :
    Leftover codepoint2name (escName codepoint2name c ++ ['_']) := by
  unfold escName
  cases hw : codepoint2name c.toNat with
  | some w => exact .of_name (h.ident c.toNat w hw) fun a b => h.noInner c.toNat w a b hw
  | none =>
      have hbyte : c.toNat < 256 := by have := hc.2; omega
      rw [Option.getD_none]
      exact .of_name (fun d hd => (hex02_chars c.toNat hbyte d hd).1) fun a b hsplit =>
        absurd hsplit (not_mem_hex02 hbyte)

theorem unescape_escaped (h : NamesLaw codepoint2name) {c : Char} (hc : Escaped c) (s : Str) :
    unescape codepoint2name (qstrEscape codepoint2name (c :: s)) =
      c :: unescape codepoint2name (qstrEscape codepoint2name s) := by
  obtain ⟨hdecode, hfirst⟩ := decode_escName h hc
  rw [qstrEscape_cons_escaped hc.1, unescape_frame hdecode hfirst]

/-! ## Where a frame can end -/

/-- An underscore in an escaped string is a character of the string, or belongs to an
escaped character of which identifier characters may be left. -/
theorem qstrEscape_cut (h : NamesLaw codepoint2name) {v w rest : Str}
    (hv : ∀ c ∈ v, c.toNat < 128) (hcut : qstrEscape codepoint2name v = w ++ '_' :: rest) :
    ∃ v₁ c v₂ n, v = v₁ ++ c :: v₂ ∧ rest = n ++ qstrEscape codepoint2name v₂ ∧
      Leftover codepoint2name n ∧ (n = [] ∨ isIdent c = false) := by
  induction v generalizing w with
  | nil => simp [qstrEscape] at hcut
  | cons c v ih =>
      have ihv := fun w => ih (w := w) fun d hd => hv d (List.mem_cons_of_mem c hd)
      cases hc : isIdent c with
      | true =>
          rw [qstrEscape_cons_ident hc] at hcut
          cases w with
          | nil =>
              obtain ⟨rfl, rfl⟩ := List.cons.inj hcut
              exact ⟨[], '_', v, [], rfl, rfl, .nil, .inl rfl⟩
          | cons d w =>
              obtain ⟨v₁, c', v₂, n, rfl, hfound⟩ := ihv w (List.cons.inj hcut).2
              exact ⟨c :: v₁, c', v₂, n, rfl, hfound⟩
      | false =>
          have hleft := leftover_escName h ⟨hc, hv c (by simp)⟩
          have hsplit : '_' :: (escName codepoint2name c ++ ['_']) ++ qstrEscape codepoint2name v =
              w ++ '_' :: rest := by
            rw [← hcut, qstrEscape_cons_escaped hc]
            simp
          rcases List.append_eq_append_iff.mp hsplit with ⟨w', rfl, htail⟩ | ⟨n, hn, hrest⟩
          · obtain ⟨v₁, c', v₂, n, rfl, hfound⟩ := ihv w' htail
            exact ⟨c :: v₁, c', v₂, n, rfl, hfound⟩
          · cases n with
            | nil =>
                obtain ⟨v₁, c', v₂, n, rfl, hfound⟩ := ihv [] hrest.symm
                exact ⟨c :: v₁, c', v₂, n, rfl, hfound⟩
            | cons d n =>
                obtain ⟨rfl, rfl⟩ := List.cons.inj hrest
                refine ⟨[], c, v, n, rfl, rfl, ?_, .inr hc⟩
                cases w with
                | nil =>
                    rw [← (List.cons.inj hn).2]
                    exact hleft
                | cons d w =>
                    have htail : escName codepoint2name c ++ ['_'] = (w ++ ['_']) ++ n := by
                      simpa using (List.cons.inj hn).2
                    rw [htail] at hleft
                    exact hleft.of_append

variable (codepoint2name) in
/-- `q` has still to be read, and what is left of a frame, `n`, cannot supply the last
character of it. -/
structure Behind (n q : Str) : Prop where
  leftover : Leftover codepoint2name n
  nonempty : q ≠ []
  last : n = [] ∨ ∀ c ∈ q.getLast?, isIdent c = false

theorem Behind.concat {n : Str} {c : Char} (hn : Leftover codepoint2name n)
    (hc : n = [] ∨ isIdent c = false) (q : Str) : Behind codepoint2name n (q ++ [c]) where
  leftover := hn
  nonempty := by simp
  last := hc.imp_right fun hc d hd => by
    rw [List.getLast?_concat] at hd
    rw [← Option.some.inj hd]
    exact hc

/-- What is left of a frame is read as itself, and leaves something to be read. -/
theorem Behind.tail {d : Char} {n q : Str} (h : Behind codepoint2name (d :: n) (d :: q)) :
    Behind codepoint2name n q := by
  have hlast := h.last.resolve_left (by simp)
  have hq : q ≠ [] := by
    rintro rfl
    have hd := h.leftover.ident d (by simp)
    rw [hlast d rfl] at hd
    exact Bool.false_ne_true hd
  refine ⟨Leftover.of_append (a := [d]) h.leftover, hq, .inr fun c hc => hlast c ?_⟩
  rw [List.getLast?_cons_of_ne_nil hq]
  exact hc

/-- A frame that ends in the escaped form of `v` leaves more of `v` to be read than it
supplies. -/
theorem behind_of_cut (h : NamesLaw codepoint2name) {v w rest : Str}
    (hv : ∀ c ∈ v, c.toNat < 128) (hcut : qstrEscape codepoint2name v = w ++ '_' :: rest) :
    ∃ n v' q, rest = n ++ qstrEscape codepoint2name v' ∧ v = q ++ v' ∧
      (∀ c ∈ v', c.toNat < 128) ∧ ∀ q₀, Behind codepoint2name n (q₀ ++ q) := by
  obtain ⟨v₁, c, v₂, n, rfl, rfl, hn, hc⟩ := qstrEscape_cut h hv hcut
  refine ⟨n, v₂, v₁ ++ [c], rfl, by simp, fun d hd => hv d (by simp [hd]), fun q₀ => ?_⟩
  rw [← List.append_assoc]
  exact .concat hn hc (q₀ ++ v₁)

variable (codepoint2name) in
/-- No text shorter than `len` is read back behind characters of its own. -/
def NoCopyBelow (len : Nat) : Prop :=
  ∀ n v q : Str, (n ++ qstrEscape codepoint2name v).length < len → (∀ c ∈ v, c.toNat < 128) →
    Behind codepoint2name n q → unescape codepoint2name (n ++ qstrEscape codepoint2name v) ≠ q ++ v

/-- What is behind a frame that ends in the escaped form of `v` is not read as `v` behind
anything. -/
theorem NoCopyBelow.behind_frame {len : Nat} (hshort : NoCopyBelow codepoint2name len)
    (h : NamesLaw codepoint2name) {v w rest : Str} (hv : ∀ c ∈ v, c.toNat < 128)
    (hcut : qstrEscape codepoint2name v = w ++ '_' :: rest) (hlt : rest.length < len) (q : Str) :
    unescape codepoint2name rest ≠ q ++ v := by
  intro heq
  obtain ⟨n, v', q', rfl, rfl, hv', hnext⟩ := behind_of_cut h hv hcut
  exact hshort n v' (q ++ q') hlt hv' (hnext q) (by simpa using heq)

theorem NoCopyBelow.whole_cons {len : Nat} (hshort : NoCopyBelow codepoint2name len) {a c : Char}
    {q v : Str} (hv : ∀ d ∈ v, d.toNat < 128) (hlt : (qstrEscape codepoint2name v).length < len)
    (hread : unescape codepoint2name (qstrEscape codepoint2name (c :: v)) =
      c :: unescape codepoint2name (qstrEscape codepoint2name v)) :
    unescape codepoint2name (qstrEscape codepoint2name (c :: v)) ≠ (a :: q) ++ c :: v := by
  intro heq
  have htail := (List.cons.inj (hread.symm.trans heq)).2
  exact hshort [] v (q ++ [c]) hlt hv (.concat .nil (.inl rfl) q) (by simpa using htail)

theorem NoCopyBelow.whole {len : Nat} (hshort : NoCopyBelow codepoint2name len)
    (h : NamesLaw codepoint2name) {a : Char} {q v : Str} (hv : ∀ c ∈ v, c.toNat < 128)
    (hlen : (qstrEscape codepoint2name v).length = len) :
    unescape codepoint2name (qstrEscape codepoint2name v) ≠ (a :: q) ++ v := by
  cases v with
  | nil => simp
  | cons c v =>
      have hv' : ∀ d ∈ v, d.toNat < 128 := fun d hd => hv d (by simp [hd])
      cases hc : isIdent c with
      | false =>
          refine hshort.whole_cons hv' ?_ (unescape_escaped h ⟨hc, hv c (by simp)⟩ v)
          rw [← hlen, qstrEscape_cons_escaped hc]
          simp
          omega
      | true =>
          rw [qstrEscape_cons_ident hc, List.length_cons] at hlen
          by_cases hund : c = '_'
          · subst hund
            by_cases hfr : Framed codepoint2name (qstrEscape codepoint2name v)
            · obtain ⟨w, ch, rest, hcut, -, hread⟩ := unescape_of_framed hfr
              have hlt : rest.length < len := by
                rw [← hlen, hcut]
                simp
                omega
              rw [qstrEscape_cons_ident hc, hread]
              intro heq
              have htail := (List.cons.inj heq).2
              exact hshort.behind_frame h hv' hcut hlt (q ++ ['_']) (by simpa using htail)
            · refine hshort.whole_cons hv' (by omega) ?_
              rw [qstrEscape_cons_ident hc, unescape_underscore hfr]
          · refine hshort.whole_cons hv' (by omega) ?_
            rw [qstrEscape_cons_ident hc, unescape_cons hund]

theorem NoCopyBelow.leftover {len : Nat} (hshort : NoCopyBelow codepoint2name len)
    (h : NamesLaw codepoint2name) {a d : Char} {n q v : Str} (hv : ∀ c ∈ v, c.toNat < 128)
    (hbehind : Behind codepoint2name (d :: n) (a :: q))
    (hlen : (d :: (n ++ qstrEscape codepoint2name v)).length = len) :
    unescape codepoint2name (d :: (n ++ qstrEscape codepoint2name v)) ≠ (a :: q) ++ v := by
  have hmove : unescape codepoint2name (d :: (n ++ qstrEscape codepoint2name v)) =
        d :: unescape codepoint2name (n ++ qstrEscape codepoint2name v) →
      unescape codepoint2name (d :: (n ++ qstrEscape codepoint2name v)) ≠ (a :: q) ++ v := by
    intro hread heq
    obtain ⟨rfl, htail⟩ := List.cons.inj (hread.symm.trans heq)
    refine hshort n v q ?_ hv hbehind.tail htail
    rw [← hlen]
    simp
  by_cases hund : d = '_'
  · subst hund
    by_cases hfr : Framed codepoint2name (n ++ qstrEscape codepoint2name v)
    · obtain ⟨w, ch, rest, hcut, hw, hread⟩ := unescape_of_framed hfr
      have hlt : rest.length < len := by
        rw [← hlen, List.length_cons, hcut]
        simp
        omega
      rw [hread]
      intro heq
      have htail := (List.cons.inj heq).2
      rcases List.append_eq_append_iff.mp hcut with ⟨w', rfl, hin⟩ | ⟨t, rfl, hout⟩
      · exact hshort.behind_frame h hv hin hlt q htail
      · cases t with
        | nil => exact hshort.behind_frame h hv (w := []) hout.symm hlt q htail
        | cons e t =>
            obtain ⟨rfl, -⟩ := List.cons.inj hout
            exact hbehind.leftover.unframed [] (w ++ '_' :: t) rfl ⟨w, t, rfl, hw⟩
    · exact hmove (unescape_underscore hfr)
  · exact hmove (unescape_cons hund _)

/-- A string that is read behind its own first characters is never read back. -/
theorem unescape_ne_append (h : NamesLaw codepoint2name) {n v q : Str}
    (hv : ∀ c ∈ v, c.toNat < 128) (hbehind : Behind codepoint2name n q) :
    unescape codepoint2name (n ++ qstrEscape codepoint2name v) ≠ q ++ v := by
  induction hlen : (n ++ qstrEscape codepoint2name v).length using Nat.strongRecOn
    generalizing n v q with
  | _ len ih =>
  have hshort : NoCopyBelow codepoint2name len := fun n v q hlt hv hbehind =>
    ih _ hlt hv hbehind rfl
  obtain ⟨a, q, rfl⟩ := List.exists_cons_of_ne_nil hbehind.nonempty
  cases n with
  | nil => exact hshort.whole h hv hlen
  | cons d n => exact hshort.leftover h hv hbehind hlen

/-! ## Reading back -/

variable (codepoint2name) in
/-- No underscore of `s` begins a frame in its escaped form. -/
def Unambiguous (s : Str) : Prop :=
  ∀ u v, s = u ++ '_' :: v → ¬Framed codepoint2name (qstrEscape codepoint2name v)

theorem unambiguous_cons {c : Char} {s : Str} (hc : c ≠ '_') :
    Unambiguous codepoint2name (c :: s) ↔ Unambiguous codepoint2name s := by
  constructor
  · intro h u v hsplit
    exact h (c :: u) v (by simp [hsplit])
  · intro h u v hsplit
    cases u with
    | nil => exact absurd (List.cons.inj hsplit).1 hc
    | cons d u => exact h u v (List.cons.inj hsplit).2

theorem unambiguous_underscore {s : Str} :
    Unambiguous codepoint2name ('_' :: s) ↔
      ¬Framed codepoint2name (qstrEscape codepoint2name s) ∧ Unambiguous codepoint2name s := by
  constructor
  · intro h
    exact ⟨h [] s rfl, fun u v hsplit => h ('_' :: u) v (by simp [hsplit])⟩
  · rintro ⟨hframe, h⟩ u v hsplit
    cases u with
    | nil =>
        rw [← (List.cons.inj hsplit).2]
        exact hframe
    | cons d u => exact h u v (List.cons.inj hsplit).2

/-- `unescape` reads back an ASCII string from its escaped form exactly when no underscore
of the string itself begins a frame there. -/
theorem unescape_qstrEscape_iff (h : NamesLaw codepoint2name) {s : Str}
    (hs : ∀ c ∈ s, c.toNat < 128) :
    unescape codepoint2name (qstrEscape codepoint2name s) = s ↔ Unambiguous codepoint2name s := by
  induction s with
  | nil => exact ⟨fun _ u v hsplit => by simp at hsplit, fun _ => rfl⟩
  | cons c s ih =>
      have hs' : ∀ d ∈ s, d.toNat < 128 := fun d hd => hs d (by simp [hd])
      cases hc : isIdent c with
      | false =>
          rw [unescape_escaped h ⟨hc, hs c (by simp)⟩, List.cons_inj_right, ih hs',
            unambiguous_cons (ne_underscore_of_not_isIdent hc)]
      | true =>
          rw [qstrEscape_cons_ident hc]
          by_cases hund : c = '_'
          · subst hund
            rw [unambiguous_underscore]
            by_cases hfr : Framed codepoint2name (qstrEscape codepoint2name s)
            · refine iff_of_false (fun heq => ?_) fun hboth => hboth.1 hfr
              obtain ⟨w, ch, rest, hcut, -, hread⟩ := unescape_of_framed hfr
              obtain ⟨n, v, q, rfl, rfl, hv, hbehind⟩ := behind_of_cut h hs' hcut
              rw [hread] at heq
              exact unescape_ne_append h hv (hbehind []) (List.cons.inj heq).2
            · rw [unescape_underscore hfr, List.cons_inj_right, ih hs']
              simp [hfr]
          · rw [unescape_cons hund, List.cons_inj_right, ih hs', unambiguous_cons hund]

/-! ## What can be read -/

theorem hexDigit_lt {c : Char} {d : Nat} (h : hexDigit c = some d) : d < 16 := by
  have hzero : '0'.toNat = 48 := rfl
  have hnine : '9'.toNat = 57 := rfl
  have ha : 'a'.toNat = 97 := rfl
  have hf : 'f'.toNat = 102 := rfl
  unfold hexDigit at h
  split_ifs at h <;> have hd := Option.some.inj h <;> omega

theorem hexByte_lt {w : Str} {ch : Char} (h : hexByte w = some ch) : ch.toNat < 256 := by
  unfold hexByte at h
  split at h
  · split at h
    · rename_i x y hx hy
      have hx := hexDigit_lt hx
      have hy := hexDigit_lt hy
      rw [← Option.some.inj h, toNat_ofNat (16 * x + y) (by omega)]
      omega
    · exact absurd h (by simp)
  · exact absurd h (by simp)

theorem decode_lt {w : Str} {ch : Char} (hw : decode codepoint2name w = some ch) :
    ch.toNat < 256 := by
  rcases Option.or_eq_some_iff.mp hw with hname | ⟨-, hbyte⟩
  · have hmem := mem_escapable.mp (List.mem_of_find?_eq_some hname)
    omega
  · exact hexByte_lt hbyte

theorem isIdent_lt {c : Char} (hc : isIdent c) : c.toNat < 128 := by
  rcases Bool.or_eq_true_iff.mp hc with halnum | hund
  · have hle : c.val ≤ 'Z'.val ∨ c.val ≤ 'z'.val ∨ c.val ≤ '9'.val := by
      rcases Bool.or_eq_true_iff.mp halnum with halpha | hdigit
      · rcases Bool.or_eq_true_iff.mp halpha with hupper | hlower
        · exact .inl (of_decide_eq_true hupper).2
        · exact .inr (.inl (of_decide_eq_true (Bool.and_eq_true_iff.mp hlower).2))
      · exact .inr (.inr (of_decide_eq_true (Bool.and_eq_true_iff.mp hdigit).2))
    rcases hle with hle | hle | hle
    all_goals exact Nat.lt_of_le_of_lt (UInt32.le_iff_toNat_le.mp hle) (by decide)
  · rw [of_decide_eq_true hund]
    decide

theorem unescapeFrom_lt (skip : Nat) {macroTail : Str} (hident : ∀ c ∈ macroTail, isIdent c) :
    ∀ c ∈ unescapeFrom codepoint2name skip macroTail, c.toNat < 256 := by
  induction macroTail generalizing skip with
  | nil => cases skip <;> simp [unescapeFrom]
  | cons c rest ih =>
      have ih := fun skip => ih skip fun d hd => hident d (by simp [hd])
      have hc : c.toNat < 256 := by have := isIdent_lt (hident c (by simp)); omega
      cases skip with
      | succ skip => exact ih skip
      | zero =>
          rw [unescapeFrom]
          split
          · simpa using ⟨hc, ih 0⟩
          · rcases frame_cases codepoint2name [] rest with
              ⟨hnone, -⟩ | ⟨b, ch, rest', -, hb, hsome⟩
            · rw [hnone]
              simpa using ih 0
            · rw [hsome]
              simpa using ⟨decode_lt hb, ih _⟩

/-- The strings that `unescape` makes of identifiers are those of characters below 256. -/
theorem exists_unescape_iff (h : NamesLaw codepoint2name) {s : Str} :
    (∃ macroTail, (∀ c ∈ macroTail, isIdent c) ∧ unescape codepoint2name macroTail = s) ↔
      ∀ c ∈ s, c.toNat < 256 := by
  constructor
  · rintro ⟨macroTail, hident, rfl⟩
    exact unescapeFrom_lt 0 hident
  · intro hs
    refine ⟨s.flatMap fun c => '_' :: hex02 c.toNat ++ ['_'], ?_, ?_⟩
    · intro d hd
      obtain ⟨c, hc, hd⟩ := List.mem_flatMap.mp hd
      rcases List.mem_append.mp hd with hd | hd
      · rcases List.mem_cons.mp hd with rfl | hd
        · rfl
        · exact (hex02_chars c.toNat (hs c hc) d hd).1
      · rw [List.mem_singleton.mp hd]
        rfl
    · induction s with
      | nil => rfl
      | cons c s ih =>
          have hc := hs c (by simp)
          rw [List.flatMap_cons, List.append_assoc, List.singleton_append,
            unescape_frame (decode_hex02 h hc) fun a b hsplit => absurd hsplit (not_mem_hex02 hc),
            ih fun d hd => hs d (by simp [hd]), Char.ofNat_toNat]

/-! ## The names the repository's tests know -/

/-- The entries of `codepoint2name` that the tests of `unescape` use. -/
def testedTable : List (Nat × Str) :=
  [('<', "lt"), ('>', "gt"), (' ', "space"), ('*', "star"), (':', "colon"), ('#', "hash"),
    ('&', "amp"), ('-', "hyphen"), ('{', "brace_open"), ('}', "brace_close"),
    ('(', "paren_open"), (')', "paren_close"), ('[', "bracket_open"), ('@', "at_sign"),
    ('.', "dot")].map fun entry => (entry.1.toNat, entry.2.toList)

def testedNames (cp : Nat) : Option Str := (testedTable.find? (·.1 = cp)).map (·.2)

theorem mem_testedTable {cp : Nat} {w : Str} (h : testedNames cp = some w) :
    (cp, w) ∈ testedTable := by
  obtain ⟨entry, hfind, rfl⟩ := Option.map_eq_some_iff.mp h
  have hcp : entry.1 = cp := by simpa using List.find?_some hfind
  rw [← hcp]
  exact List.mem_of_find?_eq_some hfind

theorem testedNames_law : NamesLaw testedNames where
  ident cp w hw := by
    have hall : ∀ e ∈ testedTable, e.2.all isIdent := by decide
    exact List.all_eq_true.mp (hall _ (mem_testedTable hw))
  letter cp w hw := by
    have hall : ∀ e ∈ testedTable, e.2.head?.all Char.isAlpha := by decide
    simpa [Option.all_eq_true] using hall _ (mem_testedTable hw)
  injective c _ c' _ w hw hw' := by
    have hall : ∀ e ∈ testedTable, ∀ e' ∈ testedTable, e.2 = e'.2 → e.1 = e'.1 := by decide
    have hcode : c.toNat = c'.toNat := hall _ (mem_testedTable hw) _ (mem_testedTable hw') rfl
    rw [← Char.ofNat_toNat c, hcode, Char.ofNat_toNat]
  control cp hcp := by
    have hall : ∀ e ∈ testedTable, ¬(e.1 < 32 ∨ e.1 = 127) := by decide
    cases hw : testedNames cp with
    | none => rfl
    | some w => exact absurd hcp (hall _ (mem_testedTable hw))
  noPrefix cp w a b hw hsplit := by
    have hall : ∀ e ∈ testedTable, ∀ i < e.2.length, e.2[i]? = some '_' →
        decode testedNames (e.2.take i) = none := by decide
    have ha := hall _ (mem_testedTable hw) a.length
    rw [hsplit] at ha
    simpa using ha
  noInner cp w a b hw hsplit := by
    have hall : ∀ e ∈ testedTable, ∀ i < e.2.length, e.2[i]? = some '_' →
        frame testedNames [] (e.2.drop (i + 1) ++ ['_']) = none := by decide
    have hb := hall _ (mem_testedTable hw) a.length
    rw [hsplit, ← List.drop_drop] at hb
    exact not_framed_of_frame (by simpa using hb)

/-- An underscore that begins no frame, between escaped characters. -/
theorem unambiguous_format : Unambiguous testedNames "{:#x}_brace (open)".toList :=
  (unescape_qstrEscape_iff testedNames_law (lt_of_all (by decide))).mp (by decide)

/-- The method name `__lt__` needs no escaping, and its inner underscores are taken for
the frame of `<`. -/
theorem unescape_qstrEscape_lt_ne :
    (∀ c ∈ "__lt__".toList, c.toNat < 128) ∧
      unescape testedNames (qstrEscape testedNames "__lt__".toList) ≠ "__lt__".toList :=
  ⟨lt_of_all (by decide), by decide⟩

end FreedosMicroPython.Qstr.Escape
