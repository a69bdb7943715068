import Mathlib.Algebra.Group.Nat.Defs
import Mathlib.Data.List.Chain
import FreedosMicroPython.Lib.CLiteral
import FreedosMicroPython.Qstr.Escape
/-!
# The fields of a QDEF line

`c_string` and `compute_hash` of `gen_qstrdefs.py`: the literal, the length and the
hash that a line gives for one decoded string. The length counts characters, the
hash is of the UTF-8 bytes, and the literal is read by a C compiler.
-/

namespace FreedosMicroPython.Qstr.Literal

open FreedosMicroPython.Lib FreedosMicroPython.Lib.CLiteral
open FreedosMicroPython.Qstr.Escape (Str fmt02x)

/-! ## The fields -/

def encodeUtf8 (s : Str) : List UInt8 := s.flatMap String.utf8EncodeChar

def hashLoop (h : Nat) (qbytes : List UInt8) : Nat :=
  qbytes.foldl (fun h b => (h * 33) ^^^ b.toNat) h

def computeHash (qbytes : List UInt8) (bytesHash : Nat) : Nat :=
  let h := hashLoop 5381 qbytes
  let mask := (1 <<< (8 * if bytesHash = 0 then 2 else bytesHash)) - 1
  if h &&& mask = 0 then 1 else h &&& mask

def cStringPart (ch : Char) : Str :=
  if ch = '\\' then ['\\', '\\']
  else if ch = '"' then ['\\', '"']
  else if ch = '\n' then ['\\', 'n']
  else if ch = '\t' then ['\\', 't']
  else if ch = '\r' then ['\\', 'r']
  else if 0x20 ≤ ch.toNat ∧ ch.toNat < 0x7F then [ch]
  else '\\' :: 'x' :: fmt02x ch.toNat

def cString (s : Str) : Str := '"' :: s.flatMap cStringPart ++ ['"']

/-- One byte for each character, for the string that a token stands for. -/
def oneByteEach (s : Str) : List UInt8 := s.map fun c => UInt8.ofNat c.toNat

/-- The line for `s` is consistent: the compiler makes of its literal the bytes of `s`,
as many as its length field says, and its hash field is their hash. -/
def SelfConsistent (bytesHash : Nat) (s : Str) : Prop :=
  ∃ bytes, denotes (cString s) = some bytes ∧ bytes.length = s.length ∧
    computeHash bytes bytesHash = computeHash (encodeUtf8 s) bytesHash ∧ bytes = oneByteEach s

/-! ## The literal -/

def HexEscaped (c : Char) : Prop :=
  (c.toNat < 0x20 ∧ c ≠ '\n' ∧ c ≠ '\t' ∧ c ≠ '\r') ∨ 0x7F ≤ c.toNat

/-- The second character is not taken for a digit of the first one's escape. -/
def Apart (c d : Char) : Prop := HexEscaped c → hexDigit d = none

instance (c : Char) : Decidable (HexEscaped c) := inferInstanceAs (Decidable (_ ∨ _))

instance (c d : Char) : Decidable (Apart c d) := inferInstanceAs (Decidable (_ → _))

theorem hexEscaped_or {c : Char} :
    HexEscaped c ∨ c = '\n' ∨ c = '\t' ∨ c = '\r' ∨ (0x20 ≤ c.toNat ∧ c.toNat < 0x7F) := by
  unfold HexEscaped
  by_cases hn : c = '\n'
  · simp [hn]
  · by_cases ht : c = '\t'
    · simp [ht]
    · by_cases hr : c = '\r'
      · simp [hr]
      · simp only [hn, ht, hr, ne_eq, not_false_eq_true, and_true, false_or]
        omega

theorem lex_cStringPart_plain {c : Char} (hc : ¬HexEscaped c) :
    lex .plain (cStringPart c) = some ([UInt8.ofNat c.toNat], .plain) := by
  rcases hexEscaped_or.resolve_left hc with rfl | rfl | rfl | ⟨hlow, hhigh⟩
  · decide
  · decide
  · decide
  · by_cases hback : c = '\\'
    · subst hback
      decide
    · by_cases hquote : c = '"'
      · subst hquote
        decide
      · have hn : c ≠ '\n' := by rintro rfl; simp at hlow
        have ht : c ≠ '\t' := by rintro rfl; simp at hlow
        have hr : c ≠ '\r' := by rintro rfl; simp at hlow
        have hpart : cStringPart c = [c] := by
          simp [cStringPart, hback, hquote, hn, ht, hr, hlow, hhigh]
        rw [hpart]
        simp [lex, step, stepPlain, hback, hquote, hn, show c.toNat < 128 by omega]

theorem lex_fmt02x : ∀ n < 256, lex (.hex none) (fmt02x n) = some ([], .hex (some n)) := by
  decide +kernel

theorem cStringPart_of_hexEscaped {c : Char} (hc : HexEscaped c) :
    cStringPart c = '\\' :: 'x' :: fmt02x c.toNat := by
  have hne : ∀ d : Char, ¬HexEscaped d → c ≠ d := by
    rintro d hd rfl
    exact hd hc
  have hprint : ¬(0x20 ≤ c.toNat ∧ c.toNat < 0x7F) := by
    unfold HexEscaped at hc
    omega
  rw [cStringPart, if_neg (hne _ (by decide)), if_neg (hne _ (by decide)),
    if_neg (hne _ (by decide)), if_neg (hne _ (by decide)), if_neg (hne _ (by decide)),
    if_neg hprint]

theorem lex_cStringPart_hex {c : Char} (hc : HexEscaped c) (hbyte : c.toNat < 256) :
    lex .plain (cStringPart c) = some ([], .hex (some c.toNat)) := by
  rw [cStringPart_of_hexEscaped hc,
    lex_cons_of_step (show step .plain '\\' = some ([], .escape) by decide),
    lex_cons_of_step (show step .escape 'x' = some ([], .hex none) by decide), lex_fmt02x _ hbyte]
  rfl

theorem cStringPart_cases (c : Char) :
    cStringPart c = [c] ∨ ∃ t, cStringPart c = '\\' :: t := by
  unfold cStringPart
  split_ifs <;> simp

theorem cStringPart_of_hexDigit {c : Char} {d : Nat} (hc : hexDigit c = some d) :
    cStringPart c = [c] := by
  have hne : ∀ e : Char, hexDigit e = none → c ≠ e := by
    rintro e he rfl
    exact Option.some_ne_none d (hc.symm.trans he)
  have hprint : 0x20 ≤ c.toNat ∧ c.toNat < 0x7F := by
    by_contra hprint
    have hzero : '0'.toNat = 0x30 := rfl
    have hnine : '9'.toNat = 0x39 := rfl
    have ha : 'a'.toNat = 0x61 := rfl
    have hf : 'f'.toNat = 0x66 := rfl
    have hA : 'A'.toNat = 0x41 := rfl
    have hF : 'F'.toNat = 0x46 := rfl
    rw [hexDigit, if_neg (by omega), if_neg (by omega), if_neg (by omega)] at hc
    exact Option.some_ne_none d hc.symm
  rw [cStringPart, if_neg (hne _ rfl), if_neg (hne _ rfl), if_neg (hne _ rfl),
    if_neg (hne _ rfl), if_neg (hne _ rfl), if_pos hprint]

/-- What the compiler reads behind the opening quote. -/
def body (s : Str) : Str := s.flatMap cStringPart ++ ['"']

theorem body_cons (c : Char) (s : Str) : body (c :: s) = cStringPart c ++ body s := by
  simp [body]

theorem denotes_cString (s : Str) :
    denotes (cString s) =
      match lex .plain (body s) with
      | some (bytes, .closed) => some bytes
      | _ => none := rfl

/-- A `\x` escape ends before a character that is no digit, however that is written. -/
theorem lex_hex_body {s : Str} (hs : ∀ d ∈ s.head?, hexDigit d = none) (value : Nat) :
    lex (.hex (some value)) (body s) = (byteOf value).bind fun done =>
      (lex .plain (body s)).map fun rest => (done ++ rest.1, rest.2) := by
  cases s with
  | nil => exact lex_hex_past rfl value []
  | cons d s =>
      rw [body_cons]
      rcases cStringPart_cases d with hpart | ⟨t, hpart⟩
      · rw [hpart]
        exact lex_hex_past (hs d rfl) value (body s)
      · rw [hpart]
        exact lex_hex_past rfl value (t ++ body s)

/-- A string in which no `\x` escape touches a digit is read back byte by byte. -/
theorem lex_body {s : Str} (hs : ∀ c ∈ s, c.toNat < 256) (happart : s.IsChain Apart) :
    lex .plain (body s) = some (oneByteEach s, .closed) := by
  induction s with
  | nil => rfl
  | cons c s ih =>
      have hc : c.toNat < 256 := hs c (by simp)
      obtain ⟨hhead, happart⟩ := List.isChain_cons.mp happart
      have hrest := ih (fun d hd => hs d (by simp [hd])) happart
      rw [body_cons]
      by_cases hhex : HexEscaped c
      · rw [lex_append_of_lex (lex_cStringPart_hex hhex hc),
          lex_hex_body (fun d hd => hhead d hd hhex), byteOf, if_pos hc, hrest]
        rfl
      · rw [lex_append_of_lex (lex_cStringPart_plain hhex), hrest]
        rfl

/-- The literal of `s` is not longer than `s`, and as long only when no escape swallows
a digit. -/
def Bounded (s : Str) : Prop :=
  ∀ bytes, lex .plain (body s) = some (bytes, .closed) →
    bytes.length ≤ s.length ∧ (bytes.length = s.length → s.IsChain Apart)

/-- The same behind a `\x` escape, for which one byte more is due. -/
def BoundedPast (s : Str) : Prop :=
  ∀ value bytes, lex (.hex (some value)) (body s) = some (bytes, .closed) →
    bytes.length ≤ s.length + 1 ∧
      (bytes.length = s.length + 1 → s.IsChain Apart ∧ ∀ d ∈ s.head?, hexDigit d = none)

theorem Bounded.past {s : Str} (h : Bounded s) (hs : ∀ d ∈ s.head?, hexDigit d = none) :
    BoundedPast s := by
  intro value bytes hlex
  rw [lex_hex_body hs, byteOf] at hlex
  by_cases hvalue : value < 256
  · rw [if_pos hvalue, Option.bind_some] at hlex
    obtain ⟨⟨rest, mode⟩, hrest, heq⟩ := Option.map_eq_some_iff.mp hlex
    obtain ⟨rfl, rfl⟩ := Prod.mk.inj heq
    obtain ⟨hle, hchain⟩ := h rest hrest
    refine ⟨by simpa using hle, fun hlen => ⟨hchain (by simpa using hlen), hs⟩⟩
  · simp [hvalue] at hlex

theorem BoundedPast.digit {c : Char} {s : Str} (h : BoundedPast s) {d : Nat}
    (hc : hexDigit c = some d) : BoundedPast (c :: s) := by
  intro value bytes hlex
  rw [body_cons, cStringPart_of_hexDigit hc, List.singleton_append, lex_hex_digit hc] at hlex
  have hle := (h _ bytes hlex).1
  rw [List.length_cons]
  omega

theorem Bounded.cons {c : Char} {s : Str} (hc : c.toNat < 256) (h : Bounded s)
    (hpast : BoundedPast s) : Bounded (c :: s) := by
  intro bytes hlex
  rw [body_cons] at hlex
  by_cases hhex : HexEscaped c
  · rw [lex_append_of_lex (lex_cStringPart_hex hhex hc)] at hlex
    obtain ⟨⟨rest, mode⟩, hrest, heq⟩ := Option.map_eq_some_iff.mp hlex
    obtain ⟨rfl, rfl⟩ := Prod.mk.inj heq
    obtain ⟨hle, hchain⟩ := hpast _ rest hrest
    refine ⟨by simpa using hle, fun hlen => ?_⟩
    obtain ⟨htail, hhead⟩ := hchain (by simpa using hlen)
    exact List.isChain_cons.mpr ⟨fun d hd _ => hhead d hd, htail⟩
  · rw [lex_append_of_lex (lex_cStringPart_plain hhex)] at hlex
    obtain ⟨⟨rest, mode⟩, hrest, heq⟩ := Option.map_eq_some_iff.mp hlex
    obtain ⟨rfl, rfl⟩ := Prod.mk.inj heq
    obtain ⟨hle, hchain⟩ := h rest hrest
    refine ⟨by simpa using hle, fun hlen => ?_⟩
    exact List.isChain_cons.mpr ⟨fun d _ h => absurd h hhex, hchain (by simpa using hlen)⟩

theorem bounded {s : Str} (hs : ∀ c ∈ s, c.toNat < 256) : Bounded s ∧ BoundedPast s := by
  induction s with
  | nil =>
      have hnil : Bounded [] := by
        intro bytes hlex
        obtain ⟨rfl, -⟩ := Prod.mk.inj (Option.some.inj hlex)
        exact ⟨le_refl _, fun _ => .nil⟩
      exact ⟨hnil, hnil.past (by simp)⟩
  | cons c s ih =>
      obtain ⟨hplain, hpast⟩ := ih fun d hd => hs d (by simp [hd])
      have hcons := hplain.cons (hs c (by simp)) hpast
      refine ⟨hcons, ?_⟩
      cases hc : hexDigit c with
      | none => exact hcons.past (by simpa using hc)
      | some d => exact hpast.digit hc

/-- The literal denotes one byte for each character exactly when no `\x` escape swallows
a digit. -/
theorem denotes_cString_iff {s : Str} (hs : ∀ c ∈ s, c.toNat < 256) :
    denotes (cString s) = some (oneByteEach s) ↔ s.IsChain Apart := by
  rw [denotes_cString]
  constructor
  · intro hlex
    split at hlex
    · rename_i bytes hbody
      obtain rfl := Option.some.inj hlex
      exact ((bounded hs).1 _ hbody).2 (by simp [oneByteEach])
    · exact absurd hlex (by simp)
  · intro happart
    rw [lex_body hs happart]

/-! ## The hash -/

theorem xor_byte (x : Nat) (b : UInt8) : x ≤ (x ^^^ b.toNat) + 255 ∧ x ^^^ b.toNat ≤ x + 255 := by
  have hb : b.toNat / 2 ^ 8 = 0 := Nat.div_eq_of_lt b.toNat_lt
  have hdiv : (x ^^^ b.toNat) / 2 ^ 8 = x / 2 ^ 8 := by
    rw [Nat.xor_div_two_pow, hb, Nat.xor_zero]
  constructor <;> omega

/-- A hash grows by the factor 33 with every byte, give or take a byte. -/
theorem hashLoop_bounds {lo hi h : Nat} (hlo : lo + 8 ≤ h) (hhi : h + 8 ≤ hi)
    (qbytes : List UInt8) :
    lo * 33 ^ qbytes.length + 8 ≤ hashLoop h qbytes ∧
      hashLoop h qbytes + 8 ≤ hi * 33 ^ qbytes.length := by
  induction qbytes generalizing lo hi h with
  | nil => simpa [hashLoop] using ⟨hlo, hhi⟩
  | cons b qbytes ih =>
      obtain ⟨hge, hle⟩ := xor_byte (h * 33) b
      have hnext : lo * 33 * 33 ^ qbytes.length + 8 ≤ hashLoop ((h * 33) ^^^ b.toNat) qbytes ∧
          hashLoop ((h * 33) ^^^ b.toNat) qbytes + 8 ≤ hi * 33 * 33 ^ qbytes.length :=
        ih (by omega) (by omega)
      rw [List.length_cons, Nat.pow_succ', ← Nat.mul_assoc, ← Nat.mul_assoc]
      exact hnext

theorem hash_bounds (qbytes : List UInt8) :
    5373 * 33 ^ qbytes.length + 8 ≤ hashLoop 5381 qbytes ∧
      hashLoop 5381 qbytes + 8 ≤ 5389 * 33 ^ qbytes.length :=
  hashLoop_bounds (by omega) (by omega) qbytes

theorem hashLoop_lt {qbytes qbytes' : List UInt8} (h : qbytes.length < qbytes'.length) :
    hashLoop 5381 qbytes < hashLoop 5381 qbytes' := by
  have hle := (hash_bounds qbytes).2
  have hge := (hash_bounds qbytes').1
  have hpow : 33 ^ (qbytes.length + 1) ≤ 33 ^ qbytes'.length := Nat.pow_le_pow_right (by omega) h
  rw [Nat.pow_succ] at hpow
  omega

theorem computeHash_eq (qbytes : List UInt8) {bytesHash : Nat} (h : bytesHash ≠ 0) :
    computeHash qbytes bytesHash =
      if hashLoop 5381 qbytes % 2 ^ (8 * bytesHash) = 0 then 1
      else hashLoop 5381 qbytes % 2 ^ (8 * bytesHash) := by
  unfold computeHash
  dsimp only
  rw [if_neg h, Nat.one_shiftLeft, Nat.and_two_pow_sub_one_eq_mod]

theorem computeHash_of_lt {qbytes : List UInt8} {bytesHash : Nat}
    (h : hashLoop 5381 qbytes < bytesHash) :
    computeHash qbytes bytesHash = hashLoop 5381 qbytes := by
  have hpos := (hash_bounds qbytes).1
  have hfits : hashLoop 5381 qbytes < 2 ^ (8 * bytesHash) :=
    calc hashLoop 5381 qbytes < bytesHash := h
      _ < 2 ^ bytesHash := Nat.lt_two_pow_self
      _ ≤ 2 ^ (8 * bytesHash) := Nat.pow_le_pow_right (by omega) (by omega)
  rw [computeHash_eq qbytes (by omega), Nat.mod_eq_of_lt hfits, if_neg (by omega)]

/-! ## UTF-8 -/

theorem utf8Size_eq_one_iff {c : Char} : c.utf8Size = 1 ↔ c.toNat < 0x80 := by
  have hle : c.val ≤ 0x7F ↔ c.toNat < 0x80 := by
    rw [UInt32.le_iff_toNat_le, Char.toNat, Nat.lt_succ_iff]
    rfl
  rw [← hle]
  constructor
  · intro h
    by_contra hc
    have hsize : c.utf8Size = if c.val ≤ 0x7F then 1
        else if c.val ≤ 0x7FF then 2 else if c.val ≤ 0xFFFF then 3 else 4 := rfl
    rw [hsize, if_neg hc] at h
    split_ifs at h <;> omega
  · intro h
    exact if_pos h

theorem encodeUtf8_of_ascii {s : Str} (hs : ∀ c ∈ s, c.toNat < 0x80) :
    encodeUtf8 s = oneByteEach s := by
  induction s with
  | nil => rfl
  | cons c s ih =>
      have hc := String.utf8EncodeChar_eq_singleton (utf8Size_eq_one_iff.mpr (hs c (by simp)))
      have hrest := ih fun d hd => hs d (by simp [hd])
      rw [encodeUtf8] at hrest ⊢
      rw [List.flatMap_cons, hc, hrest, oneByteEach, oneByteEach, List.map_cons]
      congr 1

theorem length_encodeUtf8_ge (s : Str) : s.length ≤ (encodeUtf8 s).length := by
  induction s with
  | nil => exact le_refl _
  | cons c s ih =>
      have hpos := c.utf8Size_pos
      rw [encodeUtf8] at ih ⊢
      rw [List.flatMap_cons, List.length_append, List.length_cons, String.length_utf8EncodeChar]
      omega

theorem length_encodeUtf8_gt {s : Str} (hs : ∃ c ∈ s, 0x80 ≤ c.toNat) :
    s.length < (encodeUtf8 s).length := by
  obtain ⟨c, hmem, hc⟩ := hs
  obtain ⟨a, b, rfl⟩ := List.append_of_mem hmem
  have ha := length_encodeUtf8_ge a
  have hb := length_encodeUtf8_ge b
  have hpos := c.utf8Size_pos
  have hne : c.utf8Size ≠ 1 := fun h => absurd (utf8Size_eq_one_iff.mp h) (by omega)
  rw [encodeUtf8] at ha hb ⊢
  rw [List.flatMap_append, List.flatMap_cons, List.length_append, List.length_append,
    List.length_append, List.length_cons, String.length_utf8EncodeChar]
  omega

/-! ## The line -/

/-- The line for a decoded string is consistent, for every width of the hash, exactly
when the string is ASCII and no `\x` escape of its literal swallows a digit. -/
theorem selfConsistent_iff {s : Str} (hs : ∀ c ∈ s, c.toNat < 256) :
    (∀ bytesHash, SelfConsistent bytesHash s) ↔
      (∀ c ∈ s, c.toNat < 0x80) ∧ s.IsChain Apart := by
  constructor
  · intro hline
    refine ⟨?_, ?_⟩
    · by_contra hascii
      push Not at hascii
      have hlt : hashLoop 5381 (oneByteEach s) < hashLoop 5381 (encodeUtf8 s) :=
        hashLoop_lt (by simpa [oneByteEach] using length_encodeUtf8_gt hascii)
      obtain ⟨bytes, -, -, hhash, rfl⟩ := hline (hashLoop 5381 (encodeUtf8 s) + 1)
      rw [computeHash_of_lt (by omega), computeHash_of_lt (by omega)] at hhash
      omega
    · obtain ⟨bytes, hlit, -, -, rfl⟩ := hline 0
      exact (denotes_cString_iff hs).mp hlit
  · rintro ⟨hascii, happart⟩ bytesHash
    refine ⟨oneByteEach s, (denotes_cString_iff hs).mpr happart, by simp [oneByteEach], ?_, rfl⟩
    rw [encodeUtf8_of_ascii hascii]

theorem selfConsistent_format : SelfConsistent 1 "{:#x}\n\x01 \\".toList :=
  (selfConsistent_iff (Escape.lt_of_all (by decide))).mpr
    ⟨Escape.lt_of_all (by decide), by decide⟩ 1

/-- What `MP_QSTR__0x01_a` stands for has two bytes; its literal is the one byte 0x1A. -/
theorem not_selfConsistent_hex :
    ¬SelfConsistent 1 (Escape.unescape Escape.testedNames "_0x01_a".toList) := by
  rintro ⟨bytes, hlit, hlen, -⟩
  have hbytes : denotes (cString (Escape.unescape Escape.testedNames "_0x01_a".toList)) =
      some [0x1A] := by decide
  obtain rfl := Option.some.inj (hlit.symm.trans hbytes)
  exact absurd hlen (by decide)

end FreedosMicroPython.Qstr.Literal
