import Mathlib.Algebra.Ring.Nat
import Mathlib.Data.List.Dedup
import Mathlib.Data.List.GetD
import Mathlib.Data.List.Sort
import FreedosMicroPython.Lib.Lines
/-!
# The texts of the package

`to_dos_text` and `crlf` of `release/mkfdpkg.py`: a text loses its typographic characters, gets the
line ends of DOS and is encoded in code page 437, or is refused.
-/

namespace FreedosMicroPython.Release

open FreedosMicroPython.Lib.Find FreedosMicroPython.Lib.Lines

/-! ## Strings -/

/-- A character of a Python string, surrogates included. -/
abbrev CodePoint := Fin 0x110000

instance neZero_codePoints : NeZero 0x110000 := ⟨by decide⟩

abbrev Str := List CodePoint

def str (s : String) : Str := s.toList.map fun c => Fin.ofNat 0x110000 c.toNat

def cr : CodePoint := 0x0D

def lf : CodePoint := 0x0A

inductive Exn where
  | systemExit (message : String) (about : List Str)
  | unicodeEncodeError
  | indexError
  | other (name : String)
  deriving DecidableEq

/-! ## Code page 437 -/

def cp437High : List CodePoint :=
  [0x00C7, 0x00FC, 0x00E9, 0x00E2, 0x00E4, 0x00E0, 0x00E5, 0x00E7,
    0x00EA, 0x00EB, 0x00E8, 0x00EF, 0x00EE, 0x00EC, 0x00C4, 0x00C5,
    0x00C9, 0x00E6, 0x00C6, 0x00F4, 0x00F6, 0x00F2, 0x00FB, 0x00F9,
    0x00FF, 0x00D6, 0x00DC, 0x00A2, 0x00A3, 0x00A5, 0x20A7, 0x0192,
    0x00E1, 0x00ED, 0x00F3, 0x00FA, 0x00F1, 0x00D1, 0x00AA, 0x00BA,
    0x00BF, 0x2310, 0x00AC, 0x00BD, 0x00BC, 0x00A1, 0x00AB, 0x00BB,
    0x2591, 0x2592, 0x2593, 0x2502, 0x2524, 0x2561, 0x2562, 0x2556,
    0x2555, 0x2563, 0x2551, 0x2557, 0x255D, 0x255C, 0x255B, 0x2510,
    0x2514, 0x2534, 0x252C, 0x251C, 0x2500, 0x253C, 0x255E, 0x255F,
    0x255A, 0x2554, 0x2569, 0x2566, 0x2560, 0x2550, 0x256C, 0x2567,
    0x2568, 0x2564, 0x2565, 0x2559, 0x2558, 0x2552, 0x2553, 0x256B,
    0x256A, 0x2518, 0x250C, 0x2588, 0x2584, 0x258C, 0x2590, 0x2580,
    0x03B1, 0x00DF, 0x0393, 0x03C0, 0x03A3, 0x03C3, 0x00B5, 0x03C4,
    0x03A6, 0x0398, 0x03A9, 0x03B4, 0x221E, 0x03C6, 0x03B5, 0x2229,
    0x2261, 0x00B1, 0x2265, 0x2264, 0x2320, 0x2321, 0x00F7, 0x2248,
    0x00B0, 0x2219, 0x00B7, 0x221A, 0x207F, 0x00B2, 0x25A0, 0x00A0]

def decodeByte (b : UInt8) : CodePoint :=
  if b.toNat < 128 then Fin.ofNat 0x110000 b.toNat else cp437High.getD (b.toNat - 128) 0

def decode (data : List UInt8) : Str := data.map decodeByte

def encodeChar (ch : CodePoint) : Option UInt8 :=
  if ch.val < 128 then some (UInt8.ofNat ch.val)
  else (cp437High.idxOf? ch).map fun i => UInt8.ofNat (128 + i)

def encode (text : Str) : Except Exn (List UInt8) :=
  match text.mapM encodeChar with
  | some data => .ok data
  | none => .error .unicodeEncodeError

/-! ## The texts -/

def translit : List (CodePoint × Str) :=
  [(0x2014, str "--"), (0x2013, str "-"), (0x2192, str "->"), (0x2190, str "<-"),
    (0x2018, str "'"), (0x2019, str "'"), (0x201C, str "\""), (0x201D, str "\""),
    (0x2026, str "..."), (0x00A0, str " "), (0x00B7, str "*"), (0x2022, str "*")]

def toDosText (text : Str) : Str := text.flatMap fun ch => (translit.lookup ch).getD [ch]

def encodable (ch : CodePoint) : Bool := (encode [ch]).isOk

def refusal : String :=
  "mkfdpkg: cp437 cannot represent {detail}; add them to _TRANSLIT rather than " ++
    "shipping '?' to users"

/-- `crlf`; the refusal is about every character that has no place, in their order. -/
def crlf (text : Str) : Except Exn (List UInt8) :=
  let text := replace [lf] [cr, lf] (replace [cr, lf] [lf] (toDosText text))
  let bad := (text.filter fun ch => !encodable ch).dedup.mergeSort (· ≤ ·)
  if bad ≠ [] then .error (.systemExit refusal (bad.map ([·])))
  else encode text

/-! ## What is promised -/

/-- The line ends are those of DOS, the lines and the question marks those of the text, and the
result is left as it is when it is handed in again. -/
structure DosText (text : Str) (data : List UInt8) : Prop where
  crPaired : CrPaired 0x0D 0x0A data
  lfPaired : LfPaired 0x0D 0x0A data
  lines : lines cr lf (decode data) = lines cr lf (toDosText text)
  marks : data.count 0x3F = text.count 0x3F
  again : crlf (decode data) = .ok data

def CleanOrRefused (text : Str) : Prop :=
  match crlf text with
  | .ok data => DosText text data
  | .error e => ∃ about, e = .systemExit refusal about

/-! ## The code page -/

theorem encodeChar_of_lt {ch : CodePoint} (h : ch.val < 128) :
    encodeChar ch = some (UInt8.ofNat ch.val) := if_pos h

theorem decodeByte_of_encodeChar {ch : CodePoint} {b : UInt8} (h : encodeChar ch = some b) :
    decodeByte b = ch := by
  by_cases hch : ch.val < 128
  · rw [encodeChar_of_lt hch] at h
    cases h
    have hb : (UInt8.ofNat ch.val).toNat = ch.val := Nat.mod_eq_of_lt (by omega)
    rw [decodeByte, hb, if_pos hch]
    exact Fin.ofNat_val_eq_self ch
  · rw [encodeChar, if_neg hch] at h
    obtain ⟨i, hi, rfl⟩ := Option.map_eq_some_iff.mp h
    obtain ⟨hlt, hget, -⟩ := List.idxOf?_eq_some_iff.mp hi
    have hlen : cp437High.length = 128 := rfl
    have hb : (UInt8.ofNat (128 + i)).toNat = 128 + i := Nat.mod_eq_of_lt (by omega)
    rw [decodeByte, hb, if_neg (by omega), Nat.add_sub_cancel_left, List.getD_eq_getElem _ _ hlt]
    exact hget

theorem decode_of_mapM {text : Str} {data : List UInt8}
    (h : text.mapM encodeChar = some data) : decode data = text := by
  induction text generalizing data with
  | nil =>
      cases h
      rfl
  | cons ch text ih =>
      rw [List.mapM_cons] at h
      obtain ⟨b, hb, h⟩ := Option.bind_eq_some_iff.mp h
      obtain ⟨rest, hrest, h⟩ := Option.bind_eq_some_iff.mp h
      cases h
      rw [decode, List.map_cons, decodeByte_of_encodeChar hb]
      exact congrArg (ch :: ·) (ih hrest)

theorem cp437High_ge {ch : CodePoint} (h : ch ∈ cp437High) : 128 ≤ ch.val := by
  have hall : (cp437High.all fun ch => 128 ≤ ch.val) = true := by decide
  exact of_decide_eq_true (List.all_eq_true.mp hall ch h)

theorem decodeByte_eq_iff {ch : CodePoint} (hch : ch.val < 128) (b : UInt8) :
    decodeByte b = ch ↔ b = UInt8.ofNat ch.val := by
  constructor
  · intro h
    by_cases hb : b.toNat < 128
    · rw [decodeByte, if_pos hb] at h
      have hval : b.toNat % 0x110000 = ch.val := congrArg Fin.val h
      rw [← hval, Nat.mod_eq_of_lt (by omega), UInt8.ofNat_toNat]
    · have hlt : b.toNat - 128 < cp437High.length := by
        have hb := b.toNat_lt
        have hlen : cp437High.length = 128 := rfl
        omega
      rw [decodeByte, if_neg hb, List.getD_eq_getElem _ _ hlt] at h
      have hge := cp437High_ge (List.getElem_mem hlt)
      rw [h] at hge
      omega
  · rintro rfl
    exact decodeByte_of_encodeChar (encodeChar_of_lt hch)

theorem encodable_iff {ch : CodePoint} : encodable ch = true ↔ ∃ b, encodeChar ch = some b := by
  rw [encodable, encode, List.mapM_cons, List.mapM_nil]
  cases hch : encodeChar ch with
  | none => exact iff_of_false Bool.false_ne_true fun ⟨_, h⟩ => nomatch h
  | some b => exact iff_of_true rfl ⟨b, rfl⟩

theorem mapM_of_encodable {text : Str} (h : ∀ ch ∈ text, encodable ch = true) :
    ∃ data, text.mapM encodeChar = some data := by
  induction text with
  | nil => exact ⟨[], rfl⟩
  | cons ch text ih =>
      obtain ⟨hch, htext⟩ := List.forall_mem_cons.mp h
      obtain ⟨b, hb⟩ := encodable_iff.mp hch
      obtain ⟨data, hdata⟩ := ih htext
      exact ⟨b :: data, by rw [List.mapM_cons, hb, hdata]; rfl⟩

theorem encodable_of_lt {ch : CodePoint} (h : ch.val < 128) : encodable ch = true :=
  encodable_iff.mpr ⟨_, encodeChar_of_lt h⟩

theorem encode_of_encodable {text : Str} (h : ∀ ch ∈ text, encodable ch = true) :
    ∃ data, encode text = .ok data ∧ decode data = text := by
  obtain ⟨data, hdata⟩ := mapM_of_encodable h
  exact ⟨data, by rw [encode, hdata], decode_of_mapM hdata⟩

/-! ## The transliteration -/

def watched (c : CodePoint) : Bool := c = cr || c = lf || c = 0x3F

def dosChar (ch : CodePoint) : Str := (translit.lookup ch).getD [ch]

theorem toDosText_cons (ch : CodePoint) (text : Str) :
    toDosText (ch :: text) = dosChar ch ++ toDosText text := List.flatMap_cons

/-- A replacement is not empty. Its characters are in ASCII and not replaced themselves, and
neither they nor the character they stand for is watched. -/
theorem translit_values {ch : CodePoint} {s : Str} (h : translit.lookup ch = some s) :
    s ≠ [] ∧ watched ch = false ∧
      ∀ c ∈ s, c.val < 128 ∧ watched c = false ∧ translit.lookup c = none := by
  have hall : (translit.all fun p => p.2 ≠ [] && !watched p.1 &&
      p.2.all fun c => c.val < 128 && !watched c && translit.lookup c = none) = true := by decide
  have hmem : (ch, s) ∈ translit := by
    obtain ⟨front, back, hsplit, -⟩ := List.lookup_eq_some_iff.mp h
    rw [hsplit]
    exact List.mem_append_right front List.mem_cons_self
  have hvalue := List.all_eq_true.mp hall (ch, s) hmem
  simpa [List.all_eq_true, and_assoc] using hvalue

theorem dosChar_of_none {ch : CodePoint} (h : translit.lookup ch = none) : dosChar ch = [ch] := by
  rw [dosChar, h]
  rfl

theorem dosChar_of_some {ch : CodePoint} {s : Str} (h : translit.lookup ch = some s) :
    dosChar ch = s := by
  rw [dosChar, h]
  rfl

theorem ne_of_not_watched {c : CodePoint} (h : watched c = false) :
    c ≠ cr ∧ c ≠ lf ∧ c ≠ 0x3F := by
  simpa [watched, and_assoc] using h

theorem lookup_of_mem_toDosText {c : CodePoint} {text : Str} (h : c ∈ toDosText text) :
    translit.lookup c = none := by
  obtain ⟨ch, -, hc⟩ := List.mem_flatMap.mp h
  cases hlookup : translit.lookup ch with
  | none =>
      rw [hlookup] at hc
      rw [List.mem_singleton.mp hc]
      exact hlookup
  | some s =>
      rw [hlookup] at hc
      exact ((translit_values hlookup).2.2 c hc).2.2

theorem toDosText_of_lookup {text : Str} (h : ∀ c ∈ text, translit.lookup c = none) :
    toDosText text = text := by
  induction text with
  | nil => rfl
  | cons ch text ih =>
      obtain ⟨hch, htext⟩ := List.forall_mem_cons.mp h
      rw [toDosText_cons, dosChar_of_none hch, ih htext]
      rfl

theorem head_toDosText (text : Str) :
    (toDosText text).head? = some lf ↔ text.head? = some lf := by
  cases text with
  | nil => rfl
  | cons ch text =>
      rw [toDosText_cons]
      cases hlookup : translit.lookup ch with
      | none =>
          rw [dosChar_of_none hlookup]
          rfl
      | some s =>
          obtain ⟨hne, hch, hs⟩ := translit_values hlookup
          obtain ⟨c, rest, rfl⟩ := List.exists_cons_of_ne_nil hne
          have hc := (hs c List.mem_cons_self).2.1
          rw [dosChar_of_some hlookup]
          simp [(ne_of_not_watched hc).2.1, (ne_of_not_watched hch).2.1]

theorem crPaired_toDosText (text : Str) :
    CrPaired cr lf (toDosText text) ↔ CrPaired cr lf text := by
  induction text with
  | nil => rfl
  | cons ch text ih =>
      rw [toDosText_cons, crPaired_cons]
      cases hlookup : translit.lookup ch with
      | none =>
          rw [dosChar_of_none hlookup, List.singleton_append, crPaired_cons, head_toDosText, ih]
      | some s =>
          obtain ⟨-, hch, hs⟩ := translit_values hlookup
          have hcr : cr ∉ s := fun h => (ne_of_not_watched (hs cr h).2.1).1 rfl
          rw [dosChar_of_some hlookup, crPaired_append hcr, ih]
          exact (and_iff_right fun h => absurd h (ne_of_not_watched hch).1).symm

theorem count_toDosText (text : Str) : (toDosText text).count 0x3F = text.count 0x3F := by
  induction text with
  | nil => rfl
  | cons ch text ih =>
      rw [toDosText_cons, List.count_append, ih]
      cases hlookup : translit.lookup ch with
      | none => rw [dosChar_of_none hlookup, ← List.count_append, List.singleton_append]
      | some s =>
          obtain ⟨-, hch, hs⟩ := translit_values hlookup
          have hnone : 0x3F ∉ s := fun h => (ne_of_not_watched (hs 0x3F h).2.1).2.2 rfl
          rw [dosChar_of_some hlookup, List.count_eq_zero_of_not_mem hnone, Nat.zero_add,
            List.count_cons_of_ne (ne_of_not_watched hch).2.2]

/-! ## The result -/

theorem cr_ne_lf : cr ≠ lf := by decide

/-- A character without a place is neither made nor lost with the line ends. -/
theorem mem_paired_iff {ch : CodePoint} (h : encodable ch = false) (text : Str) :
    ch ∈ pairEnds cr lf text ↔ ch ∈ text := by
  have hlt : ∀ {c : CodePoint}, c.val < 128 → ch ≠ c := by
    rintro c hc rfl
    rw [encodable_of_lt hc] at h
    cases h
  exact mem_pairEnds cr_ne_lf (hlt (by decide)) (hlt (by decide))

theorem crlf_eq (text : Str) :
    crlf text =
      let paired := pairEnds cr lf (toDosText text)
      let bad := (paired.filter fun ch => !encodable ch).dedup.mergeSort (· ≤ ·)
      if bad ≠ [] then .error (.systemExit refusal (bad.map ([·]))) else encode paired := by
  rw [crlf, replace_replace cr_ne_lf]

theorem crlf_refused {text : Str} {ch : CodePoint} (hmem : ch ∈ toDosText text)
    (h : encodable ch = false) : ∃ about, crlf text = .error (.systemExit refusal about) := by
  have hbad : ch ∈ ((pairEnds cr lf (toDosText text)).filter
      fun ch => !encodable ch).dedup.mergeSort (· ≤ ·) := by
    rw [List.mem_mergeSort, List.mem_dedup, List.mem_filter, mem_paired_iff h]
    exact ⟨hmem, by rw [h]; rfl⟩
  rw [crlf_eq]
  exact ⟨_, if_pos (List.ne_nil_of_mem hbad)⟩

theorem encodable_paired {text : Str} (h : ∀ ch ∈ toDosText text, encodable ch = true) :
    ∀ ch ∈ pairEnds cr lf (toDosText text), encodable ch = true := by
  intro ch hch
  by_contra hnot
  have hfalse := Bool.eq_false_iff.mpr hnot
  exact hnot (h ch ((mem_paired_iff hfalse _).mp hch))

theorem crlf_eq_encode {text : Str} (h : ∀ ch ∈ toDosText text, encodable ch = true) :
    crlf text = encode (pairEnds cr lf (toDosText text)) := by
  have hnone : (pairEnds cr lf (toDosText text)).filter (fun ch => !encodable ch) = [] :=
    List.filter_eq_nil_iff.mpr fun ch hch => by simp [encodable_paired h ch hch]
  rw [crlf_eq]
  simp only [hnone, List.dedup_nil, List.mergeSort_nil, ne_eq, not_true_eq_false, if_false]

theorem crlf_encoded {text : Str} (h : ∀ ch ∈ toDosText text, encodable ch = true) :
    ∃ data, crlf text = .ok data ∧ decode data = pairEnds cr lf (toDosText text) := by
  rw [crlf_eq_encode h]
  exact encode_of_encodable (encodable_paired h)

theorem count_decode (data : List UInt8) : (decode data).count 0x3F = data.count 0x3F := by
  rw [decode, List.count, List.countP_map, List.count]
  congr 1
  funext b
  have hb : decodeByte b = 0x3F ↔ b = 0x3F := decodeByte_eq_iff (by decide) b
  exact Bool.eq_iff_iff.mpr (by simpa using hb)

theorem crPaired_decode (data : List UInt8) :
    CrPaired cr lf (decode data) ↔ CrPaired 0x0D 0x0A data :=
  crPaired_map (decodeByte_eq_iff (by decide)) (decodeByte_eq_iff (by decide)) data

theorem lfPaired_decode (data : List UInt8) :
    LfPaired cr lf (decode data) ↔ LfPaired 0x0D 0x0A data :=
  lfPaired_map (decodeByte_eq_iff (by decide)) (decodeByte_eq_iff (by decide)) data

theorem crlf_again {text : Str} {data : List UInt8}
    (hcrlf : crlf text = .ok data) (hdecode : decode data = pairEnds cr lf (toDosText text)) :
    crlf (decode data) = .ok data := by
  have hplain : ∀ c ∈ pairEnds cr lf (toDosText text), translit.lookup c = none := by
    intro c hc
    by_cases hcr : c = cr
    · rw [hcr]
      decide
    · by_cases hlf : c = lf
      · rw [hlf]
        decide
      · exact lookup_of_mem_toDosText ((mem_pairEnds cr_ne_lf hcr hlf).mp hc)
  rw [hdecode, ← hcrlf, crlf_eq, crlf_eq, toDosText_of_lookup hplain, pairEnds_pairEnds cr_ne_lf]

/-- A result is what was promised exactly when no CR of the text stands alone. -/
theorem dosText_iff {text : Str} {data : List UInt8} (h : crlf text = .ok data) :
    DosText text data ↔ CrPaired cr lf text := by
  have henc : ∀ ch ∈ toDosText text, encodable ch = true := by
    intro ch hch
    by_contra hnot
    obtain ⟨about, hrefused⟩ := crlf_refused hch (Bool.eq_false_iff.mpr hnot)
    rw [hrefused] at h
    cases h
  obtain ⟨data', hdata', hdecode⟩ := crlf_encoded henc
  obtain rfl : data = data' := Except.ok.inj (h.symm.trans hdata')
  have hpaired : CrPaired 0x0D 0x0A data ↔ CrPaired cr lf text := by
    rw [← crPaired_decode, hdecode, crPaired_pairEnds cr_ne_lf, crPaired_toDosText]
  refine ⟨fun hdos => hpaired.mp hdos.crPaired, fun htext => ?_⟩
  constructor
  · exact hpaired.mpr htext
  · rw [← lfPaired_decode, hdecode]
    exact lfPaired_pairEnds cr_ne_lf _
  · rw [hdecode, lines_pairEnds cr_ne_lf]
  · rw [← count_decode, hdecode, count_pairEnds cr_ne_lf (by decide) (by decide),
      count_toDosText]
  · exact crlf_again h hdecode

/-- A text is packaged as promised exactly when it has a character that is refused, or an LF
follows every CR of it. -/
theorem crlf_clean_iff (text : Str) :
    CleanOrRefused text ↔
      (∃ ch ∈ toDosText text, encodable ch = false) ∨ CrPaired cr lf text := by
  by_cases hbad : ∃ ch ∈ toDosText text, encodable ch = false
  · obtain ⟨ch, hch, hfalse⟩ := hbad
    obtain ⟨about, hrefused⟩ := crlf_refused hch hfalse
    rw [CleanOrRefused, hrefused]
    exact iff_of_true ⟨about, rfl⟩ (.inl ⟨ch, hch, hfalse⟩)
  · have henc : ∀ ch ∈ toDosText text, encodable ch = true := by
      intro ch hch
      by_contra hnot
      exact hbad ⟨ch, hch, Bool.eq_false_iff.mpr hnot⟩
    obtain ⟨data, hdata, -⟩ := crlf_encoded henc
    rw [CleanOrRefused, hdata, or_iff_right hbad]
    exact dosText_iff hdata

/-- A CR that stands alone is left as it is. -/
theorem crlf_keeps_lone_cr :
    crlf (str "a\rb") = .ok [0x61, 0x0D, 0x62] ∧ ¬ CleanOrRefused (str "a\rb") := by
  have hcrlf : crlf (str "a\rb") = .ok [0x61, 0x0D, 0x62] := by
    rw [crlf_eq_encode (List.all_eq_true.mp (by decide))]
    rfl
  refine ⟨hcrlf, fun h => ?_⟩
  rw [CleanOrRefused, hcrlf] at h
  exact absurd (h.crPaired [0x61] [0x62] rfl) (by decide)

end FreedosMicroPython.Release
