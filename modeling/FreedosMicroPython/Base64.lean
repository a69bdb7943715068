import FreedosMicroPython.Lib.Sextets
import FreedosMicroPython.Urllib.Quote
/-!
# Base64

`base64_b64encode` and `base64_b64decode` of `port/base64_uc386dos.c`. The decoder shifts its
32-bit accumulator for every character and never clears it; `Holds` says which of its bits
are still needed. Both functions take any object with the buffer protocol.
-/

namespace FreedosMicroPython.Base64

open FreedosMicroPython.Lib.Sextets FreedosMicroPython.Urllib.Quote

/-! ## The functions of the module -/

def b64Alphabet : List UInt8 :=
  "ABCDEFGHIJKLMNOPQRSTUVWXYZabcdefghijklmnopqrstuvwxyz0123456789+/".toList.map Char.toUInt8

def letter (i : UInt32) : UInt8 := b64Alphabet.getD (i &&& 0x3F).toNat 0

/-- `b64_decode_char`; `none` is -1. -/
def b64DecodeChar (c : Nat) : Option Nat :=
  if 'A'.toNat ≤ c ∧ c ≤ 'Z'.toNat then some (c - 'A'.toNat)
  else if 'a'.toNat ≤ c ∧ c ≤ 'z'.toNat then some (c - 'a'.toNat + 26)
  else if '0'.toNat ≤ c ∧ c ≤ '9'.toNat then some (c - '0'.toNat + 52)
  else if c = '+'.toNat then some 62
  else if c = '/'.toNat then some 63
  else none

/-- What `base64_b64encode` stores, three bytes a turn and then the one or two that are left. -/
def encodeBytes : List UInt8 → List UInt8
  | a :: b :: c :: rest =>
      let v := a.toUInt32 <<< 16 ||| b.toUInt32 <<< 8 ||| c.toUInt32
      letter (v >>> 18) :: letter (v >>> 12) :: letter (v >>> 6) :: letter v :: encodeBytes rest
  | [a, b] =>
      let v := a.toUInt32 <<< 16 ||| b.toUInt32 <<< 8
      [letter (v >>> 18), letter (v >>> 12), letter (v >>> 6), '='.toUInt8]
  | [a] =>
      let v := a.toUInt32 <<< 16
      [letter (v >>> 18), letter (v >>> 12), '='.toUInt8, '='.toUInt8]
  | [] => []

def base64B64encode (data : Obj) : Except Raised (List UInt8) := do
  let src ← mpGetBufferRaise data
  return encodeBytes src

def isBlank (c : UInt8) : Bool :=
  c = '\r'.toUInt8 || c = '\n'.toUInt8 || c = ' '.toUInt8 || c = '\t'.toUInt8

def decodeLoop : List UInt8 → Int32 → Nat → List UInt8 → Except Raised (List UInt8)
  | [], _, _, vstr => .ok vstr
  | c :: src, bits, collected, vstr =>
      if isBlank c then decodeLoop src bits collected vstr
      else if c = '='.toUInt8 then .ok vstr
      else
        match b64DecodeChar c.toNat with
        | none => .error (.valueError "invalid base64 character")
        | some v =>
            let bits := bits <<< 6 ||| Int32.ofNat v
            let collected := collected + 6
            if 8 ≤ collected then
              let collected := collected - 8
              let byte := ((bits >>> Int32.ofNat collected) &&& 0xFF).toUInt32.toUInt8
              decodeLoop src bits collected (vstr ++ [byte])
            else decodeLoop src bits collected vstr

def base64B64decode (s : Obj) : Except Raised (List UInt8) := do
  let src ← mpGetBufferRaise s
  decodeLoop src 0 0 []

/-! ## The alphabet -/

theorem b64DecodeChar_letter :
    ∀ i < 64, b64DecodeChar (b64Alphabet.getD i 0).toNat = some i := by decide +kernel

theorem letter_plain :
    ∀ i < 64, isBlank (b64Alphabet.getD i 0) = false ∧ b64Alphabet.getD i 0 ≠ '='.toUInt8 := by
  decide +kernel

theorem b64Alphabet_codes :
    b64Alphabet.map UInt8.toNat =
      List.range' 'A'.toNat 26 ++ List.range' 'a'.toNat 26 ++ List.range' '0'.toNat 10 ++
        ['+'.toNat, '/'.toNat] := by decide +kernel

/-- The decoder knows the characters of the alphabet and no others. -/
theorem b64DecodeChar_none_iff (c : UInt8) : b64DecodeChar c.toNat = none ↔ c ∉ b64Alphabet := by
  have hcodes : c ∈ b64Alphabet ↔ c.toNat ∈ b64Alphabet.map UInt8.toNat := by
    rw [List.mem_map]
    constructor
    · exact fun h => ⟨c, h, rfl⟩
    · rintro ⟨d, hd, heq⟩
      rwa [← UInt8.toNat.inj heq]
  rw [hcodes, b64Alphabet_codes, b64DecodeChar]
  simp only [List.mem_append, List.mem_range'_1, List.mem_cons, List.not_mem_nil, or_false,
    Char.reduceToNat]
  split_ifs <;> simp only [false_iff, true_iff] <;> omega

/-! ## The encoder -/

def padding (n : Nat) : List UInt8 := List.replicate ((3 - n % 3) % 3) '='.toUInt8

theorem letter_eq (v : UInt32) : letter v = b64Alphabet.getD (v.toNat % 64) 0 := by
  rw [letter, UInt32.toNat_and, show (0x3F : UInt32).toNat = 2 ^ 6 - 1 from rfl,
    Nat.and_two_pow_sub_one_eq_mod]

theorem toNat_group (a b c : UInt8) :
    (a.toUInt32 <<< 16 ||| b.toUInt32 <<< 8 ||| c.toUInt32).toNat =
      a.toNat * 65536 + b.toNat * 256 + c.toNat := by
  have ha := a.toNat_lt
  have hb := b.toNat_lt
  have hc := c.toNat_lt
  have hlow : b.toNat <<< 8 < 2 ^ 16 := by
    rw [Nat.shiftLeft_eq]
    omega
  have hhigh : a.toNat <<< 16 ||| b.toNat <<< 8 = (a.toNat * 256 + b.toNat) <<< 8 := by
    rw [← Nat.shiftLeft_add_eq_or_of_lt hlow, Nat.shiftLeft_eq, Nat.shiftLeft_eq, Nat.shiftLeft_eq]
    omega
  have hmod : a.toNat <<< 16 % 2 ^ 32 = a.toNat <<< 16 ∧
      b.toNat <<< 8 % 2 ^ 32 = b.toNat <<< 8 := by
    rw [Nat.shiftLeft_eq, Nat.shiftLeft_eq]
    omega
  rw [UInt32.toNat_or, UInt32.toNat_or, UInt32.toNat_shiftLeft, UInt32.toNat_shiftLeft,
    UInt8.toNat_toUInt32, UInt8.toNat_toUInt32, UInt8.toNat_toUInt32,
    show (16 : UInt32).toNat % 32 = 16 from rfl, show (8 : UInt32).toNat % 32 = 8 from rfl,
    hmod.1, hmod.2, hhigh, ← Nat.shiftLeft_add_eq_or_of_lt hc, Nat.shiftLeft_eq]
  omega

theorem letter_group {v : UInt32} {a b c : UInt8}
    (hv : v.toNat = a.toNat * 65536 + b.toNat * 256 + c.toNat) :
    letter (v >>> 18) = b64Alphabet.getD (a.toNat / 4) 0 ∧
      letter (v >>> 12) = b64Alphabet.getD (a.toNat % 4 * 16 + b.toNat / 16) 0 ∧
      letter (v >>> 6) = b64Alphabet.getD (b.toNat % 16 * 4 + c.toNat / 64) 0 ∧
      letter v = b64Alphabet.getD (c.toNat % 64) 0 := by
  have ha := a.toNat_lt
  have hb := b.toNat_lt
  have hc := c.toNat_lt
  have hshift (k : UInt32) : (v >>> k).toNat = v.toNat / 2 ^ (k.toNat % 32) := by
    rw [UInt32.toNat_shiftRight, Nat.shiftRight_eq_div_pow]
  have h₁₈ := hshift 18
  have h₁₂ := hshift 12
  have h₆ := hshift 6
  simp only [UInt32.reduceToNat, Nat.reduceMod, Nat.reducePow] at h₁₈ h₁₂ h₆
  rw [letter_eq, letter_eq, letter_eq, letter_eq]
  refine ⟨?_, ?_, ?_, ?_⟩ <;> congr 1 <;> omega

theorem encodeBytes_eq (bs : List UInt8) :
    encodeBytes bs = (sextets bs).map (b64Alphabet.getD · 0) ++ padding bs.length := by
  have hzero : (0 : UInt8).toUInt32 = 0 := rfl
  induction bs using encodeBytes.induct with
  | case1 a b c rest ih =>
      obtain ⟨h₁, h₂, h₃, h₄⟩ := letter_group (toNat_group a b c)
      have hpad : padding (a :: b :: c :: rest).length = padding rest.length := by
        simp only [padding, List.length_cons, Nat.add_assoc, Nat.reduceAdd, Nat.add_mod_right]
      simp only [encodeBytes, sextets, h₁, h₂, h₃, h₄, ih, hpad, List.map_cons, List.cons_append]
  | case2 a b =>
      have hv := toNat_group a b 0
      rw [hzero, UInt32.or_zero] at hv
      obtain ⟨h₁, h₂, h₃, -⟩ := letter_group hv
      rw [UInt8.toNat_zero, Nat.zero_div, Nat.add_zero] at h₃
      simp only [encodeBytes, sextets, h₁, h₂, h₃]
      rfl
  | case3 a =>
      have hv := toNat_group a 0 0
      rw [hzero, UInt32.or_zero, UInt32.zero_shiftLeft, UInt32.or_zero] at hv
      obtain ⟨h₁, h₂, -, -⟩ := letter_group hv
      rw [UInt8.toNat_zero, Nat.zero_div, Nat.add_zero] at h₂
      simp only [encodeBytes, sextets, h₁, h₂]
      rfl
  | case4 => rfl

/-! ## The accumulator -/

/-- The accumulator still holds the `collected` bits that are left over, and their value. -/
def Holds (bits : Int32) (collected left : Nat) : Prop :=
  bits.toUInt32.toNat % 2 ^ collected = left

theorem toNat_shiftIn (bits : Int32) {v : Nat} (hv : v < 64) :
    (bits <<< 6 ||| Int32.ofNat v).toUInt32.toNat = (bits.toUInt32.toNat * 64 + v) % 2 ^ 32 := by
  have hlow : v < 2 ^ 6 := hv
  have hshift : (bits <<< 6).toUInt32 = bits.toUInt32 <<< 6 := rfl
  rw [Int32.toUInt32_or, hshift, Int32.toUInt32_ofNat', UInt32.toNat_or, UInt32.toNat_shiftLeft,
    UInt32.toNat_ofNat_of_lt' (Nat.lt_trans hlow (by decide)),
    show (6 : UInt32).toNat % 32 = 6 from rfl]
  generalize bits.toUInt32.toNat = n
  have hhigh : n <<< 6 % 2 ^ 32 = (n % 2 ^ 26) <<< 6 := by
    rw [Nat.shiftLeft_eq, Nat.shiftLeft_eq]
    omega
  rw [hhigh, ← Nat.shiftLeft_add_eq_or_of_lt hlow, Nat.shiftLeft_eq]
  omega

/-- The arithmetic shift of the accumulator is not seen in the eight bits that are taken. -/
theorem byte_eq (bits : Int32) {k : Nat} (hk : k ≤ 5) :
    ((bits >>> Int32.ofNat k) &&& 0xFF).toUInt32.toUInt8 =
      UInt8.ofNat (bits.toUInt32.toNat / 2 ^ k) := by
  have hamount : ∀ k ≤ 5, ((Int32.ofNat k).toBitVec.smod 32).toNat = k := by decide
  have hmask : ∀ i < 8, (255#32).getLsbD i = true := by decide
  apply UInt8.toBitVec_inj.mp
  apply BitVec.eq_of_getLsbD_eq
  intro i hi
  change (((bits.toBitVec.sshiftRight' ((Int32.ofNat k).toBitVec.smod 32)) &&& 255#32).setWidth
    8).getLsbD i = (BitVec.ofNat 8 (bits.toBitVec.toNat / 2 ^ k)).getLsbD i
  rw [BitVec.getLsbD_setWidth, BitVec.getLsbD_and, hmask i hi, BitVec.getLsbD_sshiftRight',
    hamount k hk, if_pos (by omega), BitVec.getLsbD_ofNat, Nat.testBit_div_two_pow, Nat.add_comm k,
    decide_eq_false (show ¬32 ≤ i by omega), Bool.not_false, Bool.true_and, Bool.and_true]
  rfl

theorem holds_shiftIn {bits : Int32} {collected left v : Nat} (hbits : Holds bits collected left)
    (hcollected : collected ≤ 7) (hv : v < 64) :
    Holds (bits <<< 6 ||| Int32.ofNat v) (collected + 6) (left * 64 + v) := by
  have hdvd : 2 ^ (collected + 6) ∣ 2 ^ 32 := Nat.pow_dvd_pow 2 (by omega)
  have hpow : 2 ^ (collected + 6) = 2 ^ collected * 64 := Nat.pow_add 2 collected 6
  rw [Holds] at hbits
  have hlt : left < 2 ^ collected := hbits ▸ Nat.mod_lt _ (Nat.two_pow_pos _)
  have hsplit := Nat.div_add_mod bits.toUInt32.toNat (2 ^ collected)
  rw [hbits] at hsplit
  have hlow : left * 64 + v < 2 ^ collected * 64 := by omega
  rw [Holds, toNat_shiftIn bits hv, Nat.mod_mod_of_dvd _ hdvd, hpow, ← hsplit]
  generalize bits.toUInt32.toNat / 2 ^ collected = q
  calc ((2 ^ collected * q + left) * 64 + v) % (2 ^ collected * 64)
      = (2 ^ collected * 64 * q + (left * 64 + v)) % (2 ^ collected * 64) := by
        congr 1
        rw [Nat.add_mul, Nat.mul_right_comm, Nat.add_assoc]
    _ = left * 64 + v := by rw [Nat.mul_add_mod, Nat.mod_eq_of_lt hlow]

theorem holds_byte {bits : Int32} {k left : Nat} (hbits : Holds bits (k + 8) left) (hk : k ≤ 5) :
    ((bits >>> Int32.ofNat k) &&& 0xFF).toUInt32.toUInt8 = UInt8.ofNat (left / 2 ^ k) ∧
      Holds bits k (left % 2 ^ k) := by
  rw [Holds] at hbits
  have hpow : 2 ^ (k + 8) = 2 ^ k * 256 := Nat.pow_add 2 k 8
  constructor
  · rw [byte_eq bits hk, ← hbits, hpow, Nat.mod_mul_right_div_self]
    apply UInt8.toNat.inj
    rw [UInt8.toNat_ofNat', UInt8.toNat_ofNat', Nat.mod_mod]
  · rw [Holds, ← hbits, hpow, Nat.mod_mul_right_mod]

/-! ## The decoder -/

/-- The letters of digits, as far as padding or the end, give the bytes of the digits. -/
theorem decodeLoop_letters {ds : List Nat} (hds : ∀ d ∈ ds, d < 64) {rest : List UInt8}
    (hrest : ∀ c ∈ rest.head?, c = '='.toUInt8) {bits : Int32} {collected left : Nat}
    (hbits : Holds bits collected left) (hcollected : collected ≤ 7) (vstr : List UInt8) :
    decodeLoop (ds.map (b64Alphabet.getD · 0) ++ rest) bits collected vstr =
      .ok (vstr ++ octets left collected ds) := by
  induction ds generalizing bits collected left vstr with
  | nil =>
      rw [List.map_nil, List.nil_append, octets, List.append_nil]
      cases rest with
      | nil => rfl
      | cons c rest =>
          rw [hrest c rfl]
          rfl
  | cons d ds ih =>
      have hd : d < 64 := hds d List.mem_cons_self
      have hds' : ∀ d ∈ ds, d < 64 := fun x hx => hds x (List.mem_cons_of_mem _ hx)
      obtain ⟨hblank, hpad⟩ := letter_plain d hd
      have hshift := holds_shiftIn hbits hcollected hd
      rw [List.map_cons, List.cons_append, decodeLoop, hblank, if_neg Bool.false_ne_true,
        if_neg hpad, b64DecodeChar_letter d hd, octets]
      dsimp only
      by_cases hfull : 8 ≤ collected + 6
      · obtain ⟨k, rfl⟩ : ∃ k, collected = k + 2 := ⟨collected - 2, by omega⟩
        obtain ⟨hbyte, hrest'⟩ := holds_byte hshift (by omega)
        have hcount : k + 2 + 6 - 8 = k := by omega
        rw [if_pos hfull, if_pos hfull, hcount, Nat.add_sub_cancel, hbyte,
          ih hds' hrest' (by omega), List.append_assoc]
        rfl
      · rw [if_neg hfull, if_neg hfull, ih hds' hshift (by omega)]

/-- `t` is `s` with characters inserted that the decoder passes over. -/
inductive Spaced : List UInt8 → List UInt8 → Prop
  | nil : Spaced [] []
  | keep {s t : List UInt8} (c : UInt8) (h : Spaced s t) : Spaced (c :: s) (c :: t)
  | insert {s t : List UInt8} {c : UInt8} (hc : isBlank c = true) (h : Spaced s t) :
      Spaced s (c :: t)

theorem decodeLoop_spaced {s t : List UInt8} (h : Spaced s t) (bits : Int32) (collected : Nat)
    (vstr : List UInt8) :
    decodeLoop t bits collected vstr = decodeLoop s bits collected vstr := by
  induction h generalizing bits collected vstr with
  | nil => rfl
  | keep c _ ih => simp only [decodeLoop, ih]
  | insert hc _ ih => rw [decodeLoop, if_pos hc, ih]

/-- Whatever is inserted into it, the encoding of a byte string decodes to that string. -/
theorem base64B64decode_encode {d e t : List UInt8} (he : base64B64encode (.str d) = .ok e)
    (ht : Spaced e t) : base64B64decode (.str t) = .ok d := by
  obtain rfl : encodeBytes d = e := Except.ok.inj he
  have hpad : ∀ c ∈ (padding d.length).head?, c = '='.toUInt8 := by
    intro c hc
    exact List.eq_of_mem_replicate (List.mem_of_mem_head? hc)
  have hzero : Holds 0 0 0 := rfl
  have hdecode := decodeLoop_letters (sextets_lt d) hpad hzero (Nat.zero_le 7) []
  rw [← encodeBytes_eq, octets_sextets, List.nil_append] at hdecode
  exact (decodeLoop_spaced ht 0 0 []).trans hdecode

/-- `Zm8=`, cut into two lines. -/
theorem base64B64decode_encode_lines :
    base64B64decode (.str [0x5A, 0x6D, 0x0D, 0x0A, 0x38, 0x3D]) = .ok [0x66, 0x6F] :=
  base64B64decode_encode (e := [0x5A, 0x6D, 0x38, 0x3D]) (by decide +kernel)
    (.keep _ (.keep _ (.insert (by decide) (.insert (by decide) (.keep _ (.keep _ .nil))))))

/-! ## What is accepted -/

def visible (src : List UInt8) : List UInt8 := src.filter fun c => !isBlank c

/-- Characters of the alphabet, then up to two `=` that make their number a multiple of
four, and nothing more. -/
def Complete (src : List UInt8) : Prop :=
  ∃ letters k, visible src = letters ++ List.replicate k '='.toUInt8 ∧
    (∀ c ∈ letters, c ∈ b64Alphabet) ∧ k ≤ 2 ∧ 4 ∣ letters.length + k

/-- The characters before the first `=`, and the rest from there on. -/
def dataPart (src : List UInt8) : List UInt8 := (visible src).takeWhile (· ≠ '='.toUInt8)

def padPart (src : List UInt8) : List UInt8 := (visible src).dropWhile (· ≠ '='.toUInt8)

def paddingFor (n : Nat) : Option (List UInt8) :=
  match n % 4 with
  | 0 => some []
  | 2 => some ['='.toUInt8, '='.toUInt8]
  | 3 => some ['='.toUInt8]
  | _ => none

theorem dataPart_blank {c : UInt8} (hc : isBlank c = true) (src : List UInt8) :
    dataPart (c :: src) = dataPart src := by
  rw [dataPart, visible, List.filter_cons_of_neg (by simp [hc])]
  rfl

theorem dataPart_pad (src : List UInt8) : dataPart ('='.toUInt8 :: src) = [] := by
  rw [dataPart, visible, List.filter_cons_of_pos (by decide),
    List.takeWhile_cons_of_neg (by simp)]

theorem dataPart_cons {c : UInt8} (hc : isBlank c = false) (hpad : c ≠ '='.toUInt8)
    (src : List UInt8) : dataPart (c :: src) = c :: dataPart src := by
  rw [dataPart, visible, List.filter_cons_of_pos (by simp [hc]),
    List.takeWhile_cons_of_pos (by simpa using hpad)]
  rfl

/-- The decoder looks at the characters before the first `=` one by one. -/
theorem decodeLoop_ok_iff (src : List UInt8) (bits : Int32) (collected : Nat)
    (vstr : List UInt8) :
    (∃ bs, decodeLoop src bits collected vstr = .ok bs) ↔ ∀ c ∈ dataPart src, c ∈ b64Alphabet := by
  induction src generalizing bits collected vstr with
  | nil => exact iff_of_true ⟨vstr, rfl⟩ nofun
  | cons c src ih =>
      rw [decodeLoop]
      cases hblank : isBlank c with
      | true =>
          rw [if_pos rfl, dataPart_blank hblank]
          exact ih bits collected vstr
      | false =>
          rw [if_neg Bool.false_ne_true]
          by_cases hpad : c = '='.toUInt8
          · rw [if_pos hpad, hpad, dataPart_pad]
            exact iff_of_true ⟨vstr, rfl⟩ nofun
          · rw [if_neg hpad, dataPart_cons hblank hpad, List.forall_mem_cons]
            have hletter := b64DecodeChar_none_iff c
            cases hdecode : b64DecodeChar c.toNat with
            | none =>
                have hno : c ∉ b64Alphabet := hletter.mp hdecode
                exact iff_of_false (fun ⟨_, h⟩ => nomatch h) fun h => hno h.1
            | some v =>
                have hyes : c ∈ b64Alphabet := by
                  by_contra hno
                  rw [hletter.mpr hno] at hdecode
                  exact nomatch hdecode
                dsimp only
                split
                · rw [ih]
                  exact (and_iff_right hyes).symm
                · rw [ih]
                  exact (and_iff_right hyes).symm

theorem pad_not_mem : '='.toUInt8 ∉ b64Alphabet := by decide +kernel

theorem complete_iff {src : List UInt8} (hdata : ∀ c ∈ dataPart src, c ∈ b64Alphabet) :
    Complete src ↔ paddingFor (dataPart src).length = some (padPart src) := by
  have hsplit : dataPart src ++ padPart src = visible src := List.takeWhile_append_dropWhile
  constructor
  · rintro ⟨letters, k, hvisible, hletters, hk, hdvd⟩
    have hplain : ∀ c ∈ letters, decide (c ≠ '='.toUInt8) = true := fun c hc =>
      decide_eq_true fun heq => pad_not_mem (heq ▸ hletters c hc)
    have hletters' : dataPart src = letters := by
      rw [dataPart, hvisible, List.takeWhile_append_of_pos hplain]
      cases k <;> simp [List.replicate_succ]
    have hpad : padPart src = List.replicate k '='.toUInt8 := by
      rw [← hsplit, hletters'] at hvisible
      exact List.append_cancel_left hvisible
    rw [hletters', hpad, paddingFor]
    obtain rfl | rfl | rfl : k = 0 ∨ k = 1 ∨ k = 2 := by omega
    · rw [show letters.length % 4 = 0 by omega]
      rfl
    · rw [show letters.length % 4 = 3 by omega]
      rfl
    · rw [show letters.length % 4 = 2 by omega]
      rfl
  · intro hpad
    unfold paddingFor at hpad
    split at hpad
    · rw [← Option.some.inj hpad] at hsplit
      exact ⟨dataPart src, 0, hsplit.symm, hdata, by decide, by omega⟩
    · rw [← Option.some.inj hpad] at hsplit
      exact ⟨dataPart src, 2, hsplit.symm, hdata, by decide, by omega⟩
    · rw [← Option.some.inj hpad] at hsplit
      exact ⟨dataPart src, 1, hsplit.symm, hdata, by decide, by omega⟩
    · exact nomatch hpad

/-- The decoder accepts complete encodings only, unless the padding is not the one that
its characters call for. -/
theorem base64B64decode_complete_iff {input : Obj} {src : List UInt8}
    (hinput : mpGetBufferRaise input = .ok src) :
    (∀ bs, base64B64decode input = .ok bs → Complete src) ↔
      (∃ c ∈ dataPart src, c ∉ b64Alphabet) ∨
        paddingFor (dataPart src).length = some (padPart src) := by
  have hdecode : base64B64decode input = decodeLoop src 0 0 [] := by
    rw [base64B64decode, hinput]
    rfl
  have haccept := decodeLoop_ok_iff src 0 0 []
  rw [hdecode]
  by_cases hdata : ∀ c ∈ dataPart src, c ∈ b64Alphabet
  · obtain ⟨bs, hbs⟩ := haccept.mpr hdata
    rw [← complete_iff hdata]
    constructor
    · exact fun h => .inr (h bs hbs)
    · rintro (⟨c, hc, hno⟩ | hcomplete)
      · exact absurd (hdata c hc) hno
      · exact fun _ _ => hcomplete
  · apply iff_of_true
    · exact fun bs hbs => absurd (haccept.mp ⟨bs, hbs⟩) hdata
    · left
      by_contra hnone
      exact hdata fun c hc => by_contra fun hno => hnone ⟨c, hc, hno⟩

def truncated : List UInt8 := [0x5A, 0x6D, 0x39]

theorem base64B64decode_complete_iff_truncated :
    (∀ bs, base64B64decode (.str truncated) = .ok bs → Complete truncated) ↔
      (∃ c ∈ dataPart truncated, c ∉ b64Alphabet) ∨
        paddingFor (dataPart truncated).length = some (padPart truncated) :=
  base64B64decode_complete_iff rfl

theorem base64B64decode_truncated :
    ¬ ∀ bs, base64B64decode (.str truncated) = .ok bs → Complete truncated := by
  intro h
  obtain ⟨letters, k, hvisible, -, hk, hdvd⟩ := h [0x66, 0x6F] (by decide +kernel)
  have hlength := congrArg List.length hvisible
  rw [List.length_append, List.length_replicate, show (visible truncated).length = 3 from rfl]
    at hlength
  omega

end FreedosMicroPython.Base64
