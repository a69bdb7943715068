import FreedosMicroPython.Lib.BigEndian
import FreedosMicroPython.Ssh.Kex
import Mathlib.Data.List.TakeWhile
/-!
# The big number shim

The `_libssh2_bn` of `port/libssh2_axtls.c` with its whole buffer: what a call leaves
behind the payload, and what `malloc` returns, is kept. `bn_canonical` relates every history
of calls to the number that they store.
-/

namespace FreedosMicroPython.Ssh.Bignum

open FreedosMicroPython.Lib.BigEndian

/-- `_bn_impl`: the first `len` of the `cap` bytes at `data`. -/
structure BnImpl where
  len : Nat
  cap : Nat
  data : List UInt8
  deriving DecidableEq, Repr

/-- What `malloc` returns for a size: nothing, or that many bytes with any contents. -/
abbrev Malloc := (size : Nat) → Option (Vector UInt8 size)

/-- `_libssh2_axtls_bn_init`, where `calloc` succeeds. -/
def libssh2AxtlsBnInit : BnImpl := ⟨0, 0, []⟩

def bnEnsure (malloc : Malloc) (b : BnImpl) (need : Nat) : Int × BnImpl :=
  if need ≤ b.cap then (0, b)
  else
    let newcap := if 0 < need then need else 1
    match malloc newcap with
    | none => (-1, b)
    | some nd => (0, { b with data := nd.toList, cap := newcap })

/-- `memcpy(b->data, bytes, n)` and `b->len = n`. -/
def BnImpl.store (b : BnImpl) (bytes : List UInt8) : BnImpl :=
  { b with data := bytes ++ b.data.drop bytes.length, len := bytes.length }

def wordByte (val i : UInt32) : UInt8 := ((val >>> (i * 8)) &&& 0xFF).toUInt8

def encodeByte (val : UInt32) (tmp : List UInt8) (i : UInt32) : List UInt8 :=
  if tmp = [] ∧ wordByte val i = 0 then tmp else tmp ++ [wordByte val i]

def encodeWord (val : UInt32) : List UInt8 := [3, 2, 1, 0].foldl (encodeByte val) []

def libssh2AxtlsBnSetWord (malloc : Malloc) (b : BnImpl) (val : UInt32) : Bool × BnImpl :=
  let tmp := encodeWord val
  let (rc, b) := bnEnsure malloc b tmp.length
  if rc < 0 then (false, { b with len := 0 })
  else (true, b.store tmp)

/-- `_libssh2_axtls_bn_from_bin`, of the first `len` bytes at `val`. -/
def libssh2AxtlsBnFromBin (malloc : Malloc) (b : BnImpl) (len : Int32) (val : List UInt8) :
    Int × BnImpl :=
  if len < 0 then (-1, b)
  else
    let val := (val.take len.toNatClampNeg).dropWhile (· = 0)
    let (rc, b) := bnEnsure malloc b val.length
    if rc < 0 then (-1, b) else (0, b.store val)

/-- `_libssh2_axtls_bn_to_bin`: the result, and what it writes to `val`. -/
def libssh2AxtlsBnToBin (b : BnImpl) : Nat × List UInt8 := (b.len, b.data.take b.len)

def libssh2AxtlsBnBytes (b : BnImpl) : Nat := b.len

def countBits (nBits : Int32) (msb : UInt8) : Int32 :=
  if msb = 0 then nBits else countBits (nBits + 1) (msb >>> 1)
termination_by msb.toNat
decreasing_by
  rename_i hmsb
  have hpos : 0 < msb.toNat := Nat.pos_of_ne_zero fun hzero => hmsb (UInt8.toNat_inj.mp hzero)
  rw [UInt8.toNat_shiftRight]
  exact Nat.div_lt_self hpos (by decide)

def libssh2AxtlsBnBits (b : BnImpl) : Int32 :=
  if b.len = 0 then 0
  else countBits (8 * (Int32.ofNat b.len - 1)) (b.data.headD 0)

/-! ## Histories -/

/-- A call that stores a number. The caller passes at least `len` bytes. -/
inductive Call where
  | setWord (val : UInt32)
  | fromBin (len : Int32) (val : List UInt8) (h : len.toNatClampNeg ≤ val.length)

def Call.run (malloc : Malloc) (b : BnImpl) : Call → Bool × BnImpl
  | .setWord val => libssh2AxtlsBnSetWord malloc b val
  | .fromBin len val _ =>
      let (rc, b) := libssh2AxtlsBnFromBin malloc b len val
      (rc = 0, b)

/-- The number that should be stored behind the call, where `v` was stored before it. -/
def Call.stores (v : Nat) : Call → Bool → Nat
  | .setWord val, true => val.toNat
  | .setWord _, false => 0
  | .fromBin len val _, true => ofBytes (val.take len.toNatClampNeg)
  | .fromBin _ _ _, false => v

/-- A history of calls, with any answers of `malloc`, leaves `b` where it should have
stored `v`. -/
inductive Reached : BnImpl → Nat → Prop
  | init : Reached libssh2AxtlsBnInit 0
  | call {b : BnImpl} {v : Nat} (h : Reached b v) (malloc : Malloc) (c : Call) :
      Reached (c.run malloc b).2 (c.stores v (c.run malloc b).1)

def BnImpl.payload (b : BnImpl) : List UInt8 := b.data.take b.len

/-- The payload fits and has no leading zero. -/
structure Canonical (b : BnImpl) : Prop where
  cap : b.data.length = b.cap
  len : b.len ≤ b.cap
  minimal : Minimal b.payload

/-! ## Storing -/

theorem bnEnsure_cases (malloc : Malloc) {b : BnImpl} (hcap : b.data.length = b.cap) (need : Nat) :
    bnEnsure malloc b need = (-1, b) ∨
      ∃ b', bnEnsure malloc b need = (0, b') ∧ b'.data.length = b'.cap ∧ need ≤ b'.cap := by
  unfold bnEnsure
  split
  · rename_i hfits
    exact .inr ⟨b, rfl, hcap, hfits⟩
  · dsimp only
    cases malloc (if 0 < need then need else 1) with
    | none => exact .inl rfl
    | some nd =>
        refine .inr ⟨_, rfl, Vector.length_toList, ?_⟩
        dsimp only
        split <;> omega

theorem canonical_store {b : BnImpl} {bytes : List UInt8} (hcap : b.data.length = b.cap)
    (hfits : bytes.length ≤ b.cap) (hmin : Minimal bytes) :
    Canonical (b.store bytes) ∧ (b.store bytes).payload = bytes := by
  have hpayload : (b.store bytes).payload = bytes := List.take_left
  refine ⟨⟨?_, hfits, hpayload.symm ▸ hmin⟩, hpayload⟩
  simp only [BnImpl.store, List.length_append, List.length_drop]
  omega

theorem canonical_cleared {b : BnImpl} (hcap : b.data.length = b.cap) :
    Canonical { b with len := 0 } ∧ { b with len := 0 }.payload = [] :=
  ⟨⟨hcap, Nat.zero_le _, nofun⟩, List.take_zero⟩

/-! ### Words -/

theorem encodeByte_foldl (val : UInt32) (is : List UInt32) (tmp : List UInt8) :
    is.foldl (encodeByte val) tmp =
      if tmp = [] then (is.map (wordByte val)).dropWhile (· = 0)
      else tmp ++ is.map (wordByte val) := by
  induction is generalizing tmp with
  | nil => cases tmp <;> simp
  | cons i is ih =>
      rw [List.foldl_cons, ih, encodeByte]
      by_cases htmp : tmp = []
      · by_cases hbyte : wordByte val i = 0 <;> simp [htmp, hbyte]
      · simp [htmp]

theorem encodeWord_eq (val : UInt32) :
    encodeWord val = (([3, 2, 1, 0] : List UInt32).map (wordByte val)).dropWhile (· = 0) :=
  encodeByte_foldl val _ []

theorem toNat_wordByte (val : UInt32) {i : UInt32} (hi : i < 4) :
    (wordByte val i).toNat = val.toNat / 2 ^ (8 * i.toNat) % 256 := by
  have hshift : (i * 8).toNat % 32 = 8 * i.toNat := by
    rw [UInt32.lt_iff_toNat_lt] at hi
    rw [UInt32.toNat_mul]
    simp only [UInt32.reduceToNat] at hi ⊢
    omega
  rw [wordByte, UInt32.toNat_toUInt8, UInt32.toNat_and, UInt32.toNat_shiftRight, hshift,
    Nat.shiftRight_eq_div_pow, show (0xFF : UInt32).toNat = 2 ^ 8 - 1 from rfl,
    Nat.and_two_pow_sub_one_eq_mod, Nat.mod_mod]

theorem ofBytes_encodeWord (val : UInt32) : ofBytes (encodeWord val) = val.toNat := by
  have hlt := val.toNat_lt
  have h₃ := toNat_wordByte val (i := 3) (by decide)
  have h₂ := toNat_wordByte val (i := 2) (by decide)
  have h₁ := toNat_wordByte val (i := 1) (by decide)
  have h₀ := toNat_wordByte val (i := 0) (by decide)
  simp only [UInt32.reduceToNat] at h₃ h₂ h₁ h₀
  rw [encodeWord_eq, ofBytes_dropWhile]
  simp only [List.map_cons, List.map_nil, ofBytes_cons, List.length_cons, List.length_nil,
    ofBytes_nil, h₃, h₂, h₁, h₀]
  omega

theorem minimal_encodeWord (val : UInt32) : Minimal (encodeWord val) := by
  rw [encodeWord_eq]
  exact minimal_dropWhile _

/-! ### Calls -/

theorem setWord_spec (malloc : Malloc) {b : BnImpl} (hb : Canonical b) (val : UInt32) :
    ∃ ok b', libssh2AxtlsBnSetWord malloc b val = (ok, b') ∧ Canonical b' ∧
      ofBytes b'.payload = if ok then val.toNat else 0 := by
  unfold libssh2AxtlsBnSetWord
  rcases bnEnsure_cases malloc hb.cap (encodeWord val).length with h | ⟨b₁, h, hcap, hfits⟩
  · obtain ⟨hcanon, hpayload⟩ := canonical_cleared hb.cap
    simp only [h]
    exact ⟨false, _, rfl, hcanon, by rw [hpayload]; rfl⟩
  · obtain ⟨hcanon, hpayload⟩ := canonical_store hcap hfits (minimal_encodeWord val)
    simp only [h]
    exact ⟨true, _, rfl, hcanon, by rw [hpayload]; exact ofBytes_encodeWord val⟩

theorem fromBin_spec (malloc : Malloc) {b : BnImpl} (hb : Canonical b) (len : Int32)
    (val : List UInt8) :
    libssh2AxtlsBnFromBin malloc b len val = (-1, b) ∨
      ∃ b', libssh2AxtlsBnFromBin malloc b len val = (0, b') ∧ Canonical b' ∧
        ofBytes b'.payload = ofBytes (val.take len.toNatClampNeg) := by
  unfold libssh2AxtlsBnFromBin
  split
  · exact .inl rfl
  · rw [← ofBytes_dropWhile (val.take len.toNatClampNeg)]
    have hmin := minimal_dropWhile (val.take len.toNatClampNeg)
    generalize (val.take len.toNatClampNeg).dropWhile (· = 0) = bytes at hmin ⊢
    rcases bnEnsure_cases malloc hb.cap bytes.length with h | ⟨b₁, h, hcap, hfits⟩
    · exact .inl (by simp only [h]; rfl)
    · obtain ⟨hcanon, hpayload⟩ := canonical_store hcap hfits hmin
      exact .inr ⟨_, by simp only [h]; rfl, hcanon, by rw [hpayload]⟩

theorem toNatClampNeg_ofNat {n : Nat} (hn : n < 2 ^ 31) : (Int32.ofNat n).toNatClampNeg = n := by
  rw [Int32.toNatClampNeg, Int32.toInt_ofNat_of_lt hn, Int.toNat_natCast]

theorem take_length {val : List UInt8} (hlen : val.length < 2 ^ 31) :
    ¬Int32.ofNat val.length < 0 ∧ val.take (Int32.ofNat val.length).toNatClampNeg = val := by
  constructor
  · rw [Int32.lt_iff_toInt_lt, Int32.toInt_ofNat_of_lt hlen, Int32.toInt_zero]
    omega
  · rw [toNatClampNeg_ofNat hlen, List.take_length]

/-- Every call keeps the form and stores what it should. -/
theorem run_spec (malloc : Malloc) {b : BnImpl} {v : Nat} (hb : Canonical b)
    (hv : ofBytes b.payload = v) (c : Call) :
    Canonical (c.run malloc b).2 ∧
      ofBytes (c.run malloc b).2.payload = c.stores v (c.run malloc b).1 := by
  cases c with
  | setWord val =>
      obtain ⟨ok, b', h, hcanon, hstored⟩ := setWord_spec malloc hb val
      simp only [Call.run, h]
      cases ok <;> exact ⟨hcanon, hstored⟩
  | fromBin len val hlen =>
      rcases fromBin_spec malloc hb len val with h | ⟨b', h, hcanon, hstored⟩
      · simp only [Call.run, h]
        exact ⟨hb, hv⟩
      · simp only [Call.run, h]
        exact ⟨hcanon, hstored⟩

theorem reached_spec {b : BnImpl} {v : Nat} (h : Reached b v) :
    Canonical b ∧ ofBytes b.payload = v := by
  induction h with
  | init => exact ⟨⟨rfl, Nat.le_refl _, nofun⟩, rfl⟩
  | call _ malloc c ih => exact run_spec malloc ih.1 ih.2 c

/-! ## Reading -/

theorem size_half {n : Nat} (hn : 0 < n) : Nat.size n = Nat.size (n / 2) + 1 := by
  have hbit : Nat.bit n.bodd n.div2 = n := Nat.bit_bodd_div2 n
  have hne : Nat.bit n.bodd n.div2 ≠ 0 := by omega
  have hsize := Nat.size_bit hne
  rwa [hbit, Nat.div2_val] at hsize

theorem countBits_eq (nBits : Int32) (msb : UInt8) :
    countBits nBits msb = nBits + Int32.ofNat (Nat.size msb.toNat) := by
  induction nBits, msb using countBits.induct with
  | case1 nBits =>
      rw [countBits, if_pos rfl]
      exact (Int32.add_zero nBits).symm
  | case2 nBits msb hmsb ih =>
      have hpos : 0 < msb.toNat := Nat.pos_of_ne_zero fun hzero => hmsb (UInt8.toNat_inj.mp hzero)
      have hhalf : (msb >>> 1).toNat = msb.toNat / 2 := UInt8.toNat_shiftRight ..
      rw [countBits, if_neg hmsb, ih, hhalf, size_half hpos, Int32.ofNat_add, Int32.add_assoc,
        Int32.add_comm 1]
      rfl

theorem bnBits_eq {b : BnImpl} (hb : Canonical b) :
    libssh2AxtlsBnBits b = Int32.ofNat (Nat.size (ofBytes b.payload)) := by
  have hlen : b.payload.length = b.len :=
    List.length_take_of_le (Nat.le_trans hb.len (Nat.le_of_eq hb.cap.symm))
  have hhead : b.payload.head? = if b.len = 0 then none else b.data.head? := List.head?_take
  have hmin := hb.minimal
  unfold libssh2AxtlsBnBits
  cases hpayload : b.payload with
  | nil =>
      rw [hpayload, List.length_nil] at hlen
      rw [if_pos hlen.symm]
      rfl
  | cons msb bs =>
      rw [hpayload] at hlen hhead hmin
      have hpos : b.len ≠ 0 := by
        rw [← hlen]
        exact Nat.succ_ne_zero _
      have hmsb : b.data.headD 0 = msb := by
        rw [if_neg hpos] at hhead
        rw [List.headD_eq_head?_getD, ← hhead]
        rfl
      have hlast : Int32.ofNat b.len - 1 = Int32.ofNat bs.length := by
        rw [← hlen, List.length_cons, Int32.ofNat_add]
        exact Int32.add_sub_cancel _ _
      rw [if_neg hpos, hmsb, hlast, countBits_eq, size_ofBytes (hmin msb rfl), Int32.ofNat_add,
        Int32.ofNat_mul]
      rfl

/-- Behind every history the number is stored in its shortest form, and its bits are
counted right unless they are more than an `int` can hold. -/
theorem bn_canonical {b : BnImpl} {v : Nat} (h : Reached b v) :
    Canonical b ∧ libssh2AxtlsBnToBin b = ((toBytes v).length, toBytes v) ∧
      libssh2AxtlsBnBytes b = (toBytes v).length ∧
      (Nat.size v < 2 ^ 31 → (libssh2AxtlsBnBits b).toInt = Nat.size v) := by
  obtain ⟨hb, rfl⟩ := reached_spec h
  have hlen : b.payload.length = b.len :=
    List.length_take_of_le (Nat.le_trans hb.len (Nat.le_of_eq hb.cap.symm))
  rw [toBytes_ofBytes hb.minimal, hlen, bnBits_eq hb]
  exact ⟨hb, rfl, rfl, Int32.toInt_ofNat_of_lt⟩

def granted : Malloc := fun size => some (Vector.replicate size 0xFF)

def refused : Malloc := fun _ => none

/-- A word of two bytes, and a longer number for which there is no room. -/
theorem bn_canonical_kept :
    Canonical ⟨2, 2, [1, 0]⟩ ∧
      libssh2AxtlsBnToBin ⟨2, 2, [1, 0]⟩ = ((toBytes 256).length, toBytes 256) ∧
      libssh2AxtlsBnBytes ⟨2, 2, [1, 0]⟩ = (toBytes 256).length ∧
      (Nat.size 256 < 2 ^ 31 → (libssh2AxtlsBnBits ⟨2, 2, [1, 0]⟩).toInt = Nat.size 256) :=
  bn_canonical (b := ⟨2, 2, [1, 0]⟩) (v := 256)
    ((Reached.init.call granted (.setWord 256)).call refused (.fromBin 3 [1, 2, 3] (by decide)))

def highBytes (n : Nat) : List UInt8 := List.replicate n 0x80

theorem size_highBytes (n : Nat) : Nat.size (ofBytes (highBytes (n + 1))) = 8 * (n + 1) := by
  have hsize : Nat.size (0x80 : UInt8).toNat = 8 := Nat.size_pow (n := 7)
  rw [highBytes, List.replicate_succ, size_ofBytes (by decide), List.length_replicate, hsize]
  rfl

theorem fromBin_highBytes {n : Nat} (hn : n < 2 ^ 31) :
    ∃ b, libssh2AxtlsBnFromBin granted libssh2AxtlsBnInit (Int32.ofNat n) (highBytes n) = (0, b) ∧
      Reached b (ofBytes (highBytes n)) := by
  have hlen : (highBytes n).length = n := List.length_replicate
  have hbound : (highBytes n).length < 2 ^ 31 := by
    rw [hlen]
    exact hn
  obtain ⟨hpos, hwhole⟩ := take_length hbound
  rw [hlen] at hpos hwhole
  have hstrip : (highBytes n).dropWhile (· = 0) = highBytes n :=
    List.dropWhile_eq_self_iff.mpr fun h => by simp [highBytes]
  obtain ⟨b, hb⟩ : ∃ b, libssh2AxtlsBnFromBin granted libssh2AxtlsBnInit (Int32.ofNat n)
      (highBytes n) = (0, b) := by
    simp only [libssh2AxtlsBnFromBin, if_neg hpos, hwhole, hstrip, bnEnsure, granted]
    split <;> exact ⟨_, rfl⟩
  have hreached := Reached.init.call granted
    (.fromBin (Int32.ofNat n) (highBytes n) (by rw [toNatClampNeg_ofNat hn, hlen]))
  simp only [Call.run, hb, decide_true, Call.stores, hwhole] at hreached
  exact ⟨b, hb, hreached⟩

/-- 2^28 bytes have more bits than an `int` can count. -/
theorem bnBits_wraps :
    ∃ b, libssh2AxtlsBnFromBin granted libssh2AxtlsBnInit 0x10000000 (highBytes 0x10000000) =
        (0, b) ∧
      Reached b (ofBytes (highBytes 0x10000000)) ∧
      (libssh2AxtlsBnBits b).toInt ≠ Nat.size (ofBytes (highBytes 0x10000000)) := by
  obtain ⟨b, hb, hreached⟩ := fromBin_highBytes (n := 0x10000000) (by decide)
  refine ⟨b, hb, hreached, ?_⟩
  have hlt := (libssh2AxtlsBnBits b).toInt_lt
  rw [show 0x10000000 = 0xFFFFFFF + 1 from rfl, size_highBytes]
  omega

/-! ## The number of the key exchange -/

def BnImpl.kexBn (b : BnImpl) : Kex.Bn := ⟨b.cap, b.payload⟩

theorem bnEnsure_kexBn (malloc : Malloc) {ok : Bool} (hok : ∀ size, (malloc size).isSome = ok)
    (b : BnImpl) (need : Nat) :
    Kex.bnEnsure ok b.kexBn need =
      ((bnEnsure malloc b need).1, ⟨(bnEnsure malloc b need).2.cap, b.payload⟩) := by
  unfold Kex.bnEnsure bnEnsure
  by_cases hfits : need ≤ b.cap
  · rw [if_pos hfits, if_pos (show need ≤ b.kexBn.cap from hfits)]
    rfl
  · rw [if_neg hfits, if_neg (show ¬need ≤ b.kexBn.cap from hfits), ← hok]
    dsimp only
    cases malloc (if 0 < need then need else 1) <;> rfl

theorem fromBin_kexBn (malloc : Malloc) {ok : Bool} (hok : ∀ size, (malloc size).isSome = ok)
    {b : BnImpl} (hb : Canonical b) {val : List UInt8} (hlen : val.length < 2 ^ 31) :
    Kex.libssh2AxtlsBnFromBin ok b.kexBn val =
      ((libssh2AxtlsBnFromBin malloc b (Int32.ofNat val.length) val).1,
        (libssh2AxtlsBnFromBin malloc b (Int32.ofNat val.length) val).2.kexBn) := by
  obtain ⟨hpos, hwhole⟩ := take_length hlen
  unfold Kex.libssh2AxtlsBnFromBin libssh2AxtlsBnFromBin
  rw [if_neg hpos, hwhole]
  generalize val.dropWhile (· = 0) = bytes
  simp only [bnEnsure_kexBn malloc hok]
  rcases bnEnsure_cases malloc hb.cap bytes.length with h | ⟨b', h, -, -⟩
  · simp only [h]
    rfl
  · have hpayload : (b'.store bytes).payload = bytes := List.take_left
    simp only [h]
    exact congrArg (fun data => ((0 : Int), Kex.Bn.mk b'.cap data)) hpayload.symm

end FreedosMicroPython.Ssh.Bignum
