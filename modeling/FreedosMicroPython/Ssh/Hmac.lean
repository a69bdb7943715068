import FreedosMicroPython.Lib.Sha1
import FreedosMicroPython.Ssh.Hash
/-!
# HMAC

The HMAC of `port/libssh2_axtls.c`, built on the hash contexts: `_hmac_init` keys
the inner hash, the updates feed it, and `_libssh2_hmac_final` wraps its digest.
`hmacRun_eq` says that the result is the HMAC of RFC 2104.
-/

namespace FreedosMicroPython.Ssh.Hmac

open FreedosMicroPython.Lib.Sha1
open FreedosMicroPython.OsPath (str)
open FreedosMicroPython.Ssh.Hash

variable (lib : Axtls)

def LIBSSH2_AXTLS_HMAC_MAX_KEY : Nat := 128

def blockSize : HashAlgo → Nat
  | .sha1 => 64
  | .sha256 => 64
  | .sha384 => 128
  | .sha512 => 128
  | .md5 => 64

structure HmacCtx (lib : Axtls) where
  algo : Int
  hashSize : Nat
  blockSize : Nat
  kOpad : List UInt8
  inner : HashCtx lib

def hmacCtxZero : HmacCtx lib :=
  ⟨0, 0, 0, List.replicate LIBSSH2_AXTLS_HMAC_MAX_KEY 0, ⟨0, lib.zero⟩⟩

/-- `_libssh2_hmac_ctx_init` and `_libssh2_hmac_cleanup`. -/
def libssh2HmacCtxInit : HmacCtx lib := hmacCtxZero lib

/-- The block `k_block` that `_hmac_init` makes of the key. -/
def keyBlock (a : HashAlgo) (algo : Int) (key : List UInt8) : Traced (List UInt8) := do
  let kBlock := List.replicate LIBSSH2_AXTLS_HMAC_MAX_KEY 0
  if (blockSize a : Int) < toInt key.length then
    let (_, kBlock) ← libssh2AxtlsHash lib key algo kBlock
    pure kBlock
  else pure (memcpy kBlock key)

def xorPad (n : Nat) (b : UInt8) (buf : List UInt8) : List UInt8 := (buf.take n).map (· ^^^ b)

def hmacInit (ctx : HmacCtx lib) (algo : Int) (key : List UInt8) : Traced (Bool × HmacCtx lib) :=
  match hashAlgo algo with
  | none => pure (false, ctx)
  | some a => do
      let kBlock ← keyBlock lib a algo key
      let kIpad := xorPad (blockSize a) 0x36 kBlock
      let ctx := { ctx with
        algo := algo
        blockSize := blockSize a
        hashSize := digestSize a
        kOpad := memcpy ctx.kOpad (xorPad (blockSize a) 0x5C kBlock) }
      let (ok, inner) ← libssh2AxtlsHashInit lib ctx.inner algo
      if !ok then return (false, { ctx with inner := inner })
      let (ok, inner) ← libssh2AxtlsHashUpdate lib inner kIpad
      return (ok, { ctx with inner := inner })

def libssh2HmacMd5Init (ctx : HmacCtx lib) (key : List UInt8) : Traced (Bool × HmacCtx lib) :=
  hmacInit lib ctx LIBSSH2_AXTLS_HASH_MD5 key

def libssh2HmacSha1Init (ctx : HmacCtx lib) (key : List UInt8) : Traced (Bool × HmacCtx lib) :=
  hmacInit lib ctx LIBSSH2_AXTLS_HASH_SHA1 key

def libssh2HmacSha256Init (ctx : HmacCtx lib) (key : List UInt8) : Traced (Bool × HmacCtx lib) :=
  hmacInit lib ctx LIBSSH2_AXTLS_HASH_SHA256 key

def libssh2HmacSha512Init (ctx : HmacCtx lib) (key : List UInt8) : Traced (Bool × HmacCtx lib) :=
  hmacInit lib ctx LIBSSH2_AXTLS_HASH_SHA512 key

def libssh2HmacUpdate (ctx : HmacCtx lib) (data : List UInt8) : Traced (Bool × HmacCtx lib) := do
  let (ok, inner) ← libssh2AxtlsHashUpdate lib ctx.inner data
  return (ok, { ctx with inner := inner })

def libssh2HmacFinal (ctx : HmacCtx lib) (out : List UInt8) :
    Traced (Bool × HmacCtx lib × List UInt8) := do
  let (ok, inner, innerHash) := libssh2AxtlsHashFinal lib ctx.inner lib.stack
  let ctx := { ctx with inner := inner }
  if !ok then return (false, ctx, out)
  let (ok, outer) ← libssh2AxtlsHashInit lib (stackCtx lib) ctx.algo
  if !ok then return (false, ctx, out)
  let (ok, outer) ← libssh2AxtlsHashUpdate lib outer (ctx.kOpad.take ctx.blockSize)
  if !ok then return (false, ctx, out)
  let (ok, outer) ← libssh2AxtlsHashUpdate lib outer (innerHash.take ctx.hashSize)
  if !ok then return (false, ctx, out)
  let (ok, _, out) := libssh2AxtlsHashFinal lib outer out
  return (ok, ctx, out)

def hmacUpdates : List (List UInt8) → HmacCtx lib → Traced (Bool × HmacCtx lib)
  | [], ctx => pure (true, ctx)
  | piece :: pieces, ctx => do
      let (ok, ctx) ← libssh2HmacUpdate lib ctx piece
      let (oks, ctx) ← hmacUpdates pieces ctx
      return (ok && oks, ctx)

/-- A key, the pieces of a message, and the digest at the start of `out`. -/
def hmacRun (ctx : HmacCtx lib) (algo : Int) (key : List UInt8) (pieces : List (List UInt8))
    (out : List UInt8) : Traced (Bool × List UInt8) := do
  let (keyed, ctx) ← hmacInit lib ctx algo key
  let (oks, ctx) ← hmacUpdates lib pieces ctx
  let (ok, _, out) ← libssh2HmacFinal lib ctx out
  return (keyed && oks && ok, out)

/-! ## The HMAC of RFC 2104 -/

/-- The key, or its hash if it is longer than a block, padded to a block. -/
def paddedKey (H : List UInt8 → List UInt8) (B : Nat) (key : List UInt8) : List UInt8 :=
  let k := if B < key.length then H key else key
  k ++ List.replicate (B - k.length) 0

def hmac (H : List UInt8 → List UInt8) (B : Nat) (key message : List UInt8) : List UInt8 :=
  H ((paddedKey H B key).map (· ^^^ 0x5C) ++ H ((paddedKey H B key).map (· ^^^ 0x36) ++ message))

theorem blockSize_le (a : HashAlgo) : blockSize a ≤ LIBSSH2_AXTLS_HMAC_MAX_KEY := by
  cases a <;> decide

theorem digestSize_le_blockSize (a : HashAlgo) : digestSize a ≤ blockSize a := by
  cases a <;> decide

theorem length_paddedKey {H : List UInt8 → List UInt8} {B : Nat} (key : List UInt8)
    (hH : (H key).length ≤ B) : (paddedKey H B key).length = B := by
  unfold paddedKey
  split <;> simp only [List.length_append, List.length_replicate] <;> omega

theorem take_memcpy {B n : Nat} {key : List UInt8} (hkey : key.length ≤ B) (hB : B ≤ n) :
    (memcpy (List.replicate n 0) key).take B = key ++ List.replicate (B - key.length) 0 := by
  rw [memcpy, List.drop_replicate, List.take_append, List.take_of_length_le hkey,
    List.take_replicate]
  congr 2
  omega

/-! ## Streaming a message through the context -/

section
variable {lib} {H : HashAlgo → List UInt8 → List UInt8} (law : HashLaw lib H)

def absorbed (lib : Axtls) (a : HashAlgo) (us : List (List UInt8)) : lib.Ctx :=
  us.foldl (fun c u => lib.update a c u u.length) (lib.init a)

theorem absorbed_snoc (a : HashAlgo) (us : List (List UInt8)) {u : List UInt8}
    (hu : u.length < 0x80000000) :
    lib.update a (absorbed lib a us) u (toInt u.length) = absorbed lib a (us ++ [u]) := by
  rw [toInt_of_lt hu, absorbed, absorbed, List.foldl_append]
  rfl

/-- The context after `_hmac_init` with a key and the updates `us`. -/
structure Keyed (H : HashAlgo → List UInt8 → List UInt8) (a : HashAlgo) (key : List UInt8)
    (us : List (List UInt8)) (ctx : HmacCtx lib) : Prop where
  algo : ctx.algo = a.number
  blockSize : ctx.blockSize = Hmac.blockSize a
  hashSize : ctx.hashSize = digestSize a
  opad : ctx.kOpad.take (Hmac.blockSize a) =
    (paddedKey (H a) (Hmac.blockSize a) key).map (· ^^^ 0x5C)
  innerAlgo : ctx.inner.algo = a.number
  inner : ctx.inner.storage =
    absorbed lib a ((paddedKey (H a) (Hmac.blockSize a) key).map (· ^^^ 0x36) :: us)

theorem absorbed_pair (a : HashAlgo) {u v : List UInt8} (hu : u.length < 0x80000000)
    (hv : v.length < 0x80000000) :
    lib.update a (lib.update a (lib.init a) u (toInt u.length)) v (toInt v.length) =
      absorbed lib a [u, v] :=
  calc
    _ = lib.update a (absorbed lib a [u]) v (toInt v.length) :=
        congrArg (fun c => lib.update a c v _) (absorbed_snoc a [] hu)
    _ = absorbed lib a [u, v] := absorbed_snoc a [u] hv

include law

theorem length_digest_le (a : HashAlgo) (m : List UInt8) : (H a m).length ≤ blockSize a := by
  rw [law.length]
  exact digestSize_le_blockSize a

theorem length_pad (a : HashAlgo) (key : List UInt8) (b : UInt8) :
    ((paddedKey (H a) (blockSize a) key).map (· ^^^ b)).length = blockSize a := by
  rw [List.length_map, length_paddedKey key (length_digest_le law a key)]

theorem length_pad_lt (a : HashAlgo) (key : List UInt8) (b : UInt8) :
    ((paddedKey (H a) (blockSize a) key).map (· ^^^ b)).length < 0x80000000 := by
  rw [length_pad law]
  exact Nat.lt_of_le_of_lt (blockSize_le a) (by decide)

theorem keyBlock_eq (a : HashAlgo) {key : List UInt8} (hkey : key.length < 0x80000000)
    (out : List UInt8) :
    (keyBlock lib a a.number key out).1.take (blockSize a) =
      paddedKey (H a) (blockSize a) key := by
  have hB := blockSize_le a
  unfold keyBlock paddedKey
  rw [toInt_of_lt hkey]
  by_cases hlong : blockSize a < key.length
  · have hdigest :
        (lib.final a (lib.update a (lib.init a) key (toInt key.length))).1 = H a key := by
      have h := law.streams a [key] (by simpa using hkey)
      rw [toInt_of_lt hkey]
      simpa using h
    rw [if_pos (by exact_mod_cast hlong), if_pos hlong]
    simp only [traced_bind, traced_pure, run_hash, hdigest]
    exact take_memcpy (length_digest_le law a key) hB
  · rw [if_neg (by exact_mod_cast hlong), if_neg hlong]
    exact take_memcpy (Nat.not_lt.mp hlong) hB

theorem keyed_hmacInit (ctx : HmacCtx lib) (a : HashAlgo) {key : List UInt8}
    (hkey : key.length < 0x80000000) (out : List UInt8) :
    (hmacInit lib ctx a.number key out).1.1 = true ∧
      Keyed H a key [] (hmacInit lib ctx a.number key out).1.2 := by
  have hblock := keyBlock_eq law a hkey out
  have hpad : ∀ b, (xorPad (blockSize a) b (keyBlock lib a a.number key out).1) =
      (paddedKey (H a) (blockSize a) key).map (· ^^^ b) := by
    intro b
    rw [xorPad, hblock]
  have hopad : ∀ buf : List UInt8, (memcpy buf ((paddedKey (H a) (blockSize a) key).map
      (· ^^^ 0x5C))).take (blockSize a) = (paddedKey (H a) (blockSize a) key).map (· ^^^ 0x5C) := by
    intro buf
    exact List.take_left' (length_pad law a key 0x5C)
  simp only [hmacInit, hashAlgo_number, traced_bind, run_hashInit, Bool.not_true,
    Bool.false_eq_true, if_false, traced_pure, hpad]
  rw [run_hashUpdate _ _ rfl]
  exact ⟨rfl, rfl, rfl, rfl, hopad _, rfl, absorbed_snoc a [] (length_pad_lt law a key 0x36)⟩

omit law in
theorem keyed_update {a : HashAlgo} {key data : List UInt8} {us : List (List UInt8)}
    {ctx : HmacCtx lib} (h : Keyed H a key us ctx) (hdata : data.length < 0x80000000)
    (out : List UInt8) :
    (libssh2HmacUpdate lib ctx data out).1.1 = true ∧
      Keyed H a key (us ++ [data]) (libssh2HmacUpdate lib ctx data out).1.2 := by
  simp only [libssh2HmacUpdate, traced_bind, traced_pure, run_hashUpdate _ _ h.innerAlgo]
  refine ⟨trivial, h.algo, h.blockSize, h.hashSize, h.opad, h.innerAlgo, ?_⟩
  simp only [h.inner]
  exact absorbed_snoc a _ hdata

theorem inner_digest {a : HashAlgo} {key : List UInt8} {us : List (List UInt8)}
    {ctx : HmacCtx lib} (h : Keyed H a key us ctx) (hus : ∀ u ∈ us, u.length < 0x80000000) :
    (lib.final a ctx.inner.storage).1 =
      H a ((paddedKey (H a) (blockSize a) key).map (· ^^^ 0x36) ++ us.flatten) := by
  rw [h.inner]
  apply law.streams a
  intro u hu
  cases hu with
  | head => exact length_pad_lt law a key 0x36
  | tail _ hu => exact hus u hu

theorem outer_digest (a : HashAlgo) (key : List UInt8) {digest : List UInt8}
    (hdigest : digest.length < 0x80000000) :
    (lib.final a (absorbed lib a [(paddedKey (H a) (blockSize a) key).map (· ^^^ 0x5C),
        digest])).1 =
      H a ((paddedKey (H a) (blockSize a) key).map (· ^^^ 0x5C) ++ digest) := by
  have hstream := law.streams a [(paddedKey (H a) (blockSize a) key).map (· ^^^ 0x5C), digest]
  rw [List.flatten_cons, List.flatten_cons, List.flatten_nil, List.append_nil] at hstream
  apply hstream
  intro u hu
  simp only [List.mem_cons, List.not_mem_nil, or_false] at hu
  rcases hu with rfl | rfl
  · exact length_pad_lt law a key 0x5C
  · exact hdigest

theorem hmacFinal_of_keyed {a : HashAlgo} {key : List UInt8} {us : List (List UInt8)}
    {ctx : HmacCtx lib} (h : Keyed H a key us ctx) (hus : ∀ u ∈ us, u.length < 0x80000000)
    (buf out : List UInt8) :
    ∃ ctx', (libssh2HmacFinal lib ctx buf out).1 =
      (true, ctx', memcpy buf (hmac (H a) (blockSize a) key us.flatten)) := by
  have hinner := inner_digest law h hus
  have hdigest : (memcpy lib.stack (lib.final a ctx.inner.storage).1).take ctx.hashSize =
      (lib.final a ctx.inner.storage).1 := by
    rw [h.hashSize, ← law.length a, ← hinner]
    exact List.take_left
  have hshort : (lib.final a ctx.inner.storage).1.length < 0x80000000 := by
    rw [hinner]
    exact Nat.lt_of_le_of_lt (length_digest_le law a _)
      (Nat.lt_of_le_of_lt (blockSize_le a) (by decide))
  have houter : (lib.final a (absorbed lib a [(paddedKey (H a) (blockSize a) key).map (· ^^^ 0x5C),
      (lib.final a ctx.inner.storage).1])).1 = hmac (H a) (blockSize a) key us.flatten :=
    calc
      _ = H a ((paddedKey (H a) (blockSize a) key).map (· ^^^ 0x5C) ++
            (lib.final a ctx.inner.storage).1) := outer_digest law a key hshort
      _ = hmac (H a) (blockSize a) key us.flatten := by
          rw [hinner, hmac]
  simp only [libssh2HmacFinal, hashFinal_number _ h.innerAlgo, Bool.not_true, Bool.false_eq_true,
    if_false, traced_bind, h.algo, run_hashInit, h.blockSize, h.opad, hdigest]
  rw [run_hashUpdate _ _ rfl]
  simp only [Bool.not_true, Bool.false_eq_true, if_false, traced_bind]
  rw [run_hashUpdate _ _ rfl]
  simp only [Bool.not_true, Bool.false_eq_true, if_false, traced_pure]
  rw [hashFinal_number _ rfl]
  simp only [absorbed_pair a (length_pad_lt law a key 0x5C) hshort, houter]
  exact ⟨_, rfl⟩

omit law in
theorem keyed_hmacUpdates {a : HashAlgo} {key : List UInt8} {pieces us : List (List UInt8)}
    {ctx : HmacCtx lib} (h : Keyed H a key us ctx)
    (hpieces : ∀ piece ∈ pieces, piece.length < 0x80000000) (out : List UInt8) :
    (hmacUpdates lib pieces ctx out).1.1 = true ∧
      Keyed H a key (us ++ pieces) (hmacUpdates lib pieces ctx out).1.2 := by
  induction pieces generalizing us ctx out with
  | nil =>
      rw [List.append_nil]
      exact ⟨rfl, h⟩
  | cons piece pieces ih =>
      obtain ⟨hok, hkeyed⟩ := keyed_update h (hpieces piece (by simp)) out
      obtain ⟨hoks, hrest⟩ := ih hkeyed (fun p hp => hpieces p (by simp [hp]))
        (libssh2HmacUpdate lib ctx piece out).2
      simp only [hmacUpdates, traced_bind, traced_pure, hok, hoks, Bool.and_self, true_and]
      rw [List.append_assoc] at hrest
      exact hrest

theorem hmacRun_eq (a : HashAlgo) {key : List UInt8} (hkey : key.length < 0x80000000)
    {pieces : List (List UInt8)} (hpieces : ∀ piece ∈ pieces, piece.length < 0x80000000)
    (ctx : HmacCtx lib) (buf out : List UInt8) :
    (hmacRun lib ctx a.number key pieces buf out).1 =
      (true, memcpy buf (hmac (H a) (blockSize a) key pieces.flatten)) := by
  obtain ⟨hinit, hkeyed⟩ := keyed_hmacInit law ctx a hkey out
  obtain ⟨hoks, hfed⟩ := keyed_hmacUpdates hkeyed hpieces (hmacInit lib ctx a.number key out).2
  obtain ⟨ctx', hfinal⟩ := hmacFinal_of_keyed law hfed (by simpa using hpieces) buf
    (hmacUpdates lib pieces (hmacInit lib ctx a.number key out).1.2
      (hmacInit lib ctx a.number key out).2).2
  simp only [hmacRun, traced_bind, traced_pure, hinit, hoks, hfinal, Bool.and_self,
    List.nil_append]

end

/-! ## A library that keeps what it is given -/

/-- Contexts that collect the first `n` bytes of each update and hash them at the end. -/
def buffered (H : HashAlgo → List UInt8 → List UInt8) : Axtls where
  Ctx := List UInt8
  init _ := []
  update _ ctx data n := ctx ++ data.take n.toNat
  final a ctx := (H a ctx, ctx)
  zero := []
  garbage := []
  stack := []

theorem foldl_append_take (us : List (List UInt8)) (ctx : List UInt8) :
    us.foldl (fun c u => c ++ u.take (u.length : Int).toNat) ctx = ctx ++ us.flatten := by
  induction us generalizing ctx with
  | nil => simp
  | cons u us ih => rw [List.foldl_cons, ih, Int.toNat_natCast, List.take_length, List.flatten_cons,
      List.append_assoc]

theorem buffered_law {H : HashAlgo → List UInt8 → List UInt8}
    (hlen : ∀ a m, (H a m).length = digestSize a) : HashLaw (buffered H) H where
  length := hlen
  streams a us _ := congrArg (H a) (foldl_append_take us [])

/-- SHA-1, and digests of zeros for the other algorithms. -/
def sha1Only : HashAlgo → List UInt8 → List UInt8
  | .sha1, m => sha1 m
  | a, _ => List.replicate (digestSize a) 0

theorem length_sha1Only (a : HashAlgo) (m : List UInt8) :
    (sha1Only a m).length = digestSize a := by
  cases a <;> simp [sha1Only, length_sha1, digestSize]

set_option maxRecDepth 20000 in
/-- The first HMAC-SHA-1 test vector, its message in two pieces. -/
theorem hmacRun_eq_sha1 :
    (hmacRun (buffered sha1Only) (hmacCtxZero _) LIBSSH2_AXTLS_HASH_SHA1 (List.replicate 20 0x0B)
      [str "Hi ", str "There"] (List.replicate 20 0) []).1 =
      (true, [0xB6, 0x17, 0x31, 0x86, 0x55, 0x05, 0x72, 0x64, 0xE2, 0x8B, 0xC0, 0xB6, 0xFB, 0x37,
        0x8C, 0x8E, 0xF1, 0x46, 0xBE, 0x00]) :=
  (hmacRun_eq (buffered_law length_sha1Only) .sha1 (by decide) (by decide) _ _ _).trans
    (by decide +kernel)

def lastByte (a : HashAlgo) (m : List UInt8) : List UInt8 :=
  List.replicate (digestSize a) (m.getLast?.getD 0)

/-- A piece of 2^31 zeros: its length is negative as an `int`. -/
def beyondInt : List UInt8 := List.replicate 0x80000000 0

theorem toInt_beyondInt : (toInt beyondInt.length).toNat = 0 := by
  rw [beyondInt, List.length_replicate]
  rfl

theorem lastByte_beyondInt (pad : List UInt8) :
    lastByte .sha1 (pad ++ beyondInt) = List.replicate 20 0 := by
  have hlast : beyondInt.getLast? = some 0 := by
    rw [beyondInt, List.getLast?_replicate]
    rfl
  rw [lastByte, List.getLast?_append, hlast]
  rfl

theorem hmacUpdate_beyondInt (ctx : HmacCtx (buffered lastByte))
    (halgo : ctx.inner.algo = HashAlgo.sha1.number) (out : List UInt8) :
    libssh2HmacUpdate (buffered lastByte) ctx beyondInt out =
      libssh2HmacUpdate (buffered lastByte) ctx [] out := by
  have hempty : (toInt ([] : List UInt8).length).toNat = 0 := rfl
  have hupdate : (buffered lastByte).update .sha1 ctx.inner.storage beyondInt
      (toInt beyondInt.length) =
      (buffered lastByte).update .sha1 ctx.inner.storage [] (toInt ([] : List UInt8).length) := by
    simp only [buffered, toInt_beyondInt, hempty, List.take_zero]
  have htrace : ∀ data, updateTrace ctx.inner.algo data = [] := by
    intro data
    rw [halgo]
    rfl
  simp only [libssh2HmacUpdate, traced_bind, traced_pure, run_hashUpdate _ _ halgo, hupdate, htrace]

theorem hmacUpdates_beyondInt (ctx : HmacCtx (buffered lastByte))
    (halgo : ctx.inner.algo = HashAlgo.sha1.number) (out : List UInt8) :
    hmacUpdates (buffered lastByte) [beyondInt] ctx out =
      hmacUpdates (buffered lastByte) [[]] ctx out := by
  simp only [hmacUpdates, traced_bind]
  rw [hmacUpdate_beyondInt ctx halgo]

theorem hmac_beyondInt :
    hmac (lastByte .sha1) (blockSize .sha1) [] [beyondInt].flatten = List.replicate 20 0 := by
  rw [List.flatten_singleton]
  unfold hmac
  rw [lastByte_beyondInt ((paddedKey (lastByte .sha1) (blockSize .sha1) []).map (· ^^^ 0x36))]
  decide

theorem hmacRun_beyondInt :
    HashLaw (buffered lastByte) lastByte ∧
      (hmacRun (buffered lastByte) (hmacCtxZero _) HashAlgo.sha1.number [] [beyondInt]
        (List.replicate 20 0) []).1 ≠
        (true, memcpy (List.replicate 20 0)
          (hmac (lastByte .sha1) (blockSize .sha1) [] [beyondInt].flatten)) := by
  have law := buffered_law (H := lastByte) (fun a m => List.length_replicate)
  refine ⟨law, ?_⟩
  have hrun : hmacRun (buffered lastByte) (hmacCtxZero _) HashAlgo.sha1.number [] [beyondInt]
      (List.replicate 20 0) [] =
      hmacRun (buffered lastByte) (hmacCtxZero _) HashAlgo.sha1.number [] [[]]
        (List.replicate 20 0) [] := by
    have hkeyed := keyed_hmacInit law (hmacCtxZero (buffered lastByte)) .sha1
      (by decide : ([] : List UInt8).length < 0x80000000) []
    simp only [hmacRun, traced_bind]
    rw [hmacUpdates_beyondInt _ hkeyed.2.innerAlgo]
  rw [hrun, hmac_beyondInt]
  decide

end FreedosMicroPython.Ssh.Hmac
