import FreedosMicroPython.Lib.Disclosure
import FreedosMicroPython.Ssh.Cipher
import FreedosMicroPython.Ssh.Hmac
import FreedosMicroPython.Ssh.Kex
/-!
# What the SSH backend writes to the console

Runs of the hash, HMAC, cipher and key exchange functions of
`port/libssh2_axtls.c`. `console_eq_iff` compares two runs whose public inputs
agree: file descriptor 1 gets the same bytes exactly if the two runs agree on the
bytes that the `[hu:…]` and `[K:…]` markers show. `[hu:…]` is meant for the exchange
hash, and is printed for every SHA-256 context, those of an HMAC among them.
-/

namespace FreedosMicroPython.Ssh.Console

open FreedosMicroPython.Lib.Disclosure
open FreedosMicroPython.OsPath (str)
open FreedosMicroPython.Ssh.Hash
open FreedosMicroPython.Ssh.Hmac
open FreedosMicroPython.Ssh.Cipher
open FreedosMicroPython.Ssh.Kex

variable (lib : Axtls) (aes : Aes) (curve : Curve)

/-! ## Runs -/

structure World where
  hash : Nat → HashCtx lib
  hmac : Nat → HmacCtx lib
  cipher : Nat → CipherCtx aes
  bn : Nat → Option Bn

/-- A call of a function of the backend. The results of an allocation and the random
bytes of a call are written as its arguments. -/
inductive Call where
  | hashInit (c : Nat) (algo : Int)
  | hashUpdate (c : Nat) (data : List UInt8)
  | hashFinal (c : Nat)
  | hash (data : List UInt8) (algo : Int)
  | hmacCtxInit (c : Nat)
  | hmacInit (c : Nat) (algo : Int) (key : List UInt8)
  | hmacUpdate (c : Nat) (data : List UInt8)
  | hmacFinal (c : Nat)
  | cipherInit (c : Nat) (algo : Int) (iv : Vector UInt8 16) (secret : List UInt8) (encrypt : Bool)
  | cipherCrypt (c : Nat) (algo : Int) (encrypt : Bool) (data : List UInt8)
  | cipherDtor (c : Nat)
  | curve25519New (allocPriv allocPub : Bool) (random : Vector UInt8 32)
  | curve25519GenK (k : Nat) (malloc : Bool) (privateKey serverPublicKey : Vector UInt8 32)

variable {lib aes}

def World.setHash (w : World lib aes) (c : Nat) (ctx : HashCtx lib) : World lib aes :=
  { w with hash := Function.update w.hash c ctx }

def World.setHmac (w : World lib aes) (c : Nat) (ctx : HmacCtx lib) : World lib aes :=
  { w with hmac := Function.update w.hmac c ctx }

def World.setCipher (w : World lib aes) (c : Nat) (ctx : CipherCtx aes) : World lib aes :=
  { w with cipher := Function.update w.cipher c ctx }

def World.setBn (w : World lib aes) (k : Nat) (bn : Option Bn) : World lib aes :=
  { w with bn := Function.update w.bn k bn }

/-- What a call does. Digests, ciphertexts and keys go to the caller, who may put them
into later calls. -/
def step (w : World lib aes) : Call → Traced (World lib aes)
  | .hashInit c algo => do
      let (_, ctx) ← libssh2AxtlsHashInit lib (w.hash c) algo
      return w.setHash c ctx
  | .hashUpdate c data => do
      let (_, ctx) ← libssh2AxtlsHashUpdate lib (w.hash c) data
      return w.setHash c ctx
  | .hashFinal c => do
      let (_, ctx, _) := libssh2AxtlsHashFinal lib (w.hash c) []
      return w.setHash c ctx
  | .hash data algo => do
      let _ ← libssh2AxtlsHash lib data algo []
      return w
  | .hmacCtxInit c => return w.setHmac c (libssh2HmacCtxInit lib)
  | .hmacInit c algo key => do
      let (_, ctx) ← hmacInit lib (w.hmac c) algo key
      return w.setHmac c ctx
  | .hmacUpdate c data => do
      let (_, ctx) ← libssh2HmacUpdate lib (w.hmac c) data
      return w.setHmac c ctx
  | .hmacFinal c => do
      let (_, ctx, _) ← libssh2HmacFinal lib (w.hmac c) []
      return w.setHmac c ctx
  | .cipherInit c algo iv secret encrypt => do
      let (_, ctx) := libssh2AxtlsCipherInit aes (w.cipher c) algo iv secret encrypt
      return w.setCipher c ctx
  | .cipherCrypt c algo encrypt data => do
      let (_, _, ctx) := libssh2AxtlsCipherCrypt aes (w.cipher c) algo encrypt data
      return w.setCipher c ctx
  | .cipherDtor c => return w.setCipher c (libssh2AxtlsCipherDtor aes)
  | .curve25519New allocPriv allocPub random => do
      let _ ← libssh2AxtlsCurve25519New curve allocPriv allocPub random
      return w
  | .curve25519GenK k malloc privateKey serverPublicKey => do
      let (_, bn) ← libssh2AxtlsCurve25519GenK curve malloc (w.bn k) privateKey serverPublicKey
      return w.setBn k bn

/-! ## Public inputs and disclosed bytes -/

/-- Two calls of one function with the same public inputs: the context, the algorithm,
lengths, flags, the public key and which allocations succeed. -/
inductive SamePublic : Call → Call → Prop
  | hashInit (c : Nat) (algo : Int) : SamePublic (.hashInit c algo) (.hashInit c algo)
  | hashUpdate (c : Nat) {data data' : List UInt8} (hlen : data.length = data'.length) :
      SamePublic (.hashUpdate c data) (.hashUpdate c data')
  | hashFinal (c : Nat) : SamePublic (.hashFinal c) (.hashFinal c)
  | hash {data data' : List UInt8} (hlen : data.length = data'.length) (algo : Int) :
      SamePublic (.hash data algo) (.hash data' algo)
  | hmacCtxInit (c : Nat) : SamePublic (.hmacCtxInit c) (.hmacCtxInit c)
  | hmacInit (c : Nat) (algo : Int) {key key' : List UInt8} (hlen : key.length = key'.length) :
      SamePublic (.hmacInit c algo key) (.hmacInit c algo key')
  | hmacUpdate (c : Nat) {data data' : List UInt8} (hlen : data.length = data'.length) :
      SamePublic (.hmacUpdate c data) (.hmacUpdate c data')
  | hmacFinal (c : Nat) : SamePublic (.hmacFinal c) (.hmacFinal c)
  | cipherInit (c : Nat) (algo : Int) (iv iv' : Vector UInt8 16) {secret secret' : List UInt8}
      (hlen : secret.length = secret'.length) (encrypt : Bool) :
      SamePublic (.cipherInit c algo iv secret encrypt) (.cipherInit c algo iv' secret' encrypt)
  | cipherCrypt (c : Nat) (algo : Int) (encrypt : Bool) {data data' : List UInt8}
      (hlen : data.length = data'.length) :
      SamePublic (.cipherCrypt c algo encrypt data) (.cipherCrypt c algo encrypt data')
  | cipherDtor (c : Nat) : SamePublic (.cipherDtor c) (.cipherDtor c)
  | curve25519New (allocPriv allocPub : Bool) (random random' : Vector UInt8 32) :
      SamePublic (.curve25519New allocPriv allocPub random)
        (.curve25519New allocPriv allocPub random')
  | curve25519GenK (k : Nat) (malloc : Bool)
      (privateKey privateKey' serverPublicKey : Vector UInt8 32) :
      SamePublic (.curve25519GenK k malloc privateKey serverPublicKey)
        (.curve25519GenK k malloc privateKey' serverPublicKey)

/-- Two HMAC contexts that were made with the same public inputs. -/
structure HmacCtx.Agree (ctx ctx' : HmacCtx lib) : Prop where
  algo : ctx.algo = ctx'.algo
  blockSize : ctx.blockSize = ctx'.blockSize
  hashSize : ctx.hashSize = ctx'.hashSize
  kOpad : ctx.kOpad.length = ctx'.kOpad.length
  inner : ctx.inner.algo = ctx'.inner.algo

structure World.Agree (w w' : World lib aes) : Prop where
  hash : ∀ c, (w.hash c).algo = (w'.hash c).algo
  hmac : ∀ c, HmacCtx.Agree (w.hmac c) (w'.hmac c)
  bn : ∀ k, (w.bn k).isSome = (w'.bn k).isSome

def firstByte (algo : Int) (data : List UInt8) : List UInt8 :=
  if algo = LIBSSH2_AXTLS_HASH_SHA256 then data.take 1 else []

/-- What `_hmac_init` shows of a key: the first byte of a key that is hashed, and the
first byte of the inner pad. -/
def keyDisclosed (lib : Axtls) (algo : Int) (key : List UInt8) : List (List UInt8) :=
  match hashAlgo algo with
  | none => []
  | some a =>
      [if (blockSize a : Int) < toInt key.length then firstByte algo key else [],
        firstByte algo (xorPad (blockSize a) 0x36 (keyBlock lib a algo key []).1)]

/-- What `_libssh2_hmac_final` shows: the first bytes of the outer pad and of the inner
digest. -/
def digestDisclosed (ctx : HmacCtx lib) : List (List UInt8) :=
  let (ok, _, innerHash) := libssh2AxtlsHashFinal lib ctx.inner lib.stack
  if ok then [firstByte ctx.algo (ctx.kOpad.take ctx.blockSize),
    firstByte ctx.algo (innerHash.take ctx.hashSize)] else []

/-- What `_libssh2_axtls_curve25519_gen_k` shows of the shared secret: its first 8 bytes,
or that there is none. -/
def secretDisclosed (privateKey serverPublicKey : Vector UInt8 32) : List UInt8 :=
  let (rc, secret) := curve.scalarmult privateKey serverPublicKey
  if rc ≠ 0 then [] else secret.toList.take 8

def disclosed (w : World lib aes) : Call → List (List UInt8)
  | .hashUpdate c data => [firstByte (w.hash c).algo data]
  | .hash data algo => [firstByte algo data]
  | .hmacInit _ algo key => keyDisclosed lib algo key
  | .hmacUpdate c data => [firstByte (w.hmac c).inner.algo data]
  | .hmacFinal c => digestDisclosed (w.hmac c)
  | .curve25519GenK k _ privateKey serverPublicKey =>
      if (w.bn k).isSome then [secretDisclosed curve privateKey serverPublicKey] else []
  | _ => []

/-! ## The hash functions -/

theorem hx_inj {n m : Nat} (hn : n < 16) (hm : m < 16) (h : hx n = hx m) : n = m := by
  have hall : ∀ n < 16, ∀ m < 16, hx n = hx m → n = m := by decide
  exact hall n hn m hm h

theorem hexByte_inj {b b' : UInt8} (h : hexByte b = hexByte b') : b = b' := by
  have hdigit : ∀ n : Nat, n &&& 0xF = n % 16 := fun n => Nat.and_two_pow_sub_one_eq_mod n 4
  simp only [hexByte, List.cons.injEq, and_true, hdigit, Nat.shiftRight_eq_div_pow] at h
  have hhigh := hx_inj (Nat.mod_lt _ (by decide)) (Nat.mod_lt _ (by decide)) h.1
  have hlow := hx_inj (Nat.mod_lt _ (by decide)) (Nat.mod_lt _ (by decide)) h.2
  have hb := b.toNat_lt
  have hb' := b'.toNat_lt
  apply UInt8.toNat.inj
  omega

@[simp] theorem length_hexByte (b : UInt8) : (hexByte b).length = 2 := rfl

theorem length_updateDump (data : List UInt8) : (updateDump data).length = 12 := by
  cases data <;> rfl

theorem updateDump_eq_iff {data data' : List UInt8} (hlen : data.length = data'.length) :
    updateDump data = updateDump data' ↔ data.take 1 = data'.take 1 := by
  cases data with
  | nil =>
      rw [List.length_nil, eq_comm, List.length_eq_zero_iff] at hlen
      rw [hlen]
      exact iff_of_true rfl rfl
  | cons b data =>
      cases data' with
      | nil => simp at hlen
      | cons b' data' =>
          simp only [updateDump, hlen, List.append_cancel_left_eq, List.append_cancel_right_eq,
            List.take_succ_cons, List.take_zero, List.cons.injEq, and_true]
          exact ⟨hexByte_inj, congrArg hexByte⟩

theorem updateTrace_eq_iff (algo : Int) {data data' : List UInt8}
    (hlen : data.length = data'.length) :
    updateTrace algo data = updateTrace algo data' ↔
      firstByte algo data = firstByte algo data' := by
  unfold updateTrace firstByte
  by_cases halgo : algo = LIBSSH2_AXTLS_HASH_SHA256
  · simp only [if_pos halgo]
    exact updateDump_eq_iff hlen
  · simp only [if_neg halgo]

theorem aligned_updateTrace (algo : Int) (data data' : List UInt8) :
    Aligned (updateTrace algo data) (updateTrace algo data') := by
  apply aligned_of_length
  unfold updateTrace
  split
  · rw [length_updateDump, length_updateDump]
  · rfl

/-- A hash function succeeds in both runs exactly if the algorithm is a known one, and
leaves the algorithm in the context. -/
structure SameStatus (algo : Int) (r r' : Bool × HashCtx lib) : Prop where
  ok : r.1 = (hashAlgo algo).isSome
  ok' : r'.1 = (hashAlgo algo).isSome
  number : r.2.algo = algo
  number' : r'.2.algo = algo

theorem SameStatus.intro {algo : Int} {ok : Bool} (hok : (hashAlgo algo).isSome = ok)
    {ctx ctx' : HashCtx lib} (h : ctx.algo = algo) (h' : ctx'.algo = algo) :
    SameStatus algo (ok, ctx) (ok, ctx') := ⟨hok.symm, hok.symm, h, h'⟩

theorem discloses_hashInit (ctx ctx' : HashCtx lib) (algo : Int) :
    Discloses (libssh2AxtlsHashInit lib ctx algo) (libssh2AxtlsHashInit lib ctx' algo) True
      (SameStatus algo) := by
  unfold libssh2AxtlsHashInit
  cases halgo : hashAlgo algo with
  | none =>
      have hstatus : SameStatus algo (false, { ctx with algo := algo })
          (false, { ctx' with algo := algo }) := .intro (by rw [halgo]; rfl) rfl rfl
      have hwrite := discloses_append (aligned_self (str "[hash:bad-algo]"))
      exact (hwrite.bind fun _ _ _ => discloses_pure hstatus).congr (by simp) fun _ _ h => h
  | some a => exact discloses_pure (.intro (by rw [halgo]; rfl) rfl rfl)

theorem discloses_hashUpdate {ctx ctx' : HashCtx lib} {algo : Int} (hctx : ctx.algo = algo)
    (hctx' : ctx'.algo = algo) {data data' : List UInt8} (hlen : data.length = data'.length) :
    Discloses (libssh2AxtlsHashUpdate lib ctx data) (libssh2AxtlsHashUpdate lib ctx' data')
      (firstByte algo data = firstByte algo data') (SameStatus algo) := by
  subst hctx
  have hleft := fun out => libssh2AxtlsHashUpdate_eq out ctx data
  have hright := fun out => libssh2AxtlsHashUpdate_eq out ctx' data'
  simp only [hctx'] at hright
  apply discloses_of_eq hleft hright (aligned_updateTrace _ _ _) (updateTrace_eq_iff _ hlen)
  cases halgo : hashAlgo ctx.algo with
  | none => exact .intro (by rw [halgo]; rfl) rfl hctx'
  | some a => exact .intro (by rw [halgo]; rfl) rfl rfl

theorem firstByte_unknown {algo : Int} (halgo : hashAlgo algo = none) (data : List UInt8) :
    firstByte algo data = [] := by
  apply if_neg
  rintro rfl
  exact absurd halgo (by decide)

section
variable (hdigest : ∀ a c, (lib.final a c).1.length = digestSize a)
include hdigest

theorem hashFinal_same {ctx ctx' : HashCtx lib} {algo : Int} (hctx : ctx.algo = algo)
    (hctx' : ctx'.algo = algo) {buf buf' : List UInt8} (hbuf : buf.length = buf'.length) :
    SameStatus algo ((libssh2AxtlsHashFinal lib ctx buf).1, (libssh2AxtlsHashFinal lib ctx buf).2.1)
        ((libssh2AxtlsHashFinal lib ctx' buf').1, (libssh2AxtlsHashFinal lib ctx' buf').2.1) ∧
      (libssh2AxtlsHashFinal lib ctx buf).2.2.length =
        (libssh2AxtlsHashFinal lib ctx' buf').2.2.length := by
  subst hctx
  simp only [libssh2AxtlsHashFinal, hctx']
  cases halgo : hashAlgo ctx.algo with
  | none => exact ⟨.intro (by rw [halgo]; rfl) rfl hctx', hbuf⟩
  | some a =>
      refine ⟨.intro (by rw [halgo]; rfl) rfl rfl, ?_⟩
      simp only [memcpy, List.length_append, List.length_drop, hdigest, hbuf]

theorem discloses_hash {data data' : List UInt8} (hlen : data.length = data'.length) (algo : Int)
    {buf buf' : List UInt8} (hbuf : buf.length = buf'.length) :
    Discloses (libssh2AxtlsHash lib data algo buf) (libssh2AxtlsHash lib data' algo buf')
      (firstByte algo data = firstByte algo data') fun r r' => r.2.length = r'.2.length := by
  unfold libssh2AxtlsHash
  apply (discloses_hashInit (stackCtx lib) (stackCtx lib) algo).bind_right
  rintro ⟨ok, c⟩ ⟨ok', c'⟩ ⟨rfl, rfl, hc, hc'⟩
  cases halgo : hashAlgo algo with
  | none =>
      rw [firstByte_unknown halgo, firstByte_unknown halgo]
      exact discloses_pure_of rfl hbuf
  | some a =>
      apply (discloses_hashUpdate hc hc' hlen).bind_left
      rintro ⟨ok, c⟩ ⟨ok', c'⟩ ⟨rfl, rfl, hc, hc'⟩
      rw [halgo]
      exact discloses_pure (hashFinal_same hdigest hc hc' hbuf).2

/-! ## HMAC -/

theorem discloses_keyBlock (a : HashAlgo) (algo : Int) {key key' : List UInt8}
    (hlen : key.length = key'.length) :
    Discloses (keyBlock lib a algo key) (keyBlock lib a algo key')
      ((if (blockSize a : Int) < toInt key.length then firstByte algo key else []) =
        if (blockSize a : Int) < toInt key'.length then firstByte algo key' else [])
      fun kBlock kBlock' => kBlock.length = kBlock'.length := by
  unfold keyBlock
  rw [hlen]
  by_cases hlong : (blockSize a : Int) < toInt key'.length
  · simp only [if_pos hlong]
    apply (discloses_hash hdigest hlen algo rfl).bind_left
    intro r r' hr
    exact discloses_pure hr
  · simp only [if_neg hlong]
    apply discloses_pure_of trivial
    rw [memcpy, memcpy, List.length_append, List.length_append, List.length_drop, List.length_drop,
      hlen]

theorem discloses_hmacInit {ctx ctx' : HmacCtx lib} (hctx : HmacCtx.Agree ctx ctx') (algo : Int)
    {key key' : List UInt8} (hlen : key.length = key'.length) :
    Discloses (hmacInit lib ctx algo key) (hmacInit lib ctx' algo key')
      (keyDisclosed lib algo key = keyDisclosed lib algo key')
      fun r r' => HmacCtx.Agree r.2 r'.2 := by
  unfold hmacInit keyDisclosed
  cases halgo : hashAlgo algo with
  | none => exact discloses_pure_of rfl hctx
  | some a =>
      apply ((discloses_keyBlock hdigest a algo hlen).bind
        (Q := fun kBlock kBlock' => firstByte algo (xorPad (blockSize a) 0x36 kBlock) =
          firstByte algo (xorPad (blockSize a) 0x36 kBlock')) _).congr _ fun _ _ h => h
      · intro kBlock kBlock' hblock
        have hpad : ∀ b b', (xorPad (blockSize a) b kBlock).length =
            (xorPad (blockSize a) b' kBlock').length := by
          intro b b'
          simp only [xorPad, List.length_map, List.length_take, hblock]
        apply (discloses_hashInit ctx.inner ctx'.inner algo).bind_right
        rintro ⟨ok, inner⟩ ⟨ok', inner'⟩ ⟨rfl, rfl, hinner, hinner'⟩
        rw [halgo]
        apply (discloses_hashUpdate hinner hinner' (hpad 0x36 0x36)).bind_left
        rintro ⟨ok, inner⟩ ⟨ok', inner'⟩ ⟨rfl, rfl, hinner, hinner'⟩
        apply discloses_pure
        refine ⟨rfl, rfl, rfl, ?_, hinner.trans hinner'.symm⟩
        simp only [memcpy, List.length_append, List.length_drop, hctx.kOpad, hpad 0x5C 0x5C]
      · simp only [List.cons.injEq, and_true]

omit hdigest in
theorem discloses_hmacUpdate {ctx ctx' : HmacCtx lib} (hctx : HmacCtx.Agree ctx ctx')
    {data data' : List UInt8} (hlen : data.length = data'.length) :
    Discloses (libssh2HmacUpdate lib ctx data) (libssh2HmacUpdate lib ctx' data')
      (firstByte ctx.inner.algo data = firstByte ctx'.inner.algo data')
      fun r r' => HmacCtx.Agree r.2 r'.2 := by
  rw [← hctx.inner]
  apply (discloses_hashUpdate rfl hctx.inner.symm hlen).bind_left
  rintro ⟨ok, inner⟩ ⟨ok', inner'⟩ ⟨rfl, rfl, hinner, hinner'⟩
  apply discloses_pure
  exact ⟨hctx.algo, hctx.blockSize, hctx.hashSize, hctx.kOpad, hinner.trans hinner'.symm⟩

theorem discloses_hmacFinal {ctx ctx' : HmacCtx lib} (hctx : HmacCtx.Agree ctx ctx')
    (buf buf' : List UInt8) :
    Discloses (libssh2HmacFinal lib ctx buf) (libssh2HmacFinal lib ctx' buf')
      (digestDisclosed ctx = digestDisclosed ctx') fun r r' => HmacCtx.Agree r.2.1 r'.2.1 := by
  obtain ⟨hstatus, hdigestLen⟩ := hashFinal_same hdigest (rfl : ctx.inner.algo = ctx.inner.algo)
    hctx.inner.symm (rfl : lib.stack.length = lib.stack.length)
  unfold libssh2HmacFinal digestDisclosed
  generalize libssh2AxtlsHashFinal lib ctx.inner lib.stack = r at hstatus hdigestLen ⊢
  generalize libssh2AxtlsHashFinal lib ctx'.inner lib.stack = r' at hstatus hdigestLen ⊢
  obtain ⟨ok, inner, innerHash⟩ := r
  obtain ⟨ok', inner', innerHash'⟩ := r'
  obtain ⟨hok, hok', hinner, hinner'⟩ := hstatus
  simp only at hok hok' hinner hinner' hdigestLen
  subst hok hok'
  have hagree : HmacCtx.Agree { ctx with inner := inner } { ctx' with inner := inner' } :=
    ⟨hctx.algo, hctx.blockSize, hctx.hashSize, hctx.kOpad, hinner.trans hinner'.symm⟩
  cases hknown : (hashAlgo ctx.inner.algo).isSome with
  | false => exact discloses_pure_of rfl hagree
  | true =>
      have hpad : (ctx.kOpad.take ctx.blockSize).length =
          (ctx'.kOpad.take ctx'.blockSize).length := by
        rw [List.length_take, List.length_take, hctx.kOpad, hctx.blockSize]
      have hinnerHash : (innerHash.take ctx.hashSize).length =
          (innerHash'.take ctx'.hashSize).length := by
        rw [List.length_take, List.length_take, hdigestLen, hctx.hashSize]
      simp only [Bool.not_true, Bool.false_eq_true, if_false, if_true]
      rw [← hctx.algo]
      have hagree : HmacCtx.Agree { ctx with inner := inner }
          { ctx' with algo := ctx.algo, inner := inner' } :=
        ⟨rfl, hctx.blockSize, hctx.hashSize, hctx.kOpad, hinner.trans hinner'.symm⟩
      apply (discloses_hashInit (stackCtx lib) (stackCtx lib) ctx.algo).bind_right
      rintro ⟨ok, outer⟩ ⟨ok', outer'⟩ ⟨rfl, rfl, houter, houter'⟩
      cases halgo : hashAlgo ctx.algo with
      | none =>
          simp only [firstByte_unknown halgo]
          exact discloses_pure_of trivial hagree
      | some a =>
          apply ((discloses_hashUpdate houter houter' hpad).bind
            (Q := fun _ _ => firstByte ctx.algo (innerHash.take ctx.hashSize) =
              firstByte ctx.algo (innerHash'.take ctx'.hashSize)) _).congr _ fun _ _ h => h
          · rintro ⟨ok, outer⟩ ⟨ok', outer'⟩ ⟨rfl, rfl, houter, houter'⟩
            rw [halgo]
            apply (discloses_hashUpdate houter houter' hinnerHash).bind_left
            rintro ⟨ok, outer⟩ ⟨ok', outer'⟩ ⟨rfl, rfl, houter, houter'⟩
            rw [halgo]
            exact discloses_pure hagree
          · simp only [List.cons.injEq, and_true]

end

/-! ## The key exchange -/

theorem discloses_curve25519New (allocPriv allocPub : Bool) (random random' : Vector UInt8 32) :
    Discloses (libssh2AxtlsCurve25519New curve allocPriv allocPub random)
      (libssh2AxtlsCurve25519New curve allocPriv allocPub random') True fun _ _ => True := by
  have hwrite : ∀ t : List UInt8, Discloses (write t) (write t) True fun _ _ => True :=
    fun t => (discloses_append (aligned_self t)).congr (iff_of_true rfl trivial) fun _ _ h => h
  apply (hwrite _).bind_right
  intro _ _ _
  cases !allocPriv || !allocPub with
  | true => exact discloses_pure trivial
  | false => exact (hwrite _).bind_right fun _ _ _ => discloses_pure trivial

theorem length_secretDump (secret : Vector UInt8 32) : (secretDump secret).length = 20 := by
  have hdigits : ∀ bs : List UInt8, (bs.flatMap hexByte).length = 2 * bs.length := by
    intro bs
    induction bs with
    | nil => rfl
    | cons b bs ih =>
        rw [List.flatMap_cons, List.length_append, length_hexByte, ih, List.length_cons]
        omega
  rw [secretDump, List.length_append, List.length_append, hdigits, List.length_take,
    Vector.length_toList]
  rfl

theorem flatMap_hexByte_inj {bs bs' : List UInt8} (hlen : bs.length = bs'.length)
    (h : bs.flatMap hexByte = bs'.flatMap hexByte) : bs = bs' := by
  induction bs generalizing bs' with
  | nil => exact (List.length_eq_zero_iff.mp hlen.symm).symm
  | cons b bs ih =>
      cases bs' with
      | nil => simp at hlen
      | cons b' bs' =>
          rw [List.flatMap_cons, List.flatMap_cons] at h
          obtain ⟨hhead, htail⟩ := List.append_inj h rfl
          rw [hexByte_inj hhead, ih (by simpa using hlen) htail]

theorem secretDump_eq_iff (secret secret' : Vector UInt8 32) :
    secretDump secret = secretDump secret' ↔ secret.toList.take 8 = secret'.toList.take 8 := by
  simp only [secretDump, List.append_cancel_left_eq, List.append_cancel_right_eq]
  constructor
  · apply flatMap_hexByte_inj
    simp
  · intro h
    rw [h]

variable {curve}

theorem run_genK_fail {priv pub : Vector UInt8 32} (h : (curve.scalarmult priv pub).1 ≠ 0)
    (malloc : Bool) (bn : Bn) (out : List UInt8) :
    libssh2AxtlsCurve25519GenK curve malloc (some bn) priv pub out =
      ((-1, some bn), out ++ (str "[cv:kE]" ++ str "[cv:kFail]")) := by
  simp [libssh2AxtlsCurve25519GenK, h]

theorem run_genK {priv pub : Vector UInt8 32} (h : (curve.scalarmult priv pub).1 = 0)
    (malloc : Bool) (bn : Bn) (out : List UInt8) :
    libssh2AxtlsCurve25519GenK curve malloc (some bn) priv pub out =
      (((libssh2AxtlsBnFromBin malloc bn (curve.scalarmult priv pub).2.toList).1,
        some (libssh2AxtlsBnFromBin malloc bn (curve.scalarmult priv pub).2.toList).2),
        out ++ (str "[cv:kE]" ++ (secretDump (curve.scalarmult priv pub).2 ++
          (str "[cv:kM]" ++ str "[cv:kB]")))) := by
  simp [libssh2AxtlsCurve25519GenK, h]

/-- A failure and a shared secret are told apart by the second byte of the marker. -/
theorem aligned_fail (secret : Vector UInt8 32) (t : List UInt8) :
    Aligned (str "[cv:kE]" ++ str "[cv:kFail]") (str "[cv:kE]" ++ (secretDump secret ++ t)) := by
  apply (aligned_self _).append
  exact (aligned_self [91]).append (aligned_of_head_ne (by decide : (99 : UInt8) ≠ 75)
    (str "v:kFail]") (str ":" ++ (secret.toList.take 8).flatMap hexByte ++ str "]" ++ t))

theorem discloses_genK_fail {priv priv' pub : Vector UInt8 32}
    (h : (curve.scalarmult priv pub).1 ≠ 0) (h' : (curve.scalarmult priv' pub).1 = 0)
    (malloc : Bool) (bn bn' : Bn) :
    Discloses (libssh2AxtlsCurve25519GenK curve malloc (some bn) priv pub)
      (libssh2AxtlsCurve25519GenK curve malloc (some bn') priv' pub)
      (secretDisclosed curve priv pub = secretDisclosed curve priv' pub)
      fun r r' => r.2.isSome = r'.2.isSome := by
  have hdiffer : secretDisclosed curve priv pub ≠ secretDisclosed curve priv' pub := by
    intro heq
    have hlen := congrArg List.length heq
    simp [secretDisclosed, h, h'] at hlen
  apply discloses_of_eq (run_genK_fail h malloc bn) (run_genK h' malloc bn')
    (aligned_fail _ _) _ rfl
  apply iff_of_false _ hdiffer
  intro heq
  have hlen := congrArg List.length heq
  simp [length_secretDump, str] at hlen

theorem discloses_curve25519GenK (malloc : Bool) {k k' : Option Bn} (hk : k.isSome = k'.isSome)
    (priv priv' pub : Vector UInt8 32) :
    Discloses (libssh2AxtlsCurve25519GenK curve malloc k priv pub)
      (libssh2AxtlsCurve25519GenK curve malloc k' priv' pub)
      ((if k.isSome then [secretDisclosed curve priv pub] else []) =
        if k'.isSome then [secretDisclosed curve priv' pub] else [])
      fun r r' => r.2.isSome = r'.2.isSome := by
  cases k with
  | none =>
      cases k' with
      | some bn' => simp at hk
      | none =>
          have hrun : ∀ priv out, libssh2AxtlsCurve25519GenK curve malloc none priv pub out =
              ((-1, none), out ++ str "[cv:kE]") := fun _ _ => rfl
          exact discloses_of_eq (hrun priv) (hrun priv') (aligned_self _) (iff_of_true rfl rfl) rfl
  | some bn =>
      cases k' with
      | none => simp at hk
      | some bn' =>
          simp only [Option.isSome_some, if_true, List.cons.injEq, and_true]
          by_cases h : (curve.scalarmult priv pub).1 = 0
          · by_cases h' : (curve.scalarmult priv' pub).1 = 0
            · apply discloses_of_eq (run_genK h malloc bn) (run_genK h' malloc bn') _ _ rfl
              · apply (aligned_self _).append (Aligned.append _ (aligned_self _))
                apply aligned_of_length
                rw [length_secretDump, length_secretDump]
              · simp only [List.append_cancel_left_eq, List.append_cancel_right_eq,
                  secretDump_eq_iff, secretDisclosed, h, h', ne_eq, not_true, if_false]
            · exact (discloses_genK_fail h' h malloc bn' bn).symm.congr eq_comm fun _ _ h => h.symm
          · by_cases h' : (curve.scalarmult priv' pub).1 = 0
            · exact discloses_genK_fail h h' malloc bn bn'
            · apply discloses_of_eq (run_genK_fail h malloc bn) (run_genK_fail h' malloc bn')
                (aligned_self _) (iff_of_true rfl _) rfl
              simp only [secretDisclosed, if_pos h, if_pos h']

/-! ## Two runs -/

theorem update_rel {α : Type} {R : α → α → Prop} {f g : Nat → α} (h : ∀ i, R (f i) (g i))
    (c : Nat) {x y : α} (hxy : R x y) (i : Nat) :
    R (Function.update f c x i) (Function.update g c y i) := by
  by_cases hi : i = c
  · subst hi
    rwa [Function.update_self, Function.update_self]
  · rw [Function.update_of_ne hi, Function.update_of_ne hi]
    exact h i

variable {w w' : World lib aes}

theorem World.Agree.setHash (hw : World.Agree w w') (c : Nat) {ctx ctx' : HashCtx lib}
    (h : ctx.algo = ctx'.algo) : World.Agree (w.setHash c ctx) (w'.setHash c ctx') :=
  ⟨update_rel (R := fun x y : HashCtx lib => x.algo = y.algo) hw.hash c h, hw.hmac, hw.bn⟩

theorem World.Agree.setHmac (hw : World.Agree w w') (c : Nat) {ctx ctx' : HmacCtx lib}
    (h : HmacCtx.Agree ctx ctx') : World.Agree (w.setHmac c ctx) (w'.setHmac c ctx') :=
  ⟨hw.hash, update_rel hw.hmac c h, hw.bn⟩

theorem World.Agree.setCipher (hw : World.Agree w w') (c : Nat) (ctx ctx' : CipherCtx aes) :
    World.Agree (w.setCipher c ctx) (w'.setCipher c ctx') :=
  ⟨hw.hash, hw.hmac, hw.bn⟩

theorem World.Agree.setBn (hw : World.Agree w w') (k : Nat) {bn bn' : Option Bn}
    (h : bn.isSome = bn'.isSome) : World.Agree (w.setBn k bn) (w'.setBn k bn') :=
  ⟨hw.hash, hw.hmac, update_rel (R := fun x y : Option Bn => x.isSome = y.isSome) hw.bn k h⟩

section
variable (hdigest : ∀ a c, (lib.final a c).1.length = digestSize a)
include hdigest

theorem discloses_step (hw : World.Agree w w') {call call' : Call}
    (hcall : SamePublic call call') :
    Discloses (step curve w call) (step curve w' call')
      (disclosed curve w call = disclosed curve w' call') World.Agree := by
  cases hcall with
  | hashInit c algo =>
      apply ((discloses_hashInit (w.hash c) (w'.hash c) algo).bind_left _).congr
        (iff_of_true trivial rfl) fun _ _ h => h
      intro r r' hr
      exact discloses_pure (hw.setHash c (hr.number.trans hr.number'.symm))
  | hashUpdate c hlen =>
      apply ((discloses_hashUpdate rfl (hw.hash c).symm hlen).bind_left _).congr _ fun _ _ h => h
      · intro r r' hr
        exact discloses_pure (hw.setHash c (hr.number.trans hr.number'.symm))
      · simp only [disclosed, List.cons.injEq, and_true, hw.hash c]
  | hashFinal c =>
      have hfinal := (hashFinal_same hdigest (rfl : (w.hash c).algo = (w.hash c).algo)
        (hw.hash c).symm (rfl : ([] : List UInt8).length = ([] : List UInt8).length)).1
      exact discloses_pure_of rfl (hw.setHash c (hfinal.number.trans hfinal.number'.symm))
  | hash hlen algo =>
      apply ((discloses_hash hdigest hlen algo rfl).bind_left _).congr _ fun _ _ h => h
      · intro _ _ _
        exact discloses_pure hw
      · simp only [disclosed, List.cons.injEq, and_true]
  | hmacCtxInit c => exact discloses_pure_of rfl (hw.setHmac c ⟨rfl, rfl, rfl, rfl, rfl⟩)
  | hmacInit c algo hlen =>
      apply (discloses_hmacInit hdigest (hw.hmac c) algo hlen).bind_left
      intro r r' hr
      exact discloses_pure (hw.setHmac c hr)
  | hmacUpdate c hlen =>
      apply ((discloses_hmacUpdate (hw.hmac c) hlen).bind_left _).congr _ fun _ _ h => h
      · intro r r' hr
        exact discloses_pure (hw.setHmac c hr)
      · simp only [disclosed, List.cons.injEq, and_true]
  | hmacFinal c =>
      apply (discloses_hmacFinal hdigest (hw.hmac c) [] []).bind_left
      intro r r' hr
      exact discloses_pure (hw.setHmac c hr)
  | cipherInit c algo iv iv' hlen encrypt => exact discloses_pure_of rfl (hw.setCipher c _ _)
  | cipherCrypt c algo encrypt hlen => exact discloses_pure_of rfl (hw.setCipher c _ _)
  | cipherDtor c => exact discloses_pure_of rfl (hw.setCipher c _ _)
  | curve25519New allocPriv allocPub random random' =>
      apply ((discloses_curve25519New curve allocPriv allocPub random random').bind_left _).congr
        (iff_of_true trivial rfl) fun _ _ h => h
      intro _ _ _
      exact discloses_pure hw
  | curve25519GenK k malloc priv priv' pub =>
      apply (discloses_curve25519GenK malloc (hw.bn k) priv priv' pub).bind_left
      intro r r' hr
      exact discloses_pure (hw.setBn k hr)

theorem console_eq_iff (hw : World.Agree w w') {calls calls' : List Call}
    (hcalls : List.Forall₂ SamePublic calls calls') (out : List UInt8) :
    (runs (step curve) w calls out).2 = (runs (step curve) w' calls' out).2 ↔
      disclosures (step curve) (disclosed curve) w calls =
        disclosures (step curve) (disclosed curve) w' calls' :=
  (runs_disclose (fun _ _ _ _ h hc => discloses_step hdigest h hc) hw hcalls).trace_eq_iff out

end

theorem World.Agree.refl (w : World lib aes) : World.Agree w w :=
  ⟨fun _ => rfl, fun _ => ⟨rfl, rfl, rfl, rfl, rfl⟩, fun _ => rfl⟩

def zeroWorld : World (buffered sha1Only) flipAes :=
  ⟨fun _ => ⟨0, []⟩, fun _ => hmacCtxZero _, fun _ => libssh2AxtlsCipherDtor _,
    fun _ => some ⟨0, []⟩⟩

/-- A curve whose shared secret is the private key. -/
def privateCurve : Curve := ⟨fun priv _ => (0, priv), id⟩

/-- Two hashed texts and two HMAC keys that differ beyond their first bytes. -/
theorem console_eq_iff_tail :
    (runs (step privateCurve) zeroWorld [.hashInit 0 LIBSSH2_AXTLS_HASH_SHA256,
        .hashUpdate 0 [0x41, 1], .hmacInit 0 LIBSSH2_AXTLS_HASH_SHA256 [7, 1]] []).2 =
      (runs (step privateCurve) zeroWorld [.hashInit 0 LIBSSH2_AXTLS_HASH_SHA256,
        .hashUpdate 0 [0x41, 2], .hmacInit 0 LIBSSH2_AXTLS_HASH_SHA256 [7, 2]] []).2 :=
  (console_eq_iff length_sha1Only (World.Agree.refl zeroWorld)
    (.cons (.hashInit 0 _) (.cons (.hashUpdate 0 rfl) (.cons (.hmacInit 0 _ rfl) .nil))) []).mpr
    (by decide)

/-- Two shared secrets and two HMAC keys that differ in their first bytes. -/
theorem console_differs :
    List.Forall₂ SamePublic
        [.hmacInit 0 LIBSSH2_AXTLS_HASH_SHA256 [1],
          .curve25519GenK 0 true (Vector.replicate 32 1) (Vector.replicate 32 9)]
        [.hmacInit 0 LIBSSH2_AXTLS_HASH_SHA256 [2],
          .curve25519GenK 0 true (Vector.replicate 32 2) (Vector.replicate 32 9)] ∧
      (runs (step privateCurve) zeroWorld [.hmacInit 0 LIBSSH2_AXTLS_HASH_SHA256 [1],
        .curve25519GenK 0 true (Vector.replicate 32 1) (Vector.replicate 32 9)] []).2 ≠
      (runs (step privateCurve) zeroWorld [.hmacInit 0 LIBSSH2_AXTLS_HASH_SHA256 [2],
        .curve25519GenK 0 true (Vector.replicate 32 2) (Vector.replicate 32 9)] []).2 :=
  ⟨.cons (.hmacInit 0 _ rfl) (.cons (.curve25519GenK 0 true _ _ _) .nil), by decide⟩

end FreedosMicroPython.Ssh.Console
