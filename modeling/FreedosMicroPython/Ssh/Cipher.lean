import FreedosMicroPython.Lib.Counter
import FreedosMicroPython.Lib.Words
import FreedosMicroPython.Ssh.Hash
/-!
# The ciphers of the SSH backend

AES in CBC and in CTR mode, from `port/libssh2_axtls.c`. The block function and
CBC mode are those of axtls and parameters here. CTR mode is built on the block
function; `cipherCrypts_ctr` shows that it is counter mode.
-/

namespace FreedosMicroPython.Ssh.Cipher

open FreedosMicroPython.Lib.Counter
open FreedosMicroPython.Lib.Words
open FreedosMicroPython.Ssh.Hash

inductive AesMode where
  | aes128
  | aes256
  deriving DecidableEq, Repr

/-- The AES functions of axtls. Only the CBC functions change a context. -/
structure Aes where
  Ctx : Type
  setKey : List UInt8 → Vector UInt8 16 → AesMode → Ctx
  convertKey : Ctx → Ctx
  encrypt : Ctx → Vector UInt32 4 → Vector UInt32 4
  cbcEncrypt : Ctx → List UInt8 → Int → List UInt8 × Ctx
  cbcDecrypt : Ctx → List UInt8 → Int → List UInt8 × Ctx
  /-- The context of all zero bytes. -/
  zero : Ctx

def libssh2CipherAes128 : Int := 1
def libssh2CipherAes192 : Int := 2
def libssh2CipherAes256 : Int := 3
def libssh2CipherAes128ctr : Int := 4
def libssh2CipherAes192ctr : Int := 5
def libssh2CipherAes256ctr : Int := 6

structure CipherCtx (aes : Aes) where
  storage : aes.Ctx
  keylenBits : Nat
  ctrIv : Vector UInt8 16
  isCtr : Bool

variable (aes : Aes)

/-- The `switch` of `_libssh2_axtls_cipher_init`. AES-192 is refused. -/
def cipherMode (algo : Int) : Option AesMode :=
  if algo = libssh2CipherAes128 ∨ algo = libssh2CipherAes128ctr then some .aes128
  else if algo = libssh2CipherAes192 ∨ algo = libssh2CipherAes192ctr then none
  else if algo = libssh2CipherAes256 ∨ algo = libssh2CipherAes256ctr then some .aes256
  else none

def libssh2AxtlsCipherInit (ctx : CipherCtx aes) (algo : Int) (iv : Vector UInt8 16)
    (secret : List UInt8) (encrypt : Bool) : Int × CipherCtx aes :=
  match cipherMode algo with
  | none => (-1, ctx)
  | some mode =>
      let isCtr := decide (libssh2CipherAes128ctr ≤ algo ∧ algo ≤ libssh2CipherAes256ctr)
      let storage := aes.setKey secret iv mode
      (0, {
        storage := if !encrypt && !isCtr then aes.convertKey storage else storage
        keylenBits := if mode = .aes128 then 128 else 256
        ctrIv := if isCtr then iv else ctx.ctrIv
        isCtr := isCtr })

def ntohl (w : UInt32) : UInt32 :=
  word (UInt8.ofNat w.toNat) (UInt8.ofNat (w.toNat / 0x100)) (UInt8.ofNat (w.toNat / 0x10000))
    (UInt8.ofNat (w.toNat / 0x1000000))

def htonl (w : UInt32) : UInt32 := ntohl w

def loadWords (b : Vector UInt8 16) : Vector UInt32 4 :=
  #v[wordLE b[0] b[1] b[2] b[3], wordLE b[4] b[5] b[6] b[7], wordLE b[8] b[9] b[10] b[11],
    wordLE b[12] b[13] b[14] b[15]]

def ctrKeystream (ctx : CipherCtx aes) : List UInt8 :=
  let kw := (loadWords ctx.ctrIv).map ntohl
  let kw := aes.encrypt ctx.storage kw
  let kw := kw.map htonl
  kw.toList.flatMap wordBytesLE

/-- The loop that increments the counter, over the bytes below `k`. -/
def incrementFrom : (k : Nat) → k ≤ 16 → Vector UInt8 16 → Vector UInt8 16
  | 0, _, iv => iv
  | k + 1, h, iv =>
      let iv := iv.set k (iv[k] + 1)
      if iv[k] ≠ 0 then iv else incrementFrom k (by omega) iv

/-- `n` blocks of the loop over the data, the last of them perhaps a part of a block. -/
def ctrLoop : Nat → CipherCtx aes → List UInt8 → List UInt8 × CipherCtx aes
  | 0, ctx, _ => ([], ctx)
  | n + 1, ctx, data =>
      let out := xorBytes (data.take 16) (ctrKeystream aes ctx)
      let ctx := { ctx with ctrIv := incrementFrom 16 (Nat.le_refl 16) ctx.ctrIv }
      let (rest, ctx) := ctrLoop n ctx (data.drop 16)
      (out ++ rest, ctx)

def libssh2AxtlsCipherCrypt (ctx : CipherCtx aes) (_algo : Int) (encrypt : Bool)
    (data : List UInt8) : Int × List UInt8 × CipherCtx aes :=
  if ctx.isCtr then
    let (out, ctx) := ctrLoop aes ((data.length + 15) / 16) ctx data
    (0, out, ctx)
  else if encrypt then
    let (out, storage) := aes.cbcEncrypt ctx.storage data (toInt data.length)
    (0, out, { ctx with storage := storage })
  else
    let (out, storage) := aes.cbcDecrypt ctx.storage data (toInt data.length)
    (0, out, { ctx with storage := storage })

def libssh2AxtlsCipherDtor : CipherCtx aes := ⟨aes.zero, 0, Vector.replicate 16 0, false⟩

def cipherCrypts (algo : Int) (encrypt : Bool) :
    List (List UInt8) → CipherCtx aes → List (List UInt8)
  | [], _ => []
  | piece :: pieces, ctx =>
      let (_, out, ctx) := libssh2AxtlsCipherCrypt aes ctx algo encrypt piece
      out :: cipherCrypts algo encrypt pieces ctx

/-! ## The block function -/

def blockWords (b : Vector UInt8 16) : Vector UInt32 4 :=
  #v[word b[0] b[1] b[2] b[3], word b[4] b[5] b[6] b[7], word b[8] b[9] b[10] b[11],
    word b[12] b[13] b[14] b[15]]

def wordsBlock (ws : Vector UInt32 4) : Vector UInt8 16 :=
  ⟨(wordBytes ws[0] ++ wordBytes ws[1] ++ wordBytes ws[2] ++ wordBytes ws[3]).toArray, rfl⟩

/-- What `AES_encrypt` computes on big-endian words. -/
def blockFunction (storage : aes.Ctx) (b : Vector UInt8 16) : Vector UInt8 16 :=
  wordsBlock (aes.encrypt storage (blockWords b))

theorem ntohl_wordLE (a b c d : UInt8) : ntohl (wordLE a b c d) = word a b c d := by
  have ha := a.toNat_lt
  have hb := b.toNat_lt
  have hc := c.toNat_lt
  have hd := d.toNat_lt
  simp only [ntohl, wordLE, toNat_word]
  congr 1 <;> apply UInt8.toNat.inj <;> rw [UInt8.toNat_ofNat'] <;> omega

theorem wordBytesLE_htonl (w : UInt32) : wordBytesLE (htonl w) = wordBytes w := by
  rw [wordBytesLE, htonl, ntohl, wordBytes_word]
  rfl

theorem loadWords_ntohl (b : Vector UInt8 16) : (loadWords b).map ntohl = blockWords b := by
  simp [loadWords, blockWords, ntohl_wordLE]

theorem flatMap_htonl (ws : Vector UInt32 4) :
    (ws.map htonl).toList.flatMap wordBytesLE = (wordsBlock ws).toList := by
  have hws : ws.toList = [ws[0], ws[1], ws[2], ws[3]] := by
    apply List.ext_getElem
    · simp
    · intro i hi _
      match i, hi with
      | 0, _ | 1, _ | 2, _ | 3, _ => rfl
  rw [Vector.toList_map, hws]
  simp [wordBytesLE_htonl, wordsBlock, Vector.toList]

/-- The byte swaps around `AES_encrypt` cancel out. -/
theorem ctrKeystream_eq (ctx : CipherCtx aes) :
    ctrKeystream aes ctx = (blockFunction aes ctx.storage ctx.ctrIv).toList := by
  rw [ctrKeystream, loadWords_ntohl, flatMap_htonl]
  rfl

/-! ## The counter -/

theorem incrementFrom_toList (k : Nat) (hk : k ≤ 16) (iv : Vector UInt8 16) :
    (incrementFrom k hk iv).toList =
      (bump (iv.toList.take k).reverse).reverse ++ iv.toList.drop k := by
  induction k generalizing iv with
  | zero => simp [incrementFrom, bump]
  | succ k ih =>
      have hlen : k < iv.toList.length := by
        rw [Vector.length_toList]
        omega
      have hlast : (iv.toList.take (k + 1)).reverse = iv[k] :: (iv.toList.take k).reverse := by
        rw [← List.take_append_getElem hlen, List.reverse_append, Vector.getElem_toList]
        rfl
      have hset : (iv.set k (iv[k] + 1)).toList =
          iv.toList.take k ++ (iv[k] + 1) :: iv.toList.drop (k + 1) := by
        rw [Vector.toList_set, List.set_eq_take_append_cons_drop, if_pos hlen]
      rw [hlast, bump, incrementFrom]
      simp only [Vector.getElem_set_self]
      by_cases hcarry : iv[k] + 1 = 0
      · have htake : (iv.set k (iv[k] + 1)).toList.take k = iv.toList.take k := by
          rw [Vector.toList_set, List.take_set_of_le (Nat.le_refl k)]
        have hdrop : (iv.set k (iv[k] + 1)).toList.drop k =
            (iv[k] + 1) :: iv.toList.drop (k + 1) := by
          rw [hset]
          apply List.drop_left'
          rw [List.length_take]
          omega
        rw [if_neg (not_not_intro hcarry), if_neg (not_not_intro hcarry), ih, htake, hdrop,
          List.reverse_cons, List.append_assoc]
        rfl
      · rw [if_pos hcarry, if_pos hcarry, hset, List.reverse_cons, List.reverse_reverse,
          List.append_assoc]
        rfl

theorem value_incrementFrom (iv : Vector UInt8 16) :
    value (incrementFrom 16 (Nat.le_refl 16) iv) = (value iv + 1) % 256 ^ 16 := by
  apply value_of_bump
  have hall : iv.toList.take 16 = iv.toList := List.take_of_length_le (by simp)
  have hnone : iv.toList.drop 16 = [] := List.drop_of_length_le (by simp)
  rw [incrementFrom_toList, hall, hnone, List.append_nil, List.reverse_reverse]

/-! ## CTR mode is counter mode -/

theorem ctrLoop_eq (k : Nat) (ctx : CipherCtx aes) (data : List UInt8) :
    (ctrLoop aes k ctx data).1 =
        xorBytes data (keystream (blockFunction aes ctx.storage) (value ctx.ctrIv) k) ∧
      (ctrLoop aes k ctx data).2 =
        { ctx with ctrIv := block 16 ((value ctx.ctrIv + k) % 256 ^ 16) } := by
  induction k generalizing ctx data with
  | zero =>
      constructor
      · simp [ctrLoop, keystream, xorBytes]
      · rw [Nat.add_zero, Nat.mod_eq_of_lt (value_lt ctx.ctrIv), block_value]
        rfl
  | succ k ih =>
      obtain ⟨hout, hctx⟩ := ih { ctx with
        ctrIv := incrementFrom 16 (Nat.le_refl 16) ctx.ctrIv } (data.drop 16)
      simp only [value_incrementFrom, keystream_mod] at hout
      simp only [value_incrementFrom, Nat.mod_add_mod] at hctx
      have hblock : block 16 (value ctx.ctrIv % 256 ^ 16) = ctx.ctrIv := by
        rw [Nat.mod_eq_of_lt (value_lt ctx.ctrIv), block_value]
      constructor
      · rw [keystream_succ, hblock, xorBytes_append_right, Vector.length_toList]
        simp only [ctrLoop, ctrKeystream_eq, hout]
      · simp only [ctrLoop, hctx, Nat.add_assoc, Nat.add_comm k 1]

theorem cipherCrypt_ctr (ctx : CipherCtx aes) (hctr : ctx.isCtr = true) (algo : Int)
    (encrypt : Bool) (data : List UInt8) :
    libssh2AxtlsCipherCrypt aes ctx algo encrypt data =
      (0, counterMode (blockFunction aes ctx.storage) (value ctx.ctrIv) data,
        { ctx with
          ctrIv := block 16 ((value ctx.ctrIv + (data.length + 15) / 16) % 256 ^ 16) }) := by
  obtain ⟨hout, hctx⟩ := ctrLoop_eq aes ((data.length + 15) / 16) ctx data
  rw [libssh2AxtlsCipherCrypt, if_pos hctr]
  simp only [hout, hctx, counterMode]
  rfl

def WholeBlocks (pieces : List (List UInt8)) : Prop :=
  ∀ piece ∈ pieces.dropLast, 16 ∣ piece.length

theorem cipherCrypts_eq (ctx : CipherCtx aes) (hctr : ctx.isCtr = true) (algo : Int)
    (encrypt : Bool) {pieces : List (List UInt8)} (hsplit : WholeBlocks pieces) :
    (cipherCrypts aes algo encrypt pieces ctx).flatten =
      counterMode (blockFunction aes ctx.storage) (value ctx.ctrIv) pieces.flatten := by
  induction pieces generalizing ctx with
  | nil => rfl
  | cons piece pieces ih =>
      rw [cipherCrypts, cipherCrypt_ctr aes ctx hctr, List.flatten_cons, List.flatten_cons]
      cases pieces with
      | nil => simp [cipherCrypts]
      | cons next pieces =>
          obtain ⟨j, hj⟩ := hsplit piece (by simp)
          have hblocks : (piece.length + 15) / 16 = j := by omega
          have hrest : WholeBlocks (next :: pieces) := by
            intro p hp
            apply hsplit p
            rw [List.dropLast_cons_of_ne_nil (by simp)]
            exact List.mem_cons_of_mem piece hp
          have hvalue : ∀ v, value (block 16 (v % 256 ^ 16)) = v % 256 ^ 16 := by
            intro v
            exact value_block (Nat.mod_lt _ (Nat.pow_pos (by decide)))
          rw [ih _ (by exact hctr) hrest, hblocks, hvalue, counterMode_mod,
            counterMode_append _ (by decide) _ j (by rw [hj, Nat.mul_comm])]

/-- The key size of the two CTR ciphers. -/
def ctrMode (algo : Int) : AesMode := if algo = libssh2CipherAes128ctr then .aes128 else .aes256

theorem cipherInit_ctr (ctx : CipherCtx aes) {algo : Int}
    (halgo : algo = libssh2CipherAes128ctr ∨ algo = libssh2CipherAes256ctr)
    (iv : Vector UInt8 16) (secret : List UInt8) (encrypt : Bool) :
    ∃ bits, libssh2AxtlsCipherInit aes ctx algo iv secret encrypt =
      (0, ⟨aes.setKey secret iv (ctrMode algo), bits, iv, true⟩) := by
  have hmode : cipherMode algo = some (ctrMode algo) := by
    obtain rfl | rfl := halgo <;> decide
  have hrange : libssh2CipherAes128ctr ≤ algo ∧ algo ≤ libssh2CipherAes256ctr := by
    obtain rfl | rfl := halgo <;> decide
  refine ⟨if ctrMode algo = .aes128 then 128 else 256, ?_⟩
  simp [libssh2AxtlsCipherInit, hmode, hrange]

theorem cipherCrypts_ctr {algo : Int}
    (halgo : algo = libssh2CipherAes128ctr ∨ algo = libssh2CipherAes256ctr)
    (ctx ctx' : CipherCtx aes) (iv : Vector UInt8 16) (secret : List UInt8)
    (encrypt encrypt' flag flag' : Bool) {pieces : List (List UInt8)}
    (hsplit : WholeBlocks pieces) :
    (libssh2AxtlsCipherInit aes ctx algo iv secret encrypt).1 = 0 ∧
      (cipherCrypts aes algo flag pieces
          (libssh2AxtlsCipherInit aes ctx algo iv secret encrypt).2).flatten =
        counterMode (blockFunction aes (aes.setKey secret iv (ctrMode algo))) (value iv)
          pieces.flatten ∧
      ∀ pieces', WholeBlocks pieces' →
        pieces'.flatten = (cipherCrypts aes algo flag pieces
          (libssh2AxtlsCipherInit aes ctx algo iv secret encrypt).2).flatten →
        (cipherCrypts aes algo flag' pieces'
          (libssh2AxtlsCipherInit aes ctx' algo iv secret encrypt').2).flatten =
          pieces.flatten := by
  obtain ⟨bits, hinit⟩ := cipherInit_ctr aes ctx halgo iv secret encrypt
  obtain ⟨bits', hinit'⟩ := cipherInit_ctr aes ctx' halgo iv secret encrypt'
  have hout := cipherCrypts_eq aes ⟨aes.setKey secret iv (ctrMode algo), bits, iv, true⟩ rfl algo
    flag hsplit
  rw [hinit, hinit', hout]
  refine ⟨rfl, rfl, fun pieces' hsplit' hpieces' => ?_⟩
  rw [cipherCrypts_eq aes _ rfl algo flag' hsplit', hpieces', counterMode_counterMode _ (by decide)]

/-- A block function that flips some bits of every word. -/
def flipAes : Aes where
  Ctx := List UInt8
  setKey key _ _ := key
  convertKey key := key
  encrypt _ ws := ws.map (· ^^^ 0x01020304)
  cbcEncrypt key data _ := (data, key)
  cbcDecrypt key data _ := (data, key)
  zero := []

/-- A counter that wraps after its first block. -/
theorem cipherCrypts_ctr_wrap :
    (cipherCrypts flipAes libssh2CipherAes128ctr true [List.replicate 16 0, [1, 2, 3]]
      (libssh2AxtlsCipherInit flipAes ⟨[], 0, Vector.replicate 16 0, false⟩ libssh2CipherAes128ctr
        (Vector.replicate 16 0xFF) [] true).2).flatten =
      [0xFE, 0xFD, 0xFC, 0xFB, 0xFE, 0xFD, 0xFC, 0xFB, 0xFE, 0xFD, 0xFC, 0xFB, 0xFE, 0xFD, 0xFC,
        0xFB, 0x00, 0x00, 0x00] :=
  (cipherCrypts_ctr flipAes (.inl rfl) ⟨[], 0, Vector.replicate 16 0, false⟩
    ⟨[], 0, Vector.replicate 16 0, false⟩ (Vector.replicate 16 0xFF) [] true true true true
    (by unfold WholeBlocks; decide)).2.1.trans (by decide +kernel)

end FreedosMicroPython.Ssh.Cipher
