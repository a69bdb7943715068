import FreedosMicroPython.OsPath
/-!
# The hashes of the SSH backend

`port/libssh2_axtls.c` runs five hash functions behind one context, tagged with
the algorithm. The hash functions are those of axtls and a parameter here. Every
function may write to file descriptor 1; `Traced` carries what was written.
-/

namespace FreedosMicroPython.Ssh.Hash

open FreedosMicroPython.OsPath (str)

/-! ## The console -/

/-- A computation and the bytes written to file descriptor 1 so far. -/
abbrev Traced := StateM (List UInt8)

def write (buf : List UInt8) : Traced Unit := modify (· ++ buf)

@[simp] theorem traced_bind {α β : Type} (f : Traced α) (g : α → Traced β) (out : List UInt8) :
    (f >>= g) out = g (f out).1 (f out).2 := rfl

@[simp] theorem traced_pure {α : Type} (x : α) (out : List UInt8) :
    (pure x : Traced α) out = (x, out) := rfl

@[simp] theorem traced_map {α β : Type} (f : α → β) (x : Traced α) (out : List UInt8) :
    (f <$> x) out = (f (x out).1, (x out).2) := rfl

@[simp] theorem traced_write (buf out : List UInt8) : write buf out = ((), out ++ buf) := rfl

def hx (n : Nat) : UInt8 :=
  if n < 10 then UInt8.ofNat ('0'.toNat + n) else UInt8.ofNat ('a'.toNat + n - 10)

def hexByte (b : UInt8) : List UInt8 := [hx ((b.toNat >>> 4) &&& 0xF), hx (b.toNat &&& 0xF)]

/-! ## axtls -/

inductive HashAlgo where
  | sha1
  | sha256
  | sha384
  | sha512
  | md5
  deriving DecidableEq, Repr

/-- The hash functions of axtls. The length of an update is a C `int`. -/
structure Axtls where
  Ctx : Type
  init : HashAlgo → Ctx
  update : HashAlgo → Ctx → List UInt8 → Int → Ctx
  /-- The digest, and the context after it. -/
  final : HashAlgo → Ctx → List UInt8 × Ctx
  /-- The context of all zero bytes. -/
  zero : Ctx
  /-- What a context on the stack holds before it is initialised. -/
  garbage : Ctx
  /-- What a buffer on the stack holds before it is filled. -/
  stack : List UInt8

def digestSize : HashAlgo → Nat
  | .sha1 => 20
  | .sha256 => 32
  | .sha384 => 48
  | .sha512 => 64
  | .md5 => 16

/-- What the backend relies on: a context that is updated with blocks whose length
is an `int` computes the hash `H` of their concatenation. -/
structure HashLaw (lib : Axtls) (H : HashAlgo → List UInt8 → List UInt8) : Prop where
  length : ∀ a m, (H a m).length = digestSize a
  streams : ∀ a (us : List (List UInt8)), (∀ u ∈ us, u.length < 0x80000000) →
    (lib.final a (us.foldl (fun c u => lib.update a c u u.length) (lib.init a))).1 = H a us.flatten

/-! ## One context for all of them -/

def LIBSSH2_AXTLS_HASH_SHA1 : Int := 1
def LIBSSH2_AXTLS_HASH_SHA256 : Int := 2
def LIBSSH2_AXTLS_HASH_SHA384 : Int := 3
def LIBSSH2_AXTLS_HASH_SHA512 : Int := 4
def LIBSSH2_AXTLS_HASH_MD5 : Int := 5

def HashAlgo.number : HashAlgo → Int
  | .sha1 => LIBSSH2_AXTLS_HASH_SHA1
  | .sha256 => LIBSSH2_AXTLS_HASH_SHA256
  | .sha384 => LIBSSH2_AXTLS_HASH_SHA384
  | .sha512 => LIBSSH2_AXTLS_HASH_SHA512
  | .md5 => LIBSSH2_AXTLS_HASH_MD5

def hashAlgo (algo : Int) : Option HashAlgo :=
  if algo = LIBSSH2_AXTLS_HASH_SHA1 then some .sha1
  else if algo = LIBSSH2_AXTLS_HASH_SHA256 then some .sha256
  else if algo = LIBSSH2_AXTLS_HASH_SHA384 then some .sha384
  else if algo = LIBSSH2_AXTLS_HASH_SHA512 then some .sha512
  else if algo = LIBSSH2_AXTLS_HASH_MD5 then some .md5
  else none

@[simp] theorem hashAlgo_number (a : HashAlgo) : hashAlgo a.number = some a := by
  cases a <;> decide

/-- `(int)len` for a `size_t`. -/
def toInt (len : Nat) : Int :=
  if len % 0x100000000 < 0x80000000 then (len % 0x100000000 : Nat)
  else (len % 0x100000000 : Nat) - 0x100000000

theorem toInt_of_lt {len : Nat} (h : len < 0x80000000) : toInt len = len := by
  rw [toInt, Nat.mod_eq_of_lt (by omega), if_pos h]

structure HashCtx (lib : Axtls) where
  algo : Int
  storage : lib.Ctx

variable (lib : Axtls)

def stackCtx : HashCtx lib := ⟨0, lib.garbage⟩

def libssh2AxtlsHashInit (ctx : HashCtx lib) (algo : Int) : Traced (Bool × HashCtx lib) :=
  match hashAlgo algo with
  | some a => pure (true, ⟨algo, lib.init a⟩)
  | none => do
      write (str "[hash:bad-algo]")
      pure (false, { ctx with algo := algo })

/-- `[hu:LLLL:BB]`: the length of an update and its first byte. -/
def updateDump (data : List UInt8) : List UInt8 :=
  let l := data.length
  let first := match data with
    | b :: _ => hexByte b
    | [] => str "--"
  str "[hu:" ++ [hx ((l >>> 12) &&& 0xF), hx ((l >>> 8) &&& 0xF), hx ((l >>> 4) &&& 0xF),
    hx (l &&& 0xF)] ++ str ":" ++ first ++ str "]"

def libssh2AxtlsHashUpdate (ctx : HashCtx lib) (data : List UInt8) :
    Traced (Bool × HashCtx lib) := do
  if ctx.algo = LIBSSH2_AXTLS_HASH_SHA256 then write (updateDump data)
  match hashAlgo ctx.algo with
  | some a => pure (true, { ctx with storage := lib.update a ctx.storage data (toInt data.length) })
  | none => pure (false, ctx)

def memcpy (dst src : List UInt8) : List UInt8 := src ++ dst.drop src.length

def libssh2AxtlsHashFinal (ctx : HashCtx lib) (out : List UInt8) :
    Bool × HashCtx lib × List UInt8 :=
  match hashAlgo ctx.algo with
  | some a =>
      let (digest, storage) := lib.final a ctx.storage
      (true, { ctx with storage := storage }, memcpy out digest)
  | none => (false, ctx, out)

def libssh2AxtlsHash (data : List UInt8) (algo : Int) (out : List UInt8) :
    Traced (Bool × List UInt8) := do
  let (ok, c) ← libssh2AxtlsHashInit lib (stackCtx lib) algo
  if !ok then return (false, out)
  let (ok, c) ← libssh2AxtlsHashUpdate lib c data
  if !ok then return (false, out)
  let (ok, _, out) := libssh2AxtlsHashFinal lib c out
  return (ok, out)

/-! ## What the functions do and write -/

def updateTrace (algo : Int) (data : List UInt8) : List UInt8 :=
  if algo = LIBSSH2_AXTLS_HASH_SHA256 then updateDump data else []

variable {lib} (out : List UInt8)

theorem run_hashInit (ctx : HashCtx lib) (a : HashAlgo) :
    libssh2AxtlsHashInit lib ctx a.number out = ((true, ⟨a.number, lib.init a⟩), out) := by
  simp [libssh2AxtlsHashInit]

theorem libssh2AxtlsHashUpdate_eq (ctx : HashCtx lib) (data : List UInt8) :
    libssh2AxtlsHashUpdate lib ctx data out =
      ((match hashAlgo ctx.algo with
        | some a => (true, { ctx with
            storage := lib.update a ctx.storage data (toInt data.length) })
        | none => (false, ctx)), out ++ updateTrace ctx.algo data) := by
  unfold libssh2AxtlsHashUpdate updateTrace
  by_cases hsha : ctx.algo = LIBSSH2_AXTLS_HASH_SHA256
  · rw [if_pos hsha, if_pos hsha]
    cases hashAlgo ctx.algo <;> simp
  · rw [if_neg hsha, if_neg hsha]
    cases hashAlgo ctx.algo <;> simp

theorem run_hashUpdate (ctx : HashCtx lib) {a : HashAlgo} (ha : ctx.algo = a.number)
    (data : List UInt8) :
    libssh2AxtlsHashUpdate lib ctx data out =
      ((true, { ctx with storage := lib.update a ctx.storage data (toInt data.length) }),
        out ++ updateTrace ctx.algo data) := by
  rw [libssh2AxtlsHashUpdate_eq, ha, hashAlgo_number]

theorem hashFinal_number (ctx : HashCtx lib) {a : HashAlgo} (ha : ctx.algo = a.number)
    (buf : List UInt8) :
    libssh2AxtlsHashFinal lib ctx buf =
      (true, { ctx with storage := (lib.final a ctx.storage).2 },
        memcpy buf (lib.final a ctx.storage).1) := by
  simp only [libssh2AxtlsHashFinal, ha, hashAlgo_number]

theorem run_hash (a : HashAlgo) (data buf : List UInt8) :
    libssh2AxtlsHash lib data a.number buf out =
      ((true, memcpy buf (lib.final a (lib.update a (lib.init a) data (toInt data.length))).1),
        out ++ updateTrace a.number data) := by
  have hupdate := run_hashUpdate out (⟨a.number, lib.init a⟩ : HashCtx lib) rfl data
  have hfinal := hashFinal_number (⟨a.number, lib.update a (lib.init a) data
    (toInt data.length)⟩ : HashCtx lib) rfl buf
  simp [libssh2AxtlsHash, run_hashInit, hupdate, hfinal]

end FreedosMicroPython.Ssh.Hash
