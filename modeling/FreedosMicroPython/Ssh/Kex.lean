import FreedosMicroPython.Ssh.Hash
/-!
# Curve25519 key exchange

`_libssh2_axtls_curve25519_new` and `_libssh2_axtls_curve25519_gen_k` of
`port/libssh2_axtls.c`, with the big number that keeps the shared secret. The
curve is that of TweetNaCl and a parameter here.
-/

namespace FreedosMicroPython.Ssh.Kex

open FreedosMicroPython.OsPath (str)
open FreedosMicroPython.Ssh.Hash

structure Curve where
  /-- What it returns, and the 32 bytes it leaves in its first argument. -/
  scalarmult : Vector UInt8 32 → Vector UInt8 32 → Int × Vector UInt8 32
  scalarmultBase : Vector UInt8 32 → Vector UInt8 32

/-! ## Big numbers -/

/-- `_bn_impl`: the `len` bytes of `data`, most significant first. -/
structure Bn where
  cap : Nat
  data : List UInt8

/-- `malloc` is tried only when the capacity is too small. -/
def bnEnsure (malloc : Bool) (b : Bn) (need : Nat) : Int × Bn :=
  if need ≤ b.cap then (0, b)
  else if malloc then (0, { b with cap := if 0 < need then need else 1 })
  else (-1, b)

def libssh2AxtlsBnFromBin (malloc : Bool) (b : Bn) (val : List UInt8) : Int × Bn :=
  let val := val.dropWhile (· = 0)
  let (rc, b) := bnEnsure malloc b val.length
  if rc < 0 then (-1, b) else (0, { b with data := val })

/-! ## The exchange -/

/-- The scalar, clamped as RFC 7748 asks. -/
def clamp (priv : Vector UInt8 32) : Vector UInt8 32 :=
  let priv := priv.set 0 (priv[0] &&& 248)
  let priv := priv.set 31 (priv[31] &&& 127)
  priv.set 31 (priv[31] ||| 64)

/-- The public and the private key. The random bytes and whether the two allocations
succeed are arguments. -/
def libssh2AxtlsCurve25519New (curve : Curve) (allocPriv allocPub : Bool)
    (random : Vector UInt8 32) : Traced (Int × Option (Vector UInt8 32 × Vector UInt8 32)) := do
  write (str "[cv:nE]")
  if !allocPriv || !allocPub then return (-1, none)
  let priv := clamp random
  let pub := curve.scalarmultBase priv
  write (str "[cv:nM]")
  return (0, some (pub, priv))

def secretDump (secret : Vector UInt8 32) : List UInt8 :=
  str "[K:" ++ (secret.toList.take 8).flatMap hexByte ++ str "]"

/-- `k` is `none` where the pointer to the big number or the number itself is null. -/
def libssh2AxtlsCurve25519GenK (curve : Curve) (malloc : Bool) (k : Option Bn)
    (privateKey serverPublicKey : Vector UInt8 32) : Traced (Int × Option Bn) := do
  write (str "[cv:kE]")
  match k with
  | none => return (-1, none)
  | some bn =>
      let (rc, secret) := curve.scalarmult privateKey serverPublicKey
      if rc ≠ 0 then
        write (str "[cv:kFail]")
        return (-1, k)
      write (secretDump secret)
      write (str "[cv:kM]")
      let (rc, bn) := libssh2AxtlsBnFromBin malloc bn secret.toList
      write (str "[cv:kB]")
      return (rc, some bn)

end FreedosMicroPython.Ssh.Kex
