import FreedosMicroPython.Lib.Words
/-!
# SHA-1

The hash function as the standard defines it: the padded message is compressed
block by block into five words.
-/

namespace FreedosMicroPython.Lib.Sha1

open FreedosMicroPython.Lib.Words

def rotl (n x : UInt32) : UInt32 := x <<< n ||| x >>> (32 - n)

/-- `n` more words of the message schedule, latest first. -/
def schedule : Nat → List UInt32 → List UInt32
  | 0, ws => ws
  | n + 1, ws =>
      let w := rotl 1 (ws.getD 2 0 ^^^ ws.getD 7 0 ^^^ ws.getD 13 0 ^^^ ws.getD 15 0)
      schedule n (w :: ws)

structure State where
  a : UInt32
  b : UInt32
  c : UInt32
  d : UInt32
  e : UInt32

/-- The function of round `t` and its constant. -/
def mixed (t : Nat) (b c d : UInt32) : UInt32 :=
  if t < 20 then (b &&& c ||| ~~~b &&& d) + 0x5A827999
  else if t < 40 then (b ^^^ c ^^^ d) + 0x6ED9EBA1
  else if t < 60 then (b &&& c ||| b &&& d ||| c &&& d) + 0x8F1BBCDC
  else (b ^^^ c ^^^ d) + 0xCA62C1D6

def rounds : Nat → State → List UInt32 → State
  | _, s, [] => s
  | t, ⟨a, b, c, d, e⟩, w :: ws =>
      rounds (t + 1) ⟨rotl 5 a + mixed t b c d + e + w, a, rotl 30 b, c, d⟩ ws

def compress (s : State) (block : List UInt32) : State :=
  let r := rounds 0 s (schedule 64 block.reverse).reverse
  ⟨s.a + r.a, s.b + r.b, s.c + r.c, s.d + r.d, s.e + r.e⟩

def compressAll : Nat → State → List UInt32 → State
  | 0, s, _ => s
  | n + 1, s, ws => compressAll n (compress s (ws.take 16)) (ws.drop 16)

def initial : State := ⟨0x67452301, 0xEFCDAB89, 0x98BADCFE, 0x10325476, 0xC3D2E1F0⟩

/-- The message, a one bit, zeros, and the length of the message in bits. -/
def pad (m : List UInt8) : List UInt8 :=
  m ++ 0x80 :: List.replicate ((119 - m.length % 64) % 64) 0 ++
    wordBytes (UInt32.ofNat (8 * m.length / 0x100000000)) ++ wordBytes (UInt32.ofNat (8 * m.length))

def sha1 (m : List UInt8) : List UInt8 :=
  let ws := words (pad m)
  let s := compressAll (ws.length / 16) initial ws
  wordBytes s.a ++ wordBytes s.b ++ wordBytes s.c ++ wordBytes s.d ++ wordBytes s.e

theorem length_sha1 (m : List UInt8) : (sha1 m).length = 20 := rfl

end FreedosMicroPython.Lib.Sha1
