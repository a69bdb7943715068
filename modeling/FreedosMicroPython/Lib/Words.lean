import Mathlib.Tactic.Common
/-!
# Words of bytes

The two byte orders of a 32-bit word: `word` and `wordBytes` are big-endian,
`wordLE` and `wordBytesLE` are little-endian.
-/

namespace FreedosMicroPython.Lib.Words

def word (a b c d : UInt8) : UInt32 :=
  UInt32.ofNat (((a.toNat * 256 + b.toNat) * 256 + c.toNat) * 256 + d.toNat)

def wordLE (a b c d : UInt8) : UInt32 := word d c b a

def wordBytes (w : UInt32) : List UInt8 :=
  [UInt8.ofNat (w.toNat / 0x1000000), UInt8.ofNat (w.toNat / 0x10000),
    UInt8.ofNat (w.toNat / 0x100), UInt8.ofNat w.toNat]

def wordBytesLE (w : UInt32) : List UInt8 := (wordBytes w).reverse

/-- The big-endian words of a list of bytes. Bytes after the last whole word are dropped. -/
def words : List UInt8 → List UInt32
  | a :: b :: c :: d :: rest => word a b c d :: words rest
  | _ => []

theorem toNat_word (a b c d : UInt8) :
    (word a b c d).toNat = ((a.toNat * 256 + b.toNat) * 256 + c.toNat) * 256 + d.toNat := by
  have ha := a.toNat_lt
  have hb := b.toNat_lt
  have hc := c.toNat_lt
  have hd := d.toNat_lt
  rw [word, UInt32.toNat_ofNat']
  omega

@[simp] theorem wordBytes_word (a b c d : UInt8) : wordBytes (word a b c d) = [a, b, c, d] := by
  have ha := a.toNat_lt
  have hb := b.toNat_lt
  have hc := c.toNat_lt
  have hd := d.toNat_lt
  simp only [wordBytes, toNat_word, List.cons.injEq, and_true]
  refine ⟨?_, ?_, ?_, ?_⟩ <;> apply UInt8.toNat.inj <;> rw [UInt8.toNat_ofNat'] <;> omega

end FreedosMicroPython.Lib.Words
