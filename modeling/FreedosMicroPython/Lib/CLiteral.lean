import Mathlib.Tactic.Common
/-!
# String literals of C

The bytes that a string literal denotes, read one character at a time. A `\x`
escape takes all the hexadecimal digits that follow it, an octal escape at most
three digits; an escape whose value is no byte makes the literal invalid, as does a
character outside ASCII. Trigraphs are not replaced.
-/

namespace FreedosMicroPython.Lib.CLiteral

/-- Where in a literal the next character stands. -/
inductive Mode where
  | plain
  | escape
  | hex (value : Option Nat)
  | octal (digits value : Nat)
  | closed
  deriving DecidableEq, Repr

def hexDigit (c : Char) : Option Nat :=
  if '0'.toNat ≤ c.toNat ∧ c.toNat ≤ '9'.toNat then some (c.toNat - '0'.toNat)
  else if 'a'.toNat ≤ c.toNat ∧ c.toNat ≤ 'f'.toNat then some (c.toNat - 'a'.toNat + 10)
  else if 'A'.toNat ≤ c.toNat ∧ c.toNat ≤ 'F'.toNat then some (c.toNat - 'A'.toNat + 10)
  else none

def octalDigit (c : Char) : Option Nat :=
  if '0'.toNat ≤ c.toNat ∧ c.toNat ≤ '7'.toNat then some (c.toNat - '0'.toNat) else none

def simpleEscape : Char → Option Nat
  | '\'' => some 39
  | '"' => some 34
  | '?' => some 63
  | '\\' => some 92
  | 'a' => some 7
  | 'b' => some 8
  | 'f' => some 12
  | 'n' => some 10
  | 'r' => some 13
  | 't' => some 9
  | 'v' => some 11
  | _ => none

/-- A numeric escape is over: its byte, if it is one. -/
def byteOf (value : Nat) : Option (List UInt8) :=
  if value < 256 then some [UInt8.ofNat value] else none

def stepPlain (c : Char) : Option (List UInt8 × Mode) :=
  if c = '"' then some ([], .closed)
  else if c = '\\' then some ([], .escape)
  else if c = '\n' then none
  else if c.toNat < 128 then some ([UInt8.ofNat c.toNat], .plain)
  else none

def stepPast (value : Nat) (c : Char) : Option (List UInt8 × Mode) :=
  (byteOf value).bind fun done => (stepPlain c).map fun next => (done ++ next.1, next.2)

/-- The bytes that are complete once `c` has been read. -/
def step : Mode → Char → Option (List UInt8 × Mode)
  | .plain, c => stepPlain c
  | .escape, c =>
      match simpleEscape c with
      | some b => some ([UInt8.ofNat b], .plain)
      | none =>
          if c = 'x' then some ([], .hex none)
          else (octalDigit c).map fun d => ([], .octal 1 d)
  | .hex none, c => (hexDigit c).map fun d => ([], .hex (some d))
  | .hex (some value), c =>
      match hexDigit c with
      | some d => some ([], .hex (some (16 * value + d)))
      | none => stepPast value c
  | .octal digits value, c =>
      match octalDigit c with
      | some d =>
          if digits < 3 then some ([], .octal (digits + 1) (8 * value + d)) else stepPast value c
      | none => stepPast value c
  | .closed, _ => none

/-- The bytes that are complete once a text has been read. -/
def lex : Mode → List Char → Option (List UInt8 × Mode)
  | mode, [] => some ([], mode)
  | mode, c :: cs =>
      (step mode c).bind fun next =>
        (lex next.2 cs).map fun rest => (next.1 ++ rest.1, rest.2)

/-- The bytes that the literal `s` denotes, its quotes included in `s`. -/
def denotes : List Char → Option (List UInt8)
  | '"' :: body =>
      match lex .plain body with
      | some (bytes, .closed) => some bytes
      | _ => none
  | _ => none

/-! ## Reading a literal piece by piece -/

theorem lex_cons_of_step {mode mode' : Mode} {c : Char} {bytes : List UInt8}
    (h : step mode c = some (bytes, mode')) (cs : List Char) :
    lex mode (c :: cs) = (lex mode' cs).map fun rest => (bytes ++ rest.1, rest.2) := by
  rw [lex, h, Option.bind_some]

theorem lex_append (mode : Mode) (xs ys : List Char) :
    lex mode (xs ++ ys) = (lex mode xs).bind fun first =>
      (lex first.2 ys).map fun rest => (first.1 ++ rest.1, rest.2) := by
  induction xs generalizing mode with
  | nil => simp [lex]
  | cons c xs ih =>
      rw [List.cons_append, lex, lex]
      cases step mode c with
      | none => rfl
      | some next =>
          rw [Option.bind_some, Option.bind_some, ih]
          cases lex next.2 xs with
          | none => rfl
          | some first =>
              rw [Option.bind_some, Option.map_some, Option.bind_some]
              cases lex first.2 ys with
              | none => rfl
              | some rest => simp

theorem lex_append_of_lex {mode mode' : Mode} {xs : List Char} {bytes : List UInt8}
    (h : lex mode xs = some (bytes, mode')) (ys : List Char) :
    lex mode (xs ++ ys) = (lex mode' ys).map fun rest => (bytes ++ rest.1, rest.2) := by
  rw [lex_append, h, Option.bind_some]

/-- A hexadecimal escape swallows the digit behind it. -/
theorem lex_hex_digit {c : Char} {d : Nat} (hc : hexDigit c = some d) (value : Nat)
    (cs : List Char) :
    lex (.hex (some value)) (c :: cs) = lex (.hex (some (16 * value + d))) cs := by
  rw [lex_cons_of_step (by rw [step, hc])]
  cases lex (.hex (some (16 * value + d))) cs <;> rfl

theorem lex_hex_past {c : Char} (hc : hexDigit c = none) (value : Nat) (cs : List Char) :
    lex (.hex (some value)) (c :: cs) = (byteOf value).bind fun done =>
      (lex .plain (c :: cs)).map fun rest => (done ++ rest.1, rest.2) := by
  have hstep : step (.hex (some value)) c = stepPast value c := by rw [step, hc]
  rw [lex, hstep, lex, step]
  cases hbyte : byteOf value with
  | none => simp [stepPast, hbyte]
  | some done =>
      cases hplain : stepPlain c with
      | none => simp [stepPast, hbyte, hplain]
      | some next =>
          simp only [stepPast, hbyte, hplain, Option.bind_some, Option.map_some]
          cases lex next.2 cs <;> simp

end FreedosMicroPython.Lib.CLiteral
