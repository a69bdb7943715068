import Mathlib.Tactic.Common
/-!
# What the port uses of the interpreter

A C function that ends in `mp_raise_OSError(e)` is modelled by a result in
`Except MpErrno`; everything it did to the machine before is kept.
-/

namespace FreedosMicroPython.Runtime

inductive MpErrno where
  | enoent
  | eio
  | ebadf
  | eacces
  | einval
  | emfile
  deriving DecidableEq, Repr

end FreedosMicroPython.Runtime
