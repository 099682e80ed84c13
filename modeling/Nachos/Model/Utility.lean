import Mathlib.Algebra.Group.Int.Defs
import Mathlib.Algebra.Group.Nat.Defs

/-!
# Integer arithmetic of the C++ code (threads/utility.h)

An `int` or `unsigned int` expression is an integer here; where the 32 bits can run over,
the value is wrapped with `toInt32` or `toUInt32`.
-/

set_option autoImplicit false

namespace Nachos.Model

/-- An `int` expression: the value wraps into the signed 32-bit range. -/
def toInt32 (x : ℤ) : ℤ := x.bmod (2 ^ 32)

/-- The same for `unsigned int`. -/
def toUInt32 (x : ℤ) : ℤ := x % 2 ^ 32

/-- `divRoundUp` (utility.h:40) on non-negative operands. -/
def divRoundUp (n s : ℕ) : ℕ := n / s + if n % s > 0 then 1 else 0

/-- `divRoundUp` on `int`s, where C rounds towards zero. -/
def divRoundUpInt (n s : ℤ) : ℤ := n.tdiv s + if n.tmod s > 0 then 1 else 0

/-- `divRoundDown` (utility.h:39) on `int`s. -/
def divRoundDown (n s : ℤ) : ℤ := n.tdiv s

end Nachos.Model
