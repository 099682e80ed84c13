import Mathlib.Data.BitVec
import Mathlib.Logic.Function.Basic
import Nachos.Model.Utility

/-!
# `BitMap` (userprog/bitmap.cc)

A bitmap of `numBits` bits kept in an array of 32-bit words. Bit `which` is bit
`which % BitsInWord` of word `which / BitsInWord`. `mark`, `clear` and `test` start
with the source's `ASSERT(which >= 0 && which < numBits)`; a failed assertion calls
`Abort` and is `none` here. Indices are `ℤ` as they are `int` in the source: `find`
answers `-1` when no bit is clear.
-/

set_option autoImplicit false

namespace Nachos.Model

/-- Bits in one word of the map (bitmap.h:24). -/
def bitsInWord : ℕ := 32

/-- class `BitMap` (bitmap.h:34-62): `map` is the word array, read at any index as C
reads it, and `numWords` is computed from `numBits` when it is needed. -/
structure BitMap where
  numBits : ℕ
  map : ℕ → BitVec 32

namespace BitMap

/-- Words of storage, rounded up (bitmap.cc:23). -/
def numWords (b : BitMap) : ℕ := divRoundUp b.numBits bitsInWord

/-- The condition the three bit operations assert (bitmap.cc:49, 63, 77). -/
def InRange (b : BitMap) (which : ℤ) : Prop := 0 ≤ which ∧ which < b.numBits

instance (b : BitMap) (which : ℤ) : Decidable (b.InRange which) :=
  inferInstanceAs (Decidable (_ ∧ _))

/-- The word of the map that holds bit `which`. -/
def wordOf (which : ℤ) : ℕ := (which / bitsInWord).toNat

/-- `1 << (which % BitsInWord)`. -/
def maskOf (which : ℤ) : BitVec 32 := 1#32 <<< (which % bitsInWord).toNat

/-- `BitMap::Mark` (bitmap.cc:46-51). -/
def mark (b : BitMap) (which : ℤ) : Option BitMap :=
  if b.InRange which then
    some { b with map := Function.update b.map (wordOf which) (b.map (wordOf which) ||| maskOf which) }
  else none

/-- `BitMap::Clear` (bitmap.cc:60-65). -/
def clear (b : BitMap) (which : ℤ) : Option BitMap :=
  if b.InRange which then
    some { b with map := Function.update b.map (wordOf which) (b.map (wordOf which) &&& ~~~ maskOf which) }
  else none

/-- `BitMap::Test` (bitmap.cc:74-83). -/
def test (b : BitMap) (which : ℤ) : Option Bool :=
  if b.InRange which then some (decide (b.map (wordOf which) &&& maskOf which ≠ 0#32)) else none

/-- The loop of `BitMap::Find` from index `i`, with `n` indices left. -/
def findFrom (b : BitMap) : ℕ → ℕ → Option (ℤ × BitMap)
  | _, 0 => some (-1, b)
  | i, n + 1 => do
    if ← b.test i then
      findFrom b (i + 1) n
    else
      let b' ← b.mark i
      return ((i : ℤ), b')

/-- `BitMap::Find` (bitmap.cc:94-103): the first clear bit, which it marks, or `-1`. -/
def find (b : BitMap) : Option (ℤ × BitMap) := b.findFrom 0 b.numBits

/-- The loop of `BitMap::NumClear` from index `i`, with `n` indices left. -/
def numClearFrom (b : BitMap) : ℕ → ℕ → ℕ → Option ℕ
  | _, 0, count => some count
  | i, n + 1, count => do
    if ← b.test i then
      numClearFrom b (i + 1) n count
    else
      numClearFrom b (i + 1) n (count + 1)

/-- `BitMap::NumClear` (bitmap.cc:111-119). -/
def numClear (b : BitMap) : Option ℕ := b.numClearFrom 0 b.numBits 0

/-- The constructor's loop: `Clear(i)` for the `n` indices from `i` on. -/
def clearFrom (b : BitMap) : ℕ → ℕ → Option BitMap
  | _, 0 => some b
  | i, n + 1 => do
    let b' ← b.clear i
    clearFrom b' (i + 1) n

/-- `BitMap::BitMap` (bitmap.cc:20-27). `new` leaves the words with whatever the memory
held, which is `words`; the loop then clears the bits one by one. -/
def new (nitems : ℕ) (words : ℕ → BitVec 32) : Option BitMap :=
  clearFrom ⟨nitems, words⟩ 0 nitems

/-- The calls on a bitmap of `nitems` bits, with the indices the assertions ask for. -/
inductive Call (nitems : ℕ) where
  | mark (which : Fin nitems)
  | clear (which : Fin nitems)
  | test (which : Fin nitems)
  | find
  | numClear
  deriving DecidableEq, Repr

/-- What a call returns: nothing, a `bool` or an `int`. -/
inductive Answer where
  | void
  | flag (b : Bool)
  | number (n : ℤ)
  deriving DecidableEq, Repr

/-- One call of a member function. -/
def call {nitems : ℕ} (b : BitMap) : Call nitems → Option (Answer × BitMap)
  | .mark i => do
    let b' ← b.mark (i : ℕ)
    return (.void, b')
  | .clear i => do
    let b' ← b.clear (i : ℕ)
    return (.void, b')
  | .test i => do
    let answer ← b.test (i : ℕ)
    return (.flag answer, b)
  | .find => do
    let (i, b') ← b.find
    return (.number i, b')
  | .numClear => do
    let count ← b.numClear
    return (.number count, b)

end BitMap

end Nachos.Model
