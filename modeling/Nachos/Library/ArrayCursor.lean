import Mathlib.Algebra.GroupWithZero.Nat
import Mathlib.Data.List.Basic

/-!
# An array of fixed length with a cursor

The abstract form of a file that does not grow: a list of cells whose length never changes, and a
position from which the next transfer starts. A transfer is cut at the end of the cells and moves
the position by as many cells as it has transferred; one at a given place leaves the position.

What matters of it is how transfers compose. `overwrite_append` joins two writes that follow each
other and `readAll_eq` a sequence of reads, so that a text written in pieces is read back whatever
the pieces (`readAll_after_writeAll`).
-/

set_option autoImplicit false

namespace Nachos.Library

variable {α : Type}

/-- The cells with those from `p` on replaced, as far as there are any. -/
def overwrite (cells : List α) (p : ℕ) (src : List α) : List α :=
  cells.take p ++ src.take (cells.length - p) ++ cells.drop (p + src.length)

@[simp] theorem length_overwrite (cells : List α) (p : ℕ) (src : List α) :
    (overwrite cells p src).length = cells.length := by
  simp only [overwrite, List.length_append, List.length_take, List.length_drop]
  omega

theorem getElem?_overwrite (cells : List α) (p : ℕ) (src : List α) {k : ℕ}
    (hk : k < cells.length) :
    (overwrite cells p src)[k]? = if p ≤ k ∧ k < p + src.length then src[k - p]? else cells[k]? := by
  have htake : (cells.take p).length = min p cells.length := List.length_take
  have hsrc : (src.take (cells.length - p)).length = min (cells.length - p) src.length :=
    List.length_take
  unfold overwrite
  by_cases hbefore : k < p
  · rw [if_neg (by omega), List.append_assoc, List.getElem?_append_left (by omega),
      List.getElem?_take_of_lt hbefore]
  · by_cases hin : k < p + src.length
    · rw [if_pos ⟨by omega, hin⟩, List.getElem?_append_left (by rw [List.length_append]; omega),
        List.getElem?_append_right (by omega), htake, List.getElem?_take_of_lt (by omega)]
      congr 1
      omega
    · rw [if_neg (by omega), List.getElem?_append_right (by rw [List.length_append]; omega),
        List.getElem?_drop, List.length_append, htake, hsrc]
      congr 1
      omega

/-- Writing two pieces one behind the other is writing them as one. -/
theorem overwrite_append (cells : List α) (p : ℕ) (src src' : List α) :
    overwrite (overwrite cells p src) (p + src.length) src' = overwrite cells p (src ++ src') := by
  apply List.ext_getElem?
  intro k
  by_cases hk : k < cells.length
  · rw [getElem?_overwrite _ _ _ (by rwa [length_overwrite]), getElem?_overwrite _ _ _ hk,
      getElem?_overwrite _ _ _ hk, List.length_append]
    by_cases hlow : k < p + src.length
    · rw [if_neg (by omega)]
      by_cases hp : p ≤ k
      · rw [if_pos ⟨hp, hlow⟩, if_pos ⟨hp, by omega⟩, List.getElem?_append_left (by omega)]
      · rw [if_neg (by omega), if_neg (by omega)]
    · by_cases hhigh : k < p + src.length + src'.length
      · rw [if_pos ⟨by omega, hhigh⟩, if_pos ⟨by omega, by omega⟩,
          List.getElem?_append_right (by omega)]
        congr 1
        omega
      · rw [if_neg (by omega), if_neg (by omega), if_neg (by omega)]
  · rw [List.getElem?_eq_none (by simpa using hk), List.getElem?_eq_none (by simpa using hk)]

theorem overwrite_nil (cells : List α) (p : ℕ) : overwrite cells p [] = cells := by
  simp [overwrite]

/-- Cells and a position among them. -/
structure ArrayCursor (α : Type) where
  cells : List α
  position : ℕ

/-- A transfer from the position or from a given place, or a move of the position. -/
inductive Access (α : Type) where
  | seek (p : ℕ)
  | read (n : ℕ)
  | write (src : List α)
  | readAt (n p : ℕ)
  | writeAt (src : List α) (p : ℕ)

namespace ArrayCursor

/-- The cells that an access transfers. -/
def transferred (a : ArrayCursor α) : Access α → List α
  | .seek _ => []
  | .read n => (a.cells.drop a.position).take n
  | .write src => src.take (a.cells.length - a.position)
  | .readAt n p => (a.cells.drop p).take n
  | .writeAt src p => src.take (a.cells.length - p)

/-- The array and the position after an access. -/
def after (a : ArrayCursor α) (access : Access α) : ArrayCursor α :=
  match access with
  | .seek p => { a with position := p }
  | .read _ => { a with position := a.position + (a.transferred access).length }
  | .write src =>
    ⟨overwrite a.cells a.position src, a.position + (a.transferred access).length⟩
  | .readAt _ _ => a
  | .writeAt src p => { a with cells := overwrite a.cells p src }

/-- The array and the position after a list of accesses. -/
def afterAll (a : ArrayCursor α) (accesses : List (Access α)) : ArrayCursor α :=
  accesses.foldl after a

/-- The cells that an access hands to its caller. -/
def delivered (a : ArrayCursor α) (access : Access α) : List α :=
  match access with
  | .read _ | .readAt _ _ => a.transferred access
  | .seek _ | .write _ | .writeAt _ _ => []

/-- Everything that the reads of a list of accesses deliver. -/
def readAll (a : ArrayCursor α) : List (Access α) → List α
  | [] => []
  | access :: rest => a.delivered access ++ (a.after access).readAll rest

theorem readAll_append (a : ArrayCursor α) (l l' : List (Access α)) :
    a.readAll (l ++ l') = a.readAll l ++ (a.afterAll l).readAll l' := by
  induction l generalizing a with
  | nil => rfl
  | cons access l ih =>
    rw [List.cons_append, readAll, readAll, ih, List.append_assoc]
    rfl

/-- Reading in pieces is reading as much at once. -/
theorem readAll_eq (a : ArrayCursor α) (sizes : List ℕ) :
    a.readAll (sizes.map .read) = (a.cells.drop a.position).take sizes.sum := by
  induction sizes generalizing a with
  | nil => rfl
  | cons n sizes ih =>
    rw [List.map_cons, readAll, ih, List.sum_cons, List.take_add]
    congr 1
    simp only [after, transferred, List.length_take, List.length_drop, List.drop_drop]
    by_cases hn : n ≤ a.cells.length - a.position
    · rw [Nat.min_eq_left hn]
    · rw [List.drop_eq_nil_of_le (by omega), List.drop_eq_nil_of_le (by omega)]

/-- Writing in pieces is writing them as one. -/
theorem afterAll_writes (a : ArrayCursor α) (chunks : List (List α))
    (h : a.position + chunks.flatten.length ≤ a.cells.length) :
    a.afterAll (chunks.map .write) =
      ⟨overwrite a.cells a.position chunks.flatten, a.position + chunks.flatten.length⟩ := by
  induction chunks generalizing a with
  | nil => simp [afterAll, overwrite_nil]
  | cons chunk chunks ih =>
    rw [List.flatten_cons, List.length_append] at h
    have hchunk : (a.transferred (.write chunk)).length = chunk.length := by
      simp only [transferred, List.length_take]
      omega
    have hstep : a.afterAll ((chunk :: chunks).map .write) =
        (⟨overwrite a.cells a.position chunk, a.position + chunk.length⟩ :
          ArrayCursor α).afterAll (chunks.map .write) := by
      rw [← hchunk]
      rfl
    have hroom : a.position + chunk.length + chunks.flatten.length ≤
        (overwrite a.cells a.position chunk).length := by
      rw [length_overwrite]
      omega
    rw [hstep, ih _ hroom, overwrite_append, List.flatten_cons, List.length_append, Nat.add_assoc]

theorem readAll_writes (a : ArrayCursor α) (chunks : List (List α)) :
    a.readAll (chunks.map .write) = [] := by
  induction chunks generalizing a with
  | nil => rfl
  | cons chunk chunks ih =>
    rw [List.map_cons, readAll, ih, List.append_nil]
    rfl

/-- **What is written in pieces is read back in other pieces.** -/
theorem readAll_after_writeAll (a : ArrayCursor α) (chunks : List (List α)) (sizes : List ℕ)
    (h : a.position + chunks.flatten.length ≤ a.cells.length)
    (hsizes : sizes.sum = chunks.flatten.length) :
    a.readAll (chunks.map .write ++ .seek a.position :: sizes.map .read) = chunks.flatten := by
  have hcell : (chunks.flatten.take (a.cells.length - a.position)).length =
      chunks.flatten.length := by
    rw [List.length_take]
    omega
  rw [readAll_append, readAll_writes, List.nil_append, readAll, afterAll_writes a chunks h,
    readAll_eq, hsizes]
  simp only [delivered, after, overwrite, List.nil_append]
  rw [List.append_assoc, List.drop_append_of_le_length (by rw [List.length_take]; omega),
    List.drop_eq_nil_of_le (by rw [List.length_take]; omega), List.nil_append, ← hcell,
    List.take_left, List.take_of_length_le (by omega)]

end ArrayCursor

end Nachos.Library
