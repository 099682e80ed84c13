import Mathlib.Data.Int.Order.Basic
import Mathlib.Logic.Function.Basic

/-!
# class `List` (threads/list.h, threads/list.cc)

A singly linked list of `ListElement`s with a pointer to its first and one to its last cell. The cells of
all lists are in one heap; `new` takes an address that is not in use, which may be one that was
deleted before, and a pointer to a cell that is not in use must not be followed: that, like a
`NULL` pointer that is followed, is `none`.

Items are pointers that the lists do not look at. A list operation that finds the list empty
returns `NULL`, here `none`.
-/

set_option autoImplicit false

namespace Nachos.Model

/-- Addresses other than `NULL`; a pointer is an `Option Addr`. -/
abbrev Addr : Type := ℕ

/-- class `ListElement` (list.h:24-32). -/
structure ListElement (α : Type) where
  next : Option Addr
  key : ℤ
  item : α
deriving DecidableEq, Repr

/-- The memory the elements are in: the addresses in use and what is there. `news` is the number of
elements made so far. -/
structure ListHeap (α : Type) where
  live : List Addr
  cell : Addr → ListElement α
  news : ℕ

/-- How `new` finds an address: any way that does not give one that is in use. -/
structure Allocator where
  pick : ℕ → List Addr → Addr
  fresh : ∀ n live, pick n live ∉ live

/-- class `List` (list.h:40-66). -/
structure LinkedList where
  first : Option Addr
  last : Option Addr
deriving DecidableEq, Repr

namespace ListHeap

variable {α : Type}

/-- `*p`. -/
def load (h : ListHeap α) (p : Option Addr) : Option (ListElement α) := do
  let a ← p
  if a ∈ h.live then some (h.cell a) else none

/-- `p->next = next`. -/
def setNext (h : ListHeap α) (p next : Option Addr) : Option (ListHeap α) := do
  let a ← p
  if a ∈ h.live then
    some { h with cell := Function.update h.cell a { h.cell a with next := next } }
  else none

/-- `new ListElement(itemPtr, sortKey)` (list.cc:30-35). -/
def new (A : Allocator) (h : ListHeap α) (itemPtr : α) (sortKey : ℤ) : Addr × ListHeap α :=
  let a := A.pick h.news h.live
  (a, { live := a :: h.live
        cell := Function.update h.cell a ⟨none, sortKey, itemPtr⟩
        news := h.news + 1 })

/-- `delete p`. -/
def delete (h : ListHeap α) (p : Option Addr) : Option (ListHeap α) := do
  let a ← p
  if a ∈ h.live then some { h with live := h.live.filter (· ≠ a) } else none

end ListHeap

namespace LinkedList

variable {α : Type}

/-- `List::List` (list.cc:43-46). -/
def new : LinkedList := ⟨none, none⟩

/-- `List::IsEmpty` (list.cc:154-161). -/
def isEmpty (l : LinkedList) : Bool := l.first.isNone

/-- `last->next = element; last = element`. -/
def putLast (l : LinkedList) (h : ListHeap α) (element : Addr) : Option (LinkedList × ListHeap α) := do
  let h ← h.setNext l.last (some element)
  return ({ l with last := some element }, h)

/-- `element->next = first; first = element`. -/
def putFirst (l : LinkedList) (h : ListHeap α) (element : Addr) : Option (LinkedList × ListHeap α) := do
  let h ← h.setNext (some element) l.first
  return ({ l with first := some element }, h)

/-- `List::Append` (list.cc:76-88). -/
def append (A : Allocator) (l : LinkedList) (h : ListHeap α) (item : α) :
    Option (LinkedList × ListHeap α) :=
  let (element, h) := h.new A item 0
  if l.isEmpty then some (⟨some element, some element⟩, h) else l.putLast h element

/-- `List::Prepend` (list.cc:102-114). -/
def prepend (A : Allocator) (l : LinkedList) (h : ListHeap α) (item : α) :
    Option (LinkedList × ListHeap α) :=
  let (element, h) := h.new A item 0
  if l.isEmpty then some (⟨some element, some element⟩, h) else l.putFirst h element

/-- The loop of `SortedInsert` (list.cc:193-201) from `ptr` on, with `n` rounds allowed. -/
def insertLoop (l : LinkedList) (h : ListHeap α) (element : Addr) (sortKey : ℤ) :
    ℕ → Option Addr → Option (LinkedList × ListHeap α)
  | 0, _ => none
  | n + 1, ptr => do
    let e ← h.load ptr
    if e.next = none then l.putLast h element
    else
      let e' ← h.load e.next
      if sortKey < e'.key then
        let h ← h.setNext (some element) e.next
        let h ← h.setNext ptr (some element)
        return (l, h)
      else l.insertLoop h element sortKey n e.next

/-- `List::SortedInsert` (list.cc:178-203). The loop has a round for every element there is. -/
def sortedInsert (A : Allocator) (l : LinkedList) (h : ListHeap α) (item : α) (sortKey : ℤ) :
    Option (LinkedList × ListHeap α) :=
  let (element, h) := h.new A item sortKey
  if l.isEmpty then some (⟨some element, some element⟩, h)
  else do
    let e ← h.load l.first
    if sortKey < e.key then l.putFirst h element
    else l.insertLoop h element sortKey h.live.length l.first

/-- `List::SortedRemove` (list.cc:217-237): the item and `*keyPtr`. -/
def sortedRemove (l : LinkedList) (h : ListHeap α) :
    Option (Option (α × ℤ) × LinkedList × ListHeap α) :=
  let element := l.first
  if l.isEmpty then some (none, l, h)
  else do
    let e ← h.load l.first
    let thing := e.item
    let l' : LinkedList := if l.first = l.last then ⟨none, none⟩ else { l with first := e.next }
    let h ← h.delete element
    return (some (thing, e.key), l', h)

/-- `List::Remove` (list.cc:124-128). -/
def remove (l : LinkedList) (h : ListHeap α) : Option (Option α × LinkedList × ListHeap α) := do
  let (r, l, h) ← l.sortedRemove h
  return (r.map Prod.fst, l, h)

/-- The loop of `List::Mapcar` (list.cc:140-147) from `ptr` on, with `n` rounds allowed: the items `func` is
called with. -/
def mapcarFrom (h : ListHeap α) : ℕ → Option Addr → Option (List α)
  | _, none => some []
  | 0, some _ => none
  | n + 1, some ptr => do
    let e ← h.load (some ptr)
    let items ← mapcarFrom h n e.next
    return e.item :: items

/-- `List::Mapcar` for a function that leaves the lists alone. -/
def mapcar (l : LinkedList) (h : ListHeap α) : Option (List α) := mapcarFrom h h.live.length l.first

end LinkedList

/-- A call of a member function. -/
inductive ListCall (α : Type) where
  | append (item : α)
  | prepend (item : α)
  | remove
  | mapcar
  | isEmpty
  | sortedInsert (item : α) (sortKey : ℤ)
  | sortedRemove
deriving DecidableEq, Repr

/-- What a call returns. -/
inductive ListAnswer (α : Type) where
  | void
  | flag (b : Bool)
  | item (i : Option α)
  | keyed (i : Option (α × ℤ))
  | items (is : List α)
deriving DecidableEq, Repr

/-- All the lists of the kernel with the memory of their elements. -/
structure ListSystem (ι α : Type) where
  heap : ListHeap α
  lists : ι → LinkedList

namespace ListSystem

variable {ι α : Type} [DecidableEq ι]

/-- The system when a call on list `i` has left it. -/
def put (s : ListSystem ι α) (i : ι) (l : LinkedList) (h : ListHeap α) : ListSystem ι α :=
  { heap := h, lists := Function.update s.lists i l }

/-- One call on list `i`. -/
def call (A : Allocator) (s : ListSystem ι α) (i : ι) :
    ListCall α → Option (ListAnswer α × ListSystem ι α)
  | .append item => do
    let (l, h) ← (s.lists i).append A s.heap item
    return (.void, s.put i l h)
  | .prepend item => do
    let (l, h) ← (s.lists i).prepend A s.heap item
    return (.void, s.put i l h)
  | .remove => do
    let (r, l, h) ← (s.lists i).remove s.heap
    return (.item r, s.put i l h)
  | .mapcar => do
    let is ← (s.lists i).mapcar s.heap
    return (.items is, s)
  | .isEmpty => some (.flag (s.lists i).isEmpty, s)
  | .sortedInsert item sortKey => do
    let (l, h) ← (s.lists i).sortedInsert A s.heap item sortKey
    return (.void, s.put i l h)
  | .sortedRemove => do
    let (r, l, h) ← (s.lists i).sortedRemove s.heap
    return (.keyed r, s.put i l h)

end ListSystem

end Nachos.Model
