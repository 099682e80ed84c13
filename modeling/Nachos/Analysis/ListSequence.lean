import Mathlib.Data.List.Sort
import Nachos.Library.Chain
import Nachos.Library.Simulation
import Nachos.Model.LinkedList

/-!
# A `List` is a sequence of items with keys

`Linked h l chain view` says that the list `l` has the cells `chain` in the heap `h`, that `last` points
to the last of them, and that they hold the items and keys `view`. Each operation is specified on the
view (`sequenceCall`) and by what it leaves alone (`LeavesAlone`): it changes no cell in use but
those of its own list, and the cells it takes are new. So operations on one list are not noticed by the
others, and all the lists over one heap are a family of sequences.

The loop of `SortedInsert` stands at a cell whose key is not greater than the new one and goes on
until the next cell has a greater key; `insertLoop_spec` is the induction over the cells behind.
-/

set_option autoImplicit false

namespace Nachos.Analysis

open Nachos.Library Nachos.Model

/-! ## The specification -/

section Specification

variable {ι α : Type} [DecidableEq ι]

/-- Before the first item with a greater key. -/
def insertByKey (item : α) (sortKey : ℤ) (view : List (α × ℤ)) : List (α × ℤ) :=
  view.orderedInsert (fun a b => a.2 < b.2) (item, sortKey)

/-- What a call does to a sequence of items with keys. -/
def sequenceCall (view : List (α × ℤ)) : ListCall α → ListAnswer α × List (α × ℤ)
  | .append item => (.void, view ++ [(item, 0)])
  | .prepend item => (.void, (item, 0) :: view)
  | .remove => (.item (view.head?.map Prod.fst), view.tail)
  | .mapcar => (.items (view.map Prod.fst), view)
  | .isEmpty => (.flag view.isEmpty, view)
  | .sortedInsert item sortKey => (.void, insertByKey item sortKey view)
  | .sortedRemove => (.keyed view.head?, view.tail)

/-- The same for one of many sequences. -/
def sequencesCall (views : ι → List (α × ℤ)) (c : ι × ListCall α) :
    ListAnswer α × (ι → List (α × ℤ)) :=
  ((sequenceCall (views c.1) c.2).1, Function.update views c.1 (sequenceCall (views c.1) c.2).2)

end Specification

/-! ## Lists in a heap -/

variable {α : Type}

/-- What is kept at an address. -/
def entryOf (h : ListHeap α) (p : Addr) : α × ℤ := ((h.cell p).item, (h.cell p).key)

/-- The list `l` is in the cells `chain`, in this order, with the entries `view`. -/
structure Linked (h : ListHeap α) (l : LinkedList) (chain : List Addr) (view : List (α × ℤ)) :
    Prop where
  first : Chain (fun p => (h.cell p).next) l.first chain
  last : l.last = chain.getLast?
  live : ∀ p ∈ chain, p ∈ h.live
  nodup : chain.Nodup
  view : chain.map (entryOf h) = view

/-- An operation on the cells `chain` that leaves a list in the cells `chain'`. -/
structure LeavesAlone (h h' : ListHeap α) (chain chain' : List Addr) : Prop where
  kept : ∀ p ∈ h.live, p ∉ chain → p ∈ h'.live ∧ h'.cell p = h.cell p
  fresh : ∀ p ∈ chain', p ∈ chain ∨ p ∉ h.live

section Heap

variable {h h' : ListHeap α} {l : LinkedList} {chain chain' : List Addr} {view : List (α × ℤ)}
  {p a : Addr} {ps qs : List Addr}

theorem load_of_mem (hp : p ∈ h.live) : h.load (some p) = some (h.cell p) := by
  simp [ListHeap.load, hp]

theorem setNext_of_mem (hp : p ∈ h.live) (next : Option Addr) :
    h.setNext (some p) next =
      some { h with cell := Function.update h.cell p { h.cell p with next := next } } := by
  simp [ListHeap.setNext, hp]

theorem Linked.of_frame (hl : Linked h l chain view) {own own' : List Addr}
    (hframe : LeavesAlone h h' own own') (hdisj : ∀ p ∈ chain, p ∉ own) :
    Linked h' l chain view ∧ ∀ p ∈ chain, p ∉ own' := by
  have hkept : ∀ p ∈ chain, p ∈ h'.live ∧ h'.cell p = h.cell p :=
    fun p hp => hframe.kept p (hl.live p hp) (hdisj p hp)
  refine ⟨⟨?_, hl.last, fun p hp => (hkept p hp).1, hl.nodup, ?_⟩, fun p hp hown => ?_⟩
  · exact hl.first.congr fun p hp => by simp only [(hkept p hp).2]
  · rw [← hl.view]
    refine List.map_congr_left fun p hp => ?_
    simp only [entryOf, (hkept p hp).2]
  · rcases hframe.fresh p hown with hmem | hnot
    · exact hdisj p hp hmem
    · exact hnot (hl.live p hp)

theorem Linked.length_le (hl : Linked h l chain view) : chain.length ≤ h.live.length :=
  (List.subperm_of_subset hl.nodup hl.live).length_le

theorem Linked.isEmpty_eq (hl : Linked h l chain view) : l.isEmpty = view.isEmpty := by
  rw [LinkedList.isEmpty, hl.first.head?, ← hl.view]
  cases chain <;> rfl

theorem linked_new (h : ListHeap α) : Linked h LinkedList.new [] [] :=
  ⟨rfl, rfl, by simp, List.nodup_nil, rfl⟩

/-! ## New cells -/

/-- INTERNAL: a new cell before the first one. -/
theorem Linked.cons (hl : Linked h l chain view) (ha : a ∉ h.live) {item : α} {key : ℤ}
    (hlive : h'.live = a :: h.live) (hcell : h'.cell = Function.update h.cell a ⟨l.first, key, item⟩) :
    Linked h' ⟨some a, (a :: chain).getLast?⟩ (a :: chain) ((item, key) :: view) ∧
      LeavesAlone h h' chain (a :: chain) := by
  have hne : ∀ p ∈ h.live, p ≠ a := fun p hp hpa => ha (hpa ▸ hp)
  have hold : ∀ p ∈ h.live, h'.cell p = h.cell p := by
    intro p hp
    rw [hcell, Function.update_of_ne (hne p hp)]
  have hnew : h'.cell a = ⟨l.first, key, item⟩ := by rw [hcell, Function.update_self]
  refine ⟨⟨⟨rfl, ?_⟩, rfl, fun p hp => ?_, ?_, ?_⟩, fun p hp _ => ⟨?_, hold p hp⟩, fun p hp => ?_⟩
  · simp only [hnew]
    exact hl.first.congr fun p hp => by simp only [hold p (hl.live p hp)]
  · rw [hlive]
    rcases List.mem_cons.mp hp with rfl | hp
    · exact List.mem_cons_self
    · exact List.mem_cons_of_mem a (hl.live p hp)
  · exact List.nodup_cons.mpr ⟨fun hmem => ha (hl.live a hmem), hl.nodup⟩
  · rw [List.map_cons, ← hl.view]
    refine List.cons_eq_cons.mpr ⟨by rw [entryOf, hnew], List.map_congr_left fun p hp => ?_⟩
    simp only [entryOf, hold p (hl.live p hp)]
  · rw [hlive]
    exact List.mem_cons_of_mem a hp
  · rcases List.mem_cons.mp hp with rfl | hp
    · exact Or.inr ha
    · exact Or.inl hp

theorem next_update_update (cell : Addr → ListElement α) (p a : Addr) (item : α) (key : ℤ) :
    (fun q => (Function.update (Function.update cell a ⟨(cell p).next, key, item⟩) p
        { cell p with next := some a } q).next) =
      Function.update (Function.update (fun q => (cell q).next) a (cell p).next) p (some a) := by
  funext q
  by_cases hqp : q = p
  · rw [hqp, Function.update_self, Function.update_self]
  · rw [Function.update_of_ne hqp, Function.update_of_ne hqp]
    by_cases hqa : q = a
    · rw [hqa, Function.update_self, Function.update_self]
    · rw [Function.update_of_ne hqa, Function.update_of_ne hqa]

theorem entryOf_of_ne {q : Addr} {x : ListElement α} {link : Option Addr}
    (hcell : h'.cell = Function.update (Function.update h.cell a x) p { h.cell p with next := link })
    (hqa : q ≠ a) : entryOf h' q = entryOf h q := by
  rw [entryOf, entryOf, hcell]
  by_cases hqp : q = p
  · rw [hqp, Function.update_self]
  · rw [Function.update_of_ne hqp, Function.update_of_ne hqa]

/-- INTERNAL: a new cell behind `p`. -/
theorem Linked.insertAfter (hl : Linked h l (ps ++ p :: qs) view) (ha : a ∉ h.live) {item : α}
    {key : ℤ} (hlive : h'.live = a :: h.live)
    (hcell : h'.cell = Function.update (Function.update h.cell a ⟨(h.cell p).next, key, item⟩) p
      { h.cell p with next := some a }) :
    Linked h' { l with last := (ps ++ p :: a :: qs).getLast? } (ps ++ p :: a :: qs)
        ((ps ++ [p]).map (entryOf h) ++ (item, key) :: qs.map (entryOf h)) ∧
      LeavesAlone h h' (ps ++ p :: qs) (ps ++ p :: a :: qs) := by
  have hp : p ∈ h.live := hl.live p (by simp)
  have hap : a ≠ p := fun he => ha (he ▸ hp)
  have hmem : ∀ q, q ∈ ps ++ p :: a :: qs ↔ q = a ∨ q ∈ ps ++ p :: qs := by
    intro q
    simp only [List.mem_append, List.mem_cons]
    tauto
  have hnew : a ∉ ps ++ p :: qs := fun hmem => ha (hl.live a hmem)
  have hentry : ∀ q, q ≠ a → entryOf h' q = entryOf h q := fun q hqa => entryOf_of_ne hcell hqa
  have hentry' : entryOf h' a = (item, key) := by
    rw [entryOf, hcell, Function.update_of_ne hap, Function.update_self]
  have hother : ∀ q ∈ ps ++ p :: qs, q ≠ a := fun q hq he => hnew (he ▸ hq)
  refine ⟨⟨?_, rfl, fun q hq => ?_, ?_, ?_⟩, fun q hq hnot => ⟨?_, ?_⟩, fun q hq => ?_⟩
  · rw [hcell, next_update_update]
    exact hl.first.insertAfter hl.nodup hnew
  · rw [hlive]
    rcases (hmem q).mp hq with rfl | hq
    · exact List.mem_cons_self
    · exact List.mem_cons_of_mem a (hl.live q hq)
  · have hperm : (ps ++ p :: a :: qs).Perm (a :: (ps ++ p :: qs)) := by
      have hsplit : ps ++ p :: a :: qs = (ps ++ [p]) ++ a :: qs := by simp
      rw [hsplit, show ps ++ p :: qs = (ps ++ [p]) ++ qs by simp]
      exact List.perm_middle
    exact hperm.nodup_iff.mpr (List.nodup_cons.mpr ⟨hnew, hl.nodup⟩)
  · have hps : (ps ++ [p]).map (entryOf h') = (ps ++ [p]).map (entryOf h) :=
      List.map_congr_left fun q hq => hentry q (hother q (by simp at hq ⊢; tauto))
    have hqs : qs.map (entryOf h') = qs.map (entryOf h) :=
      List.map_congr_left fun q hq => hentry q (hother q (by simp [hq]))
    rw [← hps, ← hqs, ← hentry']
    simp
  · rw [hlive]
    exact List.mem_cons_of_mem a hq
  · have hqp : q ≠ p := fun he => hnot (by rw [he]; simp)
    have hqa : q ≠ a := fun he => ha (he ▸ hq)
    rw [hcell, Function.update_of_ne hqp, Function.update_of_ne hqa]
  · rcases (hmem q).mp hq with rfl | hq
    · exact Or.inr ha
    · exact Or.inl hq

/-! ## Insertion -/

/-- The list in the cells `chain` of `h` has become `l'`, in `h'`, with the entries `view'`. -/
def Becomes (h : ListHeap α) (chain : List Addr) (l' : LinkedList) (h' : ListHeap α)
    (view' : List (α × ℤ)) : Prop :=
  ∃ chain', Linked h' l' chain' view' ∧ LeavesAlone h h' chain chain'

/-- `g` is `h` with a new element at `a`. -/
structure NewCell (h g : ListHeap α) (a : Addr) (item : α) (key : ℤ) : Prop where
  fresh : a ∉ h.live
  live : g.live = a :: h.live
  cell : g.cell = Function.update h.cell a ⟨none, key, item⟩

theorem newCell_new (A : Allocator) (h : ListHeap α) (item : α) (key : ℤ) :
    NewCell h (h.new A item key).2 (h.new A item key).1 item key :=
  ⟨A.fresh h.news h.live, rfl, rfl⟩

section Insertion

variable {g : ListHeap α} {item : α} {key : ℤ} (hn : NewCell h g a item key)

include hn

theorem NewCell.mem (hp : p ∈ h.live) : p ∈ g.live := by
  rw [hn.live]
  exact List.mem_cons_of_mem a hp

theorem NewCell.ne (hp : p ∈ h.live) : p ≠ a := fun he => hn.fresh (he ▸ hp)

theorem NewCell.cell_eq (hp : p ∈ h.live) : g.cell p = h.cell p := by
  rw [hn.cell, Function.update_of_ne (hn.ne hp)]

theorem NewCell.load (hp : p ∈ h.live) : g.load (some p) = some (h.cell p) := by
  rw [load_of_mem (hn.mem hp), hn.cell_eq hp]

theorem NewCell.setNext_self (next : Option Addr) :
    ∃ g', g.setNext (some a) next = some g' ∧ g'.live = a :: h.live ∧
      g'.cell = Function.update h.cell a ⟨next, key, item⟩ := by
  refine ⟨_, setNext_of_mem (by rw [hn.live]; exact List.mem_cons_self) next, hn.live, ?_⟩
  simp only [hn.cell, Function.update_self, Function.update_idem]

theorem Linked.putOnly (hl : Linked h l [] view) :
    Becomes h [] ⟨some a, some a⟩ g (view ++ [(item, key)]) := by
  have hfirst : l.first = none := hl.first
  have hview : view = [] := hl.view.symm
  rw [hview]
  obtain ⟨hl', hframe⟩ := (hview ▸ hl).cons hn.fresh hn.live (by rw [hfirst]; exact hn.cell)
  exact ⟨[a], hl', hframe⟩

theorem Linked.putFirst (hl : Linked h l (p :: qs) view) :
    ∃ l' h', l.putFirst g a = some (l', h') ∧ Becomes h (p :: qs) l' h' ((item, key) :: view) := by
  obtain ⟨g', hset, hlive, hcell⟩ := hn.setNext_self l.first
  obtain ⟨hl', hframe⟩ := hl.cons hn.fresh hlive hcell
  refine ⟨{ l with first := some a }, g', by simp [LinkedList.putFirst, hset], a :: p :: qs, ?_, hframe⟩
  rw [List.getLast?_cons_cons, ← hl.last] at hl'
  exact hl'

theorem Linked.putAfter (hl : Linked h l (ps ++ p :: qs) view) {g' : ListHeap α}
    (hlive : g'.live = a :: h.live)
    (hcell : g'.cell = Function.update h.cell a ⟨(h.cell p).next, key, item⟩) :
    ∃ h', g'.setNext (some p) (some a) = some h' ∧
      Becomes h (ps ++ p :: qs) { l with last := (ps ++ p :: a :: qs).getLast? } h'
        ((ps ++ [p]).map (entryOf h) ++ (item, key) :: qs.map (entryOf h)) := by
  have hp : p ∈ h.live := hl.live p (by simp)
  refine ⟨_, setNext_of_mem (by rw [hlive]; exact List.mem_cons_of_mem a hp) (some a),
    ps ++ p :: a :: qs, hl.insertAfter hn.fresh hlive ?_⟩
  simp only [hcell, Function.update_of_ne (hn.ne hp)]

theorem Linked.putLast (hl : Linked h l (ps ++ [p]) view) :
    ∃ l' h', l.putLast g a = some (l', h') ∧
      Becomes h (ps ++ [p]) l' h' (view ++ [(item, key)]) := by
  have hlast : l.last = some p := by
    rw [hl.last]
    simp
  have hend : (h.cell p).next = none := hl.first.next_eq
  obtain ⟨h', hset, hbecomes⟩ := hl.putAfter hn hn.live (by rw [hend]; exact hn.cell)
  refine ⟨{ l with last := some a }, h', by simp [LinkedList.putLast, hlast, hset], ?_⟩
  simpa [← hl.view] using hbecomes

/-- INTERNAL: the loop stands at `p`; the cells `qs` behind it are those it still has to look at. -/
theorem insertLoop_spec (ps : List Addr) {n : ℕ} (hl : Linked h l (ps ++ p :: qs) view)
    (hfuel : qs.length < n) :
    ∃ l' h', l.insertLoop g a key n (some p) = some (l', h') ∧
      Becomes h (ps ++ p :: qs) l' h'
        ((ps ++ [p]).map (entryOf h) ++ insertByKey item key (qs.map (entryOf h))) := by
  induction qs generalizing ps p n with
  | nil =>
    obtain ⟨n, rfl⟩ := Nat.exists_eq_add_of_lt hfuel
    have hp : p ∈ h.live := hl.live p (by simp)
    have hend : (h.cell p).next = none := hl.first.next_eq
    obtain ⟨l', h', hput, hbecomes⟩ := hl.putLast hn
    refine ⟨l', h', ?_, ?_⟩
    · simp [LinkedList.insertLoop, hn.load hp, hend, hput]
    · rw [hl.view]
      exact hbecomes
  | cons q qs ih =>
    obtain ⟨n, rfl⟩ : ∃ m, n = m + 1 := ⟨n - 1, by omega⟩
    have hp : p ∈ h.live := hl.live p (by simp)
    have hq : q ∈ h.live := hl.live q (by simp)
    have hnext : (h.cell p).next = some q := hl.first.next_eq
    by_cases hlt : key < (h.cell q).key
    · obtain ⟨g', hself, hlive, hcell⟩ := hn.setNext_self (some q)
      obtain ⟨h', hset, hbecomes⟩ := hl.putAfter hn hlive (by rw [hnext]; exact hcell)
      refine ⟨l, h', ?_, ?_⟩
      · simp [LinkedList.insertLoop, hn.load hp, hnext, hn.load hq, hlt, hself, hset]
      · have hlast : (ps ++ p :: a :: q :: qs).getLast? = l.last := by
          rw [hl.last]
          simp [List.getLast?_append, List.getLast?_cons_cons]
        rw [hlast] at hbecomes
        simpa [insertByKey, entryOf, hlt] using hbecomes
    · -- the next cell is passed
      have hsplit : ps ++ p :: q :: qs = (ps ++ [p]) ++ q :: qs := by simp
      rw [hsplit] at hl ⊢
      obtain ⟨l', h', hloop, hbecomes⟩ := ih (ps ++ [p]) hl (n := n) (by simp at hfuel; omega)
      refine ⟨l', h', ?_, ?_⟩
      · simp [LinkedList.insertLoop, hn.load hp, hnext, hn.load hq, hlt, hloop]
      · simpa [insertByKey, entryOf, hlt] using hbecomes

end Insertion

/-! ## The operations -/

theorem Linked.eq_nil_of_isEmpty (hl : Linked h l chain view) (he : l.isEmpty = true) :
    chain = [] := by
  rw [hl.isEmpty_eq, ← hl.view] at he
  simpa using he

theorem Linked.ne_nil_of_not_isEmpty (hl : Linked h l chain view) (he : ¬l.isEmpty = true) :
    chain ≠ [] := by
  rintro rfl
  rw [hl.isEmpty_eq, ← hl.view] at he
  exact he rfl

theorem append_spec (A : Allocator) (hl : Linked h l chain view) (item : α) :
    ∃ l' h', l.append A h item = some (l', h') ∧
      Becomes h chain l' h' (view ++ [(item, 0)]) := by
  have hn := newCell_new A h item 0
  by_cases he : l.isEmpty = true
  · obtain rfl := hl.eq_nil_of_isEmpty he
    exact ⟨_, _, by simp [LinkedList.append, he], hl.putOnly hn⟩
  · obtain ⟨ps, p, rfl⟩ := List.eq_nil_or_concat' chain |>.resolve_left (hl.ne_nil_of_not_isEmpty he)
    obtain ⟨l', h', hput, hbecomes⟩ := hl.putLast hn
    exact ⟨l', h', by simp [LinkedList.append, he, hput], hbecomes⟩

theorem prepend_spec (A : Allocator) (hl : Linked h l chain view) (item : α) :
    ∃ l' h', l.prepend A h item = some (l', h') ∧
      Becomes h chain l' h' ((item, 0) :: view) := by
  have hn := newCell_new A h item 0
  by_cases he : l.isEmpty = true
  · obtain rfl := hl.eq_nil_of_isEmpty he
    obtain rfl : [] = view := hl.view
    exact ⟨_, _, by simp [LinkedList.prepend, he], hl.putOnly hn⟩
  · obtain ⟨p, qs, rfl⟩ := List.exists_cons_of_ne_nil (hl.ne_nil_of_not_isEmpty he)
    obtain ⟨l', h', hput, hbecomes⟩ := hl.putFirst hn
    exact ⟨l', h', by simp [LinkedList.prepend, he, hput], hbecomes⟩

/-- INTERNAL: `SortedInsert`. -/
theorem sortedInsert_spec (A : Allocator) (hl : Linked h l chain view) (item : α) (key : ℤ) :
    ∃ l' h', l.sortedInsert A h item key = some (l', h') ∧
      Becomes h chain l' h' (insertByKey item key view) := by
  have hn := newCell_new A h item key
  by_cases he : l.isEmpty = true
  · obtain rfl := hl.eq_nil_of_isEmpty he
    obtain rfl : [] = view := hl.view
    exact ⟨_, _, by simp [LinkedList.sortedInsert, he], hl.putOnly hn⟩
  · obtain ⟨p, qs, rfl⟩ := List.exists_cons_of_ne_nil (hl.ne_nil_of_not_isEmpty he)
    have hp : p ∈ h.live := hl.live p List.mem_cons_self
    have hfirst : l.first = some p := hl.first.1
    by_cases hlt : key < (h.cell p).key
    · obtain ⟨l', h', hput, hbecomes⟩ := hl.putFirst hn
      refine ⟨l', h', ?_, ?_⟩
      · simp [LinkedList.sortedInsert, he, hfirst, hn.load hp, hlt, hput]
      · simpa [insertByKey, ← hl.view, entryOf, hlt] using hbecomes
    · have hfuel : qs.length < (h.new A item key).2.live.length := by
        have hle := hl.length_le
        rw [hn.live]
        simp only [List.length_cons] at hle ⊢
        omega
      obtain ⟨l', h', hloop, hbecomes⟩ := insertLoop_spec hn [] hl hfuel
      refine ⟨l', h', ?_, ?_⟩
      · simp [LinkedList.sortedInsert, he, hfirst, hn.load hp, hlt, hloop]
      · simpa [insertByKey, ← hl.view, entryOf, hlt] using hbecomes

theorem Linked.pointers_tail (hl : Linked h l (p :: qs) view) :
    (if l.first = l.last then (⟨none, none⟩ : LinkedList) else { l with first := (h.cell p).next }) =
      ⟨qs.head?, qs.getLast?⟩ := by
  have hfirst : l.first = some p := hl.first.1
  have hnext : (h.cell p).next = qs.head? := hl.first.2.head?
  cases qs with
  | nil => rw [if_pos (by rw [hfirst, hl.last]; rfl)]; rfl
  | cons q qs =>
    have hlast : l.last = (q :: qs).getLast? := by rw [hl.last, List.getLast?_cons_cons]
    have hne : l.first ≠ l.last := by
      intro he
      rw [hfirst, hlast] at he
      exact (List.nodup_cons.mp hl.nodup).1 (List.mem_of_getLast? he.symm)
    rw [if_neg hne, hnext, hlast]

theorem Linked.tail (hl : Linked h l (p :: qs) view) :
    ∃ h', h.delete (some p) = some h' ∧
      Becomes h (p :: qs) ⟨qs.head?, qs.getLast?⟩ h' view.tail := by
  obtain ⟨hnot, hnodup⟩ := List.nodup_cons.mp hl.nodup
  have hp : p ∈ h.live := hl.live p List.mem_cons_self
  have hmem : ∀ q, q ∈ h.live.filter (fun q => decide (q ≠ p)) ↔ q ∈ h.live ∧ q ≠ p := by
    intro q
    simp
  refine ⟨{ h with live := h.live.filter (· ≠ p) }, by simp [ListHeap.delete, hp], qs,
    ⟨?_, rfl, fun q hq => ?_, hnodup, ?_⟩, fun q hq hout => ⟨?_, rfl⟩, fun q hq => ?_⟩
  · have hrest := hl.first.2
    rw [hrest.head?] at hrest
    exact hrest
  · exact (hmem q).mpr ⟨hl.live q (List.mem_cons_of_mem p hq), fun he => hnot (he ▸ hq)⟩
  · rw [← hl.view]
    rfl
  · exact (hmem q).mpr ⟨hq, fun he => hout (he ▸ List.mem_cons_self)⟩
  · exact Or.inl (List.mem_cons_of_mem p hq)

theorem sortedRemove_spec (hl : Linked h l chain view) :
    ∃ l' h', l.sortedRemove h = some (view.head?, l', h') ∧ Becomes h chain l' h' view.tail := by
  by_cases he : l.isEmpty = true
  · obtain rfl := hl.eq_nil_of_isEmpty he
    obtain rfl : [] = view := hl.view
    exact ⟨l, h, by simp [LinkedList.sortedRemove, he], [], hl, fun p hp _ => ⟨hp, rfl⟩, by simp⟩
  · obtain ⟨p, qs, rfl⟩ := List.exists_cons_of_ne_nil (hl.ne_nil_of_not_isEmpty he)
    have hp : p ∈ h.live := hl.live p List.mem_cons_self
    have hfirst : l.first = some p := hl.first.1
    obtain ⟨h', hdelete, hbecomes⟩ := hl.tail
    refine ⟨_, h', ?_, hbecomes⟩
    have hhead : view.head? = some (entryOf h p) := by
      rw [← hl.view]
      rfl
    have hpointers := hl.pointers_tail
    rw [hfirst] at hpointers
    simp [LinkedList.sortedRemove, he, hfirst, load_of_mem hp, hdelete, hpointers, hhead, entryOf]

theorem mapcarFrom_spec {n : ℕ} {start : Option Addr}
    (hchain : Chain (fun p => (h.cell p).next) start chain) (hlive : ∀ p ∈ chain, p ∈ h.live)
    (hfuel : chain.length ≤ n) :
    LinkedList.mapcarFrom h n start = some ((chain.map (entryOf h)).map Prod.fst) := by
  induction chain generalizing n start with
  | nil =>
    obtain rfl : start = none := hchain
    cases n <;> rfl
  | cons p ps ih =>
    obtain ⟨rfl, hrest⟩ := hchain
    obtain ⟨n, rfl⟩ : ∃ m, n = m + 1 := ⟨n - 1, by simp at hfuel; omega⟩
    have hps := ih hrest (fun q hq => hlive q (List.mem_cons_of_mem p hq))
      (Nat.le_of_succ_le_succ hfuel)
    simp [LinkedList.mapcarFrom, load_of_mem (hlive p List.mem_cons_self), hps, entryOf]

theorem mapcar_spec (hl : Linked h l chain view) : l.mapcar h = some (view.map Prod.fst) := by
  rw [← hl.view]
  exact mapcarFrom_spec hl.first hl.live hl.length_le

end Heap

/-! ## All the lists over one heap -/

section Systems

variable {ι : Type} [DecidableEq ι] {s : ListSystem ι α} {views : ι → List (α × ℤ)}

/-- Every list is linked, and no two of them share a cell. -/
def KeepsViews (s : ListSystem ι α) (views : ι → List (α × ℤ)) : Prop :=
  ∃ chains : ι → List Addr, (∀ i, Linked s.heap (s.lists i) (chains i) (views i)) ∧
    ∀ i j, i ≠ j → ∀ p ∈ chains i, p ∉ chains j

/-- INTERNAL: an operation on list `i` is not noticed by the others. -/
theorem keepsViews_put {chains : ι → List Addr}
    (hlinked : ∀ i, Linked s.heap (s.lists i) (chains i) (views i))
    (hapart : ∀ i j, i ≠ j → ∀ p ∈ chains i, p ∉ chains j) (i : ι) {l' : LinkedList}
    {h' : ListHeap α} {view' : List (α × ℤ)} (hbecomes : Becomes s.heap (chains i) l' h' view') :
    KeepsViews (s.put i l' h') (Function.update views i view') := by
  obtain ⟨chain', hl', hframe⟩ := hbecomes
  have hother : ∀ j, j ≠ i → Linked h' (s.lists j) (chains j) (views j) ∧
      ∀ p ∈ chains j, p ∉ chain' := fun j hj => (hlinked j).of_frame hframe (hapart j i hj)
  refine ⟨Function.update chains i chain', fun j => ?_, fun j k hjk p hp => ?_⟩
  · by_cases hj : j = i
    · subst hj
      simpa [ListSystem.put] using hl'
    · simpa [ListSystem.put, hj] using (hother j hj).1
  · by_cases hj : j = i
    · subst hj
      rw [Function.update_self] at hp
      rw [Function.update_of_ne (Ne.symm hjk)]
      exact fun hpk => (hother k (Ne.symm hjk)).2 p hpk hp
    · rw [Function.update_of_ne hj] at hp
      by_cases hk : k = i
      · subst hk
        rw [Function.update_self]
        exact (hother j hj).2 p hp
      · rw [Function.update_of_ne hk]
        exact hapart j k hjk p hp

/-- INTERNAL: a call on a list is the call on its sequence. -/
theorem keepsViews_simulates (A : Allocator) :
    Simulates (fun (s : ListSystem ι α) (c : ι × ListCall α) => s.call A c.1 c.2) sequencesCall
      KeepsViews := by
  rintro s views ⟨i, c⟩ ⟨chains, hlinked, hapart⟩
  have hput {l'} {h'} {view'} := @keepsViews_put _ _ _ s views chains hlinked hapart i l' h' view'
  have hsame : KeepsViews s (Function.update views i (views i)) := by
    rw [Function.update_eq_self]
    exact ⟨chains, hlinked, hapart⟩
  cases c with
  | append item =>
    obtain ⟨l', h', hcall, hbecomes⟩ := append_spec A (hlinked i) item
    exact ⟨s.put i l' h', by simp [ListSystem.call, hcall, sequencesCall, sequenceCall], hput hbecomes⟩
  | prepend item =>
    obtain ⟨l', h', hcall, hbecomes⟩ := prepend_spec A (hlinked i) item
    exact ⟨s.put i l' h', by simp [ListSystem.call, hcall, sequencesCall, sequenceCall], hput hbecomes⟩
  | remove =>
    obtain ⟨l', h', hcall, hbecomes⟩ := sortedRemove_spec (hlinked i)
    refine ⟨s.put i l' h', ?_, hput hbecomes⟩
    simp [ListSystem.call, LinkedList.remove, hcall, sequencesCall, sequenceCall]
  | mapcar =>
    refine ⟨s, ?_, hsame⟩
    simp [ListSystem.call, mapcar_spec (hlinked i), sequencesCall, sequenceCall]
  | isEmpty =>
    refine ⟨s, ?_, hsame⟩
    simp [ListSystem.call, (hlinked i).isEmpty_eq, sequencesCall, sequenceCall]
  | sortedInsert item key =>
    obtain ⟨l', h', hcall, hbecomes⟩ := sortedInsert_spec A (hlinked i) item key
    exact ⟨s.put i l' h', by simp [ListSystem.call, hcall, sequencesCall, sequenceCall], hput hbecomes⟩
  | sortedRemove =>
    obtain ⟨l', h', hcall, hbecomes⟩ := sortedRemove_spec (hlinked i)
    exact ⟨s.put i l' h', by simp [ListSystem.call, hcall, sequencesCall, sequenceCall], hput hbecomes⟩

/-! ## What goes in and what comes out -/

/-- The item a call brings. -/
def entering : ListCall α → Option α
  | .append item => some item
  | .prepend item => some item
  | .sortedInsert item _ => some item
  | _ => none

/-- The item an answer hands out. -/
def leaving : ListAnswer α → Option α
  | .item r => r
  | .keyed r => r.map Prod.fst
  | _ => none

/-- The items put into list `i`. -/
def entered (i : ι) (cs : List (ι × ListCall α)) : List α :=
  cs.flatMap fun c => if c.1 = i then (entering c.2).toList else []

/-- The items taken out of list `i`. -/
def takenOut (i : ι) (cs : List (ι × ListCall α)) (as : List (ListAnswer α)) : List α :=
  (cs.zip as).flatMap fun c => if c.1.1 = i then (leaving c.2).toList else []

theorem sequencesCall_items (i : ι) (views : ι → List (α × ℤ)) (c : ι × ListCall α) :
    ((if c.1 = i then (leaving (sequencesCall views c).1).toList else []) ++
        ((sequencesCall views c).2 i).map Prod.fst).Perm
      ((if c.1 = i then (entering c.2).toList else []) ++ (views i).map Prod.fst) := by
  obtain ⟨j, c⟩ := c
  by_cases hj : j = i
  · subst hj
    simp only [sequencesCall, Function.update_self, if_true]
    cases c with
    | append item => simp [leaving, entering, sequenceCall]
    | prepend item => simp [leaving, entering, sequenceCall]
    | remove => cases hv : views j <;> simp [leaving, entering, sequenceCall]
    | mapcar => simp [leaving, entering, sequenceCall]
    | isEmpty => simp [leaving, entering, sequenceCall]
    | sortedInsert item key =>
      have hperm := List.perm_orderedInsert (fun a b : α × ℤ => a.2 < b.2) (item, key) (views j)
      exact hperm.map Prod.fst
    | sortedRemove => cases hv : views j <;> simp [leaving, entering, sequenceCall]
  · simp [sequencesCall, hj, Ne.symm hj]

theorem replies_items (i : ι) (views : ι → List (α × ℤ)) (cs : List (ι × ListCall α)) :
    (takenOut i cs (replies sequencesCall views cs).1 ++
        ((replies sequencesCall views cs).2 i).map Prod.fst).Perm
      (entered i cs ++ (views i).map Prod.fst) := by
  induction cs generalizing views with
  | nil => simp [takenOut, entered, replies]
  | cons c cs ih =>
    have hstep := sequencesCall_items i views c
    have hrest := ih (sequencesCall views c).2
    simp only [takenOut, entered, replies, List.zip_cons_cons, List.flatMap_cons, List.append_assoc]
      at hrest ⊢
    refine (hrest.append_left _).trans ?_
    refine (List.perm_append_comm_assoc _ _ _).trans ?_
    refine (hstep.append_left _).trans ?_
    exact List.perm_append_comm_assoc _ _ _

/-! ## Sorted sequences -/

/-- INTERNAL: in a sorted sequence the new item is behind those with the same or a smaller key. -/
theorem insertByKey_eq_filter (item : α) (key : ℤ) {view : List (α × ℤ)}
    (hsorted : view.Pairwise fun a b => a.2 ≤ b.2) :
    insertByKey item key view =
      view.filter (fun e => e.2 ≤ key) ++ (item, key) :: view.filter (fun e => key < e.2) := by
  induction view with
  | nil => rfl
  | cons e view ih =>
    obtain ⟨hle, hsorted⟩ := List.pairwise_cons.mp hsorted
    by_cases hlt : key < e.2
    · have hbig : ∀ d ∈ e :: view, key < d.2 := by
        intro d hd
        rcases List.mem_cons.mp hd with rfl | hd
        · exact hlt
        · exact lt_of_lt_of_le hlt (hle d hd)
      have hnone : (e :: view).filter (fun d => d.2 ≤ key) = [] :=
        List.filter_eq_nil_iff.mpr fun d hd => by simpa using hbig d hd
      have hall : (e :: view).filter (fun d => key < d.2) = e :: view :=
        List.filter_eq_self.mpr fun d hd => by simpa using hbig d hd
      rw [hnone, hall]
      simp [insertByKey, hlt]
    · have htail := ih hsorted
      simp only [insertByKey] at htail ⊢
      simp [hlt, not_lt.mp hlt, htail]

theorem insertByKey_sorted (item : α) (key : ℤ) {view : List (α × ℤ)}
    (hsorted : view.Pairwise fun a b => a.2 ≤ b.2) :
    (insertByKey item key view).Pairwise fun a b => a.2 ≤ b.2 := by
  rw [insertByKey_eq_filter item key hsorted]
  refine List.pairwise_append.mpr ⟨hsorted.filter _, List.pairwise_cons.mpr ⟨fun e he => ?_,
    hsorted.filter _⟩, fun d hd e he => ?_⟩
  · exact le_of_lt (by simpa using (List.mem_filter.mp he).2)
  · have hd' : d.2 ≤ key := by simpa using (List.mem_filter.mp hd).2
    rcases List.mem_cons.mp he with rfl | he
    · exact hd'
    · have he' : key < e.2 := by simpa using (List.mem_filter.mp he).2
      exact le_of_lt (lt_of_le_of_lt hd' he')

/-- SOURCE: threads/list.cc:76-128, 154-237 — any number of lists over one heap, from empty ones on:
no sequence of calls follows a bad pointer, the answers are those of sequences of items with keys,
every list stays linked from `first` to `last` without sharing a cell with another, and what was put
into a list is what was taken out of it and what it still has. Into a sorted list
`SortedInsert` puts the item behind those with the same or a smaller key, and the list stays sorted. -/
theorem list_refines_sequence (A : Allocator) (h : ListHeap α) (cs : List (ι × ListCall α)) :
    ∃ (as : List (ListAnswer α)) (s' : ListSystem ι α) (views : ι → List (α × ℤ)),
      answers (fun s c => ListSystem.call A s c.1 c.2) ⟨h, fun _ => LinkedList.new⟩ cs =
        some (as, s') ∧
      replies sequencesCall (fun _ => []) cs = (as, views) ∧
      KeepsViews s' views ∧
      (∀ i, (takenOut i cs as ++ (views i).map Prod.fst).Perm (entered i cs)) ∧
      ∀ (item : α) (key : ℤ) (view : List (α × ℤ)), view.Pairwise (fun a b => a.2 ≤ b.2) →
        (insertByKey item key view).Pairwise (fun a b => a.2 ≤ b.2) ∧
        insertByKey item key view =
          view.filter (fun e => e.2 ≤ key) ++ (item, key) :: view.filter (fun e => key < e.2) := by
  have hstart : KeepsViews (⟨h, fun _ => LinkedList.new⟩ : ListSystem ι α) fun _ => [] :=
    ⟨fun _ => [], fun _ => linked_new h, by simp⟩
  obtain ⟨s', hanswers, hkeeps⟩ := (keepsViews_simulates A).answers hstart cs
  refine ⟨_, s', _, hanswers, rfl, hkeeps, fun i => ?_, fun item key view hsorted => ?_⟩
  · simpa using replies_items i (fun _ => []) cs
  · exact ⟨insertByKey_sorted item key hsorted, insertByKey_eq_filter item key hsorted⟩

end Systems

end Nachos.Analysis
