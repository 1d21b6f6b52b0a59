/-!
Heaps of one kind of object each. A reference is a position that knows its kind; objects are never removed, so a
reference that `alloc` gave out stays valid.
-/
namespace Scriptlet

inductive ObjectKind where
  | frame
  | function
  | classObject
  | object
  | list
  | map
  | cell
deriving DecidableEq, Repr

structure Ref (kind : ObjectKind) where
  index : Nat
deriving DecidableEq, Repr

structure Heap (kind : ObjectKind) (α : Type) where
  cells : Array α

namespace Heap

variable {kind : ObjectKind} {α : Type}

def empty : Heap kind α := ⟨#[]⟩

def size (h : Heap kind α) : Nat := h.cells.size

def get? (h : Heap kind α) (r : Ref kind) : Option α := h.cells[r.index]?

/-- The reference that the next object will get. -/
def next (h : Heap kind α) : Ref kind := ⟨h.cells.size⟩

def alloc (h : Heap kind α) (a : α) : Heap kind α := ⟨h.cells.push a⟩

/-- Replaces an object; a reference to nothing changes nothing. -/
def set (h : Heap kind α) (r : Ref kind) (a : α) : Heap kind α := ⟨h.cells.setIfInBounds r.index a⟩

def modify (h : Heap kind α) (r : Ref kind) (f : α → α) : Heap kind α := ⟨h.cells.modify r.index f⟩

@[simp]
theorem get?_empty (r : Ref kind) : (empty : Heap kind α).get? r = none := by
  simp [get?, empty]

theorem get?_alloc (h : Heap kind α) (a : α) (r : Ref kind) :
    (h.alloc a).get? r = if r = h.next then some a else h.get? r := by
  obtain ⟨i⟩ := r
  simp [alloc, get?, next, Array.getElem?_push]

@[simp]
theorem get?_alloc_next (h : Heap kind α) (a : α) : (h.alloc a).get? h.next = some a := by
  simp [get?_alloc]

theorem get?_set (h : Heap kind α) (r s : Ref kind) (a : α) :
    (h.set r a).get? s = if s = r then (h.get? s).map fun _ => a else h.get? s := by
  obtain ⟨i⟩ := r
  obtain ⟨j⟩ := s
  grind [set, get?]

theorem get?_modify (h : Heap kind α) (r s : Ref kind) (f : α → α) :
    (h.modify r f).get? s = if s = r then (h.get? s).map f else h.get? s := by
  obtain ⟨i⟩ := r
  obtain ⟨j⟩ := s
  simp only [modify, get?, Array.getElem?_modify, Ref.mk.injEq, eq_comm]

@[simp]
theorem size_alloc (h : Heap kind α) (a : α) : (h.alloc a).size = h.size + 1 := by
  simp [alloc, size]

@[simp]
theorem size_set (h : Heap kind α) (r : Ref kind) (a : α) : (h.set r a).size = h.size := by
  simp [set, size]

@[simp]
theorem size_modify (h : Heap kind α) (r : Ref kind) (f : α → α) : (h.modify r f).size = h.size := by
  simp [modify, size]

end Heap

end Scriptlet
