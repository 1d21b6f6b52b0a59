import Scriptlet.Ast.Basic

/-!
Distances: for a node that reads or writes a local variable, how many frames out the variable lives. Node numbers are
dense, so the table is an array with holes for the nodes that name globals.
-/
namespace Scriptlet

structure Distances where
  table : Array (Option Nat)

namespace Distances

def empty : Distances := ⟨#[]⟩

def get? (d : Distances) (id : NodeId) : Option Nat := (d.table[id]?).join

/-- The table, made long enough to hold an entry for `id`. -/
def reach (d : Distances) (id : NodeId) : Array (Option Nat) :=
  d.table ++ Array.replicate (id + 1 - d.table.size) none

def insert (d : Distances) (id : NodeId) (distance : Nat) : Distances :=
  ⟨(d.reach id).setIfInBounds id (some distance)⟩

@[simp]
theorem get?_empty (id : NodeId) : empty.get? id = none := by
  simp [get?, empty]

theorem size_reach (d : Distances) (id : Nat) : id < (d.reach id).size := by
  simp only [reach, Array.size_append, Array.size_replicate]
  omega

theorem getElem?_reach_join (d : Distances) (id i : NodeId) : ((d.reach id)[i]?).join = d.get? i := by
  simp only [reach, get?, Array.getElem?_append, Array.getElem?_replicate]
  split
  · rfl
  · next h =>
    rw [Array.getElem?_eq_none (Nat.le_of_not_lt h)]
    split <;> rfl

@[simp]
theorem get?_insert_self (d : Distances) (id : NodeId) (distance : Nat) :
    (d.insert id distance).get? id = some distance := by
  simp [insert, get?, size_reach]

theorem get?_insert_of_ne (d : Distances) {id i : NodeId} (distance : Nat) (h : i ≠ id) :
    (d.insert id distance).get? i = d.get? i := by
  rw [← getElem?_reach_join d id i]
  simp [insert, get?, Array.getElem?_setIfInBounds_ne h.symm]

theorem get?_insert (d : Distances) (id i : NodeId) (distance : Nat) :
    (d.insert id distance).get? i = if i = id then some distance else d.get? i := by
  split
  · next h => simp [h]
  · next h => exact get?_insert_of_ne d distance h

end Distances

end Scriptlet
