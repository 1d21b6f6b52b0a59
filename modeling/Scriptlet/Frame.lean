import Scriptlet.Table
import Scriptlet.Value

/-!
Frames: bindings of names to values, each frame but the outermost inside another that is older. A distance counts
the steps outward from a frame.
-/
namespace Scriptlet

structure Frame where
  bindings : Table String Value
  enclosing : Option (Ref .frame)

abbrev Frames := Heap .frame Frame

namespace Frames

/-- The frame that everything else is inside of. -/
def outermost : Frame := ⟨.empty, none⟩

/-- Adds an empty frame inside another; it is found at `next`. -/
def child (fs : Frames) (parent : Ref .frame) : Frames := fs.alloc ⟨.empty, some parent⟩

def define (fs : Frames) (r : Ref .frame) (name : String) (value : Value) : Frames :=
  fs.modify r fun f => { f with bindings := f.bindings.insert name value }

/-- The value of a name in this very frame. -/
def fetch (fs : Frames) (r : Ref .frame) (name : String) : Option Value :=
  (fs.get? r).bind (·.bindings.get? name)

def enclosing (fs : Frames) (r : Ref .frame) : Option (Ref .frame) := (fs.get? r).bind (·.enclosing)

def ancestor (fs : Frames) (r : Ref .frame) : Nat → Option (Ref .frame)
  | 0 => some r
  | distance + 1 => (fs.enclosing r).bind fun p => ancestor fs p distance

def getAt (fs : Frames) (r : Ref .frame) (distance : Nat) (name : String) : Option Value :=
  (fs.ancestor r distance).bind fun a => fs.fetch a name

/-- Binds a name in the frame at that distance, `none` if there is no such frame. -/
def assignAt (fs : Frames) (r : Ref .frame) (distance : Nat) (name : String) (value : Value) : Option Frames :=
  (fs.ancestor r distance).map fun a => fs.define a name value

/-- The nearest frame that binds the name. The walk only follows links to older frames. -/
def owner? (fs : Frames) (r : Ref .frame) (name : String) : Option (Ref .frame) :=
  if (fs.fetch r name).isSome then some r
  else match fs.enclosing r with
    | none => none
    | some p => if _h : p.index < r.index then owner? fs p name else none
termination_by r.index

/-- Rebinds a name where it is bound nearest, `none` if it is bound nowhere. -/
def assign (fs : Frames) (r : Ref .frame) (name : String) (value : Value) : Option Frames :=
  (fs.owner? r name).map fun o => fs.define o name value

end Frames

end Scriptlet
