import Scriptlet.Host
import Scriptlet.Library.ListMethod
import Scriptlet.Library.MapMethod

/-!
Native classes: a new instance gets its methods as fields, all of which share one private storage.
-/
namespace Scriptlet.Store

/-- Gives an instance a native function as a field of the same name. -/
def addMethod (s : Store) (object : Ref .object) (name : String) (arity : Nat) (behaviour : Behaviour) :
    Store :=
  let (f, s) := s.addNative name arity behaviour
  s.setField object name f

/-- Makes an instance an empty list. -/
def prepareList (s : Store) (object : Ref .object) : Store :=
  let items := s.lists.next
  ListMethod.all.foldl (fun s m => s.addMethod object m.name m.arity (.list m items))
    { s with lists := s.lists.alloc [] }

/-- Makes an instance an empty map. -/
def prepareMap (s : Store) (object : Ref .object) : Store :=
  let entries := s.maps.next
  MapMethod.all.foldl (fun s m => s.addMethod object m.name m.arity (.map m entries))
    { s with maps := s.maps.alloc .empty }

def prepare (host : Host) (s : Store) (object : Ref .object) (arguments : List Value) :
    Initializer → Store × Option Fault
  | .list => (s.prepareList object, none)
  | .map => (s.prepareMap object, none)
  | .host tag =>
    let (s, message?) := host.prepare tag object arguments s
    (s, message?.map .custom)

/-- Binds a new global name to a value that is added to the store. -/
def defineGlobal (s : Store) (name : String) (value : Value) : Store := s.define globals name value

def defineNative (s : Store) (name : String) (arity : Nat) (behaviour : Behaviour) : Store :=
  let (f, s) := s.addNative name arity behaviour
  s.defineGlobal name f

def defineNativeClass (s : Store) (name : String) (arity : Nat) (statics : Table String Value)
    (initializer : Initializer) : Store :=
  let (c, s) := s.addClass ⟨name, .empty, statics, some ⟨arity, initializer⟩⟩
  s.defineGlobal name c

/-- The store in which programs start: the global functions `clock` and `input`. -/
def bare : Store := (initial.defineNative "clock" 0 .clock).defineNative "input" 0 .input

/-- Adds the classes `List` and `Map`. -/
def withLibrary (s : Store) : Store :=
  (s.defineNativeClass "List" 0 .empty .list).defineNativeClass "Map" 0 .empty .map

end Scriptlet.Store
