import Scriptlet.Proofs.StoreLaws
import Scriptlet.Proofs.Unlined

/-!
Stores that look the same to code outside of the session. Of a closure one can tell from outside its name, its kind and
how many arguments it takes, but neither its text nor the frame that it was declared in. A host that sees no more than
that is oblivious: on stores that look the same it does the same.
-/
namespace Scriptlet

/-- What can be told of a closure without running it. -/
structure Closure.Face where
  name : String
  kind : RoutineKind
  arity : Nat
deriving DecidableEq

def Closure.face (c : Closure) : Closure.Face := ⟨c.routine.name.text, c.kind, c.arity⟩

def Callable.face : Callable → Closure.Face ⊕ Native
  | .closure c => .inl c.face
  | .native n => .inr n

structure ClassObject.Face where
  name : String
  methods : Table String Closure.Face
  statics : Table String Value
  native : Option NativeClass

def ClassObject.face (c : ClassObject) : ClassObject.Face := ⟨c.name, c.methods.mapValues Closure.face, c.statics, c.native⟩

/-- The stores differ at most in the text of closures and in what local frames hold. -/
structure Store.LooksLike (s s' : Store) : Prop where
  functions : s'.functions.map Callable.face = s.functions.map Callable.face
  classes : s'.classes.map ClassObject.face = s.classes.map ClassObject.face
  instances : s'.instances = s.instances
  lists : s'.lists = s.lists
  maps : s'.maps = s.maps
  cells : s'.cells = s.cells
  globals : ∀ name, s'.frames.fetch Store.globals name = s.frames.fetch Store.globals name
  outermost : (s'.frames.get? Store.globals).isSome = (s.frames.get? Store.globals).isSome

theorem Callable.display_of_face {f f' : Callable} (h : f'.face = f.face) : f'.display = f.display := by
  cases f with
  | closure c =>
    cases f' with
    | closure c' =>
      obtain ⟨name, kind, -⟩ := Closure.Face.mk.inj (Sum.inl.inj h)
      simp only [display, Closure.display, name, kind]
    | native n' => cases h
  | native n =>
    cases f' with
    | closure c' => cases h
    | native n' => rw [Sum.inr.inj h]

namespace Store.LooksLike

variable {s s' : Store}

theorem refl (s : Store) : s.LooksLike s := ⟨rfl, rfl, rfl, rfl, rfl, rfl, fun _ => rfl, rfl⟩

theorem foldl {α : Type} {f : Store → α → Store} (hf : ∀ (s s' : Store) a, s.LooksLike s' → (f s a).LooksLike (f s' a))
    (as : List α) (h : s.LooksLike s') : (as.foldl f s).LooksLike (as.foldl f s') := by
  induction as generalizing s s' with
  | nil => exact h
  | cons a as ih => exact ih (hf s s' a h)

variable (h : s.LooksLike s')
include h

/-- What is at a place in one store is at that place in the other, with the same face. -/
theorem function (r : Ref .function) :
    (s'.functions.get? r).map Callable.face = (s.functions.get? r).map Callable.face := by
  rw [← Heap.get?_map, ← Heap.get?_map, h.functions]

theorem classObject (r : Ref .classObject) :
    (s'.classes.get? r).map ClassObject.face = (s.classes.get? r).map ClassObject.face := by
  rw [← Heap.get?_map, ← Heap.get?_map, h.classes]

theorem className (r : Ref .classObject) : s'.className r = s.className r := by
  have same := congrArg (Option.map ClassObject.Face.name) (h.classObject r)
  simp only [Option.map_map] at same
  exact congrArg (Option.getD · "") same

theorem display : s'.display = s.display := by
  funext v
  cases v with
  | function r =>
    have same := h.function r
    simp only [Store.display]
    cases hf : s.functions.get? r with
    | none =>
      cases hf' : s'.functions.get? r with
      | none => rfl
      | some f' => simp [hf, hf'] at same
    | some f =>
      cases hf' : s'.functions.get? r with
      | none => simp [hf, hf'] at same
      | some f' =>
        rw [hf, hf'] at same
        simp only [Option.map_some, Option.getD_some, Callable.display_of_face (Option.some.inj same)]
  | «class» r => exact h.className r
  | «instance» r =>
    have name : s'.className = s.className := funext h.className
    simp only [Store.display, h.instances, name]
  | boolean b => cases b <;> rfl
  | _ => rfl

theorem static? (r : Ref .classObject) (name : String) : s'.static? r name = s.static? r name := by
  have same := congrArg (Option.map ClassObject.Face.statics) (h.classObject r)
  simp only [Option.map_map] at same
  have statics (c : Option ClassObject) : c.bind (·.statics.get? name) =
      (c.map (ClassObject.Face.statics ∘ ClassObject.face)).bind (·.get? name) := by
    cases c <;> rfl
  rw [Store.static?, Store.static?, statics, statics, same]

theorem setField (r : Ref .object) (name : String) (v : Value) :
    (s.setField r name v).LooksLike (s'.setField r name v) where
  functions := h.functions
  classes := h.classes
  instances := by simp only [Store.setField, h.instances]
  lists := h.lists
  maps := h.maps
  cells := h.cells
  globals := h.globals
  outermost := h.outermost

theorem addInstance (r : Ref .classObject) : (s.addInstance r).2.LooksLike (s'.addInstance r).2 where
  functions := h.functions
  classes := h.classes
  instances := by simp only [Store.addInstance, h.instances]
  lists := h.lists
  maps := h.maps
  cells := h.cells
  globals := h.globals
  outermost := h.outermost

theorem nextFunction : s'.functions.next = s.functions.next := by
  rw [← Heap.next_map Callable.face, h.functions, Heap.next_map]

theorem nextClass : s'.classes.next = s.classes.next := by
  rw [← Heap.next_map ClassObject.face, h.classes, Heap.next_map]

theorem addFunction {f f' : Callable} (face : f'.face = f.face) :
    (s.addFunction f).2.LooksLike (s'.addFunction f').2 where
  functions := by simp only [Store.addFunction, Heap.map_alloc, h.functions, face]
  classes := h.classes
  instances := h.instances
  lists := h.lists
  maps := h.maps
  cells := h.cells
  globals := h.globals
  outermost := h.outermost

theorem addClass {c c' : ClassObject} (face : c'.face = c.face) : (s.addClass c).2.LooksLike (s'.addClass c').2 where
  functions := h.functions
  classes := by simp only [Store.addClass, Heap.map_alloc, h.classes, face]
  instances := h.instances
  lists := h.lists
  maps := h.maps
  cells := h.cells
  globals := h.globals
  outermost := h.outermost

/-- Frames count only as far as they hold globals. -/
theorem withFrames {frames frames' : Frames}
    (globals : ∀ name, frames'.fetch Store.globals name = frames.fetch Store.globals name)
    (outermost : (frames'.get? Store.globals).isSome = (frames.get? Store.globals).isSome) :
    ({ s with frames } : Store).LooksLike { s' with frames := frames' } :=
  ⟨h.functions, h.classes, h.instances, h.lists, h.maps, h.cells, globals, outermost⟩

theorem defineGlobal (name : String) (v : Value) : (s.defineGlobal name v).LooksLike (s'.defineGlobal name v) := by
  refine h.withFrames (fun x => ?_) ?_
  · rw [Frames.fetch_define, Frames.fetch_define, h.globals]
    have outermost := h.outermost
    split
    · cases hg : s.frames.get? Store.globals <;> cases hg' : s'.frames.get? Store.globals <;> simp_all
    · rfl
  · have isSome (fs : Frames) : ((fs.define Store.globals name v).get? Store.globals).isSome =
        (fs.get? Store.globals).isSome := by
      rw [Frames.define, Heap.get?_modify, if_pos rfl, Option.isSome_map]
    rw [isSome, isSome, h.outermost]

theorem addNative (name : String) (arity : Nat) (b : Behaviour) :
    (s.addNative name arity b).2.LooksLike (s'.addNative name arity b).2 :=
  h.addFunction rfl

theorem addMethod (r : Ref .object) (name : String) (arity : Nat) (b : Behaviour) :
    (s.addMethod r name arity b).LooksLike (s'.addMethod r name arity b) := by
  have field := (h.addNative name arity b).setField r name (.function s.functions.next)
  simp only [Store.addMethod, Store.addNative, Store.addFunction, h.nextFunction]
  exact field

theorem defineNative (name : String) (arity : Nat) (b : Behaviour) :
    (s.defineNative name arity b).LooksLike (s'.defineNative name arity b) := by
  have defined := (h.addNative name arity b).defineGlobal name (.function s.functions.next)
  simp only [Store.defineNative, Store.addNative, Store.addFunction, h.nextFunction]
  exact defined

theorem defineNativeClass (name : String) (arity : Nat) (statics : Table String Value) (i : Initializer) :
    (s.defineNativeClass name arity statics i).LooksLike (s'.defineNativeClass name arity statics i) := by
  have defined := (h.addClass (c := ⟨name, .empty, statics, some ⟨arity, i⟩⟩) rfl).defineGlobal name (.class s.classes.next)
  simp only [Store.defineNativeClass, Store.addClass, h.nextClass]
  exact defined

theorem withLists (lists : Heap .list (List Value)) : ({ s with lists } : Store).LooksLike { s' with lists } :=
  ⟨h.functions, h.classes, h.instances, rfl, h.maps, h.cells, h.globals, h.outermost⟩

theorem withMaps (maps : Heap .map (Table Value.Key Value)) : ({ s with maps } : Store).LooksLike { s' with maps } :=
  ⟨h.functions, h.classes, h.instances, h.lists, rfl, h.cells, h.globals, h.outermost⟩

theorem withCells (cells : Heap .cell Value) : ({ s with cells } : Store).LooksLike { s' with cells } :=
  ⟨h.functions, h.classes, h.instances, h.lists, h.maps, rfl, h.globals, h.outermost⟩

end Store.LooksLike

/-- A host to which stores that look the same are the same. -/
structure Host.Oblivious (host : Host) : Prop where
  call : ∀ tag cell arguments {s s' : Store}, s.LooksLike s' →
    (host.call tag cell arguments s).store.LooksLike (host.call tag cell arguments s').store ∧
      (host.call tag cell arguments s').printed = (host.call tag cell arguments s).printed ∧
      (host.call tag cell arguments s').reply = (host.call tag cell arguments s).reply
  prepare : ∀ tag object arguments {s s' : Store}, s.LooksLike s' →
    (host.prepare tag object arguments s).1.LooksLike (host.prepare tag object arguments s').1 ∧
      (host.prepare tag object arguments s').2 = (host.prepare tag object arguments s).2

theorem Store.LooksLike.prepare {host : Host} (oblivious : host.Oblivious) {s s' : Store} (h : s.LooksLike s')
    (object : Ref .object) (arguments : List Value) (i : Initializer) :
    (s.prepare host object arguments i).1.LooksLike (s'.prepare host object arguments i).1 ∧
      (s'.prepare host object arguments i).2 = (s.prepare host object arguments i).2 := by
  cases i with
  | list =>
    refine ⟨?_, rfl⟩
    simp only [Store.prepare, Store.prepareList, h.lists]
    exact foldl (fun _ _ m h => h.addMethod object m.name m.arity _) _ (h.withLists _)
  | map =>
    refine ⟨?_, rfl⟩
    simp only [Store.prepare, Store.prepareMap, h.maps]
    exact foldl (fun _ _ m h => h.addMethod object m.name m.arity _) _ (h.withMaps _)
  | host tag =>
    obtain ⟨store, message⟩ := oblivious.prepare tag object arguments h
    exact ⟨store, by simp only [Store.prepare, message]⟩

theorem Host.sample_oblivious : Host.sample.Oblivious where
  call tag cell arguments s s' h := by
    change (Sample.call tag cell arguments s).store.LooksLike (Sample.call tag cell arguments s').store ∧
      (Sample.call tag cell arguments s').printed = (Sample.call tag cell arguments s).printed ∧
      (Sample.call tag cell arguments s').reply = (Sample.call tag cell arguments s).reply
    unfold Sample.call Sample.greet
    simp only [h.display, h.cells]
    split
    case h_6 k v => exact ⟨h.defineGlobal (s.display k) v, rfl, rfl⟩
    case h_8 r =>
      split
      · exact ⟨h.withCells _, rfl, rfl⟩
      · exact ⟨h, rfl, rfl⟩
    all_goals exact ⟨h, rfl, rfl⟩
  prepare tag object arguments s s' h := by
    change (Sample.prepare tag object arguments s).1.LooksLike (Sample.prepare tag object arguments s').1 ∧
      (Sample.prepare tag object arguments s').2 = (Sample.prepare tag object arguments s).2
    unfold Sample.prepare
    simp only [h.cells]
    split
    · exact ⟨(h.withCells _).addMethod object _ _ _, rfl⟩
    · exact ⟨h, rfl⟩
    · exact ⟨(h.setField object _ _).setField object _ _, rfl⟩
    · exact ⟨h, rfl⟩

end Scriptlet
