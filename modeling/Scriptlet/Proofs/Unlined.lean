import Scriptlet.Host.Sample
import Scriptlet.Proofs.Relabel

/-!
Stores without lines. Functions and methods keep the text of their routines, and with it lines; nothing that a store
can be asked for depends on them.
-/
namespace Scriptlet

section Containers

variable {κ α β : Type} {kind : ObjectKind}

/-- A table with each value replaced. -/
def Table.mapValues (f : α → β) (t : Table κ α) : Table κ β where
  entries := t.entries.map fun e => (e.1, f e.2)
  nodup := by
    rw [List.map_map]
    exact t.nodup

theorem Table.get?_mapValues [DecidableEq κ] (f : α → β) (t : Table κ α) (key : κ) :
    (t.mapValues f).get? key = (t.get? key).map f := by
  have find (es : List (κ × α)) : find key (es.map fun e => (e.1, f e.2)) = (find key es).map f := by
    induction es with
    | nil => rfl
    | cons e es ih =>
      simp only [List.map_cons, Table.find, ih]
      split <;> rfl
  exact find t.entries

theorem Table.mapValues_insert [DecidableEq κ] (f : α → β) (t : Table κ α) (key : κ) (value : α) :
    (t.insert key value).mapValues f = (t.mapValues f).insert key (f value) := by
  have put (es : List (κ × α)) :
      (put key value es).map (fun e => (e.1, f e.2)) = put key (f value) (es.map fun e => (e.1, f e.2)) := by
    induction es with
    | nil => rfl
    | cons e es ih =>
      simp only [List.map_cons, Table.put]
      split
      · rfl
      · exact congrArg _ ih
  simp only [Table.mapValues, Table.insert, put]

theorem Table.mapValues_mapValues {γ : Type} (f : α → β) (g : β → γ) (t : Table κ α) :
    (t.mapValues f).mapValues g = t.mapValues (g ∘ f) := by
  simp only [Table.mapValues, List.map_map]
  rfl

/-- A heap with each object replaced. -/
def Heap.map (f : α → β) (h : Heap kind α) : Heap kind β := ⟨h.cells.map f⟩

theorem Heap.get?_map (f : α → β) (h : Heap kind α) (r : Ref kind) : (h.map f).get? r = (h.get? r).map f := by
  simp [Heap.map, Heap.get?]

theorem Heap.next_map (f : α → β) (h : Heap kind α) : (h.map f).next = h.next := by
  simp [Heap.map, Heap.next]

theorem Heap.map_alloc (f : α → β) (h : Heap kind α) (a : α) : (h.alloc a).map f = (h.map f).alloc (f a) := by
  simp [Heap.map, Heap.alloc]

theorem Heap.map_map {γ : Type} (f : α → β) (g : β → γ) (h : Heap kind α) : (h.map f).map g = h.map (g ∘ f) := by
  simp [Heap.map]

end Containers

theorem Relabeling.unlined_andThen : unlined.andThen unlined = unlined := rfl

def Closure.unlined (c : Closure) : Closure := { c with routine := Relabeling.unlined.routine c.routine }

def Callable.unlined : Callable → Callable
  | .closure c => .closure c.unlined
  | .native n => .native n

def ClassObject.unlined (c : ClassObject) : ClassObject := { c with methods := c.methods.mapValues Closure.unlined }

def Callee.unlined : Callee → Callee
  | .function f => .function f.unlined
  | .class r c => .class r c.unlined

def Property.unlined : Property → Property
  | .value v => .value v
  | .method c receiver => .method c.unlined receiver

/-- The store without the lines of the routines in it. -/
def Store.unlined (s : Store) : Store :=
  { s with functions := s.functions.map Callable.unlined, classes := s.classes.map ClassObject.unlined }

section Twice

@[simp]
theorem Closure.unlined_unlined (c : Closure) : c.unlined.unlined = c.unlined := by
  simp only [Closure.unlined, ← Relabeling.routine_andThen, Relabeling.unlined_andThen]

@[simp]
theorem Callable.unlined_unlined (f : Callable) : f.unlined.unlined = f.unlined := by
  cases f with
  | closure c => exact congrArg Callable.closure c.unlined_unlined
  | native n => rfl

@[simp]
theorem ClassObject.unlined_unlined (c : ClassObject) : c.unlined.unlined = c.unlined := by
  have twice : Closure.unlined ∘ Closure.unlined = Closure.unlined := funext Closure.unlined_unlined
  simp only [ClassObject.unlined, Table.mapValues_mapValues, twice]

@[simp]
theorem Callee.unlined_unlined (c : Callee) : c.unlined.unlined = c.unlined := by
  cases c with
  | function f => exact congrArg Callee.function f.unlined_unlined
  | «class» r c => exact congrArg (Callee.class r) c.unlined_unlined

@[simp]
theorem Store.unlined_unlined (s : Store) : s.unlined.unlined = s.unlined := by
  have functions : Callable.unlined ∘ Callable.unlined = Callable.unlined := funext Callable.unlined_unlined
  have classes : ClassObject.unlined ∘ ClassObject.unlined = ClassObject.unlined := funext ClassObject.unlined_unlined
  simp only [Store.unlined, Heap.map_map, functions, classes]

end Twice

theorem Closure.arity_unlined (c : Closure) : c.unlined.arity = c.arity := by
  simp [Closure.unlined, Closure.arity]

theorem Closure.display_unlined (c : Closure) : c.unlined.display = c.display := by
  simp [Closure.unlined, Closure.display]

theorem ClassObject.constructor?_unlined (c : ClassObject) :
    c.unlined.constructor? = c.constructor?.map Closure.unlined := Table.get?_mapValues _ _ _

theorem Callee.arity_unlined (c : Callee) : c.unlined.arity = c.arity := by
  rcases c with (c | n) | ⟨r, c⟩
  · exact c.arity_unlined
  · rfl
  · simp only [Callee.unlined, Callee.arity, ClassObject.arity, ClassObject.constructor?_unlined]
    cases c.constructor? with
    | none => rfl
    | some f => exact f.arity_unlined

namespace Store

variable (s : Store)

theorem callee?_unlined (v : Value) : s.unlined.callee? v = (s.callee? v).map Callee.unlined := by
  cases v with
  | function r | «class» r =>
    simp only [callee?, unlined, Heap.get?_map, Option.map_map]
    rfl
  | _ => rfl

theorem className_unlined (r : Ref .classObject) : s.unlined.className r = s.className r := by
  simp only [className, unlined, Heap.get?_map, Option.map_map]
  rfl

theorem display_unlined (v : Value) : s.unlined.display v = s.display v := by
  have callable (f : Callable) : f.unlined.display = f.display := by
    cases f with
    | closure c => exact c.display_unlined
    | native n => rfl
  cases v with
  | function r =>
    simp only [display, unlined, Heap.get?_map, Option.map_map]
    congr 2
    exact funext callable
  | «class» r => exact s.className_unlined r
  | «instance» r =>
    simp only [display, className_unlined]
    rfl
  | boolean b => cases b <;> rfl
  | _ => rfl

theorem addFunction_unlined (f : Callable) :
    s.unlined.addFunction f.unlined = ((s.addFunction f).1, (s.addFunction f).2.unlined) := by
  simp only [addFunction, unlined, Heap.next_map, Heap.map_alloc]

theorem addNative_unlined (name : String) (arity : Nat) (behaviour : Behaviour) :
    s.unlined.addNative name arity behaviour =
      ((s.addNative name arity behaviour).1, (s.addNative name arity behaviour).2.unlined) :=
  s.addFunction_unlined (.native ⟨name, arity, behaviour⟩)

theorem addClass_unlined (c : ClassObject) :
    s.unlined.addClass c.unlined = ((s.addClass c).1, (s.addClass c).2.unlined) := by
  simp only [addClass, unlined, Heap.next_map, Heap.map_alloc]

theorem bind_unlined (c : Closure) (receiver : Ref .object) :
    s.unlined.bind c.unlined receiver = ((s.bind c receiver).1.unlined, (s.bind c receiver).2.unlined) := rfl

theorem property?_unlined (r : Ref .object) (name : String) :
    s.unlined.property? r name = (s.property? r name).map Property.unlined := by
  have static (c : Ref .classObject) : s.unlined.static? c name = s.static? c name := by
    simp only [static?, unlined, Heap.get?_map, Option.bind_map]
    rfl
  have method (c : Ref .classObject) : s.unlined.method? c name = (s.method? c name).map Closure.unlined := by
    simp only [method?, unlined, Heap.get?_map]
    cases s.classes.get? c with
    | none => rfl
    | some c => exact Table.get?_mapValues _ _ _
  have instances : s.unlined.instances = s.instances := rfl
  simp only [property?, static, method, instances]
  cases s.instances.get? r with
  | none => rfl
  | some i =>
    dsimp only
    cases i.fields.get? name with
    | some v => rfl
    | none =>
      cases s.static? i.classRef name with
      | some v => rfl
      | none =>
        simp only [Option.map_map]
        rfl

theorem member?_unlined (v : Value) (name : String) :
    s.unlined.member? v name = (s.member? v name).map Property.unlined := by
  cases v with
  | «instance» r => exact s.property?_unlined r name
  | «class» r =>
    simp only [member?, static?, unlined, Heap.get?_map, Option.bind_map, Option.map_map]
    rfl
  | _ => rfl

theorem realize_unlined (p : Property) :
    s.unlined.realize p.unlined = ((s.realize p).1, (s.realize p).2.unlined) := by
  cases p with
  | value v => rfl
  | method c receiver => exact addFunction_unlined (s.bind c receiver).2 (.closure (s.bind c receiver).1)

theorem addMethod_unlined (object : Ref .object) (name : String) (arity : Nat) (behaviour : Behaviour) :
    s.unlined.addMethod object name arity behaviour = (s.addMethod object name arity behaviour).unlined := by
  simp only [addMethod, addNative_unlined]
  rfl

theorem foldl_unlined {α : Type} {f : Store → α → Store} (h : ∀ s a, f s.unlined a = (f s a).unlined) (as : List α) :
    as.foldl f s.unlined = (as.foldl f s).unlined := by
  induction as generalizing s with
  | nil => rfl
  | cons a as ih =>
    rw [List.foldl_cons, List.foldl_cons, h]
    exact ih (f s a)

theorem prepareList_unlined (object : Ref .object) : s.unlined.prepareList object = (s.prepareList object).unlined :=
  foldl_unlined { s with lists := s.lists.alloc [] } (fun s m => s.addMethod_unlined object m.name m.arity _) _

theorem prepareMap_unlined (object : Ref .object) : s.unlined.prepareMap object = (s.prepareMap object).unlined :=
  foldl_unlined { s with maps := s.maps.alloc .empty } (fun s m => s.addMethod_unlined object m.name m.arity _) _

end Store

def Answer.unlined (a : Answer) : Answer := { a with store := a.store.unlined }

/-- A host that pays no regard to lines: on stores that differ in lines only it prints and answers the same, and leaves
stores that differ in lines only. -/
structure Host.Blind (host : Host) : Prop where
  call : ∀ tag cell arguments (s s' : Store), s.unlined = s'.unlined →
    (host.call tag cell arguments s).unlined = (host.call tag cell arguments s').unlined
  prepare : ∀ tag object arguments (s s' : Store), s.unlined = s'.unlined →
    (host.prepare tag object arguments s).1.unlined = (host.prepare tag object arguments s').1.unlined ∧
      (host.prepare tag object arguments s).2 = (host.prepare tag object arguments s').2

/-- It is enough that lines make no difference to the operations of a host. -/
theorem Host.blind_of_commutes {host : Host}
    (call : ∀ tag cell arguments (s : Store),
      host.call tag cell arguments s.unlined = (host.call tag cell arguments s).unlined)
    (prepare : ∀ tag object arguments (s : Store), host.prepare tag object arguments s.unlined =
      ((host.prepare tag object arguments s).1.unlined, (host.prepare tag object arguments s).2)) : host.Blind where
  call tag cell arguments s s' h := by rw [← call, ← call, h]
  prepare tag object arguments s s' h := by
    have same := prepare tag object arguments s
    rw [h, prepare] at same
    exact ⟨(Prod.mk.inj same).1.symm, (Prod.mk.inj same).2.symm⟩

theorem Host.empty_blind : Host.empty.Blind := blind_of_commutes (fun _ _ _ _ => rfl) fun _ _ _ _ => rfl

end Scriptlet
