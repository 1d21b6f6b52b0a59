import Mathlib.Data.Set.Basic
import Scriptlet.Library.Prepare
import Scriptlet.Proofs.AlignedSteps

/-!
What can be reached in a store: the objects that some roots refer to, those that their contents refer to, and so on.
A realm is a part of stores out of which nothing leads: whatever is read inside of it is inside, and so is what is made
there. Around what is reachable, together with what does not exist yet, stands a fence. Its inside is a realm, and a
change there leaves all that is outside as it was.
-/
namespace Scriptlet

/-- What a store keeps for a reference of a kind. -/
abbrev Content : ObjectKind → Type
  | .frame => Frame
  | .function => Callable
  | .classObject => ClassObject
  | .object => Instance
  | .list => List Value
  | .map => Table Value.Key Value
  | .cell => Value

/-- An object of any kind, known by its reference. -/
structure Object where
  kind : ObjectKind
  ref : Ref kind
deriving DecidableEq, Repr

def Store.heap (s : Store) : (kind : ObjectKind) → Heap kind (Content kind)
  | .frame => s.frames
  | .function => s.functions
  | .classObject => s.classes
  | .object => s.instances
  | .list => s.lists
  | .map => s.maps
  | .cell => s.cells

def Store.content? (s : Store) (x : Object) : Option (Content x.kind) := (s.heap x.kind).get? x.ref

/-- The object that a value refers to. -/
def Value.target? : Value → Option Object
  | .function r => some ⟨.function, r⟩
  | .class r => some ⟨.classObject, r⟩
  | .instance r => some ⟨.object, r⟩
  | _ => none

/-- A value that the table holds refers to the object. -/
def Table.Mentions {κ : Type} [DecidableEq κ] (t : Table κ Value) (x : Object) : Prop :=
  ∃ key v, t.get? key = some v ∧ v.target? = some x

def Behaviour.storage? : Behaviour → Option Object
  | .list _ items => some ⟨.list, items⟩
  | .map _ entries => some ⟨.map, entries⟩
  | .host _ cell? => cell?.map (Object.mk .cell)
  | _ => none

def Callable.Mentions (x : Object) : Callable → Prop
  | .closure c => x = ⟨.frame, c.frame⟩
  | .native n => n.behaviour.storage? = some x

def ClassObject.Mentions (c : ClassObject) (x : Object) : Prop :=
  (∃ name m, c.methods.get? name = some m ∧ x = ⟨.frame, m.frame⟩) ∨ c.statics.Mentions x

/-- What is kept for a reference refers to the object. -/
def Content.Mentions : {kind : ObjectKind} → Content kind → Object → Prop
  | .frame, f, x => (∃ parent, f.enclosing = some parent ∧ x = ⟨.frame, parent⟩) ∨ f.bindings.Mentions x
  | .function, f, x => Callable.Mentions x f
  | .classObject, c, x => ClassObject.Mentions c x
  | .object, i, x => x = ⟨.classObject, i.classRef⟩ ∨ i.fields.Mentions x
  | .list, items, x => ∃ v ∈ items, v.target? = some x
  | .map, entries, x => Table.Mentions entries x
  | .cell, v, x => v.target? = some x

/-- The objects that can be reached from some roots. -/
inductive Store.Reaches (s : Store) (roots : Set Object) : Object → Prop
  | root {x : Object} : x ∈ roots → Reaches s roots x
  | follow {x y : Object} {c : Content x.kind} : Reaches s roots x → s.content? x = some c → c.Mentions y →
      Reaches s roots y

/-- A set that has the roots and all that its members mention has everything that is reachable. -/
theorem Store.Reaches.mem {s : Store} {roots A : Set Object} (start : roots ⊆ A)
    (closed : ∀ x ∈ A, ∀ c, s.content? x = some c → ∀ y, c.Mentions y → y ∈ A) {x : Object} (h : s.Reaches roots x) :
    x ∈ A := by
  induction h with
  | root hx => exact start hx
  | follow _ hc hy ih => exact closed _ ih _ hc _ hy

/-- Where a call starts from: the outermost frame, the callee and the arguments. -/
def Store.callRoots (callee : Value) (arguments : List Value) : Set Object :=
  {x | x = ⟨.frame, Store.globals⟩ ∨ callee.target? = some x ∨ ∃ v ∈ arguments, v.target? = some x}

def Behaviour.Library : Behaviour → Prop
  | .host _ _ => False
  | _ => True

def Initializer.Library : Initializer → Prop
  | .host _ => False
  | _ => True

/-- Nothing about it is done by the host: natives read the clock or the input, or belong to lists and maps. -/
def Content.Library : {kind : ObjectKind} → Content kind → Prop
  | .function, .native n => n.behaviour.Library
  | .classObject, c => ∀ native, c.native = some native → native.initializer.Library
  | _, _ => True

section Inside

variable {hosted : Prop} {A B : Set Object}

/-- A value that refers to nothing outside. -/
def Value.Inside (A : Set Object) (v : Value) : Prop := ∀ x, v.target? = some x → x ∈ A

def Table.Inside {κ : Type} [DecidableEq κ] (A : Set Object) (t : Table κ Value) : Prop :=
  ∀ key v, t.get? key = some v → v.Inside A

/-- A content that refers to nothing outside, and is the library's unless the host may take part. -/
structure Content.Inside (hosted : Prop) (A : Set Object) {k : ObjectKind} (c : Content k) : Prop where
  allowed : hosted ∨ c.Library
  inside : ∀ x, c.Mentions x → x ∈ A

theorem Value.Inside.mono {v : Value} (h : v.Inside A) (kept : A ⊆ B) : v.Inside B := fun x hx => kept (h x hx)

theorem Content.Inside.mono {k : ObjectKind} {c : Content k} (h : c.Inside hosted A) (kept : A ⊆ B) :
    c.Inside hosted B :=
  ⟨h.allowed, fun x hx => kept (h.inside x hx)⟩

theorem Value.inside_of_none {v : Value} (h : v.target? = none) : v.Inside A := by
  intro x hx
  rw [h] at hx
  cases hx

theorem Value.inside_of_some {v : Value} {x : Object} (h : v.target? = some x) : v.Inside A ↔ x ∈ A := by
  constructor
  · intro inside
    exact inside x h
  · intro hx y hy
    rw [h] at hy
    cases hy
    exact hx

@[simp]
theorem Value.inside_function {r : Ref .function} : (Value.function r).Inside A ↔ ⟨.function, r⟩ ∈ A :=
  Value.inside_of_some rfl

@[simp]
theorem Value.inside_class {r : Ref .classObject} : (Value.class r).Inside A ↔ ⟨.classObject, r⟩ ∈ A :=
  Value.inside_of_some rfl

@[simp]
theorem Value.inside_instance {r : Ref .object} : (Value.instance r).Inside A ↔ ⟨.object, r⟩ ∈ A :=
  Value.inside_of_some rfl

theorem Table.inside_empty {κ : Type} [DecidableEq κ] : (Table.empty : Table κ Value).Inside A := nofun

theorem Table.Inside.insert {κ : Type} [DecidableEq κ] {t : Table κ Value} (h : t.Inside A) (key : κ) {v : Value}
    (inside : v.Inside A) : (t.insert key v).Inside A := by
  intro k w hw
  rw [Table.get?_insert] at hw
  split at hw
  · cases hw
    exact inside
  · exact h k w hw

theorem Table.Inside.erase {κ : Type} [DecidableEq κ] {t : Table κ Value} (h : t.Inside A) (key : κ) :
    (t.erase key).Inside A := by
  intro k w hw
  rw [Table.get?_erase] at hw
  split at hw
  · cases hw
  · exact h k w hw

theorem Table.inside_iff {κ : Type} [DecidableEq κ] {t : Table κ Value} : t.Inside A ↔ ∀ x, t.Mentions x → x ∈ A := by
  constructor
  · rintro h x ⟨key, v, hv, hx⟩
    exact h key v hv x hx
  · intro h key v hv x hx
    exact h x ⟨key, v, hv, hx⟩

theorem Content.inside_frame {f : Frame} : Content.Inside (k := .frame) hosted A f ↔
    (∀ parent, f.enclosing = some parent → ⟨.frame, parent⟩ ∈ A) ∧ f.bindings.Inside A := by
  constructor
  · rintro ⟨-, inside⟩
    exact ⟨fun parent h => inside _ (.inl ⟨parent, h, rfl⟩), Table.inside_iff.2 fun x hx => inside x (.inr hx)⟩
  · rintro ⟨outer, bindings⟩
    refine ⟨.inr trivial, ?_⟩
    rintro x (⟨parent, h, rfl⟩ | hx)
    · exact outer parent h
    · exact Table.inside_iff.1 bindings x hx

theorem Content.inside_closure {c : Closure} :
    Content.Inside (k := .function) hosted A (.closure c) ↔ ⟨.frame, c.frame⟩ ∈ A := by
  constructor
  · rintro ⟨-, inside⟩
    exact inside _ rfl
  · intro h
    refine ⟨.inr trivial, ?_⟩
    rintro x rfl
    exact h

theorem Content.inside_native {n : Native} : Content.Inside (k := .function) hosted A (.native n) ↔
    (hosted ∨ n.behaviour.Library) ∧ ∀ x, n.behaviour.storage? = some x → x ∈ A :=
  ⟨fun h => ⟨h.allowed, h.inside⟩, fun h => ⟨h.1, h.2⟩⟩

theorem Content.inside_class {c : ClassObject} : Content.Inside (k := .classObject) hosted A c ↔
    (hosted ∨ ∀ native, c.native = some native → native.initializer.Library) ∧
      (∀ name m, c.methods.get? name = some m → ⟨.frame, m.frame⟩ ∈ A) ∧ c.statics.Inside A := by
  constructor
  · rintro ⟨allowed, inside⟩
    exact ⟨allowed, fun name m h => inside _ (.inl ⟨name, m, h, rfl⟩), Table.inside_iff.2 fun x hx => inside x (.inr hx)⟩
  · rintro ⟨allowed, methods, statics⟩
    refine ⟨allowed, ?_⟩
    rintro x (⟨name, m, h, rfl⟩ | hx)
    · exact methods name m h
    · exact Table.inside_iff.1 statics x hx

theorem Content.inside_instance {i : Instance} : Content.Inside (k := .object) hosted A i ↔
    ⟨.classObject, i.classRef⟩ ∈ A ∧ i.fields.Inside A := by
  constructor
  · rintro ⟨-, inside⟩
    exact ⟨inside _ (.inl rfl), Table.inside_iff.2 fun x hx => inside x (.inr hx)⟩
  · rintro ⟨ofClass, fields⟩
    refine ⟨.inr trivial, ?_⟩
    rintro x (rfl | hx)
    · exact ofClass
    · exact Table.inside_iff.1 fields x hx

theorem Content.inside_list {items : List Value} :
    Content.Inside (k := .list) hosted A items ↔ ∀ v ∈ items, v.Inside A := by
  constructor
  · rintro ⟨-, inside⟩ v hv x hx
    exact inside x ⟨v, hv, hx⟩
  · intro h
    refine ⟨.inr trivial, ?_⟩
    rintro x ⟨v, hv, hx⟩
    exact h v hv x hx

theorem Content.inside_map {entries : Table Value.Key Value} :
    Content.Inside (k := .map) hosted A entries ↔ entries.Inside A :=
  ⟨fun h => Table.inside_iff.2 h.inside, fun h => ⟨.inr trivial, Table.inside_iff.1 h⟩⟩

end Inside

/-- A value inside, or a method inside with a receiver inside. -/
def Property.Inside (A : Set Object) : Property → Prop
  | .value v => v.Inside A
  | .method m receiver => ⟨.frame, m.frame⟩ ∈ A ∧ ⟨.object, receiver⟩ ∈ A

/-- Something to call that is inside with all that it refers to. -/
def Callee.Inside (hosted : Prop) (A : Set Object) : Callee → Prop
  | .function f => Content.Inside (k := .function) hosted A f
  | .class r c => ⟨.classObject, r⟩ ∈ A ∧ Content.Inside (k := .classObject) hosted A c

def Reply.Inside (A : Set Object) : Reply → Prop
  | .value v => v.Inside A
  | .failure _ => True
  | .call callee arguments => callee.Inside A ∧ ∀ v ∈ arguments, v.Inside A

/-- The set has all that its members refer to. -/
def Store.Closed (A : Set Object) (s : Store) : Prop :=
  ∀ x ∈ A, ∀ c, s.content? x = some c → ∀ y, c.Mentions y → y ∈ A

namespace Store.Closed

variable {A : Set Object} {s : Store} {f : Ref .frame} {r : Ref .object} {c : Ref .classObject} {name : String} {v : Value}
  (h : s.Closed A)
include h

theorem fetch (hf : ⟨.frame, f⟩ ∈ A) (hv : s.frames.fetch f name = some v) : v.Inside A := by
  obtain ⟨a, ha, hv⟩ := Option.bind_eq_some_iff.1 hv
  intro x hx
  exact h ⟨.frame, f⟩ hf a ha x (.inr ⟨name, v, hv, hx⟩)

theorem enclosing (hf : ⟨.frame, f⟩ ∈ A) {parent : Ref .frame}
    (hp : s.frames.enclosing f = some parent) : ⟨.frame, parent⟩ ∈ A := by
  obtain ⟨a, ha, hp⟩ := Option.bind_eq_some_iff.1 hp
  exact h ⟨.frame, f⟩ hf a ha _ (.inl ⟨parent, hp, rfl⟩)

theorem ancestor {distance : Nat} {g : Ref .frame} (hf : ⟨.frame, f⟩ ∈ A)
    (hg : s.frames.ancestor f distance = some g) : ⟨.frame, g⟩ ∈ A := by
  induction distance generalizing f with
  | zero =>
    cases hg
    exact hf
  | succ distance ih =>
    obtain ⟨parent, hp, hg⟩ := Option.bind_eq_some_iff.1 hg
    exact ih (h.enclosing hf hp) hg

theorem static (hc : ⟨.classObject, c⟩ ∈ A) (hv : s.static? c name = some v) : v.Inside A := by
  obtain ⟨k, hk, hv⟩ := Option.bind_eq_some_iff.1 hv
  intro x hx
  exact h ⟨.classObject, c⟩ hc k hk x (.inr ⟨name, v, hv, hx⟩)

theorem method (hc : ⟨.classObject, c⟩ ∈ A) {m : Closure} (hm : s.method? c name = some m) :
    ⟨.frame, m.frame⟩ ∈ A := by
  obtain ⟨k, hk, hm⟩ := Option.bind_eq_some_iff.1 hm
  exact h ⟨.classObject, c⟩ hc k hk _ (.inl ⟨name, m, hm, rfl⟩)

theorem property (hr : ⟨.object, r⟩ ∈ A) {p : Property} (hp : s.property? r name = some p) : p.Inside A := by
  unfold Store.property? at hp
  split at hp
  · cases hp
  · next i hi =>
    have ofClass : ⟨.classObject, i.classRef⟩ ∈ A := h ⟨.object, r⟩ hr i hi _ (.inl rfl)
    split at hp
    · next v hv =>
      cases hp
      intro x hx
      exact h ⟨.object, r⟩ hr i hi x (.inr ⟨name, v, hv, hx⟩)
    · next v _ hv =>
      cases hp
      exact h.static ofClass hv
    · obtain ⟨m, hm, rfl⟩ := Option.map_eq_some_iff.1 hp
      exact ⟨h.method ofClass hm, hr⟩

theorem member (inside : v.Inside A) {p : Property} (hp : s.member? v name = some p) : p.Inside A := by
  cases v with
  | «instance» r => exact h.property (Value.inside_instance.1 inside) hp
  | «class» c =>
    obtain ⟨w, hw, rfl⟩ := Option.map_eq_some_iff.1 hp
    exact h.static (Value.inside_class.1 inside) hw
  | _ => cases hp

end Store.Closed

def Store.withHeap (s : Store) : (kind : ObjectKind) → Heap kind (Content kind) → Store
  | .frame, frames => { s with frames }
  | .function, functions => { s with functions }
  | .classObject, classes => { s with classes }
  | .object, instances => { s with instances }
  | .list, lists => { s with lists }
  | .map, maps => { s with maps }
  | .cell, cells => { s with cells }

namespace Store

/-! A heap in which one object is new or changed. -/
section Changes

variable {s : Store} {k : ObjectKind} {heap : Heap k (Content k)} {r : Ref k} {x : Object}

theorem heap_withHeap : (s.withHeap k heap).heap k = heap := by cases k <;> rfl

theorem heap_withHeap_of_ne {j : ObjectKind} (hj : j ≠ k) : (s.withHeap k heap).heap j = s.heap j := by
  cases k <;> cases j <;> first | rfl | exact absurd rfl hj

theorem content?_withHeap : (s.withHeap k heap).content? ⟨k, r⟩ = heap.get? r := by rw [content?, heap_withHeap]

theorem content?_withHeap_of_ne (others : ∀ q ≠ r, heap.get? q = (s.heap k).get? q) (hx : x ≠ ⟨k, r⟩) :
    (s.withHeap k heap).content? x = s.content? x := by
  obtain ⟨j, q⟩ := x
  by_cases hj : j = k
  · subst hj
    exact content?_withHeap.trans (others q fun same => hx (same ▸ rfl))
  · simp only [content?, heap_withHeap_of_ne hj]

/-- What holds of the object and of all contents before holds of all contents after. -/
theorem forall_withHeap {P : (x : Object) → Content x.kind → Prop} (others : ∀ q ≠ r, heap.get? q = (s.heap k).get? q)
    (here : ∀ a, heap.get? r = some a → P ⟨k, r⟩ a) (old : ∀ x c, s.content? x = some c → P x c) :
    ∀ x c, (s.withHeap k heap).content? x = some c → P x c := by
  intro x c hc
  by_cases hx : x = ⟨k, r⟩
  · subst hx
    exact here c (content?_withHeap.symm.trans hc)
  · exact old x c ((content?_withHeap_of_ne others hx).symm.trans hc)

theorem content?_next : s.content? ⟨k, (s.heap k).next⟩ = none := by simp [content?, Heap.get?, Heap.next]

theorem get?_alloc_of_ne {a : Content k} (q : Ref k) (hq : q ≠ (s.heap k).next) :
    ((s.heap k).alloc a).get? q = (s.heap k).get? q := by
  rw [Heap.get?_alloc, if_neg hq]

end Changes

end Store

/-- A heap in which one object is new or changed, and refers to nothing outside. -/
structure Store.Places (hosted : Prop) (A : Set Object) (s : Store) {k : ObjectKind} (r : Ref k)
    (heap : Heap k (Content k)) : Prop where
  others : ∀ q ≠ r, heap.get? q = (s.heap k).get? q
  there : (s.content? ⟨k, r⟩).isSome = true → (heap.get? r).isSome = true
  inside : ∀ a, heap.get? r = some a → a.Inside hosted A

/-- A part of stores out of which no work leads that is done inside of it. It has the outermost frame and all that its
objects refer to, and goes on to do so when an object of it is changed, or a new one made, within its bounds. -/
structure Realm where
  /-- The stores that have it. -/
  Holds : Store → Prop
  inside : Store → Set Object
  /-- Whether there may be functions and classes of the host. -/
  hosted : Prop
  globals : ∀ {s}, Holds s → ⟨.frame, Store.globals⟩ ∈ inside s
  content : ∀ {s}, Holds s → ∀ x ∈ inside s, ∀ c, s.content? x = some c → c.Inside hosted (inside s)
  withHeap : ∀ {s} {k : ObjectKind} {r : Ref k} {heap : Heap k (Content k)}, Holds s →
    s.Places hosted (inside s) r heap → s.content? ⟨k, r⟩ = none ∨ ⟨k, r⟩ ∈ inside s →
    Holds (s.withHeap k heap) ∧ inside s ⊆ inside (s.withHeap k heap) ∧
      ((heap.get? r).isSome = true → ⟨k, r⟩ ∈ inside (s.withHeap k heap))

namespace Realm

instance : CoeFun Realm fun _ => Store → Set Object := ⟨inside⟩

/-- The second store has the realm too, with all that was in it before. -/
structure Enlarged (R : Realm) (s t : Store) : Prop where
  holds : R.Holds t
  kept : R s ⊆ R t

/-- What the host does stays inside, where there may be functions and classes of the host at all. -/
structure Admits (R : Realm) (host : Host) : Prop where
  call : R.hosted → ∀ (tag : String) (cell? : Option (Ref .cell)) {arguments : List Value} {s : Store}, R.Holds s →
    (∀ cell, cell? = some cell → ⟨.cell, cell⟩ ∈ R s) → (∀ v ∈ arguments, v.Inside (R s)) →
    R.Enlarged s (host.call tag cell? arguments s).store ∧
      (host.call tag cell? arguments s).reply.Inside (R (host.call tag cell? arguments s).store)
  prepare : R.hosted → ∀ (tag : String) {object : Ref .object} {arguments : List Value} {s : Store}, R.Holds s →
    ⟨.object, object⟩ ∈ R s → (∀ v ∈ arguments, v.Inside (R s)) →
    R.Enlarged s (host.prepare tag object arguments s).1

variable {R : Realm} {host : Host} {s t u : Store}

theorem Enlarged.trans (h : R.Enlarged s t) (h' : R.Enlarged t u) : R.Enlarged s u := ⟨h'.holds, h.kept.trans h'.kept⟩

namespace Holds

variable (h : R.Holds s)
include h

theorem enlarged : R.Enlarged s s := ⟨h, subset_rfl⟩

theorem closed : s.Closed (R s) := fun x hx c hc => (R.content h x hx c hc).inside

/-- A new object of some kind. -/
theorem alloc {k : ObjectKind} {a : Content k} (inside : a.Inside R.hosted (R s)) :
    R.Enlarged s (s.withHeap k ((s.heap k).alloc a)) ∧
      ⟨k, (s.heap k).next⟩ ∈ R (s.withHeap k ((s.heap k).alloc a)) := by
  have new : ((s.heap k).alloc a).get? (s.heap k).next = some a := by rw [Heap.get?_alloc, if_pos rfl]
  have places : s.Places R.hosted (R s) (s.heap k).next ((s.heap k).alloc a) := by
    refine ⟨Store.get?_alloc_of_ne, fun _ => new ▸ rfl, fun b hb => ?_⟩
    rw [new] at hb
    cases hb
    exact inside
  obtain ⟨holds, kept, made⟩ := R.withHeap h places (.inl Store.content?_next)
  exact ⟨⟨holds, kept⟩, made (new ▸ rfl)⟩

/-- An object inside is changed into one that stays inside. -/
theorem update {k : ObjectKind} {r : Ref k} (hr : ⟨k, r⟩ ∈ R s) {f : Content k → Content k}
    {heap : Heap k (Content k)} (inside : ∀ a, s.content? ⟨k, r⟩ = some a → (f a).Inside R.hosted (R s))
    (new : ∀ q, heap.get? q = if q = r then ((s.heap k).get? q).map f else (s.heap k).get? q) :
    R.Enlarged s (s.withHeap k heap) := by
  have here : heap.get? r = (s.content? ⟨k, r⟩).map f := (new r).trans (if_pos rfl)
  have places : s.Places R.hosted (R s) r heap := by
    refine ⟨fun q hq => (new q).trans (if_neg hq), fun found => ?_, fun b hb => ?_⟩
    · rwa [here, Option.isSome_map]
    · rw [here] at hb
      obtain ⟨a, ha, rfl⟩ := Option.map_eq_some_iff.1 hb
      exact inside a ha
  obtain ⟨holds, kept, -⟩ := R.withHeap h places (.inr hr)
  exact ⟨holds, kept⟩

theorem callee {v : Value} (inside : v.Inside (R s)) {c : Callee} (hc : s.callee? v = some c) :
    c.Inside R.hosted (R s) := by
  cases v with
  | function r =>
    obtain ⟨f, hf, rfl⟩ := Option.map_eq_some_iff.1 hc
    exact R.content h ⟨.function, r⟩ (Value.inside_function.1 inside) f hf
  | «class» r =>
    obtain ⟨c, hr, rfl⟩ := Option.map_eq_some_iff.1 hc
    have hr' := Value.inside_class.1 inside
    exact ⟨hr', R.content h ⟨.classObject, r⟩ hr' c hr⟩
  | _ => cases hc

theorem define {f : Ref .frame} (hf : ⟨.frame, f⟩ ∈ R s) (name : String) {v : Value}
    (inside : v.Inside (R s)) : R.Enlarged s (s.define f name v) := by
  refine h.update (k := .frame) hf (f := fun a => { a with bindings := a.bindings.insert name v }) (fun a ha => ?_)
    fun q => Heap.get?_modify s.frames f q _
  obtain ⟨outer, bindings⟩ := Content.inside_frame.1 (R.content h ⟨.frame, f⟩ hf a ha)
  exact Content.inside_frame.2 ⟨outer, bindings.insert name inside⟩

theorem setField {r : Ref .object} (hr : ⟨.object, r⟩ ∈ R s) (name : String) {v : Value}
    (inside : v.Inside (R s)) : R.Enlarged s (s.setField r name v) := by
  refine h.update (k := .object) hr (f := fun i => { i with fields := i.fields.insert name v }) (fun i hi => ?_)
    fun q => Heap.get?_modify s.instances r q _
  obtain ⟨ofClass, fields⟩ := Content.inside_instance.1 (R.content h ⟨.object, r⟩ hr i hi)
  exact Content.inside_instance.2 ⟨ofClass, fields.insert name inside⟩

theorem setList {r : Ref .list} (hr : ⟨.list, r⟩ ∈ R s) {items : List Value}
    (inside : ∀ v ∈ items, v.Inside (R s)) : R.Enlarged s { s with lists := s.lists.set r items } :=
  h.update (k := .list) hr (fun _ _ => Content.inside_list.2 inside) fun q => Heap.get?_set s.lists r q items

theorem setMap {r : Ref .map} (hr : ⟨.map, r⟩ ∈ R s) {entries : Table Value.Key Value}
    (inside : entries.Inside (R s)) : R.Enlarged s { s with maps := s.maps.set r entries } :=
  h.update (k := .map) hr (fun _ _ => Content.inside_map.2 inside) fun q => Heap.get?_set s.maps r q entries

theorem addFunction {f : Callable} (inside : Content.Inside (k := .function) R.hosted (R s) f) :
    R.Enlarged s (s.addFunction f).2 ∧ (s.addFunction f).1.Inside (R (s.addFunction f).2) := by
  rw [Store.addFunction, Value.inside_function]
  exact h.alloc (k := .function) inside

theorem addClass {c : ClassObject} (inside : Content.Inside (k := .classObject) R.hosted (R s) c) :
    R.Enlarged s (s.addClass c).2 ∧ (s.addClass c).1.Inside (R (s.addClass c).2) := by
  rw [Store.addClass, Value.inside_class]
  exact h.alloc (k := .classObject) inside

theorem addInstance {r : Ref .classObject} (hr : ⟨.classObject, r⟩ ∈ R s) :
    R.Enlarged s (s.addInstance r).2 ∧ ⟨.object, (s.addInstance r).1⟩ ∈ R (s.addInstance r).2 :=
  h.alloc (k := .object) (Content.inside_instance.2 ⟨hr, Table.inside_empty⟩)

theorem addFrame {parent : Ref .frame} (hp : ⟨.frame, parent⟩ ∈ R s)
    (bindings : List (String × Value)) (inside : ∀ b ∈ bindings, b.2.Inside (R s)) :
    R.Enlarged s (s.addFrame parent bindings).2 ∧
      ⟨.frame, (s.addFrame parent bindings).1⟩ ∈ R (s.addFrame parent bindings).2 := by
  refine h.alloc (k := .frame) (Content.inside_frame.2 ⟨?_, ?_⟩)
  · intro p same
    cases same
    exact hp
  · intro name v hv
    rcases Machine.mem_of_get?_foldl hv with ⟨b, hb, rfl⟩ | none
    · exact inside b hb
    · cases none

theorem bind {m : Closure} {receiver : Ref .object} (hm : ⟨.frame, m.frame⟩ ∈ R s)
    (hr : ⟨.object, receiver⟩ ∈ R s) : R.Enlarged s (s.bind m receiver).2 ∧
      ⟨.frame, (s.bind m receiver).1.frame⟩ ∈ R (s.bind m receiver).2 := by
  refine h.addFrame hm _ ?_
  intro b hb
  rw [List.mem_singleton] at hb
  subst hb
  exact Value.inside_instance.2 hr

theorem realize {p : Property} (inside : p.Inside (R s)) :
    R.Enlarged s (s.realize p).2 ∧ (s.realize p).1.Inside (R (s.realize p).2) := by
  cases p with
  | value v => exact ⟨h.enlarged, inside⟩
  | method m receiver =>
    obtain ⟨bound, frame⟩ := h.bind inside.1 inside.2
    obtain ⟨added, value⟩ := bound.holds.addFunction (Content.inside_closure.2 frame)
    exact ⟨bound.trans added, value⟩

theorem addMethod {object : Ref .object} (ho : ⟨.object, object⟩ ∈ R s) (name : String)
    (arity : Nat) {behaviour : Behaviour} (allowed : R.hosted ∨ behaviour.Library)
    (inside : ∀ x, behaviour.storage? = some x → x ∈ R s) :
    R.Enlarged s (s.addMethod object name arity behaviour) := by
  obtain ⟨added, value⟩ := h.addFunction (f := .native ⟨name, arity, behaviour⟩)
    (Content.inside_native.2 ⟨allowed, inside⟩)
  exact added.trans (added.holds.setField (added.kept ho) name value)

theorem addMethods {object : Ref .object} (ho : ⟨.object, object⟩ ∈ R s) {μ : Type}
    (name : μ → String) (arity : μ → Nat) (behaviour : μ → Behaviour) (library : ∀ m, (behaviour m).Library)
    (inside : ∀ m x, (behaviour m).storage? = some x → x ∈ R s) (methods : List μ) :
    R.Enlarged s (methods.foldl (fun s m => s.addMethod object (name m) (arity m) (behaviour m)) s) := by
  induction methods generalizing s with
  | nil => exact h.enlarged
  | cons m methods ih =>
    have added := h.addMethod ho (name m) (arity m) (.inr (library m)) (inside m)
    exact added.trans (ih added.holds (added.kept ho) fun m x hx => added.kept (inside m x hx))

theorem prepareList {object : Ref .object} (ho : ⟨.object, object⟩ ∈ R s) : R.Enlarged s (s.prepareList object) := by
  obtain ⟨stored, items⟩ := h.alloc (k := .list) (Content.inside_list.2 (List.forall_mem_nil _))
  refine stored.trans (stored.holds.addMethods (stored.kept ho) ListMethod.name ListMethod.arity (.list · s.lists.next)
    (fun _ => trivial) ?_ ListMethod.all)
  rintro m x ⟨⟩
  exact items

theorem prepareMap {object : Ref .object} (ho : ⟨.object, object⟩ ∈ R s) : R.Enlarged s (s.prepareMap object) := by
  obtain ⟨stored, entries⟩ := h.alloc (k := .map) (Content.inside_map.2 Table.inside_empty)
  refine stored.trans (stored.holds.addMethods (stored.kept ho) MapMethod.name MapMethod.arity (.map · s.maps.next)
    (fun _ => trivial) ?_ MapMethod.all)
  rintro m x ⟨⟩
  exact entries

/-- An instance is prepared with methods around a storage of its own, or by the host. -/
theorem prepare (admits : R.Admits host) {object : Ref .object} (ho : ⟨.object, object⟩ ∈ R s)
    {arguments : List Value} (ha : ∀ v ∈ arguments, v.Inside (R s)) {i : Initializer}
    (allowed : R.hosted ∨ i.Library) : R.Enlarged s (s.prepare host object arguments i).1 := by
  cases i with
  | list => exact h.prepareList ho
  | map => exact h.prepareMap ho
  | host tag => exact admits.prepare (allowed.resolve_right id) tag h ho ha

end Holds

end Realm

/-- The fence `A` holds in `t`, and outside of it `t` is as `s` was. -/
structure Store.Fenced (A : Set Object) (s t : Store) : Prop where
  globals : ⟨.frame, Store.globals⟩ ∈ A
  /-- What is outside exists. -/
  held : ∀ x ∉ A, (s.content? x).isSome = true
  outside : ∀ x ∉ A, t.content? x = s.content? x
  inside : ∀ x ∈ A, ∀ c, t.content? x = some c → c.Inside False A

/-- What can be reached, and what does not exist yet. -/
def Store.fence (s : Store) (roots : Set Object) : Set Object := {x | s.Reaches roots x ∨ s.content? x = none}

theorem Store.not_mem_fence {s : Store} {roots : Set Object} {x : Object} (held : (s.content? x).isSome = true)
    (apart : ¬ s.Reaches roots x) : x ∉ s.fence roots := by
  rintro (reached | none)
  · exact apart reached
  · rw [none] at held
    cases held

theorem Store.fenced_fence {s : Store} {roots : Set Object} (globals : ⟨.frame, Store.globals⟩ ∈ roots)
    (library : ∀ x, s.Reaches roots x → ∀ c, s.content? x = some c → c.Library) : s.Fenced (s.fence roots) s where
  globals := .inl (.root globals)
  held x hx := by
    refine Option.isSome_iff_ne_none.2 fun none => ?_
    exact hx (.inr none)
  outside _ _ := rfl
  inside x hx c hc := by
    rcases hx with reached | none
    · exact ⟨.inr (library x reached c hc), fun y hy => .inl (reached.follow hc hy)⟩
    · rw [hc] at none
      cases none

namespace Store.Fenced

variable {A : Set Object} {s t : Store}

/-- What does not exist yet is inside. -/
theorem fresh (h : Fenced A s t) {x : Object} (new : t.content? x = none) : x ∈ A := by
  by_contra hx
  have held := h.held x hx
  rw [← h.outside x hx, new] at held
  cases held

/-- An object inside is new or changed, and stays inside. -/
theorem withHeap (h : Fenced A s t) {k : ObjectKind} {r : Ref k} (hr : ⟨k, r⟩ ∈ A) {heap : Heap k (Content k)}
    (places : t.Places False A r heap) : Fenced A s (t.withHeap k heap) where
  globals := h.globals
  held := h.held
  outside x hx := (content?_withHeap_of_ne places.others (ne_of_mem_of_not_mem hr hx).symm).trans (h.outside x hx)
  inside x hx c hc := forall_withHeap (P := fun x c => x ∈ A → c.Inside False A) places.others
    (fun a ha _ => places.inside a ha) (fun x c hc hx => h.inside x hx c hc) x c hc hx

/-- The inside of a fence is a realm, in which nothing is done by the host. -/
def realm (A : Set Object) (s : Store) : Realm where
  Holds := Fenced A s
  inside _ := A
  hosted := False
  globals h := h.globals
  content h := h.inside
  withHeap h places place := by
    have here := place.elim h.fresh id
    exact ⟨h.withHeap here places, subset_rfl, fun _ => here⟩

theorem realm_admits (A : Set Object) (s : Store) (host : Host) : (realm A s).Admits host := ⟨False.elim, False.elim⟩

end Store.Fenced

section Methods

variable {A : Set Object} {display : Value → String} {arguments : List Value} {v : Value}

/-- What a method of a list gives and leaves comes from its items and arguments. -/
theorem ListMethod.apply_inside {m : ListMethod} {items items' : List Value} (inside : ∀ w ∈ items, w.Inside A)
    (given : ∀ w ∈ arguments, w.Inside A) (h : m.apply display items arguments = .ok (v, items')) :
    v.Inside A ∧ ∀ w ∈ items', w.Inside A := by
  have item (k : Nat) : (items.getD k .null).Inside A := by
    rw [List.getD_eq_getElem?_getD]
    rcases hk : items[k]? with _ | w
    · exact Value.inside_of_none rfl
    · exact inside w (List.mem_of_getElem? hk)
  unfold ListMethod.apply at h
  split at h
  · cases h
    refine ⟨Value.inside_of_none rfl, ?_⟩
    intro w hw
    rcases List.mem_append.1 hw with hw | hw
    · exact inside w hw
    · exact given w hw
  · obtain ⟨k, -, found⟩ := ok_of_bind h
    cases found
    exact ⟨item k, inside⟩
  · obtain ⟨k, -, found⟩ := ok_of_bind h
    cases found
    have set := given v (by simp)
    refine ⟨set, ?_⟩
    intro w hw
    rcases List.mem_or_eq_of_mem_set hw with hw | rfl
    · exact inside w hw
    · exact set
  · obtain ⟨k, -, found⟩ := ok_of_bind h
    cases found
    exact ⟨item k, fun w hw => inside w (List.mem_of_mem_eraseIdx hw)⟩
  · cases h
    exact ⟨Value.inside_of_none rfl, inside⟩
  · cases h

theorem MapMethod.apply_inside {m : MapMethod} {entries entries' : Table Value.Key Value} (inside : entries.Inside A)
    (given : ∀ w ∈ arguments, w.Inside A) (h : m.apply display entries arguments = .ok (v, entries')) :
    v.Inside A ∧ entries'.Inside A := by
  have entry (k : Value.Key) : ((entries.get? k).getD .null).Inside A := by
    rcases hk : entries.get? k with _ | w
    · exact Value.inside_of_none rfl
    · exact inside k w hk
  unfold MapMethod.apply at h
  split at h
  · next i x =>
    obtain ⟨k, -, found⟩ := ok_of_bind h
    split at found
    · cases found
    · cases found
      exact ⟨Value.inside_of_none rfl, inside.insert k (given x (by simp))⟩
  · obtain ⟨k, -, found⟩ := ok_of_bind h
    split at found
    · next w hw =>
      cases found
      exact ⟨inside k v hw, inside⟩
    · cases found
  · obtain ⟨k, -, found⟩ := ok_of_bind h
    cases found
    have set := given v (by simp)
    exact ⟨set, inside.insert k set⟩
  · obtain ⟨k, -, found⟩ := ok_of_bind h
    cases found
    exact ⟨Value.inside_of_none rfl, inside⟩
  · obtain ⟨k, -, found⟩ := ok_of_bind h
    cases found
    exact ⟨entry k, inside.erase k⟩
  · cases h
    exact ⟨Value.inside_of_none rfl, inside⟩
  · cases h

end Methods

end Scriptlet
