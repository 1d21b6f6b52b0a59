import Scriptlet.Proofs.Looks
import Scriptlet.Proofs.Recast

/-!
Stores of two programs, one recast from the other. The frames are the same but that some, the marked ones, spell their
names in the other way; code that a store holds is recast along the marks of the frames that it can see.
-/
namespace Scriptlet

abbrev Marks := Ref .frame → Bool

/-- The marks of the frames from `f` outward, the outermost one left out. -/
inductive Marked (χ : Marks) (fs : Frames) : Ref .frame → List Bool → Prop
  | outermost : 0 < fs.size → fs.enclosing Store.globals = none → χ Store.globals = false → Marked χ fs Store.globals []
  | inner {f p : Ref .frame} {bs : List Bool} : fs.enclosing f = some p → Marked χ fs p bs → Marked χ fs f (χ f :: bs)

/-- Frames have been added and marked, and the others are where they were. -/
structure Marks.Extends (χ : Marks) (fs : Frames) (χ' : Marks) (fs' : Frames) : Prop where
  size : fs.size ≤ fs'.size
  enclosing : ∀ f, f.index < fs.size → fs'.enclosing f = fs.enclosing f
  marks : ∀ f, f.index < fs.size → χ' f = χ f

namespace Marks.Extends

variable {fs fs' : Frames}

theorem refl (χ : Marks) (fs : Frames) : χ.Extends fs χ fs := ⟨Nat.le_refl _, fun _ _ => rfl, fun _ _ => rfl⟩

/-- The same frames in the same places. -/
theorem of_enclosing (χ : Marks) (size : fs'.size = fs.size) (enclosing : ∀ f, fs'.enclosing f = fs.enclosing f) :
    χ.Extends fs χ fs' :=
  ⟨Nat.le_of_eq size.symm, fun f _ => enclosing f, fun _ _ => rfl⟩

theorem define (χ : Marks) (fs : Frames) (f : Ref .frame) (x : String) (v : Value) : χ.Extends fs χ (fs.define f x v) :=
  of_enclosing χ (Frames.size_define v) fun _ => Frames.enclosing_define v

theorem alloc (χ : Marks) (fs : Frames) (a : Frame) (marked : Bool) :
    χ.Extends fs (Function.update χ fs.next marked) (fs.alloc a) where
  size := by simp
  enclosing f hf := by rw [Frames.enclosing, Frames.get?_alloc_of_lt hf, Frames.enclosing]
  marks f hf := Function.update_of_ne (Frames.ne_next hf) _ _

end Marks.Extends

namespace Marked

variable {χ χ' : Marks} {fs fs' : Frames} {f g : Ref .frame} {bs : List Bool}

theorem index_lt (h : Marked χ fs f bs) : f.index < fs.size := by
  cases h with
  | outermost room => exact room
  | inner enclosing => exact Frames.index_lt_of_enclosing enclosing

theorem head (h : Marked χ fs f bs) : bs.headD false = χ f := by
  cases h with
  | outermost _ _ unmarked => exact unmarked.symm
  | inner => rfl

theorem mono (h : Marked χ fs f bs) (e : χ.Extends fs χ' fs') : Marked χ' fs' f bs := by
  induction h with
  | outermost room outer unmarked =>
    exact .outermost (Nat.lt_of_lt_of_le room e.size) ((e.enclosing _ room).trans outer) ((e.marks _ room).trans unmarked)
  | @inner f p bs enclosing _ ih =>
    have lt := Frames.index_lt_of_enclosing enclosing
    rw [← e.marks f lt]
    exact .inner ((e.enclosing f lt).trans enclosing) ih

/-- A new frame. -/
theorem alloc (h : Marked χ fs f bs) (table : Table String Value) (marked : Bool) :
    Marked (Function.update χ fs.next marked) (fs.alloc ⟨table, some f⟩) fs.next (marked :: bs) := by
  have inner := Marked.inner (f := fs.next) (by simp [Frames.enclosing]) (h.mono (.alloc χ fs ⟨table, some f⟩ marked))
  rwa [Function.update_self] at inner

/-- Counting marks outward is going outward. -/
theorem ancestor (h : Marked χ fs f bs) {k : Nat} (hg : fs.ancestor f k = some g) : markedAt bs (some k) = χ g := by
  induction h generalizing k with
  | outermost room outer unmarked =>
    cases k with
    | zero =>
      cases hg
      exact unmarked.symm
    | succ k =>
      rw [Frames.ancestor, outer] at hg
      cases hg
  | inner enclosing _ ih =>
    cases k with
    | zero =>
      cases hg
      rfl
    | succ k =>
      rw [Frames.ancestor, enclosing] at hg
      exact ih hg

end Marked

variable (R : Recasting) (χ : Marks)

/-- The same bindings, under the names that the marks give them. -/
structure Frames.Twin (fs fs' : Frames) : Prop where
  size : fs'.size = fs.size
  enclosing : ∀ f, fs'.enclosing f = fs.enclosing f
  fetch : ∀ f x, fs'.fetch f (R.word (χ f) x) = fs.fetch f x

/-- Code for a frame, and the code that it is recast to; `inner` has the marks of scopes that are still to be opened. -/
def Code (fs : Frames) (inner : List Bool) (f : Ref .frame) (p p' : Part) : Prop :=
  ∃ bs, Marked χ fs f bs ∧ Recast R (inner ++ bs) p p'

structure Closure.Twin (fs : Frames) (inner : List Bool) (c c' : Closure) : Prop where
  frame : c'.frame = c.frame
  kind : c'.kind = c.kind
  code : Code R χ fs inner c.frame (.routine c.kind c.routine) (.routine c.kind c'.routine)

inductive Callable.Twin (fs : Frames) : Callable → Callable → Prop
  | closure {c c' : Closure} : c.Twin R χ fs [] c' → Callable.Twin fs (.closure c) (.closure c')
  | native (n : Native) : Callable.Twin fs (.native n) (.native n)

/-- A method is run inside a frame for its receiver, which is not marked. -/
structure ClassObject.Twin (fs : Frames) (c c' : ClassObject) : Prop where
  face : c'.face = c.face
  method : ∀ name m m', c.methods.get? name = some m → c'.methods.get? name = some m' → m.Twin R χ fs [false] m'

inductive Callee.Twin (fs : Frames) : Callee → Callee → Prop
  | function {f f' : Callable} : f.Twin R χ fs f' → Callee.Twin fs (.function f) (.function f')
  | class {c c' : ClassObject} (r : Ref .classObject) : c.Twin R χ fs c' → Callee.Twin fs (.class r c) (.class r c')

inductive Property.Twin (fs : Frames) : Property → Property → Prop
  | value (v : Value) : Property.Twin fs (.value v) (.value v)
  | method {m m' : Closure} (r : Ref .object) : m.Twin R χ fs [false] m' → Property.Twin fs (.method m r) (.method m' r)

structure Store.Twin (s s' : Store) : Prop where
  frames : s.frames.Twin R χ s'.frames
  outermost : Marked χ s.frames Store.globals []
  looks : s.LooksLike s'
  closure : ∀ r c c', s.functions.get? r = some (.closure c) → s'.functions.get? r = some (.closure c') →
    c.Twin R χ s.frames [] c'
  classObject : ∀ r c c', s.classes.get? r = some c → s'.classes.get? r = some c' → c.Twin R χ s.frames c'

variable {R : Recasting} {χ χ' : Marks} {fs fs' gs gs' : Frames} {f : Ref .frame} {s s' t t' : Store}

/-- Options that look the same through `f`. -/
theorem rel_of_map {α β : Type} {f : α → β} {P : α → α → Prop} {a a' : Option α} (same : a'.map f = a.map f)
    (h : ∀ x x', a = some x → a' = some x' → P x x') : Option.Rel P a a' := by
  cases a with
  | none =>
    cases a' with
    | none => exact .none
    | some x' => cases same
  | some x =>
    cases a' with
    | none => cases same
    | some x' => exact .some (h x x' rfl rfl)

theorem rel_cases {α β : Type} {P : α → β → Prop} {a : Option α} {b : Option β} (h : Option.Rel P a b) :
    a = none ∧ b = none ∨ ∃ x y, a = some x ∧ b = some y ∧ P x y := by
  cases h with
  | none => exact .inl ⟨rfl, rfl⟩
  | some hp => exact .inr ⟨_, _, rfl, rfl, hp⟩

section Mono

theorem Code.mono {p p' : Part} {inner : List Bool} (h : Code R χ fs inner f p p') (e : χ.Extends fs χ' fs') :
    Code R χ' fs' inner f p p' := by
  obtain ⟨bs, marked, recast⟩ := h
  exact ⟨bs, marked.mono e, recast⟩

theorem Closure.Twin.mono {inner : List Bool} {c c' : Closure} (h : c.Twin R χ fs inner c') (e : χ.Extends fs χ' fs') :
    c.Twin R χ' fs' inner c' :=
  ⟨h.frame, h.kind, h.code.mono e⟩

theorem ClassObject.Twin.mono {c c' : ClassObject} (h : c.Twin R χ fs c') (e : χ.Extends fs χ' fs') :
    c.Twin R χ' fs' c' :=
  ⟨h.face, fun name m m' hm hm' => (h.method name m m' hm hm').mono e⟩

end Mono

theorem Frames.isSome_get? (size : fs'.size = fs.size) (f : Ref .frame) : (fs'.get? f).isSome = (fs.get? f).isSome := by
  have there (fs : Frames) : (fs.get? f).isSome = decide (f.index < fs.size) := by
    by_cases hf : f.index < fs.size
    · obtain ⟨a, ha⟩ := get?_of_index_lt hf
      simp [ha, hf]
    · rw [Heap.get?, Array.getElem?_eq_none (Nat.le_of_not_lt hf)]
      simp [hf]
  rw [there, there, size]

section Faces

variable {inner : List Bool} {c c' : Closure}

theorem Closure.Twin.face (h : c.Twin R χ fs inner c') : c'.face = c.face := by
  obtain ⟨⟨name, params, body⟩, frame, kind⟩ := c
  obtain ⟨⟨name', params', body'⟩, frame', kind'⟩ := c'
  obtain ⟨rfl, rfl, bs, -, recast⟩ := h
  cases recast with
  | routine => simp [Closure.face, Closure.arity]

theorem ClassObject.Twin.methods {c c' : ClassObject} (h : c.Twin R χ fs c') (name : String) :
    Option.Rel (Closure.Twin R χ fs [false]) (c.methods.get? name) (c'.methods.get? name) := by
  have same := congrArg (fun f : ClassObject.Face => f.methods.get? name) h.face
  simp only [ClassObject.face, Table.get?_mapValues] at same
  exact rel_of_map same fun m m' hm hm' => h.method name m m' hm hm'

theorem ClassObject.Twin.arity {c c' : ClassObject} (h : c.Twin R χ fs c') : c'.arity = c.arity := by
  have native : c'.native = c.native := congrArg ClassObject.Face.native h.face
  unfold ClassObject.arity ClassObject.constructor?
  rw [native]
  obtain ⟨hm, hm'⟩ | ⟨m, m', hm, hm', twin⟩ := rel_cases (h.methods constructorName)
  · rw [hm, hm']
  · rw [hm, hm']
    exact congrArg Closure.Face.arity twin.face

theorem Callee.Twin.arity {c c' : Callee} (h : c.Twin R χ fs c') : c'.arity = c.arity := by
  cases h with
  | function twin =>
    cases twin with
    | closure twin => exact congrArg Closure.Face.arity twin.face
    | native n => rfl
  | «class» r twin => exact twin.arity

end Faces

namespace Frames.Twin

variable (h : fs.Twin R χ fs')
include h

theorem define (f : Ref .frame) (x : String) (v : Value) :
    (fs.define f x v).Twin R χ (fs'.define f (R.word (χ f) x) v) where
  size := by rw [size_define, size_define, h.size]
  enclosing g := by rw [enclosing_define, enclosing_define, h.enclosing]
  fetch g y := by
    by_cases hg : g = f
    · subst hg
      rw [fetch_define, fetch_define, h.fetch]
      have there := isSome_get? h.size g
      simp only [(R.word_injective (χ g)).eq_iff]
      split
      · cases hg : fs.get? g <;> cases hg' : fs'.get? g <;> simp_all
      · rfl
    · rw [fetch_define_of_ne hg, fetch_define_of_ne hg, h.fetch]

/-- A new frame whose bindings correspond. -/
theorem alloc {table table' : Table String Value} {marked : Bool} (parent : Ref .frame)
    (bindings : ∀ x, table'.get? (R.word marked x) = table.get? x) :
    Frames.Twin R (Function.update χ fs.next marked) (fs.alloc ⟨table, some parent⟩) (fs'.alloc ⟨table', some parent⟩) := by
  have next : fs'.next = fs.next := congrArg Ref.mk h.size
  refine ⟨by rw [Heap.size_alloc, Heap.size_alloc, h.size], fun g => ?_, fun g x => ?_⟩
  · simp only [Frames.enclosing, Heap.get?_alloc, next]
    split
    · rfl
    · exact h.enclosing g
  · simp only [Frames.fetch, Heap.get?_alloc, next]
    split
    · next hg =>
      subst hg
      rw [Function.update_self]
      exact bindings x
    · next hg =>
      rw [Function.update_of_ne hg]
      exact h.fetch g x

theorem fetch_unmarked (unmarked : χ f = false) (x : String) : fs'.fetch f x = fs.fetch f x := by
  have same := h.fetch f x
  rwa [unmarked] at same

theorem fetch_this (f : Ref .frame) : fs'.fetch f "this" = fs.fetch f "this" := by
  have same := h.fetch f "this"
  rwa [R.word_this] at same

theorem ancestor (f : Ref .frame) (k : Nat) : fs'.ancestor f k = fs.ancestor f k := by
  induction k generalizing f with
  | zero => rfl
  | succ k ih => simp only [Frames.ancestor, h.enclosing, ih]

end Frames.Twin

theorem Frames.owner?_globals_eq (fs : Frames) (x : String) :
    fs.owner? Store.globals x = if (fs.fetch Store.globals x).isSome then some Store.globals else none := by
  unfold Frames.owner?
  split
  · rfl
  · split
    · rfl
    · exact dif_neg (Nat.not_lt_zero _)

/-- The bindings of parameters correspond when the parameters do. -/
theorem get?_bindings {word : String → String} (injective : Function.Injective word) (bindings : List (String × Value))
    (x : String) :
    ((bindings.map fun b => (word b.1, b.2)).foldl (fun t (name, value) => t.insert name value) Table.empty).get? (word x) =
      (bindings.foldl (fun t (name, value) => t.insert name value) Table.empty).get? x := by
  suffices h : ∀ t t' : Table String Value, t'.get? (word x) = t.get? x →
      ((bindings.map fun b => (word b.1, b.2)).foldl (fun t (name, value) => t.insert name value) t').get? (word x) =
        (bindings.foldl (fun t (name, value) => t.insert name value) t).get? x from h _ _ rfl
  induction bindings with
  | nil => exact fun t t' same => same
  | cons b bindings ih =>
    intro t t' same
    refine ih _ _ ?_
    simp only [Table.get?_insert, injective.eq_iff, same]

namespace Store.Twin

variable (h : s.Twin R χ s')
include h

theorem unmarked : χ Store.globals = false := by
  cases h.outermost with
  | outermost _ _ unmarked => exact unmarked

/-- Frames are changed, and nothing else. -/
theorem withFrames (e : χ.Extends s.frames χ' gs) (twin : gs.Twin R χ' gs') :
    Store.Twin R χ' { s with frames := gs } { s' with frames := gs' } := by
  have outermost := h.outermost.mono e
  have unmarked : χ' Store.globals = false := (e.marks _ h.outermost.index_lt).trans h.unmarked
  refine ⟨twin, outermost, h.looks.withFrames (twin.fetch_unmarked unmarked) ?_, fun r c c' hc hc' => ?_,
    fun r c c' hc hc' => ?_⟩
  · exact Frames.isSome_get? twin.size _
  · exact (h.closure r c c' hc hc').mono e
  · exact (h.classObject r c c' hc hc').mono e

theorem define (f : Ref .frame) (x : String) (v : Value) :
    (s.define f x v).Twin R χ (s'.define f (R.word (χ f) x) v) :=
  h.withFrames (.define χ s.frames f x v) (h.frames.define f x v)

theorem addFrame (parent : Ref .frame) (marked : Bool) (bindings : List (String × Value)) :
    (s.addFrame parent bindings).2.Twin R (Function.update χ s.frames.next marked)
      (s'.addFrame parent (bindings.map fun b => (R.word marked b.1, b.2))).2 :=
  h.withFrames (.alloc χ s.frames _ marked) (h.frames.alloc parent (get?_bindings (R.word_injective marked) bindings))

theorem next : s'.frames.next = s.frames.next := congrArg Ref.mk h.frames.size

/-- What code outside of the session does to both. -/
theorem kept (k : s.Kept t) (k' : s'.Kept t') (looks : t.LooksLike t') :
    t.Twin R χ t' ∧ χ.Extends s.frames χ t.frames := by
  have enclosing {s t : Store} (k : s.Kept t) (f : Ref .frame) : t.frames.enclosing f = s.frames.enclosing f := by
    by_cases hf : f = Store.globals
    · rw [hf]
      exact k.outermost
    · simp only [Frames.enclosing, k.frame f hf]
  have wider : χ.Extends s.frames χ t.frames := .of_enclosing χ k.size (enclosing k)
  refine ⟨⟨⟨?_, fun f => ?_, fun f x => ?_⟩, h.outermost.mono wider, looks, fun r c c' hc hc' => ?_,
    fun r c c' hc hc' => ⟨?_, fun name m m' hm hm' => ?_⟩⟩, wider⟩
  · rw [k.size, k'.size, h.frames.size]
  · rw [enclosing k, enclosing k', h.frames.enclosing]
  · by_cases hf : f = Store.globals
    · rw [hf, h.unmarked]
      exact looks.globals x
    · have same := h.frames.fetch f x
      simpa only [Frames.fetch, k.frame f hf, k'.frame f hf] using same
  · exact (h.closure r c c' (k.closure r c hc) (k'.closure r c' hc')).mono wider
  · have face := looks.classObject r
    rw [hc, hc'] at face
    exact Option.some.inj face
  · obtain ⟨d, hd, hdm⟩ := k.method r c name m hc hm
    obtain ⟨d', hd', hdm'⟩ := k'.method r c' name m' hc' hm'
    exact ((h.classObject r d d' hd hd').method name m m' hdm hdm').mono wider

theorem addFunction {c c' : Closure} (twin : c.Twin R χ s.frames [] c') :
    (s.addFunction (.closure c)).2.Twin R χ (s'.addFunction (.closure c')).2 := by
  have next := h.looks.nextFunction
  refine ⟨h.frames, h.outermost, h.looks.addFunction (congrArg Sum.inl twin.face), fun r d d' hd hd' => ?_, h.classObject⟩
  simp only [Store.addFunction, Heap.get?_alloc, next] at hd hd'
  split at hd
  · next hr =>
    rw [if_pos hr] at hd'
    cases hd
    cases hd'
    exact twin
  · next hr =>
    rw [if_neg hr] at hd'
    exact h.closure r d d' hd hd'

theorem addClass {c c' : ClassObject} (twin : c.Twin R χ s.frames c') :
    (s.addClass c).2.Twin R χ (s'.addClass c').2 := by
  have next := h.looks.nextClass
  refine ⟨h.frames, h.outermost, h.looks.addClass twin.face, h.closure, fun r d d' hd hd' => ?_⟩
  simp only [Store.addClass, Heap.get?_alloc, next] at hd hd'
  split at hd
  · next hr =>
    rw [if_pos hr] at hd'
    cases hd
    cases hd'
    exact twin
  · next hr =>
    rw [if_neg hr] at hd'
    exact h.classObject r d d' hd hd'

theorem function (r : Ref .function) :
    Option.Rel (Callable.Twin R χ s.frames) (s.functions.get? r) (s'.functions.get? r) := by
  refine rel_of_map (h.looks.function r) fun f f' hf hf' => ?_
  have face := h.looks.function r
  rw [hf, hf'] at face
  have face : f'.face = f.face := Option.some.inj face
  cases f with
  | closure c =>
    cases f' with
    | closure c' => exact .closure (h.closure r c c' hf hf')
    | native n' => cases face
  | native n =>
    cases f' with
    | closure c' => cases face
    | native n' =>
      cases face
      exact .native n

theorem classes (r : Ref .classObject) :
    Option.Rel (ClassObject.Twin R χ s.frames) (s.classes.get? r) (s'.classes.get? r) :=
  rel_of_map (h.looks.classObject r) fun c c' hc hc' => h.classObject r c c' hc hc'

theorem callee? (v : Value) : Option.Rel (Callee.Twin R χ s.frames) (s.callee? v) (s'.callee? v) := by
  cases v with
  | function r =>
    obtain ⟨hf, hf'⟩ | ⟨f, f', hf, hf', twin⟩ := rel_cases (h.function r)
    · simp only [Store.callee?, hf, hf']
      exact .none
    · simp only [Store.callee?, hf, hf']
      exact .some (.function twin)
  | «class» r =>
    obtain ⟨hc, hc'⟩ | ⟨c, c', hc, hc', twin⟩ := rel_cases (h.classes r)
    · simp only [Store.callee?, hc, hc']
      exact .none
    · simp only [Store.callee?, hc, hc']
      exact .some (.class r twin)
  | _ => exact .none

theorem method? (r : Ref .classObject) (name : String) :
    Option.Rel (Closure.Twin R χ s.frames [false]) (s.method? r name) (s'.method? r name) := by
  obtain ⟨hc, hc'⟩ | ⟨c, c', hc, hc', twin⟩ := rel_cases (h.classes r)
  · simp only [Store.method?, hc, hc']
    exact .none
  · simp only [Store.method?, hc, hc']
    exact twin.methods name

theorem property? (r : Ref .object) (name : String) :
    Option.Rel (Property.Twin R χ s.frames) (s.property? r name) (s'.property? r name) := by
  unfold Store.property?
  rw [h.looks.instances]
  cases s.instances.get? r with
  | none => exact .none
  | some i =>
    simp only [h.looks.static?]
    cases i.fields.get? name with
    | some v => exact .some (.value v)
    | none =>
      cases s.static? i.classRef name with
      | some v => exact .some (.value v)
      | none =>
        obtain ⟨hm, hm'⟩ | ⟨m, m', hm, hm', twin⟩ := rel_cases (h.method? i.classRef name)
        · simp only [hm, hm']
          exact .none
        · simp only [hm, hm']
          exact .some (.method r twin)

theorem member? (v : Value) (name : String) :
    Option.Rel (Property.Twin R χ s.frames) (s.member? v name) (s'.member? v name) := by
  cases v with
  | «instance» r => exact h.property? r name
  | «class» r =>
    simp only [Store.member?, h.looks.static?]
    cases s.static? r name with
    | none => exact .none
    | some v => exact .some (.value v)
  | _ => exact .none

/-- Stores after the same operation, which gave the same. -/
structure Same {α : Type} (R : Recasting) (χ : Marks) (fs : Frames) (new new' : α × Store) : Prop where
  result : new'.1 = new.1
  twin : ∃ χ', χ.Extends fs χ' new.2.frames ∧ new.2.Twin R χ' new'.2

/-- A receiver is put around methods. -/
theorem bind {m m' : Closure} (twin : m.Twin R χ s.frames [false] m') (r : Ref .object) :
    ∃ χ', χ.Extends s.frames χ' (s.bind m r).2.frames ∧ (s.bind m r).2.Twin R χ' (s'.bind m' r).2 ∧
      (s.bind m r).1.Twin R χ' (s.bind m r).2.frames [] (s'.bind m' r).1 := by
  obtain ⟨frame, kind, bs, marked, recast⟩ := twin
  have stores := h.addFrame m.frame false [("this", .instance r)]
  have wider := Marks.Extends.alloc χ s.frames ⟨Table.empty.insert "this" (.instance r), some m.frame⟩ false
  refine ⟨_, wider, ?_, ?_, kind, false :: bs, marked.alloc _ false, recast⟩
  · simp only [Store.bind, frame]
    exact stores
  · exact h.next

theorem realize {p p' : Property} (twin : p.Twin R χ s.frames p') :
    Same R χ s.frames (s.realize p) (s'.realize p') := by
  cases twin with
  | value v => exact ⟨rfl, χ, .refl χ s.frames, h⟩
  | method r twin =>
    obtain ⟨χ', wider, stores, bound⟩ := h.bind twin r
    exact ⟨congrArg Value.function stores.looks.nextFunction, χ', wider, stores.addFunction bound⟩

end Store.Twin

end Scriptlet
