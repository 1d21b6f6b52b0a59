import Scriptlet.Host.Sample

/-!
What the operations on frames and stores change and what they leave alone. `Store.Kept` is what code outside of a
session may do to its store, and `Host.Lawful` says that the functions of a host do no more.
-/
namespace Scriptlet

namespace Frames

variable {fs : Frames} {f g : Ref .frame} {x y : String}

/-- The name has a value in this very frame. -/
def Bound (fs : Frames) (f : Ref .frame) (x : String) : Prop := (fs.fetch f x).isSome

theorem index_lt_of_get? {a : Frame} (h : fs.get? f = some a) : f.index < fs.size := by
  obtain ⟨lt, -⟩ := Array.getElem?_eq_some_iff.1 h
  exact lt

theorem get?_of_index_lt (h : f.index < fs.size) : ∃ a, fs.get? f = some a :=
  ⟨_, Array.getElem?_eq_some_iff.2 ⟨h, rfl⟩⟩

theorem index_lt_of_enclosing {p : Ref .frame} (h : fs.enclosing f = some p) : f.index < fs.size := by
  obtain ⟨a, ha, -⟩ := Option.bind_eq_some_iff.1 h
  exact index_lt_of_get? ha

theorem Bound.index_lt (h : fs.Bound f x) : f.index < fs.size := by
  obtain ⟨v, hv⟩ := Option.isSome_iff_exists.1 h
  obtain ⟨a, ha, -⟩ := Option.bind_eq_some_iff.1 hv
  exact index_lt_of_get? ha

theorem ne_next (h : f.index < fs.size) : f ≠ fs.next := by
  rintro rfl
  exact Nat.lt_irrefl _ h

theorem get?_alloc_of_lt (h : f.index < fs.size) (a : Frame) : (fs.alloc a).get? f = fs.get? f := by
  rw [Heap.get?_alloc, if_neg (ne_next h)]

@[simp]
theorem size_define (v : Value) : (fs.define f x v).size = fs.size := Heap.size_modify _ _ _

@[simp]
theorem enclosing_define (v : Value) : (fs.define f x v).enclosing g = fs.enclosing g := by
  simp only [enclosing, define, Heap.get?_modify]
  split
  · cases fs.get? g <;> rfl
  · rfl

theorem fetch_define_of_ne (h : g ≠ f) (v : Value) : (fs.define f x v).fetch g y = fs.fetch g y := by
  simp only [fetch, define, Heap.get?_modify, if_neg h]

theorem fetch_define (v : Value) : (fs.define f x v).fetch f y = if y = x then (fs.get? f).map fun _ => v else fs.fetch f y := by
  simp only [fetch, define, Heap.get?_modify, if_true]
  cases fs.get? f with
  | none => simp
  | some a => simp [Table.get?_insert]

theorem Bound.define (h : fs.Bound g y) (f : Ref .frame) (x : String) (v : Value) : (fs.define f x v).Bound g y := by
  unfold Bound at *
  by_cases hf : g = f
  · subst hf
    rw [fetch_define]
    split
    · obtain ⟨a, ha⟩ := get?_of_index_lt (Bound.index_lt h)
      simp [ha]
    · exact h
  · rwa [fetch_define_of_ne hf]

theorem bound_define (h : f.index < fs.size) (x : String) (v : Value) : (fs.define f x v).Bound f x := by
  obtain ⟨a, ha⟩ := get?_of_index_lt h
  simp [Bound, fetch_define, ha]

/-- From the outermost frame there is no way further out. -/
theorem owner?_globals {o : Ref .frame} (h : fs.owner? Store.globals x = some o) : o = Store.globals := by
  unfold owner? at h
  split at h
  · cases h
    rfl
  · split at h
    · cases h
    · split at h
      · next lt => exact absurd lt (Nat.not_lt_zero _)
      · cases h

end Frames

/-- What code outside of the session leaves as it is: frames other than the outermost one, and which closures and
methods there are. -/
structure Store.Kept (s t : Store) : Prop where
  size : t.frames.size = s.frames.size
  frame : ∀ f, f ≠ Store.globals → t.frames.get? f = s.frames.get? f
  outermost : t.frames.enclosing Store.globals = s.frames.enclosing Store.globals
  closure : ∀ r c, t.functions.get? r = some (.closure c) → s.functions.get? r = some (.closure c)
  method : ∀ r c name m, t.classes.get? r = some c → c.methods.get? name = some m →
    ∃ c', s.classes.get? r = some c' ∧ c'.methods.get? name = some m

namespace Store.Kept

variable {s t u : Store}

/-- Other heaps may change in any way. -/
theorem of_eq (frames : t.frames = s.frames) (functions : t.functions = s.functions) (classes : t.classes = s.classes) :
    s.Kept t where
  size := by rw [frames]
  frame _ _ := by rw [frames]
  outermost := by rw [frames]
  closure _ _ h := by rwa [functions] at h
  method r c name m h hm := ⟨c, by rwa [classes] at h, hm⟩

theorem refl (s : Store) : s.Kept s := of_eq rfl rfl rfl

theorem trans (h : s.Kept t) (h' : t.Kept u) : s.Kept u where
  size := h'.size.trans h.size
  frame f hf := (h'.frame f hf).trans (h.frame f hf)
  outermost := h'.outermost.trans h.outermost
  closure r c hr := h.closure r c (h'.closure r c hr)
  method r c name m hr hm := by
    obtain ⟨c', hr', hm'⟩ := h'.method r c name m hr hm
    exact h.method r c' name m hr' hm'

theorem setField (s : Store) (r : Ref .object) (name : String) (v : Value) : s.Kept (s.setField r name v) := of_eq rfl rfl rfl

theorem addInstance (s : Store) (r : Ref .classObject) : s.Kept (s.addInstance r).2 := of_eq rfl rfl rfl

theorem addNative (s : Store) (name : String) (arity : Nat) (b : Behaviour) : s.Kept (s.addNative name arity b).2 where
  size := rfl
  frame _ _ := rfl
  outermost := rfl
  closure r c h := by
    change (s.functions.alloc _).get? r = _ at h
    rw [Heap.get?_alloc] at h
    split at h
    · cases h
    · exact h
  method _ c _ _ h hm := ⟨c, h, hm⟩

/-- A class without methods of its own may be added. -/
theorem addClass (s : Store) {c : ClassObject} (hc : c.methods = .empty) : s.Kept (s.addClass c).2 where
  size := rfl
  frame _ _ := rfl
  outermost := rfl
  closure _ _ h := h
  method r c' name m h hm := by
    change (s.classes.alloc _).get? r = _ at h
    rw [Heap.get?_alloc] at h
    split at h
    · cases h
      rw [hc] at hm
      cases hm
    · exact ⟨c', h, hm⟩

theorem defineGlobal (s : Store) (name : String) (v : Value) : s.Kept (s.defineGlobal name v) where
  size := Frames.size_define v
  frame f hf := by
    change (s.frames.modify _ _).get? f = _
    rw [Heap.get?_modify, if_neg hf]
  outermost := Frames.enclosing_define v
  closure _ _ h := h
  method _ c _ _ h hm := ⟨c, h, hm⟩

theorem addMethod (s : Store) (r : Ref .object) (name : String) (arity : Nat) (b : Behaviour) :
    s.Kept (s.addMethod r name arity b) :=
  (addNative s name arity b).trans (setField _ r name _)

theorem foldl {α : Type} {f : Store → α → Store} (hf : ∀ s a, Store.Kept s (f s a)) (as : List α) (s : Store) :
    s.Kept (as.foldl f s) := by
  induction as generalizing s with
  | nil => exact refl s
  | cons a as ih => exact (hf s a).trans (ih (f s a))

theorem defineNative (s : Store) (name : String) (arity : Nat) (b : Behaviour) : s.Kept (s.defineNative name arity b) :=
  (addNative s name arity b).trans (defineGlobal _ name _)

theorem defineNativeClass (s : Store) (name : String) (arity : Nat) (statics : Table String Value) (i : Initializer) :
    s.Kept (s.defineNativeClass name arity statics i) :=
  (addClass s rfl).trans (defineGlobal _ name _)

theorem bare : Store.initial.Kept Store.bare := (defineNative _ "clock" 0 .clock).trans (defineNative _ "input" 0 .input)

theorem withLibrary (s : Store) : s.Kept s.withLibrary :=
  (defineNativeClass s "List" 0 .empty .list).trans (defineNativeClass _ "Map" 0 .empty .map)

end Store.Kept

/-- The functions of the host keep to what is theirs. -/
structure Host.Lawful (host : Host) : Prop where
  call : ∀ tag cell arguments store, Store.Kept store (host.call tag cell arguments store).store
  prepare : ∀ tag object arguments store, Store.Kept store (host.prepare tag object arguments store).1

theorem Store.Kept.prepare {host : Host} (lawful : host.Lawful) (s : Store) (object : Ref .object)
    (arguments : List Value) (i : Initializer) : s.Kept (s.prepare host object arguments i).1 := by
  cases i with
  | list =>
    have first : s.Kept { s with lists := s.lists.alloc [] } := of_eq rfl rfl rfl
    exact first.trans <| foldl (fun s m => addMethod s object _ _ _) _ _
  | map =>
    have first : s.Kept { s with maps := s.maps.alloc .empty } := of_eq rfl rfl rfl
    exact first.trans <| foldl (fun s m => addMethod s object _ _ _) _ _
  | host tag => exact lawful.prepare tag object arguments s

theorem Host.empty_lawful : Host.empty.Lawful where
  call _ _ _ store := .refl store
  prepare _ _ _ store := .refl store

theorem Host.sample_lawful : Host.sample.Lawful where
  call tag cell arguments store := by
    change store.Kept (Host.Sample.call tag cell arguments store).store
    unfold Host.Sample.call
    split
    case h_6 => exact .defineGlobal _ _ _
    case h_8 =>
      split
      · exact .of_eq rfl rfl rfl
      · exact .refl store
    all_goals exact .refl store
  prepare tag object arguments store := by
    change store.Kept (Host.Sample.prepare tag object arguments store).1
    unfold Host.Sample.prepare
    split
    · next x =>
      have first : store.Kept { store with cells := store.cells.alloc (.number x) } := .of_eq rfl rfl rfl
      exact first.trans (.addMethod _ object _ _ _)
    · exact .refl store
    · exact (Store.Kept.setField _ _ _ _).trans (.setField _ _ _ _)
    · exact .refl store

end Scriptlet
