import Scriptlet.Proofs.Alignment

/-!
The layout of a store: closures and methods keep frames that fit, every frame was opened for one region, and a variable
whose initial value has ended is bound. Every operation by which a store changes keeps the layout, together with what has
happened.
-/
namespace Scriptlet

open Scope (Site Region Visits)

structure Layout (t : Trace) (s : Store) : Prop where
  sane : Sane t
  closed : ∀ r c, s.functions.get? r = some (.closure c) → Closed t s.frames c.frame c.routine
  unbound : ∀ r c name m, s.classes.get? r = some c → c.methods.get? name = some m → Unbound t s.frames m.frame m.routine
  outermost : s.frames.enclosing Store.globals = none
  room : 0 < s.frames.size
  opened : ∀ f region, .opened f region ∈ t → f ≠ Store.globals ∧ f.index < s.frames.size
  single : ∀ f region region', .opened f region ∈ t → .opened f region' ∈ t → region = region'
  begun : ∀ f x, .begun f x ∈ t → x ≠ "this" ∧ (f ≠ Store.globals → Initialized t f x)
  ended : ∀ f x, .ended f x ∈ t → f ≠ Store.globals → s.frames.Bound f x

/-- The store and what has happened have changed, and the layout is kept. -/
structure Grows (t : Trace) (s : Store) (t' : Trace) (s' : Store) : Prop where
  later : Later t s.frames t' s'.frames
  layout : Layout t' s'

theorem Grows.trans {t t' t'' : Trace} {s s' s'' : Store} (h : Grows t s t' s') (h' : Grows t' s' t'' s'') :
    Grows t s t'' s'' :=
  ⟨h.later.trans h'.later, h'.layout⟩

theorem Layout.initial : Layout [] Store.initial where
  sane _ h := by cases h
  closed _ _ h := by simp [Store.initial] at h
  unbound _ _ _ _ h := by simp [Store.initial] at h
  outermost := rfl
  room := Nat.one_pos
  opened _ _ h := by cases h
  single _ _ _ h := by cases h
  begun _ _ h := by cases h
  ended _ _ h := by cases h

namespace Layout

variable {t t' : Trace} {s s' : Store}

/-- Nothing about functions and methods is new. -/
structure Fewer (s s' : Store) : Prop where
  closure : ∀ r c, s'.functions.get? r = some (.closure c) → s.functions.get? r = some (.closure c)
  method : ∀ r c name m, s'.classes.get? r = some c → c.methods.get? name = some m →
    ∃ c', s.classes.get? r = some c' ∧ c'.methods.get? name = some m

theorem fewer_of_eq (functions : s'.functions = s.functions) (classes : s'.classes = s.classes) : Fewer s s' where
  closure _ _ h := by rwa [functions] at h
  method _ c _ _ h hm := ⟨c, by rwa [classes] at h, hm⟩

theorem later_cons (e : Event) : Later t s.frames (e :: t) s.frames :=
  ⟨fun _ he => .tail _ he, Nat.le_refl _, fun _ _ hp => hp, fun _ _ _ hx => hx⟩

theorem bound_foldl {bindings : List (String × Value)} {table : Table String Value} {x : String}
    (h : x ∈ bindings.map Prod.fst ∨ (table.get? x).isSome) :
    ((bindings.foldl (fun t (name, value) => t.insert name value) table).get? x).isSome := by
  induction bindings generalizing table with
  | nil => exact h.resolve_left List.not_mem_nil
  | cons b bindings ih =>
    refine ih ?_
    rw [Table.get?_insert]
    by_cases hx : x = b.1
    · exact .inr (by simp [hx])
    · rw [if_neg hx]
      exact h.imp_left fun hm => (List.mem_cons.1 hm).resolve_left hx

variable (h : Layout t s)
include h

/-- A change after which no frame has been added. -/
theorem move (later : Later t s.frames t' s'.frames) (fewer : Fewer s s')
    (outermost : s'.frames.enclosing Store.globals = s.frames.enclosing Store.globals)
    (size : s'.frames.size = s.frames.size) (accepted : ∀ root, .accepted root ∈ t' → .accepted root ∈ t)
    (opened : ∀ f region, .opened f region ∈ t' → .opened f region ∈ t)
    (begun : ∀ f x, .begun f x ∈ t' → .begun f x ∈ t ∨ x ≠ "this" ∧ (f ≠ Store.globals → Initialized t f x))
    (ended : ∀ f x, .ended f x ∈ t' → f ≠ Store.globals → .ended f x ∈ t ∨ s'.frames.Bound f x) : Grows t s t' s' := by
  refine ⟨later, fun root hr => h.sane root (accepted root hr), fun r c hr => ?_, fun r c name m hr hm => ?_,
    outermost.trans h.outermost, ?_, fun f region ho => ?_, fun f region region' ho ho' => ?_, fun f x hb => ?_,
    fun f x he hf => ?_⟩
  · exact (h.closed r c (fewer.closure r c hr)).later later
  · obtain ⟨c', hr', hm'⟩ := fewer.method r c name m hr hm
    exact (h.unbound r c' name m hr' hm').later later
  · rw [size]
    exact h.room
  · rw [size]
    exact h.opened f region (opened f region ho)
  · exact h.single f region region' (opened f region ho) (opened f region' ho')
  · obtain ⟨notThis, initialized⟩ := (begun f x hb).elim (h.begun f x) id
    exact ⟨notThis, fun hf => (initialized hf).later later⟩
  · rcases ended f x he hf with he | bound
    · exact later.bound f x hf (h.ended f x he hf)
    · exact bound

/-- Code outside of the session. -/
theorem kept (k : s.Kept s') : Grows t s t s' := by
  have enclosing (f : Ref .frame) : s'.frames.enclosing f = s.frames.enclosing f := by
    by_cases hf : f = Store.globals
    · rw [hf]
      exact k.outermost
    · simp only [Frames.enclosing, k.frame f hf]
  have later : Later t s.frames t s'.frames := by
    refine ⟨fun _ he => he, Nat.le_of_eq k.size.symm, fun f p hp => (enclosing f).trans hp, fun f x hf hx => ?_⟩
    simpa only [Frames.Bound, Frames.fetch, k.frame f hf] using hx
  exact h.move later ⟨k.closure, k.method⟩ k.outermost k.size (fun _ ha => ha) (fun _ _ ho => ho)
    (fun _ _ hb => .inl hb) fun _ _ he _ => .inl he

theorem begin {f : Ref .frame} {x : String} (notThis : x ≠ "this")
    (initialized : f ≠ Store.globals → Initialized t f x) : Grows t s (.begun f x :: t) s := by
  refine h.move (later_cons _) (fewer_of_eq rfl rfl) rfl rfl (fun root ha => ?_) (fun g r ho => ?_) (fun g y hb => ?_)
    fun g y he _ => ?_
  · exact List.mem_of_ne_of_mem (by simp) ha
  · exact List.mem_of_ne_of_mem (by simp) ho
  · rcases List.mem_cons.1 hb with he | hb
    · cases he
      exact .inr ⟨notThis, initialized⟩
    · exact .inl hb
  · exact .inl (List.mem_of_ne_of_mem (by simp) he)

/-- When the initial value is there it is bound. -/
theorem finish {f : Ref .frame} {x : String} (bound : f ≠ Store.globals → s.frames.Bound f x) :
    Grows t s (.ended f x :: t) s := by
  refine h.move (later_cons _) (fewer_of_eq rfl rfl) rfl rfl (fun root ha => ?_) (fun g r ho => ?_) (fun g y hb => ?_)
    fun g y he hg => ?_
  · exact List.mem_of_ne_of_mem (by simp) ha
  · exact List.mem_of_ne_of_mem (by simp) ho
  · exact .inl (List.mem_of_ne_of_mem (by simp) hb)
  · rcases List.mem_cons.1 he with he | he
    · cases he
      exact .inr (bound hg)
    · exact .inl he

theorem define (f : Ref .frame) (x : String) (v : Value) : Grows t s t (s.define f x v) := by
  have later : Later t s.frames t (s.define f x v).frames :=
    ⟨fun _ he => he, Nat.le_of_eq (Frames.size_define v).symm, fun _ _ hp => (Frames.enclosing_define v).trans hp,
      fun _ _ _ hx => hx.define f x v⟩
  exact h.move later (fewer_of_eq rfl rfl) (Frames.enclosing_define v) (Frames.size_define v) (fun _ ha => ha)
    (fun _ _ ho => ho) (fun _ _ hb => .inl hb) fun _ _ he _ => .inl he

/-- A new text is fit for the analysis. -/
theorem accept {root : Site} (good : root.Good) (inside : root.Inside) : Layout (.accepted root :: t) s := by
  have later : Later t s.frames (.accepted root :: t) s.frames := later_cons _
  refine ⟨fun root' ha => ?_, fun r c hr => (h.closed r c hr).later later, fun r c name m hr hm =>
    (h.unbound r c name m hr hm).later later, h.outermost, h.room, fun f r ho => ?_, fun f r r' ho ho' => ?_,
    fun f x hb => ?_, fun f x he => ?_⟩
  · rcases List.mem_cons.1 ha with he | ha
    · cases he
      exact ⟨good, inside⟩
    · exact h.sane root' ha
  · exact h.opened f r (List.mem_of_ne_of_mem (by simp) ho)
  · exact h.single f r r' (List.mem_of_ne_of_mem (by simp) ho) (List.mem_of_ne_of_mem (by simp) ho')
  · obtain ⟨notThis, initialized⟩ := h.begun f x (List.mem_of_ne_of_mem (by simp) hb)
    exact ⟨notThis, fun hf => (initialized hf).later later⟩
  · exact h.ended f x (List.mem_of_ne_of_mem (by simp) he)

theorem addClosure {c : Closure} (closed : Closed t s.frames c.frame c.routine) :
    Grows t s t (s.addFunction (.closure c)).2 := by
  refine ⟨.refl t s.frames, h.sane, fun r c' hr => ?_, h.unbound, h.outermost, h.room, h.opened, h.single, h.begun, h.ended⟩
  change (s.functions.alloc _).get? r = _ at hr
  rw [Heap.get?_alloc] at hr
  split at hr
  · cases hr
    exact closed
  · exact h.closed r c' hr

theorem addClass {c : ClassObject}
    (unbound : ∀ name m, c.methods.get? name = some m → Unbound t s.frames m.frame m.routine) :
    Grows t s t (s.addClass c).2 := by
  refine ⟨.refl t s.frames, h.sane, h.closed, fun r c' name m hr hm => ?_, h.outermost, h.room, h.opened, h.single, h.begun, h.ended⟩
  change (s.classes.alloc _).get? r = _ at hr
  rw [Heap.get?_alloc] at hr
  split at hr
  · cases hr
    exact unbound name m hm
  · exact h.unbound r c' name m hr hm

/-- A frame is added for a region. -/
theorem addFrame (parent : Ref .frame) (bindings : List (String × Value)) (region : Region) :
    let new := s.addFrame parent bindings
    Grows t s (.opened s.frames.next region :: t) new.2 ∧
      Opened (.opened s.frames.next region :: t) new.2.frames s.frames.next region parent ∧
      ∀ x ∈ bindings.map Prod.fst, new.2.frames.Bound s.frames.next x := by
  intro new
  have old {f : Ref .frame} (hf : f.index < s.frames.size) : new.2.frames.get? f = s.frames.get? f :=
    Frames.get?_alloc_of_lt hf _
  have next : new.2.frames.get? s.frames.next =
      some ⟨bindings.foldl (fun t (name, value) => t.insert name value) .empty, some parent⟩ := Heap.get?_alloc_next _ _
  have size : new.2.frames.size = s.frames.size + 1 := Heap.size_alloc _ _
  have notGlobal : s.frames.next ≠ Store.globals := (Frames.ne_next (f := Store.globals) h.room).symm
  have later : Later t s.frames (.opened s.frames.next region :: t) new.2.frames := by
    refine ⟨fun _ he => .tail _ he, by omega, fun f p hp => ?_, fun f x _ hx => ?_⟩
    · simpa only [Frames.enclosing, old (Frames.index_lt_of_enclosing hp)] using hp
    · simpa only [Frames.Bound, Frames.fetch, old (Frames.Bound.index_lt hx)] using hx
  have fresh {r : Region} : Event.opened s.frames.next r ∉ t := fun ho => Nat.lt_irrefl _ (h.opened _ r ho).2
  refine ⟨⟨later, fun root ha => h.sane root (List.mem_of_ne_of_mem (by simp) ha), fun r c hr =>
    (h.closed r c hr).later later, fun r c name m hr hm => (h.unbound r c name m hr hm).later later, ?_, ?_, fun f r ho => ?_, fun f r r' ho ho' => ?_, fun f x hb => ?_, fun f x he hf => ?_⟩,
    ⟨notGlobal, .head _, ?_⟩, fun x hx => ?_⟩
  · simpa only [Frames.enclosing, old (f := Store.globals) h.room] using h.outermost
  · omega
  · rcases List.mem_cons.1 ho with he | ho
    · cases he
      refine ⟨notGlobal, ?_⟩
      rw [size]
      exact Nat.lt_succ_self _
    · obtain ⟨hf, lt⟩ := h.opened f r ho
      exact ⟨hf, by omega⟩
  · rcases List.mem_cons.1 ho with he | ho <;> rcases List.mem_cons.1 ho' with he' | ho'
    · cases he
      cases he'
      rfl
    · cases he
      exact absurd ho' fresh
    · cases he'
      exact absurd ho fresh
    · exact h.single f r r' ho ho'
  · obtain ⟨notThis, initialized⟩ := h.begun f x (List.mem_of_ne_of_mem (by simp) hb)
    exact ⟨notThis, fun hf => (initialized hf).later later⟩
  · exact later.bound f x hf (h.ended f x (List.mem_of_ne_of_mem (by simp) he) hf)
  · simp only [Frames.enclosing, next, Option.bind_some]
  · simp only [Frames.Bound, Frames.fetch, next, Option.bind_some]
    exact bound_foldl (.inl hx)

/-- A method gets a receiver. -/
theorem bind {m : Closure} (unbound : Unbound t s.frames m.frame m.routine) (receiver : Ref .object) :
    let new := s.bind m receiver
    Grows t s (.opened s.frames.next (.receiver m.routine) :: t) new.2 ∧
      Closed (.opened s.frames.next (.receiver m.routine) :: t) new.2.frames new.1.frame new.1.routine := by
  obtain ⟨grows, opened, bound⟩ := h.addFrame m.frame [("this", .instance receiver)] (.receiver m.routine)
  exact ⟨grows, (unbound.later grows.later).bind opened (bound "this" (.head _))⟩

theorem realize {p : Property} (unbound : ∀ m r, p = .method m r → Unbound t s.frames m.frame m.routine) :
    Grows t s (opening s p.region? ++ t) (s.realize p).2 := by
  cases p with
  | value v => exact ⟨.refl t s.frames, h⟩
  | method m r =>
    obtain ⟨grows, closed⟩ := h.bind (unbound m r rfl) r
    exact grows.trans (grows.layout.addClosure closed)

theorem method?_unbound {r : Ref .classObject} {name : String} {m : Closure}
    (hm : s.method? r name = some m) : Unbound t s.frames m.frame m.routine := by
  obtain ⟨c, hc, hm⟩ := Option.bind_eq_some_iff.1 hm
  exact h.unbound r c name m hc hm

theorem property?_unbound {r : Ref .object} {name : String} {p : Property}
    (hp : s.property? r name = some p) (m : Closure) (r' : Ref .object) (hm : p = .method m r') :
    Unbound t s.frames m.frame m.routine := by
  subst hm
  unfold Store.property? at hp
  split at hp
  · cases hp
  · split at hp
    · cases hp
    · cases hp
    · obtain ⟨m', hm, he⟩ := Option.map_eq_some_iff.1 hp
      cases he
      exact h.method?_unbound hm

theorem member?_unbound {v : Value} {name : String} {p : Property}
    (hp : s.member? v name = some p) (m : Closure) (r : Ref .object) (hm : p = .method m r) :
    Unbound t s.frames m.frame m.routine := by
  unfold Store.member? at hp
  split at hp
  · exact h.property?_unbound hp m r hm
  · obtain ⟨v', -, he⟩ := Option.map_eq_some_iff.1 hp
    rw [hm] at he
    cases he
  · cases hp

end Layout

end Scriptlet
