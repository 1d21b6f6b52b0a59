import Scriptlet.Proofs.AlignedLife
import Scriptlet.Proofs.MethodSites
import Scriptlet.Proofs.RunLaws

/-!
Which methods have got which receivers. A bond says that a method was bound to an instance, in a frame of its own; it is
made when a class with a constructor is called, where the instance is the new one, and when a method is read from an
instance. `Chronicle` is the life of a session with the bonds that have been made in it. In the store the frame of a bond
holds the receiver, and a closure that belongs to a bond is of the kind that the name of its method gives it.
-/
namespace Scriptlet

open Scope (Site Region)

structure Bond where
  frame : Ref .frame
  method : Routine
  receiver : Ref .object

/-- The bonds so far, the latest first. -/
abbrev Log := List Bond

def Value.object? : Value → Option (Ref .object)
  | .instance r => some r
  | _ => none

/-- The bond that comes about when a frame is opened for a region and an instance is at hand. -/
def bonding (store : Store) : Option Region → Option (Ref .object) → Log
  | some (.receiver m), some r => [⟨store.frames.next, m, r⟩]
  | _, _ => []

namespace Machine

/-- The instance at hand in a step: the one that a class is going to create, or the one that a member is read from. -/
def State.object? (s : State) : Option (Ref .object) :=
  match s.control, s.pending with
  | .enter (.class _ _) _, _ => some s.store.instances.next
  | .value v, .get _ :: _ => v.object?
  | .value v, .updateObject _ _ _ :: _ => v.object?
  | .value _, .index v _ :: _ => v.object?
  | _, _ => none

/-- The bond that the step from this state makes. -/
def State.bonds (host : Host) (s : State) : Log := bonding s.store (s.opens? host) s.object?

end Machine

/-- What a session can come to, as in `Life`, and the bonds that have been made on the way. -/
inductive Chronicle (host : Host) : Log → Trace → Phase → Prop
  | fresh (console : Console) : Chronicle host [] [] (.idle (.withConsole console))
  | alter {log : Log} {t : Trace} {s : Session} {store : Store} : Chronicle host log t (.idle s) → s.store.Kept store →
      Chronicle host log t (.idle (s.withStore store))
  | read {log : Log} {t : Trace} {s : Session} {v : Value} {name : String} {p : Property} :
      Chronicle host log t (.idle s) → s.store.member? v name = some p →
      Chronicle host (bonding s.store p.region? v.object? ++ log) (opening s.store p.region? ++ t)
        (.idle (s.withStore (s.store.realize p).2))
  | reset {log : Log} {t : Trace} {s : Session} : Chronicle host log t (.idle s) → Chronicle host log t (.idle s.reset)
  | refuse {log : Log} {t : Trace} {s s' : Session} {form : Session.Form} {source : String} {e : Error} :
      Chronicle host log t (.idle s) → s.check form source = (s', .error e) → Chronicle host log t (.idle s')
  | accept {log : Log} {t : Trace} {s s' : Session} {form : Session.Form} {source : String}
      {control : Machine.Control} : Chronicle host log t (.idle s) → s.check form source = (s', .ok control) →
      Chronicle host log (.accepted (rootSite control.text s.world.distances) :: t) (.running s' (s'.start control))
  | call {log : Log} {t : Trace} {s : Session} (callee : Value) (arguments : List Value) :
      Chronicle host log t (.idle s) → Chronicle host log t (.running s (s.start (.invoke callee arguments .host)))
  | step {log : Log} {t : Trace} {s : Session} {m : Machine.State} : Chronicle host log t (.running s m) →
      Chronicle host (m.bonds host ++ log) (m.events host ++ t) (.running s (Machine.step host m))
  | feed {log : Log} {t : Trace} {s : Session} {m : Machine.State} (console : Console) :
      Chronicle host log t (.running s m) → Chronicle host log t (.running s { m with console })
  | finish {log : Log} {t : Trace} {s s' : Session} {m : Machine.State} {result : Except Error Value} :
      Chronicle host log t (.running s m) → s.finish m = some (s', result) → Chronicle host log t (.idle s')

theorem Chronicle.life {host : Host} {log : Log} {t : Trace} {phase : Phase} (h : Chronicle host log t phase) :
    Life host t phase := by
  induction h with
  | fresh console => exact .fresh console
  | alter _ kept ih => exact ih.alter kept
  | read _ hp ih => exact ih.read hp
  | reset _ ih => exact ih.reset
  | refuse _ check ih => exact ih.refuse check
  | accept _ check ih => exact ih.accept check
  | call callee arguments _ ih => exact ih.call callee arguments
  | step _ ih => exact ih.step
  | feed console _ ih => exact ih.feed console
  | finish _ hf ih => exact ih.finish hf

/-- Every life has a chronicle. -/
theorem Life.chronicle {host : Host} {t : Trace} {phase : Phase} (h : Life host t phase) :
    ∃ log, Chronicle host log t phase := by
  induction h with
  | fresh console => exact ⟨[], .fresh console⟩
  | alter _ kept ih => exact ih.imp fun _ h => h.alter kept
  | read _ hp ih =>
    obtain ⟨log, h⟩ := ih
    exact ⟨_, h.read hp⟩
  | reset _ ih => exact ih.imp fun _ h => h.reset
  | refuse _ check ih => exact ih.imp fun _ h => h.refuse check
  | accept _ check ih => exact ih.imp fun _ h => h.accept check
  | call callee arguments _ ih => exact ih.imp fun _ h => h.call callee arguments
  | step _ ih =>
    obtain ⟨log, h⟩ := ih
    exact ⟨_, h.step⟩
  | feed console _ ih => exact ih.imp fun _ h => h.feed console
  | finish _ hf ih => exact ih.imp fun _ h => h.finish hf

theorem Chronicle.run {host : Host} {log : Log} {t : Trace} {session : Session} {s : Machine.State}
    (h : Chronicle host log t (.running session s)) (n : Nat) :
    ∃ log' t', Chronicle host log' t' (.running session (Machine.run host n s)) := by
  induction n with
  | zero => exact ⟨log, t, h⟩
  | succ n ih =>
    obtain ⟨log', t', h⟩ := ih
    rw [Machine.run_step]
    exact ⟨_, _, h.step⟩

/-- The frame is not one that holds a receiver. -/
def Plainly (t : Trace) (f : Ref .frame) : Prop :=
  f = Store.globals ∨ ∃ region, .opened f region ∈ t ∧ region.method? = none

/-- A closure is a method that belongs to a bond, with the kind that its name gives it, or was declared in a frame
without a receiver. -/
def Closure.Attached (log : Log) (t : Trace) (c : Closure) : Prop :=
  (c.kind = .ofMethod c.routine.name.text ∧ ∃ r, ⟨c.frame, c.routine, r⟩ ∈ log) ∨ Plainly t c.frame

/-- The methods of a class are of the kinds that their names give them. -/
def ClassObject.Proper (c : ClassObject) : Prop :=
  ∀ name m, c.methods.get? name = some m → m.kind = .ofMethod m.routine.name.text

/-- The frames of the bonds hold their receivers, and no other frames were opened for receivers. -/
structure Store.Bonded (log : Log) (t : Trace) (s : Store) : Prop where
  roots : ∀ root, .accepted root ∈ t → root.Received
  this : ∀ b ∈ log, s.frames.fetch b.frame "this" = some (.instance b.receiver)
  opened : ∀ b ∈ log, .opened b.frame (.receiver b.method) ∈ t
  made : ∀ f m, .opened f (.receiver m) ∈ t → ∃ r, ⟨f, m, r⟩ ∈ log
  closure : ∀ r c, s.functions.get? r = some (.closure c) → c.Attached log t
  method : ∀ r c, s.classes.get? r = some c → c.Proper

section Attached

variable {log log' : Log} {t t' : Trace} {c : Closure} {f : Ref .frame}

theorem Plainly.later (h : Plainly t f) (trace : ∀ e ∈ t, e ∈ t') : Plainly t' f :=
  h.imp_right fun ⟨region, opened, plain⟩ => ⟨region, trace _ opened, plain⟩

theorem Closure.Attached.later (h : c.Attached log t) (bonds : ∀ b ∈ log, b ∈ log') (trace : ∀ e ∈ t, e ∈ t') :
    c.Attached log' t' :=
  h.imp (fun ⟨kind, r, hr⟩ => ⟨kind, r, bonds _ hr⟩) (·.later trace)

end Attached

theorem Frames.fetch_define_ne {fs : Frames} {f g : Ref .frame} {x y : String} (h : y ≠ x) (v : Value) :
    (fs.define f x v).fetch g y = fs.fetch g y := by
  by_cases hg : g = f
  · rw [hg, fetch_define, if_neg h]
  · exact fetch_define_of_ne hg v

namespace Store.Bonded

variable {log : Log} {t t' : Trace} {s s' : Store}

theorem initial : Store.initial.Bonded [] [] where
  roots _ h := by cases h
  this _ h := by cases h
  opened _ h := by cases h
  made _ _ h := by cases h
  closure _ _ h := by simp [Store.initial] at h
  method _ _ h := by simp [Store.initial] at h

variable (h : s.Bonded log t)
include h

/-- Two bonds with one frame are the same. -/
theorem unique (layout : Layout t s) {b b' : Bond} (hb : b ∈ log) (hb' : b' ∈ log)
    (same : b.frame = b'.frame) : b = b' := by
  obtain ⟨f, m, r⟩ := b
  obtain ⟨f', m', r'⟩ := b'
  obtain rfl : f = f' := same
  have method := layout.single f _ _ (h.opened _ hb) (h.opened _ hb')
  have receiver : some (Value.instance r) = some (.instance r') :=
    (h.this ⟨f, m, r⟩ hb).symm.trans (h.this ⟨f, m', r'⟩ hb')
  cases method
  cases receiver
  rfl

/-- A closure that belongs to a bond is of the kind that its name gives it. -/
theorem kind (layout : Layout t s) {c : Closure} (attached : c.Attached log t) {r : Ref .object}
    (bond : ⟨c.frame, c.routine, r⟩ ∈ log) : c.kind = .ofMethod c.routine.name.text := by
  rcases attached with ⟨kind, -⟩ | outermost | ⟨region, opened, plain⟩
  · exact kind
  · exact absurd outermost (layout.opened _ _ (h.opened _ bond)).1
  · rw [layout.single _ _ _ opened (h.opened _ bond)] at plain
    cases plain

/-- A change that makes no bond, adds no closures or methods, and leaves receivers alone. -/
theorem move (this : ∀ b ∈ log, s'.frames.fetch b.frame "this" = s.frames.fetch b.frame "this")
    (closure : ∀ r c, s'.functions.get? r = some (.closure c) → s.functions.get? r = some (.closure c))
    (method : ∀ r c name m, s'.classes.get? r = some c → c.methods.get? name = some m →
      ∃ c', s.classes.get? r = some c' ∧ c'.methods.get? name = some m)
    (trace : ∀ e ∈ t, e ∈ t') (roots : ∀ root, .accepted root ∈ t' → .accepted root ∈ t)
    (opened : ∀ f m, .opened f (.receiver m) ∈ t' → .opened f (.receiver m) ∈ t) : s'.Bonded log t' where
  roots root hr := h.roots root (roots root hr)
  this b hb := (this b hb).trans (h.this b hb)
  opened b hb := trace _ (h.opened b hb)
  made f m ho := h.made f m (opened f m ho)
  closure r c hr := (h.closure r c (closure r c hr)).later (fun _ hb => hb) trace
  method r c hr name m hm := by
    obtain ⟨c', hr', hm'⟩ := method r c name m hr hm
    exact h.method r c' hr' name m hm'

/-- Code outside of the session. -/
theorem kept (layout : Layout t s) (k : s.Kept s') : s'.Bonded log t := by
  refine h.move (fun b hb => ?_) k.closure k.method (fun _ he => he) (fun _ hr => hr) fun _ _ ho => ho
  have notGlobal := (layout.opened _ _ (h.opened b hb)).1
  simp only [Frames.fetch, k.frame b.frame notGlobal]

/-- Names other than `this` may be bound anywhere. -/
theorem define (f : Ref .frame) {x : String} (notThis : x ≠ "this") (v : Value) : (s.define f x v).Bonded log t :=
  h.move (fun _ _ => Frames.fetch_define_ne notThis.symm v) (fun _ _ hr => hr) (fun _ c _ _ hr hm => ⟨c, hr, hm⟩)
    (fun _ he => he) (fun _ hr => hr) fun _ _ ho => ho

/-- What happens is no text and no receiver's frame. -/
theorem note {e : Event} (text : ∀ root, e ≠ .accepted root)
    (other : ∀ f m, e ≠ .opened f (.receiver m)) : s.Bonded log (e :: t) :=
  h.move (fun _ _ => rfl) (fun _ _ hr => hr) (fun _ c _ _ hr hm => ⟨c, hr, hm⟩) (fun _ he => .tail _ he)
    (fun root hr => List.mem_of_ne_of_mem (text root).symm hr) fun f m ho => List.mem_of_ne_of_mem (other f m).symm ho

theorem accept {root : Site} (received : root.Received) : s.Bonded log (.accepted root :: t) where
  roots root' hr := by
    rcases List.mem_cons.1 hr with he | hr
    · cases he
      exact received
    · exact h.roots root' hr
  this := h.this
  opened b hb := .tail _ (h.opened b hb)
  made f m ho := h.made f m (List.mem_of_ne_of_mem (by simp) ho)
  closure r c hr := (h.closure r c hr).later (fun _ hb => hb) fun _ he => .tail _ he
  method := h.method

theorem fetch_addFrame (layout : Layout t s) (parent : Ref .frame)
    (bindings : List (String × Value)) {b : Bond} (hb : b ∈ log) :
    (s.addFrame parent bindings).2.frames.fetch b.frame "this" = s.frames.fetch b.frame "this" := by
  have lt := (layout.opened _ _ (h.opened b hb)).2
  simp only [Store.addFrame, Frames.fetch, Frames.get?_alloc_of_lt lt]

theorem addFrame (layout : Layout t s) (parent : Ref .frame) (bindings : List (String × Value))
    {region : Region} (plain : region.method? = none) :
    (s.addFrame parent bindings).2.Bonded log (.opened s.frames.next region :: t) := by
  refine h.move (fun b hb => h.fetch_addFrame layout parent bindings hb) (fun _ _ hr => hr)
    (fun _ c _ _ hr hm => ⟨c, hr, hm⟩) (fun _ he => .tail _ he)
    (fun _ hr => List.mem_of_ne_of_mem (by simp) hr) fun f m ho => List.mem_of_ne_of_mem ?_ ho
  rintro ⟨⟩
  cases plain

/-- A method gets a receiver. -/
theorem bind (layout : Layout t s) {m : Closure} (kind : m.kind = .ofMethod m.routine.name.text) (r : Ref .object) :
    (s.bind m r).2.Bonded (⟨s.frames.next, m.routine, r⟩ :: log) (.opened s.frames.next (.receiver m.routine) :: t) ∧
      (s.bind m r).1.Attached (⟨s.frames.next, m.routine, r⟩ :: log)
        (.opened s.frames.next (.receiver m.routine) :: t) := by
  refine ⟨⟨fun root hr => h.roots root (List.mem_of_ne_of_mem (by simp) hr), fun b hb => ?_, fun b hb => ?_,
    fun f m' ho => ?_, fun r' c hr => ?_, h.method⟩, .inl ⟨kind, r, .head _⟩⟩
  · rcases List.mem_cons.1 hb with rfl | hb
    · have next := Heap.get?_alloc_next s.frames ⟨Table.empty.insert "this" (.instance r), some m.frame⟩
      simp only [Store.bind, Store.addFrame, Frames.fetch, List.foldl_cons, List.foldl_nil, next, Option.bind_some,
        Table.get?_insert_self]
    · exact (h.fetch_addFrame layout m.frame [("this", .instance r)] hb).trans (h.this b hb)
  · rcases List.mem_cons.1 hb with rfl | hb
    · exact .head _
    · exact .tail _ (h.opened b hb)
  · rcases List.mem_cons.1 ho with he | ho
    · cases he
      exact ⟨r, .head _⟩
    · obtain ⟨r', hr'⟩ := h.made f m' ho
      exact ⟨r', .tail _ hr'⟩
  · exact (h.closure r' c hr).later (fun _ hb => .tail _ hb) fun _ he => .tail _ he

theorem addClosure {c : Closure} (attached : c.Attached log t) : (s.addFunction (.closure c)).2.Bonded log t := by
  refine ⟨h.roots, h.this, h.opened, h.made, fun r c' hr => ?_, h.method⟩
  change (s.functions.alloc _).get? r = _ at hr
  rw [Heap.get?_alloc] at hr
  split at hr
  · cases hr
    exact attached
  · exact h.closure r c' hr

theorem addClass {c : ClassObject} (proper : c.Proper) : (s.addClass c).2.Bonded log t := by
  refine ⟨h.roots, h.this, h.opened, h.made, h.closure, fun r c' hr => ?_⟩
  change (s.classes.alloc _).get? r = _ at hr
  rw [Heap.get?_alloc] at hr
  split at hr
  · cases hr
    exact proper
  · exact h.method r c' hr

/-- A method that is found on an instance is to be bound to that instance. -/
theorem property?_method {r r' : Ref .object} {name : String} {m : Closure}
    (hp : s.property? r name = some (.method m r')) : r' = r ∧ m.kind = .ofMethod m.routine.name.text := by
  unfold Store.property? at hp
  split at hp
  · cases hp
  · split at hp
    · cases hp
    · cases hp
    · obtain ⟨m', hm, he⟩ := Option.map_eq_some_iff.1 hp
      obtain ⟨c, hc, hm⟩ := Option.bind_eq_some_iff.1 hm
      cases he
      exact ⟨rfl, h.method _ c hc _ _ hm⟩

theorem member?_method {v : Value} {name : String} {m : Closure} {r : Ref .object}
    (hp : s.member? v name = some (.method m r)) : v.object? = some r ∧ m.kind = .ofMethod m.routine.name.text := by
  unfold Store.member? at hp
  split at hp
  · obtain ⟨rfl, kind⟩ := h.property?_method hp
    exact ⟨rfl, kind⟩
  · obtain ⟨v', -, he⟩ := Option.map_eq_some_iff.1 hp
    cases he
  · cases hp

/-- The value of a member: a method is bound first. -/
theorem realize (layout : Layout t s) {p : Property} {object? : Option (Ref .object)}
    (method : ∀ m r, p = .method m r → object? = some r ∧ m.kind = .ofMethod m.routine.name.text) :
    (s.realize p).2.Bonded (bonding s p.region? object? ++ log) (opening s p.region? ++ t) := by
  cases p with
  | value v => exact h
  | method m r =>
    obtain ⟨rfl, kind⟩ := method m r rfl
    obtain ⟨bonded, attached⟩ := h.bind layout kind r
    exact bonded.addClosure attached

end Store.Bonded

end Scriptlet
