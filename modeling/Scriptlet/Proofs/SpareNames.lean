import Scriptlet.Proofs.ParallelRuns
import Scriptlet.Proofs.RecastAnalysis
import Scriptlet.Proofs.StoredCode

/-!
Names that no code mentions. It does not matter what such a name stands for, in whatever frame: machines that differ in
nothing else take the same steps. So a variable can be added under a new name, and nobody takes notice.
-/
namespace Scriptlet

theorem Part.ne_of_node? {x name : String} {e : Expr} {id : NodeId} (h : x ∉ (Part.expr e).names)
    (node : (Part.expr e).node? = some (id, name)) : name ≠ x := by
  rintro rfl
  have own : name ∉ (Part.expr e).node?.toList.map Prod.snd := notMem_mentions h
  rw [node] at own
  exact own (List.mem_singleton_self name)

namespace Frames

/-- The same frames, but for what the name stands for. -/
structure SameBut (x : String) (fs fs' : Frames) : Prop where
  size : fs'.size = fs.size
  enclosing : ∀ r, fs'.enclosing r = fs.enclosing r
  fetch : ∀ r name, name ≠ x → fs'.fetch r name = fs.fetch r name

namespace SameBut

variable {x name : String} {fs fs' : Frames} {r : Ref .frame}

theorem refl (x : String) (fs : Frames) : fs.SameBut x fs := ⟨rfl, fun _ => rfl, fun _ _ _ => rfl⟩

theorem next (h : fs.SameBut x fs') : fs'.next = fs.next := congrArg Ref.mk h.size

theorem present (h : fs.SameBut x fs') (r : Ref .frame) (v : Value) :
    (fs'.get? r).map (fun _ => v) = (fs.get? r).map fun _ => v := by
  by_cases lt : r.index < fs.size
  · obtain ⟨f, hf⟩ := get?_of_index_lt lt
    obtain ⟨f', hf'⟩ := get?_of_index_lt (h.size ▸ lt)
    rw [hf, hf']
    rfl
  · have absent : fs.get? r = none := Array.getElem?_eq_none (Nat.not_lt.1 lt)
    have absent' : fs'.get? r = none := Array.getElem?_eq_none (Nat.le_trans (Nat.le_of_eq h.size) (Nat.not_lt.1 lt))
    rw [absent, absent']

theorem define (h : fs.SameBut x fs') (r : Ref .frame) (name : String) (v : Value) :
    (fs.define r name v).SameBut x (fs'.define r name v) where
  size := by rw [size_define, size_define, h.size]
  enclosing f := by rw [enclosing_define, enclosing_define, h.enclosing]
  fetch f y hy := by
    by_cases here : f = r
    · subst here
      rw [fetch_define, fetch_define, h.present, h.fetch f y hy]
    · rw [fetch_define_of_ne here, fetch_define_of_ne here, h.fetch f y hy]

/-- The name may be given any value in any frame. -/
theorem defined (fs : Frames) (r : Ref .frame) (x : String) (v : Value) : fs.SameBut x (fs.define r x v) where
  size := size_define v
  enclosing f := enclosing_define v
  fetch f y hy := by
    by_cases here : f = r
    · subst here
      rw [fetch_define, if_neg hy]
    · exact fetch_define_of_ne here v

theorem alloc (h : fs.SameBut x fs') (a : Frame) : Frames.SameBut x (fs.alloc a) (fs'.alloc a) where
  size := by rw [Heap.size_alloc, Heap.size_alloc, h.size]
  enclosing f := by
    unfold Frames.enclosing
    rw [Heap.get?_alloc, Heap.get?_alloc, h.next]
    split
    · rfl
    · exact h.enclosing f
  fetch f y hy := by
    unfold Frames.fetch
    rw [Heap.get?_alloc, Heap.get?_alloc, h.next]
    split
    · rfl
    · exact h.fetch f y hy

theorem ancestor (h : fs.SameBut x fs') (r : Ref .frame) (n : Nat) : fs'.ancestor r n = fs.ancestor r n := by
  induction n generalizing r with
  | zero => rfl
  | succ n ih => simp only [Frames.ancestor, h.enclosing, ih]

theorem getAt (h : fs.SameBut x fs') (hn : name ≠ x) (r : Ref .frame) (n : Nat) :
    fs'.getAt r n name = fs.getAt r n name := by
  simp only [Frames.getAt, h.ancestor, h.fetch _ name hn]

theorem owner? (h : fs.SameBut x fs') (hn : name ≠ x) (r : Ref .frame) : fs'.owner? r name = fs.owner? r name := by
  fun_induction Frames.owner? fs r name <;> rw [Frames.owner?] <;> simp_all [h.fetch _ name hn, h.enclosing]

end SameBut

end Frames

/-- The same stores, but for what the name stands for. -/
inductive Store.SameBut (x : String) (s : Store) : Store → Prop
  | intro {frames : Frames} : s.frames.SameBut x frames → SameBut x s { s with frames }

/-- A host that does not look at what the name stands for. -/
structure Host.Overlooks (host : Host) (x : String) : Prop where
  call : ∀ tag cell arguments {s s' : Store}, s.SameBut x s' →
    (host.call tag cell arguments s).store.SameBut x (host.call tag cell arguments s').store ∧
      (host.call tag cell arguments s').printed = (host.call tag cell arguments s).printed ∧
      (host.call tag cell arguments s').reply = (host.call tag cell arguments s).reply
  prepare : ∀ tag object arguments {s s' : Store}, s.SameBut x s' →
    (host.prepare tag object arguments s).1.SameBut x (host.prepare tag object arguments s').1 ∧
      (host.prepare tag object arguments s').2 = (host.prepare tag object arguments s).2

namespace Store.SameBut

variable {x : String} {s s' : Store} (h : s.SameBut x s')
include h

theorem frames : s.frames.SameBut x s'.frames := by
  cases h with
  | intro frames => exact frames

theorem display : s'.display = s.display := by
  cases h
  rfl

theorem callee? (v : Value) : s'.callee? v = s.callee? v := by
  cases h
  cases v <;> rfl

theorem property? (r : Ref .object) (name : String) : s'.property? r name = s.property? r name := by
  cases h
  rfl

theorem member? (v : Value) (name : String) : s'.member? v name = s.member? v name := by
  cases h
  cases v <;> rfl

theorem define (r : Ref .frame) (name : String) (v : Value) : (s.define r name v).SameBut x (s'.define r name v) := by
  cases h with
  | intro frames => exact .intro (frames.define r name v)

theorem addFrame (parent : Ref .frame) (bindings : List (String × Value)) :
    (s'.addFrame parent bindings).1 = (s.addFrame parent bindings).1 ∧
      (s.addFrame parent bindings).2.SameBut x (s'.addFrame parent bindings).2 := by
  cases h with
  | intro frames => exact ⟨frames.next, .intro (frames.alloc _)⟩

theorem bind (m : Closure) (r : Ref .object) :
    (s'.bind m r).1 = (s.bind m r).1 ∧ (s.bind m r).2.SameBut x (s'.bind m r).2 := by
  obtain ⟨frame, store⟩ := h.addFrame m.frame [("this", .instance r)]
  exact ⟨congrArg (fun frame => { m with frame }) frame, store⟩

theorem addFunction (f : Callable) :
    (s'.addFunction f).1 = (s.addFunction f).1 ∧ (s.addFunction f).2.SameBut x (s'.addFunction f).2 := by
  cases h with
  | intro frames => exact ⟨rfl, .intro frames⟩

theorem realize (p : Property) : (s'.realize p).1 = (s.realize p).1 ∧ (s.realize p).2.SameBut x (s'.realize p).2 := by
  cases p with
  | value v => exact ⟨rfl, h⟩
  | method m r =>
    obtain ⟨bound, store⟩ := h.bind m r
    simp only [Store.realize, bound]
    exact store.addFunction _

theorem addClass (c : ClassObject) :
    (s'.addClass c).1 = (s.addClass c).1 ∧ (s.addClass c).2.SameBut x (s'.addClass c).2 := by
  cases h with
  | intro frames => exact ⟨rfl, .intro frames⟩

theorem addInstance (r : Ref .classObject) :
    (s'.addInstance r).1 = (s.addInstance r).1 ∧ (s.addInstance r).2.SameBut x (s'.addInstance r).2 := by
  cases h with
  | intro frames => exact ⟨rfl, .intro frames⟩

theorem setField (r : Ref .object) (name : String) (v : Value) :
    (s.setField r name v).SameBut x (s'.setField r name v) := by
  cases h with
  | intro frames => exact .intro frames

theorem lists : s'.lists = s.lists := by
  cases h
  rfl

theorem maps : s'.maps = s.maps := by
  cases h
  rfl

theorem withLists (lists : Heap .list (List Value)) : Store.SameBut x { s with lists } { s' with lists } := by
  cases h with
  | intro frames => exact .intro frames

theorem withMaps (maps : Heap .map (Table Value.Key Value)) : Store.SameBut x { s with maps } { s' with maps } := by
  cases h with
  | intro frames => exact .intro frames

theorem prepare {host : Host} (overlooks : host.Overlooks x) (object : Ref .object)
    (arguments : List Value) (i : Initializer) :
    (s.prepare host object arguments i).1.SameBut x (s'.prepare host object arguments i).1 ∧
      (s'.prepare host object arguments i).2 = (s.prepare host object arguments i).2 := by
  cases i with
  | list | map =>
    cases h with
    | intro frames => exact ⟨.intro frames, rfl⟩
  | host tag =>
    obtain ⟨store, message⟩ := overlooks.prepare tag object arguments h
    exact ⟨store, by simp only [Store.prepare, message]⟩

end Store.SameBut

inductive World.SameBut (x : String) (w : World) : World → Prop
  | intro {store : Store} : w.store.SameBut x store → SameBut x w { w with store }

/-- The routine neither has the name for a parameter nor mentions it. -/
def Routine.Lacks (x : String) (r : Routine) : Prop := x ∉ r.params.map Name.text ∧ x ∉ (Part.stmts r.body).names

theorem Routine.lacks {x : String} {kind : RoutineKind} {r : Routine} (h : x ∉ (Part.routine kind r).names) : r.Lacks x :=
  ⟨Part.notMem_mentions h, Part.notMem_child h (.head _)⟩

namespace Machine

variable {host : Host} {x : String}

def Control.Lacks (x : String) : Control → Prop
  | .evaluate e => x ∉ (Part.expr e).names
  | .execute s => x ∉ (Part.stmt s).names
  | .sequence ss | .program ss => x ∉ (Part.stmts ss).names
  | .enter callee _ => callee.AllCode (Routine.Lacks x)
  | .invoke _ _ _ | .value _ | .flow _ | .raise _ => True

def Pending.Lacks (x : String) : Pending → Prop
  | .binaryRight _ e | .logical _ e | .setObject _ e | .updateObject _ _ e | .indexObject e _ => x ∉ (Part.expr e).names
  | .ternary yes no => x ∉ (Part.expr yes).names ∧ x ∉ (Part.expr no).names
  | .assign _ name => name.text ≠ x
  | .callee es _ | .arguments _ _ es _ => ∀ e ∈ es, x ∉ (Part.expr e).names
  | .conditional yes no => x ∉ (Part.stmt yes).names ∧ ∀ s ∈ no, x ∉ (Part.stmt s).names
  | .loopCondition e s | .loopBody e s => x ∉ (Part.stmt (.loop e s)).names
  | .base d => x ∉ (Part.stmt (.class d)).names
  | .sequence ss | .program ss => x ∉ (Part.stmts ss).names
  | _ => True

/-- No code mentions the name: neither what is done now, nor what is pending, nor the code in the store. -/
structure State.Lacks (x : String) (s : State) : Prop where
  control : s.control.Lacks x
  pending : ∀ p ∈ s.pending, p.Lacks x
  code : s.store.AllCode (Routine.Lacks x)

/-- States that are the same but for what the name stands for, where neither the pending work nor the code in the store
mentions it. -/
inductive State.SameAround (x : String) (s : State) : State → Prop
  | intro {store : Store} : x ≠ "this" → s.store.SameBut x store → s.store.AllCode (Routine.Lacks x) →
      (∀ p ∈ s.pending, p.Lacks x) → SameAround x s { s with store }

/-- The same, where what is done now does not mention it either. -/
structure State.SameBut (x : String) (s s' : State) : Prop where
  around : s.SameAround x s'
  control : s.control.Lacks x

theorem State.SameBut.outcome? {s s' : State} (h : s.SameBut x s') : s'.outcome? = s.outcome? := by
  cases h.around
  rfl

theorem State.SameBut.world {s s' : State} (h : s.SameBut x s') : s.toWorld.SameBut x s'.toWorld := by
  cases h.around with
  | intro _ store => exact .intro store

namespace State.SameAround

variable {s s' : State} (h : s.SameAround x s')
include h

theorem store : s.store.SameBut x s'.store := by
  cases h with
  | intro _ store => exact store

theorem code : s.store.AllCode (Routine.Lacks x) := by
  cases h with
  | intro _ _ code => exact code

theorem pending : ∀ p ∈ s.pending, p.Lacks x := by
  cases h with
  | intro _ _ _ pending => exact pending

theorem console : s'.console = s.console := by
  cases h
  rfl

theorem frame : s'.frame = s.frame := by
  cases h
  rfl

theorem lookup {name : String} (hn : name ≠ x) (id : NodeId) : s'.lookup id name = s.lookup id name := by
  cases h with
  | intro _ store =>
    unfold State.lookup
    dsimp only
    split
    · exact store.frames.getAt hn _ _
    · exact store.frames.fetch _ name hn

theorem target? {name : String} (hn : name ≠ x) (id : NodeId) : s'.target? id name = s.target? id name := by
  cases h with
  | intro _ store =>
    unfold State.target?
    dsimp only
    split
    · exact store.frames.ancestor _ _
    · exact store.frames.owner? hn _

theorem go {c : Control} (hc : c.Lacks x) : (s.go c).SameBut x (s'.go c) := by
  cases h with
  | intro proper store code pending => exact ⟨.intro proper store code pending, hc⟩

theorem give (v : Value) : (s.give v).SameBut x (s'.give v) := h.go trivial

theorem raise (line : Nat) (fault : Fault) : (s.raise line fault).SameBut x (s'.raise line fault) :=
  h.go trivial

theorem answer (line : Nat) (result : Except Fault Value) :
    (s.answer line result).SameBut x (s'.answer line result) := by
  cases result with
  | ok v => exact h.give v
  | error fault => exact h.raise line fault

theorem push {p : Pending} {c : Control} (hp : p.Lacks x) (hc : c.Lacks x) :
    (s.push p c).SameBut x (s'.push p c) := by
  cases h with
  | intro proper store code pending =>
    exact ⟨.intro proper store code (List.forall_mem_cons.2 ⟨hp, pending⟩), hc⟩

theorem withStore {store store' : Store} (same : store.SameBut x store')
    (code : store.AllCode (Routine.Lacks x)) : State.SameAround x { s with store } { s' with store := store' } := by
  cases h with
  | intro proper _ _ pending => exact .intro proper same code pending

theorem withConsole (console : Console) : State.SameAround x { s with console } { s' with console } := by
  cases h with
  | intro proper store code pending => exact .intro proper store code pending

theorem withFrame (frame : Ref .frame) : State.SameAround x { s with frame } { s' with frame } := by
  cases h with
  | intro proper store code pending => exact .intro proper store code pending

theorem write (r : Ref .frame) (name : String) (v : Value) : (s.write r name v).SameAround x (s'.write r name v) :=
  h.withStore (h.store.define r name v) (h.code.of_eq rfl rfl)

theorem define (name : String) (v : Value) : (s.define name v).SameAround x (s'.define name v) := by
  unfold State.define
  rw [h.frame]
  exact h.write s.frame name v

/-- In a new frame. -/
theorem inside (parent : Ref .frame) (bindings : List (String × Value)) :
    State.SameAround x
      { s with store := (s.store.addFrame parent bindings).2, frame := (s.store.addFrame parent bindings).1 }
      { s' with store := (s'.store.addFrame parent bindings).2, frame := (s'.store.addFrame parent bindings).1 } := by
  obtain ⟨frame, store⟩ := h.store.addFrame parent bindings
  rw [frame]
  exact (h.withStore store (h.code.of_eq rfl rfl)).withFrame _

theorem addClosure {r : Routine} (hr : r.Lacks x) (kind : RoutineKind) :
    (s'.addClosure r kind).1 = (s.addClosure r kind).1 ∧
      (s.addClosure r kind).2.SameAround x (s'.addClosure r kind).2 := by
  have closure : s'.closure r kind = s.closure r kind := by rw [State.closure, State.closure, h.frame]
  obtain ⟨value, store⟩ := h.store.addFunction (.closure (s.closure r kind))
  unfold State.addClosure
  rw [closure]
  exact ⟨value, h.withStore store (h.code.addClosure hr)⟩

theorem realize {p : Property} (hp : p.AllCode (Routine.Lacks x)) :
    (s'.realize p).1 = (s.realize p).1 ∧ (s.realize p).2.SameAround x (s'.realize p).2 := by
  obtain ⟨value, store⟩ := h.store.realize p
  exact ⟨value, h.withStore store (h.code.realize hp)⟩

/-- Pending work is taken up. -/
theorem pop {p : Pending} {rest : List Pending} (hp : s.pending = p :: rest) :
    p.Lacks x ∧ State.SameAround x { s with pending := rest } { s' with pending := rest } := by
  cases h with
  | intro proper store code pending =>
    rw [hp, List.forall_mem_cons] at pending
    exact ⟨pending.1, .intro proper store code pending.2⟩

end State.SameAround

variable {s s' : State}

theorem evaluateArguments_sameBut (h : s.SameAround x s') (callee : Value) (done : List Value) {es : List Expr}
    (hes : ∀ e ∈ es, x ∉ (Part.expr e).names) (line : Nat) :
    (evaluateArguments s callee done es line).SameBut x (evaluateArguments s' callee done es line) := by
  cases es with
  | nil => exact h.go trivial
  | cons e es =>
    rw [List.forall_mem_cons] at hes
    exact h.push hes.2 hes.1

theorem evaluate_sameBut (h : s.SameAround x s') {e : Expr} (he : x ∉ (Part.expr e).names) :
    (evaluate s e).SameBut x (evaluate s' e) := by
  have child {q : Part} (hq : q ∈ Part.exprChildren e) : x ∉ q.names := Part.notMem_child he hq
  cases e with
  | literal value => exact h.give _
  | group e => exact h.go (child (.head _))
  | unary op e | get e name => exact h.push trivial (child (.head _))
  | binary l op r | logical l op r | update l name op r | index l r line =>
    exact h.push (child (.tail _ (.head _))) (child (.head _))
  | ternary c yes no =>
    exact h.push ⟨child (.tail _ (.head _)), child (.tail _ (.tail _ (.head _)))⟩
      (child (.head _))
  | «variable» id name | this id line =>
    simp only [evaluate, h.lookup (Part.ne_of_node? he rfl)]
    split
    · exact h.give _
    · exact h.raise _ _
  | assign id name e => exact h.push (Part.ne_of_node? he rfl) (child (.head _))
  | suffix id name op =>
    have other : name.text ≠ x := Part.ne_of_node? he rfl
    simp only [evaluate, h.lookup other, h.target? other]
    split
    · exact h.raise _ _
    · split
      · exact (h.write _ _ _).give _
      · exact h.raise _ _
    · exact h.raise _ _
  | call f es line => exact h.push (fun e he => child (.tail _ (List.mem_map_of_mem he))) (child (.head _))
  | set l name r => exact h.push (child (.head _)) (child (.tail _ (.head _)))
  | lambda r =>
    obtain ⟨value, added⟩ := h.addClosure (Routine.lacks (child (.head _))) .lambda
    simp only [evaluate, value]
    exact added.give _

theorem addStatics_sameAround (h : s.SameAround x s') {rs : List Routine} (hrs : ∀ r ∈ rs, r.Lacks x) :
    (addStatics s' rs).1 = (addStatics s rs).1 ∧ (addStatics s rs).2.SameAround x (addStatics s' rs).2 := by
  unfold addStatics
  generalize Table.empty = table
  induction rs generalizing s s' table with
  | nil => exact ⟨rfl, h⟩
  | cons r rs ih =>
    rw [List.forall_mem_cons] at hrs
    obtain ⟨value, added⟩ := h.addClosure hrs.1 .static
    simp only [List.foldl_cons, value]
    exact ih added hrs.2 _

theorem declareClass_sameBut (h : s.SameAround x s') {d : ClassDeclaration} (hd : x ∉ (Part.stmt (.class d)).names) :
    (declareClass s d).SameBut x (declareClass s' d) := by
  have routines {q : Part} (hq : q ∈ Part.statics d.statics ++ Part.methods d.methods) : x ∉ q.names :=
    Part.notMem_child hd (by simpa [Part.children, Part.stmtChildren] using .inr (List.mem_append.1 hq))
  obtain ⟨table, statics⟩ := addStatics_sameAround h fun r hr =>
    Routine.lacks (routines (List.mem_append_left _ (List.mem_map_of_mem hr)))
  have methods := methodTable_allCode s .empty d.methods (fun _ _ hm => by cases hm) fun r hr =>
    Routine.lacks (routines (List.mem_append_right _ (List.mem_map_of_mem hr)))
  have same : methodTable s' .empty d.methods = methodTable s .empty d.methods := by
    simp only [methodTable, State.closure, h.frame]
  obtain ⟨value, store⟩ := statics.store.addClass
    ⟨d.name.text, methodTable s .empty d.methods, (addStatics s d.statics).1, none⟩
  rw [declareClass_eq, declareClass_eq]
  dsimp only
  rw [same, table, value]
  exact ((statics.withStore store (statics.code.addClass methods)).define _ _).go trivial

theorem execute_sameBut (h : s.SameAround x s') {stmt : Stmt} (hs : x ∉ (Part.stmt stmt).names) :
    (execute s stmt).SameBut x (execute s' stmt) := by
  have child {q : Part} (hq : q ∈ Part.stmtChildren stmt) : x ∉ q.names := Part.notMem_child hs hq
  cases stmt with
  | expression e | print e => exact h.push trivial (child (.head _))
  | var name e? =>
    cases e? with
    | none => exact (h.define _ _).go trivial
    | some e => exact h.push trivial (child (.head _))
  | block ss =>
    simp only [execute, h.frame]
    exact (h.inside s.frame []).push trivial (child (.head _))
  | conditional e yes no =>
    refine h.push ⟨child (.tail _ (.head _)), fun n hn => ?_⟩ (child (.head _))
    exact child (.tail _ (.tail _ (List.mem_map_of_mem (Option.mem_toList.2 hn))))
  | loop e body => exact h.push hs (child (.head _))
  | «break» line => exact h.go trivial
  | «continue» line => exact h.go trivial
  | function r =>
    obtain ⟨value, added⟩ := h.addClosure (Routine.lacks (child (.head _))) .function
    simp only [execute, value]
    exact (added.define _ _).go trivial
  | «return» line e? =>
    cases e? with
    | none => exact h.go trivial
    | some e => exact h.push trivial (child (.head _))
  | «class» d =>
    obtain ⟨name, base, ms, ss⟩ := d
    cases base with
    | none => exact declareClass_sameBut (h.define name.text .null) hs
    | some e => exact (h.define name.text .null).push hs (child (.head _))

theorem invoke_sameBut (h : s.SameAround x s') (callee : Value) (arguments : List Value) (site : Site) :
    (invoke s callee arguments site).SameBut x (invoke s' callee arguments site) := by
  unfold invoke
  rw [h.store.callee?, h.store.display]
  split
  · exact h.raise _ _
  · exact h.go trivial
  · next found =>
    split
    · exact h.push trivial (h.code.callee found)
    · exact h.raise _ _
  · next found =>
    split
    · exact h.go (h.code.callee found)
    · exact h.go trivial

theorem enterNative_sameBut (lawful : host.Lawful) (overlooks : host.Overlooks x) (h : s.SameBut x s') (native : Native)
    (arguments : List Value) : (enterNative host s native arguments).SameBut x (enterNative host s' native arguments) := by
  have whole := h
  replace h := h.around
  unfold enterNative
  split
  · rw [h.console]
    exact h.give _
  · rw [h.console]
    split
    · exact (h.withConsole _).give _
    · exact whole
  · next items _ =>
    rw [h.store.display, h.store.lists]
    split
    · next v xs _ =>
      have after := h.withStore (h.store.withLists (s.store.lists.set items xs)) (h.code.of_eq rfl rfl)
      exact after.give v
    · exact h.go trivial
  · next entries _ =>
    rw [h.store.display, h.store.maps]
    split
    · next v t _ =>
      have after := h.withStore (h.store.withMaps (s.store.maps.set entries t)) (h.code.of_eq rfl rfl)
      exact after.give v
    · exact h.go trivial
  · next tag cell _ =>
    obtain ⟨store, printed, reply⟩ := overlooks.call tag cell arguments h.store
    dsimp only
    rw [printed, reply, h.console]
    have after := (h.withStore store (h.code.kept (lawful.call tag cell arguments s.store))).withConsole
      ((host.call tag cell arguments s.store).printed.foldl Console.print s.console)
    split
    · exact after.give _
    · exact after.go trivial
    · exact after.push trivial trivial

theorem prepared_sameBut (overlooks : host.Overlooks x) {store store' : Store} (h : store.SameBut x store')
    (r : Ref .classObject) (c : ClassObject) (arguments : List Value) :
    (prepared host store r c arguments).1.SameBut x (prepared host store' r c arguments).1 ∧
      (prepared host store' r c arguments).2 = (prepared host store r c arguments).2 := by
  obtain ⟨object, added⟩ := h.addInstance r
  unfold prepared
  rw [object]
  split
  · exact added.prepare overlooks _ _ _
  · exact ⟨added, rfl⟩

theorem enterClass_sameBut (lawful : host.Lawful) (overlooks : host.Overlooks x) (h : s.SameAround x s')
    (r : Ref .classObject) {c : ClassObject} (hc : ∀ name m, c.methods.get? name = some m → m.routine.Lacks x)
    (arguments : List Value) : (enterClass host s r c arguments).SameBut x (enterClass host s' r c arguments) := by
  have kept := kept_prepared lawful s.store r c arguments
  have instances : s'.store.instances.next = s.store.instances.next := (h.store.addInstance r).1
  obtain ⟨store, fault⟩ := prepared_sameBut overlooks h.store r c arguments
  rw [enterClass_eq, enterClass_eq]
  dsimp only
  rw [fault, instances]
  have after := h.withStore store (h.code.kept kept)
  split
  · exact after.go trivial
  · exact after.give _
  · next f _ hf =>
    obtain ⟨closure, bound⟩ := store.bind f s.store.instances.next
    rw [closure]
    exact (h.withStore bound (after.code.of_eq rfl rfl)).push trivial (hc constructorName f hf)

theorem enter_sameBut (lawful : host.Lawful) (overlooks : host.Overlooks x) (h : s.SameBut x s') {callee : Callee}
    (hc : callee.AllCode (Routine.Lacks x)) (arguments : List Value) :
    (enter host s callee arguments).SameBut x (enter host s' callee arguments) := by
  rcases callee with (c | n) | ⟨r, c⟩
  · have inside := h.around.inside c.frame ((c.routine.params.map Name.text).zip arguments)
    simp only [enter, enterClosure, h.around.frame]
    exact inside.push trivial hc.2
  · exact enterNative_sameBut lawful overlooks h n arguments
  · exact enterClass_sameBut lawful overlooks h.around r hc arguments

theorem subscript_sameBut (h : s.SameAround x s') (object position : Value) (line : Nat) :
    (subscript s object position line).SameBut x (subscript s' object position line) := by
  unfold subscript
  split
  · exact h.answer _ _
  · rw [h.store.property?]
    split
    · next found =>
      obtain ⟨value, realized⟩ := h.realize (h.code.property found)
      dsimp only
      rw [value]
      exact realized.go trivial
    · exact h.raise _ _
  · exact h.raise _ _

theorem binary_sameBut (h : s.SameAround x s') (op : Token) (v w : Value) :
    binary s'.store op v w = binary s.store op v w :=
  binary_of_display h.store.display op v w

theorem resume_sameBut (h : s.SameAround x s') {p : Pending} (hp : p.Lacks x) (v : Value) :
    (resume s v p).SameBut x (resume s' v p) := by
  cases p with
  | unary op => exact h.answer _ _
  | binaryRight op e => exact h.push trivial hp
  | binary left op =>
    simp only [resume, binary_sameBut h]
    exact h.answer _ _
  | logical op e =>
    simp only [resume]
    split
    · exact h.give _
    · exact h.go hp
  | ternary yes no =>
    simp only [resume]
    split
    · exact h.go hp.1
    · exact h.go hp.2
  | assign id name =>
    simp only [resume, h.target? hp]
    split
    · exact (h.write _ _ _).give _
    · exact h.raise _ _
  | callee es line => exact evaluateArguments_sameBut h v [] hp line
  | arguments f done es line => exact evaluateArguments_sameBut h f _ hp line
  | get name =>
    have member {w : Value} {p : Property} (found : s.store.member? w name.text = some p) :
        ((s.realize p).2.give (s.realize p).1).SameBut x ((s'.realize p).2.give (s'.realize p).1) := by
      obtain ⟨value, realized⟩ := h.realize (h.code.member found)
      rw [value]
      exact realized.give _
    simp only [resume, h.store.member?]
    split
    · split
      · next found => exact member found
      · exact h.raise _ _
    · split
      · next found => exact member found
      · exact h.raise _ _
    · exact h.raise _ _
  | setObject name e =>
    cases v with
    | «instance» r => exact h.push trivial hp
    | _ => exact h.raise _ _
  | setField r name => exact (h.withStore (h.store.setField r name.text v) (h.code.of_eq rfl rfl)).give _
  | updateObject name op e =>
    cases v with
    | «instance» r =>
      simp only [resume, h.store.property?]
      split
      · next found =>
        obtain ⟨value, realized⟩ := h.realize (h.code.property found)
        rw [value]
        exact realized.push trivial hp
      · exact h.raise _ _
    | _ => exact h.raise _ _
  | updateField r name current op =>
    simp only [resume, binary_sameBut h]
    split
    · exact (h.withStore (h.store.setField r name.text _) (h.code.of_eq rfl rfl)).give _
    · exact h.raise _ _
  | indexObject e line => exact h.push trivial hp
  | index object line => exact subscript_sameBut h _ _ _
  | expression => exact h.go trivial
  | print =>
    simp only [resume, h.console, h.store.display]
    exact (h.withConsole _).go trivial
  | var name => exact (h.define _ _).go trivial
  | conditional yes no =>
    simp only [resume]
    split
    · exact h.go hp.1
    · cases no with
      | none => exact h.go trivial
      | some no => exact h.go (hp.2 no rfl)
  | loopCondition e body =>
    simp only [resume]
    split
    · exact h.push hp (Part.notMem_child hp (.tail _ (.head _)))
    · exact h.go trivial
  | «return» => exact h.go trivial
  | base d =>
    cases v with
    | «class» r => exact declareClass_sameBut h hp
    | _ => exact h.raise _ _
  | constructed r => exact h.give _
  | site line => exact h.give _
  | nativeCall => exact h.give _
  | _ => exact h.push hp trivial

theorem proceed_sameBut (h : s.SameAround x s') {p : Pending} (hp : p.Lacks x) (f : Flow) :
    (proceed s f p).SameBut x (proceed s' f p) := by
  cases p with
  | sequence ss =>
    cases f with
    | normal => exact h.go hp
    | _ => exact h.go trivial
  | program ss => exact h.go hp
  | loopBody e body =>
    cases f with
    | «break» => exact h.go trivial
    | «return» v => exact h.go trivial
    | _ => exact h.push hp (Part.notMem_child hp (.head _))
  | leave outside => exact (h.withFrame outside).go trivial
  | body c outside =>
    have result : bodyResult s'.store c f = bodyResult s.store c f := by
      cases h with
      | intro proper store =>
        simp only [bodyResult, store.frames.fetch _ "this" proper.symm]
    simp only [proceed, result]
    exact (h.withFrame outside).give _
  | _ => exact h.push hp trivial

theorem unwind_sameBut (h : s.SameAround x s') (e : Failure) (p : Pending) :
    (unwind s e p).SameBut x (unwind s' e p) := by
  cases p with
  | leave outside | body c outside => exact (h.withFrame outside).go trivial
  | _ => exact h.go trivial

/-- Machines that are the same but for what the name stands for take steps to such machines. -/
theorem step_sameBut (lawful : host.Lawful) (overlooks : host.Overlooks x) (h : s.SameBut x s') :
    (step host s).SameBut x (step host s') := by
  have whole := h
  obtain ⟨@⟨store, proper, same, code, waiting⟩, lacks⟩ := h
  have around : s.SameAround x { s with store } := .intro proper same code waiting
  obtain ⟨world, control, frame, pending⟩ := s
  cases control with
  | evaluate e => exact evaluate_sameBut around lacks
  | execute stmt => exact execute_sameBut around lacks
  | sequence ss | program ss =>
    cases ss with
    | nil => exact around.go trivial
    | cons stmt ss =>
      have rest := Part.notMem_child lacks (.tail _ (.head _))
      exact around.push rest (Part.notMem_child lacks (.head _))
  | invoke callee arguments site => exact invoke_sameBut around callee arguments site
  | enter callee arguments => exact enter_sameBut lawful overlooks whole lacks arguments
  | value v =>
    cases pending with
    | nil => exact whole
    | cons p ps =>
      obtain ⟨lacks, rest⟩ := around.pop rfl
      exact resume_sameBut rest lacks v
  | flow f =>
    cases pending with
    | nil => exact whole
    | cons p ps =>
      obtain ⟨lacks, rest⟩ := around.pop rfl
      exact proceed_sameBut rest lacks f
  | raise e =>
    cases pending with
    | nil => exact whole
    | cons p ps =>
      obtain ⟨-, rest⟩ := around.pop rfl
      exact unwind_sameBut rest e p

theorem run_sameBut (lawful : host.Lawful) (overlooks : host.Overlooks x) (h : s.SameBut x s') (n : Nat) :
    (run host n s).SameBut x (run host n s') := by
  induction n generalizing s s' with
  | zero => exact h
  | succ n ih =>
    rw [run_succ, run_succ]
    exact ih (step_sameBut lawful overlooks h)

/-- The name is free to be used: it is not that of the receiver, no code mentions it, and the host does not look at it. -/
structure Spare (host : Host) (x : String) (s : State) : Prop where
  lawful : host.Lawful
  overlooks : host.Overlooks x
  proper : x ≠ "this"
  lacks : s.Lacks x

theorem Spare.written (h : Spare host x s) (r : Ref .frame) (v : Value) : s.SameBut x (s.write r x v) :=
  ⟨.intro h.proper (.intro (.defined _ r x v)) h.lacks.code h.lacks.pending, h.lacks.control⟩

theorem Spare.run (h : Spare host x s) (n : Nat) : Spare host x (run host n s) := by
  have same : s.SameBut x s := ⟨.intro h.proper (.intro (.refl x _)) h.lacks.code h.lacks.pending, h.lacks.control⟩
  obtain ⟨around, control⟩ := run_sameBut h.lawful h.overlooks same n
  exact ⟨h.lawful, h.overlooks, h.proper, control, around.pending, around.code⟩

/-- Runs that take the same course but for what the name stands for. -/
structure ParallelBut (x : String) (host : Host) (s t : State) : Prop where
  follows : ∀ n, ∃ m, (run host n s).toWorld.SameBut x (run host m t).toWorld ∧
    ∀ o, (run host n s).outcome? = some o → (run host m t).outcome? = some o
  followed : ∀ m, ∃ n, (run host n s).toWorld.SameBut x (run host m t).toWorld ∧
    ∀ o, (run host m t).outcome? = some o → (run host n s).outcome? = some o

/-- A variable may be added under a name that is free, before a run or one that takes the same course. -/
theorem Spare.parallelBut (h : Spare host x s) {t : State} {r : Ref .frame} {v : Value}
    (course : Parallel host (s.write r x v) t) : ParallelBut x host s t := by
  have same (n : Nat) := run_sameBut h.lawful h.overlooks (h.written r v) n
  constructor
  · intro n
    obtain ⟨m, world, outcome⟩ := course.follows n
    refine ⟨m, ?_, fun o ended => outcome o ((same n).outcome?.trans ended)⟩
    rw [world]
    exact (same n).world
  · intro m
    obtain ⟨n, world, outcome⟩ := course.followed m
    refine ⟨n, ?_, fun o ended => (same n).outcome?.symm.trans (outcome o ended)⟩
    rw [← world]
    exact (same n).world

end Machine

theorem Host.sample_overlooks (x : String) : Host.sample.Overlooks x where
  call tag cell arguments s s' h := by
    change (Sample.call tag cell arguments s).store.SameBut x (Sample.call tag cell arguments s').store ∧
      (Sample.call tag cell arguments s').printed = (Sample.call tag cell arguments s).printed ∧
      (Sample.call tag cell arguments s').reply = (Sample.call tag cell arguments s).reply
    have cells : s'.cells = s.cells := by
      cases h
      rfl
    unfold Sample.call Sample.greet
    simp only [h.display, cells]
    split
    case h_6 k v => exact ⟨h.define Store.globals (s.display k) v, rfl, rfl⟩
    case h_8 r =>
      split
      · cases h with
        | intro frames => exact ⟨.intro frames, rfl, rfl⟩
      · exact ⟨h, rfl, rfl⟩
    all_goals exact ⟨h, rfl, rfl⟩
  prepare tag object arguments s s' h := by
    change (Sample.prepare tag object arguments s).1.SameBut x (Sample.prepare tag object arguments s').1 ∧
      (Sample.prepare tag object arguments s').2 = (Sample.prepare tag object arguments s).2
    unfold Sample.prepare
    cases h with
    | intro frames =>
      split
      all_goals exact ⟨.intro frames, rfl⟩

end Scriptlet
