import Scriptlet.Proofs.CallSites
import Scriptlet.Proofs.ContainedRuns
import Scriptlet.Proofs.Operations

/-!
The annals of a session: every state in which the machine has made a step, through all the work that the session has
done. Lists and maps keep their contents in storage of their own. Only their methods reach into it and only their classes
add to it; whatever else programs and hosts do spares it.
-/
namespace Scriptlet

theorem Heap.get?_alloc_of_some {kind : ObjectKind} {α : Type} {h : Heap kind α} {r : Ref kind} {a : α}
    (hr : h.get? r = some a) (b : α) : (h.alloc b).get? r = some a := by
  rw [Heap.get?_alloc, if_neg, hr]
  rintro rfl
  simp [Heap.get?, Heap.next] at hr

/-- The storage of lists and maps stays as it is, and so does every function. A new function is a closure, or belongs to
the host. -/
structure Store.Spares (s t : Store) : Prop where
  lists : t.lists = s.lists
  maps : t.maps = s.maps
  function : ∀ f c, s.functions.get? f = some c → t.functions.get? f = some c
  native : ∀ f n, t.functions.get? f = some (.native n) →
    s.functions.get? f = some (.native n) ∨ ∃ tag cell, n.behaviour = .host tag cell
  instances : s.instances.size ≤ t.instances.size

namespace Store.Spares

variable {s t u : Store}

theorem of_eq (functions : t.functions = s.functions) (lists : t.lists = s.lists) (maps : t.maps = s.maps)
    (instances : s.instances.size ≤ t.instances.size) : s.Spares t where
  lists := lists
  maps := maps
  function f c h := by rwa [functions]
  native f n h := .inl (by rwa [functions] at h)
  instances := instances

theorem refl (s : Store) : s.Spares s := of_eq rfl rfl rfl (Nat.le_refl _)

theorem trans (h : s.Spares t) (h' : t.Spares u) : s.Spares u where
  lists := h'.lists.trans h.lists
  maps := h'.maps.trans h.maps
  function f c hf := h'.function f c (h.function f c hf)
  native f n hf := (h'.native f n hf).elim (h.native f n) .inr
  instances := Nat.le_trans h.instances h'.instances

theorem define (s : Store) (frame : Ref .frame) (name : String) (v : Value) : s.Spares (s.define frame name v) :=
  of_eq rfl rfl rfl (Nat.le_refl _)

theorem addFrame (s : Store) (parent : Ref .frame) (bindings : List (String × Value)) :
    s.Spares (s.addFrame parent bindings).2 :=
  of_eq rfl rfl rfl (Nat.le_refl _)

theorem addClass (s : Store) (c : ClassObject) : s.Spares (s.addClass c).2 := of_eq rfl rfl rfl (Nat.le_refl _)

theorem addInstance (s : Store) (r : Ref .classObject) : s.Spares (s.addInstance r).2 :=
  of_eq rfl rfl rfl (by simp [Store.addInstance])

theorem setField (s : Store) (r : Ref .object) (name : String) (v : Value) : s.Spares (s.setField r name v) :=
  of_eq rfl rfl rfl (by simp [Store.setField])

theorem addFunction (s : Store) {c : Callable} (hc : ∀ n, c = .native n → ∃ tag cell, n.behaviour = .host tag cell) :
    s.Spares (s.addFunction c).2 where
  lists := rfl
  maps := rfl
  function _ _ h := Heap.get?_alloc_of_some h c
  native f n h := by
    change (s.functions.alloc c).get? f = _ at h
    rw [Heap.get?_alloc] at h
    split at h
    · exact .inr (hc n (Option.some.inj h))
    · exact .inl h
  instances := Nat.le_refl _

theorem addClosure (s : Store) (c : Closure) : s.Spares (s.addFunction (.closure c)).2 := addFunction s nofun

theorem bind (s : Store) (m : Closure) (r : Ref .object) : s.Spares (s.bind m r).2 := addFrame s m.frame _

theorem realize (s : Store) (p : Property) : s.Spares (s.realize p).2 := by
  cases p with
  | value v => exact refl s
  | method m r => exact (bind s m r).trans (addClosure _ _)

theorem defineGlobal (s : Store) (name : String) (v : Value) : s.Spares (s.defineGlobal name v) := define s _ name v

theorem defineNative (s : Store) (name : String) (arity : Nat) (tag : String) (cell : Option (Ref .cell)) :
    s.Spares (s.defineNative name arity (.host tag cell)) := by
  have added : s.Spares (s.addNative name arity (.host tag cell)).2 := by
    refine addFunction s ?_
    rintro n ⟨⟩
    exact ⟨tag, cell, rfl⟩
  exact added.trans (defineGlobal _ name _)

theorem defineNativeClass (s : Store) (name : String) (arity : Nat) (statics : Table String Value) (i : Initializer) :
    s.Spares (s.defineNativeClass name arity statics i) :=
  (addClass s _).trans (defineGlobal _ name _)

theorem withLibrary (s : Store) : s.Spares s.withLibrary :=
  (defineNativeClass s "List" 0 .empty .list).trans (defineNativeClass _ "Map" 0 .empty .map)

end Store.Spares

/-- The functions of the host spare the storage of lists and maps: it is out of their reach. -/
structure Host.Sparing (host : Host) : Prop where
  call : ∀ tag cell arguments store, Store.Spares store (host.call tag cell arguments store).store
  prepare : ∀ tag object arguments store, Store.Spares store (host.prepare tag object arguments store).1

theorem Host.sample_sparing : Host.sample.Sparing where
  call tag cell arguments store := by
    change store.Spares (Host.Sample.call tag cell arguments store).store
    unfold Host.Sample.call
    split
    case h_6 => exact .defineGlobal _ _ _
    case h_8 =>
      split
      · exact .of_eq rfl rfl rfl (Nat.le_refl _)
      · exact .refl store
    all_goals exact .refl store
  prepare tag object arguments store := by
    change store.Spares (Host.Sample.prepare tag object arguments store).1
    unfold Host.Sample.prepare
    split
    · next x =>
      have first : store.Spares { store with cells := store.cells.alloc (.number x) } :=
        .of_eq rfl rfl rfl (Nat.le_refl _)
      refine (first.trans (.addFunction _ ?_)).trans (.setField _ object _ _)
      rintro n ⟨⟩
      exact ⟨_, _, rfl⟩
    · exact .refl store
    · exact (Store.Spares.setField _ _ _ _).trans (.setField _ _ _ _)
    · exact .refl store

namespace Machine

section Spares

variable {host : Host} {s : State}

theorem spares_evaluate (s : State) (e : Expr) : s.store.Spares (evaluate s e).store := by
  cases e with
  | «variable» id name | this id line =>
    simp only [evaluate]
    split <;> exact .refl _
  | suffix id name op =>
    simp only [evaluate]
    split
    · exact .refl _
    · split
      · exact .define _ _ _ _
      · exact .refl _
    · exact .refl _
  | lambda routine => exact .addClosure _ _
  | _ => exact .refl _

theorem spares_addStatics (s : State) (rs : List Routine) : s.store.Spares (addStatics s rs).2.store := by
  unfold addStatics
  generalize Table.empty = table
  induction rs generalizing s table with
  | nil => exact .refl _
  | cons r rs ih => exact (Store.Spares.addClosure s.store (s.closure r .static)).trans (ih (s.addClosure r .static).2 _)

theorem spares_declareClass (s : State) (d : ClassDeclaration) : s.store.Spares (declareClass s d).store :=
  ((spares_addStatics s d.statics).trans (.addClass _ _)).trans (.define _ _ _ _)

theorem spares_execute (s : State) (x : Stmt) : s.store.Spares (execute s x).store := by
  cases x with
  | var name initial =>
    cases initial with
    | none => exact .define _ _ _ _
    | some e => exact .refl _
  | block body => exact .addFrame _ _ _
  | function routine => exact (Store.Spares.addClosure s.store _).trans (.define _ _ _ _)
  | «return» line value => cases value <;> exact .refl _
  | «class» d =>
    have named := Store.Spares.define s.store s.frame d.name.text .null
    simp only [execute]
    split
    · exact named
    · exact named.trans (spares_declareClass (s.define d.name.text .null) d)
  | _ => exact .refl _

theorem store_invoke (s : State) (callee : Value) (arguments : List Value) (site : Site) :
    (invoke s callee arguments site).store = s.store := by
  unfold invoke
  repeat' split
  all_goals rfl

theorem spares_subscript (s : State) (object position : Value) (line : Nat) :
    s.store.Spares (subscript s object position line).store := by
  unfold subscript
  split
  · cases textAt _ position <;> exact .refl _
  · split
    · exact .realize _ _
    · exact .refl _
  · exact .refl _

theorem spares_resume (s : State) (v : Value) (p : Pending) : s.store.Spares (resume s v p).store := by
  cases p with
  | unary op =>
    simp only [resume]
    cases unary op v <;> exact .refl _
  | binary left op =>
    simp only [resume]
    cases binary s.store op left v <;> exact .refl _
  | logical op right | setObject name value | loopCondition condition body =>
    simp only [resume]
    split <;> exact .refl _
  | assign id name =>
    simp only [resume]
    split
    · exact .define _ _ _ _
    · exact .refl _
  | callee arguments line => cases arguments <;> exact .refl _
  | arguments callee done rest line => cases rest <;> exact .refl _
  | get name =>
    simp only [resume]
    split
    · split
      · exact .realize _ _
      · exact .refl _
    · split
      · exact .realize _ _
      · exact .refl _
    · exact .refl _
  | setField r name => exact .setField _ _ _ _
  | updateObject name op value =>
    simp only [resume]
    split
    · split
      · exact .realize _ _
      · exact .refl _
    · exact .refl _
  | updateField r name current op =>
    simp only [resume]
    split
    · exact .setField _ _ _ _
    · exact .refl _
  | index object line => exact spares_subscript s object v line
  | var name => exact .define _ _ _ _
  | conditional yes no =>
    simp only [resume]
    split
    · exact .refl _
    · split <;> exact .refl _
  | base d =>
    simp only [resume]
    split
    · exact spares_declareClass s d
    · exact .refl _
  | _ => exact .refl _

theorem store_proceed (s : State) (f : Flow) (p : Pending) : (proceed s f p).store = s.store := by
  cases p with
  | sequence rest => cases f <;> rfl
  | loopBody condition body => cases f <;> rfl
  | _ => rfl

theorem store_unwind (s : State) (e : Failure) (p : Pending) : (unwind s e p).store = s.store := by
  cases p <;> rfl

/-- A constructor is only bound; what has been prepared stays. -/
theorem spares_enterClass (host : Host) (s : State) (r : Ref .classObject) (c : ClassObject) (arguments : List Value) :
    (prepared host s.store r c arguments).1.Spares (enterClass host s r c arguments).store := by
  rw [enterClass_eq]
  dsimp only
  split
  · exact .refl _
  · exact .refl _
  · exact .bind _ _ _

/-- Programs by themselves spare the storage: what else there is to a step is a native function or a class. -/
theorem step_store (host : Host) (s : State) :
    s.store.Spares (step host s).store ∨
      (∃ n arguments, s.control = .enter (.function (.native n)) arguments ∧ step host s = enterNative host s n arguments) ∨
      ∃ r c arguments, s.control = .enter (.class r c) arguments ∧ step host s = enterClass host s r c arguments := by
  obtain ⟨world, control, frame, pending⟩ := s
  cases control with
  | evaluate e => exact .inl (spares_evaluate _ e)
  | execute x => exact .inl (spares_execute _ x)
  | sequence body | program body => cases body <;> exact .inl (.refl _)
  | invoke callee arguments site =>
    simp only [step, store_invoke]
    exact .inl (.refl _)
  | enter callee arguments =>
    rcases callee with (c | n) | ⟨r, c⟩
    · exact .inl (.addFrame _ _ _)
    · exact .inr (.inl ⟨n, arguments, rfl, rfl⟩)
    · exact .inr (.inr ⟨r, c, arguments, rfl, rfl⟩)
  | value v =>
    cases pending with
    | nil => exact .inl (.refl _)
    | cons p rest => exact .inl (spares_resume ⟨world, .value v, frame, rest⟩ v p)
  | flow f =>
    cases pending with
    | nil => exact .inl (.refl _)
    | cons p rest =>
      simp only [step, store_proceed]
      exact .inl (.refl _)
  | raise e =>
    cases pending with
    | nil => exact .inl (.refl _)
    | cons p rest =>
      simp only [step, store_unwind]
      exact .inl (.refl _)

end Spares

/-- Work begins with anything but a call whose arguments nobody has counted. -/
def Control.Begins : Control → Prop
  | .enter _ _ => False
  | _ => True

/-- The states that a session comes to, each with the states in which a step has been made so far, the latest first. Some
work begins; more input may arrive at any time; and whatever has come of the work, the host may do something that spares
the storage, and other work may begin. -/
inductive Annals (host : Host) : List State → State → Prop
  | first {control : Control} (console : Console) (distances : Distances) : control.Begins →
      Annals host [] (.start ⟨Store.bare, console, distances⟩ control)
  | step {h : List State} {s : State} : Annals host h s → Annals host (s :: h) (step host s)
  | feed {h : List State} {s : State} (console : Console) : Annals host h s → Annals host h { s with console }
  | next {h : List State} {s : State} {store : Store} {control : Control} (console : Console) (distances : Distances) :
      Annals host h s → s.store.Spares store → control.Begins →
      Annals host h (.start ⟨store, console, distances⟩ control)

/-- Work that begins with the library at hand. -/
theorem Annals.library (host : Host) (console : Console) {control : Control} (begins : control.Begins) :
    Annals host [] (.start ⟨Store.bare.withLibrary, console, .empty⟩ control) := by
  have bare : Annals host [] (.start ⟨Store.bare, console, .empty⟩ (.program [])) := .first console .empty trivial
  exact bare.next console .empty (.withLibrary _) begins

theorem Annals.run {host : Host} {h : List State} {s : State} (annals : Annals host h s) (n : Nat) :
    ∃ h', Annals host h' (Machine.run host n s) := by
  induction n with
  | zero => exact ⟨h, annals⟩
  | succ n ih =>
    obtain ⟨h', later⟩ := ih
    rw [run_step]
    exact ⟨_, later.step⟩

/-- What is entered now has passed the checks: it gets as many arguments as it takes, and a native function is one of
the store. -/
structure State.Checked (s : State) : Prop where
  arity : ∀ callee arguments, s.control = .enter callee arguments → arguments.length = callee.arity
  known : ∀ n arguments, s.control = .enter (.function (.native n)) arguments →
    ∃ f, s.store.functions.get? f = some (.native n)

section Checked

variable {host : Host} {s t : State}

theorem checked_of_ne (h : ∀ callee arguments, s.control ≠ .enter callee arguments) : s.Checked :=
  ⟨fun callee arguments hc => absurd hc (h callee arguments), fun _ arguments hc => absurd hc (h _ arguments)⟩

theorem checked_of_begins (begins : s.control.Begins) : s.Checked := by
  refine checked_of_ne fun callee arguments hc => ?_
  rw [hc] at begins
  exact begins

theorem Plain.checked (h : Plain s t) : t.Checked := by
  refine checked_of_ne fun callee arguments hc => ?_
  have outside := h.control
  rw [hc] at outside
  cases outside

/-- A callee is entered only after its arguments have been counted. -/
theorem checked_invoke (callee : Value) (arguments : List Value) (site : Site) :
    (invoke s callee arguments site).Checked := by
  have counted {c : Callee} (found : s.store.callee? callee = some c) (fits : arguments.length = c.arity) {u : State}
      (hu : u.control = .enter c arguments) (same : u.store = s.store) : u.Checked := by
    constructor
    · intro c' arguments' hc
      cases hu.symm.trans hc
      exact fits
    · intro n arguments' hc
      cases hu.symm.trans hc
      rw [same]
      cases callee with
      | function f =>
        obtain ⟨c', hf, he⟩ := Option.map_eq_some_iff.1 found
        cases he
        exact ⟨f, hf⟩
      | «class» r =>
        obtain ⟨c', -, he⟩ := Option.map_eq_some_iff.1 found
        cases he
      | _ => cases found
  unfold invoke
  split
  · exact checked_of_begins trivial
  · exact checked_of_begins trivial
  · next found =>
    split
    · next fits => exact counted found fits rfl rfl
    · exact checked_of_begins trivial
  · next found =>
    split
    · next fits => exact counted found fits rfl rfl
    · exact checked_of_begins trivial

/-- A class hands its arguments on to its constructor, whose arity is that of the class. -/
theorem State.Checked.enter (h : s.Checked) {callee : Callee} {arguments : List Value}
    (hc : s.control = .enter callee arguments) : (enter host s callee arguments).Checked := by
  rcases callee with (c | n) | ⟨r, c⟩
  · exact checked_of_begins trivial
  · simp only [Machine.enter, enterNative]
    split
    · exact checked_of_begins trivial
    · split
      · exact checked_of_begins trivial
      · exact h
    · split <;> exact checked_of_begins trivial
    · split <;> exact checked_of_begins trivial
    · split
      · exact checked_of_begins trivial
      · exact checked_of_begins trivial
      · exact checked_of_begins trivial
  · have fits : arguments.length = c.arity := h.arity _ _ hc
    rw [Machine.enter, enterClass_eq]
    dsimp only
    split
    · exact checked_of_begins trivial
    · exact checked_of_begins trivial
    · next f _ hf =>
      rw [ClassObject.arity, hf] at fits
      constructor
      · rintro _ _ ⟨⟩
        exact fits
      · rintro _ _ ⟨⟩

theorem State.Checked.step (h : s.Checked) : (step host s).Checked := by
  unfold Machine.step
  split
  · exact (plain_evaluate _).checked
  · exact (plain_execute _).checked
  · exact checked_of_begins trivial
  · exact checked_of_begins trivial
  · exact checked_of_begins trivial
  · exact checked_of_begins trivial
  · exact checked_invoke _ _ _
  · next hc => exact h.enter hc
  · split
    · exact h
    · next v _ _ p rest _ =>
      by_cases native : p = .nativeCall
      · subst native
        exact checked_of_begins trivial
      · exact (plain_resume v native).checked
  · split
    · exact h
    · next f _ _ p rest _ =>
      by_cases native : p = .nativeCall
      · subst native
        exact checked_of_begins trivial
      · exact (plain_proceed f native).checked
  · split
    · exact h
    · next p rest _ =>
      cases p <;> exact checked_of_begins trivial

theorem Annals.checked {h : List State} (annals : Annals host h s) : s.Checked := by
  induction annals with
  | first console distances begins => exact checked_of_begins begins
  | step _ ih => exact ih.step
  | feed console _ ih => exact ⟨ih.arity, ih.known⟩
  | next console distances _ _ begins => exact checked_of_begins begins

end Checked

end Machine

/-- All that has been done to the store of a session is in some annals. -/
def Session.Recorded (host : Host) (s : Session) : Prop := ∃ h m, Machine.Annals host h m ∧ m.store = s.store

namespace Session.Recorded

open Machine

variable {host : Host} {s s' : Session}

theorem fresh (host : Host) (console : Console) : (Session.withConsole console).Recorded host :=
  ⟨[], .start ⟨Store.bare.withLibrary, console, .empty⟩ (.program []), .library host console trivial, rfl⟩

/-- All states of work that the session begins are in the annals. -/
theorem annals (h : s.Recorded host) {control : Control} (begins : control.Begins) (n : Nat) :
    ∃ h, Annals host h (run host n (s.start control)) := by
  obtain ⟨before, m, annals, same⟩ := h
  exact (annals.next s.world.console s.world.distances (same ▸ .refl _) begins).run n

theorem withStore (h : s.Recorded host) {store : Store} (spares : s.store.Spares store) :
    (s.withStore store).Recorded host := by
  obtain ⟨before, m, annals, same⟩ := h
  exact ⟨before, .start ⟨store, s.world.console, s.world.distances⟩ (.program []),
    annals.next _ _ (same ▸ spares) trivial, rfl⟩

theorem of_store (h : s.Recorded host) (same : s'.store = s.store) : s'.Recorded host := by
  obtain ⟨before, m, annals, found⟩ := h
  exact ⟨before, m, annals, found.trans same.symm⟩

theorem underway (h : s.Recorded host) {control : Control} (begins : control.Begins) (n : Nat) :
    (s.underway host n control).Recorded host := by
  obtain ⟨later, annals⟩ := h.annals begins n
  exact ⟨later, _, annals, rfl⟩

theorem settle (h : s.Recorded host) {control : Control} (begins : control.Begins) (n : Nat) :
    (Session.settle (s.perform host n control) (s.underway host n control)).1.Recorded host := by
  have meanwhile := h.underway begins n
  cases performed : s.perform host n control with
  | none => exact meanwhile
  | some ended =>
    obtain ⟨s', result⟩ := ended
    refine meanwhile.of_store ?_
    change s'.world.store = _
    rw [(Session.world_finish performed).1]
    rfl

end Session.Recorded

namespace Address

variable {store store' : Store} {address : String} {v : Value}

theorem spares_read (h : read store address = .ok (v, store')) : store.Spares store' :=
  read_keeps (P := store.Spares) (fun s _ _ p before _ => before.trans (.realize s p)) (.refl _) h

theorem spares_write (h : write store address v = .ok store') : store.Spares store' :=
  write_keeps (P := store.Spares) (fun s _ _ p before _ => before.trans (.realize s p))
    (fun s name v before => before.trans (.define s _ name v))
    (fun s r name v before => before.trans (.setField s r name v)) (.refl _) h

end Address

namespace Session.Recorded

open Machine

variable {host : Host} {s : Session}

theorem get (h : s.Recorded host) (address : String) : (s.get address).1.Recorded host := by
  unfold Session.get
  split
  · next read => exact h.withStore (Address.spares_read read)
  · exact h

theorem set (h : s.Recorded host) (address : String) (v : Value) : (s.set address v).1.Recorded host := by
  unfold Session.set
  split
  · next written => exact h.withStore (Address.spares_write written)
  · exact h

theorem aim (h : s.Recorded host) (target : Target) : (s.aim target).1.Recorded host := by
  cases target with
  | address address => exact h.get address
  | value v => exact h

theorem submit (h : s.Recorded host) (limit : Nat) (form : Session.Form) (source : String) :
    (s.operate host limit (.submit form source)).1.Recorded host := by
  simp only [operate, Session.submit]
  rcases checked : s.check form source with ⟨s', result⟩
  have recorded : s'.Recorded host := by
    refine h.of_store ?_
    rw [Session.store, Session.check_world checked]
    rfl
  cases result with
  | error e => exact recorded
  | ok control =>
    have begins : control.Begins := by
      obtain ⟨starts, -⟩ := Session.check_starts checked
      cases starts <;> trivial
    exact recorded.settle begins limit

/-- Whatever a host asks of a session, as long as the functions that it defines are its own, goes into the annals. -/
theorem operate (h : s.Recorded host) (limit : Nat) {op : Operation}
    (own : ∀ name arity b, op = .native name arity b → ∃ tag cell, b = .host tag cell) :
    (s.operate host limit op).1.Recorded host := by
  cases op with
  | submit form source => exact h.submit limit form source
  | call target arguments =>
    have aimed := h.aim target
    simp only [Session.operate]
    revert aimed
    rcases s.aim target with ⟨s', e | callee⟩ <;> intro aimed
    · exact aimed
    · have begins : (Control.invoke callee arguments .host).Begins := trivial
      exact aimed.settle begins limit
  | create target arguments =>
    have aimed := h.aim target
    simp only [Session.operate]
    revert aimed
    rcases s.aim target with ⟨s', e | v⟩ <;> intro aimed
    · exact aimed
    · cases v with
      | «class» r =>
        have begins : (Control.invoke (.class r) arguments .host).Begins := trivial
        exact aimed.settle begins limit
      | _ => exact aimed
  | get address => exact h.get address
  | set address v => exact h.set address v
  | define name v => exact h.withStore (.defineGlobal _ name v)
  | native name arity b =>
    obtain ⟨tag, cell, rfl⟩ := own name arity b rfl
    exact h.withStore (.defineNative _ name arity tag cell)
  | nativeClass name arity statics i => exact h.withStore (.defineNativeClass _ name arity statics i)
  | reset => exact h

end Session.Recorded

/-- The sessions that a host can have: a new one, and whatever it makes of one by what it asks of it. The functions that
it defines are its own. -/
inductive Session.Reached (host : Host) : Session → Prop
  | fresh (console : Console) : Reached host (.withConsole console)
  | operate {s : Session} (limit : Nat) {op : Operation} : Reached host s →
      (∀ name arity b, op = .native name arity b → ∃ tag cell, b = .host tag cell) →
      Reached host (s.operate host limit op).1

theorem Session.Reached.recorded {host : Host} {s : Session} (reached : s.Reached host) : s.Recorded host := by
  induction reached with
  | fresh console => exact .fresh host console
  | operate limit reached own ih => exact ih.operate limit own

end Scriptlet
