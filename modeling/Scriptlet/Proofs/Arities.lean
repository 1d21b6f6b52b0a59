import Scriptlet.Proofs.Equipment
import Scriptlet.Proofs.Layout

/-!
Calls fit what is called. The number of arguments is checked where a call is made, and what is entered relies on it: a
closure has a value for each of its parameters, and a method of a list or a map finds the arguments that it reads. So it
is in all annals, for every native function of the store takes as many arguments as its body reads.
-/
namespace Scriptlet

open Machine

/-- A native function takes as many arguments as its body reads. Those of the host are the host's own matter. -/
def Native.Fit (n : Native) : Prop :=
  match n.behaviour with
  | .clock | .input => n.arity = 0
  | .list m _ => n.arity = m.arity
  | .map m _ => n.arity = m.arity
  | .host _ _ => True

def Store.Fit (s : Store) : Prop := ∀ f n, s.functions.get? f = some (.native n) → n.Fit

namespace Store.Fit

variable {host : Host} {s t : Store}

theorem bare : Store.bare.Fit := by
  intro f n hf
  rcases native_bare hf with rfl | rfl <;> rfl

theorem of_functions (h : s.Fit) (functions : t.functions = s.functions) : t.Fit := by
  intro f n hf
  exact h f n (functions ▸ hf)

theorem spares (h : s.Fit) (spares : s.Spares t) : t.Fit := by
  intro f n hf
  rcases spares.native f n hf with before | ⟨tag, cell, behaviour⟩
  · exact h f n before
  · simp only [Native.Fit, behaviour]

theorem equips (h : s.Fit) {object : Ref .object} {natives : List Native} (equips : s.Equips object natives t)
    (fit : ∀ n ∈ natives, n.Fit) : t.Fit := by
  intro f n hf
  exact (equips.native f n hf).elim (h f n) (fit n)

theorem prepare (h : s.Fit) (sparing : host.Sparing) (object : Ref .object) (arguments : List Value) (i : Initializer) :
    (s.prepare host object arguments i).1.Fit := by
  cases i with
  | list =>
    have allocated : { s with lists := s.lists.alloc [] }.Fit := h.of_functions rfl
    exact allocated.equips (s.equips_prepareList object) (List.forall_mem_map.2 fun _ _ => rfl)
  | map =>
    have allocated : { s with maps := s.maps.alloc .empty }.Fit := h.of_functions rfl
    exact allocated.equips (s.equips_prepareMap object) (List.forall_mem_map.2 fun _ _ => rfl)
  | host tag => exact h.spares (sparing.prepare tag object arguments s)

end Store.Fit

namespace Machine

variable {host : Host} {s : State}

theorem fit_enterNative (sparing : host.Sparing) (h : s.store.Fit) (n : Native) (arguments : List Value) :
    (enterNative host s n arguments).store.Fit := by
  cases behaviour : n.behaviour with
  | list m items | map m entries =>
    simp only [enterNative, behaviour]
    split <;> exact h.of_functions rfl
  | clock => exact h.spares (spares_enterNative sparing s arguments (.inl behaviour))
  | input => exact h.spares (spares_enterNative sparing s arguments (.inr (.inl behaviour)))
  | host tag cell => exact h.spares (spares_enterNative sparing s arguments (.inr (.inr ⟨tag, cell, behaviour⟩)))

theorem fit_enterClass (sparing : host.Sparing) (h : s.store.Fit) (r : Ref .classObject) (c : ClassObject)
    (arguments : List Value) : (enterClass host s r c arguments).store.Fit := by
  have added : (s.store.addInstance r).2.Fit := h.of_functions rfl
  refine Store.Fit.spares ?_ (spares_enterClass host s r c arguments)
  unfold prepared
  split
  · exact added.prepare sparing _ arguments _
  · exact added

theorem fit_step (sparing : host.Sparing) (h : s.store.Fit) : (step host s).store.Fit := by
  rcases step_store host s with spares | ⟨n, arguments, -, entered⟩ | ⟨r, c, arguments, -, entered⟩
  · exact h.spares spares
  · exact entered ▸ fit_enterNative sparing h n arguments
  · exact entered ▸ fit_enterClass sparing h r c arguments

/-- In all annals, native functions take as many arguments as their bodies read. -/
theorem Annals.fit (sparing : host.Sparing) {h : List State} (annals : Annals host h s) : s.store.Fit := by
  induction annals with
  | first console distances begins => exact .bare
  | step annals ih => exact fit_step sparing ih
  | feed console annals ih => exact ih
  | next console distances annals spares begins ih => exact ih.spares spares

end Machine

section Reads

variable {display : Value → String} {arguments : List Value} {expected given : Nat}

theorem bind_ne_error {α β : Type} {x : Except Fault α} {f : α → Except Fault β} {fault : Fault} (hx : x ≠ .error fault)
    (hf : ∀ a, f a ≠ .error fault) : x >>= f ≠ .error fault := by
  cases x with
  | ok a => exact hf a
  | error e =>
    rintro ⟨⟩
    exact hx rfl

theorem ListMethod.position_ne_arity {shown : String} {size : Nat} {v : Value} :
    position shown size v ≠ .error (.arity expected given) := by
  unfold position
  split
  · split
    · split <;> nofun
    · nofun
    · nofun
  · nofun

/-- A method of a list with as many arguments as it takes misses none. -/
theorem ListMethod.apply_ne_arity {m : ListMethod} {items : List Value} (fits : arguments.length = m.arity) :
    m.apply display items arguments ≠ .error (.arity expected given) := by
  cases m with
  | add =>
    obtain ⟨v, rfl⟩ := List.length_eq_one_iff.1 fits
    nofun
  | «at» | removeAt =>
    obtain ⟨i, rfl⟩ := List.length_eq_one_iff.1 fits
    exact bind_ne_error position_ne_arity nofun
  | setAt =>
    obtain ⟨i, v, rfl⟩ := List.length_eq_two.1 fits
    exact bind_ne_error position_ne_arity nofun
  | count =>
    obtain rfl := List.length_eq_zero_iff.1 fits
    nofun

theorem MapMethod.key_ne_arity {v : Value} : key v ≠ .error (.arity expected given) := by
  unfold key
  split <;> nofun

/-- A method of a map with as many arguments as it takes misses none. -/
theorem MapMethod.apply_ne_arity {m : MapMethod} {entries : Table Value.Key Value} (fits : arguments.length = m.arity) :
    m.apply display entries arguments ≠ .error (.arity expected given) := by
  cases m with
  | add =>
    obtain ⟨v, w, rfl⟩ := List.length_eq_two.1 fits
    refine bind_ne_error key_ne_arity fun k => ?_
    split <;> nofun
  | «at» =>
    obtain ⟨v, rfl⟩ := List.length_eq_one_iff.1 fits
    refine bind_ne_error key_ne_arity fun k => ?_
    split <;> nofun
  | setAt =>
    obtain ⟨v, w, rfl⟩ := List.length_eq_two.1 fits
    exact bind_ne_error key_ne_arity nofun
  | contains | remove =>
    obtain ⟨v, rfl⟩ := List.length_eq_one_iff.1 fits
    exact bind_ne_error key_ne_arity nofun
  | count =>
    obtain rfl := List.length_eq_zero_iff.1 fits
    nofun

end Reads

/-- The body of a native function finds the arguments that it reads. -/
def Native.Reads (n : Native) (arguments : List Value) : Prop :=
  match n.behaviour with
  | .clock | .input => arguments = []
  | .list m _ => ∀ display items expected given, m.apply display items arguments ≠ .error (.arity expected given)
  | .map m _ => ∀ display entries expected given, m.apply display entries arguments ≠ .error (.arity expected given)
  | .host _ _ => True

theorem Native.Fit.reads {n : Native} (fit : n.Fit) {arguments : List Value} (fits : arguments.length = n.arity) :
    n.Reads arguments := by
  obtain ⟨name, arity, behaviour⟩ := n
  cases behaviour with
  | clock | input => exact List.length_eq_zero_iff.1 (fits.trans fit)
  | list m items => exact fun _ _ _ _ => ListMethod.apply_ne_arity (fits.trans fit)
  | map m entries => exact fun _ _ _ _ => MapMethod.apply_ne_arity (fits.trans fit)
  | host tag cell => trivial

namespace Machine

theorem get?_foldl_insert (bindings : List (String × Value)) (x : String) :
    (bindings.foldl (fun t (name, value) => t.insert name value) Table.empty).get? x = bindings.reverse.lookup x := by
  induction bindings using List.reverseRecOn with
  | nil => rfl
  | append_singleton bindings b ih =>
    obtain ⟨name, value⟩ := b
    rw [List.foldl_append, List.reverse_append]
    simp only [List.foldl_cons, List.foldl_nil, Table.get?_insert, ih, List.reverse_singleton, List.singleton_append]
    split
    · next same => rw [same, List.lookup_cons_self]
    · next other => rw [List.lookup_cons, beq_false_of_ne other]

/-- The body of a closure runs in a new frame that binds its parameters to the arguments, and nothing else. Of parameters
with one name, the last counts. -/
structure State.BindsParameters (s : State) (c : Closure) (arguments : List Value) (u : State) : Prop where
  fresh : u.frame = s.store.frames.next
  enclosing : u.store.frames.enclosing u.frame = some c.frame
  bound : ∀ p ∈ c.routine.params, u.store.frames.Bound u.frame p.text
  value : ∀ x, u.store.frames.fetch u.frame x = ((c.routine.params.map Name.text).zip arguments).reverse.lookup x

theorem bindsParameters_enterClosure (s : State) (c : Closure) {arguments : List Value}
    (fits : arguments.length = c.arity) : s.BindsParameters c arguments (enterClosure s c arguments) := by
  have next : (enterClosure s c arguments).store.frames.get? s.store.frames.next =
      some ⟨((c.routine.params.map Name.text).zip arguments).foldl (fun t (name, value) => t.insert name value) .empty,
        some c.frame⟩ :=
    Heap.get?_alloc_next _ _
  have names : ((c.routine.params.map Name.text).zip arguments).map Prod.fst = c.routine.params.map Name.text :=
    List.map_fst_zip (by rw [List.length_map, fits, Closure.arity])
  have frame : (enterClosure s c arguments).frame = s.store.frames.next := rfl
  refine ⟨frame, ?_, fun p hp => ?_, fun x => ?_⟩
  · rw [frame, Frames.enclosing, next]
    rfl
  · rw [frame, Frames.Bound, Frames.fetch, next]
    refine Layout.bound_foldl (.inl ?_)
    rw [names]
    exact List.mem_map_of_mem hp
  · rw [frame, Frames.fetch, next]
    exact get?_foldl_insert _ x

/-- What is entered finds its arguments. A class hands them on to its constructor. -/
def State.Serves (host : Host) (s : State) (arguments : List Value) : Callee → Prop
  | .function (.closure c) => s.BindsParameters c arguments (step host s)
  | .function (.native n) => n.Reads arguments
  | .class _ c => ∀ f, c.constructor? = some f → arguments.length = f.arity

/-- Whatever is entered, in all annals, gets as many arguments as it takes, and so finds all that it reads. All work of the
sessions of a host is in the annals. -/
theorem calls_fit_arity {host : Host} (sparing : host.Sparing) :
    (∀ h s, Annals host h s → ∀ callee arguments, s.control = .enter callee arguments →
      arguments.length = callee.arity ∧ s.Serves host arguments callee) ∧
    ∀ session : Session, session.Reached host → ∀ control : Control, control.Begins →
      ∀ n, ∃ h, Annals host h (run host n (session.start control)) := by
  refine ⟨fun h s annals callee arguments hc => ?_, fun session reached control begins => reached.recorded.annals begins⟩
  have fits := annals.checked.arity callee arguments hc
  refine ⟨fits, ?_⟩
  rcases callee with (c | n) | ⟨r, c⟩
  · have entered : step host s = enterClosure s c arguments := by
      simp only [step, hc, enter]
    rw [State.Serves, entered]
    exact bindsParameters_enterClosure s c fits
  · obtain ⟨f, hf⟩ := annals.checked.known n arguments hc
    exact (annals.fit sparing f n hf).reads fits
  · intro f hf
    rw [fits, Callee.arity, ClassObject.arity, hf]

/-- A class hands its argument on to its constructor. -/
theorem calls_fit_arity_constructor :
    ∃ h s c, Annals Host.sample h s ∧ s.control = .enter (.function (.closure c)) [.text "a"] ∧
      [Value.text "a"].length = (Callee.function (.closure c)).arity ∧
      s.Serves Host.sample [.text "a"] (.function (.closure c)) := by
  have declaring : Annals Host.sample [] (.start ⟨Store.bare.withLibrary, ⟨#[], [], true, .zero⟩, .empty⟩
      (.execute (.class ⟨⟨"Box", 1⟩, none, [⟨⟨"construct", 1⟩, [⟨"x", 1⟩], []⟩], []⟩))) :=
    .library _ _ trivial
  have calling : Annals Host.sample _ (.start ⟨_, ⟨#[], [], true, .zero⟩, .empty⟩
      (.invoke (.class ⟨2⟩) [.text "a"] .host)) :=
    declaring.step.next _ _ (.refl _) trivial
  have constructing := calling.step.step
  exact ⟨_, _, _, constructing, rfl, (calls_fit_arity Host.sample_sparing).1 _ _ constructing _ _ rfl⟩

end Machine

end Scriptlet
