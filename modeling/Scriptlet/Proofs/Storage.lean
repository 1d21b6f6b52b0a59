import Scriptlet.Proofs.Equipment

/-!
Storage that the library keeps for its instances. A class gives each new instance storage of its own, and the methods of
that storage as properties. A `Storage` says what such storage holds and what the methods make of it. If it is lawful,
then over all annals of a session the contents of each storage are what the calls of its own methods have made of it, and
every call yields what the contents say.
-/
namespace Scriptlet

open Machine

namespace Heap

variable {kind : ObjectKind} {α : Type} (h : Heap kind α) (d : α)

theorem getD_alloc (r : Ref kind) : ((h.alloc d).get? r).getD d = (h.get? r).getD d := by
  rw [get?_alloc]
  split
  · next same =>
    subst same
    simp [get?, next]
  · rfl

theorem getD_set {r : Ref kind} (there : r.index < h.size) (a : α) (r' : Ref kind) :
    ((h.set r a).get? r').getD d = if r' = r then a else (h.get? r').getD d := by
  rw [get?_set]
  split
  · next same =>
    subst same
    simp [get?, Array.getElem?_eq_getElem there]
  · rfl

theorem getD_beyond {r : Ref kind} (beyond : h.size ≤ r.index) : (h.get? r).getD d = d := by
  rw [get?, Array.getElem?_eq_none beyond, Option.getD_none]

end Heap

/-- What the instances of a class have for storage: the methods as native functions, and what a method yields and leaves
behind for the contents and some arguments, if it does not fail. -/
structure Storage (kind : ObjectKind) (Method Contents : Type) where
  initializer : Initializer
  methods : List Method
  native : Method → Ref kind → Native
  method? : Behaviour → Option (Method × Ref kind)
  size : Store → Nat
  contents : Store → Ref kind → Contents
  empty : Contents
  on : Contents → Method → List Value → Option (Value × Contents)

/-- A state with the answer of a method: a value and a store, or a failure. -/
def Machine.State.answered (s : State) : Except Fault (Value × Store) → State
  | .ok (v, store) => { s with store }.give v
  | .error fault => s.go (.raise (.native fault))

namespace Storage

variable {kind : ObjectKind} {Method Contents : Type} (S : Storage kind Method Contents)

/-- The method and its arguments, where a method of this very storage is entered. -/
def call? (r : Ref kind) (s : State) : Option (Method × List Value) :=
  match s.control with
  | .enter (.function (.native n)) arguments =>
    match S.method? n.behaviour with
    | some (m, r') => if r' = r then some (m, arguments) else none
    | none => none
  | _ => none

/-- The new instance and its storage, where a class is entered whose instances have such storage. -/
def born? (s : State) : Option (Ref .object × Ref kind) :=
  match s.control with
  | .enter (.class _ c) _ =>
    if c.native.map NativeClass.initializer = some S.initializer then some (s.store.instances.next, ⟨S.size s.store⟩)
    else none
  | _ => none

/-- What calls, the latest first, make of empty storage. A call that fails changes nothing. -/
def after (calls : List (Method × List Value)) : Contents :=
  calls.foldr (fun (m, arguments) x => (S.on x m arguments).elim x Prod.snd) S.empty

/-- The storage is the same. -/
structure Same (s t : Store) : Prop where
  size : S.size t = S.size s
  contents : ∀ r, S.contents t r = S.contents s r

/-- Neither the storage nor its methods change. -/
structure Untouched (s t : Store) : Prop extends S.Same s t where
  function : ∀ f c, s.functions.get? f = some c → t.functions.get? f = some c
  native : ∀ f n, t.functions.get? f = some (.native n) → (S.method? n.behaviour).isSome →
    s.functions.get? f = some (.native n)
  instances : s.instances.size ≤ t.instances.size

/-- What a method answers: the value, and a store where only the contents of its own storage are other than before. -/
inductive Answers (s : Store) (r : Ref kind) (m : Method) (arguments : List Value) :
    Except Fault (Value × Store) → Prop
  | ok {v : Value} {x : Contents} {t : Store} : S.on (S.contents s r) m arguments = some (v, x) →
      t.functions = s.functions → t.instances = s.instances → S.size t = S.size s →
      (r.index < S.size s → ∀ r', S.contents t r' = if r' = r then x else S.contents s r') →
      Answers s r m arguments (.ok (v, t))
  | error (fault : Fault) : S.on (S.contents s r) m arguments = none → Answers s r m arguments (.error fault)

/-- The instance gets new storage, and its methods as properties. -/
structure Gains (s : Store) (object : Ref .object) (t : Store) : Prop where
  size : S.size t = S.size s + 1
  contents : ∀ r, S.contents t r = S.contents s r
  function : ∀ f c, s.functions.get? f = some c → t.functions.get? f = some c
  native : ∀ f n, t.functions.get? f = some (.native n) → (S.method? n.behaviour).isSome →
    s.functions.get? f = some (.native n) ∨ ∃ m, n = S.native m ⟨S.size s⟩
  instances : s.instances.size ≤ t.instances.size
  method : object.index < t.instances.size → ∀ m ∈ S.methods, t.HasMethod object (S.native m ⟨S.size s⟩)

/-- The description fits what the machine does. The storage is that of lists, or has nothing to do with lists; and so for
maps. -/
structure Lawful : Prop where
  decode : ∀ m r, S.method? (S.native m r).behaviour = some (m, r)
  foreign : ∀ b, (b = .clock ∨ b = .input ∨ ∃ tag cell, b = .host tag cell) → S.method? b = none
  bare : S.size Store.bare = 0
  beyond : ∀ s r, S.size s ≤ r.index → S.contents s r = S.empty
  apart : ∀ s t, t.lists = s.lists → t.maps = s.maps → S.Same s t
  lists : (S.initializer = .list ∧ ∀ m items, S.method? (.list m items) ≠ none) ∨
    (∀ m items, S.method? (.list m items) = none) ∧ ∀ s lists, S.Same s { s with lists }
  maps : (S.initializer = .map ∧ ∀ m entries, S.method? (.map m entries) ≠ none) ∨
    (∀ m entries, S.method? (.map m entries) = none) ∧ ∀ s maps, S.Same s { s with maps }
  arity : ∀ x m r arguments, S.on x m arguments ≠ none → arguments.length = (S.native m r).arity
  call : ∀ host s n m r arguments, S.method? n.behaviour = some (m, r) →
    ∃ answer, S.Answers s r m arguments answer ∧
      ∀ u : State, u.store = s → enterNative host u n arguments = u.answered answer
  prepare : ∀ host s object arguments, S.Gains s object (s.prepare host object arguments S.initializer).1

variable {S}

section Untouched

variable {s t u : Store}

theorem Same.untouched (h : S.Same s t) (functions : t.functions = s.functions) (instances : t.instances = s.instances) :
    S.Untouched s t where
  toSame := h
  function _ _ hf := functions ▸ hf
  native _ _ hf _ := functions ▸ hf
  instances := instances ▸ Nat.le_refl _

theorem Lawful.spared (lawful : S.Lawful) (h : s.Spares t) : S.Untouched s t where
  toSame := lawful.apart s t h.lists h.maps
  function := h.function
  native f n hf own := by
    rcases h.native f n hf with before | host
    · exact before
    · rw [lawful.foreign _ (.inr (.inr host))] at own
      cases own
  instances := h.instances

/-- Methods of other storage are new. -/
theorem Lawful.equipped (lawful : S.Lawful) {object : Ref .object} {natives : List Native} (h : s.Equips object natives t)
    (foreign : ∀ n ∈ natives, S.method? n.behaviour = none) : S.Untouched s t where
  toSame := lawful.apart s t h.lists h.maps
  function := h.function
  native f n hf own := by
    rcases h.native f n hf with before | new
    · exact before
    · rw [foreign n new] at own
      cases own
  instances := h.instances.ge

theorem Untouched.trans (h : S.Untouched s t) (h' : S.Untouched t u) : S.Untouched s u where
  size := h'.size.trans h.size
  contents r := (h'.contents r).trans (h.contents r)
  function f c hf := h'.function f c (h.function f c hf)
  native f n hf own := h.native f n (h'.native f n hf own) own
  instances := Nat.le_trans h.instances h'.instances

theorem Untouched.gains {object : Ref .object} (h : S.Untouched s t) (h' : S.Gains t object u) : S.Gains s object u where
  size := by rw [h'.size, h.size]
  contents r := (h'.contents r).trans (h.contents r)
  function f c hf := h'.function f c (h.function f c hf)
  native f n hf own := by
    rw [← h.size]
    exact (h'.native f n hf own).imp_left fun before => h.native f n before own
  instances := Nat.le_trans h.instances h'.instances
  method := h.size ▸ h'.method

theorem Gains.untouched {object : Ref .object} (h : S.Gains s object t) (h' : S.Untouched t u)
    (instances : u.instances = t.instances) (property : ∀ name, u.property? object name = t.property? object name) :
    S.Gains s object u where
  size := h'.size.trans h.size
  contents r := (h'.contents r).trans (h.contents r)
  function f c hf := h'.function f c (h.function f c hf)
  native f n hf own := h.native f n (h'.native f n hf own) own
  instances := Nat.le_trans h.instances h'.instances
  method there m hm := by
    obtain ⟨f, hp, hf⟩ := h.method (instances ▸ there) m hm
    exact ⟨f, (property _).trans hp, h'.function f _ hf⟩

end Untouched

section Others

variable {host : Host}

/-- Functions that are no methods of such storage leave it alone. -/
theorem Lawful.otherCall (lawful : S.Lawful) (sparing : host.Sparing) (s : State) {n : Native} (arguments : List Value)
    (other : S.method? n.behaviour = none) : S.Untouched s.store (enterNative host s n arguments).store := by
  cases behaviour : n.behaviour with
  | list m items =>
    rw [behaviour] at other
    obtain ⟨-, same⟩ := lawful.lists.resolve_left fun own => own.2 m items other
    simp only [enterNative, behaviour]
    split
    · exact (same _ _).untouched rfl rfl
    · exact lawful.spared (.refl _)
  | map m entries =>
    rw [behaviour] at other
    obtain ⟨-, same⟩ := lawful.maps.resolve_left fun own => own.2 m entries other
    simp only [enterNative, behaviour]
    split
    · exact (same _ _).untouched rfl rfl
    · exact lawful.spared (.refl _)
  | clock => exact lawful.spared (spares_enterNative sparing s arguments (.inl behaviour))
  | input => exact lawful.spared (spares_enterNative sparing s arguments (.inr (.inl behaviour)))
  | host tag cell => exact lawful.spared (spares_enterNative sparing s arguments (.inr (.inr ⟨tag, cell, behaviour⟩)))

/-- Instances that have other storage, or none, get it without a change of this one. -/
theorem Lawful.otherPrepare (lawful : S.Lawful) (sparing : host.Sparing) (s : Store) (object : Ref .object)
    (arguments : List Value) {i : Initializer} (other : i ≠ S.initializer) :
    S.Untouched s (s.prepare host object arguments i).1 := by
  cases i with
  | list =>
    obtain ⟨foreign, same⟩ := lawful.lists.resolve_left fun own => other own.1.symm
    refine ((same s (s.lists.alloc [])).untouched rfl rfl).trans (lawful.equipped (s.equips_prepareList object) ?_)
    rintro n new
    obtain ⟨m, -, rfl⟩ := List.mem_map.1 new
    exact foreign m _
  | map =>
    obtain ⟨foreign, same⟩ := lawful.maps.resolve_left fun own => other own.1.symm
    refine ((same s (s.maps.alloc .empty)).untouched rfl rfl).trans (lawful.equipped (s.equips_prepareMap object) ?_)
    rintro n new
    obtain ⟨m, -, rfl⟩ := List.mem_map.1 new
    exact foreign m _
  | host tag => exact lawful.spared (sparing.prepare tag object arguments s)

end Others

section Equips

variable {s s₀ t : Store} {object : Ref .object}

/-- New storage with its methods. -/
theorem Gains.of_equips (h : s₀.Equips object (S.methods.map (S.native · ⟨S.size s⟩)) t)
    (functions : s₀.functions = s.functions) (instances : s₀.instances = s.instances) (size : S.size t = S.size s + 1)
    (contents : ∀ r, S.contents t r = S.contents s r)
    (names : ((S.methods.map (S.native · ⟨S.size s⟩)).map Native.name).Nodup) : S.Gains s object t where
  size := size
  contents := contents
  function := functions ▸ h.function
  native f n hf _ := by
    rcases h.native f n hf with before | new
    · exact .inl (functions ▸ before)
    · obtain ⟨m, -, rfl⟩ := List.mem_map.1 new
      exact .inr ⟨m, rfl⟩
  instances := instances ▸ h.instances.ge
  method there m hm := h.method (h.instances ▸ there) names _ (List.mem_map_of_mem hm)

end Equips

/-- The answer of a method that puts a new object in the place of the storage. -/
theorem Answers.of_result {s : Store} {r : Ref kind} {m : Method} {arguments : List Value} {α : Type}
    {result : Except Fault (Value × α)} (view : α → Contents) (put : α → Store)
    (on : result.toOption.map (Prod.map id view) = S.on (S.contents s r) m arguments)
    (functions : ∀ a, (put a).functions = s.functions) (instances : ∀ a, (put a).instances = s.instances)
    (size : ∀ a, S.size (put a) = S.size s)
    (contents : r.index < S.size s → ∀ a r', S.contents (put a) r' = if r' = r then view a else S.contents s r') :
    S.Answers s r m arguments (result.map (Prod.map id put)) := by
  rcases result with fault | ⟨v, a⟩
  · exact .error fault on.symm
  · exact .ok on.symm (functions a) (instances a) (size a) fun there => contents there a

section Step

variable {host : Host} {s : State}

/-- A step that neither enters a method of such storage nor makes any leaves all of it alone. -/
theorem Lawful.untouched_step (lawful : S.Lawful) (sparing : host.Sparing) (calls : ∀ r, S.call? r s = none)
    (born : S.born? s = none) : S.Untouched s.store (step host s).store := by
  rcases step_store host s with spares | ⟨n, arguments, hc, entered⟩ | ⟨r, c, arguments, hc, entered⟩
  · exact lawful.spared spares
  · rw [entered]
    refine lawful.otherCall sparing s arguments (Option.eq_none_iff_forall_ne_some.2 ?_)
    rintro ⟨m, r⟩ found
    have called := calls r
    simp only [call?, hc, found, if_true, reduceCtorEq] at called
  · rw [entered]
    have added := lawful.spared (Store.Spares.addInstance s.store r)
    refine Untouched.trans ?_ (lawful.spared (spares_enterClass host s r c arguments))
    unfold prepared
    split
    · next native hn =>
      refine added.trans (lawful.otherPrepare sparing _ _ arguments fun own => ?_)
      simp only [born?, hc, hn, Option.map_some, own, if_true, reduceCtorEq] at born
    · exact added

/-- A method that is entered answers as the contents say. -/
theorem Lawful.call_step (lawful : S.Lawful) (host : Host) {n : Native} {arguments : List Value} {m : Method}
    {r : Ref kind} (hc : s.control = .enter (.function (.native n)) arguments)
    (own : S.method? n.behaviour = some (m, r)) :
    ∃ answer, S.Answers s.store r m arguments answer ∧ step host s = s.answered answer := by
  obtain ⟨answer, answers, entered⟩ := lawful.call host s.store n m r arguments own
  refine ⟨answer, answers, ?_⟩
  simp only [step, hc, enter]
  exact entered s rfl

section EnterClass

variable (host s) (r : Ref .classObject) (c : ClassObject) (arguments : List Value)

theorem instances_enterClass :
    (enterClass host s r c arguments).store.instances = (prepared host s.store r c arguments).1.instances := by
  rw [enterClass_eq]
  dsimp only
  split <;> rfl

theorem property?_enterClass (object : Ref .object) (name : String) :
    (enterClass host s r c arguments).store.property? object name =
      (prepared host s.store r c arguments).1.property? object name := by
  rw [enterClass_eq]
  dsimp only
  split <;> rfl

end EnterClass

/-- A new instance gets storage that no instance has had, and all methods of it. -/
theorem Lawful.born_step (lawful : S.Lawful) (host : Host) {object : Ref .object} {r : Ref kind}
    (born : S.born? s = some (object, r)) :
    object = s.store.instances.next ∧ r = ⟨S.size s.store⟩ ∧
      object.index < (step host s).store.instances.size ∧ S.Gains s.store object (step host s).store := by
  unfold born? at born
  split at born
  · next cr c arguments hc =>
    split at born
    · next own =>
      obtain ⟨native, hn, initializer⟩ := Option.map_eq_some_iff.1 own
      cases born
      have entered : step host s = enterClass host s cr c arguments := by
        simp only [step, hc, enter]
      have same : (prepared host s.store cr c arguments).1 =
          ((s.store.addInstance cr).2.prepare host s.store.instances.next arguments S.initializer).1 := by
        simp only [prepared, hn, initializer]
        rfl
      have added := lawful.spared (Store.Spares.addInstance s.store cr)
      have gains : S.Gains (s.store.addInstance cr).2 _ (prepared host s.store cr c arguments).1 :=
        same ▸ lawful.prepare host (s.store.addInstance cr).2 s.store.instances.next arguments
      have instances := instances_enterClass host s cr c arguments
      have after := gains.untouched (lawful.spared (spares_enterClass host s cr c arguments)) instances
        (property?_enterClass host s cr c arguments _)
      have there : s.store.instances.size < (s.store.addInstance cr).2.instances.size := by
        rw [show (s.store.addInstance cr).2.instances.size = s.store.instances.size + 1 from Heap.size_alloc _ _]
        exact Nat.lt_succ_self _
      rw [entered]
      exact ⟨rfl, rfl, Nat.lt_of_lt_of_le there after.instances, added.gains after⟩
    · cases born
  · cases born

theorem call?_eq_some {r : Ref kind} {m : Method} {arguments : List Value} :
    S.call? r s = some (m, arguments) ↔
      ∃ n, s.control = .enter (.function (.native n)) arguments ∧ S.method? n.behaviour = some (m, r) := by
  constructor
  · intro called
    unfold call? at called
    split at called
    · next n arguments' hc =>
      split at called
      · next m' r' own =>
        split at called
        · next same =>
          cases called
          exact ⟨n, hc, same ▸ own⟩
        · cases called
      · cases called
    · cases called
  · rintro ⟨n, hc, own⟩
    simp only [call?, hc, own, if_true]

/-- At most one storage is called in a step, and none is made in it. -/
theorem call?_unique {r : Ref kind} {m : Method} {arguments : List Value} (called : S.call? r s = some (m, arguments)) :
    (∀ r', r' ≠ r → S.call? r' s = none) ∧ S.born? s = none := by
  obtain ⟨n, hc, own⟩ := call?_eq_some.1 called
  refine ⟨fun r' other => ?_, ?_⟩
  · simp only [call?, hc, own, if_neg other.symm]
  · simp only [born?, hc]

end Step

variable (S) in
/-- What the annals say about a store: the contents of each storage, whose methods there are, which storage has been
made, and that functions last. -/
structure Ledger (h : List State) (s : Store) : Prop where
  contents : ∀ r, S.contents s r = S.after (h.filterMap (S.call? r))
  own : ∀ f n m r, s.functions.get? f = some (.native n) → S.method? n.behaviour = some (m, r) →
    n = S.native m r ∧ ∃ object, (object, r) ∈ h.filterMap S.born?
  born : ∀ object r, (object, r) ∈ h.filterMap S.born? → object.index < s.instances.size ∧ r.index < S.size s
  lasting : ∀ u ∈ h, ∀ f c, u.store.functions.get? f = some c → s.functions.get? f = some c

section Ledger

variable {host : Host} {h : List State} {s : State}

/-- What leaves the storage alone needs no entry. -/
theorem Ledger.untouched {s t : Store} (ledger : S.Ledger h s) (untouched : S.Untouched s t) : S.Ledger h t where
  contents r := (untouched.contents r).trans (ledger.contents r)
  own f n m r hf own := ledger.own f n m r (untouched.native f n hf (own ▸ rfl)) own
  born object r made := by
    obtain ⟨first, second⟩ := ledger.born object r made
    exact ⟨Nat.lt_of_lt_of_le first untouched.instances, untouched.size ▸ second⟩
  lasting u hu f c hf := untouched.function f c (ledger.lasting u hu f c hf)

/-- A state may be entered where no storage is called or made. -/
theorem Ledger.idle (ledger : S.Ledger h s.store) (calls : ∀ r, S.call? r s = none) (born : S.born? s = none) :
    S.Ledger (s :: h) s.store where
  contents r := by
    rw [List.filterMap_cons_none (calls r)]
    exact ledger.contents r
  own := by
    rw [List.filterMap_cons_none born]
    exact ledger.own
  born := by
    rw [List.filterMap_cons_none born]
    exact ledger.born
  lasting := List.forall_mem_cons.2 ⟨fun _ _ hf => hf, ledger.lasting⟩

theorem after_cons (m : Method) (arguments : List Value) (calls : List (Method × List Value)) :
    S.after ((m, arguments) :: calls) = (S.on (S.after calls) m arguments).elim (S.after calls) Prod.snd :=
  rfl

/-- A call is entered for its own storage. -/
theorem Ledger.called (ledger : S.Ledger h s.store) {r : Ref kind} {m : Method} {arguments : List Value}
    (called : S.call? r s = some (m, arguments)) (there : r.index < S.size s.store) {answer : Except Fault (Value × Store)}
    (answers : S.Answers s.store r m arguments answer) : S.Ledger (s :: h) (s.answered answer).store := by
  have unique := call?_unique called
  have others (r' : Ref kind) (ne : r' ≠ r) : S.after ((s :: h).filterMap (S.call? r')) = S.contents s.store r' := by
    rw [List.filterMap_cons_none (unique.1 r' ne), ledger.contents r']
  have this : S.after ((s :: h).filterMap (S.call? r)) =
      (S.on (S.contents s.store r) m arguments).elim (S.contents s.store r) Prod.snd := by
    rw [List.filterMap_cons_some called, after_cons, ledger.contents r]
  have lasting : ∀ u ∈ s :: h, ∀ f c, u.store.functions.get? f = some c → s.store.functions.get? f = some c :=
    List.forall_mem_cons.2 ⟨fun _ _ hf => hf, ledger.lasting⟩
  have made := List.filterMap_cons_none (l := h) unique.2
  cases answers with
  | ok on functions instances size contents =>
    refine ⟨fun r' => ?_, ?_, ?_, ?_⟩
    · refine (contents there r').trans ?_
      split
      · next same =>
        rw [same, this, on]
        rfl
      · next ne => exact (others r' ne).symm
    · rw [made]
      intro f n m r hf
      exact ledger.own f n m r (functions ▸ hf)
    · rw [made]
      intro object r hb
      obtain ⟨first, second⟩ := ledger.born object r hb
      exact ⟨instances ▸ first, size ▸ second⟩
    · intro u hu f c hf
      exact functions ▸ lasting u hu f c hf
  | error fault on =>
    refine ⟨fun r' => ?_, made ▸ ledger.own, made ▸ ledger.born, lasting⟩
    by_cases same : r' = r
    · rw [same, this, on]
      rfl
    · exact (others r' same).symm

/-- New storage is nobody else's. -/
theorem Ledger.fresh {s : Store} (ledger : S.Ledger h s) :
    ∀ b ∈ h.filterMap S.born?, b.1 ≠ s.instances.next ∧ b.2 ≠ ⟨S.size s⟩ := by
  rintro ⟨object, r⟩ made
  obtain ⟨first, second⟩ := ledger.born object r made
  refine ⟨?_, ?_⟩
  · rintro rfl
    exact Nat.lt_irrefl _ first
  · rintro rfl
    exact Nat.lt_irrefl _ second

theorem Ledger.made (lawful : S.Lawful) (ledger : S.Ledger h s.store) {object : Ref .object} {r : Ref kind}
    (born : S.born? s = some (object, r)) : S.Ledger (s :: h) (step host s).store := by
  obtain ⟨-, hr, there, gains⟩ := lawful.born_step host born
  have calls (r' : Ref kind) : S.call? r' s = none := by
    refine Option.eq_none_iff_forall_ne_some.2 fun _ called => ?_
    rw [(call?_unique called).2] at born
    cases born
  have made : (s :: h).filterMap S.born? = (object, r) :: h.filterMap S.born? := List.filterMap_cons_some born
  refine ⟨fun r' => ?_, fun f n m r' hf own => ?_, ?_, ?_⟩
  · rw [List.filterMap_cons_none (calls r')]
    exact (gains.contents r').trans (ledger.contents r')
  · rw [made]
    rcases gains.native f n hf (own ▸ rfl) with before | ⟨m', rfl⟩
    · obtain ⟨same, owner, mem⟩ := ledger.own f n m r' before own
      exact ⟨same, owner, .tail _ mem⟩
    · rw [lawful.decode] at own
      cases own
      exact ⟨rfl, object, hr ▸ (.head _)⟩
  · rw [made]
    rintro object' r' mem
    rcases List.mem_cons.1 mem with new | old
    · cases new
      refine ⟨there, ?_⟩
      rw [gains.size, hr]
      exact Nat.lt_succ_self _
    · obtain ⟨first, second⟩ := ledger.born object' r' old
      refine ⟨Nat.lt_of_lt_of_le first gains.instances, ?_⟩
      rw [gains.size]
      exact Nat.lt_succ_of_lt second
  · exact List.forall_mem_cons.2 ⟨gains.function, fun u hu f c hf => gains.function f c (ledger.lasting u hu f c hf)⟩

theorem Ledger.step (lawful : S.Lawful) (sparing : host.Sparing) (checked : s.Checked) (ledger : S.Ledger h s.store) :
    S.Ledger (s :: h) (step host s).store := by
  cases born : S.born? s with
  | some b => exact ledger.made lawful born
  | none =>
    by_cases calls : ∀ r, S.call? r s = none
    · exact (ledger.idle calls born).untouched (lawful.untouched_step sparing calls born)
    · obtain ⟨r, some⟩ := not_forall.1 calls
      obtain ⟨⟨m, arguments⟩, called⟩ := Option.ne_none_iff_exists'.1 some
      obtain ⟨n, hc, own⟩ := call?_eq_some.1 called
      -- The function that is entered is one of the store, so its storage has been made.
      obtain ⟨f, hf⟩ := checked.known n arguments hc
      obtain ⟨-, object, mem⟩ := ledger.own f n m r hf own
      obtain ⟨answer, answers, entered⟩ := lawful.call_step host hc own
      rw [entered]
      exact ledger.called called (ledger.born object r mem).2 answers

/-- All annals are kept. -/
theorem Lawful.ledger (lawful : S.Lawful) (sparing : host.Sparing) (annals : Annals host h s) :
    S.Ledger h s.store := by
  induction annals with
  | first console distances begins =>
    refine ⟨fun r => lawful.beyond _ r (lawful.bare.trans_le (Nat.zero_le _)), fun f n m r hf own => ?_, nofun, nofun⟩
    have foreign : S.method? n.behaviour = none := by
      rcases Store.native_bare hf with rfl | rfl
      · exact lawful.foreign _ (.inl rfl)
      · exact lawful.foreign _ (.inr (.inl rfl))
    rw [foreign] at own
    cases own
  | step annals ih => exact ih.step lawful sparing annals.checked
  | feed console annals ih => exact ih
  | next console distances annals spares begins ih => exact ih.untouched (lawful.spared spares)

end Ledger

section Call

variable {host : Host} {s : State} {f : Ref .function} {n : Native} {arguments : List Value} {site : Site}

/-- A call of a function with a wrong number of arguments fails at once. -/
theorem refused_call (host : Host) (hc : s.control = .invoke (.function f) arguments site)
    (hf : s.store.functions.get? f = some (.native n)) (misfit : arguments.length ≠ n.arity) :
    ∃ e, step host s = s.go (.raise e) := by
  have known : s.store.callee? (.function f) = some (.function (.native n)) := by
    simp only [Store.callee?, hf, Option.map_some]
  have refused : ¬ arguments.length = (Callee.function (.native n)).arity := misfit
  cases site <;>
  · simp only [step, hc, invoke, known, if_neg refused]
    exact ⟨_, rfl⟩

/-- A function that answers in one step gives its answer to the caller. -/
theorem answered_call (hc : s.control = .invoke (.function f) arguments site)
    (hf : s.store.functions.get? f = some (.native n)) (fits : arguments.length = n.arity)
    {answer : Except Fault (Value × Store)}
    (entered : ∀ u : State, u.store = s.store → enterNative host u n arguments = u.answered answer) :
    ∃ k, (run host k s).pending = s.pending ∧
      ((∃ v t, answer = .ok (v, t) ∧ (run host k s).control = .value v ∧ (run host k s).store = t) ∨
        ∃ fault e, answer = .error fault ∧ (run host k s).control = .raise e ∧ (run host k s).store = s.store) := by
  have known : s.store.callee? (.function f) = some (.function (.native n)) := by
    simp only [Store.callee?, hf, Option.map_some]
  have passed : arguments.length = (Callee.function (.native n)).arity := fits
  cases site with
  | script line =>
    have first : step host s = s.push (.site line) (.enter (.function (.native n)) arguments) := by
      simp only [step, hc, invoke, known, if_pos passed]
    have second : run host 2 s = (s.push (.site line) (.enter (.function (.native n)) arguments)).answered answer := by
      rw [run_step, run_step]
      exact (congrArg (step host) first).trans (entered _ rfl)
    refine ⟨3, ?_⟩
    rw [run_step, second]
    rcases answer with fault | ⟨v, t⟩
    · exact ⟨rfl, .inr ⟨fault, _, rfl, rfl, rfl⟩⟩
    · exact ⟨rfl, .inl ⟨v, t, rfl, rfl, rfl⟩⟩
  | host =>
    have first : step host s = s.go (.enter (.function (.native n)) arguments) := by
      simp only [step, hc, invoke, known, if_pos passed]
    have second : run host 2 s = (s.go (.enter (.function (.native n)) arguments)).answered answer := by
      rw [run_step, run_step]
      exact (congrArg (step host) first).trans (entered _ rfl)
    refine ⟨2, ?_⟩
    rw [second]
    rcases answer with fault | ⟨v, t⟩
    · exact ⟨rfl, .inr ⟨fault, _, rfl, rfl, rfl⟩⟩
    · exact ⟨rfl, .inl ⟨v, t, rfl, rfl, rfl⟩⟩

end Call

variable (S) in
/-- What comes of a call: the value that the contents give, and new contents for this storage alone; or a failure, with
nothing changed. -/
def Settles (r : Ref kind) (s u : State) : Option (Value × Contents) → Prop
  | some (v, x) => u.control = .value v ∧ ∀ r', S.contents u.store r' = if r' = r then x else S.contents s.store r'
  | none => (∃ e, u.control = .raise e) ∧ u.store = s.store

variable (S) in
/-- The machine keeps the storage, in a state and with the annals up to it. The contents of each storage are what the calls
of its own methods have made of it (`contents`), and a call from a script, from a subscript or from the host yields what
the contents say (`call`, `subscript`). No other step changes contents (`other`), nor does an assignment to a field
(`assigned`). A new instance has methods for storage of its own, which is empty (`born`). Every method there is belongs
to an instance, however it has been kept (`own`, `lasting`). -/
structure Faithful (host : Host) (h : List State) (s : State) : Prop where
  contents : ∀ r, S.contents s.store r = S.after (h.filterMap (S.call? r))
  call : ∀ f n m r arguments site, s.control = .invoke (.function f) arguments site →
    s.store.functions.get? f = some (.native n) → S.method? n.behaviour = some (m, r) →
    ∃ k, (run host k s).pending = s.pending ∧ S.Settles r s (run host k s) (S.on (S.contents s.store r) m arguments)
  subscript : ∀ object line rest position f, s.control = .value position →
    s.pending = .index (.instance object) line :: rest → s.store.property? object "at" = some (.value (.function f)) →
    step host s = { s with control := .invoke (.function f) [position] (.script line), pending := rest }
  other : (∀ r, S.call? r s = none) → ∀ r, S.contents (step host s).store r = S.contents s.store r
  assigned : ∀ object name v r, S.contents (s.store.setField object name v) r = S.contents s.store r
  born : ∀ object r, S.born? s = some (object, r) →
    (∀ b ∈ h.filterMap S.born?, b.1 ≠ object ∧ b.2 ≠ r) ∧ S.contents (step host s).store r = S.empty ∧
      ∀ m ∈ S.methods, (step host s).store.HasMethod object (S.native m r)
  own : ∀ f n m r, s.store.functions.get? f = some (.native n) → S.method? n.behaviour = some (m, r) →
    n = S.native m r ∧ ∃ object, (object, r) ∈ h.filterMap S.born?
  lasting : ∀ u ∈ h, ∀ f c, u.store.functions.get? f = some c → s.store.functions.get? f = some c

section Faithful

variable {host : Host} {h : List State} {s : State}

/-- A call of a method is over after a few steps, as the contents say. -/
theorem Ledger.call (lawful : S.Lawful) (ledger : S.Ledger h s.store) {f : Ref .function} {n : Native} {m : Method}
    {r : Ref kind} {arguments : List Value} {site : Site} (hc : s.control = .invoke (.function f) arguments site)
    (hf : s.store.functions.get? f = some (.native n)) (own : S.method? n.behaviour = some (m, r)) :
    ∃ k, (run host k s).pending = s.pending ∧ S.Settles r s (run host k s) (S.on (S.contents s.store r) m arguments) := by
  obtain ⟨rfl, object, made⟩ := ledger.own f n m r hf own
  by_cases fits : arguments.length = (S.native m r).arity
  · obtain ⟨answer, answers, entered⟩ := lawful.call host s.store _ m r arguments own
    obtain ⟨k, pending, result⟩ := answered_call hc hf fits entered
    refine ⟨k, pending, ?_⟩
    rcases result with ⟨v, t, rfl, control, store⟩ | ⟨fault, e, rfl, control, store⟩
    · cases answers with
      | ok on functions instances size contents =>
        rw [on]
        exact ⟨control, store ▸ contents (ledger.born object r made).2⟩
    · cases answers with
      | error fault on =>
        rw [on]
        exact ⟨⟨e, control⟩, store⟩
  · obtain ⟨e, raised⟩ := refused_call host hc hf fits
    have fails : S.on (S.contents s.store r) m arguments = none := by
      by_contra some
      exact fits (lawful.arity _ m r arguments some)
    refine ⟨1, ?_⟩
    rw [run_step, fails]
    change (Machine.step host s).pending = _ ∧ S.Settles r s (Machine.step host s) none
    rw [raised]
    exact ⟨rfl, ⟨e, rfl⟩, rfl⟩

/-- Over all annals, lawful storage is kept. -/
theorem Lawful.faithful (lawful : S.Lawful) (sparing : host.Sparing) (annals : Annals host h s) :
    S.Faithful host h s := by
  have ledger := lawful.ledger sparing annals
  refine ⟨ledger.contents, fun _ _ _ _ _ _ => ledger.call lawful, ?_, ?_, ?_, ?_, ledger.own, ledger.lasting⟩
  · intro object line rest position f hc hp property
    obtain ⟨world, control, frame, pending⟩ := s
    cases hc
    cases hp
    simp only [step, resume, subscript, property]
    rfl
  · intro calls r
    cases born : S.born? s with
    | none => exact (lawful.untouched_step sparing calls born).contents r
    | some b =>
      obtain ⟨-, -, -, gains⟩ := lawful.born_step host born
      exact gains.contents r
  · intro object name v
    exact (lawful.spared (.setField s.store object name v)).contents
  · intro object r born
    obtain ⟨rfl, rfl, there, gains⟩ := lawful.born_step host born
    refine ⟨ledger.fresh, ?_, gains.method there⟩
    rw [gains.contents, lawful.beyond _ _ (Nat.le_refl _)]

end Faithful

end Storage

end Scriptlet
