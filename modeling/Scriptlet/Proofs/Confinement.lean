import Scriptlet.Proofs.Isolation
import Scriptlet.Proofs.Reachability

/-!
Work inside of a realm stays inside. The values at hand and those that are pending are inside, and so is every frame in
which something is done, before a step and after it. Only the frame of a caller may be outside; it is current where
nothing but the end of a call is left to do.

So calls are local: a call starts inside of the fence around what the callee, the arguments and the outermost frame lead
to, and no step of it leads out.
-/
namespace Scriptlet.Machine

section Inside

variable {hosted : Prop} {A B : Set Object}

def Flow.Inside (A : Set Object) : Flow → Prop
  | .return v => v.Inside A
  | _ => True

/-- The values at hand are inside. -/
def Control.Inside (hosted : Prop) (A : Set Object) : Control → Prop
  | .invoke callee arguments _ => callee.Inside A ∧ ∀ v ∈ arguments, v.Inside A
  | .enter callee arguments => callee.Inside hosted A ∧ ∀ v ∈ arguments, v.Inside A
  | .value v => v.Inside A
  | .flow f => Flow.Inside A f
  | _ => True

/-- Something that looks at the current frame is done now. -/
def Control.Local : Control → Prop
  | .evaluate _ | .execute _ | .sequence _ | .program _ => True
  | _ => False

/-- What the work has kept is inside. -/
def Pending.Inside (A : Set Object) : Pending → Prop
  | .binary left _ => left.Inside A
  | .arguments f done _ _ => f.Inside A ∧ ∀ v ∈ done, v.Inside A
  | .setField object _ => ⟨.object, object⟩ ∈ A
  | .updateField object _ current _ => ⟨.object, object⟩ ∈ A ∧ current.Inside A
  | .index object _ => object.Inside A
  | .body c _ => ⟨.frame, c.frame⟩ ∈ A
  | .constructed object => ⟨.object, object⟩ ∈ A
  | _ => True

theorem Pending.Inside.mono {p : Pending} (h : p.Inside A) (kept : A ⊆ B) : p.Inside B := by
  cases p with
  | binary left _ | index left _ => exact Value.Inside.mono h kept
  | arguments => exact ⟨h.1.mono kept, fun v hv => (h.2 v hv).mono kept⟩
  | setField | body | constructed => exact kept h
  | updateField => exact ⟨kept h.1, h.2.mono kept⟩
  | _ => trivial

/-- All that is pending is inside, with the frames in which it will be done. Where a call ends, the current frame may be
that of the caller. -/
def Waits (A : Set Object) : Ref .frame → List Pending → Prop
  | _, [] => True
  | f, p :: ps => p.Inside A ∧ (¬ p.EndsCall → ⟨.frame, f⟩ ∈ A) ∧ Waits A (p.after f) ps

theorem Waits.mono (kept : A ⊆ B) {f : Ref .frame} {ps : List Pending} (h : Waits A f ps) : Waits B f ps := by
  induction ps generalizing f with
  | nil => trivial
  | cons p ps ih => exact ⟨h.1.mono kept, fun inner => kept (h.2.1 inner), ih h.2.2⟩

/-- All that is pending is inside. -/
structure Away (R : Realm) (s : State) : Prop where
  store : R.Holds s.store
  pending : Waits (R s.store) s.frame s.pending

/-- All that is pending is inside, with the current frame. -/
structure Open (R : Realm) (s : State) : Prop extends Away R s where
  frame : ⟨.frame, s.frame⟩ ∈ R s.store

/-- All that is done or pending is inside. -/
structure Confined (R : Realm) (s : State) : Prop extends Away R s where
  control : s.control.Inside R.hosted (R s.store)
  frame : s.control.Local → ⟨.frame, s.frame⟩ ∈ R s.store

/-- Work of a body is done in a frame inside. -/
theorem Waits.inner {f : Ref .frame} {p : Pending} {ps : List Pending} (h : Waits A f (p :: ps)) (inner : ¬ p.EndsCall)
    (stays : p.after f = f) : p.Inside A ∧ ⟨.frame, f⟩ ∈ A ∧ Waits A f ps := by
  obtain ⟨inside, frame, rest⟩ := h
  rw [stays] at rest
  exact ⟨inside, frame inner, rest⟩

end Inside

section Operators

variable {A : Set Object} {v w r : Value}

theorem unary_inside {op : Token} (h : unary op v = .ok r) : r.Inside A := by
  unfold unary at h
  split at h
  · cases h
    exact Value.inside_of_none rfl
  · cases h
  · cases h
    exact Value.inside_of_none rfl
  · cases h

theorem onNumbers_inside {f : Number → Number → Value} (plain : ∀ x y, (f x y).target? = none)
    (h : onNumbers f v w = .ok r) : r.Inside A := by
  unfold onNumbers at h
  split at h
  · cases h
    exact Value.inside_of_none (plain _ _)
  · cases h

theorem add_inside {store : Store} (h : add store v w = .ok r) : r.Inside A := by
  unfold add at h
  split at h <;> cases h <;> exact Value.inside_of_none rfl

/-- Of all operators only the comma gives an operand back. -/
theorem binary_inside {store : Store} {op : Token} (hw : w.Inside A) (h : binary store op v w = .ok r) : r.Inside A := by
  unfold binary at h
  split at h
  · cases h
    exact hw
  · cases h
    exact Value.inside_of_none rfl
  · cases h
    exact Value.inside_of_none rfl
  · exact add_inside h
  all_goals first
    | exact onNumbers_inside (fun _ _ => rfl) h
    | cases h

theorem textAt_inside {text : String} (h : textAt text v = .ok r) : r.Inside A := by
  unfold textAt at h
  split at h
  · cases h
  · split at h
    · cases h
      exact Value.inside_of_none rfl
    · cases h

end Operators

section Steps

variable {R : Realm} {host : Host} {s : State}

namespace Away

theorem withStore (h : Away R s) {store : Store} (enlarged : R.Enlarged s.store store) : Away R { s with store } :=
  ⟨enlarged.holds, h.pending.mono enlarged.kept⟩

/-- Where nothing looks at the current frame, it does not matter. -/
theorem go (h : Away R s) {c : Control} (inside : c.Inside R.hosted (R s.store)) (away : ¬ c.Local) :
    Confined R (s.go c) :=
  ⟨⟨h.store, h.pending⟩, inside, fun here => absurd here away⟩

theorem give (h : Away R s) {v : Value} (inside : v.Inside (R s.store)) : Confined R (s.give v) := h.go inside id

theorem fail (h : Away R s) (e : Failure) : Confined R (s.go (.raise e)) := h.go trivial id

theorem push (h : Away R s) {p : Pending} {c : Control} (ends : p.EndsCall) (hp : p.Inside (R s.store))
    (stays : p.after s.frame = s.frame) (inside : c.Inside R.hosted (R s.store)) (away : ¬ c.Local) :
    Confined R (s.push p c) := by
  refine ⟨⟨h.store, hp, absurd ends, ?_⟩, inside, fun here => absurd here away⟩
  rw [show p.after (s.push p c).frame = s.frame from stays]
  exact h.pending

end Away

namespace Open

theorem withStore (h : Open R s) {store : Store} (enlarged : R.Enlarged s.store store) : Open R { s with store } :=
  ⟨h.toAway.withStore enlarged, enlarged.kept h.frame⟩

theorem go (h : Open R s) {c : Control} (inside : c.Inside R.hosted (R s.store)) : Confined R (s.go c) :=
  ⟨⟨h.store, h.pending⟩, inside, fun _ => h.frame⟩

theorem answer (h : Open R s) (line : Nat) {result : Except Fault Value}
    (inside : ∀ v, result = .ok v → v.Inside (R s.store)) : Confined R (s.answer line result) := by
  cases result with
  | ok v => exact h.give (inside v rfl)
  | error fault => exact h.fail _

theorem push (h : Open R s) {p : Pending} {c : Control} (hp : p.Inside (R s.store))
    (stays : p.after s.frame = s.frame) (inside : c.Inside R.hosted (R s.store)) : Confined R (s.push p c) := by
  refine ⟨⟨h.store, hp, fun _ => h.frame, ?_⟩, inside, fun _ => h.frame⟩
  rw [show p.after (s.push p c).frame = s.frame from stays]
  exact h.pending

theorem write (h : Open R s) {f : Ref .frame} (hf : ⟨.frame, f⟩ ∈ R s.store) (name : String) {v : Value}
    (inside : v.Inside (R s.store)) : Open R (s.write f name v) :=
  h.withStore (h.store.define hf name inside)

theorem lookup (h : Open R s) {id : NodeId} {name : String} {v : Value} (hv : s.lookup id name = some v) :
    v.Inside (R s.store) := by
  unfold State.lookup at hv
  split at hv
  · obtain ⟨f, hf, hv⟩ := Option.bind_eq_some_iff.1 hv
    exact h.store.closed.fetch (h.store.closed.ancestor h.frame hf) hv
  · exact h.store.closed.fetch (R.globals h.store) hv

theorem target (h : Open R s) {id : NodeId} {name : String} {f : Ref .frame}
    (hf : s.target? id name = some f) : ⟨.frame, f⟩ ∈ R s.store := by
  unfold State.target? at hf
  split at hf
  · exact h.store.closed.ancestor h.frame hf
  · rw [Frames.owner?_globals hf]
    exact R.globals h.store

theorem addClosure (h : Open R s) (r : Routine) (kind : RoutineKind) :
    R.Enlarged s.store (s.addClosure r kind).2.store ∧
      (s.addClosure r kind).1.Inside (R (s.addClosure r kind).2.store) :=
  h.store.addFunction (f := .closure (s.closure r kind)) (Content.inside_closure.2 h.frame)

theorem addStatics (h : Open R s) (rs : List Routine) :
    Open R (addStatics s rs).2 ∧ R s.store ⊆ R (Machine.addStatics s rs).2.store ∧
      (Machine.addStatics s rs).1.Inside (R (Machine.addStatics s rs).2.store) := by
  unfold Machine.addStatics
  have inside : (Table.empty : Table String Value).Inside (R s.store) := Table.inside_empty
  generalize (Table.empty : Table String Value) = table at inside ⊢
  induction rs generalizing s table with
  | nil => exact ⟨h, subset_rfl, inside⟩
  | cons r rs ih =>
    obtain ⟨added, value⟩ := h.addClosure r .static
    have before : table.Inside (R (s.addClosure r .static).2.store) :=
      fun key v hv => (inside key v hv).mono added.kept
    obtain ⟨opened, kept, statics⟩ := ih (h.withStore added) _ (before.insert r.name.text value)
    exact ⟨opened, added.kept.trans kept, statics⟩

theorem arguments (h : Open R s) {callee : Value} (hc : callee.Inside (R s.store)) {done : List Value}
    (hd : ∀ v ∈ done, v.Inside (R s.store)) (rest : List Expr) (line : Nat) :
    Confined R (evaluateArguments s callee done rest line) := by
  cases rest with
  | nil => exact h.go ⟨hc, hd⟩
  | cons e rest => exact h.push ⟨hc, hd⟩ rfl trivial

/-- A member that is read is inside. -/
theorem realize (h : Open R s) {p : Property} (inside : p.Inside (R s.store)) :
    R.Enlarged s.store (s.realize p).2.store ∧ (s.realize p).1.Inside (R (s.realize p).2.store) :=
  h.store.realize inside

end Open

variable {arguments : List Value}

theorem evaluate_confined (h : Open R s) (e : Expr) : Confined R (evaluate s e) := by
  cases e with
  | literal value => exact h.give (by cases value <;> exact Value.inside_of_none rfl)
  | group inner => exact h.go trivial
  | «variable» id name | this id line =>
    simp only [evaluate]
    split
    · next v hv => exact h.give (h.lookup hv)
    · exact h.fail _
  | suffix id name op =>
    simp only [evaluate]
    split
    · exact h.fail _
    · split
      · next f hf =>
        exact (h.write (h.target hf) _ (Value.inside_of_none rfl)).give (Value.inside_of_none rfl)
      · exact h.fail _
    · exact h.fail _
  | lambda r =>
    obtain ⟨added, value⟩ := h.addClosure r .lambda
    exact (h.withStore added).give value
  | _ => exact h.push trivial rfl trivial

theorem declareClass_confined (h : Open R s) (d : ClassDeclaration) : Confined R (declareClass s d) := by
  obtain ⟨added, kept, statics⟩ := h.addStatics d.statics
  have methods : ∀ name m, (d.methods.foldl (fun table r => table.insert r.name.text
      (s.closure r (.ofMethod r.name.text))) Table.empty).get? name = some m →
        ⟨.frame, m.frame⟩ ∈ R (addStatics s d.statics).2.store := by
    intro name m hm
    rcases mem_of_get?_foldl hm with ⟨r, -, rfl⟩ | none
    · exact kept h.frame
    · cases none
  obtain ⟨classes, value⟩ := added.store.addClass (c := ⟨d.name.text, _, _, none⟩)
    (Content.inside_class.2 ⟨.inr nofun, methods, statics⟩)
  have opened := added.withStore classes
  exact (opened.write opened.frame d.name.text value).go trivial

theorem execute_confined (h : Open R s) (x : Stmt) : Confined R (execute s x) := by
  have null {A : Set Object} : Value.null.Inside A := Value.inside_of_none rfl
  cases x with
  | var name e? =>
    cases e? with
    | none => exact (h.write h.frame name.text null).go trivial
    | some e => exact h.push trivial rfl trivial
  | block body =>
    obtain ⟨added, inner⟩ := h.store.addFrame h.frame [] (List.forall_mem_nil _)
    exact ⟨⟨added.holds, trivial, fun _ => inner, h.pending.mono added.kept⟩, trivial, fun _ => inner⟩
  | function r =>
    obtain ⟨added, value⟩ := h.addClosure r .function
    have opened := h.withStore added
    exact (opened.write opened.frame r.name.text value).go trivial
  | «break» line => exact h.go trivial
  | «continue» line => exact h.go trivial
  | «return» line e? =>
    cases e? with
    | none => exact h.go null
    | some e => exact h.push trivial rfl trivial
  | «class» d =>
    have named := h.write h.frame d.name.text null
    simp only [execute]
    split
    · exact named.push trivial rfl trivial
    · exact declareClass_confined named d
  | _ => exact h.push trivial rfl trivial

theorem invoke_confined (h : Away R s) {callee : Value} (site : Site)
    (hc : callee.Inside (R s.store)) (ha : ∀ v ∈ arguments, v.Inside (R s.store)) :
    Confined R (invoke s callee arguments site) := by
  unfold invoke
  split
  · exact h.fail _
  · exact h.fail _
  · next c line found =>
    split
    · exact h.push (p := .site line) trivial trivial rfl ⟨h.store.callee hc found, ha⟩ id
    · exact h.fail _
  · next c found =>
    split
    · exact h.go ⟨h.store.callee hc found, ha⟩ id
    · exact h.fail _

theorem enterClosure_confined (h : Away R s) {c : Closure}
    (hc : ⟨.frame, c.frame⟩ ∈ R s.store) (ha : ∀ v ∈ arguments, v.Inside (R s.store)) :
    Confined R (enterClosure s c arguments) := by
  obtain ⟨added, inner⟩ := h.store.addFrame hc ((c.routine.params.map Name.text).zip arguments)
    fun b hb => ha b.2 (List.of_mem_zip hb).2
  exact ⟨⟨added.holds, added.kept hc, absurd trivial, h.pending.mono added.kept⟩, trivial, fun _ => inner⟩

/-- The host answers, or wishes to call something inside. -/
theorem enterHost_confined (h : Away R s) (admits : R.Admits host) (hosted : R.hosted) {n : Native}
    {tag : String} {cell? : Option (Ref .cell)} (behaviour : n.behaviour = .host tag cell?)
    (storage : ∀ x, n.behaviour.storage? = some x → x ∈ R s.store) (ha : ∀ v ∈ arguments, v.Inside (R s.store)) :
    Confined R (enterNative host s n arguments) := by
  obtain ⟨answered, reply⟩ := admits.call hosted tag cell? h.store
    (fun cell hcell => storage _ (by rw [behaviour, hcell]; rfl)) ha
  simp only [enterNative, behaviour]
  generalize host.call tag cell? arguments s.store = answer at answered reply ⊢
  have after : Away R { s with
      store := answer.store, console := answer.printed.foldl Console.print s.console } :=
    ⟨answered.holds, h.pending.mono answered.kept⟩
  obtain ⟨store, printed, value | message | ⟨callee, given⟩⟩ := answer
  · exact after.give reply
  · exact after.fail _
  · exact after.push (p := .nativeCall) trivial trivial rfl reply id

theorem enterNative_confined (h : Away R s) (admits : R.Admits host) {n : Native}
    (hs : s.control = .enter (.function (.native n)) arguments)
    (hn : Content.Inside (k := .function) R.hosted (R s.store) (.native n))
    (ha : ∀ v ∈ arguments, v.Inside (R s.store)) : Confined R (enterNative host s n arguments) := by
  obtain ⟨allowed, storage⟩ := Content.inside_native.1 hn
  cases behaviour : n.behaviour with
  | clock =>
    simp only [enterNative, behaviour]
    exact h.give (Value.inside_of_none rfl)
  | input =>
    simp only [enterNative, behaviour]
    split
    · next line? console _ =>
      have after : Away R { s with console } := ⟨h.store, h.pending⟩
      exact after.give (by cases line? <;> exact Value.inside_of_none rfl)
    · exact ⟨h, hs ▸ ⟨hn, ha⟩, fun here => by rw [hs] at here; exact here.elim⟩
  | list method items =>
    have place : ⟨.list, items⟩ ∈ R s.store := storage _ (by rw [behaviour]; rfl)
    simp only [enterNative, behaviour]
    split
    · next v xs applied =>
      have before : ∀ w ∈ (s.store.lists.get? items).getD [], w.Inside (R s.store) := by
        rcases found : s.store.lists.get? items with _ | ys
        · exact List.forall_mem_nil _
        · exact Content.inside_list.1 (R.content h.store ⟨.list, items⟩ place ys found)
      obtain ⟨value, after⟩ := ListMethod.apply_inside before ha applied
      have changed := h.store.setList place after
      exact (h.withStore changed).give (value.mono changed.kept)
    · exact h.fail _
  | map method entries =>
    have place : ⟨.map, entries⟩ ∈ R s.store := storage _ (by rw [behaviour]; rfl)
    simp only [enterNative, behaviour]
    split
    · next v t applied =>
      have before : ((s.store.maps.get? entries).getD .empty).Inside (R s.store) := by
        rcases found : s.store.maps.get? entries with _ | u
        · exact Table.inside_empty
        · exact Content.inside_map.1 (R.content h.store ⟨.map, entries⟩ place u found)
      obtain ⟨value, after⟩ := MapMethod.apply_inside before ha applied
      have changed := h.store.setMap place after
      exact (h.withStore changed).give (value.mono changed.kept)
    · exact h.fail _
  | host tag cell? =>
    rw [behaviour] at allowed
    exact enterHost_confined h admits (allowed.resolve_right id) behaviour storage ha

theorem enterClass_confined (h : Away R s) (admits : R.Admits host) {r : Ref .classObject} {c : ClassObject}
    (hr : ⟨.classObject, r⟩ ∈ R s.store)
    (hc : Content.Inside (k := .classObject) R.hosted (R s.store) c) (ha : ∀ v ∈ arguments, v.Inside (R s.store)) :
    Confined R (enterClass host s r c arguments) := by
  obtain ⟨allowed, methods, -⟩ := Content.inside_class.1 hc
  have prepared : R.Enlarged s.store (prepared host s.store r c arguments).1 ∧
      ⟨.object, s.store.instances.next⟩ ∈ R (prepared host s.store r c arguments).1 := by
    obtain ⟨added, object⟩ := h.store.addInstance hr
    unfold Machine.prepared
    split
    · next native hn =>
      have ready := added.holds.prepare admits object (fun v hv => (ha v hv).mono added.kept)
        (allowed.imp_right fun library => library native hn)
      exact ⟨added.trans ready, ready.kept object⟩
    · exact ⟨added, object⟩
  obtain ⟨ready, object⟩ := prepared
  have after := h.withStore ready
  rw [enterClass_eq]
  dsimp only
  split
  · exact after.fail _
  · exact after.give (Value.inside_instance.2 object)
  · next f _ hf =>
    obtain ⟨bound, frame⟩ := ready.holds.bind (ready.kept (methods constructorName f hf)) object
    exact (after.withStore bound).push (p := .constructed _) trivial (bound.kept object) rfl
      ⟨Content.inside_closure.2 frame, fun v hv => (ha v hv).mono (ready.trans bound).kept⟩ id

theorem subscript_confined (h : Open R s) {object position : Value} (line : Nat)
    (ho : object.Inside (R s.store)) (hp : position.Inside (R s.store)) :
    Confined R (subscript s object position line) := by
  cases object with
  | text t => exact h.answer line fun v hv => textAt_inside hv
  | «instance» r =>
    simp only [subscript]
    split
    · next p found =>
      obtain ⟨realized, value⟩ := h.realize (h.store.closed.property (Value.inside_instance.1 ho) found)
      refine (h.withStore realized).go ⟨value, ?_⟩
      intro v hv
      rw [List.mem_singleton] at hv
      subst hv
      exact hp.mono realized.kept
    · exact h.fail _
  | _ => exact h.fail _

/-- Work that waits for a flow is not resumed by a value. -/
theorem resume_confined (store : R.Holds s.store) {v : Value} (hv : v.Inside (R s.store)) {p : Pending}
    (waits : Waits (R s.store) s.frame (p :: s.pending)) : Confined R (resume s v p) := by
  have inner (hp : ¬ p.EndsCall) (stays : p.after s.frame = s.frame) : p.Inside (R s.store) ∧ Open R s := by
    obtain ⟨inside, frame, rest⟩ := waits.inner hp stays
    exact ⟨inside, ⟨store, rest⟩, frame⟩
  cases p with
  | constructed object => exact Away.give ⟨store, waits.2.2⟩ (Value.inside_instance.2 waits.1)
  | site line | nativeCall => exact Away.give ⟨store, waits.2.2⟩ hv
  | sequence | program | loopBody | leave | body => exact ⟨⟨store, waits⟩, hv, False.elim⟩
  | unary op => exact (inner id rfl).2.answer _ fun r hr => unary_inside hr
  | binaryRight op right => exact (inner id rfl).2.push hv rfl trivial
  | binary left op => exact (inner id rfl).2.answer _ fun r hr => binary_inside hv hr
  | logical op right =>
    obtain ⟨-, h⟩ := inner id rfl
    simp only [resume]
    split
    · exact h.give hv
    · exact h.go trivial
  | assign id name =>
    obtain ⟨-, h⟩ := inner (fun ends => ends) rfl
    simp only [resume]
    split
    · next f hf =>
      have written := h.store.define (h.target hf) name.text hv
      exact (h.withStore written).give (hv.mono written.kept)
    · exact h.fail _
  | callee es line => exact (inner id rfl).2.arguments hv (List.forall_mem_nil _) es line
  | arguments callee done es line =>
    obtain ⟨⟨hc, hd⟩, h⟩ := inner id rfl
    refine h.arguments hc ?_ es line
    intro w hw
    rcases List.mem_append.1 hw with hw | hw
    · exact hd w hw
    · rw [List.mem_singleton] at hw
      subst hw
      exact hv
  | get name =>
    obtain ⟨-, h⟩ := inner id rfl
    simp only [resume]
    split
    · split
      · next p found =>
        obtain ⟨realized, value⟩ := h.realize (h.store.closed.member hv found)
        exact (h.withStore realized).give value
      · exact h.fail _
    · split
      · next p found =>
        obtain ⟨realized, value⟩ := h.realize (h.store.closed.member hv found)
        exact (h.withStore realized).give value
      · exact h.fail _
    · exact h.fail _
  | setObject name value =>
    obtain ⟨-, h⟩ := inner id rfl
    cases v with
    | «instance» r => exact h.push (p := .setField r name) (Value.inside_instance.1 hv) rfl trivial
    | _ => exact h.fail _
  | setField r name =>
    obtain ⟨object, h⟩ := inner id rfl
    have changed := h.store.setField object name.text hv
    exact (h.withStore changed).give (hv.mono changed.kept)
  | updateObject name op value =>
    obtain ⟨-, h⟩ := inner id rfl
    cases v with
    | «instance» r =>
      have object := Value.inside_instance.1 hv
      simp only [resume]
      split
      · next p found =>
        obtain ⟨realized, current⟩ := h.realize (h.store.closed.property object found)
        exact (h.withStore realized).push (p := .updateField r name _ op) ⟨realized.kept object, current⟩ rfl trivial
      · exact h.fail _
    | _ => exact h.fail _
  | updateField r name current op =>
    obtain ⟨⟨object, -⟩, h⟩ := inner id rfl
    simp only [resume]
    split
    · next updated found =>
      have inside : updated.Inside (R s.store) := binary_inside hv found
      have changed := h.store.setField object name.text inside
      exact (h.withStore changed).give (inside.mono changed.kept)
    · exact h.fail _
  | indexObject position line => exact (inner id rfl).2.push (p := .index v line) hv rfl trivial
  | index object line =>
    obtain ⟨inside, h⟩ := inner id rfl
    exact subscript_confined h line inside hv
  | ternary | expression => exact (inner id rfl).2.go trivial
  | «return» => exact (inner id rfl).2.go hv
  | print =>
    obtain ⟨-, h⟩ := inner id rfl
    exact ⟨⟨h.store, h.pending⟩, trivial, fun _ => h.frame⟩
  | var name =>
    obtain ⟨-, h⟩ := inner id rfl
    exact (h.write h.frame name.text hv).go trivial
  | conditional yes no =>
    obtain ⟨-, h⟩ := inner id rfl
    simp only [resume]
    split
    · exact h.go trivial
    · cases no with
      | none => exact h.go trivial
      | some no => exact h.go trivial
  | loopCondition condition body =>
    obtain ⟨-, h⟩ := inner id rfl
    simp only [resume]
    split
    · exact h.push trivial rfl trivial
    · exact h.go trivial
  | base d =>
    obtain ⟨-, h⟩ := inner id rfl
    cases v with
    | «class» r => exact declareClass_confined h d
    | _ => exact h.fail _

theorem bodyResult_inside {store : Store} (holds : R.Holds store) {c : Closure} (hc : ⟨.frame, c.frame⟩ ∈ R store)
    {f : Flow} (hf : Flow.Inside (R store) f) : (bodyResult store c f).Inside (R store) := by
  unfold bodyResult
  split
  · rcases found : store.frames.fetch c.frame "this" with _ | v
    · exact Value.inside_of_none rfl
    · exact holds.closed.fetch hc found
  · split
    · exact hf
    · exact Value.inside_of_none rfl

theorem proceed_confined (store : R.Holds s.store) {f : Flow} (hf : Flow.Inside (R s.store) f) {p : Pending}
    (waits : Waits (R s.store) s.frame (p :: s.pending)) : Confined R (proceed s f p) := by
  cases p with
  | sequence rest =>
    obtain ⟨-, frame, pending⟩ := waits.inner id rfl
    have h : Open R s := ⟨⟨store, pending⟩, frame⟩
    cases f <;> exact h.go hf
  | program rest =>
    obtain ⟨-, frame, pending⟩ := waits.inner id rfl
    exact Open.go ⟨⟨store, pending⟩, frame⟩ trivial
  | loopBody condition body =>
    obtain ⟨-, frame, pending⟩ := waits.inner id rfl
    have h : Open R s := ⟨⟨store, pending⟩, frame⟩
    cases f with
    | normal | «continue» => exact h.push trivial rfl trivial
    | «break» => exact h.go trivial
    | «return» v => exact h.go hf
  | leave outside => exact ⟨⟨store, waits.2.2⟩, hf, False.elim⟩
  | body c outside => exact ⟨⟨store, waits.2.2⟩, bodyResult_inside store waits.1 hf, False.elim⟩
  | _ => exact ⟨⟨store, waits⟩, hf, False.elim⟩

theorem unwind_confined (store : R.Holds s.store) (e : Failure) {p : Pending}
    (waits : Waits (R s.store) s.frame (p :: s.pending)) : Confined R (unwind s e p) := by
  cases p <;> exact ⟨⟨store, waits.2.2⟩, trivial, False.elim⟩

/-- No step leads out. -/
theorem Confined.step (admits : R.Admits host) (h : Confined R s) : Confined R (step host s) := by
  have inside := h.control
  have here := h.frame
  cases hc : s.control with
  | evaluate e =>
    simp only [Machine.step, hc]
    exact evaluate_confined ⟨h.toAway, here (hc ▸ trivial)⟩ e
  | execute x =>
    simp only [Machine.step, hc]
    exact execute_confined ⟨h.toAway, here (hc ▸ trivial)⟩ x
  | sequence body | program body =>
    have opened : Open R s := ⟨h.toAway, here (hc ▸ trivial)⟩
    cases body with
    | nil =>
      simp only [Machine.step, hc]
      exact opened.go trivial
    | cons x rest =>
      simp only [Machine.step, hc]
      exact opened.push trivial rfl trivial
  | invoke callee arguments site =>
    rw [hc] at inside
    simp only [Machine.step, hc]
    exact invoke_confined h.toAway site inside.1 inside.2
  | enter callee arguments =>
    rw [hc] at inside
    simp only [Machine.step, hc]
    rcases callee with (c | n) | ⟨r, c⟩
    · exact enterClosure_confined h.toAway (Content.inside_closure.1 inside.1) inside.2
    · exact enterNative_confined h.toAway admits hc inside.1 inside.2
    · exact enterClass_confined h.toAway admits inside.1.1 inside.1.2 inside.2
  | value v =>
    rw [hc] at inside
    rcases hp : s.pending with _ | ⟨p, rest⟩
    · simp only [Machine.step, hc, hp]
      exact h
    · simp only [Machine.step, hc, hp]
      exact resume_confined (s := { s with control := .value v, pending := rest }) h.store inside (hp ▸ h.pending)
  | flow f =>
    rw [hc] at inside
    rcases hp : s.pending with _ | ⟨p, rest⟩
    · simp only [Machine.step, hc, hp]
      exact h
    · simp only [Machine.step, hc, hp]
      exact proceed_confined (s := { s with control := .flow f, pending := rest }) h.store inside (hp ▸ h.pending)
  | raise e =>
    rcases hp : s.pending with _ | ⟨p, rest⟩
    · simp only [Machine.step, hc, hp]
      exact h
    · simp only [Machine.step, hc, hp]
      exact unwind_confined (s := { s with control := .raise e, pending := rest }) h.store e (hp ▸ h.pending)

theorem Calling.confined {u : State} (calling : Calling host s u) (admits : R.Admits host) (h : Confined R s) :
    Confined R u := by
  induction calling with
  | made => exact h
  | step _ _ ih => exact ih.step admits
  | feed console _ ih => exact ⟨⟨ih.store, ih.pending⟩, ih.control, ih.frame⟩

/-- A call with nothing pending starts inside of the fence around its roots. -/
theorem confined_start {callee : Value} {site : Site}
    (library : ∀ x, s.store.Reaches (Store.callRoots callee arguments) x → ∀ c, s.store.content? x = some c → c.Library)
    (hc : s.control = .invoke callee arguments site) (hp : s.pending = []) :
    Confined (Store.Fenced.realm (s.store.fence (Store.callRoots callee arguments)) s.store) s := by
  refine ⟨⟨Store.fenced_fence (.inl rfl) library, hp ▸ trivial⟩, ?_, fun here => by rw [hc] at here; exact here.elim⟩
  rw [hc]
  constructor
  · exact fun x hx => .inl (.root (.inr (.inl hx)))
  · exact fun v hv x hx => .inl (.root (.inr (.inr ⟨v, hv, hx⟩)))

/-- All along a call, what is outside of the fence around its roots stays as it was. -/
theorem Calling.outside {u : State} (calling : Calling host s u) {callee : Value} {site : Site}
    (library : ∀ x, s.store.Reaches (Store.callRoots callee arguments) x → ∀ c, s.store.content? x = some c → c.Library)
    (hc : s.control = .invoke callee arguments site) (hp : s.pending = []) {x : Object}
    (outside : x ∉ s.store.fence (Store.callRoots callee arguments)) : u.store.content? x = s.store.content? x := by
  have confined := calling.confined (Store.Fenced.realm_admits _ _ host) (confined_start library hc hp)
  exact confined.store.outside x outside

end Steps

/-- A call leaves every object as it was that cannot be reached from the callee, the arguments or the outermost frame,
at all times until it is over, whether it yields a value or fails. It makes no difference who calls. -/
theorem call_keeps_unreachable (host : Host) {store : Store} {callee : Value} {arguments : List Value}
    (library : ∀ x, store.Reaches (Store.callRoots callee arguments) x → ∀ c, store.content? x = some c → c.Library)
    {x : Object} (held : (store.content? x).isSome = true)
    (apart : ¬ store.Reaches (Store.callRoots callee arguments) x) :
    (∀ (s u : State) (site : Site), s.store = store → s.control = .invoke callee arguments site → Calling host s u →
      u.store.content? x = store.content? x) ∧
    ∀ (s s' : Session) (limit : Nat) (result : Except Error Value), s.store = store →
      s.call host limit callee arguments = some (s', result) → s'.store.content? x = store.content? x := by
  have outside := Store.not_mem_fence held apart
  constructor
  · rintro s u site rfl control calling
    -- the work of the caller has no part in the call
    obtain ⟨v, alone, -, rfl⟩ := calling.alone control
    exact alone.outside (s := s.alone) library control rfl outside
  · rintro s s' limit result rfl called
    obtain ⟨world, -⟩ := Session.world_finish called
    have calling : Calling host (s.start (.invoke callee arguments .host)) _ := calling_run_alone rfl limit
    rw [Session.store, world]
    exact calling.outside library rfl rfl outside

/-- A function that sets its parameter is called from within a call of itself. -/
def recursing : State where
  store := { Store.initial with
    frames := (Heap.empty.alloc ⟨Table.empty.insert "f" (.function ⟨0⟩), none⟩).alloc
      ⟨Table.empty.insert "n" (.boolean true), some Store.globals⟩
    functions := Heap.empty.alloc (.closure ⟨⟨⟨"f", 1⟩, [⟨"n", 1⟩],
      [.expression (.assign 0 ⟨"n", 1⟩ (.literal .null))]⟩, Store.globals, .function⟩) }
  console := ⟨#[], [], true, .zero⟩
  distances := Distances.empty.insert 0 0
  control := .invoke (.function ⟨0⟩) [.boolean false] (.script 1)
  frame := ⟨1⟩
  pending := [.expression]

/-- Nothing else in that store refers to the frame of the call that is under way. -/
theorem recursing_mentions (x : Object) (hx : x ≠ ⟨.frame, ⟨1⟩⟩) (c : Content x.kind)
    (hc : recursing.store.content? x = some c) : c.Library ∧ ∀ y, c.Mentions y → y ≠ ⟨.frame, ⟨1⟩⟩ := by
  obtain ⟨kind, ⟨i⟩⟩ := x
  cases kind with
  | frame =>
    rcases i with _ | _ | i
    · cases hc
      refine ⟨trivial, ?_⟩
      rintro y (⟨parent, outer, rfl⟩ | ⟨name, v, hv, hy⟩)
      · cases outer
      · have hv : (Table.empty.insert "f" (Value.function ⟨0⟩)).get? name = some v := hv
        rw [Table.get?_insert] at hv
        split at hv
        · cases hv
          cases hy
          simp
        · cases hv
    · exact absurd rfl hx
    · cases hc
  | function =>
    rcases i with _ | i
    · cases hc
      refine ⟨trivial, ?_⟩
      rintro y rfl
      decide
    · cases hc
  | _ => cases hc

theorem call_keeps_unreachable_recursing :
    ¬ recursing.store.Reaches (Store.callRoots (.function ⟨0⟩) [.boolean false]) ⟨.frame, ⟨1⟩⟩ ∧
      recursing.Back (run Host.empty 12 recursing) ∧
      (run Host.empty 12 recursing).store.frames.fetch ⟨2⟩ "n" = some .null ∧
      (run Host.empty 12 recursing).store.content? ⟨.frame, ⟨1⟩⟩ = recursing.store.content? ⟨.frame, ⟨1⟩⟩ := by
  have others (x : Object) (h : recursing.store.Reaches (Store.callRoots (.function ⟨0⟩) [.boolean false]) x) :
      x ≠ ⟨.frame, ⟨1⟩⟩ := by
    refine Store.Reaches.mem (A := {x | x ≠ ⟨.frame, ⟨1⟩⟩}) ?_ (fun x hx c hc => (recursing_mentions x hx c hc).2) h
    rintro y (rfl | hy | ⟨v, hv, hy⟩)
    · exact (by decide : (⟨.frame, Store.globals⟩ : Object) ≠ ⟨.frame, ⟨1⟩⟩)
    · cases hy
      exact (by decide : (⟨.function, ⟨0⟩⟩ : Object) ≠ ⟨.frame, ⟨1⟩⟩)
    · rw [List.mem_singleton] at hv
      subst hv
      cases hy
  have apart : ¬ recursing.store.Reaches (Store.callRoots (.function ⟨0⟩) [.boolean false]) ⟨.frame, ⟨1⟩⟩ :=
    fun h => others _ h rfl
  have calling : Calling Host.empty recursing (run Host.empty 12 recursing) := calling_run (by exact trivial) (by decide)
  refine ⟨apart, ⟨rfl, .inl ⟨.null, rfl⟩⟩, rfl, ?_⟩
  refine (call_keeps_unreachable Host.empty ?_ rfl apart).1 recursing _ (.script 1) rfl rfl calling
  exact fun x h c hc => (recursing_mentions x (others x h) c hc).1

end Scriptlet.Machine
