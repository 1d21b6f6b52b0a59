import Scriptlet.Proofs.RunLaws
import Scriptlet.Proofs.TwinStates
import Scriptlet.Proofs.UnlinedSteps

/-!
Runs of recast code. States that correspond take steps to states that correspond, so whole runs print the same, wait at
the same time and end in the same way.
-/
namespace Scriptlet.Machine

variable {host : Host} {R : Recasting} {χ : Marks} {s s' : State}

theorem evaluateArguments_twin (h : Base R χ s s') {f f' : Expr} {es es' : List Expr} {line : Nat} (callee : Value)
    (done : List Value) (code : Code R χ s.store.frames [] s.frame (.expr (.call f es line)) (.expr (.call f' es' line))) :
    State.Twin R (evaluateArguments s callee done es line) (evaluateArguments s' callee done es' line) := by
  obtain ⟨bs, marked, recast⟩ := code
  cases recast with
  | call head list =>
    cases es with
    | nil =>
      obtain rfl := list.exprs_nil
      exact h.go (.invoke callee done (.script line))
    | cons e es =>
      obtain ⟨e', rest', rfl, first, rest⟩ := list.exprs_cons
      exact h.push (.arguments callee done line ⟨bs, marked, .call head rest⟩) rfl (.evaluate ⟨bs, marked, first⟩)

/-- The closure of a routine that stands in the current frame. -/
theorem closure_twin (h : Base R χ s s') (inner : List Bool) (kind : RoutineKind) {bs : List Bool} {kind' : RoutineKind}
    {r r' : Routine} (marked : Marked χ s.store.frames s.frame bs)
    (recast : Recast R (inner ++ bs) (.routine kind' r) (.routine kind' r')) :
    (s.closure r kind).Twin R χ s.store.frames inner (s'.closure r' kind) :=
  ⟨h.frame, rfl, bs, marked, recast.routine_kind⟩

theorem addClosure_twin (h : Base R χ s s') (kind : RoutineKind) {bs : List Bool} {kind' : RoutineKind} {r r' : Routine}
    (marked : Marked χ s.store.frames s.frame bs) (recast : Recast R bs (.routine kind' r) (.routine kind' r')) :
    (s'.addClosure r' kind).1 = (s.addClosure r kind).1 ∧ Base R χ (s.addClosure r kind).2 (s'.addClosure r' kind).2 := by
  have twin := closure_twin h [] kind marked recast
  exact ⟨congrArg Value.function h.store.looks.nextFunction, h.withStore (h.store.addFunction twin) (.refl χ _)⟩

theorem evaluate_twin (h : Base R χ s s') {e e' : Expr} (code : Code R χ s.store.frames [] s.frame (.expr e) (.expr e')) :
    State.Twin R (evaluate s e) (evaluate s' e') := by
  obtain ⟨bs, marked, recast⟩ := code
  have recast : Recast R bs (.expr e) (.expr e') := recast
  cases recast with
  | literal => exact h.give _
  | unary right => exact h.push (.unary _) rfl (.evaluate ⟨bs, marked, right⟩)
  | binary left right => exact h.push (.binaryRight _ ⟨bs, marked, right⟩) rfl (.evaluate ⟨bs, marked, left⟩)
  | logical left right => exact h.push (.logical _ ⟨bs, marked, right⟩) rfl (.evaluate ⟨bs, marked, left⟩)
  | ternary condition yes no =>
    exact h.push (.ternary ⟨bs, marked, yes⟩ ⟨bs, marked, no⟩) rfl (.evaluate ⟨bs, marked, condition⟩)
  | group inner => exact h.go (.evaluate ⟨bs, marked, inner⟩)
  | @«variable» _ id name proper =>
    have found := h.lookup marked id name.text
    rw [← h.world.fits.text_use] at found
    simp only [evaluate, found]
    cases s.lookup id name.text with
    | some v => exact h.give v
    | none => exact h.go (.raise (undefined_twin proper))
  | assign proper value =>
    exact h.push (.assign ⟨bs, marked, .variable proper⟩) rfl (.evaluate ⟨bs, marked, value⟩)
  | @suffix _ id name op proper =>
    have found := h.lookup marked id name.text
    obtain ⟨target, mark⟩ := h.target? marked id name.text
    rw [← h.world.fits.text_use] at found target
    simp only [evaluate, found, target]
    cases s.lookup id name.text with
    | none => exact h.go (.raise (undefined_twin proper))
    | some v =>
      cases v with
      | number x =>
        cases ht : s.target? id name.text with
        | none => exact h.go (.raise (undefined_twin proper))
        | some g =>
          have text := h.world.fits.text_use bs id name
          rw [mark g ht] at text
          simp only [text]
          exact (h.write g name.text (.number (stepped op x))).give (.number x)
      | _ => exact h.fail _
  | call callee arguments =>
    exact h.push (.callee _ ⟨bs, marked, .call callee arguments⟩) rfl (.evaluate ⟨bs, marked, callee⟩)
  | get object => exact h.push (.get _) rfl (.evaluate ⟨bs, marked, object⟩)
  | set object value => exact h.push (.setObject _ ⟨bs, marked, value⟩) rfl (.evaluate ⟨bs, marked, object⟩)
  | update object value => exact h.push (.updateObject _ _ ⟨bs, marked, value⟩) rfl (.evaluate ⟨bs, marked, object⟩)
  | index object position => exact h.push (.indexObject _ ⟨bs, marked, position⟩) rfl (.evaluate ⟨bs, marked, object⟩)
  | @this _ id line =>
    simp only [evaluate, h.lookup_this id]
    cases s.lookup id "this" with
    | some v => exact h.give v
    | none => exact h.fail _
  | @lambda _ r r' routine =>
    obtain ⟨value, base⟩ := addClosure_twin h .lambda marked routine
    simp only [evaluate, value]
    exact base.give _

theorem addStatics_twin (h : Base R χ s s') {bs : List Bool} {rs rs' : List Routine}
    (marked : Marked χ s.store.frames s.frame bs) (recasts : Recasts R bs (Part.statics rs) (Part.statics rs')) :
    (addStatics s' rs').1 = (addStatics s rs).1 ∧ Base R χ (addStatics s rs).2 (addStatics s' rs').2 ∧
      (addStatics s rs).2.store.frames = s.store.frames ∧ (addStatics s rs).2.frame = s.frame := by
  unfold addStatics
  generalize (Table.empty : Table String Value) = table
  induction rs generalizing s s' rs' table with
  | nil =>
    cases rs' with
    | nil => exact ⟨rfl, h, rfl, rfl⟩
    | cons r' rs' => cases recasts
  | cons r rs ih =>
    cases rs' with
    | nil => cases recasts
    | cons r' rs' =>
      cases recasts with
      | cons first rest =>
        have name := first.name_routine.2
        obtain ⟨value, base⟩ := addClosure_twin h .static marked first
        simp only [List.foldl_cons, value, name]
        exact ih base marked rest _

/-- The methods of a class, which run inside a frame for their receiver. -/
theorem methodTable_twin (h : Base R χ s s') (table table' : Table String Closure) {bs : List Bool}
    {rs rs' : List Routine} (marked : Marked χ s.store.frames s.frame bs)
    (recasts : Recasts R (false :: bs) (Part.methods rs) (Part.methods rs'))
    (face : table'.mapValues Closure.face = table.mapValues Closure.face)
    (twins : ∀ name m m', table.get? name = some m → table'.get? name = some m' → m.Twin R χ s.store.frames [false] m') :
    (methodTable s' table' rs').mapValues Closure.face = (methodTable s table rs).mapValues Closure.face ∧
      ∀ name m m', (methodTable s table rs).get? name = some m → (methodTable s' table' rs').get? name = some m' →
        m.Twin R χ s.store.frames [false] m' := by
  unfold methodTable
  induction rs generalizing rs' table table' with
  | nil =>
    cases rs' with
    | nil => exact ⟨face, twins⟩
    | cons r' rs' => cases recasts
  | cons r rs ih =>
    cases rs' with
    | nil => cases recasts
    | cons r' rs' =>
      obtain ⟨first, rest⟩ : Recast R (false :: bs) (.routine (.ofMethod r.name.text) r)
          (.routine (.ofMethod r'.name.text) r') ∧ Recasts R (false :: bs) (Part.methods rs) (Part.methods rs') := by
        cases recasts with
        | cons first rest => exact ⟨first, rest⟩
      have name := first.name_routine.2
      rw [name] at first
      have twin := closure_twin h [false] (.ofMethod r.name.text) marked first
      simp only [List.foldl_cons, name]
      refine ih _ _ rest ?_ fun x m m' hm hm' => ?_
      · rw [Table.mapValues_insert, Table.mapValues_insert, face, twin.face]
      · rw [Table.get?_insert] at hm hm'
        split at hm
        · next hx =>
          rw [if_pos hx] at hm'
          cases hm
          cases hm'
          exact twin
        · next hx =>
          rw [if_neg hx] at hm'
          exact twins x m m' hm hm'

theorem declareClass_twin (h : Base R χ s s') {d d' : ClassDeclaration}
    (code : Code R χ s.store.frames [] s.frame (.stmt (.class d)) (.stmt (.class d'))) :
    State.Twin R (declareClass s d) (declareClass s' d') := by
  obtain ⟨bs, marked, recast⟩ := code
  obtain ⟨name, base, ms, ss⟩ := d
  obtain ⟨name', base', ms', ss'⟩ := d'
  obtain ⟨rfl, word, statics, methods⟩ : name' = name ∧ R.word (bs.headD false) name.text = name.text ∧
      Recasts R bs (Part.statics ss) (Part.statics ss') ∧ Recasts R (false :: bs) (Part.methods ms) (Part.methods ms') := by
    cases recast with
    | plainClass word statics methods | derivedClass word _ statics methods => exact ⟨rfl, word, statics, methods⟩
  obtain ⟨face, twins⟩ := methodTable_twin h .empty .empty marked methods rfl fun _ _ _ hm => by cases hm
  obtain ⟨values, after, frames, frame⟩ := addStatics_twin h marked statics
  rw [declareClass_eq, declareClass_eq]
  simp only [values]
  generalize addStatics s ss = new at after frames frame ⊢
  generalize addStatics s' ss' = new' at after ⊢
  have twin : ClassObject.Twin R χ new.2.store.frames ⟨name'.text, methodTable s .empty ms, new.1, none⟩
      ⟨name'.text, methodTable s' .empty ms', new.1, none⟩ := by
    refine ⟨?_, ?_⟩
    · simp only [ClassObject.face, face]
    · rw [frames]
      exact twins
  have added := after.withStore (after.store.addClass twin) (.refl χ _)
  have defined := added.define name'.text (.class new.2.store.classes.next)
  have mark : χ new.2.frame = bs.headD false := by rw [frame, marked.head]
  rw [mark, word] at defined
  have same : Value.class new'.2.store.classes.next = .class new.2.store.classes.next :=
    congrArg Value.class after.store.looks.nextClass
  simp only [Store.addClass, same]
  exact defined.go (.flow .normal)

/-- A frame is opened and a body run there, after which the current frame becomes current again. -/
theorem Base.opened (h : Base R χ s s') (bindings : List (String × Value)) {parent : Ref .frame} {b : Bool} {bs : List Bool}
    {body body' : List Stmt} (marked : Marked χ s.store.frames parent bs)
    (recast : Recast R (b :: bs) (.stmts body) (.stmts body')) {p p' : Pending} (outside : p.outside? = some s.frame)
    (twin : ∀ C, p.Twin C p') :
    let new := s.store.addFrame parent bindings
    let new' := s'.store.addFrame parent (bindings.map fun x => (R.word b x.1, x.2))
    State.Twin R ({ s with store := new.2, frame := new.1 }.push p (.sequence body))
      ({ s' with store := new'.2, frame := new'.1 }.push p' (.sequence body')) := by
  have wider := Marks.Extends.alloc χ s.store.frames
    ⟨bindings.foldl (fun t x => t.insert x.1 x.2) Table.empty, some parent⟩ b
  refine ⟨_, ⟨⟨h.store.addFrame parent b bindings, h.world.console, h.world.fits⟩, h.store.next, twin _, ?_⟩,
    .sequence ⟨b :: bs, marked.alloc _ b, recast⟩⟩
  rw [outside]
  exact h.pending.mono wider

theorem execute_twin (h : Base R χ s s') {x x' : Stmt} (code : Code R χ s.store.frames [] s.frame (.stmt x) (.stmt x')) :
    State.Twin R (execute s x) (execute s' x') := by
  obtain ⟨bs, marked, recast⟩ := code
  have recast : Recast R bs (.stmt x) (.stmt x') := recast
  have mark := marked.head
  cases recast with
  | expression value => exact h.push .expression rfl (.evaluate ⟨bs, marked, value⟩)
  | print value => exact h.push .print rfl (.evaluate ⟨bs, marked, value⟩)
  | @plainVariable _ name =>
    have defined := h.define name.text .null
    rw [← mark] at defined
    exact defined.go (.flow .normal)
  | initialVariable value => exact h.push (.var ⟨bs, marked, .plainVariable⟩) rfl (.evaluate ⟨bs, marked, value⟩)
  | @block b _ body body' inner =>
    simp only [execute, h.frame]
    exact h.opened [] marked inner rfl fun _ => .leave s.frame
  | ifThen condition yes =>
    exact h.push (.conditional ⟨bs, marked, .ifThen condition yes⟩) rfl (.evaluate ⟨bs, marked, condition⟩)
  | ifElse condition yes no =>
    exact h.push (.conditional ⟨bs, marked, .ifElse condition yes no⟩) rfl (.evaluate ⟨bs, marked, condition⟩)
  | loop condition body =>
    exact h.push (.loopCondition ⟨bs, marked, .loop condition body⟩) rfl (.evaluate ⟨bs, marked, condition⟩)
  | «break» => exact h.go (.flow .break)
  | «continue» => exact h.go (.flow .continue)
  | @function _ r r' word routine =>
    obtain ⟨value, added⟩ := addClosure_twin h .function marked routine
    have name := routine.name_routine.2
    have defined := added.define r.name.text (s.addClosure r .function).1
    change Base R χ _ (State.define _ (R.word (χ s.frame) r.name.text) _) at defined
    rw [← mark, word] at defined
    simp only [execute, value, name]
    exact defined.go (.flow .normal)
  | returnNull => exact h.go (.flow (.return .null))
  | returnValue value => exact h.push .return rfl (.evaluate ⟨bs, marked, value⟩)
  | @plainClass _ _ _ _ _ name word statics methods =>
    have defined := h.define name.text .null
    rw [← mark, word] at defined
    exact declareClass_twin defined (Code.mono ⟨bs, marked, .plainClass word statics methods⟩ (.define χ _ _ _ _))
  | @derivedClass _ _ _ _ _ _ _ name word base statics methods =>
    have defined := h.define name.text .null
    rw [← mark, word] at defined
    exact defined.push (.base (Code.mono ⟨bs, marked, .derivedClass word base statics methods⟩ (.define χ _ _ _ _))) rfl
      (.evaluate (Code.mono ⟨bs, marked, base⟩ (.define χ _ _ _ _)))

theorem invoke_twin (h : Base R χ s s') (callee : Value) (arguments : List Value) (site : Site) :
    State.Twin R (invoke s callee arguments site) (invoke s' callee arguments site) := by
  unfold invoke
  rw [h.store.looks.display]
  obtain ⟨hc, hc'⟩ | ⟨c, c', hc, hc', twin⟩ := rel_cases (h.store.callee? callee)
  · rw [hc, hc']
    cases site <;> exact h.fail _
  · rw [hc, hc']
    cases site with
    | script line =>
      simp only [twin.arity]
      split
      · exact h.push (.site line) rfl (.enter arguments twin)
      · exact h.fail _
    | host =>
      simp only [twin.arity]
      split
      · exact h.go (.enter arguments twin)
      · exact h.fail _

theorem enterClosure_twin (h : Base R χ s s') {c c' : Closure} (twin : c.Twin R χ s.store.frames [] c')
    (arguments : List Value) : State.Twin R (enterClosure s c arguments) (enterClosure s' c' arguments) := by
  obtain ⟨⟨name, params, body⟩, frame, kind⟩ := c
  obtain ⟨⟨name', params', body'⟩, frame', kind'⟩ := c'
  obtain ⟨rfl, rfl, bs, marked, recast⟩ := twin
  cases recast with
  | @routine b _ _ _ _ _ _ body =>
    have bindings : (((params.map (R.declare b)).map Name.text).zip arguments) =
        ((params.map Name.text).zip arguments).map fun x => (R.word b x.1, x.2) := by
      rw [List.map_map, List.zip_map_left, List.zip_map_left, List.map_map]
      rfl
    simp only [enterClosure, bindings, h.frame]
    exact h.opened ((params.map Name.text).zip arguments) marked body rfl fun _ => .body s.frame rfl rfl

/-- A call for input stays where it is until a line has come. -/
theorem enterNative_twin (lawful : host.Lawful) (oblivious : host.Oblivious) (h : Base R χ s s') (stay : State.Twin R s s')
    (n : Native) (arguments : List Value) :
    State.Twin R (enterNative host s n arguments) (enterNative host s' n arguments) := by
  have kept {store store' : Store} (looks : store.LooksLike store') (k : s.store.Kept store) (k' : s'.store.Kept store') :
      Base R χ { s with store } { s' with store := store' } := by
    obtain ⟨twin, wider⟩ := h.store.kept k k' looks
    exact h.withStore twin wider
  have looks := h.store.looks
  unfold enterNative
  cases n.behaviour with
  | clock =>
    simp only [h.world.console]
    exact h.give _
  | input =>
    simp only [h.world.console]
    cases s.console.read? with
    | none => exact stay
    | some read => exact (h.withConsole read.2).give _
  | list method items =>
    simp only [looks.display, looks.lists]
    cases method.apply s.store.display ((s.store.lists.get? items).getD []) arguments with
    | ok result =>
      have after := looks.withLists (s.store.lists.set items result.2)
      exact (kept after (.of_eq rfl rfl rfl) (.of_eq rfl rfl rfl)).give result.1
    | error fault => exact h.fail _
  | map method entries =>
    simp only [looks.display, looks.maps]
    cases method.apply s.store.display ((s.store.maps.get? entries).getD .empty) arguments with
    | ok result =>
      have after := looks.withMaps (s.store.maps.set entries result.2)
      exact (kept after (.of_eq rfl rfl rfl) (.of_eq rfl rfl rfl)).give result.1
    | error fault => exact h.fail _
  | host tag cell =>
    obtain ⟨stores, printed, reply⟩ := oblivious.call tag cell arguments looks
    have after := (kept stores (lawful.call tag cell arguments s.store) (lawful.call tag cell arguments s'.store)).withConsole
      ((host.call tag cell arguments s.store).printed.foldl Console.print s.console)
    simp only [printed, reply, h.world.console]
    cases (host.call tag cell arguments s.store).reply with
    | value v => exact after.give v
    | failure message => exact after.fail _
    | call callee arguments => exact after.push .nativeCall rfl (.invoke callee arguments .host)

/-- Both instances are prepared in the same way. -/
theorem prepared_twin (lawful : host.Lawful) (oblivious : host.Oblivious) (h : Base R χ s s') (r : Ref .classObject)
    {c c' : ClassObject} (native : c'.native = c.native) (arguments : List Value) :
    Base R χ { s with store := (prepared host s.store r c arguments).1 }
        { s' with store := (prepared host s'.store r c' arguments).1 } ∧
      (prepared host s'.store r c' arguments).2 = (prepared host s.store r c arguments).2 ∧
      χ.Extends s.store.frames χ (prepared host s.store r c arguments).1.frames := by
  have added := h.store.looks.addInstance r
  have object : (s'.store.addInstance r).1 = (s.store.addInstance r).1 := congrArg Heap.next h.store.looks.instances
  unfold prepared
  rw [native]
  cases c.native with
  | none =>
    obtain ⟨twin, wider⟩ := h.store.kept (.addInstance s.store r) (.addInstance s'.store r) added
    exact ⟨h.withStore twin wider, rfl, wider⟩
  | some native =>
    dsimp only
    rw [object]
    obtain ⟨looks, fault⟩ := added.prepare oblivious (s.store.addInstance r).1 arguments native.initializer
    obtain ⟨twin, wider⟩ := h.store.kept
      ((Store.Kept.addInstance s.store r).trans (.prepare lawful _ (s.store.addInstance r).1 arguments native.initializer))
      ((Store.Kept.addInstance s'.store r).trans (.prepare lawful _ (s.store.addInstance r).1 arguments native.initializer))
      looks
    exact ⟨h.withStore twin wider, fault, wider⟩

theorem enterClass_twin (lawful : host.Lawful) (oblivious : host.Oblivious) (h : Base R χ s s') (r : Ref .classObject)
    {c c' : ClassObject} (twin : c.Twin R χ s.store.frames c') (arguments : List Value) :
    State.Twin R (enterClass host s r c arguments) (enterClass host s' r c' arguments) := by
  obtain ⟨after, fault, wider⟩ :=
    prepared_twin lawful oblivious h r (congrArg ClassObject.Face.native twin.face) arguments
  have object : s'.store.instances.next = s.store.instances.next := congrArg Heap.next h.store.looks.instances
  rw [enterClass_eq, enterClass_eq, object]
  generalize prepared host s.store r c arguments = new at after fault wider ⊢
  generalize prepared host s'.store r c' arguments = new' at after fault ⊢
  obtain ⟨store, fault?⟩ := new
  obtain ⟨store', fault?'⟩ := new'
  dsimp only at after fault wider ⊢
  subst fault
  cases fault?' with
  | some fault => exact after.fail _
  | none =>
    obtain ⟨hf, hf'⟩ | ⟨f, f', hf, hf', constructor⟩ := rel_cases (twin.methods constructorName)
    · simp only [ClassObject.constructor?, hf, hf']
      exact after.give _
    · obtain ⟨χ', opened, stores, bound⟩ := after.store.bind (constructor.mono wider) s.store.instances.next
      simp only [ClassObject.constructor?, hf, hf']
      exact (after.withStore stores opened).push (.constructed _) rfl (.enter arguments (.function (.closure bound)))

theorem enter_twin (lawful : host.Lawful) (oblivious : host.Oblivious) (h : Base R χ s s') (stay : State.Twin R s s')
    {c c' : Callee} (twin : c.Twin R χ s.store.frames c') (arguments : List Value) :
    State.Twin R (enter host s c arguments) (enter host s' c' arguments) := by
  cases twin with
  | function twin =>
    cases twin with
    | closure twin => exact enterClosure_twin h twin arguments
    | native n => exact enterNative_twin lawful oblivious h stay n arguments
  | «class» r twin => exact enterClass_twin lawful oblivious h r twin arguments

theorem realize_twin (h : Base R χ s s') {p p' : Property} (twin : p.Twin R χ s.store.frames p') :
    (s'.realize p').1 = (s.realize p).1 ∧ ∃ χ', χ.Extends s.store.frames χ' (s.realize p).2.store.frames ∧
      Base R χ' (s.realize p).2 (s'.realize p').2 := by
  obtain ⟨value, χ', wider, stores⟩ := h.store.realize twin
  exact ⟨value, χ', wider, h.withStore stores wider⟩

theorem setField_twin (h : Base R χ s s') (r : Ref .object) (name : String) (v : Value) :
    Base R χ { s with store := s.store.setField r name v } { s' with store := s'.store.setField r name v } := by
  obtain ⟨twin, wider⟩ := h.store.kept (.setField s.store r name v) (.setField s'.store r name v)
    (h.store.looks.setField r name v)
  exact h.withStore twin wider

theorem subscript_twin (h : Base R χ s s') (object position : Value) (line : Nat) :
    State.Twin R (subscript s object position line) (subscript s' object position line) := by
  cases object with
  | text t => exact h.answer line _
  | «instance» r =>
    obtain ⟨hp, hp'⟩ | ⟨p, p', hp, hp', twin⟩ := rel_cases (h.store.property? r "at")
    · simp only [subscript, hp, hp']
      exact h.fail _
    · obtain ⟨value, χ', -, after⟩ := realize_twin h twin
      simp only [subscript, hp, hp', value]
      exact after.go (.invoke _ [position] (.script line))
  | _ => exact h.fail _

theorem binary_twin (h : Base R χ s s') (op : Token) (v w : Value) : binary s'.store op v w = binary s.store op v w :=
  binary_of_display h.store.looks.display op v w

/-- A value is handed on, of a member that is there in both. -/
theorem resume_get_twin (h : Base R χ s s') (v : Value) (name : Name) :
    State.Twin R (resume s v (.get name)) (resume s' v (.get name)) := by
  obtain ⟨hp, hp'⟩ | ⟨p, p', hp, hp', twin⟩ := rel_cases (h.store.member? v name.text)
  · cases v with
    | «instance» | «class» =>
      simp only [resume, hp, hp']
      exact h.fail _
    | _ => exact h.fail _
  · obtain ⟨value, χ', -, after⟩ := realize_twin h twin
    cases v with
    | «instance» | «class» =>
      simp only [resume, hp, hp', value]
      exact after.give _
    | _ => exact h.fail _

theorem resume_twin (h : Base R χ s s') (v : Value) {p p' : Pending} (twin : p.Twin (Code R χ s.store.frames [] s.frame) p')
    (inside : p.outside? = none) : State.Twin R (resume s v p) (resume s' v p') := by
  cases twin with
  | unary op => exact h.answer op.line _
  | binaryRight op right => exact h.push (.binary v op) rfl (.evaluate right)
  | binary left op =>
    simp only [resume, binary_twin h]
    exact h.answer op.line _
  | logical op right =>
    simp only [resume]
    split
    · exact h.give v
    · exact h.go (.evaluate right)
  | ternary yes no =>
    simp only [resume]
    split
    · exact h.go (.evaluate yes)
    · exact h.go (.evaluate no)
  | @assign id id' name name' code =>
    obtain ⟨bs, marked, recast⟩ := code
    have recast : Recast R bs (.expr (.variable id name)) (.expr (.variable id' name')) := recast
    cases recast with
    | «variable» proper =>
      obtain ⟨target, mark⟩ := h.target? marked id name.text
      rw [← h.world.fits.text_use] at target
      simp only [resume, target]
      cases ht : s.target? id name.text with
      | none => exact h.go (.raise (undefined_twin proper))
      | some g =>
        have text := h.world.fits.text_use bs id name
        rw [mark g ht] at text
        simp only [text]
        exact (h.write g name.text v).give v
  | callee line code => exact evaluateArguments_twin h v [] code
  | arguments f done line code => exact evaluateArguments_twin h f (done ++ [v]) code
  | get name => exact resume_get_twin h v name
  | setObject name value =>
    cases v with
    | «instance» r => exact h.push (.setField r name) rfl (.evaluate value)
    | _ => exact h.fail _
  | setField r name => exact (setField_twin h r name.text v).give v
  | updateObject name op value =>
    cases v with
    | «instance» r =>
      obtain ⟨hp, hp'⟩ | ⟨p, p', hp, hp', twin⟩ := rel_cases (h.store.property? r name.text)
      · simp only [resume, hp, hp']
        exact h.fail _
      · obtain ⟨current, χ', wider, after⟩ := realize_twin h twin
        simp only [resume, hp, hp', current]
        exact after.push (.updateField r name _ op) rfl (.evaluate (value.mono wider))
    | _ => exact h.fail _
  | updateField r name current op =>
    simp only [resume, binary_twin h]
    cases binary s.store op current v with
    | ok updated => exact (setField_twin h r name.text updated).give updated
    | error fault => exact h.fail _
  | indexObject line position => exact h.push (.index v line) rfl (.evaluate position)
  | index object line => exact subscript_twin h object v line
  | expression => exact h.go (.flow .normal)
  | print =>
    simp only [resume, h.store.looks.display, h.world.console]
    exact (h.withConsole _).go (.flow .normal)
  | @var name name' code =>
    obtain ⟨bs, marked, recast⟩ := code
    have recast : Recast R bs (.stmt (.var name none)) (.stmt (.var name' none)) := recast
    cases recast with
    | plainVariable =>
      have defined := h.define name.text v
      rw [← marked.head] at defined
      exact defined.go (.flow .normal)
  | conditional code =>
    obtain ⟨bs, marked, recast⟩ := code
    cases recast with
    | ifThen condition yes =>
      simp only [resume]
      split
      · exact h.go (.execute ⟨bs, marked, yes⟩)
      · exact h.go (.flow .normal)
    | ifElse condition yes no =>
      simp only [resume]
      split
      · exact h.go (.execute ⟨bs, marked, yes⟩)
      · exact h.go (.execute ⟨bs, marked, no⟩)
  | loopCondition code =>
    obtain ⟨bs, marked, recast⟩ := code
    cases recast with
    | loop condition repeated =>
      simp only [resume]
      split
      · exact h.push (.loopBody ⟨bs, marked, .loop condition repeated⟩) rfl (.execute ⟨bs, marked, repeated⟩)
      · exact h.go (.flow .normal)
  | «return» => exact h.go (.flow (.return v))
  | @base d d' code =>
    have name : d'.name = d.name := by
      obtain ⟨bs, -, recast⟩ := code
      cases recast <;> rfl
    cases v with
    | «class» r => exact declareClass_twin h code
    | _ =>
      simp only [resume, name]
      exact h.fail _
  | constructed r => exact h.give (.instance r)
  | site line => exact h.give v
  | nativeCall => exact h.give v
  | sequence rest => exact h.push (.sequence rest) rfl (.value v)
  | program rest => exact h.push (.program rest) rfl (.value v)
  | loopBody code => exact h.push (.loopBody code) rfl (.value v)
  | leave outside => cases inside
  | body outside frame kind => cases inside

theorem bodyResult_twin (h : s.store.Twin R χ s'.store) {c c' : Closure} (frame : c'.frame = c.frame)
    (kind : c'.kind = c.kind) (flow : Flow) : bodyResult s'.store c' flow = bodyResult s.store c flow := by
  unfold bodyResult
  rw [frame, kind, h.frames.fetch_this]

theorem proceed_twin (h : Base R χ s s') (flow : Flow) {p p' : Pending}
    (twin : p.Twin (Code R χ s.store.frames [] s.frame) p') (inside : p.outside? = none) :
    State.Twin R (proceed s flow p) (proceed s' flow p') := by
  have again : State.Twin R (s.push p (.flow flow)) (s'.push p' (.flow flow)) := h.push twin inside (.flow flow)
  cases twin with
  | sequence rest =>
    cases flow with
    | normal => exact h.go (.sequence rest)
    | _ => exact h.go (.flow _)
  | program rest => exact h.go (.program rest)
  | loopBody code =>
    obtain ⟨bs, marked, recast⟩ := code
    cases recast with
    | loop condition repeated =>
      cases flow with
      | «break» => exact h.go (.flow .normal)
      | «return» v => exact h.go (.flow (.return v))
      | _ => exact h.push (.loopCondition ⟨bs, marked, .loop condition repeated⟩) rfl (.evaluate ⟨bs, marked, condition⟩)
  | leave outside => cases inside
  | body outside frame kind => cases inside
  | _ => exact again

theorem unwind_twin (h : Base R χ s s') {e e' : Failure} (failure : e.Twin R.old R.new e') {p p' : Pending}
    (twin : p.Twin (Code R χ s.store.frames [] s.frame) p') (inside : p.outside? = none) :
    State.Twin R (unwind s e p) (unwind s' e' p') := by
  cases twin with
  | leave outside => cases inside
  | body outside frame kind => cases inside
  | site line => exact h.go (.raise (failure.at line))
  | nativeCall => exact h.go (.raise (.native failure))
  | _ => exact h.go (.raise failure)

/-- Nothing is pending, or the work on top can be taken off. -/
theorem Base.pending_cases (h : Base R χ s s') : s.pending = [] ∧ s'.pending = [] ∨
    ∃ p rest p' rest', s.pending = p :: rest ∧ s'.pending = p' :: rest' ∧
      p.Twin (Code R χ s.store.frames [] s.frame) p' ∧
      Base R χ { s with pending := rest, frame := p.outside?.getD s.frame }
        { s' with pending := rest', frame := p.outside?.getD s.frame } := by
  have pending := h.pending
  cases hp : s.pending with
  | nil =>
    cases hp' : s'.pending with
    | nil => exact .inl ⟨rfl, rfl⟩
    | cons p' rest' =>
      rw [hp, hp'] at pending
      cases pending
  | cons p rest =>
    cases hp' : s'.pending with
    | nil =>
      rw [hp, hp'] at pending
      cases pending
    | cons p' rest' =>
      rw [hp, hp'] at pending
      exact .inr ⟨p, rest, p', rest', rfl, rfl, pending.1, h.world, rfl, pending.2⟩

theorem Pending.Twin.outside_cases {C : Part → Part → Prop} {p p' : Pending} (h : p.Twin C p') :
    p.outside? = none ∨ (∃ g, p = .leave g ∧ p' = .leave g) ∨
      ∃ c c' g, p = .body c g ∧ p' = .body c' g ∧ c'.frame = c.frame ∧ c'.kind = c.kind := by
  cases h with
  | leave g => exact .inr (.inl ⟨g, rfl, rfl⟩)
  | body g frame kind => exact .inr (.inr ⟨_, _, g, rfl, rfl, frame, kind⟩)
  | _ => exact .inl rfl

theorem step_twin (lawful : host.Lawful) (oblivious : host.Oblivious) (h : State.Twin R s s') :
    State.Twin R (step host s) (step host s') := by
  have stay := h
  obtain ⟨χ, base, control⟩ := h
  obtain ⟨world, c, frame, pending⟩ := s
  obtain ⟨world', c', frame', pending'⟩ := s'
  obtain rfl : frame' = frame := base.frame
  have control : c.Twin R χ world.store.frames frame' c' := control
  cases control with
  | evaluate code => exact evaluate_twin base code
  | execute code => exact execute_twin base code
  | sequence code =>
    obtain ⟨bs, marked, recast⟩ := code
    cases recast with
    | nil => exact base.go (.flow .normal)
    | cons first rest => exact base.push (.sequence ⟨bs, marked, rest⟩) rfl (.execute ⟨bs, marked, first⟩)
  | program code =>
    obtain ⟨bs, marked, recast⟩ := code
    cases recast with
    | nil => exact base.go (.flow .normal)
    | cons first rest => exact base.push (.program ⟨bs, marked, rest⟩) rfl (.execute ⟨bs, marked, first⟩)
  | invoke callee arguments site => exact invoke_twin base callee arguments site
  | enter arguments twin => exact enter_twin lawful oblivious base stay twin arguments
  | value v =>
    obtain ⟨rfl, rfl⟩ | ⟨p, rest, p', rest', rfl, rfl, twin, popped⟩ := base.pending_cases
    · exact stay
    · obtain inside | ⟨g, rfl, rfl⟩ | ⟨c, c', g, rfl, rfl, frame, kind⟩ := twin.outside_cases
      · rw [inside] at popped
        exact resume_twin popped v twin inside
      · exact stay
      · exact stay
  | flow flow =>
    obtain ⟨rfl, rfl⟩ | ⟨p, rest, p', rest', rfl, rfl, twin, popped⟩ := base.pending_cases
    · exact stay
    · obtain inside | ⟨g, rfl, rfl⟩ | ⟨c, c', g, rfl, rfl, frame, kind⟩ := twin.outside_cases
      · rw [inside] at popped
        exact proceed_twin popped flow twin inside
      · exact popped.go (.flow flow)
      · have result := bodyResult_twin popped.store frame kind flow
        simp only [step, proceed]
        rw [result]
        exact popped.give _
  | raise failure =>
    obtain ⟨rfl, rfl⟩ | ⟨p, rest, p', rest', rfl, rfl, twin, popped⟩ := base.pending_cases
    · exact stay
    · obtain inside | ⟨g, rfl, rfl⟩ | ⟨c, c', g, rfl, rfl, frame, kind⟩ := twin.outside_cases
      · rw [inside] at popped
        exact unwind_twin popped failure twin inside
      · exact popped.go (.raise failure)
      · exact popped.go (.raise failure)

theorem run_twin (lawful : host.Lawful) (oblivious : host.Oblivious) (h : State.Twin R s s') (n : Nat) :
    State.Twin R (run host n s) (run host n s') := by
  induction n with
  | zero => exact h
  | succ n ih =>
    rw [run_step, run_step]
    exact step_twin lawful oblivious ih

/-- The same end, but for a name that a failure quotes. -/
inductive Outcome.Twin (old new : String) : Outcome → Outcome → Prop
  | value (v : Value) : Twin old new (.value v) (.value v)
  | flow (flow : Flow) : Twin old new (.flow flow) (.flow flow)
  | failure {e e' : Failure} : e.Twin old new e' → Twin old new (.failure e) (.failure e')

theorem outcome?_twin (h : State.Twin R s s') : Option.Rel (Outcome.Twin R.old R.new) s.outcome? s'.outcome? := by
  obtain ⟨χ, base, control⟩ := h
  obtain ⟨world, c, frame, pending⟩ := s
  obtain ⟨world', c', frame', pending'⟩ := s'
  have control : c.Twin R χ world.store.frames frame c' := control
  obtain ⟨rfl, rfl⟩ | ⟨p, rest, p', rest', rfl, rfl, -⟩ := base.pending_cases
  · cases control with
    | value v => exact .some (.value v)
    | flow flow => exact .some (.flow flow)
    | raise failure => exact .some (.failure failure)
    | _ => exact .none
  · exact .none

end Scriptlet.Machine
