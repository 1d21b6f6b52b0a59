import Scriptlet.Proofs.AlignedRuns
import Scriptlet.Proofs.TwinStores

/-!
States of two machines, one of which runs code recast from that of the other. All that is done and all that is pending
corresponds; failures are the same but for the name that they quote.
-/
namespace Scriptlet

/-- The distances of two programs tell the same, and where names have changed they are what the recasting goes by. -/
structure Recasting.Fits (R : Recasting) (d d' : Distances) : Prop where
  number : ∀ id, d'.get? (R.number id) = d.get? id
  distance : R.old = R.new ∨ ∀ id, R.distance? id = d.get? id

theorem Recasting.Fits.text_use {R : Recasting} {d d' : Distances} (h : R.Fits d d') (bs : List Bool) (id : NodeId)
    (name : Name) : (R.use bs id name).text = R.word (markedAt bs (d.get? id)) name.text := by
  rcases h.distance with same | distance
  · simp only [Recasting.use, Recasting.declare, R.word_of_eq same]
  · simp only [Recasting.use, Recasting.declare, distance]

/-- Failures that are the same but for a name that they quote, which may have gone through natives. -/
inductive Failure.Twin (old new : String) : Failure → Failure → Prop
  | same (e : Failure) : Twin old new e e
  | renamed (line : Nat) : Twin old new (.runtime line (.undefinedVariable old)) (.runtime line (.undefinedVariable new))
  | native {e e' : Failure} : Twin old new e e' → Twin old new (.native (.custom e.display)) (.native (.custom e'.display))
  | called {e e' : Failure} (line : Nat) : Twin old new e e' →
      Twin old new (.runtime line (.custom e.display)) (.runtime line (.custom e'.display))

theorem Failure.Twin.at {old new : String} {e e' : Failure} (h : e.Twin old new e') (line : Nat) :
    (e.at line).Twin old new (e'.at line) := by
  cases h with
  | same e => exact .same _
  | renamed line => exact .renamed line
  | native h => exact .called line h
  | called line h => exact .called line h

theorem Failure.Twin.eq {name : String} {e e' : Failure} (h : e.Twin name name e') : e' = e := by
  induction h with
  | same e => rfl
  | renamed line => rfl
  | native _ ih => rw [ih]
  | called line _ ih => rw [ih]

namespace Machine

/-- Pending work of two machines, where `C` relates their code. What waits for a part of a construct is related to what
waits for the part of the other one. -/
inductive Pending.Twin (C : Part → Part → Prop) : Pending → Pending → Prop
  | unary (op : Token) : Twin C (.unary op) (.unary op)
  | binaryRight {e e' : Expr} (op : Token) : C (.expr e) (.expr e') → Twin C (.binaryRight op e) (.binaryRight op e')
  | binary (v : Value) (op : Token) : Twin C (.binary v op) (.binary v op)
  | logical {e e' : Expr} (op : Token) : C (.expr e) (.expr e') → Twin C (.logical op e) (.logical op e')
  | ternary {yes yes' no no' : Expr} : C (.expr yes) (.expr yes') → C (.expr no) (.expr no') →
      Twin C (.ternary yes no) (.ternary yes' no')
  | assign {id id' : NodeId} {name name' : Name} : C (.expr (.variable id name)) (.expr (.variable id' name')) →
      Twin C (.assign id name) (.assign id' name')
  | callee {f f' : Expr} {es es' : List Expr} (line : Nat) : C (.expr (.call f es line)) (.expr (.call f' es' line)) →
      Twin C (.callee es line) (.callee es' line)
  | arguments {f f' : Expr} {es es' : List Expr} (v : Value) (done : List Value) (line : Nat) :
      C (.expr (.call f es line)) (.expr (.call f' es' line)) →
      Twin C (.arguments v done es line) (.arguments v done es' line)
  | get (name : Name) : Twin C (.get name) (.get name)
  | setObject {e e' : Expr} (name : Name) : C (.expr e) (.expr e') → Twin C (.setObject name e) (.setObject name e')
  | setField (r : Ref .object) (name : Name) : Twin C (.setField r name) (.setField r name)
  | updateObject {e e' : Expr} (name : Name) (op : Token) : C (.expr e) (.expr e') →
      Twin C (.updateObject name op e) (.updateObject name op e')
  | updateField (r : Ref .object) (name : Name) (v : Value) (op : Token) :
      Twin C (.updateField r name v op) (.updateField r name v op)
  | indexObject {e e' : Expr} (line : Nat) : C (.expr e) (.expr e') → Twin C (.indexObject e line) (.indexObject e' line)
  | index (v : Value) (line : Nat) : Twin C (.index v line) (.index v line)
  | expression : Twin C .expression .expression
  | print : Twin C .print .print
  | var {name name' : Name} : C (.stmt (.var name none)) (.stmt (.var name' none)) → Twin C (.var name) (.var name')
  | conditional {e e' : Expr} {yes yes' : Stmt} {no no' : Option Stmt} :
      C (.stmt (.conditional e yes no)) (.stmt (.conditional e' yes' no')) →
      Twin C (.conditional yes no) (.conditional yes' no')
  | loopCondition {e e' : Expr} {x x' : Stmt} : C (.stmt (.loop e x)) (.stmt (.loop e' x')) →
      Twin C (.loopCondition e x) (.loopCondition e' x')
  | return : Twin C .return .return
  | base {d d' : ClassDeclaration} : C (.stmt (.class d)) (.stmt (.class d')) → Twin C (.base d) (.base d')
  | sequence {xs xs' : List Stmt} : C (.stmts xs) (.stmts xs') → Twin C (.sequence xs) (.sequence xs')
  | program {xs xs' : List Stmt} : C (.stmts xs) (.stmts xs') → Twin C (.program xs) (.program xs')
  | loopBody {e e' : Expr} {x x' : Stmt} : C (.stmt (.loop e x)) (.stmt (.loop e' x')) →
      Twin C (.loopBody e x) (.loopBody e' x')
  | leave (outside : Ref .frame) : Twin C (.leave outside) (.leave outside)
  | body {c c' : Closure} (outside : Ref .frame) : c'.frame = c.frame → c'.kind = c.kind →
      Twin C (.body c outside) (.body c' outside)
  | constructed (r : Ref .object) : Twin C (.constructed r) (.constructed r)
  | site (line : Nat) : Twin C (.site line) (.site line)
  | nativeCall : Twin C .nativeCall .nativeCall

theorem Pending.Twin.imp {C D : Part → Part → Prop} (imp : ∀ p p', C p p' → D p p') {p p' : Pending} (h : p.Twin C p') :
    p.Twin D p' := by
  cases h with
  | binaryRight op code => exact .binaryRight op (imp _ _ code)
  | logical op code => exact .logical op (imp _ _ code)
  | ternary yes no => exact .ternary (imp _ _ yes) (imp _ _ no)
  | assign code => exact .assign (imp _ _ code)
  | callee line code => exact .callee line (imp _ _ code)
  | arguments v done line code => exact .arguments v done line (imp _ _ code)
  | setObject name code => exact .setObject name (imp _ _ code)
  | updateObject name op code => exact .updateObject name op (imp _ _ code)
  | indexObject line code => exact .indexObject line (imp _ _ code)
  | var code => exact .var (imp _ _ code)
  | conditional code => exact .conditional (imp _ _ code)
  | loopCondition code => exact .loopCondition (imp _ _ code)
  | base code => exact .base (imp _ _ code)
  | sequence code => exact .sequence (imp _ _ code)
  | program code => exact .program (imp _ _ code)
  | loopBody code => exact .loopBody (imp _ _ code)
  | body outside frame kind => exact .body outside frame kind
  | _ => constructor

variable (R : Recasting) (χ : Marks)

/-- Pending work from frame `f` on; where a frame is left the rest is for the frame outside. -/
def Stacked (fs : Frames) : Ref .frame → List Pending → List Pending → Prop
  | _, [], [] => True
  | f, p :: ps, p' :: ps' => p.Twin (Code R χ fs [] f) p' ∧ Stacked fs (p.outside?.getD f) ps ps'
  | _, _, _ => False

inductive Control.Twin (fs : Frames) (f : Ref .frame) : Control → Control → Prop
  | evaluate {e e' : Expr} : Code R χ fs [] f (.expr e) (.expr e') → Twin fs f (.evaluate e) (.evaluate e')
  | execute {x x' : Stmt} : Code R χ fs [] f (.stmt x) (.stmt x') → Twin fs f (.execute x) (.execute x')
  | sequence {xs xs' : List Stmt} : Code R χ fs [] f (.stmts xs) (.stmts xs') → Twin fs f (.sequence xs) (.sequence xs')
  | program {xs xs' : List Stmt} : Code R χ fs [] f (.stmts xs) (.stmts xs') → Twin fs f (.program xs) (.program xs')
  | invoke (callee : Value) (arguments : List Value) (site : Site) :
      Twin fs f (.invoke callee arguments site) (.invoke callee arguments site)
  | enter {c c' : Callee} (arguments : List Value) : c.Twin R χ fs c' → Twin fs f (.enter c arguments) (.enter c' arguments)
  | value (v : Value) : Twin fs f (.value v) (.value v)
  | flow (flow : Flow) : Twin fs f (.flow flow) (.flow flow)
  | raise {e e' : Failure} : e.Twin R.old R.new e' → Twin fs f (.raise e) (.raise e')

/-- Worlds that correspond. -/
structure WorldTwin (w w' : World) : Prop where
  store : w.store.Twin R χ w'.store
  console : w'.console = w.console
  fits : R.Fits w.distances w'.distances

/-- All but what is done now. -/
structure Base (s s' : State) : Prop where
  world : WorldTwin R χ s.toWorld s'.toWorld
  frame : s'.frame = s.frame
  pending : Stacked R χ s.store.frames s.frame s.pending s'.pending

def State.Twin (R : Recasting) (s s' : State) : Prop :=
  ∃ χ, Base R χ s s' ∧ s.control.Twin R χ s.store.frames s.frame s'.control

variable {R : Recasting} {χ χ' : Marks} {fs fs' : Frames} {f : Ref .frame}

theorem Stacked.mono {ps ps' : List Pending} (h : Stacked R χ fs f ps ps') (e : χ.Extends fs χ' fs') :
    Stacked R χ' fs' f ps ps' := by
  induction ps generalizing f ps' with
  | nil =>
    cases ps' with
    | nil => trivial
    | cons p' ps' => cases h
  | cons p ps ih =>
    cases ps' with
    | nil => cases h
    | cons p' ps' => exact ⟨h.1.imp fun _ _ code => code.mono e, ih h.2⟩

namespace Base

variable {s s' : State} (h : Base R χ s s')
include h

theorem store : s.store.Twin R χ s'.store := h.world.store

theorem go {c c' : Control} (control : c.Twin R χ s.store.frames s.frame c') :
    State.Twin R (s.go c) (s'.go c') :=
  ⟨χ, ⟨h.world, h.frame, h.pending⟩, control⟩

theorem give (v : Value) : State.Twin R (s.give v) (s'.give v) := h.go (.value v)

theorem fail (e : Failure) : State.Twin R (s.go (.raise e)) (s'.go (.raise e)) :=
  h.go (.raise (.same e))

theorem answer (line : Nat) (r : Except Fault Value) : State.Twin R (s.answer line r) (s'.answer line r) := by
  cases r with
  | ok v => exact h.give v
  | error fault => exact h.fail _

/-- Work for later is put aside that stays in this frame. -/
theorem push {p p' : Pending} (twin : p.Twin (Code R χ s.store.frames [] s.frame) p')
    (inside : p.outside? = none) {c c' : Control} (control : c.Twin R χ s.store.frames s.frame c') :
    State.Twin R (s.push p c) (s'.push p' c') := by
  refine ⟨χ, ⟨h.world, h.frame, twin, ?_⟩, control⟩
  rw [inside]
  exact h.pending

theorem withStore {store store' : Store} (twin : store.Twin R χ' store')
    (e : χ.Extends s.store.frames χ' store.frames) : Base R χ' { s with store } { s' with store := store' } :=
  ⟨⟨twin, h.world.console, h.world.fits⟩, h.frame, h.pending.mono e⟩

theorem withConsole (console : Console) : Base R χ { s with console } { s' with console } :=
  ⟨⟨h.world.store, rfl, h.world.fits⟩, h.frame, h.pending⟩

/-- A name is bound, under the spelling of the frame. -/
theorem write (f : Ref .frame) (x : String) (v : Value) : Base R χ (s.write f x v) (s'.write f (R.word (χ f) x) v) :=
  h.withStore (h.store.define f x v) (.define χ _ f x v)

theorem define (x : String) (v : Value) : Base R χ (s.define x v) (s'.define (R.word (χ s.frame) x) v) := by
  unfold State.define
  rw [h.frame]
  exact h.write s.frame x v

/-- A node finds the same under the name it uses. -/
theorem lookup {bs : List Bool} (marked : Marked χ s.store.frames s.frame bs) (id : NodeId)
    (x : String) : s'.lookup (R.number id) (R.word (markedAt bs (s.distances.get? id)) x) = s.lookup id x := by
  unfold State.lookup
  rw [h.world.fits.number, h.frame]
  cases s.distances.get? id with
  | none => exact h.store.frames.fetch_unmarked h.store.unmarked x
  | some k =>
    simp only [Frames.getAt, h.store.frames.ancestor]
    cases ha : s.store.frames.ancestor s.frame k with
    | none => rfl
    | some g =>
      rw [marked.ancestor ha]
      exact h.store.frames.fetch g x

theorem lookup_this (id : NodeId) : s'.lookup (R.number id) "this" = s.lookup id "this" := by
  unfold State.lookup
  rw [h.world.fits.number, h.frame]
  cases s.distances.get? id with
  | none => exact h.store.frames.fetch_this _
  | some k =>
    simp only [Frames.getAt, h.store.frames.ancestor]
    cases s.store.frames.ancestor s.frame k with
    | none => rfl
    | some g => exact h.store.frames.fetch_this g

/-- A node assigns to the same frame, where it uses the name that the frame has. -/
theorem target? {bs : List Bool} (marked : Marked χ s.store.frames s.frame bs) (id : NodeId)
    (x : String) : s'.target? (R.number id) (R.word (markedAt bs (s.distances.get? id)) x) = s.target? id x ∧
      ∀ g, s.target? id x = some g → markedAt bs (s.distances.get? id) = χ g := by
  unfold State.target?
  rw [h.world.fits.number, h.frame]
  cases s.distances.get? id with
  | none =>
    refine ⟨?_, fun g hg => ?_⟩
    · have same := h.store.frames.fetch_unmarked h.store.unmarked x
      simp only [Frames.owner?_globals_eq]
      change (if (s'.store.frames.fetch Store.globals x).isSome then _ else _) = _
      rw [same]
    · rw [Frames.owner?_globals hg]
      exact h.store.unmarked.symm
  | some k => exact ⟨h.store.frames.ancestor _ k, fun g hg => marked.ancestor hg⟩

end Base

/-- A variable that is not there is reported under either name. -/
theorem undefined_twin {bs : List Bool} {id : NodeId} {name : Name} (proper : R.Proper bs id name) :
    Failure.Twin R.old R.new (.runtime name.line (.undefinedVariable name.text))
      (.runtime (R.use bs id name).line (.undefinedVariable (R.use bs id name).text)) := by
  rcases R.word_cases _ proper with same | ⟨old, new⟩
  · have text : (R.use bs id name).text = name.text := same
    rw [text]
    exact .same _
  · have text : (R.use bs id name).text = R.new := new
    rw [text, old]
    exact .renamed _

end Machine

end Scriptlet
