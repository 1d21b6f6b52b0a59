import Scriptlet.Proofs.SpareNames

/-!
Runs of updates. `o.f += v` evaluates `o` once, on its own, and from there on takes the course of `t.f = t.f + (v)` for
any variable `t` that holds the object, be it a new one. So through a word that names a variable or the receiver it takes
the course of the assignment that has the word twice.
-/
namespace Scriptlet

open Scriptlet.Parser.Name (ofToken)

/-- `object.f = again.f op (value)`, where `again` is what stands for the object when it is read. -/
def Expr.spelledUpdate (object again : Expr) (f : Name) (op : Token) (value : Expr) : Expr :=
  .set object f (.binary (.get again f) op (.group value))

/-- The name of what a word stands for that names a variable or is the word for the receiver. -/
def Token.referent (a : Token) : String := if a.isKeyword .this then "this" else a.lexeme

/-- The node of such a word. -/
def Token.occurrence (a : Token) (id : NodeId) : Expr :=
  if a.isKeyword .this then .this id a.line else .variable id (ofToken a)

namespace Machine

variable {host : Host} {s : State} {w : Value} {object again v : Expr} {f x : Name} {op a : Token} {below : List Pending}
  {id id' : NodeId}

/-- Evaluating the expression takes one step, which yields the value. -/
def State.Holds (s : State) (e : Expr) (w : Value) : Prop :=
  ∀ control pending, evaluate { s with control, pending } e = { s with control := .value w, pending }

theorem State.Holds.parallel (h : s.Holds object w) (pending : List Pending) :
    Parallel host { s with control := .evaluate object, pending } { s with control := .value w, pending } :=
  .of_step (h _ pending) rfl

theorem holds_variable (h : s.lookup id x.text = some w) : s.Holds (.variable id x) w := by
  intro control pending
  have found : State.lookup { s with control, pending } id x.text = some w := h
  simp only [evaluate, found]
  rfl

theorem evaluate_occurrence (s : State) (a : Token) (id : NodeId) :
    evaluate s (a.occurrence id) = match s.lookup id a.referent with
      | some v => s.give v
      | none => s.raise a.line (.undefinedVariable a.referent) := by
  unfold Token.occurrence Token.referent
  split <;> rfl

theorem holds_occurrence (h : s.lookup id a.referent = some w) : s.Holds (a.occurrence id) w := by
  intro control pending
  have found : State.lookup { s with control, pending } id a.referent = some w := h
  simp only [evaluate_occurrence, found]
  rfl

/-- Brackets around a right operand do not show. -/
theorem parallel_group (s : State) (left : Expr) (op : Token) (v : Expr) :
    Parallel host (s.go (.evaluate (.binary left op v))) (s.go (.evaluate (.binary left op (.group v)))) := by
  have opened (right : Expr) : Parallel host (s.go (.evaluate (.binary left op right)))
      ((s.go (.evaluate left)).alone.under (.binaryRight op right :: s.pending)) := .of_step rfl rfl
  apply (opened v).trans
  apply Parallel.trans _ (opened (.group v)).symm
  apply Parallel.under (List.cons_ne_nil _ _) (List.cons_ne_nil _ _)
  intro n halted
  generalize run host n (s.go (.evaluate left)).alone = u at halted
  obtain ⟨world, control, frame, pending⟩ := u
  obtain ⟨rfl, ⟨w, rfl⟩ | ⟨flow, rfl⟩ | ⟨e, rfl⟩⟩ := outcome?_isSome halted
  · exact (Parallel.of_step rfl rfl).trans (.symm ((Parallel.of_step rfl rfl).trans (.of_step rfl rfl)))
  · exact .of_stuck rfl rfl rfl rfl rfl
  · exact (Parallel.of_step rfl rfl).trans (.symm (.of_step rfl rfl))

/-- One step updates a field, or two compute its value and set it. -/
theorem parallel_updateField (s : State) (r : Ref .object) (f : Name) (current : Value) (op : Token) (w : Value) :
    Parallel host (s.push (.updateField r f current op) (.value w))
      { s with control := .value w, pending := .binary current op :: .setField r f :: s.pending } := by
  let computing : State := { s with control := .value w, pending := .binary current op :: .setField r f :: s.pending }
  cases computed : binary s.store op current w with
  | ok updated =>
    have answered : step host computing = s.push (.setField r f) (.value updated) := by
      simp only [computing, step, resume, computed]
      rfl
    apply Parallel.trans _ (Parallel.of_step answered rfl).symm
    refine .of_steps rfl rfl rfl ?_
    simp only [State.push, step, resume, computed]
    exact .refl _
  | error fault =>
    have failed : step host computing = s.push (.setField r f) (.raise (.runtime op.line fault)) := by
      simp only [computing, step, resume, computed]
      rfl
    apply Parallel.trans _ ((Parallel.of_step failed rfl).trans (.of_step rfl rfl)).symm
    refine .of_step ?_ rfl
    simp only [State.push, step, resume, computed]
    rfl

/-- What becomes of the outcome of the value, on either side. -/
theorem parallel_outcome (r : Ref .object) (f : Name) (current : Value) (op : Token) {u : State}
    (halted : u.outcome?.isSome = true) :
    Parallel host (u.under (.updateField r f current op :: below))
      (u.under (.binary current op :: .setField r f :: below)) := by
  obtain ⟨world, control, frame, pending⟩ := u
  obtain ⟨rfl, ⟨w, rfl⟩ | ⟨flow, rfl⟩ | ⟨e, rfl⟩⟩ := outcome?_isSome halted
  · exact parallel_updateField ⟨world, .value w, frame, below⟩ r f current op w
  · exact .of_stuck rfl rfl rfl rfl rfl
  · exact (Parallel.of_step rfl rfl).trans (.symm ((Parallel.of_step rfl rfl).trans (.of_step rfl rfl)))

/-- An assignment to a field of an object, where the word for the object has been read twice and the field not yet. -/
theorem parallel_spelledUpdate {r : Ref .object} (holds : s.Holds object (.instance r))
    (holds' : s.Holds again (.instance r)) :
    Parallel host (s.go (.evaluate (.spelledUpdate object again f op v)))
      { s with control := .value (.instance r),
               pending := .get f :: .binaryRight op (.group v) :: .setField r f :: s.pending } := by
  have target : Parallel host (s.go (.evaluate (.spelledUpdate object again f op v)))
      (s.push (.setField r f) (.evaluate (.binary (.get again f) op (.group v)))) :=
    (Parallel.of_step rfl rfl).trans ((holds.parallel _).trans (.of_step rfl rfl))
  exact target.trans ((Parallel.of_step rfl rfl).trans ((Parallel.of_step rfl rfl).trans (holds'.parallel _)))

/-- From there on an update does the same: both read the field, compute the value, and then combine the two. -/
theorem parallel_updateInstance (s : State) (r : Ref .object) (f : Name) (op : Token) (v : Expr) :
    Parallel host (s.push (.updateObject f op v) (.value (.instance r)))
      { s with control := .value (.instance r),
               pending := .get f :: .binaryRight op (.group v) :: .setField r f :: s.pending } := by
  let rest : List Pending := .setField r f :: s.pending
  let asking : State :=
    { s with control := .value (.instance r), pending := .get f :: .binaryRight op (.group v) :: rest }
  cases found : s.store.property? r f.text with
  | none =>
    have missing : step host asking =
        { s with control := .raise (.runtime f.line (.undefinedProperty f.text)),
                 pending := .binaryRight op (.group v) :: rest } := by
      simp only [asking, step, resume, Store.member?, found]
      rfl
    have failed : Parallel host asking (s.raise f.line (.undefinedProperty f.text)) :=
      (Parallel.of_step missing rfl).trans ((Parallel.of_step rfl rfl).trans (.of_step rfl rfl))
    apply Parallel.trans _ failed.symm
    refine .of_step ?_ rfl
    simp only [State.push, step, resume, found]
    rfl
  | some p =>
    let u : State := { s with store := (s.store.realize p).2, control := .evaluate v, pending := [] }
    let current := (s.store.realize p).1
    have updating : step host (s.push (.updateObject f op v) (.value (.instance r))) =
        u.under (.updateField r f current op :: s.pending) := by
      simp only [State.push, step, resume, found]
      rfl
    have assigning : Parallel host (step host asking) (u.under (.binary current op :: rest)) := by
      simp only [asking, step, resume, Store.member?, found]
      exact (Parallel.of_step rfl rfl).trans (.of_step rfl rfl)
    -- the field has been read on either side, which may have made a new function for a method
    refine .of_steps rfl rfl rfl ?_
    apply Parallel.trans _ assigning.symm
    rw [updating]
    exact Parallel.under (List.cons_ne_nil _ _) (List.cons_ne_nil _ _) fun n halted =>
      parallel_outcome r f current op halted

/-- Once the object is known, an update of its field is an assignment through what holds the object. -/
theorem parallel_updateObject (holds : s.Holds object w) (holds' : s.Holds again w) :
    Parallel host (s.push (.updateObject f op v) (.value w))
      (s.go (.evaluate (.spelledUpdate object again f op v))) := by
  cases w with
  | «instance» r => exact (parallel_updateInstance s r f op v).trans (parallel_spelledUpdate holds holds').symm
  | _ =>
    have refused : Parallel host (s.go (.evaluate (.spelledUpdate object again f op v))) (s.raise f.line .noFields) :=
      (Parallel.of_step rfl rfl).trans ((holds.parallel _).trans (.of_step rfl rfl))
    exact (Parallel.of_step rfl rfl).trans refused.symm

/-- An update through a word is the assignment that names the object by the word, twice. -/
theorem parallel_update_occurrence (same : s.distances.get? id' = s.distances.get? id) :
    Parallel host (s.go (.evaluate (.update (a.occurrence id) f op v)))
      (s.go (.evaluate (.spelledUpdate (a.occurrence id') (a.occurrence id) f op v))) := by
  have looked : s.lookup id' a.referent = s.lookup id a.referent := by rw [State.lookup, State.lookup, same]
  cases found : s.lookup id a.referent with
  | some w =>
    have object : Parallel host (s.go (.evaluate (.update (a.occurrence id) f op v)))
        (s.push (.updateObject f op v) (.value w)) :=
      (Parallel.of_step rfl rfl).trans ((holds_occurrence found).parallel _)
    exact object.trans (parallel_updateObject (holds_occurrence (looked.trans found)) (holds_occurrence found))
  | none =>
    have raises (i : NodeId) (unknown : s.lookup i a.referent = none) (p : Pending) :
        Parallel host (s.push p (.evaluate (a.occurrence i)))
          (s.push p (.raise (.runtime a.line (.undefinedVariable a.referent)))) := by
      refine .of_step ?_ rfl
      have unknown : (s.push p (.evaluate (a.occurrence i))).lookup i a.referent = none := unknown
      change evaluate (s.push p (.evaluate (a.occurrence i))) (a.occurrence i) = _
      rw [evaluate_occurrence, unknown]
      rfl
    let failed : State := s.raise a.line (.undefinedVariable a.referent)
    have passed : Parallel host (s.go (.evaluate (.update (a.occurrence id) f op v))) failed :=
      (Parallel.of_step rfl rfl).trans ((raises id found _).trans (.of_step rfl rfl))
    have passed' : Parallel host
        (s.go (.evaluate (.spelledUpdate (a.occurrence id') (a.occurrence id) f op v))) failed :=
      (Parallel.of_step rfl rfl).trans ((raises id' (looked.trans found) _).trans (.of_step rfl rfl))
    exact passed.trans passed'.symm

/-- Once the object is there, the rest is the assignment through any variable that holds it. -/
theorem parallel_held {t : Name} {u : State} (ended : u.outcome? = some (.value w)) (held : u.lookup id t.text = some w)
    (held' : u.lookup id' t.text = some w) :
    Parallel host (u.under (.updateObject f op v :: below))
      ((u.under below).go (.evaluate (.spelledUpdate (.variable id t) (.variable id' t) f op v))) := by
  obtain ⟨world, control, frame, pending⟩ := u
  obtain ⟨rfl, ⟨w', rfl⟩ | ⟨flow, rfl⟩ | ⟨e, rfl⟩⟩ := outcome?_isSome (Option.isSome_iff_exists.2 ⟨_, ended⟩)
  · cases ended
    let u : State := ⟨world, .value w, frame, below⟩
    have holds : u.Holds (.variable id t) w := holds_variable held
    have holds' : u.Holds (.variable id' t) w := holds_variable held'
    exact parallel_updateObject holds holds'
  · cases ended
  · cases ended

/-- The variable may be a new one, whose name is still free. -/
theorem parallelBut_held {o : Expr} {t : Name} {n : Nat} {frame : Ref .frame} {u : State}
    (spare : Spare host t.text (s.go (.evaluate (.update o f op v))))
    (reached : run host n (s.go (.evaluate o)).alone = u) (ended : u.outcome? = some (.value w))
    (held : (u.write frame t.text w).lookup id t.text = some w)
    (held' : (u.write frame t.text w).lookup id' t.text = some w) :
    ParallelBut t.text host (u.under (.updateObject f op v :: s.pending))
      (((u.under s.pending).write frame t.text w).go
        (.evaluate (.spelledUpdate (.variable id t) (.variable id' t) f op v))) := by
  obtain ⟨lawful, overlooks, proper, mentioned, pending, code⟩ := spare
  have object : t.text ∉ (Part.expr o).names := Part.notMem_child mentioned (.head _)
  have value : t.text ∉ (Part.expr v).names := Part.notMem_child mentioned (.tail _ (.head _))
  have alone : Spare host t.text (s.go (.evaluate o)).alone :=
    ⟨lawful, overlooks, proper, object, fun _ hp => absurd hp List.not_mem_nil, code⟩
  have after : Spare host t.text u := reached ▸ alone.run n
  have waiting : ∀ p ∈ .updateObject f op v :: s.pending, p.Lacks t.text := List.forall_mem_cons.2 ⟨value, pending⟩
  have spare : Spare host t.text (u.under (.updateObject f op v :: s.pending)) :=
    ⟨lawful, overlooks, proper, after.lacks.control, List.forall_mem_append.2 ⟨after.lacks.pending, waiting⟩,
      after.lacks.code⟩
  have bound : (u.write frame t.text w).outcome? = some (.value w) := ended
  exact spare.parallelBut (parallel_held bound held held')

/-- `o.f op= v` from a state. Until `o` is evaluated, the run is that of `o` on its own. From its value on, it takes the
course of `t.f = t.f op (v)` for any variable `t` that there is with that value; and for a new variable `t` that is given
the value, where the two differ in `t` alone. A failure of `o` is passed on. -/
structure UpdatesOnce (host : Host) (s : State) (o : Expr) (f : Name) (op : Token) (v : Expr) : Prop where
  object : ∀ n, (∀ m < n, (run host m (s.go (.evaluate o)).alone).outcome? = none) →
    run host (n + 1) (s.go (.evaluate (.update o f op v))) =
      (run host n (s.go (.evaluate o)).alone).under (.updateObject f op v :: s.pending)
  value : ∀ (u : State) w, u.outcome? = some (.value w) →
    ∀ t i i', u.lookup i t.text = some w → u.lookup i' t.text = some w →
      Parallel host (u.under (.updateObject f op v :: s.pending))
        ((u.under s.pending).go (.evaluate (.spelledUpdate (.variable i t) (.variable i' t) f op v)))
  fresh : ∀ t, Spare host t.text (s.go (.evaluate (.update o f op v))) →
    ∀ n u w, run host n (s.go (.evaluate o)).alone = u → u.outcome? = some (.value w) →
      ∀ frame i i', (u.write frame t.text w).lookup i t.text = some w → (u.write frame t.text w).lookup i' t.text = some w →
        ParallelBut t.text host (u.under (.updateObject f op v :: s.pending))
          (((u.under s.pending).write frame t.text w).go
            (.evaluate (.spelledUpdate (.variable i t) (.variable i' t) f op v)))
  failure : ∀ (u : State) e, u.outcome? = some (.failure e) →
    Parallel host (u.under (.updateObject f op v :: s.pending)) (u.under s.pending)

theorem updatesOnce (host : Host) (s : State) (o : Expr) (f : Name) (op : Token) (v : Expr) :
    UpdatesOnce host s o f op v := by
  constructor
  · intro n going
    rw [run_succ, ← run_under n going]
    rfl
  · intro u w ended t i i' held held'
    exact parallel_held ended held held'
  · intro t spare n u w reached ended frame i i' held held'
    exact parallelBut_held spare reached ended held held'
  · intro u e ended
    obtain ⟨world, control, frame, pending⟩ := u
    obtain ⟨rfl, ⟨w, rfl⟩ | ⟨flow, rfl⟩ | ⟨e', rfl⟩⟩ := outcome?_isSome (Option.isSome_iff_exists.2 ⟨_, ended⟩)
    · cases ended
    · cases ended
    · exact .of_step rfl rfl

end Machine

end Scriptlet
