import Mathlib.Logic.Equiv.Basic
import Scriptlet.Proofs.Relabel

/-!
Programs that differ in what nothing depends on: in the numbers of their nodes, and in the name of local variables. In
some scopes, which are marked, a name and another one have changed places; so they have in every use of a variable that
lives in such a scope. `Recast` relates two such parts, where a list tells of each scope around the part whether it is
marked, the innermost first.
-/
namespace Scriptlet

structure Recasting where
  number : NodeId → NodeId
  /-- How far out the variable of a node lives. -/
  distance? : NodeId → Option Nat
  old : String
  new : String
  old_ne : old ≠ "this"
  new_ne : new ≠ "this"

/-- Whether the scope at that distance is marked. -/
def markedAt (marks : List Bool) (distance? : Option Nat) : Bool := (distance?.bind (marks[·]?)).getD false

namespace Recasting

variable (R : Recasting)

/-- How the names of a scope are spelled. -/
def word (marked : Bool) (x : String) : String := if marked then Equiv.swap R.old R.new x else x

def declare (marked : Bool) (name : Name) : Name := { name with text := R.word marked name.text }

def use (marks : List Bool) (id : NodeId) (name : Name) : Name := R.declare (markedAt marks (R.distance? id)) name

/-- Only the old name is replaced where a marked variable is used. -/
def Proper (marks : List Bool) (id : NodeId) (name : Name) : Prop :=
  markedAt marks (R.distance? id) = true → name.text ≠ R.new

@[simp]
theorem word_false (x : String) : R.word false x = x := rfl

theorem word_injective (marked : Bool) : Function.Injective (R.word marked) := by
  cases marked with
  | false => exact fun _ _ h => h
  | true => exact (Equiv.swap R.old R.new).injective

@[simp]
theorem word_this (marked : Bool) : R.word marked "this" = "this" := by
  cases marked with
  | false => rfl
  | true => exact Equiv.swap_apply_of_ne_of_ne R.old_ne.symm R.new_ne.symm

/-- A name other than the new one is spelled as it was, or it is the old one. -/
theorem word_cases (marked : Bool) {x : String} (h : marked = true → x ≠ R.new) :
    R.word marked x = x ∨ x = R.old ∧ R.word marked x = R.new := by
  cases marked with
  | false => exact .inl rfl
  | true =>
    by_cases old : x = R.old
    · subst old
      exact .inr ⟨rfl, Equiv.swap_apply_left _ _⟩
    · exact .inl (Equiv.swap_apply_of_ne_of_ne old (h rfl))

theorem word_of_eq (h : R.old = R.new) (marked : Bool) (x : String) : R.word marked x = x := by
  cases marked with
  | false => rfl
  | true => simp [word, h]

end Recasting

set_option autoImplicit true in
mutual

inductive Recast (R : Recasting) : List Bool → Part → Part → Prop
  | literal : Recast R bs (.expr (.literal v)) (.expr (.literal v))
  | unary : Recast R bs (.expr e) (.expr e') → Recast R bs (.expr (.unary op e)) (.expr (.unary op e'))
  | binary : Recast R bs (.expr l) (.expr l') → Recast R bs (.expr r) (.expr r') →
      Recast R bs (.expr (.binary l op r)) (.expr (.binary l' op r'))
  | logical : Recast R bs (.expr l) (.expr l') → Recast R bs (.expr r) (.expr r') →
      Recast R bs (.expr (.logical l op r)) (.expr (.logical l' op r'))
  | ternary : Recast R bs (.expr e) (.expr e') → Recast R bs (.expr yes) (.expr yes') →
      Recast R bs (.expr no) (.expr no') → Recast R bs (.expr (.ternary e yes no)) (.expr (.ternary e' yes' no'))
  | group : Recast R bs (.expr e) (.expr e') → Recast R bs (.expr (.group e)) (.expr (.group e'))
  | variable : R.Proper bs n name →
      Recast R bs (.expr (.variable n name)) (.expr (.variable (R.number n) (R.use bs n name)))
  | assign : R.Proper bs n name → Recast R bs (.expr e) (.expr e') →
      Recast R bs (.expr (.assign n name e)) (.expr (.assign (R.number n) (R.use bs n name) e'))
  | suffix : R.Proper bs n name →
      Recast R bs (.expr (.suffix n name op)) (.expr (.suffix (R.number n) (R.use bs n name) op))
  | call : Recast R bs (.expr f) (.expr f') → Recasts R bs (es.map .expr) (es'.map .expr) →
      Recast R bs (.expr (.call f es line)) (.expr (.call f' es' line))
  | get : Recast R bs (.expr e) (.expr e') → Recast R bs (.expr (.get e name)) (.expr (.get e' name))
  | set : Recast R bs (.expr l) (.expr l') → Recast R bs (.expr r) (.expr r') →
      Recast R bs (.expr (.set l name r)) (.expr (.set l' name r'))
  | update : Recast R bs (.expr l) (.expr l') → Recast R bs (.expr r) (.expr r') →
      Recast R bs (.expr (.update l name op r)) (.expr (.update l' name op r'))
  | index : Recast R bs (.expr l) (.expr l') → Recast R bs (.expr r) (.expr r') →
      Recast R bs (.expr (.index l r line)) (.expr (.index l' r' line))
  | this : Recast R bs (.expr (.this n line)) (.expr (.this (R.number n) line))
  | lambda : Recast R bs (.routine .lambda r) (.routine .lambda r') → Recast R bs (.expr (.lambda r)) (.expr (.lambda r'))
  | routine : Recast R (b :: bs) (.stmts body) (.stmts body') →
      Recast R bs (.routine kind ⟨name, params, body⟩) (.routine kind ⟨name, params.map (R.declare b), body'⟩)
  | expression : Recast R bs (.expr e) (.expr e') → Recast R bs (.stmt (.expression e)) (.stmt (.expression e'))
  | print : Recast R bs (.expr e) (.expr e') → Recast R bs (.stmt (.print e)) (.stmt (.print e'))
  | plainVariable : Recast R bs (.stmt (.var name none)) (.stmt (.var (R.declare (bs.headD false) name) none))
  | initialVariable : Recast R bs (.expr e) (.expr e') →
      Recast R bs (.stmt (.var name (some e))) (.stmt (.var (R.declare (bs.headD false) name) (some e')))
  | block : Recast R (b :: bs) (.stmts ss) (.stmts ss') → Recast R bs (.stmt (.block ss)) (.stmt (.block ss'))
  | ifThen : Recast R bs (.expr e) (.expr e') → Recast R bs (.stmt yes) (.stmt yes') →
      Recast R bs (.stmt (.conditional e yes none)) (.stmt (.conditional e' yes' none))
  | ifElse : Recast R bs (.expr e) (.expr e') → Recast R bs (.stmt yes) (.stmt yes') →
      Recast R bs (.stmt no) (.stmt no') →
      Recast R bs (.stmt (.conditional e yes (some no))) (.stmt (.conditional e' yes' (some no')))
  | loop : Recast R bs (.expr e) (.expr e') → Recast R bs (.stmt s) (.stmt s') →
      Recast R bs (.stmt (.loop e s)) (.stmt (.loop e' s'))
  | break : Recast R bs (.stmt (.break line)) (.stmt (.break line))
  | continue : Recast R bs (.stmt (.continue line)) (.stmt (.continue line))
  | function : R.word (bs.headD false) r.name.text = r.name.text →
      Recast R bs (.routine .function r) (.routine .function r') → Recast R bs (.stmt (.function r)) (.stmt (.function r'))
  | returnNull : Recast R bs (.stmt (.return line none)) (.stmt (.return line none))
  | returnValue : Recast R bs (.expr e) (.expr e') →
      Recast R bs (.stmt (.return line (some e))) (.stmt (.return line (some e')))
  | plainClass : R.word (bs.headD false) name.text = name.text →
      Recasts R bs (Part.statics ss) (Part.statics ss') → Recasts R (false :: bs) (Part.methods ms) (Part.methods ms') →
      Recast R bs (.stmt (.class ⟨name, none, ms, ss⟩)) (.stmt (.class ⟨name, none, ms', ss'⟩))
  | derivedClass : R.word (bs.headD false) name.text = name.text → Recast R bs (.expr e) (.expr e') →
      Recasts R bs (Part.statics ss) (Part.statics ss') → Recasts R (false :: bs) (Part.methods ms) (Part.methods ms') →
      Recast R bs (.stmt (.class ⟨name, some e, ms, ss⟩)) (.stmt (.class ⟨name, some e', ms', ss'⟩))
  | nil : Recast R bs (.stmts []) (.stmts [])
  | cons : Recast R bs (.stmt s) (.stmt s') → Recast R bs (.stmts ss) (.stmts ss') →
      Recast R bs (.stmts (s :: ss)) (.stmts (s' :: ss'))

inductive Recasts (R : Recasting) : List Bool → List Part → List Part → Prop
  | nil : Recasts R bs [] []
  | cons : Recast R bs p p' → Recasts R bs ps ps' → Recasts R bs (p :: ps) (p' :: ps')

end

section Lists

variable {R : Recasting} {bs : List Bool}

theorem Recasts.exprs_nil {es' : List Expr} (h : Recasts R bs (([] : List Expr).map .expr) (es'.map .expr)) : es' = [] := by
  cases es' with
  | nil => rfl
  | cons e' es' => cases h

theorem Recasts.exprs_cons {e : Expr} {es es' : List Expr} (h : Recasts R bs ((e :: es).map .expr) (es'.map .expr)) :
    ∃ e' rest', es' = e' :: rest' ∧ Recast R bs (.expr e) (.expr e') ∧ Recasts R bs (es.map .expr) (rest'.map .expr) := by
  cases es' with
  | nil => cases h
  | cons e' es' =>
    cases h with
    | cons head tail => exact ⟨e', es', rfl, head, tail⟩

/-- What a routine is used for does not matter. -/
theorem Recast.routine_kind {kind kind' : RoutineKind} {r r' : Routine}
    (h : Recast R bs (.routine kind r) (.routine kind r')) : Recast R bs (.routine kind' r) (.routine kind' r') := by
  cases h with
  | routine body => exact .routine body

theorem Recast.name_routine {kind kind' : RoutineKind} {r r' : Routine}
    (h : Recast R bs (.routine kind r) (.routine kind' r')) : kind' = kind ∧ r'.name = r.name := by
  cases h with
  | routine body => exact ⟨rfl, rfl⟩

theorem recasts_map {ps : List Part} {f : Part → Part} (h : ∀ p ∈ ps, Recast R bs p (f p)) :
    Recasts R bs ps (ps.map f) := by
  induction ps with
  | nil => exact .nil
  | cons p ps ih =>
    rw [List.forall_mem_cons] at h
    exact .cons h.1 (ih h.2)

end Lists

section Unmarked

variable {R : Recasting} {bs : List Bool}

theorem markedAt_unmarked (unmarked : ∀ b ∈ bs, b = false) (distance? : Option Nat) : markedAt bs distance? = false := by
  cases distance? with
  | none => rfl
  | some k =>
    change (bs[k]?).getD false = false
    cases h : bs[k]? with
    | none => rfl
    | some b => exact unmarked b (List.mem_of_getElem? h)

theorem Recasting.use_unmarked (unmarked : ∀ b ∈ bs, b = false) (id : NodeId) (name : Name) : R.use bs id name = name := by
  rw [use, markedAt_unmarked unmarked]
  rfl

theorem Recasting.proper_unmarked (unmarked : ∀ b ∈ bs, b = false) (id : NodeId) (name : Name) : R.Proper bs id name := by
  intro marked
  rw [markedAt_unmarked unmarked] at marked
  cases marked

/-- Where no scope is marked only numbers change. -/
theorem recast_renumber {f : NodeId → NodeId} {p : Part} (unmarked : ∀ b ∈ bs, b = false)
    (numbers : ∀ id ∈ p.ids, f id = R.number id) : Recast R bs p ((Relabeling.renumber f).part p) := by
  induction p using Part.induct generalizing bs with
  | step p ih =>
    have below {bs : List Bool} (unmarked : ∀ b ∈ bs, b = false) :
        ∀ q ∈ p.children, Recast R bs q ((Relabeling.renumber f).part q) :=
      fun q hq => ih q hq unmarked fun id hid => numbers id (Part.mem_ids_of_mem_children hq hid)
    have inside {bs : List Bool} (unmarked : ∀ b ∈ bs, b = false) : ∀ b ∈ false :: bs, b = false :=
      List.forall_mem_cons.2 ⟨rfl, unmarked⟩
    have own {id : NodeId} {name : String} (hn : p.node? = some (id, name)) : f id = R.number id :=
      numbers id (Part.mem_ids_of_node? hn)
    have expr {e : Expr} (he : .expr e ∈ p.children) := below unmarked (.expr e) he
    have stmt {x : Stmt} (hx : .stmt x ∈ p.children) := below unmarked (.stmt x) hx
    cases p with
    | expr e =>
      cases e with
      | literal v => exact .literal
      | unary op e => exact .unary (expr (.head _))
      | group e => exact .group (expr (.head _))
      | binary l op r => exact .binary (expr (.head _)) (expr (.tail _ (.head _)))
      | logical l op r => exact .logical (expr (.head _)) (expr (.tail _ (.head _)))
      | ternary e yes no =>
        exact .ternary (expr (.head _)) (expr (.tail _ (.head _)))
          (expr (.tail _ (.tail _ (.head _))))
      | «variable» id name =>
        have recast := Recast.variable (R.proper_unmarked unmarked id name)
        rw [← own rfl, R.use_unmarked unmarked] at recast
        exact recast
      | assign id name e =>
        have recast := Recast.assign (R.proper_unmarked unmarked id name) (expr (.head _))
        rw [← own rfl, R.use_unmarked unmarked] at recast
        exact recast
      | suffix id name op =>
        have recast : Recast R bs (.expr (.suffix id name op)) (.expr (.suffix (R.number id) (R.use bs id name) op)) :=
          .suffix (R.proper_unmarked unmarked id name)
        rw [← own rfl, R.use_unmarked unmarked] at recast
        exact recast
      | call g es line =>
        have arguments : Recasts R bs (es.map .expr) ((es.map .expr).map (Relabeling.renumber f).part) :=
          recasts_map fun q hq => below unmarked q (.tail _ hq)
        rw [List.map_map] at arguments
        rw [Relabeling.part, Relabeling.expr, Relabeling.exprs_eq_map]
        refine .call (expr (.head _)) ?_
        rw [List.map_map]
        exact arguments
      | get e name => exact .get (expr (.head _))
      | set l name r => exact .set (expr (.tail _ (.head _))) (expr (.head _))
      | update l name op r => exact .update (expr (.head _)) (expr (.tail _ (.head _)))
      | index l r line => exact .index (expr (.head _)) (expr (.tail _ (.head _)))
      | this id line =>
        have recast : Recast R bs (.expr (.this id line)) (.expr (.this (R.number id) line)) := .this
        rw [← own rfl] at recast
        exact recast
      | lambda r => exact .lambda (below unmarked (.routine .lambda r) (.head _))
    | routine kind r =>
      obtain ⟨name, params, body⟩ := r
      have same : params.map (R.declare false) = params := List.map_id params
      have recast : Recast R bs _
          (.routine kind ⟨name, params.map (R.declare false), body.map (Relabeling.renumber f).stmt⟩) :=
        .routine (below (inside unmarked) (.stmts body) (.head _))
      rw [same] at recast
      have names : params.map (Relabeling.renumber f).name = params := List.map_id params
      rw [Relabeling.part, Relabeling.routine, Relabeling.stmts_eq_map, names]
      exact recast
    | stmts xs =>
      cases xs with
      | nil => exact .nil
      | cons x xs => exact .cons (stmt (.head _)) (below unmarked (.stmts xs) (.tail _ (.head _)))
    | stmt x =>
      have head : bs.headD false = false := by
        cases bs with
        | nil => rfl
        | cons b bs => exact unmarked b (.head _)
      have word (x : String) : R.word (bs.headD false) x = x := by rw [head]; rfl
      have declared (name : Name) : R.declare (bs.headD false) name = name := by rw [head]; rfl
      cases x with
      | expression e => exact .expression (expr (.head _))
      | print e => exact .print (expr (.head _))
      | var name e? =>
        cases e? with
        | none =>
          have recast : Recast R bs (.stmt (.var name none)) _ := .plainVariable
          rw [declared] at recast
          exact recast
        | some e =>
          have recast : Recast R bs (.stmt (.var name (some e))) _ := .initialVariable (expr (.head _))
          rw [declared] at recast
          exact recast
      | block xs =>
        rw [Relabeling.part, Relabeling.stmt, Relabeling.stmts_eq_map]
        exact .block (below (inside unmarked) (.stmts xs) (.head _))
      | conditional e yes no =>
        have condition := expr (.head _)
        have yes := stmt (.tail _ (.head _))
        cases no with
        | none => exact .ifThen condition yes
        | some no => exact .ifElse condition yes (stmt (.tail _ (.tail _ (.head _))))
      | loop e x => exact .loop (expr (.head _)) (stmt (.tail _ (.head _)))
      | «break» line => exact .break
      | «continue» line => exact .continue
      | function r => exact .function (word _) (below unmarked (.routine .function r) (.head _))
      | «return» line e? =>
        cases e? with
        | none => exact .returnNull
        | some e => exact .returnValue (expr (.head _))
      | «class» d =>
        obtain ⟨name, base, ms, ss⟩ := d
        have statics : Recasts R bs (Part.statics ss) ((Part.statics ss).map (Relabeling.renumber f).part) :=
          recasts_map fun q hq => below unmarked q (List.mem_append_left _ (List.mem_append_right _ hq))
        have methods : Recasts R (false :: bs) (Part.methods ms) ((Part.methods ms).map (Relabeling.renumber f).part) :=
          recasts_map fun q hq => below (inside unmarked) q (List.mem_append_right _ hq)
        rw [← Relabeling.statics_map, ← Relabeling.routines_eq_map] at statics
        rw [← Relabeling.methods_map, ← Relabeling.routines_eq_map] at methods
        cases base with
        | none => exact .plainClass (word _) statics methods
        | some e => exact .derivedClass (word _) (expr (.head _)) statics methods

end Unmarked

end Scriptlet
