import Scriptlet.Ast.Basic

/-!
The parts of a program as one type, so that what holds of every part is shown by one induction: each part has its
children, and all else about trees (the numbers of the nodes, the shape that the grammar gives them) goes through
these.
-/
namespace Scriptlet

/-- Something that the analysis and the machine walk through. -/
inductive Part where
  | expr (e : Expr)
  | routine (kind : RoutineKind) (r : Routine)
  | stmt (s : Stmt)
  | stmts (ss : List Stmt)

namespace Part

/-- The value of a property is looked at before the object. -/
def exprChildren : Expr → List Part
  | .literal _ | .variable _ _ | .suffix _ _ _ | .this _ _ => []
  | .unary _ e | .group e | .get e _ | .assign _ _ e => [.expr e]
  | .binary l _ r | .logical l _ r | .update l _ _ r | .index l r _ => [.expr l, .expr r]
  | .set l _ r => [.expr r, .expr l]
  | .ternary c y n => [.expr c, .expr y, .expr n]
  | .call f es _ => .expr f :: es.map .expr
  | .lambda r => [.routine .lambda r]

def statics (rs : List Routine) : List Part := rs.map (.routine .static)

def methods (rs : List Routine) : List Part := rs.map fun r => .routine (.ofMethod r.name.text) r

def stmtChildren : Stmt → List Part
  | .expression e | .print e => [.expr e]
  | .var _ e? | .return _ e? => e?.toList.map .expr
  | .block ss => [.stmts ss]
  | .conditional e y n? => .expr e :: .stmt y :: n?.toList.map .stmt
  | .loop e s => [.expr e, .stmt s]
  | .break _ | .continue _ => []
  | .function r => [.routine .function r]
  | .class d => d.base.toList.map .expr ++ statics d.statics ++ methods d.methods

/-- The parts right below a part, in the order of the analysis. -/
def children : Part → List Part
  | .expr e => exprChildren e
  | .routine _ r => [.stmts r.body]
  | .stmt s => stmtChildren s
  | .stmts [] => []
  | .stmts (s :: ss) => [.stmt s, .stmts ss]

noncomputable def size : Part → Nat
  | .expr e => sizeOf e
  | .routine _ r => sizeOf r
  | .stmt s => sizeOf s
  | .stmts ss => sizeOf ss

theorem size_lt_of_mem_exprChildren {e : Expr} {p : Part} (h : p ∈ exprChildren e) : p.size < sizeOf e := by
  cases e with
  | call f es line =>
    simp only [exprChildren, List.mem_cons, List.mem_map] at h
    rcases h with rfl | ⟨e, he, rfl⟩
    · simp only [size, Expr.call.sizeOf_spec]
      omega
    · have := List.sizeOf_lt_of_mem he
      simp only [size, Expr.call.sizeOf_spec]
      omega
  | _ =>
    simp only [exprChildren, List.mem_cons, List.not_mem_nil, or_false] at h
    try rcases h with rfl | rfl | rfl
    all_goals simp only [size]
    all_goals grind

theorem size_lt_of_mem_stmtChildren {s : Stmt} {p : Part} (h : p ∈ stmtChildren s) : p.size < sizeOf s := by
  cases s with
  | «class» d =>
    obtain ⟨name, base, ms, ss⟩ := d
    simp only [stmtChildren, statics, methods, List.mem_append, List.mem_map, Option.mem_toList] at h
    simp only [Stmt.class.sizeOf_spec, ClassDeclaration.mk.sizeOf_spec]
    rcases h with (⟨e, rfl, rfl⟩ | ⟨r, hr, rfl⟩) | ⟨r, hr, rfl⟩
    · simp only [size, Option.some.sizeOf_spec]
      omega
    · have := List.sizeOf_lt_of_mem hr
      simp only [size]
      omega
    · have := List.sizeOf_lt_of_mem hr
      simp only [size]
      omega
  | _ => grind [stmtChildren, size]

/-- A child is smaller, so induction over children reaches every part. -/
theorem size_lt_of_mem_children {p q : Part} (h : q ∈ p.children) : q.size < p.size := by
  cases p with
  | expr e => exact size_lt_of_mem_exprChildren h
  | routine kind r =>
    obtain ⟨name, params, body⟩ := r
    simp only [children, List.mem_singleton] at h
    subst h
    simp only [size, Routine.mk.sizeOf_spec]
    omega
  | stmt s => exact size_lt_of_mem_stmtChildren h
  | stmts ss =>
    cases ss with
    | nil => cases h
    | cons s ss =>
      simp only [children, List.mem_cons, List.not_mem_nil, or_false] at h
      rcases h with rfl | rfl <;> simp only [size, List.cons.sizeOf_spec] <;> omega

theorem induct {P : Part → Prop} (step : ∀ p, (∀ q ∈ p.children, P q) → P p) (p : Part) : P p :=
  step p fun q hq =>
    have := size_lt_of_mem_children hq
    induct step q
termination_by p.size

/-- The node that a part is itself, with the name that it uses. -/
def node? : Part → Option (NodeId × String)
  | .expr (.variable id name) | .expr (.assign id name _) | .expr (.suffix id name _) => some (id, name.text)
  | .expr (.this id _) => some (id, "this")
  | _ => none

/-- The numbers of all nodes in a part. -/
def ids (p : Part) : List NodeId :=
  p.node?.toList.map Prod.fst ++ p.children.attach.flatMap fun q => ids q.1
termination_by p.size
decreasing_by exact size_lt_of_mem_children q.2

def idsOf (ps : List Part) : List NodeId := ps.flatMap ids

theorem ids_eq (p : Part) : p.ids = p.node?.toList.map Prod.fst ++ idsOf p.children := by
  rw [ids, idsOf, List.flatMap_subtype (g := ids) (by simp), List.unattach_attach]

@[simp]
theorem idsOf_nil : idsOf [] = [] := rfl

@[simp]
theorem idsOf_cons (p : Part) (ps : List Part) : idsOf (p :: ps) = p.ids ++ idsOf ps := rfl

@[simp]
theorem idsOf_append (ps qs : List Part) : idsOf (ps ++ qs) = idsOf ps ++ idsOf qs := List.flatMap_append

theorem mem_ids_of_mem_children {p q : Part} (h : q ∈ p.children) {id : NodeId} (hid : id ∈ q.ids) : id ∈ p.ids := by
  rw [ids_eq]
  exact List.mem_append_right _ (List.mem_flatMap.2 ⟨q, h, hid⟩)

theorem mem_ids_of_node? {p : Part} {id : NodeId} {name : String} (h : p.node? = some (id, name)) : id ∈ p.ids := by
  rw [ids_eq, h]
  exact .head _

@[simp]
theorem ids_routine (kind : RoutineKind) (r : Routine) : (Part.routine kind r).ids = (Part.stmts r.body).ids := by
  simp [ids_eq (.routine kind r), node?, children]

@[simp]
theorem ids_stmts_nil : (Part.stmts []).ids = [] := by
  simp [ids_eq, node?, children]

@[simp]
theorem ids_stmts_cons (s : Stmt) (ss : List Stmt) :
    (Part.stmts (s :: ss)).ids = (Part.stmt s).ids ++ (Part.stmts ss).ids := by
  simp [ids_eq (.stmts (s :: ss)), node?, children]

@[simp]
theorem ids_expr :
    (∀ value, (Part.expr (.literal value)).ids = []) ∧
    (∀ op e, (Part.expr (.unary op e)).ids = (Part.expr e).ids) ∧
    (∀ e, (Part.expr (.group e)).ids = (Part.expr e).ids) ∧
    (∀ l op r, (Part.expr (.binary l op r)).ids = (Part.expr l).ids ++ (Part.expr r).ids) ∧
    (∀ l op r, (Part.expr (.logical l op r)).ids = (Part.expr l).ids ++ (Part.expr r).ids) ∧
    (∀ c y n, (Part.expr (.ternary c y n)).ids = (Part.expr c).ids ++ ((Part.expr y).ids ++ (Part.expr n).ids)) ∧
    (∀ id name, (Part.expr (.variable id name)).ids = [id]) ∧
    (∀ id name op, (Part.expr (.suffix id name op)).ids = [id]) ∧
    (∀ id line, (Part.expr (.this id line)).ids = [id]) ∧
    (∀ id name e, (Part.expr (.assign id name e)).ids = id :: (Part.expr e).ids) ∧
    (∀ f es line, (Part.expr (.call f es line)).ids = (Part.expr f).ids ++ idsOf (es.map .expr)) ∧
    (∀ e name, (Part.expr (.get e name)).ids = (Part.expr e).ids) ∧
    (∀ l name r, (Part.expr (.set l name r)).ids = (Part.expr r).ids ++ (Part.expr l).ids) ∧
    (∀ l name op r, (Part.expr (.update l name op r)).ids = (Part.expr l).ids ++ (Part.expr r).ids) ∧
    (∀ l r line, (Part.expr (.index l r line)).ids = (Part.expr l).ids ++ (Part.expr r).ids) ∧
    (∀ r, (Part.expr (.lambda r)).ids = (Part.stmts r.body).ids) := by
  refine ⟨?_, ?_, ?_, ?_, ?_, ?_, ?_, ?_, ?_, ?_, ?_, ?_, ?_, ?_, ?_, ?_⟩ <;> intros <;> rw [ids_eq] <;>
    simp [node?, children, exprChildren]

@[simp]
theorem ids_stmt :
    (∀ e, (Part.stmt (.expression e)).ids = (Part.expr e).ids) ∧
    (∀ e, (Part.stmt (.print e)).ids = (Part.expr e).ids) ∧
    (∀ name e?, (Part.stmt (.var name e?)).ids = idsOf (e?.toList.map .expr)) ∧
    (∀ ss, (Part.stmt (.block ss)).ids = (Part.stmts ss).ids) ∧
    (∀ e y n?, (Part.stmt (.conditional e y n?)).ids =
      (Part.expr e).ids ++ ((Part.stmt y).ids ++ idsOf (n?.toList.map .stmt))) ∧
    (∀ e s, (Part.stmt (.loop e s)).ids = (Part.expr e).ids ++ (Part.stmt s).ids) ∧
    (∀ line, (Part.stmt (.break line)).ids = []) ∧
    (∀ line, (Part.stmt (.continue line)).ids = []) ∧
    (∀ r, (Part.stmt (.function r)).ids = (Part.stmts r.body).ids) ∧
    (∀ line e?, (Part.stmt (.return line e?)).ids = idsOf (e?.toList.map .expr)) ∧
    (∀ d, (Part.stmt (.class d)).ids =
      idsOf (d.base.toList.map .expr) ++ (idsOf (statics d.statics) ++ idsOf (methods d.methods))) := by
  refine ⟨?_, ?_, ?_, ?_, ?_, ?_, ?_, ?_, ?_, ?_, ?_⟩ <;> intros <;> rw [ids_eq] <;>
    simp [node?, children, stmtChildren]

/-- A name that a statement puts into the scope that it stands in. -/
def declared? : Stmt → Option Name
  | .var name _ => some name
  | .function r => some r.name
  | .class d => some d.name
  | _ => none

/-- What the grammar rules out right here: a branch that declares something, and `this` for a name. -/
def Tidy : Part → Prop
  | .expr (.assign _ name _) | .expr (.suffix _ name _) => name.text ≠ "this"
  | .routine _ r => ∀ name ∈ r.params, name.text ≠ "this"
  | .stmt (.conditional _ yes no) => declared? yes = none ∧ ∀ s ∈ no, declared? s = none
  | .stmt (.loop _ body) => declared? body = none
  | .stmt s => ∀ name ∈ declared? s, name.text ≠ "this"
  | _ => True

/-- Every part of the part is tidy. -/
inductive Shaped : Part → Prop
  | intro {p : Part} : p.Tidy → (∀ q ∈ p.children, Shaped q) → Shaped p

theorem Shaped.tidy {p : Part} : p.Shaped → p.Tidy
  | .intro h _ => h

theorem Shaped.child {p q : Part} : p.Shaped → q ∈ p.children → q.Shaped
  | .intro _ h, hq => h q hq

def AllShaped (ps : List Part) : Prop := ∀ p ∈ ps, p.Shaped

end Part

end Scriptlet
