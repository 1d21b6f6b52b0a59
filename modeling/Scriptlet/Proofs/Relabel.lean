import Scriptlet.Proofs.Parts

/-!
Trees with other node numbers and other lines. A text that stands further down in a longer one has the same tree up to
such a relabeling, and what a program does depends on neither.
-/
namespace Scriptlet

structure Relabeling where
  number : NodeId → NodeId
  line : Nat → Nat

namespace Relabeling

variable (ρ σ : Relabeling)

/-- First `ρ`, then `σ`. -/
def andThen : Relabeling := ⟨σ.number ∘ ρ.number, σ.line ∘ ρ.line⟩

/-- Other numbers and the same lines. -/
def renumber (f : NodeId → NodeId) : Relabeling := ⟨f, id⟩

/-- Forgets all lines. -/
def unlined : Relabeling := ⟨id, fun _ => 0⟩

/-- Other numbers and lines by adding to them. -/
def shift (numbers lines : Nat) : Relabeling := ⟨(· + numbers), (· + lines)⟩

def token (t : Token) : Token := { t with line := ρ.line t.line }

def name (n : Name) : Name := { n with line := ρ.line n.line }

mutual

def expr : Expr → Expr
  | .literal value => .literal value
  | .unary op right => .unary (ρ.token op) (expr right)
  | .binary left op right => .binary (expr left) (ρ.token op) (expr right)
  | .logical left op right => .logical (expr left) (ρ.token op) (expr right)
  | .ternary condition yes no => .ternary (expr condition) (expr yes) (expr no)
  | .group inner => .group (expr inner)
  | .variable id name => .variable (ρ.number id) (ρ.name name)
  | .assign id name value => .assign (ρ.number id) (ρ.name name) (expr value)
  | .suffix id name op => .suffix (ρ.number id) (ρ.name name) (ρ.token op)
  | .call callee arguments line => .call (expr callee) (exprs arguments) (ρ.line line)
  | .get object name => .get (expr object) (ρ.name name)
  | .set object name value => .set (expr object) (ρ.name name) (expr value)
  | .update object name op value => .update (expr object) (ρ.name name) (ρ.token op) (expr value)
  | .index object position line => .index (expr object) (expr position) (ρ.line line)
  | .this id line => .this (ρ.number id) (ρ.line line)
  | .lambda r => .lambda (routine r)

def exprs : List Expr → List Expr
  | [] => []
  | e :: es => expr e :: exprs es

def optional : Option Expr → Option Expr
  | none => none
  | some e => some (expr e)

def routine : Routine → Routine
  | ⟨name, params, body⟩ => ⟨ρ.name name, params.map ρ.name, stmts body⟩

def routines : List Routine → List Routine
  | [] => []
  | r :: rs => routine r :: routines rs

def declaration : ClassDeclaration → ClassDeclaration
  | ⟨name, base, ms, ss⟩ => ⟨ρ.name name, optional base, routines ms, routines ss⟩

def stmt : Stmt → Stmt
  | .expression value => .expression (expr value)
  | .print value => .print (expr value)
  | .var name initial => .var (ρ.name name) (optional initial)
  | .block body => .block (stmts body)
  | .conditional condition yes no => .conditional (expr condition) (stmt yes) (branch no)
  | .loop condition body => .loop (expr condition) (stmt body)
  | .break line => .break (ρ.line line)
  | .continue line => .continue (ρ.line line)
  | .function r => .function (routine r)
  | .return line value => .return (ρ.line line) (optional value)
  | .class d => .class (declaration d)

def branch : Option Stmt → Option Stmt
  | none => none
  | some s => some (stmt s)

def stmts : List Stmt → List Stmt
  | [] => []
  | s :: ss => stmt s :: stmts ss

end

@[simp]
theorem exprs_eq_map (es : List Expr) : ρ.exprs es = es.map ρ.expr := by
  induction es with
  | nil => rw [exprs]; rfl
  | cons e es ih => rw [exprs, ih]; rfl

@[simp]
theorem optional_eq_map (e? : Option Expr) : ρ.optional e? = e?.map ρ.expr := by
  cases e? <;> rw [optional] <;> rfl

@[simp]
theorem routines_eq_map (rs : List Routine) : ρ.routines rs = rs.map ρ.routine := by
  induction rs with
  | nil => rw [routines]; rfl
  | cons r rs ih => rw [routines, ih]; rfl

@[simp]
theorem branch_eq_map (s? : Option Stmt) : ρ.branch s? = s?.map ρ.stmt := by
  cases s? <;> rw [branch] <;> rfl

@[simp]
theorem stmts_eq_map (ss : List Stmt) : ρ.stmts ss = ss.map ρ.stmt := by
  induction ss with
  | nil => rw [stmts]; rfl
  | cons s ss ih => rw [stmts, ih]; rfl

@[simp]
theorem text_name (n : Name) : (ρ.name n).text = n.text := rfl

@[simp]
theorem kind_token (t : Token) : (ρ.token t).kind = t.kind := rfl

@[simp]
theorem name_routine (r : Routine) : (ρ.routine r).name = ρ.name r.name := by
  obtain ⟨name, params, body⟩ := r
  rfl

@[simp]
theorem params_routine (r : Routine) : (ρ.routine r).params = r.params.map ρ.name := by
  obtain ⟨name, params, body⟩ := r
  rfl

@[simp]
theorem body_routine (r : Routine) : (ρ.routine r).body = r.body.map ρ.stmt := by
  obtain ⟨name, params, body⟩ := r
  exact ρ.stmts_eq_map body

mutual

theorem expr_andThen (e : Expr) : (ρ.andThen σ).expr e = σ.expr (ρ.expr e) := by
  match e with
  | .literal value => rfl
  | .unary op right => simp only [expr, expr_andThen right]; rfl
  | .binary left op right | .logical left op right => simp only [expr, expr_andThen left, expr_andThen right]; rfl
  | .ternary condition yes no => simp only [expr, expr_andThen condition, expr_andThen yes, expr_andThen no]
  | .group inner => simp only [expr, expr_andThen inner]
  | .variable id name => rfl
  | .assign id name value => simp only [expr, expr_andThen value]; rfl
  | .suffix id name op => rfl
  | .call callee arguments line => simp only [expr, expr_andThen callee, exprs_andThen arguments]; rfl
  | .get object name => simp only [expr, expr_andThen object]; rfl
  | .set object name value | .update object name op value =>
    simp only [expr, expr_andThen object, expr_andThen value]; rfl
  | .index object position line => simp only [expr, expr_andThen object, expr_andThen position]; rfl
  | .this id line => rfl
  | .lambda r => simp only [expr, routine_andThen r]

theorem exprs_andThen (es : List Expr) : (ρ.andThen σ).exprs es = σ.exprs (ρ.exprs es) := by
  match es with
  | [] => rfl
  | e :: es => simp only [exprs, expr_andThen e, exprs_andThen es]

theorem optional_andThen (e? : Option Expr) : (ρ.andThen σ).optional e? = σ.optional (ρ.optional e?) := by
  match e? with
  | none => rfl
  | some e => simp only [optional, expr_andThen e]

theorem routine_andThen (r : Routine) : (ρ.andThen σ).routine r = σ.routine (ρ.routine r) := by
  match r with
  | ⟨name, params, body⟩ => simp only [routine, stmts_andThen body, List.map_map]; rfl

theorem routines_andThen (rs : List Routine) : (ρ.andThen σ).routines rs = σ.routines (ρ.routines rs) := by
  match rs with
  | [] => rfl
  | r :: rs => simp only [routines, routine_andThen r, routines_andThen rs]

theorem declaration_andThen (d : ClassDeclaration) : (ρ.andThen σ).declaration d = σ.declaration (ρ.declaration d) := by
  match d with
  | ⟨name, base, ms, ss⟩ =>
    simp only [declaration, optional_andThen base, routines_andThen ms, routines_andThen ss]; rfl

theorem stmt_andThen (s : Stmt) : (ρ.andThen σ).stmt s = σ.stmt (ρ.stmt s) := by
  match s with
  | .expression value | .print value => simp only [stmt, expr_andThen value]
  | .var name initial => simp only [stmt, optional_andThen initial]; rfl
  | .block body => simp only [stmt, stmts_andThen body]
  | .conditional condition yes no =>
    simp only [stmt, expr_andThen condition, stmt_andThen yes, branch_andThen no]
  | .loop condition body => simp only [stmt, expr_andThen condition, stmt_andThen body]
  | .break line => rfl
  | .continue line => rfl
  | .function r => simp only [stmt, routine_andThen r]
  | .return line value => simp only [stmt, optional_andThen value]; rfl
  | .class d => simp only [stmt, declaration_andThen d]

theorem branch_andThen (s? : Option Stmt) : (ρ.andThen σ).branch s? = σ.branch (ρ.branch s?) := by
  match s? with
  | none => rfl
  | some s => simp only [branch, stmt_andThen s]

theorem stmts_andThen (ss : List Stmt) : (ρ.andThen σ).stmts ss = σ.stmts (ρ.stmts ss) := by
  match ss with
  | [] => rfl
  | s :: ss => simp only [stmts, stmt_andThen s, stmts_andThen ss]

end

def part : Part → Part
  | .expr e => .expr (ρ.expr e)
  | .routine kind r => .routine kind (ρ.routine r)
  | .stmt s => .stmt (ρ.stmt s)
  | .stmts ss => .stmts (ss.map ρ.stmt)

theorem statics_map (rs : List Routine) : Part.statics (rs.map ρ.routine) = (Part.statics rs).map ρ.part := by
  simp only [Part.statics, List.map_map]
  rfl

theorem methods_map (rs : List Routine) : Part.methods (rs.map ρ.routine) = (Part.methods rs).map ρ.part := by
  simp only [Part.methods, List.map_map]
  refine List.map_congr_left fun r _ => ?_
  simp only [Function.comp, name_routine, text_name]
  rfl

theorem exprs_map (e? : Option Expr) :
    (e?.map ρ.expr).toList.map Part.expr = (e?.toList.map Part.expr).map ρ.part := by
  cases e? <;> rfl

theorem branch_map (s? : Option Stmt) :
    (s?.map ρ.stmt).toList.map Part.stmt = (s?.toList.map Part.stmt).map ρ.part := by
  cases s? <;> rfl

/-- Relabeling goes through a part child by child. -/
theorem children_part (p : Part) : (ρ.part p).children = p.children.map ρ.part := by
  match p with
  | .routine kind ⟨name, params, body⟩ => simp [part, routine, Part.children]
  | .stmts [] => rfl
  | .stmts (s :: ss) => rfl
  | .expr e =>
    cases e with
    | call f es line => simp [part, expr, Part.children, Part.exprChildren, Function.comp_def]
    | _ => simp [part, expr, Part.children, Part.exprChildren]
  | .stmt s =>
    cases s with
    | «class» d =>
      obtain ⟨name, base, ms, ss⟩ := d
      simp [part, stmt, declaration, Part.children, Part.stmtChildren, statics_map, methods_map, exprs_map]
    | conditional e yes no => simp [part, stmt, Part.children, Part.stmtChildren, branch_map]
    | var name e? | «return» line e? => simp [part, stmt, Part.children, Part.stmtChildren, exprs_map]
    | _ => simp [part, stmt, Part.children, Part.stmtChildren]

@[simp]
theorem number_renumber (f : NodeId → NodeId) (i : NodeId) : (renumber f).number i = f i := rfl

@[simp]
theorem line_renumber (f : NodeId → NodeId) (line : Nat) : (renumber f).line line = line := rfl

@[simp]
theorem name_renumber (f : NodeId → NodeId) (n : Name) : (renumber f).name n = n := rfl

@[simp]
theorem token_renumber (f : NodeId → NodeId) (t : Token) : (renumber f).token t = t := rfl

/-- The numbers that a part has leave it as it is. -/
theorem part_renumber_id (p : Part) : (renumber id).part p = p := by
  have fixed {α : Type} {g : α → α} {as : List α} (h : ∀ a ∈ as, g a = a) : as.map g = as :=
    (List.map_congr_left h).trans (List.map_id' as)
  have names (ns : List Name) : ns.map (renumber id).name = ns := fixed fun _ _ => rfl
  have optional {α : Type} {g : α → α} {a? : Option α} (h : ∀ a, a? = some a → g a = a) : a?.map g = a? := by
    cases a? with
    | none => rfl
    | some a => rw [Option.map_some, h a rfl]
  induction p using Part.induct with
  | step p ih =>
    match p with
    | .routine kind ⟨name, params, body⟩ =>
      simp only [Part.children, part, List.forall_mem_singleton, Part.stmts.injEq] at ih
      simp only [part, routine, stmts_eq_map, ih, names, name_renumber]
    | .stmts [] => rfl
    | .stmts (s :: ss) =>
      simp only [Part.children, part, List.forall_mem_cons, Part.stmt.injEq, Part.stmts.injEq] at ih
      simp only [part, List.map_cons, ih]
    | .expr e =>
      cases e with
      | call f es line =>
        simp only [Part.children, Part.exprChildren, List.mem_cons, List.mem_map, part, forall_eq_or_imp,
          Part.expr.injEq, forall_exists_index, and_imp, forall_apply_eq_imp_iff₂] at ih
        simp [part, expr, ih.1, fixed ih.2]
      | _ => simp_all [part, expr, Part.children, Part.exprChildren]
    | .stmt s =>
      cases s with
      | «class» d =>
        obtain ⟨name, base, ms, ss⟩ := d
        simp only [Part.children, Part.stmtChildren, Part.statics, Part.methods, List.append_assoc, List.mem_append,
          List.mem_map, Option.mem_toList, part, or_imp, forall_exists_index, and_imp, forall_and,
          forall_apply_eq_imp_iff₂, Part.expr.injEq, Part.routine.injEq, true_and] at ih
        simp [part, stmt, declaration, optional ih.1, fixed ih.2.1, fixed ih.2.2]
      | conditional e yes no =>
        simp only [Part.children, Part.stmtChildren, List.mem_cons, List.mem_map, Option.mem_toList, part,
          forall_eq_or_imp, Part.expr.injEq, Part.stmt.injEq, forall_exists_index, and_imp, forall_apply_eq_imp_iff₂] at ih
        simp [part, stmt, ih.1, ih.2.1, optional ih.2.2]
      | var name e? | «return» line e? =>
        simp only [Part.children, Part.stmtChildren, List.mem_map, Option.mem_toList, part, forall_exists_index,
          and_imp, forall_apply_eq_imp_iff₂, Part.expr.injEq] at ih
        simp [part, stmt, optional ih]
      | _ => simp_all [part, stmt, Part.children, Part.stmtChildren]

theorem node?_part (p : Part) : (ρ.part p).node? = p.node?.map (Prod.map ρ.number id) := by
  cases p with
  | expr e => cases e <;> rfl
  | _ => rfl

end Relabeling

end Scriptlet
