import Mathlib.Data.List.Perm.Basic
import Scriptlet.Proofs.RecastAnalysis

/-!
Other names for local variables. A renaming names a scope of a program and a parameter or variable of it; with the
variable it changes all uses that are bound to it, as the distances tell. What comes out is the program recast, and its
scope has a variable of the new name.
-/
namespace Scriptlet

/-- The part at the end of a way, which is given by positions among children, the last one first. -/
def Part.at? (root : Part) : List Nat → Option Part
  | [] => some root
  | i :: outer => (root.at? outer).bind (·.children[i]?)

/-- The parameters and the statements of a part that has a scope for them. -/
def Part.scope? : Part → Option (List Name × List Stmt)
  | .stmt (.block body) => some ([], body)
  | .routine _ r => some (r.params, r.body)
  | _ => none

/-- The names of variables that a statement puts into the scope that it stands in. -/
def Stmt.variables : Stmt → List String
  | .var name _ => [name.text]
  | _ => []

/-- The names of functions and classes that a statement puts into the scope that it stands in. -/
def Stmt.definitions : Stmt → List String
  | .function r => [r.name.text]
  | .class d => [d.name.text]
  | _ => []

theorem Stmt.definitions_eq_nil {s : Stmt} (h : Part.declared? s = none) : s.definitions = [] := by
  cases s with
  | function r => cases h
  | «class» d => cases h
  | _ => rfl

def Part.definitions : Part → List String
  | .stmt s => s.definitions
  | .stmts ss => ss.flatMap Stmt.definitions
  | _ => []

/-- To call the parameter or variable of a scope by another name. -/
structure Renaming where
  /-- The way to the scope, the last position first. -/
  scope : List Nat
  old : String
  new : String

namespace Renaming

/-- The scope is there, and it has a parameter or variable with the old name. -/
def Applies (ρ : Renaming) (program : List Stmt) : Prop :=
  ∃ part params body, (Part.stmts program).at? ρ.scope = some part ∧ part.scope? = some (params, body) ∧
    ρ.old ∈ params.map Name.text ++ body.flatMap Stmt.variables

variable (ρ : Renaming) (d : Distances)

/-- From the new name to the old one. -/
def back : Renaming := ⟨ρ.scope, ρ.new, ρ.old⟩

/-- The name in a declaration or a use that is bound to the scope, or not. -/
def name (bound : Bool) (n : Name) : Name := if bound = true ∧ n.text = ρ.old then { n with text := ρ.new } else n

def opens (here : List Nat) : Bool := here = ρ.scope

mutual

/-- Of the scopes around the expression a list tells which is the one of the renaming; distances tell in which of them
the variable of a use lives. -/
def expr (marks : List Bool) (here : List Nat) : Expr → Expr
  | .literal value => .literal value
  | .unary op right => .unary op (expr marks (0 :: here) right)
  | .binary left op right => .binary (expr marks (0 :: here) left) op (expr marks (1 :: here) right)
  | .logical left op right => .logical (expr marks (0 :: here) left) op (expr marks (1 :: here) right)
  | .ternary condition yes no =>
    .ternary (expr marks (0 :: here) condition) (expr marks (1 :: here) yes) (expr marks (2 :: here) no)
  | .group inner => .group (expr marks (0 :: here) inner)
  | .variable id n => .variable id (ρ.name (markedAt marks (d.get? id)) n)
  | .assign id n value => .assign id (ρ.name (markedAt marks (d.get? id)) n) (expr marks (0 :: here) value)
  | .suffix id n op => .suffix id (ρ.name (markedAt marks (d.get? id)) n) op
  | .call callee arguments line => .call (expr marks (0 :: here) callee) (exprs marks here 1 arguments) line
  | .get object n => .get (expr marks (0 :: here) object) n
  | .set object n value => .set (expr marks (1 :: here) object) n (expr marks (0 :: here) value)
  | .update object n op value => .update (expr marks (0 :: here) object) n op (expr marks (1 :: here) value)
  | .index object position line => .index (expr marks (0 :: here) object) (expr marks (1 :: here) position) line
  | .this id line => .this id line
  | .lambda r => .lambda (routine marks (0 :: here) r)

def exprs (marks : List Bool) (here : List Nat) (i : Nat) : List Expr → List Expr
  | [] => []
  | e :: es => expr marks (i :: here) e :: exprs marks here (i + 1) es

def optional (marks : List Bool) (here : List Nat) : Option Expr → Option Expr
  | none => none
  | some e => some (expr marks (0 :: here) e)

def routine (marks : List Bool) (here : List Nat) : Routine → Routine
  | ⟨n, params, body⟩ => ⟨n, params.map (ρ.name (ρ.opens here)), stmts (ρ.opens here :: marks) (0 :: here) body⟩

def routines (marks : List Bool) (here : List Nat) (i : Nat) : List Routine → List Routine
  | [] => []
  | r :: rs => routine marks (i :: here) r :: routines marks here (i + 1) rs

/-- Around its methods a class has a scope for the receiver. -/
def declaration (marks : List Bool) (here : List Nat) : ClassDeclaration → ClassDeclaration
  | ⟨n, base, ms, ss⟩ => ⟨n, optional marks here base,
      routines (false :: marks) here (base.toList.length + ss.length) ms, routines marks here base.toList.length ss⟩

def stmt (marks : List Bool) (here : List Nat) : Stmt → Stmt
  | .expression value => .expression (expr marks (0 :: here) value)
  | .print value => .print (expr marks (0 :: here) value)
  | .var n initial => .var (ρ.name (marks.headD false) n) (optional marks here initial)
  | .block body => .block (stmts (ρ.opens here :: marks) (0 :: here) body)
  | .conditional condition yes no =>
    .conditional (expr marks (0 :: here) condition) (stmt marks (1 :: here) yes) (branch marks here no)
  | .loop condition body => .loop (expr marks (0 :: here) condition) (stmt marks (1 :: here) body)
  | .break line => .break line
  | .continue line => .continue line
  | .function r => .function (routine marks (0 :: here) r)
  | .return line value => .return line (optional marks here value)
  | .class d => .class (declaration marks here d)

def branch (marks : List Bool) (here : List Nat) : Option Stmt → Option Stmt
  | none => none
  | some s => some (stmt marks (2 :: here) s)

def stmts (marks : List Bool) (here : List Nat) : List Stmt → List Stmt
  | [] => []
  | s :: ss => stmt marks (0 :: here) s :: stmts marks (1 :: here) ss

end

/-- The program with the new name, where the distances are those that were found for the program. -/
def program (xs : List Stmt) : List Stmt := ρ.stmts d [] [] xs

def part (marks : List Bool) (here : List Nat) : Part → Part
  | .expr e => .expr (ρ.expr d marks here e)
  | .routine kind r => .routine kind (ρ.routine d marks here r)
  | .stmt s => .stmt (ρ.stmt d marks here s)
  | .stmts ss => .stmts (ρ.stmts d marks here ss)

theorem name_routine {ρ : Renaming} {d : Distances} {marks : List Bool} {here : List Nat} (r : Routine) :
    (ρ.routine d marks here r).name = r.name := by
  obtain ⟨n, params, body⟩ := r
  rfl

section Positions

variable {ρ d} {marks : List Bool} {here : List Nat}

/-- Parts at positions from a number on, and the same parts with the new name. -/
inductive Renamed (ρ : Renaming) (d : Distances) (here : List Nat) : Nat → List Part → List Part → Prop
  | nil {i : Nat} : Renamed ρ d here i [] []
  | cons {i : Nat} {q q' : Part} {ps ps' : List Part} (marks : List Bool) : q' = ρ.part d marks (i :: here) q →
      Renamed ρ d here (i + 1) ps ps' → Renamed ρ d here i (q :: ps) (q' :: ps')

theorem Renamed.append {i j : Nat} {ps ps' qs qs' : List Part} (h : Renamed ρ d here i ps ps') (next : i + ps.length = j)
    (hq : Renamed ρ d here j qs qs') : Renamed ρ d here i (ps ++ qs) (ps' ++ qs') := by
  induction h with
  | nil =>
    subst next
    exact hq
  | cons marks same _ ih =>
    refine .cons marks same (ih ?_)
    rwa [Nat.add_right_comm]

theorem Renamed.getElem? {i j : Nat} {q : Part} {ps ps' : List Part} (h : Renamed ρ d here i ps ps')
    (hq : ps[j]? = some q) : ∃ marks, ps'[j]? = some (ρ.part d marks ((i + j) :: here) q) := by
  induction h generalizing j with
  | nil => cases hq
  | cons marks same _ ih =>
    cases j with
    | zero =>
      cases hq
      exact ⟨marks, congrArg some same⟩
    | succ j =>
      obtain ⟨marks, there⟩ := ih hq
      rw [Nat.add_right_comm] at there
      exact ⟨marks, there⟩

theorem renamed_exprs (es : List Expr) (i : Nat) :
    Renamed ρ d here i (es.map .expr) ((ρ.exprs d marks here i es).map .expr) := by
  induction es generalizing i with
  | nil => exact .nil
  | cons e es ih => exact .cons marks rfl (ih (i + 1))

theorem renamed_routines (kind : Name → RoutineKind) (rs : List Routine) (i : Nat) :
    Renamed ρ d here i (rs.map fun r => .routine (kind r.name) r)
      ((ρ.routines d marks here i rs).map fun r => .routine (kind r.name) r) := by
  induction rs generalizing i with
  | nil => exact .nil
  | cons r rs ih =>
    refine .cons marks ?_ (ih (i + 1))
    change Part.routine (kind (ρ.routine d marks (i :: here) r).name) _ = _
    rw [name_routine]
    rfl

/-- The children of a part with the new name are its children with the new name. -/
theorem renamed_children (p : Part) : Renamed ρ d here 0 p.children (ρ.part d marks here p).children := by
  have one {q q' : Part} (marks : List Bool) (hq : q' = ρ.part d marks (0 :: here) q) : Renamed ρ d here 0 [q] [q'] :=
    .cons marks hq .nil
  have two {q q' r r' : Part} (hq : q' = ρ.part d marks (0 :: here) q) (hr : r' = ρ.part d marks (1 :: here) r) :
      Renamed ρ d here 0 [q, r] [q', r'] := .cons marks hq (.cons marks hr .nil)
  cases p with
  | expr e =>
    cases e with
    | literal | «variable» | suffix | this => exact .nil
    | unary | group | get | assign | lambda => exact one marks rfl
    | binary | logical | set | update | index => exact two rfl rfl
    | ternary e yes no => exact .cons marks rfl (.cons marks rfl (.cons marks rfl .nil))
    | call f es line => exact .cons marks rfl (renamed_exprs es 1)
  | routine kind r =>
    obtain ⟨n, params, body⟩ := r
    exact one _ rfl
  | stmts xs =>
    cases xs with
    | nil => exact .nil
    | cons x xs => exact two rfl rfl
  | stmt x =>
    cases x with
    | expression | print | function => exact one marks rfl
    | «break» | «continue» => exact .nil
    | block body => exact one _ rfl
    | loop e body => exact two rfl rfl
    | var _ e? | «return» _ e? =>
      cases e? with
      | none => exact .nil
      | some e => exact one marks rfl
    | conditional e yes no =>
      cases no with
      | none => exact two rfl rfl
      | some no => exact .cons marks rfl (.cons marks rfl (.cons marks rfl .nil))
    | «class» c =>
      obtain ⟨n, base, ms, ss⟩ := c
      have bases : Renamed ρ d here 0 (base.toList.map .expr) ((ρ.optional d marks here base).toList.map .expr) := by
        cases base with
        | none => exact .nil
        | some e => exact one marks rfl
      have statics : Renamed ρ d here base.toList.length (Part.statics ss)
          (Part.statics (ρ.routines d marks here base.toList.length ss)) := renamed_routines (fun _ => .static) ss _
      have methods : Renamed ρ d here (base.toList.length + ss.length) (Part.methods ms)
          (Part.methods (ρ.routines d (false :: marks) here (base.toList.length + ss.length) ms)) :=
        renamed_routines (fun n => .ofMethod n.text) ms _
      exact (bases.append (by simp) statics).append (by simp [Part.statics]) methods

theorem at?_part {root p : Part} {way : List Nat} (h : root.at? way = some p) :
    ∃ marks, (ρ.part d [] [] root).at? way = some (ρ.part d marks way p) := by
  induction way generalizing p with
  | nil =>
    cases h
    exact ⟨[], rfl⟩
  | cons i outer ih =>
    obtain ⟨above, there, child⟩ := Option.bind_eq_some_iff.1 h
    obtain ⟨marks, there'⟩ := ih there
    obtain ⟨marks', child'⟩ := (renamed_children above).getElem? child
    rw [Nat.zero_add] at child'
    exact ⟨marks', Option.bind_eq_some_iff.2 ⟨_, there', child'⟩⟩

theorem new_mem_variables {xs : List Stmt} (h : ρ.old ∈ xs.flatMap Stmt.variables) :
    ρ.new ∈ (ρ.stmts d (true :: marks) here xs).flatMap Stmt.variables := by
  induction xs generalizing here with
  | nil => cases h
  | cons x xs ih =>
    rw [Renaming.stmts]
    rw [List.flatMap_cons, List.mem_append] at h ⊢
    refine h.imp (fun first => ?_) ih
    cases x with
    | var n e? =>
      have same : n.text = ρ.old := (List.mem_singleton.1 first).symm
      simp [Renaming.stmt, Stmt.variables, name, same]
    | _ => cases first

/-- Where the variable was, there is one of the new name. -/
theorem Applies.back {program : List Stmt} (h : ρ.Applies program) (d : Distances) :
    ρ.back.Applies (ρ.program d program) := by
  obtain ⟨part, params, body, there, opens, declared⟩ := h
  obtain ⟨marks, there'⟩ := at?_part (ρ := ρ) (d := d) there
  have opened : ρ.opens ρ.scope = true := decide_eq_true rfl
  have mem_params (h : ρ.old ∈ params.map Name.text) : ρ.new ∈ (params.map (ρ.name true)).map Name.text := by
    obtain ⟨n, hn, same⟩ := List.mem_map.1 h
    refine List.mem_map.2 ⟨ρ.name true n, List.mem_map_of_mem hn, ?_⟩
    rw [name, if_pos ⟨rfl, same⟩]
  cases part with
  | routine kind r =>
    obtain ⟨n, ps, xs⟩ := r
    cases opens
    rw [part, Renaming.routine, opened] at there'
    refine ⟨_, _, _, there', rfl, ?_⟩
    rw [List.mem_append] at declared ⊢
    exact declared.imp mem_params new_mem_variables
  | stmt x =>
    cases x with
    | block xs =>
      cases opens
      rw [part, Renaming.stmt, opened] at there'
      exact ⟨_, _, _, there', rfl, new_mem_variables declared⟩
    | _ => cases opens
  | _ => cases opens

end Positions

section Recast

/-- Numbers stay, and uses follow the distances. -/
def recasting (old : ρ.old ≠ "this") (new : ρ.new ≠ "this") : Recasting := ⟨id, d.get?, ρ.old, ρ.new, old, new⟩

variable {ρ d} {old : ρ.old ≠ "this"} {new : ρ.new ≠ "this"} {marks : List Bool} {here : List Nat}

theorem declare_recasting (bound : Bool) {n : Name} (fresh : n.text ≠ ρ.new) :
    (ρ.recasting d old new).declare bound n = ρ.name bound n := by
  cases bound with
  | false => simp [name, Recasting.declare]
  | true =>
    by_cases h : n.text = ρ.old
    · simp [name, Recasting.declare, Recasting.word, recasting, h]
    · simp [name, Recasting.declare, Recasting.word, recasting, h, Equiv.swap_apply_of_ne_of_ne h fresh]

theorem use_recasting (id : NodeId) {n : Name} (fresh : n.text ≠ ρ.new) :
    (ρ.recasting d old new).use marks id n = ρ.name (markedAt marks (d.get? id)) n := declare_recasting _ fresh

theorem recasts_exprs {es : List Expr} {i : Nat} (h : ∀ j e, es[j]? = some e →
      Recast (ρ.recasting d old new) marks (.expr e) (.expr (ρ.expr d marks ((i + j) :: here) e))) :
    Recasts (ρ.recasting d old new) marks (es.map .expr) ((ρ.exprs d marks here i es).map .expr) := by
  induction es generalizing i with
  | nil => exact .nil
  | cons e es ih =>
    refine .cons (h 0 e rfl) (ih fun j e he => ?_)
    rw [Nat.add_right_comm]
    exact h (j + 1) e he

theorem recasts_routines (kind : Name → RoutineKind) {rs : List Routine} {i : Nat} (h : ∀ j r, rs[j]? = some r →
      Recast (ρ.recasting d old new) marks (.routine (kind r.name) r)
        (.routine (kind r.name) (ρ.routine d marks ((i + j) :: here) r))) :
    Recasts (ρ.recasting d old new) marks (rs.map fun r => .routine (kind r.name) r)
      ((ρ.routines d marks here i rs).map fun r => .routine (kind r.name) r) := by
  induction rs generalizing i with
  | nil => exact .nil
  | cons r rs ih =>
    refine .cons ?_ (ih fun j r hr => ?_)
    · change Recast _ _ _ (.routine (kind (ρ.routine d marks (i :: here) r).name) _)
      rw [name_routine]
      exact h 0 r rfl
    · rw [Nat.add_right_comm]
      exact h (j + 1) r hr

theorem word_recasting {bound : Bool} {x : String} (fresh : x ≠ ρ.new) (other : bound = true → ρ.old ≠ x) :
    (ρ.recasting d old new).word bound x = x := by
  cases bound with
  | false => rfl
  | true => exact Equiv.swap_apply_of_ne_of_ne (Ne.symm (other rfl)) fresh

/-- A part corresponds to the part with the new name, if the scope has no function or class of the old name. -/
theorem recast {root : Part} (plain : ∀ part params body, root.at? ρ.scope = some part →
      part.scope? = some (params, body) → ρ.old ∉ body.flatMap Stmt.definitions)
    {p : Part} (there : root.at? here = some p) (absent : ρ.new ∉ p.names) (shaped : p.Shaped)
    (head : marks.headD false = true → ρ.old ∉ p.definitions) :
    Recast (ρ.recasting d old new) marks p (ρ.part d marks here p) := by
  induction p using Part.induct generalizing marks here with
  | step p ih =>
    have below (marks : List Bool) (i : Nat) {q : Part} (hq : p.children[i]? = some q)
        (head : marks.headD false = true → ρ.old ∉ q.definitions) :
        Recast (ρ.recasting d old new) marks q (ρ.part d marks (i :: here) q) := by
      have mem := List.mem_of_getElem? hq
      refine ih q mem ?_ (Part.notMem_child absent mem) (shaped.child mem) head
      rw [Part.at?, there]
      exact hq
    have fresh := Part.notMem_mentions absent
    have named {x : String} (hx : x ∈ p.mentions) : x ≠ ρ.new := ne_of_mem_of_not_mem hx fresh
    -- expressions and routines define nothing
    have expr (i : Nat) {e : Expr} (he : p.children[i]? = some (.expr e)) := below marks i he fun _ => List.not_mem_nil
    have routine (marks : List Bool) (i : Nat) {kind : RoutineKind} {r : Routine}
        (hr : p.children[i]? = some (.routine kind r)) := below marks i hr fun _ => List.not_mem_nil
    have undeclared (i : Nat) {x : Stmt} (hx : p.children[i]? = some (.stmt x)) (none : Part.declared? x = none) :=
      below marks i hx fun _ => by rw [Part.definitions, Stmt.definitions_eq_nil none]; exact List.not_mem_nil
    have inside {params : List Name} {body : List Stmt} (hp : p.scope? = some (params, body)) :
        (ρ.opens here :: marks).headD false = true → ρ.old ∉ (Part.stmts body).definitions := by
      intro opens
      have same : here = ρ.scope := of_decide_eq_true opens
      rw [same] at there
      exact plain p params body there hp
    cases p with
    | expr e =>
      cases e with
      | literal v => exact .literal
      | unary op e => exact .unary (expr 0 rfl)
      | group e => exact .group (expr 0 rfl)
      | binary l op r => exact .binary (expr 0 rfl) (expr 1 rfl)
      | logical l op r => exact .logical (expr 0 rfl) (expr 1 rfl)
      | ternary e yes no => exact .ternary (expr 0 rfl) (expr 1 rfl) (expr 2 rfl)
      | «variable» id n =>
        rw [part, Renaming.expr, ← use_recasting id (named (.head _))]
        exact .variable fun _ => named (.head _)
      | assign id n e =>
        rw [part, Renaming.expr, ← use_recasting id (named (.head _))]
        exact .assign (fun _ => named (.head _)) (expr 0 rfl)
      | suffix id n op =>
        rw [part, Renaming.expr, ← use_recasting id (named (.head _))]
        exact .suffix fun _ => named (.head _)
      | call f es line =>
        refine .call (expr 0 rfl) (recasts_exprs fun j e he => expr _ ?_)
        rw [Nat.add_comm]
        simp [Part.children, Part.exprChildren, he]
      | get e n => exact .get (expr 0 rfl)
      | set l n r => exact .set (expr 1 rfl) (expr 0 rfl)
      | update l n op r => exact .update (expr 0 rfl) (expr 1 rfl)
      | index l r line => exact .index (expr 0 rfl) (expr 1 rfl)
      | this id line => exact .this
      | lambda r => exact .lambda (routine marks 0 rfl)
    | routine kind r =>
      obtain ⟨n, params, body⟩ := r
      have same : params.map (ρ.name (ρ.opens here)) = params.map ((ρ.recasting d old new).declare (ρ.opens here)) :=
        List.map_congr_left fun n hn => (declare_recasting _ (named (List.mem_map_of_mem hn))).symm
      rw [part, Renaming.routine, same]
      exact .routine (below (ρ.opens here :: marks) 0 rfl (inside rfl))
    | stmts xs =>
      cases xs with
      | nil => exact .nil
      | cons x xs =>
        exact .cons (below marks 0 rfl fun h hx => head h (List.mem_append_left _ hx))
          (below marks 1 rfl fun h hx => head h (List.mem_append_right _ hx))
    | stmt x =>
      cases x with
      | expression e => exact .expression (expr 0 rfl)
      | print e => exact .print (expr 0 rfl)
      | var n e? =>
        rw [part, Renaming.stmt, ← declare_recasting _ (named (.head _))]
        cases e? with
        | none => exact .plainVariable
        | some e => exact .initialVariable (expr 0 rfl)
      | block body => exact .block (below (ρ.opens here :: marks) 0 rfl (inside rfl))
      | conditional e yes no =>
        obtain ⟨noneYes, noneNo⟩ := shaped.tidy
        cases no with
        | none => exact .ifThen (expr 0 rfl) (undeclared 1 rfl noneYes)
        | some no =>
          exact .ifElse (expr 0 rfl) (undeclared 1 rfl noneYes) (undeclared 2 rfl (noneNo no rfl))
      | loop e x => exact .loop (expr 0 rfl) (undeclared 1 rfl shaped.tidy)
      | «break» line => exact .break
      | «continue» line => exact .continue
      | function r =>
        refine .function (word_recasting (named (.head _)) fun h => ?_) (routine marks 0 rfl)
        exact List.ne_of_not_mem_cons (head h)
      | «return» line e? =>
        cases e? with
        | none => exact .returnNull
        | some e => exact .returnValue (expr 0 rfl)
      | «class» c =>
        obtain ⟨n, base, ms, ss⟩ := c
        have same : (ρ.recasting d old new).word (marks.headD false) n.text = n.text :=
          word_recasting (named (.head _)) fun h => List.ne_of_not_mem_cons (head h)
        have statics : Recasts (ρ.recasting d old new) marks (Part.statics ss)
            (Part.statics (ρ.routines d marks here base.toList.length ss)) := by
          refine recasts_routines (fun _ => .static) fun j r hr => routine marks _ ?_
          obtain ⟨lt, rfl⟩ := List.getElem?_eq_some_iff.1 hr
          simp [Part.children, Part.stmtChildren, Part.statics, List.getElem?_append, lt]
        have methods : Recasts (ρ.recasting d old new) (false :: marks) (Part.methods ms)
            (Part.methods (ρ.routines d (false :: marks) here (base.toList.length + ss.length) ms)) := by
          refine recasts_routines (fun n => .ofMethod n.text) fun j r hr => routine (false :: marks) _ ?_
          simp [Part.children, Part.stmtChildren, Part.statics, Part.methods, List.getElem?_append, Nat.add_assoc, hr]
        cases base with
        | none => exact .plainClass same statics methods
        | some e => exact .derivedClass same (expr 0 rfl) statics methods

end Recast

end Renaming

end Scriptlet
