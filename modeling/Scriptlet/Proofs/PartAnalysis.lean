import Scriptlet.Proofs.AnalysisLaws
import Scriptlet.Proofs.Relabel

/-!
The analysis of names, part by part. What its pieces have in common holds of the analysis of every part, as is shown
once by induction over the parts; so a part gives a distance only to the nodes that it holds, and leaves behind only the
names that it declares.
-/
namespace Scriptlet

mutual

/-- The names that a statement puts into the scope that it stands in, by itself or by a branch that has no scope of its
own. -/
def Stmt.declares : Stmt → List String
  | .var name _ => [name.text]
  | .function r => [r.name.text]
  | .class d => [d.name.text]
  | .conditional _ yes no => yes.declares ++ Stmt.otherwiseDeclares no
  | .loop _ body => body.declares
  | _ => []

def Stmt.otherwiseDeclares : Option Stmt → List String
  | none => []
  | some s => s.declares

end

/-- The names that a part puts into the scope that it stands in. -/
def Part.declares : Part → List String
  | .stmt s => s.declares
  | .stmts ss => ss.flatMap Stmt.declares
  | _ => []

namespace Scope

open Analysis
open Scriptlet.Part (children exprChildren stmtChildren node? declared? Shaped idsOf)

-- The equations of the mutual analysis are made here once: the lemmas below are checked side by side and would all
-- wait for them.
section
attribute [local simp] expr exprs Analysis.optional stmt stmts otherwise statics methods routine classDeclaration
end

/-- The analysis of a part. -/
def analysis : Part → Analysis Unit
  | .expr e => expr e
  | .routine kind r => routine kind r
  | .stmt s => stmt s
  | .stmts ss => stmts ss

/-- Parts are analysed one after the other. -/
def analyses : List Part → Analysis Unit
  | [] => done ()
  | p :: ps => do analysis p; analyses ps

theorem bind_done (a : Analysis Unit) : (do a; done ()) = a := by
  funext c
  change andThen a (fun _ => done ()) c = a c
  unfold andThen done
  split
  · next h => exact h.symm
  · next h => exact h.symm

theorem analyses_one (p : Part) : analyses [p] = analysis p := bind_done _

theorem analyses_cons (p : Part) (ps : List Part) : analyses (p :: ps) = (do analysis p; analyses ps) := rfl

theorem exprs_eq (es : List Expr) : exprs es = analyses (es.map .expr) := by
  induction es with
  | nil => rw [exprs]; rfl
  | cons e es ih => rw [exprs, ih]; rfl

theorem optional_eq (e? : Option Expr) : Analysis.optional e? = analyses (e?.toList.map .expr) := by
  cases e? with
  | none => rw [Analysis.optional]; rfl
  | some e => rw [Analysis.optional]; exact (analyses_one (.expr e)).symm

theorem statics_eq (rs : List Routine) : Analysis.statics rs = analyses (Part.statics rs) := by
  induction rs with
  | nil => rw [Analysis.statics]; rfl
  | cons r rs ih => rw [Analysis.statics, ih]; rfl

theorem methods_eq (rs : List Routine) : Analysis.methods rs = analyses (Part.methods rs) := by
  induction rs with
  | nil => rw [Analysis.methods]; rfl
  | cons r rs ih => rw [Analysis.methods, ih]; rfl

/-- An expression that uses no name itself is analysed through its children. -/
theorem analysis_expr {e : Expr} (h : node? (.expr e) = none) :
    analysis (.expr e) = analyses (exprChildren e) := by
  have last (a : Analysis Unit) (p : Part) : (do a; analysis p) = (do a; analyses [p]) := by rw [analyses_one]
  cases e with
  | literal value => simp only [analysis, expr]; rfl
  | unary op e | group e | get e name => simp only [analysis, expr]; exact (analyses_one (.expr e)).symm
  | binary l op r | logical l op r | update l name op r | index l r line =>
    simp only [analysis, expr]; exact last _ (.expr r)
  | set l name r => simp only [analysis, expr]; exact last _ (.expr l)
  | ternary e y n =>
    simp only [analysis, expr]
    exact congrArg _ (funext fun _ => last _ (.expr n))
  | call f es line => simp only [analysis, expr, exprs_eq]; rfl
  | lambda r => simp only [analysis, expr]; exact (analyses_one (.routine .lambda r)).symm
  | «variable» id name => cases h
  | assign id name e => cases h
  | suffix id name op => cases h
  | this id line => cases h

/-- A statement that opens no scope, declares nothing and checks nothing is analysed through its children. -/
def isSimple : Stmt → Bool
  | .expression _ | .print _ | .conditional _ _ _ | .loop _ _ | .break _ | .continue _ => true
  | _ => false

theorem analysis_simple {s : Stmt} (h : isSimple s = true) : analysis (.stmt s) = analyses (stmtChildren s) := by
  cases s with
  | expression e | print e => simp only [analysis, stmt]; exact (analyses_one (.expr e)).symm
  | conditional e y n? =>
    simp only [analysis, stmt, stmtChildren, analyses_cons]
    cases n? with
    | none => rw [otherwise]; rfl
    | some n => rw [otherwise]; exact congrArg _ (funext fun _ => congrArg _ (funext fun _ => (analyses_one (.stmt n)).symm))
  | loop e s =>
    simp only [analysis, stmt, stmtChildren, analyses_cons]
    exact congrArg _ (funext fun _ => (analyses_one (.stmt s)).symm)
  | «break» line | «continue» line => simp only [analysis, stmt]; rfl
  | var name e? => cases h
  | block ss => cases h
  | function r => cases h
  | «return» line e? => cases h
  | «class» d => cases h

theorem analysis_stmts (ss : List Stmt) : analysis (.stmts ss) = analyses (children (.stmts ss)) := by
  cases ss with
  | nil => simp only [analysis, stmts]; rfl
  | cons s ss =>
    simp only [analysis, stmts, children, analyses_cons]
    exact congrArg _ (funext fun _ => (analyses_one (.stmts ss)).symm)

theorem analysis_var (name : Name) (e? : Option Expr) :
    analysis (.stmt (.var name e?)) = (do declare name; analyses (e?.toList.map .expr); define name) := by
  simp only [analysis, stmt, optional_eq]

theorem analysis_block (ss : List Stmt) : analysis (.stmt (.block ss)) = withScope [] (analysis (.stmts ss)) := by
  simp only [analysis, stmt]

theorem analysis_function (r : Routine) :
    analysis (.stmt (.function r)) = (do declare r.name; define r.name; analysis (.routine .function r)) := by
  simp only [analysis, stmt]

theorem analysis_class (d : ClassDeclaration) :
    analysis (.stmt (.class d)) = (do
      declare d.name
      define d.name
      checkBase d.name d.base
      analyses (d.base.toList.map .expr)
      withReceiver .static (analyses (Part.statics d.statics))
      withReceiver .object (withScope receiverScope (analyses (Part.methods d.methods)))) := by
  obtain ⟨name, base, ms, ss⟩ := d
  simp only [analysis, stmt, classDeclaration, optional_eq, statics_eq, methods_eq]

theorem analysis_routine (kind : RoutineKind) (r : Routine) :
    analysis (.routine kind r) = withRoutine kind (withScope [] do
      parameters r.params
      analysis (.stmts r.body)
      warnUnreachable r.body) := by
  obtain ⟨name, params, body⟩ := r
  simp only [analysis, routine]

theorem declares_exprChildren {e : Expr} : ∀ p ∈ exprChildren e, p.declares = [] := by
  cases e with
  | _ => simp [exprChildren, Part.declares]

/-- What a statement without a scope of its own declares is what the parts of it declare. -/
theorem declares_simple {s : Stmt} (h : isSimple s = true) : (stmtChildren s).flatMap Part.declares = s.declares := by
  cases s with
  | conditional e yes no =>
    cases no <;> simp [stmtChildren, Part.declares, Stmt.declares, Stmt.otherwiseDeclares]
  | loop e body | expression | print | «break» | «continue» => simp [stmtChildren, Part.declares, Stmt.declares]
  | _ => cases h

section Congruence

/-- A relation between analyses that holds between what an analysis of names consists of and the same with other numbers
and lines, and that passes from the pieces to the whole. The names are those that the first analysis declares, and only
some numbers need to occur. -/
structure Congruence (ρ : Relabeling) (occurs : NodeId → Prop)
    (R : List String → Analysis Unit → Analysis Unit → Prop) : Prop where
  done : R [] (done ()) (done ())
  bind {ds es : List String} {a a' b b' : Analysis Unit} : R ds a a' → R es b b' →
    R (ds ++ es) (do a; b) (do a'; b')
  fail (line : Nat) (near : Option String) (fault : Fault) :
    R [] (fail ⟨line, near⟩ fault) (fail ⟨ρ.line line, near⟩ fault)
  choose {f f' : Context → Analysis Unit} :
    (∀ c c', c.routine = c'.routine → c.receiver = c'.receiver → R [] (f c) (f' c')) →
    R [] (context >>= f) (context >>= f')
  withScope {ds : List String} {a a' : Analysis Unit} (scope : Scope) : R ds a a' →
    R [] (withScope scope a) (withScope scope a')
  withRoutine {ds : List String} {a a' : Analysis Unit} (kind : RoutineKind) : R ds a a' →
    R ds (withRoutine kind a) (withRoutine kind a')
  withReceiver {ds : List String} {a a' : Analysis Unit} (receiver : Receiver) : R ds a a' →
    R ds (withReceiver receiver a) (withReceiver receiver a')
  declare (name : Name) : R [name.text] (declare name) (declare (ρ.name name))
  define (name : Name) : R [] (define name) (define (ρ.name name))
  checkInitialized (name : Name) : R [] (checkInitialized name) (checkInitialized (ρ.name name))
  bindNode {id : NodeId} (x : String) : occurs id → R [] (bindNode id x) (bindNode (ρ.number id) x)
  warnUnreachable (body : List Stmt) : R [] (warnUnreachable body) (warnUnreachable (body.map ρ.stmt))

namespace Congruence

variable {ρ : Relabeling} {occurs : NodeId → Prop} {R : List String → Analysis Unit → Analysis Unit → Prop}
  (h : Congruence ρ occurs R)

include h

theorem parameters (ps : List Name) :
    R (ps.map Name.text) (Analysis.parameters ps) (Analysis.parameters (ps.map ρ.name)) := by
  induction ps with
  | nil => exact h.done
  | cons p ps ih => exact h.bind (h.declare p) (h.bind (h.define p) ih)

theorem checkBase (name : Name) (base : Option Expr) :
    R [] (Analysis.checkBase name base) (Analysis.checkBase (ρ.name name) (base.map ρ.expr)) := by
  rcases base with _ | e
  · exact h.done
  · cases e with
    | «variable» id base =>
      have own : (ρ.name base).text = (ρ.name name).text ↔ base.text = name.text := Iff.rfl
      simp only [Option.map_some, Relabeling.expr, Analysis.checkBase]
      by_cases same : base.text = name.text
      · rw [if_pos same, if_pos (own.2 same)]
        exact h.fail base.line (some base.text) .ownBase
      · rw [if_neg same, if_neg (mt own.1 same)]
        exact h.done
    | _ => exact h.done

theorem analyses {ps : List Part} (each : ∀ p ∈ ps, R p.declares (analysis p) (analysis (ρ.part p))) :
    R (ps.flatMap Part.declares) (analyses ps) (analyses (ps.map ρ.part)) := by
  induction ps with
  | nil => exact h.done
  | cons p ps ih =>
    rw [List.forall_mem_cons] at each
    exact h.bind each.1 (ih each.2)

theorem analyses_nil {ps : List Part} (each : ∀ p ∈ ps, R p.declares (analysis p) (analysis (ρ.part p)))
    (silent : ∀ p ∈ ps, p.declares = []) : R [] (Scope.analyses ps) (Scope.analyses (ps.map ρ.part)) := by
  have all := h.analyses each
  rwa [List.flatMap_eq_nil_iff.2 silent] at all

/-- What holds of the pieces holds of the analysis of every part. -/
theorem analysis (p : Part) (ids : ∀ id ∈ p.ids, occurs id) : R p.declares (analysis p) (analysis (ρ.part p)) := by
  induction p using Part.induct with
  | step p ih =>
    have below (q : Part) (hq : q ∈ p.children) : R q.declares (Scope.analysis q) (Scope.analysis (ρ.part q)) :=
      ih q hq fun id hid => ids id (Part.mem_ids_of_mem_children hq hid)
    have own {id : NodeId} {name : String} (hn : p.node? = some (id, name)) : occurs id :=
      ids id (Part.mem_ids_of_node? hn)
    cases p with
    | expr e =>
      by_cases hn : node? (.expr e) = none
      · have hn' : node? (.expr (ρ.expr e)) = none := by
          have renamed := ρ.node?_part (.expr e)
          rwa [hn] at renamed
        have inner := h.analyses_nil below declares_exprChildren
        rw [← ρ.children_part] at inner
        rw [Relabeling.part, analysis_expr hn, analysis_expr hn']
        exact inner
      · cases e with
        | «variable» id name | suffix id name op => exact h.bind (h.checkInitialized name) (h.bindNode _ (own rfl))
        | assign id name e => exact h.bind (below (.expr e) (by simp [children, exprChildren])) (h.bindNode _ (own rfl))
        | this id line =>
          refine h.choose fun c c' _ same => ?_
          rw [same]
          cases c'.receiver with
          | none => exact h.fail _ _ _
          | static => exact h.fail _ _ _
          | object => exact h.bindNode _ (own rfl)
        | _ => exact absurd rfl hn
    | routine kind r =>
      rw [Relabeling.part, analysis_routine, analysis_routine, ρ.params_routine, ρ.body_routine]
      have body := h.bind (below (.stmts r.body) (by simp [children])) (h.warnUnreachable r.body)
      exact h.withRoutine kind (h.withScope [] (h.bind (h.parameters r.params) body))
    | stmts ss =>
      have inner := h.analyses below
      rw [← ρ.children_part] at inner
      rw [analysis_stmts, Relabeling.part, analysis_stmts]
      cases ss <;> simpa [children, Part.declares, Relabeling.part] using inner
    | stmt s =>
      have exprs (e? : Option Expr) : ∀ q ∈ e?.toList.map Part.expr, q.declares = [] := by simp [Part.declares]
      by_cases hs : isSimple s = true
      · have hs' : isSimple (ρ.stmt s) = true := by
          cases s <;> first | rfl | cases hs
        have inner := h.analyses below
        rw [← ρ.children_part] at inner
        rw [Relabeling.part, analysis_simple hs, analysis_simple hs', Part.declares, ← declares_simple hs]
        exact inner
      · cases s with
        | var name e? =>
          rw [Relabeling.part, Relabeling.stmt, ρ.optional_eq_map, analysis_var, analysis_var, ρ.exprs_map,
            Part.declares, Stmt.declares]
          exact h.bind (h.declare name) (h.bind (h.analyses_nil below (exprs e?)) (h.define name))
        | block ss =>
          rw [Relabeling.part, Relabeling.stmt, ρ.stmts_eq_map, analysis_block, analysis_block, Part.declares,
            Stmt.declares.eq_def]
          exact h.withScope [] (below (.stmts ss) (by simp [children, stmtChildren]))
        | function r =>
          have inner := below (.routine .function r) (by simp [children, stmtChildren])
          rw [Relabeling.part, Relabeling.stmt, analysis_function, analysis_function, ρ.name_routine, Part.declares,
            Stmt.declares]
          exact h.bind (h.declare r.name) (h.bind (h.define r.name) inner)
        | «return» line e? =>
          have value : R [] (Analysis.optional e?) (Analysis.optional (ρ.optional e?)) := by
            rw [ρ.optional_eq_map, optional_eq, optional_eq, ρ.exprs_map]
            exact h.analyses_nil below (exprs e?)
          rw [Part.declares, Stmt.declares.eq_def]
          refine h.choose fun c c' same _ => ?_
          rw [same]
          rcases c'.routine with _ | kind
          · exact h.fail _ _ _
          · cases kind with
            | constructor =>
              cases e? with
              | none => exact value
              | some e => exact h.fail _ _ _
            | _ => exact value
        | «class» d =>
          obtain ⟨name, base, ms, ss⟩ := d
          obtain ⟨bases, methods⟩ := List.forall_mem_append.1 below
          obtain ⟨bases, statics⟩ := List.forall_mem_append.1 bases
          have none (f : Routine → RoutineKind) (rs : List Routine) :
              ∀ q ∈ rs.map fun r => Part.routine (f r) r, q.declares = [] := by simp [Part.declares]
          rw [Relabeling.part, Relabeling.stmt, Relabeling.declaration, ρ.optional_eq_map, ρ.routines_eq_map,
            ρ.routines_eq_map, analysis_class, analysis_class, Part.declares, Stmt.declares]
          dsimp only
          rw [ρ.exprs_map, ρ.statics_map, ρ.methods_map]
          refine h.bind (h.declare name) (h.bind (h.define name) (h.bind (h.checkBase name base) ?_))
          refine h.bind (h.analyses_nil bases (exprs base)) ?_
          refine h.bind (h.withReceiver .static (h.analyses_nil statics (none _ _))) ?_
          exact h.withReceiver .object (h.withScope receiverScope (h.analyses_nil methods (none _ _)))
        | _ => exact absurd rfl hs

end Congruence

end Congruence

theorem keeps_analyses {id : NodeId} {ps : List Part} (h : ∀ p ∈ ps, Keeps id (analysis p)) :
    Keeps id (analyses ps) := by
  induction ps with
  | nil => exact keeps_pure ()
  | cons p ps ih =>
    rw [List.forall_mem_cons] at h
    exact h.1.bind fun _ => ih h.2

/-- Only the nodes of a part get a distance from it. -/
theorem keeps_analysis {id : NodeId} (p : Part) (h : id ∉ p.ids) : Keeps id (analysis p) := by
  have law : Congruence .unlined (id ≠ ·) fun _ a _ => Keeps id a := {
    done := keeps_pure ()
    bind := fun ha hb => ha.bind fun _ => hb
    fail := fun _ _ _ => keeps_fail _ _
    choose := fun hf => keeps_context.bind fun c => hf c c rfl rfl
    withScope := fun scope ha => ha.withScope scope
    withRoutine := fun kind ha => ha.withRoutine kind
    withReceiver := fun receiver ha => ha.withReceiver receiver
    declare := keeps_declare
    define := keeps_define
    checkInitialized := keeps_checkInitialized
    bindNode := fun x ne => keeps_bindNode ne x
    warnUnreachable := keeps_warnUnreachable }
  exact law.analysis p fun id' hid => (ne_of_mem_of_not_mem hid h).symm

/-- The names that a part leaves in the scope that it stands in. -/
def declaredNames : Part → List String
  | .stmt s => (declared? s).toList.map Name.text
  | .stmts ss => ss.flatMap fun s => (declared? s).toList.map Name.text
  | _ => []

theorem declares_analyses {ps : List Part} (h : ∀ p ∈ ps, Declares (declaredNames p) (analysis p)) :
    Declares (ps.flatMap declaredNames) (analyses ps) := by
  induction ps with
  | nil => exact declares_pure ()
  | cons p ps ih =>
    rw [List.forall_mem_cons] at h
    exact h.1.bind fun _ => ih h.2

/-- Parts that declare nothing leave the names as they are. -/
theorem declares_analyses_nil {ps : List Part} (h : ∀ p ∈ ps, Declares (declaredNames p) (analysis p))
    (hps : ∀ p ∈ ps, declaredNames p = []) : Declares [] (analyses ps) := by
  have all := declares_analyses h
  rwa [List.flatMap_eq_nil_iff.2 hps] at all

theorem declaredNames_exprChildren {e : Expr} : ∀ p ∈ exprChildren e, declaredNames p = [] := by
  cases e with
  | _ => simp [exprChildren, declaredNames]

/-- A branch that the grammar allows declares nothing, so a statement declares at most the name that it starts with. -/
theorem declares_of_shaped (p : Part) (h : p.Shaped) : p.declares = declaredNames p := by
  induction p using Part.induct with
  | step p ih =>
    cases p with
    | expr e => rfl
    | routine kind r => rfl
    | stmts ss =>
      cases ss with
      | nil => rfl
      | cons s ss =>
        have first : s.declares = declaredNames (.stmt s) :=
          ih (.stmt s) (by simp [children]) (h.child (by simp [children]))
        have rest : ss.flatMap Stmt.declares = declaredNames (.stmts ss) :=
          ih (.stmts ss) (by simp [children]) (h.child (by simp [children]))
        rw [Part.declares, List.flatMap_cons, first, rest]
        rfl
    | stmt s =>
      have branch {b : Stmt} (hb : Part.stmt b ∈ (Part.stmt s).children) (silent : declared? b = none) :
          b.declares = [] := by
        have same : b.declares = (declared? b).toList.map Name.text := ih (.stmt b) hb (h.child hb)
        rw [same, silent]
        rfl
      cases s with
      | conditional e yes no =>
        obtain ⟨silent, silent'⟩ := h.tidy
        have first := branch (b := yes) (by simp [children, stmtChildren]) silent
        cases no with
        | none => simp [Part.declares, Stmt.declares, Stmt.otherwiseDeclares, first, declaredNames, declared?]
        | some no =>
          have second := branch (b := no) (by simp [children, stmtChildren]) (silent' no rfl)
          simp [Part.declares, Stmt.declares, Stmt.otherwiseDeclares, first, second, declaredNames, declared?]
      | loop e body =>
        have only := branch (b := body) (by simp [children, stmtChildren]) h.tidy
        simp [Part.declares, Stmt.declares, only, declaredNames, declared?]
      | _ => simp [Part.declares, Stmt.declares, declaredNames, declared?]

theorem declares_analysis (p : Part) (h : p.Shaped) : Declares (declaredNames p) (analysis p) := by
  have law : Congruence .unlined (fun _ => True) fun ds a _ => Declares ds a := {
    done := declares_pure ()
    bind := fun ha hb => ha.bind fun _ => hb
    fail := fun _ _ _ => declares_fail _ _ _
    choose := fun hf => declares_context.bind fun c => hf c c rfl rfl
    withScope := fun scope ha => ha.withScope scope
    withRoutine := fun kind ha => ha.withRoutine kind
    withReceiver := fun receiver ha => ha.withReceiver receiver
    declare := declares_declare
    define := declares_define
    checkInitialized := declares_checkInitialized
    bindNode := fun x _ => declares_bindNode _ x
    warnUnreachable := declares_warnUnreachable }
  rw [← declares_of_shaped p h]
  exact law.analysis p fun _ _ => trivial

end Scope

end Scriptlet
