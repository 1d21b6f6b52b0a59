import Scriptlet.Proofs.AnalysisAccord
import Scriptlet.Proofs.Numbering
import Scriptlet.Proofs.Sites

/-!
Where a program may transfer control. The grammar lets `break` and `continue` stand in loops only, and a routine has no
part in the loops around it; the analysis of names lets `return` stand in routines only. `Part.Contained` says so of a
whole tree.
-/
namespace Scriptlet

namespace Grammar

/-- A program that the parser accepts transfers control within its loops; it may still return from the top level. -/
theorem contained_parse {tokens : List Token} {base next : NodeId} {program : List Stmt}
    (h : Parser.parse tokens base = ⟨.ok program, next⟩) : (Part.stmts program).Contained .body :=
  (Derives.formed (k := .declarations false) (parse_eq_ok.1 h) False.elim Part.allFormed_nil).one.contained

theorem contained_parseExpression {tokens : List Token} {base next : NodeId} {e : Expr}
    (h : Parser.parseExpression tokens base = ⟨.ok e, next⟩) : (Part.expr e).Contained .body := by
  rcases parseExpression_eq_ok.1 h with d | ⟨us, c, -, -, d⟩
  · exact (d.formed False.elim Part.allFormed_nil).one.contained
  · exact (d.formed False.elim Part.allFormed_nil).one.contained

end Grammar

namespace Scope

open Analysis
open Scriptlet.Part (children exprChildren stmtChildren node? Contained)

/-- The analysis of a part ends in the routine that it has started in. -/
theorem routine_after (p : Part) (c : Context) : (after (analysis p) c).routine = c.routine :=
  (accords_analysis (D := fun _ _ => True) (ρ := .unlined) (fun _ _ _ _ _ => trivial) p c c ⟨rfl, rfl, rfl, trivial⟩).routine

theorem routine_declare (name : Name) (c : Context) : (after (declare name) c).routine = c.routine := by
  unfold after declare
  repeat' split
  all_goals rfl

theorem routine_define (name : Name) (c : Context) : (after (define name) c).routine = c.routine := by
  unfold after define
  split <;> rfl

/-- Parts that pass one after the other pass each for itself, somewhere in the same routine. -/
theorem passes_each {ps : List Part} {c : Context} (h : Passes (analyses ps) c) {p : Part} (hp : p ∈ ps) :
    ∃ c', c'.routine = c.routine ∧ Passes (analysis p) c' := by
  induction ps generalizing c with
  | nil => cases hp
  | cons q qs ih =>
    obtain ⟨first, others⟩ := passes_seq.1 h
    rcases List.mem_cons.1 hp with rfl | hp
    · exact ⟨c, rfl, first⟩
    · obtain ⟨c', routine, passes⟩ := ih others hp
      exact ⟨c', routine.trans (routine_after q c), passes⟩

def isRoutine : Part → Bool
  | .routine _ _ => true
  | _ => false

/-- Unless a routine begins, what is below a part is analysed in the same routine. -/
theorem passes_child {p q : Part} {c : Context} (hp : isRoutine p = false) (h : Passes (analysis p) c)
    (hq : q ∈ p.children) (plain : isRoutine q = false) : ∃ c', c'.routine = c.routine ∧ Passes (analysis q) c' := by
  cases p with
  | routine kind r => cases hp
  | expr e =>
    by_cases hn : node? (.expr e) = none
    · rw [analysis_expr hn] at h
      exact passes_each h hq
    · cases e with
      | assign id name e =>
        obtain rfl := List.mem_singleton.1 hq
        exact ⟨c, rfl, (passes_seq.1 h).1⟩
      | «variable» id name => cases hq
      | suffix id name op => cases hq
      | this id line => cases hq
      | _ => exact absurd rfl hn
  | stmts ss =>
    rw [analysis_stmts] at h
    exact passes_each h hq
  | stmt s =>
    by_cases hs : isSimple s = true
    · rw [analysis_simple hs] at h
      exact passes_each h hq
    · cases s with
      | var name e? =>
        rw [analysis_var] at h
        obtain ⟨c', routine, passes⟩ := passes_each (passes_seq.1 (passes_seq.1 h).2).1 hq
        exact ⟨c', routine.trans (routine_declare name c), passes⟩
      | block ss =>
        obtain rfl := List.mem_singleton.1 hq
        rw [analysis_block] at h
        exact ⟨c.inside [], rfl, h⟩
      | function r =>
        obtain rfl := List.mem_singleton.1 hq
        cases plain
      | «return» line e? =>
        have passes : Passes (analyses (e?.toList.map .expr)) c := (congrArg Prod.fst (analysis_return h)).symm.trans h
        exact passes_each passes hq
      | «class» d =>
        obtain ⟨named, base, -⟩ := passes_class h
        have routine : (afterName d c).routine = c.routine := by
          rw [afterName, after_seq (passes_seq.1 named).1, routine_define, routine_declare]
        have hq : q ∈ d.base.toList.map .expr := by
          rcases List.mem_append.1 hq with hq | hq
          · rcases List.mem_append.1 hq with hq | hq
            · exact hq
            · obtain ⟨r, -, rfl⟩ := List.mem_map.1 hq
              cases plain
          · obtain ⟨r, -, rfl⟩ := List.mem_map.1 hq
            cases plain
        obtain ⟨c', routine', passes⟩ := passes_each base hq
        exact ⟨c', routine'.trans routine, passes⟩
      | _ => exact absurd rfl hs

/-- Of a program that passes the analysis, no part returns from outside of a routine. -/
theorem contained_of_passes {p : Part} {room : Room} {c : Context} (h : p.Contained room) (passes : Passes (analysis p) c) :
    p.Contained { room with routine := c.routine.isSome } := by
  induction p using Part.induct generalizing room c with
  | step p ih =>
    refine .intro ?_ fun q hq => ?_
    · have obeys := h.obeys
      unfold Part.Obeys at obeys ⊢
      split
      · exact obeys
      · exact obeys
      · rcases hc : c.routine with _ | kind
        · obtain ⟨scopes, routine, receiver, warnings, distances⟩ := c
          cases hc
          cases passes
        · rfl
      · trivial
    · have child := h.child hq
      cases hp : isRoutine p with
      | true =>
        cases p with
        | routine kind r => exact child
        | _ => cases hp
      | false =>
        cases plain : isRoutine q with
        | true =>
          cases q with
          | routine kind r => exact child.routine
          | _ => cases plain
        | false =>
          obtain ⟨c', routine, passes⟩ := passes_child hp passes hq plain
          have contained := ih q hq child passes
          rw [routine] at contained
          have inner : p.inner { room with routine := c.routine.isSome } =
              { p.inner room with routine := c.routine.isSome } := by
            unfold Part.inner
            split
            · cases hp
            · rfl
            · rfl
          rwa [inner]

theorem contained_of_resolve {program : List Stmt} {d : Distances} (h : (Part.stmts program).Contained .body)
    (resolved : (resolve program d).result = .ok ()) : (Part.stmts program).Contained .outside :=
  contained_of_passes h (c := Scope.outside d) resolved

end Scope

end Scriptlet
