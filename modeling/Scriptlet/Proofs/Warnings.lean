import Scriptlet.Proofs.Usage

/-!
The warnings of an accepted program, read off the tree. Every scope has its declarations, each with the parts where its
name has that meaning; a declaration is warned of if none of these parts uses the name. A routine is warned of if its body
goes on after a `return`. There are no other warnings, and they come in the order of lines.
-/
namespace Scriptlet

namespace Part

/-- The declarations of a scope that nothing uses. -/
def unusedIn (params : List Name) (body : List Stmt) : List Name :=
  ((declarations params body).filter fun (name, reach) => ∀ part ∈ reach, ¬ part.Uses name.text).map Prod.fst

/-- The first `return` of a body that has a statement after it. -/
def returnBeforeEnd? (body : List Stmt) : Option Place :=
  body.dropLast.findSome? fun
    | .return line _ => some ⟨line, some "return"⟩
    | _ => none

/-- What is to be said of a part. -/
def notices (part : Part) : List Warning :=
  let unreachable := match part with
    | .routine _ r => (returnBeforeEnd? r.body).toList
    | _ => []
  let unused := match part.scope? with
    | some (params, body) => (unusedIn params body).map Name.place
    | none => []
  unreachable.map (⟨·, "Unreachable code detected"⟩) ++ unused.map (⟨·, "Local variable is never used."⟩)

end Part

namespace Scope

open Analysis
open Scriptlet.Part (unusedIn returnBeforeEnd? notices declarations scope?)

theorem earlyReturn?_eq (body : List Stmt) : earlyReturn? body = returnBeforeEnd? body := by
  unfold returnBeforeEnd?
  induction body with
  | nil => rfl
  | cons s rest ih =>
    cases rest with
    | nil => cases s <;> rfl
    | cons s' rest =>
      rw [List.dropLast_cons_cons, List.findSome?_cons]
      cases s with
      | «return» line value => rfl
      | _ => exact ih

/-- A variable is still unread at the end if no part of its reach uses it. -/
theorem unused_settled (params : List Name) (body : List Stmt) :
    Scope.unused ((declarations params body).map settled) = (unusedIn params body).map (⟨·.place, .unused⟩) := by
  unfold unusedIn
  induction declarations params body with
  | nil => rfl
  | cons d ds ih =>
    obtain ⟨name, reach⟩ := d
    have cons (e : Entry) (scope : Scope) : Scope.unused (e :: scope) = Scope.unused [e] ++ Scope.unused scope :=
      List.filterMap_append (l := [e])
    rw [List.map_cons, cons, ih]
    by_cases used : reach.any (·.uses name.text) = true
    · have skipped : ¬ ∀ part ∈ reach, ¬ part.Uses name.text := by
        obtain ⟨part, hp, uses⟩ := any_uses.1 used
        exact fun unread => unread part hp uses
      have read : Scope.unused [settled (name, reach)] = [] := by
        rw [settled, used]
        rfl
      rw [read, List.filter_cons_of_neg (by simpa using skipped)]
      rfl
    · have unread : ∀ part ∈ reach, ¬ part.Uses name.text := fun part hp uses => used (any_uses.2 ⟨part, hp, uses⟩)
      have warned : Scope.unused [settled (name, reach)] = [⟨name.place, .unused⟩] := by
        rw [settled, Bool.eq_false_iff.2 used]
        rfl
      rw [warned, List.filter_cons_of_pos (by simpa using unread)]
      rfl

theorem map_advice (p : Part) : (advice p).map Scriptlet.Warning.ofScope = notices p := by
  unfold notices
  cases p with
  | expr e => rfl
  | stmts ss => rfl
  | routine kind r =>
    rw [advice, earlyReturn?_eq, unused_settled, List.map_append, scope?]
    simp [Scriptlet.Warning.ofScope, Advice.message, Function.comp_def]
  | stmt s =>
    cases s with
    | block body =>
      have unused := unused_settled [] body
      rw [declarations, List.map_nil, List.nil_append] at unused
      rw [advice, unused]
      simp [scope?, Scriptlet.Warning.ofScope, Advice.message, Function.comp_def]
    | _ => rfl

theorem map_warned (p : Part) : (warned p).map Scriptlet.Warning.ofScope = p.within.flatMap notices := by
  rw [warned, List.map_flatMap]
  exact List.flatMap_congr fun q _ => map_advice q

theorem warnings_resolve (program : List Stmt) (d : Distances) : (resolve program d).warnings =
    (after (analysis (.stmts program)) (outside d)).warnings.mergeSort fun w w' => w.place.line ≤ w'.place.line := rfl

end Scope

open Scope

/-- The warnings of an accepted program are those that its parts give rise to, in the order of lines. -/
theorem warnings_exact {source : String} {base : NodeId} {program : List Stmt}
    (parsed : (Parser.parse (Session.tokensOf source) base).result = .ok program) {d : Distances}
    (accepted : (resolve program d).result = .ok ()) :
    (resolve program d).warnings.Pairwise (fun w w' => w.place.line ≤ w'.place.line) ∧
      ((resolve program d).warnings.map Warning.ofScope).Perm ((Part.stmts program).within.flatMap Part.notices) := by
  have passes : Passes (analysis (.stmts program)) (outside d) := accepted
  obtain ⟨used, -, left⟩ := leaves_analysis _ (readable_program parsed).shaped
  have warnings : (after (analysis (.stmts program)) (outside d)).warnings = warned (.stmts program) :=
    (left _ passes).warnings
  rw [warnings_resolve, warnings]
  constructor
  · let le (w w' : Scope.Warning) : Bool := w.place.line ≤ w'.place.line
    have trans (u v w : Scope.Warning) (huv : le u v = true) (hvw : le v w = true) : le u w = true :=
      decide_eq_true (Nat.le_trans (of_decide_eq_true huv) (of_decide_eq_true hvw))
    have total (v w : Scope.Warning) : (le v w || le w v) = true := by
      rw [Bool.or_eq_true]
      exact (Nat.le_total v.place.line w.place.line).imp decide_eq_true decide_eq_true
    exact (List.pairwise_mergeSort trans total (warned (.stmts program))).imp of_decide_eq_true
  · rw [← map_warned]
    exact (List.mergeSort_perm _ _).map _

/-- The first `a` is used in the block before there is another one, which nothing uses. The function itself is not used
either, and goes on after its `return`. -/
def wasteful : List Stmt :=
  [.block [.var ⟨"a", 1⟩ none,
    .function ⟨⟨"f", 2⟩, [⟨"p", 2⟩, ⟨"a", 2⟩], [.return 2 (some (.variable 0 ⟨"p", 2⟩)),
      .expression (.assign 2 ⟨"a", 3⟩ (.literal (.number .one)))]⟩,
    .block [.print (.variable 3 ⟨"a", 4⟩), .var ⟨"a", 4⟩ (some (.literal (.number .one)))]]]

theorem warnings_exact_wasteful :
    (Parser.parse (Session.tokensOf
      "\x7b var a;\n fun f(p, a) \x7b return p;\n a = 1; \x7d\n \x7b print a; var a = 1; \x7d \x7d") 0).result = .ok wasteful ∧
      [⟨⟨2, some "return"⟩, "Unreachable code detected"⟩, ⟨⟨2, some "f"⟩, "Local variable is never used."⟩,
        ⟨⟨4, some "a"⟩, "Local variable is never used."⟩].Perm ((Part.stmts wasteful).within.flatMap Part.notices) := by
  have parsed : (Parser.parse (Session.tokensOf
    "\x7b var a;\n fun f(p, a) \x7b return p;\n a = 1; \x7d\n \x7b print a; var a = 1; \x7d \x7d") 0).result = .ok wasteful := by
    cbv
  have accepted : (resolve wasteful .empty).result = .ok () := by cbv
  have given : (resolve wasteful .empty).warnings.map Warning.ofScope =
      [⟨⟨2, some "return"⟩, "Unreachable code detected"⟩, ⟨⟨2, some "f"⟩, "Local variable is never used."⟩,
        ⟨⟨4, some "a"⟩, "Local variable is never used."⟩] := by
    cbv
  refine ⟨parsed, ?_⟩
  rw [← given]
  exact (warnings_exact parsed accepted).2

end Scriptlet
