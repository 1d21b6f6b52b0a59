import Mathlib
import Scriptlet.Proofs.Containment
import Scriptlet.Proofs.Renaming
import Scriptlet.Proofs.Restaging
import Scriptlet.Proofs.Texts

/-!
Local variables in their own initializers. A variable may not be read there before anything else has used it: the program
is rejected at that read, unless it has been rejected already. But a use of any other kind, an assignment or a use in a
routine, marks the variable as read, and from there on the rule no longer applies.
-/
namespace Scriptlet

namespace Part

/-- In the order of the analysis, the first use of the variable is a read outside of routines, at the place. The parts
are those that come before it. -/
inductive ReadsFirst (x : String) : Part → List Part → Place → Prop
  | variable {id : NodeId} {name : Name} : name.text = x → ReadsFirst x (.expr (.variable id name)) [] name.place
  | suffix {id : NodeId} {name : Name} {op : Token} : name.text = x →
      ReadsFirst x (.expr (.suffix id name op)) [] name.place
  | within {e : Expr} {before rest earlier : List Part} {q : Part} {place : Place} :
      exprChildren e = before ++ q :: rest → (∀ p ∈ before, ¬ p.Uses x) → ReadsFirst x q earlier place →
      ReadsFirst x (.expr e) (before ++ earlier) place

theorem ReadsFirst.uses {x : String} {p : Part} {earlier : List Part} {place : Place}
    (h : p.ReadsFirst x earlier place) : p.Uses x := by
  induction h with
  | «variable» same | suffix same => exact .node (congrArg (fun y => some (_, y)) same)
  | within whole _ _ ih => exact uses_expr.2 (.inr ⟨_, by simp [whole], ih⟩)

/-- The variable is assigned, or used in a routine. -/
inductive UsesOtherwise (x : String) : Part → Prop
  | assign {id : NodeId} {name : Name} {value : Expr} : name.text = x → UsesOtherwise x (.expr (.assign id name value))
  | routine {kind : RoutineKind} {r : Routine} : (Part.routine kind r).Uses x → UsesOtherwise x (.routine kind r)
  | within {e : Expr} {q : Part} : q ∈ exprChildren e → UsesOtherwise x q → UsesOtherwise x (.expr e)

/-- The first of several parts that use the variable. -/
theorem exists_first_use {x : String} {ps : List Part} (h : ∃ p ∈ ps, p.Uses x) :
    ∃ before q rest, ps = before ++ q :: rest ∧ (∀ p ∈ before, ¬ p.Uses x) ∧ q.Uses x := by
  induction ps with
  | nil => simp at h
  | cons p ps ih =>
    by_cases used : p.Uses x
    · exact ⟨[], p, ps, rfl, nofun, used⟩
    · obtain ⟨q, mem, uses⟩ := h
      have later : q ∈ ps := (List.mem_cons.1 mem).resolve_left fun same => used (same ▸ uses)
      obtain ⟨before, q, rest, rfl, free, uses⟩ := ih ⟨q, later, uses⟩
      exact ⟨p :: before, q, rest, rfl, List.forall_mem_cons.2 ⟨used, free⟩, uses⟩

/-- Where the variable is only read, it is read first. -/
theorem Uses.cases {x : String} (hx : x ≠ "this") {e : Expr} (h : (Part.expr e).Uses x) :
    (∃ earlier place, (Part.expr e).ReadsFirst x earlier place) ∨ (Part.expr e).UsesOtherwise x := by
  generalize hp : Part.expr e = p at h ⊢
  induction p using Part.induct generalizing e with
  | step p ih =>
    subst hp
    rcases uses_expr.1 h with ⟨id, node⟩ | below
    · cases e with
      | «variable» id name => exact .inl ⟨_, _, .variable (congrArg Prod.snd (Option.some.inj node))⟩
      | suffix id name op => exact .inl ⟨_, _, .suffix (congrArg Prod.snd (Option.some.inj node))⟩
      | assign id name value => exact .inr (.assign (congrArg Prod.snd (Option.some.inj node)))
      | this id line => exact absurd (congrArg Prod.snd (Option.some.inj node)).symm hx
      | _ => cases node
    · obtain ⟨before, q, rest, whole, free, uses⟩ := exists_first_use below
      have mem : q ∈ exprChildren e := by simp [whole]
      rcases Scope.exprChildren_cases mem with ⟨e', rfl⟩ | ⟨kind, r, rfl⟩
      · rcases ih _ mem rfl uses with ⟨earlier, place, reads⟩ | otherwise
        · exact .inl ⟨_, _, .within whole free reads⟩
        · exact .inr (.within mem otherwise)
      · exact .inr (.within mem (.routine uses))

end Part

namespace Scope

open Analysis
open Scriptlet.Part (children exprChildren node? uses_expr)

section Sequences

variable {a b d : Analysis Unit} {c : Context}

theorem seq_assoc : (do (do a; b); d) = (do a; (do b; d)) := by
  funext c
  by_cases passes : Passes a c
  · have first : (do a; b) c = b (after a c) := seq_of_passes passes
    rw [seq_of_passes passes]
    change andThen (do a; b) (fun _ => d) c = andThen b (fun _ => d) (after a c)
    unfold andThen
    rw [first]
  · have first : (do a; b) c = a c := seq_of_fails passes
    have fails : ¬ Passes (do a; b) c := by
      unfold Passes
      rwa [first]
    rw [seq_of_fails passes, seq_of_fails fails, first]

theorem analyses_append (ps qs : List Part) : analyses (ps ++ qs) = (do analyses ps; analyses qs) := by
  induction ps with
  | nil => rfl
  | cons p ps ih => rw [List.cons_append, analyses_cons, ih, analyses_cons, seq_assoc]

theorem not_passes_fail (place : Place) (fault : Fault) : ¬ Passes (do a; fail place fault) c := by
  rw [passes_seq]
  rintro ⟨-, ⟨⟩⟩

/-- A variable gets its value in the innermost scope. -/
theorem define_eq (name : Name) (c : Context) : define name c = (.ok (), c.restage 0 name.text Stage.define) := by
  obtain ⟨scopes, routine, receiver, warnings, distances⟩ := c
  cases scopes <;> rfl

theorem result_define (name : Name) : ((do a; define name) c).1 = (a c).1 := by
  by_cases passes : Passes a c
  · rw [seq_of_passes passes, passes, define_eq]
  · rw [seq_of_fails passes]

end Sequences

section Marks

variable {x : String}

theorem Marks.congr {k : Nat} {u v : Prop} {a : Analysis Unit} (h : Marks k x u a) (same : v ↔ u) : Marks k x v a := by
  rwa [propext same]

/-- Parts one after the other, none of which reads the variable before all other uses. -/
theorem marks_analyses {ps : List Part}
    (h : ∀ p ∈ ps, (∀ earlier place, ¬ p.ReadsFirst x earlier place) → Marks 0 x (p.Uses x) (analysis p))
    (declares : ∀ p ∈ ps, Declares [] (analysis p))
    (unread : ∀ before q rest, ps = before ++ q :: rest → (∀ p ∈ before, ¬ p.Uses x) →
      ∀ earlier place, ¬ q.ReadsFirst x earlier place) :
    Marks 0 x (∃ p ∈ ps, p.Uses x) (analyses ps) := by
  induction ps with
  | nil => exact tracks_done.marks.congr (by simp)
  | cons p ps ih =>
    obtain ⟨first, others⟩ := List.forall_mem_cons.1 h
    obtain ⟨none, nones⟩ := List.forall_mem_cons.1 declares
    have rest (unused : ¬ p.Uses x) : Marks 0 x (∃ p ∈ ps, p.Uses x) (analyses ps) := by
      refine ih others nones fun before q rest whole free => ?_
      refine unread (p :: before) q rest (by rw [whole, List.cons_append]) ?_
      exact List.forall_mem_cons.2 ⟨unused, free⟩
    exact ((first (unread [] p ps rfl nofun)).seq none rest).congr (by simp)

/-- Another variable may be read at any stage of this one. -/
theorem marks_use {name : Name} (id : NodeId) (other : name.text ≠ x) :
    Marks 0 x (name.text = x) (do checkInitialized name; bindNode id name.text) := by
  have check := (tracks_checkInitialized (k := 0) (.inr other)).marks
  exact (check.seq (declares_checkInitialized name) fun _ => (tracks_bindNode id name.text).marks).congr (by simp)

theorem marks_routine {kind : RoutineKind} {r : Routine} (shaped : (Part.routine kind r).Shaped) (hx : x ≠ "this") :
    Marks 0 x ((Part.routine kind r).Uses x) (analysis (.routine kind r)) := by
  have body : (Part.stmts r.body).Shaped := shaped.child (.head _)
  exact (tracks_routine body (tracks_analysis _ body hx)).marks

/-- An expression that does not read the variable before all other uses goes the same way at every stage. -/
theorem marks_expr (e : Expr) (shaped : (Part.expr e).Shaped) (hx : x ≠ "this")
    (unread : ∀ earlier place, ¬ (Part.expr e).ReadsFirst x earlier place) :
    Marks 0 x ((Part.expr e).Uses x) (analysis (.expr e)) := by
  generalize hp : Part.expr e = p at shaped unread ⊢
  induction p using Part.induct generalizing e with
  | step p ih =>
    subst hp
    have below (q : Part) (hq : q ∈ exprChildren e) (unread : ∀ earlier place, ¬ q.ReadsFirst x earlier place) :
        Marks 0 x (q.Uses x) (analysis q) := by
      have shaped := shaped.child hq
      rcases exprChildren_cases hq with ⟨e', rfl⟩ | ⟨kind, r, rfl⟩
      · exact ih _ hq e' rfl shaped unread
      · exact marks_routine shaped hx
    have declares (q : Part) (hq : q ∈ exprChildren e) : Declares [] (analysis q) :=
      declaredNames_exprChildren q hq ▸ declares_analysis q (shaped.child hq)
    have within (before : List Part) (q : Part) (rest : List Part) (whole : exprChildren e = before ++ q :: rest)
        (free : ∀ p ∈ before, ¬ p.Uses x) (earlier : List Part) (place : Place) : ¬ q.ReadsFirst x earlier place :=
      fun reads => unread _ _ (.within whole free reads)
    by_cases hn : node? (.expr e) = none
    · rw [analysis_expr hn]
      exact (marks_analyses below declares within).congr (by simp [uses_expr, hn])
    · cases e with
      | «variable» id name =>
        have other : name.text ≠ x := fun same => unread _ _ (.variable same)
        exact (marks_use id other).congr (by simp [uses_expr, node?, exprChildren])
      | suffix id name op =>
        have other : name.text ≠ x := fun same => unread _ _ (.suffix same)
        exact (marks_use id other).congr (by simp [uses_expr, node?, exprChildren])
      | assign id name e =>
        have value := below (.expr e) (.head _) (within [] _ [] rfl (by simp))
        exact (value.seq (declares _ (.head _)) fun _ => (tracks_bindNode id name.text).marks).congr
          (by simp [uses_expr, node?, exprChildren, or_comm])
      | this id line => exact (tracks_this id line hx).marks
      | _ => exact absurd rfl hn

theorem marks_child {e : Expr} {p : Part} (hp : p ∈ exprChildren e) (shaped : p.Shaped) (hx : x ≠ "this")
    (unread : ∀ earlier place, ¬ p.ReadsFirst x earlier place) : Marks 0 x (p.Uses x) (analysis p) := by
  rcases exprChildren_cases hp with ⟨e', rfl⟩ | ⟨kind, r, rfl⟩
  · exact marks_expr e' shaped hx unread
  · exact marks_routine shaped hx

end Marks

section Reads

variable {x : String} {c : Context}

/-- The innermost scope has the variable, and it has no value yet. -/
structure Context.Awaits (x : String) (c : Context) : Prop where
  sees : c.Sees 0 x
  declared : c.restage 0 x (fun _ => .declared) = c

theorem nearest_eq_zero {ns : List String} {nss : List (List String)} : nearest x (ns :: nss) = some 0 ↔ x ∈ ns := by
  rw [nearest_cons]
  by_cases here : x ∈ ns <;> simp [here]

theorem Context.Awaits.innermostStage (h : c.Awaits x) : innermostStage x c.scopes = some .declared := by
  obtain ⟨sees, declared⟩ := h
  obtain ⟨scopes, routine, receiver, warnings, distances⟩ := c
  cases scopes with
  | nil => cases sees
  | cons scope outer =>
    have moved : scope.move x (fun _ => .declared) = scope := (List.cons.inj (congrArg Context.scopes declared)).1
    obtain ⟨e, he, same⟩ := List.mem_map.1 (nearest_eq_zero.1 sees)
    obtain ⟨e', found⟩ : ∃ e', scope.find? x = some e' := by
      rw [← Option.isSome_iff_exists, Scope.find?, List.find?_isSome]
      exact ⟨e, he, decide_eq_true same⟩
    have name : e'.name = x := by
      have holds := List.find?_some found
      exact of_decide_eq_true holds
    have mem := List.mem_of_find?_eq_some found
    rw [← moved] at mem
    obtain ⟨e, -, rfl⟩ := List.mem_map.1 mem
    have stage : ∀ e : Entry, (if e.name = x then { e with stage := .declared } else e).name = x →
        (if e.name = x then { e with stage := .declared } else e).stage = .declared := by
      intro e
      split
      · exact fun _ => rfl
      · next other => exact fun same => absurd same other
    simp only [Scope.innermostStage, List.head?_cons, Option.bind_some, found, Option.map_some, stage e name]

theorem Context.Awaits.after {a : Analysis Unit} (h : c.Awaits x) (declares : Declares [] a) (carries : Carries 0 x a c)
    (passes : Passes a c) : (Scope.after a c).Awaits x := by
  constructor
  · unfold Context.Sees
    rw [declares.names_after passes, extend_nil]
    exact h.sees
  · rw [← carries.after, h.declared]

theorem awaits_declare {name : Name} (inside : c.scopes ≠ []) (passes : Passes (declare name) c) :
    (Scope.after (declare name) c).Awaits name.text := by
  obtain ⟨scopes, routine, receiver, warnings, distances⟩ := c
  cases scopes with
  | nil => exact absurd rfl inside
  | cons scope outer =>
    have new : ¬ scope.has name.text = true := by
      intro has
      have result : declare name ⟨scope :: outer, routine, receiver, warnings, distances⟩ =
        (.error ⟨name.place, .duplicate⟩, ⟨scope :: outer, routine, receiver, warnings, distances⟩) := if_pos has
      rw [Passes, result] at passes
      cases passes
    have result : Scope.after (declare name) ⟨scope :: outer, routine, receiver, warnings, distances⟩ =
        ⟨(scope ++ [⟨name.text, some name.place, .declared⟩]) :: outer, routine, receiver, warnings, distances⟩ :=
      congrArg Prod.snd (if_neg new)
    rw [result]
    constructor
    · exact nearest_eq_zero.2 (by simp)
    · have old := move_of_not_has (fun _ => .declared) (Bool.eq_false_iff.2 new)
      simp only [Scope.move] at old
      simp only [Context.restage, List.modify_zero_cons, Scope.move, List.map_append, old, List.map_cons, List.map_nil,
        if_true]

theorem result_use {name : Name} (h : c.Awaits name.text) (id : NodeId) :
    ((do checkInitialized name; bindNode id name.text) c).1 = .error ⟨name.place, .ownInitializer⟩ := by
  have refused : checkInitialized name c = (.error ⟨name.place, .ownInitializer⟩, c) := by
    rw [checkInitialized_eq, h.innermostStage]
  have fails : ¬ Passes (checkInitialized name) c := by
    rw [Passes, refused]
    simp
  rw [seq_of_fails fails, refused]

/-- A node of its own comes after the children. -/
theorem result_expr {e : Expr} (h : ¬ Passes (analyses (exprChildren e)) c) :
    (analysis (.expr e) c).1 = (analyses (exprChildren e) c).1 := by
  by_cases hn : node? (.expr e) = none
  · rw [analysis_expr hn]
  · cases e with
    | assign id name e =>
      have one : analyses (exprChildren (.assign id name e)) = analysis (.expr e) := analyses_one _
      rw [one] at h ⊢
      exact congrArg Prod.fst (seq_of_fails h)
    | «variable» id name => exact absurd rfl h
    | suffix id name op => exact absurd rfl h
    | this id line => exact absurd rfl h
    | _ => exact absurd rfl hn

/-- Parts of an expression that do not use the variable leave it without a value. -/
theorem awaits_analyses {e : Expr} {ps : List Part} (sub : ∀ p ∈ ps, p ∈ exprChildren e) (shaped : (Part.expr e).Shaped)
    (free : ∀ p ∈ ps, ¬ p.Uses x) (hx : x ≠ "this") (h : c.Awaits x) (passes : Passes (analyses ps) c) :
    (Scope.after (analyses ps) c).Awaits x := by
  have shapes (p : Part) (hp : p ∈ ps) : p.Shaped := shaped.child (sub p hp)
  have silent (p : Part) (hp : p ∈ ps) : declaredNames p = [] := declaredNames_exprChildren p (sub p hp)
  have declares (p : Part) (hp : p ∈ ps) : Declares (declaredNames p) (analysis p) := declares_analysis p (shapes p hp)
  have marks : Marks 0 x (∃ p ∈ ps, p.Uses x) (analyses ps) := by
    refine marks_analyses (fun p hp => marks_child (sub p hp) (shapes p hp) hx)
      (fun p hp => silent p hp ▸ declares p hp) fun before q rest whole _ earlier place reads => ?_
    exact free q (by simp [whole]) reads.uses
  have carries := (marks c h.sees).1 fun ⟨p, hp, uses⟩ => free p hp uses
  exact h.after (declares_analyses_nil declares silent) carries passes

/-- A part that reads the variable before all other uses fails there, if not earlier. -/
theorem result_readsFirst {p : Part} {earlier : List Part} {place : Place} (reads : p.ReadsFirst x earlier place)
    (shaped : p.Shaped) (hx : x ≠ "this") (h : c.Awaits x) :
    (analysis p c).1 = ((do analyses earlier; fail place .ownInitializer) c).1 := by
  induction reads generalizing c with
  | @«variable» id name same | @suffix id name op same =>
    subst same
    exact result_use h id
  | @within e before rest earlier q place whole free reads ih =>
    have child (p : Part) (hp : p ∈ before ++ q :: rest) : p ∈ exprChildren e := whole ▸ hp
    have parts : analyses (exprChildren e) = (do analyses before; (do analysis q; analyses rest)) := by
      rw [whole, analyses_append, analyses_cons]
    have reason : (do analyses (before ++ earlier); fail place .ownInitializer : Analysis Unit) =
        (do analyses before; (do analyses earlier; fail place .ownInitializer)) := by
      rw [analyses_append, seq_assoc]
    have same : (analyses (exprChildren e) c).1 = ((do analyses (before ++ earlier); fail place .ownInitializer) c).1 := by
      rw [parts, reason]
      by_cases passes : Passes (analyses before) c
      · have still := awaits_analyses (fun p hp => child p (List.mem_append_left _ hp)) shaped free hx h passes
        have result := ih (shaped.child (child q (by simp))) still
        have fails : ¬ Passes (analysis q) (Scope.after (analyses before) c) := by
          rw [Passes, result]
          exact not_passes_fail place .ownInitializer
        rw [seq_of_passes passes, seq_of_passes passes, seq_of_fails fails, result]
      · rw [seq_of_fails passes, seq_of_fails passes]
    rw [← same]
    refine result_expr ?_
    rw [Passes, same]
    exact not_passes_fail place .ownInitializer

end Reads

section Declarations

variable {c : Context} {name : Name} {init : Expr}

/-- A variable that is read first in its initializer is refused there, if nothing has been refused before. -/
theorem result_var_of_readsFirst {earlier : List Part} {place : Place} (inside : c.scopes ≠ [])
    (shaped : (Part.stmt (.var name (some init))).Shaped)
    (reads : (Part.expr init).ReadsFirst name.text earlier place) :
    (stmt (.var name (some init)) c).1 = ((do declare name; analyses earlier; fail place .ownInitializer) c).1 := by
  have hx : name.text ≠ "this" := shaped.tidy name rfl
  change ((do declare name; (do expr init; define name)) c).1 = ((do declare name; (do analyses earlier; _)) c).1
  by_cases passes : Passes (declare name) c
  · rw [seq_of_passes passes, seq_of_passes passes, result_define]
    exact result_readsFirst reads (shaped.child (.head _)) hx (awaits_declare inside passes)
  · rw [seq_of_fails passes, seq_of_fails passes]

/-- Any other initializer is analysed as if the variable already had a value. -/
theorem result_var_of_unread (inside : c.scopes ≠ []) (shaped : (Part.stmt (.var name (some init))).Shaped)
    (unread : ∀ earlier place, ¬ (Part.expr init).ReadsFirst name.text earlier place) :
    (stmt (.var name (some init)) c).1 = ((do declare name; define name; expr init) c).1 := by
  have hx : name.text ≠ "this" := shaped.tidy name rfl
  change ((do declare name; (do expr init; define name)) c).1 = ((do declare name; (do define name; expr init)) c).1
  by_cases passes : Passes (declare name) c
  · have sees := (awaits_declare inside passes).sees
    obtain ⟨unused, used⟩ := marks_expr init (shaped.child (.head _)) hx unread _ sees
    have defined := define_eq name (after (declare name) c)
    have final : after (define name) (after (declare name) c) = _ := congrArg Prod.snd defined
    rw [seq_of_passes passes, seq_of_passes passes, result_define, seq_of_passes (congrArg Prod.fst defined), final]
    by_cases uses : (Part.expr init).Uses name.text
    · exact (used uses _).1.symm
    · exact ((unused uses).result _).symm
  · rw [seq_of_fails passes, seq_of_fails passes]

end Declarations

section Scopes

variable {c : Context}

theorem passes_body {kind : RoutineKind} {r : Routine} (h : Passes (analysis (.routine kind r)) c) :
    ∃ c', Passes (analysis (.stmts r.body)) c' ∧ c'.scopes ≠ [] := by
  rw [analysis_routine] at h
  have h : Passes (do parameters r.params; analysis (.stmts r.body); warnUnreachable r.body)
      ({ c with routine := some kind }.inside []) := h
  obtain ⟨ps, h⟩ := passes_seq.1 h
  obtain ⟨body, -⟩ := passes_seq.1 h
  refine ⟨_, body, ?_⟩
  intro none
  have length := length_scopes_after (declares_parameters r.params) ps
  rw [none] at length
  cases length

/-- A part passes only if all parts below it do. -/
theorem passes_below {p q : Part} (h : Passes (analysis p) c) (hq : q ∈ p.children) : ∃ c', Passes (analysis q) c' := by
  have each {ps : List Part} {c : Context} (h : Passes (analyses ps) c) (hq : q ∈ ps) : ∃ c', Passes (analysis q) c' := by
    obtain ⟨c', -, passes⟩ := passes_each h hq
    exact ⟨c', passes⟩
  cases p with
  | expr e => exact each (passes_exprChildren h) hq
  | routine kind r =>
    obtain ⟨c', body, -⟩ := passes_body h
    rw [List.mem_singleton.1 hq]
    exact ⟨c', body⟩
  | stmts ss =>
    rw [analysis_stmts] at h
    exact each h hq
  | stmt s =>
    cases s with
    | expression | print | conditional | loop | «return» => exact each (passes_plain (by trivial) h) hq
    | «break» | «continue» => cases hq
    | var name e? =>
      rw [analysis_var] at h
      obtain ⟨-, h⟩ := passes_seq.1 h
      exact each (passes_seq.1 h).1 hq
    | block ss =>
      rw [analysis_block] at h
      rw [List.mem_singleton.1 hq]
      exact ⟨c.inside [], h⟩
    | function r =>
      rw [analysis_function] at h
      rw [List.mem_singleton.1 hq]
      exact ⟨_, (passes_named.1 h).2⟩
    | «class» d =>
      obtain ⟨-, base, statics, methods, -⟩ := passes_class h
      rcases List.mem_append.1 hq with hq | hq
      · rcases List.mem_append.1 hq with hq | hq
        · exact each base hq
        · exact each (c := { afterBase d c with receiver := .static }) statics hq
      · have methods : Passes (analyses (Part.methods d.methods))
            ({ afterStatics d c with receiver := .object }.inside receiverScope) := methods
        exact each methods hq

theorem passes_at {root p : Part} {way : List Nat} (h : Passes (analysis root) c) (there : root.at? way = some p) :
    ∃ c', Passes (analysis p) c' := by
  induction way generalizing p with
  | nil =>
    cases there
    exact ⟨c, h⟩
  | cons i outer ih =>
    obtain ⟨q, hq, hp⟩ := Option.bind_eq_some_iff.1 there
    obtain ⟨c', passes⟩ := ih hq
    exact passes_below passes (List.mem_of_getElem? hp)

theorem shaped_at {root p : Part} {way : List Nat} (h : root.Shaped) (there : root.at? way = some p) : p.Shaped := by
  induction way generalizing p with
  | nil =>
    cases there
    exact h
  | cons i outer ih =>
    obtain ⟨q, hq, hp⟩ := Option.bind_eq_some_iff.1 there
    exact (ih hq).child (List.mem_of_getElem? hp)

theorem shaped_stmt {body : List Stmt} {s : Stmt} (h : (Part.stmts body).Shaped) (hs : s ∈ body) :
    (Part.stmt s).Shaped := by
  induction body with
  | nil => cases hs
  | cons s' body ih =>
    rcases List.mem_cons.1 hs with rfl | hs
    · exact h.child (.head _)
    · exact ih (h.child (.tail _ (.head _))) hs

section Opens

variable {part : Part} {params : List Name} {body : List Stmt} (opens : part.scope? = some (params, body))
include opens

theorem body_mem_children : .stmts body ∈ part.children := by
  unfold Part.scope? at opens
  split at opens
  · cases opens
    exact .head _
  · cases opens
    exact .head _
  · cases opens

theorem passes_scope (h : Passes (analysis part) c) : ∃ c', Passes (analysis (.stmts body)) c' ∧ c'.scopes ≠ [] := by
  unfold Part.scope? at opens
  split at opens
  · cases opens
    rw [analysis_block] at h
    exact ⟨c.inside [], h, nofun⟩
  · cases opens
    exact passes_body h
  · cases opens

end Opens

/-- The statements of a scope pass only if each of them does, with the scope open. -/
theorem passes_stmt {body : List Stmt} {s : Stmt} (h : Passes (analysis (.stmts body)) c) (inside : c.scopes ≠ [])
    (shaped : (Part.stmts body).Shaped) (hs : s ∈ body) : ∃ c', Passes (stmt s) c' ∧ c'.scopes ≠ [] := by
  induction body generalizing c with
  | nil => cases hs
  | cons s' body ih =>
    rw [analysis_stmts, children, analyses_cons, analyses_one] at h
    obtain ⟨first, others⟩ := passes_seq.1 h
    rcases List.mem_cons.1 hs with rfl | hs
    · exact ⟨c, first, inside⟩
    · refine ih others ?_ (shaped.child (.tail _ (.head _))) hs
      intro none
      have length := length_scopes_after (declares_analysis _ (shaped.child (.head _))) first
      rw [none] at length
      exact inside (List.length_eq_zero_iff.1 length.symm)

end Scopes

end Scope

open Scope

/-- What becomes of a local variable with an initializer depends on the first use of the variable in it. If that is a
read outside of routines, then the program is rejected, with the fault of that read unless something before it is at fault.
Otherwise the initializer may do anything that it might do if the variable already had its value. -/
theorem initializer_decided_by_first_use {source : String} {base : NodeId} {program : List Stmt}
    (parsed : (Parser.parse (Session.tokensOf source) base).result = .ok program) {way : List Nat} {part : Part}
    {params : List Name} {body : List Stmt} {name : Name} {init : Expr}
    (there : (Part.stmts program).at? way = some part) (opens : part.scope? = some (params, body))
    (declared : .var name (some init) ∈ body) :
    (∀ earlier place, (Part.expr init).ReadsFirst name.text earlier place →
      (∀ d, ∃ e, (resolve program d).result = .error e) ∧
      ∀ c : Context, c.scopes ≠ [] → (Analysis.stmt (.var name (some init)) c).1 =
        ((do Analysis.declare name; analyses earlier; Analysis.fail place .ownInitializer) c).1) ∧
    ((∀ earlier place, ¬ (Part.expr init).ReadsFirst name.text earlier place) →
      ((Part.expr init).Uses name.text → (Part.expr init).UsesOtherwise name.text) ∧
      ∀ c : Context, c.scopes ≠ [] → (Analysis.stmt (.var name (some init)) c).1 =
        ((do Analysis.declare name; Analysis.define name; Analysis.expr init) c).1) := by
  have shapedBody := (shaped_at (readable_program parsed).shaped there).child (body_mem_children opens)
  have shaped := shaped_stmt shapedBody declared
  refine ⟨fun earlier place reads => ⟨fun d => ?_, fun c inside => result_var_of_readsFirst inside shaped reads⟩,
    fun unread => ⟨fun uses => ?_, fun c inside => result_var_of_unread inside shaped unread⟩⟩
  · rcases result : (resolve program d).result with e | ⟨⟩
    · exact ⟨e, rfl⟩
    · -- a program that passes comes to the declaration with a scope open, and passes it
      have passes : Passes (analysis (.stmts program)) (outside d) := result
      obtain ⟨c, atPart⟩ := passes_at passes there
      obtain ⟨c, atBody, inside⟩ := passes_scope opens atPart
      obtain ⟨c, atStmt, inside⟩ := passes_stmt atBody inside shapedBody declared
      rw [Passes, result_var_of_readsFirst inside shaped reads] at atStmt
      obtain ⟨-, later⟩ := passes_seq.1 atStmt
      exact absurd later (not_passes_fail place .ownInitializer)
  · refine (uses.cases (shaped.tidy name rfl)).resolve_left ?_
    rintro ⟨earlier, place, reads⟩
    exact unread earlier place reads

/-- A variable that is read, and then assigned, before it has a value. -/
def readingFirst : List Stmt :=
  [.block [.var ⟨"x", 1⟩ (some (.binary (.variable 0 ⟨"x", 1⟩) (.ofPunct .plus 1)
    (.group (.assign 2 ⟨"x", 1⟩ (.literal (.number .one))))))]]

theorem initializer_decided_by_first_use_readingFirst :
    (Parser.parse (Session.tokensOf "\x7b var x = x + (x = 1); \x7d") 0).result = .ok readingFirst ∧
      ∀ d, ∃ e, (resolve readingFirst d).result = .error e := by
  have parsed : (Parser.parse (Session.tokensOf "\x7b var x = x + (x = 1); \x7d") 0).result = .ok readingFirst := by cbv
  have there : (Part.stmts readingFirst).at? [0] = some _ := rfl
  have first : (Part.expr (.variable 0 ⟨"x", 1⟩)).ReadsFirst "x" [] ⟨1, some "x"⟩ := .variable rfl
  obtain ⟨rejected, -⟩ := initializer_decided_by_first_use parsed there rfl List.mem_cons_self
  refine ⟨parsed, (rejected ([] ++ []) _ (.within rfl ?_ first)).1⟩
  exact fun p hp => absurd hp List.not_mem_nil

/-- The same variable, assigned first, and then read. -/
def assigningFirst : List Stmt :=
  [.block [.var ⟨"x", 1⟩ (some (.binary (.group (.assign 1 ⟨"x", 1⟩ (.literal (.number .one)))) (.ofPunct .plus 1)
    (.variable 2 ⟨"x", 1⟩)))]]

/-- A read in the variable's own initializer that is not rejected. -/
theorem assigned_initializer_passes :
    (Parser.parse (Session.tokensOf "\x7b var x = (x = 1) + x; \x7d") 0).result = .ok assigningFirst ∧
      (resolve assigningFirst .empty).result = .ok () :=
  ⟨by cbv, by cbv⟩

end Scriptlet
