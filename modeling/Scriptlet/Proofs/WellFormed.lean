import Scriptlet.Proofs.Acceptance

/-!
Which programs the analysis accepts, said of the tree alone. Every scope declares a name only once, a `return` stands in a
routine and returns no value from a constructor, `this` stands in a method of an object, and no class is its own base. That
is all, apart from local variables that occur in their own initializers.
-/
namespace Scriptlet

namespace Part

/-- The routines around the part at a position, innermost first. -/
def routinesAround (root : Part) : List Nat → List (RoutineKind × Routine)
  | [] => []
  | _ :: outer => ((root.at? outer).bind routine?).toList ++ root.routinesAround outer

/-- No local variable occurs in its own initializer. -/
def InitializersApart (root : Part) : Prop :=
  ∀ part ∈ root.within, ∀ scope ∈ part.scope?, ∀ d ∈ (Part.stmts scope.2).initializers, ¬ (Part.expr d.2).Uses d.1.text

end Part

/-- What a program has to keep to, wherever in it. -/
structure WellFormed (program : List Stmt) : Prop where
  distinct : ∀ way part params body, (Part.stmts program).at? way = some part → part.scope? = some (params, body) →
    (Part.namesIn params body).Nodup
  returns : ∀ way line value, (Part.stmts program).at? way = some (.stmt (.return line value)) →
    (Part.stmts program).routinesAround way ≠ []
  constructors : ∀ way line value kind r outer,
    (Part.stmts program).at? way = some (.stmt (.return line (some value))) →
    (Part.stmts program).routinesAround way = (kind, r) :: outer → ¬ (kind.isMethod = true ∧ r.name.text = "construct")
  receivers : ∀ way id line, (Part.stmts program).at? way = some (.expr (.this id line)) →
    ∃ kind r, ((Part.stmts program).routinesAround way).find? (·.1.isMember) = some (kind, r) ∧ kind.isMethod = true
  bases : ∀ way d id base, (Part.stmts program).at? way = some (.stmt (.class d)) → d.base = some (.variable id base) →
    base.text ≠ d.name.text

namespace Scope

open Scriptlet.Part (children stmtChildren routine? routinesAround namesIn Unread InitializersApart within_eq)

section Positions

variable {root p q : Part} {way : List Nat} {rs : List (RoutineKind × Routine)}

theorem at?_append {i : Nat} (h : root.children[i]? = some q) (way : List Nat) : root.at? (way ++ [i]) = q.at? way := by
  induction way with
  | nil => exact h
  | cons j outer ih =>
    show (root.at? (outer ++ [i])).bind _ = (q.at? outer).bind _
    rw [ih]

theorem routinesAround_append {i : Nat} (h : root.children[i]? = some q) (way : List Nat) :
    root.routinesAround (way ++ [i]) = q.routinesAround way ++ root.routine?.toList := by
  induction way with
  | nil => exact List.append_nil _
  | cons j outer ih =>
    show ((root.at? (outer ++ [i])).bind routine?).toList ++ root.routinesAround (outer ++ [i]) = _
    rw [at?_append h, ih, routinesAround, List.append_assoc]

theorem mem_within_of_at? (there : root.at? way = some q) : q ∈ root.within := by
  suffices ∀ p, root.at? way = some p → ∀ r ∈ p.within, r ∈ root.within by
    apply this q there
    rw [within_eq]
    exact List.mem_append_right _ (.head _)
  clear there
  induction way with
  | nil =>
    rintro p ⟨⟩ r hr
    exact hr
  | cons i outer ih =>
    intro p there r hr
    obtain ⟨above, there, child⟩ := Option.bind_eq_some_iff.1 there
    apply ih above there
    rw [within_eq]
    exact List.mem_append_left _ (List.mem_flatMap.2 ⟨p, List.mem_of_getElem? child, hr⟩)

/-- The rules hold of a part exactly if they hold at every position in it. -/
theorem lawful_iff_at : Lawful rs root ↔ ∀ way q, root.at? way = some q → Legal (root.routinesAround way ++ rs) q := by
  constructor
  · intro lawful way q there
    suffices Lawful (root.routinesAround way ++ rs) q from (lawful_iff.1 this).1
    induction way generalizing q with
    | nil =>
      cases there
      exact lawful
    | cons i outer ih =>
      obtain ⟨p, above, child⟩ := Option.bind_eq_some_iff.1 there
      have below := (lawful_iff.1 (ih p above)).2 q (List.mem_of_getElem? child)
      rw [routinesAround, above, List.append_assoc]
      exact below
  · intro legal
    induction root using Part.induct generalizing rs with
    | step root ih =>
      refine .intro (legal [] root rfl) fun q hq => ih q hq fun way r there => ?_
      obtain ⟨i, child⟩ := List.mem_iff_getElem?.1 hq
      have here := legal (way ++ [i]) r ((at?_append child way).trans there)
      rwa [routinesAround_append child, List.append_assoc] at here

theorem exists_at_of_mem_routinesAround {kind : RoutineKind} {r : Routine} (h : (kind, r) ∈ root.routinesAround way) :
    ∃ way', root.at? way' = some (.routine kind r) := by
  induction way with
  | nil => cases h
  | cons i outer ih =>
    rcases List.mem_append.1 h with here | above
    · obtain ⟨p, there, routine⟩ := Option.bind_eq_some_iff.1 (Option.mem_toList.1 here)
      cases p with
      | routine kind' r' =>
        cases routine
        exact ⟨outer, there⟩
      | _ => cases routine
    · exact ih above

/-- Only a method of a class is of that kind, and its name tells which. -/
theorem kind_of_mem_children {kind : RoutineKind} {r : Routine} (h : .routine kind r ∈ p.children)
    (method : kind.isMethod = true) : kind = .ofMethod r.name.text := by
  cases p with
  | expr e =>
    have other := plain_exprChildren _ h kind r rfl
    cases kind with
    | method | constructor => cases other
    | _ => cases method
  | routine kind' r' => cases List.mem_singleton.1 h
  | stmts ss =>
    cases ss with
    | nil => cases h
    | cons s ss => simp [children] at h
  | stmt s =>
    cases s with
    | function r' =>
      cases List.mem_singleton.1 h
      cases method
    | «class» d =>
      simp only [children, stmtChildren, Part.statics, Part.methods, List.mem_append, List.mem_map] at h
      rcases h with (⟨e, -, same⟩ | ⟨r', -, same⟩) | ⟨r', -, same⟩
      · cases same
      · cases same
        cases method
      · cases same
        rfl
    | _ => simp [children, stmtChildren] at h

end Positions

/-- A constructor is a method with the name of one. -/
theorem constructor_iff {program : List Stmt} {way : List Nat} {kind : RoutineKind} {r : Routine}
    (h : (kind, r) ∈ (Part.stmts program).routinesAround way) :
    kind = .constructor ↔ kind.isMethod = true ∧ r.name.text = "construct" := by
  obtain ⟨way, there⟩ := exists_at_of_mem_routinesAround h
  have method : kind.isMethod = true → kind = .ofMethod r.name.text := by
    cases way with
    | nil => cases there
    | cons i outer =>
      obtain ⟨p, -, child⟩ := Option.bind_eq_some_iff.1 there
      exact kind_of_mem_children (List.mem_of_getElem? child)
  constructor
  · rintro rfl
    have named := method rfl
    rw [RoutineKind.ofMethod] at named
    split at named
    · next same => exact ⟨rfl, same⟩
    · cases named
  · rintro ⟨isMethod, named⟩
    rw [method isMethod, RoutineKind.ofMethod]
    exact if_pos named

theorem receiverOf_eq_object {rs : List (RoutineKind × Routine)} :
    receiverOf rs = .object ↔ ∃ kind r, rs.find? (·.1.isMember) = some (kind, r) ∧ kind.isMethod = true := by
  unfold receiverOf
  split
  · next absent => simp [absent]
  · next kind r found => cases h : kind.isMethod <;> simp [found, h]

theorem legal_scope {rs : List (RoutineKind × Routine)} {part : Part} {params : List Name} {body : List Stmt}
    (opens : part.scope? = some (params, body)) :
    Legal rs part ↔ (namesIn params body).Nodup ∧ (Part.stmts body).Unread := by
  cases part with
  | routine kind r =>
    cases opens
    exact Iff.rfl
  | stmt s =>
    cases s with
    | block ss =>
      cases opens
      exact Iff.rfl
    | _ => cases opens
  | _ => cases opens

/-- The program keeps to the rules, and no local variable is read first in its own initializer. -/
theorem lawful_program {program : List Stmt} : Lawful [] (.stmts program) ↔ WellFormed program ∧
    ∀ way part params body, (Part.stmts program).at? way = some part → part.scope? = some (params, body) →
      (Part.stmts body).Unread := by
  rw [lawful_iff_at]
  simp only [List.append_nil]
  constructor
  · intro legal
    refine ⟨⟨?_, ?_, ?_, ?_, ?_⟩, ?_⟩
    · intro way part params body there opens
      exact ((legal_scope opens).1 (legal way part there)).1
    · intro way line value there none
      apply (legal way _ there).1
      rw [none]
      rfl
    · intro way line value kind r outer there around constructs
      apply (legal way _ there).2 nofun
      rw [around]
      exact congrArg some ((constructor_iff (by rw [around]; exact .head _)).2 constructs)
    · intro way id line there
      exact receiverOf_eq_object.1 (legal way _ there)
    · intro way d id base there
      exact legal way _ there id base
    · intro way part params body there opens
      exact ((legal_scope opens).1 (legal way part there)).2
  · rintro ⟨formed, unread⟩ way q there
    cases opens : q.scope? with
    | some scope => exact (legal_scope opens).2 ⟨formed.distinct way q _ _ there opens, unread way q _ _ there opens⟩
    | none =>
      cases q with
      | routine kind r => cases opens
      | stmts ss => trivial
      | expr e =>
        cases e with
        | this id line => exact receiverOf_eq_object.2 (formed.receivers way id line there)
        | _ => trivial
      | stmt s =>
        cases s with
        | block body => cases opens
        | «class» d => exact fun id base => formed.bases way d id base there
        | «return» line value =>
          have around := formed.returns way line value there
          cases h : (Part.stmts program).routinesAround way with
          | nil => exact absurd h around
          | cons kr outer =>
            obtain ⟨kind, r⟩ := kr
            refine ⟨nofun, fun some constructs => ?_⟩
            obtain ⟨e, rfl⟩ := Option.ne_none_iff_exists'.1 some
            apply formed.constructors way line e kind r outer there h
            exact (constructor_iff (by rw [h]; exact .head _)).1 (Option.some.inj constructs)
        | _ => trivial

end Scope

open Scope

/-- Unless a local variable occurs in its own initializer, exactly the well-formed programs are accepted. -/
theorem accepted_iff_wellFormed {source : String} {base : NodeId} {program : List Stmt}
    (parsed : (Parser.parse (Session.tokensOf source) base).result = .ok program)
    (apart : (Part.stmts program).InitializersApart) (d : Distances) :
    (resolve program d).result = .ok () ↔ WellFormed program := by
  have unread : ∀ way part params body, (Part.stmts program).at? way = some part → part.scope? = some (params, body) →
      (Part.stmts body).Unread := by
    intro way part params body there opens declared hd earlier place reads
    exact apart part (mem_within_of_at? there) (params, body) opens declared hd reads.uses
  have start : (outside d).Settled [] (.stmts program) := ⟨rfl, rfl, nofun⟩
  have verdict := verdict_part _ (readable_program parsed).shaped [] (outside d) start
  show Passes (analysis (.stmts program)) (outside d) ↔ _
  rw [verdict, lawful_program, and_iff_left unread, and_iff_right (takes_outside rfl _)]
  exact and_iff_right fun inside => absurd rfl inside

/-- A constructor that returns no value itself, around a lambda that returns `this`. -/
def lambdaInConstructor : List Stmt :=
  [.class ⟨⟨"A", 1⟩, none, [⟨⟨"construct", 1⟩, [⟨"x", 1⟩], [.var ⟨"f", 1⟩ (some (.lambda ⟨⟨"fun", 1⟩, [⟨"x", 1⟩],
    [.return 1 (some (.this 0 1))]⟩)), .return 1 none]⟩], []⟩]

theorem accepted_iff_wellFormed_lambdaInConstructor :
    (Parser.parse (Session.tokensOf
      "class A \x7b construct(x) \x7b var f = fun (x) \x7b return this; \x7d; return; \x7d \x7d") 0).result =
        .ok lambdaInConstructor ∧
      (Part.stmts lambdaInConstructor).InitializersApart ∧ WellFormed lambdaInConstructor := by
  have parsed : (Parser.parse (Session.tokensOf
      "class A \x7b construct(x) \x7b var f = fun (x) \x7b return this; \x7d; return; \x7d \x7d") 0).result =
        .ok lambdaInConstructor := by
    cbv
  have apart : (Part.stmts lambdaInConstructor).InitializersApart := by
    simp [Part.InitializersApart, lambdaInConstructor, Part.within_eq, Part.children, Part.stmtChildren, Part.exprChildren,
      Part.statics, Part.methods, Part.scope?, Part.initializers, Stmt.initialized?, Part.uses_expr, Part.uses_routine,
      Part.uses_stmts_cons, Part.uses_stmts_nil, Part.uses_stmt, Part.node?, Part.declared?]
  have accepted : (resolve lambdaInConstructor .empty).result = .ok () := by
    have passes : (resolve lambdaInConstructor .empty).result.isOk = true := by decide +kernel
    cases result : (resolve lambdaInConstructor .empty).result with
    | ok => rfl
    | error e =>
      rw [result] at passes
      cases passes
  exact ⟨parsed, apart, (accepted_iff_wellFormed parsed apart .empty).1 accepted⟩

end Scriptlet
