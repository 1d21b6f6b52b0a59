import Scriptlet.Proofs.Usage

/-!
When the analysis passes a part. The rules for a part depend on the routines around it, and on nothing else: a scope declares
a name only once and reads no variable first in its own initializer, a `return` needs a routine, `this` a method. The
analysis comes to each part in a context that reflects the routines, and passes it exactly if the part keeps to the rules and
the innermost scope can take what it declares.
-/
namespace Scriptlet

/-- A method of the objects of a class. -/
def RoutineKind.isMethod : RoutineKind → Bool
  | .method | .constructor => true
  | _ => false

/-- A method of any kind. -/
def RoutineKind.isMember : RoutineKind → Bool
  | .method | .constructor | .static => true
  | _ => false

/-- A variable that a statement declares with an initializer. -/
def Stmt.initialized? : Stmt → Option (Name × Expr)
  | .var name (some init) => some (name, init)
  | _ => none

namespace Part

def routine? : Part → Option (RoutineKind × Routine)
  | .routine kind r => some (kind, r)
  | _ => none

/-- The names that the parameters of a scope and its own statements declare. -/
def namesIn (params : List Name) (body : List Stmt) : List String := (params ++ body.filterMap declared?).map Name.text

/-- The variables with an initializer that a part declares in the scope that it stands in. -/
def initializers : Part → List (Name × Expr)
  | .stmt s => s.initialized?.toList
  | .stmts ss => ss.filterMap Stmt.initialized?
  | _ => []

/-- No variable that the part declares is read before anything else in its own initializer. -/
def Unread (p : Part) : Prop :=
  ∀ d ∈ p.initializers, ∀ earlier place, ¬ (Part.expr d.2).ReadsFirst d.1.text earlier place

end Part

namespace Scope

open Analysis
open Scriptlet.Part (children exprChildren stmtChildren node? declared? routine? namesIn initializers Unread AllShaped)

/-- The kind of the innermost routine. -/
def kindOf (rs : List (RoutineKind × Routine)) : Option RoutineKind := rs.head?.map Prod.fst

/-- The innermost method tells what `this` means. -/
def receiverOf (rs : List (RoutineKind × Routine)) : Receiver :=
  match rs.find? (·.1.isMember) with
  | none => .none
  | some (kind, _) => if kind.isMethod then .object else .static

/-- What a part has to keep to itself, in these routines. -/
def Legal (rs : List (RoutineKind × Routine)) : Part → Prop
  | .routine _ r => (namesIn r.params r.body).Nodup ∧ (Part.stmts r.body).Unread
  | .stmt (.block body) => (namesIn [] body).Nodup ∧ (Part.stmts body).Unread
  | .stmt (.return _ value) => kindOf rs ≠ none ∧ (value ≠ none → kindOf rs ≠ some .constructor)
  | .stmt (.class d) => ∀ id base, d.base = some (.variable id base) → base.text ≠ d.name.text
  | .expr (.this _ _) => receiverOf rs = .object
  | _ => True

/-- Every part of the part keeps to the rules. -/
inductive Lawful : List (RoutineKind × Routine) → Part → Prop
  | intro {rs : List (RoutineKind × Routine)} {p : Part} : Legal rs p →
      (∀ q ∈ p.children, Lawful (p.routine?.toList ++ rs) q) → Lawful rs p

theorem lawful_iff {rs : List (RoutineKind × Routine)} {p : Part} :
    Lawful rs p ↔ Legal rs p ∧ ∀ q ∈ p.children, Lawful (p.routine?.toList ++ rs) q := by
  constructor
  · rintro ⟨legal, below⟩
    exact ⟨legal, below⟩
  · rintro ⟨legal, below⟩
    exact .intro legal below

theorem lawful_stmt {rs : List (RoutineKind × Routine)} {s : Stmt} :
    Lawful rs (.stmt s) ↔ Legal rs (.stmt s) ∧ ∀ q ∈ stmtChildren s, Lawful rs q := lawful_iff

section Contexts

variable {c c' : Context} {rs : List (RoutineKind × Routine)} {p q : Part}

/-- No variable of the innermost scope is waiting for its value. -/
def Context.Calm (c : Context) : Prop := ∀ scope outer, c.scopes = scope :: outer → ∀ e ∈ scope, e.stage ≠ .declared

/-- The innermost scope can take these names. -/
def Context.Takes (c : Context) (ds : List String) : Prop :=
  ∀ ns nss, c.names = ns :: nss → ds.Nodup ∧ ∀ x ∈ ds, x ∉ ns

/-- The analysis may come to a part in such a context. -/
structure Context.Settled (rs : List (RoutineKind × Routine)) (p : Part) (c : Context) : Prop where
  routine : c.routine = kindOf rs
  receiver : c.receiver = receiverOf (p.routine?.toList ++ rs)
  calm : c.Calm

/-- The surroundings are the same, and all that is declared has its value. -/
structure Steady (c c' : Context) : Prop where
  routine : c'.routine = c.routine
  receiver : c'.receiver = c.receiver
  calm : c.Calm → c'.Calm

theorem Context.Settled.later (h : c.Settled rs p) (steady : Steady c c') : c'.Settled rs p :=
  ⟨steady.routine.trans h.routine, steady.receiver.trans h.receiver, steady.calm h.calm⟩

theorem Left.calm {used : String → Bool} {new : Scope} {ws : List Warning} (left : Left used new ws c c')
    (ready : ∀ e ∈ new, e.stage ≠ .declared) (h : c.Calm) : c'.Calm := by
  intro scope' outer' hs' e he
  rw [left.scopes] at hs'
  cases hs : c.scopes with
  | nil =>
    rw [hs] at hs'
    cases hs'
  | cons scope outer =>
    rw [hs] at hs'
    cases hs'
    rcases List.mem_append.1 he with he | he
    · obtain ⟨e', he', rfl⟩ := List.mem_map.1 he
      have old := h scope outer hs e' he'
      split
      · exact nofun
      · exact old
    · exact ready e he

theorem steady_of {a a' : Analysis Unit} {u : String → Bool} {new : Scope} {ws : List Warning}
    (accords : Accords (fun _ _ => True) a a') (leaves : Leaves u new ws a) (ready : ∀ e ∈ new, e.stage ≠ .declared)
    (passes : Passes a c) : Steady c (after a c) := by
  obtain ⟨used, -, left⟩ := leaves
  have accorded := accords c c ⟨rfl, rfl, rfl, trivial⟩
  exact ⟨accorded.routine, accorded.receiver, (left c passes).calm ready⟩

theorem stage_entryOf (name : Name) (read : Bool) : (entryOf name read).stage ≠ .declared := by
  cases read <;> exact nofun

theorem steady_analysis (shaped : p.Shaped) (passes : Passes (analysis p) c) : Steady c (after (analysis p) c) := by
  apply steady_of (accords_analysis (ρ := .unlined) (fun _ _ _ _ _ => trivial) p) (leaves_analysis p shaped) _ passes
  intro e he
  have settled : ∃ d, settled d = e := by
    cases p with
    | stmt s =>
      obtain ⟨name, -, same⟩ := List.mem_map.1 he
      exact ⟨_, same⟩
    | stmts ss =>
      obtain ⟨d, -, same⟩ := List.mem_map.1 he
      exact ⟨d, same⟩
    | _ => cases he
  obtain ⟨d, rfl⟩ := settled
  exact stage_entryOf _ _

theorem Steady.trans {c'' : Context} (h : Steady c c') (h' : Steady c' c'') : Steady c c'' :=
  ⟨h'.routine.trans h.routine, h'.receiver.trans h.receiver, h'.calm ∘ h.calm⟩

theorem steady_analyses {ps : List Part} (shaped : AllShaped ps) (passes : Passes (analyses ps) c) :
    Steady c (after (analyses ps) c) := by
  induction ps generalizing c with
  | nil => exact ⟨rfl, rfl, id⟩
  | cons p ps ih =>
    obtain ⟨first, others⟩ := List.forall_mem_cons.1 shaped
    obtain ⟨pass, passes⟩ := passes_seq.1 passes
    rw [analyses_cons, after_seq pass]
    exact (steady_analysis first pass).trans (ih others passes)

theorem Steady.withReceiver {a : Analysis Unit} {receiver : Receiver}
    (h : Steady { c with receiver } (after a { c with receiver })) : Steady c (after (withReceiver receiver a) c) :=
  ⟨h.routine, rfl, h.calm⟩

theorem steady_named {name : Name} (hx : name.text ≠ "this") (passes : Passes (do declare name; define name) c) :
    Steady c (after (do declare name; define name) c) := by
  have same : name.text = name.text := rfl
  apply steady_of ((accords_declare same).bind (accords_define same)) (leaves_named hx) _ passes
  simpa using stage_entryOf name false

theorem steady_parameters {ps : List Name} (hx : ∀ p ∈ ps, p.text ≠ "this") (passes : Passes (parameters ps) c) :
    Steady c (after (parameters ps) c) := by
  apply steady_of (accords_parameters .unlined ps) (leaves_parameters hx) _ passes
  intro e he
  obtain ⟨name, -, rfl⟩ := List.mem_map.1 he
  exact stage_entryOf name false

theorem takes_nil : c.Takes [] := fun _ _ _ => ⟨List.nodup_nil, nofun⟩

theorem takes_outside (h : c.scopes = []) (ds : List String) : c.Takes ds := by
  intro ns nss names
  rw [Context.names, h] at names
  cases names

theorem takes_iff {ns ds : List String} {nss : List (List String)} (h : c.names = ns :: nss) :
    c.Takes ds ↔ ds.Nodup ∧ ∀ x ∈ ds, x ∉ ns := by
  constructor
  · intro takes
    exact takes ns nss h
  · intro takes ns' nss' h'
    cases h.symm.trans h'
    exact takes

/-- Names are taken in one after the other. -/
theorem takes_append {ds es : List String} (names : c'.names = extend ds c.names) :
    c.Takes (ds ++ es) ↔ c.Takes ds ∧ c'.Takes es := by
  cases h : c.names with
  | nil =>
    rw [h] at names
    have none {c : Context} (h : c.names = []) (ds : List String) : c.Takes ds := takes_outside (List.map_eq_nil_iff.1 h) ds
    exact iff_of_true (none h _) ⟨none h _, none names _⟩
  | cons ns nss =>
    rw [h, extend] at names
    rw [takes_iff h, takes_iff h, takes_iff names, List.nodup_append]
    constructor
    · rintro ⟨⟨hd, he, apart⟩, absent⟩
      rw [List.forall_mem_append] at absent
      refine ⟨⟨hd, absent.1⟩, he, fun x hx there => ?_⟩
      rcases List.mem_append.1 there with there | there
      · exact absent.2 x hx there
      · exact apart x there x hx rfl
    · rintro ⟨⟨hd, absent⟩, he, absent'⟩
      refine ⟨⟨hd, he, fun x hx y hy same => ?_⟩, List.forall_mem_append.2 ⟨absent, fun x hx there => ?_⟩⟩
      · exact absent' y hy (List.mem_append_right _ (same ▸ hx))
      · exact absent' x hx (List.mem_append_left _ there)

theorem passes_seq_iff {a b : Analysis Unit} {ds es : List String} {P Q : Prop} (declares : Declares ds a)
    (first : Passes a c ↔ c.Takes ds ∧ P) (second : Passes a c → (Passes b (after a c) ↔ (after a c).Takes es ∧ Q)) :
    Passes (do a; b) c ↔ c.Takes (ds ++ es) ∧ P ∧ Q := by
  rw [passes_seq]
  constructor
  · rintro ⟨ha, hb⟩
    obtain ⟨takes, p⟩ := first.1 ha
    obtain ⟨takes', q⟩ := (second ha).1 hb
    exact ⟨(takes_append (declares.names_after ha)).2 ⟨takes, takes'⟩, p, q⟩
  · rintro ⟨takes, p, q⟩
    have early : c.Takes ds := fun ns nss names => by
      obtain ⟨nodup, absent⟩ := takes ns nss names
      exact ⟨(List.nodup_append.1 nodup).1, fun x hx => absent x (List.mem_append_left _ hx)⟩
    have ha := first.2 ⟨early, p⟩
    exact ⟨ha, (second ha).2 ⟨((takes_append (declares.names_after ha)).1 takes).2, q⟩⟩

theorem passes_define (name : Name) : Passes (define name) c := by
  rw [Passes, define_eq]

theorem passes_declare_iff {name : Name} : Passes (declare name) c ↔ c.Takes [name.text] := by
  cases hs : c.scopes with
  | nil =>
    apply iff_of_true _ (takes_outside hs _)
    rw [Passes, declare, hs]
  | cons scope outer =>
    have names : c.names = scope.map Entry.name :: outer.map (·.map Entry.name) := by rw [Context.names, hs]; rfl
    have absent : name.text ∉ scope.map Entry.name ↔ scope.has name.text = false := by
      rw [← has_iff_mem, Bool.not_eq_true]
    rw [takes_iff names, List.forall_mem_singleton, absent, Passes, declare, hs]
    cases has : scope.has name.text <;> simp [has]

theorem passes_named_iff {name : Name} : Passes (do declare name; define name) c ↔ c.Takes [name.text] := by
  rw [passes_seq, passes_declare_iff]
  exact and_iff_left (passes_define name)

theorem passes_parameters_iff {ps : List Name} : Passes (parameters ps) c ↔ c.Takes (ps.map Name.text) := by
  induction ps generalizing c with
  | nil => exact iff_of_true rfl takes_nil
  | cons p ps ih =>
    have whole : Passes (do (do declare p; define p); parameters ps) c ↔ c.Takes ([p.text] ++ ps.map Name.text) ∧ True ∧ True :=
      passes_seq_iff (declares_named p) (by rw [passes_named_iff, and_true]) fun _ => by rw [ih, and_true]
    rw [seq_assoc, and_true, and_true] at whole
    exact whole

theorem Context.Calm.passes (h : c.Calm) (name : Name) : Passes (checkInitialized name) c := by
  have ready : innermostStage name.text c.scopes ≠ some .declared := by
    unfold innermostStage
    cases hs : c.scopes with
    | nil => exact nofun
    | cons scope outer =>
      intro waiting
      obtain ⟨e, found, stage⟩ := Option.map_eq_some_iff.1 (show (scope.find? name.text).map Entry.stage = _ from waiting)
      exact h scope outer hs e (List.mem_of_find?_eq_some found) stage
  rw [Passes, checkInitialized_eq]
  split
  · next waiting => exact absurd waiting ready
  · rfl

theorem passes_bindNode (id : NodeId) (x : String) : Passes (bindNode id x) c := by
  rw [Passes, bindNode_eq]

end Contexts

section Verdicts

variable {c c' : Context} {rs : List (RoutineKind × Routine)} {p q : Part}

/-- The analysis passes a part exactly if the innermost scope can take what the part declares, and the part keeps to the
rules. -/
def Verdict (rs : List (RoutineKind × Routine)) (p : Part) : Prop :=
  ∀ c : Context, c.Settled rs p →
    (Passes (analysis p) c ↔ c.Takes (declaredNames p) ∧ (c.scopes ≠ [] → p.Unread) ∧ Lawful rs p)

theorem initialized?_eq_none {s : Stmt} (h : declared? s = none) : s.initialized? = none := by
  cases s with
  | var name e? => cases h
  | _ => rfl

theorem initializers_eq_nil (h : declaredNames p = []) : p.initializers = [] := by
  cases p with
  | expr e => rfl
  | routine kind r => rfl
  | stmt s =>
    rw [declaredNames, List.map_eq_nil_iff, Option.toList_eq_nil_iff] at h
    rw [initializers, initialized?_eq_none h, Option.toList_none]
  | stmts ss =>
    rw [declaredNames, List.flatMap_eq_nil_iff] at h
    apply List.filterMap_eq_nil_iff.2
    intro s hs
    apply initialized?_eq_none
    rw [← Option.toList_eq_nil_iff, ← List.map_eq_nil_iff (f := Name.text)]
    exact h s hs

theorem unread_of_undeclared (h : declaredNames p = []) : p.Unread := by
  intro d hd
  rw [initializers_eq_nil h] at hd
  cases hd

/-- A part that declares nothing only has to keep to the rules. -/
theorem Verdict.quiet (verdict : Verdict rs p) (none : declaredNames p = []) (settled : c.Settled rs p) :
    Passes (analysis p) c ↔ Lawful rs p := by
  rw [verdict c settled, none]
  simp [takes_nil, unread_of_undeclared none]

theorem passes_analyses_iff {ps : List Part} (verdicts : ∀ p ∈ ps, Verdict rs p) (none : ∀ p ∈ ps, declaredNames p = [])
    (shaped : AllShaped ps) (settled : ∀ p ∈ ps, c.Settled rs p) :
    Passes (analyses ps) c ↔ ∀ p ∈ ps, Lawful rs p := by
  induction ps generalizing c with
  | nil => exact iff_of_true rfl nofun
  | cons p ps ih =>
    rw [List.forall_mem_cons] at verdicts none settled
    rw [analyses_cons, passes_seq, List.forall_mem_cons, verdicts.1.quiet none.1 settled.1]
    apply and_congr_right
    intro lawful
    have passes := (verdicts.1.quiet none.1 settled.1).2 lawful
    apply ih verdicts.2 none.2 fun q hq => shaped q (.tail _ hq)
    intro q hq
    exact (settled.2 q hq).later (steady_analysis (shaped p (.head _)) passes)

theorem namesIn_eq (params : List Name) (body : List Stmt) :
    namesIn params body = params.map Name.text ++ declaredNames (.stmts body) := by
  have declared : (body.filterMap declared?).map Name.text = declaredNames (.stmts body) := by
    rw [declaredNames, List.filterMap_eq_flatMap_toList, List.map_flatMap]
  rw [namesIn, List.map_append, declared]

theorem Verdict.of_quiet (none : declaredNames p = [])
    (h : ∀ c : Context, c.Settled rs p → (Passes (analysis p) c ↔ Lawful rs p)) : Verdict rs p := by
  intro c settled
  rw [h c settled, none]
  simp [takes_nil, unread_of_undeclared none]

theorem Context.Settled.swap (h : c.Settled rs p) (same : q.routine? = p.routine?) : c.Settled rs q :=
  ⟨h.routine, by rw [same]; exact h.receiver, h.calm⟩

/-- Unless a method begins, `this` keeps its meaning. -/
theorem Context.Settled.enter (h : c.Settled rs p) (hp : p.routine? = none)
    (hq : ∀ kind r, q = .routine kind r → kind.isMember = false) : c.Settled rs q := by
  have receiver := h.receiver
  rw [hp] at receiver
  refine ⟨h.routine, ?_, h.calm⟩
  cases q with
  | routine kind r =>
    rw [receiver]
    simp [routine?, receiverOf, hq kind r rfl]
  | _ => exact receiver

theorem calm_inside (c : Context) {scope : Scope} (ready : ∀ e ∈ scope, e.stage ≠ .declared) : (c.inside scope).Calm := by
  rintro scope outer ⟨⟩
  exact ready

theorem takes_inside {ds : List String} : (c.inside []).Takes ds ↔ ds.Nodup := by
  rw [takes_iff rfl]
  exact and_iff_left fun _ _ => List.not_mem_nil

theorem passes_warnUnreachable (body : List Stmt) : Passes (warnUnreachable body) c := by
  unfold warnUnreachable
  split <;> rfl

/-- The parameters and the names of the body are all different, and the body keeps to the rules. -/
theorem verdict_routine {kind : RoutineKind} {r : Routine} (shaped : (Part.routine kind r).Shaped)
    (body : Verdict ((kind, r) :: rs) (.stmts r.body)) : Verdict rs (.routine kind r) := by
  apply Verdict.of_quiet rfl
  intro c settled
  let start : Context := { c with routine := some kind }.inside []
  have ready : start.Settled ((kind, r) :: rs) (.stmts r.body) := ⟨rfl, settled.receiver, calm_inside _ nofun⟩
  have inner (passes : Passes (parameters r.params) start) :
      Passes (do analysis (.stmts r.body); warnUnreachable r.body) (after (parameters r.params) start) ↔
        (after (parameters r.params) start).Takes (declaredNames (.stmts r.body)) ∧
          (Part.stmts r.body).Unread ∧ Lawful ((kind, r) :: rs) (.stmts r.body) := by
    have open' : (after (parameters r.params) start).scopes ≠ [] := by
      intro none
      have length := length_scopes_after (declares_parameters r.params) passes
      rw [none] at length
      cases length
    rw [passes_seq, and_iff_left (passes_warnUnreachable _), body _ (ready.later (steady_parameters shaped.tidy passes)),
      forall_prop_of_true open']
  have whole : Passes (do parameters r.params; analysis (.stmts r.body); warnUnreachable r.body) start ↔ _ :=
    passes_seq_iff (declares_parameters r.params) (by rw [passes_parameters_iff, and_true]) inner
  rw [takes_inside, true_and, ← and_assoc, ← namesIn_eq] at whole
  rw [lawful_iff, Legal, analysis_routine, children, List.forall_mem_singleton]
  exact whole

theorem verdict_block {body : List Stmt} (verdict : Verdict rs (.stmts body)) : Verdict rs (.stmt (.block body)) := by
  apply Verdict.of_quiet rfl
  intro c settled
  have inner := verdict (c.inside []) ⟨settled.routine, settled.receiver, calm_inside c nofun⟩
  rw [takes_inside, forall_prop_of_true (by exact nofun), ← and_assoc] at inner
  rw [lawful_stmt, Legal, namesIn_eq, analysis_block, stmtChildren, List.forall_mem_singleton]
  exact inner

theorem passes_optional_iff {e? : Option Expr} {s : Stmt} (verdicts : ∀ q ∈ e?.toList.map Part.expr, Verdict rs q)
    (shaped : AllShaped (e?.toList.map .expr)) (settled : c.Settled rs (.stmt s)) :
    Passes (analyses (e?.toList.map .expr)) c ↔ ∀ q ∈ e?.toList.map Part.expr, Lawful rs q := by
  apply passes_analyses_iff verdicts (by simp [declaredNames]) shaped
  intro q hq
  obtain ⟨e, -, rfl⟩ := List.mem_map.1 hq
  exact settled.swap rfl

/-- Outside of any scope a variable is not declared. -/
theorem passes_var_outside {name : Name} {e? : Option Expr} (h : c.scopes = []) :
    Passes (analysis (.stmt (.var name e?))) c ↔ Passes (analyses (e?.toList.map .expr)) c := by
  have declared : Passes (declare name) c := passes_declare_iff.2 (takes_outside h _)
  have same : after (declare name) c = c := by
    rw [after, declare, h]
  rw [analysis_var, passes_seq, passes_seq, and_iff_right declared, same]
  exact and_iff_left (passes_define name)

/-- Inside of a scope an initializer may not read the variable first. -/
theorem passes_var_inside {name : Name} {init : Expr} (inside : c.scopes ≠ [])
    (shaped : (Part.stmt (.var name (some init))).Shaped) :
    Passes (analysis (.stmt (.var name (some init)))) c ↔
      (Part.stmt (.var name (some init))).Unread ∧ Passes (do declare name; define name; analysis (.expr init)) c := by
  have unread : (Part.stmt (.var name (some init))).Unread ↔
      ∀ earlier place, ¬ (Part.expr init).ReadsFirst name.text earlier place := List.forall_mem_singleton
  rw [unread]
  by_cases reads : ∃ earlier place, (Part.expr init).ReadsFirst name.text earlier place
  · obtain ⟨earlier, place, reads⟩ := reads
    apply iff_of_false _ fun h => h.1 earlier place reads
    intro passes
    rw [Passes, analysis, result_var_of_readsFirst inside shaped reads] at passes
    obtain ⟨-, later⟩ := passes_seq.1 passes
    exact not_passes_fail place .ownInitializer later
  · push Not at reads
    rw [and_iff_right reads]
    show (stmt (.var name (some init)) c).1 = .ok () ↔ _
    rw [result_var_of_unread inside shaped reads]
    rfl

theorem verdict_var {name : Name} {e? : Option Expr} (shaped : (Part.stmt (.var name e?)).Shaped)
    (initial : ∀ q ∈ e?.toList.map Part.expr, Verdict rs q) : Verdict rs (.stmt (.var name e?)) := by
  intro c settled
  have legal : Lawful rs (.stmt (.var name e?)) ↔ ∀ q ∈ e?.toList.map Part.expr, Lawful rs q := by
    rw [lawful_stmt]
    exact and_iff_right trivial
  rw [legal]
  by_cases outside : c.scopes = []
  · rw [passes_var_outside outside, passes_optional_iff initial (fun q hq => shaped.child hq) settled]
    simp [outside, takes_outside]
  · cases e? with
    | none =>
      have plain : Passes (analysis (.stmt (.var name none))) c ↔ c.Takes [name.text] := by
        rw [analysis_var]
        exact passes_named_iff
      rw [plain]
      have unread : (Part.stmt (.var name none)).Unread := nofun
      simp [unread, declaredNames, declared?]
    | some init =>
      rw [passes_var_inside outside shaped, passes_named, passes_named_iff, forall_prop_of_true outside]
      have later (takes : c.Takes [name.text]) :
          Passes (analysis (.expr init)) (after (do declare name; define name) c) ↔ Lawful rs (.expr init) := by
        have passes := passes_named_iff.2 takes
        exact (initial _ (.head _)).quiet rfl ((settled.later (steady_named (shaped.tidy name rfl) passes)).swap rfl)
      rw [and_congr_right later, and_left_comm]
      simp [declaredNames, declared?]

theorem passes_checkBase_iff {name : Name} {base : Option Expr} :
    Passes (checkBase name base) c ↔ ∀ id b, base = some (.variable id b) → b.text ≠ name.text := by
  unfold checkBase
  split
  · next id b =>
    split
    · next own => exact iff_of_false nofun fun h => h id b rfl own
    · next other =>
      apply iff_of_true rfl
      rintro id' b' ⟨⟩
      exact other
  · next other =>
    apply iff_of_true rfl
    intro id b same
    exact absurd same (other id b)

theorem receiverOf_method (r : Routine) : receiverOf ((.ofMethod r.name.text, r) :: rs) = .object := by
  unfold RoutineKind.ofMethod
  split <;> rfl

/-- A function or class is declared before anything else is looked at. -/
theorem Verdict.of_named {s : Stmt} {name : Name} {a : Analysis Unit} (declared : declared? s = some name)
    (initialized : s.initialized? = none) (hx : name.text ≠ "this")
    (first : analysis (.stmt s) = (do declare name; define name; a))
    (h : ∀ c : Context, c.Settled rs (.stmt s) → (Passes a c ↔ Lawful rs (.stmt s))) : Verdict rs (.stmt s) := by
  intro c settled
  have unread : (Part.stmt s).Unread := by
    intro d hd
    rw [initializers, initialized] at hd
    cases hd
  rw [first, passes_named, passes_named_iff, and_iff_right fun _ => unread, declaredNames, declared]
  apply and_congr_right
  intro takes
  exact h _ (settled.later (steady_named hx (passes_named_iff.2 takes)))

theorem verdict_function {r : Routine} (shaped : (Part.stmt (.function r)).Shaped)
    (body : Verdict rs (.routine .function r)) : Verdict rs (.stmt (.function r)) := by
  apply Verdict.of_named rfl rfl (shaped.tidy r.name rfl) (analysis_function r)
  intro c settled
  have legal : Legal rs (.stmt (.function r)) := trivial
  rw [lawful_stmt, stmtChildren, List.forall_mem_singleton, and_iff_right legal]
  exact body.quiet rfl (settled.enter rfl (by rintro _ _ ⟨⟩; rfl))

theorem verdict_class {d : ClassDeclaration} (shaped : (Part.stmt (.class d)).Shaped)
    (below : ∀ q ∈ stmtChildren (.class d), Verdict rs q) : Verdict rs (.stmt (.class d)) := by
  have sub (ps : List Part) (hps : ∀ q ∈ ps, q ∈ stmtChildren (.class d)) : (∀ q ∈ ps, Verdict rs q) ∧ AllShaped ps :=
    ⟨fun q hq => below q (hps q hq), fun q hq => shaped.child (hps q hq)⟩
  obtain ⟨base, shapedBase⟩ := sub (d.base.toList.map .expr) fun q hq => by simp [stmtChildren, hq]
  obtain ⟨statics, shapedStatics⟩ := sub (Part.statics d.statics) fun q hq => by simp [stmtChildren, hq]
  obtain ⟨methods, shapedMethods⟩ := sub (Part.methods d.methods) fun q hq => by simp [stmtChildren, hq]
  apply Verdict.of_named rfl rfl (shaped.tidy d.name rfl) (analysis_class d)
  intro c settled
  rw [lawful_stmt, stmtChildren, List.forall_mem_append, List.forall_mem_append, and_assoc, passes_seq,
    passes_checkBase_iff]
  apply and_congr_right
  intro legal
  rw [checkBase_pass (passes_checkBase_iff.2 legal), passes_seq]
  have baseIff := passes_optional_iff base shapedBase settled
  rw [baseIff]
  apply and_congr_right
  intro lawful
  have settled := settled.later (steady_analyses shapedBase (baseIff.2 lawful))
  generalize after (analyses (d.base.toList.map .expr)) c = c at settled
  rw [passes_seq]
  have staticsIff : Passes (withReceiver .static (analyses (Part.statics d.statics))) c ↔
      ∀ q ∈ Part.statics d.statics, Lawful rs q := by
    apply passes_analyses_iff (c := { c with receiver := .static }) statics (by simp [declaredNames, Part.statics])
      shapedStatics
    intro q hq
    obtain ⟨r, -, rfl⟩ := List.mem_map.1 hq
    exact ⟨settled.routine, rfl, settled.calm⟩
  rw [staticsIff]
  apply and_congr_right
  intro lawful
  have settled := settled.later (steady_analyses shapedStatics (staticsIff.2 lawful)).withReceiver
  generalize after (withReceiver .static (analyses (Part.statics d.statics))) c = c at settled
  show Passes (analyses (Part.methods d.methods)) ({ c with receiver := .object }.inside receiverScope) ↔ _
  apply passes_analyses_iff methods
    (by simp [declaredNames, Part.methods]) shapedMethods
  intro q hq
  obtain ⟨r, -, rfl⟩ := List.mem_map.1 hq
  exact ⟨settled.routine, (receiverOf_method r).symm, calm_inside _ (by simp [receiverScope])⟩

theorem passes_return_iff {line : Nat} {e? : Option Expr} : Passes (analysis (.stmt (.return line e?))) c ↔
    (c.routine ≠ none ∧ (e? ≠ none → c.routine ≠ some .constructor)) ∧ Passes (analyses (e?.toList.map .expr)) c := by
  rw [← optional_eq]
  obtain ⟨scopes, routine, receiver, warnings, distances⟩ := c
  cases routine with
  | none => exact iff_of_false nofun fun h => h.1.1 rfl
  | some kind =>
    cases e? with
    | none => cases kind <;> exact ⟨fun passes => ⟨⟨nofun, fun h => absurd rfl h⟩, passes⟩, And.right⟩
    | some e =>
      cases kind with
      | constructor => exact iff_of_false nofun fun h => h.1.2 nofun rfl
      | _ => exact ⟨fun passes => ⟨⟨nofun, fun _ => nofun⟩, passes⟩, And.right⟩

theorem verdict_return {line : Nat} {e? : Option Expr} (shaped : (Part.stmt (.return line e?)).Shaped)
    (below : ∀ q ∈ e?.toList.map Part.expr, Verdict rs q) : Verdict rs (.stmt (.return line e?)) := by
  apply Verdict.of_quiet rfl
  intro c settled
  rw [passes_return_iff, settled.routine, lawful_stmt, Legal]
  exact and_congr_right fun _ => passes_optional_iff below (fun q hq => shaped.child hq) settled

theorem verdict_this (id : NodeId) (line : Nat) : Verdict rs (.expr (.this id line)) := by
  apply Verdict.of_quiet rfl
  intro c settled
  have same : c.receiver = receiverOf rs := settled.receiver
  rw [lawful_iff, Legal, ← same]
  clear same settled
  obtain ⟨scopes, routine, receiver, warnings, distances⟩ := c
  cases receiver with
  | object => exact iff_of_true (passes_bindNode id "this") ⟨rfl, nofun⟩
  | none => exact iff_of_false nofun nofun
  | static => exact iff_of_false nofun nofun

theorem lawful_expr {e : Expr} (h : Legal rs (.expr e)) : Lawful rs (.expr e) ↔ ∀ q ∈ exprChildren e, Lawful rs q :=
  lawful_iff.trans (and_iff_right h)

theorem verdict_stmts_cons {s : Stmt} {ss : List Stmt} (shaped : (Part.stmt s).Shaped) (first : Verdict rs (.stmt s))
    (rest : Verdict rs (.stmts ss)) : Verdict rs (.stmts (s :: ss)) := by
  intro c settled
  have names : declaredNames (.stmts (s :: ss)) = declaredNames (.stmt s) ++ declaredNames (.stmts ss) := rfl
  have unread : (Part.stmts (s :: ss)).Unread ↔ (Part.stmt s).Unread ∧ (Part.stmts ss).Unread := by
    have both : (Part.stmts (s :: ss)).initializers = (Part.stmt s).initializers ++ (Part.stmts ss).initializers := by
      rw [initializers, initializers, initializers, List.filterMap_cons]
      cases s.initialized? <;> rfl
    rw [Unread, both, List.forall_mem_append]
    rfl
  have lawful : Lawful rs (.stmts (s :: ss)) ↔ Lawful rs (.stmt s) ∧ Lawful rs (.stmts ss) := by
    rw [lawful_iff, children, List.forall_mem_cons, List.forall_mem_singleton]
    exact and_iff_right trivial
  rw [names, unread, lawful, analysis_stmts, children, analyses_cons, analyses_one]
  have whole := passes_seq_iff (declares_analysis _ shaped) (first c (settled.swap rfl)) fun passes => by
    have length := length_scopes_after (declares_analysis _ shaped) passes
    have inside : (after (analysis (.stmt s)) c).scopes ≠ [] ↔ c.scopes ≠ [] := by
      rw [← List.length_pos_iff, ← List.length_pos_iff, length]
    rw [rest _ ((settled.later (steady_analysis shaped passes)).swap rfl), inside]
  rw [whole]
  tauto

theorem plain_exprChildren {e : Expr} : ∀ q ∈ exprChildren e, ∀ kind r, q = .routine kind r → kind.isMember = false := by
  cases e with
  | lambda r =>
    rintro q hq kind r' rfl
    cases List.mem_singleton.1 hq
    rfl
  | _ => simp [exprChildren]

theorem plain_simple {s : Stmt} (hs : isSimple s = true) :
    ∀ q ∈ stmtChildren s, ∀ kind r, q = .routine kind r → kind.isMember = false := by
  cases s with
  | expression | print | conditional | loop | «break» | «continue» => simp [stmtChildren]
  | _ => cases hs

theorem verdict_part (p : Part) (shaped : p.Shaped) (rs : List (RoutineKind × Routine)) : Verdict rs p := by
  induction p using Part.induct generalizing rs with
  | step p ih =>
    have below (q : Part) (hq : q ∈ p.children) {rs : List (RoutineKind × Routine)} : Verdict rs q :=
      ih q hq (shaped.child hq) rs
    have quiet (ps : List Part) (sub : ∀ q ∈ ps, q ∈ p.children) (none : ∀ q ∈ ps, declaredNames q = [])
        (plain : ∀ q ∈ ps, ∀ kind r, q = .routine kind r → kind.isMember = false) (hp : p.routine? = Option.none)
        {c : Context} (settled : c.Settled rs p) : Passes (analyses ps) c ↔ ∀ q ∈ ps, Lawful rs q := by
      apply passes_analyses_iff (fun q hq => below q (sub q hq)) none fun q hq => shaped.child (sub q hq)
      exact fun q hq => settled.enter hp (plain q hq)
    cases p with
    | routine kind r => exact verdict_routine shaped (below _ (.head _))
    | stmts ss =>
      cases ss with
      | nil =>
        apply Verdict.of_quiet rfl
        intro c _
        rw [analysis_stmts]
        exact iff_of_true rfl (.intro trivial nofun)
      | cons s ss =>
        exact verdict_stmts_cons (shaped.child (.head _)) (below _ (.head _))
          (below _ (.tail _ (.head _)))
    | expr e =>
      by_cases hn : node? (.expr e) = none
      · have legal : Legal rs (.expr e) := by
          cases e with
          | this => cases hn
          | _ => trivial
        apply Verdict.of_quiet rfl
        intro c settled
        rw [analysis_expr hn, lawful_expr legal]
        exact quiet (exprChildren e) (fun _ => id) declaredNames_exprChildren plain_exprChildren rfl settled
      · cases e with
        | «variable» id name | suffix id name op =>
          apply Verdict.of_quiet rfl
          intro c settled
          exact iff_of_true (passes_seq.2 ⟨settled.calm.passes name, passes_bindNode _ _⟩) (.intro trivial nofun)
        | assign id name e =>
          apply Verdict.of_quiet rfl
          intro c settled
          have value : Passes (analysis (.expr e)) c ↔ Lawful rs (.expr e) :=
            (below _ (.head _)).quiet rfl (settled.swap rfl)
          have legal : Legal rs (.expr (.assign id name e)) := trivial
          rw [lawful_expr legal, exprChildren, List.forall_mem_singleton, ← value]
          exact passes_seq.trans (and_iff_left (passes_bindNode id name.text))
        | this id line => exact verdict_this id line
        | _ => exact absurd rfl hn
    | stmt s =>
      by_cases hs : isSimple s = true
      · obtain ⟨undeclared, none⟩ := undeclared_simple hs shaped.tidy
        have legal : Legal rs (.stmt s) := by
          cases s with
          | expression | print | conditional | loop | «break» | «continue» => trivial
          | _ => cases hs
        apply Verdict.of_quiet (by rw [declaredNames, undeclared]; rfl)
        intro c settled
        rw [analysis_simple hs, lawful_stmt, and_iff_right legal]
        exact quiet (stmtChildren s) (fun _ => id) none (plain_simple hs) rfl settled
      · cases s with
        | var name e? => exact verdict_var shaped fun q hq => below q hq
        | block body => exact verdict_block (below _ (.head _))
        | function r => exact verdict_function shaped (below _ (.head _))
        | «return» line e? => exact verdict_return shaped fun q hq => below q hq
        | «class» d => exact verdict_class shaped fun q hq => below q hq
        | _ => exact absurd rfl hs

end Verdicts

end Scope

end Scriptlet
