import Scriptlet.Proofs.Initializers
import Scriptlet.Proofs.MethodSites

/-!
What a successful analysis leaves behind. The variables that a part uses are marked as read, each in the nearest scope
that has its name; the names that the part declares are added to the innermost scope; and for every scope that was closed
on the way there are warnings of the variables in it that are still unread. `Leaves` says all of this of an analysis, and
`leaves_analysis` of every part.
-/
namespace Scriptlet.Part

instance decidableShields (x : String) : (p q : Part) → Decidable (Shields x p q)
  | .routine _ r, _ => inferInstanceAs (Decidable (x ∈ r.params.map Name.text))
  | .stmt s, _ => inferInstanceAs (Decidable (x ∈ (declared? s).toList.map Name.text))
  | .stmts (s :: _), .stmts _ => inferInstanceAs (Decidable (x ∈ (declared? s).toList.map Name.text))
  | .stmts (_ :: _), .expr _ | .stmts (_ :: _), .routine _ _ | .stmts (_ :: _), .stmt _ => isFalse id
  | .stmts [], _ => isFalse id
  | .expr _, _ => isFalse id

/-- Whether the part uses the variable, found by a search through the part. -/
def uses (x : String) (p : Part) : Bool :=
  p.node?.any (·.2 = x) || p.children.attach.any fun q => !decide (Shields x p q.1) && uses x q.1
termination_by p.size
decreasing_by exact size_lt_of_mem_children q.2

theorem uses_eq_true {x : String} {p : Part} : p.uses x = true ↔ p.Uses x := by
  induction p using Part.induct with
  | step p ih =>
    rw [uses, uses_iff, Bool.or_eq_true, Option.any_eq_true, List.any_eq_true]
    apply or_congr
    · simp [and_comm]
    · constructor
      · rintro ⟨⟨q, hq⟩, -, found⟩
        simp only [Bool.and_eq_true, Bool.not_eq_true', decide_eq_false_iff_not] at found
        exact ⟨q, hq, found.1, (ih q hq).1 found.2⟩
      · rintro ⟨q, hq, free, found⟩
        exact ⟨⟨q, hq⟩, List.mem_attach _ _, by simp [free, (ih q hq).2 found]⟩

instance decidableUses (x : String) (p : Part) : Decidable (p.Uses x) := decidable_of_iff (p.uses x = true) uses_eq_true

end Scriptlet.Part

namespace Scriptlet.Scope

open Analysis
open Scriptlet.Part (children exprChildren stmtChildren node? declared? uses_expr uses_routine uses_stmt uses_stmts_nil
  uses_stmts_cons)

section Marking

/-- Variables that are used are marked as read. -/
def mark (scope : Scope) (used : String → Bool) : Scope :=
  scope.map fun e => if used e.name then { e with stage := .read } else e

/-- A name that is used marks the nearest variable that has it. -/
def markNearest (used : String → Bool) : List Scope → List Scope
  | [] => []
  | scope :: outer => scope.mark used :: markNearest (fun x => used x && !scope.has x) outer

/-- The innermost scope gets more variables. -/
def enlarge (new : Scope) : List Scope → List Scope
  | [] => []
  | scope :: outer => (scope ++ new) :: outer

variable {scope : Scope} {scopes : List Scope} {u v : String → Bool}

theorem enlarge_nil : enlarge [] scopes = scopes := by cases scopes <;> simp [enlarge]

theorem mark_append (scope' : Scope) : mark (scope ++ scope') u = scope.mark u ++ scope'.mark u := List.map_append

theorem mark_congr (h : ∀ e ∈ scope, u e.name = v e.name) : scope.mark u = scope.mark v := by
  apply List.map_congr_left
  intro e he
  rw [h e he]

theorem mark_false : scope.mark (fun _ => false) = scope := List.map_id' scope

theorem mark_mark : (scope.mark u).mark v = scope.mark fun x => u x || v x := by
  rw [mark, mark, List.map_map]
  apply List.map_congr_left
  intro e _
  cases hu : u e.name <;> cases hv : v e.name <;> simp [hu, hv]

theorem names_mark : (scope.mark u).map Entry.name = scope.map Entry.name := by
  rw [mark, List.map_map]
  apply List.map_congr_left
  intro e _
  show (if u e.name then { e with stage := Stage.read } else e).name = e.name
  split <;> rfl

theorem has_mark (x : String) : (scope.mark u).has x = scope.has x := by
  rw [Bool.eq_iff_iff, has_iff_mem, has_iff_mem, names_mark]

theorem has_append (scope' : Scope) (x : String) : Scope.has (scope ++ scope') x = (scope.has x || scope'.has x) :=
  List.any_append

theorem markNearest_false : markNearest (fun _ => false) scopes = scopes := by
  induction scopes with
  | nil => rfl
  | cons scope outer ih =>
    rw [markNearest, mark_false]
    exact congrArg _ ih

theorem markNearest_congr (h : ∀ x, u x = v x) : markNearest u scopes = markNearest v scopes := by
  rw [funext h]

theorem markNearest_markNearest :
    markNearest v (markNearest u scopes) = markNearest (fun x => u x || v x) scopes := by
  induction scopes generalizing u v with
  | nil => rfl
  | cons scope outer ih =>
    rw [markNearest, markNearest, markNearest, ih, mark_mark]
    congr 1
    apply markNearest_congr
    intro x
    rw [has_mark, Bool.and_or_distrib_right]

theorem move_eq_mark (x : String) : scope.move x (fun _ => .read) = scope.mark fun y => y = x := by
  apply List.map_congr_left
  intro e _
  simp

theorem mark_of_not_has {x : String} (h : scope.has x = false) : (scope.mark fun y => y = x) = scope := by
  rw [← move_eq_mark, move_of_not_has _ h]

/-- Looking a name up marks the variable that it finds, and nothing if it finds none. -/
theorem lookup_eq (x : String) :
    lookup x scopes = (nearest x (scopes.map (·.map Entry.name))).map fun k => (k, markNearest (fun y => y = x) scopes) := by
  induction scopes with
  | nil => rfl
  | cons scope outer ih =>
    rw [lookup, List.map_cons, nearest_cons, markNearest]
    by_cases has : scope.has x = true
    · have away : markNearest (fun y => decide (y = x) && !scope.has y) outer = outer := by
        rw [markNearest_congr (v := fun _ => false), markNearest_false]
        intro y
        by_cases same : y = x
        · simp [same, has]
        · simp [same]
      rw [if_pos has, if_pos (has_iff_mem.1 has), move_eq_mark, away]
      rfl
    · have still : markNearest (fun y => decide (y = x) && !scope.has y) outer = markNearest (fun y => y = x) outer := by
        apply markNearest_congr
        intro y
        by_cases same : y = x
        · simp [same, has]
        · simp [same]
      rw [if_neg has, if_neg (mt has_iff_mem.2 has), ih, still, mark_of_not_has (Bool.eq_false_iff.2 has), Option.map_map,
        Option.map_map]
      rfl

theorem markNearest_of_missing {x : String} (h : nearest x (scopes.map (·.map Entry.name)) = none) :
    markNearest (fun y => y = x) scopes = scopes := by
  induction scopes with
  | nil => rfl
  | cons scope outer ih =>
    rw [List.map_cons, nearest_cons] at h
    split at h
    · cases h
    · next absent =>
      have has : scope.has x = false := Bool.eq_false_iff.2 (mt has_iff_mem.1 absent)
      have still : markNearest (fun y => decide (y = x) && !scope.has y) outer = markNearest (fun y => y = x) outer := by
        apply markNearest_congr
        intro y
        by_cases same : y = x
        · simp [same, has]
        · simp [same]
      rw [markNearest, mark_of_not_has has, still, ih (Option.map_eq_none_iff.1 h)]

end Marking

/-- What a node leaves behind that has been bound: its variable is marked, and where it lives is recorded. -/
def Context.bound (c : Context) (id : NodeId) (x : String) : Context :=
  { c with
    scopes := markNearest (fun y => y = x) c.scopes
    distances := (nearest x c.names).elim c.distances (c.distances.insert id) }

theorem bindNode_eq (id : NodeId) (x : String) (c : Context) : bindNode id x c = (.ok (), c.bound id x) := by
  have looked : lookup x c.scopes = (nearest x c.names).map fun k => (k, markNearest (fun y => y = x) c.scopes) :=
    lookup_eq x
  unfold bindNode Context.bound
  rcases found : nearest x c.names with _ | k
  · rw [looked, found, markNearest_of_missing found]
    rfl
  · rw [looked, found]
    rfl

/-- From one context to the other names have been used, variables added to the innermost scope, and warnings given. -/
structure Left (used : String → Bool) (new : Scope) (warned : List Warning) (c c' : Context) : Prop where
  scopes : c'.scopes = enlarge new (markNearest used c.scopes)
  warnings : c'.warnings = c.warnings ++ warned
  fresh : ∀ scope outer, c.scopes = scope :: outer → ∀ e ∈ new, scope.has e.name = false

/-- What a successful analysis leaves. Whether it uses the receiver is left open. -/
def Leaves (u : String → Bool) (new : Scope) (warned : List Warning) (a : Analysis Unit) : Prop :=
  ∃ used : String → Bool, (∀ x, x ≠ "this" → used x = u x) ∧ ∀ c, Passes a c → Left used new warned c (after a c)

section Laws

variable {u v : String → Bool} {A B : Scope} {ws ws' : List Warning} {a b : Analysis Unit}

theorem Leaves.congr (h : Leaves u A ws a) (same : ∀ x, x ≠ "this" → v x = u x) : Leaves v A ws a := by
  obtain ⟨used, told, left⟩ := h
  exact ⟨used, fun x hx => (told x hx).trans (same x hx).symm, left⟩

/-- An analysis that leaves the scopes as they are. -/
theorem Leaves.of_still (h : ∀ c, Passes a c → (after a c).scopes = c.scopes ∧ (after a c).warnings = c.warnings ++ ws) :
    Leaves (fun _ => false) [] ws a := by
  refine ⟨fun _ => false, fun _ _ => rfl, fun c passes => ⟨?_, (h c passes).2, by simp⟩⟩
  rw [(h c passes).1, markNearest_false, enlarge_nil]

theorem leaves_done : Leaves (fun _ => false) [] [] (done ()) := .of_still fun _ _ => ⟨rfl, (List.append_nil _).symm⟩

theorem leaves_fail {u : String → Bool} (place : Place) (fault : Fault) : Leaves u A ws (fail place fault) :=
  ⟨u, fun _ _ => rfl, fun _ passes => nomatch passes⟩

theorem leaves_warn (w : Warning) : Leaves (fun _ => false) [] [w] (warn w) := .of_still fun _ _ => ⟨rfl, rfl⟩

theorem leaves_bindNode (id : NodeId) (x : String) : Leaves (fun y => y = x) [] [] (bindNode id x) := by
  refine ⟨fun y => y = x, fun _ _ => rfl, fun c _ => ?_⟩
  rw [after, bindNode_eq]
  exact ⟨enlarge_nil.symm, (List.append_nil _).symm, by simp⟩

theorem leaves_checkInitialized (name : Name) : Leaves (fun _ => false) [] [] (checkInitialized name) :=
  .of_still fun c _ => by
    rw [after_checkInitialized]
    exact ⟨rfl, (List.append_nil _).symm⟩

/-- What comes second may use what came first has declared. -/
theorem Left.seq {used used' : String → Bool} {c c' c'' : Context} (first : Left used A ws c c')
    (second : Left used' B ws' c' c'') :
    Left (fun x => used x || (!A.has x && used' x)) (A.mark used' ++ B) (ws ++ ws') c c'' := by
  obtain ⟨scopes, warnings, fresh⟩ := first
  obtain ⟨scopes', warnings', fresh'⟩ := second
  refine ⟨?_, by rw [warnings', warnings, List.append_assoc], ?_⟩
  · rw [scopes', scopes]
    cases hs : c.scopes with
    | nil => rfl
    | cons scope outer =>
      -- the names that came first are new to the scope, so they hide nothing in it
      have inner : (scope.mark used).mark used' = scope.mark fun x => used x || (!A.has x && used' x) := by
        rw [mark_mark]
        apply mark_congr
        intro e he
        have hidden : A.has e.name = false := by
          rw [← Bool.not_eq_true, has_iff_mem, List.mem_map]
          rintro ⟨e', he', same⟩
          have absent := fresh scope outer hs e' he'
          rw [same, ← Bool.not_eq_true, has_iff_mem] at absent
          exact absent (List.mem_map_of_mem he)
        simp [hidden]
      simp only [markNearest, enlarge, mark_append, inner, List.append_assoc, markNearest_markNearest, List.cons.injEq,
        true_and]
      apply markNearest_congr
      intro x
      rw [has_append, has_mark]
      cases used x <;> cases scope.has x <;> cases A.has x <;> cases used' x <;> rfl
  · intro scope outer hs e he
    rcases List.mem_append.1 he with he | he
    · obtain ⟨e', he', rfl⟩ := List.mem_map.1 he
      have absent := fresh scope outer hs e' he'
      split <;> exact absent
    · have absent := fresh' (scope.mark used ++ A) (markNearest (fun x => used x && !scope.has x) outer)
        (by rw [scopes, hs]; rfl) e he
      rw [has_append, has_mark, Bool.or_eq_false_iff] at absent
      exact absent.1

theorem Leaves.seq (ha : Leaves u A ws a) (hb : Leaves v B ws' b) (plain : ∀ e ∈ A, e.name ≠ "this") :
    Leaves (fun x => u x || (!A.has x && v x)) (A.mark v ++ B) (ws ++ ws') (do a; b) := by
  obtain ⟨used, told, left⟩ := ha
  obtain ⟨used', told', left'⟩ := hb
  refine ⟨fun x => used x || (!A.has x && used' x), fun x hx => by simp only [told x hx, told' x hx], fun c passes => ?_⟩
  obtain ⟨first, second⟩ := passes_seq.1 passes
  rw [after_seq first, ← mark_congr fun e he => told' e.name (plain e he)]
  exact (left c first).seq (left' _ second)

/-- After an analysis that declares nothing. -/
theorem Leaves.andThen (ha : Leaves u [] ws a) (hb : Leaves v B ws' b) :
    Leaves (fun x => u x || v x) B (ws ++ ws') (do a; b) :=
  (ha.seq hb (by simp)).congr fun _ _ => by simp [Scope.has]

/-- A variable that has its value, and that something has read or nothing yet. -/
def entryOf (name : Name) (read : Bool) : Entry := ⟨name.text, some name.place, if read then .read else .defined⟩

theorem mark_entryOf (name : Name) (read : Bool) : mark [entryOf name read] u = [entryOf name (read || u name.text)] := by
  cases read <;> cases h : u name.text <;> simp [mark, entryOf, h]

theorem has_entryOf (name : Name) (read : Bool) (x : String) :
    Scope.has [entryOf name read] x = decide (name.text = x) := by
  simp [Scope.has, entryOf]

/-- What is declared is not yet in the innermost scope. -/
theorem declare_cases {name : Name} {c : Context} (passes : Passes (declare name) c) :
    (c.scopes = [] ∧ after (declare name) c = c) ∨
      ∃ scope outer, c.scopes = scope :: outer ∧ scope.has name.text = false ∧
        after (declare name) c = { c with scopes := (scope ++ [⟨name.text, some name.place, .declared⟩]) :: outer } := by
  unfold Passes declare at passes
  unfold after declare
  cases hs : c.scopes with
  | nil => exact .inl ⟨rfl, rfl⟩
  | cons scope outer =>
    rw [hs] at passes
    refine .inr ⟨scope, outer, rfl, ?_⟩
    cases has : scope.has name.text with
    | true => simp [has] at passes
    | false => exact ⟨rfl, by simp [has]⟩

/-- A variable with an initial value. -/
theorem Leaves.var (h : Leaves u [] ws a) {name : Name} (hx : name.text ≠ "this") :
    Leaves (fun x => u x && x ≠ name.text) [entryOf name (u name.text)] ws (do declare name; a; define name) := by
  obtain ⟨used, told, left⟩ := h
  refine ⟨fun x => used x && x ≠ name.text, fun x hx => by simp only [told x hx], fun c passes => ?_⟩
  obtain ⟨declared, passes⟩ := passes_seq.1 passes
  obtain ⟨initial, -⟩ := passes_seq.1 passes
  rw [after_seq declared, after_seq initial]
  obtain ⟨scopes, warnings, -⟩ := left _ initial
  generalize after a (after (declare name) c) = c' at scopes warnings
  rw [← told name.text hx]
  rcases declare_cases declared with ⟨none, same⟩ | ⟨scope, outer, hs, has, same⟩
  · rw [same] at scopes warnings
    rw [none] at scopes
    have still : after (define name) c' = c' := by
      unfold after define
      rw [scopes]
      rfl
    refine ⟨?_, by rw [still, warnings], by simp [none]⟩
    rw [still, scopes, none]
    rfl
  · rw [same] at scopes warnings
    have moved : after (define name) c' =
        { c' with scopes := (scope.mark (fun x => used x && x ≠ name.text) ++ [entryOf name (used name.text)]) ::
          markNearest (fun x => (used x && x ≠ name.text) && !scope.has x) outer } := by
      have old (e : Entry) (he : e ∈ scope) : e.name ≠ name.text := by
        intro he'
        rw [← Bool.not_eq_true, has_iff_mem] at has
        exact has (he' ▸ List.mem_map_of_mem he)
      have kept : (scope.mark used).move name.text Stage.define = scope.mark fun x => used x && x ≠ name.text := by
        rw [move_of_not_has _ (by rw [has_mark]; exact has)]
        apply mark_congr
        intro e he
        simp [old e he]
      have new : Scope.move (mark [⟨name.text, some name.place, .declared⟩] used) name.text Stage.define =
          [entryOf name (used name.text)] := by
        cases hu : used name.text <;> simp [mark, entryOf, Scope.move, Stage.define, hu]
      have outside : markNearest (fun x => used x && !(scope ++ [⟨name.text, some name.place, .declared⟩] : Scope).has x) outer =
          markNearest (fun x => (used x && x ≠ name.text) && !scope.has x) outer := by
        apply markNearest_congr
        intro x
        rw [has_append]
        by_cases hn : x = name.text
        · simp [hn, Scope.has]
        · simp [hn, Scope.has, Ne.symm hn]
      rw [← kept, ← new, ← outside]
      unfold after define
      rw [scopes]
      simp [markNearest, enlarge, mark_append, Scope.move]
    refine ⟨by rw [moved, hs]; rfl, by rw [moved]; exact warnings, ?_⟩
    intro scope' outer' hs' e he
    cases hs.symm.trans hs'
    rw [List.mem_singleton.1 he]
    exact has

theorem leaves_named {name : Name} (hx : name.text ≠ "this") :
    Leaves (fun _ => false) [entryOf name false] [] (do declare name; define name) :=
  (leaves_done.var hx).congr fun _ _ => rfl

/-- A function or class is there for its own body. -/
theorem Leaves.named (h : Leaves u [] ws a) {name : Name} (hx : name.text ≠ "this") :
    Leaves (fun x => u x && x ≠ name.text) [entryOf name (u name.text)] ws (do declare name; define name; a) := by
  have whole := (leaves_named hx).seq h (by simpa [entryOf] using hx)
  rw [seq_assoc, mark_entryOf, Bool.false_or, List.append_nil] at whole
  apply whole.congr
  intro x _
  rw [has_entryOf]
  by_cases same : x = name.text
  · simp [same]
  · simp [same, Ne.symm same]

theorem Leaves.of_agree (h : Leaves u A ws a) (agree : ∀ c, Passes b c → a c = b c) : Leaves u A ws b := by
  obtain ⟨used, told, left⟩ := h
  refine ⟨used, told, fun c passes => ?_⟩
  have same := agree c passes
  unfold Passes at passes
  unfold after
  rw [← same] at passes ⊢
  exact left c passes

theorem Leaves.withRoutine (h : Leaves u A ws a) (kind : RoutineKind) : Leaves u A ws (withRoutine kind a) := by
  obtain ⟨used, told, left⟩ := h
  refine ⟨used, told, fun c passes => ?_⟩
  obtain ⟨scopes, warnings, fresh⟩ := left { c with routine := some kind } passes
  exact ⟨scopes, warnings, fresh⟩

theorem Leaves.withReceiver (h : Leaves u A ws a) (receiver : Receiver) : Leaves u A ws (withReceiver receiver a) := by
  obtain ⟨used, told, left⟩ := h
  refine ⟨used, told, fun c passes => ?_⟩
  obtain ⟨scopes, warnings, fresh⟩ := left { c with receiver } passes
  exact ⟨scopes, warnings, fresh⟩

/-- When a scope is closed, what has not been read in it is warned of. -/
theorem Leaves.withScope (h : Leaves u A ws a) : Leaves u [] (ws ++ A.unused) (withScope [] a) := by
  obtain ⟨used, told, left⟩ := h
  refine ⟨used, told, fun c passes => ?_⟩
  obtain ⟨scopes, warnings, -⟩ := left (c.inside []) passes
  have inner : after (Analysis.withScope [] a) c = (after a (c.inside [])).closed := rfl
  have opened : (after a (c.inside [])).scopes = A :: markNearest used c.scopes := by
    rw [scopes]
    show A :: markNearest (fun x => used x && true) c.scopes = _
    rw [markNearest_congr fun x => Bool.and_true (used x)]
  rw [inner, Context.closed, opened, warnings]
  exact ⟨enlarge_nil.symm, List.append_assoc .., by simp⟩

/-- The receiver is never warned of. -/
theorem Leaves.withReceiverScope (h : Leaves u [] ws a) : Leaves u [] ws (Analysis.withScope receiverScope a) := by
  obtain ⟨used, told, left⟩ := h
  refine ⟨fun x => used x && x ≠ "this", fun x hx => by simp [told x hx, hx], fun c passes => ?_⟩
  obtain ⟨scopes, warnings, -⟩ := left (c.inside receiverScope) passes
  have inner : after (Analysis.withScope receiverScope a) c = (after a (c.inside receiverScope)).closed := rfl
  have opened : (after a (c.inside receiverScope)).scopes =
      receiverScope :: markNearest (fun x => used x && x ≠ "this") c.scopes := by
    have known (x : String) : (used x && !receiverScope.has x) = (used x && x ≠ "this") := by
      simp [receiverScope, Scope.has, eq_comm]
    have read : receiverScope.mark used = receiverScope := by
      cases h : used "this" <;> simp [mark, receiverScope, h]
    rw [scopes]
    show (receiverScope.mark used ++ []) :: markNearest (fun x => used x && !receiverScope.has x) c.scopes = _
    rw [markNearest_congr known, read, List.append_nil]
  rw [inner, Context.closed, opened, warnings]
  exact ⟨enlarge_nil.symm, by simp [receiverScope, Scope.unused, Context.inside], by simp⟩

end Laws

section Steps

theorem leaves_parameters {ps : List Name} (plain : ∀ p ∈ ps, p.text ≠ "this") :
    Leaves (fun _ => false) (ps.map (entryOf · false)) [] (parameters ps) := by
  induction ps with
  | nil => exact leaves_done
  | cons p ps ih =>
    obtain ⟨hp, hps⟩ := List.forall_mem_cons.1 plain
    have whole := (leaves_named hp).seq (ih hps) (by simpa [entryOf] using hp)
    rw [seq_assoc, mark_false] at whole
    exact whole.congr fun _ _ => by simp

theorem leaves_warnUnreachable (body : List Stmt) :
    Leaves (fun _ => false) [] ((earlyReturn? body).toList.map fun place => ⟨place, .unreachable⟩) (warnUnreachable body) := by
  unfold warnUnreachable
  cases earlyReturn? body with
  | none => exact leaves_done
  | some place => exact leaves_warn _

theorem leaves_checkBase (name : Name) (base : Option Expr) : Leaves (fun _ => false) [] [] (checkBase name base) := by
  unfold checkBase
  split
  · split
    · exact leaves_fail _ _
    · exact leaves_done
  · exact leaves_done

end Steps

end Scriptlet.Scope

namespace Scriptlet.Part

/-- All parts of a part, each after the parts below it. -/
def within (p : Part) : List Part := (p.children.attach.flatMap fun q => within q.1) ++ [p]
termination_by p.size
decreasing_by exact size_lt_of_mem_children q.2

theorem within_eq (p : Part) : p.within = p.children.flatMap within ++ [p] := by
  rw [within, List.flatMap_subtype (g := within) (by simp), List.unattach_attach]

/-- What the statements of a scope declare, each name with the parts where it has that meaning: the declaration's own
parts and the statements after it. -/
def locals : List Stmt → List (Name × List Part)
  | [] => []
  | s :: rest => (declared? s).toList.map (·, stmtChildren s ++ [.stmts rest]) ++ locals rest

/-- Parameters are known in the whole body. -/
def declarations (params : List Name) (body : List Stmt) : List (Name × List Part) :=
  params.map (·, [.stmts body]) ++ locals body

end Scriptlet.Part

namespace Scriptlet.Scope

open Analysis
open Scriptlet.Part (children exprChildren stmtChildren node? declared? uses_expr uses_routine uses_stmt uses_stmts_nil
  uses_stmts_cons uses_eq_true locals declarations within within_eq)

/-- The variable of a declaration, when all its uses have been seen. -/
def settled (d : Name × List Part) : Entry := entryOf d.1 (d.2.any (·.uses d.1.text))

/-- The variables that a part leaves in the scope that it stands in. -/
def leftBy : Part → Scope
  | .stmt s => (declared? s).toList.map fun name => settled (name, stmtChildren s)
  | .stmts ss => (locals ss).map settled
  | _ => []

/-- What is warned of at the end of a part. -/
def advice : Part → List Warning
  | .routine _ r =>
    (earlyReturn? r.body).toList.map (⟨·, .unreachable⟩) ++ Scope.unused ((declarations r.params r.body).map settled)
  | .stmt (.block body) => Scope.unused ((locals body).map settled)
  | _ => []

/-- What is warned of in a part. -/
def warned (p : Part) : List Warning := p.within.flatMap advice

theorem warned_eq (p : Part) : warned p = p.children.flatMap warned ++ advice p := by
  rw [warned, within_eq, List.flatMap_append, List.flatMap_assoc, List.flatMap_singleton]
  rfl

theorem warned_of_silent {p : Part} (h : advice p = []) : warned p = p.children.flatMap warned := by
  rw [warned_eq, h, List.append_nil]

section Parts

variable {u : String → Bool} {A : Scope} {ws : List Warning} {a : Analysis Unit} {p : Part}

/-- An analysis that leaves what the part uses, declares and warns of. -/
theorem Leaves.part (h : Leaves u A ws a) (left : leftBy p = A) (warns : warned p = ws)
    (same : ∀ x, x ≠ "this" → (p.Uses x ↔ u x = true)) : Leaves (p.uses ·) (leftBy p) (warned p) a := by
  rw [left, warns]
  apply h.congr
  intro x hx
  rw [Bool.eq_iff_iff, uses_eq_true]
  exact same x hx

theorem any_uses {ps : List Part} {x : String} : ps.any (·.uses x) = true ↔ ∃ p ∈ ps, p.Uses x := by
  simp only [List.any_eq_true, uses_eq_true]

theorem leaves_analyses {ps : List Part} (h : ∀ p ∈ ps, Leaves (p.uses ·) [] (warned p) (analysis p)) :
    Leaves (fun x => ps.any (·.uses x)) [] (ps.flatMap warned) (analyses ps) := by
  induction ps with
  | nil => exact leaves_done
  | cons p ps ih =>
    rw [List.forall_mem_cons] at h
    exact h.1.andThen (ih h.2)

theorem names_leftBy (p : Part) : (leftBy p).map Entry.name = declaredNames p := by
  cases p with
  | expr e => rfl
  | routine kind r => rfl
  | stmt s => simp [leftBy, declaredNames, settled, entryOf]
  | stmts ss =>
    induction ss with
    | nil => rfl
    | cons s ss ih =>
      rw [leftBy, List.map_map] at ih
      simp [leftBy, locals, declaredNames, settled, entryOf, ih]

theorem leftBy_eq_nil (h : declaredNames p = []) : leftBy p = [] := by
  rw [← names_leftBy, List.map_eq_nil_iff] at h
  exact h

theorem ne_this_of_mem_leftBy (shaped : p.Shaped) : ∀ e ∈ leftBy p, e.name ≠ "this" := by
  intro e he same
  apply this_notMem_declaredNames shaped
  rw [← names_leftBy, ← same]
  exact List.mem_map_of_mem he

theorem has_leftBy (p : Part) (x : String) : (leftBy p).has x = decide (x ∈ declaredNames p) := by
  rw [Bool.eq_iff_iff, has_iff_mem, names_leftBy, decide_eq_true_iff]

theorem leaves_routine {kind : RoutineKind} {r : Routine} (shaped : (Part.routine kind r).Shaped)
    (body : Leaves ((Part.stmts r.body).uses ·) (leftBy (.stmts r.body)) (warned (.stmts r.body))
      (analysis (.stmts r.body))) :
    Leaves ((Part.routine kind r).uses ·) [] (warned (.routine kind r)) (analysis (.routine kind r)) := by
  have warns : Leaves ((Part.stmts r.body).uses ·) _ _ (do analysis (.stmts r.body); warnUnreachable r.body) :=
    (body.seq (leaves_warnUnreachable r.body) (ne_this_of_mem_leftBy (shaped.child (.head _)))).congr
      fun _ _ => by simp
  have plain (e : Entry) (he : e ∈ r.params.map (entryOf · false)) : e.name ≠ "this" := by
    obtain ⟨name, hn, rfl⟩ := List.mem_map.1 he
    exact shaped.tidy name hn
  have known : mark (r.params.map (entryOf · false)) ((Part.stmts r.body).uses ·) =
      (r.params.map (·, [Part.stmts r.body])).map settled := by
    rw [mark, List.map_map, List.map_map]
    apply List.map_congr_left
    intro name _
    cases h : (Part.stmts r.body).uses name.text <;> simp [settled, entryOf, h]
  have whole := ((leaves_parameters shaped.tidy).seq warns plain).withScope.withRoutine kind
  rw [mark_false, List.append_nil, known] at whole
  rw [analysis_routine]
  apply whole.part rfl
  · rw [warned_eq]
    simp [children, advice, declarations, leftBy]
  · intro x _
    rw [uses_routine, ← uses_eq_true]
    simp [Scope.has, entryOf]

theorem leaves_this (id : NodeId) (line : Nat) :
    Leaves (fun x => x = "this") [] [] (analysis (.expr (.this id line))) := by
  apply (leaves_bindNode id "this").of_agree
  intro c passes
  obtain ⟨scopes, routine, receiver, warnings, distances⟩ := c
  cases receiver with
  | object => rfl
  | none => cases passes
  | static => cases passes

/-- What comes later in a scope is among the uses of what is declared in it before. -/
theorem leftBy_cons (s : Stmt) (ss : List Stmt) :
    leftBy (.stmts (s :: ss)) = (leftBy (.stmt s)).mark ((Part.stmts ss).uses ·) ++ leftBy (.stmts ss) := by
  simp only [leftBy, locals, List.map_append]
  cases declared? s with
  | none => rfl
  | some name => simp [settled, mark_entryOf]

theorem leaves_analysis (p : Part) (shaped : p.Shaped) : Leaves (p.uses ·) (leftBy p) (warned p) (analysis p) := by
  induction p using Part.induct with
  | step p ih =>
    have below (q : Part) (hq : q ∈ p.children) : Leaves (q.uses ·) (leftBy q) (warned q) (analysis q) :=
      ih q hq (shaped.child hq)
    have quiet (ps : List Part) (sub : ∀ q ∈ ps, q ∈ p.children) (none : ∀ q ∈ ps, declaredNames q = []) :
        Leaves (fun x => ps.any (·.uses x)) [] (ps.flatMap warned) (analyses ps) :=
      leaves_analyses fun q hq => leftBy_eq_nil (none q hq) ▸ below q (sub q hq)
    cases p with
    | expr e =>
      have warns : warned (.expr e) = (exprChildren e).flatMap warned := warned_of_silent rfl
      by_cases hn : node? (.expr e) = none
      · rw [analysis_expr hn]
        apply (quiet (exprChildren e) (fun _ => id) declaredNames_exprChildren).part rfl warns
        intro x _
        rw [any_uses, uses_expr, hn]
        simp
      · cases e with
        | «variable» id name | suffix id name op =>
          apply ((leaves_checkInitialized name).andThen (leaves_bindNode id name.text)).part rfl warns
          simp [uses_expr, node?, exprChildren, eq_comm]
        | assign id name e =>
          apply ((below (.expr e) (.head _)).andThen (leaves_bindNode id name.text)).part rfl
          · rw [warns]
            simp [exprChildren]
          · intro x _
            rw [uses_expr, ← any_uses]
            simp [node?, exprChildren, or_comm, eq_comm (a := x)]
        | this id line =>
          apply (leaves_this id line).part rfl warns
          simp [uses_expr, node?, exprChildren, eq_comm]
        | _ => exact absurd rfl hn
    | routine kind r => exact leaves_routine shaped (below _ (.head _))
    | stmts ss =>
      have warns : warned (.stmts ss) = (children (.stmts ss)).flatMap warned := warned_of_silent rfl
      rw [analysis_stmts]
      cases ss with
      | nil =>
        apply leaves_done.part rfl warns
        simp [uses_stmts_nil]
      | cons s ss =>
        rw [children, analyses_cons, analyses_one]
        have first : .stmt s ∈ children (.stmts (s :: ss)) := .head _
        have rest : .stmts ss ∈ children (.stmts (s :: ss)) := .tail _ (.head _)
        apply ((below _ first).seq (below _ rest) (ne_this_of_mem_leftBy (shaped.child first))).part (leftBy_cons s ss)
        · rw [warns]
          simp [children]
        · simp [uses_stmts_cons, has_leftBy, uses_eq_true, declaredNames]
    | stmt s =>
      have named {name : Name} (hn : declared? s = some name) {x : String} : (Part.stmt s).Uses x ↔
          ((stmtChildren s).any (·.uses x) && decide (x ≠ name.text)) = true := by
        rw [Bool.and_eq_true, any_uses, uses_stmt, hn]
        simp [and_comm]
      have unnamed (hn : declared? s = none) {x : String} : (Part.stmt s).Uses x ↔
          (stmtChildren s).any (·.uses x) = true := by
        rw [any_uses, uses_stmt, hn]
        simp
      have exprs (e? : Option Expr) : ∀ q ∈ e?.toList.map Part.expr, declaredNames q = [] := by simp [declaredNames]
      have routines (f : Routine → RoutineKind) (rs : List Routine) :
          ∀ q ∈ rs.map fun r => Part.routine (f r) r, declaredNames q = [] := by simp [declaredNames]
      by_cases hs : isSimple s = true
      · obtain ⟨undeclared, none⟩ := undeclared_simple hs shaped.tidy
        rw [analysis_simple hs]
        apply (quiet (stmtChildren s) (fun _ => id) none).part
        · rw [leftBy, undeclared]
          rfl
        · apply warned_of_silent
          cases s with
          | block => cases hs
          | _ => rfl
        · exact fun x _ => unnamed undeclared
      · cases s with
        | var name e? =>
          rw [analysis_var]
          apply ((quiet (e?.toList.map .expr) (fun _ => id) (exprs e?)).var (shaped.tidy name rfl)).part rfl
          · exact warned_of_silent rfl
          · exact fun x _ => named rfl
        | block ss =>
          rw [analysis_block]
          apply (below _ (.head _)).withScope.part rfl
          · rw [warned_eq]
            simp [children, stmtChildren, advice, leftBy]
          · intro x _
            rw [unnamed rfl]
            simp [stmtChildren]
        | function r =>
          rw [analysis_function, ← analyses_one]
          apply ((quiet _ (fun _ => id) (by simp [children, stmtChildren, declaredNames])).named
            (shaped.tidy r.name rfl)).part rfl
          · exact warned_of_silent rfl
          · exact fun x _ => named rfl
        | «return» line e? =>
          apply ((quiet (e?.toList.map .expr) (fun _ => id) (exprs e?)).of_agree fun c passes =>
            (analysis_return passes).symm).part rfl
          · exact warned_of_silent rfl
          · exact fun x _ => unnamed rfl
        | «class» d =>
          rw [analysis_class]
          have mem {q : Part} : q ∈ children (.stmt (.class d)) ↔ (q ∈ d.base.toList.map Part.expr ∨
              q ∈ Part.statics d.statics) ∨ q ∈ Part.methods d.methods := by
            rw [children, stmtChildren, List.mem_append, List.mem_append]
          have base := quiet _ (fun q hq => mem.2 (.inl (.inl hq))) (exprs d.base)
          have statics := quiet _ (fun q hq => mem.2 (.inl (.inr hq))) (routines _ d.statics)
          have methods := quiet _ (fun q hq => mem.2 (.inr hq)) (routines _ d.methods)
          have within := base.andThen ((statics.withReceiver .static).andThen
            (methods.withReceiverScope.withReceiver .object))
          have whole := ((leaves_checkBase d.name d.base).andThen within).named (shaped.tidy d.name rfl)
          apply whole.part
          · simp [leftBy, settled, declared?, stmtChildren, Part.statics, Part.methods]
          · rw [warned_of_silent rfl]
            simp [children, stmtChildren, Part.statics, Part.methods]
          · intro x _
            rw [named rfl]
            simp [stmtChildren, Part.statics, Part.methods]
        | _ => exact absurd rfl hs

end Parts

end Scriptlet.Scope
