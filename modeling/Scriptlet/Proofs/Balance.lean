import Scriptlet.Proofs.Sites

/-!
What the analysis of names leaves behind in any case, whether it passes or stops at a fault somewhere deep inside. The
scopes that it opens are closed again, it comes back to the routine and the class body that it was in, and the scopes
around are those that there were: only the innermost one may have more variables, namely those that the statement
declares. The life of a variable moves forward with every single operation on it.
-/
namespace Scriptlet

open Scriptlet.Part (declared?)

namespace Scope

open Analysis
open Scriptlet.Part (children exprChildren stmtChildren node? Shaped)

/-- How far a variable has come in its life. -/
def Stage.rank : Stage → Nat
  | .declared => 0
  | .defined => 1
  | .read => 2

/-- The variable of a name in the scope that is so far out. -/
def Context.named? (c : Context) (depth : Nat) (x : String) : Option Entry := c.scopes[depth]?.bind (·.find? x)

/-- From one context to the other the surroundings are the same, the innermost scope has got some of the names, and every
variable is still there and has not gone back in its life. -/
structure Balanced (ds : List String) (c c' : Context) : Prop where
  depth : c'.scopes.length = c.scopes.length
  routine : c'.routine = c.routine
  receiver : c'.receiver = c.receiver
  names : ∃ new, new.Sublist ds ∧ c'.names = extend new c.names
  forward : ∀ i x e, c.named? i x = some e →
    ∃ e', c'.named? i x = some e' ∧ e'.place = e.place ∧ e.stage.rank ≤ e'.stage.rank

namespace Balanced

variable {ds es : List String} {c c' c'' : Context}

theorem refl (c : Context) : Balanced [] c c where
  depth := rfl
  routine := rfl
  receiver := rfl
  names := ⟨[], List.Sublist.refl _, (extend_nil _).symm⟩
  forward _ _ e he := ⟨e, he, rfl, Nat.le_refl _⟩

/-- Warnings and distances do not count. -/
theorem of_eq (scopes : c'.scopes = c.scopes) (routine : c'.routine = c.routine) (receiver : c'.receiver = c.receiver) :
    Balanced [] c c' where
  depth := by rw [scopes]
  routine := routine
  receiver := receiver
  names := ⟨[], List.Sublist.refl _, by rw [extend_nil, Context.names, scopes, Context.names]⟩
  forward i x e he := ⟨e, by rwa [Context.named?, scopes], rfl, Nat.le_refl _⟩

theorem mono (h : Balanced ds c c') (more : ds.Sublist es) : Balanced es c c' := by
  obtain ⟨new, declared, names⟩ := h.names
  exact { h with names := ⟨new, declared.trans more, names⟩ }

theorem trans (h : Balanced ds c c') (h' : Balanced es c' c'') : Balanced (ds ++ es) c c'' where
  depth := h'.depth.trans h.depth
  routine := h'.routine.trans h.routine
  receiver := h'.receiver.trans h.receiver
  names := by
    obtain ⟨new, declared, names⟩ := h.names
    obtain ⟨new', declared', names'⟩ := h'.names
    exact ⟨new ++ new', declared.append declared', by rw [names', names, extend_extend]⟩
  forward i x e he := by
    obtain ⟨e', he', place, rank⟩ := h.forward i x e he
    obtain ⟨e'', he'', place', rank'⟩ := h'.forward i x e' he'
    exact ⟨e'', he'', place'.trans place, Nat.le_trans rank rank'⟩

/-- When a scope has been closed, those around it are as they were. -/
theorem closed {scope : Scope} (h : Balanced ds (c.inside scope) c') (warnings : List Warning) :
    Balanced [] c { c' with scopes := c'.scopes.tail, warnings := warnings } where
  depth := by
    have depth : c'.scopes.length = c.scopes.length + 1 := h.depth
    rw [List.length_tail]
    omega
  routine := h.routine
  receiver := h.receiver
  names := by
    obtain ⟨new, -, names⟩ := h.names
    refine ⟨[], List.Sublist.refl _, ?_⟩
    have names : c'.names = (scope.map Entry.name ++ new) :: c.names := names
    rw [extend_nil, Context.names, List.map_tail]
    exact congrArg List.tail names
  forward i x e he := by
    have inner : (c.inside scope).named? (i + 1) x = some e := he
    obtain ⟨e', he', told⟩ := h.forward (i + 1) x e inner
    refine ⟨e', ?_, told⟩
    rw [Context.named?, List.getElem?_tail]
    exact he'

end Balanced

/-- Whatever comes of it, the analysis leaves a balanced context. -/
def Balances {α : Type} (ds : List String) (a : Analysis α) : Prop := ∀ c, Balanced ds c (a c).2

section Laws

variable {α β : Type} {ds es : List String}

theorem balances_pure (x : α) : Balances [] (pure x : Analysis α) := fun c => .refl c

theorem balances_fail (place : Place) (fault : Fault) : Balances [] (fail place fault : Analysis α) := fun c => .refl c

theorem balances_context : Balances [] context := fun c => .refl c

theorem balances_warn (w : Warning) : Balances [] (warn w) := fun _ => .of_eq rfl rfl rfl

/-- Where the first analysis stops, the second adds nothing. -/
theorem Balances.bind {a : Analysis α} {f : α → Analysis β} (ha : Balances ds a) (hf : ∀ x, Balances es (f x)) :
    Balances (ds ++ es) (a >>= f) := by
  intro c
  have first := ha c
  change Balanced _ c (andThen a f c).2
  unfold andThen
  split
  · next x d passed =>
    rw [passed] at first
    exact first.trans (hf x d)
  · next e d failed =>
    rw [failed] at first
    exact first.mono (List.sublist_append_left ds es)

theorem Balances.withScope {a : Analysis Unit} (ha : Balances ds a) (scope : Scope) : Balances [] (withScope scope a) :=
  fun c => (ha (c.inside scope)).closed _

theorem Balances.withRoutine {a : Analysis Unit} (ha : Balances ds a) (kind : RoutineKind) :
    Balances ds (withRoutine kind a) := by
  intro c
  have inner := ha { c with routine := some kind }
  exact { inner with routine := rfl }

theorem Balances.withReceiver {a : Analysis Unit} (ha : Balances ds a) (receiver : Receiver) :
    Balances ds (withReceiver receiver a) := by
  intro c
  have inner := ha { c with receiver }
  exact { inner with receiver := rfl }

end Laws

section Operations

theorem find?_move_all (scope : Scope) (x y : String) (f : Stage → Stage) :
    (scope.move x f).find? y =
      (scope.find? y).map fun e => if e.name = x then { e with stage := f e.stage } else e := by
  unfold Scope.find? Scope.move
  rw [List.find?_map]
  congr 2
  funext e
  simp only [Function.comp]
  split <;> rfl

/-- Moving a variable forward moves nothing back. -/
theorem forward_move {scope : Scope} {f : Stage → Stage} (forward : ∀ stage : Stage, stage.rank ≤ (f stage).rank)
    (x : String) {y : String} {e : Entry} (he : scope.find? y = some e) :
    ∃ e', (scope.move x f).find? y = some e' ∧ e'.place = e.place ∧ e.stage.rank ≤ e'.stage.rank := by
  rw [find?_move_all, he]
  refine ⟨_, rfl, ?_⟩
  dsimp only
  split
  · exact ⟨rfl, forward e.stage⟩
  · exact ⟨rfl, Nat.le_refl _⟩

/-- A change of the innermost scope. -/
theorem balanced_innermost {ds : List String} {c : Context} {scope scope' : Scope} {outer : List Scope}
    (hs : c.scopes = scope :: outer) (names : ∃ new, new.Sublist ds ∧ scope'.map Entry.name = scope.map Entry.name ++ new)
    (forward : ∀ x e, scope.find? x = some e →
      ∃ e', scope'.find? x = some e' ∧ e'.place = e.place ∧ e.stage.rank ≤ e'.stage.rank) :
    Balanced ds c { c with scopes := scope' :: outer } where
  depth := by rw [hs]; rfl
  routine := rfl
  receiver := rfl
  names := by
    obtain ⟨new, declared, grown⟩ := names
    refine ⟨new, declared, ?_⟩
    simp only [Context.names, hs, List.map_cons, grown, extend]
  forward i x e he := by
    rw [Context.named?, hs] at he
    cases i with
    | zero => exact forward x e he
    | succ i => exact ⟨e, he, rfl, Nat.le_refl _⟩

theorem balances_declare (name : Name) : Balances [name.text] (declare name) := by
  intro c
  unfold declare
  split
  · exact (Balanced.refl c).mono (List.nil_sublist _)
  · next scope outer hs =>
    split
    · exact (Balanced.refl c).mono (List.nil_sublist _)
    · refine balanced_innermost hs ⟨[name.text], List.Sublist.refl _, by simp⟩ fun x e he => ⟨e, ?_, rfl, Nat.le_refl _⟩
      have found : List.find? (fun e => decide (e.name = x)) scope = some e := he
      rw [Scope.find?, List.find?_append, found]
      rfl

theorem Stage.rank_define (stage : Stage) : stage.rank ≤ stage.define.rank := by cases stage <;> decide

theorem balances_define (name : Name) : Balances [] (define name) := by
  intro c
  unfold define
  split
  · exact .refl c
  · next scope outer hs =>
    refine balanced_innermost hs ⟨[], List.Sublist.refl _, ?_⟩ fun x e he => forward_move Stage.rank_define _ he
    rw [names_move, List.append_nil]

theorem balances_checkInitialized (name : Name) : Balances [] (checkInitialized name) := by
  intro c
  unfold checkInitialized
  split <;> exact .refl c

theorem Stage.rank_read (stage : Stage) : stage.rank ≤ Stage.read.rank := by cases stage <;> decide

/-- To look a name up moves one variable, in the nearest scope that has the name. -/
theorem forward_lookup {x y : String} {scopes scopes' : List Scope} {d i : Nat} {e : Entry}
    (found : lookup x scopes = some (d, scopes')) (he : scopes[i]?.bind (·.find? y) = some e) :
    ∃ e', scopes'[i]?.bind (·.find? y) = some e' ∧ e'.place = e.place ∧ e.stage.rank ≤ e'.stage.rank := by
  induction scopes generalizing d scopes' i with
  | nil => cases found
  | cons scope outer ih =>
    unfold lookup at found
    split at found
    · cases found
      cases i with
      | zero => exact forward_move (fun stage => stage.rank_read) x he
      | succ i => exact ⟨e, he, rfl, Nat.le_refl _⟩
    · obtain ⟨⟨d', outer'⟩, inner, same⟩ := Option.map_eq_some_iff.1 found
      cases same
      cases i with
      | zero => exact ⟨e, he, rfl, Nat.le_refl _⟩
      | succ i =>
        have further : outer[i]?.bind (·.find? y) = some e := he
        have later := ih inner further
        exact later

theorem balances_bindNode (id : NodeId) (x : String) : Balances [] (bindNode id x) := by
  intro c
  unfold bindNode
  split
  · exact .refl c
  · next d scopes found =>
    have names := names_lookup found
    refine ⟨?_, rfl, rfl, ⟨[], List.Sublist.refl _, names.trans (extend_nil _).symm⟩, fun i y e => forward_lookup found⟩
    have lengths := congrArg List.length names
    rwa [List.length_map, List.length_map] at lengths

theorem balances_warnUnreachable (body : List Stmt) : Balances [] (warnUnreachable body) := by
  unfold warnUnreachable
  split
  · exact balances_warn _
  · exact balances_pure ()

end Operations

/-- Every part leaves a balanced context, whatever comes of its analysis. -/
theorem balances_analysis (p : Part) : Balances p.declares (analysis p) := by
  have law : Congruence .unlined (fun _ => True) fun ds a _ => Balances ds a := {
    done := balances_pure ()
    bind := fun ha hb => ha.bind fun _ => hb
    fail := fun _ _ _ => balances_fail _ _
    choose := fun hf => balances_context.bind fun c => hf c c rfl rfl
    withScope := fun scope ha => ha.withScope scope
    withRoutine := fun kind ha => ha.withRoutine kind
    withReceiver := fun receiver ha => ha.withReceiver receiver
    declare := balances_declare
    define := balances_define
    checkInitialized := balances_checkInitialized
    bindNode := fun x _ => balances_bindNode _ x
    warnUnreachable := balances_warnUnreachable }
  exact law.analysis p fun _ _ => trivial

/-- The analysis is balanced on every outcome: from whatever context it starts, and whether it passes or stops at a fault
at any depth, an expression or a statement leaves as many scopes open as there were, in the same routine and the same
class body. The scopes around the innermost keep exactly their names; the innermost gets at most the names that the
statement declares, which is one at most in a program of the grammar. No variable goes back in its life, neither in all
of that nor by any of the operations on variables that it consists of. -/
theorem analysis_balanced :
    (∀ e c, Balanced [] c (expr e c).2) ∧
    (∀ s c, Balanced s.declares c (stmt s c).2) ∧
    (∀ s, (Part.stmt s).Shaped → s.declares = (declared? s).toList.map Name.text) ∧
    (∀ name c, Balanced [name.text] c (declare name c).2) ∧
    (∀ name c, Balanced [] c (define name c).2) ∧
    ∀ id x c, Balanced [] c (bindNode id x c).2 :=
  ⟨fun e => balances_analysis (.expr e), fun s => balances_analysis (.stmt s), fun s => declares_of_shaped (.stmt s),
    balances_declare, balances_define, balances_bindNode⟩

end Scope

end Scriptlet
