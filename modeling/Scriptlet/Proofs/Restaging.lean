import Scriptlet.Proofs.AnalysisAccord
import Scriptlet.Proofs.SiteNames

/-!
The analysis of names, when a variable has come to another stage of its life. Only a read in the variable's own scope
looks at the stage. Any other part goes the same way: one that does not use the variable leaves it at the other stage, and
one that does brings it to the same stage from wherever it was.
-/
namespace Scriptlet.Scope

open Analysis

section Move

variable {scope : Scope} {x y : String} (f g : Stage → Stage)

theorem has_move : (scope.move x f).has y = scope.has y := by
  rw [Bool.eq_iff_iff, has_iff_mem, has_iff_mem, names_move]

theorem move_of_not_has (h : scope.has x = false) : scope.move x f = scope := by
  unfold Scope.move
  refine (List.map_congr_left fun e he => ?_).trans (List.map_id scope)
  have other : e.name ≠ x := fun same => by
    rw [Scope.has, List.any_eq_false] at h
    exact h e he (decide_eq_true same)
  exact if_neg other

theorem move_move : (scope.move x f).move x g = scope.move x (g ∘ f) := by
  simp only [Scope.move, List.map_map]
  refine List.map_congr_left fun e _ => ?_
  by_cases h : e.name = x <;> simp [h]

theorem move_comm (h : y ≠ x) : (scope.move x f).move y g = (scope.move y g).move x f := by
  simp only [Scope.move, List.map_map]
  refine List.map_congr_left fun e _ => ?_
  by_cases hx : e.name = x
  · have hy : ¬ e.name = y := fun hy => h (hy.symm.trans hx)
    simp [hx, hx ▸ hy]
  · by_cases hy : e.name = y <;> simp [hx, hy, h]

theorem find?_move (h : y ≠ x) : (scope.move x f).find? y = scope.find? y := by
  unfold Scope.find? Scope.move
  induction scope with
  | nil => rfl
  | cons e scope ih =>
    rw [List.map_cons, List.find?_cons, List.find?_cons, ih]
    by_cases hx : e.name = x
    · have hy : ¬ x = y := fun hy => h hy.symm
      simp [hx, hy]
    · simp [hx]

end Move

/-- A variable of the scope so far out is at another stage. -/
def Context.restage (k : Nat) (x : String) (f : Stage → Stage) (c : Context) : Context :=
  { c with scopes := c.scopes.modify k (·.move x f) }

/-- The nearest variable of that name is so far out. -/
def Context.Sees (k : Nat) (x : String) (c : Context) : Prop := nearest x c.names = some k

section Lookup

variable {k : Nat} {x y : String}

theorem nearest_cons (ns : List String) (nss : List (List String)) :
    nearest x (ns :: nss) = if x ∈ ns then some 0 else (nearest x nss).map (· + 1) := by
  simp only [nearest, List.findIdx?_cons, decide_eq_true_eq]

/-- The nearest variable is marked as read, at whatever stage it was. -/
theorem lookup_restaged {scopes : List Scope} (f : Stage → Stage)
    (h : nearest x (scopes.map (·.map Entry.name)) = some k) :
    lookup x (scopes.modify k (·.move x f)) = lookup x scopes := by
  induction scopes generalizing k with
  | nil => cases h
  | cons scope outer ih =>
    rw [List.map_cons, nearest_cons] at h
    split at h
    · next here =>
      cases h
      have has : scope.has x = true := has_iff_mem.2 here
      simp only [List.modify_zero_cons, lookup, has_move, has, if_true, move_move]
      rfl
    · next away =>
      obtain ⟨k, hk, rfl⟩ := Option.map_eq_some_iff.1 h
      have has : ¬ scope.has x = true := mt has_iff_mem.1 away
      rw [List.modify_succ_cons, lookup, lookup, if_neg has, if_neg has, ih hk]

/-- Another variable is found as before. -/
theorem lookup_restage {scopes : List Scope} (f : Stage → Stage)
    (h : y ≠ x ∨ nearest x (scopes.map (·.map Entry.name)) ≠ some k) :
    lookup y (scopes.modify k (·.move x f)) =
      (lookup y scopes).map fun (d, scopes) => (d, scopes.modify k (·.move x f)) := by
  induction scopes generalizing k with
  | nil =>
    rw [List.modify_nil]
    rfl
  | cons scope outer ih =>
    rw [List.map_cons, nearest_cons] at h
    cases k with
    | zero =>
      rw [List.modify_zero_cons, lookup, lookup, has_move]
      by_cases has : scope.has y = true
      · have other : y ≠ x := by
          rintro rfl
          exact h.elim (absurd rfl) fun h => h (if_pos (has_iff_mem.1 has))
        rw [if_pos has, if_pos has, move_comm _ _ other]
        rfl
      · rw [if_neg has, if_neg has, Option.map_map]
        rfl
    | succ k =>
      rw [List.modify_succ_cons, lookup, lookup]
      by_cases has : scope.has y = true
      · rw [if_pos has, if_pos has]
        rfl
      · have inner : y ≠ x ∨ nearest x (outer.map (·.map Entry.name)) ≠ some k := by
          by_cases other : y = x
          · subst other
            refine .inr fun found => h.elim (absurd rfl) fun h => h ?_
            rw [if_neg (mt has_iff_mem.2 has), found]
            rfl
          · exact .inl other
        rw [if_neg has, if_neg has, ih inner, Option.map_map, Option.map_map]
        rfl

end Lookup

/-- The analysis goes the same way when the variable is at another stage, and leaves it there. -/
def Carries (k : Nat) (x : String) (a : Analysis Unit) (c : Context) : Prop :=
  ∀ f, a (c.restage k x f) = ((a c).1, (a c).2.restage k x f)

/-- The analysis goes the same way when the variable is at another stage, and brings it to the same one. -/
def Settles (k : Nat) (x : String) (a : Analysis Unit) (c : Context) : Prop :=
  ∀ f, (a (c.restage k x f)).1 = (a c).1 ∧ (Passes a c → after a (c.restage k x f) = after a c)

section Sequence

variable {k : Nat} {x : String} {a b : Analysis Unit} {c : Context}

theorem seq_of_fails (h : ¬ Passes a c) : (do a; b) c = a c := by
  change andThen a (fun _ => b) c = a c
  unfold andThen
  split
  · next d passed => exact absurd (congrArg Prod.fst passed) h
  · next e d failed => exact failed.symm

theorem seq_of_passes (h : Passes a c) : (do a; b) c = b (after a c) := by
  change andThen a (fun _ => b) c = _
  unfold andThen
  rw [passes_iff.1 h]

theorem Carries.result (h : Carries k x a c) (f : Stage → Stage) : (a (c.restage k x f)).1 = (a c).1 := by rw [h f]

theorem Carries.after (h : Carries k x a c) (f : Stage → Stage) :
    Scope.after a (c.restage k x f) = (Scope.after a c).restage k x f := by
  rw [Scope.after, h f]
  rfl

theorem Carries.seq (ha : Carries k x a c) (hb : Passes a c → Carries k x b (Scope.after a c)) : Carries k x (do a; b) c := by
  intro f
  by_cases passes : Passes a c
  · have passes' : Passes a (c.restage k x f) := (ha.result f).trans passes
    rw [seq_of_passes passes, seq_of_passes passes', ha.after]
    exact hb passes f
  · have fails' : ¬ Passes a (c.restage k x f) := fun passes' => passes ((ha.result f).symm.trans passes')
    rw [seq_of_fails passes, seq_of_fails fails']
    exact ha f

theorem Carries.settles (ha : Carries k x a c) (hb : Passes a c → Settles k x b (Scope.after a c)) :
    Settles k x (do a; b) c := by
  intro f
  by_cases passes : Passes a c
  · have passes' : Passes a (c.restage k x f) := (ha.result f).trans passes
    unfold Passes Scope.after
    rw [seq_of_passes passes, seq_of_passes passes', ha.after]
    exact hb passes f
  · have fails' : ¬ Passes a (c.restage k x f) := fun passes' => passes ((ha.result f).symm.trans passes')
    unfold Passes
    rw [seq_of_fails passes, seq_of_fails fails']
    exact ⟨ha.result f, fun passed => absurd passed passes⟩

/-- Once the variable is at the same stage, all goes on alike. -/
theorem Settles.seq (ha : Settles k x a c) (b : Analysis Unit) : Settles k x (do a; b) c := by
  intro f
  obtain ⟨result, same⟩ := ha f
  by_cases passes : Passes a c
  · have passes' : Passes a (c.restage k x f) := result.trans passes
    unfold Passes Scope.after
    rw [seq_of_passes passes, seq_of_passes passes', same passes]
    exact ⟨rfl, fun _ => rfl⟩
  · have fails' : ¬ Passes a (c.restage k x f) := fun passes' => passes (result.symm.trans passes')
    unfold Passes
    rw [seq_of_fails passes, seq_of_fails fails']
    exact ⟨result, fun passed => absurd passed passes⟩

end Sequence

/-- Where the variable is seen, an analysis that uses it brings it to the same stage, and any other leaves it alone. -/
def Marks (k : Nat) (x : String) (uses : Prop) (a : Analysis Unit) : Prop :=
  ∀ c, c.Sees k x → (¬ uses → Carries k x a c) ∧ (uses → Settles k x a c)

/-- Moreover the variable is left alone where it is not seen. -/
structure Tracks (k : Nat) (x : String) (uses : Prop) (a : Analysis Unit) : Prop where
  unseen : ∀ c, ¬ c.Sees k x → Carries k x a c
  marks : Marks k x uses a

section Laws

variable {k : Nat} {x : String} {u v : Prop} {a b : Analysis Unit} {ds : List String}

theorem Tracks.of_carries (h : ∀ c, Carries k x a c) : Tracks k x False a :=
  ⟨fun c _ => h c, fun c _ => ⟨fun _ => h c, False.elim⟩⟩

theorem Tracks.congr (h : Tracks k x u a) (same : v ↔ u) : Tracks k x v a := by
  rwa [propext same]

/-- Names that are added inside of a scope can hide a variable further out. -/
theorem sees_extend {c c' : Context} (names : c'.names = extend ds c.names) :
    c'.Sees (k + 1) x ↔ c.Sees (k + 1) x ∧ x ∉ ds := by
  unfold Context.Sees
  rw [names]
  rcases c.names with _ | ⟨ns, nss⟩
  · simp [extend, nearest]
  · simp only [extend, nearest_cons, List.mem_append]
    by_cases here : x ∈ ns <;> by_cases new : x ∈ ds <;> simp [here, new]

theorem Marks.seq (ha : Marks k x u a) (declares : Declares [] a) (hb : ¬ u → Marks k x v b) :
    Marks k x (u ∨ v) (do a; b) := by
  intro c sees
  obtain ⟨carries, settles⟩ := ha c sees
  have still (passes : Passes a c) : (after a c).Sees k x := by
    unfold Context.Sees
    rw [declares.names_after passes, extend_nil]
    exact sees
  constructor
  · intro unused
    obtain ⟨hu, hv⟩ := not_or.1 unused
    exact (carries hu).seq fun passes => (hb hu _ (still passes)).1 hv
  · intro used
    by_cases hu : u
    · exact (settles hu).seq b
    · exact (carries hu).settles fun passes => (hb hu _ (still passes)).2 (used.resolve_left hu)

/-- The second analysis comes to see the variable unless the first one declares its name. -/
theorem Tracks.seq (ha : Tracks (k + 1) x u a) (declares : Declares ds a) (hb : Tracks (k + 1) x v b) :
    Tracks (k + 1) x (u ∨ (x ∉ ds ∧ v)) (do a; b) := by
  have sees {c : Context} (passes : Passes a c) : (after a c).Sees (k + 1) x ↔ c.Sees (k + 1) x ∧ x ∉ ds :=
    sees_extend (declares.names_after passes)
  constructor
  · intro c unseen
    exact (ha.unseen c unseen).seq fun passes => hb.unseen _ fun h => unseen ((sees passes).1 h).1
  · intro c seen
    obtain ⟨carries, settles⟩ := ha.marks c seen
    constructor
    · intro unused
      obtain ⟨hu, hv⟩ := not_or.1 unused
      refine (carries hu).seq fun passes => ?_
      by_cases still : (after a c).Sees (k + 1) x
      · exact (hb.marks _ still).1 fun used => hv ⟨((sees passes).1 still).2, used⟩
      · exact hb.unseen _ still
    · intro used
      by_cases hu : u
      · exact (settles hu).seq b
      · obtain ⟨new, hv⟩ := used.resolve_left hu
        exact (carries hu).settles fun passes => (hb.marks _ ((sees passes).2 ⟨seen, new⟩)).2 hv

/-- The context when the innermost scope has been closed. -/
def Context.closed (c : Context) : Context :=
  { c with scopes := c.scopes.tail, warnings := c.warnings ++ (c.scopes.headD []).unused }

theorem withScope_eq (scope : Scope) (a : Analysis Unit) (c : Context) :
    withScope scope a c = ((a (c.inside scope)).1, (a (c.inside scope)).2.closed) := rfl

theorem closed_restage (c : Context) (f : Stage → Stage) : (c.restage (k + 1) x f).closed = c.closed.restage k x f := by
  obtain ⟨scopes, routine, receiver, warnings, distances⟩ := c
  cases scopes with
  | nil => simp [Context.restage, Context.closed]
  | cons scope outer => rfl

/-- An analysis between a way in and a way out. -/
theorem Tracks.inside {j : Nat} {i : Context → Context} {o : Context → Context → Context}
    (h : Tracks j x u a) (run : ∀ c, b c = ((a (i c)).1, o c (a (i c)).2))
    (sees : ∀ c, (i c).Sees j x ↔ c.Sees k x)
    (entered : ∀ c f, i (c.restage k x f) = (i c).restage j x f)
    (left : ∀ c d f, o (c.restage k x f) (d.restage j x f) = (o c d).restage k x f)
    (settled : ∀ c d f, o (c.restage k x f) d = o c d) : Tracks k x u b := by
  have carries {c : Context} (h : Carries j x a (i c)) : Carries k x b c := by
    intro f
    rw [run, run, entered, h f, left]
  refine ⟨fun c unseen => carries (h.unseen _ (mt (sees c).1 unseen)), fun c seen => ?_⟩
  obtain ⟨unused, used⟩ := h.marks _ ((sees c).2 seen)
  refine ⟨fun hu => carries (unused hu), fun hu f => ?_⟩
  obtain ⟨result, same⟩ := used hu f
  unfold Passes Scope.after
  rw [run, run, entered, settled]
  exact ⟨result, fun passes => congrArg (o c) (same passes)⟩

/-- A scope that opens moves all others further out. -/
theorem Tracks.withScope (h : Tracks (k + 1) x u a) (scope : Scope) (hx : x ∉ scope.map Entry.name) :
    Tracks k x u (withScope scope a) := by
  refine h.inside (o := fun _ => Context.closed) (withScope_eq scope a) (fun c => ?_) (fun _ _ => rfl)
    (fun _ d f => closed_restage d f) fun _ _ _ => rfl
  change nearest x (scope.map Entry.name :: c.names) = _ ↔ _
  rw [nearest_cons, if_neg hx]
  exact (Option.map_injective fun _ _ => Nat.succ.inj).eq_iff (b := some k)

theorem Tracks.withRoutine (h : Tracks k x u a) (kind : RoutineKind) : Tracks k x u (withRoutine kind a) :=
  h.inside (i := fun c => { c with routine := some kind }) (o := fun c d => { d with routine := c.routine })
    (fun _ => rfl) (fun _ => Iff.rfl) (fun _ _ => rfl) (fun _ _ _ => rfl) fun _ _ _ => rfl

theorem Tracks.withReceiver (h : Tracks k x u a) (receiver : Receiver) : Tracks k x u (withReceiver receiver a) :=
  h.inside (i := fun c => { c with receiver }) (o := fun c d => { d with receiver := c.receiver })
    (fun _ => rfl) (fun _ => Iff.rfl) (fun _ _ => rfl) (fun _ _ _ => rfl) fun _ _ _ => rfl

/-- What does not look at scopes decides in the same way. -/
theorem Tracks.choose {g : Context → Analysis Unit} (h : ∀ c, Tracks k x u (g c))
    (same : ∀ c f, g (c.restage k x f) = g c) : Tracks k x u (context >>= g) := by
  have run (c : Context) : (context >>= g) c = g c c := rfl
  have carries {c : Context} (h : Carries k x (g c) c) : Carries k x (context >>= g) c := by
    intro f
    rw [run, run, same]
    exact h f
  refine ⟨fun c unseen => carries ((h c).unseen c unseen), fun c seen => ?_⟩
  obtain ⟨unused, used⟩ := (h c).marks c seen
  refine ⟨fun hu => carries (unused hu), fun hu f => ?_⟩
  unfold Passes after
  rw [run, run, same]
  exact used hu f

end Laws

section Steps

variable {k : Nat} {x : String} {name : Name}

theorem tracks_done : Tracks k x False (done ()) := .of_carries fun _ _ => rfl

/-- What fails comes to no stage. -/
theorem tracks_fail {u : Prop} (place : Place) (fault : Fault) : Tracks k x u (fail place fault) := by
  refine ⟨fun _ _ _ => rfl, fun _ _ => ⟨fun _ _ => rfl, fun _ _ => ⟨rfl, ?_⟩⟩⟩
  rintro ⟨⟩

/-- Declarations look at the innermost scope only. -/
theorem tracks_declare : Tracks (k + 1) x False (declare name) := by
  refine .of_carries fun c f => ?_
  obtain ⟨scopes, routine, receiver, warnings, distances⟩ := c
  cases scopes with
  | nil => rfl
  | cons scope outer =>
    simp only [declare, Context.restage, List.modify_succ_cons]
    split <;> rfl

theorem tracks_define : Tracks (k + 1) x False (define name) := by
  refine .of_carries fun c f => ?_
  obtain ⟨scopes, routine, receiver, warnings, distances⟩ := c
  cases scopes <;> rfl

theorem innermostStage_restage {y : String} {c : Context} (f : Stage → Stage) (h : k ≠ 0 ∨ y ≠ x) :
    innermostStage y (c.restage k x f).scopes = innermostStage y c.scopes := by
  unfold innermostStage Context.restage
  rcases c.scopes with _ | ⟨scope, outer⟩
  · rw [List.modify_nil]
  · cases k with
    | zero => simp only [List.modify_zero_cons, List.head?_cons, Option.bind_some, find?_move f (h.resolve_left nofun)]
    | succ k => rfl

/-- A stage is looked at only in the innermost scope. -/
theorem tracks_checkInitialized (h : k ≠ 0 ∨ name.text ≠ x) : Tracks k x False (checkInitialized name) := by
  refine .of_carries fun c f => ?_
  rw [checkInitialized_eq, checkInitialized_eq, innermostStage_restage f h]
  split <;> rfl

theorem tracks_bindNode (id : NodeId) (y : String) : Tracks k x (y = x) (bindNode id y) := by
  have carries {c : Context} (h : y ≠ x ∨ ¬ c.Sees k x) : Carries k x (bindNode id y) c := by
    intro f
    unfold bindNode
    rw [Context.restage, lookup_restage f h]
    rcases lookup y c.scopes with _ | ⟨d, scopes⟩ <;> rfl
  refine ⟨fun c unseen => carries (.inr unseen), fun c seen => ⟨fun other => carries (.inl other), ?_⟩⟩
  rintro rfl f
  have same : bindNode id y (c.restage k y f) = bindNode id y c := by
    unfold bindNode
    rw [Context.restage, lookup_restaged f seen]
    rcases found : lookup y c.scopes with _ | ⟨d, scopes⟩
    · have missing := map_fst_lookup y c.scopes
      rw [found] at missing
      cases missing.trans seen
    · rfl
  unfold Passes after
  rw [same]
  exact ⟨rfl, fun _ => rfl⟩

theorem tracks_use (id : NodeId) : Tracks (k + 1) x (name.text = x) (do checkInitialized name; bindNode id name.text) :=
  ((tracks_checkInitialized (.inl (Nat.succ_ne_zero k))).seq (declares_checkInitialized name)
    (tracks_bindNode id name.text)).congr (by simp)

theorem tracks_parameters (ps : List Name) : Tracks (k + 1) x False (parameters ps) := by
  induction ps with
  | nil => exact tracks_done
  | cons p ps ih =>
    have rest := (tracks_define (x := x) (k := k)).seq (declares_define p) ih
    refine (tracks_declare.seq (declares_declare p) rest).congr ?_
    simp

theorem tracks_warnUnreachable (body : List Stmt) : Tracks k x False (warnUnreachable body) := by
  unfold warnUnreachable
  split
  · exact .of_carries fun _ _ => rfl
  · exact tracks_done

theorem tracks_checkBase (base : Option Expr) : Tracks k x False (checkBase name base) := by
  unfold checkBase
  split
  · split
    · exact tracks_fail _ _
    · exact tracks_done
  · exact tracks_done

end Steps

end Scriptlet.Scope

namespace Scriptlet.Part

/-- What a part below another one calls by the name is declared in between, and not what the name means outside. -/
def Shields (x : String) : Part → Part → Prop
  | .routine _ r, _ => x ∈ r.params.map Name.text
  | .stmt s, _ => x ∈ (declared? s).toList.map Name.text
  | .stmts (s :: _), .stmts _ => x ∈ (declared? s).toList.map Name.text
  | _, _ => False

/-- A part reads or writes the variable that the name means outside of it. -/
inductive Uses (x : String) : Part → Prop
  | node {p : Part} {id : NodeId} : p.node? = some (id, x) → Uses x p
  | child {p q : Part} : q ∈ p.children → ¬ Shields x p q → Uses x q → Uses x p

theorem uses_iff {x : String} {p : Part} :
    p.Uses x ↔ (∃ id, p.node? = some (id, x)) ∨ ∃ q ∈ p.children, ¬ Shields x p q ∧ q.Uses x := by
  constructor
  · rintro (node | ⟨mem, free, uses⟩)
    · exact .inl ⟨_, node⟩
    · exact .inr ⟨_, mem, free, uses⟩
  · rintro (⟨id, node⟩ | ⟨q, mem, free, uses⟩)
    · exact .node node
    · exact .child mem free uses

section Uses

variable {x : String}

theorem uses_expr {e : Expr} :
    (Part.expr e).Uses x ↔ (∃ id, (Part.expr e).node? = some (id, x)) ∨ ∃ q ∈ exprChildren e, q.Uses x := by
  rw [uses_iff]
  simp [children, Shields]

theorem uses_routine {kind : RoutineKind} {r : Routine} :
    (Part.routine kind r).Uses x ↔ x ∉ r.params.map Name.text ∧ (Part.stmts r.body).Uses x := by
  rw [uses_iff]
  simp [children, node?, Shields]

theorem uses_stmt {s : Stmt} :
    (Part.stmt s).Uses x ↔ x ∉ (declared? s).toList.map Name.text ∧ ∃ q ∈ stmtChildren s, q.Uses x := by
  rw [uses_iff]
  simp only [children, node?, Shields, reduceCtorEq, exists_false, false_or]
  constructor
  · rintro ⟨q, mem, free, uses⟩
    exact ⟨free, q, mem, uses⟩
  · rintro ⟨free, q, mem, uses⟩
    exact ⟨q, mem, free, uses⟩

theorem uses_stmts_nil : ¬ (Part.stmts []).Uses x := by
  rw [uses_iff]
  simp [children, node?]

theorem uses_stmts_cons {s : Stmt} {ss : List Stmt} :
    (Part.stmts (s :: ss)).Uses x ↔
      (Part.stmt s).Uses x ∨ x ∉ (declared? s).toList.map Name.text ∧ (Part.stmts ss).Uses x := by
  rw [uses_iff]
  simp [children, node?, Shields]

end Uses

end Scriptlet.Part

namespace Scriptlet.Scope

open Analysis
open Scriptlet.Part (children exprChildren stmtChildren node? declared? uses_expr uses_routine uses_stmt uses_stmts_nil
  uses_stmts_cons)

section Parts

variable {k : Nat} {x : String}

theorem tracks_analyses {ps : List Part} (h : ∀ p ∈ ps, Tracks (k + 1) x (p.Uses x) (analysis p))
    (declares : ∀ p ∈ ps, Declares [] (analysis p)) : Tracks (k + 1) x (∃ p ∈ ps, p.Uses x) (analyses ps) := by
  induction ps with
  | nil => exact tracks_done.congr (by simp)
  | cons p ps ih =>
    obtain ⟨first, others⟩ := List.forall_mem_cons.1 h
    obtain ⟨none, nones⟩ := List.forall_mem_cons.1 declares
    exact (first.seq none (ih others nones)).congr (by simp)

theorem tracks_named {u : Prop} {a : Analysis Unit} (h : Tracks (k + 1) x u a) (name : Name) :
    Tracks (k + 1) x (x ∉ [name.text] ∧ u) (do declare name; define name; a) :=
  (tracks_declare.seq (declares_declare name) (tracks_define.seq (declares_define name) h)).congr (by simp)

theorem tracks_routine {kind : RoutineKind} {r : Routine} (shaped : (Part.stmts r.body).Shaped)
    (body : Tracks (k + 1) x ((Part.stmts r.body).Uses x) (analysis (.stmts r.body))) :
    Tracks k x ((Part.routine kind r).Uses x) (analysis (.routine kind r)) := by
  rw [analysis_routine]
  have warned := body.seq (declares_analysis _ shaped) (tracks_warnUnreachable r.body)
  have whole := (tracks_parameters r.params).seq (declares_parameters r.params) warned
  exact ((whole.withScope [] List.not_mem_nil).withRoutine kind).congr (by simp [uses_routine])

theorem tracks_this (id : NodeId) (line : Nat) (hx : x ≠ "this") :
    Tracks k x ((Part.expr (.this id line)).Uses x) (analysis (.expr (.this id line))) := by
  have other : ("this" = x) ↔ False := iff_of_false (fun same => hx same.symm) not_false
  refine (Tracks.choose (u := False) (fun c => ?_) fun _ _ => rfl).congr
    (by simp [uses_expr, node?, exprChildren, other])
  split
  · exact tracks_fail _ _
  · exact tracks_fail _ _
  · exact (tracks_bindNode id "this").congr other.symm

theorem tracks_return {line : Nat} {e? : Option Expr} {u : Prop}
    (h : Tracks k x u (analyses (e?.toList.map .expr))) : Tracks k x u (analysis (.stmt (.return line e?))) := by
  refine Tracks.choose (fun c => ?_) fun _ _ => rfl
  split
  · exact tracks_fail _ _
  · exact tracks_fail _ _
  · rw [optional_eq]
    exact h

theorem undeclared_simple {s : Stmt} (hs : isSimple s = true) (tidy : (Part.stmt s).Tidy) :
    declared? s = none ∧ ∀ q ∈ stmtChildren s, declaredNames q = [] := by
  cases s with
  | expression | print | conditional | loop => exact ⟨rfl, declaredNames_plain trivial tidy⟩
  | «break» | «continue» => exact ⟨rfl, nofun⟩
  | _ => cases hs

/-- In a part further in, nothing depends on the stage of the variable. -/
theorem tracks_analysis (p : Part) (shaped : p.Shaped) (hx : x ≠ "this") :
    Tracks (k + 1) x (p.Uses x) (analysis p) := by
  induction p using Part.induct generalizing k with
  | step p ih =>
    have below {k : Nat} (q : Part) (hq : q ∈ p.children) : Tracks (k + 1) x (q.Uses x) (analysis q) :=
      ih q hq (shaped.child hq)
    have declares (q : Part) (hq : q ∈ p.children) : Declares (declaredNames q) (analysis q) :=
      declares_analysis q (shaped.child hq)
    have quiet {k : Nat} (ps : List Part) (sub : ∀ q ∈ ps, q ∈ p.children) (none : ∀ q ∈ ps, declaredNames q = []) :
        Tracks (k + 1) x (∃ q ∈ ps, q.Uses x) (analyses ps) ∧ Declares [] (analyses ps) :=
      ⟨tracks_analyses (fun q hq => below q (sub q hq)) fun q hq => none q hq ▸ declares q (sub q hq),
        declares_analyses_nil (fun q hq => declares q (sub q hq)) none⟩
    cases p with
    | expr e =>
      by_cases hn : node? (.expr e) = none
      · rw [analysis_expr hn]
        exact (quiet (exprChildren e) (fun _ => id) declaredNames_exprChildren).1.congr (by simp [uses_expr, hn])
      · cases e with
        | «variable» id name | suffix id name op =>
          exact (tracks_use id).congr (by simp [uses_expr, node?, exprChildren])
        | assign id name e =>
          have value : .expr e ∈ children (.expr (.assign id name e)) := .head _
          exact ((below _ value).seq (declares _ value) (tracks_bindNode id name.text)).congr
            (by simp [uses_expr, node?, exprChildren, declaredNames, or_comm])
        | this id line => exact tracks_this id line hx
        | _ => exact absurd rfl hn
    | routine kind r => exact tracks_routine (shaped.child (.head _)) (below _ (.head _))
    | stmts ss =>
      rw [analysis_stmts]
      cases ss with
      | nil => exact tracks_done.congr (by simp [uses_stmts_nil])
      | cons s ss =>
        rw [children, analyses_cons, analyses_one]
        have first : .stmt s ∈ children (.stmts (s :: ss)) := .head _
        have rest : .stmts ss ∈ children (.stmts (s :: ss)) := .tail _ (.head _)
        exact ((below _ first).seq (declares _ first) (below _ rest)).congr uses_stmts_cons
    | stmt s =>
      by_cases hs : isSimple s = true
      · obtain ⟨undeclared, none⟩ := undeclared_simple hs shaped.tidy
        rw [analysis_simple hs]
        exact (quiet (stmtChildren s) (fun _ => id) none).1.congr (by simp [uses_stmt, undeclared])
      · have exprs (e? : Option Expr) : ∀ q ∈ e?.toList.map Part.expr, declaredNames q = [] := by simp [declaredNames]
        have routines (f : Routine → RoutineKind) (rs : List Routine) :
            ∀ q ∈ rs.map fun r => Part.routine (f r) r, declaredNames q = [] := by simp [declaredNames]
        cases s with
        | var name e? =>
          rw [analysis_var]
          obtain ⟨tracks, none⟩ := quiet (k := k) (e?.toList.map .expr) (fun _ => id) (exprs e?)
          exact (tracks_declare.seq (declares_declare name) (tracks.seq none tracks_define)).congr
            (by simp [uses_stmt, declared?, stmtChildren])
        | block ss =>
          rw [analysis_block]
          exact ((below _ (.head _)).withScope [] List.not_mem_nil).congr
            (by simp [uses_stmt, declared?, stmtChildren])
        | function r =>
          rw [analysis_function]
          exact (tracks_named (below _ (.head _)) r.name).congr (by simp [uses_stmt, declared?, stmtChildren])
        | «return» line e? =>
          exact (tracks_return (quiet (e?.toList.map .expr) (fun _ => id) (exprs e?)).1).congr
            (by simp [uses_stmt, declared?, stmtChildren])
        | «class» d =>
          rw [analysis_class]
          have mem {q : Part} : q ∈ children (.stmt (.class d)) ↔ (q ∈ d.base.toList.map Part.expr ∨
              q ∈ Part.statics d.statics) ∨ q ∈ Part.methods d.methods := by
            rw [children, stmtChildren, List.mem_append, List.mem_append]
          obtain ⟨base, noBase⟩ := quiet (k := k) _ (fun q hq => mem.2 (.inl (.inl hq))) (exprs d.base)
          obtain ⟨statics, noStatics⟩ := quiet (k := k) _ (fun q hq => mem.2 (.inl (.inr hq))) (routines _ d.statics)
          obtain ⟨methods, -⟩ := quiet (k := k + 1) _ (fun q hq => mem.2 (.inr hq)) (routines _ d.methods)
          have last := (methods.withScope receiverScope (by simpa [receiverScope] using hx)).withReceiver .object
          have within := base.seq noBase ((statics.withReceiver .static).seq (noStatics.withReceiver .static) last)
          have whole := (tracks_checkBase d.base).seq (declares_checkBase d.name d.base) within
          refine (tracks_named whole d.name).congr ?_
          simp only [uses_stmt, declared?, stmtChildren, Option.toList_some, List.map_cons, List.map_nil, List.mem_append,
            or_and_right, exists_or, List.not_mem_nil, not_false_eq_true, true_and, false_or, or_assoc, Part.statics,
            Part.methods]
        | _ => exact absurd rfl hs

end Parts

end Scriptlet.Scope
