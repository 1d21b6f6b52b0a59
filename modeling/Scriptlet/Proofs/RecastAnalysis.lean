import Mathlib.Data.List.Forall2
import Scriptlet.Proofs.AnalysisAccord
import Scriptlet.Proofs.Recast
import Scriptlet.Proofs.Sites

/-!
The analysis of names in programs where a local variable has another name. If the distances that a recasting goes by are
those that the analysis finds, and nothing has the new name yet, then the analysis of the recast program takes the same
way: it passes, finds the same distances, and warns of the same but for the name.
-/
namespace Scriptlet

/-- The names that a part itself, without the parts below it, gives or uses for variables. -/
def Part.mentions : Part → List String
  | .routine _ r => r.params.map Name.text
  | .stmt s => (declared? s).toList.map Name.text
  | p => p.node?.toList.map Prod.snd

/-- All names in a part that are given or used for variables. -/
def Part.names (p : Part) : List String :=
  p.mentions ++ p.children.attach.flatMap fun q => names q.1
termination_by p.size
decreasing_by exact size_lt_of_mem_children q.2

theorem Part.names_eq (p : Part) : p.names = p.mentions ++ p.children.flatMap names := by
  rw [names, List.flatMap_subtype (g := names) (by simp), List.unattach_attach]

section Names

variable {x : String} {p q : Part}

theorem Part.notMem_mentions (h : x ∉ p.names) : x ∉ p.mentions := by
  rw [names_eq] at h
  exact fun mem => h (List.mem_append_left _ mem)

theorem Part.notMem_child (h : x ∉ p.names) (hq : q ∈ p.children) : x ∉ q.names := by
  rw [names_eq] at h
  exact fun mem => h (List.mem_append_right _ (List.mem_flatMap.2 ⟨q, hq, mem⟩))

end Names

/-- Places that are the same but for the name quoted there. -/
def Place.Twin (old new : String) (p p' : Place) : Prop :=
  p'.line = p.line ∧ (p'.near = p.near ∨ p.near = some old ∧ p'.near = some new)

theorem Recasting.eq_of_word_eq {R : Recasting} {b b' : Bool} {x y : String} (hx : x ≠ R.new) (hy : y ≠ R.new)
    (h : R.word b x = R.word b' y) : x = y := by
  rcases R.word_cases b fun _ => hx with hx' | ⟨rfl, hx'⟩ <;> rcases R.word_cases b' fun _ => hy with hy' | ⟨rfl, hy'⟩
  · rw [← hx', h, hy']
  · exact absurd (hx'.symm.trans (h.trans hy')) hx
  · exact absurd (hy'.symm.trans (h.symm.trans hx')) hy
  · rfl

theorem Recasting.declare_eq {R : Recasting} {b : Bool} {name : Name} (h : R.word b name.text = name.text) :
    R.declare b name = name := by
  rw [declare, h]

theorem Recasting.place_declare {R : Recasting} (b : Bool) {name : Name} (fresh : name.text ≠ R.new) :
    Place.Twin R.old R.new name.place (R.declare b name).place := by
  refine ⟨rfl, ?_⟩
  rcases R.word_cases b fun _ => fresh with same | ⟨old, new⟩
  · exact .inl (congrArg some same)
  · exact .inr ⟨congrArg some old, congrArg some new⟩

namespace Scope

open Analysis
open Scriptlet.Part (children exprChildren stmtChildren idsOf)

def Warning.Twin (old new : String) (w w' : Warning) : Prop := w.place.Twin old new w'.place ∧ w'.advice = w.advice

structure Entry.Twin (R : Recasting) (b : Bool) (e e' : Entry) : Prop where
  fresh : e.name ≠ R.new
  name : e'.name = R.word b e.name
  place : Option.Rel (Place.Twin R.old R.new) e.place e'.place
  stage : e'.stage = e.stage

/-- Scopes that have the same variables, whose names are changed in the second one if it is marked. -/
abbrev Twin (R : Recasting) (b : Bool) (scope scope' : Scope) : Prop := List.Forall₂ (Entry.Twin R b) scope scope'

section Scopes

variable {R : Recasting} {b : Bool} {bs : List Bool} {scope scope' : Scope} {scopes scopes' : List Scope} {x : String}

theorem Entry.Twin.name_iff {e e' : Entry} (h : e.Twin R b e') (x : String) : e'.name = R.word b x ↔ e.name = x := by
  rw [h.name]
  exact (R.word_injective b).eq_iff

theorem Twin.names (h : Twin R b scope scope') : scope'.map Entry.name = (scope.map Entry.name).map (R.word b) := by
  induction h with
  | nil => rfl
  | cons head _ ih => rw [List.map_cons, List.map_cons, List.map_cons, ih, head.name]

theorem Twin.fresh (h : Twin R b scope scope') : R.new ∉ scope.map Entry.name := by
  induction h with
  | nil => exact List.not_mem_nil
  | cons head _ ih => exact List.not_mem_cons_of_ne_of_not_mem head.fresh.symm ih

theorem Twin.has (h : Twin R b scope scope') (x : String) : scope'.has (R.word b x) = scope.has x := by
  rw [Bool.eq_iff_iff, has_iff_mem, has_iff_mem, h.names, List.mem_map_of_injective (R.word_injective b)]

/-- However a name is spelled, it is not met with another one. -/
theorem Twin.has_eq_false (h : Twin R b scope scope') (hx : x ≠ R.new) (absent : scope.has x = false) (m : Bool) :
    scope'.has (R.word m x) = false := by
  rw [Bool.eq_false_iff, Ne, has_iff_mem] at absent ⊢
  intro present
  rw [h.names] at present
  obtain ⟨y, hy, same⟩ := List.mem_map.1 present
  obtain rfl := R.eq_of_word_eq (ne_of_mem_of_not_mem hy h.fresh) hx same
  exact absent hy

theorem Twin.move (h : Twin R b scope scope') (x : String) (change : Stage → Stage) :
    Twin R b (scope.move x change) (scope'.move (R.word b x) change) := by
  refine List.forall₂_map_left_iff.2 (List.forall₂_map_right_iff.2 (h.imp fun e e' he => ?_))
  simp only [he.name_iff x]
  split
  · exact ⟨he.fresh, he.name, he.place, congrArg change he.stage⟩
  · exact he

theorem Twin.stage (h : Twin R b scope scope') (x : String) :
    (scope'.find? (R.word b x)).map Entry.stage = (scope.find? x).map Entry.stage := by
  induction h with
  | nil => rfl
  | cons head _ ih =>
    simp only [find?, List.find?_cons, head.name_iff x] at ih ⊢
    split
    · exact congrArg some head.stage
    · exact ih

/-- Open scopes, of which a list tells which are marked. -/
inductive Scopes.Twin (R : Recasting) : List Bool → List Scope → List Scope → Prop
  | nil : Twin R [] [] []
  | cons {b : Bool} {bs : List Bool} {scope scope' : Scope} {scopes scopes' : List Scope} :
      Scope.Twin R b scope scope' → Twin R bs scopes scopes' → Twin R (b :: bs) (scope :: scopes) (scope' :: scopes')

theorem Scopes.Twin.lookup_eq_none (h : Scopes.Twin R bs scopes scopes') (hx : x ≠ R.new)
    (absent : lookup x scopes = none) : lookup x scopes' = none := by
  induction h with
  | nil => rfl
  | @cons b bs scope scope' scopes scopes' head tail ih =>
    rw [lookup] at absent ⊢
    split at absent
    · cases absent
    · next here =>
      have here' : scope'.has x = false := head.has_eq_false hx (Bool.eq_false_iff.2 here) false
      rw [here', ih (Option.map_eq_none_iff.1 absent)]
      rfl

/-- Spelled as in the scope where it is found, a name is found in the same scope. -/
theorem Scopes.Twin.lookup_eq_some (h : Scopes.Twin R bs scopes scopes') (hx : x ≠ R.new) {k : Nat}
    {found : List Scope} (present : lookup x scopes = some (k, found)) :
    ∃ found', lookup (R.word (markedAt bs (some k)) x) scopes' = some (k, found') ∧ Scopes.Twin R bs found found' := by
  induction h generalizing k found with
  | nil => cases present
  | @cons b bs scope scope' scopes scopes' head tail ih =>
    rw [lookup] at present
    split at present
    · next here =>
      cases present
      have here' : scope'.has (R.word b x) = true := (head.has x).trans here
      refine ⟨scope'.move (R.word b x) (fun _ => .read) :: scopes', ?_, .cons (head.move x _) tail⟩
      change lookup (R.word b x) (scope' :: scopes') = _
      rw [lookup, here']
      rfl
    · next here =>
      obtain ⟨⟨k, outer⟩, there, same⟩ := Option.map_eq_some_iff.1 present
      cases same
      obtain ⟨outer', there', twin⟩ := ih there
      have here' := head.has_eq_false hx (Bool.eq_false_iff.2 here) (markedAt bs (some k))
      refine ⟨scope' :: outer', ?_, .cons head twin⟩
      change lookup (R.word (markedAt bs (some k)) x) (scope' :: scopes') = _
      rw [lookup, here', there']
      rfl

theorem find?_eq_none_of_has {scope : Scope} (h : scope.has x = false) : scope.find? x = none := by
  simpa [has, find?] using h

/-- The innermost scope has a name that is spelled so only if it has the name itself, and at the same stage. -/
theorem Scopes.Twin.stage (h : Scopes.Twin R bs scopes scopes') (hx : x ≠ R.new) :
    innermostStage (R.word (markedAt bs ((lookup x scopes).map Prod.fst)) x) scopes' = innermostStage x scopes := by
  cases h with
  | nil => rfl
  | @cons b bs scope scope' scopes scopes' head tail =>
    change ((scope'.find? _).map Entry.stage) = (scope.find? x).map Entry.stage
    cases here : scope.has x with
    | true =>
      rw [lookup, if_pos here]
      exact head.stage x
    | false => rw [find?_eq_none_of_has here, find?_eq_none_of_has (head.has_eq_false hx here _)]

theorem twin_receiverScope : Twin R false receiverScope receiverScope :=
  .cons ⟨R.new_ne.symm, rfl, .none, rfl⟩ .nil

theorem Twin.unused (h : Twin R b scope scope') :
    List.Forall₂ (Warning.Twin R.old R.new) scope.unused scope'.unused := by
  induction h with
  | nil => exact .nil
  | @cons e e' scope scope' head tail ih =>
    obtain ⟨name, place, stage⟩ := e
    obtain ⟨name', place', stage'⟩ := e'
    obtain ⟨-, -, places, rfl⟩ := head
    unfold Scope.unused at ih ⊢
    rw [List.filterMap_cons, List.filterMap_cons]
    by_cases read : stage' = .read
    · simpa [read] using ih
    · cases places with
      | none => simpa [read] using ih
      | some place => simpa [read] using ⟨⟨place, rfl⟩, ih⟩

end Scopes

/-- Contexts in corresponding parts of a program and of the recast program. -/
structure Context.Twin (R : Recasting) (bs : List Bool) (c c' : Context) : Prop where
  scopes : Scopes.Twin R bs c.scopes c'.scopes
  routine : c'.routine = c.routine
  receiver : c'.receiver = c.receiver
  warnings : List.Forall₂ (Warning.Twin R.old R.new) c.warnings c'.warnings
  distances : c'.distances = c.distances

/-- An analysis that passes, and gives its nodes the distances that the recasting goes by. -/
structure Tuned (R : Recasting) (ids : List NodeId) (a : Analysis Unit) (c : Context) : Prop where
  passes : Passes a c
  nodup : ids.Nodup
  unset : ∀ id ∈ ids, c.distances.get? id = none
  distance : ∀ id ∈ ids, R.distance? id = (after a c).distances.get? id

/-- The second analysis takes the same way as the first one, which gives distances to no other nodes than these. -/
structure Follows (R : Recasting) (bs : List Bool) (ids : List NodeId) (a a' : Analysis Unit) : Prop where
  keeps : ∀ id ∉ ids, Keeps id a
  passes : ∀ c c', c.Twin R bs c' → Tuned R ids a c → Passes a' c' ∧ (after a c).Twin R bs (after a' c')

section Follows

variable {R : Recasting} {b : Bool} {bs : List Bool} {ids ids' : List NodeId} {a a' f f' : Analysis Unit} {n n' : Name}

theorem Follows.perm (h : Follows R bs ids a a') (perm : ids.Perm ids') : Follows R bs ids' a a' := by
  refine ⟨fun id hid => h.keeps id fun hid' => hid (perm.mem_iff.1 hid'), fun c c' twin tuned => h.passes c c' twin ?_⟩
  exact ⟨tuned.passes, perm.nodup_iff.2 tuned.nodup, fun id hid => tuned.unset id (perm.mem_iff.1 hid),
    fun id hid => tuned.distance id (perm.mem_iff.1 hid)⟩

theorem Follows.bind (h : Follows R bs ids a a') (hf : Follows R bs ids' f f') :
    Follows R bs (ids ++ ids') (do a; f) (do a'; f') := by
  refine ⟨fun id hid => ?_, fun c c' twin tuned => ?_⟩
  · rw [List.mem_append, not_or] at hid
    exact (h.keeps id hid.1).bind fun _ => hf.keeps id hid.2
  · obtain ⟨pass, passF⟩ := passes_seq.1 tuned.passes
    obtain ⟨nodup, nodupF, apart⟩ := List.nodup_append.1 tuned.nodup
    have final : after (do a; f) c = after f (after a c) := after_seq pass
    obtain ⟨pass', twin'⟩ := h.passes c c' twin ⟨pass, nodup, fun id hid => tuned.unset id (List.mem_append_left _ hid), by
      intro id hid
      rw [tuned.distance id (List.mem_append_left _ hid), final]
      exact (hf.keeps id fun hid' => apart id hid id hid' rfl).distances_after⟩
    obtain ⟨passF', twinF'⟩ := hf.passes _ _ twin' ⟨passF, nodupF, fun id hid => by
        rw [(h.keeps id fun hid' => apart id hid' id hid rfl).distances_after]
        exact tuned.unset id (List.mem_append_right _ hid),
      fun id hid => by rw [tuned.distance id (List.mem_append_right _ hid), final]⟩
    rw [final, after_seq pass']
    exact ⟨passes_seq.2 ⟨pass', passF'⟩, twinF'⟩

/-- What is done next may depend on the context, as far as it corresponds. -/
theorem Follows.choose {g g' : Context → Analysis Unit} (keeps : ∀ id ∉ ids, Keeps id (context >>= g))
    (h : ∀ c c', c.Twin R bs c' → Follows R bs ids (g c) (g' c')) : Follows R bs ids (context >>= g) (context >>= g') :=
  ⟨keeps, fun c c' twin tuned =>
    (h c c' twin).passes c c' twin ⟨tuned.passes, tuned.nodup, tuned.unset, tuned.distance⟩⟩

theorem Follows.withScope {scope scope' : Scope} (h : Follows R (b :: bs) ids a a') (hs : Twin R b scope scope') :
    Follows R bs ids (withScope scope a) (withScope scope' a') := by
  refine ⟨fun id hid => (h.keeps id hid).withScope scope, fun c c' twin tuned => ?_⟩
  obtain ⟨pass', inner⟩ := h.passes (c.inside scope) (c'.inside scope')
    ⟨.cons hs twin.scopes, twin.routine, twin.receiver, twin.warnings, twin.distances⟩
    ⟨tuned.passes, tuned.nodup, tuned.unset, tuned.distance⟩
  refine ⟨pass', ?_⟩
  obtain ⟨scopes, routine, receiver, warnings, distances⟩ := inner
  have left : after (Analysis.withScope scope a) c = { after a (c.inside scope) with
    scopes := (after a (c.inside scope)).scopes.tail
    warnings := (after a (c.inside scope)).warnings ++ ((after a (c.inside scope)).scopes.headD []).unused } := rfl
  have right : after (Analysis.withScope scope' a') c' = { after a' (c'.inside scope') with
    scopes := (after a' (c'.inside scope')).scopes.tail
    warnings := (after a' (c'.inside scope')).warnings ++ ((after a' (c'.inside scope')).scopes.headD []).unused } := rfl
  rw [left, right]
  revert scopes
  generalize (after a (c.inside scope)).scopes = inside
  generalize (after a' (c'.inside scope')).scopes = inside'
  intro scopes
  cases scopes with
  | cons head tail => exact ⟨tail, routine, receiver, List.rel_append warnings head.unused, distances⟩

theorem Follows.withRoutine (kind : RoutineKind) (h : Follows R bs ids a a') :
    Follows R bs ids (withRoutine kind a) (withRoutine kind a') := by
  refine ⟨fun id hid => (h.keeps id hid).withRoutine kind, fun c c' twin tuned => ?_⟩
  obtain ⟨pass', inner⟩ := h.passes { c with routine := some kind } { c' with routine := some kind }
    ⟨twin.scopes, rfl, twin.receiver, twin.warnings, twin.distances⟩
    ⟨tuned.passes, tuned.nodup, tuned.unset, tuned.distance⟩
  exact ⟨pass', inner.scopes, twin.routine, inner.receiver, inner.warnings, inner.distances⟩

theorem Follows.withReceiver (receiver : Receiver) (h : Follows R bs ids a a') :
    Follows R bs ids (withReceiver receiver a) (withReceiver receiver a') := by
  refine ⟨fun id hid => (h.keeps id hid).withReceiver receiver, fun c c' twin tuned => ?_⟩
  obtain ⟨pass', inner⟩ := h.passes { c with receiver } { c' with receiver }
    ⟨twin.scopes, twin.routine, rfl, twin.warnings, twin.distances⟩
    ⟨tuned.passes, tuned.nodup, tuned.unset, tuned.distance⟩
  exact ⟨pass', inner.scopes, inner.routine, twin.receiver, inner.warnings, inner.distances⟩

theorem follows_done : Follows R bs [] (done ()) (done ()) :=
  ⟨fun _ _ => keeps_pure (), fun _ _ twin _ => ⟨rfl, twin⟩⟩

theorem follows_fail (place : Place) (fault : Fault) (a' : Analysis Unit) : Follows R bs ids (fail place fault) a' :=
  ⟨fun _ _ => keeps_fail _ _, fun _ _ _ tuned => nomatch tuned.passes⟩

/-- The name of a declaration is spelled as in the scope that it stands in. -/
theorem follows_declare (same : n' = R.declare (bs.headD false) n) (fresh : n.text ≠ R.new) :
    Follows R bs [] (declare n) (declare n') := by
  refine ⟨fun _ _ => keeps_declare n, fun c c' twin tuned => ?_⟩
  obtain ⟨scopes, routine, receiver, warnings, distances⟩ := c
  obtain ⟨scopes', routine', receiver', warnings', distances'⟩ := c'
  obtain ⟨scopes, rfl, rfl, warnings, rfl⟩ := twin
  cases scopes with
  | nil => exact ⟨rfl, .nil, rfl, rfl, warnings, rfl⟩
  | @cons b bs scope scope' scopes scopes' head tail =>
    have passes := tuned.passes
    unfold Passes after declare at *
    dsimp only at passes ⊢
    have has : scope'.has n'.text = scope.has n.text := by
      rw [same]
      exact head.has n.text
    rw [has]
    split at passes
    · cases passes
    · next absent =>
      rw [if_neg absent, if_neg absent]
      have entry : Entry.Twin R b ⟨n.text, some n.place, .declared⟩ ⟨n'.text, some n'.place, .declared⟩ := by
        rw [same]
        exact ⟨fresh, rfl, .some (R.place_declare b fresh), rfl⟩
      exact ⟨rfl, .cons (List.rel_append head (.cons entry .nil)) tail, rfl, rfl, warnings, rfl⟩

theorem follows_define (same : n' = R.declare (bs.headD false) n) : Follows R bs [] (define n) (define n') := by
  refine ⟨fun _ _ => keeps_define n, fun c c' twin _ => ?_⟩
  obtain ⟨scopes, routine, receiver, warnings, distances⟩ := c
  obtain ⟨scopes', routine', receiver', warnings', distances'⟩ := c'
  obtain ⟨scopes, rfl, rfl, warnings, rfl⟩ := twin
  cases scopes with
  | nil => exact ⟨rfl, .nil, rfl, rfl, warnings, rfl⟩
  | cons head tail =>
    refine ⟨rfl, .cons ?_ tail, rfl, rfl, warnings, rfl⟩
    rw [same]
    exact head.move n.text Stage.define

/-- The declaration of a variable, with the analysis of its initial value in between. -/
theorem Follows.initial (h : Follows R bs ids a a') (fresh : n.text ≠ R.new) :
    Follows R bs ids (do declare n; a; define n)
      (do declare (R.declare (bs.headD false) n); a'; define (R.declare (bs.headD false) n)) := by
  have all := (follows_declare rfl fresh).bind (h.bind (follows_define (n := n) rfl))
  rwa [List.append_nil, List.nil_append] at all

/-- The declaration of what keeps its name, before the rest of its analysis. -/
theorem Follows.named (h : Follows R bs ids a a') (fresh : n.text ≠ R.new)
    (same : R.word (bs.headD false) n.text = n.text) :
    Follows R bs ids (do declare n; define n; a) (do declare n; define n; a') :=
  have same := (R.declare_eq same).symm
  (follows_declare same fresh).bind ((follows_define same).bind h)

theorem follows_parameters {ps : List Name} (fresh : R.new ∉ ps.map Name.text) :
    Follows R (b :: bs) [] (parameters ps) (parameters (ps.map (R.declare b))) := by
  induction ps with
  | nil => exact follows_done
  | cons p ps ih =>
    rw [List.map_cons, List.mem_cons, not_or] at fresh
    exact (follows_declare rfl (Ne.symm fresh.1)).bind ((follows_define rfl).bind (ih fresh.2))

theorem follows_bindNode (id : NodeId) {x : String} (fresh : x ≠ R.new) :
    Follows R bs [id] (bindNode id x) (bindNode id (R.word (markedAt bs (R.distance? id)) x)) := by
  refine ⟨fun id' hid => keeps_bindNode (List.ne_of_not_mem_cons hid) x, fun c c' twin tuned => ?_⟩
  have distance := tuned.distance id (.head _)
  have unset := tuned.unset id (.head _)
  unfold Passes after bindNode at *
  cases found : lookup x c.scopes with
  | none =>
    have mark : markedAt bs (R.distance? id) = false := by
      rw [distance, found]
      exact congrArg (markedAt bs) unset
    rw [mark, Recasting.word_false, twin.scopes.lookup_eq_none fresh found]
    exact ⟨rfl, twin⟩
  | some r =>
    obtain ⟨k, scopes⟩ := r
    have mark : R.distance? id = some k := by
      rw [distance, found]
      simp
    obtain ⟨scopes', found', twins⟩ := twin.scopes.lookup_eq_some fresh found
    rw [mark, found']
    exact ⟨rfl, twins, twin.routine, twin.receiver, twin.warnings, congrArg (·.insert id k) twin.distances⟩

theorem passes_checkInitialized {c : Context} :
    Passes (checkInitialized n) c ↔ innermostStage n.text c.scopes ≠ some .declared := by
  unfold Passes
  rw [checkInitialized_eq]
  rcases innermostStage n.text c.scopes with _ | stage
  · simp
  · cases stage <;> simp

/-- The analysis of a variable that is read. -/
theorem follows_use (id : NodeId) (fresh : n.text ≠ R.new) :
    Follows R bs [id] (do checkInitialized n; bindNode id n.text)
      (do checkInitialized (R.use bs id n); bindNode id (R.use bs id n).text) := by
  refine ⟨fun id' hid => (keeps_checkInitialized n).bind fun _ => keeps_bindNode (List.ne_of_not_mem_cons hid) _, ?_⟩
  intro c c' twin tuned
  obtain ⟨checked, bound⟩ := passes_seq.1 tuned.passes
  have distance := tuned.distance
  rw [after_seq checked] at distance ⊢
  rw [after_checkInitialized] at bound distance ⊢
  have checked' : Passes (checkInitialized (R.use bs id n)) c' := by
    have known : R.distance? id = (lookup n.text c.scopes).map Prod.fst := by
      rw [distance id (.head _), distance_bindNode (tuned.unset id (.head _)), map_fst_lookup]
      rfl
    have stage := twin.scopes.stage fresh
    rw [← known] at stage
    rw [passes_checkInitialized] at checked ⊢
    rwa [← stage] at checked
  obtain ⟨bound', twin'⟩ := (follows_bindNode id fresh).passes c c' twin ⟨bound, tuned.nodup, tuned.unset, distance⟩
  rw [passes_seq, after_seq checked', after_checkInitialized]
  exact ⟨⟨checked', bound'⟩, twin'⟩

theorem Recast.earlyReturn? {body body' : List Stmt} (h : Recast R bs (.stmts body) (.stmts body')) :
    Analysis.earlyReturn? body' = Analysis.earlyReturn? body := by
  induction body generalizing body' with
  | nil =>
    cases h
    rfl
  | cons x rest ih =>
    cases h with
    | @cons _ _ x' _ rest' head tail =>
      have rest := ih tail
      cases head with
      | returnNull | returnValue value =>
        cases tail with
        | nil => rfl
        | cons _ _ => rfl
      | _ => exact rest

theorem follows_warnUnreachable {body body' : List Stmt} (h : Recast R bs (.stmts body) (.stmts body')) :
    Follows R bs [] (warnUnreachable body) (warnUnreachable body') := by
  unfold warnUnreachable
  rw [Recast.earlyReturn? h]
  cases earlyReturn? body with
  | none => exact follows_done
  | some place =>
    refine ⟨fun _ _ => keeps_warn _, fun c c' twin _ => ⟨rfl, twin.scopes, twin.routine, twin.receiver, ?_, twin.distances⟩⟩
    exact List.rel_append twin.warnings (.cons ⟨⟨rfl, .inl rfl⟩, rfl⟩ .nil)

theorem follows_checkBase {e e' : Expr} (h : Recast R bs (.expr e) (.expr e')) (absent : R.new ∉ (Part.expr e).names)
    (fresh : n.text ≠ R.new) : Follows R bs [] (checkBase n (some e)) (checkBase n (some e')) := by
  cases h with
  | @«variable» _ id base proper =>
    have other : base.text ≠ R.new := fun same => Part.notMem_mentions absent (by simp [Part.mentions, Part.node?, same])
    change Follows R bs [] (if base.text = n.text then fail base.place .ownBase else done ())
      (if (R.use bs id base).text = n.text then fail (R.use bs id base).place .ownBase else done ())
    split
    · exact follows_fail _ _ _
    · next ne =>
      have ne' : (R.use bs id base).text ≠ R.word false n.text := fun same => ne (R.eq_of_word_eq other fresh same)
      rw [R.word_false] at ne'
      rw [if_neg ne']
      exact follows_done
  | _ => exact follows_done

theorem follows_analyses {ps ps' : List Part} (h : Recasts R bs ps ps')
    (below : ∀ p ∈ ps, ∀ p', Recast R bs p p' → Follows R bs p.ids (analysis p) (analysis p')) :
    Follows R bs (idsOf ps) (analyses ps) (analyses ps') := by
  induction ps generalizing ps' with
  | nil =>
    cases h
    exact follows_done
  | cons p ps ih =>
    cases h with
    | cons head tail =>
      rw [List.forall_mem_cons] at below
      exact (below.1 _ head).bind (ih tail below.2)

end Follows

/-- The analysis of a recast part takes the way of the analysis of the part. -/
theorem follows_analysis {R : Recasting} {bs : List Bool} {p p' : Part} (numbers : ∀ id, R.number id = id)
    (recast : Recast R bs p p') (absent : R.new ∉ p.names) : Follows R bs p.ids (analysis p) (analysis p') := by
  induction p using Part.induct generalizing bs p' with
  | step p ih =>
    have below {bs : List Bool} {q q' : Part} (hq : q ∈ p.children) (h : Recast R bs q q') :
        Follows R bs q.ids (analysis q) (analysis q') := ih q hq h (Part.notMem_child absent hq)
    have fresh := Part.notMem_mentions absent
    have named {x : String} (hx : x ∈ p.mentions) : x ≠ R.new := ne_of_mem_of_not_mem hx fresh
    have keeps : ∀ id ∉ p.ids, Keeps id (analysis p) := fun id hid => keeps_analysis p hid
    -- where a part only hands on to its children
    have childwise (hn : p.node? = none) (h : Recasts R bs p.children p'.children)
        (left : analysis p = analyses p.children) (right : analysis p' = analyses p'.children) :
        Follows R bs p.ids (analysis p) (analysis p') := by
      rw [left, right, Part.ids_eq, hn]
      exact follows_analyses h fun q hq q' => below hq
    -- what is left of a class after its name and its base
    have members {ss ss' ms ms' : List Routine} (inStatics : ∀ q ∈ Part.statics ss, q ∈ p.children)
        (inMethods : ∀ q ∈ Part.methods ms, q ∈ p.children) (statics : Recasts R bs (Part.statics ss) (Part.statics ss'))
        (methods : Recasts R (false :: bs) (Part.methods ms) (Part.methods ms')) :
        Follows R bs (idsOf (Part.statics ss) ++ idsOf (Part.methods ms))
          (do withReceiver .static (analyses (Part.statics ss))
              withReceiver .object (withScope receiverScope (analyses (Part.methods ms))))
          (do withReceiver .static (analyses (Part.statics ss'))
              withReceiver .object (withScope receiverScope (analyses (Part.methods ms')))) := by
      have first := (follows_analyses statics fun q hq q' => below (inStatics q hq)).withReceiver .static
      have second := (follows_analyses methods fun q hq q' => below (inMethods q hq)).withScope twin_receiverScope
      exact first.bind (second.withReceiver .object)
    cases recast with
    | literal => exact childwise rfl .nil (analysis_expr rfl) (analysis_expr rfl)
    | unary e | group e | get e => exact childwise rfl (.cons e .nil) (analysis_expr rfl) (analysis_expr rfl)
    | binary l r | logical l r | update l r | index l r =>
      exact childwise rfl (.cons l (.cons r .nil)) (analysis_expr rfl) (analysis_expr rfl)
    | ternary e yes no => exact childwise rfl (.cons e (.cons yes (.cons no .nil))) (analysis_expr rfl) (analysis_expr rfl)
    | call f es => exact childwise rfl (.cons f es) (analysis_expr rfl) (analysis_expr rfl)
    | set l r => exact childwise rfl (.cons r (.cons l .nil)) (analysis_expr rfl) (analysis_expr rfl)
    | lambda r => exact childwise rfl (.cons r .nil) (analysis_expr rfl) (analysis_expr rfl)
    | expression e | print e => exact childwise rfl (.cons e .nil) (analysis_simple rfl) (analysis_simple rfl)
    | ifThen e yes => exact childwise rfl (.cons e (.cons yes .nil)) (analysis_simple rfl) (analysis_simple rfl)
    | ifElse e yes no =>
      exact childwise rfl (.cons e (.cons yes (.cons no .nil))) (analysis_simple rfl) (analysis_simple rfl)
    | loop e x => exact childwise rfl (.cons e (.cons x .nil)) (analysis_simple rfl) (analysis_simple rfl)
    | «break» | «continue» => exact childwise rfl .nil (analysis_simple rfl) (analysis_simple rfl)
    | nil => exact childwise rfl .nil (analysis_stmts _) (analysis_stmts _)
    | cons x xs => exact childwise rfl (.cons x (.cons xs .nil)) (analysis_stmts _) (analysis_stmts _)
    | @«variable» _ id name =>
      have ids : (Part.expr (.variable id name)).ids = [id] := by simp
      rw [numbers, ids]
      exact follows_use id (named (.head _))
    | @suffix _ id name op =>
      have ids : (Part.expr (.suffix id name op)).ids = [id] := by simp
      rw [numbers, ids]
      exact follows_use id (named (.head _))
    | @assign _ id name e e' proper value =>
      have ids : ((Part.expr e).ids ++ [id]).Perm (Part.expr (.assign id name e)).ids := by simp
      rw [numbers]
      refine Follows.perm ?_ ids
      exact (below (.head _) value).bind (follows_bindNode id (named (.head _)))
    | @this _ id line =>
      have ids : (Part.expr (.this id line)).ids = [id] := by simp
      rw [ids] at keeps
      rw [numbers, ids]
      refine Follows.choose keeps fun c c' twin => ?_
      rw [twin.receiver]
      cases c.receiver with
      | none => exact follows_fail _ _ _
      | static => exact follows_fail _ _ _
      | object =>
        have bound : Follows R bs [id] _ _ := follows_bindNode id R.new_ne.symm
        rwa [R.word_this] at bound
    | @routine b _ body body' kind name params recast =>
      have inside := (below (.head _) recast).bind (follows_warnUnreachable recast)
      have all := ((follows_parameters fresh).bind inside).withScope .nil |>.withRoutine kind
      rw [List.append_nil, List.nil_append] at all
      rw [analysis_routine, analysis_routine, Part.ids_routine]
      exact all
    | @plainVariable _ name =>
      rw [analysis_var, analysis_var, Part.ids_eq]
      exact follows_done.initial (named (.head _))
    | @initialVariable _ e e' name value =>
      rw [analysis_var, analysis_var, Part.ids_eq]
      have initial := follows_analyses (.cons value .nil) fun q hq q' => below hq
      exact initial.initial (named (.head _))
    | @block b _ ss ss' body =>
      have ids : (Part.stmt (.block ss)).ids = (Part.stmts ss).ids := by simp
      rw [analysis_block, analysis_block, ids]
      exact (below (.head _) body).withScope .nil
    | @function _ r r' same recast =>
      have ids : (Part.stmt (.function r)).ids = (Part.routine .function r).ids := by simp
      rw [analysis_function, analysis_function, recast.name_routine.2, ids]
      exact (below (.head _) recast).named (named (.head _)) same
    | @returnNull _ line =>
      refine Follows.choose keeps fun c c' twin => ?_
      have value : Follows R bs (Part.stmt (.return line none)).ids (Analysis.optional none) (Analysis.optional none) := by
        rw [optional_eq, Part.ids_eq]
        exact follows_done
      rw [twin.routine]
      rcases c.routine with _ | kind
      · exact follows_fail _ _ _
      · cases kind <;> exact value
    | @returnValue _ e e' line recast =>
      refine Follows.choose keeps fun c c' twin => ?_
      have value : Follows R bs (Part.stmt (.return line (some e))).ids (Analysis.optional (some e))
          (Analysis.optional (some e')) := by
        rw [optional_eq, optional_eq, Part.ids_eq]
        exact follows_analyses (.cons recast .nil) fun q hq q' => below hq
      rw [twin.routine]
      rcases c.routine with _ | kind
      · exact follows_fail _ _ _
      · cases kind with
        | constructor => exact follows_fail _ _ _
        | _ => exact value
    | @plainClass _ ss ss' ms ms' name same statics methods =>
      have rest := members (fun q hq => List.mem_append_left _ hq) (fun q hq => List.mem_append_right _ hq) statics methods
      have ids : (Part.stmt (.class ⟨name, none, ms, ss⟩)).ids = idsOf (Part.statics ss) ++ idsOf (Part.methods ms) := by
        simp
      rw [analysis_class, analysis_class, ids]
      exact (follows_done.bind (follows_done.bind rest)).named (named (.head _)) same
    | @derivedClass _ e e' ss ss' ms ms' name same base statics methods =>
      have inBase : Part.expr e ∈ (Part.stmt (.class ⟨name, some e, ms, ss⟩)).children := .head _
      have first := follows_analyses (.cons base .nil) fun q hq q' => below (List.mem_singleton.1 hq ▸ inBase)
      have rest := members (fun q hq => .tail _ (List.mem_append_left _ hq))
        (fun q hq => .tail _ (List.mem_append_right _ hq)) statics methods
      have ids : (Part.stmt (.class ⟨name, some e, ms, ss⟩)).ids =
          idsOf [.expr e] ++ (idsOf (Part.statics ss) ++ idsOf (Part.methods ms)) := by
        simp
      rw [analysis_class, analysis_class, ids]
      have checked := follows_checkBase base (Part.notMem_child absent inBase) (named (.head _))
      exact (checked.bind (first.bind rest)).named (named (.head _)) same

/-- Sorting by lines does not tell warnings apart that differ in the name only. -/
theorem forall₂_mergeSort {old new : String} {ws ws' : List Warning} (h : List.Forall₂ (Warning.Twin old new) ws ws') :
    List.Forall₂ (Warning.Twin old new) (ws.mergeSort fun v w => v.place.line ≤ w.place.line)
      (ws'.mergeSort fun v w => v.place.line ≤ w.place.line) := by
  obtain ⟨length, twins⟩ := List.forall₂_iff_zip.1 h
  -- both lists are sides of one list of pairs, which is sorted the same way
  let le (v w : Warning × Warning) : Bool := v.1.place.line ≤ w.1.place.line
  have left : ((ws.zip ws').mergeSort le).map Prod.fst = ws.mergeSort fun v w => v.place.line ≤ w.place.line := by
    rw [List.map_mergeSort (s := fun v w : Warning => v.place.line ≤ w.place.line) fun _ _ _ _ => rfl,
      List.map_fst_zip (Nat.le_of_eq length)]
  have right : ((ws.zip ws').mergeSort le).map Prod.snd = ws'.mergeSort fun v w => v.place.line ≤ w.place.line := by
    rw [List.map_mergeSort (s := fun v w : Warning => v.place.line ≤ w.place.line) ?_,
      List.map_snd_zip (Nat.le_of_eq length.symm)]
    rintro ⟨v, v'⟩ hv ⟨w, w'⟩ hw
    simp only [le, (twins hv).1.1, (twins hw).1.1]
  rw [← left, ← right, List.forall₂_map_left_iff, List.forall₂_map_right_iff, List.forall₂_same]
  rintro ⟨v, v'⟩ hv
  exact twins (List.mem_mergeSort.1 hv)

/-- The report on a recast program. -/
theorem report_recast {R : Recasting} {p p' : Part} {d : Distances} (numbers : ∀ id, R.number id = id)
    (recast : Recast R [] p p') (absent : R.new ∉ p.names) (nodup : p.ids.Nodup) (unset : ∀ id ∈ p.ids, d.get? id = none)
    (passes : (Report.of (analysis p) d).result = .ok ())
    (distance : ∀ id, R.distance? id = (Report.of (analysis p) d).distances.get? id) :
    let report := Report.of (analysis p) d
    let report' := Report.of (analysis p') d
    report'.result = .ok () ∧ report'.distances = report.distances ∧
      List.Forall₂ (Warning.Twin R.old R.new) report.warnings report'.warnings := by
  obtain ⟨passes', twin⟩ := (follows_analysis numbers recast absent).passes (outside d) (outside d)
    ⟨.nil, rfl, rfl, .nil, rfl⟩ ⟨passes, nodup, unset, fun id _ => distance id⟩
  exact ⟨passes', twin.distances, forall₂_mergeSort twin.warnings⟩

end Scope

end Scriptlet
