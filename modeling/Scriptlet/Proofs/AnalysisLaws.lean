import Scriptlet.Scope.Analysis

/-!
What the steps of the analysis of names do to its context. `Declares ds a` says which names a successful analysis adds
to the innermost scope, and `Keeps id a` that it leaves the distance of a node alone.
-/
namespace Scriptlet.Scope

/-- The names that each open scope has, the innermost first. -/
def Context.names (c : Context) : List (List String) := c.scopes.map (·.map Entry.name)

/-- The innermost scope gets more names; outside of any scope names are not tracked. -/
def extend (ds : List String) : List (List String) → List (List String)
  | [] => []
  | ns :: nss => (ns ++ ds) :: nss

@[simp]
theorem extend_nil (nss : List (List String)) : extend [] nss = nss := by
  cases nss <;> simp [extend]

@[simp]
theorem extend_extend (ds es : List String) (nss : List (List String)) :
    extend es (extend ds nss) = extend (ds ++ es) nss := by
  cases nss <;> simp [extend]

@[simp]
theorem length_extend (ds : List String) (nss : List (List String)) : (extend ds nss).length = nss.length := by
  cases nss <;> rfl

theorem names_move (scope : Scope) (name : String) (change : Stage → Stage) :
    (scope.move name change).map Entry.name = scope.map Entry.name := by
  simp only [Scope.move, List.map_map]
  congr 1
  funext e
  simp only [Function.comp]
  split <;> rfl

/-- How far out the nearest scope with the name is. -/
def nearest (name : String) (nss : List (List String)) : Option Nat := nss.findIdx? (name ∈ ·)

theorem has_iff_mem {scope : Scope} {name : String} : scope.has name = true ↔ name ∈ scope.map Entry.name := by
  simp only [Scope.has, List.any_eq_true, List.mem_map, decide_eq_true_eq]

theorem map_fst_lookup (name : String) (scopes : List Scope) :
    (lookup name scopes).map Prod.fst = nearest name (scopes.map (·.map Entry.name)) := by
  induction scopes with
  | nil => rfl
  | cons scope outer ih =>
    simp only [lookup, nearest, List.map_cons, List.findIdx?_cons] at ih ⊢
    by_cases h : scope.has name = true
    · simp [h, has_iff_mem.1 h]
    · have hm : name ∉ scope.map Entry.name := fun hm => h (has_iff_mem.2 hm)
      rw [if_neg h, if_neg (by simpa using hm), ← ih]
      cases lookup name outer <;> rfl

theorem names_lookup {name : String} {scopes scopes' : List Scope} {d : Nat}
    (h : lookup name scopes = some (d, scopes')) : scopes'.map (·.map Entry.name) = scopes.map (·.map Entry.name) := by
  induction scopes generalizing d scopes' with
  | nil => cases h
  | cons scope outer ih =>
    unfold lookup at h
    split at h
    · cases h
      simp [names_move]
    · obtain ⟨⟨d', outer'⟩, ho, he⟩ := Option.map_eq_some_iff.1 h
      cases he
      simp [ih ho]

namespace Analysis

variable {α β : Type}

theorem bind_eq_ok {a : Analysis α} {f : α → Analysis β} {b : β} {c c' : Context} :
    (a >>= f) c = (.ok b, c') ↔ ∃ x d, a c = (.ok x, d) ∧ f x d = (.ok b, c') := by
  change andThen a f c = _ ↔ _
  unfold andThen
  split
  · next x d h =>
    constructor
    · intro hf
      exact ⟨x, d, h, hf⟩
    · rintro ⟨x', d', h', hf⟩
      rw [h] at h'
      cases h'
      exact hf
  · next h => simp [h]

/-- A successful analysis adds exactly these names to the innermost scope. -/
def Declares (ds : List String) (a : Analysis α) : Prop :=
  ∀ c x c', a c = (.ok x, c') → c'.names = extend ds c.names

theorem declares_pure (x : α) : Declares [] (pure x) := by
  rintro c y c' ⟨⟩
  exact (extend_nil _).symm

theorem Declares.bind {ds es : List String} {a : Analysis α} {f : α → Analysis β} (ha : Declares ds a)
    (hf : ∀ x, Declares es (f x)) : Declares (ds ++ es) (a >>= f) := by
  intro c y c' h
  obtain ⟨x, d, h1, h2⟩ := bind_eq_ok.1 h
  rw [hf x d y c' h2, ha c x d h1, extend_extend]

theorem declares_fail (place : Place) (fault : Fault) (ds : List String) : Declares ds (fail place fault : Analysis α) := by
  rintro c x c' ⟨⟩

theorem declares_context : Declares [] context := by
  rintro c x c' ⟨⟩
  exact (extend_nil _).symm

theorem declares_warn (w : Warning) : Declares [] (warn w) := by
  rintro c x c' ⟨⟩
  exact (extend_nil _).symm

theorem declares_declare (name : Name) : Declares [name.text] (declare name) := by
  intro c x c' h
  unfold declare at h
  split at h
  · next hs =>
    cases h
    simp [Context.names, hs, extend]
  · next scope outer hs =>
    split at h
    · cases h
    · cases h
      simp [Context.names, hs, extend]

theorem declares_define (name : Name) : Declares [] (define name) := by
  intro c x c' h
  unfold define at h
  split at h
  · cases h
    exact (extend_nil _).symm
  · next scope outer hs =>
    cases h
    simp [Context.names, hs, names_move]

theorem declares_checkInitialized (name : Name) : Declares [] (checkInitialized name) := by
  intro c x c' h
  unfold checkInitialized at h
  split at h
  · cases h
  · cases h
    exact (extend_nil _).symm

theorem declares_bindNode (id : NodeId) (name : String) : Declares [] (bindNode id name) := by
  intro c x c' h
  unfold bindNode at h
  split at h
  · cases h
    exact (extend_nil _).symm
  · next d scopes hl =>
    cases h
    simp [Context.names, names_lookup hl]

theorem Declares.withScope {ds : List String} {a : Analysis Unit} (scope : Scope) (ha : Declares ds a) :
    Declares [] (withScope scope a) := by
  intro c x c' h
  unfold Analysis.withScope at h
  cases ha' : a { c with scopes := scope :: c.scopes } with
  | mk r d =>
    simp only [ha'] at h
    cases h
    have inner := ha _ _ _ ha'
    simp only [Context.names, List.map_cons, extend] at inner
    simp only [Context.names, List.map_tail, inner, List.tail_cons, extend_nil]

theorem Declares.withRoutine {ds : List String} {a : Analysis Unit} (kind : RoutineKind) (ha : Declares ds a) :
    Declares ds (withRoutine kind a) := by
  intro c x c' h
  unfold Analysis.withRoutine at h
  cases ha' : a { c with routine := some kind } with
  | mk r d =>
    simp only [ha'] at h
    cases h
    have inner := ha _ _ _ ha'
    exact inner

theorem Declares.withReceiver {ds : List String} {a : Analysis Unit} (receiver : Receiver) (ha : Declares ds a) :
    Declares ds (withReceiver receiver a) := by
  intro c x c' h
  unfold Analysis.withReceiver at h
  cases ha' : a { c with receiver } with
  | mk r d =>
    simp only [ha'] at h
    cases h
    have inner := ha _ _ _ ha'
    exact inner

theorem declares_parameters (ps : List Name) : Declares (ps.map Name.text) (parameters ps) := by
  induction ps with
  | nil => exact declares_pure ()
  | cons p ps ih => exact (declares_declare p).bind fun _ => (declares_define p).bind fun _ => ih

/-- Whatever comes of it, the distance of the node is as it was. -/
def Keeps (id : NodeId) (a : Analysis α) : Prop := ∀ c, (a c).2.distances.get? id = c.distances.get? id

section Keeps

variable {id : NodeId}

theorem keeps_pure (x : α) : Keeps id (pure x) := fun _ => rfl

theorem Keeps.bind {a : Analysis α} {f : α → Analysis β} (ha : Keeps id a) (hf : ∀ x, Keeps id (f x)) :
    Keeps id (a >>= f) := by
  intro c
  have first := ha c
  change (andThen a f c).2.distances.get? id = _
  unfold andThen
  split
  · next x d h =>
    rw [hf x d, ← first, h]
  · next e d h =>
    rw [← first, h]

theorem keeps_fail (place : Place) (fault : Fault) : Keeps id (fail place fault : Analysis α) := fun _ => rfl

theorem keeps_context : Keeps id context := fun _ => rfl

theorem keeps_warn (w : Warning) : Keeps id (warn w) := fun _ => rfl

theorem keeps_declare (name : Name) : Keeps id (declare name) := by
  intro c
  unfold declare
  split
  · rfl
  · split <;> rfl

theorem keeps_define (name : Name) : Keeps id (define name) := by
  intro c
  unfold define
  split <;> rfl

theorem keeps_checkInitialized (name : Name) : Keeps id (checkInitialized name) := by
  intro c
  unfold checkInitialized
  split <;> rfl

theorem keeps_bindNode {id' : NodeId} (h : id ≠ id') (name : String) : Keeps id (bindNode id' name) := by
  intro c
  unfold bindNode
  split
  · rfl
  · exact Distances.get?_insert_of_ne _ _ h

theorem Keeps.withScope {a : Analysis Unit} (scope : Scope) (ha : Keeps id a) : Keeps id (withScope scope a) :=
  fun c => ha { c with scopes := scope :: c.scopes }

theorem Keeps.withRoutine {a : Analysis Unit} (kind : RoutineKind) (ha : Keeps id a) : Keeps id (withRoutine kind a) :=
  fun c => ha { c with routine := some kind }

theorem Keeps.withReceiver {a : Analysis Unit} (receiver : Receiver) (ha : Keeps id a) :
    Keeps id (withReceiver receiver a) :=
  fun c => ha { c with receiver }

theorem keeps_parameters (ps : List Name) : Keeps id (parameters ps) := by
  induction ps with
  | nil => exact keeps_pure ()
  | cons p ps ih => exact (keeps_declare p).bind fun _ => (keeps_define p).bind fun _ => ih

theorem keeps_warnUnreachable (body : List Stmt) : Keeps id (warnUnreachable body) := by
  unfold warnUnreachable
  split
  · exact keeps_warn _
  · exact keeps_pure ()

end Keeps

theorem declares_warnUnreachable (body : List Stmt) : Declares [] (warnUnreachable body) := by
  unfold warnUnreachable
  split
  · exact declares_warn _
  · exact declares_pure ()

theorem declares_checkBase (name : Name) (base : Option Expr) : Declares [] (checkBase name base) := by
  unfold checkBase
  split
  · split
    · exact declares_fail _ _ _
    · exact declares_pure ()
  · exact declares_pure ()

end Analysis

end Scriptlet.Scope
