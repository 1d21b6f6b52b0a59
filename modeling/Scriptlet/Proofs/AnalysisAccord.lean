import Scriptlet.Proofs.PartAnalysis

/-!
The analysis of names at other numbers and lines. Places only go into reports, so the analysis of a relabeled program
succeeds if that of the program does and finds the same distances; and it carries nothing from one statement of the top
level to the next but the distances.
-/
namespace Scriptlet.Scope

open Analysis

/-- A scope that does not tell where its names stand. -/
def unplaced (scope : Scope) : Scope := scope.map fun e => { e with place := none }

section Unplaced

variable (scope : Scope) (scopes : List Scope) (name : String)

theorem has_unplaced : (unplaced scope).has name = scope.has name := by
  simp [unplaced, Scope.has, List.any_map, Function.comp_def]

theorem move_unplaced (change : Stage → Stage) :
    (unplaced scope).move name change = unplaced (scope.move name change) := by
  simp only [unplaced, Scope.move, List.map_map]
  refine List.map_congr_left fun e _ => ?_
  simp only [Function.comp]
  split <;> rfl

theorem stage_unplaced :
    ((unplaced scope).find? name).map Entry.stage = (scope.find? name).map Entry.stage := by
  simp only [unplaced, Scope.find?, List.find?_map, Option.map_map, Function.comp_def]

theorem lookup_unplaced :
    lookup name (scopes.map unplaced) = (lookup name scopes).map (Prod.map id (List.map unplaced)) := by
  induction scopes with
  | nil => rfl
  | cons scope outer ih =>
    simp only [List.map_cons, lookup, has_unplaced, move_unplaced, ih]
    split
    · rfl
    · cases lookup name outer <;> rfl

end Unplaced

/-- Contexts that differ only in places, in warnings, and in distances as `D` allows. -/
structure Alike (D : Distances → Distances → Prop) (c c' : Context) : Prop where
  scopes : c.scopes.map unplaced = c'.scopes.map unplaced
  routine : c.routine = c'.routine
  receiver : c.receiver = c'.receiver
  distances : D c.distances c'.distances

/-- What two analyses have left behind, the first of which started from a context: both have come to the same end, and
the surroundings are what they were. -/
structure Accorded (D : Distances → Distances → Prop) (c : Context) (r r' : Except Error Unit × Context) : Prop where
  isOk : r.1.isOk = r'.1.isOk
  alike : Alike D r.2 r'.2
  depth : r.2.scopes.length = c.scopes.length
  routine : r.2.routine = c.routine
  receiver : r.2.receiver = c.receiver

def Accords (D : Distances → Distances → Prop) (a a' : Analysis Unit) : Prop :=
  ∀ c c', Alike D c c' → Accorded D c (a c) (a' c')

section Accords

variable {D : Distances → Distances → Prop} {a a' b b' : Analysis Unit} {n n' : Name}

theorem accords_done : Accords D (done ()) (done ()) := fun _ _ h => ⟨rfl, h, rfl, rfl, rfl⟩

theorem accords_fail (place place' : Place) (fault : Fault) : Accords D (fail place fault) (fail place' fault) :=
  fun _ _ h => ⟨rfl, h, rfl, rfl, rfl⟩

theorem Accords.bind (ha : Accords D a a') (hb : Accords D b b') : Accords D (do a; b) (do a'; b') := by
  intro c c' h
  have first := ha c c' h
  change Accorded D c (andThen a (fun _ => b) c) (andThen a' (fun _ => b') c')
  unfold andThen
  cases hr : a c with
  | mk r d =>
    cases hr' : a' c' with
    | mk r' d' =>
      rw [hr, hr'] at first
      cases r with
      | ok u =>
        cases r' with
        | ok u' =>
          have second := hb d d' first.alike
          exact ⟨second.isOk, second.alike, second.depth.trans first.depth, second.routine.trans first.routine,
            second.receiver.trans first.receiver⟩
        | error e' => cases first.isOk
      | error e =>
        cases r' with
        | ok u' => cases first.isOk
        | error e' => exact first

/-- What is done next may depend on the context, as far as it is alike. -/
theorem Accords.choose {f f' : Context → Analysis Unit} (h : ∀ c c', Alike D c c' → Accords D (f c) (f' c')) :
    Accords D (context >>= f) (context >>= f') :=
  fun c c' hc => h c c' hc c c' hc

theorem Accords.withScope (scope : Scope) (ha : Accords D a a') :
    Accords D (withScope scope a) (withScope scope a') := by
  intro c c' h
  have inner := ha { c with scopes := scope :: c.scopes } { c' with scopes := scope :: c'.scopes }
    ⟨congrArg (unplaced scope :: ·) h.scopes, h.routine, h.receiver, h.distances⟩
  refine ⟨inner.isOk, ⟨?_, inner.alike.routine, inner.alike.receiver, inner.alike.distances⟩, ?_, inner.routine,
    inner.receiver⟩
  · simpa only [Analysis.withScope, List.map_tail] using congrArg List.tail inner.alike.scopes
  · have depth := inner.depth
    simp only [List.length_cons] at depth
    simp only [Analysis.withScope, List.length_tail, depth, Nat.add_sub_cancel]

theorem Accords.withRoutine (kind : RoutineKind) (ha : Accords D a a') :
    Accords D (withRoutine kind a) (withRoutine kind a') := by
  intro c c' h
  have inner := ha { c with routine := some kind } { c' with routine := some kind }
    ⟨h.scopes, rfl, h.receiver, h.distances⟩
  exact ⟨inner.isOk, ⟨inner.alike.scopes, h.routine, inner.alike.receiver, inner.alike.distances⟩, inner.depth, rfl,
    inner.receiver⟩

theorem Accords.withReceiver (receiver : Receiver) (ha : Accords D a a') :
    Accords D (withReceiver receiver a) (withReceiver receiver a') := by
  intro c c' h
  have inner := ha { c with receiver } { c' with receiver } ⟨h.scopes, h.routine, rfl, h.distances⟩
  exact ⟨inner.isOk, ⟨inner.alike.scopes, inner.alike.routine, h.receiver, inner.alike.distances⟩, inner.depth,
    inner.routine, rfl⟩

theorem accords_declare (hn : n.text = n'.text) : Accords D (declare n) (declare n') := by
  intro c c' h
  have scopes := h.scopes
  unfold declare
  cases hs : c.scopes with
  | nil =>
    cases hs' : c'.scopes with
    | nil => exact ⟨rfl, h, rfl, rfl, rfl⟩
    | cons scope' outer' => simp [hs, hs'] at scopes
  | cons scope outer =>
    cases hs' : c'.scopes with
    | nil => simp [hs, hs'] at scopes
    | cons scope' outer' =>
      simp only [hs, hs', List.map_cons, List.cons.injEq] at scopes
      have has : scope.has n.text = scope'.has n'.text := by
        rw [← has_unplaced scope, ← has_unplaced scope', scopes.1, hn]
      dsimp only
      rw [has]
      split
      · exact ⟨rfl, h, rfl, rfl, rfl⟩
      · refine ⟨rfl, ⟨?_, h.routine, h.receiver, h.distances⟩, by simp [hs], rfl, rfl⟩
        simpa [unplaced, hn] using scopes

theorem accords_define (hn : n.text = n'.text) : Accords D (define n) (define n') := by
  intro c c' h
  have scopes := h.scopes
  unfold define
  cases hs : c.scopes with
  | nil =>
    cases hs' : c'.scopes with
    | nil => exact ⟨rfl, h, rfl, rfl, rfl⟩
    | cons scope' outer' => simp [hs, hs'] at scopes
  | cons scope outer =>
    cases hs' : c'.scopes with
    | nil => simp [hs, hs'] at scopes
    | cons scope' outer' =>
      simp only [hs, hs', List.map_cons, List.cons.injEq] at scopes
      refine ⟨rfl, ⟨?_, h.routine, h.receiver, h.distances⟩, by simp [hs], rfl, rfl⟩
      simp only [List.map_cons, ← move_unplaced, scopes, hn]

/-- How far the variable of that name in the innermost scope has come. -/
def innermostStage (name : String) (scopes : List Scope) : Option Stage :=
  scopes.head?.bind fun scope => (scope.find? name).map Entry.stage

theorem checkInitialized_eq (n : Name) (c : Context) :
    checkInitialized n c =
      match innermostStage n.text c.scopes with
      | some .declared => (.error ⟨n.place, .ownInitializer⟩, c)
      | _ => (.ok (), c) := by
  unfold checkInitialized innermostStage
  cases c.scopes.head? with
  | none => rfl
  | some scope =>
    simp only [Option.bind_some]
    rcases scope.find? n.text with _ | ⟨name, place, stage⟩
    · rfl
    · cases stage <;> rfl

theorem innermostStage_unplaced (name : String) (scopes : List Scope) :
    innermostStage name (scopes.map unplaced) = innermostStage name scopes := by
  unfold innermostStage
  rw [List.head?_map]
  cases scopes.head? with
  | none => rfl
  | some scope => exact stage_unplaced scope name

theorem accords_checkInitialized (hn : n.text = n'.text) : Accords D (checkInitialized n) (checkInitialized n') := by
  intro c c' h
  rw [checkInitialized_eq, checkInitialized_eq, ← hn, ← innermostStage_unplaced n.text c.scopes, h.scopes,
    innermostStage_unplaced]
  rcases innermostStage n.text c'.scopes with _ | stage
  · exact ⟨rfl, h, rfl, rfl, rfl⟩
  · cases stage <;> exact ⟨rfl, h, rfl, rfl, rfl⟩

theorem length_lookup {name : String} {scopes scopes' : List Scope} {d : Nat}
    (h : lookup name scopes = some (d, scopes')) : scopes'.length = scopes.length := by
  simpa using congrArg List.length (names_lookup h)

theorem accords_bindNode {i i' : NodeId} (hD : ∀ d d' k, D d d' → D (d.insert i k) (d'.insert i' k)) (name : String) :
    Accords D (bindNode i name) (bindNode i' name) := by
  intro c c' h
  have same : (lookup name c.scopes).map (Prod.map id (List.map unplaced)) =
      (lookup name c'.scopes).map (Prod.map id (List.map unplaced)) := by
    rw [← lookup_unplaced, ← lookup_unplaced, h.scopes]
  unfold bindNode
  cases hl : lookup name c.scopes with
  | none =>
    cases hl' : lookup name c'.scopes with
    | none => exact ⟨rfl, h, rfl, rfl, rfl⟩
    | some found' => simp [hl, hl'] at same
  | some found =>
    cases hl' : lookup name c'.scopes with
    | none => simp [hl, hl'] at same
    | some found' =>
      obtain ⟨k, scopes⟩ := found
      obtain ⟨k', scopes'⟩ := found'
      simp only [hl, hl', Option.map_some, Prod.map, Option.some.injEq, Prod.mk.injEq] at same
      obtain ⟨rfl, found⟩ := same
      exact ⟨rfl, ⟨found, h.routine, h.receiver, hD _ _ _ h.distances⟩, length_lookup hl, rfl, rfl⟩

theorem accords_warnUnreachable (body body' : List Stmt) : Accords D (warnUnreachable body) (warnUnreachable body') := by
  intro c c' h
  have alike (ws ws' : List Warning) : Alike D { c with warnings := ws } { c' with warnings := ws' } :=
    ⟨h.scopes, h.routine, h.receiver, h.distances⟩
  unfold warnUnreachable
  cases earlyReturn? body <;> cases earlyReturn? body' <;> exact ⟨rfl, alike _ _, rfl, rfl, rfl⟩

end Accords

/-- Places and warnings do not count, and the distances are related at the new numbers as they were. -/
theorem accords_congruence {D : Distances → Distances → Prop} {ρ : Relabeling}
    (hD : ∀ i d d' k, D d d' → D (d.insert i k) (d'.insert (ρ.number i) k)) :
    Congruence ρ (fun _ => True) fun _ => Accords D where
  done := accords_done
  bind := Accords.bind
  fail := fun _ _ _ => accords_fail _ _ _
  choose := fun h => Accords.choose fun c c' hc => h c c' hc.routine hc.receiver
  withScope := Accords.withScope
  withRoutine := Accords.withRoutine
  withReceiver := Accords.withReceiver
  declare := fun _ => accords_declare rfl
  define := fun _ => accords_define rfl
  checkInitialized := fun _ => accords_checkInitialized rfl
  bindNode := fun x _ => accords_bindNode (hD _) x
  warnUnreachable := fun _ => accords_warnUnreachable _ _

theorem accords_parameters (ρ : Relabeling) (ps : List Name) :
    Accords (fun _ _ => True) (parameters ps) (parameters (ps.map ρ.name)) :=
  (accords_congruence fun _ _ _ _ _ => trivial).parameters ps

/-- A relabeled part is analysed like the part. -/
theorem accords_analysis {D : Distances → Distances → Prop} {ρ : Relabeling}
    (hD : ∀ i d d' k, D d d' → D (d.insert i k) (d'.insert (ρ.number i) k)) (p : Part) :
    Accords D (analysis p) (analysis (ρ.part p)) :=
  (accords_congruence hD).analysis p fun _ _ => trivial

/-- The context in which an analysis starts. -/
def outside (distances : Distances) : Context := ⟨[], none, .none, [], distances⟩

section Resolve

variable {program first : List Stmt} {d d' : Distances}

theorem resolve_result : (resolve program d).result = (analysis (.stmts program) (outside d)).1 := rfl

theorem resolve_distances : (resolve program d).distances = (analysis (.stmts program) (outside d)).2.distances := rfl

theorem result_eq_ok {r : Except Error Unit} : r = .ok () ↔ r.isOk = true := by
  rcases r with e | ⟨⟩ <;> simp [Except.isOk, Except.toBool]

/-- Neither numbers nor lines nor earlier distances decide whether a program passes. -/
theorem resolve_relabel (ρ : Relabeling) (h : (resolve program d).result = .ok ()) (d' : Distances) :
    (resolve (program.map ρ.stmt) d').result = .ok () := by
  have accorded := accords_analysis (D := fun _ _ => True) (ρ := ρ) (fun _ _ _ _ _ => trivial) (.stmts program)
    (outside d) (outside d') ⟨rfl, rfl, rfl, trivial⟩
  rw [result_eq_ok, resolve_result] at h ⊢
  exact accorded.isOk.symm.trans h

/-- A program further down gets the same distances. -/
theorem distances_resolve_lines {ρ : Relabeling} (hρ : ∀ i, ρ.number i = i) (program : List Stmt) (d : Distances) :
    (resolve (program.map ρ.stmt) d).distances = (resolve program d).distances := by
  have accorded := accords_analysis (D := Eq) (ρ := ρ) (fun i d d' k h => by rw [h, hρ]) (.stmts program)
    (outside d) (outside d) ⟨rfl, rfl, rfl, rfl⟩
  exact accorded.alike.distances.symm

theorem stmts_append (first second : List Stmt) :
    analysis (.stmts (first ++ second)) = (do analysis (.stmts first); analysis (.stmts second)) := by
  induction first with
  | nil => rfl
  | cons s ss ih =>
    have assoc (a b c : Analysis Unit) : (do a; (do b; c)) = (do (do a; b); c) := by
      funext x
      change andThen a (fun _ => andThen b fun _ => c) x = andThen (andThen a fun _ => b) (fun _ => c) x
      unfold andThen
      rcases a x with ⟨_ | _, y⟩ <;> rfl
    rw [List.cons_append]
    simp only [analysis, stmts] at ih ⊢
    rw [ih]
    exact assoc _ _ _

/-- Of what has been analysed before, only the distances count for what follows on the top level. -/
theorem resolve_append (h : (resolve first d).result = .ok ()) (second : List Stmt) :
    ((resolve (first ++ second) d).result = .ok () ↔ (resolve second (resolve first d).distances).result = .ok ()) ∧
      (resolve (first ++ second) d).distances = (resolve second (resolve first d).distances).distances := by
  have step : ∀ (i : NodeId) (d d' : Distances) (k : Nat), d = d' → d.insert i k = d'.insert i k := by
    rintro i d _ k rfl
    rfl
  -- comparing with the program without lines tells what the first part leaves behind, and what the second makes of it
  have accord := fun program => accords_analysis (D := Eq) (ρ := .unlined) step (.stmts program)
  rw [resolve_result] at h
  have behind := accord first (outside d) (outside d) ⟨rfl, rfl, rfl, rfl⟩
  cases hc : analysis (.stmts first) (outside d) with
  | mk r c =>
    rw [hc] at h behind
    dsimp only at h
    subst h
    have scopes : c.scopes = [] := List.eq_nil_of_length_eq_zero behind.depth
    have whole : analysis (.stmts (first ++ second)) (outside d) = analysis (.stmts second) c := by
      rw [stmts_append]
      change andThen _ _ _ = _
      rw [andThen, hc]
    have left := accord second c (outside c.distances) ⟨by rw [scopes]; rfl, behind.routine, behind.receiver, rfl⟩
    have right := accord second (outside c.distances) (outside c.distances) ⟨rfl, rfl, rfl, rfl⟩
    have distances : (resolve first d).distances = c.distances := by rw [resolve_distances, hc]
    rw [distances, resolve_result, resolve_result, resolve_distances, resolve_distances, whole, result_eq_ok,
      result_eq_ok, left.isOk, right.isOk, left.alike.distances, right.alike.distances]
    exact ⟨Iff.rfl, rfl⟩

end Resolve

end Scriptlet.Scope
