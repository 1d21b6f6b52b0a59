import Scriptlet.Proofs.AnalysisAccord
import Scriptlet.Proofs.ParserShift

/-!
The analysis of names at other numbers. Numbers only tell where distances are kept, so the analysis of a program with
other numbers finds the same faults and warnings, and the same distances at the new numbers.
-/
namespace Scriptlet.Scope

open Analysis

def Context.withDistances (c : Context) (distances : Distances) : Context := { c with distances }

/-- From contexts that differ only in distances, as `D` allows, two analyses do the same but for such distances. -/
def Renumbers (D : Distances → Distances → Prop) (a a' : Analysis Unit) : Prop :=
  ∀ c d, D c.distances d → ∃ d', a' (c.withDistances d) = ((a c).1, (a c).2.withDistances d') ∧ D (a c).2.distances d'

/-- The analysis neither records distances nor looks at them. -/
def Blind (a : Analysis Unit) : Prop :=
  ∀ c, (a c).2.distances = c.distances ∧ ∀ d, a (c.withDistances d) = ((a c).1, (a c).2.withDistances d)

section Blind

theorem blind_done : Blind (done ()) := fun _ => ⟨rfl, fun _ => rfl⟩

theorem blind_fail (place : Place) (fault : Fault) : Blind (fail place fault) := fun _ => ⟨rfl, fun _ => rfl⟩

theorem blind_declare (n : Name) : Blind (declare n) := by
  rintro ⟨scopes, routine, receiver, warnings, distances⟩
  cases scopes with
  | nil => exact ⟨rfl, fun _ => rfl⟩
  | cons scope outer =>
    unfold declare
    constructor
    · dsimp only
      split <;> rfl
    · intro d
      simp only [Context.withDistances]
      split <;> rfl

theorem blind_define (n : Name) : Blind (define n) := by
  rintro ⟨scopes, routine, receiver, warnings, distances⟩
  cases scopes <;> exact ⟨rfl, fun _ => rfl⟩

theorem blind_checkInitialized (n : Name) : Blind (checkInitialized n) := by
  intro c
  have scopes (d : Distances) : (c.withDistances d).scopes = c.scopes := rfl
  constructor
  · rw [checkInitialized_eq]
    split <;> rfl
  · intro d
    rw [checkInitialized_eq, checkInitialized_eq, scopes]
    split <;> rfl

theorem blind_warnUnreachable (body : List Stmt) : Blind (warnUnreachable body) := by
  unfold warnUnreachable
  cases earlyReturn? body with
  | none => exact blind_done
  | some place => exact fun _ => ⟨rfl, fun _ => rfl⟩

end Blind

section Renumbers

variable {D : Distances → Distances → Prop} {a a' b b' : Analysis Unit}

theorem Blind.renumbers (h : Blind a) : Renumbers D a a := by
  intro c d hD
  obtain ⟨distances, same⟩ := h c
  exact ⟨d, same d, by rwa [distances]⟩

theorem Renumbers.bind (ha : Renumbers D a a') (hb : Renumbers D b b') : Renumbers D (do a; b) (do a'; b') := by
  intro c d hD
  obtain ⟨d₁, first, hD₁⟩ := ha c d hD
  change ∃ d', andThen a' (fun _ => b') (c.withDistances d) = ((andThen a (fun _ => b) c).1,
    (andThen a (fun _ => b) c).2.withDistances d') ∧ D (andThen a (fun _ => b) c).2.distances d'
  unfold andThen
  rw [first]
  rcases hr : a c with ⟨_ | _, c₁⟩ <;> rw [hr] at hD₁
  · exact ⟨d₁, rfl, hD₁⟩
  · exact hb c₁ d₁ hD₁

/-- What is done next may depend on the context, but not on distances. -/
theorem Renumbers.choose {f f' : Context → Analysis Unit} (h : ∀ c d, Renumbers D (f c) (f' (c.withDistances d))) :
    Renumbers D (context >>= f) (context >>= f') :=
  fun c d hD => h c d c d hD

theorem Renumbers.withScope (scope : Scope) (ha : Renumbers D a a') :
    Renumbers D (withScope scope a) (withScope scope a') := by
  intro c d hD
  obtain ⟨d', inner, hD'⟩ := ha { c with scopes := scope :: c.scopes } d hD
  refine ⟨d', ?_, hD'⟩
  have inner : a' { c.withDistances d with scopes := scope :: (c.withDistances d).scopes } = _ := inner
  simp only [Analysis.withScope, inner]
  rfl

theorem Renumbers.withRoutine (kind : RoutineKind) (ha : Renumbers D a a') :
    Renumbers D (withRoutine kind a) (withRoutine kind a') := by
  intro c d hD
  obtain ⟨d', inner, hD'⟩ := ha { c with routine := some kind } d hD
  refine ⟨d', ?_, hD'⟩
  have inner : a' { c.withDistances d with routine := some kind } = _ := inner
  simp only [Analysis.withRoutine, inner]
  rfl

theorem Renumbers.withReceiver (receiver : Receiver) (ha : Renumbers D a a') :
    Renumbers D (withReceiver receiver a) (withReceiver receiver a') := by
  intro c d hD
  obtain ⟨d', inner, hD'⟩ := ha { c with receiver } d hD
  refine ⟨d', ?_, hD'⟩
  have inner : a' { c.withDistances d with receiver } = _ := inner
  simp only [Analysis.withReceiver, inner]
  rfl

theorem renumbers_bindNode {i i' : NodeId} (hD : ∀ d d' k, D d d' → D (d.insert i k) (d'.insert i' k)) (name : String) :
    Renumbers D (bindNode i name) (bindNode i' name) := by
  intro c d h
  have scopes : (c.withDistances d).scopes = c.scopes := rfl
  unfold bindNode
  rw [scopes]
  cases lookup name c.scopes with
  | none => exact ⟨d, rfl, h⟩
  | some found => exact ⟨d.insert i' found.1, rfl, hD _ _ _ h⟩

theorem earlyReturn?_renumber (f : NodeId → NodeId) (body : List Stmt) :
    earlyReturn? (body.map (Relabeling.renumber f).stmt) = earlyReturn? body := by
  induction body with
  | nil => rfl
  | cons x rest ih =>
    cases x with
    | «return» line e? =>
      cases rest with
      | nil => rfl
      | cons y rest => rfl
    | _ => exact ih

end Renumbers

/-- A part with other numbers is analysed like the part, if the distances are related at the new numbers as they were. -/
theorem renumbers_analysis {D : Distances → Distances → Prop} {f : NodeId → NodeId}
    (p : Part) (hD : ∀ i ∈ p.ids, ∀ d d' k, D d d' → D (d.insert i k) (d'.insert (f i) k)) :
    Renumbers D (analysis p) (analysis ((Relabeling.renumber f).part p)) := by
  have law : Congruence (.renumber f) (fun i => ∀ d d' k, D d d' → D (d.insert i k) (d'.insert (f i) k))
      fun _ => Renumbers D := {
    done := blind_done.renumbers
    bind := Renumbers.bind
    fail := fun _ _ _ => (blind_fail _ _).renumbers
    choose := fun h => Renumbers.choose fun c d => h c (c.withDistances d) rfl rfl
    withScope := Renumbers.withScope
    withRoutine := Renumbers.withRoutine
    withReceiver := Renumbers.withReceiver
    declare := fun name => (blind_declare name).renumbers
    define := fun name => (blind_define name).renumbers
    checkInitialized := fun name => (blind_checkInitialized name).renumbers
    bindNode := fun x related => renumbers_bindNode related x
    warnUnreachable := fun body => by
      have same : warnUnreachable (body.map (Relabeling.renumber f).stmt) = warnUnreachable body := by
        unfold warnUnreachable
        rw [earlyReturn?_renumber]
      rw [same]
      exact (blind_warnUnreachable body).renumbers }
  exact law.analysis p hD

/-- The report on a part with other numbers. -/
theorem report_renumber {D : Distances → Distances → Prop} {f : NodeId → NodeId}
    (p : Part) (hD : ∀ i ∈ p.ids, ∀ d d' k, D d d' → D (d.insert i k) (d'.insert (f i) k)) {d d' : Distances} (h : D d d') :
    let report := Report.of (analysis p) d
    let report' := Report.of (analysis ((Relabeling.renumber f).part p)) d'
    report'.result = report.result ∧ report'.warnings = report.warnings ∧ D report.distances report'.distances := by
  obtain ⟨d₁, same, related⟩ := renumbers_analysis p hD (outside d) d' h
  have same : analysis ((Relabeling.renumber f).part p) (outside d') = _ := same
  unfold Report.of
  simp only [outside] at same related
  rw [same]
  exact ⟨rfl, rfl, related⟩

end Scriptlet.Scope
