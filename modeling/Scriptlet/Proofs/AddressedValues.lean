import Scriptlet.Proofs.AddressRuns
import Scriptlet.Proofs.AlignedLife

/-!
Access by address agrees with expressions. What a host reads at an address is what the address yields as the text of an
expression, and what it sets there is set in the same way by an assignment. The nodes of a new text have no distances
yet, so its names are those of globals.
-/
namespace Scriptlet

open Machine
open Token (IsIdentifier)

/-- The numbers that a session has yet to give out have no distances. -/
def Phase.Unset : Phase → Prop
  | .idle s => ∀ id, s.nextId ≤ id → s.world.distances.get? id = none
  | .running s m => ∀ id, s.nextId ≤ id → m.distances.get? id = none

/-- The nodes of a text get distances, and these are numbers that the session gives out. -/
theorem Session.check_unset {s s' : Session} {form : Session.Form} {source : String} {r : Except Error Control}
    (h : Phase.Unset (.idle s)) (checked : s.check form source = (s', r)) : Phase.Unset (.idle s') := by
  intro id hid
  obtain ⟨-, ⟨distances, next, -⟩ | ⟨part, readable, distances, -⟩⟩ := Session.check_text checked
  · rw [distances]
    exact h id (Nat.le_trans next hid)
  · have other : id ∉ part.ids := fun member => Nat.lt_irrefl id (Nat.lt_of_lt_of_le (readable.fresh.lt id member) hid)
    have kept : (rootSite part s.world.distances).after.distances.get? id = s.world.distances.get? id :=
      (Scope.keeps_analysis part other).distances_after
    rw [distances, kept]
    exact h id (Nat.le_trans readable.fresh.le hid)

theorem Life.unset {host : Host} {t : Trace} {phase : Phase} (life : Life host t phase) : phase.Unset := by
  induction life with
  | fresh console => exact fun id _ => Distances.get?_empty id
  | alter _ _ ih => exact ih
  | read _ _ ih => exact ih
  | reset _ ih => exact ih
  | refuse _ checked ih | accept _ checked ih => exact Session.check_unset ih checked
  | call _ _ _ ih => exact ih
  | step _ ih =>
    intro id hid
    rw [distances_step]
    exact ih id hid
  | feed _ _ ih => exact ih
  | finish _ finished ih =>
    intro id hid
    obtain ⟨world, next⟩ := Session.world_finish finished
    rw [world]
    exact ih id (next ▸ hid)

theorem Session.Reachable.unset {host : Host} {s : Session} (h : s.Reachable host) {id : NodeId} (hid : s.nextId ≤ id) :
    s.world.distances.get? id = none := by
  obtain ⟨t, life⟩ := h
  exact life.unset id hid

namespace Session

variable {host : Host} {s s' s1 : Session} {source : String} {control : Control} {r : Except Error Value}

/-- What a session has come to when work ends, in a world, with an outcome. -/
def ended (s : Session) (world : World) : Outcome → Session × Except Error Value
  | .value v => ({ s with world }, .ok v)
  | .flow _ => ({ s with world }, .ok .null)
  | .failure e => { s with world }.fail (.ofFailure e) []

theorem finish_eq (s : Session) (m : State) : s.finish m = m.outcome?.map (s.ended m.toWorld) := by
  unfold finish
  cases m.outcome? with
  | none => rfl
  | some o => cases o <;> rfl

/-- Only the world matters to work. -/
theorem start_eq (same : s1.world = s.world) (control : Control) : s1.start control = s.start control :=
  congrArg (State.start · control) same

/-- Work comes to its end within some limit. -/
theorem perform_iff : (∃ limit, s.perform host limit control = some (s', r)) ↔
    ∃ w o, Finishes host (s.start control) w o ∧ s.ended w o = (s', r) := by
  constructor
  · rintro ⟨limit, performed⟩
    rw [perform, finish_eq] at performed
    obtain ⟨o, outcome, result⟩ := Option.map_eq_some_iff.1 performed
    exact ⟨_, o, ⟨_, ⟨limit, rfl⟩, outcome, rfl⟩, result⟩
  · rintro ⟨w, o, ⟨t, ⟨limit, rfl⟩, outcome, rfl⟩, result⟩
    refine ⟨limit, ?_⟩
    rw [perform, finish_eq, outcome, Option.map_some, result]

/-- The text is run as an expression, to its end. -/
def Evaluates (host : Host) (s : Session) (source : String) (s' : Session) (r : Except Error Value) : Prop :=
  ∃ limit, s.submit host limit .expression source = some (s', r)

section Ends

variable {t : State} (checked : s.check .expression source = (s1, .ok control)) (same : s1.world = s.world)
  (leads : Leads host (s.start control) t)
include checked same leads

/-- A text that passes the checks ends as the machine does. -/
theorem evaluates_iff : s.Evaluates host source s' r ↔ ∃ w o, Finishes host t w o ∧ s1.ended w o = (s', r) := by
  rw [← start_eq same] at leads
  simp only [Evaluates, submit, checked, perform_iff, finishes_of_leads leads]

theorem evaluates_value {v : Value} (pending : t.pending = []) (value : t.control = .value v) :
    s.Evaluates host source s' r ↔ s' = { s1 with world := t.toWorld } ∧ r = .ok v := by
  have outcome : t.outcome? = some (.value v) := by rw [State.outcome?, pending, value]
  rw [evaluates_iff checked same leads]
  simp only [finishes_of_outcome outcome]
  constructor
  · rintro ⟨w, o, ⟨rfl, rfl⟩, result⟩
    cases result
    exact ⟨rfl, rfl⟩
  · rintro ⟨rfl, rfl⟩
    exact ⟨_, _, ⟨rfl, rfl⟩, rfl⟩

theorem evaluates_failure {e : Failure} (raised : t.control = .raise e) (v : Value) :
    ¬ s.Evaluates host source s' (.ok v) := by
  rw [evaluates_iff checked same leads]
  rintro ⟨w, o, finishes, result⟩
  obtain ⟨w', e', fails⟩ := finishes_of_raise host raised
  obtain ⟨rfl, -⟩ := finishes.unique fails
  cases result

end Ends

section Access

variable {address : String}

theorem filled (names : ∀ name ∈ Address.segments address, IsIdentifier name) :
    ∀ name ∈ Address.segments address, name ≠ "" := by
  rintro name member rfl
  obtain ⟨c, cs, empty⟩ := (names "" member).spells.ne_nil
  cases empty

/-- What a host reads is where the address leads. -/
theorem get_cases (s : Session) (names : ∀ name ∈ Address.segments address, IsIdentifier name) :
    (∃ v store, Address.follow s.store none [] (Address.segments address) = .ok (some v, store) ∧
      s.get address = (s.withStore store, .ok v)) ∨
    ∃ fault e, Address.follow s.store none [] (Address.segments address) = .error fault ∧
      s.get address = (s, .error e) := by
  obtain ⟨first, rest, whole, -⟩ := Address.exists_segments address
  rcases found : Address.follow s.store none [] (Address.segments address) with fault | ⟨c', store⟩
  · rcases read : Address.read s.store address with fault' | ⟨v, store⟩
    · exact .inr ⟨fault, _, rfl, by rw [get, read]; rfl⟩
    · cases found.symm.trans ((Address.read_ok_iff (filled names)).1 read)
  · obtain ⟨v, rfl⟩ := Address.follow_some (whole ▸ found)
    exact .inl ⟨v, store, rfl, by rw [get, (Address.read_ok_iff (filled names)).2 found]⟩

/-- The store may grow when a host reads, and nothing else happens. -/
theorem get_extends (s : Session) (address : String) :
    ∃ store, (s.get address).1 = s.withStore store ∧ s.store.Extends store := by
  unfold get
  split
  · next v store found => exact ⟨store, rfl, Address.extends_read found⟩
  · exact ⟨s.store, rfl, .refl _⟩

theorem get_iff_evaluates (reachable : s.Reachable host) (clear : s.reporter.blocked = false)
    (names : ∀ name ∈ Address.segments address, IsIdentifier name) (v : Value) :
    (s.get address).2 = .ok v ↔ ∃ s', s.Evaluates host address s' (.ok v) := by
  obtain ⟨first, rest, whole, -⟩ := Address.exists_segments address
  obtain ⟨s1, checked, world⟩ := check_address clear names whole
  obtain ⟨ok, error⟩ := leads_address host (s := s.start (.evaluate (Address.tree s.nextId first rest))) rfl
    (reachable.unset (Nat.le_refl _))
  rcases s.get_cases names with ⟨w, store, found, got⟩ | ⟨fault, e, missing, got⟩
  · rw [whole] at found
    simp only [got, evaluates_value checked world (ok w store found) rfl rfl, Except.ok.injEq]
    exact ⟨fun same => ⟨_, rfl, same.symm⟩, fun ⟨_, _, same⟩ => same.symm⟩
  · rw [whole] at missing
    obtain ⟨t, e', leads, raised⟩ := error fault missing
    rw [got]
    constructor
    · nofun
    · rintro ⟨s', evaluates⟩
      exact absurd evaluates (evaluates_failure checked world leads raised v)

/-- A write of the host and a text do the same, or both fail. -/
def Matches (host : Host) (s : Session) (written : Except Fault Store) (source : String) (v : Value) : Prop :=
  ∃ s1 control, s.check .expression source = (s1, .ok control) ∧ s1.world = s.world ∧
    ((∃ store t, written = .ok store ∧ Leads host (s.start control) t ∧ t.pending = [] ∧ t.control = .value v ∧
      t.store = store) ∨
    ∃ fault t e, written = .error fault ∧ Leads host (s.start control) t ∧ t.control = .raise e)

variable (reachable : s.Reachable host) (clear : s.reporter.blocked = false)
  (names : ∀ name ∈ Address.segments address, IsIdentifier name) {g : String} {v : Value} (hg : IsIdentifier g)
  (held : s.store.frames.fetch Store.globals g = some v)
include reachable clear names hg held

theorem matches_name {x : String} (whole : Address.segments address = [x]) :
    s.Matches host (Address.write s.store address v) (address ++ " = " ++ g) v := by
  obtain ⟨s1, checked, world⟩ := check_assignment_name clear names hg whole
  obtain ⟨written, unwritten⟩ := Address.write_name (v := v) whole (filled names)
  obtain ⟨ok, error⟩ := leads_assignName host
    (s := s.start (.evaluate (.assign (s.nextId + 2) ⟨x, 1⟩ (.variable (s.nextId + 1) ⟨g, 1⟩)))) rfl
    (reachable.unset (Nat.le_add_right _ 2)) (reachable.unset (Nat.le_add_right _ 1)) held
  refine ⟨s1, _, checked, world, ?_⟩
  rcases assigned : s.store.frames.assign Store.globals x v with _ | frames
  · obtain ⟨fault, failed⟩ := unwritten assigned
    obtain ⟨t, e, leads, raised⟩ := error assigned
    exact .inr ⟨fault, t, e, failed, leads, raised⟩
  · exact .inl ⟨_, _, written frames assigned, ok frames assigned, rfl, rfl, rfl⟩

theorem matches_field {first last : String} {rest : List String}
    (whole : Address.segments address = first :: (rest ++ [last])) :
    s.Matches host (Address.write s.store address v) (address ++ " = " ++ g) v := by
  obtain ⟨s1, checked, world⟩ := check_assignment_field clear names hg whole
  obtain ⟨written, unwritten⟩ := Address.write_field (v := v) whole (filled names)
  obtain ⟨ok, error⟩ := leads_set host (s := s.start
    (.evaluate (.set (Address.tree s.nextId first rest) ⟨last, 1⟩ (.variable (s.nextId + 1) ⟨g, 1⟩)))) rfl
    (reachable.unset (Nat.le_refl _)) (reachable.unset (Nat.le_add_right _ 1)) held
  refine ⟨s1, _, checked, world, ?_⟩
  by_cases object : ∃ r store, Address.follow s.store none [] (first :: rest) = .ok (some (.instance r), store)
  · obtain ⟨r, store, found⟩ := object
    exact .inl ⟨_, _, written r store found, ok r store found, rfl, rfl, rfl⟩
  · have other : ∀ r store, Address.follow s.store none [] (first :: rest) ≠ .ok (some (.instance r), store) :=
      fun r store found => object ⟨r, store, found⟩
    obtain ⟨fault, failed⟩ := unwritten other
    obtain ⟨t, e, leads, raised⟩ := error other
    exact .inr ⟨fault, t, e, failed, leads, raised⟩

theorem matches_write : s.Matches host (Address.write s.store address v) (address ++ " = " ++ g) v := by
  obtain ⟨first, rest, whole, -⟩ := Address.exists_segments address
  rcases List.eq_nil_or_concat rest with rfl | ⟨rest, last, rfl⟩
  · exact matches_name reachable clear names hg held whole
  · rw [List.concat_eq_append] at whole
    exact matches_field reachable clear names hg held whole

end Access

end Session

/-- A host that reads or sets at an address does what the address does as an expression, or as the target of an
assignment: both succeed or neither, with the same value, and an assignment leaves the same store. Reading changes
nothing that exists, and a write that fails changes nothing at all. -/
theorem access_eq_expression {host : Host} {s : Session} (reachable : s.Reachable host)
    (clear : s.reporter.blocked = false) {address : String}
    (names : ∀ name ∈ Address.segments address, IsIdentifier name) :
    (∀ v, (s.get address).2 = .ok v ↔ ∃ s', s.Evaluates host address s' (.ok v)) ∧
    (∀ g v, IsIdentifier g → s.store.frames.fetch Store.globals g = some v →
      ((s.set address v).2 = .ok () ↔ ∃ s' w, s.Evaluates host (address ++ " = " ++ g) s' (.ok w)) ∧
      ∀ s' w, s.Evaluates host (address ++ " = " ++ g) s' (.ok w) → s'.store = (s.set address v).1.store) ∧
    (∀ a, ∃ store, (s.get a).1 = s.withStore store ∧ s.store.Extends store) ∧
    ∀ a v e, (s.set a v).2 = .error e → (s.set a v).1 = s := by
  refine ⟨Session.get_iff_evaluates reachable clear names, ?_, s.get_extends, ?_⟩
  · intro g v hg held
    obtain ⟨s1, control, checked, world, result⟩ := Session.matches_write reachable clear names hg held
    rcases result with ⟨store, t, written, leads, pending, value, rfl⟩ | ⟨fault, t, e, failed, leads, raised⟩
    · have value (s' : Session) (r : Except Error Value) :
          s.Evaluates host (address ++ " = " ++ g) s' r ↔ s' = { s1 with world := t.toWorld } ∧ r = .ok v :=
        Session.evaluates_value checked world leads pending value
      simp only [Session.set, written, value]
      refine ⟨⟨fun _ => ⟨_, v, rfl, rfl⟩, fun _ => trivial⟩, ?_⟩
      rintro s' w ⟨rfl, -⟩
      rfl
    · have fails (s' : Session) (w : Value) : ¬ s.Evaluates host (address ++ " = " ++ g) s' (.ok w) :=
        Session.evaluates_failure checked world leads raised w
      simp only [Session.set, failed]
      refine ⟨⟨nofun, ?_⟩, fun s' w evaluates => absurd evaluates (fails s' w)⟩
      rintro ⟨s', w, evaluates⟩
      exact absurd evaluates (fails s' w)
  · intro a v e failed
    unfold Session.set at failed ⊢
    split
    · next store written =>
      rw [written] at failed
      cases failed
    · rfl

/-- A session in which `box` is an instance with a field, and `spare` holds another text. -/
def boxSession : Session :=
  let fresh := Session.withConsole ⟨#[], [], true, .zero⟩
  let (box, store) := fresh.store.addInstance ⟨0⟩
  ((fresh.withStore (store.setField box "value" (.text "one"))).define "box" (.instance box)).define "spare" (.text "two")

theorem boxSession_reachable (host : Host) : boxSession.Reachable host := by
  have kept := (Store.Kept.addInstance Store.bare.withLibrary ⟨0⟩).trans (.setField _ ⟨0⟩ "value" (.text "one"))
  exact (((Session.Reachable.fresh host _).withStore kept).define "box" (.instance ⟨0⟩)).define "spare" (.text "two")

/-- The field is read and set, by its address and by expressions. -/
theorem access_eq_expression_box :
    (∃ s', boxSession.Evaluates Host.empty "box.value" s' (.ok (.text "one"))) ∧
      ∃ s' w, boxSession.Evaluates Host.empty "box.value = spare" s' (.ok w) ∧
        s'.store = (boxSession.set "box.value" (.text "two")).1.store ∧ (s'.get "box.value").2 = .ok (.text "two") := by
  have box : IsIdentifier "box" := by cbv
  have value : IsIdentifier "value" := by cbv
  have spare : IsIdentifier "spare" := by cbv
  have whole : Address.segments "box.value" = ["box", "value"] := by cbv
  have names : ∀ name ∈ Address.segments "box.value", IsIdentifier name := by
    rw [whole]
    simp only [List.forall_mem_cons, box, value, List.not_mem_nil, false_implies, implies_true, and_self]
  obtain ⟨read, write, -⟩ := access_eq_expression (boxSession_reachable Host.empty) rfl names
  obtain ⟨same, stores⟩ := write "spare" (.text "two") spare rfl
  obtain ⟨s', w, evaluates⟩ := same.1 rfl
  have store := stores s' w evaluates
  refine ⟨(read (.text "one")).1 rfl, s', w, evaluates, store, ?_⟩
  unfold Session.get
  rw [store]
  rfl

end Scriptlet
