import Scriptlet.Proofs.SessionLaws
import Scriptlet.Proofs.Sites
import Scriptlet.Proofs.StoreLaws

/-!
The life of a session as a sequence of events. A trace tells which texts have been accepted, for which region of which
text every frame was opened, and whose initial value has been begun and ended in which frame. `Life` says which traces
and states a session can come to, by texts that run, calls of the host, and what a host may do to the store. Whatever a
host does through the operations of a session stays within that.
-/
namespace Scriptlet

open Scope (Site Region Context)

inductive Event where
  /-- A text has passed all checks; the site is that of the whole text. -/
  | accepted (root : Site)
  | opened (frame : Ref .frame) (region : Region)
  /-- The initial value of a variable is going to be computed in the frame. -/
  | begun (frame : Ref .frame) (name : String)
  | ended (frame : Ref .frame) (name : String)

/-- What has happened so far, the latest first. -/
abbrev Trace := List Event

/-- A method that is read is bound, in a frame of its own. -/
def Property.region? : Property → Option Region
  | .value _ => none
  | .method m _ => some (.receiver m.routine)

/-- The frame that a change of the store opens. -/
def opening (store : Store) (region? : Option Region) : Trace := (region?.map (.opened store.frames.next)).toList

namespace Machine

/-- For which region the step from this state opens a frame. -/
def State.opens? (host : Host) (s : State) : Option Region :=
  match s.control, s.pending with
  | .execute (.block body), _ => some (.block body)
  | .enter (.function (.closure c)) _, _ => some (.call c.routine)
  | .enter (.class _ _) _, _ =>
    match (step host s).control with
    | .enter (.function (.closure bound)) _ => some (.receiver bound.routine)
    | _ => none
  | .value v, .get name :: _ => (s.store.member? v name.text).bind Property.region?
  | .value (.instance r), .updateObject name _ _ :: _ => (s.store.property? r name.text).bind Property.region?
  | .value _, .index (.instance r) _ :: _ => (s.store.property? r "at").bind Property.region?
  | _, _ => none

/-- Whether the step begins or ends the initial value of a variable. -/
def State.initializer? (s : State) : Option Event :=
  match s.control, s.pending with
  | .execute (.var name (some _)), _ => some (.begun s.frame name.text)
  | .value _, .var name :: _ => some (.ended s.frame name.text)
  | _, _ => none

/-- What happens in the step from this state. -/
def State.events (host : Host) (s : State) : Trace := opening s.store (s.opens? host) ++ s.initializer?.toList

/-- The node that is evaluated now, and its name. An assignment is evaluated twice: its value is computed first. -/
def State.node? (s : State) : Option (NodeId × String) :=
  match s.control, s.pending with
  | .evaluate e, _ => (Part.expr e).node?
  | .value _, .assign id name :: _ => some (id, name.text)
  | _, _ => none

/-- The text that the machine starts with. -/
def Control.text : Control → Part
  | .program body => .stmts body
  | .evaluate e => .expr e
  | _ => .stmts []

end Machine

inductive Phase where
  | idle (session : Session)
  | running (session : Session) (machine : Machine.State)

/-- The site of a whole text, from which the analysis starts. -/
def rootSite (part : Part) (distances : Distances) : Site := ⟨part, [], ⟨[], none, .none, [], distances⟩⟩

/-- What a session can come to. -/
inductive Life (host : Host) : Trace → Phase → Prop
  | fresh (console : Console) : Life host [] (.idle (.withConsole console))
  | alter {t : Trace} {s : Session} {store : Store} : Life host t (.idle s) → s.store.Kept store →
      Life host t (.idle (s.withStore store))
  /-- The host reads a member of a value. -/
  | read {t : Trace} {s : Session} {v : Value} {name : String} {p : Property} : Life host t (.idle s) →
      s.store.member? v name = some p →
      Life host (opening s.store p.region? ++ t) (.idle (s.withStore (s.store.realize p).2))
  | reset {t : Trace} {s : Session} : Life host t (.idle s) → Life host t (.idle s.reset)
  | refuse {t : Trace} {s s' : Session} {form : Session.Form} {source : String} {e : Error} :
      Life host t (.idle s) → s.check form source = (s', .error e) → Life host t (.idle s')
  | accept {t : Trace} {s s' : Session} {form : Session.Form} {source : String} {control : Machine.Control} :
      Life host t (.idle s) → s.check form source = (s', .ok control) →
      Life host (.accepted (rootSite control.text s.world.distances) :: t) (.running s' (s'.start control))
  | call {t : Trace} {s : Session} (callee : Value) (arguments : List Value) : Life host t (.idle s) →
      Life host t (.running s (s.start (.invoke callee arguments .host)))
  | step {t : Trace} {s : Session} {m : Machine.State} : Life host t (.running s m) →
      Life host (m.events host ++ t) (.running s (Machine.step host m))
  /-- More input arrives, or time passes. -/
  | feed {t : Trace} {s : Session} {m : Machine.State} (console : Console) : Life host t (.running s m) →
      Life host t (.running s { m with console })
  | finish {t : Trace} {s s' : Session} {m : Machine.State} {result : Except Error Value} :
      Life host t (.running s m) → s.finish m = some (s', result) → Life host t (.idle s')

/-- A session that some life leads to. -/
def Session.Reachable (host : Host) (s : Session) : Prop := ∃ t, Life host t (.idle s)

namespace Life

variable {host : Host} {t : Trace} {s s' : Session}

theorem run (n : Nat) {m : Machine.State} (h : Life host t (.running s m)) :
    ∃ t', Life host t' (.running s (Machine.run host n m)) := by
  induction n generalizing t m with
  | zero => exact ⟨t, h⟩
  | succ n ih =>
    unfold Machine.run
    split
    · exact ⟨t, h⟩
    · exact ih h.step

theorem perform {control : Machine.Control} {limit : Nat} {result : Except Error Value}
    (h : Life host t (.running s (s.start control))) (hp : s.perform host limit control = some (s', result)) :
    s'.Reachable host := by
  obtain ⟨t', h'⟩ := h.run limit
  exact ⟨t', h'.finish hp⟩

end Life

/-- Of two computations in a row that succeed, each does. -/
theorem ok_of_bind {ε α β : Type} {x : Except ε α} {f : α → Except ε β} {b : β} (h : x >>= f = .ok b) :
    ∃ a, x = .ok a ∧ f a = .ok b := by
  cases x with
  | error e => cases h
  | ok a => exact ⟨a, rfl, h⟩

namespace Address

variable {store store' : Store} {address last : String}

/-- At the end of the way, a read takes the member. -/
theorem read_of_walk {container : Option Value} (hw : walk store address = .ok (container, last, store')) :
    read store address = (member? store' container last).elim (.error (.undefinedAddress address)) .ok := by
  cases hm : member? store' container last with
  | none => simp only [read, hw, hm, bind, Except.bind, Option.elim_none]
  | some found => simp only [read, hw, hm, bind, Except.bind, pure, Except.pure, Option.elim_some]

theorem exists_of_read {v : Value} (h : read store address = .ok (v, store')) : ∃ container last there,
    walk store address = .ok (container, last, there) ∧ member? there container last = some (v, store') := by
  obtain ⟨⟨container, last, there⟩, hw, -⟩ := ok_of_bind h
  refine ⟨container, last, there, hw, ?_⟩
  rw [read_of_walk hw] at h
  cases hm : member? there container last with
  | none =>
    rw [hm] at h
    cases h
  | some found =>
    rw [hm] at h
    cases h
    rfl

/-- Without a container, a write assigns the global. -/
theorem write_of_walk (hw : walk store address = .ok (none, last, store')) (value : Value) :
    write store address value = (store'.frames.assign Store.globals last value).elim
      (.error (.undefinedAddress address)) fun frames => .ok { store' with frames } := by
  cases ha : store'.frames.assign Store.globals last value with
  | none => simp only [write, hw, ha, bind, Except.bind, Option.elim_none]
  | some frames => simp only [write, hw, ha, bind, Except.bind, pure, Except.pure, Option.elim_some]

/-! What holds of a store holds after a walk too, when reading a member of a value keeps it. -/
section Walks

variable {P : Store → Prop} {container c' : Option Value} {v : Value}
  (reads : ∀ s v name p, P s → s.member? v name = some p → P (s.realize p).2)
include reads

theorem member?_keeps {name : String} (h : P store) (hm : member? store container name = some (v, store')) :
    P store' := by
  cases container with
  | none =>
    obtain ⟨w, -, he⟩ := Option.map_eq_some_iff.1 hm
    cases he
    exact h
  | some c =>
    obtain ⟨p, hp, he⟩ := Option.map_eq_some_iff.1 hm
    have realized := reads store c name p h hp
    rwa [he] at realized

theorem follow_keeps {seen names : List String} (h : P store)
    (hf : follow store container seen names = .ok (c', store')) : P store' := by
  induction names generalizing store container seen with
  | nil =>
    cases hf
    exact h
  | cons name names ih =>
    unfold follow at hf
    dsimp only at hf
    split at hf
    · next found => exact ih (member?_keeps reads h found) hf
    · cases hf

theorem walk_keeps (h : P store) (hw : walk store address = .ok (container, last, store')) : P store' := by
  obtain ⟨names, -, found⟩ := ok_of_bind hw
  obtain ⟨way, hf, ends⟩ := ok_of_bind found
  cases ends
  exact follow_keeps reads h hf

theorem read_keeps (h : P store) (hr : read store address = .ok (v, store')) : P store' := by
  obtain ⟨container, last, there, hw, hm⟩ := exists_of_read hr
  exact member?_keeps reads (walk_keeps reads h hw) hm

theorem write_keeps (defines : ∀ s name v, P s → P (s.define Store.globals name v))
    (sets : ∀ s r name v, P s → P (s.setField r name v)) (h : P store) (hr : write store address v = .ok store') :
    P store' := by
  obtain ⟨⟨container, last, there⟩, hw, written⟩ := ok_of_bind hr
  have walked := walk_keeps reads h hw
  cases container with
  | none =>
    rw [write_of_walk hw] at hr
    cases ha : there.frames.assign Store.globals last v with
    | none =>
      rw [ha] at hr
      cases hr
    | some frames =>
      rw [ha] at hr
      cases hr
      obtain ⟨o, ho, rfl⟩ := Option.map_eq_some_iff.1 ha
      obtain rfl := Frames.owner?_globals ho
      exact defines there last v walked
  | some c =>
    cases c with
    | «instance» r =>
      cases written
      exact sets there r last v walked
    | _ => cases written

end Walks

end Address

namespace Session.Reachable

variable {host : Host} {s s' : Session}

theorem fresh (host : Host) (console : Console) : (Session.withConsole console).Reachable host := ⟨[], .fresh console⟩

theorem submit {limit : Nat} {form : Session.Form} {source : String} {result : Except Error Value}
    (h : s.Reachable host) (hs : s.submit host limit form source = some (s', result)) : s'.Reachable host := by
  obtain ⟨t, life⟩ := h
  unfold Session.submit at hs
  rcases hc : s.check form source with ⟨s1, e | control⟩
  · rw [hc] at hs
    cases hs
    exact ⟨t, life.refuse hc⟩
  · rw [hc] at hs
    exact (life.accept hc).perform hs

theorem call {limit : Nat} {callee : Value} {arguments : List Value} {result : Except Error Value}
    (h : s.Reachable host) (hc : s.call host limit callee arguments = some (s', result)) : s'.Reachable host := by
  obtain ⟨t, life⟩ := h
  exact (life.call callee arguments).perform hc

theorem create {limit : Nat} {value : Value} {arguments : List Value} {result : Except Error Value}
    (h : s.Reachable host) (hc : s.create host limit value arguments = some (s', result)) : s'.Reachable host := by
  unfold Session.create at hc
  split at hc
  · exact h.call hc
  · cases hc
    exact h

theorem withStore {store : Store} (h : s.Reachable host) (kept : s.store.Kept store) : (s.withStore store).Reachable host := by
  obtain ⟨t, life⟩ := h
  exact ⟨t, life.alter kept⟩

theorem define (h : s.Reachable host) (name : String) (value : Value) : (s.define name value).Reachable host :=
  h.withStore (.defineGlobal _ name value)

theorem reset (h : s.Reachable host) : s.reset.Reachable host := by
  obtain ⟨t, life⟩ := h
  exact ⟨t, life.reset⟩

theorem realize (h : s.Reachable host) {v : Value} {name : String} {p : Property}
    (hp : s.store.member? v name = some p) : (s.withStore (s.store.realize p).2).Reachable host := by
  obtain ⟨t, life⟩ := h
  exact ⟨_, life.read hp⟩

theorem get (h : s.Reachable host) (address : String) : (s.get address).1.Reachable host := by
  unfold Session.get
  split
  · next read =>
    exact Address.read_keeps (P := fun store => (s.withStore store).Reachable host)
      (fun store _ _ _ there found => realize (s := s.withStore store) there found) h read
  · exact h

theorem set (h : s.Reachable host) (address : String) (value : Value) : (s.set address value).1.Reachable host := by
  unfold Session.set
  split
  · next written =>
    exact Address.write_keeps (P := fun store => (s.withStore store).Reachable host)
      (fun store _ _ _ there found => realize (s := s.withStore store) there found)
      (fun store name v there => withStore (s := s.withStore store) there (.defineGlobal store name v))
      (fun store r name v there => withStore (s := s.withStore store) there (.setField store r name v)) h written
  · exact h

end Session.Reachable

end Scriptlet
