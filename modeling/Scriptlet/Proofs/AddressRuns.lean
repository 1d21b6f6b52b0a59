import Scriptlet.Proofs.AddressTexts
import Scriptlet.Proofs.CallSites
import Scriptlet.Proofs.Reachability

/-!
The two ways to follow an address. A host walks from member to member; the machine evaluates the reads one inside of the
other, and comes to the same value in the same store, or fails where the host does. Nothing that exists is changed on the
way: a method that is read gets a new frame and a new function.
-/
namespace Scriptlet

/-- Everything that exists in the one store is the same in the other. -/
def Store.Extends (s t : Store) : Prop := ∀ x c, s.content? x = some c → t.content? x = some c

namespace Store

variable {s t u : Store}

theorem Extends.refl (s : Store) : s.Extends s := fun _ _ h => h

theorem Extends.trans (h : s.Extends t) (h' : t.Extends u) : s.Extends u := fun x c hc => h' x c (h x c hc)

/-- A new object leaves the others alone. -/
theorem extends_alloc {k : ObjectKind} {a : Content k} : s.Extends (s.withHeap k ((s.heap k).alloc a)) := by
  intro x c hc
  refine (content?_withHeap_of_ne get?_alloc_of_ne ?_).trans hc
  rintro rfl
  rw [content?_next] at hc
  cases hc

theorem extends_realize (s : Store) (p : Property) : s.Extends (s.realize p).2 := by
  cases p with
  | value v => exact .refl s
  | method m receiver =>
    have frame : s.Extends (s.bind m receiver).2 := extends_alloc (k := .frame)
    exact frame.trans (extends_alloc (k := .function))

theorem Extends.fetch (h : s.Extends t) {f : Ref .frame} {name : String} {v : Value}
    (hv : s.frames.fetch f name = some v) : t.frames.fetch f name = some v := by
  obtain ⟨a, ha, hv⟩ := Option.bind_eq_some_iff.1 hv
  have same : t.frames.get? f = some a := h ⟨.frame, f⟩ a ha
  rw [Frames.fetch, same]
  exact hv

end Store

namespace Address

variable {store store' : Store} {container c' : Option Value} {seen names : List String} {v : Value}

theorem extends_follow (h : follow store container seen names = .ok (c', store')) : store.Extends store' :=
  follow_keeps (P := store.Extends) (fun s _ _ p before _ => before.trans (s.extends_realize p)) (.refl _) h

theorem extends_read {address : String} (h : read store address = .ok (v, store')) : store.Extends store' :=
  read_keeps (P := store.Extends) (fun s _ _ p before _ => before.trans (s.extends_realize p)) (.refl _) h

/-- After a name there is a value. -/
theorem follow_some {name : String} (h : follow store container seen (name :: names) = .ok (c', store')) :
    ∃ v, c' = some v := by
  induction names generalizing store container seen name with
  | nil =>
    rw [follow] at h
    split at h
    · next w next hm =>
      cases h
      exact ⟨w, rfl⟩
    · cases h
  | cons other names ih =>
    rw [follow] at h
    split at h
    · exact ih h
    · cases h

/-- The last name of an address is looked up in what the others lead to. -/
theorem follow_concat (last : String) : (∃ fault, follow store container seen names = .error fault ∧
      ∃ fault', follow store container seen (names ++ [last]) = .error fault') ∨
    ∃ c' store', follow store container seen names = .ok (c', store') ∧
      ((∃ v store'', member? store' c' last = some (v, store'') ∧
        follow store container seen (names ++ [last]) = .ok (some v, store'')) ∨
      member? store' c' last = none ∧ ∃ fault, follow store container seen (names ++ [last]) = .error fault) := by
  induction names generalizing store container seen with
  | nil =>
    refine .inr ⟨container, store, rfl, ?_⟩
    rw [List.nil_append, follow]
    split
    · next w next hm => exact .inl ⟨w, next, hm, rfl⟩
    · next hm => exact .inr ⟨hm, _, rfl⟩
  | cons name names ih =>
    rw [List.cons_append, follow, follow]
    split
    · exact ih
    · exact .inl ⟨_, rfl, _, rfl⟩

/-- Where no name is empty, an address leads to the container of its last name. -/
theorem walk_eq {address last : String} (names : List String) (whole : segments address = names ++ [last])
    (filled : ∀ name ∈ segments address, name ≠ "") :
    walk store address = (follow store none [] names).map fun found => (found.1, last, found.2) := by
  have wellFormed : split address = .ok (names, last) := by
    have none : (segments address).any String.isEmpty = false := by
      rw [List.any_eq_false]
      intro name hn empty
      exact filled name hn (String.isEmpty_iff.1 empty)
    rw [whole] at none
    simp only [split, whole, none, Bool.false_eq_true, if_false, List.dropLast_concat, List.getLastD_concat]
  rw [walk, wellFormed]
  change (follow store Option.none [] names >>= _) = _
  cases follow store Option.none [] names <;> rfl

/-- Reading an address follows all of its names. -/
theorem read_ok_iff {address : String} (filled : ∀ name ∈ segments address, name ≠ "") :
    read store address = .ok (v, store') ↔ follow store none [] (segments address) = .ok (some v, store') := by
  obtain ⟨first, rest, whole, -⟩ := exists_segments address
  obtain ⟨names, last, split⟩ : ∃ names last, segments address = names ++ [last] :=
    ⟨_, _, (List.dropLast_append_getLast (whole ▸ List.cons_ne_nil first rest)).symm⟩
  have walked : walk store address = _ := walk_eq names split filled
  rw [split]
  rcases follow_concat last with ⟨fault, hf, fault', hc⟩ | ⟨c', store1, hf, ⟨w, store2, hm, hc⟩ | ⟨hm, fault, hc⟩⟩
  · have fails : read store address = .error fault := by
      rw [read, walked, hf]
      rfl
    rw [fails, hc]
    simp
  · rw [hf] at walked
    rw [read_of_walk walked, hm, hc]
    simp
  · rw [hf] at walked
    rw [read_of_walk walked, hm, hc]
    simp

/-- An address of one name rebinds a global. -/
theorem write_name {address x : String} (whole : segments address = [x]) (filled : ∀ name ∈ segments address, name ≠ "") :
    (∀ frames, store.frames.assign Store.globals x v = some frames →
      write store address v = .ok { store with frames := frames }) ∧
    (store.frames.assign Store.globals x v = none → ∃ fault, write store address v = .error fault) := by
  have walked : walk store address = .ok (none, x, store) := walk_eq [] whole filled
  rw [write_of_walk walked]
  constructor
  · intro frames assigned
    rw [assigned, Option.elim_some]
  · intro missing
    rw [missing, Option.elim_none]
    exact ⟨_, rfl⟩

/-- A longer address sets a field of an instance. -/
theorem write_field {address first last : String} {rest : List String}
    (whole : segments address = first :: (rest ++ [last])) (filled : ∀ name ∈ segments address, name ≠ "") :
    (∀ r store', follow store none [] (first :: rest) = .ok (some (.instance r), store') →
      write store address v = .ok (store'.setField r last v)) ∧
    ((∀ r store', follow store none [] (first :: rest) ≠ .ok (some (.instance r), store')) →
      ∃ fault, write store address v = .error fault) := by
  rw [write, walk_eq (first :: rest) whole filled]
  constructor
  · intro r store' found
    rw [found]
    rfl
  · intro other
    rcases found : follow store none [] (first :: rest) with fault | ⟨c', store'⟩
    · exact ⟨fault, rfl⟩
    · obtain ⟨w, rfl⟩ := follow_some found
      cases w with
      | «instance» r => exact absurd found (other r store')
      | _ => exact ⟨_, rfl⟩

end Address

namespace Machine

/-- A run comes from one state to the other. -/
def Leads (host : Host) (s t : State) : Prop := ∃ n, run host n s = t

section Leads

variable {host : Host} {s t u : State}

theorem Leads.refl (s : State) : Leads host s s := ⟨0, rfl⟩

theorem Leads.trans (h : Leads host s t) (h' : Leads host t u) : Leads host s u := by
  obtain ⟨m, rfl⟩ := h
  obtain ⟨n, rfl⟩ := h'
  exact ⟨m + n, run_add m n s⟩

theorem Leads.of_step (h : step host s = t) : Leads host s t := by
  refine ⟨1, ?_⟩
  rw [run_succ, h]
  rfl

/-- A run ends in a world, with an outcome. -/
def Finishes (host : Host) (s : State) (w : World) (o : Outcome) : Prop :=
  ∃ t, Leads host s t ∧ t.outcome? = some o ∧ t.toWorld = w

/-- A run ends as it does from any state on its way. -/
theorem finishes_of_leads {w : World} {o : Outcome} (h : Leads host s t) :
    Finishes host s w o ↔ Finishes host t w o := by
  constructor
  · rintro ⟨u, leads, outcome, world⟩
    obtain ⟨m, rfl⟩ := h
    obtain ⟨n, rfl⟩ := leads
    have halted : (run host n s).outcome?.isSome = true := by rw [outcome, Option.isSome_some]
    refine ⟨run host n (run host m s), ⟨n, rfl⟩, ?_⟩
    rw [← run_add, Nat.add_comm, run_add, run_halted m halted]
    exact ⟨outcome, world⟩
  · rintro ⟨u, leads, outcome, world⟩
    exact ⟨u, h.trans leads, outcome, world⟩

/-- A state that has an outcome is where its run ends. -/
theorem finishes_of_outcome {w : World} {o o' : Outcome} (h : s.outcome? = some o') :
    Finishes host s w o ↔ o = o' ∧ w = s.toWorld := by
  have halted : s.outcome?.isSome = true := by rw [h, Option.isSome_some]
  constructor
  · rintro ⟨u, ⟨n, rfl⟩, outcome, rfl⟩
    rw [run_halted n halted] at outcome ⊢
    exact ⟨Option.some.inj (outcome.symm.trans h), rfl⟩
  · rintro ⟨rfl, rfl⟩
    exact ⟨s, .refl s, h, rfl⟩

/-- A failure comes to the end of everything that is pending. -/
theorem finishes_of_raise (host : Host) {e : Failure} (hc : s.control = .raise e) : ∃ w e', Finishes host s w (.failure e') := by
  obtain ⟨control, pending⟩ := run_raise host hc (List.append_nil s.pending).symm
  refine ⟨_, s.pending.foldl Failure.through e, _, ⟨s.pending.length, rfl⟩, ?_, rfl⟩
  rw [State.outcome?, pending, control]

/-- A run that ends in one way does not end in another. -/
theorem Finishes.unique {w w' : World} {o o' : Outcome} (h : Finishes host s w o) (h' : Finishes host s w' o') :
    o = o' ∧ w = w' := by
  obtain ⟨t, leads, outcome, rfl⟩ := h'
  exact (finishes_of_outcome outcome).1 ((finishes_of_leads leads).1 h)

end Leads

section Paths

variable (host : Host) {s : State} {v : Value} {names : List String} {rest : List Pending}

/-- Looking up a member of a value is what a host does. -/
theorem step_get {name : Name} (hc : s.control = .value v) (hp : s.pending = .get name :: rest) :
    (∀ w store, Address.member? s.store (some v) name.text = some (w, store) →
      step host s = { s with store := store, control := .value w, pending := rest }) ∧
    (Address.member? s.store (some v) name.text = none → ∃ e, (step host s).control = .raise e) := by
  simp only [step, hc, hp, resume, Address.member?]
  constructor
  · intro w store hm
    obtain ⟨p, found, he⟩ := Option.map_eq_some_iff.1 hm
    cases v with
    | «instance» r | «class» r =>
      simp only [found, State.realize, he]
      rfl
    | _ => cases found
  · intro hm
    have missing := Option.map_eq_none_iff.1 hm
    cases v with
    | «instance» r | «class» r =>
      simp only [missing]
      exact ⟨_, rfl⟩
    | _ => exact ⟨_, rfl⟩

/-- Members that are looked up one in the other. -/
theorem leads_members (seen names : List String) (hc : s.control = .value v)
    (hp : s.pending = names.map (fun name => .get ⟨name, 1⟩) ++ rest) :
    (∀ w store, Address.follow s.store (some v) seen names = .ok (some w, store) →
      Leads host s { s with store := store, control := .value w, pending := rest }) ∧
    (∀ fault, Address.follow s.store (some v) seen names = .error fault → ∃ t e, Leads host s t ∧ t.control = .raise e) := by
  induction names generalizing s v seen with
  | nil =>
    constructor
    · intro w store hf
      cases hf
      have pending : s.pending = rest := hp
      have same : s = { s with control := .value v, pending := rest } := by rw [← hc, ← pending]
      exact ⟨0, same⟩
    · intro fault hf
      cases hf
  | cons name names ih =>
    obtain ⟨found, missing⟩ := step_get host hc hp
    rw [Address.follow]
    rcases hm : Address.member? s.store (some v) name with _ | ⟨w, store⟩
    · obtain ⟨e, raised⟩ := missing hm
      exact ⟨nofun, fun fault _ => ⟨_, e, .of_step rfl, raised⟩⟩
    · have first := Leads.of_step (found w store hm)
      obtain ⟨ok, error⟩ := ih (s := { s with store := store, control := .value w, pending := _ }) (seen ++ [name]) rfl rfl
      exact ⟨fun w' store' hf => first.trans (ok w' store' hf), fun fault hf => by
        obtain ⟨t, e, leads, raised⟩ := error fault hf
        exact ⟨t, e, first.trans leads, raised⟩⟩

theorem leads_gets {e : Expr} (hc : s.control = .evaluate (names.foldl (fun e name => .get e ⟨name, 1⟩) e)) :
    Leads host s { s with control := .evaluate e, pending := names.map (fun name => .get ⟨name, 1⟩) ++ s.pending } := by
  induction names generalizing e with
  | nil =>
    have same : s = { s with control := .evaluate e } := by rw [← (show s.control = .evaluate e from hc)]
    exact ⟨0, same⟩
  | cons name names ih =>
    refine (ih hc).trans (.of_step ?_)
    rfl

/-- A global that is read. -/
theorem leads_global {id : NodeId} {name : Name} (hc : s.control = .evaluate (.variable id name))
    (hd : s.distances.get? id = none) (hv : s.store.frames.fetch Store.globals name.text = some v) :
    Leads host s { s with control := .value v } := by
  refine .of_step ?_
  simp only [step, hc, evaluate, State.lookup, hd, hv]
  rfl

/-- The machine follows an address as a host does. -/
theorem leads_address {id : NodeId} {first : String} (hc : s.control = .evaluate (Address.tree id first names))
    (hd : s.distances.get? id = none) :
    (∀ w store, Address.follow s.store none [] (first :: names) = .ok (some w, store) →
      Leads host s { s with store := store, control := .value w }) ∧
    (∀ fault, Address.follow s.store none [] (first :: names) = .error fault →
      ∃ t e, Leads host s t ∧ t.control = .raise e) := by
  have down := leads_gets host hc
  rw [Address.follow, Address.member?]
  rcases hv : s.store.frames.fetch Store.globals first with _ | v
  · refine ⟨nofun, fun fault _ => ⟨_, .runtime 1 (.undefinedVariable first), down.trans (.of_step rfl), ?_⟩⟩
    simp only [step, evaluate, State.lookup, hd, hv]
    rfl
  · have read := down.trans (leads_global host rfl hd hv)
    obtain ⟨ok, error⟩ := leads_members host
      (s := { s with control := .value v, pending := names.map (fun name => .get ⟨name, 1⟩) ++ s.pending })
      [first] names rfl rfl
    refine ⟨fun w store hf => read.trans (ok w store hf), fun fault hf => ?_⟩
    obtain ⟨t, e, leads, raised⟩ := error fault hf
    exact ⟨t, e, read.trans leads, raised⟩

/-- A global is rebound as a host does it. -/
theorem leads_assignName {id id' : NodeId} {x g : Name} (hc : s.control = .evaluate (.assign id x (.variable id' g)))
    (hd : s.distances.get? id = none) (hd' : s.distances.get? id' = none)
    (hg : s.store.frames.fetch Store.globals g.text = some v) :
    (∀ frames, s.store.frames.assign Store.globals x.text v = some frames →
      Leads host s { s with store := { s.store with frames := frames }, control := .value v }) ∧
    (s.store.frames.assign Store.globals x.text v = none → ∃ t e, Leads host s t ∧ t.control = .raise e) := by
  have down : Leads host s (s.push (.assign id x) (.evaluate (.variable id' g))) := .of_step (by simp only [step, hc]; rfl)
  have read := down.trans (leads_global host (s := s.push (.assign id x) (.evaluate (.variable id' g))) rfl hd' hg)
  unfold Frames.assign
  constructor
  · intro frames assigned
    obtain ⟨o, owner, rfl⟩ := Option.map_eq_some_iff.1 assigned
    refine read.trans (.of_step ?_)
    simp only [step, State.push, resume, State.target?, hd, owner]
    rfl
  · intro missing
    have owner := Option.map_eq_none_iff.1 missing
    refine ⟨_, .runtime x.line (.undefinedVariable x.text), read.trans (.of_step rfl), ?_⟩
    simp only [step, State.push, resume, State.target?, hd, owner]
    rfl

/-- A field is set as a host does it. The value is read in what the object has made of the store. -/
theorem leads_set {id id' : NodeId} {first : String} {last g : Name}
    (hc : s.control = .evaluate (.set (Address.tree id first names) last (.variable id' g)))
    (hd : s.distances.get? id = none) (hd' : s.distances.get? id' = none)
    (hg : s.store.frames.fetch Store.globals g.text = some v) :
    (∀ r store, Address.follow s.store none [] (first :: names) = .ok (some (.instance r), store) →
      Leads host s { s with store := store.setField r last.text v, control := .value v }) ∧
    ((∀ r store, Address.follow s.store none [] (first :: names) ≠ .ok (some (.instance r), store)) →
      ∃ t e, Leads host s t ∧ t.control = .raise e) := by
  have down : Leads host s (s.push (.setObject last (.variable id' g)) (.evaluate (Address.tree id first names))) :=
    .of_step (by simp only [step, hc]; rfl)
  obtain ⟨ok, error⟩ := leads_address host
    (s := s.push (.setObject last (.variable id' g)) (.evaluate (Address.tree id first names))) rfl hd
  constructor
  · intro r store hf
    have object := down.trans (ok (.instance r) store hf)
    have value : store.frames.fetch Store.globals g.text = some v := (Address.extends_follow hf).fetch hg
    have read := (object.trans (.of_step rfl)).trans (leads_global host rfl hd' value)
    exact read.trans (.of_step rfl)
  · intro other
    rcases hf : Address.follow s.store none [] (first :: names) with fault | ⟨c', store⟩
    · obtain ⟨t, e, leads, raised⟩ := error fault hf
      exact ⟨t, e, down.trans leads, raised⟩
    · obtain ⟨w, rfl⟩ := Address.follow_some hf
      have object := down.trans (ok w store hf)
      cases w with
      | «instance» r => exact absurd hf (other r store)
      | _ => exact ⟨_, _, object.trans (.of_step rfl), rfl⟩

/-- Globals for arguments are read one after the other, and then the call is made. -/
theorem leads_arguments (callee : Value) (done : List Value) (line : Nat) {gs : List String} {vs : List Value} {id : NodeId}
    (hd : ∀ i, id ≤ i → s.distances.get? i = none)
    (hg : List.Forall₂ (fun g v => s.store.frames.fetch Store.globals g = some v) gs vs) :
    Leads host (evaluateArguments s callee done (argumentTrees id gs) line)
      { s with control := .invoke callee (done ++ vs) (.script line) } := by
  induction gs generalizing s vs id done with
  | nil =>
    cases hg
    rw [List.append_nil]
    exact .refl _
  | cons g gs ih =>
    obtain ⟨v, vs, hv, others, rfl⟩ := List.forall₂_cons_left_iff.1 hg
    have read := leads_global host (s := s.push (.arguments callee done (argumentTrees (id + 1) gs) line)
      (.evaluate (.variable id ⟨g, 1⟩))) rfl (hd id (Nat.le_refl id)) hv
    have next := read.trans (.of_step rfl)
    rw [List.append_cons]
    exact next.trans (ih (done ++ [v]) (s := { s with control := .value v }) (fun i hi => hd i (Nat.le_of_succ_le hi)) others)

/-- A call comes to its callee, reads its arguments in what that has made of the store, and is made. -/
theorem leads_call {id id' : NodeId} {first : String} {gs : List String} {vs : List Value} {line : Nat}
    (hc : s.control = .evaluate (.call (Address.tree id first names) (argumentTrees id' gs) line))
    (hd : s.distances.get? id = none) (hd' : ∀ i, id' ≤ i → s.distances.get? i = none)
    (hg : List.Forall₂ (fun g v => s.store.frames.fetch Store.globals g = some v) gs vs) :
    (∀ w store, Address.follow s.store none [] (first :: names) = .ok (some w, store) →
      Leads host s { s with store := store, control := .invoke w vs (.script line) }) ∧
    (∀ fault, Address.follow s.store none [] (first :: names) = .error fault →
      ∃ t e, Leads host s t ∧ t.control = .raise e) := by
  have down : Leads host s (s.push (.callee (argumentTrees id' gs) line) (.evaluate (Address.tree id first names))) :=
    .of_step (by simp only [step, hc]; rfl)
  obtain ⟨ok, error⟩ := leads_address host
    (s := s.push (.callee (argumentTrees id' gs) line) (.evaluate (Address.tree id first names))) rfl hd
  constructor
  · intro w store hf
    have arguments := leads_arguments host (s := { s with store := store, control := .value w }) w [] line hd'
      (hg.imp fun g v hv => (Address.extends_follow hf).fetch hv)
    exact (down.trans (ok w store hf)).trans (.trans (.of_step rfl) arguments)
  · intro fault hf
    obtain ⟨t, e, leads, raised⟩ := error fault hf
    exact ⟨t, e, down.trans leads, raised⟩

end Paths

end Machine

end Scriptlet
