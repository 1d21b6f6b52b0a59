import Mathlib.Data.Finmap
import Scriptlet.Proofs.NumberValues
import Scriptlet.Proofs.Storage

/-!
Maps are finite partial functions. `MapMethod.on` says what a method makes of such a function, and the machine does as it
says, for all maps of a session and over all calls of their methods. Values are keys as what they are, apart from the two
zeros, which are one key.
-/
namespace Scriptlet

namespace Table

variable {κ α : Type}

/-- The entries of a table, in no order. -/
def toFinmap (t : Table κ α) : Finmap fun _ : κ => α :=
  AList.toFinmap ⟨t.entries.map fun e => ⟨e.1, e.2⟩, by
    rw [List.NodupKeys, List.keys, List.map_map]
    exact t.nodup⟩

theorem card_toFinmap (t : Table κ α) : t.toFinmap.keys.card = t.size := by
  rw [toFinmap, Finset.card, Finmap.keys_val, Multiset.coe_card, AList.keys, List.keys, List.length_map, List.length_map,
    size]

variable [DecidableEq κ] (t : Table κ α)

theorem lookup_toFinmap (k : κ) : t.toFinmap.lookup k = t.get? k := by
  rw [toFinmap, Finmap.lookup_toFinmap, AList.lookup, get?]
  dsimp only
  induction t.entries with
  | nil => rfl
  | cons e es ih =>
    unfold find
    split
    · next same =>
      subst same
      exact List.dlookup_cons_eq _ _ _
    · next other => rw [List.map_cons, List.dlookup_cons_ne _ (⟨e.1, e.2⟩ : Σ _ : κ, α) (Ne.symm other), ih]

theorem mem_toFinmap {k : κ} : k ∈ t.toFinmap ↔ t.contains k = true := by
  rw [← Finmap.lookup_isSome, lookup_toFinmap, contains]

theorem toFinmap_insert (k : κ) (v : α) : (t.insert k v).toFinmap = t.toFinmap.insert k v := by
  refine Finmap.ext_lookup fun j => ?_
  rw [lookup_toFinmap, get?_insert]
  split
  · next same => rw [same, Finmap.lookup_insert]
  · next other => rw [Finmap.lookup_insert_of_ne _ other, lookup_toFinmap]

theorem toFinmap_erase (k : κ) : (t.erase k).toFinmap = t.toFinmap.erase k := by
  refine Finmap.ext_lookup fun j => ?_
  rw [lookup_toFinmap, get?_erase]
  split
  · next same => rw [same, Finmap.lookup_erase]
  · next other => rw [Finmap.lookup_erase_ne other, lookup_toFinmap]

end Table

namespace MapMethod

/-- What a method of a partial function yields and what the function is then, unless the call fails. -/
def on (f : Finmap fun _ : Value.Key => Value) (m : MapMethod) (arguments : List Value) :
    Option (Value × Finmap fun _ : Value.Key => Value) :=
  match m, arguments with
  | .add, [v, w] => do
    let k ← v.key?
    if k ∈ f then none else return (.null, f.insert k w)
  | .at, [v] => do
    let k ← v.key?
    return (← f.lookup k, f)
  | .setAt, [v, w] => do
    let k ← v.key?
    return (w, f.insert k w)
  | .contains, [v] => do
    let k ← v.key?
    return (.boolean (k ∈ f), f)
  | .remove, [v] => do
    let k ← v.key?
    return ((f.lookup k).getD .null, f.erase k)
  | .count, [] => some (.number (.ofNat f.keys.card), f)
  | _, _ => none

theorem toOption_keyed {α β : Type} (view : α → β) (v : Value) {f : Value.Key → Except Fault α} {g : Value.Key → Option β}
    (same : ∀ k, (f k).toOption.map view = g k) : (key v >>= f).toOption.map view = v.key? >>= g := by
  unfold key
  cases v.key? with
  | none => rfl
  | some k => exact same k

variable {m : MapMethod} {arguments : List Value}

theorem length_of_on {f : Finmap fun _ : Value.Key => Value} (some : on f m arguments ≠ none) :
    arguments.length = m.arity := by
  unfold on at some
  split at some
  case h_7 => exact absurd rfl some
  all_goals rfl

theorem apply_misfit (display : Value → String) (t : Table Value.Key Value) (misfit : arguments.length ≠ m.arity) :
    m.apply display t arguments = .error (.arity m.arity arguments.length) := by
  unfold apply
  split
  case h_7 => rfl
  all_goals exact absurd rfl misfit

/-- The methods do as is said of partial functions. -/
theorem toOption_apply (display : Value → String) (t : Table Value.Key Value) (m : MapMethod) (arguments : List Value) :
    (m.apply display t arguments).toOption.map (Prod.map id Table.toFinmap) = on t.toFinmap m arguments := by
  by_cases fits : arguments.length = m.arity
  · cases m with
    | add =>
      obtain ⟨v, w, rfl⟩ := List.length_eq_two.1 fits
      refine toOption_keyed _ v fun k => ?_
      simp only [Table.mem_toFinmap, ← Table.toFinmap_insert]
      split <;> rfl
    | «at» =>
      obtain ⟨v, rfl⟩ := List.length_eq_one_iff.1 fits
      refine toOption_keyed _ v fun k => ?_
      rw [Table.lookup_toFinmap]
      cases t.get? k <;> rfl
    | setAt =>
      obtain ⟨v, w, rfl⟩ := List.length_eq_two.1 fits
      refine toOption_keyed _ v fun k => ?_
      rw [← Table.toFinmap_insert]
      rfl
    | contains =>
      obtain ⟨v, rfl⟩ := List.length_eq_one_iff.1 fits
      refine toOption_keyed _ v fun k => ?_
      simp only [Table.mem_toFinmap, Bool.decide_eq_true]
      rfl
    | remove =>
      obtain ⟨v, rfl⟩ := List.length_eq_one_iff.1 fits
      refine toOption_keyed _ v fun k => ?_
      rw [Table.lookup_toFinmap, ← Table.toFinmap_erase]
      rfl
    | count =>
      obtain rfl := List.length_eq_zero_iff.1 fits
      change some (Value.number (.ofNat t.size), t.toFinmap) = some (.number (.ofNat t.toFinmap.keys.card), t.toFinmap)
      rw [Table.card_toFinmap]
  · have fails : on t.toFinmap m arguments = none := by
      by_contra some
      exact fits (length_of_on some)
    rw [apply_misfit display t fits, fails]
    rfl

end MapMethod

namespace Value

/-- Functions, classes and instances are no keys. -/
theorem key?_eq_none {v : Value} :
    v.key? = none ↔ (∃ f, v = .function f) ∨ (∃ c, v = .class c) ∨ ∃ object, v = .instance object := by
  cases v <;> simp [key?]

/-- Values are the same key if they are the same, or both numbers whose value is zero. -/
theorem key?_eq_iff {v w : Value} {k : Key} (key : v.key? = some k) :
    w.key? = some k ↔ w = v ∨ ∃ x y, w = .number x ∧ v = .number y ∧ x.value? = some 0 ∧ y.value? = some 0 := by
  cases v with
  | null | boolean _ | text _ =>
    cases key
    cases w <;> simp [key?]
  | number y =>
    cases key
    cases w <;> simp [key?, Number.keyBits_eq_iff]
  | function _ | «class» _ | «instance» _ => cases key

end Value

namespace Storage

open Machine

/-- Maps: each instance has a partial function from keys to values. -/
def maps : Storage .map MapMethod (Finmap fun _ : Value.Key => Value) where
  initializer := .map
  methods := MapMethod.all
  native := MapMethod.native
  method?
    | .map m entries => some (m, entries)
    | _ => none
  size s := s.maps.size
  contents s entries := ((s.maps.get? entries).getD .empty).toFinmap
  empty := ∅
  on := MapMethod.on

theorem maps_method? {b : Behaviour} {m : MapMethod} {entries : Ref .map} (own : maps.method? b = some (m, entries)) :
    b = .map m entries := by
  cases b with
  | map m' entries' =>
    cases own
    rfl
  | _ => cases own

theorem maps_call (host : Host) (s : Store) {n : Native} {m : MapMethod} {entries : Ref .map} (arguments : List Value)
    (own : maps.method? n.behaviour = some (m, entries)) :
    ∃ answer, maps.Answers s entries m arguments answer ∧
      ∀ u : State, u.store = s → enterNative host u n arguments = u.answered answer := by
  have on := MapMethod.toOption_apply s.display ((s.maps.get? entries).getD .empty) m arguments
  refine ⟨_, .of_result Table.toFinmap (fun t => { s with maps := s.maps.set entries t }) on (fun _ => rfl) (fun _ => rfl)
    (fun _ => Heap.size_set _ _ _) fun there t other => ?_, ?_⟩
  · exact (congrArg Table.toFinmap (Heap.getD_set _ _ there t other)).trans (apply_ite Table.toFinmap _ _ _)
  · rintro u rfl
    simp only [enterNative, maps_method? own]
    cases m.apply u.store.display ((u.store.maps.get? entries).getD .empty) arguments <;> rfl

theorem maps_same {s t : Store} (same : t.maps = s.maps) : maps.Same s t :=
  ⟨congrArg Heap.size same, fun entries => congrArg (fun maps => ((maps.get? entries).getD .empty).toFinmap) same⟩

theorem maps_gains (s : Store) (object : Ref .object) : maps.Gains s object (s.prepareMap object) := by
  have equips := s.equips_prepareMap object
  have names : (MapMethod.all.map MapMethod.name).Nodup := by decide
  have after := maps_same equips.maps
  refine .of_equips equips rfl rfl (after.size.trans (Heap.size_alloc _ _)) (fun entries => ?_) names
  exact (after.contents entries).trans (congrArg Table.toFinmap (Heap.getD_alloc _ _ entries))

theorem maps_lawful : maps.Lawful where
  decode _ _ := rfl
  foreign := by
    rintro _ (rfl | rfl | ⟨tag, cell, rfl⟩) <;> rfl
  bare := rfl
  beyond s _ beyond := congrArg Table.toFinmap (s.maps.getD_beyond .empty beyond)
  apart _ _ _ := maps_same
  lists := .inr ⟨fun _ _ => rfl, fun _ _ => ⟨rfl, fun _ => rfl⟩⟩
  maps := .inl ⟨rfl, nofun⟩
  arity _ _ _ _ := MapMethod.length_of_on
  call host s _ _ _ arguments := maps_call host s arguments
  prepare _ s object _ := maps_gains s object

/-- Every map holds the partial function that the calls of its methods have made, and each call yields what this function
says. All values but functions, classes and instances are keys, and only zeros are the same key without being the same
value; counts are exact up to 53 binary digits. -/
theorem maps_are_partial_functions {host : Host} (sparing : host.Sparing) {h : List State} {s : State}
    (annals : Annals host h s) :
    maps.Faithful host h s ∧
      (∀ v : Value, v.key? = none ↔ (∃ f, v = .function f) ∨ (∃ c, v = .class c) ∨ ∃ object, v = .instance object) ∧
      (∀ (v w : Value) k, v.key? = some k → (w.key? = some k ↔
        w = v ∨ ∃ x y, w = .number x ∧ v = .number y ∧ x.value? = some 0 ∧ y.value? = some 0)) ∧
      ∀ n < 2 ^ 53, (Number.ofNat n).value? = some (n : ℚ) :=
  ⟨maps_lawful.faithful sparing annals, fun _ => Value.key?_eq_none, fun _ _ _ => Value.key?_eq_iff,
    fun _ small => Number.value?_ofNat small⟩

/-- A text that is added under the negative zero is found under the other one. -/
theorem maps_are_partial_functions_zero :
    ∃ h s, Annals Host.sample h s ∧ maps.Faithful Host.sample h s ∧
      h.filterMap (maps.call? ⟨0⟩) = [(.add, [.number (.signed true 0), .text "a"])] ∧
      s.control = .invoke (.function ⟨3⟩) [.number .zero] .host ∧
      ∃ k, (run Host.sample k s).control = .value (.text "a") := by
  have making : Annals Host.sample []
      (.start ⟨Store.bare.withLibrary, ⟨#[], [], true, .zero⟩, .empty⟩ (.invoke (.class ⟨1⟩) [] .host)) :=
    .library _ _ trivial
  have adding : Annals Host.sample _ (.start ⟨_, ⟨#[], [], true, .zero⟩, .empty⟩
      (.invoke (.function ⟨2⟩) [.number (.signed true 0), .text "a"] .host)) :=
    making.step.step.next _ _ (.refl _) trivial
  have reading : Annals Host.sample _ (.start ⟨_, ⟨#[], [], true, .zero⟩, .empty⟩
      (.invoke (.function ⟨3⟩) [.number .zero] .host)) :=
    adding.step.step.next _ _ (.refl _) trivial
  obtain ⟨faithful, -⟩ := maps_are_partial_functions Host.sample_sparing reading
  obtain ⟨k, -, value, -⟩ := faithful.call ⟨3⟩ _ .at ⟨0⟩ [.number .zero] .host rfl rfl rfl
  exact ⟨_, _, reading, faithful, rfl, rfl, k, value⟩

end Storage

end Scriptlet
