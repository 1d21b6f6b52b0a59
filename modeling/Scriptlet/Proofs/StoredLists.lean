import Scriptlet.Proofs.NumberValues
import Scriptlet.Proofs.Storage

/-!
Lists are sequences. `ListMethod.on` says what a method makes of a sequence, and the machine does as it says, for all lists
of a session and over all calls of their methods, wherever these come from.
-/
namespace Scriptlet

/-- The position in a sequence of this length that a value denotes: a number is the position that it has for its value. -/
def Value.position? (length : Nat) : Value → Option Nat
  | .number x => (List.range length).find? fun k => x.value? = some (k : ℚ)
  | _ => none

theorem Value.position?_eq_some {length k : Nat} {v : Value} :
    v.position? length = some k ↔ k < length ∧ ∃ x, v = .number x ∧ x.value? = some (k : ℚ) := by
  unfold position?
  split
  · next x =>
    simp only [List.find?_range_eq_some, decide_eq_true_eq, List.mem_range, number.injEq, exists_eq_left']
    constructor
    · rintro ⟨value, lt, -⟩
      exact ⟨lt, value⟩
    · rintro ⟨lt, value⟩
      refine ⟨value, lt, fun j hj => ?_⟩
      have other : (k : ℚ) ≠ j := by exact_mod_cast hj.ne'
      simp [value, other]
  · next other =>
    refine ⟨nofun, ?_⟩
    rintro ⟨-, x, rfl, -⟩
    exact absurd rfl (other x)

namespace ListMethod

/-- What a method of a sequence yields and what the sequence is then, unless the call fails. -/
def on (xs : List Value) (m : ListMethod) (arguments : List Value) : Option (Value × List Value) :=
  match m, arguments with
  | .add, [v] => some (.null, xs ++ [v])
  | .at, [i] => do
    let k ← i.position? xs.length
    return (← xs[k]?, xs)
  | .setAt, [i, v] => do
    let k ← i.position? xs.length
    return (v, xs.take k ++ v :: xs.drop (k + 1))
  | .removeAt, [i] => do
    let k ← i.position? xs.length
    return (← xs[k]?, xs.take k ++ xs.drop (k + 1))
  | .count, [] => some (.number (.ofNat xs.length), xs)
  | _, _ => none

/-- A number whose value is an integer passes as a position if it is one. -/
theorem toOption_position (shown : String) (size : Nat) (v : Value) :
    (position shown size v).toOption = v.position? size := by
  refine Option.ext fun k => ?_
  rw [Value.position?_eq_some]
  unfold position
  split
  · next x =>
    simp only [Value.number.injEq, exists_eq_left']
    rw [← Number.toIndex?_eq_some]
    split
    · next z i hz hi =>
      rw [hi, Option.some.injEq]
      split
      · next lt => grind [Except.toOption]
      · next ge => grind [Except.toOption]
    · next hi =>
      rw [hi]
      exact ⟨nofun, nofun⟩
    · next hz =>
      rw [Number.toIndex?, hz]
      exact ⟨nofun, nofun⟩
  · next other =>
    refine ⟨nofun, ?_⟩
    rintro ⟨-, x, rfl, -⟩
    exact absurd rfl (other x)

theorem toOption_located (shown : String) {xs : List Value} (i : Value) {f : Nat → Value × List Value}
    {g : Nat → Option (Value × List Value)} (same : ∀ k < xs.length, g k = some (f k)) :
    (position shown xs.length i >>= fun k => pure (f k)).toOption = i.position? xs.length >>= g := by
  rw [← toOption_position shown]
  cases found : position shown xs.length i with
  | error fault => rfl
  | ok k =>
    have located : i.position? xs.length = some k := by
      rw [← toOption_position shown, found]
      rfl
    exact (same k (Value.position?_eq_some.1 located).1).symm

variable {xs arguments : List Value} {m : ListMethod}

theorem length_of_on (some : on xs m arguments ≠ none) : arguments.length = m.arity := by
  unfold on at some
  split at some
  case h_6 => exact absurd rfl some
  all_goals rfl

theorem apply_misfit (display : Value → String) (misfit : arguments.length ≠ m.arity) :
    m.apply display xs arguments = .error (.arity m.arity arguments.length) := by
  unfold apply
  split
  case h_6 => rfl
  all_goals exact absurd rfl misfit

/-- The methods do as is said of sequences. -/
theorem toOption_apply (display : Value → String) (xs : List Value) (m : ListMethod) (arguments : List Value) :
    (m.apply display xs arguments).toOption = on xs m arguments := by
  by_cases fits : arguments.length = m.arity
  · cases m with
    | add =>
      obtain ⟨v, rfl⟩ := List.length_eq_one_iff.1 fits
      rfl
    | «at» =>
      obtain ⟨i, rfl⟩ := List.length_eq_one_iff.1 fits
      exact toOption_located _ _ fun k lt => by simp [lt]
    | setAt =>
      obtain ⟨i, v, rfl⟩ := List.length_eq_two.1 fits
      exact toOption_located _ _ fun k lt => by simp [List.set_eq_take_append_cons_drop, lt]
    | removeAt =>
      obtain ⟨i, rfl⟩ := List.length_eq_one_iff.1 fits
      exact toOption_located _ _ fun k lt => by simp [List.eraseIdx_eq_take_drop_succ, lt]
    | count =>
      obtain rfl := List.length_eq_zero_iff.1 fits
      rfl
  · have fails : on xs m arguments = none := by
      by_contra some
      exact fits (length_of_on some)
    rw [apply_misfit display fits, fails]
    rfl

end ListMethod

namespace Storage

open Machine

/-- Lists: each instance has a sequence of items. -/
def lists : Storage .list ListMethod (List Value) where
  initializer := .list
  methods := ListMethod.all
  native := ListMethod.native
  method?
    | .list m items => some (m, items)
    | _ => none
  size s := s.lists.size
  contents s items := (s.lists.get? items).getD []
  empty := []
  on := ListMethod.on

theorem lists_method? {b : Behaviour} {m : ListMethod} {items : Ref .list} (own : lists.method? b = some (m, items)) :
    b = .list m items := by
  cases b with
  | list m' items' =>
    cases own
    rfl
  | _ => cases own

theorem lists_call (host : Host) (s : Store) {n : Native} {m : ListMethod} {items : Ref .list} (arguments : List Value)
    (own : lists.method? n.behaviour = some (m, items)) :
    ∃ answer, lists.Answers s items m arguments answer ∧
      ∀ u : State, u.store = s → enterNative host u n arguments = u.answered answer := by
  have on : (m.apply s.display ((s.lists.get? items).getD []) arguments).toOption.map (Prod.map id id) =
      ListMethod.on ((s.lists.get? items).getD []) m arguments := by
    rw [Prod.map_id, Option.map_id, ListMethod.toOption_apply]
    rfl
  refine ⟨_, .of_result id (fun xs => { s with lists := s.lists.set items xs }) on (fun _ => rfl) (fun _ => rfl)
    (fun _ => Heap.size_set _ _ _) fun there => Heap.getD_set _ _ there, ?_⟩
  rintro u rfl
  simp only [enterNative, lists_method? own]
  cases m.apply u.store.display ((u.store.lists.get? items).getD []) arguments <;> rfl

theorem lists_same {s t : Store} (same : t.lists = s.lists) : lists.Same s t :=
  ⟨congrArg Heap.size same, fun items => congrArg (fun lists => (lists.get? items).getD []) same⟩

theorem lists_gains (s : Store) (object : Ref .object) : lists.Gains s object (s.prepareList object) := by
  have equips := s.equips_prepareList object
  have names : (ListMethod.all.map ListMethod.name).Nodup := by decide
  have after := lists_same equips.lists
  refine .of_equips equips rfl rfl (after.size.trans (Heap.size_alloc _ _)) (fun items => ?_) names
  exact (after.contents items).trans (Heap.getD_alloc _ _ items)

theorem lists_lawful : lists.Lawful where
  decode _ _ := rfl
  foreign := by
    rintro _ (rfl | rfl | ⟨tag, cell, rfl⟩) <;> rfl
  bare := rfl
  beyond s _ beyond := s.lists.getD_beyond [] beyond
  apart _ _ same _ := lists_same same
  lists := .inl ⟨rfl, nofun⟩
  maps := .inr ⟨fun _ _ => rfl, fun _ _ => ⟨rfl, fun _ => rfl⟩⟩
  arity _ _ _ _ := ListMethod.length_of_on
  call host s _ _ _ arguments := lists_call host s arguments
  prepare _ s object _ := lists_gains s object

/-- Every list holds the sequence that the calls of its methods have made, and each call yields what this sequence says.
A number denotes the position that is its value, and counts are exact up to 53 binary digits. -/
theorem lists_are_sequences {host : Host} (sparing : host.Sparing) {h : List State} {s : State} (annals : Annals host h s) :
    lists.Faithful host h s ∧
      (∀ length v k, Value.position? length v = some k ↔ k < length ∧ ∃ x, v = .number x ∧ x.value? = some (k : ℚ)) ∧
      ∀ n < 2 ^ 53, (Number.ofNat n).value? = some (n : ℚ) :=
  ⟨lists_lawful.faithful sparing annals, fun _ _ _ => Value.position?_eq_some, fun _ small => Number.value?_ofNat small⟩

/-- Of two lists, one gets a text, and the other stays empty. -/
theorem lists_are_sequences_two :
    ∃ h s, Annals Host.sample h s ∧ lists.Faithful Host.sample h s ∧
      ∃ k, (run Host.sample k s).control = .value .null ∧ lists.contents (run Host.sample k s).store ⟨1⟩ = [.text "a"] ∧
        lists.contents (run Host.sample k s).store ⟨0⟩ = [] := by
  have first : Annals Host.sample []
      (.start ⟨Store.bare.withLibrary, ⟨#[], [], true, .zero⟩, .empty⟩ (.invoke (.class ⟨0⟩) [] .host)) :=
    .library _ _ trivial
  have second : Annals Host.sample _ (.start ⟨_, ⟨#[], [], true, .zero⟩, .empty⟩ (.invoke (.class ⟨0⟩) [] .host)) :=
    first.step.step.next _ _ (.refl _) trivial
  have adding : Annals Host.sample _ (.start ⟨_, ⟨#[], [], true, .zero⟩, .empty⟩
      (.invoke (.function ⟨7⟩) [.text "a"] .host)) :=
    second.step.step.next _ _ (.refl _) trivial
  obtain ⟨faithful, -⟩ := lists_are_sequences Host.sample_sparing adding
  obtain ⟨k, -, value, contents⟩ := faithful.call ⟨7⟩ _ .add ⟨1⟩ [.text "a"] .host rfl rfl rfl
  exact ⟨_, _, adding, faithful, k, value, (contents ⟨1⟩).trans (if_pos rfl), (contents ⟨0⟩).trans (if_neg (by decide))⟩

end Storage

end Scriptlet
