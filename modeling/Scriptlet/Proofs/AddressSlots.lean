import Scriptlet.Proofs.AddressRuns
import Scriptlet.Proofs.SoundStores
import Scriptlet.Proofs.TwinStores

/-!
What an address names: a slot, which is a global or a field of an instance. Setting an address changes that slot and
nothing else. The address then leads to the value, unless the way to the slot goes through the slot itself.
-/
namespace Scriptlet

/-- A place for a value: a global, or a field of an instance. -/
inductive Slot where
  | global (name : String)
  | field (object : Ref .object) (name : String)
deriving DecidableEq, Repr

namespace Slot

def get? (store : Store) : Slot → Option Value
  | .global name => store.frames.fetch Store.globals name
  | .field r name => (store.instances.get? r).bind (·.fields.get? name)

def put (store : Store) (v : Value) : Slot → Store
  | .global name => store.define Store.globals name v
  | .field r name => store.setField r name v

/-- The object that the slot is in. -/
def holder : Slot → Object
  | .global _ => ⟨.frame, Store.globals⟩
  | .field r _ => ⟨.object, r⟩

variable {store : Store} {slot : Slot} {v : Value}

/-- Where its holder exists, a slot gets the value that is put there, and the others keep theirs. -/
theorem get?_put (there : slot.holder ∈ store.objects) (x : Slot) :
    x.get? (slot.put store v) = if x = slot then some v else x.get? store := by
  cases slot with
  | global name =>
    obtain ⟨a, outermost⟩ : ∃ a, store.frames.get? Store.globals = some a := Option.isSome_iff_exists.1 there
    cases x with
    | global other =>
      show (store.frames.define Store.globals name v).fetch Store.globals other = _
      rw [Frames.fetch_define, outermost]
      simp only [global.injEq, Option.map_some, get?]
    | field r other => rfl
  | field r name =>
    obtain ⟨i, held⟩ : ∃ i, store.instances.get? r = some i := Option.isSome_iff_exists.1 there
    cases x with
    | global other => rfl
    | field q other =>
      simp only [get?, put, Store.setField, Heap.get?_modify, field.injEq]
      by_cases hq : q = r
      · subst hq
        simp only [held, if_true, Option.map_some, Option.bind_some, Table.get?_insert, true_and]
      · simp only [hq, if_false, false_and]

theorem content?_put {x : Object} (apart : x ≠ slot.holder) : (slot.put store v).content? x = store.content? x := by
  obtain ⟨kind, q⟩ := x
  cases slot with
  | global name =>
    cases kind with
    | frame =>
      have other : q ≠ Store.globals := fun same => apart (congrArg (Object.mk .frame) same)
      exact (Heap.get?_modify _ _ _ _).trans (if_neg other)
    | _ => rfl
  | field r name =>
    cases kind with
    | object =>
      have other : q ≠ r := fun same => apart (congrArg (Object.mk .object) same)
      exact (Heap.get?_modify _ _ _ _).trans (if_neg other)
    | _ => rfl

theorem property?_put {r : Ref .object} {name : String} (apart : field r name ≠ slot) :
    (slot.put store v).property? r name = store.property? r name := by
  cases slot with
  | global other => rfl
  | field q other =>
    have instances : (store.setField q other v).instances.get? r =
        if r = q then (store.instances.get? r).map fun i => { i with fields := i.fields.insert other v }
        else store.instances.get? r := Heap.get?_modify _ _ _ _
    unfold Store.property?
    rw [put, instances]
    by_cases hr : r = q
    · subst hr
      have names : name ≠ other := fun same => apart (congrArg (field r) same)
      rw [if_pos rfl]
      cases store.instances.get? r with
      | none => rfl
      | some i =>
        simp only [Option.map_some, Table.get?_insert, if_neg names]
        rfl
    · rw [if_neg hr]
      rfl

end Slot

namespace Address

/-- The slot that a name is looked up in first; a class has its statics only. -/
def asked (container : Option Value) (name : String) : Option Slot :=
  match container with
  | none => some (.global name)
  | some (.instance r) => some (.field r name)
  | some _ => none

/-- The slots that are read on the way along some names. -/
def reads (store : Store) (container : Option Value) : List String → List Slot
  | [] => []
  | name :: rest => (asked container name).toList ++
    match member? store container name with
    | some (v, store) => reads store (some v) rest
    | none => []

/-- The slots that are read on the way to the last name of an address. -/
def wayReads (store : Store) (address : String) : List Slot := reads store none (segments address).dropLast

/-- The slot that an address names: a global that exists, or the field of that name of the instance to which the other
names lead. -/
def slot? (store : Store) (address : String) : Option Slot :=
  match walk store address with
  | .ok (none, last, _) => if (store.frames.fetch Store.globals last).isSome then some (.global last) else none
  | .ok (some (.instance r), last, _) => some (.field r last)
  | _ => none

variable {store store' : Store} {container c' : Option Value} {seen names : List String} {v w : Value} {name : String}
  {r : Ref .object} {slot : Slot}

/-- A name leads to a new function, or to a value that is there for all who ask the same slot. -/
theorem member_cases (found : member? store container name = some (w, store')) :
    (∃ f, w = .function f) ∨
    store' = store ∧ ∀ slot v, asked container name ≠ some slot →
      member? (slot.put store v) container name = some (w, slot.put store v) := by
  cases container with
  | none =>
    obtain ⟨u, hu, he⟩ := Option.map_eq_some_iff.1 found
    cases he
    refine .inr ⟨rfl, fun slot v apart => ?_⟩
    have same : (slot.put store v).frames.fetch Store.globals name = store.frames.fetch Store.globals name := by
      cases slot with
      | global other =>
        have names : name ≠ other := fun same => apart (congrArg (some ∘ Slot.global) same)
        exact Frames.fetch_define v |>.trans (if_neg names)
      | field r other => rfl
    rw [member?, same, hu]
    rfl
  | some c =>
    obtain ⟨p, hp, he⟩ := Option.map_eq_some_iff.1 found
    cases p with
    | method m receiver =>
      cases he
      exact .inl ⟨_, rfl⟩
    | value u =>
      cases he
      refine .inr ⟨rfl, fun slot v apart => ?_⟩
      have same : (slot.put store v).member? c name = store.member? c name := by
        cases c with
        | «instance» r => exact Slot.property?_put fun same => apart (congrArg some same)
        | «class» k => cases slot <;> rfl
        | _ => rfl
      rw [member?, same, hp]
      rfl

/-- A function has no members. -/
theorem follow_function {f : Ref .function} (found : follow store (some (.function f)) seen names = .ok (c', store')) :
    c' = some (.function f) := by
  cases names with
  | nil =>
    cases found
    rfl
  | cons name names => cases found

/-- The way to an instance makes nothing new, and is the same after a change of a slot that it does not read. -/
theorem follow_put (found : follow store container seen names = .ok (c', store')) (ends : ∀ f, c' ≠ some (.function f)) :
    store' = store ∧ ∀ slot v, slot ∉ reads store container names →
      follow (slot.put store v) container seen names = .ok (c', slot.put store v) := by
  induction names generalizing container seen with
  | nil =>
    cases found
    exact ⟨rfl, fun _ _ _ => rfl⟩
  | cons name names ih =>
    rw [follow] at found
    split at found
    · next w next hm =>
      rcases member_cases hm with ⟨f, rfl⟩ | ⟨rfl, kept⟩
      · exact absurd (follow_function found) (ends f)
      · obtain ⟨same, further⟩ := ih found
        refine ⟨same, fun slot v apart => ?_⟩
        rw [reads, hm, List.mem_append, not_or] at apart
        have first := kept slot v fun same => apart.1 (by rw [same]; exact List.mem_singleton_self slot)
        rw [follow, first]
        exact further slot v apart.2
    · cases found

/-- In a sound store, a name leads to what exists. -/
theorem member_inside (h : Store.existing.Holds store) (found : member? store container name = some (w, store')) :
    Store.existing.Enlarged store store' ∧ w.Inside store'.objects := by
  cases container with
  | none =>
    obtain ⟨u, hu, same⟩ := Option.map_eq_some_iff.1 found
    cases same
    exact ⟨h.enlarged, h.closed.fetch h.2 hu⟩
  | some c =>
    obtain ⟨p, hp, same⟩ := Option.map_eq_some_iff.1 found
    have realized := h.realize (h.closed.member (Store.inside_of_member hp) hp)
    rwa [same] at realized

theorem follow_inside (h : Store.existing.Holds store) (start : ∀ c, container = some c → c.Inside store.objects)
    (found : follow store container seen names = .ok (c', store')) :
    Store.existing.Enlarged store store' ∧ ∀ c, c' = some c → c.Inside store'.objects := by
  induction names generalizing store container seen with
  | nil =>
    cases found
    exact ⟨h.enlarged, start⟩
  | cons name names ih =>
    rw [follow] at found
    split at found
    · next w next hm =>
      obtain ⟨enlarged, inside⟩ := member_inside h hm
      obtain ⟨further, ends⟩ := ih enlarged.holds (by rintro c ⟨⟩; exact inside) found
      exact ⟨enlarged.trans further, ends⟩
    · cases found

/-- Where a name leads to something, the first one has been found in the outermost frame. -/
theorem globals_of_follow (found : follow store none seen names = .ok (some v, store')) :
    ⟨.frame, Store.globals⟩ ∈ store.objects := by
  cases names with
  | nil => cases found
  | cons name names =>
    rw [follow] at found
    split at found
    · next w next hm =>
      obtain ⟨u, hu, -⟩ := Option.map_eq_some_iff.1 hm
      exact Store.frame_of_fetch hu
    · cases found

section Named

variable {address last : String}

/-- An address without an empty name leads to where all names but the last do. -/
theorem walk_ok_iff : walk store address = .ok (container, last, store') ↔
    (segments address).any String.isEmpty = false ∧ (segments address).getLastD "" = last ∧
      follow store none [] (segments address).dropLast = .ok (container, store') := by
  cases hn : (segments address).any String.isEmpty with
  | true => simp [walk, split, hn, bind, Except.bind]
  | false =>
    have wellFormed : split address = .ok ((segments address).dropLast, (segments address).getLastD "") := by
      simp only [split, hn, Bool.false_eq_true, if_false]
    rw [walk, wellFormed]
    change (follow store none [] _ >>= _) = _ ↔ _
    rcases follow store none [] (segments address).dropLast with fault | ⟨c, next⟩
    · simp [bind, Except.bind]
    · simp only [bind, Except.bind, pure, Except.pure, Except.ok.injEq, Prod.mk.injEq, true_and]
      tauto

/-- The slot that an address names is where its way ends. -/
theorem walk_slot (named : slot? store address = some slot) : ∃ container last, asked container last = some slot ∧
    (container = none → (store.frames.fetch Store.globals last).isSome = true) ∧
    walk store address = .ok (container, last, store) ∧
    ∀ v, slot ∉ wayReads store address → walk (slot.put store v) address = .ok (container, last, slot.put store v) := by
  have way {container : Option Value} {last : String} {next : Store} (ends : ∀ f, container ≠ some (.function f))
      (hw : walk store address = .ok (container, last, next)) : next = store ∧
        ∀ v, slot ∉ wayReads store address → walk (slot.put store v) address = .ok (container, last, slot.put store v) := by
    obtain ⟨filled, ends', found⟩ := walk_ok_iff.1 hw
    obtain ⟨same, kept⟩ := follow_put found ends
    exact ⟨same, fun v apart => walk_ok_iff.2 ⟨filled, ends', kept slot v apart⟩⟩
  unfold slot? at named
  split at named
  · next last next hw =>
    split at named
    · next bound =>
      cases named
      obtain ⟨rfl, kept⟩ := way (by simp) hw
      exact ⟨none, last, rfl, fun _ => bound, hw, kept⟩
    · cases named
  · next r last next hw =>
    cases named
    obtain ⟨rfl, kept⟩ := way (by simp) hw
    exact ⟨some (.instance r), last, rfl, by simp, hw, kept⟩
  · cases named

/-- Writing to an address puts the value into the slot that it names. -/
theorem write_slot (named : slot? store address = some slot) (v : Value) :
    write store address v = .ok (slot.put store v) := by
  obtain ⟨container, last, ends, bound, hw, -⟩ := walk_slot named
  cases container with
  | none =>
    cases ends
    have owner : store.frames.owner? Store.globals last = some Store.globals := by
      rw [Frames.owner?_globals_eq, if_pos (bound rfl)]
    rw [write_of_walk hw, Frames.assign, owner]
    rfl
  | some c =>
    cases c with
    | «instance» r =>
      cases ends
      rw [write, hw]
      rfl
    | _ => cases ends

theorem write_none (named : slot? store address = none) (v : Value) : ∃ fault, write store address v = .error fault := by
  rcases hw : walk store address with fault | ⟨_ | c, last, next⟩
  · rw [write, hw]
    exact ⟨fault, rfl⟩
  · obtain ⟨-, -, found⟩ := walk_ok_iff.1 hw
    obtain ⟨rfl, -⟩ := follow_put found (by simp)
    simp only [slot?, hw, ite_eq_right_iff, reduceCtorEq, imp_false] at named
    rw [write_of_walk hw, Frames.assign, Frames.owner?_globals_eq, if_neg named]
    exact ⟨_, rfl⟩
  · rw [write, hw]
    cases c with
    | «instance» r =>
      rw [slot?, hw] at named
      cases named
    | _ => exact ⟨_, rfl⟩

/-- In a sound store, the slot that an address names is in something that exists. -/
theorem holder_slot (sound : store.Sound) (named : slot? store address = some slot) : slot.holder ∈ store.objects := by
  obtain ⟨container, last, ends, bound, hw, -⟩ := walk_slot named
  cases container with
  | none =>
    cases ends
    obtain ⟨v, hv⟩ := Option.isSome_iff_exists.1 (bound rfl)
    exact Store.frame_of_fetch hv
  | some c =>
    cases c with
    | «instance» r =>
      cases ends
      obtain ⟨-, -, found⟩ := walk_ok_iff.1 hw
      obtain ⟨-, inside⟩ := follow_inside ⟨sound, globals_of_follow found⟩ (by simp) found
      exact Value.inside_instance.1 (inside _ rfl)
    | _ => cases ends

/-- What has been put into the slot that an address names is read there, if the way does not go through that slot. -/
theorem read_put (named : slot? store address = some slot) (there : slot.holder ∈ store.objects) (v : Value)
    (apart : slot ∉ wayReads store address) : read (slot.put store v) address = .ok (v, slot.put store v) := by
  obtain ⟨container, last, ends, -, -, kept⟩ := walk_slot named
  have found : slot.get? (slot.put store v) = some v := (Slot.get?_put there slot).trans (if_pos rfl)
  rw [read_of_walk (kept v apart)]
  cases container with
  | none =>
    cases ends
    have global : (Slot.put store v (.global last)).frames.fetch Store.globals last = some v := found
    rw [member?, global]
    rfl
  | some c =>
    cases c with
    | «instance» r =>
      cases ends
      obtain ⟨i, hi, field⟩ := Option.bind_eq_some_iff.1 found
      have property : (Slot.put store v (.field r last)).property? r last = some (.value v) := by
        simp only [Store.property?, hi, field]
      rw [member?, Store.member?, property]
      rfl
    | _ => cases ends

end Named

end Address

/-- Setting an address succeeds where the address names a slot. It then changes that slot and nothing else, and the
address leads to the new value if the way does not go through the slot. Where it fails, nothing changes. -/
theorem set_changes_one_slot {s : Session} (sound : s.store.Sound) (address : String) (v : Value) :
    ((s.set address v).2 = .ok () ↔ ∃ slot, Address.slot? s.store address = some slot) ∧
    (∀ slot, Address.slot? s.store address = some slot →
      (∀ x : Slot, x.get? (s.set address v).1.store = if x = slot then some v else x.get? s.store) ∧
      (∀ x : Object, x ≠ slot.holder → (s.set address v).1.store.content? x = s.store.content? x) ∧
      (s.set address v).1 = s.withStore (slot.put s.store v) ∧
      (slot ∉ Address.wayReads s.store address →
        ((s.set address v).1.get address) = ((s.set address v).1, .ok v))) ∧
    ∀ e, (s.set address v).2 = .error e → (s.set address v).1 = s := by
  cases named : Address.slot? s.store address with
  | none =>
    obtain ⟨fault, failed⟩ := Address.write_none named v
    have result : s.set address v = (s, Session.hostError fault) := by rw [Session.set, failed]
    rw [result]
    refine ⟨?_, by simp, fun _ _ => rfl⟩
    simp [Session.hostError]
  | some slot =>
    have there := Address.holder_slot sound named
    have result : s.set address v = (s.withStore (slot.put s.store v), .ok ()) := by
      rw [Session.set, Address.write_slot named]
    rw [result]
    refine ⟨by simp, ?_, by simp⟩
    rintro _ ⟨⟩
    refine ⟨Slot.get?_put there, fun x apart => Slot.content?_put apart, rfl, ?_⟩
    intro apart
    have read := Address.read_put named there v apart
    have store : (s.withStore (slot.put s.store v)).store = slot.put s.store v := rfl
    rw [Session.get, store, read]
    rfl

/-- A session in which `ring` is an instance whose field `self` is the instance itself. -/
def ringSession : Session :=
  let fresh := Session.withConsole ⟨#[], [], true, .zero⟩
  let (ring, store) := fresh.store.addInstance ⟨0⟩
  (fresh.withStore (store.setField ring "self" (.instance ring))).define "ring" (.instance ring)

theorem ringSession_sound : ringSession.store.Sound := by
  obtain ⟨added, ring⟩ := Store.existing_library.addInstance (r := ⟨0⟩) rfl
  have field := added.holds.setField ring "self" (Value.inside_instance.2 ring)
  have named := field.holds.define (Store.existing.globals field.holds) "ring" (Value.inside_instance.2 (field.kept ring))
  exact named.holds.1

/-- A field is set and read back around the ring; the field that closes the ring is not, for the way goes through it. -/
theorem set_changes_one_slot_ring : ringSession.store.Sound ∧
    ((ringSession.set "ring.self.value" (.text "two")).1.get "ring.self.value").2 = .ok (.text "two") ∧
    Slot.get? (ringSession.set "ring.self.value" (.text "two")).1.store (.field ⟨0⟩ "self") = some (.instance ⟨0⟩) ∧
    (ringSession.set "ring.self.self" .null).2 = .ok () ∧
    Slot.field ⟨0⟩ "self" ∈ Address.wayReads ringSession.store "ring.self.self" ∧
    ((ringSession.set "ring.self.self" .null).1.get "ring.self.self").2 ≠ .ok .null := by
  have value : Address.slot? ringSession.store "ring.self.value" = some (.field ⟨0⟩ "value") := rfl
  have self : Address.slot? ringSession.store "ring.self.self" = some (.field ⟨0⟩ "self") := rfl
  obtain ⟨-, changed, -⟩ := set_changes_one_slot ringSession_sound "ring.self.value" (.text "two")
  obtain ⟨slots, -, -, read⟩ := changed _ value
  have way : Address.wayReads ringSession.store "ring.self.value" = [.global "ring", .field ⟨0⟩ "self"] := rfl
  have around : Address.wayReads ringSession.store "ring.self.self" = [.global "ring", .field ⟨0⟩ "self"] := rfl
  have lost : ((ringSession.set "ring.self.self" .null).1.get "ring.self.self").2 =
      Session.hostError (.undefinedAddress "ring.self.self") := rfl
  have closes := (set_changes_one_slot ringSession_sound "ring.self.self" .null).1.2 ⟨_, self⟩
  have kept := (slots (.field ⟨0⟩ "self")).trans (if_neg (by decide))
  have before : Slot.get? ringSession.store (.field ⟨0⟩ "self") = some (.instance ⟨0⟩) := rfl
  refine ⟨ringSession_sound, congrArg Prod.snd (read ?_), kept.trans before, closes, ?_, ?_⟩
  · rw [way]
    decide
  · rw [around]
    decide
  · rw [lost, Session.hostError]
    simp

end Scriptlet
