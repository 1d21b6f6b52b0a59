import Scriptlet.Proofs.Reachability

/-!
Sound stores: nothing refers to an object that does not exist. What exists in a sound store is a realm: a store is made
larger by new objects that refer to what is there, and changed by what refers to what is there; it stays sound, and what
exists goes on to exist.
-/
namespace Scriptlet

/-- The objects that exist. -/
def Store.objects (s : Store) : Set Object := {x | (s.content? x).isSome = true}

/-- Nothing refers to an object that does not exist. -/
def Store.Sound (s : Store) : Prop := ∀ x c, s.content? x = some c → ∀ y, c.Mentions y → y ∈ s.objects

namespace Store

variable {s : Store} {v : Value} {name : String}

theorem mem_objects {x : Object} {c : Content x.kind} (h : s.content? x = some c) : x ∈ s.objects := by
  show (s.content? x).isSome = true
  rw [h, Option.isSome_some]

theorem frame_of_fetch {f : Ref .frame} (hv : s.frames.fetch f name = some v) : ⟨.frame, f⟩ ∈ s.objects := by
  obtain ⟨a, ha, -⟩ := Option.bind_eq_some_iff.1 hv
  exact mem_objects (x := ⟨.frame, f⟩) ha

/-- Only what exists has members. -/
theorem inside_of_member {p : Property} (h : s.member? v name = some p) : v.Inside s.objects := by
  cases v with
  | «instance» r =>
    refine Value.inside_instance.2 (Option.isSome_iff_ne_none.2 fun none => ?_)
    have missing : s.instances.get? r = .none := none
    rw [member?, property?, missing] at h
    cases h
  | «class» c =>
    obtain ⟨w, found, -⟩ := Option.map_eq_some_iff.1 h
    obtain ⟨k, held, -⟩ := Option.bind_eq_some_iff.1 found
    exact Value.inside_class.2 (mem_objects (x := ⟨.classObject, c⟩) held)
  | _ => cases h

/-- An object is new or changed, and refers to what is there. -/
theorem Sound.withHeap (h : s.Sound) {k : ObjectKind} {r : Ref k} {heap : Heap k (Content k)}
    (places : s.Places True s.objects r heap) :
    (s.withHeap k heap).Sound ∧ s.objects ⊆ (s.withHeap k heap).objects := by
  have kept : s.objects ⊆ (s.withHeap k heap).objects := by
    intro x hx
    by_cases hr : x = ⟨k, r⟩
    · subst hr
      exact (congrArg Option.isSome content?_withHeap).trans (places.there hx)
    · exact (congrArg Option.isSome (content?_withHeap_of_ne places.others hr)).trans hx
  have sound := forall_withHeap (P := fun _ c => ∀ y, c.Mentions y → y ∈ (s.withHeap k heap).objects) places.others
    (fun a ha y hy => kept ((places.inside a ha).inside y hy)) fun x c hc y hy => kept (h x c hc y hy)
  exact ⟨sound, kept⟩

/-- All that exists, in a sound store that has its outermost frame. -/
def existing : Realm where
  Holds s := s.Sound ∧ ⟨.frame, globals⟩ ∈ s.objects
  inside := objects
  hosted := True
  globals h := h.2
  content h x _ c hc := ⟨.inl trivial, h.1 x c hc⟩
  withHeap h places _ := by
    obtain ⟨sound, kept⟩ := h.1.withHeap places
    exact ⟨⟨sound, kept h.2⟩, kept, fun made => (congrArg Option.isSome content?_withHeap).trans made⟩

end Store

namespace Realm.Holds

variable {R : Realm} {s : Store}

theorem defineNative (h : R.Holds s) (name : String) (arity : Nat) {b : Behaviour} (allowed : R.hosted ∨ b.Library)
    (storage : ∀ x, b.storage? = some x → x ∈ R s) : R.Enlarged s (s.defineNative name arity b) := by
  obtain ⟨added, made⟩ := h.addFunction (f := .native ⟨name, arity, b⟩) (Content.inside_native.2 ⟨allowed, storage⟩)
  exact added.trans (added.holds.define (R.globals added.holds) name made)

theorem defineNativeClass (h : R.Holds s) (name : String) (arity : Nat) {statics : Table String Value}
    (inside : statics.Inside (R s)) {i : Initializer} (allowed : R.hosted ∨ i.Library) :
    R.Enlarged s (s.defineNativeClass name arity statics i) := by
  have native : R.hosted ∨ ∀ native, some (NativeClass.mk arity i) = some native → native.initializer.Library :=
    allowed.imp_right fun library native same => by cases same; exact library
  obtain ⟨added, made⟩ := h.addClass (c := ⟨name, .empty, statics, some ⟨arity, i⟩⟩)
    (Content.inside_class.2 ⟨native, nofun, inside⟩)
  exact added.trans (added.holds.define (R.globals added.holds) name made)

end Realm.Holds

namespace Store

theorem existing_initial : existing.Holds initial := by
  refine ⟨?_, rfl⟩
  rintro ⟨kind, r⟩ c hc y hy
  cases kind with
  | frame =>
    have content : (Heap.empty.alloc Frames.outermost).get? r = some c := hc
    rw [Heap.get?_alloc] at content
    split at content
    · cases content
      rcases hy with ⟨parent, hp, -⟩ | ⟨name, v, hv, -⟩
      · cases hp
      · cases hv
    · cases content
  | _ => cases hc

/-- The store of a new session is sound. -/
theorem existing_library : existing.Holds bare.withLibrary := by
  have clock := existing_initial.defineNative "clock" 0 (b := .clock) (.inl trivial) (by rintro x ⟨⟩)
  have input := clock.holds.defineNative "input" 0 (b := .input) (.inl trivial) (by rintro x ⟨⟩)
  have list := input.holds.defineNativeClass "List" 0 Table.inside_empty (i := .list) (.inl trivial)
  exact (list.holds.defineNativeClass "Map" 0 Table.inside_empty (i := .map) (.inl trivial)).holds

end Store

end Scriptlet
