import Scriptlet.Proofs.UnlinedSteps

/-!
The code that a store holds. Programs do not write programs: what is true of every closure and method stays true as long
as it is true of the routines that new ones are made of. Frames, instances and native storage hold no code.
-/
namespace Scriptlet

structure Store.AllCode (P : Routine → Prop) (s : Store) : Prop where
  closure : ∀ r c, s.functions.get? r = some (.closure c) → P c.routine
  method : ∀ r k name m, s.classes.get? r = some k → k.methods.get? name = some m → P m.routine

def Callee.AllCode (P : Routine → Prop) : Callee → Prop
  | .function (.closure c) => P c.routine
  | .function (.native _) => True
  | .class _ k => ∀ name m, k.methods.get? name = some m → P m.routine

def Property.AllCode (P : Routine → Prop) : Property → Prop
  | .value _ => True
  | .method m _ => P m.routine

variable {P : Routine → Prop} {s t : Store}

namespace Store.AllCode

theorem of_eq (h : s.AllCode P) (functions : t.functions = s.functions) (classes : t.classes = s.classes) : t.AllCode P :=
  ⟨fun r c hr => h.closure r c (by rwa [functions] at hr), fun r k name m hr => h.method r k name m (by rwa [classes] at hr)⟩

theorem initial : Store.initial.AllCode P :=
  ⟨fun r c hr => by simp [Store.initial] at hr, fun r k _ _ hr => by simp [Store.initial] at hr⟩

theorem kept (h : s.AllCode P) (kept : s.Kept t) : t.AllCode P where
  closure r c hr := h.closure r c (kept.closure r c hr)
  method r k name m hr hm := by
    obtain ⟨k', hr', hm'⟩ := kept.method r k name m hr hm
    exact h.method r k' name m hr' hm'

theorem addClosure (h : s.AllCode P) {c : Closure} (hc : P c.routine) : (s.addFunction (.closure c)).2.AllCode P where
  closure r c' hr := by
    change (s.functions.alloc _).get? r = _ at hr
    rw [Heap.get?_alloc] at hr
    split at hr
    · cases hr
      exact hc
    · exact h.closure r c' hr
  method := h.method

theorem addClass (h : s.AllCode P) {k : ClassObject} (hk : ∀ name m, k.methods.get? name = some m → P m.routine) :
    (s.addClass k).2.AllCode P where
  closure := h.closure
  method r k' name m hr hm := by
    change (s.classes.alloc _).get? r = _ at hr
    rw [Heap.get?_alloc] at hr
    split at hr
    · cases hr
      exact hk name m hm
    · exact h.method r k' name m hr hm

theorem callee (h : s.AllCode P) {v : Value} {callee : Callee} (hc : s.callee? v = some callee) : callee.AllCode P := by
  cases v with
  | function r =>
    obtain ⟨f, hf, rfl⟩ := Option.map_eq_some_iff.1 hc
    cases f with
    | closure c => exact h.closure r c hf
    | native n => trivial
  | «class» r =>
    obtain ⟨k, hk, rfl⟩ := Option.map_eq_some_iff.1 hc
    exact fun name m hm => h.method r k name m hk hm
  | _ => cases hc

theorem property (h : s.AllCode P) {r : Ref .object} {name : String} {p : Property} (hp : s.property? r name = some p) :
    p.AllCode P := by
  unfold Store.property? at hp
  split at hp
  · cases hp
  · split at hp
    · cases hp
      trivial
    · cases hp
      trivial
    · obtain ⟨m, hm, rfl⟩ := Option.map_eq_some_iff.1 hp
      obtain ⟨k, hk, hm⟩ := Option.bind_eq_some_iff.1 hm
      exact h.method _ k name m hk hm

theorem member (h : s.AllCode P) {v : Value} {name : String} {p : Property} (hp : s.member? v name = some p) :
    p.AllCode P := by
  unfold Store.member? at hp
  split at hp
  · exact h.property hp
  · obtain ⟨w, -, rfl⟩ := Option.map_eq_some_iff.1 hp
    trivial
  · cases hp

/-- A method that is bound keeps its routine; all that is new is its frame. -/
theorem realize (h : s.AllCode P) {p : Property} (hp : p.AllCode P) : (s.realize p).2.AllCode P := by
  cases p with
  | value v => exact h
  | method m r =>
    have bound : (s.bind m r).2.AllCode P := h.of_eq rfl rfl
    exact bound.addClosure hp

end Store.AllCode

namespace Machine

theorem methodTable_allCode (s : State) (table : Table String Closure) (rs : List Routine)
    (ht : ∀ name m, table.get? name = some m → P m.routine) (hrs : ∀ r ∈ rs, P r) :
    ∀ name m, (methodTable s table rs).get? name = some m → P m.routine := by
  unfold methodTable
  induction rs generalizing table with
  | nil => exact ht
  | cons r rs ih =>
    rw [List.forall_mem_cons] at hrs
    refine ih _ (fun name m hm => ?_) hrs.2
    rw [Table.get?_insert] at hm
    split at hm
    · cases hm
      exact hrs.1
    · exact ht name m hm

end Machine

end Scriptlet
