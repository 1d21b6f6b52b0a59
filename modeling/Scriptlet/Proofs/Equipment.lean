import Scriptlet.Proofs.Annals

/-!
Native functions that the machine has of its own: the two globals of every session, and the methods that a new list or map
gets as properties.
-/
namespace Scriptlet

open Machine

theorem Store.native_bare {f : Ref .function} {n : Native} (hf : Store.bare.functions.get? f = some (.native n)) :
    n = ⟨"clock", 0, .clock⟩ ∨ n = ⟨"input", 0, .input⟩ := by
  change ((Heap.empty.alloc _).alloc _).get? f = _ at hf
  simp only [Heap.get?_alloc] at hf
  split at hf
  · cases hf
    exact .inr rfl
  · split at hf
    · cases hf
      exact .inl rfl
    · cases hf

/-- Native functions that are no methods of lists or maps spare the storage. -/
theorem Machine.spares_enterNative {host : Host} (sparing : host.Sparing) (s : State) {n : Native} (arguments : List Value)
    (foreign : n.behaviour = .clock ∨ n.behaviour = .input ∨ ∃ tag cell, n.behaviour = .host tag cell) :
    s.store.Spares (enterNative host s n arguments).store := by
  unfold enterNative
  rcases foreign with behaviour | behaviour | ⟨tag, cell, behaviour⟩ <;> rw [behaviour]
  · exact .refl _
  · dsimp only
    split <;> exact .refl _
  · dsimp only
    split <;> exact sparing.call tag cell arguments s.store

/-- The native function is a property of the instance, under its own name. -/
def Store.HasMethod (s : Store) (object : Ref .object) (n : Native) : Prop :=
  ∃ f, s.property? object n.name = some (.value (.function f)) ∧ s.functions.get? f = some (.native n)

/-- An instance is given native functions as properties, and nothing else changes. -/
structure Store.Equips (s : Store) (object : Ref .object) (natives : List Native) (t : Store) : Prop where
  lists : t.lists = s.lists
  maps : t.maps = s.maps
  function : ∀ f c, s.functions.get? f = some c → t.functions.get? f = some c
  native : ∀ f n, t.functions.get? f = some (.native n) → s.functions.get? f = some (.native n) ∨ n ∈ natives
  instances : t.instances.size = s.instances.size
  other : ∀ name, (∀ n ∈ natives, n.name ≠ name) → t.property? object name = s.property? object name
  method : object.index < s.instances.size → (natives.map Native.name).Nodup → ∀ n ∈ natives, t.HasMethod object n

section Equips

variable {s t u : Store} {object : Ref .object} {n : Native} {natives : List Native}

theorem Store.Equips.refl (s : Store) (object : Ref .object) : s.Equips object [] s where
  lists := rfl
  maps := rfl
  function _ _ h := h
  native _ _ h := .inl h
  instances := rfl
  other _ _ := rfl
  method _ _ _ h := by cases h

theorem Store.property?_addMethod (s : Store) (object : Ref .object) (n : Native) (name : String) :
    (s.addMethod object n.name n.arity n.behaviour).property? object name =
      if name = n.name ∧ object.index < s.instances.size then some (.value (.function s.functions.next))
      else s.property? object name := by
  simp only [Store.property?, Store.addMethod, Store.addNative, Store.addFunction, Store.setField, Heap.get?_modify, if_true]
  cases hi : s.instances.get? object with
  | none =>
    have missing : ¬ object.index < s.instances.size := fun lt => by
      simp only [Heap.get?, Array.getElem?_eq_none_iff] at hi
      exact absurd lt (Nat.not_lt.2 hi)
    rw [if_neg fun new => missing new.2]
    rfl
  | some i =>
    have there : object.index < s.instances.size := (Array.getElem?_eq_some_iff.1 hi).1
    by_cases same : name = n.name
    · rw [if_pos ⟨same, there⟩, same]
      simp only [Option.map_some, Table.get?_insert_self]
    · rw [if_neg fun new => same new.1]
      simp only [Option.map_some, Table.get?_insert, if_neg same]
      rfl

/-- One more function is added to those of an instance. -/
theorem Store.Equips.cons (h : (s.addMethod object n.name n.arity n.behaviour).Equips object natives t) :
    s.Equips object (n :: natives) t := by
  have kept {f : Ref .function} {c : Callable} (hf : s.functions.get? f = some c) :
      (s.addMethod object n.name n.arity n.behaviour).functions.get? f = some c :=
    Heap.get?_alloc_of_some hf _
  refine ⟨h.lists, h.maps, fun f c hf => h.function f c (kept hf), fun f n' hf => ?_, ?_, fun name others => ?_,
    fun lt nodup => ?_⟩
  · refine (h.native f n' hf).elim (fun before => ?_) fun later => .inr (.tail _ later)
    change (s.functions.alloc (.native ⟨n.name, n.arity, n.behaviour⟩)).get? f = _ at before
    rw [Heap.get?_alloc] at before
    split at before
    · cases before
      exact .inr (.head _)
    · exact .inl before
  · rw [h.instances]
    exact Heap.size_modify _ _ _
  · rw [List.forall_mem_cons] at others
    rw [h.other name others.2, Store.property?_addMethod, if_neg fun new => others.1 new.1.symm]
  · rw [List.map_cons, List.nodup_cons] at nodup
    refine List.forall_mem_cons.2 ⟨⟨s.functions.next, ?_, ?_⟩, h.method ?_ nodup.2⟩
    · have names : ∀ n' ∈ natives, n'.name ≠ n.name := fun n' hn same => nodup.1 (same ▸ List.mem_map_of_mem hn)
      rw [h.other n.name names, Store.property?_addMethod, if_pos ⟨rfl, lt⟩]
    · exact h.function _ _ (Heap.get?_alloc_next _ _)
    · exact lt.trans_eq (Heap.size_modify _ _ _).symm

theorem Store.equips_foldl {μ : Type} (native : μ → Native) (object : Ref .object) (ms : List μ) (s : Store) :
    s.Equips object (ms.map native)
      (ms.foldl (fun s m => s.addMethod object (native m).name (native m).arity (native m).behaviour) s) := by
  induction ms generalizing s with
  | nil => exact .refl s object
  | cons m ms ih => exact (ih _).cons

end Equips

/-- The function that calls a method of a list. -/
def ListMethod.native (m : ListMethod) (items : Ref .list) : Native := ⟨m.name, m.arity, .list m items⟩

/-- The function that calls a method of a map. -/
def MapMethod.native (m : MapMethod) (entries : Ref .map) : Native := ⟨m.name, m.arity, .map m entries⟩

theorem Store.equips_prepareList (s : Store) (object : Ref .object) :
    { s with lists := s.lists.alloc [] }.Equips object (ListMethod.all.map (ListMethod.native · s.lists.next))
      (s.prepareList object) :=
  equips_foldl (ListMethod.native · s.lists.next) object ListMethod.all _

theorem Store.equips_prepareMap (s : Store) (object : Ref .object) :
    { s with maps := s.maps.alloc .empty }.Equips object (MapMethod.all.map (MapMethod.native · s.maps.next))
      (s.prepareMap object) :=
  equips_foldl (MapMethod.native · s.maps.next) object MapMethod.all _

end Scriptlet
