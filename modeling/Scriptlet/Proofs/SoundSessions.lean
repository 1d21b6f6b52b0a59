import Scriptlet.Proofs.AddressSlots
import Scriptlet.Proofs.Confinement
import Scriptlet.Proofs.Operations

/-!
Sessions are sound. A careful host only refers to what exists; what it does to a sound store leaves the store sound. With
such a host no step of the machine leads out of what exists, and no operation on a session does that is given values that
exist. So nothing ever refers to an object that does not exist.
-/
namespace Scriptlet

open Machine

/-- What the host does to a sound store refers to what exists. -/
abbrev Host.Careful (host : Host) : Prop := Store.existing.Admits host

theorem Host.sample_careful : Host.sample.Careful where
  call _ tag cell? arguments s h cell given := by
    change Store.existing.Enlarged s (Host.Sample.call tag cell? arguments s).store ∧
      (Host.Sample.call tag cell? arguments s).reply.Inside (Host.Sample.call tag cell? arguments s).store.objects
    unfold Host.Sample.call
    split
    case h_4 f x =>
      refine ⟨h.enlarged, given f (by simp), fun v hv => given v ?_⟩
      exact List.mem_cons_of_mem f hv
    case h_6 k v =>
      have defined := h.define h.2 (s.display k) (given v (by simp))
      exact ⟨defined, (given v (by simp)).mono defined.kept⟩
    case h_8 r =>
      split
      · next x _ =>
        have changed := h.update (k := .cell) (cell r rfl) (f := fun _ => .number (x.add .one))
          (fun _ _ => ⟨.inl trivial, by rintro y ⟨⟩⟩) fun q => Heap.get?_set s.cells r q _
        exact ⟨changed, Value.inside_of_none rfl⟩
      · exact ⟨h.enlarged, trivial⟩
    case h_2 | h_9 => exact ⟨h.enlarged, trivial⟩
    all_goals exact ⟨h.enlarged, Value.inside_of_none rfl⟩
  prepare _ tag object arguments s h ho given := by
    change Store.existing.Enlarged s (Host.Sample.prepare tag object arguments s).1
    unfold Host.Sample.prepare
    split
    · next x =>
      obtain ⟨counted, cell⟩ := h.alloc (k := .cell) (a := .number x) ⟨.inl trivial, by rintro y ⟨⟩⟩
      refine counted.trans (counted.holds.addMethod (counted.kept ho) "next" 0 (.inl trivial) ?_)
      rintro y ⟨⟩
      exact cell
    · exact h.enlarged
    · next a b =>
      have first := h.setField ho "a" (given a (by simp))
      exact first.trans (first.holds.setField (first.kept ho) "b" ((given b (by simp)).mono first.kept))
    · exact h.enlarged

theorem Machine.Confined.run {R : Realm} {host : Host} {s : State} (admits : R.Admits host) (h : Confined R s) (n : Nat) :
    Confined R (run host n s) := by
  induction n with
  | zero => exact h
  | succ n ih =>
    rw [run_step]
    exact ih.step admits

/-- What is read at an address exists. -/
theorem Address.read_inside {store store' : Store} {address : String} {v : Value} (h : Store.existing.Holds store)
    (found : read store address = .ok (v, store')) : Store.existing.Enlarged store store' ∧ v.Inside store'.objects := by
  obtain ⟨container, last, there, hw, hm⟩ := exists_of_read found
  obtain ⟨-, -, followed⟩ := walk_ok_iff.1 hw
  obtain ⟨walked, -⟩ := follow_inside h (by simp) followed
  obtain ⟨enlarged, value⟩ := member_inside walked.holds hm
  exact ⟨walked.trans enlarged, value⟩

/-- The values that are handed over with the operation are inside. -/
def Operation.Inside (A : Set Object) : Operation → Prop
  | .call target arguments | .create target arguments =>
    (∀ v, target = .value v → v.Inside A) ∧ ∀ v ∈ arguments, v.Inside A
  | .set _ v | .define _ v => v.Inside A
  | .native _ _ behaviour => ∀ x, behaviour.storage? = some x → x ∈ A
  | .nativeClass _ _ statics _ => statics.Inside A
  | _ => True

namespace Session

variable {host : Host} {s : Session}

/-- Whether or not work ends within the limit, it does not lead out. -/
theorem holds_settle {R : Realm} (admits : R.Admits host) (limit : Nat) (h : R.Holds s.store) {control : Control}
    (inside : control.Inside R.hosted (R s.store)) :
    R.Holds (settle (s.perform host limit control) (s.underway host limit control)).1.store := by
  have start : Confined R (s.start control) := ⟨⟨h, trivial⟩, inside, fun _ => R.globals h⟩
  have done := (start.run admits limit).store
  cases performed : s.perform host limit control with
  | none => exact done
  | some ended =>
    obtain ⟨s', result⟩ := ended
    have world : s'.world = _ := (world_finish performed).1
    change R.Holds s'.world.store
    rw [world]
    exact done

theorem existing_aim (h : Store.existing.Holds s.store) {target : Target}
    (inside : ∀ v, target = .value v → v.Inside s.store.objects) :
    Store.existing.Enlarged s.store (s.aim target).1.store ∧
      ∀ v, (s.aim target).2 = .ok v → v.Inside (s.aim target).1.store.objects := by
  cases target with
  | value v =>
    refine ⟨h.enlarged, ?_⟩
    rintro w ⟨⟩
    exact inside v rfl
  | address address =>
    rw [aim, get]
    split
    · next v store found =>
      obtain ⟨enlarged, value⟩ := Address.read_inside h found
      refine ⟨enlarged, ?_⟩
      rintro w ⟨⟩
      exact value
    · exact ⟨h.enlarged, by rintro w ⟨⟩⟩

theorem existing_set (h : Store.existing.Holds s.store) (address : String) {v : Value} (inside : v.Inside s.store.objects) :
    Store.existing.Holds (s.set address v).1.store := by
  cases named : Address.slot? s.store address with
  | none =>
    obtain ⟨fault, failed⟩ := Address.write_none named v
    rw [set, failed]
    exact h
  | some slot =>
    have there := Address.holder_slot h.1 named
    rw [set, Address.write_slot named]
    cases slot with
    | global name => exact (h.define there name inside).holds
    | field r name => exact (h.setField there name inside).holds

/-- An operation with values that exist leaves a sound store sound. -/
theorem existing_operate (careful : host.Careful) (limit : Nat) (h : Store.existing.Holds s.store) {op : Operation}
    (inside : op.Inside s.store.objects) : Store.existing.Holds (s.operate host limit op).1.store := by
  cases op with
  | submit form source =>
    simp only [operate, submit]
    have checks {s' : Session} {r : Except Error Control} (checked : s.check form source = (s', r)) :
        Store.existing.Holds s'.store := by
      rw [store, check_world checked]
      exact h
    rcases checked : s.check form source with ⟨s', e | control⟩
    · exact checks checked
    · refine holds_settle careful limit (checks checked) ?_
      obtain ⟨program, rfl, -⟩ | ⟨e, rfl, -⟩ := check_control checked <;> trivial
  | call target arguments =>
    obtain ⟨aimed, value⟩ := existing_aim h inside.1
    simp only [operate]
    generalize s.aim target = found at aimed value ⊢
    obtain ⟨s', e | callee⟩ := found
    · exact aimed.holds
    · exact holds_settle careful limit aimed.holds ⟨value callee rfl, fun v hv => (inside.2 v hv).mono aimed.kept⟩
  | create target arguments =>
    obtain ⟨aimed, value⟩ := existing_aim h inside.1
    simp only [operate]
    generalize s.aim target = found at aimed value ⊢
    obtain ⟨s', e | callee⟩ := found
    · exact aimed.holds
    · cases callee with
      | «class» c =>
        exact holds_settle careful limit aimed.holds ⟨value _ rfl, fun v hv => (inside.2 v hv).mono aimed.kept⟩
      | _ => exact aimed.holds
  | get address =>
    obtain ⟨aimed, -⟩ : _ ∧ ∀ v, (s.aim (.address address)).2 = .ok v → _ := existing_aim h (by rintro v ⟨⟩)
    exact aimed.holds
  | set address v => exact existing_set h address inside
  | define name v => exact (h.define h.2 name inside).holds
  | native name arity behaviour => exact (h.defineNative name arity (.inl trivial) inside).holds
  | nativeClass name arity statics i => exact (h.defineNativeClass name arity inside (.inl trivial)).holds
  | reset => exact h

/-- A session that a host brings about by operations, with values that exist. -/
inductive Handled (host : Host) : Session → Prop
  | fresh (console : Console) : Handled host (.withConsole console)
  | operate {s : Session} {op : Operation} (limit : Nat) : Handled host s → op.Inside s.store.objects →
      Handled host (s.operate host limit op).1

/-- With a careful host, nothing refers to an object that does not exist. -/
theorem Handled.sound (careful : host.Careful) (h : Handled host s) : s.store.Sound := by
  have existing : Store.existing.Holds s.store := by
    induction h with
    | fresh console => exact Store.existing_library
    | operate limit _ inside ih => exact existing_operate careful limit ih inside
  exact existing.1

end Session

end Scriptlet
