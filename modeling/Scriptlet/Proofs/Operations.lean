import Scriptlet.Proofs.SplitTexts

/-!
What a host can ask of a session, one operation after the other. An operation may run a program, so it has a limit of
steps; one that has not ended by then leaves the session as it is at that moment. Only texts give out node numbers and
record distances, each text numbers of its own and distances for these alone.
-/
namespace Scriptlet

open Machine

/-- What a host calls: something at an address, or a value that it holds. -/
inductive Target where
  | address (address : String)
  | value (value : Value)

inductive Operation where
  | submit (form : Session.Form) (source : String)
  | call (target : Target) (arguments : List Value)
  | create (target : Target) (arguments : List Value)
  | get (address : String)
  | set (address : String) (value : Value)
  | define (name : String) (value : Value)
  | native (name : String) (arity : Nat) (behaviour : Behaviour)
  | nativeClass (name : String) (arity : Nat) (statics : Table String Value) (initializer : Initializer)
  | reset

namespace Session

def aim (s : Session) : Target → Session × Except Error Value
  | .address address => s.get address
  | .value v => (s, .ok v)

/-- The session while work is under way. -/
def underway (host : Host) (n : Nat) (s : Session) (control : Control) : Session :=
  { s with world := (run host n (s.start control)).toWorld }

/-- What has ended tells its result; anything else leaves the session as it is meanwhile. -/
def settle (ended : Option (Session × Except Error Value)) (meanwhile : Session) :
    Session × Option (Except Error Value) :=
  match ended with
  | some (s, result) => (s, some result)
  | none => (meanwhile, none)

/-- Performs an operation within a limit of steps; there is no result if it takes more. -/
def operate (host : Host) (limit : Nat) (s : Session) : Operation → Session × Option (Except Error Value)
  | .submit form source =>
    settle (s.submit host limit form source)
      (match s.check form source with
        | (s, .ok control) => s.underway host limit control
        | (s, .error _) => s)
  | .call target arguments =>
    match s.aim target with
    | (s, .ok callee) =>
      settle (s.call host limit callee arguments) (s.underway host limit (.invoke callee arguments .host))
    | (s, .error e) => (s, some (.error e))
  | .create target arguments =>
    match s.aim target with
    | (s, .ok value) =>
      settle (s.create host limit value arguments) (s.underway host limit (.invoke value arguments .host))
    | (s, .error e) => (s, some (.error e))
  | .get address =>
    let (s, result) := s.get address
    (s, some result)
  | .set address value =>
    let (s, result) := s.set address value
    (s, some (result.map fun _ => .null))
  | .define name value => (s.define name value, some (.ok .null))
  | .native name arity behaviour => (s.withStore (s.store.defineNative name arity behaviour), some (.ok .null))
  | .nativeClass name arity statics initializer =>
    (s.withStore (s.store.defineNativeClass name arity statics initializer), some (.ok .null))
  | .reset => (s.reset, some (.ok .null))

/-- The session after operations, each with its limit. -/
def after (host : Host) (s : Session) (ops : List (Operation × Nat)) : Session :=
  ops.foldl (fun s (op, limit) => (s.operate host limit op).1) s

/-- The session has read no text since, or none with a tree: numbers may have been given out, but nothing is recorded. -/
structure Skips (s s' : Session) : Prop where
  next : Nat.le s.nextId s'.nextId
  distances : s'.world.distances = s.world.distances

variable {host : Host} {s s' s'' : Session}

theorem Skips.refl (s : Session) : Skips s s := ⟨Nat.le_refl _, rfl⟩

theorem Skips.trans (h : Skips s s') (h' : Skips s' s'') : Skips s s'' :=
  ⟨Nat.le_trans h.next h'.next, h'.distances.trans h.distances⟩

theorem skips_get (s : Session) (address : String) : Skips s (s.get address).1 := by
  unfold get
  split <;> exact ⟨Nat.le_refl _, rfl⟩

theorem skips_set (s : Session) (address : String) (value : Value) : Skips s (s.set address value).1 := by
  unfold set
  split <;> exact ⟨Nat.le_refl _, rfl⟩

theorem skips_aim (s : Session) (target : Target) : Skips s (s.aim target).1 := by
  cases target with
  | address address => exact skips_get s address
  | value v => exact .refl s

theorem skips_underway (n : Nat) (s : Session) (control : Control) : Skips s (s.underway host n control) :=
  ⟨Nat.le_refl _, distances_run n _⟩

theorem skips_perform {limit : Nat} {control : Control} {result : Except Error Value}
    (h : s.perform host limit control = some (s', result)) : Skips s s' := by
  obtain ⟨world, next⟩ := world_finish h
  refine ⟨Nat.le_of_eq next.symm, ?_⟩
  rw [world]
  exact distances_run limit _

/-- Whether or not work ends within the limit, it reads no text. -/
theorem skips_settle {limit : Nat} {control : Control} :
    Skips s (settle (s.perform host limit control) (s.underway host limit control)).1 := by
  cases h : s.perform host limit control with
  | none => exact skips_underway limit s control
  | some ended => exact skips_perform h

/-- Only texts are read. -/
theorem skips_operate (host : Host) (limit : Nat) (s : Session) {op : Operation}
    (h : ∀ form source, op ≠ .submit form source) : Skips s (s.operate host limit op).1 := by
  cases op with
  | submit form source => exact absurd rfl (h form source)
  | call target arguments =>
    have aimed := skips_aim s target
    simp only [operate]
    revert aimed
    rcases s.aim target with ⟨s1, e | callee⟩ <;> intro aimed
    · exact aimed
    · exact aimed.trans skips_settle
  | create target arguments =>
    have aimed := skips_aim s target
    simp only [operate]
    revert aimed
    rcases s.aim target with ⟨s1, e | v⟩ <;> intro aimed
    · exact aimed
    · cases v with
      | «class» r => exact aimed.trans skips_settle
      | _ => exact aimed
  | get address => exact skips_get s address
  | set address value => exact skips_set s address value
  | define name value => exact ⟨Nat.le_refl _, rfl⟩
  | native name arity behaviour => exact ⟨Nat.le_refl _, rfl⟩
  | nativeClass name arity statics initializer => exact ⟨Nat.le_refl _, rfl⟩
  | reset => exact ⟨Nat.le_refl _, rfl⟩

/-- Running a text that has been checked changes nothing that is recorded. -/
theorem skips_submit (host : Host) (limit : Nat) (s : Session) (form : Form) (source : String) :
    Skips (s.check form source).1 (s.operate host limit (.submit form source)).1 := by
  simp only [operate, submit]
  rcases s.check form source with ⟨s1, e | control⟩
  · exact .refl s1
  · exact skips_settle

end Session

end Scriptlet
