import Mathlib.Data.Nat.Find
import Scriptlet.Proofs.AlignedRuns
import Scriptlet.Proofs.RunLaws

/-!
A program that goes on after its end. While the first part of a longer program runs, the machine does step by step what
it does for that part alone; all that differs is the rest of the top level that waits at the bottom, and distances of
nodes that it does not come to. When the first part is done alone, the longer program is where its second part starts.
-/
namespace Scriptlet.Machine

variable {host : Host} {q : List Stmt} {d : Distances} {below : List Pending}

/-- More of the top level is to come. -/
def Control.followed (q : List Stmt) : Control → Control
  | .program body => .program (body ++ q)
  | c => c

def Pending.followed (q : List Stmt) : Pending → Pending
  | .program rest => .program (rest ++ q)
  | p => p

/-- The state of the longer program, with the distances of all of it. -/
def State.followed (q : List Stmt) (d : Distances) (s : State) : State :=
  { s with distances := d, control := s.control.followed q, pending := s.pending.map (Pending.followed q) }

/-- Moreover, other work waits below all of it. -/
def State.amid (q : List Stmt) (d : Distances) (below : List Pending) (s : State) : State :=
  { s.followed q d with pending := s.pending.map (Pending.followed q) ++ below }

theorem State.amid_nil (s : State) : s.amid q d [] = s.followed q d := by
  unfold amid
  rw [List.append_nil]
  rfl

/-- The distances agree on a node. -/
def State.Agrees (s : State) (d : Distances) (id : NodeId) : Prop := d.get? id = s.distances.get? id

section Lookup

variable {s : State} {id : NodeId} (h : s.Agrees d id) (name : String)
include h

theorem lookup_amid : (s.amid q d below).lookup id name = s.lookup id name := by
  have same : (s.amid q d below).distances.get? id = s.distances.get? id := h
  unfold State.lookup
  rw [same]
  rfl

theorem target?_amid : (s.amid q d below).target? id name = s.target? id name := by
  have same : (s.amid q d below).distances.get? id = s.distances.get? id := h
  unfold State.target?
  rw [same]
  rfl

end Lookup

theorem evaluate_amid {s : State} {e : Expr} (h : ∀ id x, (Part.expr e).node? = some (id, x) → s.Agrees d id) :
    evaluate (s.amid q d below) e = (evaluate s e).amid q d below := by
  cases e with
  | «variable» id name =>
    simp only [evaluate, lookup_amid (h id name.text rfl)]
    cases s.lookup id name.text <;> rfl
  | this id line =>
    simp only [evaluate, lookup_amid (h id "this" rfl)]
    cases s.lookup id "this" <;> rfl
  | suffix id name op =>
    simp only [evaluate, lookup_amid (h id name.text rfl), target?_amid (h id name.text rfl)]
    rcases s.lookup id name.text with _ | v
    · rfl
    · cases v with
      | number x => cases s.target? id name.text <;> rfl
      | _ => rfl
  | _ => rfl

theorem addStatics_amid (s : State) (rs : List Routine) :
    addStatics (s.amid q d below) rs = ((addStatics s rs).1, (addStatics s rs).2.amid q d below) := by
  unfold addStatics
  generalize Table.empty = table
  induction rs generalizing s table with
  | nil => rfl
  | cons r rs ih => exact ih (s.addClosure r .static).2 _

theorem declareClass_amid (s : State) (c : ClassDeclaration) :
    declareClass (s.amid q d below) c = (declareClass s c).amid q d below := by
  simp only [declareClass, addStatics_amid]
  rfl

theorem execute_amid (s : State) (x : Stmt) : execute (s.amid q d below) x = (execute s x).amid q d below := by
  cases x with
  | var name e? => cases e? <;> rfl
  | «return» line e? => cases e? <;> rfl
  | «class» c =>
    simp only [execute]
    cases c.base with
    | none => exact declareClass_amid (s.define c.name.text .null) c
    | some base => rfl
  | _ => rfl

theorem invoke_amid (s : State) (callee : Value) (arguments : List Value) (site : Site) :
    invoke (s.amid q d below) callee arguments site = (invoke s callee arguments site).amid q d below := by
  have callee? : (s.amid q d below).store.callee? callee = s.store.callee? callee := rfl
  unfold invoke
  rw [callee?]
  cases s.store.callee? callee with
  | none => cases site <;> rfl
  | some c =>
    cases site with
    | script line =>
      dsimp only
      split <;> rfl
    | host =>
      dsimp only
      split <;> rfl

theorem enter_amid (s : State) (callee : Callee) (arguments : List Value) :
    enter host (s.amid q d below) callee arguments = (enter host s callee arguments).amid q d below := by
  rcases callee with (c | n) | ⟨r, c⟩
  · rfl
  · have store : (s.amid q d below).store = s.store := rfl
    have console : (s.amid q d below).console = s.console := rfl
    simp only [enter, enterNative, store, console]
    repeat' split
    all_goals rfl
  · have prepared : prepared host (s.amid q d below).store r c arguments = prepared host s.store r c arguments := rfl
    rw [enter, enter, enterClass_eq, enterClass_eq, prepared]
    repeat' split
    all_goals rfl

theorem resume_amid {s : State} {p : Pending} (v : Value) (h : ∀ id name, p = .assign id name → s.Agrees d id) :
    resume (s.amid q d below) v (p.followed q) = (resume s v p).amid q d below := by
  have store : (s.amid q d below).store = s.store := rfl
  cases p with
  | assign id name =>
    simp only [resume, Pending.followed, target?_amid (h id name rfl)]
    cases s.target? id name.text <;> rfl
  | base c =>
    cases v with
    | «class» r => exact declareClass_amid s c
    | _ => rfl
  | callee es line => cases es <;> rfl
  | arguments callee done es line => cases es <;> rfl
  | index object line =>
    simp only [resume, Pending.followed, subscript, State.answer, store]
    repeat' split
    all_goals rfl
  | _ =>
    simp only [resume, Pending.followed, State.answer, store]
    repeat' split
    all_goals rfl

theorem proceed_amid (s : State) (f : Flow) (p : Pending) :
    proceed (s.amid q d below) f (p.followed q) = (proceed s f p).amid q d below := by
  cases p with
  | sequence rest => cases f <;> rfl
  | loopBody condition body => cases f <;> rfl
  | _ => rfl

theorem unwind_amid (s : State) (e : Failure) (p : Pending) :
    unwind (s.amid q d below) e (p.followed q) = (unwind s e p).amid q d below := by
  cases p <;> rfl

/-- Up to the end of the first part, and of what is on its own below it, a step of the longer program is the step of the
first part. -/
theorem step_amid {s : State} (seen : ∀ id x, s.node? = some (id, x) → s.Agrees d id)
    (more : s.control ≠ .program [] ∨ q = []) (going : below = [] ∨ s.outcome? = none) :
    step host (s.amid q d below) = (step host s).amid q d below := by
  obtain ⟨⟨store, console, distances⟩, control, frame, pending⟩ := s
  cases control with
  | evaluate e => exact evaluate_amid seen
  | execute x => exact execute_amid _ x
  | sequence body => cases body <;> rfl
  | program body =>
    cases body with
    | nil =>
      obtain rfl := more.resolve_left (absurd rfl)
      rfl
    | cons x rest => rfl
  | invoke callee arguments site => exact invoke_amid _ callee arguments site
  | enter callee arguments => exact enter_amid _ callee arguments
  | value v =>
    cases pending with
    | nil =>
      obtain rfl := going.resolve_right nofun
      rfl
    | cons p rest =>
      refine resume_amid (s := ⟨⟨store, console, distances⟩, .value v, frame, rest⟩) v fun id name hp => ?_
      subst hp
      exact seen id name.text rfl
  | flow f =>
    cases pending with
    | nil =>
      obtain rfl := going.resolve_right nofun
      rfl
    | cons p rest => exact proceed_amid ⟨⟨store, console, distances⟩, .flow f, frame, rest⟩ f p
  | raise e =>
    cases pending with
    | nil =>
      obtain rfl := going.resolve_right nofun
      rfl
    | cons p rest => exact unwind_amid ⟨⟨store, console, distances⟩, .raise e, frame, rest⟩ e p

theorem step_followed {s : State} (seen : ∀ id x, s.node? = some (id, x) → s.Agrees d id)
    (more : s.control ≠ .program []) : step host (s.followed q d) = (step host s).followed q d := by
  rw [← State.amid_nil, ← State.amid_nil]
  exact step_amid seen (.inl more) (.inl rfl)

theorem outcome?_followed (s : State) : (s.followed q d).outcome? = s.outcome? := by
  obtain ⟨world, control, frame, pending⟩ := s
  cases pending with
  | nil => cases control <;> rfl
  | cons p rest => rfl

/-- The rest of the top level waits below everything else, in the outermost frame. -/
def Deep (f : Ref .frame) : List Pending → Prop
  | [] => False
  | .program _ :: ps => f = Store.globals ∧ ps = []
  | .leave outside :: ps => Deep outside ps
  | .body _ outside :: ps => Deep outside ps
  | _ :: ps => Deep f ps

/-- Something inside of a statement of the top level is done. -/
structure Within (s : State) : Prop where
  deep : Deep s.frame s.pending
  inside : ∀ body, s.control ≠ .program body

/-- Nothing is pending: the top level goes on, or a failure has left it. -/
structure OnTop (s : State) : Prop where
  frame : s.frame = Store.globals
  pending : s.pending = []
  control : (∃ body, s.control = .program body) ∨ ∃ e, s.control = .raise e

section Grounded

variable {s : State}

theorem evaluate_within (h : Deep s.frame s.pending) (e : Expr) : Within (evaluate s e) := by
  cases e <;> simp only [evaluate] <;> (repeat' split) <;> exact ⟨h, fun _ he => by cases he⟩

theorem declareClass_within (h : Deep s.frame s.pending) (c : ClassDeclaration) : Within (declareClass s c) := by
  refine ⟨?_, fun _ he => by cases he⟩
  change Deep (addStatics s c.statics).2.frame (addStatics s c.statics).2.pending
  rw [addStatics_eq]
  exact h

theorem execute_within (h : Deep s.frame s.pending) (x : Stmt) : Within (execute s x) := by
  cases x with
  | var name e? | «return» line e? => cases e? <;> exact ⟨h, fun _ he => by cases he⟩
  | «class» c =>
    simp only [execute]
    split
    · exact ⟨h, fun _ he => by cases he⟩
    · exact declareClass_within (s := s.define c.name.text .null) h c
  | _ => exact ⟨h, fun _ he => by cases he⟩

theorem invoke_within (h : Deep s.frame s.pending) (callee : Value) (arguments : List Value) (site : Site) :
    Within (invoke s callee arguments site) := by
  unfold invoke
  repeat' split
  all_goals exact ⟨h, fun _ he => by cases he⟩

theorem enter_within (h : Within s) (callee : Callee) (arguments : List Value) :
    Within (enter host s callee arguments) := by
  obtain ⟨deep, inside⟩ := h
  rcases callee with (c | n) | ⟨r, c⟩
  · exact ⟨deep, fun _ he => by cases he⟩
  · simp only [enter, enterNative]
    repeat' split
    -- a call of `input` that waits leaves the state as it is
    all_goals exact ⟨deep, fun _ he => by first | cases he | exact inside _ he⟩
  · rw [enter, enterClass_eq]
    repeat' split
    all_goals exact ⟨deep, fun _ he => by cases he⟩

theorem resume_within {p : Pending} (h : Deep s.frame (p :: s.pending)) (v : Value) : Within (resume s v p) := by
  cases p with
  | base c =>
    cases v with
    | «class» r => exact declareClass_within h c
    | _ => exact ⟨h, fun _ he => by cases he⟩
  | callee es line | arguments callee done es line => cases es <;> exact ⟨h, fun _ he => by cases he⟩
  | index object line =>
    simp only [resume, subscript, State.answer]
    repeat' split
    all_goals exact ⟨h, fun _ he => by cases he⟩
  | _ =>
    simp only [resume, State.answer]
    repeat' split
    all_goals exact ⟨h, fun _ he => by cases he⟩

theorem proceed_grounded {p : Pending} (h : Deep s.frame (p :: s.pending)) (f : Flow) :
    Within (proceed s f p) ∨ OnTop (proceed s f p) := by
  cases p with
  | program rest => exact .inr ⟨h.1, h.2, .inl ⟨rest, rfl⟩⟩
  | sequence rest | loopBody condition body => cases f <;> exact .inl ⟨h, fun _ he => by cases he⟩
  | _ => exact .inl ⟨h, fun _ he => by cases he⟩

theorem unwind_grounded {p : Pending} (h : Deep s.frame (p :: s.pending)) (e : Failure) :
    Within (unwind s e p) ∨ OnTop (unwind s e p) := by
  cases p with
  | program rest => exact .inr ⟨h.1, h.2, .inr ⟨e, rfl⟩⟩
  | _ => exact .inl ⟨h, fun _ he => by cases he⟩

/-- Until the top level is done, a step stays within it or comes back to it. -/
theorem step_grounded (h : Within s ∨ OnTop s) (more : s.control ≠ .program []) :
    Within (step host s) ∨ OnTop (step host s) := by
  obtain ⟨⟨store, console, distances⟩, control, frame, pending⟩ := s
  rcases h with ⟨deep, inside⟩ | ⟨global, alone, top⟩
  · cases control with
    | evaluate e => exact .inl (evaluate_within deep e)
    | execute x => exact .inl (execute_within deep x)
    | sequence body => cases body <;> exact .inl ⟨deep, fun _ he => by cases he⟩
    | program body => exact absurd rfl (inside body)
    | invoke callee arguments site => exact .inl (invoke_within deep callee arguments site)
    | enter callee arguments => exact .inl (enter_within ⟨deep, inside⟩ callee arguments)
    | value v =>
      cases pending with
      | nil => exact .inl ⟨deep, inside⟩
      | cons p rest => exact .inl (resume_within (s := ⟨⟨store, console, distances⟩, .value v, frame, rest⟩) deep v)
    | flow f =>
      cases pending with
      | nil => exact .inl ⟨deep, inside⟩
      | cons p rest => exact proceed_grounded (s := ⟨⟨store, console, distances⟩, .flow f, frame, rest⟩) deep f
    | raise e =>
      cases pending with
      | nil => exact .inl ⟨deep, inside⟩
      | cons p rest => exact unwind_grounded (s := ⟨⟨store, console, distances⟩, .raise e, frame, rest⟩) deep e
  · dsimp only at global alone top more
    subst alone
    rcases top with ⟨body, rfl⟩ | ⟨e, rfl⟩
    · cases body with
      | nil => exact absurd rfl more
      | cons x rest => exact .inl ⟨⟨global, rfl⟩, fun _ he => by cases he⟩
    · exact .inr ⟨global, rfl, .inr ⟨e, rfl⟩⟩

/-- Before the top level is done, only a failure can end it. -/
theorem outcome?_grounded (h : Within s ∨ OnTop s) {o : Outcome} (ho : s.outcome? = some o) : ∃ e, o = .failure e := by
  have halted := outcome?_isSome (s := s) (by rw [ho]; rfl)
  rcases h with ⟨deep, -⟩ | ⟨-, alone, ⟨body, hc⟩ | ⟨e, hc⟩⟩
  · rw [halted.1] at deep
    exact deep.elim
  · obtain ⟨-, ⟨v, hv⟩ | ⟨f, hf⟩ | ⟨e, he⟩⟩ := halted
    · rw [hc] at hv
      cases hv
    · rw [hc] at hf
      cases hf
    · rw [hc] at he
      cases he
  · refine ⟨e, ?_⟩
    unfold State.outcome? at ho
    rw [alone, hc] at ho
    exact (Option.some.inj ho).symm

end Grounded

/-- As long as the first part has not come to its end, the longer program is where the first part alone is. -/
theorem run_followed {s : State} {n : Nat}
    (seen : ∀ m, ∀ id x, (run host m s).node? = some (id, x) → (run host m s).Agrees d id)
    (more : ∀ m < n, (run host m s).control ≠ .program []) :
    run host n (s.followed q d) = (run host n s).followed q d := by
  induction n with
  | zero => rfl
  | succ n ih =>
    rw [run_step, run_step, ih fun m hm => more m (Nat.lt_succ_of_lt hm)]
    exact step_followed (seen n) (more n (Nat.lt_succ_self n))

theorem run_grounded {s : State} {n : Nat} (h : Within s ∨ OnTop s)
    (more : ∀ m < n, (run host m s).control ≠ .program []) : Within (run host n s) ∨ OnTop (run host n s) := by
  induction n with
  | zero => exact h
  | succ n ih =>
    rw [run_step]
    exact step_grounded (ih fun m hm => more m (Nat.lt_succ_of_lt hm)) (more n (Nat.lt_succ_self n))

/-- Where the first part ends, the second part starts. -/
theorem followed_end {s : State} (h : Within s ∨ OnTop s) (done : s.control = .program []) :
    s.followed q d = .start { s.toWorld with distances := d } (.program q) := by
  obtain ⟨⟨store, console, distances⟩, control, frame, pending⟩ := s
  rcases h with ⟨-, inside⟩ | ⟨global, alone, -⟩
  · exact absurd done (inside [])
  · dsimp only at global alone done
    subst global alone done
    rfl

/-- A run of the longer program either never comes to the end of the first part, or goes on from there with the second
part. -/
theorem run_followed_cases {s : State} (h : OnTop s)
    (seen : ∀ n, ∀ id x, (run host n s).node? = some (id, x) → (run host n s).Agrees d id) :
    (∀ n, run host n (s.followed q d) = (run host n s).followed q d ∧ (Within (run host n s) ∨ OnTop (run host n s))) ∨
      ∃ m, (∀ n ≤ m, run host n (s.followed q d) = (run host n s).followed q d) ∧
        run host (m + 1) s = (run host m s).go (.flow .normal) ∧ (run host m s).pending = [] ∧
        ∀ n, run host (m + n) (s.followed q d) =
          run host n (.start { (run host m s).toWorld with distances := d } (.program q)) := by
  classical
  by_cases done : ∃ m, (run host m s).control = .program []
  · have least : ∀ m < Nat.find done, (run host m s).control ≠ .program [] := fun _ => Nat.find_min done
    have grounded := run_grounded (.inr h) least
    have ended := Nat.find_spec done
    refine .inr ⟨Nat.find done, fun n hn => run_followed seen fun m hm => least m (by omega), ?_, ?_, fun n => ?_⟩
    · rw [run_step]
      unfold step
      rw [ended]
    · rcases grounded with ⟨-, inside⟩ | top
      · exact absurd ended (inside [])
      · exact top.pending
    · rw [run_add, run_followed seen least, followed_end grounded ended]
  · have more : ∀ m, (run host m s).control ≠ .program [] := fun m hm => done ⟨m, hm⟩
    exact .inl fun n => ⟨run_followed seen fun m _ => more m, run_grounded (.inr h) fun m _ => more m⟩

end Scriptlet.Machine
