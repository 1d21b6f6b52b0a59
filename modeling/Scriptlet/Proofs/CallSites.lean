import Scriptlet.Proofs.RunLaws

/-!
Where failures of natives are reported. While a program runs, every native that is under way has been called by the
program, directly or through other natives, so there is a call or a subscript of the program around it; a failure that
has no line of its own takes the line of the innermost one on its way out.
-/
namespace Scriptlet.Machine

def Pending.site? : Pending → Option Nat
  | .site line => some line
  | _ => none

/-- The line of the innermost call or subscript of the program that is under way. -/
def siteLine? (ps : List Pending) : Option Nat := ps.findSome? Pending.site?

/-- Every native that waits for a call of its own has been called by the program. -/
def Backed : List Pending → Prop
  | [] => True
  | .nativeCall :: ps => (siteLine? ps).isSome = true ∧ Backed ps
  | _ :: ps => Backed ps

/-- What only natives do, or calls that the program has made. -/
def Control.inCall : Control → Bool
  | .enter _ _ => true
  | .invoke _ _ .host => true
  | .raise (.native _) => true
  | _ => false

/-- Around whatever belongs to a call there is a call of the program. -/
structure State.Placed (s : State) : Prop where
  backed : Backed s.pending
  site : s.control.inCall = true → (siteLine? s.pending).isSome = true

/-- Something else is done now, for which at most one more piece of work is pending. -/
structure Plain (s t : State) : Prop where
  pending : t.pending = s.pending ∨ ∃ p, p ≠ .nativeCall ∧ t.pending = p :: s.pending
  control : t.control.inCall = false

section Plain

variable {s t : State}

theorem backed_cons {p : Pending} {ps : List Pending} (hp : p ≠ .nativeCall) : Backed (p :: ps) ↔ Backed ps := by
  cases p with
  | nativeCall => exact absurd rfl hp
  | _ => exact Iff.rfl

theorem Backed.tail {p : Pending} {ps : List Pending} (h : Backed (p :: ps)) : Backed ps := by
  cases p with
  | nativeCall => exact h.2
  | _ => exact h

theorem Plain.placed (h : Plain s t) (backed : Backed s.pending) : t.Placed := by
  refine ⟨?_, fun inCall => ?_⟩
  · rcases h.pending with same | ⟨p, hp, pushed⟩
    · rwa [same]
    · rw [pushed]
      exact (backed_cons hp).2 backed
  · rw [h.control] at inCall
    cases inCall

theorem plain_go {control : Control} (h : control.inCall = false) : Plain s (s.go control) := ⟨.inl rfl, h⟩

theorem plain_give (v : Value) : Plain s (s.give v) := plain_go rfl

theorem plain_raise (line : Nat) (fault : Fault) : Plain s (s.raise line fault) := plain_go rfl

theorem plain_push {p : Pending} {control : Control} (hp : p ≠ .nativeCall) (hc : control.inCall = false) :
    Plain s (s.push p control) :=
  ⟨.inr ⟨p, hp, rfl⟩, hc⟩

/-- Only the pending work of the first state matters. -/
theorem Plain.of_pending {s' : State} (h : Plain s' t) (same : s'.pending = s.pending) : Plain s t :=
  ⟨by rw [← same]; exact h.pending, h.control⟩

theorem plain_answer (line : Nat) (result : Except Fault Value) : Plain s (s.answer line result) := by
  cases result with
  | ok v => exact plain_give v
  | error fault => exact plain_raise line fault

theorem plain_evaluateArguments (callee : Value) (done : List Value) (rest : List Expr) (line : Nat) :
    Plain s (evaluateArguments s callee done rest line) := by
  cases rest with
  | nil => exact plain_go rfl
  | cons e rest => exact plain_push (by simp) rfl

theorem plain_evaluate (e : Expr) : Plain s (evaluate s e) := by
  cases e with
  | literal value => exact plain_give _
  | group inner => exact plain_go rfl
  | «variable» id name | this id line =>
    simp only [evaluate]
    split
    · exact plain_give _
    · exact plain_raise _ _
  | suffix id name op =>
    simp only [evaluate]
    split
    · exact plain_raise _ _
    · split
      · exact ⟨.inl rfl, rfl⟩
      · exact plain_raise _ _
    · exact plain_raise _ _
  | lambda routine => exact ⟨.inl rfl, rfl⟩
  | _ => exact plain_push (by simp) rfl

theorem plain_declareClass (d : ClassDeclaration) : Plain s (declareClass s d) := by
  have pending := congrArg State.pending (addStatics_eq s d.statics)
  exact ⟨.inl pending, rfl⟩

theorem plain_execute (stmt : Stmt) : Plain s (execute s stmt) := by
  cases stmt with
  | var name initial =>
    cases initial with
    | none => exact ⟨.inl rfl, rfl⟩
    | some e => exact plain_push (by simp) rfl
  | block body => exact ⟨.inr ⟨.leave s.frame, by simp, rfl⟩, rfl⟩
  | «break» line => exact plain_go rfl
  | «continue» line => exact plain_go rfl
  | function routine => exact ⟨.inl rfl, rfl⟩
  | «return» line value =>
    cases value with
    | none => exact plain_go rfl
    | some e => exact plain_push (by simp) rfl
  | «class» d =>
    simp only [execute]
    split
    · next base _ => exact ⟨.inr ⟨.base d, by simp, rfl⟩, rfl⟩
    · exact (plain_declareClass d).of_pending rfl
  | _ => exact plain_push (by simp) rfl

theorem plain_subscript (object position : Value) (line : Nat) : Plain s (subscript s object position line) := by
  unfold subscript
  split
  · exact plain_answer _ _
  · split
    · exact ⟨.inl rfl, rfl⟩
    · exact plain_raise _ _
  · exact plain_raise _ _

theorem plain_resume (v : Value) {p : Pending} (hp : p ≠ .nativeCall) : Plain s (resume s v p) := by
  cases p with
  | unary op => exact plain_answer _ _
  | binaryRight op right => exact plain_push (by simp) rfl
  | binary left op => exact plain_answer _ _
  | logical op right =>
    simp only [resume]
    split
    · exact plain_give v
    · exact plain_go rfl
  | ternary yes no => exact plain_go rfl
  | assign id name | updateField r name current op =>
    simp only [resume]
    split
    · exact ⟨.inl rfl, rfl⟩
    · exact plain_raise _ _
  | callee arguments line | arguments callee done rest line => exact plain_evaluateArguments _ _ _ _
  | get name =>
    simp only [resume]
    split
    · split
      · exact ⟨.inl rfl, rfl⟩
      · exact plain_raise _ _
    · split
      · exact ⟨.inl rfl, rfl⟩
      · exact plain_raise _ _
    · exact plain_raise _ _
  | setObject name value =>
    simp only [resume]
    split
    · exact plain_push (by simp) rfl
    · exact plain_raise _ _
  | setField r name => exact ⟨.inl rfl, rfl⟩
  | updateObject name op value =>
    simp only [resume]
    split
    · next r =>
      split
      · next property _ => exact ⟨.inr ⟨.updateField r name (s.realize property).1 op, by simp, rfl⟩, rfl⟩
      · exact plain_raise _ _
    · exact plain_raise _ _
  | indexObject position line => exact plain_push (by simp) rfl
  | index object line => exact plain_subscript _ _ _
  | expression => exact plain_go rfl
  | print => exact ⟨.inl rfl, rfl⟩
  | var name => exact ⟨.inl rfl, rfl⟩
  | conditional yes no =>
    simp only [resume]
    split
    · exact plain_go rfl
    · split <;> exact plain_go rfl
  | loopCondition condition body =>
    simp only [resume]
    split
    · exact plain_push (by simp) rfl
    · exact plain_go rfl
  | «return» => exact plain_go rfl
  | base d =>
    simp only [resume]
    split
    · exact plain_declareClass d
    · exact plain_raise _ _
  | constructed object => exact plain_give _
  | site line => exact plain_give v
  | nativeCall => exact absurd rfl hp
  | _ => exact plain_push (by simp) rfl

theorem plain_proceed (f : Flow) {p : Pending} (hp : p ≠ .nativeCall) : Plain s (proceed s f p) := by
  cases p with
  | sequence rest =>
    simp only [proceed]
    split <;> exact plain_go rfl
  | program rest => exact plain_go rfl
  | loopBody condition body =>
    simp only [proceed]
    split
    · exact plain_go rfl
    · exact plain_go rfl
    · exact plain_push (by simp) rfl
  | leave outside => exact ⟨.inl rfl, rfl⟩
  | body c outside => exact ⟨.inl rfl, rfl⟩
  | _ => exact plain_push hp rfl

end Plain

section Placed

variable {host : Host} {s : State}

theorem placed_go (backed : Backed s.pending) (site : (siteLine? s.pending).isSome = true) (control : Control) :
    (s.go control).Placed :=
  ⟨backed, fun _ => site⟩

theorem State.Placed.invoke (h : s.Placed) {callee : Value} {arguments : List Value} {site : Site}
    (hc : s.control = .invoke callee arguments site) : (invoke s callee arguments site).Placed := by
  cases site with
  | script line =>
    unfold Machine.invoke
    split
    · exact (plain_raise _ _).placed h.backed
    · next he => cases he
    · split
      · exact ⟨h.backed, fun _ => rfl⟩
      · exact (plain_raise _ _).placed h.backed
    · next he => cases he
  | host =>
    have site := h.site (by rw [hc]; rfl)
    unfold Machine.invoke
    split
    · next he => cases he
    · exact placed_go h.backed site _
    · next he => cases he
    · split <;> exact placed_go h.backed site _

theorem placed_enterNative (backed : Backed s.pending) (site : (siteLine? s.pending).isSome = true) (native : Native)
    (arguments : List Value) : (enterNative host s native arguments).Placed := by
  unfold enterNative
  split
  · exact ⟨backed, fun _ => site⟩
  · split
    · exact ⟨backed, fun _ => site⟩
    · exact ⟨backed, fun _ => site⟩
  · split <;> exact ⟨backed, fun _ => site⟩
  · split <;> exact ⟨backed, fun _ => site⟩
  · dsimp only
    split
    · exact ⟨backed, fun _ => site⟩
    · exact ⟨backed, fun _ => site⟩
    · exact ⟨⟨site, backed⟩, fun _ => site⟩

theorem placed_enter (backed : Backed s.pending) (site : (siteLine? s.pending).isSome = true) (callee : Callee)
    (arguments : List Value) : (enter host s callee arguments).Placed := by
  cases callee with
  | function f =>
    cases f with
    | closure c => exact ⟨backed, fun _ => site⟩
    | native n => exact placed_enterNative backed site n arguments
  | «class» r c =>
    simp only [enter, enterClass]
    split <;> exact ⟨backed, fun _ => site⟩

theorem Failure.at_eq_runtime (e : Failure) (line : Nat) : ∃ line' fault, e.at line = .runtime line' fault := by
  cases e <;> exact ⟨_, _, rfl⟩

theorem placed_unwind {e : Failure} {p : Pending} (backed : Backed (p :: s.pending))
    (site : ∀ f, e = .native f → (siteLine? (p :: s.pending)).isSome = true) : (unwind s e p).Placed := by
  have lineless (h : siteLine? (p :: s.pending) = siteLine? s.pending) :
      (Control.raise e).inCall = true → (siteLine? s.pending).isSome = true := by
    intro hc
    rw [← h]
    cases e with
    | runtime line fault => cases hc
    | native f => exact site f rfl
  cases p with
  | site line =>
    refine ⟨backed, fun hc => ?_⟩
    obtain ⟨line', fault, he⟩ := Failure.at_eq_runtime e line
    change (Control.raise (e.at line)).inCall = true at hc
    rw [he] at hc
    cases hc
  | nativeCall => exact ⟨backed.2, fun _ => backed.1⟩
  | _ => exact ⟨backed, lineless rfl⟩

theorem State.Placed.step (h : s.Placed) : (step host s).Placed := by
  unfold Machine.step
  split
  · exact (plain_evaluate _).placed h.backed
  · exact (plain_execute _).placed h.backed
  · exact (plain_go rfl).placed h.backed
  · exact (plain_push (by simp) rfl).placed h.backed
  · exact (plain_go rfl).placed h.backed
  · exact (plain_push (by simp) rfl).placed h.backed
  · next hc => exact h.invoke hc
  · next hc => exact placed_enter h.backed (h.site (by rw [hc]; rfl)) _ _
  · split
    · exact h
    · next v _ _ p rest hp =>
      have backed := h.backed
      rw [hp] at backed
      by_cases native : p = .nativeCall
      · subst native
        exact (plain_give v).placed backed.tail
      · exact (plain_resume v native).placed backed.tail
  · split
    · exact h
    · next f _ _ p rest hp =>
      have backed := h.backed
      rw [hp] at backed
      by_cases native : p = .nativeCall
      · subst native
        exact ⟨backed, nofun⟩
      · exact (plain_proceed f native).placed backed.tail
  · split
    · exact h
    · next e hc _ p rest hp =>
      have backed := h.backed
      have site := h.site
      rw [hp] at backed site
      refine placed_unwind backed fun f he => site ?_
      rw [hc, he]
      rfl

theorem State.Placed.run (h : s.Placed) (n : Nat) : (run host n s).Placed := by
  induction n generalizing s with
  | zero => exact h
  | succ n ih =>
    rw [run_succ]
    exact ih h.step

/-- Nothing is pending when a text begins to run, and it does not begin inside a call. -/
theorem placed_start (world : World) {control : Control} (h : control.inCall = false) : (State.start world control).Placed :=
  (plain_go h).placed (s := State.start world control) trivial

/-- A failure of a run that began outside of calls has a line. -/
theorem State.Placed.outcome? (h : s.Placed) {e : Failure} (failed : s.outcome? = some (.failure e)) :
    ∃ line fault, e = .runtime line fault := by
  cases e with
  | runtime line fault => exact ⟨line, fault, rfl⟩
  | native fault =>
    have site := h.site
    unfold State.outcome? at failed
    split at failed
    · cases failed
    · cases failed
    · next e hp hc =>
      cases failed
      rw [hc, hp] at site
      cases site rfl
    · cases failed

end Placed

section Unwinding

variable (host : Host) {s : State} {e : Failure}

/-- What becomes of a failure that passes through pending work. -/
def Failure.through (e : Failure) : Pending → Failure
  | .site line => e.at line
  | .nativeCall => .native (.custom e.display)
  | _ => e

theorem step_raise {p : Pending} {rest : List Pending} (hc : s.control = .raise e) (hp : s.pending = p :: rest) :
    (step host s).control = .raise (Failure.through e p) ∧ (step host s).pending = rest := by
  unfold step
  rw [hc, hp]
  cases p <;> exact ⟨rfl, rfl⟩

/-- A failure unwinds pending work one piece after the other. -/
theorem run_raise {above below : List Pending} (hc : s.control = .raise e) (hp : s.pending = above ++ below) :
    (run host above.length s).control = .raise (above.foldl Failure.through e) ∧
      (run host above.length s).pending = below := by
  induction above generalizing s e with
  | nil => exact ⟨hc, hp⟩
  | cons p above ih =>
    obtain ⟨control, pending⟩ := step_raise host hc hp
    rw [List.length_cons, run_succ]
    exact ih control pending

theorem siteLine?_eq_some {ps : List Pending} {line : Nat} (h : siteLine? ps = some line) :
    ∃ above below, ps = above ++ .site line :: below ∧ siteLine? above = none := by
  induction ps with
  | nil => cases h
  | cons p ps ih =>
    cases p with
    | site line' =>
      cases h
      exact ⟨[], ps, rfl, rfl⟩
    | _ =>
      obtain ⟨above, below, rfl, none⟩ := ih h
      exact ⟨_ :: above, below, rfl, none⟩

/-- Without a call of the program in between, a failure of a native stays one, in the same words if no native waits. -/
theorem foldl_through_native {ps : List Pending} (none : siteLine? ps = none) (fault : Fault) :
    ∃ fault', ps.foldl Failure.through (.native fault) = .native fault' ∧ (.nativeCall ∉ ps → fault' = fault) := by
  induction ps generalizing fault with
  | nil => exact ⟨fault, rfl, fun _ => rfl⟩
  | cons p ps ih =>
    cases p with
    | site line => cases none
    | nativeCall =>
      obtain ⟨fault', he, -⟩ := ih none (.custom (Failure.native fault).display)
      exact ⟨fault', he, fun h => absurd (.head _) h⟩
    | _ =>
      obtain ⟨fault', he, same⟩ := ih none fault
      exact ⟨fault', he, fun h => same fun hm => h (.tail _ hm)⟩

/-- With a line, a failure stays as it is until it meets a native. -/
theorem foldl_through_runtime {ps : List Pending} (h : .nativeCall ∉ ps) (line : Nat) (fault : Fault) :
    ps.foldl Failure.through (.runtime line fault) = .runtime line fault := by
  induction ps with
  | nil => rfl
  | cons p ps ih =>
    have rest := ih fun hm => h (.tail _ hm)
    cases p with
    | nativeCall => exact absurd (.head _) h
    | _ => exact rest

/-- A native has failed. Its failure takes the line of the innermost call or subscript of the program around it, in its
own words if no native waits in between, and if none waits further out either, the run ends so. -/
theorem State.Placed.native_failure (h : s.Placed) {fault : Fault} (hc : s.control = .raise (.native fault)) :
    ∃ above line below fault', s.pending = above ++ .site line :: below ∧ siteLine? above = none ∧
      (Machine.run host (above.length + 1) s).control = .raise (.runtime line fault') ∧
      (Machine.run host (above.length + 1) s).pending = below ∧ (.nativeCall ∉ above → fault' = fault) ∧
      (.nativeCall ∉ below → ∃ n, (Machine.run host n s).outcome? = some (.failure (.runtime line fault'))) := by
  have site := h.site (by rw [hc]; rfl)
  obtain ⟨line, hl⟩ := Option.isSome_iff_exists.1 site
  obtain ⟨above, below, hp, none⟩ := siteLine?_eq_some hl
  obtain ⟨fault', through, same⟩ := foldl_through_native none fault
  obtain ⟨control, pending⟩ := run_raise host hc hp
  rw [through] at control
  obtain ⟨control', pending'⟩ := step_raise host control pending
  rw [← run_step] at control' pending'
  refine ⟨above, line, below, fault', hp, none, control', pending', same, fun free => ?_⟩
  obtain ⟨last, empty⟩ := run_raise host control' (pending'.trans (List.append_nil below).symm)
  have still : below.foldl Failure.through (.runtime line fault') = .runtime line fault' := foldl_through_runtime free _ _
  rw [← run_add] at last empty
  refine ⟨above.length + 1 + below.length, ?_⟩
  unfold State.outcome?
  rw [empty, last.trans (congrArg Control.raise still)]

theorem enterNative_raise {native : Native} {arguments : List Value}
    (raised : (enterNative host s native arguments).control = .raise e) (hc : s.control ≠ .raise e) :
    ∃ fault, e = .native fault := by
  unfold enterNative at raised
  split at raised
  · cases raised
  · split at raised
    · cases raised
    · exact absurd raised hc
  · split at raised <;> cases raised
    exact ⟨_, rfl⟩
  · split at raised <;> cases raised
    exact ⟨_, rfl⟩
  · dsimp only at raised
    split at raised <;> cases raised
    exact ⟨_, rfl⟩

/-- What is called fails without a line of its own. -/
theorem step_enter_raise {callee : Callee} {arguments : List Value} (hc : s.control = .enter callee arguments)
    (raised : (step host s).control = .raise e) : ∃ fault, e = .native fault := by
  simp only [step, hc, enter] at raised
  split at raised
  · cases raised
  · exact enterNative_raise host raised (by simp [hc])
  · unfold enterClass at raised
    dsimp only at raised
    split at raised <;> cases raised
    exact ⟨_, rfl⟩

end Unwinding

end Scriptlet.Machine
