import Scriptlet.Proofs.Stages

/-!
What operations report. `sent` lists the diagnostics that an operation hands to the reporter, in order; the reporter
afterwards is the one before, after these have been sent. So its flags tell which kinds of errors have been sent since
the last reset, and a text that fails does so with the first error that it has sent.
-/
namespace Scriptlet

open Machine

/-- What is sent to whoever listens for reports. -/
inductive Diagnostic where
  | error (e : Error)
  | warning (w : Warning)
deriving DecidableEq, Repr

namespace Diagnostic

def display : Diagnostic → String
  | .error e => e.display
  | .warning w => w.display

def error? : Diagnostic → Option Error
  | .error e => some e
  | .warning _ => none

/-- The first error; before it there are only warnings. -/
def firstError? (ds : List Diagnostic) : Option Error := ds.findSome? error?

theorem firstError?_append (ds es : List Diagnostic) :
    firstError? (ds ++ es) = (firstError? ds).or (firstError? es) :=
  List.findSome?_append

theorem firstError?_eq_some {ds : List Diagnostic} {e : Error} :
    firstError? ds = some e ↔ ∃ (ws : List Warning) (es : List Diagnostic), ds = ws.map .warning ++ .error e :: es := by
  constructor
  · intro h
    induction ds with
    | nil => cases h
    | cons d ds ih =>
      cases d with
      | error e' =>
        obtain rfl : e' = e := Option.some.inj h
        exact ⟨[], ds, rfl⟩
      | warning w =>
        obtain ⟨ws, es, rfl⟩ := ih h
        exact ⟨w :: ws, es, rfl⟩
  · rintro ⟨ws, es, rfl⟩
    induction ws with
    | nil => rfl
    | cons w ws ih => exact ih

theorem firstError?_warnings (ws : List Warning) (ds : List Diagnostic) :
    firstError? (ws.map .warning ++ ds) = firstError? ds := by
  induction ws with
  | nil => rfl
  | cons w ws ih => exact ih

end Diagnostic

namespace Reporter

def send (r : Reporter) : Diagnostic → Reporter
  | .error e => r.error e
  | .warning w => r.warning w

def sendAll (r : Reporter) (ds : List Diagnostic) : Reporter := ds.foldl send r

theorem sendAll_append (r : Reporter) (ds es : List Diagnostic) : r.sendAll (ds ++ es) = (r.sendAll ds).sendAll es :=
  List.foldl_append

theorem errors_eq_sendAll (r : Reporter) (es : List Error) : r.errors es = r.sendAll (es.map .error) := by
  rw [sendAll, List.foldl_map]
  rfl

theorem warnings_eq_sendAll (r : Reporter) (ws : List Warning) : r.warnings ws = r.sendAll (ws.map .warning) := by
  rw [sendAll, List.foldl_map]
  rfl

theorem lines_sendAll (r : Reporter) (ds : List Diagnostic) :
    (r.sendAll ds).lines.toList = r.lines.toList ++ ds.map Diagnostic.display := by
  induction ds generalizing r with
  | nil => simp [sendAll]
  | cons d ds ih =>
    have first : (r.send d).lines.toList = r.lines.toList ++ [d.display] := by
      cases d <;> simp [send, error, warning, Diagnostic.display]
    change ((r.send d).sendAll ds).lines.toList = _
    rw [ih, first]
    simp

/-- A flag is up if it was so before or an error of its kind has been sent; warnings raise none. -/
theorem flags_sendAll (r : Reporter) (ds : List Diagnostic) :
    ((r.sendAll ds).hadError = true ↔ r.hadError = true ∨ ∃ e, .error e ∈ ds ∧ e.isRuntime = false) ∧
      ((r.sendAll ds).hadRuntimeError = true ↔ r.hadRuntimeError = true ∨ ∃ e, .error e ∈ ds ∧ e.isRuntime = true) := by
  induction ds generalizing r with
  | nil => simp [sendAll]
  | cons d ds ih =>
    obtain ⟨static, running⟩ := ih (r.send d)
    change ((r.send d).sendAll ds).hadError = true ↔ _ at static
    refine ⟨static.trans ?_, running.trans ?_⟩
    · cases d with
      | error e => simp [send, error, or_assoc, or_and_right, exists_or]
      | warning w => simp [send, warning]
    · cases d with
      | error e => simp [send, error, or_assoc, or_and_right, exists_or]
      | warning w => simp [send, warning]

theorem blocked_sendAll (r : Reporter) (ds : List Diagnostic) :
    (r.sendAll ds).blocked = (r.blocked || (Diagnostic.firstError? ds).isSome) := by
  induction ds generalizing r with
  | nil => exact (Bool.or_false _).symm
  | cons d ds ih =>
    change ((r.send d).sendAll ds).blocked = _
    rw [ih]
    cases d with
    | error e => cases hk : e.isRuntime <;> simp [send, error, blocked, hk, Diagnostic.firstError?, Diagnostic.error?]
    | warning w => rfl

end Reporter

namespace Session

/-- What the stages of a check report on a text. -/
def findings (s : Session) (form : Form) (source : String) : List Diagnostic :=
  match Item.faults (Token.scan source) with
  | f :: fs => ((f :: fs).map fun (line, fault) => Error.ofLex line fault).map .error
  | [] =>
    match (form.parse (tokensOf source) s.nextId).result with
    | .error es => (es.map Error.ofParse).map .error
    | .ok tree =>
      let report := form.resolve tree s.world.distances
      let refusal := match report.result with
        | .error e => [.error (.ofResolve e)]
        | .ok () => []
      (report.warnings.map Warning.ofScope).map .warning ++ refusal

/-- What is reported on a machine that has halted. -/
def aftermath (m : State) : List Diagnostic :=
  match m.outcome? with
  | some (.failure e) => [.error (.ofFailure e)]
  | _ => []

/-- The diagnostics that an operation sends, in order. -/
def sent (host : Host) (limit : Nat) (s : Session) : Operation → List Diagnostic
  | .submit form source =>
    if s.reporter.blocked then []
    else s.findings form source ++
      match s.check form source with
      | (s, .ok control) => aftermath (run host limit (s.start control))
      | (_, .error _) => []
  | .call target arguments =>
    match s.aim target with
    | (s, .ok callee) => aftermath (run host limit (s.start (.invoke callee arguments .host)))
    | (_, .error _) => []
  | .create target arguments =>
    match s.aim target with
    | (s, .ok (.class c)) => aftermath (run host limit (s.start (.invoke (.class c) arguments .host)))
    | _ => []
  | _ => []

/-- The diagnostics sent by operations since the last reset among them, after those sent before. -/
def sentSince (host : Host) (s : Session) (before : List Diagnostic) : List (Operation × Nat) → List Diagnostic
  | [] => before
  | (.reset, limit) :: ops => sentSince host (s.operate host limit .reset).1 [] ops
  | (op, limit) :: ops => sentSince host (s.operate host limit op).1 (before ++ s.sent host limit op) ops

variable {host : Host} {s : Session} {form : Form} {source : String}

/-- A check sends what the stages find and fails with the first error among it, if there is one. -/
theorem check_findings (clear : s.reporter.blocked = false) (form : Form) (source : String) :
    (s.check form source).1.reporter = s.reporter.sendAll (s.findings form source) ∧
      ((∃ e, (s.check form source).2 = .error e ∧ e.isRuntime = false ∧ e ≠ .pending ∧
        Diagnostic.firstError? (s.findings form source) = some e) ∨
      ∃ control, (s.check form source).2 = .ok control ∧ Diagnostic.firstError? (s.findings form source) = none) := by
  unfold findings
  rcases check_stages clear form source with ⟨line, fault, more, scanned, h⟩ | ⟨scanned, ⟨e, es, parsed, h⟩ |
    ⟨tree, parsed, ⟨e, resolved, h⟩ | ⟨resolved, h⟩⟩⟩
  · rw [h, scanned]
    exact ⟨Reporter.errors_eq_sendAll _ _, .inl ⟨_, rfl, rfl, by simp [Error.ofLex], rfl⟩⟩
  · rw [h, scanned, parsed]
    exact ⟨Reporter.errors_eq_sendAll _ _, .inl ⟨_, rfl, rfl, by simp [Error.ofParse], rfl⟩⟩
  · rw [h, scanned, parsed]
    simp only [resolved]
    rw [Reporter.sendAll_append, ← Reporter.warnings_eq_sendAll, Diagnostic.firstError?_warnings]
    exact ⟨Reporter.errors_eq_sendAll _ _, .inl ⟨_, rfl, rfl, by simp [Error.ofResolve], rfl⟩⟩
  · rw [h, scanned, parsed]
    simp only [resolved]
    rw [Reporter.sendAll_append, ← Reporter.warnings_eq_sendAll, Diagnostic.firstError?_warnings]
    exact ⟨rfl, .inr ⟨_, rfl, rfl⟩⟩

/-- A halted machine is reported on, and the result is its failure if it has one. -/
theorem finish_aftermath {m : State} {s' : Session} {r : Except Error Value} (h : s.finish m = some (s', r)) :
    s'.reporter = s.reporter.sendAll (aftermath m) ∧
      ((∃ e, r = .error e ∧ e.isRuntime = true ∧ aftermath m = [.error e]) ∨ ∃ v, r = .ok v ∧ aftermath m = []) := by
  unfold finish at h
  unfold aftermath
  rcases ho : m.outcome? with _ | (v | f | e) <;> rw [ho] at h
  · cases h
  · cases h
    exact ⟨rfl, .inr ⟨v, rfl, rfl⟩⟩
  · cases h
    exact ⟨rfl, .inr ⟨.null, rfl, rfl⟩⟩
  · cases h
    exact ⟨rfl, .inl ⟨_, rfl, by cases e <;> rfl, rfl⟩⟩

/-- A machine that has not halted has nothing to be reported. -/
theorem aftermath_of_unfinished {m : State} (h : s.finish m = none) : aftermath m = [] := by
  unfold finish at h
  unfold aftermath
  split
  · next e ho =>
    rw [ho] at h
    cases h
  · rfl

/-- Work sends what is reported on its end, whether or not it comes to one. -/
theorem reporter_settle (s : Session) (limit : Nat) (control : Control) :
    (settle (s.perform host limit control) (s.underway host limit control)).1.reporter =
      s.reporter.sendAll (aftermath (run host limit (s.start control))) := by
  unfold perform
  cases h : s.finish (run host limit (s.start control)) with
  | none =>
    rw [aftermath_of_unfinished h]
    rfl
  | some ended => exact (finish_aftermath h).1

theorem reporter_aim (s : Session) (target : Target) : (s.aim target).1.reporter = s.reporter := by
  cases target with
  | value v => rfl
  | address address =>
    rw [aim, get]
    split <;> rfl

/-- Every operation but a reset changes the reporter by what it sends, and only so. -/
theorem reporter_operate (host : Host) (s : Session) (limit : Nat) {op : Operation} (h : op ≠ .reset) :
    (s.operate host limit op).1.reporter = s.reporter.sendAll (s.sent host limit op) := by
  cases op with
  | submit form source =>
    simp only [operate, sent, submit]
    cases blocked : s.reporter.blocked with
    | true =>
      rw [check_of_blocked blocked]
      rfl
    | false =>
      obtain ⟨reporter, -⟩ := check_findings blocked form source
      rw [if_neg (by simp), Reporter.sendAll_append, ← reporter]
      rcases s.check form source with ⟨s', e | control⟩
      · rfl
      · exact reporter_settle s' limit control
  | call target arguments =>
    have aimed := reporter_aim s target
    simp only [operate, sent]
    revert aimed
    rcases s.aim target with ⟨s', e | callee⟩ <;> intro aimed <;> rw [← aimed]
    · rfl
    · exact reporter_settle s' limit _
  | create target arguments =>
    have aimed := reporter_aim s target
    simp only [operate, sent]
    revert aimed
    rcases s.aim target with ⟨s', e | v⟩ <;> intro aimed <;> rw [← aimed]
    · rfl
    · cases v with
      | «class» c => exact reporter_settle s' limit _
      | _ => rfl
  | get address =>
    exact reporter_aim s (.address address)
  | set address value =>
    simp only [operate, sent, set]
    split <;> rfl
  | define name value => rfl
  | native name arity behaviour => rfl
  | nativeClass name arity statics initializer => rfl
  | reset => exact absurd rfl h

/-- A text that is taken fails with the first error that it sends, and only if it sends one. -/
theorem firstError?_sent {limit : Nat} {s' : Session} {r : Except Error Value} (clear : s.reporter.blocked = false)
    (h : s.operate host limit (.submit form source) = (s', some r)) :
    (∃ e, r = .error e ∧ e ≠ .pending ∧ Diagnostic.firstError? (s.sent host limit (.submit form source)) = some e) ∨
      ∃ v, r = .ok v ∧ Diagnostic.firstError? (s.sent host limit (.submit form source)) = none := by
  obtain ⟨-, found⟩ := check_findings clear form source
  simp only [operate, submit] at h
  rw [sent, clear, if_neg (by simp), Diagnostic.firstError?_append]
  rcases hc : s.check form source with ⟨s₁, e | control⟩ <;> rw [hc] at h found
  · obtain ⟨e', he, -, pending, first⟩ | ⟨control, he, -⟩ := found
    · cases he
      cases h
      exact .inl ⟨e, rfl, pending, by rw [first]; rfl⟩
    · cases he
  · obtain ⟨e', he, -⟩ | ⟨control', -, first⟩ := found
    · cases he
    · rw [first, Option.none_or]
      unfold perform at h
      cases hf : s₁.finish (run host limit (s₁.start control)) with
      | none =>
        simp only [hf] at h
        cases h
      | some ended =>
        simp only [hf] at h
        cases h
        obtain ⟨-, ⟨e, failed, running, sent⟩ | ⟨v, passed, sent⟩⟩ := finish_aftermath hf
        · refine .inl ⟨e, failed, ?_, by simp only [sent]; rfl⟩
          rintro rfl
          cases running
        · exact .inr ⟨v, passed, by simp only [sent]; rfl⟩

theorem clear_of_check {s' : Session} {control : Control} (h : s.check form source = (s', .ok control)) :
    s'.reporter.blocked = false := by
  cases clear : s.reporter.blocked with
  | true =>
    rw [check_of_blocked clear] at h
    cases h
  | false =>
    obtain ⟨reporter, ⟨e, he, -⟩ | ⟨control, -, none⟩⟩ := check_findings clear form source <;> rw [h] at *
    · cases he
    · rw [reporter, Reporter.blocked_sendAll, clear, none]
      rfl

theorem clear_of_finish {m : State} {s' : Session} {v : Value} (clear : s.reporter.blocked = false)
    (h : s.finish m = some (s', .ok v)) : s'.reporter.blocked = false := by
  obtain ⟨reporter, ⟨e, he, -⟩ | ⟨v, -, none⟩⟩ := finish_aftermath h
  · cases he
  · rw [reporter, Reporter.blocked_sendAll, clear, none]
    rfl

/-- What has been sent since the last reset decides on the flags. -/
theorem reporter_after (ops : List (Operation × Nat)) (before : List Diagnostic)
    (h : ∃ lines, s.reporter = Reporter.sendAll ⟨lines, false, false⟩ before) :
    ∃ lines, (s.after host ops).reporter = Reporter.sendAll ⟨lines, false, false⟩ (s.sentSince host before ops) := by
  induction ops generalizing s before with
  | nil => exact h
  | cons op ops ih =>
    obtain ⟨op, limit⟩ := op
    obtain ⟨lines, h⟩ := h
    by_cases reset : op = .reset
    · subst reset
      exact ih [] ⟨_, rfl⟩
    · have sent : ∃ lines, (s.operate host limit op).1.reporter =
          Reporter.sendAll ⟨lines, false, false⟩ (before ++ s.sent host limit op) :=
        ⟨lines, by rw [reporter_operate host s limit reset, h, Reporter.sendAll_append]⟩
      have next := ih (before ++ s.sent host limit op) sent
      cases op with
      | reset => exact absurd rfl reset
      | _ => exact next

end Session

end Scriptlet
