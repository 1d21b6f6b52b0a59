import Scriptlet.Proofs.ParallelRuns
import Scriptlet.Proofs.RefusedTexts

/-!
Texts that stand for each other. Two expressions are read in the same session, and the second one uses up one number
more. If its tree is analysed as that of the first, with numbers raised by one, and takes the same course, then a host
that submits the one or the other cannot tell, then or later, which of them it was.
-/
namespace Scriptlet.Session

open Machine

/-- The text is free of faults, and these are its words. -/
def Spells (source : String) (words : List Token) : Prop :=
  Item.faults (Token.scan source) = [] ∧ Token.wordsOf source = words

/-- If the first text comes to an end within a limit, so does the second within another, and all that a host sees then and
later is the same. -/
def Imitates (host : Host) (s : Session) (first second : String) : Prop :=
  ∀ limit, (s.submit host limit .expression first).isSome = true → ∃ limit', ∀ ops,
    s.observe host ((.submit .expression second, limit') :: ops) =
      s.observe host ((.submit .expression first, limit) :: ops)

/-- Two texts with these words stand for each other in every session that is about to give out the number `n`, and for every
host that keeps to what is asked of hosts. -/
def Indistinct (ts us : List Token) (n : NodeId) : Prop :=
  ∀ (host : Host) (s : Session) (first second : String), host.Lawful → host.Oblivious → s.Reachable host → s.nextId = n →
    Spells first ts → Spells second us → Imitates host s first second ∧ Imitates host s second first

variable {host : Host} {s : Session}

/-- The session in which one more number has been given out. -/
def advanced (s : Session) : Session := { s with nextId := s.nextId + 1 }

/-- Other distances, of which the numbers in use cannot tell. -/
def withDistances (s : Session) (distances : Distances) : Session := { s with world := { s.world with distances } }

theorem twin_advanced (lawful : host.Lawful) (reachable : s.Reachable host) :
    Twin s.nextId 1 s.reporter.lines.toList s.reporter.lines.toList s s.advanced := by
  obtain ⟨t, life⟩ := reachable
  obtain ⟨layout, recorded⟩ := life.aligned lawful
  have moved : Moved s.nextId 1 s.world.distances s.world.distances :=
    .of_unset (fun _ _ => rfl) recorded.unset fun id le => recorded.unset id (Nat.le_of_succ_le le)
  have store : s.store.Twin (.skip s.nextId 1) .none s.store := .self layout recorded fun id lt => if_pos lt
  exact ⟨⟨.none, store, rfl, moved.fits⟩, rfl, Nat.le_refl _, ⟨[], by simp, by simp [advanced]⟩, rfl, rfl⟩

theorem fits_skip {base : NodeId} {d d' d'' : Distances} (h : (Recasting.skip base 1).Fits d d')
    (agree : ∀ i, i ≠ base → d''.get? i = d'.get? i) : (Recasting.skip base 1).Fits d d'' := by
  apply Moved.fits
  intro id
  rw [agree, h.number]
  simp only [Recasting.skip]
  split
  · next lt => exact Nat.ne_of_lt lt
  · next ge => exact Nat.ne_of_gt (Nat.lt_succ_of_le (Nat.not_lt.1 ge))

/-- What a number stands for that the second session alone has given out shows nowhere. -/
theorem Twin.withDistances {base : NodeId} {ls ls' : List String} {s' : Session} (h : Twin base 1 ls ls' s s')
    {d : Distances} (agree : ∀ i, i ≠ base → d.get? i = s'.world.distances.get? i) :
    Twin base 1 ls ls' s (s'.withDistances d) := by
  obtain ⟨χ, world⟩ := h.world
  exact ⟨⟨χ, world.store, world.console, fits_skip world.fits agree⟩, h.next, h.above, h.reporter⟩

theorem start_withDistances {base : NodeId} {s' : Session} {c c' : Control}
    (h : State.Twin (.skip base 1) (s.start c) (s'.start c')) {d : Distances}
    (agree : ∀ i, i ≠ base → d.get? i = s'.world.distances.get? i) :
    State.Twin (.skip base 1) (s.start c) ((s'.withDistances d).start c') := by
  obtain ⟨χ, ⟨world, frame, pending⟩, control⟩ := h
  exact ⟨χ, ⟨⟨world.store, world.console, fits_skip world.fits agree⟩, frame, pending⟩, control⟩

/-- Two expressions that are read in a session. The second is analysed as the first is, with numbers raised by one, but
for one node, and the two run in parallel where the analysis has let them pass. -/
structure Alternatives (host : Host) (s : Session) (first second : String) (e e' : Expr) (next : NodeId) (d : Distances) :
    Prop where
  scanned : Item.faults (Token.scan first) = []
  scanned' : Item.faults (Token.scan second) = []
  parsed : Parser.parseExpression (tokensOf first) s.nextId = ⟨.ok e, next⟩
  parsed' : Parser.parseExpression (tokensOf second) s.nextId = ⟨.ok e', next + 1⟩
  report : Scope.resolveExpression e' s.world.distances =
    { Scope.resolveExpression ((Parser.higher 1).expr e) s.world.distances with distances := d }
  agree : ∀ i, i ≠ s.nextId →
    d.get? i = (Scope.resolveExpression ((Parser.higher 1).expr e) s.world.distances).distances.get? i
  parallel : (Scope.resolveExpression ((Parser.higher 1).expr e) s.world.distances).result = .ok () →
    ∀ m : State, m.distances = d → Parallel host (m.go (.evaluate ((Parser.higher 1).expr e))) (m.go (.evaluate e'))

section Texts

variable {first second : String} {e e' : Expr} {next : NodeId} {d : Distances}

theorem Alternatives.raised (h : Alternatives host s first second e e' next d) :
    Parser.parseExpression (tokensOf first) s.advanced.nextId = ⟨.ok ((Parser.higher 1).expr e), next + 1⟩ := by
  rw [advanced, Parser.parseExpression_raise, h.parsed]
  rfl

/-- The second text is checked as the first one is when a number more has been given out. -/
theorem Alternatives.check (h : Alternatives host s first second e e' next d) (clear : s.reporter.blocked = false) :
    s.check .expression second = ((s.advanced.check .expression first).1.withDistances d,
      (s.advanced.check .expression first).2.map fun _ => .evaluate e') := by
  have clear' : s.advanced.reporter.blocked = false := clear
  rw [check_eq_load clear h.scanned', check_eq_load clear' h.scanned, load_expression, load_expression, h.parsed', h.raised]
  simp only [process, Session.parsed, Session.resolved, advanced, h.report]
  cases (Scope.resolveExpression ((Parser.higher 1).expr e) s.world.distances).result <;> rfl

theorem check_parsed (clear : s.reporter.blocked = false) (scanned : Item.faults (Token.scan first) = [])
    (parsed : Parser.parseExpression (tokensOf first) s.nextId = ⟨.ok e, next⟩) :
    (s.check .expression first).1.world.distances = (Scope.resolveExpression e s.world.distances).distances ∧
      ∀ c, (s.check .expression first).2 = .ok c →
        c = .evaluate e ∧ (Scope.resolveExpression e s.world.distances).result = .ok () := by
  rw [check_eq_load clear scanned, load_expression, parsed]
  simp only [process, Session.parsed, Session.resolved]
  cases (Scope.resolveExpression e s.world.distances).result with
  | error fault =>
    refine ⟨rfl, fun c refused => ?_⟩
    cases refused
  | ok _ =>
    refine ⟨rfl, fun c passed => ?_⟩
    cases passed
    exact ⟨rfl, rfl⟩

/-- Work that follows other work ends with what that ends with. -/
theorem perform_of_follows {c c' : Control} (h : Follows host (s.start c') (s.start c)) {limit : Nat}
    (ended : (s.perform host limit c).isSome = true) : ∃ limit', s.perform host limit' c' = s.perform host limit c := by
  obtain ⟨m, world, outcome⟩ := h limit
  refine ⟨m, ?_⟩
  unfold perform finish at ended ⊢
  cases found : (run host limit (s.start c)).outcome? with
  | none =>
    rw [found] at ended
    cases ended
  | some o => rw [outcome o found, world]

/-- Of work that answers alike, both has come to an end or neither. -/
theorem Answers.ended {base : NodeId} {k : Nat} {ls ls' : List String} {a a' : Option (Session × Except Error Value)}
    {m m' : Session} (h : Answers base k ls ls' (settle a m) (settle a' m')) :
    Option.Rel (fun x x' => x'.2 = x.2 ∧ Twin base k ls ls' x.1 x'.1) a a' := by
  obtain ⟨result, session⟩ := h
  cases a with
  | none =>
    cases a' with
    | none => exact .none
    | some x' => cases result
  | some x =>
    cases a' with
    | none => cases result
    | some x' => exact .some ⟨Option.some.inj result, session⟩

/-- What the one text comes to the other comes to as well. -/
theorem Alternatives.submit (h : Alternatives host s first second e e' next d) (lawful : host.Lawful)
    (oblivious : host.Oblivious) (reachable : s.Reachable host) (clear : s.reporter.blocked = false) :
    (∀ limit x, s.submit host limit .expression first = some x → ∃ limit' x',
      s.submit host limit' .expression second = some x' ∧ x'.2 = x.2 ∧
        Twin s.nextId 1 s.reporter.lines.toList s.reporter.lines.toList x.1 x'.1) ∧
    ∀ limit' x', s.submit host limit' .expression second = some x' → ∃ limit x,
      s.submit host limit .expression first = some x ∧ x'.2 = x.2 ∧
        Twin s.nextId 1 s.reporter.lines.toList s.reporter.lines.toList x.1 x'.1 := by
  have checked := (twin_advanced lawful reachable).check .expression first
  obtain ⟨distances, passes⟩ := check_parsed (s := s.advanced) clear h.scanned h.raised
  unfold Session.submit
  rw [h.check clear]
  revert checked distances passes
  generalize s.check .expression first = r
  generalize s.advanced.check .expression first = r'
  intro checked distances passes
  have agree : ∀ i, i ≠ s.nextId → d.get? i = r'.1.world.distances.get? i := by
    rw [distances]
    exact h.agree
  cases checked with
  | refused error twin =>
    have twin := twin.withDistances agree
    constructor
    · rintro limit x ⟨⟩
      exact ⟨limit, _, rfl, rfl, twin⟩
    · rintro limit' x' ⟨⟩
      exact ⟨limit', _, rfl, rfl, twin⟩
  | @passed t t' c c' twin start =>
    obtain ⟨rfl, accepted⟩ := passes c' rfl
    have ends (limit : Nat) := ((twin.withDistances agree).settle lawful oblivious (start_withDistances start agree) limit).ended
    have course := h.parallel accepted ((t'.withDistances d).start (.evaluate e')) rfl
    constructor
    · intro limit x ended
      have ends := ends limit
      rw [show t.perform host limit c = some x from ended] at ends
      obtain ⟨none, -⟩ | ⟨y, x', same, ended', alike⟩ := rel_cases ends
      · cases none
      · cases same
        have finished : ((t'.withDistances d).perform host limit (.evaluate ((Parser.higher 1).expr e))).isSome = true := by
          rw [ended', Option.isSome_some]
        obtain ⟨limit', performed⟩ := perform_of_follows course.follows finished
        exact ⟨limit', x', performed.trans ended', alike⟩
    · intro limit' x' ended'
      have ended' : (t'.withDistances d).perform host limit' (.evaluate e') = some x' := ended'
      obtain ⟨limit, performed⟩ := perform_of_follows course.followed (by rw [ended', Option.isSome_some])
      have ends := ends limit
      rw [performed.trans ended'] at ends
      obtain ⟨-, none⟩ | ⟨x, y, ended, same, alike⟩ := rel_cases ends
      · cases none
      · cases same
        exact ⟨limit, x, ended, alike⟩

/-- No host can tell which of two texts it has submitted that are analysed alike and run in parallel. -/
theorem Alternatives.imitates (h : Alternatives host s first second e e' next d) (lawful : host.Lawful)
    (oblivious : host.Oblivious) (reachable : s.Reachable host) :
    Imitates host s first second ∧ Imitates host s second first := by
  by_cases blocked : s.reporter.blocked = true
  · have refused (source : String) (limit : Nat) :
        s.operate host limit (.submit .expression source) = (s, some (.error .pending)) := by
      simp only [operate, Session.submit, Session.check, if_pos blocked]
      rfl
    constructor
    · exact fun limit _ => ⟨limit, fun ops => by simp only [observe, refused]⟩
    · exact fun limit _ => ⟨limit, fun ops => by simp only [observe, refused]⟩
  · have clear : s.reporter.blocked = false := Bool.eq_false_iff.2 blocked
    have operated {source : String} {limit : Nat} {x : Session × Except Error Value}
        (ended : s.submit host limit .expression source = some x) :
        s.operate host limit (.submit .expression source) = (x.1, some x.2) := by
      rw [operate, ended]
      rfl
    have looks {limit limit' : Nat} {x x' : Session × Except Error Value}
        (ended : s.submit host limit .expression first = some x)
        (ended' : s.submit host limit' .expression second = some x') (result : x'.2 = x.2)
        (twin : Twin s.nextId 1 s.reporter.lines.toList s.reporter.lines.toList x.1 x'.1) (ops : List (Operation × Nat)) :
        s.observe host ((.submit .expression second, limit') :: ops) =
          s.observe host ((.submit .expression first, limit) :: ops) := by
      have answers : Answers s.nextId 1 s.reporter.lines.toList s.reporter.lines.toList
          (s.operate host limit (.submit .expression first)) (s.operate host limit' (.submit .expression second)) := by
        rw [operated ended, operated ended']
        exact ⟨congrArg some result, twin⟩
      apply answers.observe rfl (twin_advanced lawful reachable).reporter
      rw [operated ended, operated ended']
      exact twin.observe lawful oblivious ops
    obtain ⟨onward, back⟩ := h.submit lawful oblivious reachable clear
    constructor
    · intro limit finished
      obtain ⟨x, ended⟩ := Option.isSome_iff_exists.1 finished
      obtain ⟨limit', x', ended', result, twin⟩ := onward limit x ended
      exact ⟨limit', looks ended ended' result twin⟩
    · intro limit' finished
      obtain ⟨x', ended'⟩ := Option.isSome_iff_exists.1 finished
      obtain ⟨limit, x, ended, result, twin⟩ := back limit' x' ended'
      exact ⟨limit, fun ops => (looks ended ended' result twin ops).symm⟩

end Texts

end Scriptlet.Session
